import Mathlib.Tactic.Common

/-!
# Framed reading

A reader takes a value from the front of a string. It is framed when it finds
the value in what it took, whatever follows. A frame that is cut is then not
read, and two frames do not begin one string.
-/

namespace Arma.Base.Frames

/-- A reader gives a value and what follows it. -/
abbrev Reader (α β : Type) : Type := List α → Option (β×List α)

section
variable {α β : Type} {read : Reader α β}

/-- The string is read as the value, whatever follows it. -/
def Frame (read : Reader α β) (w : List α) (b : β) : Prop := ∀ rest, read (w++rest)=some (b,rest)

/-- What the reader takes is a frame, and not empty. -/
def Framed (read : Reader α β) : Prop :=
  ∀ (xs rest : List α) (b : β), read xs=some (b,rest) → ∃ w, w≠[] ∧ xs=w++rest ∧ Frame read w b

/-- A frame is read where nothing follows it. -/
theorem Frame.alone {w : List α} {b : β} (h : Frame read w b) : read w=some (b,[]) := by
  have hread := h []
  rwa [List.append_nil] at hread

/-- Reading takes something away. -/
theorem Framed.shrinks (hread : Framed read) {xs rest : List α} {b : β}
    (h : read xs=some (b,rest)) : rest.length<xs.length := by
  obtain ⟨w,hw,rfl,-⟩ := hread xs rest b h
  have hpos := List.length_pos_iff.mpr hw
  rw [List.length_append]
  omega

/-- What is read off the front of a frame is the frame. -/
theorem Frame.unique (hread : Framed read) {w front rest : List α} {b c : β} (h : Frame read w b)
    (hfront : read front=some (c,rest)) (hfirst : front<+:w) : front=w ∧ rest=[] ∧ c=b := by
  obtain ⟨v,-,rfl,hframe⟩ := hread front rest c hfront
  obtain ⟨more,rfl⟩ := hfirst
  have hwhole := h.alone
  rw [List.append_assoc,hframe] at hwhole
  obtain ⟨rfl,hnil⟩ := Prod.mk.inj (Option.some.inj hwhole)
  obtain ⟨rfl,rfl⟩ := List.append_eq_nil_iff.mp hnil
  exact ⟨(List.append_nil _).symm,rfl,rfl⟩

/-- A frame that is cut is not read. -/
theorem Frame.cut (hread : Framed read) {w : List α} {b : β} (h : Frame read w b) {k : ℕ}
    (hk : k<w.length) : read (w.take k)=none := by
  cases hcut : read (w.take k) with
  | none => rfl
  | some found =>
    have hsame := (h.unique hread hcut (List.take_prefix k w)).1
    have hlength := congrArg List.length hsame
    rw [List.length_take] at hlength
    omega

/-- The string is frames in a row, and the value has what each of them holds. -/
inductive Concatenated {γ : Type} (read : Reader α (List γ)) : List α → List γ → Prop where
  /-- One frame. -/
  | last {w : List α} {b : List γ} (h : read w=some (b,[])) : Concatenated read w b
  /-- A frame in front of others. -/
  | more {w rest : List α} {b c : List γ} (h : read w=some (b,rest)) (hrest : rest≠[])
    (hc : Concatenated read rest c) : Concatenated read w (b++c)

/-- A string is frames in a row in one way. -/
theorem Concatenated.unique {γ : Type} {read : Reader α (List γ)} {w : List α} {b c : List γ}
    (hb : Concatenated read w b) (hc : Concatenated read w c) : b=c := by
  induction hb generalizing c with
  | last h =>
    cases hc with
    | last h' => exact (Prod.mk.inj (Option.some.inj (h.symm.trans h'))).1
    | more h' hrest _ => exact absurd (Prod.mk.inj (Option.some.inj (h.symm.trans h'))).2.symm hrest
  | more h hrest _ ih =>
    cases hc with
    | last h' => exact absurd (Prod.mk.inj (Option.some.inj (h.symm.trans h'))).2 hrest
    | more h' _ hmore =>
      obtain ⟨rfl,rfl⟩ := Prod.mk.inj (Option.some.inj (h.symm.trans h'))
      rw [ih hmore]

/-- Read values until nothing is left, at most as many as there is fuel. -/
def readAll (read : Reader α β) : ℕ → List α → Option (List β)
  | _,[] => some []
  | 0,_::_ => none
  | fuel+1,x::xs => (read (x::xs)).bind fun found => (readAll read fuel found.2).map (found.1::·)

/-- The strings are frames of the values, one by one, and none is empty. -/
abbrev Row (read : Reader α β) (ws : List (List α)) (bs : List β) : Prop :=
  List.Forall₂ (fun w b => w≠[] ∧ Frame read w b) ws bs

/-- Frames in a row are read one by one. -/
theorem readAll_frames {ws : List (List α)} {bs : List β} (h : Row read ws bs) {fuel : ℕ}
    (hfuel : ws.length ≤ fuel) : readAll read fuel ws.flatten=some bs := by
  induction h generalizing fuel with
  | nil => cases fuel <;> rfl
  | @cons w b ws bs hw _ ih =>
    obtain ⟨hne,hframe⟩ := hw
    obtain ⟨x,xs,rfl⟩ := List.exists_cons_of_ne_nil hne
    cases fuel with
    | zero => exact absurd hfuel (Nat.not_succ_le_zero _)
    | succ fuel =>
      have hrest := ih (Nat.le_of_succ_le_succ hfuel)
      have hread := hframe ws.flatten
      rw [List.flatten_cons,List.cons_append,readAll,←List.cons_append,hread,Option.bind_some,hrest]
      rfl

/-- There are at most as many frames as there are elements in them. -/
theorem Row.length_le {ws : List (List α)} {bs : List β} (h : Row read ws bs) :
    ws.length ≤ ws.flatten.length := by
  induction h with
  | nil => exact Nat.le_refl 0
  | @cons w b ws bs hw _ ih =>
    have hpos := List.length_pos_iff.mpr hw.1
    rw [List.flatten_cons,List.length_append,List.length_cons]
    omega

/-- A whole string of frames is read with its length for fuel. -/
theorem Row.readAll {ws : List (List α)} {bs : List β} (h : Row read ws bs) :
    readAll read ws.flatten.length ws.flatten=some bs := readAll_frames h h.length_le

end

end Arma.Base.Frames
