import Mathlib.Data.List.Basic
import Mathlib.Tactic.Common

/-!
# Entries that agree

Keys with values, entered one after another. The entries agree when no key has two values.
What is found under a key then depends on the set of entries alone, not on their order or on
how often one of them is entered.
-/

namespace Arma.Base.Agreeing

variable {κ ν : Type}

/-- No key has two values. -/
def Agree (es : List (κ×ν)) : Prop := ∀ p∈es, ∀ q∈es, p.1=q.1 → p.2=q.2

/-- Whether entries agree depends on which ones there are. -/
theorem Agree.of_subset {es fs : List (κ×ν)} (h : Agree es) (hsub : ∀ p∈fs, p∈es) : Agree fs :=
  fun p hp q hq => h p (hsub p hp) q (hsub q hq)

variable [DecidableEq κ]

/-- What is found was entered. -/
theorem mem_of_lookup {es : List (κ×ν)} {k : κ} {v : ν} (h : es.lookup k=some v) : (k,v)∈es := by
  obtain ⟨before,after,rfl,-⟩ := List.lookup_eq_some_iff.mp h
  exact List.mem_append_right _ List.mem_cons_self

/-- What was entered is found when the entries agree. -/
theorem Agree.lookup {es : List (κ×ν)} (h : Agree es) {k : κ} {v : ν} (hmem : (k,v)∈es) :
    es.lookup k=some v := by
  cases hfound : es.lookup k with
  | none =>
    have hno := List.lookup_eq_none_iff.mp hfound (k,v) hmem
    simp at hno
  | some w => exact congrArg some (h _ (mem_of_lookup hfound) _ hmem rfl)

/-- Under a key the entry at the end is found when none is there before. -/
theorem lookup_concat (es : List (κ×ν)) (k x : κ) (v : ν) :
    (es++[(k,v)]).lookup x=(es.lookup x).or (if x=k then some v else none) := by
  rw [List.lookup_append]
  congr 1
  by_cases hx : x=k
  · rw [if_pos hx,hx,List.lookup_cons_self]
  · rw [if_neg hx,List.lookup_eq_none_iff]
    simpa using hx

/-- One more entry agrees with the others when it says what they say. -/
theorem agree_concat {es : List (κ×ν)} {k : κ} {v : ν} :
    Agree (es++[(k,v)]) ↔ Agree es ∧ ∀ w, es.lookup k=some w → w=v := by
  constructor
  · intro h
    refine ⟨fun p hp q hq => ?_,fun w hw => ?_⟩
    · exact h p (List.mem_append_left _ hp) q (List.mem_append_left _ hq)
    · exact h _ (List.mem_append_left _ (mem_of_lookup hw)) _
        (List.mem_append_right _ List.mem_cons_self) rfl
  · rintro ⟨hes,hlast⟩ p hp q hq hkeys
    have hold : ∀ w, (k,w)∈es → w=v := fun w hw => hlast w (hes.lookup hw)
    rcases List.mem_append.mp hp with hp | hp
    · rcases List.mem_append.mp hq with hq | hq
      · exact hes p hp q hq hkeys
      · obtain rfl := List.mem_singleton.mp hq
        exact hold p.2 (by rw [←show p.1=k from hkeys]; exact hp)
    · obtain rfl := List.mem_singleton.mp hp
      rcases List.mem_append.mp hq with hq | hq
      · exact (hold q.2 (by rw [show k=q.1 from hkeys]; exact hq)).symm
      · obtain rfl := List.mem_singleton.mp hq
        rfl

/-- So does what is found under a key. -/
theorem Agree.lookup_congr {es fs : List (κ×ν)} (h : Agree es) (hsame : ∀ p, p∈es ↔ p∈fs) (k : κ) :
    fs.lookup k=es.lookup k := by
  have hfs : Agree fs := h.of_subset fun p => (hsame p).mpr
  cases hfound : es.lookup k with
  | some v => exact hfs.lookup ((hsame _).mp (mem_of_lookup hfound))
  | none =>
    cases hother : fs.lookup k with
    | none => rfl
    | some w =>
      rw [h.lookup ((hsame _).mpr (mem_of_lookup hother))] at hfound
      cases hfound

end Arma.Base.Agreeing
