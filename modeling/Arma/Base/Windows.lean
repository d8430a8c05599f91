import Mathlib.Order.Bounds.Basic
import Arma.Base.ByteString

/-!
# Searching a string for another

A search slides a window over a string and stops where the window holds the string that it
looks for. The first such place is the least one.
-/

namespace Arma.Base.Windows

open ByteString

variable {α : Type}

/-- The places where a string occurs in another. -/
def occurrences (needle hay : List α) : Set ℕ := {i | i < hay.length ∧ needle<+:hay.drop i}

/-- Nothing occurs in the empty string. -/
theorem occurrences_nil (needle : List α) : occurrences needle []=∅ :=
  Set.eq_empty_of_forall_notMem fun i hi => absurd hi.1 (Nat.not_lt_zero i)

/-- An occurrence behind the first element is one in the rest. -/
theorem mem_occurrences_cons {needle rest : List α} {a : α} {i : ℕ} :
    i+1∈occurrences needle (a::rest) ↔ i∈occurrences needle rest := by
  change i+1 < rest.length+1 ∧ needle<+:rest.drop i ↔ i < rest.length ∧ needle<+:rest.drop i
  exact and_congr_left' Nat.succ_lt_succ_iff

/-- An occurrence at the front. -/
theorem zero_mem_occurrences {needle rest : List α} {a : α} :
    0∈occurrences needle (a::rest) ↔ needle<+:a::rest :=
  and_iff_right (Nat.succ_pos rest.length)

/-- An occurrence is inside the string. -/
theorem occurrence_le {needle hay : List α} {i : ℕ} (h : i∈occurrences needle hay) :
    i+needle.length≤hay.length := by
  have hle := h.2.length_le
  rw [List.length_drop] at hle
  have hlt := h.1
  omega

/-- An occurrence holds the string. -/
theorem slice_occurrence {needle hay : List α} {i : ℕ} (h : i∈occurrences needle hay) :
    slice i needle.length hay=needle := by
  obtain ⟨back,hback⟩ := h.2
  rw [slice,←hback,List.take_left]

/-- A string that is not empty occurs between any two others. -/
theorem mem_occurrences_append {needle : List α} (hne : needle≠[]) (front back : List α) :
    front.length∈occurrences needle (front++needle++back) := by
  have hpos := List.length_pos_iff.mpr hne
  constructor
  · rw [List.length_append,List.length_append]
    omega
  · rw [List.append_assoc,List.drop_left]
    exact List.prefix_append needle back

/-- An occurrence behind a place. -/
theorem mem_occurrences_drop {needle hay : List α} {start i : ℕ} :
    i∈occurrences needle (hay.drop start) ↔ start+i∈occurrences needle hay := by
  change i < (hay.drop start).length ∧ needle<+:(hay.drop start).drop i ↔
    start+i < hay.length ∧ needle<+:hay.drop (start+i)
  rw [List.length_drop,List.drop_drop]
  exact and_congr_left' (by omega)

/-- The occurrences from a place on at which there is something of use. -/
def useful {β : Type} (needle hay : List α) (use : List α → Option β) (start : ℕ) : Set ℕ :=
  {i | start≤ i ∧ i∈occurrences needle hay ∧ (use (hay.drop i)).isSome=true}

variable [DecidableEq α]

/-- `windows(n).position(..)`: where a string that is not empty first occurs in another. -/
def position (needle : List α) : List α → Option ℕ
  | [] => none
  | a::rest => if needle<+:a::rest then some 0 else (position needle rest).map (·+1)

/-- A search that fails has looked everywhere. -/
theorem position_none {needle hay : List α} :
    position needle hay=none ↔ occurrences needle hay=∅ := by
  induction hay with
  | nil => exact iff_of_true rfl (occurrences_nil needle)
  | cons a rest ih =>
    rw [position]
    by_cases hhead : needle<+:a::rest
    · rw [if_pos hhead]
      refine iff_of_false (Option.some_ne_none 0) fun hempty => ?_
      have hmem : 0∈occurrences needle (a::rest) := zero_mem_occurrences.mpr hhead
      rw [hempty] at hmem
      exact hmem
    · rw [if_neg hhead,Option.map_eq_none_iff,ih]
      constructor
      · intro hrest
        refine Set.eq_empty_of_forall_notMem fun i hi => ?_
        cases i with
        | zero => exact hhead (zero_mem_occurrences.mp hi)
        | succ j =>
          have hj := mem_occurrences_cons.mp hi
          rw [hrest] at hj
          exact hj
      · intro hall
        refine Set.eq_empty_of_forall_notMem fun i hi => ?_
        have hi' : i+1∈occurrences needle (a::rest) := mem_occurrences_cons.mpr hi
        rw [hall] at hi'
        exact hi'

/-- A search stops at the first occurrence. -/
theorem position_some {needle hay : List α} {i : ℕ} :
    position needle hay=some i ↔ IsLeast (occurrences needle hay) i := by
  induction hay generalizing i with
  | nil =>
    refine iff_of_false nofun fun h => ?_
    have hmem := h.1
    rw [occurrences_nil] at hmem
    exact hmem
  | cons a rest ih =>
    rw [position]
    by_cases hhead : needle<+:a::rest
    · rw [if_pos hhead,Option.some.injEq]
      have hleast : IsLeast (occurrences needle (a::rest)) 0 :=
        ⟨zero_mem_occurrences.mpr hhead,fun j _ => Nat.zero_le j⟩
      constructor
      · intro hzero
        exact hzero ▸ hleast
      · intro h
        exact hleast.unique h
    · rw [if_neg hhead,Option.map_eq_some_iff]
      constructor
      · intro h
        obtain ⟨j,hj,hji⟩ := h
        obtain ⟨hmem,hlow⟩ := ih.mp hj
        subst hji
        refine ⟨mem_occurrences_cons.mpr hmem,fun k hk => ?_⟩
        cases k with
        | zero => exact absurd (zero_mem_occurrences.mp hk) hhead
        | succ k => exact Nat.succ_le_succ (hlow (mem_occurrences_cons.mp hk))
      · intro h
        cases i with
        | zero => exact absurd (zero_mem_occurrences.mp h.1) hhead
        | succ j =>
          refine ⟨j,ih.mpr ⟨mem_occurrences_cons.mp h.1,fun k hk => ?_⟩,rfl⟩
          exact Nat.succ_le_succ_iff.mp (h.2 (mem_occurrences_cons.mpr hk))

/-- The least occurrence splits a string around what occurs. -/
theorem position_split {needle hay : Bytes} {i : ℕ} : position needle hay=some i ↔
    ∃ front back, hay=front++needle++back ∧ front.length=i ∧
      IsLeast (occurrences needle hay) front.length := by
  rw [position_some]
  constructor
  · intro h
    have hroom := occurrence_le h.1
    have hfront : (hay.take i).length=i := by
      rw [List.length_take]
      omega
    refine ⟨hay.take i,hay.drop (i+needle.length),?_,hfront,by rwa [hfront]⟩
    conv_lhs => rw [←List.take_append_drop i hay]
    rw [←List.take_append_drop needle.length (hay.drop i),List.drop_drop]
    change _++(slice i needle.length hay++_)=_
    rw [slice_occurrence h.1,List.append_assoc]
  · rintro ⟨front,back,-,hfront,hleast⟩
    rwa [hfront] at hleast

/-- A search finds what is there. -/
theorem exists_position {needle hay : List α} {i : ℕ} (h : i∈occurrences needle hay) :
    ∃ j, position needle hay=some j ∧ j≤ i := by
  cases hpos : position needle hay with
  | none =>
    rw [position_none.mp hpos] at h
    exact absurd h (Set.notMem_empty i)
  | some j => exact ⟨j,rfl,(position_some.mp hpos).2 h⟩

section
variable {β : Type} {needle hay : List α} {use : List α → Option β} {start : ℕ}

/-- The first occurrence from a place on. -/
theorem position_drop_some {rel : ℕ} (h : position needle (hay.drop start)=some rel) :
    start+rel∈occurrences needle hay ∧
      ∀ i∈occurrences needle hay, start≤ i → start+rel≤ i := by
  obtain ⟨hmem,hlow⟩ := position_some.mp h
  refine ⟨mem_occurrences_drop.mp hmem,fun i hi hstart => ?_⟩
  have hback : start+(i-start)=i := by omega
  rw [←hback] at hi
  have hle := hlow (mem_occurrences_drop.mpr hi)
  omega

/-- No occurrence from a place on. -/
theorem position_drop_none (h : position needle (hay.drop start)=none) {i : ℕ}
    (hi : i∈occurrences needle hay) : i < start := by
  by_contra hstart
  have hback : start+(i-start)=i := by omega
  rw [←hback] at hi
  have hmem := mem_occurrences_drop.mpr hi
  rw [position_none.mp h] at hmem
  exact hmem

end

/-- A search that goes on behind an occurrence that is of no use. -/
def search {β : Type} (needle hay : List α) (use : List α → Option β) (start : ℕ) : Option β :=
  match _h : position needle (hay.drop start) with
  | none => none
  | some rel =>
    match use (hay.drop (start+rel)) with
    | some b => some b
    | none => search needle hay use (start+rel+1)
termination_by hay.length-start
decreasing_by
  have hlt := (position_drop_some _h).1.1
  omega

section
variable {β : Type} {needle hay : List α} {use : List α → Option β} {start : ℕ}

/-- A search without an occurrence finds nothing. -/
theorem search_of_none (h : position needle (hay.drop start)=none) :
    search needle hay use start=none := by
  rw [search]
  split
  · rfl
  · rename_i hsome
    rw [h] at hsome
    cases hsome

/-- A search takes the first occurrence or goes on behind it. -/
theorem search_of_some {rel : ℕ} (h : position needle (hay.drop start)=some rel) :
    search needle hay use start=
      (use (hay.drop (start+rel))).or (search needle hay use (start+rel+1)) := by
  rw [search]
  split
  · rename_i hnone
    rw [h] at hnone
    cases hnone
  · rename_i rel' hsome
    obtain rfl : rel=rel' := Option.some.inj (h.symm.trans hsome)
    cases huse : use (hay.drop (start+rel)) with
    | none => rw [Option.none_or]
    | some b => rw [Option.some_or]

/-- Behind an occurrence of no use there is the same of use. -/
theorem useful_next {rel : ℕ} (h : position needle (hay.drop start)=some rel)
    (huse : use (hay.drop (start+rel))=none) :
    useful needle hay use start=useful needle hay use (start+rel+1) := by
  ext i
  constructor
  · intro hi
    have hle := (position_drop_some h).2 i hi.2.1 hi.1
    refine ⟨?_,hi.2⟩
    by_contra hlast
    obtain rfl : i=start+rel := by omega
    have hsome := hi.2.2
    rw [huse] at hsome
    cases hsome
  · intro hi
    have hfrom := hi.1
    exact ⟨by omega,hi.2⟩

/-- A search finds what is at the first occurrence of use, and nothing when there is none. -/
theorem search_spec (needle hay : List α) (use : List α → Option β) (start : ℕ) :
    (useful needle hay use start=∅ ∧ search needle hay use start=none) ∨
      ∃ i, IsLeast (useful needle hay use start) i ∧
        search needle hay use start=use (hay.drop i) := by
  induction hroom : hay.length-start using Nat.strong_induction_on generalizing start with
  | _ room ih =>
    cases hpos : position needle (hay.drop start) with
    | none =>
      refine .inl ⟨Set.eq_empty_of_forall_notMem fun i hi => ?_,search_of_none hpos⟩
      exact absurd (position_drop_none hpos hi.2.1) (Nat.not_lt.mpr hi.1)
    | some rel =>
      obtain ⟨hmem,hlow⟩ := position_drop_some hpos
      rw [search_of_some hpos]
      cases huse : use (hay.drop (start+rel)) with
      | some b =>
        refine .inr ⟨start+rel,⟨⟨by omega,hmem,by rw [huse]; rfl⟩,?_⟩,huse.symm⟩
        exact fun i hi => hlow i hi.2.1 hi.1
      | none =>
        rw [Option.none_or,useful_next hpos huse]
        have hlt := hmem.1
        exact ih (hay.length-(start+rel+1)) (by omega) _ rfl

/-- A search fails when nothing is of use. -/
theorem search_none : search needle hay use start=none ↔ useful needle hay use start=∅ := by
  rcases search_spec needle hay use start with ⟨hempty,hnone⟩ | ⟨i,hleast,hfound⟩
  · exact iff_of_true hnone hempty
  · refine iff_of_false (fun hnone => ?_) hleast.nonempty.ne_empty
    rw [hfound] at hnone
    have hsome := hleast.1.2.2
    rw [hnone] at hsome
    cases hsome

/-- A search finds what is at the first occurrence of use. -/
theorem search_some {b : β} : search needle hay use start=some b ↔
    ∃ i, IsLeast (useful needle hay use start) i ∧ use (hay.drop i)=some b := by
  rcases search_spec needle hay use start with ⟨hempty,hnone⟩ | ⟨i,hleast,hfound⟩
  · refine iff_of_false (fun hsome => ?_) fun ⟨i,hleast,_⟩ => hleast.nonempty.ne_empty hempty
    rw [hnone] at hsome
    cases hsome
  · rw [hfound]
    constructor
    · exact fun hsome => ⟨i,hleast,hsome⟩
    · rintro ⟨j,hj,hsome⟩
      rwa [hleast.unique hj]

end

end Arma.Base.Windows
