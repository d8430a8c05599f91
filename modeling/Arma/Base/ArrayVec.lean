import Mathlib.Data.Finset.Card
import Mathlib.Data.List.Basic
import Mathlib.Tactic.Common

/-!
# Vectors of bounded capacity

A vector whose length never exceeds its capacity. Pushing into a full vector
yields no vector.
-/

namespace Arma.Base.ArrayVec

/-- A list of at most `cap` elements. -/
structure ArrayVec (α : Type) (cap : ℕ) where
  /-- The elements in the order they were pushed. -/
  toList : List α
  /-- The capacity is respected. -/
  bound : toList.length ≤ cap

variable {α : Type} {cap : ℕ}

/-- The vector without elements. -/
def ArrayVec.empty : ArrayVec α cap := ⟨[],Nat.zero_le _⟩

/-- Append one element, unless the vector is full. -/
def ArrayVec.tryPush (v : ArrayVec α cap) (a : α) : Option (ArrayVec α cap) :=
  if h : v.toList.length < cap then
    some ⟨v.toList++[a],by rw [List.length_append]; exact h⟩
  else none

/-- Vectors with the same elements are equal. -/
theorem ArrayVec.ext_toList {v w : ArrayVec α cap} (h : v.toList=w.toList) : v=w := by
  cases v
  cases w
  cases h
  rfl

/-- A new vector has no elements. -/
@[simp] theorem ArrayVec.toList_empty : (ArrayVec.empty : ArrayVec α cap).toList=[] := rfl

/-- A push that succeeds appends the element. -/
theorem ArrayVec.tryPush_some {v w : ArrayVec α cap} {a : α} :
    v.tryPush a=some w ↔ w.toList=v.toList++[a] := by
  unfold ArrayVec.tryPush
  split
  · rw [Option.some.injEq]
    constructor
    · rintro rfl
      rfl
    · exact fun h => ArrayVec.ext_toList h.symm
  · rename_i hfull
    simp only [reduceCtorEq,false_iff]
    intro h
    have hbound := w.bound
    rw [h,List.length_append,List.length_singleton] at hbound
    omega

/-- A push fails when the vector is full. -/
theorem ArrayVec.tryPush_none {v : ArrayVec α cap} {a : α} :
    v.tryPush a=none ↔ v.toList.length=cap := by
  have hbound := v.bound
  unfold ArrayVec.tryPush
  split
  · simp only [reduceCtorEq,false_iff]
    omega
  · simp only [true_iff]
    omega

/-- The vector holds each element of the list, once. -/
structure ArrayVec.Holds [DecidableEq α] (v : ArrayVec α cap) (l : List α) : Prop where
  /-- No element is there twice. -/
  nodup : v.toList.Nodup
  /-- The elements are those of the list. -/
  same : v.toList.toFinset=l.toFinset

variable [DecidableEq α]

/-- It has as many elements as the list has different ones. -/
theorem ArrayVec.Holds.length {v : ArrayVec α cap} {l : List α} (h : v.Holds l) :
    v.toList.length=l.toFinset.card := by
  rw [←h.same,List.toFinset_card_of_nodup h.nodup]

/-- An element that is there is held already. -/
theorem ArrayVec.Holds.present {v : ArrayVec α cap} {l : List α} (h : v.Holds l) {a : α}
    (ha : a∈v.toList) : v.Holds (l++[a]) := by
  refine ⟨h.nodup,?_⟩
  have hmem : a∈l.toFinset := h.same ▸ List.mem_toFinset.mpr ha
  have hsub : [a].toFinset⊆l.toFinset := by
    rw [List.toFinset_cons,List.toFinset_nil,insert_empty_eq]
    exact Finset.singleton_subset_iff.mpr hmem
  rw [h.same,List.toFinset_append,Finset.union_eq_left.mpr hsub]

/-- Another element is pushed. -/
theorem ArrayVec.Holds.push {v w : ArrayVec α cap} {l : List α} (h : v.Holds l) {a : α}
    (ha : a∉v.toList) (hpush : v.tryPush a=some w) : w.Holds (l++[a]) := by
  have hlist := ArrayVec.tryPush_some.mp hpush
  constructor
  · rw [hlist]
    exact List.nodup_append.mpr ⟨h.nodup,List.nodup_singleton a,by
      intro b hb c hc hbc
      rw [List.mem_singleton] at hc
      exact ha (hc ▸ hbc ▸ hb)⟩
  · rw [hlist,List.toFinset_append,List.toFinset_append,h.same]

/-- There is no room for another element when there are too many. -/
theorem ArrayVec.Holds.full {v : ArrayVec α cap} {l : List α} (h : v.Holds l) {a : α}
    (ha : a∉v.toList) (hpush : v.tryPush a=none) : cap<(l++[a]).toFinset.card := by
  have hlength := h.length
  have hcap := ArrayVec.tryPush_none.mp hpush
  have hnew : a∉l.toFinset := h.same ▸ fun hmem => ha (List.mem_toFinset.mp hmem)
  have hcard : (l++[a]).toFinset.card=l.toFinset.card+1 := by
    rw [List.toFinset_append,List.toFinset_cons,List.toFinset_nil,insert_empty_eq,
      Finset.card_union_of_disjoint (Finset.disjoint_singleton_right.mpr hnew),
      Finset.card_singleton]
  omega

end Arma.Base.ArrayVec
