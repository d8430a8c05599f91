import Mathlib.Data.List.Nodup
import Mathlib.Data.List.Perm.Basic
import Mathlib.Tactic.Common

/-!
# Lists with distinct keys

In a list whose elements have distinct keys, a search by key finds the one
element that carries it, and that element may be moved to the front.
-/

namespace Arma.Base.Keyed

variable {α β : Type} [DecidableEq β] {key : α → β} {l : List α} {a : α}

/-- A search for the key of an element finds that element. -/
theorem find?_key (hn : (l.map key).Nodup) (ha : a∈l) :
    (l.find? fun b => decide (key b=key a))=some a := by
  cases h : l.find? fun b => decide (key b=key a) with
  | none =>
    have hne := List.find?_eq_none.mp h a ha
    simp at hne
  | some b =>
    have hb : key b=key a := by simpa using List.find?_some h
    rw [List.inj_on_of_nodup_map hn (List.mem_of_find?_eq_some h) ha hb]

/-- An element may be moved in front of the elements with other keys. -/
theorem perm_cons_filter (hn : (l.map key).Nodup) (ha : a∈l) :
    l.Perm (a::l.filter fun b => decide (key b≠key a)) := by
  have hone : (l.filter fun b => decide (key b=key a))=[a] := by
    have hnodup : (l.filter fun b => decide (key b=key a)).Nodup := (hn.of_map).filter _
    refine List.perm_singleton.mp ((List.perm_ext_iff_of_nodup hnodup (List.nodup_singleton a)).mpr ?_)
    intro b
    rw [List.mem_filter,List.mem_singleton,decide_eq_true_eq]
    constructor
    · rintro ⟨hb,hk⟩
      exact List.inj_on_of_nodup_map hn hb ha hk
    · rintro rfl
      exact ⟨ha,rfl⟩
  have hsplit := List.filter_append_perm (fun b => decide (key b=key a)) l
  simp only [hone,←decide_not,List.singleton_append] at hsplit
  exact hsplit.symm

end Arma.Base.Keyed
