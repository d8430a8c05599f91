import Arma.Devtree.Merge

/-!
# Property names of a merged tree

Merging sets properties and adds nodes, and takes nothing away. At every depth the
property names of a merged tree are those of the tree and those of what is merged
into it.
-/

namespace Arma.Devtree.Names

open Merge

section Lists

variable {α : Type} {P : α → Prop} {C : Prop}

/-- What a list has once an element of it is changed or a new one is added. -/
theorem exists_upsert {hit : α → Bool} {change : α → α} {new : α} (l : List α)
    (hchange : ∀ a, hit a=true → (P (change a) ↔ P a ∨ C)) (hnew : P new ↔ C) :
    (∃ a∈upsert hit change new l, P a) ↔ (∃ a∈l, P a) ∨ C := by
  induction l with
  | nil => simp [upsert,hnew]
  | cons a rest ih =>
    unfold upsert
    by_cases ha : hit a=true
    · rw [if_pos ha,List.exists_mem_cons_iff,List.exists_mem_cons_iff,hchange a ha,or_right_comm]
    · rw [if_neg ha,List.exists_mem_cons_iff,List.exists_mem_cons_iff,ih,or_assoc]

/-- What a list has once the element of a number is changed. -/
theorem exists_modify {change : α → α} {i : ℕ} {a : α} {l : List α} (ha : l[i]?=some a)
    (hchange : P (change a) ↔ P a ∨ C) :
    (∃ b∈l.modify i change, P b) ↔ (∃ b∈l, P b) ∨ C := by
  induction l generalizing i with
  | nil => cases ha
  | cons b rest ih =>
    cases i with
    | zero =>
      cases ha
      rw [List.modify_zero_cons,List.exists_mem_cons_iff,List.exists_mem_cons_iff,hchange,
        or_right_comm]
    | succ i =>
      rw [List.modify_succ_cons,List.exists_mem_cons_iff,List.exists_mem_cons_iff,ih ha,or_assoc]

/-- A list has what it had when the change of an element does not matter. -/
theorem exists_modify_same {change : α → α} (hchange : ∀ a, P (change a) ↔ P a) (l : List α)
    (i : ℕ) : (∃ b∈l.modify i change, P b) ↔ ∃ b∈l, P b := by
  cases ha : l[i]? with
  | none => rw [List.modify_eq_self (List.getElem?_eq_none_iff.mp ha)]
  | some a =>
    have hnone : P (change a) ↔ P a ∨ False := by rw [hchange,or_false]
    rw [exists_modify ha hnone,or_false]

end Lists

/-- A name is used in one of several trees. -/
theorem mem_namesOfAll {name : String} {l : List Node} :
    name∈namesOfAll l ↔ ∃ n∈l, name∈n.propertyNames := by
  induction l with
  | nil => simp [namesOfAll]
  | cons n rest ih => rw [namesOfAll,List.mem_append,List.exists_mem_cons_iff,ih]

/-- A name is used at a node or below it. -/
theorem mem_propertyNames {name : String} {n : Node} : name∈n.propertyNames ↔
    (∃ p∈n.properties, p.name=name) ∨ ∃ c∈n.children, name∈c.propertyNames := by
  cases n with
  | mk own properties children =>
    rw [Node.propertyNames,List.mem_append,List.mem_map,mem_namesOfAll]
    rfl

/-- The names of properties after some are set. -/
theorem exists_setAll (name : String) (new properties : List Property) :
    (∃ q∈new.foldl setProperty properties, q.name=name) ↔
      (∃ q∈properties, q.name=name) ∨ ∃ p∈new, p.name=name := by
  induction new generalizing properties with
  | nil => simp
  | cons p rest ih =>
    have hset : (∃ q∈setProperty properties p, q.name=name) ↔
        (∃ q∈properties, q.name=name) ∨ p.name=name :=
      exists_upsert properties (fun q hq => by rw [of_decide_eq_true hq,or_self]) Iff.rfl
    rw [List.foldl_cons,ih,hset,List.exists_mem_cons_iff,or_assoc]

/-- What some of the children have once nodes are merged into them. -/
theorem exists_mergeAll {found : String → String → Bool} {P : Node → Prop} {new : List Node}
    (hmerge : ∀ child∈new, ∀ kid, found child.name kid.name=true →
      (P (mergeInto found child kid) ↔ P kid ∨ P child))
    (hnew : ∀ child∈new, P (mergeInto found child (.mk child.name [] [])) ↔ P child)
    (kids : List Node) :
    (∃ c∈mergeAll found new kids, P c) ↔ (∃ c∈kids, P c) ∨ ∃ c∈new, P c := by
  induction new generalizing kids with
  | nil =>
    rw [mergeAll]
    simp
  | cons child rest ih =>
    obtain ⟨hchild,hrest⟩ := List.forall_mem_cons.mp hmerge
    obtain ⟨hchildNew,hrestNew⟩ := List.forall_mem_cons.mp hnew
    rw [mergeAll,ih hrest hrestNew,exists_upsert kids hchild hchildNew,List.exists_mem_cons_iff,
      or_assoc]

/-- A new node has no properties and no children. -/
theorem propertyNames_new (own : String) : (Node.mk own [] []).propertyNames=[] := rfl

mutual

/-- The names of a merged node are those of both nodes. -/
theorem mem_mergeInto (found : String → String → Bool) (name : String) :
    (overlay target : Node) → (name∈(mergeInto found overlay target).propertyNames ↔
      name∈target.propertyNames ∨ name∈overlay.propertyNames)
  | .mk own properties children,target => by
    have hkids := mem_mergeInto_all found name children
    have hnew : ∀ child∈children,
        (name∈(mergeInto found child (.mk child.name [] [])).propertyNames ↔
          name∈child.propertyNames) := by
      intro child hchild
      rw [hkids child hchild,propertyNames_new]
      simp
    rw [mergeInto,mem_propertyNames (n := .mk target.name _ _)]
    have hall := exists_mergeAll (P := fun c => name∈c.propertyNames)
      (fun child hchild kid _ => hkids child hchild kid) hnew target.children
    have hset := exists_setAll name properties target.properties
    rw [mem_propertyNames (n := target),mem_propertyNames (n := .mk own properties children)]
    dsimp only [Node.properties,Node.children] at hall hset ⊢
    rw [hall,hset,or_or_or_comm]

/-- The names of a node that one of several is merged into. -/
theorem mem_mergeInto_all (found : String → String → Bool) (name : String) :
    (l : List Node) → ∀ child∈l, ∀ target,
      (name∈(mergeInto found child target).propertyNames ↔
        name∈target.propertyNames ∨ name∈child.propertyNames)
  | [] => fun _ hchild => absurd hchild List.not_mem_nil
  | n::rest => List.forall_mem_cons.mpr
    ⟨mem_mergeInto found name n,mem_mergeInto_all found name rest⟩

end

/-- The names of a tree in which a node is changed without changing its names. -/
theorem mem_changeAt {change : Node → Node} {name : String}
    (hchange : ∀ n, name∈(change n).propertyNames ↔ name∈n.propertyNames) (pos : List ℕ)
    (n : Node) : name∈(changeAt change pos n).propertyNames ↔ name∈n.propertyNames := by
  induction pos generalizing n with
  | nil => exact hchange n
  | cons i rest ih =>
    have hkids := exists_modify_same (P := fun c => name∈c.propertyNames) ih n.children i
    rw [changeAt,mem_propertyNames,mem_propertyNames (n := n),←hkids]
    rfl

end Arma.Devtree.Names
