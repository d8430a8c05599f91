import Mathlib.Algebra.BigOperators.Group.Finset.Basic
import Mathlib.Algebra.Order.BigOperators.Group.Finset
import Mathlib.Logic.Relation
import Arma.Base.Checked
import Arma.Base.Ordered

/-!
# Depth-first closure

A walk over a graph with an explicit stack: a node is entered, its successors
are walked, and it is left. A node that is met while it is entered but not left
closes a cycle. When no cycle is reachable the walk ends with exactly the nodes
that are reachable from where it started.
-/

namespace Arma.Base.Closure

open Checked Ordered Relation

variable {α ε : Type} {succ : α → Option (List α)}

/-- There is an edge between the nodes. -/
def Edge (succ : α → Option (List α)) (p q : α) : Prop := ∃ next, succ p=some next ∧ q∈next

/-- The innermost node of a stack that is entered but not left. -/
def nearest (stack : List (α×Bool)) : Option α := (stack.find? Prod.snd).map Prod.fst

/-- Every entry is a successor of the innermost node below it that is entered. -/
def Linked (succ : α → Option (List α)) : List (α×Bool) → Prop
  | [] => True
  | e::stack => (∀ p, nearest stack=some p → Edge succ p e.1) ∧ Linked succ stack

/-- The innermost active node lies behind nodes to enter. -/
theorem nearest_enter (next : List α) (p : α) (stack : List (α×Bool)) :
    nearest (next.map (·,false)++(p,true)::stack)=some p := by
  induction next with
  | nil => rfl
  | cons q next ih => exact ih

/-- Successors are linked to the node that is entered. -/
theorem linked_enter {next : List α} {p : α} {stack : List (α×Bool)}
    (hnext : ∀ q∈next, Edge succ p q) (h : Linked succ ((p,true)::stack)) :
    Linked succ (next.map (·,false)++(p,true)::stack) := by
  induction next with
  | nil => exact h
  | cons q next ih =>
    obtain ⟨hq,hnext⟩ := List.forall_mem_cons.mp hnext
    refine ⟨fun r hr => ?_,ih hnext⟩
    have hp : some p=some r := (nearest_enter next p stack).symm.trans hr
    cases hp
    exact hq

/-- An active node leads to whatever lies above it. -/
theorem path_above {q : α} {b : Bool} {stack : List (α×Bool)} (h : Linked succ ((q,b)::stack))
    {p : α} (hp : (p,true)∈stack) : TransGen (Edge succ) p q := by
  induction stack generalizing q b with
  | nil => exact absurd hp List.not_mem_nil
  | cons e stack ih =>
    obtain ⟨hnear,hrest⟩ := h
    obtain ⟨r,entered⟩ := e
    cases entered with
    | true =>
      have hedge : Edge succ r q := hnear r rfl
      obtain hsame | hbelow := List.mem_cons.mp hp
      · cases hsame
        exact .single hedge
      · exact .tail (ih hrest hbelow) hedge
    | false =>
      obtain hsame | hbelow := List.mem_cons.mp hp
      · cases hsame
      · exact @ih q b ⟨hnear,hrest.2⟩ hbelow

variable [LinearOrder α]

/-- Work through a stack of nodes to enter and to leave. -/
def walk (succ : α → Option (List α)) (cycle : α → ε) :
    ℕ → List (α×Bool) → OrdSet α → OrdSet α → Outcome ε (OrdSet α×OrdSet α)
  | _,[],done,active => .ok (done,active)
  | 0,_::_,_,_ => .error .panic
  | fuel+1,(p,true)::stack,done,active => walk succ cycle fuel stack (done.add p) (active.remove p)
  | fuel+1,(p,false)::stack,done,active =>
    if done.contains p=true then walk succ cycle fuel stack done active
    else if active.contains p=true then fail (cycle p)
    else do
      let next ← unwrap (succ p)
      walk succ cycle fuel (next.map (·,false)++(p,true)::stack) done (active.add p)

/-- Walk from several nodes, one after another. -/
def walkAll (succ : α → Option (List α)) (cycle : α → ε) (fuel : ℕ) :
    List α → OrdSet α → OrdSet α → Outcome ε (OrdSet α)
  | [],done,_ => .ok done
  | root::roots,done,active => do
    let st ← walk succ cycle fuel [(root,false)] done active
    walkAll succ cycle fuel roots st.1 st.2

/-- Every successor of a node that is entered is done or above it. -/
def Covered (succ : α → Option (List α)) (done : OrdSet α) : List α → List (α×Bool) → Prop
  | _,[] => True
  | above,(p,true)::stack =>
    (∀ q, Edge succ p q → q∈done.keys ∨ q∈above) ∧ Covered succ done (p::above) stack
  | above,(p,false)::stack => Covered succ done (p::above) stack

/-- What holds all along a walk that starts from the nodes of `start`. -/
structure Walking (succ : α → Option (List α)) (start : α → Prop) (stack : List (α×Bool))
    (done active : OrdSet α) : Prop where
  /-- The active nodes are those that are entered but not left. -/
  entered : ∀ p, p∈active.keys ↔ (p,true)∈stack
  /-- No node is entered twice. -/
  distinct : ((stack.filter Prod.snd).map Prod.fst).Nodup
  /-- No active node is done. -/
  apart : ∀ p∈active.keys, p∉done.keys
  /-- Entries are successors of the innermost active node below. -/
  linked : Linked succ stack
  /-- Successors of active nodes are done or still to come. -/
  covered : Covered succ done [] stack
  /-- Successors of nodes that are done are done. -/
  closed : ∀ p∈done.keys, ∀ q, Edge succ p q → q∈done.keys
  /-- No node that is done is on a cycle. -/
  acyclic : ∀ p∈done.keys, ¬TransGen (Edge succ) p p
  /-- All entries are reachable. -/
  reach : ∀ e∈stack, ∃ s, start s ∧ ReflTransGen (Edge succ) s e.1
  /-- All nodes that are done are reachable. -/
  reached : ∀ p∈done.keys, ∃ s, start s ∧ ReflTransGen (Edge succ) s p

/-- More may be done, or be above, as long as nothing gets lost. -/
theorem Covered.mono {done done' : OrdSet α} {above above' : List α} {stack : List (α×Bool)}
    (h : Covered succ done above stack) (hdone : ∀ q∈done.keys, q∈done'.keys)
    (habove : ∀ q∈above, q∈done'.keys ∨ q∈above') : Covered succ done' above' stack := by
  induction stack generalizing above above' with
  | nil => trivial
  | cons e stack ih =>
    have hcons : ∀ p, ∀ q∈p::above, q∈done'.keys ∨ q∈p::above' := by
      intro p q hq
      obtain rfl | hq := List.mem_cons.mp hq
      · exact .inr List.mem_cons_self
      · exact (habove q hq).imp_right (List.mem_cons_of_mem p)
    obtain ⟨p,entered⟩ := e
    cases entered with
    | true =>
      refine ⟨fun q hq => ?_,ih h.2 (hcons p)⟩
      obtain hq | hq := h.1 q hq
      · exact .inl (hdone q hq)
      · exact habove q hq
    | false => exact @ih (p::above) (p::above') h (hcons p)

/-- Nodes to enter are above what follows. -/
theorem covered_enter {done : OrdSet α} {next above : List α} {stack : List (α×Bool)}
    (h : Covered succ done (next.reverse++above) stack) :
    Covered succ done above (next.map (·,false)++stack) := by
  induction next generalizing above with
  | nil => exact h
  | cons q next ih =>
    rw [List.reverse_cons,List.append_assoc] at h
    exact @ih (q::above) h

/-- Entering a node keeps what holds all along. -/
theorem Walking.enter {start : α → Prop} {p : α} {next : List α} {stack : List (α×Bool)}
    {done active : OrdSet α} (h : Walking succ start ((p,false)::stack) done active)
    (hnext : succ p=some next) (hdone : p∉done.keys) (hactive : p∉active.keys) :
    Walking succ start (next.map (·,false)++(p,true)::stack) done (active.add p) := by
  have hedge : ∀ q∈next, Edge succ p q := fun q hq => ⟨next,hnext,hq⟩
  have hentered : ∀ r, (r,true)∉next.map (·,false) := by
    intro r hr
    obtain ⟨q,_,hq⟩ := List.mem_map.mp hr
    cases hq
  have hfilter : (next.map (·,false)).filter Prod.snd=([] : List (α×Bool)) := by
    rw [List.filter_eq_nil_iff]
    intro e he
    obtain ⟨q,_,rfl⟩ := List.mem_map.mp he
    exact Bool.false_ne_true
  refine ⟨fun r => ?_,?_,fun r hr => ?_,linked_enter hedge h.linked,?_,h.closed,h.acyclic,
    fun e he => ?_,h.reached⟩
  · rw [OrdMap.mem_add,h.entered r,List.mem_append,List.mem_cons,List.mem_cons]
    constructor
    · rintro (rfl | hr)
      · exact .inr (.inl rfl)
      · obtain hr | hr := hr
        · cases hr
        · exact .inr (.inr hr)
    · rintro (hr | hr | hr)
      · exact absurd hr (hentered r)
      · cases hr
        exact .inl rfl
      · exact .inr (.inr hr)
  · rw [List.filter_append,hfilter,List.nil_append,List.filter_cons_of_pos rfl,List.map_cons]
    have hbelow : ((stack.filter Prod.snd).map Prod.fst).Nodup := h.distinct
    refine List.nodup_cons.mpr ⟨fun hp => hactive ?_,hbelow⟩
    obtain ⟨e,he,hep⟩ := List.mem_map.mp hp
    obtain ⟨he,hentered⟩ := List.mem_filter.mp he
    refine (h.entered p).mpr (List.mem_cons_of_mem _ ?_)
    have heq : e=(p,true) := Prod.ext hep hentered
    exact heq ▸ he
  · obtain rfl | hr := OrdMap.mem_add.mp hr
    · exact hdone
    · exact h.apart r hr
  · have hcovered : Covered succ done [p] stack := h.covered
    refine covered_enter ⟨fun q hq => ?_,hcovered.mono (fun q hq => hq) fun q hq => ?_⟩
    · obtain ⟨next',hnext',hq⟩ := hq
      cases hnext.symm.trans hnext'
      exact .inr (List.mem_append_left _ (List.mem_reverse.mpr hq))
    · cases List.mem_singleton.mp hq
      exact .inr List.mem_cons_self
  · obtain ⟨s,hs,hpath⟩ := h.reach _ List.mem_cons_self
    obtain he | he := List.mem_append.mp he
    · obtain ⟨q,hq,rfl⟩ := List.mem_map.mp he
      exact ⟨s,hs,hpath.tail (hedge q hq)⟩
    · obtain rfl | he := List.mem_cons.mp he
      · exact ⟨s,hs,hpath⟩
      · exact h.reach e (List.mem_cons_of_mem _ he)

/-- Leaving a node keeps what holds all along. -/
theorem Walking.leave {start : α → Prop} {p : α} {stack : List (α×Bool)} {done active : OrdSet α}
    (h : Walking succ start ((p,true)::stack) done active) :
    Walking succ start stack (done.add p) (active.remove p) := by
  have hactive : p∈active.keys := (h.entered p).mpr List.mem_cons_self
  have hedges : ∀ q, Edge succ p q → q∈done.keys := by
    intro q hq
    obtain hq | hq := h.covered.1 q hq
    · exact hq
    · exact absurd hq List.not_mem_nil
  have hdistinct := h.distinct
  rw [List.filter_cons_of_pos rfl,List.map_cons,List.nodup_cons] at hdistinct
  have hbelow : (p,true)∉stack := fun hp =>
    hdistinct.1 (List.mem_map.mpr ⟨_,List.mem_filter.mpr ⟨hp,rfl⟩,rfl⟩)
  -- what leads from a node that is done stays among the nodes that are done
  have hstays : ∀ q r, q∈done.keys → ReflTransGen (Edge succ) q r → r∈done.keys := by
    intro q r hq hpath
    induction hpath with
    | refl => exact hq
    | tail _ hedge ih => exact h.closed _ ih _ hedge
  refine ⟨fun r => ?_,hdistinct.2,fun r hr => ?_,h.linked.2,?_,fun r hr q hq => ?_,fun r hr hpath => ?_,
    fun e he => h.reach e (List.mem_cons_of_mem _ he),fun r hr => ?_⟩
  · rw [OrdMap.mem_remove,h.entered r,List.mem_cons]
    constructor
    · rintro ⟨hr | hr,hne⟩
      · cases hr
        exact absurd rfl hne
      · exact hr
    · intro hr
      refine ⟨.inr hr,?_⟩
      rintro rfl
      exact hbelow hr
  · obtain ⟨hr,hne⟩ := OrdMap.mem_remove.mp hr
    rw [OrdMap.mem_add]
    rintro (rfl | hdone)
    · exact hne rfl
    · exact h.apart r hr hdone
  · have hcovered : Covered succ done [p] stack := h.covered.2
    refine hcovered.mono (fun q hq => OrdMap.mem_add.mpr (.inr hq)) fun q hq => ?_
    cases List.mem_singleton.mp hq
    exact .inl (OrdMap.mem_add.mpr (.inl rfl))
  · obtain rfl | hr := OrdMap.mem_add.mp hr
    · exact OrdMap.mem_add.mpr (.inr (hedges q hq))
    · exact OrdMap.mem_add.mpr (.inr (h.closed r hr q hq))
  · obtain rfl | hr := OrdMap.mem_add.mp hr
    · obtain ⟨q,hedge,hback⟩ := TransGen.head'_iff.mp hpath
      exact h.apart r hactive (hstays q r (hedges q hedge) hback)
    · exact h.acyclic r hr hpath
  · obtain rfl | hr := OrdMap.mem_add.mp hr
    · exact h.reach _ List.mem_cons_self
    · exact h.reached r hr

/-- Passing a node that is done keeps what holds all along. -/
theorem Walking.pass {start : α → Prop} {p : α} {stack : List (α×Bool)} {done active : OrdSet α}
    (h : Walking succ start ((p,false)::stack) done active) (hdone : p∈done.keys) :
    Walking succ start stack done active := by
  refine ⟨fun r => ?_,h.distinct,h.apart,h.linked.2,?_,h.closed,h.acyclic,
    fun e he => h.reach e (List.mem_cons_of_mem _ he),h.reached⟩
  · rw [h.entered r,List.mem_cons]
    constructor
    · rintro (hr | hr)
      · cases hr
      · exact hr
    · exact .inr
  · have hcovered : Covered succ done [p] stack := h.covered
    refine hcovered.mono (fun q hq => hq) fun q hq => ?_
    cases List.mem_singleton.mp hq
    exact .inl hdone

/-- A walk that ends keeps what holds all along, and leaves everything that was
on the stack done. -/
theorem walk_ok {start : α → Prop} {fuel : ℕ} {stack : List (α×Bool)}
    {done active : OrdSet α} (h : Walking succ start stack done active) {st : OrdSet α×OrdSet α}
    (hwalk : walk succ cycle fuel stack done active=.ok st) :
    Walking succ start [] st.1 st.2 ∧ (∀ p∈done.keys, p∈st.1.keys) ∧
      ∀ e∈stack, e.1∈st.1.keys := by
  induction fuel,stack,done,active using walk.induct with
  | case1 fuel done active =>
    rw [walk] at hwalk
    cases hwalk
    exact ⟨h,fun p hp => hp,fun e he => absurd he List.not_mem_nil⟩
  | case2 e stack done active =>
    rw [walk] at hwalk
    cases hwalk
  | case3 fuel p stack done active ih =>
    rw [walk] at hwalk
    obtain ⟨hend,hdone,hstack⟩ := ih h.leave hwalk
    have hp : p∈st.1.keys := hdone p (OrdMap.mem_add.mpr (.inl rfl))
    exact ⟨hend,fun q hq => hdone q (OrdMap.mem_add.mpr (.inr hq)),
      List.forall_mem_cons.mpr ⟨hp,hstack⟩⟩
  | case4 fuel p stack done active hp ih =>
    rw [walk,if_pos hp] at hwalk
    have hp := OrdMap.contains_iff.mp hp
    obtain ⟨hend,hdone,hstack⟩ := ih (h.pass hp) hwalk
    exact ⟨hend,hdone,List.forall_mem_cons.mpr ⟨hdone p hp,hstack⟩⟩
  | case5 fuel p stack done active hdone hactive =>
    rw [walk,if_neg hdone,if_pos hactive] at hwalk
    exact absurd hwalk fail_ne_ok
  | case6 fuel p stack done active hdone hactive ih =>
    rw [walk,if_neg hdone,if_neg hactive] at hwalk
    obtain ⟨next,hnext,hwalk⟩ := bind_ok.mp hwalk
    have hnext := unwrap_ok.mp hnext
    have henter := h.enter hnext (fun hp => hdone (OrdMap.contains_iff.mpr hp))
      (fun hp => hactive (OrdMap.contains_iff.mpr hp))
    obtain ⟨hend,hkept,hstack⟩ := ih next henter hwalk
    have hp : p∈st.1.keys := hstack (p,true) (List.mem_append_right _ List.mem_cons_self)
    exact ⟨hend,hkept,List.forall_mem_cons.mpr ⟨hp,fun e he =>
      hstack e (List.mem_append_right _ (List.mem_cons_of_mem _ he))⟩⟩

/-- A walk is stopped by a node on a cycle only. -/
theorem walk_cycle {start : α → Prop} {fuel : ℕ} {stack : List (α×Bool)}
    {done active : OrdSet α} (h : Walking succ start stack done active) {e : ε}
    (hwalk : walk succ cycle fuel stack done active=fail e) :
    ∃ p s, e=cycle p ∧ start s ∧ ReflTransGen (Edge succ) s p ∧ TransGen (Edge succ) p p := by
  induction fuel,stack,done,active using walk.induct with
  | case1 fuel done active =>
    rw [walk] at hwalk
    cases hwalk
  | case2 e stack done active =>
    rw [walk] at hwalk
    cases hwalk
  | case3 fuel p stack done active ih =>
    rw [walk] at hwalk
    exact ih h.leave hwalk
  | case4 fuel p stack done active hp ih =>
    rw [walk,if_pos hp] at hwalk
    exact ih (h.pass (OrdMap.contains_iff.mp hp)) hwalk
  | case5 fuel p stack done active hdone hactive =>
    rw [walk,if_neg hdone,if_pos hactive] at hwalk
    cases hwalk
    have hentered := (h.entered p).mp (OrdMap.contains_iff.mp hactive)
    obtain hsame | hbelow := List.mem_cons.mp hentered
    · cases hsame
    · obtain ⟨s,hs,hpath⟩ := h.reach _ List.mem_cons_self
      exact ⟨p,s,rfl,hs,hpath,path_above h.linked hbelow⟩
  | case6 fuel p stack done active hdone hactive ih =>
    rw [walk,if_neg hdone,if_neg hactive] at hwalk
    cases hnext : succ p with
    | none =>
      rw [hnext] at hwalk
      cases hwalk
    | some next =>
      rw [hnext] at hwalk
      exact ih next (h.enter hnext (fun hp => hdone (OrdMap.contains_iff.mpr hp))
        (fun hp => hactive (OrdMap.contains_iff.mpr hp))) hwalk

/-- Steps that entering and leaving a node takes, with its successors. -/
def cost (succ : α → Option (List α)) (p : α) : ℕ := 1+((succ p).getD []).length

/-- Steps that the nodes that are neither done nor active may still take. -/
def budget (succ : α → Option (List α)) (nodes : Finset α) (done active : OrdSet α) : ℕ :=
  ∑ p∈nodes.filter (fun p => p∉done.keys ∧ p∉active.keys), cost succ p

/-- Successors of the nodes are defined, and are nodes. -/
def Total (succ : α → Option (List α)) (nodes : Finset α) : Prop :=
  ∀ p∈nodes, ∃ next, succ p=some next ∧ ∀ q∈next, q∈nodes

/-- The budget does not grow when nodes get done. -/
theorem budget_mono {nodes : Finset α} {done active done' active' : OrdSet α}
    (h : ∀ p, p∉done'.keys ∧ p∉active'.keys → p∉done.keys ∧ p∉active.keys) :
    budget succ nodes done' active'≤budget succ nodes done active := by
  refine Finset.sum_le_sum_of_subset fun p hp => ?_
  obtain ⟨hnode,hopen⟩ := Finset.mem_filter.mp hp
  exact Finset.mem_filter.mpr ⟨hnode,h p hopen⟩

/-- Entering a node takes its cost from the budget. -/
theorem budget_enter {nodes : Finset α} {done active : OrdSet α} {p : α} (hp : p∈nodes)
    (hdone : p∉done.keys) (hactive : p∉active.keys) :
    budget succ nodes done (active.add p)+cost succ p=budget succ nodes done active := by
  have herase : nodes.filter (fun q => q∉done.keys ∧ q∉(active.add p).keys)=
      (nodes.filter fun q => q∉done.keys ∧ q∉active.keys).erase p := by
    ext q
    simp only [Finset.mem_filter,Finset.mem_erase,OrdMap.mem_add,not_or]
    tauto
  rw [budget,herase,budget]
  exact Finset.sum_erase_add _ _ (Finset.mem_filter.mpr ⟨hp,hdone,hactive⟩)

/-- With enough fuel a walk over nodes whose successors are defined comes to an
end: it does not panic. -/
theorem walk_ends {nodes : Finset α} (htotal : Total succ nodes) {fuel : ℕ}
    {stack : List (α×Bool)} {done active : OrdSet α} (hstack : ∀ e∈stack, e.1∈nodes)
    (hfuel : stack.length+budget succ nodes done active≤fuel) :
    walk succ cycle fuel stack done active≠.error .panic := by
  induction fuel,stack,done,active using walk.induct with
  | case1 fuel done active =>
    rw [walk]
    exact fun h => by cases h
  | case2 e stack done active => exact absurd hfuel (by rw [List.length_cons]; omega)
  | case3 fuel p stack done active ih =>
    have hless : budget succ nodes (done.add p) (active.remove p)≤budget succ nodes done active := by
      refine budget_mono fun q hq => ?_
      rw [OrdMap.mem_add,OrdMap.mem_remove] at hq
      tauto
    rw [List.length_cons] at hfuel
    rw [walk]
    exact ih (fun e he => hstack e (List.mem_cons_of_mem _ he)) (by omega)
  | case4 fuel p stack done active hp ih =>
    rw [List.length_cons] at hfuel
    rw [walk,if_pos hp]
    exact ih (fun e he => hstack e (List.mem_cons_of_mem _ he)) (by omega)
  | case5 fuel p stack done active hdone hactive =>
    rw [walk,if_neg hdone,if_pos hactive]
    exact fun h => by cases h
  | case6 fuel p stack done active hdone hactive ih =>
    have hp : p∈nodes := hstack _ List.mem_cons_self
    obtain ⟨next,hnext,hnodes⟩ := htotal p hp
    have henter : budget succ nodes done (active.add p)+cost succ p=budget succ nodes done active :=
      budget_enter hp (fun h => hdone (OrdMap.contains_iff.mpr h))
        (fun h => hactive (OrdMap.contains_iff.mpr h))
    have hcost : cost succ p=1+next.length := by rw [cost,hnext]; rfl
    rw [List.length_cons] at hfuel
    rw [walk,if_neg hdone,if_neg hactive,hnext]
    refine ih next (fun e he => ?_) ?_
    · obtain he | he := List.mem_append.mp he
      · obtain ⟨q,hq,rfl⟩ := List.mem_map.mp he
        exact hnodes q hq
      · obtain rfl | he := List.mem_cons.mp he
        · exact hp
        · exact hstack e (List.mem_cons_of_mem _ he)
    · rw [List.length_append,List.length_map,List.length_cons]
      omega

/-- Fuel that is enough for any walk over the nodes. -/
def enough (succ : α → Option (List α)) (nodes : List α) : ℕ :=
  1+(nodes.map (cost succ)).sum

/-- Between two walks all is as at the start of a walk, but for what is done. -/
theorem Walking.again {start : α → Prop} {done active : OrdSet α} {root : α}
    (h : Walking succ start [] done active) (hroot : start root) :
    Walking succ start [(root,false)] done active := by
  have hnone : ∀ p, p∉active.keys := fun p hp => absurd ((h.entered p).mp hp) List.not_mem_nil
  have hlinked : Linked succ [(root,false)] := by
    refine ⟨fun p hp => ?_,trivial⟩
    cases hp
  refine ⟨fun p => ⟨fun hp => absurd hp (hnone p),fun hp => ?_⟩,List.nodup_nil,
    fun p hp => absurd hp (hnone p),hlinked,trivial,h.closed,h.acyclic,fun e he => ?_,h.reached⟩
  · cases List.mem_singleton.mp hp
  · cases List.mem_singleton.mp he
    exact ⟨root,hroot,.refl⟩

/-- Nothing is done yet. -/
theorem walking_start (succ : α → Option (List α)) (start : α → Prop) :
    Walking succ start [] .empty .empty := by
  have hnone : ∀ p, p∉(OrdMap.empty : OrdSet α).keys := fun _ hp => absurd hp List.not_mem_nil
  refine ⟨fun p => ⟨fun hp => absurd hp (hnone p),fun hp => ?_⟩,List.nodup_nil,
    fun p hp => absurd hp (hnone p),trivial,trivial,fun p hp => absurd hp (hnone p),
    fun p hp => absurd hp (hnone p),fun e he => ?_,fun p hp => absurd hp (hnone p)⟩
  · exact absurd hp List.not_mem_nil
  · exact absurd he List.not_mem_nil

/-- Walks from several nodes leave all of them done. -/
theorem walkAll_ok {start : α → Prop} {fuel : ℕ} {roots : List α} {done active out : OrdSet α}
    (h : Walking succ start [] done active) (hroots : ∀ r∈roots, start r)
    (hwalk : walkAll succ cycle fuel roots done active=.ok out) :
    (∃ active', Walking succ start [] out active') ∧ (∀ p∈done.keys, p∈out.keys) ∧
      ∀ r∈roots, r∈out.keys := by
  induction roots generalizing done active with
  | nil =>
    cases hwalk
    exact ⟨⟨active,h⟩,fun p hp => hp,fun r hr => absurd hr List.not_mem_nil⟩
  | cons root roots ih =>
    obtain ⟨hroot,hroots⟩ := List.forall_mem_cons.mp hroots
    obtain ⟨st,hst,hwalk⟩ := bind_ok.mp hwalk
    obtain ⟨hend,hdone,hstack⟩ := walk_ok (h.again hroot) hst
    obtain ⟨hall,hkept,hrest⟩ := ih hend hroots hwalk
    have hr : root∈out.keys := hkept root (hstack (root,false) List.mem_cons_self)
    exact ⟨hall,fun p hp => hkept p (hdone p hp),List.forall_mem_cons.mpr ⟨hr,hrest⟩⟩

/-- Walks from several nodes are stopped by a cycle only. -/
theorem walkAll_cycle {start : α → Prop} {fuel : ℕ} {roots : List α} {done active : OrdSet α}
    (h : Walking succ start [] done active) (hroots : ∀ r∈roots, start r) {e : ε}
    (hwalk : walkAll succ cycle fuel roots done active=fail e) :
    ∃ p s, e=cycle p ∧ start s ∧ ReflTransGen (Edge succ) s p ∧ TransGen (Edge succ) p p := by
  induction roots generalizing done active with
  | nil => cases hwalk
  | cons root roots ih =>
    obtain ⟨hroot,hroots⟩ := List.forall_mem_cons.mp hroots
    cases hst : walk succ cycle fuel [(root,false)] done active with
    | error f =>
      rw [walkAll,hst] at hwalk
      cases hwalk
      exact walk_cycle (h.again hroot) hst
    | ok st =>
      rw [walkAll,hst] at hwalk
      exact ih (walk_ok (h.again hroot) hst).1 hroots hwalk

/-- With enough fuel they come to an end. -/
theorem walkAll_ends {nodes roots : List α} (htotal : Total succ nodes.toFinset)
    (hroots : ∀ r∈roots, r∈nodes) (done active : OrdSet α) :
    walkAll succ cycle (enough succ nodes) roots done active≠.error .panic := by
  induction roots generalizing done active with
  | nil => exact fun h => by cases h
  | cons root roots ih =>
    obtain ⟨hroot,hroots⟩ := List.forall_mem_cons.mp hroots
    have hsum : budget succ nodes.toFinset done active≤(nodes.map (cost succ)).sum := by
      have hfilter : budget succ nodes.toFinset done active≤∑ p∈nodes.toFinset, cost succ p :=
        Finset.sum_le_sum_of_subset (Finset.filter_subset _ _)
      have hdedup : ∑ p∈nodes.toFinset, cost succ p=(nodes.dedup.map (cost succ)).sum := by
        have hsame : nodes.dedup.toFinset=nodes.toFinset := by
          ext p
          rw [List.mem_toFinset,List.mem_toFinset,List.mem_dedup]
        rw [←hsame,List.sum_toFinset _ (List.nodup_dedup nodes)]
      have hsub : (nodes.dedup.map (cost succ)).sum≤(nodes.map (cost succ)).sum :=
        List.Sublist.sum_le_sum ((List.dedup_sublist nodes).map _) fun _ _ => Nat.zero_le _
      omega
    have hwalk : walk succ cycle (enough succ nodes) [(root,false)] done active≠.error .panic := by
      refine walk_ends htotal (fun e he => ?_) ?_
      · cases List.mem_singleton.mp he
        exact List.mem_toFinset.mpr hroot
      · rw [enough,List.length_singleton]
        omega
    cases hst : walk succ cycle (enough succ nodes) [(root,false)] done active with
    | error f =>
      rw [walkAll,hst]
      intro h
      cases h
      exact hwalk hst
    | ok st =>
      rw [walkAll,hst]
      exact ih hroots st.1 st.2

/-- A walk that has come to an end takes no more fuel. -/
theorem walk_mono {fuel : ℕ} {stack : List (α×Bool)} {done active : OrdSet α} (more : ℕ)
    (h : walk succ cycle fuel stack done active≠.error .panic) :
    walk succ cycle (fuel+more) stack done active=walk succ cycle fuel stack done active := by
  induction fuel,stack,done,active using walk.induct with
  | case1 fuel done active => rw [walk,walk]
  | case2 e stack done active =>
    rw [walk] at h
    exact absurd rfl h
  | case3 fuel p stack done active ih =>
    rw [walk] at h
    rw [Nat.succ_add,walk,walk]
    exact ih h
  | case4 fuel p stack done active hp ih =>
    rw [walk,if_pos hp] at h
    rw [Nat.succ_add,walk,if_pos hp,walk,if_pos hp]
    exact ih h
  | case5 fuel p stack done active hdone hactive =>
    rw [Nat.succ_add,walk,if_neg hdone,if_pos hactive,walk,if_neg hdone,if_pos hactive]
  | case6 fuel p stack done active hdone hactive ih =>
    rw [walk,if_neg hdone,if_neg hactive] at h
    rw [Nat.succ_add,walk,if_neg hdone,if_neg hactive,walk,if_neg hdone,if_neg hactive]
    cases hnext : succ p with
    | none => rfl
    | some next =>
      rw [hnext] at h
      exact ih next h

/-- Neither do walks from several nodes. -/
theorem walkAll_mono {fuel : ℕ} {roots : List α} {done active : OrdSet α} (more : ℕ)
    (h : walkAll succ cycle fuel roots done active≠.error .panic) :
    walkAll succ cycle (fuel+more) roots done active=
      walkAll succ cycle fuel roots done active := by
  induction roots generalizing done active with
  | nil => rfl
  | cons root roots ih =>
    unfold walkAll at h ⊢
    obtain ⟨hfirst,hrest⟩ := noPanic_bind.mp h
    rw [walk_mono more hfirst]
    cases hst : walk succ cycle fuel [(root,false)] done active with
    | error f => rfl
    | ok st => exact ih (hrest st hst)

/-- Everything that is reachable from the roots. -/
def Reachable (succ : α → Option (List α)) (roots : List α) (p : α) : Prop :=
  ∃ r∈roots, ReflTransGen (Edge succ) r p

/-- What walks from the roots have done is exactly what is reachable, and none of
it is on a cycle. -/
theorem walkAll_reachable {fuel : ℕ} {roots : List α} {out : OrdSet α}
    (hwalk : walkAll succ cycle fuel roots .empty .empty=.ok out) :
    (∀ p, p∈out.keys ↔ Reachable succ roots p) ∧
      ∀ p∈out.keys, ¬TransGen (Edge succ) p p := by
  obtain ⟨⟨active,hend⟩,_,hroots⟩ :=
    walkAll_ok (walking_start succ (· ∈ roots)) (fun r hr => hr) hwalk
  refine ⟨fun p => ⟨fun hp => ?_,?_⟩,hend.acyclic⟩
  · obtain ⟨s,hs,hpath⟩ := hend.reached p hp
    exact ⟨s,hs,hpath⟩
  · rintro ⟨r,hr,hpath⟩
    induction hpath with
    | refl => exact hroots r hr
    | tail _ hedge ih => exact hend.closed _ ih _ hedge

/-- No node that is reachable from the roots is on a cycle. -/
def Acyclic (succ : α → Option (List α)) (roots : List α) : Prop :=
  ∀ p, Reachable succ roots p → ¬TransGen (Edge succ) p p

/-- Walks over nodes whose successors are defined end with a set, or are stopped. -/
theorem walkAll_cases {nodes roots : List α} (cycle : α → ε) (htotal : Total succ nodes.toFinset)
    (hroots : ∀ r∈roots, r∈nodes) :
    (∃ out, walkAll succ cycle (enough succ nodes) roots .empty .empty=.ok out) ∨
      ∃ e, walkAll succ cycle (enough succ nodes) roots .empty .empty=fail e := by
  have hends : walkAll succ cycle (enough succ nodes) roots .empty .empty≠.error .panic :=
    walkAll_ends htotal hroots .empty .empty
  cases hresult : walkAll succ cycle (enough succ nodes) roots .empty .empty with
  | error f =>
    cases f with
    | err e => exact .inr ⟨e,rfl⟩
    | panic => exact absurd hresult hends
  | ok out => exact .inl ⟨out,rfl⟩

/-- They are stopped exactly when a cycle is reachable. -/
theorem walkAll_fails {nodes roots : List α} (htotal : Total succ nodes.toFinset)
    (hroots : ∀ r∈roots, r∈nodes) :
    (∃ e, walkAll succ cycle (enough succ nodes) roots .empty .empty=fail e) ↔
      ∃ p, Reachable succ roots p ∧ TransGen (Edge succ) p p := by
  constructor
  · rintro ⟨e,he⟩
    obtain ⟨p,s,-,hs,hpath,hcycle⟩ :=
      walkAll_cycle (walking_start succ (· ∈ roots)) (fun r hr => hr) he
    exact ⟨p,⟨s,hs,hpath⟩,hcycle⟩
  · rintro ⟨p,hp,hcycle⟩
    obtain ⟨out,hout⟩ | hfails := walkAll_cases cycle htotal hroots
    · obtain ⟨hreach,hacyclic⟩ := walkAll_reachable hout
      exact absurd hcycle (hacyclic p ((hreach p).mpr hp))
    · exact hfails

/-- They end with a set exactly when no cycle is reachable and the set is what is. -/
theorem walkAll_eq_ok {nodes roots : List α} (htotal : Total succ nodes.toFinset)
    (hroots : ∀ r∈roots, r∈nodes) {out : OrdSet α} :
    walkAll succ cycle (enough succ nodes) roots .empty .empty=.ok out ↔
      Acyclic succ roots ∧ ∀ p, p∈out.keys ↔ Reachable succ roots p := by
  constructor
  · intro h
    obtain ⟨hreach,hacyclic⟩ := walkAll_reachable h
    exact ⟨fun p hp => hacyclic p ((hreach p).mpr hp),hreach⟩
  · rintro ⟨hacyclic,hout⟩
    obtain ⟨found,hfound⟩ | hfails := walkAll_cases cycle htotal hroots
    · have hreach := (walkAll_reachable hfound).1
      rw [hfound,OrdSet.ext fun p => (hreach p).trans (hout p).symm]
    · obtain ⟨p,hp,hcycle⟩ := (walkAll_fails htotal hroots).mp hfails
      exact absurd hcycle (hacyclic p hp)

end Arma.Base.Closure
