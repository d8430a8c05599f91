import Arma.Modules.Resolve

/-!
# The closure of dependencies

When every dependency is defined, the walk from some roots comes to an end. It succeeds exactly
when no cycle can be reached, and then with what can be reached.
-/

namespace Arma.Modules.Dependencies

open Base.Checked Base.Closure Base.Ordered Index Relation Resolve

/-- Every dependency is defined. -/
def Closed (definitions : Definitions) : Prop :=
  ∀ p q, Edge (succ definitions) p q → q∈definitions.keys

/-- Definitions are closed when the dependencies of every entry are defined. -/
theorem closed_of_entries {definitions : Definitions}
    (h : ∀ e∈definitions.entries, ∀ q∈e.2.keys, q∈definitions.keys) : Closed definitions := by
  rintro p q ⟨next,hnext,hq⟩
  obtain ⟨deps,hdeps,rfl⟩ := Option.map_eq_some_iff.mp hnext
  exact h (p,deps) (OrdMap.mem_entries.mpr hdeps) q hq

/-- Nodes with a definition have dependencies, and those have definitions. -/
theorem Closed.total {definitions : Definitions} (h : Closed definitions) :
    Total (succ definitions) definitions.keys.toFinset := by
  intro p hp
  obtain ⟨next,hnext⟩ := OrdMap.mem_keys.mp (List.mem_toFinset.mp hp)
  have hsucc : succ definitions p=some next.keys := by
    rw [succ,hnext]
    rfl
  exact ⟨next.keys,hsucc,fun q hq => List.mem_toFinset.mpr (h p q ⟨next.keys,hsucc,hq⟩)⟩

/-- Whatever the definitions, as long as they have all dependencies, and whatever the roots among
them: the walk comes to an end, and no more fuel would change its result. It succeeds with a set
exactly when no cycle is reachable and the set is what is reachable, and it returns an error
exactly when a cycle is reachable. Roots in another order or more than once make no difference. -/
theorem closure_exact {definitions : Definitions} (hclosed : Closed definitions)
    {roots : List String} (hroots : ∀ r∈roots, r∈definitions.keys) :
    closure definitions roots≠.error .panic ∧
      (∀ fuel, enough (succ definitions) definitions.keys≤fuel →
        walkAll (succ definitions) ModuleError.dependencyCycle fuel roots OrdMap.empty
          OrdMap.empty=closure definitions roots) ∧
      (∀ s, closure definitions roots=.ok s ↔ Acyclic (succ definitions) roots ∧
        ∀ p, p∈s.keys ↔ Reachable (succ definitions) roots p) ∧
      ((∃ e, closure definitions roots=fail e) ↔
        ∃ p, Reachable (succ definitions) roots p ∧ TransGen (Edge (succ definitions)) p p) ∧
      ∀ roots', (∀ r, r∈roots' ↔ r∈roots) →
        ∀ s, closure definitions roots'=.ok s ↔ closure definitions roots=.ok s := by
  have htotal := hclosed.total
  have hends : closure definitions roots≠.error .panic := walkAll_ends htotal hroots _ _
  refine ⟨hends,fun fuel hfuel => ?_,fun s => walkAll_eq_ok htotal hroots,
    walkAll_fails htotal hroots,fun roots' hsame s => ?_⟩
  · obtain ⟨more,rfl⟩ := Nat.exists_eq_add_of_le hfuel
    exact walkAll_mono more hends
  · have hroots' : ∀ r∈roots', r∈definitions.keys := fun r hr => hroots r ((hsame r).mp hr)
    have hreach : ∀ p, Reachable (succ definitions) roots' p ↔
        Reachable (succ definitions) roots p :=
      fun p => exists_congr fun r => and_congr_left' (hsame r)
    have hleft : closure definitions roots'=.ok s ↔ Acyclic (succ definitions) roots' ∧
        ∀ p, p∈s.keys ↔ Reachable (succ definitions) roots' p := walkAll_eq_ok htotal hroots'
    have hright : closure definitions roots=.ok s ↔ Acyclic (succ definitions) roots ∧
        ∀ p, p∈s.keys ↔ Reachable (succ definitions) roots p := walkAll_eq_ok htotal hroots
    rw [hleft,hright]
    simp only [Acyclic,hreach]

/-- Three modules that need one another without a cycle, and one that needs itself. -/
def sampleDefinitions : Definitions :=
  (((OrdMap.empty.insert "a.ko" (.ofList ["b.ko","c.ko"])).insert "b.ko" (.ofList ["c.ko"])).insert
    "c.ko" (.ofList [])).insert "d.ko" (.ofList ["d.ko"])

/-- Every dependency of the sample is defined. -/
theorem closed_sample : Closed sampleDefinitions := closed_of_entries (by decide +kernel)

/-- From the first module the walk finds the modules that it needs, whatever the order of the
roots; from the last one it is stopped. -/
theorem closure_exact_sample :
    (∃ s, closure sampleDefinitions ["c.ko","a.ko","c.ko"]=.ok s ∧
      s.keys=["a.ko","b.ko","c.ko"]) ∧ ¬∃ s, closure sampleDefinitions ["a.ko","d.ko"]=.ok s := by
  have hfirst : ((closure sampleDefinitions ["a.ko","c.ko"]).toOption.any fun s =>
      decide (s.keys=["a.ko","b.ko","c.ko"]))=true := by decide +kernel
  have hstopped : ((closure sampleDefinitions ["a.ko","d.ko"]).toOption.isSome)=false := by
    decide +kernel
  obtain ⟨s,hs,hkeys⟩ := exists_ok_of_any hfirst
  obtain ⟨-,-,-,-,hsame⟩ := closure_exact closed_sample (show ∀ r∈["a.ko","c.ko"],
    r∈sampleDefinitions.keys by decide +kernel)
  refine ⟨⟨s,(hsame _ (fun r => ?_) s).mpr hs,of_decide_eq_true hkeys⟩,fun ⟨s,hs⟩ => ?_⟩
  · simp only [List.mem_cons,List.not_mem_nil,or_false]
    tauto
  · rw [hs] at hstopped
    cases hstopped

end Arma.Modules.Dependencies
