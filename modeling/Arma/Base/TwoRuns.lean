import Mathlib.Data.List.Forall2
import Mathlib.Data.Option.Basic
import Mathlib.Tactic.Common
import Arma.Base.Checked

/-!
# Two runs side by side

Two runs on related inputs are compared step by step: they fail alike, or they
yield related values and go on alike. A search finds related elements in lists that
are related element by element.
-/

namespace Arma.Base.TwoRuns

open Checked

/-- Two computations fail alike or yield related values. -/
inductive Alike {ε α β : Type} (R : α → β → Prop) : Outcome ε α → Outcome ε β → Prop where
  /-- Both yield a value. -/
  | ok {a : α} {b : β} (h : R a b) : Alike R (.ok a) (.ok b)
  /-- Both fail. -/
  | error (e : Fault ε) : Alike R (.error e) (.error e)

namespace Alike

variable {ε α β γ δ : Type} {R : α → β → Prop} {S : γ → δ → Prop}

/-- The same computation twice. -/
theorem refl {R : α → α → Prop} (hrefl : ∀ a, R a a) (x : Outcome ε α) : Alike R x x := by
  cases x with
  | ok a => exact .ok (hrefl a)
  | error e => exact .error e

/-- Computations that go on alike. -/
theorem bind {x : Outcome ε α} {y : Outcome ε β} (h : Alike R x y) {f : α → Outcome ε γ}
    {g : β → Outcome ε δ} (hfg : ∀ a b, R a b → Alike S (f a) (g b)) :
    Alike S (x >>= f) (y >>= g) := by
  cases h with
  | ok h => exact hfg _ _ h
  | error e => exact .error e

/-- Absent values are the same error. -/
theorem okOr {o : Option α} {o' : Option β} (h : Option.Rel R o o') (e : ε) :
    Alike R (okOr o e) (okOr o' e) := by
  cases h with
  | some h => exact .ok h
  | none => exact .error (.err e)

end Alike

/-- What a search finds in lists that are related element by element. -/
theorem rel_find? {α β : Type} {R : α → β → Prop} {p : α → Bool} {q : β → Bool}
    (hpq : ∀ a b, R a b → p a=q b) {l : List α} {l' : List β} (h : List.Forall₂ R l l') :
    Option.Rel R (l.find? p) (l'.find? q) := by
  induction h with
  | nil => exact .none
  | @cons a b rest rest' hab _ ih =>
    rw [List.find?_cons,List.find?_cons,hpq a b hab]
    cases q b with
    | true => exact .some hab
    | false => exact ih

/-- Related nodes are both there or both not. -/
theorem isSome_rel {α β : Type} {R : α → β → Prop} {o : Option α} {o' : Option β}
    (h : Option.Rel R o o') : o'.isSome=o.isSome := by
  cases h <;> rfl

end Arma.Base.TwoRuns
