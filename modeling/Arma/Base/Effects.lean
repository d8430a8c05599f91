import Arma.Base.Checked

/-!
# Computations on a state

A computation on a state keeps what it did when it stops early: a later error does
not take an earlier change back. A silent computation changes nothing, and an
atomic one changes something only when it succeeds.
-/

namespace Arma.Base.Effects

open Checked

/-- A computation on a state. -/
abbrev Action (σ ε α : Type) : Type := ExceptT (Fault ε) (StateM σ) α

section
variable {σ ε α β : Type}

/-- What a computation comes to, and the state it leaves. -/
def runOn (x : Action σ ε α) (s : σ) : Outcome ε α×σ := StateT.run (ExceptT.run x) s

/-- A computation that does not touch the state. -/
def still (x : Outcome ε α) : Action σ ε α := ExceptT.mk (pure x)

/-- Look at the state. -/
def look : Action σ ε σ := ExceptT.mk fun s => (.ok s,s)

/-- Change the state. -/
def change (f : σ → σ) : Action σ ε Unit := ExceptT.mk fun s => (.ok (),f s)

/-- The computation leaves the state as it was. -/
def Silent (x : Action σ ε α) : Prop := ∀ s, (runOn x s).2=s

/-- The computation succeeds. -/
def Sure (x : Action σ ε α) : Prop := ∀ s, ∃ a, (runOn x s).1=.ok a

/-- The computation leaves the state as it was unless it succeeds. -/
def Atomic (x : Action σ ε α) : Prop := ∀ s, (∀ a, (runOn x s).1≠.ok a) → (runOn x s).2=s

/-- A computation that does not touch the state comes to its outcome. -/
@[simp] theorem runOn_still (x : Outcome ε α) (s : σ) :
    runOn (still x) s=(x,s) := rfl

/-- The state is what is looked at. -/
@[simp] theorem runOn_look (s : σ) : runOn (look : Action σ ε σ) s=(.ok s,s) := rfl

/-- A change succeeds. -/
@[simp] theorem runOn_change (f : σ → σ) (s : σ) :
    runOn (change f : Action σ ε Unit) s=(.ok (),f s) := rfl

/-- A sequence of two computations on a state. -/
theorem runOn_bind (x : Action σ ε α) (f : α → Action σ ε β) (s : σ) :
    runOn (x >>= f) s=
      match runOn x s with
      | (.ok a,t) => runOn (f a) t
      | (.error e,t) => (.error e,t) := by
  change ExceptT.bindCont f (runOn x s).1 (runOn x s).2=_
  rcases runOn x s with ⟨_|_,_⟩ <;> rfl

/-- Behind a step that succeeds the computation goes on in the state it left. -/
theorem runOn_bind_ok {x : Action σ ε α} {f : α → Action σ ε β} {s t : σ} {a : α}
    (h : runOn x s=(.ok a,t)) : runOn (x >>= f) s=runOn (f a) t := by
  rw [runOn_bind,h]

/-- A step that does not succeed ends the computation in the state it left. -/
theorem runOn_bind_error {x : Action σ ε α} {f : α → Action σ ε β} {s t : σ} {e : Fault ε}
    (h : runOn x s=(.error e,t)) : runOn (x >>= f) s=(.error e,t) := by
  rw [runOn_bind,h]

/-- A sequence that succeeds goes through a state in between. -/
theorem exists_of_bind_ok {x : Action σ ε α} {f : α → Action σ ε β} {s t : σ} {b : β}
    (h : runOn (x >>= f) s=(.ok b,t)) :
    ∃ a mid, runOn x s=(.ok a,mid) ∧ runOn (f a) mid=(.ok b,t) := by
  rw [runOn_bind] at h
  match hx : runOn x s with
  | (.ok a,mid) =>
    rw [hx] at h
    exact ⟨a,mid,rfl,h⟩
  | (.error e,mid) =>
    rw [hx] at h
    cases h

/-- A computation that does not touch the state is silent. -/
theorem silent_still (x : Outcome ε α) : Silent (still x : Action σ ε α) := fun _ => rfl

/-- Looking at the state is silent. -/
theorem silent_look : Silent (look : Action σ ε σ) := fun _ => rfl

/-- A change succeeds. -/
theorem sure_change (f : σ → σ) : Sure (change f : Action σ ε Unit) := fun _ => ⟨(),rfl⟩

/-- Computations that succeed do so in sequence. -/
theorem Sure.bind {x : Action σ ε α} {f : α → Action σ ε β} (hx : Sure x)
    (hf : ∀ a, Sure (f a)) : Sure (x >>= f) := by
  intro s
  obtain ⟨a,ha⟩ := hx s
  obtain ⟨b,hb⟩ := hf a (runOn x s).2
  exact ⟨b,by rw [runOn_bind_ok (Prod.ext ha rfl),hb]⟩

/-- What succeeds is atomic. -/
theorem Sure.atomic {x : Action σ ε α} (h : Sure x) : Atomic x := by
  intro s hstop
  obtain ⟨a,ha⟩ := h s
  exact absurd ha (hstop a)

/-- What changes nothing is atomic. -/
theorem Silent.atomic {x : Action σ ε α} (h : Silent x) : Atomic x := fun s _ => h s

/-- Silent steps in front of an atomic computation leave it atomic. -/
theorem Silent.bind {x : Action σ ε α} {f : α → Action σ ε β} (hx : Silent x)
    (hf : ∀ a, Atomic (f a)) : Atomic (x >>= f) := by
  intro s hstop
  have hs := hx s
  match h : runOn x s with
  | (.ok a,t) =>
    rw [h] at hs
    rw [runOn_bind_ok h] at hstop ⊢
    exact (hf a t hstop).trans hs
  | (.error e,t) =>
    rw [h] at hs
    rw [runOn_bind_error h]
    exact hs

end

end Arma.Base.Effects
