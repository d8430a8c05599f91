import Mathlib.Data.Nat.Bitwise
import Mathlib.Data.Nat.Basic
import Mathlib.Data.List.Forall2
import Mathlib.Tactic.Common
import Mathlib.Tactic.Ring

/-!
# Fixed-width arithmetic with overflow checks

Words are natural numbers below a power of two. An operation that leaves its
width yields no word; the operators additionally turn that into a panic, which
a caller cannot confuse with an error value.
-/

namespace Arma.Base.Checked

/-- Why a computation stopped short of a value. -/
inductive Fault (ε : Type) where
  /-- The error value handed back to the caller. -/
  | err (e : ε)
  /-- An overflow, a failed assertion or an index out of range. -/
  | panic
deriving DecidableEq, Repr

/-- A computation that yields a value, returns an error or panics. -/
abbrev Outcome (ε α : Type) : Type := Except (Fault ε) α

/-- Return the error value `e`. -/
def fail {ε α : Type} (e : ε) : Outcome ε α := .error (.err e)

/-- An absent value becomes the error `e`. -/
def okOr {ε α : Type} (o : Option α) (e : ε) : Outcome ε α :=
  match o with
  | some a => .ok a
  | none => fail e

/-- An absent value is a panic. -/
def unwrap {ε α : Type} (o : Option α) : Outcome ε α :=
  match o with
  | some a => .ok a
  | none => .error .panic

/-- Report the errors of a step as errors of the whole; a panic stays one. -/
def context {ε ε' α : Type} (f : ε → ε') (x : Outcome ε α) : Outcome ε' α :=
  match x with
  | .ok a => .ok a
  | .error (.err e) => fail (f e)
  | .error .panic => .error .panic

/-- A step succeeds with or without its context. -/
theorem context_ok {ε ε' α : Type} {f : ε → ε'} {x : Outcome ε α} {a : α} :
    context f x=.ok a ↔ x=.ok a := by
  constructor
  · intro h
    match x with
    | .ok b =>
      cases h
      rfl
    | .error (.err e) => cases h
    | .error .panic => cases h
  · rintro rfl
    rfl

/-- A sequence of two computations succeeds exactly when both do. -/
theorem bind_ok {ε α β : Type} {x : Except ε α} {f : α → Except ε β} {b : β} :
    (x >>= f)=.ok b ↔ ∃ a, x=.ok a ∧ f a=.ok b := by
  cases x with
  | ok a =>
    constructor
    · intro h
      exact ⟨a,rfl,h⟩
    · rintro ⟨c,hc,h⟩
      cases hc
      exact h
  | error e =>
    constructor
    · intro h
      cases h
    · rintro ⟨c,hc,h⟩
      cases hc

/-- An error-valued option succeeds exactly on its value. -/
@[simp] theorem okOr_ok {ε α : Type} {o : Option α} {e : ε} {a : α} :
    okOr o e=.ok a ↔ o=some a := by
  cases o with
  | some b => simp [okOr]
  | none => simp [okOr,fail]

/-- A panicking option succeeds exactly on its value. -/
@[simp] theorem unwrap_ok {ε α : Type} {o : Option α} {a : α} :
    (unwrap o : Outcome ε α)=.ok a ↔ o=some a := by
  cases o with
  | some b => simp [unwrap]
  | none => simp [unwrap]

/-- A computation with a value succeeds. -/
theorem exists_ok {ε α : Type} {x : Except ε α} (h : x.toOption.isSome=true) : ∃ a, x=.ok a := by
  cases x with
  | ok a => exact ⟨a,rfl⟩
  | error e => cases h

/-- A computation whose value passes a test succeeds. -/
theorem exists_ok_of_any {ε α : Type} {x : Except ε α} {p : α → Bool}
    (h : x.toOption.any p=true) : ∃ a, x=.ok a ∧ p a=true := by
  cases x with
  | ok a => exact ⟨a,rfl,h⟩
  | error e => cases h

/-- A returned error is no success. -/
@[simp] theorem fail_ne_ok {ε α : Type} {e : ε} {a : α} : (fail e : Outcome ε α)≠.ok a := by
  simp [fail]

/-- Mapping a computation over a list succeeds exactly when it does on every
element, in order. -/
theorem mapM_ok {ε α β : Type} {f : α → Except ε β} {l : List α} {l' : List β} :
    l.mapM f=.ok l' ↔ List.Forall₂ (fun a b => f a=.ok b) l l' := by
  induction l generalizing l' with
  | nil =>
    rw [List.mapM_nil,List.forall₂_nil_left_iff]
    constructor
    · intro h
      cases h
      rfl
    · rintro rfl
      rfl
  | cons a l ih =>
    rw [List.mapM_cons,bind_ok,List.forall₂_cons_left_iff]
    constructor
    · rintro ⟨b,hb,h⟩
      obtain ⟨bs,hbs,h⟩ := bind_ok.mp h
      cases h
      exact ⟨b,bs,hb,ih.mp hbs,rfl⟩
    · rintro ⟨b,bs,hb,hbs,rfl⟩
      exact ⟨b,hb,bind_ok.mpr ⟨bs,ih.mpr hbs,rfl⟩⟩

/-- A map over a list depends on its elements only. -/
theorem mapM_congr {ε α β : Type} {f g : α → Except ε β} {l : List α}
    (h : ∀ a∈l, f a=g a) : l.mapM f=l.mapM g := by
  induction l with
  | nil => rfl
  | cons a l ih =>
    obtain ⟨ha,hl⟩ := List.forall_mem_cons.mp h
    rw [List.mapM_cons,List.mapM_cons,ha,ih hl]

/-- A check of every element succeeds exactly when each check does. -/
theorem forM_ok {ε α : Type} {f : α → Except ε Unit} {l : List α} :
    l.forM f=.ok () ↔ ∀ a∈l, f a=.ok () := by
  induction l with
  | nil => exact ⟨fun _ a ha => absurd ha List.not_mem_nil,fun _ => rfl⟩
  | cons a l ih =>
    change (f a >>= fun _ => l.forM f)=_ ↔ _
    rw [bind_ok,List.forall_mem_cons,←ih]
    constructor
    · rintro ⟨u,ha,hl⟩
      exact ⟨ha,hl⟩
    · rintro ⟨ha,hl⟩
      exact ⟨(),ha,hl⟩

/-- Every element of a list related in order to another has a partner there. -/
theorem forall₂_mem {α β : Type} {R : α → β → Prop} {l : List α} {l' : List β}
    (h : List.Forall₂ R l l') {a : α} (ha : a∈l) : ∃ b∈l', R a b := by
  induction h with
  | nil => exact absurd ha List.not_mem_nil
  | cons hab _ ih =>
    obtain rfl | ha := List.mem_cons.mp ha
    · exact ⟨_,List.mem_cons_self,hab⟩
    · obtain ⟨b,hb,hr⟩ := ih ha
      exact ⟨b,List.mem_cons_of_mem _ hb,hr⟩

/-- What holds of an optional value and its image holds of the two lists. -/
theorem forall₂_toList {α β : Type} {R : α → β → Prop} {o : Option α} {f : α → β}
    (h : ∀ a∈o, R a (f a)) : List.Forall₂ R o.toList (o.map f).toList := by
  cases o with
  | none => exact .nil
  | some a => exact .cons (h a rfl) .nil

/-- What relates all pairs of a list relates those of a list that goes along with it. -/
theorem pairwise_forall₂ {α β : Type} {R : α → β → Prop} {P : α → α → Prop} {Q : β → β → Prop}
    {l : List α} {l' : List β} (h : List.Forall₂ R l l') (hpair : l.Pairwise P)
    (hstep : ∀ a a' b b', R a b → R a' b' → P a a' → Q b b') : l'.Pairwise Q := by
  induction h with
  | nil => exact .nil
  | @cons a b l l' hab hrest ih =>
    obtain ⟨hfirst,hpair⟩ := List.pairwise_cons.mp hpair
    refine List.pairwise_cons.mpr ⟨fun b' hb' => ?_,ih hpair⟩
    obtain ⟨a',ha',hab'⟩ := forall₂_mem hrest.flip hb'
    exact hstep a a' b b' hab hab' (hfirst a' ha')

/-- The computation comes to an end with a value or an error. -/
def NoPanic {ε α : Type} (x : Outcome ε α) : Prop := x≠.error .panic

/-- A value is no panic. -/
theorem noPanic_ok {ε α : Type} (a : α) : NoPanic (.ok a : Outcome ε α) := fun h => by cases h

/-- An error is no panic. -/
theorem noPanic_fail {ε α : Type} (e : ε) : NoPanic (fail e : Outcome ε α) := fun h => by cases h

/-- Turning an absent value into an error does not panic. -/
theorem noPanic_okOr {ε α : Type} (o : Option α) (e : ε) : NoPanic (okOr o e) := by
  cases o with
  | none => exact noPanic_fail e
  | some a => exact noPanic_ok a

/-- Reporting errors otherwise does not panic. -/
theorem NoPanic.context {ε ε' α : Type} {f : ε → ε'} {x : Outcome ε α} (h : NoPanic x) :
    NoPanic (context f x) := by
  match x with
  | .ok a => exact noPanic_ok a
  | .error (.err e) => exact noPanic_fail _
  | .error .panic => exact absurd rfl h

/-- Computations in sequence do not panic when none of them does. -/
theorem NoPanic.bind {ε α β : Type} {x : Outcome ε α} {f : α → Outcome ε β} (h : NoPanic x)
    (hf : ∀ a, x=.ok a → NoPanic (f a)) : NoPanic (x >>= f) := by
  match x with
  | .ok a => exact hf a rfl
  | .error (.err e) => exact noPanic_fail e
  | .error .panic => exact absurd rfl h

/-- Computations in sequence panic in the first one or in what follows its value. -/
theorem noPanic_bind {ε α β : Type} {x : Outcome ε α} {f : α → Outcome ε β} :
    NoPanic (x >>= f) ↔ NoPanic x ∧ ∀ a, x=.ok a → NoPanic (f a) := by
  constructor
  · intro h
    match x with
    | .ok a =>
      refine ⟨noPanic_ok a,fun b hb => ?_⟩
      cases hb
      exact h
    | .error (.err e) => exact ⟨noPanic_fail e,fun b hb => by cases hb⟩
    | .error .panic => exact absurd rfl h
  · exact fun ⟨hx,hf⟩ => hx.bind hf

/-- An absent value panics, and nothing else does. -/
theorem noPanic_unwrap {ε α : Type} {o : Option α} :
    NoPanic (unwrap o : Outcome ε α) ↔ ∃ a, o=some a := by
  cases o with
  | none => exact ⟨fun h => absurd rfl h,fun ⟨a,ha⟩ => by cases ha⟩
  | some a => exact ⟨fun _ => ⟨a,rfl⟩,fun _ => noPanic_ok a⟩

/-- A step that has its value goes on with it. -/
theorem ok_bind {ε α β : Type} {x : Outcome ε α} {f : α → Outcome ε β} {a : α} (h : x=.ok a) :
    (x >>= f)=f a := by
  rw [h]
  rfl

/-- A present value is passed on. -/
theorem unwrap_bind {ε α β : Type} {o : Option α} {f : α → Outcome ε β} {a : α} (h : o=some a) :
    (unwrap o >>= f)=f a := by
  rw [h]
  rfl

/-- An absent value stops the computation with a panic. -/
theorem unwrap_bind_none {ε α β : Type} {o : Option α} {f : α → Outcome ε β} (h : o=none) :
    (unwrap o >>= f)=.error .panic := by
  rw [h]
  rfl

/-- A choice does not panic when neither alternative does. -/
theorem NoPanic.ite {ε α : Type} {c : Prop} [Decidable c] {x y : Outcome ε α} (hx : NoPanic x)
    (hy : NoPanic y) : NoPanic (if c then x else y) := by
  split
  · exact hx
  · exact hy

/-- A map over a list does not panic when its steps do not. -/
theorem NoPanic.mapM {ε α β : Type} {f : α → Outcome ε β} {l : List α}
    (h : ∀ a∈l, NoPanic (f a)) : NoPanic (l.mapM f) := by
  induction l with
  | nil => exact noPanic_ok _
  | cons a l ih =>
    obtain ⟨ha,hl⟩ := List.forall_mem_cons.mp h
    rw [List.mapM_cons]
    exact ha.bind fun b _ => (ih hl).bind fun bs _ => noPanic_ok _

/-- A loop over a list does not panic when its steps do not. -/
theorem NoPanic.forM {ε α : Type} {f : α → Outcome ε Unit} {l : List α}
    (h : ∀ a∈l, NoPanic (f a)) : NoPanic (l.forM f) := by
  induction l with
  | nil => exact noPanic_ok _
  | cons a l ih =>
    obtain ⟨ha,hl⟩ := List.forall_mem_cons.mp h
    exact ha.bind fun _ _ => ih hl

/-- A fold over a list does not panic when its steps do not. -/
theorem NoPanic.foldlM {ε α β : Type} {f : β → α → Outcome ε β} {l : List α} {b : β}
    (h : ∀ b, ∀ a∈l, NoPanic (f b a)) : NoPanic (l.foldlM f b) := by
  induction l generalizing b with
  | nil => exact noPanic_ok _
  | cons a l ih =>
    rw [List.foldlM_cons]
    exact (h b a List.mem_cons_self).bind fun c _ =>
      ih fun c a ha => h c a (List.mem_cons_of_mem _ ha)

/-- A computation that neither panics nor has a value has an error. -/
theorem NoPanic.fails {ε α : Type} {x : Outcome ε α} (h : NoPanic x) (hnot : ∀ a, x≠.ok a) :
    ∃ e, x=fail e := by
  match x with
  | .ok a => exact absurd rfl (hnot a)
  | .error (.err e) => exact ⟨e,rfl⟩
  | .error .panic => exact absurd rfl h

/-- The computation returns an error of the kind `P`. -/
def Fails {ε α : Type} (P : ε → Prop) (x : Outcome ε α) : Prop := ∃ e, P e ∧ x=fail e

section Fails

variable {ε α β : Type} {P : ε → Prop}

/-- A value is no error. -/
@[simp] theorem not_fails_ok {a : α} : ¬Fails P (.ok a : Outcome ε α) :=
  fun ⟨_,_,h⟩ => by cases h

/-- A returned error is of the kind when it is. -/
@[simp] theorem fails_fail {e : ε} : Fails P (fail e : Outcome ε α) ↔ P e := by
  constructor
  · intro ⟨e',he',h⟩
    cases h
    exact he'
  · exact fun h => ⟨e,h,rfl⟩

/-- An absent value is an error of the kind when its error is. -/
@[simp] theorem fails_okOr {o : Option α} {e : ε} : Fails P (okOr o e) ↔ o=none ∧ P e := by
  cases o with
  | none => exact fails_fail.trans (and_iff_right rfl).symm
  | some a => exact ⟨fun h => absurd h not_fails_ok,fun h => by cases h.1⟩

/-- A sequence fails in the first step or in what follows its value. -/
theorem fails_bind {x : Outcome ε α} {f : α → Outcome ε β} :
    Fails P (x >>= f) ↔ Fails P x ∨ ∃ a, x=.ok a ∧ Fails P (f a) := by
  match x with
  | .ok a =>
    constructor
    · exact fun h => .inr ⟨a,rfl,h⟩
    · rintro (h | ⟨b,hb,h⟩)
      · exact absurd h not_fails_ok
      · cases hb
        exact h
  | .error (.err e) =>
    constructor
    · intro ⟨e',he',h⟩
      cases h
      exact .inl ⟨e,he',rfl⟩
    · rintro (⟨e',he',h⟩ | ⟨b,hb,_⟩)
      · cases h
        exact ⟨e,he',rfl⟩
      · cases hb
  | .error .panic =>
    constructor
    · intro ⟨_,_,h⟩
      cases h
    · rintro (⟨_,_,h⟩ | ⟨b,hb,_⟩)
      · cases h
      · cases hb

/-- A sequence of steps that do not fail does not fail. -/
theorem not_fails_bind {x : Outcome ε α} {f : α → Outcome ε β} (hx : ¬Fails P x)
    (hf : ∀ a, ¬Fails P (f a)) : ¬Fails P (x >>= f) := by
  intro h
  rcases fails_bind.mp h with h | ⟨a,_,h⟩
  · exact hx h
  · exact hf a h

end Fails

/-- Addition of two `w`-bit words, absent on overflow. -/
def addWord (w a b : ℕ) : Option ℕ := if a+b<2^w then some (a+b) else none

/-- Subtraction of two words, absent on underflow. -/
def subWord (a b : ℕ) : Option ℕ := if b≤a then some (a-b) else none

/-- Multiplication of two `w`-bit words, absent on overflow. -/
def mulWord (w a b : ℕ) : Option ℕ := if a*b<2^w then some (a*b) else none

/-- The bit `2^k` of a `w`-bit word, absent when the shift is out of range. -/
def bitWord (w k : ℕ) : Option ℕ := if k<w then some (2^k) else none

/-- A present sum is the exact one, within the width. -/
@[simp] theorem addWord_some {w a b c : ℕ} : addWord w a b=some c ↔ a+b=c ∧ c<2^w := by
  unfold addWord
  split
  · rw [Option.some.injEq]
    constructor
    · intro h
      exact ⟨h,h ▸ ‹_›⟩
    · exact fun h => h.1
  · simp only [reduceCtorEq,false_iff]
    rintro ⟨h,hc⟩
    omega

/-- A present difference is the exact one, without underflow. -/
@[simp] theorem subWord_some {a b c : ℕ} : subWord a b=some c ↔ b≤a ∧ a-b=c := by
  unfold subWord
  split <;> simp_all

/-- A present product is the exact one, within the width. -/
@[simp] theorem mulWord_some {w a b c : ℕ} : mulWord w a b=some c ↔ a*b=c ∧ c<2^w := by
  unfold mulWord
  split
  · rw [Option.some.injEq]
    constructor
    · intro h
      exact ⟨h,h ▸ ‹_›⟩
    · exact fun h => h.1
  · simp only [reduceCtorEq,false_iff]
    rintro ⟨h,hc⟩
    omega

/-- A present bit is a power of two in range. -/
@[simp] theorem bitWord_some {w k c : ℕ} : bitWord w k=some c ↔ k<w ∧ 2^k=c := by
  unfold bitWord
  split <;> simp_all

/-- Addition of two words that stops at the largest one. -/
def saturatingAdd (w a b : ℕ) : ℕ := min (a+b) (2^w-1)

/-- Multiplication of two words that stops at the largest one. -/
def saturatingMul (w a b : ℕ) : ℕ := min (a*b) (2^w-1)

/-- Saturating a saturated summand changes nothing. -/
theorem saturatingAdd_min_left (w a b : ℕ) :
    saturatingAdd w (min a (2^w-1)) b=min (a+b) (2^w-1) := by
  unfold saturatingAdd
  omega

/-- Saturating a saturated summand changes nothing. -/
theorem saturatingAdd_min_right (w a b : ℕ) :
    saturatingAdd w a (min b (2^w-1))=min (a+b) (2^w-1) := by
  unfold saturatingAdd
  omega

/-- Addition of two `w`-bit words that drops the carry. -/
def wrappingAdd (w a b : ℕ) : ℕ := (a+b)%2^w

/-- Subtraction of two `w`-bit words that drops the borrow. -/
def wrappingSub (w a b : ℕ) : ℕ := (a+(2^w-b%2^w))%2^w

/-- Wrapping subtraction is integer subtraction modulo the width. -/
theorem wrappingSub_cast (w a b : ℕ) : (wrappingSub w a b : ℤ)=((a : ℤ)-b)%2^w := by
  have hlt : b%2^w<2^w := Nat.mod_lt _ (Nat.two_pow_pos w)
  have hb : (b : ℤ)=2^w*(b/2^w : ℕ)+(b%2^w : ℕ) := by exact_mod_cast (Nat.div_add_mod b (2^w)).symm
  have hsum : ((a+(2^w-b%2^w) : ℕ) : ℤ)=(a-b)+2^w*((b/2^w : ℕ)+1) := by
    rw [hb,Nat.cast_add,Nat.cast_sub hlt.le]
    push_cast
    ring
  unfold wrappingSub
  rw [Int.natCast_mod,hsum]
  push_cast
  rw [Int.add_mul_emod_self_left]

/-- Clear in the `w`-bit word `x` every bit that the mask `m` sets. -/
def clearBits (w x m : ℕ) : ℕ := x &&& (2^w-1-m)

/-- Clearing the bits of a mask subtracts the masked part. -/
theorem clearBits_eq {w x m : ℕ} (hx : x<2^w) (hm : m<2^w) :
    clearBits w x m=x-(x &&& m) := by
  let X := BitVec.ofNat w x
  let M := BitVec.ofNat w m
  have hX : X.toNat=x := by rw [BitVec.toNat_ofNat,Nat.mod_eq_of_lt hx]
  have hM : M.toNat=m := by rw [BitVec.toNat_ofNat,Nat.mod_eq_of_lt hm]
  have hdisjoint : (X &&& M) &&& (X &&& ~~~M)=0#w := by
    ext i hi
    simp only [BitVec.getElem_and,BitVec.getElem_not,BitVec.getElem_zero]
    cases X[i] <;> cases M[i] <;> rfl
  have hjoin : (X &&& M) ||| (X &&& ~~~M)=X := by
    ext i hi
    simp only [BitVec.getElem_or,BitVec.getElem_and,BitVec.getElem_not]
    cases X[i] <;> cases M[i] <;> rfl
  have hsum := BitVec.toNat_add_of_and_eq_zero hdisjoint
  rw [BitVec.add_eq_or_of_and_eq_zero _ _ hdisjoint,hjoin] at hsum
  simp only [BitVec.toNat_and,BitVec.toNat_not,hX,hM] at hsum
  unfold clearBits
  omega

/-- A cleared word is at most the word. -/
theorem clearBits_le {w x m : ℕ} : clearBits w x m≤x := Nat.and_le_left

/-- Clearing the bits of a mask removes at most the mask. -/
theorem sub_le_clearBits {w x m : ℕ} (hx : x<2^w) (hm : m<2^w) : x-m ≤ clearBits w x m := by
  have h : x &&& m ≤ m := Nat.and_le_right
  rw [clearBits_eq hx hm]
  omega

/-- Clearing the low bits of a word rounds it down to a power of two. -/
theorem clearBits_low {w x k : ℕ} (hx : x<2^w) (hk : k≤w) :
    clearBits w x (2^k-1)=x/2^k*2^k := by
  have hpos : 0<2^k := Nat.two_pow_pos k
  have hle : 2^k≤2^w := Nat.pow_le_pow_right (by omega) hk
  rw [clearBits_eq hx (by omega),Nat.and_two_pow_sub_one_eq_mod]
  have h := Nat.div_add_mod x (2^k)
  rw [Nat.mul_comm] at h
  omega

/-- Clearing the low bits of a word leaves a multiple of a power of two. -/
theorem dvd_clearBits {w k : ℕ} (x : ℕ) (hk : k≤w) : 2^k∣clearBits w x (2^k-1) := by
  have hpos : 0<2^k := Nat.two_pow_pos k
  have hle : 2^k≤2^w := Nat.pow_le_pow_right (by omega) hk
  have hmask : (2^w-1-(2^k-1))%2^k=0 := by
    rw [show 2^w-1-(2^k-1)=2^w-2^k by omega]
    exact Nat.mod_eq_zero_of_dvd (Nat.dvd_sub (pow_dvd_pow 2 hk) (dvd_refl _))
  refine Nat.dvd_of_mod_eq_zero ?_
  rw [clearBits,Nat.and_mod_two_pow,hmask,Nat.and_zero]

end Arma.Base.Checked
