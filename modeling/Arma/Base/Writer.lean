import Mathlib.Algebra.Order.Group.Nat
import Mathlib.Algebra.BigOperators.Group.List.Basic
import Mathlib.Tactic.Common
import Arma.Base.ByteString
import Arma.Base.Checked

/-!
# Writing a slot from front to back

A cursor is a slot with a write position. An emitter either fails or leaves the
cursor behind what it wrote. `Emits` says which string that is, whatever the
slot held before; it composes along concatenation. A sealed string has one byte
chosen such that all its bytes sum to zero.
-/

namespace Arma.Base.Writer

open ByteString Checked

/-- A slot and the position of the next write. -/
structure Cursor where
  /-- The bytes of the slot. -/
  slot : Bytes
  /-- Where the next write starts. -/
  pos : ℕ
deriving DecidableEq, Repr

/-- The cursor after writing `out`. -/
def Cursor.put (c : Cursor) (out : Bytes) : Cursor :=
  ⟨overwrite c.pos out c.slot,c.pos+out.length⟩

/-- Write a string at the cursor; `e` is the error of a write past the slot. An
end that no word can hold lies past every slot. -/
def writeAt {ε : Type} (e : ε) (out : Bytes) (c : Cursor) : Outcome ε Cursor :=
  if c.pos+out.length ≤ c.slot.length then .ok (c.put out) else fail e

/-- The emitter succeeds exactly when there is a string to write and room for
it, and then has written that string. -/
def Emits {ε : Type} (f : Cursor → Outcome ε Cursor) (r : Option Bytes) : Prop :=
  ∀ c c', c.pos ≤ c.slot.length → (f c=.ok c' ↔
    ∃ out, r=some out ∧ c.pos+out.length ≤ c.slot.length ∧ c'=c.put out)

/-- The value of a computation, if it has one. -/
def value {ε α : Type} : Except ε α → Option α
  | .ok a => some a
  | .error _ => none

/-- Concatenation of two strings, if both are there. -/
def cat (r s : Option Bytes) : Option Bytes := r.bind fun a => s.map fun b => a++b

/-- Concatenation of a list of strings, if all are there. -/
def catAll : List (Option Bytes) → Option Bytes
  | [] => some []
  | r::rs => cat r (catAll rs)

/-- A value is present exactly when the computation succeeds. -/
@[simp] theorem value_eq_some {ε α : Type} {x : Except ε α} {a : α} :
    value x=some a ↔ x=.ok a := by
  cases x <;> simp [value]

/-- The value of a success. -/
@[simp] theorem value_ok {ε α : Type} (a : α) : value (.ok a : Except ε α)=some a := rfl

/-- The value of an option turned into a computation. -/
@[simp] theorem value_okOr {ε α : Type} (o : Option α) (e : ε) : value (okOr o e)=o := by
  cases o <;> rfl

/-- A concatenation is present exactly when both parts are. -/
theorem cat_eq_some {r s : Option Bytes} {out : Bytes} :
    cat r s=some out ↔ ∃ a, r=some a ∧ ∃ b, s=some b ∧ out=a++b := by
  unfold cat
  rw [Option.bind_eq_some_iff]
  constructor
  · rintro ⟨a,ha,h⟩
    obtain ⟨b,hb,rfl⟩ := Option.map_eq_some_iff.mp h
    exact ⟨a,ha,b,hb,rfl⟩
  · rintro ⟨a,ha,b,hb,rfl⟩
    exact ⟨a,ha,Option.map_eq_some_iff.mpr ⟨b,hb,rfl⟩⟩

/-- Concatenating present strings. -/
@[simp] theorem cat_some (a b : Bytes) : cat (some a) (some b)=some (a++b) := rfl

/-- Concatenation is associative. -/
theorem cat_assoc (r s t : Option Bytes) : cat (cat r s) t=cat r (cat s t) := by
  cases r <;> cases s <;> cases t <;> simp [cat]

/-- Two present strings in front of another are one string. -/
theorem cat_cat_some (a b : Bytes) (r : Option Bytes) :
    cat (some a) (cat (some b) r)=cat (some (a++b)) r := by
  rw [←cat_assoc,cat_some]

/-- Nothing is a neutral element on the right. -/
@[simp] theorem cat_nil (r : Option Bytes) : cat r (some [])=r := by
  cases r <;> simp [cat]

/-- A missing part leaves no concatenation. -/
@[simp] theorem cat_none (r : Option Bytes) : cat r none=none := by
  cases r <;> rfl

/-- A string in front of one that depends on a value. -/
theorem cat_bind {α : Type} (r : Option Bytes) (o : Option α) (f : α → Option Bytes) :
    cat r (o.bind f)=o.bind fun a => cat r (f a) := by
  cases o with
  | none => exact cat_none r
  | some a => rfl

/-- Nothing is a neutral element on the left. -/
@[simp] theorem nil_cat (r : Option Bytes) : cat (some []) r=r := by
  cases r <;> simp [cat]

/-- Whether both parts of a concatenation are present. -/
@[simp] theorem isSome_cat (r s : Option Bytes) :
    (cat r s).isSome=(r.isSome && s.isSome) := by
  cases r <;> cases s <;> rfl

/-- All strings are present when their concatenation is. -/
theorem isSome_catAll {rs : List (Option Bytes)} :
    (catAll rs).isSome=true ↔ ∀ r∈rs, r.isSome=true := by
  induction rs with
  | nil => simp [catAll]
  | cons r rs ih => rw [catAll,isSome_cat,Bool.and_eq_true,ih,List.forall_mem_cons]

/-- A concatenation is present exactly when all its parts are. -/
theorem catAll_eq_some {rs : List (Option Bytes)} {out : Bytes} :
    catAll rs=some out ↔ ∃ parts : List Bytes, rs=parts.map some ∧ out=parts.flatten := by
  induction rs generalizing out with
  | nil =>
    constructor
    · intro h
      cases h
      exact ⟨[],rfl,rfl⟩
    · intro h
      have ⟨parts,hparts,hout⟩ := h
      have hnil := List.map_eq_nil_iff.mp hparts.symm
      rw [hout,hnil]
      rfl
  | cons r rs ih =>
    constructor
    · intro h
      have ⟨a,ha,b,hb,hout⟩ := cat_eq_some.mp h
      have ⟨parts,hparts,hflat⟩ := ih.mp hb
      exact ⟨a::parts,by rw [ha,hparts,List.map_cons],by rw [hout,hflat,List.flatten_cons]⟩
    · intro h
      have ⟨parts,hparts,hout⟩ := h
      cases parts with
      | nil => cases hparts
      | cons a parts =>
        have ⟨hhead,htail⟩ := List.cons.inj hparts
        exact cat_eq_some.mpr ⟨a,hhead,parts.flatten,ih.mpr ⟨parts,htail,rfl⟩,hout⟩

/-- The length of a concatenation is the sum of the lengths. -/
theorem length_catAll {α : Type} {l : List α} {r : α → Option Bytes} (size : α → ℕ)
    (hsize : ∀ a∈l, ∀ out, r a=some out → out.length=size a) {out : Bytes}
    (h : catAll (l.map r)=some out) : out.length=(l.map size).sum := by
  induction l generalizing out with
  | nil =>
    cases h
    rfl
  | cons a l ih =>
    obtain ⟨hhead,htail⟩ := List.forall_mem_cons.mp hsize
    rw [List.map_cons,catAll,cat_eq_some] at h
    obtain ⟨x,hx,y,hy,rfl⟩ := h
    rw [List.length_append,hhead x hx,ih htail hy,List.map_cons,List.sum_cons]

variable {ε : Type}

/-- A cursor within its slot stays there by a write that fits. -/
theorem Cursor.put_within {c : Cursor} {out : Bytes} (h : c.pos+out.length ≤ c.slot.length) :
    (c.put out).pos≤(c.put out).slot.length := by
  rw [Cursor.put,length_overwrite h]
  exact h

/-- Two writes are one write of both strings. -/
theorem Cursor.put_put {c : Cursor} {a b : Bytes} (h : c.pos+(a++b).length ≤ c.slot.length) :
    (c.put a).put b=c.put (a++b) := by
  unfold Cursor.put
  dsimp only
  rw [overwrite_append h,List.length_append,Nat.add_assoc]

/-- A write emits its string. -/
theorem emits_writeAt (e : ε) (out : Bytes) : Emits (writeAt e out) (some out) := by
  intro c c' _
  unfold writeAt
  split
  · rename_i hroom
    constructor
    · intro h
      cases h
      exact ⟨out,rfl,hroom,rfl⟩
    · rintro ⟨_,hout,_,rfl⟩
      cases hout
      rfl
  · rename_i hroom
    constructor
    · exact fun h => absurd h fail_ne_ok
    · rintro ⟨_,hout,h,_⟩
      cases hout
      exact absurd h hroom

/-- Doing nothing emits the empty string. -/
theorem emits_nil : Emits (fun c => (.ok c : Outcome ε Cursor)) (some []) := by
  intro c c' hpos
  have hput : c.put []=c := by
    unfold Cursor.put overwrite
    rw [List.append_nil,List.length_nil,Nat.add_zero,List.take_append_drop]
  constructor
  · intro h
    cases h
    exact ⟨[],rfl,hpos,hput.symm⟩
  · rintro ⟨_,hout,_,rfl⟩
    cases hout
    rw [hput]

/-- An emitter that always fails emits nothing. -/
theorem emits_fail (e : ε) : Emits (fun _ => fail e) none := by
  intro c c' _
  constructor
  · exact fun h => absurd h fail_ne_ok
  · rintro ⟨_,h,_⟩
    exact absurd h (by simp)

/-- Emitters in sequence emit the concatenation. -/
theorem Emits.seq {f g : Cursor → Outcome ε Cursor} {r s : Option Bytes} (hf : Emits f r)
    (hg : Emits g s) : Emits (fun c => f c >>= g) (cat r s) := by
  intro c c' hpos
  rw [bind_ok]
  constructor
  · rintro ⟨d,hd,h⟩
    obtain ⟨a,ha,hroom,rfl⟩ := (hf c d hpos).mp hd
    obtain ⟨b,hb,hroom',rfl⟩ := (hg _ c' (Cursor.put_within hroom)).mp h
    have hlen : (c.put a).slot.length=c.slot.length := length_overwrite hroom
    have hfit : c.pos+(a++b).length ≤ c.slot.length := by
      rw [hlen] at hroom'
      rw [List.length_append,←Nat.add_assoc]
      exact hroom'
    exact ⟨a++b,cat_eq_some.mpr ⟨a,ha,b,hb,rfl⟩,hfit,Cursor.put_put hfit⟩
  · rintro ⟨out,hout,hroom,rfl⟩
    obtain ⟨a,ha,b,hb,rfl⟩ := cat_eq_some.mp hout
    have hsum : c.pos+a.length+b.length ≤ c.slot.length := by
      rw [List.length_append,←Nat.add_assoc] at hroom
      exact hroom
    have hrooma : c.pos+a.length ≤ c.slot.length := by omega
    refine ⟨c.put a,(hf c _ hpos).mpr ⟨a,ha,hrooma,rfl⟩,?_⟩
    refine (hg _ _ (Cursor.put_within hrooma)).mpr ⟨b,hb,?_,(Cursor.put_put hroom).symm⟩
    rw [show (c.put a).slot.length=c.slot.length from length_overwrite hrooma]
    exact hsum

/-- An emitter behind a computation emits what it does on the value. -/
theorem Emits.after {α : Type} {x : Outcome ε α} {f : α → Cursor → Outcome ε Cursor}
    {r : α → Option Bytes} (h : ∀ a, x=.ok a → Emits (f a) (r a)) :
    Emits (fun c => x >>= fun a => f a c) ((value x).bind r) := by
  intro c c' hpos
  rw [bind_ok]
  constructor
  · rintro ⟨a,ha,hf⟩
    obtain ⟨out,hout,hrest⟩ := (h a ha c c' hpos).mp hf
    exact ⟨out,Option.bind_eq_some_iff.mpr ⟨a,value_eq_some.mpr ha,hout⟩,hrest⟩
  · rintro ⟨out,hout,hrest⟩
    obtain ⟨a,ha,hout⟩ := Option.bind_eq_some_iff.mp hout
    have ha := value_eq_some.mp ha
    exact ⟨a,ha,(h a ha c c' hpos).mpr ⟨out,hout,hrest⟩⟩

/-- The sum of all bytes. -/
def byteSum (bs : Bytes) : ℕ := (bs.map UInt8.toNat).sum

/-- The byte that makes a string sum to zero. -/
def checksum (bs : Bytes) : UInt8 := 0-bs.foldl (fun a b => a+b) 0

/-- The string with the byte at position `k` chosen such that all bytes sum to
zero. -/
def sealed (k : ℕ) (bs : Bytes) : Bytes := (bs.set k 0).set k (checksum (bs.set k 0))

/-- The wrapping sum is the sum modulo 256. -/
theorem foldl_toNat (bs : Bytes) (a : UInt8) :
    (bs.foldl (fun a b => a+b) a).toNat=(a.toNat+byteSum bs)%256 := by
  induction bs generalizing a with
  | nil =>
    have ha : a.toNat<256 := a.toNat_lt
    simp only [List.foldl_nil,byteSum,List.map_nil,List.sum_nil]
    omega
  | cons b bs ih =>
    have hadd : (a+b).toNat=(a.toNat+b.toNat)%256 := UInt8.toNat_add a b
    rw [List.foldl_cons,ih,hadd,byteSum,byteSum,List.map_cons,List.sum_cons]
    omega

/-- A string and its checksum sum to zero. -/
theorem checksum_spec (bs : Bytes) : (byteSum bs+(checksum bs).toNat)%256=0 := by
  have hfold := foldl_toNat bs 0
  have hsub : (checksum bs).toNat=
      (256-(bs.foldl (fun a b => a+b) 0).toNat+(0 : UInt8).toNat)%256 :=
    UInt8.toNat_sub 0 _
  have hzero : (0 : UInt8).toNat=0 := rfl
  rw [hzero] at hfold hsub
  rw [hsub,hfold]
  omega

/-- Replacing a byte changes the sum by the difference. -/
theorem byteSum_set {bs : Bytes} {k : ℕ} (h : k<bs.length) (b : UInt8) :
    byteSum (bs.set k b)+(bs[k]).toNat=byteSum bs+b.toNat := by
  induction bs generalizing k with
  | nil => exact absurd h (Nat.not_lt_zero _)
  | cons a bs ih =>
    cases k with
    | zero =>
      simp only [List.set_cons_zero,byteSum,List.map_cons,List.sum_cons,List.getElem_cons_zero]
      omega
    | succ k =>
      have h := ih (Nat.lt_of_succ_lt_succ h)
      simp only [byteSum] at h
      simp only [List.set_cons_succ,byteSum,List.map_cons,List.sum_cons,
        List.getElem_cons_succ]
      omega

/-- Sealing keeps the length. -/
@[simp] theorem length_sealed (k : ℕ) (bs : Bytes) : (sealed k bs).length=bs.length := by
  rw [sealed,List.length_set,List.length_set]

/-- A sealed string sums to zero. -/
theorem byteSum_sealed {k : ℕ} {bs : Bytes} (h : k<bs.length) :
    byteSum (sealed k bs)%256=0 := by
  have hk : k<(bs.set k 0).length := by rwa [List.length_set]
  have hset := byteSum_set hk (checksum (bs.set k 0))
  have hspec := checksum_spec (bs.set k 0)
  rw [List.getElem_set_self,show (0 : UInt8).toNat=0 from rfl] at hset
  rw [sealed]
  omega

/-- Sealing changes at most the byte it chooses. -/
theorem getElem?_sealed {k i : ℕ} {bs : Bytes} (h : i≠k) : (sealed k bs)[i]?=bs[i]? := by
  rw [sealed,List.getElem?_set_ne (Ne.symm h),List.getElem?_set_ne (Ne.symm h)]

/-- A slice that leaves out the chosen byte is not changed by sealing. -/
theorem slice_sealed {k o n : ℕ} {bs : Bytes} (h : k<o ∨ o+n≤k) :
    slice o n (sealed k bs)=slice o n bs := by
  apply List.ext_getElem?
  intro i
  rw [getElem?_slice,getElem?_slice]
  by_cases hi : i<n
  · rw [if_pos hi,if_pos hi,getElem?_sealed (by omega)]
  · rw [if_neg hi,if_neg hi]

/-- What follows the chosen byte is not changed by sealing. -/
theorem drop_sealed {k o : ℕ} (h : k<o) (bs : Bytes) : (sealed k bs).drop o=bs.drop o := by
  rw [sealed,List.drop_set_of_lt h,List.drop_set_of_lt h]

end Arma.Base.Writer
