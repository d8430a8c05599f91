import Mathlib.Data.Nat.Basic
import Mathlib.Tactic.Common
import Mathlib.Tactic.Ring

/-!
# Byte strings

Words in little- and big-endian order, slices of a byte string, overwriting a
slice in place, and sequences of fixed-width records. Every operation is total;
the laws state where a slice lies inside the string.
-/

namespace Arma.Base.ByteString

/-- What holds of every character of a list is decided along the list, not over all
characters that there are. -/
instance decidableForallChar {p : Char → Prop} [DecidablePred p] (l : List Char) :
    Decidable (∀ c∈l, p c) := List.decidableBAll p l

/-- A string of bytes. -/
abbrev Bytes : Type := List UInt8

/-- The `n` low bytes of `v`, least significant first. -/
def leBytes : ℕ → ℕ → Bytes
  | 0,_ => []
  | n+1,v => UInt8.ofNat v::leBytes n (v/256)

/-- The value of a little-endian word. -/
def ofLE : Bytes → ℕ
  | [] => 0
  | b::bs => b.toNat+256*ofLE bs

/-- The `n` low bytes of `v`, most significant first. -/
def beBytes (n v : ℕ) : Bytes := (leBytes n v).reverse

/-- The value of a big-endian word. -/
def ofBE (bs : Bytes) : ℕ := ofLE bs.reverse

/-- A word has the requested number of bytes. -/
@[simp] theorem length_leBytes (n v : ℕ) : (leBytes n v).length=n := by
  induction n generalizing v with
  | zero => rfl
  | succ n ih => rw [leBytes,List.length_cons,ih]

/-- A big-endian word has the requested number of bytes. -/
@[simp] theorem length_beBytes (n v : ℕ) : (beBytes n v).length=n := by
  rw [beBytes,List.length_reverse,length_leBytes]

/-- Reading back a written word truncates it to its width. -/
theorem ofLE_leBytes (n v : ℕ) : ofLE (leBytes n v)=v%256^n := by
  induction n generalizing v with
  | zero => simp [leBytes,ofLE,Nat.mod_one]
  | succ n ih =>
    have hbyte : (UInt8.ofNat v).toNat=v%256 := rfl
    rw [leBytes,ofLE,ih,hbyte,Nat.pow_succ,Nat.mul_comm (256^n) 256,Nat.mod_mul]

/-- A byte is read back. -/
theorem ofLE_byte {v : ℕ} (h : v≤255) : ofLE [UInt8.ofNat v]=v := by
  rw [show [UInt8.ofNat v]=leBytes 1 v from rfl,ofLE_leBytes]
  exact Nat.mod_eq_of_lt (by omega)

/-- A word of four bytes is read back. -/
theorem ofLE_word {v : ℕ} (h : v<2^32) : ofLE (leBytes 4 v)=v := by
  rw [ofLE_leBytes]
  exact Nat.mod_eq_of_lt h

/-- The two halves of a double word. -/
theorem ofLE_halves (v : ℕ) (h : v<2^64) :
    ofLE (leBytes 4 (v%2^32))+2^32*ofLE (leBytes 4 (v/2^32%2^32))=v := by
  rw [ofLE_word (Nat.mod_lt _ (by decide)),ofLE_word (Nat.mod_lt _ (by decide))]
  omega

/-- A word is below the bound of its width. -/
theorem ofLE_lt (bs : Bytes) : ofLE bs<256^bs.length := by
  induction bs with
  | nil => simp [ofLE]
  | cons b bs ih =>
    have hb : b.toNat<256 := b.toNat_lt
    rw [ofLE,List.length_cons,Nat.pow_succ]
    omega

/-- The value of a word in two parts. -/
theorem ofLE_append (a b : Bytes) : ofLE (a++b)=ofLE a+256^a.length*ofLE b := by
  induction a with
  | nil => simp [ofLE]
  | cons x a ih =>
    rw [List.cons_append,ofLE,ofLE,ih,List.length_cons,Nat.pow_succ]
    ring

/-- The value of a big-endian word in two parts. -/
theorem ofBE_append (a b : Bytes) : ofBE (a++b)=256^b.length*ofBE a+ofBE b := by
  rw [ofBE,List.reverse_append,ofLE_append,List.length_reverse,Nat.add_comm,ofBE,ofBE]

/-- A big-endian word is below the bound of its width. -/
theorem ofBE_lt (bs : Bytes) : ofBE bs<256^bs.length := by
  have hlt := ofLE_lt bs.reverse
  rwa [List.length_reverse] at hlt

/-- Writing back a read word restores its bytes. -/
theorem leBytes_ofLE (bs : Bytes) : leBytes bs.length (ofLE bs)=bs := by
  induction bs with
  | nil => rfl
  | cons b bs ih =>
    have hb : b.toNat<256 := b.toNat_lt
    have hdiv : (b.toNat+256*ofLE bs)/256=ofLE bs := by omega
    have hlow : UInt8.ofNat (b.toNat+256*ofLE bs)=b := by
      apply UInt8.toNat_inj.mp
      change (b.toNat+256*ofLE bs)%256=b.toNat
      omega
    rw [ofLE,List.length_cons,leBytes,hdiv,hlow,ih]

/-- Only the part of a value within the width is written. -/
theorem leBytes_mod (n v : ℕ) : leBytes n (v%256^n)=leBytes n v := by
  have h := leBytes_ofLE (leBytes n v)
  rwa [length_leBytes,ofLE_leBytes] at h

/-- Reading back a written big-endian word truncates it to its width. -/
theorem ofBE_beBytes (n v : ℕ) : ofBE (beBytes n v)=v%256^n := by
  rw [ofBE,beBytes,List.reverse_reverse,ofLE_leBytes]

/-- The `n` elements from position `o` on, fewer at the end of the list. -/
def slice {α : Type} (o n : ℕ) (xs : List α) : List α := (xs.drop o).take n

/-- Replace the elements from position `o` on by `ys`. -/
def overwrite {α : Type} (o : ℕ) (ys xs : List α) : List α :=
  xs.take o++ys++xs.drop (o+ys.length)

/-- The elements of a slice are those of the list. -/
theorem getElem?_slice {α : Type} (o n i : ℕ) (xs : List α) :
    (slice o n xs)[i]?=if i<n then xs[o+i]? else none := by
  rw [slice,List.getElem?_take,List.getElem?_drop]

/-- A slice inside the list has the requested length. -/
theorem length_slice {α : Type} {o n : ℕ} {xs : List α} (h : o+n≤xs.length) :
    (slice o n xs).length=n := by
  rw [slice,List.length_take,List.length_drop]
  omega

/-- Overwriting inside the list keeps its length. -/
theorem length_overwrite {α : Type} {o : ℕ} {ys xs : List α} (h : o+ys.length≤xs.length) :
    (overwrite o ys xs).length=xs.length := by
  simp only [overwrite,List.length_append,List.length_take,List.length_drop]
  omega

/-- Overwriting changes exactly the elements it covers. -/
theorem getElem?_overwrite {α : Type} {o : ℕ} {ys xs : List α} (h : o+ys.length≤xs.length)
    (i : ℕ) : (overwrite o ys xs)[i]?=
      if o ≤ i ∧ i<o+ys.length then ys[i-o]? else xs[i]? := by
  have htake : (xs.take o).length=o := by
    rw [List.length_take]
    omega
  unfold overwrite
  rw [List.append_assoc]
  by_cases hlow : i<o
  · rw [List.getElem?_append_left (by omega),List.getElem?_take,if_pos hlow,if_neg (by omega)]
  · rw [List.getElem?_append_right (by omega),htake]
    by_cases hmid : i<o+ys.length
    · rw [List.getElem?_append_left (by omega),if_pos ⟨by omega,hmid⟩]
    · rw [List.getElem?_append_right (by omega),if_neg (by omega),List.getElem?_drop]
      congr 1
      omega

/-- The overwritten slice holds what was written. -/
theorem slice_overwrite {α : Type} {o : ℕ} {ys xs : List α} (h : o+ys.length≤xs.length) :
    slice o ys.length (overwrite o ys xs)=ys := by
  apply List.ext_getElem?
  intro i
  rw [getElem?_slice,getElem?_overwrite h]
  by_cases hi : i<ys.length
  · rw [if_pos hi,if_pos ⟨by omega,by omega⟩,Nat.add_sub_cancel_left]
  · rw [if_neg hi,List.getElem?_eq_none (by omega)]

/-- A slice apart from the overwritten one keeps its elements. -/
theorem slice_overwrite_of_disjoint {α : Type} {o p n : ℕ} {ys xs : List α}
    (h : o+ys.length≤xs.length) (hd : p+n≤o ∨ o+ys.length≤p) :
    slice p n (overwrite o ys xs)=slice p n xs := by
  apply List.ext_getElem?
  intro i
  rw [getElem?_slice,getElem?_slice,getElem?_overwrite h]
  by_cases hi : i<n
  · rw [if_pos hi,if_pos hi,if_neg (by omega)]
  · rw [if_neg hi,if_neg hi]

/-- The middle part of a string is the slice at its offset. -/
theorem slice_append {α : Type} {o n : ℕ} {a b c : List α} (ha : a.length=o)
    (hb : b.length=n) : slice o n (a++b++c)=b := by
  rw [slice,List.append_assoc,List.drop_left' ha,List.take_left' hb]

/-- A slice in two parts. -/
theorem slice_add {α : Type} (o m n : ℕ) (xs : List α) :
    slice o (m+n) xs=slice o m xs++slice (o+m) n xs := by
  rw [slice,slice,slice,List.take_add,List.drop_drop]

/-- Two writes in a row are one write of both strings. -/
theorem overwrite_append {α : Type} {o : ℕ} {ys zs xs : List α}
    (h : o+(ys++zs).length≤xs.length) :
    overwrite (o+ys.length) zs (overwrite o ys xs)=overwrite o (ys++zs) xs := by
  rw [List.length_append] at h
  have hy : o+ys.length≤xs.length := by omega
  have hz : o+ys.length+zs.length≤(overwrite o ys xs).length := by
    rw [length_overwrite hy]
    omega
  apply List.ext_getElem?
  intro i
  rw [getElem?_overwrite hz,getElem?_overwrite hy,getElem?_overwrite (by
    rw [List.length_append]; omega),List.length_append]
  by_cases hlow : i<o+ys.length
  · rw [if_neg (by omega)]
    by_cases hstart : o ≤ i
    · rw [if_pos ⟨hstart,hlow⟩,if_pos ⟨hstart,by omega⟩,List.getElem?_append_left (by omega)]
    · rw [if_neg (by omega),if_neg (by omega)]
  · by_cases hhigh : i<o+ys.length+zs.length
    · rw [if_pos ⟨by omega,hhigh⟩,if_pos ⟨by omega,by omega⟩,
        List.getElem?_append_right (by omega),Nat.sub_sub]
    · rw [if_neg (by omega),if_neg (by omega),if_neg (by omega)]

/-- A write right behind one at the start extends it. -/
theorem overwrite_next {α : Type} {o : ℕ} {ys zs xs : List α} (ho : ys.length=o)
    (h : o+zs.length≤xs.length) : overwrite o zs (overwrite 0 ys xs)=overwrite 0 (ys++zs) xs := by
  have hall : 0+(ys++zs).length≤xs.length := by
    rw [List.length_append]
    omega
  have happend := overwrite_append hall
  rwa [Nat.zero_add,ho] at happend

/-- The bytes of an ASCII string. -/
def ascii (s : String) : Bytes := s.toList.map fun c => UInt8.ofNat c.toNat

/-- `n` zero bytes. -/
def zeros (n : ℕ) : Bytes := List.replicate n 0

/-- The number of zero bytes. -/
@[simp] theorem length_zeros (n : ℕ) : (zeros n).length=n := List.length_replicate

/-- A word of the width of a slice is read back from it. -/
theorem ofLE_slice_lt {o n : ℕ} {xs : Bytes} (h : o+n≤xs.length) :
    ofLE (slice o n xs)<256^n := by
  have hlt := ofLE_lt (slice o n xs)
  rwa [length_slice h] at hlt

/-- Decode `count` consecutive records of `width` bytes. -/
def decodeRecords {α : Type} (width : ℕ) (decode : Bytes → α) : ℕ → Bytes → List α
  | 0,_ => []
  | count+1,bs => decode (bs.take width)::decodeRecords width decode count (bs.drop width)

/-- As many records are decoded as are asked for. -/
theorem length_decodeRecords {α : Type} (width : ℕ) (decode : Bytes → α) (count : ℕ) (bs : Bytes) :
    (decodeRecords width decode count bs).length=count := by
  induction count generalizing bs with
  | zero => rfl
  | succ count ih => rw [decodeRecords,List.length_cons,ih]

/-- Records of one width take that many bytes each. -/
theorem length_flatMap_records {α : Type} {width : ℕ} {encode : α → Bytes} {as : List α}
    (hwidth : ∀ a∈as, (encode a).length=width) : (as.flatMap encode).length=as.length*width := by
  induction as with
  | nil => simp
  | cons a as ih =>
    obtain ⟨ha,has⟩ := List.forall_mem_cons.mp hwidth
    rw [List.flatMap_cons,List.length_append,ha,ih has,List.length_cons,Nat.add_mul]
    omega

/-- Encoded records are decoded one by one, whatever follows them. -/
theorem decodeRecords_flatMap {α β : Type} {width : ℕ} {encode : α → Bytes} (decode : Bytes → β)
    {as : List α} (hwidth : ∀ a∈as, (encode a).length=width) (rest : Bytes) :
    decodeRecords width decode as.length (as.flatMap encode++rest)=
      as.map fun a => decode (encode a) := by
  induction as with
  | nil => rfl
  | cons a as ih =>
    obtain ⟨ha,has⟩ := List.forall_mem_cons.mp hwidth
    rw [List.flatMap_cons,List.append_assoc,List.length_cons,decodeRecords,List.take_left' ha,
      List.drop_left' ha,ih has,List.map_cons]

/-- A value is a row of whole tuples, and these are what is decoded. -/
def Whole {α : Type} (width : ℕ) (decode : Bytes → α) (bs : Bytes) (as : List α) : Prop :=
  ∃ tuples : List Bytes, (∀ t∈tuples, t.length=width) ∧ tuples.flatten=bs ∧ tuples.map decode=as

/-- Whole tuples leave no byte over. -/
theorem Whole.length {α : Type} {width : ℕ} {decode : Bytes → α} {bs : Bytes} {as : List α}
    (h : Whole width decode bs as) : bs.length=as.length*width := by
  obtain ⟨tuples,hwidth,rfl,rfl⟩ := h
  rw [List.length_map,←length_flatMap_records hwidth,List.flatMap_id']

/-- A value of whole tuples is decoded one by one. -/
theorem whole_decodeRecords {α : Type} {width count : ℕ} (decode : Bytes → α) {bs : Bytes}
    (h : bs.length=count*width) : Whole width decode bs (decodeRecords width decode count bs) := by
  induction count generalizing bs with
  | zero =>
    rw [Nat.zero_mul,List.length_eq_zero_iff] at h
    exact ⟨[],fun t ht => absurd ht List.not_mem_nil,h.symm,rfl⟩
  | succ count ih =>
    rw [Nat.succ_mul] at h
    have hrest : (bs.drop width).length=count*width := by
      rw [List.length_drop]
      omega
    obtain ⟨tuples,hwidth,hflat,hdecode⟩ := ih hrest
    have hfirst : (bs.take width).length=width := by
      rw [List.length_take]
      omega
    refine ⟨bs.take width::tuples,List.forall_mem_cons.mpr ⟨hfirst,hwidth⟩,?_,?_⟩
    · rw [List.flatten_cons,hflat,List.take_append_drop]
    · rw [List.map_cons,hdecode,decodeRecords]

/-- What decoding stops at is the end of a value exactly when the width divides the length. -/
theorem whole_iff {α : Type} {width : ℕ} (decode : Bytes → α) (bs : Bytes) :
    Whole width decode bs (decodeRecords width decode (bs.length/width) bs) ↔
      bs.length%width=0 := by
  constructor
  · intro h
    have hlen := h.length
    rw [hlen]
    exact Nat.mul_mod_left _ _
  · intro h
    exact whole_decodeRecords decode (Nat.div_mul_cancel (Nat.dvd_of_mod_eq_zero h)).symm

/-- A single tuple is the whole value. -/
theorem whole_singleton {α : Type} {width : ℕ} {decode : Bytes → α} {bs : Bytes} {a : α} :
    Whole width decode bs [a] ↔ bs.length=width ∧ decode bs=a := by
  constructor
  · rintro ⟨tuples,hwidth,rfl,hdecode⟩
    obtain ⟨t,rfl,ht⟩ := List.map_eq_singleton_iff.mp hdecode
    rw [List.flatten_singleton]
    exact ⟨hwidth t List.mem_cons_self,ht⟩
  · rintro ⟨hlen,rfl⟩
    exact ⟨[bs],List.forall_mem_singleton.mpr hlen,List.flatten_singleton,rfl⟩

end Arma.Base.ByteString
