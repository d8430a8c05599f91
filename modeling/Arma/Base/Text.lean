import Mathlib.Data.Nat.Log
import Arma.Base.ByteString

/-!
# Text in bytes

Numbers as hexadecimal digits of a minimal width, and strings in UTF-8. A number
below the bound of its width has exactly that many digits and is read back from
them; a string is read back from its bytes, none of which is zero unless one of
its characters is.
-/

namespace Arma.Base.Text

open Base.ByteString

/-- The digit of a value below sixteen, in upper case. -/
def hexDigit (v : ℕ) : UInt8 := if v<10 then UInt8.ofNat (48+v) else UInt8.ofNat (55+v)

/-- The value of a hexadecimal digit of either case. -/
def hexValue (b : UInt8) : Option ℕ :=
  if 48≤b.toNat ∧ b.toNat≤57 then some (b.toNat-48)
  else if 65≤b.toNat ∧ b.toNat≤70 then some (b.toNat-55)
  else if 97≤b.toNat ∧ b.toNat≤102 then some (b.toNat-87)
  else none

/-- The `n` low digits of a number, most significant first. -/
def hexDigits : ℕ → ℕ → Bytes
  | 0,_ => []
  | n+1,v => hexDigits n (v/16)++[hexDigit (v%16)]

/-- The digits of a number, at least `n` of them. -/
def hexPadded (n v : ℕ) : Bytes := hexDigits (max n (Nat.log 16 v+1)) v

/-- Read digits after those that gave `acc`. -/
def readHexFrom : ℕ → Bytes → Option ℕ
  | acc,[] => some acc
  | acc,b::bs => (hexValue b).bind fun d => readHexFrom (acc*16+d) bs

/-- The value of hexadecimal digits. -/
def readHex (bs : Bytes) : Option ℕ := readHexFrom 0 bs

/-- A digit is read back. -/
theorem hexValue_hexDigit {v : ℕ} (h : v<16) : hexValue (hexDigit v)=some v := by
  have hall : ∀ d : Fin 16, hexValue (hexDigit d)=some d.val := by decide
  exact hall ⟨v,h⟩

/-- There are as many digits as requested. -/
@[simp] theorem length_hexDigits (n v : ℕ) : (hexDigits n v).length=n := by
  induction n generalizing v with
  | zero => rfl
  | succ n ih => rw [hexDigits,List.length_append,ih,List.length_singleton]

/-- Reading digits in two parts. -/
theorem readHexFrom_append (acc : ℕ) (a b : Bytes) :
    readHexFrom acc (a++b)=(readHexFrom acc a).bind fun acc => readHexFrom acc b := by
  induction a generalizing acc with
  | nil => rfl
  | cons x a ih =>
    rw [List.cons_append,readHexFrom,readHexFrom,Option.bind_assoc]
    congr 1
    funext d
    exact ih (acc*16+d)

/-- Reading back written digits truncates the number to their width. -/
theorem readHex_hexDigits (n v : ℕ) : readHex (hexDigits n v)=some (v%16^n) := by
  unfold readHex
  induction n generalizing v with
  | zero => simp [hexDigits,readHexFrom,Nat.mod_one]
  | succ n ih =>
    have hdigit : hexValue (hexDigit (v%16))=some (v%16) :=
      hexValue_hexDigit (Nat.mod_lt v (by omega))
    have hmod : v/16%16^n*16+v%16=v%16^(n+1) := by
      rw [Nat.pow_succ,Nat.mul_comm (16^n) 16,Nat.mod_mul]
      omega
    rw [hexDigits,readHexFrom_append,ih,Option.bind_some,readHexFrom,hdigit,Option.bind_some,
      readHexFrom,hmod]

/-- A digit is below sixteen. -/
theorem hexValue_lt {b : UInt8} {d : ℕ} (h : hexValue b=some d) : d<16 := by
  unfold hexValue at h
  split at h
  · cases h
    omega
  · split at h
    · cases h
      omega
    · split at h
      · cases h
        omega
      · cases h

/-- Digits that are read make a number of their width. -/
theorem readHexFrom_lt {acc v : ℕ} {bs : Bytes} (h : readHexFrom acc bs=some v) :
    v<(acc+1)*16^bs.length := by
  induction bs generalizing acc with
  | nil =>
    cases h
    simp
  | cons b bs ih =>
    obtain ⟨d,hd,h⟩ := Option.bind_eq_some_iff.mp h
    have hdigit := hexValue_lt hd
    calc
      v < (acc*16+d+1)*16^bs.length := ih h
      _ ≤ (acc+1)*16*16^bs.length := Nat.mul_le_mul_right _ (by omega)
      _ = (acc+1)*16^(bs.length+1) := by rw [Nat.pow_succ,Nat.mul_assoc,Nat.mul_comm 16]

/-- So does a number that is read. -/
theorem readHex_lt {v : ℕ} {bs : Bytes} (h : readHex bs=some v) : v<16^bs.length := by
  have hlt := readHexFrom_lt h
  rwa [Nat.zero_add,Nat.one_mul] at hlt

/-- A number below the bound of its width needs no more digits. -/
theorem hexPadded_eq {n v : ℕ} (hn : n≠0) (h : v<16^n) : hexPadded n v=hexDigits n v := by
  have hlog : Nat.log 16 v<n := Nat.log_lt_of_lt_pow' hn h
  rw [hexPadded,Nat.max_eq_left hlog]

/-- It is read back. -/
theorem readHex_hexPadded {n v : ℕ} (hn : n≠0) (h : v<16^n) :
    readHex (hexPadded n v)=some v := by
  rw [hexPadded_eq hn h,readHex_hexDigits,Nat.mod_eq_of_lt h]

/-- The UTF-8 bytes of a string. -/
def utf8 (s : String) : Bytes := s.toByteArray.data.toList

/-- As many as the string says. -/
@[simp] theorem length_utf8 (s : String) : (utf8 s).length=s.utf8ByteSize := rfl

/-- Strings of the same bytes are equal. -/
theorem utf8_injective {s t : String} (h : utf8 s=utf8 t) : s=t := by
  have hdata : s.toByteArray.data=t.toByteArray.data := Array.toList_inj.mp h
  exact String.toByteArray_inj.mp (ByteArray.ext hdata)

/-- A string is read back from its bytes. -/
theorem fromUTF8_utf8 (s : String) : String.fromUTF8? ⟨(utf8 s).toArray⟩=some s := by
  have hbytes : (⟨(utf8 s).toArray⟩ : ByteArray)=s.toByteArray := by
    rw [utf8,Array.toArray_toList]
  rw [hbytes,String.fromUTF8?,dif_pos s.isValidUTF8]
  rfl

/-- A byte of seven bits is a byte of its own character only. -/
theorem notMem_encodeChar {b : UInt8} {c : Char} (hb : b.toNat<0x80) (h : c.toNat≠b.toNat) :
    b∉String.utf8EncodeChar c := by
  have hbyte : ∀ x : ℕ, x%256≠b.toNat → b≠UInt8.ofNat x := fun x hx heq =>
    hx (congrArg UInt8.toNat heq).symm
  have hval : c.val.toNat≠b.toNat := h
  -- The lead byte of a sequence is from `0xc0` on, what follows it from `0x80` on.
  unfold String.utf8EncodeChar
  dsimp only
  split
  · have hone := hbyte c.val.toNat (by omega)
    simpa only [List.mem_singleton] using hone
  · split
    · have hlead := hbyte (c.val.toNat/64%0x20+0xc0) (by omega)
      have hlast := hbyte (c.val.toNat%0x40+0x80) (by omega)
      simp only [List.mem_cons,List.not_mem_nil,or_false,not_or]
      exact ⟨hlead,hlast⟩
    · have hmid := hbyte (c.val.toNat/64%0x40+0x80) (by omega)
      have hlast := hbyte (c.val.toNat%0x40+0x80) (by omega)
      split
      · have hlead := hbyte (c.val.toNat/4096%0x10+0xe0) (by omega)
        simp only [List.mem_cons,List.not_mem_nil,or_false,not_or]
        exact ⟨hlead,hmid,hlast⟩
      · have hlead := hbyte (c.val.toNat/262144%0x08+0xf0) (by omega)
        have hsecond := hbyte (c.val.toNat/4096%0x40+0x80) (by omega)
        simp only [List.mem_cons,List.not_mem_nil,or_false,not_or]
        exact ⟨hlead,hsecond,hmid,hlast⟩

/-- The bytes of a string are those of its characters. -/
theorem utf8_eq (s : String) : utf8 s=s.toList.flatMap String.utf8EncodeChar := by
  rw [utf8,←String.utf8Encode_toList,List.utf8Encode,List.toList_data_toByteArray]

/-- Strings end to end. -/
theorem utf8_append (s t : String) : utf8 (s++t)=utf8 s++utf8 t := by
  rw [utf8_eq,utf8_eq,utf8_eq,String.toList_append,List.flatMap_append]

/-- A string without the character of such a byte is without the byte. -/
theorem notMem_utf8 {b : UInt8} {s : String} (hb : b.toNat<0x80)
    (h : ∀ c∈s.toList, c.toNat≠b.toNat) : b∉utf8 s := by
  rw [utf8_eq]
  intro hmem
  obtain ⟨c,hc,hbyte⟩ := List.mem_flatMap.mp hmem
  exact notMem_encodeChar hb (h c hc) hbyte

/-- A string without the zero character has no zero byte. -/
theorem zero_notMem_utf8 {s : String} (h : ∀ c∈s.toList, c.toNat≠0) : (0 : UInt8)∉utf8 s :=
  notMem_utf8 (by decide) h

/-- A string without a zero byte has no zero character. -/
theorem toNat_ne_zero {s : String} (h : (0 : UInt8)∉utf8 s) : ∀ c∈s.toList, c.toNat≠0 := by
  intro c hc hzero
  have hnul : c=Char.ofNat 0 := Char.toNat_inj.mp hzero
  have hmem : (0 : UInt8)∈String.utf8EncodeChar c := by
    rw [hnul]
    decide
  rw [utf8_eq] at h
  exact h (List.mem_flatMap.mpr ⟨c,hc,hmem⟩)

end Arma.Base.Text
