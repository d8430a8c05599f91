import Mathlib.Data.Nat.Digits.Lemmas
import Mathlib.Tactic.Common
import Arma.Base.ByteString

/-!
# Decimal numbers in ASCII

Writing a natural number in decimal and reading it back.
-/

namespace Arma.Base.Decimal

open ByteString

/-- The ASCII digit of a value below ten. -/
def digitByte (d : ℕ) : UInt8 := UInt8.ofNat (48+d)

/-- The value of an ASCII digit. -/
def byteDigit (b : UInt8) : ℕ := b.toNat-48

/-- A number in decimal; zero is the single digit `0`. -/
def decimal (n : ℕ) : Bytes :=
  if n=0 then [48] else (Nat.digits 10 n).reverse.map digitByte

/-- The value of a string of digits. -/
def ofDecimal (bs : Bytes) : ℕ := Nat.ofDigits 10 (bs.reverse.map byteDigit)

/-- A byte is an ASCII digit. -/
def isDigit (b : UInt8) : Bool := decide (48≤b.toNat) && decide (b.toNat≤57)

/-- The code of a digit's byte. -/
theorem toNat_digitByte {d : ℕ} (h : d<10) : (digitByte d).toNat=48+d := by
  change (48+d)%256=48+d
  omega

/-- A digit is read back from its byte. -/
theorem byteDigit_digitByte {d : ℕ} (h : d<10) : byteDigit (digitByte d)=d := by
  rw [byteDigit,toNat_digitByte h]
  omega

/-- The byte of a digit is an ASCII digit. -/
theorem isDigit_digitByte {d : ℕ} (h : d<10) : isDigit (digitByte d)=true := by
  rw [isDigit,toNat_digitByte h,Bool.and_eq_true,decide_eq_true_eq,decide_eq_true_eq]
  omega

/-- A decimal number consists of digits. -/
theorem isDigit_decimal {n : ℕ} {b : UInt8} (h : b∈decimal n) : isDigit b=true := by
  unfold decimal at h
  split at h
  · rw [List.mem_singleton.mp h]
    decide
  · obtain ⟨d,hd,rfl⟩ := List.mem_map.mp h
    exact isDigit_digitByte (Nat.digits_lt_base (by omega) (List.mem_reverse.mp hd))

/-- Reading back a decimal number. -/
theorem ofDecimal_decimal (n : ℕ) : ofDecimal (decimal n)=n := by
  unfold decimal ofDecimal
  split
  · rename_i hn
    rw [hn]
    decide
  · rw [←List.map_reverse,List.reverse_reverse,List.map_map]
    have hmap : (Nat.digits 10 n).map (byteDigit ∘ digitByte)=Nat.digits 10 n := by
      refine (List.map_congr_left fun d hd => ?_).trans (List.map_id _)
      exact byteDigit_digitByte (Nat.digits_lt_base (by omega) hd)
    rw [hmap,Nat.ofDigits_digits]

end Arma.Base.Decimal
