import Mathlib.Tactic.Common
import Arma.Base.ByteString

/-!
# Layout of C structures

A C structure places each field at the next multiple of the field's alignment;
a packed one places the fields back to back. Fields that are aligned where the
packed structure has them are at the same offsets in both.
-/

namespace Arma.Base.ReprC

open ByteString

/-- Size and alignment of a field. -/
structure Field where
  /-- Bytes of the field. -/
  size : ℕ
  /-- Alignment of the field. -/
  align : ℕ
deriving DecidableEq, Repr

/-- The next multiple of `a` that is not below `o`. -/
def alignTo (o a : ℕ) : ℕ := (o+(a-1))/a*a

/-- Offsets of the fields in a C structure, from `o` on. -/
def offsets : ℕ → List Field → List ℕ
  | _,[] => []
  | o,f::rest => alignTo o f.align::offsets (alignTo o f.align+f.size) rest

/-- Offsets of the fields in a packed structure, from `o` on. -/
def packed : ℕ → List Field → List ℕ
  | _,[] => []
  | o,f::rest => o::packed (o+f.size) rest

/-- Every field of the packed structure is aligned. -/
def Natural : ℕ → List Field → Prop
  | _,[] => True
  | o,f::rest => 0 < f.align ∧ f.align∣o ∧ Natural (o+f.size) rest

/-- An aligned offset stays. -/
theorem alignTo_of_dvd {o a : ℕ} (ha : 0<a) (h : a∣o) : alignTo o a=o := by
  obtain ⟨q,rfl⟩ := h
  have hdiv : (a*q+(a-1))/a=q := by
    rw [Nat.mul_add_div ha,Nat.div_eq_of_lt (by omega),Nat.add_zero]
  rw [alignTo,hdiv,Nat.mul_comm]

/-- With naturally aligned fields there is no padding. -/
theorem offsets_eq_packed {o : ℕ} {fields : List Field} (h : Natural o fields) :
    offsets o fields=packed o fields := by
  induction fields generalizing o with
  | nil => rfl
  | cons f rest ih =>
    obtain ⟨hpos,hdvd,hrest⟩ := h
    rw [offsets,packed,alignTo_of_dvd hpos hdvd,ih hrest]

/-- Offset of the `i`-th field of a C structure. -/
def offsetOf (fields : List Field) (i : ℕ) : ℕ := (offsets 0 fields).getD i 0

/-- The bytes of the `i`-th field of a C structure. -/
def fieldBytes (fields : List Field) (i : ℕ) (bs : Bytes) : Bytes :=
  slice (offsetOf fields i) ((fields.getD i ⟨0,1⟩).size) bs

/-- The bytes that a packed structure of the given parts has for each field. -/
theorem slice_packed {fields : List Field} {parts : List Bytes} (pre rest : Bytes)
    (h : List.Forall₂ (fun (f : Field) (part : Bytes) => part.length=f.size) fields parts) (i : ℕ)
    (hi : i<fields.length) :
    slice ((packed pre.length fields).getD i 0) ((fields.getD i ⟨0,1⟩).size)
      (pre++parts.flatten++rest)=parts.getD i [] := by
  induction h generalizing pre i with
  | nil => cases hi
  | @cons f part fields parts hpart _ ih =>
    cases i with
    | zero =>
      have hslice := slice_append (c := parts.flatten++rest) (rfl : pre.length=pre.length) hpart
      simpa only [packed,List.getD_cons_zero,List.flatten_cons,List.append_assoc] using hslice
    | succ i =>
      have hlen : (pre++part).length=pre.length+f.size := by rw [List.length_append,hpart]
      have hrest := ih (pre++part) i (Nat.lt_of_succ_lt_succ hi)
      rw [hlen] at hrest
      simpa only [packed,List.getD_cons_succ,List.flatten_cons,List.append_assoc] using hrest

/-- A naturally aligned C structure reads the parts of a packed one. -/
theorem fieldBytes_packed {fields : List Field} {parts : List Bytes} (rest : Bytes)
    (hnat : Natural 0 fields)
    (h : List.Forall₂ (fun (f : Field) (part : Bytes) => part.length=f.size) fields parts) (i : ℕ)
    (hi : i<fields.length) : fieldBytes fields i (parts.flatten++rest)=parts.getD i [] := by
  have hslice := slice_packed [] rest h i hi
  rwa [List.length_nil,←offsets_eq_packed hnat] at hslice

end Arma.Base.ReprC
