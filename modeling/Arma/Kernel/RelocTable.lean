import Mathlib.Tactic.Common
import Arma.Base.ByteString
import Arma.Base.Intervals
import Arma.BootInfo

/-!
# The relocation table on arma's side

Three lists of sites, as byte offsets into the loaded image, and their
serialisation as one section of little-endian words.
-/

namespace Arma.Kernel.RelocTable

open Base.ByteString Base.Intervals BootInfo

/-- The relocation sites of a kernel image. -/
structure Relocs where
  /-- Sites that add to a 4-byte field. -/
  relocs32 : List UInt32
  /-- Sites that subtract from a 4-byte field. -/
  relocs32neg : List UInt32
  /-- Sites that add to an 8-byte field. -/
  relocs64 : List UInt32
deriving DecidableEq, Repr

/-- There is no site at all. -/
def Relocs.isEmpty (r : Relocs) : Bool :=
  r.relocs64.isEmpty && r.relocs32neg.isEmpty && r.relocs32.isEmpty

/-- All sites in the order of the section. -/
def Relocs.words (r : Relocs) : List UInt32 := r.relocs64++r.relocs32neg++r.relocs32

/-- `u32::to_le_bytes`. -/
def toLeBytes (o : UInt32) : Bytes := leBytes 4 o.toNat

/-- `u32::from_le_bytes`. -/
def fromLeBytes (bs : Bytes) : UInt32 := UInt32.ofNat (ofLE bs)

/-- The section: the three lists back to back as little-endian words. -/
def Relocs.toSectionBytes (r : Relocs) : Bytes := r.words.flatMap toLeBytes

/-- The locator that the build puts into the header; the counts are narrowed
to 32 bits. -/
def Relocs.header (r : Relocs) (gpa : UInt64) : RelocsHeader where
  gpa := gpa
  relocs64Count := UInt32.ofNat r.relocs64.length
  relocs32negCount := UInt32.ofNat r.relocs32neg.length
  relocs32Count := UInt32.ofNat r.relocs32.length

/-- The bytes that a site of the given width patches. -/
def siteRegion (width : ℕ) (o : UInt32) : Region ℕ := ⟨o.toNat,o.toNat+width⟩

/-- The fields that the three lists patch. -/
def Relocs.fields (r : Relocs) : List (Region ℕ) :=
  r.relocs64.map (siteRegion 8)++r.relocs32neg.map (siteRegion 4)++r.relocs32.map (siteRegion 4)

/-- A word has four bytes. -/
theorem length_toLeBytes (o : UInt32) : (toLeBytes o).length=4 := length_leBytes 4 o.toNat

/-- The section has four bytes for each site. -/
theorem length_toSectionBytes (r : Relocs) : r.toSectionBytes.length=r.words.length*4 :=
  length_flatMap_records fun o _ => length_toLeBytes o

/-- A word written and read back is the same offset. -/
theorem fromLeBytes_toLeBytes (o : UInt32) : fromLeBytes (toLeBytes o)=o := by
  unfold fromLeBytes toLeBytes
  have hlt : o.toNat<256^4 := o.toNat_lt
  rw [ofLE_leBytes,Nat.mod_eq_of_lt hlt]
  exact UInt32.ofNat_toNat

/-- The section decodes to the sites it was made from. -/
theorem decodeRecords_toSectionBytes (r : Relocs) :
    decodeRecords 4 fromLeBytes r.words.length r.toSectionBytes=r.words := by
  have h := decodeRecords_flatMap fromLeBytes (fun o (_ : o∈r.words) => length_toLeBytes o) []
  simp only [List.append_nil,fromLeBytes_toLeBytes,List.map_id'] at h
  exact h

/-- Pairwise separate sites inside an image have room for a byte each. -/
theorem length_words_le {r : Relocs} {n : ℕ} (hsep : r.fields.Pairwise Region.Separate)
    (hin : ∀ f∈r.fields, f.stop≤n) : r.words.length≤n := by
  have hsum := sum_length_le hsep hin
  have hone : ∀ f∈r.fields, 1≤f.stop-f.start := by
    intro f hf
    simp only [Relocs.fields,List.mem_append,List.mem_map] at hf
    obtain (⟨o,_,rfl⟩ | ⟨o,_,rfl⟩) | ⟨o,_,rfl⟩ := hf <;> dsimp only [siteRegion] <;> omega
  have hlen : (r.fields.map fun f => f.stop-f.start).length≤
      (r.fields.map fun f => f.stop-f.start).sum := by
    refine List.length_le_sum_of_one_le _ fun k hk => ?_
    obtain ⟨f,hf,rfl⟩ := List.mem_map.mp hk
    exact hone f hf
  simp only [Relocs.fields,List.length_map,List.length_append] at hlen hsum
  simp only [Relocs.words,List.length_append]
  omega

/-- The counts of such sites survive the narrowing to 32 bits. -/
theorem header_counts {r : Relocs} {n : ℕ} (gpa : UInt64) (hsep : r.fields.Pairwise Region.Separate)
    (hin : ∀ f∈r.fields, f.stop≤n) (hn : n<2^32) :
    (r.header gpa).relocs64Count.toNat=r.relocs64.length ∧
      (r.header gpa).relocs32negCount.toNat=r.relocs32neg.length ∧
      (r.header gpa).relocs32Count.toNat=r.relocs32.length := by
  have hlen := length_words_le hsep hin
  simp only [Relocs.words,List.length_append] at hlen
  dsimp only [Relocs.header]
  refine ⟨UInt32.toNat_ofNat_of_lt' ?_,UInt32.toNat_ofNat_of_lt' ?_,UInt32.toNat_ofNat_of_lt' ?_⟩
  all_goals
    change _<2^32
    omega

end Arma.Kernel.RelocTable
