import Mathlib.Data.List.GetD
import Mathlib.Tactic.Common
import Arma.Base.ByteString
import Arma.Base.ReprC

/-!
# The bootstrap header

arma writes the header into `.tatu.bootinfo`, tatu reads it at the reset
vector. Both sides declare the same fields: arma packs them, tatu lays them out
as a C structure of one page.
-/

namespace Arma.BootInfo

open Base.ByteString Base.ReprC

/-- The relocation-table locator; all zero when there are no relocations. -/
structure RelocsHeader where
  /-- Address of the table. -/
  gpa : UInt64
  /-- Number of 8-byte sites. -/
  relocs64Count : UInt32
  /-- Number of inverse 4-byte sites. -/
  relocs32negCount : UInt32
  /-- Number of 4-byte sites. -/
  relocs32Count : UInt32
deriving DecidableEq, Repr

/-- The header, `TatuBootInfo` on both sides. -/
structure TatuBootInfo where
  /-- `TATUBOOT`. -/
  magic : List UInt8
  /-- Address of the measured base devicetree. -/
  baseDtbGpa : UInt64
  /-- Address of the host-filled overlay. -/
  hostDtboGpa : UInt64
  /-- Address of the kernel image. -/
  kernelGpa : UInt64
  /-- Address of the kernel's entry point. -/
  kernelEntryGpa : UInt64
  /-- Address of the relocation table, or zero. -/
  relocsGpa : UInt64
  /-- Bytes of the base devicetree. -/
  baseDtbSize : UInt32
  /-- Bytes of the overlay slot. -/
  hostDtboSize : UInt32
  /-- Bytes of the loaded image, without the zero-filled tail. -/
  kernelSize : UInt32
  /-- RAM footprint of the kernel. -/
  kernelAllocSize : UInt32
  /-- Number of 8-byte sites. -/
  relocs64Count : UInt32
  /-- Number of inverse 4-byte sites. -/
  relocs32negCount : UInt32
  /-- Number of 4-byte sites. -/
  relocs32Count : UInt32
deriving DecidableEq, Repr

/-- `TATUBOOT` in ASCII. -/
def magic : List UInt8 := [0x54,0x41,0x54,0x55,0x42,0x4F,0x4F,0x54]

/-- arma's constructor. -/
def TatuBootInfo.new (baseDtbGpa : UInt64) (baseDtbSize : UInt32) (hostDtboGpa : UInt64)
    (hostDtboSize : UInt32) (kernelGpa : UInt64) (kernelSize : UInt32) (kernelEntryGpa : UInt64)
    (kernelAllocSize : UInt32) (relocs : RelocsHeader) : TatuBootInfo :=
  ⟨BootInfo.magic,baseDtbGpa,hostDtboGpa,kernelGpa,kernelEntryGpa,relocs.gpa,baseDtbSize,hostDtboSize,
    kernelSize,kernelAllocSize,relocs.relocs64Count,relocs.relocs32negCount,
    relocs.relocs32Count⟩

/-- The relocation-table locator in a header. -/
def TatuBootInfo.relocsHeader (info : TatuBootInfo) : RelocsHeader :=
  ⟨info.relocsGpa,info.relocs64Count,info.relocs32negCount,info.relocs32Count⟩

/-- Bytes of the header on the wire. -/
def headerSize : ℕ := 76

/-- Bytes of `.tatu.bootinfo`. -/
def sectionSize : ℕ := 4096

/-- The packed fields, in little-endian words. -/
def TatuBootInfo.words (info : TatuBootInfo) : List Bytes :=
  [info.magic,leBytes 8 info.baseDtbGpa.toNat,leBytes 8 info.hostDtboGpa.toNat,
    leBytes 8 info.kernelGpa.toNat,leBytes 8 info.kernelEntryGpa.toNat,
    leBytes 8 info.relocsGpa.toNat,leBytes 4 info.baseDtbSize.toNat,
    leBytes 4 info.hostDtboSize.toNat,leBytes 4 info.kernelSize.toNat,
    leBytes 4 info.kernelAllocSize.toNat,leBytes 4 info.relocs64Count.toNat,
    leBytes 4 info.relocs32negCount.toNat,leBytes 4 info.relocs32Count.toNat]

/-- arma's `as_bytes` of the packed structure. -/
def TatuBootInfo.asBytes (info : TatuBootInfo) : Bytes := info.words.flatten

/-- The section: the header in a zeroed page. -/
def TatuBootInfo.toSectionBytes (info : TatuBootInfo) : Bytes :=
  overwrite 0 info.asBytes (zeros sectionSize)

/-- The fields that tatu declares, with the tail that fills the page. -/
def tatuFields : List Field :=
  [⟨8,1⟩,⟨8,8⟩,⟨8,8⟩,⟨8,8⟩,⟨8,8⟩,⟨8,8⟩,⟨4,4⟩,⟨4,4⟩,⟨4,4⟩,⟨4,4⟩,⟨4,4⟩,⟨4,4⟩,⟨4,4⟩,
    ⟨sectionSize-headerSize,1⟩]

/-- The 64-bit field that tatu declares at position `i`. -/
def field64 (i : ℕ) (page : Bytes) : UInt64 := UInt64.ofNat (ofLE (fieldBytes tatuFields i page))

/-- The 32-bit field that tatu declares at position `i`. -/
def field32 (i : ℕ) (page : Bytes) : UInt32 := UInt32.ofNat (ofLE (fieldBytes tatuFields i page))

/-- What tatu reads in the page. -/
def ofPage (page : Bytes) : TatuBootInfo where
  magic := fieldBytes tatuFields 0 page
  baseDtbGpa := field64 1 page
  hostDtboGpa := field64 2 page
  kernelGpa := field64 3 page
  kernelEntryGpa := field64 4 page
  relocsGpa := field64 5 page
  baseDtbSize := field32 6 page
  hostDtboSize := field32 7 page
  kernelSize := field32 8 page
  kernelAllocSize := field32 9 page
  relocs64Count := field32 10 page
  relocs32negCount := field32 11 page
  relocs32Count := field32 12 page

/-- tatu's fields need no padding. -/
theorem natural_tatuFields : Natural 0 tatuFields := by
  simp only [Natural,tatuFields]
  decide

/-- The section consists of the words and a zeroed tail. -/
theorem toSectionBytes_eq {info : TatuBootInfo} (h : info.magic.length=8) :
    info.toSectionBytes=(info.words++[zeros (sectionSize-headerSize)]).flatten := by
  have hlen : info.asBytes.length=headerSize := by
    simp only [TatuBootInfo.asBytes,TatuBootInfo.words,List.length_flatten,List.map_cons,
      List.map_nil,length_leBytes,h]
    rfl
  rw [TatuBootInfo.toSectionBytes,overwrite,hlen,List.take_zero,List.nil_append,zeros,
    List.drop_replicate,List.flatten_append,List.flatten_singleton]
  rfl

/-- The section is a page. -/
theorem length_page {info : TatuBootInfo} (h : info.magic.length=8) :
    info.toSectionBytes.length=sectionSize := by
  rw [toSectionBytes_eq h]
  simp only [TatuBootInfo.words,List.length_flatten,List.map_append,List.map_cons,List.map_nil,
    length_leBytes,length_zeros,h]
  rfl

/-- Every word has the size of its field. -/
theorem words_sizes {info : TatuBootInfo} (h : info.magic.length=8) :
    List.Forall₂ (fun (f : Field) (part : Bytes) => part.length=f.size) tatuFields
      (info.words++[zeros (sectionSize-headerSize)]) := by
  simp only [tatuFields,TatuBootInfo.words,List.cons_append,List.nil_append,List.forall₂_cons,
    List.Forall₂.nil,length_leBytes,length_zeros,h,and_self]

/-- tatu's fields of the section are the words. -/
theorem fieldBytes_toSectionBytes {info : TatuBootInfo} (h : info.magic.length=8) {i : ℕ}
    (hi : i<tatuFields.length) : fieldBytes tatuFields i info.toSectionBytes=
      (info.words++[zeros (sectionSize-headerSize)]).getD i [] := by
  have hfield := fieldBytes_packed [] natural_tatuFields (words_sizes h) i hi
  rwa [List.append_nil,←toSectionBytes_eq h] at hfield

/-- A 64-bit word is read back. -/
theorem ofLE_word64 (w : UInt64) : UInt64.ofNat (ofLE (leBytes 8 w.toNat))=w := by
  have hlt : w.toNat<256^8 := w.toNat_lt
  rw [ofLE_leBytes,Nat.mod_eq_of_lt hlt]
  exact UInt64.ofNat_toNat

/-- A 32-bit word is read back. -/
theorem ofLE_word32 (w : UInt32) : UInt32.ofNat (ofLE (leBytes 4 w.toNat))=w := by
  have hlt : w.toNat<256^4 := w.toNat_lt
  rw [ofLE_leBytes,Nat.mod_eq_of_lt hlt]
  exact UInt32.ofNat_toNat

/-- tatu reads the header that arma wrote. -/
theorem ofPage_toSectionBytes {info : TatuBootInfo} (h : info.magic.length=8) :
    ofPage info.toSectionBytes=info := by
  have hfield : ∀ i, i<13 → fieldBytes tatuFields i info.toSectionBytes=info.words.getD i [] := by
    intro i hi
    have hwords : i < info.words.length := hi
    rw [fieldBytes_toSectionBytes h (Nat.lt_trans hi (by decide)),List.getD_append _ _ _ _ hwords]
  unfold ofPage field64 field32
  simp only [hfield 0 (by decide),hfield 1 (by decide),hfield 2 (by decide),hfield 3 (by decide),
    hfield 4 (by decide),hfield 5 (by decide),hfield 6 (by decide),hfield 7 (by decide),
    hfield 8 (by decide),hfield 9 (by decide),hfield 10 (by decide),hfield 11 (by decide),
    hfield 12 (by decide),TatuBootInfo.words,List.getD_cons_zero,List.getD_cons_succ,ofLE_word64,
    ofLE_word32]

end Arma.BootInfo
