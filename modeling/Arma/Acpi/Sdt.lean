import Mathlib.Tactic.Common
import Arma.Acpi.Aml

/-!
# Description tables

The common header, register addresses, and the way every table is put into its
slot: the header first, then the entries one after another, and at last the
checksum. A slot of the counted size then holds nothing of what it held before.
-/

namespace Arma.Acpi.Sdt

open Base.ByteString Base.Checked Base.Writer Dtb Aml

/-- An array of `n` bytes. -/
abbrev ByteArr (n : ℕ) : Type := {bs : Bytes // bs.length=n}

/-- Identity stamped into the tables. -/
structure OemIdentity where
  /-- Vendor. -/
  oemId : ByteArr 6
  /-- Table. -/
  oemTableId : ByteArr 8
  /-- Revision of the contents. -/
  oemRevision : ℕ
  /-- Utility that created the table. -/
  creatorId : ByteArr 4
  /-- Revision of the utility. -/
  creatorRevision : ℕ

/-- The common header. -/
structure SdtHeader where
  /-- Kind of the table. -/
  signature : ByteArr 4
  /-- Bytes of the table. -/
  length : ℕ
  /-- Revision of the table. -/
  revision : ℕ
  /-- Makes the bytes of the table sum to zero. -/
  checksum : ℕ
  /-- Identity. -/
  oem : OemIdentity

/-- Bytes of the common header. -/
def SdtHeader.size : ℕ := 36

/-- A header whose checksum is not yet set. -/
def SdtHeader.new (signature : ByteArr 4) (length revision : ℕ) (oem : OemIdentity) : SdtHeader :=
  ⟨signature,length,revision,0,oem⟩

/-- Bytes of a header. -/
def SdtHeader.asBytes (h : SdtHeader) : Bytes :=
  h.signature.1++(leBytes 4 h.length++([UInt8.ofNat h.revision,UInt8.ofNat h.checksum]++
    (h.oem.oemId.1++(h.oem.oemTableId.1++(leBytes 4 h.oem.oemRevision++(h.oem.creatorId.1++
      leBytes 4 h.oem.creatorRevision))))))

/-- Address of a register. -/
structure GenericAddress where
  /-- Address space; zero is memory. -/
  addressSpaceId : ℕ
  /-- Width in bits. -/
  registerBitWidth : ℕ
  /-- Offset in bits. -/
  registerBitOffset : ℕ
  /-- Code of the access size. -/
  accessSize : ℕ
  /-- The address. -/
  address : ℕ
deriving DecidableEq, Repr

/-- Bytes of a register address. -/
def GenericAddress.asBytes (g : GenericAddress) : Bytes :=
  [UInt8.ofNat g.addressSpaceId,UInt8.ofNat g.registerBitWidth,UInt8.ofNat g.registerBitOffset,
    UInt8.ofNat g.accessSize]++leBytes 8 g.address

/-- No register. -/
def gasZero : GenericAddress := ⟨0,0,0,0,0⟩

/-- A byte in memory. -/
def systemMemoryByte (address : ℕ) : GenericAddress := ⟨0,8,0,1,address⟩

/-- The header takes its size. -/
@[simp] theorem SdtHeader.length_asBytes (h : SdtHeader) : h.asBytes.length=SdtHeader.size := by
  simp only [SdtHeader.asBytes,List.length_append,length_leBytes,h.signature.2,h.oem.oemId.2,
    h.oem.oemTableId.2,h.oem.creatorId.2,List.length_cons,List.length_nil]
  rfl

/-- A register address takes twelve bytes. -/
@[simp] theorem GenericAddress.length_asBytes (g : GenericAddress) : g.asBytes.length=12 := by
  rw [GenericAddress.asBytes,List.length_append,length_leBytes]
  rfl

/-- Bytes of a slot as the length field has them. -/
def sdtLengthFromSlot (slot : Bytes) : Outcome DtbError ℕ := okOr (narrow 32 slot.length) .internal

/-- Set the checksum of a table. -/
def setSdtChecksum (slot : Bytes) : Outcome DtbError Bytes :=
  if 9 < slot.length then .ok (sealed 9 slot) else fail .internal

/-- Write a header at the front of a slot. -/
def writeHeader (bytes slot : Bytes) : Outcome DtbError Bytes :=
  if bytes.length ≤ slot.length then .ok (overwrite 0 bytes slot) else fail .internal

/-- Write a table: its header, its entries and its checksum. The header is
given by the length field. -/
def emitTable (header : ℕ → Bytes) (headerSize : ℕ) (entries : Emitter) (slot : Bytes) :
    Outcome DtbError Bytes := do
  let length ← sdtLengthFromSlot slot
  let slot ← writeHeader (header length) slot
  let c ← entries ⟨slot,headerSize⟩
  setSdtChecksum c.slot

/-- The table of a header and entries in `len` bytes. -/
def table (len : ℕ) (header : ℕ → Bytes) (entries : Option Bytes) : Option Bytes :=
  if len<2^32 then entries.map fun out => sealed 9 (header len++out) else none

/-- Whether a table can be written. -/
theorem isSome_table {len : ℕ} {header : ℕ → Bytes} {entries : Option Bytes} :
    (table len header entries).isSome=true ↔ len<2^32 ∧ entries.isSome=true := by
  unfold table
  split
  · rename_i h
    rw [Option.isSome_map]
    exact (and_iff_right h).symm
  · rename_i h
    simp only [Option.isSome_none,Bool.false_eq_true,false_iff]
    exact fun hand => h hand.1

/-- Writing a header at the front of a slot. -/
theorem writeHeader_ok {bytes slot slot' : Bytes} (h : bytes.length ≤ slot.length) :
    writeHeader bytes slot=.ok slot' ↔ slot'=overwrite 0 bytes slot := by
  rw [writeHeader,if_pos h,Except.ok.injEq,eq_comm]

/-- The checksum of a string of sufficient length. -/
theorem setSdtChecksum_ok {slot slot' : Bytes} (h : 9 < slot.length) :
    setSdtChecksum slot=.ok slot' ↔ slot'=sealed 9 slot := by
  rw [setSdtChecksum,if_pos h,Except.ok.injEq,eq_comm]

/-- Overwriting a whole string. -/
theorem overwrite_all {written slot : Bytes} (h : written.length=slot.length) :
    overwrite 0 written slot=written := by
  rw [overwrite,List.take_zero,List.nil_append,Nat.zero_add,h,List.drop_length,List.append_nil]

/-- Entries that fill a slot behind its header. -/
theorem emits_fill {entries : Emitter} {r : Option Bytes} (hentries : Emits entries r)
    {header slot : Bytes} {n : ℕ} (hheader : header.length=n) (hroom : n ≤ slot.length)
    (hsize : ∀ out, r=some out → n+out.length=slot.length) {c : Cursor} :
    entries ⟨overwrite 0 header slot,n⟩=.ok c ↔
      ∃ out, r=some out ∧ c=⟨header++out,slot.length⟩ := by
  have hslot : (overwrite 0 header slot).length=slot.length :=
    length_overwrite (by omega)
  have hput : ∀ out : Bytes, n+out.length=slot.length →
      Cursor.put ⟨overwrite 0 header slot,n⟩ out=⟨header++out,slot.length⟩ := by
    intro out hlen
    unfold Cursor.put
    dsimp only
    rw [overwrite_next hheader (by omega),overwrite_all (by rw [List.length_append]; omega),hlen]
  rw [hentries _ _ (by dsimp only; omega)]
  dsimp only
  constructor
  · rintro ⟨out,hout,_,rfl⟩
    exact ⟨out,hout,hput out (hsize out hout)⟩
  · rintro ⟨out,hout,rfl⟩
    have hlen := hsize out hout
    exact ⟨out,hout,by omega,(hput out hlen).symm⟩

/-- A table that fills its slot is the one of its header and entries, whatever
the slot held. -/
theorem emitTable_ok {header : ℕ → Bytes} {n : ℕ} {entries : Emitter} {r : Option Bytes}
    (hentries : Emits entries r) (hheader : ∀ len, (header len).length=n) (hn : 9<n)
    {slot slot' : Bytes} (hsize : ∀ out, r=some out → n+out.length=slot.length)
    (hroom : n ≤ slot.length) :
    emitTable header n entries slot=.ok slot' ↔ table slot.length header r=some slot' := by
  unfold emitTable sdtLengthFromSlot table
  by_cases hlen : slot.length<2^32
  · rw [if_pos hlen,Option.map_eq_some_iff,show narrow 32 slot.length=some slot.length from
      if_pos hlen]
    change (writeHeader (header slot.length) slot >>= fun s => entries ⟨s,n⟩ >>= fun c =>
      setSdtChecksum c.slot)=_ ↔ _
    rw [bind_ok]
    have hhead := hheader slot.length
    constructor
    · rintro ⟨s,hs,h⟩
      rw [writeHeader_ok (by omega)] at hs
      rw [hs] at h
      obtain ⟨c,hc,h⟩ := bind_ok.mp h
      obtain ⟨out,hout,rfl⟩ := (emits_fill hentries hhead hroom hsize).mp hc
      rw [setSdtChecksum_ok (by rw [List.length_append]; omega)] at h
      exact ⟨out,hout,h.symm⟩
    · rintro ⟨out,hout,rfl⟩
      refine ⟨_,(writeHeader_ok (by omega)).mpr rfl,bind_ok.mpr ⟨_,(emits_fill hentries hhead
        hroom hsize).mpr ⟨out,hout,rfl⟩,?_⟩⟩
      rw [setSdtChecksum_ok (by rw [List.length_append]; omega)]
  · rw [if_neg hlen,show narrow 32 slot.length=none from if_neg hlen]
    constructor
    · intro h
      obtain ⟨len,hlen,_⟩ := bind_ok.mp h
      cases hlen
    · intro h
      cases h

/-- What makes a string a description table of the given kind. -/
structure IsSdt (signature t : Bytes) : Prop where
  /-- There is room for the common header. -/
  header : SdtHeader.size≤t.length
  /-- The table starts with its signature. -/
  signature : slice 0 4 t=signature
  /-- The length field has the length of the table. -/
  length : ofLE (slice 4 4 t)=t.length
  /-- All bytes sum to zero. -/
  sum : byteSum t%256=0

/-- A sealed string behind a header with its length is a description table. -/
theorem isSdt_sealed {h : SdtHeader} {rest : Bytes}
    (hlen : h.length=SdtHeader.size+rest.length) (hword : h.length<2^32) :
    IsSdt h.signature.1 (sealed 9 (h.asBytes++rest)) := by
  have hall : (h.asBytes++rest).length=SdtHeader.size+rest.length := by
    rw [List.length_append,SdtHeader.length_asBytes]
  have hsize : SdtHeader.size=36 := rfl
  refine ⟨?_,?_,?_,?_⟩
  · rw [length_sealed,hall]
    omega
  · rw [slice_sealed (by omega),SdtHeader.asBytes,List.append_assoc]
    exact slice_append (a := []) rfl h.signature.2
  · have hfield : slice 4 4 (h.asBytes++rest)=leBytes 4 h.length := by
      rw [SdtHeader.asBytes,List.append_assoc,List.append_assoc]
      exact (congrArg (slice 4 4) (List.append_assoc _ _ _).symm).trans
        (slice_append h.signature.2 (length_leBytes 4 _))
    rw [slice_sealed (by omega),hfield,ofLE_leBytes,length_sealed,hall,
      Nat.mod_eq_of_lt (by rw [show 256^4=2^32 by decide]; exact hword),hlen]
  · exact byteSum_sealed (by rw [hall]; omega)

/-- A table is a description table of its kind when the header has its length. -/
theorem isSdt_table {signature : ByteArr 4} {revision len : ℕ} {oem : OemIdentity}
    (extra : Bytes) {entries : Option Bytes} {t : Bytes}
    (hsize : ∀ out, entries=some out → SdtHeader.size+(extra.length+out.length)=len)
    (h : table len (fun n => (SdtHeader.new signature n revision oem).asBytes++extra) entries=
      some t) : IsSdt signature.1 t ∧ t.length=len := by
  unfold table at h
  split at h
  · rename_i hlen
    obtain ⟨out,hout,rfl⟩ := Option.map_eq_some_iff.mp h
    have hall := hsize out hout
    rw [List.append_assoc]
    refine ⟨isSdt_sealed (h := SdtHeader.new signature len revision oem) ?_ hlen,?_⟩
    · rw [List.length_append]
      exact hall.symm
    · rw [length_sealed,List.length_append,SdtHeader.length_asBytes,List.length_append,hall]
  · cases h

end Arma.Acpi.Sdt
