import Mathlib.Tactic.Common
import Arma.Acpi.Layout
import Arma.Acpi.Sdt

/-!
# Root pointer, fixed description table and directory

These tables depend on the layout and on the register plan only.
-/

namespace Arma.Acpi.Fixed

open Base.ByteString Base.Checked Base.Writer Dtb Aml Layout Sdt

/-- Bytes of the root pointer. -/
def rsdpSize : ℕ := 36

/-- The first 20 bytes of the root pointer: signature, checksum, vendor,
revision and the address of no older directory. -/
def rsdpShort (oem : OemIdentity) (check : UInt8) : Bytes :=
  ascii "RSD PTR "++([check]++(oem.oemId.1++([2]++leBytes 4 0)))

/-- The root pointer: its first 20 bytes, length, directory, extended checksum
and reserved bytes. -/
def rsdpBytes (oem : OemIdentity) (xsdtGpa : ℕ) (check extended : UInt8) : Bytes :=
  rsdpShort oem check++(leBytes 4 rsdpSize++(leBytes 8 xsdtGpa++([extended]++[0,0,0])))

/-- The root pointer with both checksums. -/
def rsdp (oem : OemIdentity) (xsdtGpa : ℕ) : Bytes :=
  let short := checksum ((rsdpBytes oem xsdtGpa 0 0).take 20)
  rsdpBytes oem xsdtGpa short (checksum (rsdpBytes oem xsdtGpa short 0))

/-- Write the root pointer. -/
def rsdpEmit (oem : OemIdentity) (xsdtGpa : ℕ) (slot : Bytes) : Outcome DtbError Bytes :=
  writeHeader (rsdp oem xsdtGpa) slot

/-- Bytes of the first part of the root pointer. -/
theorem length_rsdpShort (oem : OemIdentity) (check : UInt8) :
    (rsdpShort oem check).length=20 := by
  simp only [rsdpShort,List.length_append,oem.oemId.2,length_leBytes]
  rfl

/-- Bytes of the root pointer. -/
theorem length_rsdpBytes (oem : OemIdentity) (xsdtGpa : ℕ) (check extended : UInt8) :
    (rsdpBytes oem xsdtGpa check extended).length=rsdpSize := by
  simp only [rsdpBytes,List.length_append,length_rsdpShort,length_leBytes]
  rfl

/-- A root pointer that leads to a directory. -/
structure IsRsdp (xsdtGpa : ℕ) (t : Bytes) : Prop where
  /-- It has its size. -/
  size : t.length=rsdpSize
  /-- It starts with its signature. -/
  signature : slice 0 8 t=ascii "RSD PTR "
  /-- The first 20 bytes sum to zero. -/
  sum : byteSum (t.take 20)%256=0
  /-- All bytes sum to zero. -/
  extendedSum : byteSum t%256=0
  /-- It has the address of the directory. -/
  xsdt : ofLE (slice 24 8 t)=xsdtGpa

/-- The sum of a concatenation. -/
theorem byteSum_append (a b : Bytes) : byteSum (a++b)=byteSum a+byteSum b := by
  rw [byteSum,List.map_append,List.sum_append]
  rfl

/-- The sum of one byte. -/
theorem byteSum_singleton (b : UInt8) : byteSum [b]=b.toNat := rfl

/-- The root pointer is one that leads to its directory. -/
theorem isRsdp_rsdp (oem : OemIdentity) {xsdtGpa : ℕ} (h : xsdtGpa<2^64) :
    IsRsdp xsdtGpa (rsdp oem xsdtGpa) := by
  have htake : ∀ check extended, (rsdpBytes oem xsdtGpa check extended).take 20=
      rsdpShort oem check := fun check extended =>
    List.take_left' (length_rsdpShort oem check)
  have hshort : ∀ check, byteSum (rsdpShort oem check)=
      byteSum (rsdpShort oem 0)+check.toNat := by
    intro check
    simp only [rsdpShort,byteSum_append,byteSum_singleton,show (0 : UInt8).toNat=0 from rfl]
    omega
  have hall : ∀ check extended, byteSum (rsdpBytes oem xsdtGpa check extended)=
      byteSum (rsdpBytes oem xsdtGpa check 0)+extended.toNat := by
    intro check extended
    simp only [rsdpBytes,byteSum_append,byteSum_singleton,show (0 : UInt8).toNat=0 from rfl]
    omega
  unfold rsdp
  refine ⟨length_rsdpBytes _ _ _ _,?_,?_,?_,?_⟩
  · rw [rsdpBytes,rsdpShort,List.append_assoc]
    exact slice_append (a := []) rfl rfl
  · rw [htake,htake,hshort]
    exact checksum_spec _
  · rw [hall]
    exact checksum_spec _
  · have hfield : ∀ check extended, slice 24 8 (rsdpBytes oem xsdtGpa check extended)=
        leBytes 8 xsdtGpa := by
      intro check extended
      rw [rsdpBytes,←List.append_assoc,←List.append_assoc]
      refine slice_append ?_ (length_leBytes 8 _)
      rw [List.length_append,length_rsdpShort,length_leBytes]
    rw [hfield,ofLE_leBytes,Nat.mod_eq_of_lt (by rw [show 256^8=2^64 by decide]; exact h)]

/-- In a slot of its size the root pointer is written whole. -/
theorem rsdpEmit_ok {oem : OemIdentity} {xsdtGpa : ℕ} {slot slot' : Bytes}
    (hsize : slot.length=rsdpSize) :
    rsdpEmit oem xsdtGpa slot=.ok slot' ↔ some (rsdp oem xsdtGpa)=some slot' := by
  have hlen : (rsdp oem xsdtGpa).length=slot.length := by
    rw [hsize]
    exact length_rsdpBytes _ _ _ _
  rw [rsdpEmit,writeHeader_ok (by omega),overwrite_all hlen,Option.some.injEq,eq_comm]

/-- Registers of the fixed description table. -/
structure FadtPlan where
  /-- Register that starts a sleep. -/
  sleepControlReg : GenericAddress
  /-- Register that tells of a wakeup. -/
  sleepStatusReg : GenericAddress
  /-- Register that resets, if there is one. -/
  resetReg : Option GenericAddress
  /-- What to write to it. -/
  resetValue : ℕ
  /-- What powers off when written to the sleep register. -/
  sleepValue : ℕ
deriving DecidableEq, Repr

/-- Bytes of the fixed description table. -/
def fadtSize : ℕ := 276

/-- `HW_REDUCED_ACPI`, with `RESET_REG_SUP` when there is a reset register. -/
def fadtFlags (plan : FadtPlan) : ℕ :=
  if plan.resetReg.isSome then 2^20+2^10 else 2^20

/-- The header of the fixed description table. -/
def fadtHeader (oem : OemIdentity) : SdtHeader :=
  SdtHeader.new ⟨ascii "FACP",rfl⟩ fadtSize 6 oem

/-- The fixed description table up to its extended addresses. -/
def fadtFront (oem : OemIdentity) (dsdtGpa : ℕ) (plan : FadtPlan) : Bytes :=
  -- header, firmware_ctrl, dsdt
  (fadtHeader oem).asBytes++(leBytes 4 0++
    (leBytes 4 ((narrow 32 dsdtGpa).getD 0)++
  -- reserved_1 to pstate_cnt, pm1a_evt_blk to gpe1_blk, pm1_evt_len to cst_cnt,
  -- p_lvl2_lat to flush_stride, duty_offset to century
    (zeros 12++(zeros 32++(zeros 8++(zeros 8++(zeros 5++
  -- iapc_boot_arch, reserved_2, flags, reset_reg, reset_value
    (leBytes 2 0x24++([0]++(leBytes 4 (fadtFlags plan)++
    ((plan.resetReg.getD gasZero).asBytes++([UInt8.ofNat plan.resetValue]++
  -- arm_boot_arch, fadt_minor_version, x_firmware_ctrl
    (leBytes 2 0++([5]++leBytes 8 0))))))))))))))

/-- The extended addresses of the fixed description table behind that of the
description of the system. -/
def fadtBack (plan : FadtPlan) : Bytes :=
  -- x_pm1a_evt_blk to x_gpe1_blk
  (List.replicate 8 gasZero.asBytes).flatten++(plan.sleepControlReg.asBytes++
    (plan.sleepStatusReg.asBytes++leBytes 8 0))

/-- The fixed description table without its checksum. -/
def fadtBytes (oem : OemIdentity) (dsdtGpa : ℕ) (plan : FadtPlan) : Bytes :=
  fadtFront oem dsdtGpa plan++(leBytes 8 dsdtGpa++fadtBack plan)

/-- The fixed description table. -/
def fadt (oem : OemIdentity) (dsdtGpa : ℕ) (plan : FadtPlan) : Bytes :=
  sealed 9 (fadtBytes oem dsdtGpa plan)

/-- Write the fixed description table; the slot is asserted to have its size. -/
def fadtEmit (dsdtGpa : ℕ) (plan : FadtPlan) (oem : OemIdentity) (slot : Bytes) :
    Outcome DtbError Bytes :=
  if ¬fadtSize ≤ slot.length then .error .panic
  else do
    let slot ← writeHeader (fadtBytes oem dsdtGpa plan) slot
    setSdtChecksum slot

/-- Bytes of the front of the table. -/
theorem length_fadtFront (oem : OemIdentity) (dsdtGpa : ℕ) (plan : FadtPlan) :
    (fadtFront oem dsdtGpa plan).length=140 := by
  simp only [fadtFront,List.length_append,SdtHeader.length_asBytes,length_leBytes,length_zeros,
    GenericAddress.length_asBytes,List.length_cons,List.length_nil]
  rfl

/-- Bytes of the table. -/
theorem length_fadtBytes (oem : OemIdentity) (dsdtGpa : ℕ) (plan : FadtPlan) :
    (fadtBytes oem dsdtGpa plan).length=fadtSize := by
  simp only [fadtBytes,fadtBack,List.length_append,length_fadtFront,length_leBytes,
    GenericAddress.length_asBytes]
  rfl

/-- The fixed description table is a description table. -/
theorem isSdt_fadt (oem : OemIdentity) (dsdtGpa : ℕ) (plan : FadtPlan) :
    IsSdt (ascii "FACP") (fadt oem dsdtGpa plan) := by
  have hlen := length_fadtBytes oem dsdtGpa plan
  rw [fadtBytes,fadtFront,List.append_assoc,List.length_append,SdtHeader.length_asBytes] at hlen
  rw [fadt,fadtBytes,fadtFront,List.append_assoc]
  exact isSdt_sealed (h := fadtHeader oem) hlen.symm (show fadtSize<2^32 by decide)

/-- The fixed description table has the address of the description of the
system. -/
theorem fadt_xDsdt (oem : OemIdentity) {dsdtGpa : ℕ} (plan : FadtPlan) (h : dsdtGpa<2^64) :
    ofLE (slice 140 8 (fadt oem dsdtGpa plan))=dsdtGpa := by
  have hfield : slice 140 8 (fadtBytes oem dsdtGpa plan)=leBytes 8 dsdtGpa := by
    rw [fadtBytes,←List.append_assoc]
    exact slice_append (length_fadtFront oem dsdtGpa plan) (length_leBytes 8 _)
  rw [fadt,slice_sealed (by omega),hfield,ofLE_leBytes,
    Nat.mod_eq_of_lt (by rw [show 256^8=2^64 by decide]; exact h)]

/-- In a slot of its size the fixed description table is written whole. -/
theorem fadtEmit_ok {dsdtGpa : ℕ} {plan : FadtPlan} {oem : OemIdentity} {slot slot' : Bytes}
    (hsize : slot.length=fadtSize) :
    fadtEmit dsdtGpa plan oem slot=.ok slot' ↔ some (fadt oem dsdtGpa plan)=some slot' := by
  have hlen : (fadtBytes oem dsdtGpa plan).length=slot.length := by
    rw [hsize]
    exact length_fadtBytes _ _ _
  have hbig : 9 < slot.length := by
    rw [hsize]
    decide
  unfold fadtEmit
  rw [if_neg (by omega),bind_ok]
  constructor
  · rintro ⟨s,hs,h⟩
    rw [writeHeader_ok (by omega),overwrite_all hlen] at hs
    rw [hs,setSdtChecksum_ok (by omega)] at h
    rw [h,fadt]
  · intro h
    cases h
    refine ⟨_,(writeHeader_ok (by omega)).mpr rfl,?_⟩
    rw [overwrite_all hlen,setSdtChecksum_ok (by omega),fadt]

/-- Bytes of a directory entry. -/
def entrySize : ℕ := 8

/-- Bytes of the directory. -/
def xsdtTotalSize (n : ℕ) : Outcome DtbError ℕ := do
  let entriesBytes ← okOr (mulWord 64 n entrySize) .internal
  okOr (addWord 64 SdtHeader.size entriesBytes) .internal

/-- Append an address; past the slot nothing is written. -/
def appendGpa (gpa : ℕ) (c : Cursor) : Outcome DtbError Cursor := do
  let stop ← okOr (addWord 64 c.pos entrySize) .internal
  if stop ≤ c.slot.length then .ok (c.put (leBytes 8 gpa)) else .ok ⟨c.slot,stop⟩

/-- Append the addresses of slots. -/
def appendGpas (baseGpa : ℕ) : List Slot → Emitter
  | [],c => .ok c
  | target::rest,c => do
    let gpa ← target.gpa baseGpa
    let c ← appendGpa gpa c
    appendGpas baseGpa rest c

/-- The header of the directory. -/
def xsdtHeader (oem : OemIdentity) (length : ℕ) : SdtHeader :=
  SdtHeader.new ⟨ascii "XSDT",rfl⟩ length 1 oem

/-- Write the directory. -/
def xsdtEmit (oem : OemIdentity) (baseGpa : ℕ) (off : Offsets) (slot : Bytes) :
    Outcome DtbError Bytes :=
  emitTable (fun length => (xsdtHeader oem length).asBytes) SdtHeader.size
    (appendGpas baseGpa off.xsdtTargets) slot

/-- The addresses of slots. -/
def gpas (baseGpa : ℕ) (targets : List Slot) : Bytes :=
  targets.flatMap fun s => leBytes 8 (baseGpa+s.offset)

/-- The directory of a layout. -/
def xsdt (oem : OemIdentity) (baseGpa : ℕ) (off : Offsets) : Bytes :=
  sealed 9 ((xsdtHeader oem off.xsdt.len).asBytes++gpas baseGpa off.xsdtTargets)

/-- Bytes of the addresses. -/
@[simp] theorem length_gpas (baseGpa : ℕ) (targets : List Slot) :
    (gpas baseGpa targets).length=targets.length*8 :=
  length_flatMap_records fun _ _ => length_leBytes 8 _

/-- With room for all of them the addresses are appended in order. -/
theorem appendGpas_ok {baseGpa : ℕ} {targets : List Slot}
    (hgpa : ∀ s∈targets, baseGpa+s.offset<2^64) {c : Cursor}
    (hroom : c.pos+targets.length*8 ≤ c.slot.length) (hword : c.slot.length<2^64) :
    appendGpas baseGpa targets c=.ok (c.put (gpas baseGpa targets)) := by
  induction targets generalizing c with
  | nil =>
    rw [gpas,List.flatMap_nil]
    unfold appendGpas Cursor.put overwrite
    rw [List.append_nil,List.length_nil,Nat.add_zero,List.take_append_drop]
  | cons target rest ih =>
    obtain ⟨hhead,hrest⟩ := List.forall_mem_cons.mp hgpa
    rw [List.length_cons] at hroom
    have hlen : (leBytes 8 (baseGpa+target.offset)).length=8 := length_leBytes 8 _
    have hstep : appendGpa (baseGpa+target.offset) c=
        .ok (c.put (leBytes 8 (baseGpa+target.offset))) := by
      unfold appendGpa
      rw [show addWord 64 c.pos entrySize=some (c.pos+8) from if_pos (by
        change c.pos+8<2^64
        omega)]
      change (if c.pos+8 ≤ c.slot.length then _ else _)=_
      rw [if_pos (by omega)]
    have hslot : (c.put (leBytes 8 (baseGpa+target.offset))).slot.length=c.slot.length :=
      length_overwrite (by rw [hlen]; omega)
    have hpos : (c.put (leBytes 8 (baseGpa+target.offset))).pos=c.pos+8 := by
      rw [Cursor.put,hlen]
    have htail := ih hrest (c := c.put (leBytes 8 (baseGpa+target.offset)))
      (by rw [hslot,hpos]; omega) (by rw [hslot]; exact hword)
    unfold appendGpas Slot.gpa
    rw [show addWord 64 baseGpa target.offset=some (baseGpa+target.offset) from if_pos hhead]
    change (appendGpa (baseGpa+target.offset) c >>= appendGpas baseGpa rest)=_
    rw [hstep]
    change appendGpas baseGpa rest (c.put (leBytes 8 (baseGpa+target.offset)))=_
    rw [htail,Cursor.put_put (by
      rw [List.length_append,hlen,length_gpas]
      omega),gpas,gpas,List.flatMap_cons]

/-- In a slot of its size the directory is written whole. -/
theorem xsdtEmit_ok {oem : OemIdentity} {baseGpa : ℕ} {off : Offsets} {slot slot' : Bytes}
    (hgpa : ∀ s∈off.xsdtTargets, baseGpa+s.offset<2^64) (hslot : slot.length=off.xsdt.len)
    (hsize : slot.length=SdtHeader.size+off.xsdtTargets.length*8) (hword : slot.length<2^32) :
    xsdtEmit oem baseGpa off slot=.ok slot' ↔ some (xsdt oem baseGpa off)=some slot' := by
  have hheader := (xsdtHeader oem slot.length).length_asBytes
  have hnine : 9<SdtHeader.size := by decide
  have hover : (overwrite 0 (xsdtHeader oem slot.length).asBytes slot).length=slot.length :=
    length_overwrite (by omega)
  have hput : Cursor.put ⟨overwrite 0 (xsdtHeader oem slot.length).asBytes slot,SdtHeader.size⟩
      (gpas baseGpa off.xsdtTargets)=⟨(xsdtHeader oem slot.length).asBytes++
        gpas baseGpa off.xsdtTargets,slot.length⟩ := by
    unfold Cursor.put
    dsimp only
    rw [overwrite_next hheader (by rw [length_gpas]; omega),overwrite_all (by
      rw [List.length_append,hheader,length_gpas,hsize]),length_gpas,hsize]
  unfold xsdtEmit emitTable sdtLengthFromSlot
  rw [show narrow 32 slot.length=some slot.length from if_pos hword]
  change (writeHeader (xsdtHeader oem slot.length).asBytes slot >>= fun s =>
    appendGpas baseGpa off.xsdtTargets ⟨s,SdtHeader.size⟩ >>= fun c => setSdtChecksum c.slot)=_ ↔ _
  rw [(writeHeader_ok (by omega)).mpr rfl]
  change (appendGpas baseGpa off.xsdtTargets ⟨_,SdtHeader.size⟩ >>= fun c =>
    setSdtChecksum c.slot)=_ ↔ _
  rw [appendGpas_ok hgpa (by dsimp only; omega) (by dsimp only; omega),hput]
  change setSdtChecksum ((xsdtHeader oem slot.length).asBytes++gpas baseGpa off.xsdtTargets)=_ ↔ _
  rw [setSdtChecksum_ok (by rw [List.length_append,hheader]; omega),xsdt,hslot,Option.some.injEq,
    eq_comm]

end Arma.Acpi.Fixed
