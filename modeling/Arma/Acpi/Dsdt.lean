import Mathlib.Algebra.Order.BigOperators.Group.List
import Mathlib.Tactic.Common
import Arma.Acpi.Bridges
import Arma.Acpi.Sdt
import Arma.Acpi.Serial
import Arma.Acpi.Virtio

/-!
# Description of the system

The power-off object, then the devices: reserved configuration spaces, host
bridges, the serial port and the virtio transports. What is written must end
exactly with the slot.
-/

namespace Arma.Acpi.Dsdt

open Base.ByteString Base.Checked Base.Writer Devtree Dtb Aml Numbered Bridges Sdt Serial Virtio

/-- Bytes of the power-off object. -/
def s5AmlLen : ℕ := 13

/-- The power-off object with the sleep type that makes the guest write the
given value. -/
def s5Aml (sleepValue : ℕ) : Bytes :=
  [0x08,0x5C,0x5F,0x53,0x35,0x5F,0x12,0x06,0x03,0x0A,UInt8.ofNat (sleepValue/4%8),0x00,0x00]

/-- The header of the table. -/
def dsdtHeader (oem : OemIdentity) (length : ℕ) : SdtHeader :=
  SdtHeader.new ⟨ascii "DSDT",rfl⟩ length 2 oem

variable [DevtreeLib]

/-- Write the devices behind the power-off object. -/
def writeDevices (root : DtbNode) (c : Cursor) : Outcome DtbError Cursor := do
  let c ← emitMotherboard root c
  let c ← emitPci root c
  let c ← emitSerial root c
  emitVirtio root c

/-- Write the description of the system. -/
def dsdtEmit (oem : OemIdentity) (sleepValue : ℕ) (root : DtbNode) (slot : Bytes) :
    Outcome DtbError Bytes := do
  let length := (narrow 32 slot.length).getD (2^32-1)
  let slot ← writeHeader (dsdtHeader oem length).asBytes slot
  let c ← writeBytes (s5Aml sleepValue) ⟨slot,SdtHeader.size⟩
  let c ← writeDevices root c
  if c.pos≠c.slot.length then fail .internal else setSdtChecksum c.slot

/-- The device of the serial port, if there is one. -/
def serialPart (serial : Option DtbNode) : Option Bytes :=
  match serial with
  | none => some []
  | some n => serialDevice n

/-- The devices of the system. -/
def dsdtDevices (kids : List DtbNode) (serial : Option DtbNode) : Option Bytes :=
  cat (devices pciHostCompatible motherboardDevice kids)
    (cat (devices pciHostCompatible pciDevice kids)
      (cat (serialPart serial) (devices virtioMmioCompatible virtioDevice kids)))

/-- The description of the system. -/
def dsdt (oem : OemIdentity) (sleepValue : ℕ) (kids : List DtbNode) (serial : Option DtbNode)
    (len : ℕ) : Option Bytes :=
  (dsdtDevices kids serial).map fun out =>
    sealed 9 ((dsdtHeader oem len).asBytes++(s5Aml sleepValue++out))

/-- What counting has established about the nodes of the devices. -/
structure Counted (kids : List DtbNode) : Prop where
  /-- Every `compatible` is well formed. -/
  listed : ∀ c∈kids, c.Listed
  /-- Every host bridge has bus numbers. -/
  buses : ∀ c∈selected pciHostCompatible kids, ∃ bus, c.decodePciBusRange=.ok bus
  /-- The windows of every host bridge can be counted. -/
  windows : ∀ c∈selected pciHostCompatible kids, ∃ w, countWindows c=.ok w

/-- Bytes that are counted for a host bridge. -/
def bridgeBytes (c : DtbNode) : ℕ := ((value (countWindows c)).map hostBridgeAmlBytes).getD 0

/-- Bytes that are counted for the devices. -/
def devicesBytes (kids : List DtbNode) (serial : Option DtbNode) : ℕ :=
  (selected pciHostCompatible kids).length*motherboardAmlBytes+
    (((selected pciHostCompatible kids).map bridgeBytes).sum+
      ((if serial.isSome then serialDeviceBytes else 0)+
        (selected virtioMmioCompatible kids).length*virtioDeviceBytes))

/-- What the devices that can be written consist of. -/
theorem dsdtDevices_eq_some {kids : List DtbNode} {serial : Option DtbNode} {out : Bytes}
    (h : dsdtDevices kids serial=some out) :
    ∃ m p s v, devices pciHostCompatible motherboardDevice kids=some m ∧
      devices pciHostCompatible pciDevice kids=some p ∧ serialPart serial=some s ∧
        devices virtioMmioCompatible virtioDevice kids=some v ∧ out=m++(p++(s++v)) := by
  obtain ⟨m,hm,_,hrest,rfl⟩ := cat_eq_some.mp h
  obtain ⟨p,hp,_,htail,rfl⟩ := cat_eq_some.mp hrest
  obtain ⟨s,hs,v,hv,rfl⟩ := cat_eq_some.mp htail
  exact ⟨m,p,s,v,hm,hp,hs,hv,rfl⟩

/-- The device of every host bridge takes the bytes counted for it. -/
theorem length_bridge {kids : List DtbNode} (h : Counted kids) {c : DtbNode}
    (hc : c∈selected pciHostCompatible kids) {i : ℕ} {out : Bytes}
    (hout : pciDevice c i=some out) : out.length=bridgeBytes c := by
  obtain ⟨bus,hbus⟩ := h.buses c hc
  obtain ⟨w,hw⟩ := h.windows c hc
  rw [length_pciDevice hbus hw hout,bridgeBytes,hw]
  rfl

/-- The devices take the bytes counted for them. -/
theorem length_dsdtDevices {kids : List DtbNode} (h : Counted kids) {serial : Option DtbNode}
    {out : Bytes} (hout : dsdtDevices kids serial=some out) :
    out.length=devicesBytes kids serial := by
  obtain ⟨m,p,s,v,hm,hp,hs,hv,rfl⟩ := dsdtDevices_eq_some hout
  have hmlen := length_devices (fun _ => motherboardAmlBytes)
    (fun c _ i o ho => length_motherboardDevice ho) hm
  have hplen := length_devices bridgeBytes (fun c hc i o ho => length_bridge h hc ho) hp
  have hvlen := length_devices (fun _ => virtioDeviceBytes)
    (fun c _ i o ho => length_virtioDevice ho) hv
  have hslen : s.length=if serial.isSome then serialDeviceBytes else 0 := by
    cases serial with
    | none =>
      cases hs
      rfl
    | some n => exact length_serialDevice hs
  rw [List.map_const',List.sum_replicate] at hmlen hvlen
  simp only [List.length_append,hmlen,hplen,hslen,hvlen]
  rfl

/-- The devices are written. -/
theorem emits_writeDevices {root : DtbNode} {kids : List DtbNode} {serial : Option DtbNode}
    (hkids : root.children=.ok kids) (hlisted : ∀ c∈kids, c.Listed)
    (hserial : findSerial root=.ok serial) :
    Emits (writeDevices root) (dsdtDevices kids serial) := by
  have hm : Emits (emitMotherboard root) (devices pciHostCompatible motherboardDevice kids) := by
    unfold emitMotherboard
    rw [hkids]
    exact emits_devices emits_writeMotherboardDevice hlisted
  have hp : Emits (emitPci root) (devices pciHostCompatible pciDevice kids) := by
    unfold emitPci
    rw [hkids]
    exact emits_devices emits_writePciDevice hlisted
  have hs : Emits (emitSerial root) (serialPart serial) := by
    unfold emitSerial
    rw [hserial]
    cases serial with
    | none => exact emits_nil
    | some n => exact emits_writeSerialDevice n
  have hv : Emits (emitVirtio root) (devices virtioMmioCompatible virtioDevice kids) := by
    unfold emitVirtio
    rw [hkids]
    exact emits_devices emits_writeVirtioDevice hlisted
  exact hm.seq (hp.seq (hs.seq hv))

/-- A host bridge that was counted can be written exactly when it is small and its windows fit. -/
theorem isSome_bridge {kids : List DtbNode} (h : Counted kids) :
    ∀ c∈selected pciHostCompatible kids, ∀ i, (pciDevice c i).isSome=true ↔
      (78+26*(ranges c).countP PciRange.isMem32+46*(ranges c).countP PciRange.isMem64≤4097 ∧
        ∀ r∈ranges c, PciRange.Fits r) := by
  intro c hc i
  obtain ⟨bus,hbus⟩ := h.buses c hc
  obtain ⟨w,hw⟩ := h.windows c hc
  exact isSome_pciDevice hbus hw

/-- When the host bridges can be written, there are few of them and each is
small. -/
theorem bridges_bound {kids : List DtbNode} (h : Counted kids) {out : Bytes}
    (hout : devices pciHostCompatible pciDevice kids=some out) :
    (selected pciHostCompatible kids).length≤255 ∧
      ((selected pciHostCompatible kids).map bridgeBytes).sum≤
        (selected pciHostCompatible kids).length*4097 := by
  obtain ⟨hbridges,hall⟩ := (isSome_devices (isSome_bridge h)).mp
    (Option.isSome_iff_exists.mpr ⟨out,hout⟩)
  have hle := List.sum_le_card_nsmul ((selected pciHostCompatible kids).map bridgeBytes) 4097
    (fun n hn => by
      obtain ⟨c,hc,rfl⟩ := List.mem_map.mp hn
      obtain ⟨w,hw⟩ := h.windows c hc
      obtain ⟨_,h32,h64⟩ := countWindows_ok hw
      have hsize := (hall c hc).1
      rw [←h32,←h64] at hsize
      rw [bridgeBytes,hw]
      exact hostBridgeAmlBytes_le.mpr hsize)
  rw [List.length_map] at hle
  exact ⟨hbridges,hle⟩

/-- When the devices can be written, their number bounds their size. -/
theorem devicesBytes_lt {kids : List DtbNode} (h : Counted kids) {serial : Option DtbNode}
    {out : Bytes} (hout : dsdtDevices kids serial=some out) :
    devicesBytes kids serial<2^31 := by
  obtain ⟨m,p,s,v,_,hp,_,hv,_⟩ := dsdtDevices_eq_some hout
  obtain ⟨hbridges,hsum⟩ := bridges_bound h hp
  have hready : ∀ c∈selected virtioMmioCompatible kids, ∀ i,
      (virtioDevice c i).isSome=true ↔ VirtioReady c := fun _ _ _ => isSome_virtioDevice
  obtain ⟨hvirtio,_⟩ := (isSome_devices hready).mp (Option.isSome_iff_exists.mpr ⟨v,hv⟩)
  have hserial : (if serial.isSome then serialDeviceBytes else 0)≤201 := by
    split
    · decide
    · exact Nat.zero_le _
  have hmsize : motherboardAmlBytes=84 := rfl
  have hvsize : virtioDeviceBytes=98 := rfl
  rw [devicesBytes,hmsize,hvsize]
  omega

/-- In a slot of the counted size the description of the system is written
whole. -/
theorem dsdtEmit_ok {oem : OemIdentity} {sleepValue : ℕ} {root : DtbNode} {kids : List DtbNode}
    {serial : Option DtbNode} (hkids : root.children=.ok kids) (hcounted : Counted kids)
    (hserial : findSerial root=.ok serial) {slot slot' : Bytes}
    (hsize : slot.length=SdtHeader.size+(s5AmlLen+devicesBytes kids serial)) :
    dsdtEmit oem sleepValue root slot=.ok slot' ↔
      dsdt oem sleepValue kids serial slot.length=some slot' := by
  have hbody : Emits (fun c => writeBytes (s5Aml sleepValue) c >>= writeDevices root)
      (cat (some (s5Aml sleepValue)) (dsdtDevices kids serial)) :=
    (emits_writeBytes _).seq (emits_writeDevices hkids hcounted.listed hserial)
  have hfit : ∀ out, cat (some (s5Aml sleepValue)) (dsdtDevices kids serial)=some out →
      SdtHeader.size+out.length=slot.length := by
    intro out hout
    obtain ⟨a,ha,b,hb,rfl⟩ := cat_eq_some.mp hout
    cases ha
    rw [List.length_append,length_dsdtDevices hcounted hb,hsize]
    rfl
  have hheader : ∀ len, (dsdtHeader oem len).asBytes.length=SdtHeader.size :=
    fun len => SdtHeader.length_asBytes _
  have hbig : 9 < slot.length := by
    have : SdtHeader.size=36 := rfl
    omega
  have hlength : ∀ out, dsdtDevices kids serial=some out →
      (narrow 32 slot.length).getD (2^32-1)=slot.length := by
    intro out hout
    have hlt := devicesBytes_lt hcounted hout
    rw [show narrow 32 slot.length=some slot.length from if_pos (by
      have : SdtHeader.size=36 := rfl
      have : s5AmlLen=13 := rfl
      omega)]
    rfl
  unfold dsdtEmit
  generalize hlen : (narrow 32 slot.length).getD (2^32-1)=len at hlength
  change (writeHeader (dsdtHeader oem len).asBytes slot >>= fun s =>
    writeBytes (s5Aml sleepValue) ⟨s,SdtHeader.size⟩ >>= fun c => writeDevices root c >>= fun c =>
      if c.pos≠c.slot.length then fail .internal else setSdtChecksum c.slot)=_ ↔ _
  rw [(writeHeader_ok (by rw [hheader]; omega)).mpr rfl]
  change (writeBytes (s5Aml sleepValue) ⟨overwrite 0 (dsdtHeader oem len).asBytes slot,
    SdtHeader.size⟩ >>= fun c => writeDevices root c >>= fun c =>
      if c.pos≠c.slot.length then fail .internal else setSdtChecksum c.slot)=_ ↔ _
  have hfill := @emits_fill _ _ hbody (dsdtHeader oem len).asBytes slot SdtHeader.size
    (hheader len) (by omega) hfit
  rw [←bind_assoc,bind_ok]
  rw [dsdt,Option.map_eq_some_iff]
  constructor
  · rintro ⟨c,hc,h⟩
    obtain ⟨out,hout,rfl⟩ := hfill.mp hc
    obtain ⟨a,ha,b,hb,rfl⟩ := cat_eq_some.mp hout
    cases ha
    have hall := hfit _ hout
    rw [if_neg (by rw [not_not,List.length_append,hheader]; exact hall.symm),setSdtChecksum_ok (by
      rw [List.length_append,hheader,hall]
      exact hbig)] at h
    exact ⟨b,hb,by rw [h,hlength b hb]⟩
  · rintro ⟨b,hb,rfl⟩
    have hout : cat (some (s5Aml sleepValue)) (dsdtDevices kids serial)=
        some (s5Aml sleepValue++b) := by rw [hb,cat_some]
    have hall := hfit _ hout
    refine ⟨_,hfill.mpr ⟨_,hout,rfl⟩,?_⟩
    rw [if_neg (by rw [not_not,List.length_append,hheader]; exact hall.symm),setSdtChecksum_ok (by
      rw [List.length_append,hheader,hall]
      exact hbig),hlength b hb]

/-- The description of the system is a description table. -/
theorem isSdt_dsdt {oem : OemIdentity} {sleepValue : ℕ} {kids : List DtbNode}
    {serial : Option DtbNode} (hcounted : Counted kids) {len : ℕ}
    (hlen : len=SdtHeader.size+(s5AmlLen+devicesBytes kids serial)) {t : Bytes}
    (h : dsdt oem sleepValue kids serial len=some t) :
    IsSdt (ascii "DSDT") t ∧ t.length=len := by
  obtain ⟨out,hout,rfl⟩ := Option.map_eq_some_iff.mp h
  have hbody : (s5Aml sleepValue++out).length=s5AmlLen+devicesBytes kids serial := by
    rw [List.length_append,length_dsdtDevices hcounted hout]
    rfl
  have hlt := devicesBytes_lt hcounted hout
  have hs5 : s5AmlLen=13 := rfl
  have hheader : SdtHeader.size=36 := rfl
  refine ⟨isSdt_sealed (h := dsdtHeader oem len) (hlen.trans (by rw [hbody])) ?_,?_⟩
  · change len<2^32
    omega
  · rw [length_sealed,List.length_append,SdtHeader.length_asBytes,hbody,hlen]

end Arma.Acpi.Dsdt
