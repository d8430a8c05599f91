import Mathlib.Tactic.Common
import Arma.Acpi.Numbered

/-!
# Virtio transports

Every virtio transport gets a device with its registers and its interrupt. The
device comes with its size, the string it consists of and the condition under
which it can be written.
-/

namespace Arma.Acpi.Virtio

open Base.ByteString Base.Checked Base.Writer Devtree Dtb Aml Numbered

/-- Compatible string of a virtio transport. -/
def virtioMmioCompatible : String := "virtio,mmio"

variable [DevtreeLib]

/-- Bytes of a virtio transport's device. -/
def virtioDeviceBytes : ℕ :=
  2+pkgLengthBytes+4+((1+4+stringBytes 8)+(1+4+1+1)+crsWrapperBytes+
    (qwordMemoryBytes+extendedInterruptBytes+endTagBytes))

/-- Name of a virtio transport's device, with two decimal digits. -/
def vmSeg (index : ℕ) : NameSeg :=
  ⟨ascii "VM"++[UInt8.ofNat (48+index/10),UInt8.ofNat (48+index%10)],rfl⟩

/-- The device of a virtio transport. -/
def virtioAml (index base size gsi sense : ℕ) : Option Bytes :=
  cat (deviceHeader (vmSeg index) virtioDeviceBytes)
    (cat (some (nameString hidSeg (ascii "LNRO0005")++nameByte uidSeg index))
      (cat (crsBufferHeader (qwordMemoryBytes+extendedInterruptBytes+endTagBytes))
        (cat (qwordMemory base size) (some (extendedInterrupt gsi sense++endTag)))))

/-- The device of a virtio transport node. -/
def virtioDevice (node : DtbNode) (index : ℕ) : Option Bytes :=
  (firstReg node .virtioMmio).bind fun p =>
    (value (node.decodeInterrupts2 .virtioMmio)).bind fun irq =>
      virtioAml index p.1 p.2 irq.1 irq.2

/-- Write the device of a virtio transport node. -/
def writeVirtioDevice (node : DtbNode) (index : ℕ) (c : Cursor) : Outcome DtbError Cursor := do
  let regs ← node.reg .virtioMmio
  let first ← okOr regs.head? (.malformedProperty .virtioMmio "reg")
  let irq ← node.decodeInterrupts2 .virtioMmio
  let c ← writeDeviceHeader (vmSeg index) virtioDeviceBytes c
  let c ← writeNameString hidSeg (ascii "LNRO0005") c
  let c ← writeNameByte uidSeg index c
  let c ← writeCrsBufferHeader (qwordMemoryBytes+extendedInterruptBytes+endTagBytes) c
  let c ← writeQwordMemory first.1 first.2 c
  let c ← writeExtendedInterrupt irq.1 irq.2 c
  writeEndTag c

/-- Bytes of all virtio transports. -/
def virtioTotalBytes (root : DtbNode) : Outcome DtbError ℕ := do
  let kids ← root.children
  let n ← sumOver 64 virtioMmioCompatible (fun _ => .ok 1) kids 0
  okOr (mulWord 64 n virtioDeviceBytes) .internal

/-- Write all virtio transports. -/
def emitVirtio (root : DtbNode) (c : Cursor) : Outcome DtbError Cursor := do
  let kids ← root.children
  emitOver virtioMmioCompatible writeVirtioDevice kids 0 c

/-- The device of a virtio transport is written. -/
theorem emits_writeVirtioDevice (node : DtbNode) (index : ℕ) :
    Emits (writeVirtioDevice node index) (virtioDevice node index) := by
  refine emits_firstReg fun p => Emits.after fun irq _ => ?_
  have h := (emits_writeDeviceHeader (vmSeg index) virtioDeviceBytes).seq
    ((emits_writeNameString hidSeg (ascii "LNRO0005")).seq
      ((emits_writeNameByte uidSeg index).seq
        ((emits_writeCrsBufferHeader (qwordMemoryBytes+extendedInterruptBytes+endTagBytes)).seq
          ((emits_writeQwordMemory p.1 p.2).seq
            ((emits_writeBytes (extendedInterrupt irq.1 irq.2)).seq (emits_writeBytes endTag))))))
  rw [cat_cat_some] at h
  exact h

/-- Bytes of the device of a virtio transport. -/
theorem length_virtioDevice {node : DtbNode} {index : ℕ} {out : Bytes}
    (h : virtioDevice node index=some out) : out.length=virtioDeviceBytes := by
  obtain ⟨p,_,h⟩ := Option.bind_eq_some_iff.mp h
  obtain ⟨irq,_,h⟩ := Option.bind_eq_some_iff.mp h
  obtain ⟨header,crs,memory,rest,hheader,hcrs,hmemory,hrest,rfl⟩ := memoryDevice_eq_some h
  cases hrest
  simp only [List.length_append,length_deviceHeader hheader,length_nameString,length_nameByte,
    length_crsBufferHeader hcrs,length_qwordMemory hmemory,length_extendedInterrupt]
  rfl

/-- What a virtio transport must satisfy for its device to be written. -/
structure VirtioReady (node : DtbNode) : Prop where
  /-- The registers end in the address space. -/
  reg : ∃ p, firstReg node .virtioMmio=some p ∧ p.1+p.2<2^64
  /-- The interrupt is a pin and a sense. -/
  interrupt : ∃ irq, node.decodeInterrupts2 .virtioMmio=.ok irq

/-- The device of a virtio transport can be written exactly when it has
registers and an interrupt. -/
theorem isSome_virtioDevice {node : DtbNode} {index : ℕ} :
    (virtioDevice node index).isSome=true ↔ VirtioReady node := by
  have hheader : (deviceHeader (vmSeg index) virtioDeviceBytes).isSome=true :=
    isSome_deviceHeader.mpr (by decide)
  have hcrs : (crsBufferHeader (qwordMemoryBytes+extendedInterruptBytes+endTagBytes)).isSome=
      true := isSome_crsBufferHeader.mpr (by decide)
  have haml : ∀ base size gsi sense,
      (virtioAml index base size gsi sense).isSome=true ↔ base+size<2^64 := by
    intro base size gsi sense
    simp only [virtioAml,isSome_cat,Bool.and_eq_true,hheader,hcrs,Option.isSome_some,true_and,
      and_true,isSome_qwordMemory]
  constructor
  · intro h
    obtain ⟨out,hout⟩ := Option.isSome_iff_exists.mp h
    obtain ⟨p,hp,hout⟩ := Option.bind_eq_some_iff.mp hout
    obtain ⟨irq,hirq,hout⟩ := Option.bind_eq_some_iff.mp hout
    have hfit := (haml _ _ _ _).mp (Option.isSome_iff_exists.mpr ⟨out,hout⟩)
    exact ⟨⟨p,hp,hfit⟩,irq,value_eq_some.mp hirq⟩
  · rintro ⟨⟨p,hp,hfit⟩,irq,hirq⟩
    rw [virtioDevice,hp,Option.bind_some,hirq,value_ok,Option.bind_some]
    exact (haml _ _ _ _).mpr hfit

end Arma.Acpi.Virtio
