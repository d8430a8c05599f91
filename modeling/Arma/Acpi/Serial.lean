import Mathlib.Tactic.Common
import Arma.Acpi.Aml

/-!
# Serial console

The node of the namespace device is the first root child named `serial`; the
node of the console table is the one that the standard output path names. Both
are strict about their properties.
-/

namespace Arma.Acpi.Serial

open Base.ByteString Base.Checked Base.Writer Devtree Dtb Aml

/-- Compatible string of a serial port. -/
def serialCompatible : String := "ns16550a"

/-- Properties that a serial port may have. -/
def serialAllowed : List String :=
  ["compatible","reg","interrupts","interrupt-parent","reg-shift","reg-io-width",
    "clock-frequency","current-speed"]

/-- Reject properties that cannot be translated. -/
def validatePropertySet (n : DtbNode) : Outcome DtbError Unit :=
  if n.node.properties.all fun p => decide (p.name∈serialAllowed) then .ok ()
  else fail (.unsupportedProperty .serial)

/-- The value of a string of digits. -/
def parseDigits (digits : List Char) : ℕ := digits.foldl (fun n c => 10*n+(c.toNat-48)) 0

/-- The baud rate at the front of the standard output options. -/
def parseStdoutBaud (opts : List Char) : Outcome DtbError (Option ℕ) :=
  let digits := opts.takeWhile Char.isDigit
  if digits=[] then .ok none
  else do
    let baud ← okOr (narrow 32 (parseDigits digits)) (.malformedProperty .root "stdout-path")
    .ok (some baud)

/-- Bytes of a package of the given elements. -/
def packageBytes (elementsBytes : ℕ) : ℕ := elementsBytes+pkgLengthBytes+2

/-- Bytes of a property package with a name of the given length. -/
def propertyPackageBytes (nameLen : ℕ) : ℕ := packageBytes (stringBytes nameLen+5)

/-- Bytes of the identifier of device properties. -/
def dsdUuidBytes : ℕ := byteBufferBytes 16

/-- Bytes of the three properties. -/
def dsdElementsBytes : ℕ :=
  propertyPackageBytes 15+propertyPackageBytes 9+propertyPackageBytes 12

/-- Bytes of the device properties. -/
def dsdBytes : ℕ := 1+4+packageBytes (dsdUuidBytes+packageBytes dsdElementsBytes)

/-- Bytes of the resource descriptors of a serial port. -/
def serialDescriptorBytes : ℕ := qwordMemoryBytes+extendedInterruptBytes+endTagBytes

/-- Bytes of the serial port's device. -/
def serialDeviceBytes : ℕ :=
  2+pkgLengthBytes+4+((1+4+stringBytes 8)+(1+4+1+1)+(crsWrapperBytes+serialDescriptorBytes)+
    dsdBytes)

example : serialDeviceBytes=201 := by decide

/-- A property with a double word. -/
def dwordProperty (name : Bytes) (v : ℕ) : Option Bytes :=
  cat (some [packageOp]) (cat (pkgLength (pkgLengthBytes+1+(stringBytes name.length+5)))
    (some (2::(string name++(dwordPrefix::leBytes 4 v)))))

/-- Write a property with a double word. -/
def writeDwordProperty (name : Bytes) (v : ℕ) (c : Cursor) : Outcome DtbError Cursor := do
  let c ← writeBytes [packageOp] c
  let c ← writePkgLength (pkgLengthBytes+1+(stringBytes name.length+5)) c
  let c ← writeBytes [2] c
  let c ← writeString name c
  let c ← writeBytes [dwordPrefix] c
  writeBytes (leBytes 4 v) c

/-- Identifier of device properties. -/
def devicePropertiesUuid : Bytes :=
  [0x14,0xd8,0xff,0xda,0xba,0x6e,0x8c,0x4d,0x8a,0x91,0xbc,0x9b,0xbf,0x4a,0xa3,0x01]

/-- Name of the device properties. -/
def dsdSeg : NameSeg := ⟨ascii "_DSD",rfl⟩

/-- Name of the serial port's device. -/
def serSeg : NameSeg := ⟨ascii "SER0",rfl⟩

/-- The device properties of a serial port. -/
def dsd (clockFrequency regShift regIoWidth : ℕ) : Option Bytes :=
  cat (some (nameOp::(dsdSeg.1++[packageOp])))
    (cat (pkgLength (pkgLengthBytes+1+dsdUuidBytes+packageBytes dsdElementsBytes))
      (cat (some [2]) (cat (byteBuffer devicePropertiesUuid) (cat (some [packageOp])
        (cat (pkgLength (pkgLengthBytes+1+dsdElementsBytes)) (cat (some [3])
          (cat (dwordProperty (ascii "clock-frequency") clockFrequency)
            (cat (dwordProperty (ascii "reg-shift") regShift)
              (dwordProperty (ascii "reg-io-width") regIoWidth)))))))))

/-- Write the device properties of a serial port. -/
def writeDsd (clockFrequency regShift regIoWidth : ℕ) (c : Cursor) :
    Outcome DtbError Cursor := do
  let c ← writeBytes [nameOp] c
  let c ← writeNameSeg dsdSeg c
  let c ← writeBytes [packageOp] c
  let c ← writePkgLength (pkgLengthBytes+1+dsdUuidBytes+packageBytes dsdElementsBytes) c
  let c ← writeBytes [2] c
  let c ← writeByteBuffer devicePropertiesUuid c
  let c ← writeBytes [packageOp] c
  let c ← writePkgLength (pkgLengthBytes+1+dsdElementsBytes) c
  let c ← writeBytes [3] c
  let c ← writeDwordProperty (ascii "clock-frequency") clockFrequency c
  let c ← writeDwordProperty (ascii "reg-shift") regShift c
  writeDwordProperty (ascii "reg-io-width") regIoWidth c

/-- A serial port's device up to its properties. -/
def serialAml (base size gsi sense clockFrequency regShift regIoWidth : ℕ) : Option Bytes :=
  cat (deviceHeader serSeg serialDeviceBytes)
    (cat (some (nameString hidSeg (ascii "RSCV0003")++nameByte uidSeg 0))
      (cat (crsBufferHeader serialDescriptorBytes) (cat (qwordMemory base size)
        (cat (some (extendedInterrupt gsi sense++endTag))
          (dsd clockFrequency regShift regIoWidth)))))

/-- A property is written. -/
theorem emits_writeDwordProperty (name : Bytes) (v : ℕ) :
    Emits (writeDwordProperty name v) (dwordProperty name v) :=
  (emits_writeBytes _).seq ((emits_writePkgLength _).seq ((emits_writeBytes _).seq
    ((emits_writeString _).seq ((emits_writeBytes _).seq (emits_writeBytes _)))))

/-- The device properties are written. -/
theorem emits_writeDsd (clockFrequency regShift regIoWidth : ℕ) :
    Emits (writeDsd clockFrequency regShift regIoWidth) (dsd clockFrequency regShift regIoWidth) := by
  have h := (emits_writeBytes [nameOp]).seq ((emits_writeBytes dsdSeg.1).seq
    ((emits_writeBytes [packageOp]).seq ((emits_writePkgLength
      (pkgLengthBytes+1+dsdUuidBytes+packageBytes dsdElementsBytes)).seq
      ((emits_writeBytes [2]).seq ((emits_writeByteBuffer devicePropertiesUuid).seq
        ((emits_writeBytes [packageOp]).seq
          ((emits_writePkgLength (pkgLengthBytes+1+dsdElementsBytes)).seq
            ((emits_writeBytes [3]).seq
              ((emits_writeDwordProperty (ascii "clock-frequency") clockFrequency).seq
                ((emits_writeDwordProperty (ascii "reg-shift") regShift).seq
                  (emits_writeDwordProperty (ascii "reg-io-width") regIoWidth)))))))))))
  rw [cat_cat_some,cat_cat_some] at h
  exact h

/-- The device properties can be written and take the bytes counted for them. -/
theorem dsd_spec (clockFrequency regShift regIoWidth : ℕ) :
    ∃ out, dsd clockFrequency regShift regIoWidth=some out ∧ out.length=dsdBytes :=
  ⟨_,rfl,rfl⟩

/-- Bytes of the serial port's device. -/
theorem length_serialAml {base size gsi sense clockFrequency regShift regIoWidth : ℕ}
    {out : Bytes} (h : serialAml base size gsi sense clockFrequency regShift regIoWidth=some out) :
    out.length=serialDeviceBytes := by
  obtain ⟨props,hprops,hlen⟩ := dsd_spec clockFrequency regShift regIoWidth
  obtain ⟨header,crs,memory,rest,hheader,hcrs,hmemory,hrest,rfl⟩ := memoryDevice_eq_some h
  obtain ⟨t,ht,p,hp,rfl⟩ := cat_eq_some.mp hrest
  rw [hprops] at hp
  cases ht
  cases hp
  simp only [List.length_append,length_deviceHeader hheader,length_nameString,length_nameByte,
    length_crsBufferHeader hcrs,length_qwordMemory hmemory,length_extendedInterrupt,hlen]
  rfl

/-- The device of a serial port can be written when its registers end in the
address space. -/
theorem isSome_serialAml {base size gsi sense clockFrequency regShift regIoWidth : ℕ} :
    (serialAml base size gsi sense clockFrequency regShift regIoWidth).isSome=true ↔
      base+size<2^64 := by
  obtain ⟨props,hprops,_⟩ := dsd_spec clockFrequency regShift regIoWidth
  have hheader : (deviceHeader serSeg serialDeviceBytes).isSome=true :=
    isSome_deviceHeader.mpr (by decide)
  have hcrs : (crsBufferHeader serialDescriptorBytes).isSome=true :=
    isSome_crsBufferHeader.mpr (by decide)
  simp only [serialAml,isSome_cat,Bool.and_eq_true,hheader,hcrs,hprops,Option.isSome_some,
    true_and,and_true,isSome_qwordMemory]

/-- Code of the access size of a register width. -/
def accessSize : ℕ → Option ℕ
  | 1 => some 1
  | 2 => some 2
  | 4 => some 3
  | 8 => some 4
  | _ => none

/-- Code of a baud rate. -/
def baudCode : Option ℕ → Option ℕ
  | none => some 0
  | some 9600 => some 3
  | some 19200 => some 4
  | some 57600 => some 6
  | some 115200 => some 7
  | some _ => none

/-- Which register widths have an access size. -/
theorem accessSize_some {w : ℕ} :
    (∃ a, accessSize w=some a) ↔ w=1 ∨ w=2 ∨ w=4 ∨ w=8 := by
  constructor
  · rintro ⟨a,ha⟩
    unfold accessSize at ha
    split at ha <;> simp_all
  · rintro (rfl | rfl | rfl | rfl) <;> exact ⟨_,rfl⟩

/-- Which baud rates have a code. -/
theorem baudCode_some {b : Option ℕ} : (∃ k, baudCode b=some k) ↔
    b=none ∨ b=some 9600 ∨ b=some 19200 ∨ b=some 57600 ∨ b=some 115200 := by
  constructor
  · rintro ⟨k,hk⟩
    unfold baudCode at hk
    split at hk <;> simp_all
  · rintro (rfl | rfl | rfl | rfl | rfl) <;> exact ⟨_,rfl⟩

variable [DevtreeLib]

/-- The first child named `serial`, which must be a serial port. -/
def findSerialIn : List DtbNode → Outcome DtbError (Option DtbNode)
  | [] => .ok none
  | child::rest =>
    if baseNameIs child.name "serial" then do
      let found ← child.hasCompatible serialCompatible
      if found then do
        validatePropertySet child
        .ok (some child)
      else fail (.unsupportedNode .serial)
    else findSerialIn rest

/-- The node of the namespace device. -/
def findSerial (root : DtbNode) : Outcome DtbError (Option DtbNode) := do
  let kids ← root.children
  findSerialIn kids

/-- Descend along the segments of a path. -/
def walkSegments : List (List Char) → DtbNode → Outcome DtbError (Option DtbNode)
  | [],n => .ok (some n)
  | segment::rest,n => do
    let next ← n.child (String.ofList segment) .serial
    match next with
    | none => .ok none
    | some next => walkSegments rest next

/-- The node of an absolute path. -/
def findSerialByPath (root : DtbNode) (path : List Char) : Outcome DtbError (Option DtbNode) :=
  match path with
  | [] => .ok none
  | slash::rest =>
    if slash≠ '/' then .ok none
    else if rest=[] then .ok none
    else walkSegments ((rest.splitOn '/').filter fun s => decide (s≠[])) root

/-- The node of a path or of an alias. -/
def resolveStdout (root : Node) (target : List Char) : Outcome DtbError (Option DtbNode) :=
  if target.head?=some '/' then findSerialByPath (rootOf root) target
  else do
    let aliases ← okOr (DevtreeLib.findPath root "/aliases")
      (.malformedProperty .root "stdout-path")
    let prop ← okOr (aliases.property (String.ofList target))
      (.malformedProperty .root "stdout-path")
    let path ← okOr (DevtreeLib.asStr prop) (.malformedProperty .root "stdout-path")
    findSerialByPath (rootOf root) path.toList

/-- The serial port that a standard output path names, with its baud rate. -/
def stdoutSerial (root : Node) (stdout : List Char) :
    Outcome DtbError (Option (DtbNode×Option ℕ)) := do
  let target := stdout.takeWhile (· != ':')
  let opts := (stdout.dropWhile (· != ':')).drop 1
  let serial ← resolveStdout root target
  let serial ← okOr serial (.malformedProperty .root "stdout-path")
  let found ← serial.hasCompatible serialCompatible
  if found then do
    validatePropertySet serial
    let baud ← parseStdoutBaud opts
    .ok (some (serial,baud))
  else fail (.unsupportedNode .serial)

/-- The node of the console table, absent without a standard output path. -/
def findStdoutSerial (root : Node) : Outcome DtbError (Option (DtbNode×Option ℕ)) :=
  match (DevtreeLib.findPath root "/chosen").bind fun chosen => chosen.property "stdout-path" with
  | none => .ok none
  | some prop => do
    let stdout ← okOr (DevtreeLib.asStr prop) (.malformedProperty .root "stdout-path")
    stdoutSerial root stdout.toList

/-- Whether there is a console table. -/
def present (root : Node) : Outcome DtbError Bool := do
  let serial ← findStdoutSerial root
  .ok serial.isSome

/-- What the tables say of a serial port. -/
structure SerialPort where
  /-- Address of the registers. -/
  base : ℕ
  /-- Code of the access size. -/
  access : ℕ
  /-- Interrupt. -/
  gsi : ℕ
deriving DecidableEq, Repr

/-- Read a serial port. -/
def decodeSerial (n : DtbNode) : Outcome DtbError SerialPort := do
  let regs ← n.reg .serial
  let first ← okOr regs.head? (.malformedProperty .serial "reg")
  let ioWidth ← n.propertyU32 "reg-io-width" .serial
  let access ← okOr (accessSize ioWidth) (.valueOutOfRange .serial "reg-io-width")
  let irq ← n.decodeInterrupts2 .serial
  .ok ⟨first.1,access,irq.1⟩

/-- Code of the baud rate of the path or else of the node. -/
def decodeBaudRate (n : DtbNode) (stdoutBaud : Option ℕ) : Outcome DtbError ℕ := do
  let speed ← n.propertyU32Opt "current-speed"
  okOr (baudCode (stdoutBaud.or speed)) (.valueOutOfRange .serial "current-speed")

/-- The device of a serial port. -/
def serialDevice (n : DtbNode) : Option Bytes := do
  let port ← value (decodeSerial n)
  let first ← firstReg n .serial
  let regShift ← value (n.propertyU32 "reg-shift" .serial)
  let regIoWidth ← value (n.propertyU32 "reg-io-width" .serial)
  let clockFrequency ← value (n.propertyU32 "clock-frequency" .serial)
  let irq ← value (n.decodeInterrupts2 .serial)
  serialAml port.base first.2 port.gsi irq.2 clockFrequency regShift regIoWidth

/-- Write the device of a serial port. -/
def writeSerialDevice (n : DtbNode) (c : Cursor) : Outcome DtbError Cursor := do
  let port ← decodeSerial n
  let regs ← n.reg .serial
  let first ← okOr regs.head? .internal
  let regShift ← n.propertyU32 "reg-shift" .serial
  let regIoWidth ← n.propertyU32 "reg-io-width" .serial
  let clockFrequency ← n.propertyU32 "clock-frequency" .serial
  let c ← writeDeviceHeader serSeg serialDeviceBytes c
  let c ← writeNameString hidSeg (ascii "RSCV0003") c
  let c ← writeNameByte uidSeg 0 c
  let c ← writeCrsBufferHeader serialDescriptorBytes c
  let irq ← n.decodeInterrupts2 .serial
  let c ← writeQwordMemory port.base first.2 c
  let c ← writeExtendedInterrupt port.gsi irq.2 c
  let c ← writeEndTag c
  writeDsd clockFrequency regShift regIoWidth c

/-- Bytes of the serial port's device, if there is one. -/
def serialTotalBytes (root : DtbNode) : Outcome DtbError ℕ := do
  let serial ← findSerial root
  .ok (if serial.isSome then serialDeviceBytes else 0)

/-- Write the device of the serial port, if there is one. -/
def emitSerial (root : DtbNode) (c : Cursor) : Outcome DtbError Cursor := do
  let serial ← findSerial root
  match serial with
  | none => .ok c
  | some n => writeSerialDevice n c

/-- The device of a serial port is written. -/
theorem emits_writeSerialDevice (n : DtbNode) :
    Emits (writeSerialDevice n) (serialDevice n) := by
  refine Emits.after fun port _ => emits_firstReg fun first => Emits.after fun regShift _ =>
    Emits.after fun regIoWidth _ => Emits.after fun clockFrequency _ => ?_
  have hirq := Emits.after (x := n.decodeInterrupts2 .serial) (fun irq _ =>
    (emits_writeQwordMemory port.base first.2).seq
      ((emits_writeBytes (extendedInterrupt port.gsi irq.2)).seq ((emits_writeBytes endTag).seq
        (emits_writeDsd clockFrequency regShift regIoWidth))))
  have h := (emits_writeDeviceHeader serSeg serialDeviceBytes).seq
    ((emits_writeNameString hidSeg (ascii "RSCV0003")).seq ((emits_writeNameByte uidSeg 0).seq
      ((emits_writeCrsBufferHeader serialDescriptorBytes).seq hirq)))
  simp only [cat_bind,cat_cat_some] at h
  exact h

/-- Bytes of the serial port's device. -/
theorem length_serialDevice {n : DtbNode} {out : Bytes} (h : serialDevice n=some out) :
    out.length=serialDeviceBytes := by
  simp only [serialDevice,Option.bind_eq_bind,Option.bind_eq_some_iff] at h
  obtain ⟨port,_,first,_,regShift,_,regIoWidth,_,clockFrequency,_,irq,_,h⟩ := h
  exact length_serialAml h

/-- A serial port as both tables need it: registers of a supported width and an
interrupt. -/
structure PortReady (n : DtbNode) : Prop where
  /-- The `reg` has a pair. -/
  reg : ∃ p, firstReg n .serial=some p
  /-- The register width is supported. -/
  ioWidth : ∃ w, n.propertyU32 "reg-io-width" .serial=.ok w ∧ (w=1 ∨ w=2 ∨ w=4 ∨ w=8)
  /-- The interrupt is a pin and a sense. -/
  interrupt : ∃ irq, n.decodeInterrupts2 .serial=.ok irq

/-- What a serial port must satisfy for its device to be written. -/
structure SerialReady (n : DtbNode) : Prop where
  /-- The port can be read. -/
  port : PortReady n
  /-- The registers end in the address space. -/
  fits : ∃ p, firstReg n .serial=some p ∧ p.1+p.2<2^64
  /-- The register shift is a cell. -/
  regShift : ∃ v, n.propertyU32 "reg-shift" .serial=.ok v
  /-- The clock frequency is a cell. -/
  clockFrequency : ∃ v, n.propertyU32 "clock-frequency" .serial=.ok v

/-- What a serial port must satisfy for the console table to be written. -/
structure ConsoleReady (n : DtbNode) (stdoutBaud : Option ℕ) : Prop where
  /-- The port can be read. -/
  port : PortReady n
  /-- The baud rate has a code. -/
  baud : ∃ speed, n.propertyU32Opt "current-speed"=.ok speed ∧
    (stdoutBaud.or speed=none ∨ stdoutBaud.or speed=some 9600 ∨
      stdoutBaud.or speed=some 19200 ∨ stdoutBaud.or speed=some 57600 ∨
      stdoutBaud.or speed=some 115200)

/-- A serial port can be read exactly when it is ready, and then its base is the
one of its `reg`. -/
theorem decodeSerial_ok {n : DtbNode} {port : SerialPort} (h : decodeSerial n=.ok port) :
    PortReady n ∧ ∃ p, firstReg n .serial=some p ∧ port.base=p.1 := by
  obtain ⟨regs,hregs,h⟩ := bind_ok.mp h
  obtain ⟨first,hfirst,h⟩ := bind_ok.mp h
  obtain ⟨ioWidth,hwidth,h⟩ := bind_ok.mp h
  obtain ⟨access,haccess,h⟩ := bind_ok.mp h
  obtain ⟨irq,hirq,h⟩ := bind_ok.mp h
  have hreg := firstReg_some.mpr ⟨regs,hregs,okOr_ok.mp hfirst⟩
  cases h
  exact ⟨⟨⟨first,hreg⟩,⟨ioWidth,hwidth,accessSize_some.mp ⟨access,okOr_ok.mp haccess⟩⟩,irq,hirq⟩,
    first,hreg,rfl⟩

/-- A ready serial port can be read. -/
theorem PortReady.decodeSerial {n : DtbNode} (h : PortReady n) {p : ℕ×ℕ}
    (hp : firstReg n .serial=some p) : ∃ port, decodeSerial n=.ok port ∧ port.base=p.1 := by
  obtain ⟨regs,hregs,hfirst⟩ := firstReg_some.mp hp
  obtain ⟨w,hw,hsupported⟩ := h.ioWidth
  obtain ⟨access,haccess⟩ := accessSize_some.mpr hsupported
  obtain ⟨irq,hirq⟩ := h.interrupt
  refine ⟨⟨p.1,access,irq.1⟩,?_,rfl⟩
  unfold Serial.decodeSerial
  rw [hregs,hw,hirq]
  change (okOr regs.head? _ >>= fun first => okOr (accessSize w) _ >>= fun access =>
    Except.ok (SerialPort.mk first.1 access irq.1))=_
  rw [hfirst,haccess]
  rfl

/-- The device of a serial port can be written exactly when the port is ready. -/
theorem isSome_serialDevice {n : DtbNode} : (serialDevice n).isSome=true ↔ SerialReady n := by
  constructor
  · intro h
    obtain ⟨out,hout⟩ := Option.isSome_iff_exists.mp h
    simp only [serialDevice,Option.bind_eq_bind,Option.bind_eq_some_iff,value_eq_some] at hout
    obtain ⟨port,hport,first,hfirst,regShift,hshift,regIoWidth,_,clockFrequency,hclock,irq,_,
      hout⟩ := hout
    obtain ⟨hready,p,hp,hbase⟩ := decodeSerial_ok hport
    have hfit := isSome_serialAml.mp (Option.isSome_iff_exists.mpr ⟨out,hout⟩)
    rw [hfirst,Option.some.injEq] at hp
    rw [hbase,←hp] at hfit
    exact ⟨hready,⟨first,hfirst,hfit⟩,⟨regShift,hshift⟩,clockFrequency,hclock⟩
  · intro h
    obtain ⟨p,hp,hfit⟩ := h.fits
    obtain ⟨port,hport,hbase⟩ := h.port.decodeSerial hp
    obtain ⟨w,hw,_⟩ := h.port.ioWidth
    obtain ⟨irq,hirq⟩ := h.port.interrupt
    obtain ⟨shift,hshift⟩ := h.regShift
    obtain ⟨clock,hclock⟩ := h.clockFrequency
    unfold serialDevice
    rw [hport,hp,hshift,hw,hclock,hirq]
    exact isSome_serialAml.mpr (by rw [hbase]; exact hfit)

end Arma.Acpi.Serial
