import Mathlib.Tactic.Common
import Arma.Acpi.Dtb

/-!
# Bytecode of the namespace devices

Writers for the terms and resource descriptors of a device, each with the string
it writes. The only writers that can fail for another reason than a short slot
are those of a package length beyond 4095, of a long byte buffer and of a memory
window whose end leaves its width.
-/

namespace Arma.Acpi.Aml

open Base.ByteString Base.Checked Base.Writer Dtb

/-- A writer at a cursor. -/
abbrev Emitter : Type := Cursor → Outcome DtbError Cursor

/-- A name of four characters. -/
abbrev NameSeg : Type := {bs : Bytes // bs.length=4}

/-- Append `out`. -/
def writeBytes (out : Bytes) : Emitter := writeAt .internal out

/-- Appending emits the string. -/
theorem emits_writeBytes (out : Bytes) : Emits (writeBytes out) (some out) :=
  emits_writeAt DtbError.internal out

def nameOp : UInt8 := 0x08
def bytePrefix : UInt8 := 0x0A
def wordPrefix : UInt8 := 0x0B
def dwordPrefix : UInt8 := 0x0C
def stringPrefix : UInt8 := 0x0D
def bufferOp : UInt8 := 0x11
def packageOp : UInt8 := 0x12
def extOpPrefix : UInt8 := 0x5B
def deviceOp : UInt8 := 0x82
def tagDwordAddressSpace : UInt8 := 0x87
def tagWordAddressSpace : UInt8 := 0x88
def tagExtendedInterrupt : UInt8 := 0x89
def tagQwordAddressSpace : UInt8 := 0x8A
def tagEnd : UInt8 := 0x79
def resTypeMemory : UInt8 := 0
def resTypeBusNumber : UInt8 := 2
def genflagsFixedRange : UInt8 := 0x0C
def memflagsReadwrite : UInt8 := 0x01

/-- Bytes of a package length. -/
def pkgLengthBytes : ℕ := 2

/-- Bytes of a string of the given length. -/
def stringBytes (valueLen : ℕ) : ℕ := valueLen+2

/-- Bytes of a buffer of the given length. -/
def byteBufferBytes (valueLen : ℕ) : ℕ := valueLen+pkgLengthBytes+3

/-- Bytes of the resource descriptors. -/
def wordBusNumberBytes : ℕ := 16
def dwordMemoryBytes : ℕ := 26
def qwordMemoryBytes : ℕ := 46
def extendedInterruptBytes : ℕ := 9
def endTagBytes : ℕ := 2

/-- Bytes of the wrapper of the resource descriptors. -/
def crsWrapperBytes : ℕ := 1+4+1+pkgLengthBytes+3

/-- A package length in two bytes. -/
def pkgLength (v : ℕ) : Option Bytes :=
  if 0x0FFF<v then none
  else some [0x40 ||| UInt8.ofNat (v%16),UInt8.ofNat (v/16%256)]

/-- Write a package length in two bytes. -/
def writePkgLength (v : ℕ) (c : Cursor) : Outcome DtbError Cursor :=
  if 0x0FFF<v then fail .internal
  else writeBytes [0x40 ||| UInt8.ofNat (v%16),UInt8.ofNat (v/16%256)] c

/-- A package length is written unless it is too large. -/
theorem emits_writePkgLength (v : ℕ) : Emits (writePkgLength v) (pkgLength v) := by
  unfold pkgLength
  by_cases h : 0x0FFF<v
  · rw [if_pos h]
    have hfail : writePkgLength v=fun _ => fail DtbError.internal := by
      funext c
      exact if_pos h
    rw [hfail]
    exact emits_fail _
  · rw [if_neg h]
    have hwrite : writePkgLength v=
        writeBytes [0x40 ||| UInt8.ofNat (v%16),UInt8.ofNat (v/16%256)] := by
      funext c
      exact if_neg h
    rw [hwrite]
    exact emits_writeBytes _

/-- A package length that fits takes two bytes. -/
theorem length_pkgLength {v : ℕ} {out : Bytes} (h : pkgLength v=some out) : out.length=2 := by
  unfold pkgLength at h
  split at h
  · cases h
  · cases h
    rfl

/-- Whether a package length fits. -/
@[simp] theorem isSome_pkgLength {v : ℕ} : (pkgLength v).isSome=true ↔ v≤0x0FFF := by
  unfold pkgLength
  split
  · simp only [Option.isSome_none,Bool.false_eq_true,false_iff]
    omega
  · simp only [Option.isSome_some,true_iff]
    omega

/-- Write a name. -/
def writeNameSeg (name : NameSeg) : Emitter := writeBytes name.1

/-- The header of a device of `total` bytes; the package length leaves out the
operator. -/
def deviceHeader (name : NameSeg) (total : ℕ) : Option Bytes :=
  cat (some [extOpPrefix,deviceOp])
    ((subWord total 2).bind fun v => cat (pkgLength v) (some name.1))

/-- Write the header of a device of `total` bytes. -/
def writeDeviceHeader (name : NameSeg) (total : ℕ) (c : Cursor) : Outcome DtbError Cursor := do
  let c ← writeBytes [extOpPrefix,deviceOp] c
  let pkgValue ← okOr (subWord total 2) .internal
  let c ← writePkgLength pkgValue c
  writeNameSeg name c

/-- The header of a device is written. -/
theorem emits_writeDeviceHeader (name : NameSeg) (total : ℕ) :
    Emits (writeDeviceHeader name total) (deviceHeader name total) := by
  have hrest : Emits (fun c => okOr (subWord total 2) DtbError.internal >>= fun v =>
      writePkgLength v c >>= writeNameSeg name)
      ((subWord total 2).bind fun v => cat (pkgLength v) (some name.1)) := by
    have h := Emits.after (x := okOr (subWord total 2) DtbError.internal)
      (f := fun v c => writePkgLength v c >>= writeNameSeg name)
      (fun v _ => (emits_writePkgLength v).seq (emits_writeBytes name.1))
    rwa [value_okOr] at h
  exact (emits_writeBytes _).seq hrest

/-- The header of a device takes eight bytes. -/
theorem length_deviceHeader {name : NameSeg} {total : ℕ} {out : Bytes}
    (h : deviceHeader name total=some out) : out.length=8 := by
  obtain ⟨a,ha,b,hb,rfl⟩ := cat_eq_some.mp h
  obtain ⟨v,_,hb⟩ := Option.bind_eq_some_iff.mp hb
  obtain ⟨p,hp,s,hs,rfl⟩ := cat_eq_some.mp hb
  cases ha
  cases hs
  rw [List.length_append,List.length_append,length_pkgLength hp,name.2]
  rfl

/-- A device header can be written exactly when the package length fits. -/
@[simp] theorem isSome_deviceHeader {name : NameSeg} {total : ℕ} :
    (deviceHeader name total).isSome=true ↔ 2≤total ∧ total-2≤0x0FFF := by
  unfold deviceHeader
  rw [isSome_cat,Option.isSome_some,Bool.true_and]
  unfold subWord
  split
  · rename_i h
    rw [Option.bind_some,isSome_cat,Option.isSome_some,Bool.and_true,isSome_pkgLength]
    omega
  · rename_i h
    simp only [Option.bind_none,Option.isSome_none,Bool.false_eq_true,false_iff]
    omega

/-- The name of three characters and an index. -/
def nameSegIndexed (stem : {bs : Bytes // bs.length=3}) (index : ℕ) : NameSeg :=
  ⟨stem.1++[UInt8.ofNat (if index<10 then min (48+index) 255 else min (65+(index-10)) 255)],by
    rw [List.length_append,stem.2]
    rfl⟩

/-- A named byte. -/
def nameByte (name : NameSeg) (v : ℕ) : Bytes :=
  nameOp::(name.1++[bytePrefix,UInt8.ofNat v])

/-- Write a named byte. -/
def writeNameByte (name : NameSeg) (v : ℕ) (c : Cursor) : Outcome DtbError Cursor := do
  let c ← writeBytes [nameOp] c
  let c ← writeNameSeg name c
  writeBytes [bytePrefix,UInt8.ofNat v] c

/-- A named byte is written. -/
theorem emits_writeNameByte (name : NameSeg) (v : ℕ) :
    Emits (writeNameByte name v) (some (nameByte name v)) :=
  (emits_writeBytes _).seq ((emits_writeBytes _).seq (emits_writeBytes _))

/-- Bytes of a named byte. -/
@[simp] theorem length_nameByte (name : NameSeg) (v : ℕ) : (nameByte name v).length=7 := by
  rw [nameByte,List.length_cons,List.length_append,name.2]
  rfl

/-- A named double word. -/
def nameDword (name : NameSeg) (v : ℕ) : Bytes :=
  nameOp::(name.1++(dwordPrefix::leBytes 4 v))

/-- Write a named double word. -/
def writeNameDword (name : NameSeg) (v : ℕ) (c : Cursor) : Outcome DtbError Cursor := do
  let c ← writeBytes [nameOp] c
  let c ← writeNameSeg name c
  let c ← writeBytes [dwordPrefix] c
  writeBytes (leBytes 4 v) c

/-- A named double word is written. -/
theorem emits_writeNameDword (name : NameSeg) (v : ℕ) :
    Emits (writeNameDword name v) (some (nameDword name v)) :=
  (emits_writeBytes _).seq
    ((emits_writeBytes _).seq ((emits_writeBytes _).seq (emits_writeBytes _)))

/-- Bytes of a named double word. -/
@[simp] theorem length_nameDword (name : NameSeg) (v : ℕ) : (nameDword name v).length=10 := by
  rw [nameDword,List.length_cons,List.length_append,name.2,List.length_cons,length_leBytes]

/-- A string, terminated. -/
def string (v : Bytes) : Bytes := stringPrefix::(v++[0])

/-- Write a terminated string. -/
def writeString (v : Bytes) (c : Cursor) : Outcome DtbError Cursor := do
  let c ← writeBytes [stringPrefix] c
  let c ← writeBytes v c
  writeBytes [0] c

/-- A string is written. -/
theorem emits_writeString (v : Bytes) : Emits (writeString v) (some (string v)) :=
  (emits_writeBytes _).seq ((emits_writeBytes _).seq (emits_writeBytes _))

/-- Bytes of a string. -/
@[simp] theorem length_string (v : Bytes) : (string v).length=stringBytes v.length := by
  rw [string,List.length_cons,List.length_append]
  rfl

/-- A named string. -/
def nameString (name : NameSeg) (v : Bytes) : Bytes := nameOp::(name.1++string v)

/-- Write a named string. -/
def writeNameString (name : NameSeg) (v : Bytes) (c : Cursor) : Outcome DtbError Cursor := do
  let c ← writeBytes [nameOp] c
  let c ← writeNameSeg name c
  writeString v c

/-- A named string is written. -/
theorem emits_writeNameString (name : NameSeg) (v : Bytes) :
    Emits (writeNameString name v) (some (nameString name v)) :=
  (emits_writeBytes _).seq ((emits_writeBytes _).seq (emits_writeString _))

/-- Bytes of a named string. -/
@[simp] theorem length_nameString (name : NameSeg) (v : Bytes) :
    (nameString name v).length=5+stringBytes v.length := by
  rw [nameString,List.length_cons,List.length_append,name.2,length_string]
  omega

/-- A buffer of at most 255 bytes. -/
def byteBuffer (bs : Bytes) : Option Bytes :=
  (narrow 8 bs.length).bind fun len =>
    cat (some [bufferOp]) (cat (pkgLength (pkgLengthBytes+2+bs.length))
      (some (bytePrefix::UInt8.ofNat len::bs)))

/-- Write a buffer of at most 255 bytes. -/
def writeByteBuffer (bs : Bytes) (c : Cursor) : Outcome DtbError Cursor := do
  let len ← okOr (narrow 8 bs.length) .internal
  let c ← writeBytes [bufferOp] c
  let c ← writePkgLength (pkgLengthBytes+2+bs.length) c
  let c ← writeBytes [bytePrefix,UInt8.ofNat len] c
  writeBytes bs c

/-- A buffer is written. -/
theorem emits_writeByteBuffer (bs : Bytes) : Emits (writeByteBuffer bs) (byteBuffer bs) := by
  have h := Emits.after (x := okOr (narrow 8 bs.length) DtbError.internal)
    (f := fun len c => writeBytes [bufferOp] c >>= fun c =>
      writePkgLength (pkgLengthBytes+2+bs.length) c >>= fun c =>
        writeBytes [bytePrefix,UInt8.ofNat len] c >>= writeBytes bs)
    (fun len _ => (emits_writeBytes _).seq ((emits_writePkgLength _).seq
      ((emits_writeBytes _).seq (emits_writeBytes _))))
  rwa [value_okOr] at h

/-- The compressed form of an identifier such as `PNP0A08`. -/
def eisaid (id : Bytes) : ℕ :=
  let letter : ℕ → ℕ := fun i => (id.getD i 0).toNat-64
  let hexDigit : ℕ → ℕ := fun i =>
    let c := (id.getD i 0).toNat
    if 48 ≤ c ∧ c≤57 then c-48 else if 65 ≤ c ∧ c≤70 then c-65+10 else 0
  let b0 := letter 0*4+letter 1/8
  let b1 := letter 1%8*32+letter 2
  let b2 := hexDigit 3*16+hexDigit 4
  let b3 := hexDigit 5*16+hexDigit 6
  b0+b1*2^8+b2*2^16+b3*2^24

example : eisaid (ascii "PNP0A03")=0x030AD041 := by decide

/-- A fixed range of bus numbers. -/
def wordBusNumber (busMin busMax : ℕ) : Bytes :=
  [tagWordAddressSpace,0x0D,0x00,resTypeBusNumber,genflagsFixedRange,0]++(leBytes 2 0++
    (leBytes 2 busMin++(leBytes 2 busMax++(leBytes 2 0++
      leBytes 2 (min (busMax-busMin+1) 255)))))

/-- Write a range of bus numbers. -/
def writeWordBusNumber (busMin busMax : ℕ) : Emitter := writeBytes (wordBusNumber busMin busMax)

/-- Bytes of a range of bus numbers. -/
@[simp] theorem length_wordBusNumber (busMin busMax : ℕ) :
    (wordBusNumber busMin busMax).length=wordBusNumberBytes := rfl

/-- A window of 32-bit memory whose last address is `last`. -/
def dwordMemoryTo (base last size : ℕ) : Bytes :=
  [tagDwordAddressSpace,0x17,0x00,resTypeMemory,genflagsFixedRange,memflagsReadwrite]++
    (leBytes 4 0++(leBytes 4 base++(leBytes 4 last++(leBytes 4 0++leBytes 4 size))))

/-- A window of 32-bit memory. -/
def dwordMemory (base size : ℕ) : Option Bytes :=
  (addWord 32 base size).map fun stop => dwordMemoryTo base (stop-1) size

/-- Write a window of 32-bit memory. -/
def writeDwordMemory (base size : ℕ) (c : Cursor) : Outcome DtbError Cursor := do
  let stop ← okOr (addWord 32 base size) .internal
  writeBytes (dwordMemoryTo base (stop-1) size) c

/-- A window of 64-bit memory whose last address is `last`. -/
def qwordMemoryTo (base last size : ℕ) : Bytes :=
  [tagQwordAddressSpace,0x2B,0x00,resTypeMemory,genflagsFixedRange,memflagsReadwrite]++
    (leBytes 8 0++(leBytes 8 base++(leBytes 8 last++(leBytes 8 0++leBytes 8 size))))

/-- A window of 64-bit memory. -/
def qwordMemory (base size : ℕ) : Option Bytes :=
  (addWord 64 base size).map fun stop => qwordMemoryTo base (stop-1) size

/-- Write a window of 64-bit memory. -/
def writeQwordMemory (base size : ℕ) (c : Cursor) : Outcome DtbError Cursor := do
  let stop ← okOr (addWord 64 base size) .internal
  writeBytes (qwordMemoryTo base (stop-1) size) c

/-- A string behind an optional value is written when the value is there. -/
theorem emits_okOr_map {o : Option ℕ} {e : DtbError} {out : ℕ → Bytes} :
    Emits (fun c => okOr o e >>= fun v => writeBytes (out v) c) (o.map out) := by
  have h := Emits.after (x := okOr o e) (f := fun v c => writeBytes (out v) c)
    (r := fun v => some (out v)) (fun v _ => emits_writeBytes _)
  rw [value_okOr] at h
  cases o <;> exact h

/-- A 32-bit window is written unless its end overflows. -/
theorem emits_writeDwordMemory (base size : ℕ) :
    Emits (writeDwordMemory base size) (dwordMemory base size) := emits_okOr_map

/-- A 64-bit window is written unless its end overflows. -/
theorem emits_writeQwordMemory (base size : ℕ) :
    Emits (writeQwordMemory base size) (qwordMemory base size) := emits_okOr_map

/-- Whether a sum of words fits. -/
theorem isSome_addWord {w a b : ℕ} : (addWord w a b).isSome=true ↔ a+b<2^w := by
  unfold addWord
  split <;> simp_all

/-- Whether a 32-bit window can be written. -/
@[simp] theorem isSome_dwordMemory {base size : ℕ} :
    (dwordMemory base size).isSome=true ↔ base+size<2^32 := by
  rw [dwordMemory,Option.isSome_map,isSome_addWord]

/-- Whether a 64-bit window can be written. -/
@[simp] theorem isSome_qwordMemory {base size : ℕ} :
    (qwordMemory base size).isSome=true ↔ base+size<2^64 := by
  rw [qwordMemory,Option.isSome_map,isSome_addWord]

/-- Bytes of a 32-bit window. -/
theorem length_dwordMemory {base size : ℕ} {out : Bytes} (h : dwordMemory base size=some out) :
    out.length=dwordMemoryBytes := by
  obtain ⟨stop,_,rfl⟩ := Option.map_eq_some_iff.mp h
  rfl

/-- Bytes of a 64-bit window. -/
theorem length_qwordMemory {base size : ℕ} {out : Bytes} (h : qwordMemory base size=some out) :
    out.length=qwordMemoryBytes := by
  obtain ⟨stop,_,rfl⟩ := Option.map_eq_some_iff.mp h
  rfl

/-- Trigger and polarity of an interrupt sense. -/
def triggerPolarity : ℕ → UInt8
  | 2 => 6
  | 4 => 0
  | 8 => 4
  | _ => 2

/-- One interrupt. -/
def extendedInterrupt (gsi sense : ℕ) : Bytes :=
  [tagExtendedInterrupt,0x06,0x00,1 ||| triggerPolarity sense,1]++leBytes 4 gsi

/-- Write one interrupt. -/
def writeExtendedInterrupt (gsi sense : ℕ) : Emitter := writeBytes (extendedInterrupt gsi sense)

/-- Bytes of an interrupt. -/
@[simp] theorem length_extendedInterrupt (gsi sense : ℕ) :
    (extendedInterrupt gsi sense).length=extendedInterruptBytes := rfl

/-- The end of the descriptors. -/
def endTag : Bytes := [tagEnd,0]

/-- Write the end of the descriptors. -/
def writeEndTag : Emitter := writeBytes endTag

/-- The name of the hardware id. -/
def hidSeg : NameSeg := ⟨ascii "_HID",rfl⟩

/-- The name of the unique id. -/
def uidSeg : NameSeg := ⟨ascii "_UID",rfl⟩

/-- The name of the resources. -/
def crsSeg : NameSeg := ⟨ascii "_CRS",rfl⟩

/-- The wrapper in front of resource descriptors of the given length. -/
def crsBufferHeader (descriptorBytes : ℕ) : Option Bytes :=
  (narrow 16 descriptorBytes).bind fun bufferSize =>
    (addWord 64 (pkgLengthBytes+3) descriptorBytes).bind fun bufPkgValue =>
      cat (some (nameOp::(crsSeg.1++[bufferOp]))) (cat (pkgLength bufPkgValue)
        (some (wordPrefix::leBytes 2 bufferSize)))

/-- Write the wrapper in front of resource descriptors. -/
def writeCrsBufferHeader (descriptorBytes : ℕ) (c : Cursor) : Outcome DtbError Cursor := do
  let bufferSize ← okOr (narrow 16 descriptorBytes) .internal
  let bufPkgValue ← okOr (addWord 64 (pkgLengthBytes+3) descriptorBytes) .internal
  let c ← writeBytes [nameOp] c
  let c ← writeNameSeg crsSeg c
  let c ← writeBytes [bufferOp] c
  let c ← writePkgLength bufPkgValue c
  let c ← writeBytes [wordPrefix] c
  writeBytes (leBytes 2 bufferSize) c

/-- The wrapper is written. -/
theorem emits_writeCrsBufferHeader (descriptorBytes : ℕ) :
    Emits (writeCrsBufferHeader descriptorBytes) (crsBufferHeader descriptorBytes) := by
  have hwrite : ∀ bufferSize bufPkgValue : ℕ,
      Emits (fun c => writeBytes [nameOp] c >>= fun c => writeNameSeg crsSeg c >>= fun c =>
        writeBytes [bufferOp] c >>= fun c => writePkgLength bufPkgValue c >>= fun c =>
          writeBytes [wordPrefix] c >>= writeBytes (leBytes 2 bufferSize))
        (cat (some (nameOp::(crsSeg.1++[bufferOp]))) (cat (pkgLength bufPkgValue)
          (some (wordPrefix::leBytes 2 bufferSize)))) := by
    intro bufferSize bufPkgValue
    have h := (emits_writeBytes [nameOp]).seq ((emits_writeBytes crsSeg.1).seq
      ((emits_writeBytes [bufferOp]).seq ((emits_writePkgLength bufPkgValue).seq
        ((emits_writeBytes [wordPrefix]).seq (emits_writeBytes (leBytes 2 bufferSize))))))
    rw [←cat_assoc,←cat_assoc] at h
    exact h
  have h := Emits.after (x := okOr (narrow 16 descriptorBytes) DtbError.internal)
    (fun bufferSize _ => Emits.after
      (x := okOr (addWord 64 (pkgLengthBytes+3) descriptorBytes) DtbError.internal)
      (fun bufPkgValue _ => hwrite bufferSize bufPkgValue))
  simp only [value_okOr] at h
  exact h

/-- What a wrapper that can be written consists of. -/
theorem crsBufferHeader_eq_some {descriptorBytes : ℕ} {out : Bytes}
    (h : crsBufferHeader descriptorBytes=some out) :
    ∃ pkg, descriptorBytes<2^16 ∧ pkgLength (pkgLengthBytes+3+descriptorBytes)=some pkg ∧
      out=(nameOp::(crsSeg.1++[bufferOp]))++(pkg++(wordPrefix::leBytes 2 descriptorBytes)) := by
  obtain ⟨bufferSize,hsize,h⟩ := Option.bind_eq_some_iff.mp h
  obtain ⟨bufPkgValue,hvalue,h⟩ := Option.bind_eq_some_iff.mp h
  obtain ⟨front,hfront,_,hrest,rfl⟩ := cat_eq_some.mp h
  obtain ⟨pkg,hpkg,tail,htail,rfl⟩ := cat_eq_some.mp hrest
  obtain ⟨rfl,hlt⟩ := narrow_eq_some.mp hsize
  obtain ⟨rfl,-⟩ := addWord_some.mp hvalue
  cases hfront
  cases htail
  exact ⟨pkg,hlt,hpkg,rfl⟩

/-- Bytes of the wrapper. -/
theorem length_crsBufferHeader {descriptorBytes : ℕ} {out : Bytes}
    (h : crsBufferHeader descriptorBytes=some out) : out.length=crsWrapperBytes := by
  obtain ⟨pkg,-,hpkg,rfl⟩ := crsBufferHeader_eq_some h
  rw [List.length_append,List.length_append,length_pkgLength hpkg]
  rfl

/-- What a device whose first resource is memory consists of. -/
theorem memoryDevice_eq_some {name : NameSeg} {total n base size : ℕ} {names out : Bytes}
    {tail : Option Bytes} (h : cat (deviceHeader name total) (cat (some names)
      (cat (crsBufferHeader n) (cat (qwordMemory base size) tail)))=some out) :
    ∃ header crs memory rest, deviceHeader name total=some header ∧
      crsBufferHeader n=some crs ∧ qwordMemory base size=some memory ∧ tail=some rest ∧
        out=header++(names++(crs++(memory++rest))) := by
  obtain ⟨header,hheader,_,hbody,rfl⟩ := cat_eq_some.mp h
  obtain ⟨_,hnames,_,hresources,rfl⟩ := cat_eq_some.mp hbody
  obtain ⟨crs,hcrs,_,hdescriptors,rfl⟩ := cat_eq_some.mp hresources
  obtain ⟨memory,hmemory,rest,hrest,rfl⟩ := cat_eq_some.mp hdescriptors
  cases hnames
  exact ⟨header,crs,memory,rest,hheader,hcrs,hmemory,hrest,rfl⟩

/-- Whether the wrapper can be written. -/
@[simp] theorem isSome_crsBufferHeader {descriptorBytes : ℕ} :
    (crsBufferHeader descriptorBytes).isSome=true ↔ descriptorBytes+5≤0x0FFF := by
  unfold crsBufferHeader narrow addWord pkgLengthBytes
  by_cases h : descriptorBytes<2^16
  · rw [if_pos h,Option.bind_some,if_pos (by omega),Option.bind_some,isSome_cat,isSome_cat,
      Option.isSome_some,Option.isSome_some,Bool.true_and,Bool.and_true,isSome_pkgLength]
    omega
  · rw [if_neg h]
    simp only [Option.bind_none,Option.isSome_none,Bool.false_eq_true,false_iff]
    omega

/-- Reading the first pair of a `reg` succeeds exactly when there is one. -/
theorem emits_firstReg {n : DtbNode} {site : Site} {e : DtbError} {f : ℕ×ℕ → Emitter}
    {r : ℕ×ℕ → Option Bytes} (h : ∀ p, Emits (f p) (r p)) :
    Emits (fun c => n.reg site >>= fun regs => okOr regs.head? e >>= fun p => f p c)
      ((firstReg n site).bind r) := by
  have hafter := Emits.after (x := n.reg site) (fun regs _ =>
    Emits.after (x := okOr regs.head? e) (fun p _ => h p))
  simp only [value_okOr] at hafter
  rw [firstReg,Option.bind_assoc]
  exact hafter

end Arma.Acpi.Aml
