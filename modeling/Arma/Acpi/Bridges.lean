import Mathlib.Tactic.Common
import Arma.Acpi.Numbered

/-!
# Host bridges

Every host bridge gets a device that reserves its configuration space and one
that describes its windows. Each device comes with its size, the string it
consists of and the condition under which it can be written.
-/

namespace Arma.Acpi.Bridges

open Base.ByteString Base.Checked Base.Writer Devtree Dtb Aml Numbered

/-- Compatible string of a host bridge. -/
def pciHostCompatible : String := "pci-host-ecam-generic"

def cidSeg : NameSeg := ⟨ascii "_CID",rfl⟩
def segSeg : NameSeg := ⟨ascii "_SEG",rfl⟩
def bbnSeg : NameSeg := ⟨ascii "_BBN",rfl⟩

/-- Bytes of the device that reserves configuration space. -/
def motherboardAmlBytes : ℕ :=
  (1+4+1+4)+(1+4+1+1)+(crsWrapperBytes+(qwordMemoryBytes+endTagBytes))+pkgLengthBytes+6

/-- Name of the device that reserves configuration space. -/
def mbrSeg (index : ℕ) : NameSeg := nameSegIndexed ⟨ascii "MBR",rfl⟩ index

/-- The device that reserves configuration space. -/
def motherboardAml (index base size : ℕ) : Option Bytes :=
  cat (deviceHeader (mbrSeg index) motherboardAmlBytes)
    (cat (some (nameDword hidSeg (eisaid (ascii "PNP0C02"))++nameByte uidSeg index))
      (cat (crsBufferHeader (qwordMemoryBytes+endTagBytes))
        (cat (qwordMemory base size) (some endTag))))

/-- Write the device that reserves configuration space. -/
def writeMotherboard (index base size : ℕ) (c : Cursor) : Outcome DtbError Cursor := do
  let c ← writeDeviceHeader (mbrSeg index) motherboardAmlBytes c
  let c ← writeNameDword hidSeg (eisaid (ascii "PNP0C02")) c
  let c ← writeNameByte uidSeg index c
  let c ← writeCrsBufferHeader (qwordMemoryBytes+endTagBytes) c
  let c ← writeQwordMemory base size c
  writeEndTag c

/-- The device is written. -/
theorem emits_writeMotherboard (index base size : ℕ) :
    Emits (writeMotherboard index base size) (motherboardAml index base size) := by
  have h := (emits_writeDeviceHeader (mbrSeg index) motherboardAmlBytes).seq
    ((emits_writeNameDword hidSeg (eisaid (ascii "PNP0C02"))).seq
      ((emits_writeNameByte uidSeg index).seq
        ((emits_writeCrsBufferHeader (qwordMemoryBytes+endTagBytes)).seq
          ((emits_writeQwordMemory base size).seq (emits_writeBytes endTag)))))
  rw [cat_cat_some] at h
  exact h

/-- Bytes of the device. -/
theorem length_motherboardAml {index base size : ℕ} {out : Bytes}
    (h : motherboardAml index base size=some out) : out.length=motherboardAmlBytes := by
  obtain ⟨header,crs,memory,rest,hheader,hcrs,hmemory,hrest,rfl⟩ := memoryDevice_eq_some h
  cases hrest
  simp only [List.length_append,length_deviceHeader hheader,length_nameDword,length_nameByte,
    length_crsBufferHeader hcrs,length_qwordMemory hmemory]
  rfl

/-- The device can be written exactly when the end of the space is a word. -/
theorem isSome_motherboardAml {index base size : ℕ} :
    (motherboardAml index base size).isSome=true ↔ base+size<2^64 := by
  have hheader : (deviceHeader (mbrSeg index) motherboardAmlBytes).isSome=true :=
    isSome_deviceHeader.mpr (by decide)
  have hcrs : (crsBufferHeader (qwordMemoryBytes+endTagBytes)).isSome=true :=
    isSome_crsBufferHeader.mpr (by decide)
  simp only [motherboardAml,isSome_cat,Bool.and_eq_true,hheader,hcrs,Option.isSome_some,true_and,
    and_true,isSome_qwordMemory]

/-- The device that reserves a bridge's configuration space. -/
def motherboardDevice (child : DtbNode) (index : ℕ) : Option Bytes :=
  (firstReg child .pciHost).bind fun p => motherboardAml index p.1 p.2

/-- Write the device that reserves a bridge's configuration space. -/
def writeMotherboardDevice (child : DtbNode) (index : ℕ) (c : Cursor) :
    Outcome DtbError Cursor := do
  let regs ← child.reg .pciHost
  let first ← okOr regs.head? .internal
  writeMotherboard index first.1 first.2 c

/-- The device of a bridge is written. -/
theorem emits_writeMotherboardDevice (child : DtbNode) (index : ℕ) :
    Emits (writeMotherboardDevice child index) (motherboardDevice child index) :=
  emits_firstReg fun p => emits_writeMotherboard index p.1 p.2

/-- Bytes of the device of a bridge. -/
theorem length_motherboardDevice {child : DtbNode} {index : ℕ} {out : Bytes}
    (h : motherboardDevice child index=some out) : out.length=motherboardAmlBytes := by
  obtain ⟨p,_,h⟩ := Option.bind_eq_some_iff.mp h
  exact length_motherboardAml h

/-- Whether the device that reserves configuration space can be written. -/
theorem isSome_motherboardDevice {child : DtbNode} {index : ℕ} :
    (motherboardDevice child index).isSome=true ↔
      ∃ p, firstReg child .pciHost=some p ∧ p.1+p.2<2^64 := by
  rw [motherboardDevice]
  cases hp : firstReg child .pciHost with
  | none => simp
  | some p =>
    rw [Option.bind_some,isSome_motherboardAml]
    simp

/-- The windows of 32- and 64-bit memory. -/
structure MemWindows where
  /-- Number of 32-bit windows. -/
  mem32 : ℕ
  /-- Number of 64-bit windows. -/
  mem64 : ℕ
deriving DecidableEq, Repr

/-- Bytes of a host bridge with the given windows. -/
def hostBridgeAmlBytes (w : MemWindows) : ℕ :=
  let descriptors := saturatingAdd 64 (saturatingAdd 64 (saturatingAdd 64 wordBusNumberBytes
    (saturatingMul 64 dwordMemoryBytes w.mem32)) (saturatingMul 64 qwordMemoryBytes w.mem64))
    endTagBytes
  let crs := saturatingAdd 64 crsWrapperBytes descriptors
  let body := saturatingAdd 64 ((1+4+1+4)*2+(1+4+1+1)*3) crs
  saturatingAdd 64 (saturatingAdd 64 body pkgLengthBytes) 6

example : hostBridgeAmlBytes ⟨1,0⟩=104 := by decide

/-- Count the windows of each kind. -/
def countRanges : List PciRange → MemWindows → Outcome DtbError MemWindows
  | [],w => .ok w
  | r::rest,w =>
    if r.spaceCode=2 then do
      let n ← okOr (addWord 64 w.mem32 1) .internal
      countRanges rest {w with mem32 := n}
    else if r.spaceCode=3 then do
      let n ← okOr (addWord 64 w.mem64 1) .internal
      countRanges rest {w with mem64 := n}
    else countRanges rest w

/-- Count the windows of a bridge. -/
def countWindows (n : DtbNode) : Outcome DtbError MemWindows := do
  let ranges ← n.pciRanges
  match ranges with
  | none => .ok ⟨0,0⟩
  | some ranges => countRanges ranges ⟨0,0⟩

/-- Bytes of the resource descriptors of a bridge. -/
def descriptorsBytes (w : MemWindows) : Option ℕ := do
  let d ← mulWord 64 dwordMemoryBytes w.mem32
  let v ← addWord 64 wordBusNumberBytes d
  let q ← mulWord 64 qwordMemoryBytes w.mem64
  let v ← addWord 64 v q
  addWord 64 v endTagBytes

/-- The descriptor of a window; windows of other kinds have none. -/
def windowAml (r : PciRange) : Option Bytes :=
  if r.spaceCode=2 then
    (narrow 32 r.parentAddr).bind fun base => (narrow 32 r.size).bind fun size =>
      dwordMemory base size
  else if r.spaceCode=3 then qwordMemory r.parentAddr r.size
  else some []

/-- Write the descriptor of a window. -/
def writeWindow (r : PciRange) (c : Cursor) : Outcome DtbError Cursor :=
  if r.spaceCode=2 then do
    let base ← okOr (narrow 32 r.parentAddr) .internal
    let size ← okOr (narrow 32 r.size) .internal
    writeDwordMemory base size c
  else if r.spaceCode=3 then writeQwordMemory r.parentAddr r.size c
  else .ok c

/-- Write the descriptors of all windows. -/
def writeWindows : List PciRange → Emitter
  | [],c => .ok c
  | r::rest,c => do
    let c ← writeWindow r c
    writeWindows rest c

/-- Write the descriptors of all windows of a bridge. -/
def writeRanges (n : DtbNode) (c : Cursor) : Outcome DtbError Cursor := do
  let ranges ← n.pciRanges
  match ranges with
  | none => .ok c
  | some ranges => writeWindows ranges c

/-- The descriptors of all windows of a bridge. -/
def rangesAml (n : DtbNode) : Option Bytes :=
  (value n.pciRanges).bind fun ranges => catAll ((ranges.getD []).map windowAml)

/-- Name of a host bridge. -/
def pciSeg (segment : ℕ) : NameSeg := nameSegIndexed ⟨ascii "PCI",rfl⟩ segment

/-- The names of a host bridge. -/
def hostBridgeNames (segment busStart : ℕ) : Bytes :=
  nameDword hidSeg (eisaid (ascii "PNP0A08"))++(nameDword cidSeg (eisaid (ascii "PNP0A03"))++
    (nameByte segSeg segment++(nameByte uidSeg segment++nameByte bbnSeg busStart)))

/-- The device of a host bridge. -/
def pciDevice (child : DtbNode) (segment : ℕ) : Option Bytes :=
  (value child.decodePciBusRange).bind fun bus => (value (countWindows child)).bind fun w =>
    cat (deviceHeader (pciSeg segment) (hostBridgeAmlBytes w))
      (cat (some (hostBridgeNames segment bus.1)) ((descriptorsBytes w).bind fun n =>
        cat (crsBufferHeader n) (cat (some (wordBusNumber bus.1 bus.2))
          (cat (rangesAml child) (some endTag)))))

/-- Write the device of a host bridge. -/
def writePciDevice (child : DtbNode) (segment : ℕ) (c : Cursor) : Outcome DtbError Cursor := do
  let bus ← child.decodePciBusRange
  let w ← countWindows child
  let c ← writeDeviceHeader (pciSeg segment) (hostBridgeAmlBytes w) c
  let c ← writeNameDword hidSeg (eisaid (ascii "PNP0A08")) c
  let c ← writeNameDword cidSeg (eisaid (ascii "PNP0A03")) c
  let c ← writeNameByte segSeg segment c
  let c ← writeNameByte uidSeg segment c
  let c ← writeNameByte bbnSeg bus.1 c
  let n ← okOr (descriptorsBytes w) .internal
  let c ← writeCrsBufferHeader n c
  let c ← writeWordBusNumber bus.1 bus.2 c
  let c ← writeRanges child c
  writeEndTag c

/-- The descriptor of a window is written. -/
theorem emits_writeWindow (r : PciRange) : Emits (writeWindow r) (windowAml r) := by
  unfold writeWindow windowAml
  by_cases h2 : r.spaceCode=2
  · simp only [if_pos h2]
    have h := Emits.after (x := okOr (narrow 32 r.parentAddr) DtbError.internal) (fun base _ =>
      Emits.after (x := okOr (narrow 32 r.size) DtbError.internal)
        (fun size _ => emits_writeDwordMemory base size))
    simp only [value_okOr] at h
    exact h
  · simp only [if_neg h2]
    by_cases h3 : r.spaceCode=3
    · simp only [if_pos h3]
      exact emits_writeQwordMemory _ _
    · simp only [if_neg h3]
      exact emits_nil

/-- The descriptors of all windows are written. -/
theorem emits_writeWindows (ranges : List PciRange) :
    Emits (writeWindows ranges) (catAll (ranges.map windowAml)) := by
  induction ranges with
  | nil => exact emits_nil
  | cons r rest ih => exact (emits_writeWindow r).seq ih

/-- The descriptors of all windows of a bridge are written. -/
theorem emits_writeRanges (n : DtbNode) : Emits (writeRanges n) (rangesAml n) :=
  Emits.after fun ranges _ => by
    cases ranges with
    | none => exact emits_nil
    | some ranges => exact emits_writeWindows ranges

/-- The device of a host bridge is written. -/
theorem emits_writePciDevice (child : DtbNode) (segment : ℕ) :
    Emits (writePciDevice child segment) (pciDevice child segment) := by
  refine Emits.after fun bus _ => Emits.after fun w _ => ?_
  have hrest := Emits.after (x := okOr (descriptorsBytes w) DtbError.internal) (fun n _ =>
    (emits_writeCrsBufferHeader n).seq ((emits_writeBytes (wordBusNumber bus.1 bus.2)).seq
      ((emits_writeRanges child).seq (emits_writeBytes endTag))))
  rw [value_okOr] at hrest
  have h := (emits_writeDeviceHeader (pciSeg segment) (hostBridgeAmlBytes w)).seq
    ((emits_writeNameDword hidSeg (eisaid (ascii "PNP0A08"))).seq
      ((emits_writeNameDword cidSeg (eisaid (ascii "PNP0A03"))).seq
        ((emits_writeNameByte segSeg segment).seq ((emits_writeNameByte uidSeg segment).seq
          ((emits_writeNameByte bbnSeg bus.1).seq hrest)))))
  simp only [cat_cat_some] at h
  exact h

/-- The windows of a bridge; none without a `ranges`. -/
def ranges (n : DtbNode) : List PciRange := ((value n.pciRanges).bind id).getD []

/-- The window is one of 32-bit memory. -/
def PciRange.isMem32 (r : PciRange) : Bool := decide (r.spaceCode=2)

/-- The window is one of 64-bit memory. -/
def PciRange.isMem64 (r : PciRange) : Bool := decide (r.spaceCode=3)

/-- Bytes of the descriptor of a window. -/
def windowBytes (r : PciRange) : ℕ :=
  if r.spaceCode=2 then dwordMemoryBytes else if r.spaceCode=3 then qwordMemoryBytes else 0

/-- The end of a window fits its kind. -/
structure PciRange.Fits (r : PciRange) : Prop where
  /-- A 32-bit window ends below 4 GiB. -/
  mem32 : r.spaceCode=2 → r.parentAddr+r.size<2^32
  /-- A 64-bit window ends in the address space. -/
  mem64 : r.spaceCode=3 → r.parentAddr+r.size<2^64

/-- Counting yields the number of windows of each kind. -/
theorem countRanges_ok {rs : List PciRange} {w w' : MemWindows} (h : countRanges rs w=.ok w') :
    w'.mem32=w.mem32+rs.countP PciRange.isMem32 ∧
      w'.mem64=w.mem64+rs.countP PciRange.isMem64 := by
  induction rs generalizing w with
  | nil =>
    cases h
    exact ⟨rfl,rfl⟩
  | cons r rest ih =>
    unfold countRanges at h
    rw [List.countP_cons,List.countP_cons,PciRange.isMem32,PciRange.isMem64]
    simp only [decide_eq_true_eq]
    by_cases h2 : r.spaceCode=2
    · rw [if_pos h2] at h
      obtain ⟨n,hn,h⟩ := bind_ok.mp h
      rw [okOr_ok,addWord_some] at hn
      obtain ⟨h32,h64⟩ := ih h
      rw [if_pos h2,if_neg (by omega)]
      dsimp only at h32 h64
      omega
    · rw [if_neg h2] at h
      rw [if_neg h2]
      by_cases h3 : r.spaceCode=3
      · rw [if_pos h3] at h
        obtain ⟨n,hn,h⟩ := bind_ok.mp h
        rw [okOr_ok,addWord_some] at hn
        obtain ⟨h32,h64⟩ := ih h
        rw [if_pos h3]
        dsimp only at h32 h64
        omega
      · rw [if_neg h3] at h
        rw [if_neg h3]
        exact ih h

/-- Counting the windows of a bridge yields the number of each kind. -/
theorem countWindows_ok {n : DtbNode} {w : MemWindows} (h : countWindows n=.ok w) :
    (∃ r, n.pciRanges=.ok r) ∧ w.mem32=(ranges n).countP PciRange.isMem32 ∧
      w.mem64=(ranges n).countP PciRange.isMem64 := by
  obtain ⟨r,hr,h⟩ := bind_ok.mp h
  refine ⟨⟨r,hr⟩,?_⟩
  rw [ranges,hr,value_ok,Option.bind_some]
  cases r with
  | none =>
    cases h
    exact ⟨rfl,rfl⟩
  | some rs =>
    have hcount := countRanges_ok h
    simpa using hcount

/-- Bytes of a window's descriptor. -/
theorem length_windowAml {r : PciRange} {out : Bytes} (h : windowAml r=some out) :
    out.length=windowBytes r := by
  unfold windowAml at h
  unfold windowBytes
  split at h
  · rename_i h2
    obtain ⟨base,_,h⟩ := Option.bind_eq_some_iff.mp h
    obtain ⟨size,_,h⟩ := Option.bind_eq_some_iff.mp h
    rw [if_pos h2,length_dwordMemory h]
  · rename_i h2
    rw [if_neg h2]
    split at h
    · rename_i h3
      rw [if_pos h3,length_qwordMemory h]
    · rename_i h3
      cases h
      rw [if_neg h3]
      rfl

/-- A window's descriptor can be written exactly when its end fits. -/
theorem isSome_windowAml {r : PciRange} : (windowAml r).isSome=true ↔ PciRange.Fits r := by
  unfold windowAml
  by_cases h2 : r.spaceCode=2
  · rw [if_pos h2]
    constructor
    · intro h
      obtain ⟨out,hout⟩ := Option.isSome_iff_exists.mp h
      obtain ⟨base,hbase,hout⟩ := Option.bind_eq_some_iff.mp hout
      obtain ⟨size,hsize,hout⟩ := Option.bind_eq_some_iff.mp hout
      rw [narrow_eq_some] at hbase hsize
      have hfit := isSome_dwordMemory.mp (Option.isSome_iff_exists.mpr ⟨out,hout⟩)
      rw [←hbase.1,←hsize.1] at hfit
      exact ⟨fun _ => hfit,fun h3 => absurd (h2.symm.trans h3) (by decide)⟩
    · intro h
      have hfit := h.mem32 h2
      rw [show narrow 32 r.parentAddr=some r.parentAddr from if_pos (by omega),Option.bind_some,
        show narrow 32 r.size=some r.size from if_pos (by omega),Option.bind_some]
      exact isSome_dwordMemory.mpr hfit
  · rw [if_neg h2]
    by_cases h3 : r.spaceCode=3
    · rw [if_pos h3,isSome_qwordMemory]
      exact ⟨fun h => ⟨fun hc => absurd hc h2,fun _ => h⟩,fun h => h.mem64 h3⟩
    · rw [if_neg h3]
      exact ⟨fun _ => ⟨fun hc => absurd hc h2,fun hc => absurd hc h3⟩,fun _ => rfl⟩

/-- Bytes of the descriptors by the number of windows. -/
theorem sum_windowBytes (rs : List PciRange) : (rs.map windowBytes).sum=
    26*rs.countP PciRange.isMem32+46*rs.countP PciRange.isMem64 := by
  induction rs with
  | nil => rfl
  | cons r rest ih =>
    rw [List.map_cons,List.sum_cons,ih,List.countP_cons,List.countP_cons,windowBytes,
      PciRange.isMem32,PciRange.isMem64]
    simp only [decide_eq_true_eq,dwordMemoryBytes,qwordMemoryBytes]
    split
    · rw [if_neg (by omega)]
      omega
    · split <;> omega

/-- The descriptors of a bridge's windows. -/
theorem rangesAml_eq {n : DtbNode} {r : Option (List PciRange)} (h : n.pciRanges=.ok r) :
    rangesAml n=catAll ((ranges n).map windowAml) := by
  rw [rangesAml,ranges,h]
  rfl

/-- Bytes of the device by the number of windows. -/
theorem hostBridgeAmlBytes_min (w : MemWindows) :
    hostBridgeAmlBytes w=min (78+26*w.mem32+46*w.mem64) (2^64-1) := by
  have hinner : ∀ a b m : ℕ, min (min a m+b) m=min (a+b) m := by
    intro a b m
    omega
  simp only [hostBridgeAmlBytes,saturatingMul,saturatingAdd_min_left,saturatingAdd_min_right,
    hinner,wordBusNumberBytes,dwordMemoryBytes,qwordMemoryBytes,endTagBytes,crsWrapperBytes,
    pkgLengthBytes]
  congr 1
  omega

/-- A small bound on the bytes of the device. -/
theorem hostBridgeAmlBytes_le {w : MemWindows} :
    hostBridgeAmlBytes w≤4097 ↔ 78+26*w.mem32+46*w.mem64≤4097 := by
  rw [hostBridgeAmlBytes_min,min_le_iff]
  omega

/-- Bytes of the device, unless they saturate. -/
theorem hostBridgeAmlBytes_eq {w : MemWindows} (h : 78+26*w.mem32+46*w.mem64≤4097) :
    hostBridgeAmlBytes w=78+26*w.mem32+46*w.mem64 := by
  rw [hostBridgeAmlBytes_min,min_eq_left (by omega)]

/-- Bytes of the descriptors, unless they overflow. -/
theorem descriptorsBytes_eq {w : MemWindows} (h : 78+26*w.mem32+46*w.mem64<2^64) :
    descriptorsBytes w=some (18+26*w.mem32+46*w.mem64) := by
  unfold descriptorsBytes
  simp only [Option.bind_eq_bind,Option.bind_eq_some_iff,mulWord_some,addWord_some,
    wordBusNumberBytes,dwordMemoryBytes,qwordMemoryBytes,endTagBytes]
  exact ⟨_,⟨rfl,by omega⟩,_,⟨rfl,by omega⟩,_,⟨rfl,by omega⟩,_,⟨rfl,by omega⟩,by omega,by omega⟩

/-- The parts of a host bridge's device. -/
theorem pciDevice_eq_some {child : DtbNode} {segment : ℕ} {bus : ℕ×ℕ} {w : MemWindows}
    (hbus : child.decodePciBusRange=.ok bus) (hw : countWindows child=.ok w) {out : Bytes} :
    pciDevice child segment=some out ↔ ∃ header crs windows,
      deviceHeader (pciSeg segment) (hostBridgeAmlBytes w)=some header ∧
      crsBufferHeader (18+26*w.mem32+46*w.mem64)=some crs ∧ rangesAml child=some windows ∧
      out=header++(hostBridgeNames segment bus.1++(crs++(wordBusNumber bus.1 bus.2++
        (windows++endTag)))) := by
  unfold pciDevice
  rw [hbus,hw,value_ok,value_ok,Option.bind_some,Option.bind_some]
  constructor
  · intro h
    obtain ⟨header,hheader,_,hnames,rfl⟩ := cat_eq_some.mp h
    obtain ⟨names,hname,_,hdescr,rfl⟩ := cat_eq_some.mp hnames
    cases hname
    have hle := isSome_deviceHeader.mp (Option.isSome_iff_exists.mpr ⟨header,hheader⟩)
    have hsize := hostBridgeAmlBytes_le.mp (show hostBridgeAmlBytes w≤4097 by omega)
    rw [descriptorsBytes_eq (by omega),Option.bind_some] at hdescr
    obtain ⟨crs,hcrs,_,hbus,rfl⟩ := cat_eq_some.mp hdescr
    obtain ⟨b,hb,_,hwin,rfl⟩ := cat_eq_some.mp hbus
    obtain ⟨windows,hwindows,t,ht,rfl⟩ := cat_eq_some.mp hwin
    cases hb
    cases ht
    exact ⟨header,crs,windows,hheader,hcrs,hwindows,rfl⟩
  · rintro ⟨header,crs,windows,hheader,hcrs,hwindows,rfl⟩
    have hle := isSome_deviceHeader.mp (Option.isSome_iff_exists.mpr ⟨header,hheader⟩)
    have hsize := hostBridgeAmlBytes_le.mp (show hostBridgeAmlBytes w≤4097 by omega)
    rw [descriptorsBytes_eq (by omega),Option.bind_some,hheader,hcrs,hwindows]
    rfl

/-- Bytes of a host bridge's device. -/
theorem length_pciDevice {child : DtbNode} {segment : ℕ} {bus : ℕ×ℕ} {w : MemWindows}
    (hbus : child.decodePciBusRange=.ok bus) (hw : countWindows child=.ok w) {out : Bytes}
    (h : pciDevice child segment=some out) : out.length=hostBridgeAmlBytes w := by
  obtain ⟨header,crs,windows,hheader,hcrs,hwindows,rfl⟩ := (pciDevice_eq_some hbus hw).mp h
  obtain ⟨⟨r,hr⟩,h32,h64⟩ := countWindows_ok hw
  have hle := isSome_deviceHeader.mp (Option.isSome_iff_exists.mpr ⟨header,hheader⟩)
  have hsize := hostBridgeAmlBytes_le.mp (show hostBridgeAmlBytes w≤4097 by omega)
  rw [rangesAml_eq hr] at hwindows
  have hlen := length_catAll windowBytes (fun r _ out hout => length_windowAml hout) hwindows
  rw [sum_windowBytes,←h32,←h64] at hlen
  rw [hostBridgeAmlBytes_eq (by omega)]
  simp only [List.length_append,length_deviceHeader hheader,hostBridgeNames,length_nameDword,
    length_nameByte,length_crsBufferHeader hcrs,length_wordBusNumber,hlen,endTag,
    List.length_cons,List.length_nil,crsWrapperBytes,pkgLengthBytes,wordBusNumberBytes]
  omega

/-- What a host bridge must satisfy for its devices to be written. -/
structure BridgeReady (child : DtbNode) : Prop where
  /-- The configuration space ends in the address space. -/
  ecam : ∃ p, firstReg child .pciHost=some p ∧ p.1+p.2<2^64
  /-- The device fits its package length. -/
  size : 78+26*(ranges child).countP PciRange.isMem32+
    46*(ranges child).countP PciRange.isMem64≤4097
  /-- Every window fits its kind. -/
  windows : ∀ r∈ranges child, PciRange.Fits r

/-- A host bridge's device can be written exactly when it fits its package
length and its windows fit their kinds. -/
theorem isSome_pciDevice {child : DtbNode} {segment : ℕ} {bus : ℕ×ℕ} {w : MemWindows}
    (hbus : child.decodePciBusRange=.ok bus) (hw : countWindows child=.ok w) :
    (pciDevice child segment).isSome=true ↔
      78+26*(ranges child).countP PciRange.isMem32+
        46*(ranges child).countP PciRange.isMem64≤4097 ∧
      ∀ r∈ranges child, PciRange.Fits r := by
  obtain ⟨⟨r,hr⟩,h32,h64⟩ := countWindows_ok hw
  have hbound := hostBridgeAmlBytes_le (w := w)
  have hwindows : (rangesAml child).isSome=true ↔ ∀ r∈ranges child, PciRange.Fits r := by
    rw [rangesAml_eq hr,isSome_catAll,List.forall_mem_map]
    exact forall₂_congr fun r _ => isSome_windowAml
  rw [←h32,←h64,←hwindows,Option.isSome_iff_exists]
  constructor
  · rintro ⟨out,hout⟩
    obtain ⟨header,crs,windows,hheader,_,hwindows,_⟩ := (pciDevice_eq_some hbus hw).mp hout
    have hle := isSome_deviceHeader.mp (Option.isSome_iff_exists.mpr ⟨header,hheader⟩)
    exact ⟨hbound.mp (by omega),Option.isSome_iff_exists.mpr ⟨windows,hwindows⟩⟩
  · rintro ⟨hsize,hwin⟩
    have hall := hostBridgeAmlBytes_eq (w := w) (by omega)
    obtain ⟨windows,hwindows⟩ := Option.isSome_iff_exists.mp hwin
    obtain ⟨header,hheader⟩ := Option.isSome_iff_exists.mp
      (isSome_deviceHeader.mpr ⟨by omega,by omega⟩ :
        (deviceHeader (pciSeg segment) (hostBridgeAmlBytes w)).isSome=true)
    obtain ⟨crs,hcrs⟩ := Option.isSome_iff_exists.mp (isSome_crsBufferHeader.mpr (by omega) :
      (crsBufferHeader (18+26*w.mem32+46*w.mem64)).isSome=true)
    exact ⟨_,(pciDevice_eq_some hbus hw).mpr ⟨header,crs,windows,hheader,hcrs,hwindows,rfl⟩⟩

variable [DevtreeLib]

/-- Bytes of all devices that reserve configuration space. -/
def motherboardTotalBytes (root : DtbNode) : Outcome DtbError ℕ := do
  let kids ← root.children
  sumOver 64 pciHostCompatible (fun _ => .ok motherboardAmlBytes) kids 0

/-- Write all devices that reserve configuration space. -/
def emitMotherboard (root : DtbNode) (c : Cursor) : Outcome DtbError Cursor := do
  let kids ← root.children
  emitOver pciHostCompatible writeMotherboardDevice kids 0 c

/-- Bytes of all host bridges. -/
def pciTotalBytes (root : DtbNode) : Outcome DtbError ℕ := do
  let kids ← root.children
  sumOver 64 pciHostCompatible (fun child => do
    let w ← countWindows child
    .ok (hostBridgeAmlBytes w)) kids 0

/-- Write all host bridges. -/
def emitPci (root : DtbNode) (c : Cursor) : Outcome DtbError Cursor := do
  let kids ← root.children
  emitOver pciHostCompatible writePciDevice kids 0 c

end Arma.Acpi.Bridges
