import Mathlib.Tactic.Common
import Arma.Acpi.Filled
import Arma.Acpi.Namespace
import Arma.Base.Bytecode
import Arma.Base.Resources

/-!
# The namespace, read back

Behind the header of its table, the description of the system is the power-off object and then
a device for every node: two for each host bridge, one for the serial port and one for each
virtio transport. What is in a device is known term by term.
-/

namespace Arma.Acpi.Objects

open Base.ByteString Base.Bytecode Base.Checked Base.Frames Base.Resources Base.Writer Devtree Dtb
  Aml Numbered Bridges Layout Sdt Serial Virtio Dsdt Count Counted Collected Populate Image
  Namespace Filled

/-- A named value in the current scope. -/
def named (name : NameSeg) (v : Value) : Object := .name ⟨false,name.1⟩ v

/-- A device in the current scope. -/
def deviceObject (name : NameSeg) (body : List Object) : Object := .device ⟨false,name.1⟩ body

/-- The power-off object. -/
def s5Object (sleepValue : ℕ) : Object :=
  .name ⟨true,ascii "_S5_"⟩ (.package [.integer (sleepValue/4%8),.integer 0,.integer 0])

/-- The power-off object is read. -/
theorem frame_s5 (fuel sleepValue : ℕ) :
    Frame (readObject (fuel+3)) (s5Aml sleepValue) (s5Object sleepValue) := by
  have hbyte := frame_byte fuel (v := sleepValue/4%8) (by omega)
  have hrow : Row (readValue (fuel+1)) [[0x0A,UInt8.ofNat (sleepValue/4%8)],[0x00],[0x00]]
      [.integer (sleepValue/4%8),.integer 0,.integer 0] :=
    .cons ⟨List.cons_ne_nil _ _,hbyte⟩ (.cons ⟨List.cons_ne_nil _ _,fun _ => rfl⟩
      (.cons ⟨List.cons_ne_nil _ _,fun _ => rfl⟩ .nil))
  have hblock := @frame_short [0x03,0x0A,UInt8.ofNat (sleepValue/4%8),0x00,0x00] (by simp)
  have hpath : Frame readPath (0x5C::ascii "_S5_") ⟨true,ascii "_S5_"⟩ := frame_rooted rfl
  exact frame_name hpath (frame_package hblock rfl hrow (by simp))

/-- A named double word is read. -/
theorem frame_nameDword (fuel : ℕ) {name : NameSeg} (hroot : name.1.head?≠some 0x5C) {v : ℕ}
    (hv : v<2^32) : Frame (readObject (fuel+2)) (nameDword name v) (named name (.integer v)) :=
  frame_name (frame_path name.2 hroot) (frame_word4 fuel hv)

/-- A named byte is read. -/
theorem frame_nameByte (fuel : ℕ) {name : NameSeg} (hroot : name.1.head?≠some 0x5C) {v : ℕ}
    (hv : v≤255) : Frame (readObject (fuel+2)) (nameByte name v) (named name (.integer v)) :=
  frame_name (frame_path name.2 hroot) (frame_byte fuel hv)

/-- A named string is read. -/
theorem frame_nameString (fuel : ℕ) {name : NameSeg} (hroot : name.1.head?≠some 0x5C) {bs : Bytes}
    (hbs : (0 : UInt8)∉bs) :
    Frame (readObject (fuel+2)) (nameString name bs) (named name (.text bs)) :=
  frame_name (frame_path name.2 hroot) (frame_text fuel hbs)

/-- A block of the length that was written for it. -/
theorem frame_pkgLength {content out : Bytes} {v : ℕ} (h : pkgLength v=some out)
    (hv : v=content.length+2) : Frame readBlock (out++content) content := by
  have hle := isSome_pkgLength.mp (Option.isSome_iff_exists.mpr ⟨out,h⟩)
  rw [pkgLength,if_neg (by omega)] at h
  cases h
  exact frame_block hv hle

/-- The resources of a device are read. -/
theorem frame_crs (fuel : ℕ) {n : ℕ} {header descriptors : Bytes}
    (h : crsBufferHeader n=some header) (hlen : descriptors.length=n) :
    header++descriptors≠[] ∧
      Frame (readObject (fuel+3)) (header++descriptors) (named crsSeg (.buffer descriptors)) := by
  subst hlen
  obtain ⟨pkg,hlt,hpkg,rfl⟩ := crsBufferHeader_eq_some h
  have hblock : Frame readBlock (pkg++((wordPrefix::leBytes 2 descriptors.length)++descriptors))
      ((wordPrefix::leBytes 2 descriptors.length)++descriptors) := frame_pkgLength hpkg (by
    have hbytes : pkgLengthBytes=2 := rfl
    rw [List.length_append,List.length_cons,length_leBytes]
    omega)
  have hbuffer := frame_buffer hblock rfl (frame_word2 fuel hlt)
  have hname := frame_name (frame_path crsSeg.2 (by decide)) hbuffer
  have hbytes : (nameOp::(crsSeg.1++[bufferOp]))++(pkg++(wordPrefix::leBytes 2 descriptors.length))++
      descriptors=0x08::(crsSeg.1++(0x11::(pkg++((wordPrefix::leBytes 2 descriptors.length)++
        descriptors)))) := by
    simp only [List.append_assoc,List.cons_append,List.nil_append]
    rfl
  rw [hbytes]
  exact ⟨List.cons_ne_nil _ _,hname⟩

/-- A device with its header and its terms is read. -/
theorem frame_deviceBytes (fuel : ℕ) {name : NameSeg} (hroot : name.1.head?≠some 0x5C) {total : ℕ}
    {header : Bytes} {ws : List Bytes} {body : List Object}
    (h : deviceHeader name total=some header) (hlen : (header++ws.flatten).length=total)
    (hrow : Row (readObject fuel) ws body) :
    header++ws.flatten≠[] ∧
      Frame (readObject (fuel+1)) (header++ws.flatten) (deviceObject name body) := by
  obtain ⟨htwo,hle,hbytes⟩ := deviceHeader_eq_some.mp h
  have height := length_deviceHeader h
  have hcontent : total-2=(name.1++ws.flatten).length+2 := by
    rw [List.length_append] at hlen ⊢
    rw [name.2]
    omega
  have hblock := frame_block hcontent hle
  have hdevice := frame_device hblock rfl (frame_path name.2 hroot) hrow
  rw [hbytes,List.append_assoc]
  exact ⟨List.cons_ne_nil _ _,hdevice⟩

/-- A package with its elements is read. -/
theorem frame_elements (fuel : ℕ) {out : Bytes} {v : ℕ} {ws : List Bytes} {vs : List Value}
    (h : pkgLength v=some out) (hv : v=ws.flatten.length+3) (hfew : vs.length≤255)
    (hrow : Row (readValue fuel) ws vs) :
    Frame (readValue (fuel+1)) (packageOp::(out++(UInt8.ofNat vs.length::ws.flatten)))
      (.package vs) :=
  frame_package (frame_pkgLength h (by rw [List.length_cons]; omega)) rfl hrow hfew

/-- What a property that can be written consists of. -/
theorem dwordProperty_eq_some {name out : Bytes} {v : ℕ} (h : dwordProperty name v=some out) :
    ∃ pkg, pkgLength (pkgLengthBytes+1+(stringBytes name.length+5))=some pkg ∧
      out=packageOp::(pkg++(2::(string name++(dwordPrefix::leBytes 4 v)))) := by
  obtain ⟨op,hop,_,hrest,rfl⟩ := cat_eq_some.mp h
  obtain ⟨pkg,hpkg,tail,htail,rfl⟩ := cat_eq_some.mp hrest
  cases hop
  cases htail
  exact ⟨pkg,hpkg,rfl⟩

/-- A property is read as a name and a number. -/
theorem frame_dwordProperty (fuel : ℕ) {name out : Bytes} {v : ℕ}
    (h : dwordProperty name v=some out) (hname : (0 : UInt8)∉name) (hv : v<2^32) :
    out≠[] ∧ Frame (readValue (fuel+2)) out (.package [.text name,.integer v]) := by
  obtain ⟨pkg,hpkg,rfl⟩ := dwordProperty_eq_some h
  refine ⟨List.cons_ne_nil _ _,?_⟩
  have hrow : Row (readValue (fuel+1)) [string name,dwordPrefix::leBytes 4 v]
      [.text name,.integer v] :=
    .cons ⟨List.cons_ne_nil _ _,frame_text fuel hname⟩
      (.cons ⟨List.cons_ne_nil _ _,frame_word4 fuel hv⟩ .nil)
  have hflat : [string name,dwordPrefix::leBytes 4 v].flatten=
      string name++(dwordPrefix::leBytes 4 v) := by
    simp only [List.flatten_cons,List.flatten_nil,List.append_nil]
  have hpackage := frame_elements (fuel+1) hpkg (by
    rw [hflat,List.length_append,length_string,List.length_cons,length_leBytes,pkgLengthBytes]
    omega) (by simp) hrow
  rw [hflat] at hpackage
  exact hpackage

/-- Bytes of a property. -/
theorem length_dwordProperty {name out : Bytes} {v : ℕ} (h : dwordProperty name v=some out) :
    out.length=propertyPackageBytes name.length := by
  obtain ⟨pkg,hpkg,rfl⟩ := dwordProperty_eq_some h
  simp only [List.length_append,List.length_cons,length_pkgLength hpkg,length_string,
    length_leBytes,propertyPackageBytes,packageBytes,pkgLengthBytes]
  omega

/-- What a buffer that can be written consists of. -/
theorem byteBuffer_eq_some {bs out : Bytes} (h : byteBuffer bs=some out) :
    ∃ pkg, bs.length<2^8 ∧ pkgLength (pkgLengthBytes+2+bs.length)=some pkg ∧
      out=bufferOp::(pkg++(bytePrefix::UInt8.ofNat bs.length::bs)) := by
  obtain ⟨len,hlen,h⟩ := Option.bind_eq_some_iff.mp h
  obtain ⟨op,hop,_,hrest,rfl⟩ := cat_eq_some.mp h
  obtain ⟨pkg,hpkg,tail,htail,rfl⟩ := cat_eq_some.mp hrest
  obtain ⟨rfl,hlt⟩ := narrow_eq_some.mp hlen
  cases hop
  cases htail
  exact ⟨pkg,hlt,hpkg,rfl⟩

/-- Bytes of a buffer. -/
theorem length_byteBuffer {bs out : Bytes} (h : byteBuffer bs=some out) :
    out.length=byteBufferBytes bs.length := by
  obtain ⟨pkg,-,hpkg,rfl⟩ := byteBuffer_eq_some h
  simp only [List.length_append,List.length_cons,length_pkgLength hpkg,byteBufferBytes,
    pkgLengthBytes]
  omega

/-- A buffer is read. -/
theorem frame_byteBuffer (fuel : ℕ) {bs out : Bytes} (h : byteBuffer bs=some out) :
    out≠[] ∧ Frame (readValue (fuel+2)) out (.buffer bs) := by
  obtain ⟨pkg,hlt,hpkg,rfl⟩ := byteBuffer_eq_some h
  refine ⟨List.cons_ne_nil _ _,?_⟩
  have hblock : Frame readBlock (pkg++([bytePrefix,UInt8.ofNat bs.length]++bs))
      ([bytePrefix,UInt8.ofNat bs.length]++bs) := frame_pkgLength hpkg (by
    rw [List.length_append,pkgLengthBytes]
    change 2+2+bs.length=2+bs.length+2
    omega)
  exact frame_buffer hblock rfl (frame_byte fuel (by omega))

/-- The device properties of a serial port. -/
def dsdObject (clockFrequency regShift regIoWidth : ℕ) : Object :=
  named dsdSeg (.package [.buffer devicePropertiesUuid,.package [
    .package [.text (ascii "clock-frequency"),.integer clockFrequency],
    .package [.text (ascii "reg-shift"),.integer regShift],
    .package [.text (ascii "reg-io-width"),.integer regIoWidth]]])

/-- They are read. -/
theorem frame_dsd (fuel : ℕ) {clockFrequency regShift regIoWidth : ℕ} {out : Bytes}
    (h : dsd clockFrequency regShift regIoWidth=some out) (hclock : clockFrequency<2^32)
    (hshift : regShift<2^32) (hwidth : regIoWidth<2^32) :
    Frame (readObject (fuel+5)) out (dsdObject clockFrequency regShift regIoWidth) := by
  obtain ⟨front,hfront,_,h1,rfl⟩ := cat_eq_some.mp h
  obtain ⟨pkg,hpkg,_,h2,rfl⟩ := cat_eq_some.mp h1
  obtain ⟨two,htwo,_,h3,rfl⟩ := cat_eq_some.mp h2
  obtain ⟨uuid,huuid,_,h4,rfl⟩ := cat_eq_some.mp h3
  obtain ⟨op,hop,_,h5,rfl⟩ := cat_eq_some.mp h4
  obtain ⟨inner,hinner,_,h6,rfl⟩ := cat_eq_some.mp h5
  obtain ⟨three,hthree,_,h7,rfl⟩ := cat_eq_some.mp h6
  obtain ⟨clock,hclockBytes,_,h8,rfl⟩ := cat_eq_some.mp h7
  obtain ⟨shift,hshiftBytes,width,hwidthBytes,rfl⟩ := cat_eq_some.mp h8
  cases hfront
  cases htwo
  cases hop
  cases hthree
  have hlenClock := length_dwordProperty hclockBytes
  have hlenShift := length_dwordProperty hshiftBytes
  have hlenWidth := length_dwordProperty hwidthBytes
  have hlenUuid := length_byteBuffer huuid
  have hprops : Row (readValue (fuel+2)) [clock,shift,width]
      [.package [.text (ascii "clock-frequency"),.integer clockFrequency],
        .package [.text (ascii "reg-shift"),.integer regShift],
        .package [.text (ascii "reg-io-width"),.integer regIoWidth]] :=
    .cons (frame_dwordProperty fuel hclockBytes (by decide) hclock)
      (.cons (frame_dwordProperty fuel hshiftBytes (by decide) hshift)
        (.cons (frame_dwordProperty fuel hwidthBytes (by decide) hwidth) .nil))
  have hflat : [clock,shift,width].flatten=clock++(shift++width) := by
    simp only [List.flatten_cons,List.flatten_nil,List.append_nil]
  have hlen : (clock++(shift++width)).length=dsdElementsBytes := by
    rw [List.length_append,List.length_append,hlenClock,hlenShift,hlenWidth]
    rfl
  have hlist := frame_elements (fuel+2) hinner (by rw [hflat,hlen]; rfl) (by simp) hprops
  rw [hflat] at hlist
  have houter : Row (readValue (fuel+3)) [uuid,packageOp::(inner++(3::(clock++(shift++width))))]
      [.buffer devicePropertiesUuid,.package [
        .package [.text (ascii "clock-frequency"),.integer clockFrequency],
        .package [.text (ascii "reg-shift"),.integer regShift],
        .package [.text (ascii "reg-io-width"),.integer regIoWidth]]] :=
    .cons (frame_byteBuffer (fuel+1) huuid) (.cons ⟨List.cons_ne_nil _ _,hlist⟩ .nil)
  have hflatOuter : [uuid,packageOp::(inner++(3::(clock++(shift++width))))].flatten=
      uuid++(packageOp::(inner++(3::(clock++(shift++width))))) := by
    simp only [List.flatten_cons,List.flatten_nil,List.append_nil]
  have hpackage := frame_elements (fuel+3) hpkg (by
    rw [hflatOuter,List.length_append,hlenUuid,List.length_cons,List.length_append,
      length_pkgLength hinner,List.length_cons,hlen]
    rfl) (by simp) houter
  rw [hflatOuter] at hpackage
  have hname := frame_name (frame_path dsdSeg.2 (by decide)) hpackage
  simp only [List.append_assoc,List.cons_append,List.nil_append] at hname ⊢
  exact hname

/-- A range of memory. -/
def memoryDescriptor (reg : ℕ×ℕ) : Bytes := qwordMemoryTo reg.1 (reg.1+reg.2-1) reg.2

/-- A range of memory that can be written is the descriptor. -/
theorem qwordMemory_eq_some {base size : ℕ} {out : Bytes} (h : qwordMemory base size=some out) :
    out=memoryDescriptor (base,size) ∧ base+size<2^64 := by
  obtain ⟨stop,hstop,rfl⟩ := Option.map_eq_some_iff.mp h
  obtain ⟨rfl,hlt⟩ := addWord_some.mp hstop
  exact ⟨rfl,hlt⟩

/-- The first pair of a node's `reg`. -/
def regOf (c : DtbNode) (site : Site) : ℕ×ℕ := (firstReg c site).getD (0,0)

/-- The resources of a device that reserves configuration space. -/
def mbrTemplate (c : DtbNode) : Bytes := memoryDescriptor (regOf c .pciHost)++endTag

/-- The device that reserves a bridge's configuration space. -/
def mbrObject (c : DtbNode) (i : ℕ) : Object :=
  deviceObject (mbrSeg i) [named hidSeg (.integer (eisaid (ascii "PNP0C02"))),
    named uidSeg (.integer i),named crsSeg (.buffer (mbrTemplate c))]

/-- It is read. -/
theorem frame_mbr (fuel : ℕ) {c : DtbNode} {i : ℕ} {d : Bytes} (hi : i≤255)
    (h : motherboardDevice c i=some d) :
    (d≠[] ∧ Frame (readObject (fuel+6)) d (mbrObject c i)) ∧
      firstReg c .pciHost=some (regOf c .pciHost) ∧
        (regOf c .pciHost).1+(regOf c .pciHost).2<2^64 := by
  have hlen := length_motherboardDevice h
  obtain ⟨p,hp,haml⟩ := Option.bind_eq_some_iff.mp h
  obtain ⟨header,crs,q,tail,hheader,hcrs,hq,htail,rfl⟩ := memoryDevice_eq_some haml
  obtain ⟨rfl,hfits⟩ := qwordMemory_eq_some hq
  have hreg : regOf c .pciHost=p := by rw [regOf,hp,Option.getD_some]
  cases htail
  have hcrsRow := frame_crs (fuel+2) hcrs (show (mbrTemplate c).length=_ from rfl)
  have hrow : Row (readObject (fuel+5)) [nameDword hidSeg (eisaid (ascii "PNP0C02")),
      nameByte uidSeg i,crs++mbrTemplate c]
      [named hidSeg (.integer (eisaid (ascii "PNP0C02"))),named uidSeg (.integer i),
        named crsSeg (.buffer (mbrTemplate c))] :=
    .cons ⟨List.cons_ne_nil _ _,frame_nameDword (fuel+3) (by decide) (by decide)⟩
      (.cons ⟨List.cons_ne_nil _ _,frame_nameByte (fuel+3) (by decide) hi⟩ (.cons hcrsRow .nil))
  have hbytes : header++(nameDword hidSeg (eisaid (ascii "PNP0C02"))++nameByte uidSeg i++
      (crs++(memoryDescriptor (p.1,p.2)++endTag)))=
      header++[nameDword hidSeg (eisaid (ascii "PNP0C02")),nameByte uidSeg i,
        crs++mbrTemplate c].flatten := by
    rw [mbrTemplate,hreg]
    simp only [List.flatten_cons,List.flatten_nil,List.append_nil,List.append_assoc]
  rw [hbytes] at hlen ⊢
  rw [hreg]
  have hroot : (mbrSeg i).1.head?≠some 0x5C := fun h => absurd (Option.some.inj h) (by decide)
  exact ⟨frame_deviceBytes (fuel+5) hroot hheader hlen hrow,hp,hfits⟩

/-- The descriptor of a window; windows of other kinds have none. -/
def windowDescriptor (r : PciRange) : Bytes :=
  if r.spaceCode=2 then dwordMemoryTo r.parentAddr (r.parentAddr+r.size-1) r.size
  else if r.spaceCode=3 then memoryDescriptor (r.parentAddr,r.size)
  else []

/-- A window that can be written has this descriptor. -/
theorem windowAml_eq_some {r : PciRange} {out : Bytes} (h : windowAml r=some out) :
    out=windowDescriptor r ∧ PciRange.Fits r := by
  refine ⟨?_,isSome_windowAml.mp (Option.isSome_iff_exists.mpr ⟨out,h⟩)⟩
  unfold windowAml at h
  unfold windowDescriptor
  split at h
  · rename_i h2
    obtain ⟨base,hbase,h⟩ := Option.bind_eq_some_iff.mp h
    obtain ⟨size,hsize,h⟩ := Option.bind_eq_some_iff.mp h
    obtain ⟨stop,hstop,rfl⟩ := Option.map_eq_some_iff.mp h
    obtain ⟨rfl,-⟩ := narrow_eq_some.mp hbase
    obtain ⟨rfl,-⟩ := narrow_eq_some.mp hsize
    obtain ⟨rfl,-⟩ := addWord_some.mp hstop
    rw [if_pos h2]
  · rename_i h2
    rw [if_neg h2]
    split at h
    · rename_i h3
      rw [if_pos h3,(qwordMemory_eq_some h).1]
    · rename_i h3
      cases h
      rw [if_neg h3]

/-- The windows of a bridge one after another. -/
theorem windows_eq_some {rs : List PciRange} {out : Bytes} (h : catAll (rs.map windowAml)=some out) :
    out=rs.flatMap windowDescriptor ∧ ∀ r∈rs, PciRange.Fits r := by
  induction rs generalizing out with
  | nil =>
    cases h
    exact ⟨rfl,fun r hr => absurd hr List.not_mem_nil⟩
  | cons r rs ih =>
    obtain ⟨first,hfirst,rest,hrest,rfl⟩ := cat_eq_some.mp h
    obtain ⟨rfl,hfits⟩ := windowAml_eq_some hfirst
    obtain ⟨rfl,hall⟩ := ih hrest
    exact ⟨List.flatMap_cons.symm,List.forall_mem_cons.mpr ⟨hfits,hall⟩⟩

/-- The resources of a host bridge: its bus numbers and its windows. -/
def pciTemplate (c : DtbNode) : Bytes :=
  wordBusNumber (buses c).1 (buses c).2++((ranges c).flatMap windowDescriptor++endTag)

/-- The device of a host bridge. -/
def pciObject (c : DtbNode) (i : ℕ) : Object :=
  deviceObject (pciSeg i) [named hidSeg (.integer (eisaid (ascii "PNP0A08"))),
    named cidSeg (.integer (eisaid (ascii "PNP0A03"))),named segSeg (.integer i),
    named uidSeg (.integer i),named bbnSeg (.integer (buses c).1),
    named crsSeg (.buffer (pciTemplate c))]

/-- It is read. -/
theorem frame_pci (fuel : ℕ) {c : DtbNode} {i : ℕ} {d : Bytes} (hi : i≤255) {bus : ℕ×ℕ}
    {w : MemWindows} (hbus : c.decodePciBusRange=.ok bus) (hw : countWindows c=.ok w)
    (h : pciDevice c i=some d) :
    (d≠[] ∧ Frame (readObject (fuel+6)) d (pciObject c i)) ∧ ∀ r∈ranges c, PciRange.Fits r := by
  have hlen := length_pciDevice hbus hw h
  obtain ⟨header,crs,windows,hheader,hcrs,hwindows,rfl⟩ := (pciDevice_eq_some hbus hw).mp h
  obtain ⟨⟨r,hr⟩,h32,h64⟩ := countWindows_ok hw
  rw [rangesAml_eq hr] at hwindows
  obtain ⟨hall,hfits⟩ := windows_eq_some hwindows
  have hbuses : buses c=bus := by
    rw [Namespace.buses,hbus]
    rfl
  obtain ⟨hordered,hbyte⟩ := decodePciBusRange_ok hbus
  have hsize : (pciTemplate c).length=18+26*w.mem32+46*w.mem64 := by
    have hwin := length_catAll windowBytes (fun r _ out hout => length_windowAml hout) hwindows
    rw [sum_windowBytes,←h32,←h64,hall] at hwin
    rw [pciTemplate,List.length_append,length_wordBusNumber,List.length_append,hwin]
    change 16+(26*w.mem32+46*w.mem64+2)=_
    omega
  have hcrsRow := frame_crs (fuel+2) hcrs hsize
  have hrow : Row (readObject (fuel+5)) [nameDword hidSeg (eisaid (ascii "PNP0A08")),
      nameDword cidSeg (eisaid (ascii "PNP0A03")),nameByte segSeg i,nameByte uidSeg i,
      nameByte bbnSeg (buses c).1,crs++pciTemplate c]
      [named hidSeg (.integer (eisaid (ascii "PNP0A08"))),
        named cidSeg (.integer (eisaid (ascii "PNP0A03"))),named segSeg (.integer i),
        named uidSeg (.integer i),named bbnSeg (.integer (buses c).1),
        named crsSeg (.buffer (pciTemplate c))] :=
    .cons ⟨List.cons_ne_nil _ _,frame_nameDword (fuel+3) (by decide) (by decide)⟩
      (.cons ⟨List.cons_ne_nil _ _,frame_nameDword (fuel+3) (by decide) (by decide)⟩
        (.cons ⟨List.cons_ne_nil _ _,frame_nameByte (fuel+3) (by decide) hi⟩
          (.cons ⟨List.cons_ne_nil _ _,frame_nameByte (fuel+3) (by decide) hi⟩
            (.cons ⟨List.cons_ne_nil _ _,frame_nameByte (fuel+3) (by decide)
              (by rw [hbuses]; omega)⟩ (.cons hcrsRow .nil)))))
  have hbytes : header++(hostBridgeNames i bus.1++(crs++(wordBusNumber bus.1 bus.2++
      (windows++endTag))))=
      header++[nameDword hidSeg (eisaid (ascii "PNP0A08")),
        nameDword cidSeg (eisaid (ascii "PNP0A03")),nameByte segSeg i,nameByte uidSeg i,
        nameByte bbnSeg (buses c).1,crs++pciTemplate c].flatten := by
    rw [pciTemplate,hostBridgeNames,hbuses,hall]
    simp only [List.flatten_cons,List.flatten_nil,List.append_nil,List.append_assoc]
  rw [hbytes] at hlen ⊢
  have hroot : (pciSeg i).1.head?≠some 0x5C := fun h => absurd (Option.some.inj h) (by decide)
  exact ⟨frame_deviceBytes (fuel+5) hroot hheader hlen hrow,hfits⟩

/-- The resources of a device with registers and an interrupt. -/
def lineTemplate (reg irq : ℕ×ℕ) : Bytes :=
  memoryDescriptor reg++(extendedInterrupt irq.1 irq.2++endTag)

section Lines

variable [DevtreeLib]

/-- The interrupt of a node: pin and sense. -/
def irqOf (c : DtbNode) (site : Site) : ℕ×ℕ := (value (c.decodeInterrupts2 site)).getD (0,0)

/-- A cell of a serial port. -/
def serialCell (n : DtbNode) (name : String) : ℕ := (value (n.propertyU32 name .serial)).getD 0

/-- The device of the serial port. -/
def serObject (n : DtbNode) : Object :=
  deviceObject serSeg [named hidSeg (.text (ascii "RSCV0003")),named uidSeg (.integer 0),
    named crsSeg (.buffer (lineTemplate (regOf n .serial) (irqOf n .serial))),
    dsdObject (serialCell n "clock-frequency") (serialCell n "reg-shift")
      (serialCell n "reg-io-width")]

/-- The device of a virtio transport. -/
def vmObject (c : DtbNode) (i : ℕ) : Object :=
  deviceObject (vmSeg i) [named hidSeg (.text (ascii "LNRO0005")),named uidSeg (.integer i),
    named crsSeg (.buffer (lineTemplate (regOf c .virtioMmio) (irqOf c .virtioMmio)))]

/-- A node with registers and an interrupt. -/
structure LineRead (c : DtbNode) (site : Site) : Prop where
  /-- The registers are the first pair of its `reg`. -/
  reg : firstReg c site=some (regOf c site)
  /-- They end in the address space. -/
  fits : (regOf c site).1+(regOf c site).2<2^64
  /-- The interrupt is a pin and a sense. -/
  irq : c.decodeInterrupts2 site=.ok (irqOf c site)

/-- The interrupt of a port that is read is its pin. -/
theorem decodeSerial_gsi {n : DtbNode} {port : SerialPort} {irq : ℕ×ℕ}
    (h : decodeSerial n=.ok port) (hirq : n.decodeInterrupts2 .serial=.ok irq) :
    port.gsi=irq.1 := by
  obtain ⟨regs,-,h⟩ := bind_ok.mp h
  obtain ⟨first,-,h⟩ := bind_ok.mp h
  obtain ⟨ioWidth,-,h⟩ := bind_ok.mp h
  obtain ⟨access,-,h⟩ := bind_ok.mp h
  obtain ⟨pin,hpin,h⟩ := bind_ok.mp h
  rw [hirq] at hpin
  cases hpin
  cases h
  rfl

/-- A cell is a word. -/
theorem propertyU32_lt {n : DtbNode} {name : String} {site : Site} {v : ℕ}
    (h : n.propertyU32 name site=.ok v) : v<2^32 := by
  obtain ⟨prop,-,h⟩ := bind_ok.mp h
  obtain ⟨word,-,h⟩ := bind_ok.mp h
  cases h
  exact word.toNat_lt

/-- The device of a virtio transport is read. -/
theorem frame_vm (fuel : ℕ) {c : DtbNode} {i : ℕ} {d : Bytes} (hi : i≤255)
    (h : virtioDevice c i=some d) :
    (d≠[] ∧ Frame (readObject (fuel+6)) d (vmObject c i)) ∧ LineRead c .virtioMmio := by
  have hlen := length_virtioDevice h
  obtain ⟨p,hp,h⟩ := Option.bind_eq_some_iff.mp h
  obtain ⟨irq,hirq,haml⟩ := Option.bind_eq_some_iff.mp h
  obtain ⟨header,crs,q,tail,hheader,hcrs,hq,htail,rfl⟩ := memoryDevice_eq_some haml
  obtain ⟨rfl,hfits⟩ := qwordMemory_eq_some hq
  have hreg : regOf c .virtioMmio=p := by rw [regOf,hp,Option.getD_some]
  have hline : irqOf c .virtioMmio=irq := by rw [irqOf,hirq,Option.getD_some]
  cases htail
  have hcrsRow := frame_crs (fuel+2) hcrs
    (show (lineTemplate (regOf c .virtioMmio) (irqOf c .virtioMmio)).length=_ from rfl)
  have hrow : Row (readObject (fuel+5)) [nameString hidSeg (ascii "LNRO0005"),nameByte uidSeg i,
      crs++lineTemplate (regOf c .virtioMmio) (irqOf c .virtioMmio)]
      [named hidSeg (.text (ascii "LNRO0005")),named uidSeg (.integer i),
        named crsSeg (.buffer (lineTemplate (regOf c .virtioMmio) (irqOf c .virtioMmio)))] :=
    .cons ⟨List.cons_ne_nil _ _,frame_nameString (fuel+3) (by decide) (by decide)⟩
      (.cons ⟨List.cons_ne_nil _ _,frame_nameByte (fuel+3) (by decide) hi⟩ (.cons hcrsRow .nil))
  have hbytes : header++(nameString hidSeg (ascii "LNRO0005")++nameByte uidSeg i++
      (crs++(memoryDescriptor (p.1,p.2)++(extendedInterrupt irq.1 irq.2++endTag))))=
      header++[nameString hidSeg (ascii "LNRO0005"),nameByte uidSeg i,
        crs++lineTemplate (regOf c .virtioMmio) (irqOf c .virtioMmio)].flatten := by
    rw [lineTemplate,hreg,hline]
    simp only [List.flatten_cons,List.flatten_nil,List.append_nil,List.append_assoc]
  rw [hbytes] at hlen ⊢
  have hroot : (vmSeg i).1.head?≠some 0x5C := fun h => absurd (Option.some.inj h) (by decide)
  refine ⟨frame_deviceBytes (fuel+5) hroot hheader hlen hrow,⟨?_,?_,?_⟩⟩
  · rw [hreg,hp]
  · rw [hreg]
    exact hfits
  · rw [hline]
    exact value_eq_some.mp hirq

/-- The device of a serial port is read. -/
theorem frame_ser (fuel : ℕ) {n : DtbNode} {d : Bytes} (h : serialDevice n=some d) :
    (d≠[] ∧ Frame (readObject (fuel+6)) d (serObject n)) ∧ LineRead n .serial := by
  have hlen := length_serialDevice h
  simp only [serialDevice,Option.bind_eq_bind,Option.bind_eq_some_iff,value_eq_some] at h
  obtain ⟨port,hport,first,hfirst,shift,hshift,width,hwidth,clock,hclock,irq,hirq,haml⟩ := h
  obtain ⟨-,p,hp,hbase⟩ := decodeSerial_ok hport
  have hgsi : port.gsi=irq.1 := decodeSerial_gsi hport hirq
  rw [hfirst] at hp
  cases hp
  obtain ⟨header,crs,q,_,hheader,hcrs,hq,hrest,rfl⟩ := memoryDevice_eq_some haml
  obtain ⟨tail,htail,props,hprops,rfl⟩ := cat_eq_some.mp hrest
  obtain ⟨rfl,hfits⟩ := qwordMemory_eq_some hq
  have hreg : regOf n .serial=first := by rw [regOf,hfirst,Option.getD_some]
  have hline : irqOf n .serial=irq := by rw [irqOf,hirq,value_ok,Option.getD_some]
  have hcells : serialCell n "clock-frequency"=clock ∧ serialCell n "reg-shift"=shift ∧
      serialCell n "reg-io-width"=width := by
    simp only [serialCell,hclock,hshift,hwidth,value_ok,Option.getD_some,and_self]
  obtain ⟨hclockCell,hshiftCell,hwidthCell⟩ := hcells
  cases htail
  have hcrsRow := frame_crs (fuel+2) hcrs
    (show (lineTemplate (regOf n .serial) (irqOf n .serial)).length=_ from rfl)
  have hdsd := frame_dsd fuel hprops (propertyU32_lt hclock) (propertyU32_lt hshift)
    (propertyU32_lt hwidth)
  have hdsdFront : props≠[] := by
    obtain ⟨front,hfront,rest,-,rfl⟩ := cat_eq_some.mp hprops
    cases hfront
    exact List.cons_ne_nil _ _
  have hrow : Row (readObject (fuel+5)) [nameString hidSeg (ascii "RSCV0003"),nameByte uidSeg 0,
      crs++lineTemplate (regOf n .serial) (irqOf n .serial),props]
      [named hidSeg (.text (ascii "RSCV0003")),named uidSeg (.integer 0),
        named crsSeg (.buffer (lineTemplate (regOf n .serial) (irqOf n .serial))),
        dsdObject clock shift width] :=
    .cons ⟨List.cons_ne_nil _ _,frame_nameString (fuel+3) (by decide) (by decide)⟩
      (.cons ⟨List.cons_ne_nil _ _,frame_nameByte (fuel+3) (by decide) (Nat.zero_le _)⟩
        (.cons hcrsRow (.cons ⟨hdsdFront,hdsd⟩ .nil)))
  have hbytes : header++(nameString hidSeg (ascii "RSCV0003")++nameByte uidSeg 0++
      (crs++(memoryDescriptor (port.base,first.2)++(extendedInterrupt port.gsi irq.2++endTag++
        props))))=
      header++[nameString hidSeg (ascii "RSCV0003"),nameByte uidSeg 0,
        crs++lineTemplate (regOf n .serial) (irqOf n .serial),props].flatten := by
    rw [lineTemplate,hreg,hline,hbase,hgsi]
    simp only [List.flatten_cons,List.flatten_nil,List.append_nil,List.append_assoc]
  rw [hbytes] at hlen ⊢
  rw [hbase] at hfits
  rw [serObject,hclockCell,hshiftCell,hwidthCell]
  refine ⟨frame_deviceBytes (fuel+5) (by decide) hheader hlen hrow,⟨?_,?_,?_⟩⟩
  · rw [hreg,hfirst]
  · rw [hreg]
    exact hfits
  · rw [hline]
    exact hirq

/-- Devices that are written for nodes are read one by one. -/
theorem frame_devices {want : String} {device : DtbNode → ℕ → Option Bytes}
    {object : DtbNode → ℕ → Object} {read : DtbNode → Prop} {fuel : ℕ} {kids : List DtbNode}
    (hframe : ∀ c∈selected want kids, ∀ i≤255, ∀ d, device c i=some d →
      (d≠[] ∧ Frame (readObject fuel) d (object c i)) ∧ read c) {out : Bytes}
    (h : devices want device kids=some out) :
    (∃ ws, out=ws.flatten ∧ Row (readObject fuel) ws
      ((selected want kids).zipIdx.map fun p => object p.1 p.2)) ∧
      (selected want kids).length≤255 ∧ ∀ c∈selected want kids, read c := by
  unfold devices at h
  split at h
  · rename_i hfew
    obtain ⟨ds,hds,rfl⟩ := catAll_eq_some.mp h
    have hpairs := forall₂_of_map_some hds
    have hstep : ∀ p∈(selected want kids).zipIdx, ∀ d, device p.1 p.2=some d →
        (d≠[] ∧ Frame (readObject fuel) d (object p.1 p.2)) ∧ read p.1 := by
      intro p hp d hd
      have hindex : p.2<(selected want kids).length := List.snd_lt_of_mem_zipIdx hp
      exact hframe p.1 (List.fst_mem_of_mem_zipIdx hp) p.2 (by omega) d hd
    refine ⟨⟨ds,rfl,?_⟩,hfew,fun c hc => ?_⟩
    · exact List.forall₂_map_right_iff.mpr
        (forall₂_swap hpairs fun p hp d hd => (hstep p hp d hd).1)
    · obtain ⟨i,hi⟩ := List.mem_iff_getElem?.mp hc
      have hmem : (c,i)∈(selected want kids).zipIdx := List.mk_mem_zipIdx_iff_getElem?.mpr hi
      have hwritten : device c i∈ds.map some := by
        rw [←hds]
        exact List.mem_map_of_mem (f := fun p : DtbNode×ℕ => device p.1 p.2) hmem
      obtain ⟨d,-,hd⟩ := List.mem_map.mp hwritten
      exact (hstep (c,i) hmem d hd.symm).2
  · cases h

/-- The terms behind the header of a table, up to the length that it has. -/
def readObjects (table : Bytes) : Option (List Object) :=
  let len := ofLE (slice 4 4 table)
  if len≤table.length then
    readAll (readObject len) len (slice SdtHeader.size (len-SdtHeader.size) table)
  else none

/-- The serial port of the namespace. -/
def serialOf (root : Node) : Option DtbNode := (value (findSerial (rootOf root))).bind id

/-- The virtio transports of a tree. -/
def virtios (root : Node) : List DtbNode :=
  selected virtioMmioCompatible ((value (rootOf root).children).getD [])

/-- The host bridges are among the root's children. -/
theorem hostBridges_eq {root : Node} {kids : List DtbNode}
    (h : (rootOf root).children=.ok kids) : hostBridges root=selected pciHostCompatible kids := by
  rw [hostBridges,h,value_ok,Option.getD_some]

/-- So are the virtio transports. -/
theorem virtios_eq {root : Node} {kids : List DtbNode} (h : (rootOf root).children=.ok kids) :
    virtios root=selected virtioMmioCompatible kids := by
  rw [virtios,h,value_ok,Option.getD_some]

/-- The serial port is the one that is found. -/
theorem serialOf_eq {root : Node} {serial : Option DtbNode}
    (h : findSerial (rootOf root)=.ok serial) : serialOf root=serial := by
  rw [serialOf,h,value_ok,Option.bind_some,id]

/-- The devices for the nodes of a tree. -/
def deviceObjects (root : Node) : List Object :=
  ((hostBridges root).zipIdx.map fun p => mbrObject p.1 p.2)++
    (((hostBridges root).zipIdx.map fun p => pciObject p.1 p.2)++
      ((serialOf root).toList.map serObject++((virtios root).zipIdx.map fun p => vmObject p.1 p.2)))

/-- The nodes that have devices can be read. -/
structure NodesRead (root : Node) : Prop where
  /-- The configuration space of a bridge is the first pair of its `reg`, and it ends in the
  address space. -/
  ecam : ∀ c∈hostBridges root, firstReg c .pciHost=some (regOf c .pciHost) ∧
    (regOf c .pciHost).1+(regOf c .pciHost).2<2^64
  /-- The buses of a bridge are its `bus-range`, in order. -/
  buses : ∀ c∈hostBridges root, c.decodePciBusRange=.ok (Namespace.buses c)
  /-- The windows of a bridge are its `ranges`. -/
  windows : ∀ c∈hostBridges root, (∃ r, c.pciRanges=.ok r) ∧ ∀ r∈ranges c, PciRange.Fits r
  /-- So is the serial port. -/
  port : ∀ n, serialOf root=some n → LineRead n .serial
  /-- So is every virtio transport. -/
  transports : ∀ c∈virtios root, LineRead c .virtioMmio
  /-- There are few bridges. -/
  fewBridges : (hostBridges root).length≤255
  /-- There are few transports. -/
  fewTransports : (virtios root).length≤255

/-- The devices of a namespace are read. -/
theorem frame_dsdtDevices (fuel : ℕ) {root : Node} {kids : List DtbNode} {serial : Option DtbNode}
    (hkids : (rootOf root).children=.ok kids) (hserial : findSerial (rootOf root)=.ok serial)
    (hcounted : Dsdt.Counted kids) {out : Bytes} (h : dsdtDevices kids serial=some out) :
    (∃ ws, out=ws.flatten ∧ Row (readObject (fuel+6)) ws (deviceObjects root)) ∧
      NodesRead root := by
  have hbridges := hostBridges_eq hkids
  have hvirtios := virtios_eq hkids
  have hport := serialOf_eq hserial
  obtain ⟨m,p,s,v,hm,hp,hs,hv,rfl⟩ := dsdtDevices_eq_some h
  obtain ⟨⟨ms,rfl,hmrow⟩,hfew,hecam⟩ := @frame_devices _ _ _ mbrObject
    (fun c => firstReg c .pciHost=some (regOf c .pciHost) ∧
      (regOf c .pciHost).1+(regOf c .pciHost).2<2^64) (fuel+6) kids
    (fun c _ i hi d hd => frame_mbr fuel hi hd) m hm
  obtain ⟨⟨ps,rfl,hprow⟩,-,hwindows⟩ := @frame_devices _ _ _ pciObject
    (fun c => ∀ r∈ranges c, PciRange.Fits r) (fuel+6) kids (fun c hc i hi d hd => by
      obtain ⟨bus,hbus⟩ := hcounted.buses c hc
      obtain ⟨w,hw⟩ := hcounted.windows c hc
      exact frame_pci fuel hi hbus hw hd) p hp
  obtain ⟨⟨vs,rfl,hvrow⟩,hfewVirtios,htransports⟩ := @frame_devices _ _ _ vmObject
    (fun c => LineRead c .virtioMmio) (fuel+6) kids
    (fun c _ i hi d hd => frame_vm fuel hi hd) v hv
  obtain ⟨⟨ss,rfl,hsrow⟩,hline⟩ : (∃ ss, s=ss.flatten ∧
      Row (readObject (fuel+6)) ss (serial.toList.map serObject)) ∧
        ∀ n, serial=some n → LineRead n .serial := by
    cases serial with
    | none =>
      cases hs
      exact ⟨⟨[],rfl,.nil⟩,fun n hn => absurd hn (by simp)⟩
    | some n =>
      obtain ⟨hframe,hread⟩ := frame_ser fuel (show serialDevice n=some s from hs)
      refine ⟨⟨[s],(List.append_nil s).symm,.cons hframe .nil⟩,fun c hc => ?_⟩
      cases hc
      exact hread
  refine ⟨⟨ms++(ps++(ss++vs)),by simp only [List.flatten_append],?_⟩,?_⟩
  · rw [deviceObjects,hbridges,hvirtios,hport]
    exact List.rel_append hmrow (List.rel_append hprow (List.rel_append hsrow hvrow))
  · rw [←hbridges] at hecam hwindows hfew
    rw [←hvirtios] at htransports hfewVirtios
    rw [←hport] at hline
    refine ⟨hecam,fun c hc => ?_,fun c hc => ⟨?_,hwindows c hc⟩,hline,htransports,hfew,
      hfewVirtios⟩
    · obtain ⟨bus,hbus⟩ := hcounted.buses c (hbridges ▸ hc)
      rw [Namespace.buses,hbus]
      rfl
    · obtain ⟨w,hw⟩ := hcounted.windows c (hbridges ▸ hc)
      exact (countWindows_ok hw).1

/-- The description of the system is the power-off object and the devices for the nodes of the
tree. -/
theorem objects_of_dsdt {root : Node} {oem : OemIdentity} {l : Layouted} {kids : List DtbNode}
    {serial : Option DtbNode} {console : Option (DtbNode×Option ℕ)} {t : Bytes}
    (hest : Established root l kids serial console)
    (htable : dsdt oem l.fadt.sleepValue kids serial l.offsets.dsdt.len=some t) : NodesRead root ∧
      ofLE (slice 4 4 t)=l.offsets.dsdt.len ∧ t.length=l.offsets.dsdt.len ∧
      readObjects t=some (s5Object l.fadt.sleepValue::deviceObjects root) := by
  obtain ⟨hsdt,hlen⟩ := isSdt_dsdt hest.counted hest.dsdt htable
  obtain ⟨out,hdevices,hsealed⟩ := Option.map_eq_some_iff.mp htable
  have hfield := hsdt.length.trans hlen
  have hs5 : s5AmlLen=13 := rfl
  have hheader : SdtHeader.size=36 := rfl
  have hsize := hest.dsdt
  obtain ⟨⟨ws,rfl,hrow⟩,hread⟩ := frame_dsdtDevices (l.offsets.dsdt.len-6) hest.children
    hest.namespacePort hest.counted hdevices
  have hbody : t.drop SdtHeader.size=s5Aml l.fadt.sleepValue++ws.flatten := by
    rw [←hsealed,drop_sealed (by decide),List.drop_left' (SdtHeader.length_asBytes _)]
  refine ⟨hread,hfield,hlen,?_⟩
  rw [show l.offsets.dsdt.len-6+6=l.offsets.dsdt.len by omega] at hrow
  have hpower : Frame (readObject l.offsets.dsdt.len) (s5Aml l.fadt.sleepValue)
      (s5Object l.fadt.sleepValue) := by
    have hframe := frame_s5 (l.offsets.dsdt.len-3) l.fadt.sleepValue
    rwa [show l.offsets.dsdt.len-3+3=l.offsets.dsdt.len by omega] at hframe
  have hall : Row (readObject l.offsets.dsdt.len) (s5Aml l.fadt.sleepValue::ws)
      (s5Object l.fadt.sleepValue::deviceObjects root) :=
    .cons ⟨List.cons_ne_nil _ _,hpower⟩ hrow
  have hcount := hall.length_le
  have hlenBody := congrArg List.length hbody
  rw [List.length_drop,hlen,←List.flatten_cons] at hlenBody
  rw [readObjects,hfield,hlen,if_pos (Nat.le_refl _),slice,hbody,
    List.take_of_length_le (by rw [←List.flatten_cons]; omega),←List.flatten_cons]
  exact readAll_frames hall (by omega)

/-- So it is in its slot. -/
theorem objects_of_holds {root : Node} {oem : OemIdentity} {l : Layouted} {kids : List DtbNode}
    {serial : Option DtbNode} {console : Option (DtbNode×Option ℕ)} {t : Bytes}
    (hest : Established root l kids serial console)
    (hholds : Holds root oem l kids serial console t) : NodesRead root ∧
      ofLE (slice 4 4 (bytesIn l.offsets.dsdt t))=l.offsets.dsdt.len ∧
      (bytesIn l.offsets.dsdt t).length=l.offsets.dsdt.len ∧
      readObjects (bytesIn l.offsets.dsdt t)=
        some (s5Object l.fadt.sleepValue::deviceObjects root) :=
  objects_of_dsdt hest hholds.dsdt

/-- When a buffer is filled, the description of the system is that of the tree. -/
theorem populate_objects {root : Node} {oem : OemIdentity} {baseGpa n : ℕ} {buf buf' : Bytes}
    (h : populate root oem baseGpa buf=.ok (n,buf')) :
    ∃ l, run root=.ok l ∧ NodesRead root ∧
      ofLE (slice 4 4 (bytesIn l.offsets.dsdt (buf'.take n)))=l.offsets.dsdt.len ∧
      (bytesIn l.offsets.dsdt (buf'.take n)).length=l.offsets.dsdt.len ∧
      readObjects (bytesIn l.offsets.dsdt (buf'.take n))=
        some (s5Object l.fadt.sleepValue::deviceObjects root) := by
  obtain ⟨l,kids,serial,console,hl,hest,-,hholds⟩ := populate_holds h
  exact ⟨l,hl,objects_of_holds hest hholds⟩

end Lines

end Arma.Acpi.Objects
