import Mathlib.Tactic.Common
import Arma.Acpi.Image

/-!
# Reading the tables back

The devices of the namespace follow one another, each with its length in front,
and the allocations of configuration space are records of one width. What a
reader of a filled buffer finds there is what was written for the host bridges.
-/

namespace Arma.Acpi.Namespace

open Base.ByteString Base.Checked Base.Writer Devtree Dtb Aml Numbered Bridges Layout Sdt Tables
  Serial Virtio Dsdt Count Counted Jobs Populate Image

/-- A package length of two bytes. -/
def packageLength (bs : Bytes) : ℕ := (bs.getD 0 0).toNat%16+16*(bs.getD 1 0).toNat

/-- Split devices that follow one another; they end where no device starts. -/
def splitDevices : ℕ → Bytes → List Bytes
  | 0,_ => []
  | fuel+1,bs =>
    if bs.take 2=[extOpPrefix,deviceOp] then
      bs.take (2+packageLength (bs.drop 2))::
        splitDevices fuel (bs.drop (2+packageLength (bs.drop 2)))
    else []

/-- The name in the header of a device starts with the stem. -/
def named (stem : Bytes) (d : Bytes) : Bool := decide (slice 4 3 d=stem)

/-- A named byte at an offset. -/
def namedByteAt (name : NameSeg) (o : ℕ) (d : Bytes) : Option ℕ :=
  if slice o 6 d=nameOp::(name.1++[bytePrefix]) then (d[o+6]?).map UInt8.toNat else none

/-- A range of bus numbers at an offset. -/
def busNumbersAt (o : ℕ) (d : Bytes) : Option (ℕ×ℕ) :=
  if slice o 6 d=[tagWordAddressSpace,0x0D,0x00,resTypeBusNumber,genflagsFixedRange,0] then
    some (ofLE (slice (o+8) 2 d),ofLE (slice (o+10) 2 d)) else none

/-- A window of 64-bit memory at an offset: its base and its length. -/
def qwordMemoryAt (o : ℕ) (d : Bytes) : Option (ℕ×ℕ) :=
  if slice o 6 d=[tagQwordAddressSpace,0x2B,0x00,resTypeMemory,genflagsFixedRange,
      memflagsReadwrite] then
    some (ofLE (slice (o+14) 8 d),ofLE (slice (o+38) 8 d)) else none

/-- The string is a device of the name whose package length is its own. -/
def IsDevice (name : NameSeg) (d : Bytes) : Prop :=
  ∃ header body, deviceHeader name d.length=some header ∧ d=header++body

/-- The bytes of a device's header. -/
theorem deviceHeader_eq_some {name : NameSeg} {total : ℕ} {out : Bytes} :
    deviceHeader name total=some out ↔ 2≤total ∧ total-2≤0x0FFF ∧
      out=[extOpPrefix,deviceOp,0x40 ||| UInt8.ofNat ((total-2)%16),
        UInt8.ofNat ((total-2)/16%256)]++name.1 := by
  constructor
  · intro h
    have hfits := isSome_deviceHeader.mp (Option.isSome_iff_exists.mpr ⟨out,h⟩)
    have hsub : subWord total 2=some (total-2) := if_pos hfits.1
    rw [deviceHeader,hsub,Option.bind_some,pkgLength,if_neg (by omega)] at h
    exact ⟨hfits.1,hfits.2,(Option.some.inj h).symm⟩
  · intro h
    have ⟨htwo,hbig,hout⟩ := h
    have hsub : subWord total 2=some (total-2) := if_pos htwo
    rw [deviceHeader,hsub,Option.bind_some,pkgLength,if_neg (by omega),hout]
    rfl

/-- A package length that fits is read back. -/
theorem packageLength_eq {v : ℕ} (h : v≤0x0FFF) (rest : Bytes) :
    packageLength ((0x40 ||| UInt8.ofNat (v%16))::UInt8.ofNat (v/16%256)::rest)=v := by
  have hlow : ∀ k : Fin 16, (0x40 ||| UInt8.ofNat k.1).toNat%16=k.1 := by decide
  have hnibble := hlow ⟨v%16,Nat.mod_lt _ (by decide)⟩
  have hhigh : (UInt8.ofNat (v/16%256)).toNat=v/16%256%256 := rfl
  change (0x40 ||| UInt8.ofNat (v%16)).toNat%16+16*(UInt8.ofNat (v/16%256)).toNat=v
  dsimp only at hnibble
  rw [hnibble,hhigh]
  omega

/-- A device is split off. -/
theorem splitDevices_cons {name : NameSeg} {d : Bytes} (h : IsDevice name d) (fuel : ℕ)
    (rest : Bytes) : splitDevices (fuel+1) (d++rest)=d::splitDevices fuel rest := by
  have ⟨header,body,hheader,hd⟩ := h
  have ⟨htwo,hbig,hbytes⟩ := deviceHeader_eq_some.mp hheader
  have hall : d++rest=extOpPrefix::deviceOp::(0x40 ||| UInt8.ofNat ((d.length-2)%16))::
      UInt8.ofNat ((d.length-2)/16%256)::(name.1++(body++rest)) := by
    conv_lhs => rw [hd,hbytes]
    simp only [List.cons_append,List.nil_append,List.append_assoc]
  have hstart : (d++rest).take 2=[extOpPrefix,deviceOp] := by
    rw [hall]
    rfl
  have hlength : 2+packageLength ((d++rest).drop 2)=d.length := by
    rw [hall]
    change 2+packageLength ((0x40 ||| UInt8.ofNat ((d.length-2)%16))::
      UInt8.ofNat ((d.length-2)/16%256)::(name.1++(body++rest)))=d.length
    rw [packageLength_eq hbig]
    omega
  rw [splitDevices,if_pos hstart,hlength,List.take_left,List.drop_left]

/-- Devices one after another are split. -/
theorem splitDevices_flatten {ds : List Bytes} (h : ∀ d∈ds, ∃ name, IsDevice name d) {fuel : ℕ}
    (hfuel : ds.length≤fuel) : splitDevices fuel ds.flatten=ds := by
  induction ds generalizing fuel with
  | nil => cases fuel <;> rfl
  | cons d ds ih =>
    have ⟨hd,hds⟩ := List.forall_mem_cons.mp h
    have ⟨name,hname⟩ := hd
    cases fuel with
    | zero => exact absurd hfuel (Nat.not_succ_le_zero _)
    | succ fuel =>
      have hrest := ih hds (Nat.le_of_succ_le_succ hfuel)
      rw [List.flatten_cons,splitDevices_cons hname,hrest]

/-- The name of a device is in its header. -/
theorem IsDevice.named {name : NameSeg} {d : Bytes} (h : IsDevice name d) (stem : Bytes) :
    named stem d=decide (name.1.take 3=stem) := by
  have ⟨header,body,hheader,hd⟩ := h
  have ⟨_,_,hbytes⟩ := deviceHeader_eq_some.mp hheader
  have hslice : slice 4 3 d=name.1.take 3 := by
    rw [hd,hbytes]
    change (name.1++body).take 3=name.1.take 3
    rw [List.take_append_of_le_length (by rw [name.2]; omega)]
  rw [Namespace.named,hslice]

/-- A device whose header has its length. -/
theorem isDevice_append {name : NameSeg} {total : ℕ} {header body : Bytes}
    (hheader : deviceHeader name total=some header) (hlen : (header++body).length=total) :
    IsDevice name (header++body) := ⟨header,body,by rw [hlen]; exact hheader,rfl⟩

/-- A device is one when it is written behind a header with its length. -/
theorem isDevice_cat {name : NameSeg} {total : ℕ} {body : Option Bytes} {d : Bytes}
    (h : cat (deviceHeader name total) body=some d) (hlen : d.length=total) : IsDevice name d := by
  have ⟨header,hheader,rest,_,hd⟩ := cat_eq_some.mp h
  rw [hd] at hlen ⊢
  exact isDevice_append hheader hlen

/-- What reserves configuration space is a device. -/
theorem isDevice_motherboard {child : DtbNode} {index : ℕ} {d : Bytes}
    (h : motherboardDevice child index=some d) : IsDevice (mbrSeg index) d := by
  have ⟨p,_,haml⟩ := Option.bind_eq_some_iff.mp h
  exact isDevice_cat haml (length_motherboardDevice h)

/-- A host bridge is a device. -/
theorem isDevice_pci {child : DtbNode} {segment : ℕ} {bus : ℕ×ℕ} {w : MemWindows}
    (hbus : child.decodePciBusRange=.ok bus) (hw : countWindows child=.ok w) {d : Bytes}
    (h : pciDevice child segment=some d) : IsDevice (pciSeg segment) d := by
  have hlen := length_pciDevice hbus hw h
  have ⟨header,crs,windows,hheader,_,_,hd⟩ := (pciDevice_eq_some hbus hw).mp h
  rw [hd] at hlen ⊢
  exact isDevice_append hheader hlen

/-- A virtio transport is a device. -/
theorem isDevice_virtio {node : DtbNode} {index : ℕ} {d : Bytes} [DevtreeLib]
    (h : virtioDevice node index=some d) : IsDevice (vmSeg index) d := by
  have ⟨p,_,hirq⟩ := Option.bind_eq_some_iff.mp h
  have ⟨irq,_,haml⟩ := Option.bind_eq_some_iff.mp hirq
  exact isDevice_cat haml (length_virtioDevice h)

/-- A serial port is a device. -/
theorem isDevice_serial [DevtreeLib] {n : DtbNode} {d : Bytes} (h : serialDevice n=some d) :
    IsDevice serSeg d := by
  have hlen := length_serialDevice h
  simp only [serialDevice,Option.bind_eq_bind,Option.bind_eq_some_iff] at h
  obtain ⟨port,_,first,_,regShift,_,regIoWidth,_,clockFrequency,_,irq,_,haml⟩ := h
  exact isDevice_cat haml hlen

/-- No device is empty. -/
theorem IsDevice.pos {name : NameSeg} {d : Bytes} (h : IsDevice name d) : 0<d.length := by
  have ⟨header,body,hheader,_⟩ := h
  have hfits := deviceHeader_eq_some.mp hheader
  omega

/-- There are at most as many devices as bytes. -/
theorem length_le_flatten {ds : List Bytes} (h : ∀ d∈ds, ∃ name, IsDevice name d) :
    ds.length≤ds.flatten.length := by
  induction ds with
  | nil => exact Nat.zero_le _
  | cons d ds ih =>
    have ⟨hd,hds⟩ := List.forall_mem_cons.mp h
    have ⟨name,hname⟩ := hd
    have hpos := hname.pos
    have hrest := ih hds
    rw [List.flatten_cons,List.length_append,List.length_cons]
    omega

/-- Devices of one name pass a filter for it. -/
theorem filter_named {ds : List Bytes} {stem : Bytes}
    (h : ∀ d∈ds, ∃ name, IsDevice name d ∧ name.1.take 3=stem) : ds.filter (named stem)=ds := by
  refine List.filter_eq_self.mpr fun d hd => ?_
  have ⟨name,hname,hstem⟩ := h d hd
  rw [hname.named]
  exact decide_eq_true hstem

/-- Devices of other names do not. -/
theorem filter_other {ds : List Bytes} {stem : Bytes}
    (h : ∀ d∈ds, ∃ name, IsDevice name d ∧ name.1.take 3≠stem) : ds.filter (named stem)=[] := by
  refine List.filter_eq_nil_iff.mpr fun d hd htrue => ?_
  have ⟨name,hname,hstem⟩ := h d hd
  rw [hname.named] at htrue
  exact hstem (of_decide_eq_true htrue)

/-- A device whose name begins otherwise has another name. -/
theorem other_of_first {ds : List Bytes} {short long : Bytes} (hne : long.take 1≠short)
    (h : ∀ d∈ds, ∃ name, IsDevice name d ∧ name.1.take 1=short) :
    ∀ d∈ds, ∃ name, IsDevice name d ∧ name.1.take 3≠long := by
  intro d hd
  have ⟨name,hname,hshort⟩ := h d hd
  refine ⟨name,hname,fun heq => hne ?_⟩
  rw [←heq,List.take_take]
  exact hshort

/-- Groups of devices behind each other are told apart by their names. -/
theorem split_groups {mbrs pcis sers vms : List Bytes}
    (hm : ∀ d∈mbrs, ∃ name, IsDevice name d ∧ name.1.take 3=ascii "MBR")
    (hp : ∀ d∈pcis, ∃ name, IsDevice name d ∧ name.1.take 3=ascii "PCI")
    (hs : ∀ d∈sers, ∃ name, IsDevice name d ∧ name.1.take 1=ascii "S")
    (hv : ∀ d∈vms, ∃ name, IsDevice name d ∧ name.1.take 1=ascii "V") {fuel : ℕ}
    (hfuel : (mbrs++(pcis++(sers++vms))).flatten.length≤fuel) :
    (splitDevices fuel (mbrs++(pcis++(sers++vms))).flatten).filter (named (ascii "MBR"))=mbrs ∧
      (splitDevices fuel (mbrs++(pcis++(sers++vms))).flatten).filter (named (ascii "PCI"))=
        pcis := by
  have hall : ∀ d∈mbrs++(pcis++(sers++vms)), ∃ name, IsDevice name d := by
    intro d hd
    simp only [List.mem_append] at hd
    rcases hd with hd | hd | hd | hd
    · exact (hm d hd).imp fun _ h => h.1
    · exact (hp d hd).imp fun _ h => h.1
    · exact (hs d hd).imp fun _ h => h.1
    · exact (hv d hd).imp fun _ h => h.1
  have hsplit : splitDevices fuel (mbrs++(pcis++(sers++vms))).flatten=
      mbrs++(pcis++(sers++vms)) := by
    have hle := length_le_flatten hall
    exact splitDevices_flatten hall (by omega)
  have hpcisMbr : pcis.filter (named (ascii "MBR"))=[] := filter_other fun d hd => by
    have ⟨name,hname,hstem⟩ := hp d hd
    exact ⟨name,hname,by rw [hstem]; decide⟩
  have hmbrsPci : mbrs.filter (named (ascii "PCI"))=[] := filter_other fun d hd => by
    have ⟨name,hname,hstem⟩ := hm d hd
    exact ⟨name,hname,by rw [hstem]; decide⟩
  rw [hsplit]
  simp only [List.filter_append]
  constructor
  · rw [filter_named hm,hpcisMbr,filter_other (other_of_first (by decide) hs),
      filter_other (other_of_first (by decide) hv)]
    simp only [List.append_nil]
  · rw [filter_named hp,hmbrsPci,filter_other (other_of_first (by decide) hs),
      filter_other (other_of_first (by decide) hv)]
    simp only [List.append_nil,List.nil_append]

section Devices

variable [DevtreeLib]

/-- Numbered devices one after another. -/
theorem devices_eq_some {want : String} {device : DtbNode → ℕ → Option Bytes}
    {kids : List DtbNode} {out : Bytes} (h : devices want device kids=some out) :
    ∃ ds : List Bytes, ((selected want kids).zipIdx.map fun p => device p.1 p.2)=ds.map some ∧
      out=ds.flatten ∧ ∀ d∈ds, ∃ c∈selected want kids, ∃ i, device c i=some d := by
  unfold devices at h
  split at h
  · have ⟨ds,hds,hout⟩ := catAll_eq_some.mp h
    have hfrom : ∀ d∈ds, ∃ c∈selected want kids, ∃ i, device c i=some d := by
      intro d hd
      have hmem : some d∈(selected want kids).zipIdx.map fun p => device p.1 p.2 := by
        rw [hds]
        exact List.mem_map_of_mem hd
      have ⟨p,hp,hdevice⟩ := List.mem_map.mp hmem
      exact ⟨p.1,List.fst_mem_of_mem_zipIdx hp,p.2,hdevice⟩
    exact ⟨ds,hds,hout,hfrom⟩
  · cases h

/-- The devices of the host bridges are found by their names. -/
theorem split_dsdtDevices {kids : List DtbNode} (hcounted : Counted kids)
    {serial : Option DtbNode} {out : Bytes} (hout : dsdtDevices kids serial=some out) {fuel : ℕ}
    (hfuel : out.length≤fuel) : ∃ mbrs pcis : List Bytes,
      ((selected pciHostCompatible kids).zipIdx.map fun p => motherboardDevice p.1 p.2)=
        mbrs.map some ∧
      ((selected pciHostCompatible kids).zipIdx.map fun p => pciDevice p.1 p.2)=pcis.map some ∧
      (splitDevices fuel out).filter (named (ascii "MBR"))=mbrs ∧
      (splitDevices fuel out).filter (named (ascii "PCI"))=pcis := by
  have ⟨m,p,s,v,hm,hp,hs,hv,hsplit⟩ := dsdtDevices_eq_some hout
  have ⟨mbrs,hmbrs,hmflat,hmfrom⟩ := devices_eq_some hm
  have ⟨pcis,hpcis,hpflat,hpfrom⟩ := devices_eq_some hp
  have ⟨vms,_,hvflat,hvfrom⟩ := devices_eq_some hv
  have ⟨sers,hsflat,hsers⟩ : ∃ sers : List Bytes, s=sers.flatten ∧
      ∀ d∈sers, IsDevice serSeg d := by
    cases serial with
    | none =>
      cases hs
      exact ⟨[],rfl,fun d hd => absurd hd List.not_mem_nil⟩
    | some n =>
      have hser := isDevice_serial hs
      exact ⟨[s],(List.append_nil s).symm,fun d hd => by rw [List.mem_singleton.mp hd]; exact hser⟩
  have hmnamed : ∀ d∈mbrs, ∃ name, IsDevice name d ∧ name.1.take 3=ascii "MBR" := by
    intro d hd
    have ⟨c,_,i,hdevice⟩ := hmfrom d hd
    exact ⟨mbrSeg i,isDevice_motherboard hdevice,rfl⟩
  have hpnamed : ∀ d∈pcis, ∃ name, IsDevice name d ∧ name.1.take 3=ascii "PCI" := by
    intro d hd
    have ⟨c,hc,i,hdevice⟩ := hpfrom d hd
    have ⟨bus,hbus⟩ := hcounted.buses c hc
    have ⟨w,hw⟩ := hcounted.windows c hc
    exact ⟨pciSeg i,isDevice_pci hbus hw hdevice,rfl⟩
  have hvnamed : ∀ d∈vms, ∃ name, IsDevice name d ∧ name.1.take 1=ascii "V" := by
    intro d hd
    have ⟨c,_,i,hdevice⟩ := hvfrom d hd
    exact ⟨vmSeg i,isDevice_virtio hdevice,rfl⟩
  have hsnamed : ∀ d∈sers, ∃ name, IsDevice name d ∧ name.1.take 1=ascii "S" :=
    fun d hd => ⟨serSeg,hsers d hd,rfl⟩
  have hflat : out=(mbrs++(pcis++(sers++vms))).flatten := by
    rw [hsplit,hmflat,hpflat,hsflat,hvflat]
    simp only [List.flatten_append]
  rw [hflat] at hfuel ⊢
  have ⟨hmfilter,hpfilter⟩ := split_groups hmnamed hpnamed hsnamed hvnamed hfuel
  exact ⟨mbrs,pcis,hmbrs,hpcis,hmfilter,hpfilter⟩

end Devices

/-- An allocation of configuration space. -/
structure McfgAllocation where
  /-- Address of the configuration space of bus zero. -/
  baseAddress : ℕ
  /-- Segment of the buses. -/
  segmentGroup : ℕ
  /-- First bus. -/
  busStart : ℕ
  /-- Last bus. -/
  busEnd : ℕ
deriving DecidableEq, Repr

/-- Read an allocation. -/
def readAllocation (bs : Bytes) : McfgAllocation :=
  ⟨ofLE (bs.take 8),ofLE (slice 8 2 bs),(bs.getD 10 0).toNat,(bs.getD 11 0).toNat⟩

/-- The allocations of an image; none without the table. -/
def mcfgAllocations (off : Offsets) (t : Bytes) : List McfgAllocation :=
  match off.mcfg with
  | none => []
  | some s => decodeRecords mcfgAllocationSize readAllocation
      ((s.len-mcfgHeaderSize)/mcfgAllocationSize) ((bytesIn s t).drop mcfgHeaderSize)

/-- The devices of an image, behind the power-off object. -/
def namespaceDevices (off : Offsets) (t : Bytes) : List Bytes :=
  splitDevices off.dsdt.len ((bytesIn off.dsdt t).drop (SdtHeader.size+s5AmlLen))

/-- The devices of an image that reserve configuration space. -/
def motherboardDevices (off : Offsets) (t : Bytes) : List Bytes :=
  (namespaceDevices off t).filter (named (ascii "MBR"))

/-- The host bridges of an image. -/
def pciDevices (off : Offsets) (t : Bytes) : List Bytes :=
  (namespaceDevices off t).filter (named (ascii "PCI"))

/-- Offset of the segment in a host bridge. -/
def segmentOffset : ℕ := 28

/-- Offset of the bus numbers in a host bridge. -/
def busNumbersOffset : ℕ := 60

/-- Offset of the memory in a device that reserves configuration space. -/
def motherboardMemoryOffset : ℕ := 36

/-- The configuration space of a bridge. -/
def ecam (c : DtbNode) : ℕ×ℕ := (firstReg c .pciHost).getD (0,0)

/-- The first and the last bus of a bridge. -/
def buses (c : DtbNode) : ℕ×ℕ := (value c.decodePciBusRange).getD (0,0)

/-- A bridge's buses are bytes in order. -/
theorem decodePciBusRange_ok {c : DtbNode} {bus : ℕ×ℕ} (h : c.decodePciBusRange=.ok bus) :
    bus.1≤bus.2 ∧ bus.2<256 := by
  have ⟨raw,_,h⟩ := bind_ok.mp h
  have ⟨start,_,h⟩ := bind_ok.mp h
  have ⟨stop,_,h⟩ := bind_ok.mp h
  have ⟨busStart,hstart,h⟩ := bind_ok.mp h
  have ⟨busEnd,hstop,h⟩ := bind_ok.mp h
  have hend := narrow_eq_some.mp (okOr_ok.mp hstop)
  split at h
  · cases h
  · cases h
    dsimp only
    omega

/-- A named byte is read behind what stands in front of it. -/
theorem namedByteAt_append {o : ℕ} {front : Bytes} (h : front.length=o) (name : NameSeg) (v : ℕ)
    (rest : Bytes) : namedByteAt name o (front++(nameByte name v++rest))=some (v%256) := by
  have hall : front++(nameByte name v++rest)=
      front++(nameOp::(name.1++[bytePrefix]))++(UInt8.ofNat v::rest) := by
    simp only [nameByte,List.append_assoc,List.cons_append,List.nil_append]
  have hhead : (nameOp::(name.1++[bytePrefix])).length=6 := by
    rw [List.length_cons,List.length_append,name.2]
    rfl
  have hbyte : (front++(nameOp::(name.1++[bytePrefix]))++(UInt8.ofNat v::rest))[o+6]?=
      some (UInt8.ofNat v) := by
    rw [List.getElem?_append_right (by rw [List.length_append]; omega),List.length_append,h,hhead,
      Nat.sub_self]
    rfl
  rw [hall,namedByteAt,slice_append h hhead,if_pos rfl,hbyte]
  rfl

/-- A slice behind a string in front. -/
theorem slice_front {o i n : ℕ} {front : Bytes} (h : front.length=o) (bs : Bytes) :
    slice (o+i) n (front++bs)=slice i n bs := by
  rw [slice,slice,←h,List.drop_length_add_append]

/-- A range of bus numbers is read behind what stands in front of it. -/
theorem busNumbersAt_append {o : ℕ} {front : Bytes} (h : front.length=o) {lo hi : ℕ}
    (hlo : lo<256) (hhi : hi<256) (rest : Bytes) :
    busNumbersAt o (front++(wordBusNumber lo hi++rest))=some (lo,hi) := by
  have hslice : ∀ i n : ℕ, slice (o+i) n (front++(wordBusNumber lo hi++rest))=
      slice i n (wordBusNumber lo hi++rest) := fun i n => slice_front h _
  have hhead := hslice 0 6
  rw [Nat.add_zero] at hhead
  have hword : ∀ v, v<256 → ofLE (leBytes 2 v)=v := by
    intro v hv
    rw [ofLE_leBytes]
    exact Nat.mod_eq_of_lt (by omega)
  have hmin : slice 8 2 (wordBusNumber lo hi++rest)=leBytes 2 lo := rfl
  have hmax : slice 10 2 (wordBusNumber lo hi++rest)=leBytes 2 hi := rfl
  have hkind : slice 0 6 (wordBusNumber lo hi++rest)=
      [tagWordAddressSpace,0x0D,0x00,resTypeBusNumber,genflagsFixedRange,0] := rfl
  rw [busNumbersAt,hhead,if_pos hkind,hslice,hslice,hmin,hmax,hword lo hlo,hword hi hhi]

/-- A window of memory is read behind what stands in front of it. -/
theorem qwordMemoryAt_append {o : ℕ} {front : Bytes} (h : front.length=o) {base size : ℕ}
    {q : Bytes} (hq : qwordMemory base size=some q) (rest : Bytes) :
    qwordMemoryAt o (front++(q++rest))=some (base,size) := by
  have ⟨stop,hstop,hbytes⟩ := Option.map_eq_some_iff.mp hq
  have ⟨_,hlt⟩ := addWord_some.mp hstop
  have hslice : ∀ i n : ℕ, slice (o+i) n (front++(q++rest))=slice i n (q++rest) :=
    fun i n => slice_front h _
  have hhead := hslice 0 6
  rw [Nat.add_zero] at hhead
  have hword : ∀ v, v<2^64 → ofLE (leBytes 8 v)=v := by
    intro v hv
    rw [ofLE_leBytes]
    exact Nat.mod_eq_of_lt hv
  have hkind : slice 0 6 (qwordMemoryTo base (stop-1) size++rest)=[tagQwordAddressSpace,0x2B,
      0x00,resTypeMemory,genflagsFixedRange,memflagsReadwrite] := rfl
  rw [qwordMemoryAt,hhead,hslice,hslice,←hbytes,if_pos hkind]
  change some (ofLE (leBytes 8 base),ofLE (leBytes 8 size))=_
  rw [hword base (by omega),hword size (by omega)]

/-- The memory of a device that reserves configuration space is the bridge's. -/
theorem qwordMemoryAt_motherboard {child : DtbNode} {index : ℕ} {d : Bytes}
    (h : motherboardDevice child index=some d) :
    qwordMemoryAt motherboardMemoryOffset d=some (ecam child) ∧
      firstReg child .pciHost=some (ecam child) ∧ (ecam child).1+(ecam child).2<2^64 := by
  have ⟨p,hp,haml⟩ := Option.bind_eq_some_iff.mp h
  have hsize := isSome_motherboardAml.mp (Option.isSome_iff_exists.mpr ⟨d,haml⟩)
  have ⟨header,crs,q,tail,hheader,hcrs,hq,_,hd⟩ := memoryDevice_eq_some haml
  have hecam : ecam child=p := by
    rw [ecam,hp]
    rfl
  have hfront : (header++((nameDword hidSeg (eisaid (ascii "PNP0C02"))++nameByte uidSeg index)++
      crs)).length=motherboardMemoryOffset := by
    rw [List.length_append,List.length_append,List.length_append,length_deviceHeader hheader,
      length_nameDword,length_nameByte,length_crsBufferHeader hcrs]
    rfl
  have hbytes : d=(header++((nameDword hidSeg (eisaid (ascii "PNP0C02"))++nameByte uidSeg index)++
      crs))++(q++tail) := by
    rw [hd]
    simp only [List.append_assoc]
  rw [hecam]
  refine ⟨?_,hp,hsize⟩
  rw [hbytes,qwordMemoryAt_append hfront hq]

/-- The segment and the bus numbers in a host bridge. -/
theorem pciDevice_read {child : DtbNode} {segment : ℕ} {bus : ℕ×ℕ} {w : MemWindows}
    (hbus : child.decodePciBusRange=.ok bus) (hw : countWindows child=.ok w) {d : Bytes}
    (h : pciDevice child segment=some d) :
    namedByteAt segSeg segmentOffset d=some (segment%256) ∧
      busNumbersAt busNumbersOffset d=some (buses child) := by
  have ⟨header,crs,windows,hheader,hcrs,_,hd⟩ := (pciDevice_eq_some hbus hw).mp h
  have hbuses : buses child=bus := by
    rw [buses,hbus]
    rfl
  have hrange := decodePciBusRange_ok hbus
  have hnames : (header++(nameDword hidSeg (eisaid (ascii "PNP0A08"))++
      nameDword cidSeg (eisaid (ascii "PNP0A03")))).length=segmentOffset := by
    rw [List.length_append,List.length_append,length_deviceHeader hheader,length_nameDword,
      length_nameDword]
    rfl
  have hcrsEnd : (header++(hostBridgeNames segment bus.1++crs)).length=busNumbersOffset := by
    simp only [hostBridgeNames,List.length_append,length_deviceHeader hheader,length_nameDword,
      length_nameByte,length_crsBufferHeader hcrs]
    rfl
  have hseg : d=(header++(nameDword hidSeg (eisaid (ascii "PNP0A08"))++
      nameDword cidSeg (eisaid (ascii "PNP0A03"))))++(nameByte segSeg segment++
        (nameByte uidSeg segment++(nameByte bbnSeg bus.1++(crs++(wordBusNumber bus.1 bus.2++
          (windows++endTag)))))) := by
    rw [hd,hostBridgeNames]
    simp only [List.append_assoc]
  have hnum : d=(header++(hostBridgeNames segment bus.1++crs))++(wordBusNumber bus.1 bus.2++
      (windows++endTag)) := by
    rw [hd]
    simp only [List.append_assoc]
  rw [hbuses]
  constructor
  · rw [hseg,namedByteAt_append hnames]
  · rw [hnum,busNumbersAt_append hcrsEnd (by omega) hrange.2]

/-- An allocation is read back. -/
theorem readAllocation_mcfgAllocation {base lo hi : ℕ} (hbase : base<2^64) (hlo : lo<256)
    (hhi : hi<256) : readAllocation (mcfgAllocation base lo hi)=⟨base,0,lo,hi⟩ := by
  have hword : ofLE (leBytes 8 base)=base := by
    rw [ofLE_leBytes]
    exact Nat.mod_eq_of_lt hbase
  have hstart : (UInt8.ofNat lo).toNat=lo := UInt8.toNat_ofNat_of_lt' hlo
  have hstop : (UInt8.ofNat hi).toNat=hi := UInt8.toNat_ofNat_of_lt' hhi
  change McfgAllocation.mk (ofLE (leBytes 8 base)) 0 (UInt8.ofNat lo).toNat
    (UInt8.ofNat hi).toNat=_
  rw [hword,hstart,hstop]

/-- What is read from strings that are all there. -/
theorem map_of_map_some {α β γ : Type} {l : List α} {r : α → Option β} {ds : List β}
    (h : l.map r=ds.map some) {f : β → γ} {g : α → γ}
    (hread : ∀ a∈l, ∀ d, r a=some d → f d=g a) : ds.map f=l.map g := by
  induction l generalizing ds with
  | nil =>
    have hnil := List.map_eq_nil_iff.mp h.symm
    rw [hnil]
    rfl
  | cons a l ih =>
    cases ds with
    | nil => cases h
    | cons d ds =>
      have ⟨hhead,htail⟩ := List.cons.inj h
      have ⟨ha,hl⟩ := List.forall_mem_cons.mp hread
      rw [List.map_cons,List.map_cons,ha d hhead,ih htail hl]

/-- A map over numbered elements that leaves out the numbers. -/
theorem map_zipIdx_fst {α β : Type} (l : List α) (f : α → β) :
    (l.zipIdx.map fun p => f p.1)=l.map f := by
  have hmap : (l.zipIdx.map fun p => f p.1)=(l.zipIdx.map Prod.fst).map f := by
    rw [List.map_map]
    rfl
  rw [hmap,List.zipIdx_map_fst]

/-- Whatever the devices of all bridges are made of is there for each bridge. -/
theorem exists_device {device : DtbNode → ℕ → Option Bytes} {nodes : List DtbNode}
    {ds : List Bytes} (h : (nodes.zipIdx.map fun p => device p.1 p.2)=ds.map some) :
    ∀ c∈nodes, ∃ i d, device c i=some d := by
  intro c hc
  have ⟨i,hi⟩ := List.mem_iff_getElem?.mp hc
  have hmem : device c i∈nodes.zipIdx.map fun p => device p.1 p.2 :=
    List.mem_map.mpr ⟨(c,i),List.mk_mem_zipIdx_iff_getElem?.mpr hi,rfl⟩
  rw [h] at hmem
  have ⟨d,_,hd⟩ := List.mem_map.mp hmem
  exact ⟨i,d,hd.symm⟩

section Populate

variable [DevtreeLib]

/-- The host bridges of a tree. -/
def hostBridges (root : Node) : List DtbNode :=
  selected pciHostCompatible ((value (rootOf root).children).getD [])

/-- What an image says about the host bridges of a tree. -/
structure Populated (root : Node) (off : Offsets) (t : Bytes) : Prop where
  /-- The allocations of configuration space, all of them in segment zero. -/
  mcfg : mcfgAllocations off t=
    (hostBridges root).map fun c => ⟨(ecam c).1,0,(buses c).1,(buses c).2⟩
  /-- The segments of the bridges are their numbers. -/
  seg : (pciDevices off t).map (namedByteAt segSeg segmentOffset)=
    (hostBridges root).zipIdx.map fun p => some p.2
  /-- The bus numbers of the bridges. -/
  crs : (pciDevices off t).map (busNumbersAt busNumbersOffset)=
    (hostBridges root).map fun c => some (buses c)
  /-- The reserved memory of the bridges. -/
  mbr : (motherboardDevices off t).map (qwordMemoryAt motherboardMemoryOffset)=
    (hostBridges root).map fun c => some (ecam c)
  /-- The configuration space of a bridge is the first pair of its `reg`. -/
  reg : ∀ c∈hostBridges root, firstReg c .pciHost=some (ecam c)
  /-- The buses of a bridge are its `bus-range`, in order. -/
  busRange : ∀ c∈hostBridges root, c.decodePciBusRange=.ok (buses c) ∧ (buses c).1≤(buses c).2

/-- The allocations of the table of configuration spaces. -/
theorem mcfg_allocations {oem : OemIdentity} {root : Node} {l : Layouted} {kids : List DtbNode}
    {serial : Option DtbNode} {console : Option (DtbNode×Option ℕ)}
    (h : Established root l kids serial console) {t : Bytes}
    (hpart : ∀ s, l.offsets.mcfg=some s → Tables.mcfg oem kids s.len=some (bytesIn s t)) :
    ∃ as : List Bytes, ((selected pciHostCompatible kids).map allocation)=as.map some ∧
      mcfgAllocations l.offsets t=as.map readAllocation := by
  have hslot := h.mcfg
  unfold mcfgAllocations
  cases hs : l.offsets.mcfg with
  | none =>
    rw [hs,Option.map_none] at hslot
    split at hslot
    · cases hslot
    · rename_i hfew
      have hnone : selected pciHostCompatible kids=[] := by
        have hzero : ¬0<(selected pciHostCompatible kids).length := by simpa using hfew
        exact List.length_eq_zero_iff.mp (by omega)
      rw [hnone]
      exact ⟨[],rfl,rfl⟩
  | some s =>
    have hsize := (placed hslot hs).2
    have htable := hpart s hs
    unfold Tables.mcfg table at htable
    split at htable
    · have ⟨out,hout,hbytes⟩ := Option.map_eq_some_iff.mp htable
      have ⟨as,has,hflat⟩ := catAll_eq_some.mp hout
      have hcount : as.length=(selected pciHostCompatible kids).length := by
        have hlen := congrArg List.length has
        rw [List.length_map,List.length_map] at hlen
        exact hlen.symm
      have hwidth : ∀ a∈as, a.length=mcfgAllocationSize := by
        intro a ha
        have hmem : some a∈(selected pciHostCompatible kids).map allocation := by
          rw [has]
          exact List.mem_map_of_mem ha
        have ⟨c,_,hc⟩ := List.mem_map.mp hmem
        exact length_allocation hc
      have hheader : (mcfgHeader oem s.len).length=mcfgHeaderSize := by
        rw [mcfgHeader,List.length_append,SdtHeader.length_asBytes]
        rfl
      have hdrop : (bytesIn s t).drop mcfgHeaderSize=as.flatMap id++[] := by
        rw [←hbytes,drop_sealed (by decide),List.drop_left' hheader,hflat,List.append_nil]
        exact List.flatMap_id.symm
      have hrecords : (s.len-mcfgHeaderSize)/mcfgAllocationSize=as.length := by
        rw [hsize,Nat.add_sub_cancel_left,Nat.mul_div_cancel _ (by decide),hcount]
      have hdecode := @decodeRecords_flatMap Bytes McfgAllocation mcfgAllocationSize id
        readAllocation as hwidth []
      refine ⟨as,has,?_⟩
      dsimp only
      rw [hdrop,hrecords,hdecode]
      rfl
    · cases htable

/-- The strings that are there for the bridges say what the tree does about
them. -/
theorem populated_of {root : Node} {off : Offsets} {t : Bytes} {as : List Bytes}
    (hfew : (hostBridges root).length≤255) (hcounted : ∀ c∈hostBridges root,
      (∃ bus, c.decodePciBusRange=.ok bus) ∧ ∃ w, countWindows c=.ok w)
    (hmbrs : ((hostBridges root).zipIdx.map fun p => motherboardDevice p.1 p.2)=
      (motherboardDevices off t).map some)
    (hpcis : ((hostBridges root).zipIdx.map fun p => pciDevice p.1 p.2)=
      (pciDevices off t).map some)
    (has : (hostBridges root).map allocation=as.map some)
    (hread : mcfgAllocations off t=as.map readAllocation) : Populated root off t := by
  have hreg : ∀ c∈hostBridges root, firstReg c .pciHost=some (ecam c) ∧
      (ecam c).1+(ecam c).2<2^64 := by
    intro c hc
    have ⟨i,d,hd⟩ := exists_device hmbrs c hc
    exact (qwordMemoryAt_motherboard hd).2
  have hrange : ∀ c∈hostBridges root, c.decodePciBusRange=.ok (buses c) := by
    intro c hc
    have ⟨bus,hbus⟩ := (hcounted c hc).1
    rw [buses,hbus]
    rfl
  refine ⟨?_,?_,?_,?_,fun c hc => (hreg c hc).1,fun c hc => ⟨hrange c hc,?_⟩⟩
  · rw [hread]
    refine map_of_map_some has fun c hc d hd => ?_
    have ⟨hfirst,hword⟩ := hreg c hc
    have hbus := hrange c hc
    have hbytes := decodePciBusRange_ok hbus
    rw [allocation,hfirst,Option.bind_some,hbus,value_ok,Option.map_some,Option.some.injEq] at hd
    rw [←hd,readAllocation_mcfgAllocation (by omega) (by omega) hbytes.2]
  · refine map_of_map_some hpcis fun p hp d hd => ?_
    have hc := List.fst_mem_of_mem_zipIdx hp
    have hi := List.snd_lt_of_mem_zipIdx hp
    have ⟨w,hw⟩ := (hcounted p.1 hc).2
    rw [(pciDevice_read (hrange p.1 hc) hw hd).1,Nat.mod_eq_of_lt (by omega)]
  · rw [←map_zipIdx_fst (hostBridges root)]
    refine map_of_map_some hpcis fun p hp d hd => ?_
    have hc := List.fst_mem_of_mem_zipIdx hp
    have ⟨w,hw⟩ := (hcounted p.1 hc).2
    exact (pciDevice_read (hrange p.1 hc) hw hd).2
  · rw [←map_zipIdx_fst (hostBridges root)]
    exact map_of_map_some hmbrs fun p _ d hd => (qwordMemoryAt_motherboard hd).1
  · exact (decodePciBusRange_ok (hrange c hc)).1

/-- Filling a buffer leaves an image that says what the tree does about the host
bridges. -/
theorem populate_populated {root : Node} {oem : OemIdentity} {baseGpa n : ℕ} {buf buf' : Bytes}
    (h : populate root oem baseGpa buf=.ok (n,buf')) :
    ∃ l, run root=.ok l ∧ Populated root l.offsets (buf'.take n) := by
  obtain ⟨l,kids,serial,console,hl,hest,hall⟩ := populate_parts h
  generalize buf'.take n=t at hall ⊢
  simp only [frontJobs,backJobs,frontParts,backParts,List.cons_append,List.nil_append,
    List.forall₂_cons,Option.some.injEq,forall_eq',List.forall₂_nil_left_iff,and_true] at hall
  obtain ⟨_,hdsdt,_,_,hmcfg,_⟩ := hall
  have hbridges : hostBridges root=selected pciHostCompatible kids := by
    rw [hostBridges,hest.children]
    rfl
  obtain ⟨out,hdevices,hsealed⟩ := Option.map_eq_some_iff.mp hdsdt
  have hsize := length_dsdtDevices hest.counted hdevices
  have hrest : (bytesIn l.offsets.dsdt t).drop (SdtHeader.size+s5AmlLen)=out := by
    rw [←hsealed,drop_sealed (by decide),←List.append_assoc]
    refine List.drop_left' ?_
    rw [List.length_append,SdtHeader.length_asBytes]
    rfl
  obtain ⟨mbrs,pcis,hmbrs,hpcis,hmfilter,hpfilter⟩ := split_dsdtDevices hest.counted hdevices
    (show out.length≤l.offsets.dsdt.len by rw [hest.dsdt,hsize]; omega)
  have hmfound : motherboardDevices l.offsets t=mbrs := by
    rw [motherboardDevices,namespaceDevices,hrest,hmfilter]
  have hpfound : pciDevices l.offsets t=pcis := by
    rw [pciDevices,namespaceDevices,hrest,hpfilter]
  obtain ⟨as,has,hread⟩ := @mcfg_allocations _ oem root l kids serial console hest t (fun s hs => by
    have hpart := hmcfg s hs
    rw [hs] at hpart
    exact hpart)
  obtain ⟨_,p,_,_,_,hpci,_⟩ := dsdtDevices_eq_some hdevices
  refine ⟨l,hl,?_⟩
  refine @populated_of _ root l.offsets t as ?_ ?_ ?_ ?_ ?_ hread
  · rw [hbridges]
    exact (bridges_bound hest.counted hpci).1
  · rw [hbridges]
    exact fun c hc => ⟨hest.counted.buses c hc,hest.counted.windows c hc⟩
  · rw [hbridges,hmfound,hmbrs]
  · rw [hbridges,hpfound,hpcis]
  · rw [hbridges,has]

end Populate

end Arma.Acpi.Namespace
