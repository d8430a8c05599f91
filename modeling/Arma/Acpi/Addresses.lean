import Mathlib.Tactic.Common
import Arma.Acpi.Segments
import Arma.Acpi.Templates

/-!
# The ranges of the namespace

Every device of the namespace reserves ranges of addresses: a bridge its configuration space, its
buses and its windows, the serial port and the virtio transports their registers. A range says
where it starts, where it ends and how long it is, and the three agree unless it is empty or has
all 256 buses.
-/

namespace Arma.Acpi.Addresses

open Base.ByteString Base.Bytecode Base.Checked Base.Resources Base.Writer Devtree Dtb Aml Numbered
  Bridges Sdt Count Populate Image Namespace Segments Objects Templates

/-- What a range covers. -/
structure Extent where
  /-- What is addressed: 0 memory, 2 bus numbers. -/
  kind : ℕ
  /-- First address. -/
  first : ℕ
  /-- Number of addresses. -/
  count : ℕ
deriving DecidableEq, Repr

/-- What a descriptor covers. -/
def extentOf (a : Address) : Extent := ⟨a.kind,a.minimum,a.length⟩

/-- Memory from an address on. -/
def memoryExtent (reg : ℕ×ℕ) : Extent := ⟨0,reg.1,reg.2⟩

/-- The buses of a bridge. -/
def busExtent (bus : ℕ×ℕ) : Extent := ⟨2,bus.1,bus.2-bus.1+1⟩

/-- The window is one of memory. -/
def PciRange.isMemory (r : PciRange) : Bool := decide (r.spaceCode=2 ∨ r.spaceCode=3)

/-- The windows of memory of a bridge. -/
def windowExtents (c : DtbNode) : List Extent :=
  ((ranges c).filter PciRange.isMemory).map fun r => memoryExtent (r.parentAddr,r.size)

/-- The device has consistent ranges, which cover the extents. -/
def Covers (o : Object) (extents : List Extent) : Prop :=
  ∃ rs, resourcesOf o=some rs ∧ (∀ a∈addressesIn rs, a.Consistent) ∧
    (addressesIn rs).map extentOf=extents

/-- The ranges of a template are those that were written. -/
theorem addressesIn_append (as : List Address) (rs : List Resource) :
    addressesIn (as.map Resource.address++rs)=as++addressesIn rs := by
  rw [addressesIn,List.filterMap_append]
  congr 1
  induction as with
  | nil => rfl
  | cons a as ih => rw [List.map_cons,List.filterMap_cons,ih]

/-- A range of memory is consistent unless it is empty. -/
theorem memoryRange_consistent {width base size : ℕ} (h : base+size<256^width) :
    (memoryRange width base size).Consistent ↔ size≠0 := by
  constructor
  · intro hrange hzero
    have hlength : size=base+size-1-base+1 := hrange.length
    omega
  · intro hsize
    exact ⟨show base≤base+size-1 by omega,show size=base+size-1-base+1 by omega,
      show size<256^width by omega⟩

/-- Ordered buses are consistent and complete unless there are 256 of them. -/
theorem busRange_consistent {bus : ℕ×ℕ} (h : bus.1≤bus.2 ∧ bus.2<256) :
    (busRange bus).Consistent ∧ extentOf (busRange bus)=busExtent bus ↔ bus≠(0,255) := by
  obtain ⟨lo,hi⟩ := bus
  dsimp only at h
  have hlength : (busRange (lo,hi)).length=min (hi-lo+1) 255 := rfl
  have hcount : (busExtent (lo,hi)).count=hi-lo+1 := rfl
  constructor
  · intro hrange
    obtain ⟨-,hextent⟩ := hrange
    have hsame : (busRange (lo,hi)).length=(busExtent (lo,hi)).count :=
      congrArg Extent.count hextent
    rw [Ne,Prod.mk.injEq]
    omega
  · intro hall
    rw [Ne,Prod.mk.injEq] at hall
    have hmin : min (hi-lo+1) 255=hi-lo+1 := by omega
    refine ⟨⟨h.1,hmin,?_⟩,?_⟩
    · change min (hi-lo+1) 255<256^2
      omega
    · change Extent.mk 2 lo (min (hi-lo+1) 255)=⟨2,lo,hi-lo+1⟩
      rw [hmin]

/-- The ranges of a window are consistent unless it is empty. -/
theorem windowRanges_consistent {r : PciRange} (h : PciRange.Fits r) :
    (∀ a∈windowRanges r, a.Consistent) ↔ (PciRange.isMemory r=true → r.size≠0) := by
  unfold windowRanges PciRange.isMemory
  rw [decide_eq_true_eq]
  split
  · rename_i h2
    rw [List.forall_mem_singleton,memoryRange_consistent (h.mem32 h2)]
    exact ⟨fun hsize _ => hsize,fun hsize => hsize (.inl h2)⟩
  · rename_i h2
    split
    · rename_i h3
      rw [List.forall_mem_singleton,memoryRange_consistent (h.mem64 h3)]
      exact ⟨fun hsize _ => hsize,fun hsize => hsize (.inr h3)⟩
    · rename_i h3
      exact ⟨fun _ hmem => absurd hmem (by omega),fun _ a ha => absurd ha List.not_mem_nil⟩

/-- They cover the window. -/
theorem extents_windowRanges (rs : List PciRange) :
    (rs.flatMap windowRanges).map extentOf=
      (rs.filter PciRange.isMemory).map fun r => memoryExtent (r.parentAddr,r.size) := by
  induction rs with
  | nil => rfl
  | cons r rs ih =>
    rw [List.flatMap_cons,List.map_append,ih]
    have hmemory : PciRange.isMemory r=decide (r.spaceCode=2 ∨ r.spaceCode=3) := rfl
    unfold windowRanges
    split
    · rename_i h2
      rw [List.filter_cons_of_pos (by rw [hmemory]; exact decide_eq_true (.inl h2))]
      rfl
    · rename_i h2
      split
      · rename_i h3
        rw [List.filter_cons_of_pos (by rw [hmemory]; exact decide_eq_true (.inr h3))]
        rfl
      · rename_i h3
        rw [List.filter_cons_of_neg (by rw [hmemory,decide_eq_true_eq]; omega)]
        rfl

/-- What it means for a device whose resources are read. -/
theorem covers_iff {o : Object} {rs : List Resource} {extents : List Extent}
    (h : resourcesOf o=some rs) : Covers o extents ↔
      (∀ a∈addressesIn rs, a.Consistent) ∧ (addressesIn rs).map extentOf=extents := by
  constructor
  · rintro ⟨found,hfound,hranges⟩
    cases hfound.symm.trans h
    exact hranges
  · exact fun hranges => ⟨rs,h,hranges⟩

/-- A device with one range of memory covers it unless it is empty. -/
theorem covers_memory {o : Object} {rs : List Resource} {reg : ℕ×ℕ} (h : resourcesOf o=some rs)
    (hrange : addressesIn rs=[memoryRange 8 reg.1 reg.2]) (hfits : reg.1+reg.2<2^64) :
    Covers o [memoryExtent reg] ↔ reg.2≠0 := by
  have hbound : reg.1+reg.2<256^8 := hfits
  rw [covers_iff h,hrange,List.forall_mem_singleton,memoryRange_consistent hbound]
  exact and_iff_left rfl

/-- A host bridge covers its buses and windows unless it has all 256 buses or an empty window. -/
theorem covers_pci {c : DtbNode} {bus : ℕ×ℕ} (hbus : c.decodePciBusRange=.ok bus)
    (hfits : ∀ r∈ranges c, PciRange.Fits r) (i : ℕ) :
    Covers (pciObject c i) (busExtent (buses c)::windowExtents c) ↔
      buses c≠(0,255) ∧ ∀ r∈ranges c, PciRange.isMemory r=true → r.size≠0 := by
  have hbuses : buses c=bus := by rw [buses,hbus,value_ok,Option.getD_some]
  have hordered := decodePciBusRange_ok hbus
  rw [←hbuses] at hordered
  have haddresses := addressesIn_append (busRange (buses c)::(ranges c).flatMap windowRanges)
    [.endTag]
  rw [show addressesIn [Resource.endTag]=[] from rfl,List.append_nil] at haddresses
  have hwindows : (∀ a∈(ranges c).flatMap windowRanges, a.Consistent) ↔
      ∀ r∈ranges c, PciRange.isMemory r=true → r.size≠0 := by
    rw [List.forall_mem_flatMap]
    exact forall₂_congr fun r hr => windowRanges_consistent (hfits r hr)
  have hextents := extents_windowRanges (ranges c)
  rw [covers_iff (resourcesOf_pci hbus hfits i),haddresses,List.forall_mem_cons,List.map_cons,
    hextents,hwindows,←busRange_consistent hordered,List.cons.injEq]
  exact ⟨fun h => ⟨⟨h.1.1,h.2.1⟩,h.1.2⟩,fun h => ⟨⟨h.1.1,h.2⟩,h.1.2,rfl⟩⟩

/-- The numbered devices of some nodes cover what the nodes give. -/
theorem covers_numbered {nodes : List DtbNode} {object : DtbNode → ℕ → Object}
    {extents : DtbNode → List Extent} {right : DtbNode → Prop}
    (h : ∀ c∈nodes, ∀ i, Covers (object c i) (extents c) ↔ right c) :
    List.Forall₂ Covers (nodes.zipIdx.map fun p => object p.1 p.2) (nodes.map extents) ↔
      ∀ c∈nodes, right c := by
  rw [←map_zipIdx_fst nodes,List.forall₂_map_left_iff,List.forall₂_map_right_iff,
    List.forall₂_same]
  constructor
  · intro hall c hc
    obtain ⟨i,hi⟩ := List.mem_iff_getElem?.mp hc
    exact (h c hc i).mp (hall (c,i) (List.mk_mem_zipIdx_iff_getElem?.mpr hi))
  · intro hall p hp
    have hmem := List.fst_mem_of_mem_zipIdx hp
    exact (h p.1 hmem p.2).mpr (hall p.1 hmem)

section Covered

variable [DevtreeLib]

/-- What the devices for the nodes of a tree should cover, in their order. -/
def deviceExtents (root : Node) : List (List Extent) :=
  ((hostBridges root).map fun c => [memoryExtent (regOf c .pciHost)])++
    (((hostBridges root).map fun c => busExtent (buses c)::windowExtents c)++
      (((serialOf root).toList.map fun n => [memoryExtent (regOf n .serial)])++
        ((virtios root).map fun c => [memoryExtent (regOf c .virtioMmio)])))

/-- Every device of the description of the system has consistent ranges, and they cover what the
nodes of the tree give. -/
def RangesRight (root : Node) (table : Bytes) : Prop :=
  ∃ objects, readObjects table=some objects ∧
    List.Forall₂ Covers (objects.filter Object.isDevice) (deviceExtents root)

/-- No bridge has all 256 buses, and nothing that is described is empty. -/
structure NothingEmpty (root : Node) : Prop where
  /-- Configuration spaces. -/
  ecam : ∀ c∈hostBridges root, (regOf c .pciHost).2≠0
  /-- Buses and windows of memory. -/
  windows : ∀ c∈hostBridges root,
    buses c≠(0,255) ∧ ∀ r∈ranges c, PciRange.isMemory r=true → r.size≠0
  /-- Registers of the serial port. -/
  port : ∀ n, serialOf root=some n → (regOf n .serial).2≠0
  /-- Registers of the virtio transports. -/
  transports : ∀ c∈virtios root, (regOf c .virtioMmio).2≠0

/-- All terms behind the power-off object are devices. -/
theorem filter_isDevice (root : Node) :
    (deviceObjects root).filter Object.isDevice=deviceObjects root := by
  refine List.filter_eq_self.mpr fun o ho => ?_
  simp only [deviceObjects,List.mem_append,List.mem_map] at ho
  rcases ho with ⟨_,-,rfl⟩ | ⟨_,-,rfl⟩ | ⟨_,-,rfl⟩ | ⟨_,-,rfl⟩ <;> rfl

/-- The devices for the nodes of a tree cover what they should exactly when nothing is empty. -/
theorem covers_devices {root : Node} (h : NodesRead root) :
    List.Forall₂ Covers (deviceObjects root) (deviceExtents root) ↔ NothingEmpty root := by
  have hecam := @covers_numbered (hostBridges root) mbrObject
    (fun c => [memoryExtent (regOf c .pciHost)]) (fun c => (regOf c .pciHost).2≠0)
    (fun c hc i => covers_memory (resourcesOf_mbr (h.ecam c hc).2 i) rfl (h.ecam c hc).2)
  have hpci := @covers_numbered (hostBridges root) pciObject
    (fun c => busExtent (buses c)::windowExtents c)
    (fun c => buses c≠(0,255) ∧ ∀ r∈ranges c, PciRange.isMemory r=true → r.size≠0)
    (fun c hc i => covers_pci (h.buses c hc) (h.windows c hc).2 i)
  have hvirtio := @covers_numbered (virtios root) vmObject
    (fun c => [memoryExtent (regOf c .virtioMmio)]) (fun c => (regOf c .virtioMmio).2≠0)
    (fun c hc i => covers_memory (resourcesOf_vm (h.transports c hc) i) rfl
      (h.transports c hc).fits)
  have hserial : List.Forall₂ Covers ((serialOf root).toList.map serObject)
      ((serialOf root).toList.map fun n => [memoryExtent (regOf n .serial)]) ↔
        ∀ n, serialOf root=some n → (regOf n .serial).2≠0 := by
    rw [List.forall₂_map_left_iff,List.forall₂_map_right_iff,List.forall₂_same]
    refine forall_congr' fun n => ?_
    rw [Option.mem_toList]
    refine forall_congr' fun hn => ?_
    exact covers_memory (resourcesOf_ser (h.port n hn)) rfl (h.port n hn).fits
  rw [deviceObjects,deviceExtents,forall₂_append_iff (by simp),forall₂_append_iff (by simp),
    forall₂_append_iff (by simp),hecam,hpci,hserial,hvirtio]
  exact ⟨fun hall => ⟨hall.1,hall.2.1,hall.2.2.1,hall.2.2.2⟩,
    fun hall => ⟨hall.ecam,hall.windows,hall.port,hall.transports⟩⟩

/-- So does the description of the system that has these devices. -/
theorem rangesRight_iff {root : Node} (h : NodesRead root) {table : Bytes} {sleepValue : ℕ}
    (htable : readObjects table=some (s5Object sleepValue::deviceObjects root)) :
    RangesRight root table ↔ NothingEmpty root := by
  have hdevices : (s5Object sleepValue::deviceObjects root).filter Object.isDevice=
      deviceObjects root := by
    rw [List.filter_cons_of_neg Bool.false_ne_true,filter_isDevice]
  rw [←covers_devices h]
  constructor
  · rintro ⟨objects,hobjects,hall⟩
    cases hobjects.symm.trans htable
    rwa [hdevices] at hall
  · intro hall
    exact ⟨_,htable,by rwa [hdevices]⟩

/-- When a buffer is filled, the ranges of the namespace are consistent and cover what the tree
gives exactly when no bridge has all 256 buses and nothing that is described is empty. -/
theorem populate_ranges_iff {root : Node} {oem : OemIdentity} {baseGpa n : ℕ} {buf buf' : Bytes}
    (h : populate root oem baseGpa buf=.ok (n,buf')) :
    ∃ l, run root=.ok l ∧
      (RangesRight root (bytesIn l.offsets.dsdt (buf'.take n)) ↔ NothingEmpty root) := by
  obtain ⟨l,hl,hread,-,-,htable⟩ := populate_objects h
  exact ⟨l,hl,rangesRight_iff hread htable⟩

end Covered

/-- A bridge with the buses from zero on and the configuration space for them. -/
def busTree (last : ℕ) : Node :=
  bridgeTree [sampleBridge 0x10000000 0 last ((last+1)*0x100000)]

/-- With sixteen buses the ranges are right. -/
theorem populate_ranges_iff_sample : ∃ n buf' l,
    @populate plainLib (busTree 15) sampleOem 0x1000 (List.replicate 1000 7)=.ok (n,buf') ∧
    @run plainLib (busTree 15)=.ok l ∧
    @RangesRight plainLib (busTree 15) (bytesIn (Layouted.offsets l).dsdt (buf'.take n)) := by
  have hsome : (@populate plainLib (busTree 15) sampleOem 0x1000
      (List.replicate 1000 7)).toOption.isSome=true := by decide +kernel
  have hbridges : ∀ c∈@hostBridges plainLib (busTree 15), (regOf c .pciHost).2≠0 ∧
      buses c≠(0,255) ∧ ranges c=[] := by decide +kernel
  have hserial : @serialOf plainLib (busTree 15)=none := by decide +kernel
  have hvirtios : @virtios plainLib (busTree 15)=[] := by decide +kernel
  obtain ⟨out,hfilled⟩ := exists_ok hsome
  obtain ⟨l,hl,hiff⟩ := @populate_ranges_iff plainLib _ _ _ _ _ _ hfilled
  refine ⟨out.1,out.2,l,hfilled,hl,hiff.mpr (@NothingEmpty.mk plainLib _
    (fun c hc => (hbridges c hc).1) (fun c hc => ?_) (fun n hn => ?_) fun c hc => ?_)⟩
  · obtain ⟨-,hbuses,hranges⟩ := hbridges c hc
    rw [hranges]
    exact ⟨hbuses,fun r hr => absurd hr List.not_mem_nil⟩
  · rw [hserial] at hn
    cases hn
  · rw [hvirtios] at hc
    exact absurd hc List.not_mem_nil

/-- With all 256 buses the length of the range is 255. -/
theorem populate_all_buses : ∃ n buf' l,
    @populate plainLib (busTree 255) sampleOem 0x1000 (List.replicate 1000 7)=.ok (n,buf') ∧
    @run plainLib (busTree 255)=.ok l ∧
    ¬@RangesRight plainLib (busTree 255) (bytesIn (Layouted.offsets l).dsdt (buf'.take n)) := by
  have hsome : (@populate plainLib (busTree 255) sampleOem 0x1000
      (List.replicate 1000 7)).toOption.isSome=true := by decide +kernel
  have hall : ∃ c∈@hostBridges plainLib (busTree 255), buses c=(0,255) := by decide +kernel
  obtain ⟨out,hfilled⟩ := exists_ok hsome
  obtain ⟨l,hl,hread,-,-,htable⟩ := @populate_objects plainLib _ _ _ _ _ _ hfilled
  refine ⟨out.1,out.2,l,hfilled,hl,fun hright => ?_⟩
  obtain ⟨c,hc,hbuses⟩ := hall
  have hempty := (@rangesRight_iff plainLib _ hread _ _ htable).mp hright
  exact (@NothingEmpty.windows plainLib _ hempty c hc).1 hbuses

end Arma.Acpi.Addresses
