import Mathlib.Tactic.Common
import Arma.Acpi.Segments
import Arma.Tatu.MemoryMap

/-!
# Configuration space of the host bridges

A bus of a bridge has a window of a mebibyte in configuration space. The window
is derived from the table of configuration spaces, whose addresses count from
bus zero, and must be the one that the bridge's `reg` gives to the bus. It must
also be reserved twice, by a device of the namespace and in the memory map.
-/

namespace Arma.Tatu.ConfigSpace

open Base.ByteString Base.Checked Base.Writer Devtree Validate E820
open Acpi.Dtb Acpi.Bridges Acpi.Layout Acpi.Numbered Acpi.Count Acpi.Populate Acpi.Sdt Acpi.Image
  Acpi.Namespace

/-- Bytes of configuration space of a bus. -/
def busSize : ℕ := 2^20

/-- The entries of the memory map for a bridge's own `reg`; children of other
names are taken for something else. -/
def bridgeEntries (child : Node) : List E820Entry :=
  if topSegment child.name="memory" ∨ topSegment child.name="reserved-memory" then []
  else (regs child).map (entryOf .reserved)

/-- The window of a bus of the bridge of a number. -/
structure BusWindow (off : Offsets) (t : Bytes) (es : List E820Entry) (k : ℕ) (c : DtbNode)
    (bus base : ℕ) : Prop where
  /-- The window is derived from the allocation of that number. -/
  derived : ∃ a, (mcfgAllocations off t)[k]?=some a ∧ base=a.baseAddress+bus*busSize
  /-- The window is the one that the bridge's `reg` gives to the bus. -/
  binding : base=(ecam c).1+(bus-(buses c).1)*busSize
  /-- The window is reserved by the device of that number. -/
  motherboard : ∃ d p, (motherboardDevices off t)[k]?=some d ∧
    qwordMemoryAt motherboardMemoryOffset d=some p ∧ p.1≤base ∧ base+busSize≤p.1+p.2
  /-- The window is reserved in the memory map. -/
  e820 : ∃ e∈bridgeEntries c.node, e∈es ∧ e.kind=.reserved ∧ e.addr≤base ∧
    base+busSize≤e.addr+e.size

/-- What a bridge must satisfy for the windows of all its buses to be in place
and reserved. -/
structure Covered (c : DtbNode) : Prop where
  /-- The buses start at zero. -/
  first : (buses c).1=0
  /-- The `reg` has a window for every bus. -/
  size : ((buses c).2+1)*busSize≤(ecam c).2
  /-- The memory map takes the node for a bridge. -/
  name : ¬(topSegment c.node.name="memory" ∨ topSegment c.node.name="reserved-memory")
  /-- The windows lie in the `reg` as the memory map reads it, in groups of four
  cells. -/
  groups : ∀ bus≤(buses c).2, ∃ r∈regs c.node, r.gpa≤(ecam c).1+bus*busSize ∧
    (ecam c).1+bus*busSize+busSize ≤ r.gpa+r.size

/-- A `reg` of two address and two size cells is read alike by both sides. -/
theorem ecam_mem_regs {c : DtbNode} (ha : c.parentAddrCells=2) (hs : c.parentSizeCells=2)
    (h : firstReg c .pciHost=some (ecam c)) : (⟨(ecam c).1,(ecam c).2⟩ : Region)∈regs c.node := by
  have ⟨pairs,hpairs,hfirst⟩ := firstReg_some.mp h
  have ⟨raw,hraw,hiter⟩ := bind_ok.mp hpairs
  have hreg := okOr_ok.mp hraw
  rw [ha,hs,regIter,if_neg (by decide),if_neg (by decide)] at hiter
  have hall := Except.ok.inj hiter
  have hcount : raw.length/16≠0 := by
    intro hzero
    rw [←hall,regPairs,hzero] at hfirst
    cases hfirst
  have ⟨count,hcount⟩ := Nat.exists_eq_succ_of_ne_zero hcount
  have hpair : ecam c=regPair 2 (raw.take 16) := by
    rw [←hall,regPairs] at hfirst
    change (decodeRecords 16 (regPair 2) (raw.length/16) raw).head?=some (ecam c) at hfirst
    rw [hcount,decodeRecords] at hfirst
    exact (Option.some.inj hfirst).symm
  have hregion : parseRegions raw=parseOneRegion (raw.take 16)::
      decodeRecords 16 parseOneRegion count (raw.drop 16) := by
    rw [parseRegions,hcount,decodeRecords]
  have hsame : parseOneRegion (raw.take 16)=⟨(ecam c).1,(ecam c).2⟩ := by
    rw [hpair,regPair,parseOneRegion]
    dsimp only
    have hsecond : slice 8 8 (raw.take 16)=(raw.take 16).drop (4*2) := by
      rw [slice,List.take_of_length_le]
      rw [List.length_drop,List.length_take]
      omega
    rw [hsecond,slice,List.drop_zero]
  rw [regs,hreg,Option.map_some,Option.getD_some,hregion,hsame]
  exact List.mem_cons_self

/-- With two address and two size cells the `reg` need only start at bus zero,
have a window for every bus and belong to a node of another name. -/
theorem covered_of_cells {c : DtbNode} (ha : c.parentAddrCells=2) (hs : c.parentSizeCells=2)
    (h : firstReg c .pciHost=some (ecam c)) (hfirst : (buses c).1=0)
    (hsize : ((buses c).2+1)*busSize≤(ecam c).2)
    (hname : ¬(topSegment c.node.name="memory" ∨ topSegment c.node.name="reserved-memory")) :
    Covered c := by
  refine ⟨hfirst,hsize,hname,fun bus hbus => ⟨_,ecam_mem_regs ha hs h,?_,?_⟩⟩
  · exact Nat.le_add_right _ _
  · have hle : (bus+1)*busSize≤((buses c).2+1)*busSize := Nat.mul_le_mul_right _ (by omega)
    rw [Nat.add_mul] at hle
    dsimp only
    omega

section Map

variable [DevtreeLib]

/-- Both walks find the same host bridges. -/
theorem lists_isBridge {c : DtbNode} (h : c.lists pciHostCompatible=true) :
    isBridge c.node=true := by
  obtain ⟨strs,hstrs,hmem⟩ := lists_some h
  unfold isBridge E820.hasCompatible
  rw [hstrs]
  exact decide_eq_true hmem

/-- A host bridge is a child of the root. -/
theorem hostBridges_mem {root : Node} {c : DtbNode} (h : c∈hostBridges root) :
    c.node∈root.children ∧ c.lists pciHostCompatible=true := by
  have ⟨hmem,hlists⟩ := List.mem_filter.mp h
  refine ⟨?_,hlists⟩
  unfold DtbNode.children at hmem
  cases hcells : (rootOf root).ownCells with
  | error e =>
    rw [hcells] at hmem
    cases hmem
  | ok cells =>
    rw [hcells] at hmem
    have ⟨n,hn,hc⟩ := List.mem_map.mp hmem
    rw [←hc]
    exact hn

/-- The entries for a bridge's own `reg` are in the memory map. -/
theorem bridgeEntries_subset (hlaw : CellsLaw) {root : Node} {room : ℕ} {es : List E820Entry}
    (h : extractE820 root room=.ok es) {c : DtbNode} (hc : c∈hostBridges root) :
    ∀ e∈bridgeEntries c.node, e∈es ∧ e.kind=.reserved := by
  intro e he
  have ⟨hchild,hlists⟩ := hostBridges_mem hc
  have hbridge := lists_isBridge hlists
  have ⟨_,hes,_⟩ := (extractE820_ok hlaw).mp h
  unfold bridgeEntries at he
  split at he
  · cases he
  · rename_i hname
    have ⟨hmem,hres⟩ := not_or.mp hname
    have hentries : childEntries c.node=(regs c.node).map (entryOf .reserved) := by
      rw [childEntries,if_neg hmem,if_neg hres,if_pos hbridge]
    have ⟨r,_,hr⟩ := List.mem_map.mp he
    rw [←hentries] at he
    rw [hes]
    exact ⟨List.mem_flatMap.mpr ⟨c.node,hchild,he⟩,by rw [←hr]; rfl⟩

/-- The windows of all buses of all bridges are in place and reserved. -/
def Reserved (root : Node) (off : Offsets) (t : Bytes) (es : List E820Entry) : Prop :=
  ∀ k c, (hostBridges root)[k]?=some c → ∀ bus, (buses c).1≤bus → bus≤(buses c).2 →
    ∃ base, BusWindow off t es k c bus base

variable {root : Node} {off : Offsets} {t : Bytes} {es : List E820Entry}

/-- What the image has for the bridge of a number. -/
theorem bridge_at (h : Populated root off t) {k : ℕ} {c : DtbNode}
    (hc : (hostBridges root)[k]?=some c) :
    (mcfgAllocations off t)[k]?=some ⟨(ecam c).1,0,(buses c).1,(buses c).2⟩ ∧
      ∃ d, (motherboardDevices off t)[k]?=some d ∧
        qwordMemoryAt motherboardMemoryOffset d=some (ecam c) := by
  constructor
  · rw [h.mcfg,List.getElem?_map,hc]
    rfl
  · have hmbr := congrArg (fun l => l[k]?) h.mbr
    rw [List.getElem?_map,List.getElem?_map,hc] at hmbr
    exact Option.map_eq_some_iff.mp hmbr

/-- The windows of a bridge are in place and reserved exactly when its buses
start at zero and its `reg` covers them in both readings. -/
theorem busWindows_iff (hlaw : CellsLaw) {room : ℕ} (hmap : extractE820 root room=.ok es)
    (h : Populated root off t) {k : ℕ} {c : DtbNode} (hc : (hostBridges root)[k]?=some c) :
    (∀ bus, (buses c).1≤bus → bus≤(buses c).2 → ∃ base, BusWindow off t es k c bus base) ↔
      Covered c := by
  have hmem := List.mem_of_getElem? hc
  have ⟨halloc,d,hd,hread⟩ := bridge_at h hc
  have horder := (h.busRange c hmem).2
  have hsubset := bridgeEntries_subset hlaw hmap hmem
  have hbase : ∀ {bus base}, BusWindow off t es k c bus base →
      base=(ecam c).1+bus*busSize := by
    intro bus base hwindow
    have ⟨a,ha,heq⟩ := hwindow.derived
    rw [halloc] at ha
    rw [heq,←Option.some.inj ha]
  constructor
  · intro hall
    have hfirst : (buses c).1=0 := by
      have ⟨base,hwindow⟩ := hall _ (Nat.le_refl _) horder
      have hderived := hbase hwindow
      have hbinding := hwindow.binding
      rw [Nat.sub_self,Nat.zero_mul,Nat.add_zero] at hbinding
      have hzero : (buses c).1*busSize=0 := by omega
      exact (Nat.mul_eq_zero.mp hzero).resolve_right (by decide)
    have ⟨last,hlast⟩ := hall _ horder (Nat.le_refl _)
    have hlastBase := hbase hlast
    refine ⟨hfirst,?_,?_,fun bus hbus => ?_⟩
    · have ⟨d',p,hd',hp,_,hend⟩ := hlast.motherboard
      rw [hd] at hd'
      rw [←Option.some.inj hd',hread] at hp
      rw [←Option.some.inj hp,hlastBase] at hend
      rw [Nat.add_mul]
      omega
    · have ⟨e,he,_⟩ := hlast.e820
      intro hname
      rw [bridgeEntries,if_pos hname] at he
      cases he
    · have ⟨base,hwindow⟩ := hall bus (by omega) hbus
      have ⟨e,he,_,_,hlow,hhigh⟩ := hwindow.e820
      rw [hbase hwindow] at hlow hhigh
      unfold bridgeEntries at he
      split at he
      · cases he
      · have ⟨r,hr,hentry⟩ := List.mem_map.mp he
        rw [←hentry] at hlow hhigh
        exact ⟨r,hr,hlow,hhigh⟩
  · intro hcovered bus _ hbus
    have hlast : (bus+1)*busSize≤((buses c).2+1)*busSize := Nat.mul_le_mul_right _ (by omega)
    have hsize := hcovered.size
    rw [Nat.add_mul] at hlast
    refine ⟨(ecam c).1+bus*busSize,⟨_,halloc,rfl⟩,?_,⟨d,_,hd,hread,?_,?_⟩,?_⟩
    · rw [hcovered.first,Nat.sub_zero]
    · omega
    · omega
    · have ⟨r,hr,hlow,hhigh⟩ := hcovered.groups bus hbus
      have hentry : entryOf .reserved r∈bridgeEntries c.node := by
        rw [bridgeEntries,if_neg hcovered.name]
        exact List.mem_map_of_mem hr
      have ⟨hes,hkind⟩ := hsubset _ hentry
      exact ⟨_,hentry,hes,hkind,hlow,hhigh⟩

/-- All windows are in place and reserved exactly when every bridge's are. -/
theorem reserved_iff (hlaw : CellsLaw) {room : ℕ} (hmap : extractE820 root room=.ok es)
    (h : Populated root off t) : Reserved root off t es ↔ ∀ c∈hostBridges root, Covered c := by
  constructor
  · intro hall c hc
    have ⟨k,hk⟩ := List.mem_iff_getElem?.mp hc
    exact (busWindows_iff hlaw hmap h hk).mp (hall k c hk)
  · intro hall k c hk
    exact (busWindows_iff hlaw hmap h hk).mpr (hall c (List.mem_of_getElem? hk))

/-- When a buffer and a memory map have been filled for a tree, the windows of
all buses are in place and reserved exactly when the buses of every bridge start
at zero and its `reg` covers them. -/
theorem configSpace_iff (hlaw : CellsLaw) {oem : OemIdentity} {baseGpa n room : ℕ}
    {buf buf' : Bytes} (h : populate root oem baseGpa buf=.ok (n,buf'))
    (hmap : extractE820 root room=.ok es) : ∃ l, run root=.ok l ∧
      (Reserved root l.offsets (buf'.take n) es ↔ ∀ c∈hostBridges root, Covered c) := by
  have ⟨l,hl,hpopulated⟩ := populate_populated h
  exact ⟨l,hl,reserved_iff hlaw hmap hpopulated⟩

end Map

/-- The sample tree with one bridge of the given buses, in a `reg` of sixteen
mebibytes. -/
def sampleBridges (firstBus lastBus : ℕ) : Node :=
  Acpi.Segments.bridgeTree [Acpi.Segments.sampleBridge 0x10000000 firstBus lastBus 0x1000000]

/-- The windows of a bridge with sixteen buses are in place and reserved. -/
theorem configSpace_iff_sample : ∃ n buf' l es,
    @populate plainLib (sampleBridges 0 15) sampleOem 0x1000 (List.replicate 1000 7)=
      .ok (n,buf') ∧
    @run plainLib (sampleBridges 0 15)=.ok l ∧
    @extractE820 plainLib (sampleBridges 0 15) 127=.ok es ∧
    @Reserved plainLib (sampleBridges 0 15) l.offsets (buf'.take n) es := by
  have hsome : (@populate plainLib (sampleBridges 0 15) sampleOem 0x1000
      (List.replicate 1000 7)).toOption.isSome=true := by decide +kernel
  have hmapSome : (@extractE820 plainLib (sampleBridges 0 15) 127).toOption.isSome=true := by
    decide +kernel
  have hbridges : ∀ c∈@hostBridges plainLib (sampleBridges 0 15),
      c.parentAddrCells=2 ∧ c.parentSizeCells=2 ∧ firstReg c .pciHost=some (ecam c) ∧
        (buses c).1=0 ∧ ((buses c).2+1)*busSize≤(ecam c).2 ∧
        ¬(topSegment c.node.name="memory" ∨ topSegment c.node.name="reserved-memory") := by
    decide +kernel
  have ⟨out,hfilled⟩ := exists_ok hsome
  have ⟨es,hmap⟩ := exists_ok hmapSome
  have ⟨l,hl,hiff⟩ := @configSpace_iff plainLib _ es MemoryMap.cellsLaw_plainLib _ _ _ _ _ _
    hfilled hmap
  refine ⟨out.1,out.2,l,es,hfilled,hl,hmap,hiff.mpr fun c hc => ?_⟩
  have ⟨ha,hs,hreg,hfirst,hsize,hname⟩ := hbridges c hc
  exact covered_of_cells ha hs hreg hfirst hsize hname

/-- A bridge whose buses start at sixteen is written, and so is its entry of the
memory map, but the windows of its buses are not where its `reg` has them. -/
theorem configSpace_late_bus : ∃ n buf' l es,
    @populate plainLib (sampleBridges 16 31) sampleOem 0x1000 (List.replicate 1000 7)=
      .ok (n,buf') ∧
    @run plainLib (sampleBridges 16 31)=.ok l ∧
    @extractE820 plainLib (sampleBridges 16 31) 127=.ok es ∧
    ¬@Reserved plainLib (sampleBridges 16 31) l.offsets (buf'.take n) es := by
  have hsome : (@populate plainLib (sampleBridges 16 31) sampleOem 0x1000
      (List.replicate 1000 7)).toOption.isSome=true := by decide +kernel
  have hmapSome : (@extractE820 plainLib (sampleBridges 16 31) 127).toOption.isSome=true := by
    decide +kernel
  have hlate : ∃ c∈@hostBridges plainLib (sampleBridges 16 31), (buses c).1=16 := by
    decide +kernel
  have ⟨out,hfilled⟩ := exists_ok hsome
  have ⟨es,hmap⟩ := exists_ok hmapSome
  have ⟨l,hl,hpopulated⟩ := @populate_populated plainLib _ _ _ _ _ _ hfilled
  refine ⟨out.1,out.2,l,es,hfilled,hl,hmap,fun hall => ?_⟩
  have ⟨c,hc,hsixteen⟩ := hlate
  have hcovered := (@reserved_iff plainLib _ _ _ _ MemoryMap.cellsLaw_plainLib _ hmap
    hpopulated).mp hall c hc
  have hzero := hcovered.first
  omega

end Arma.Tatu.ConfigSpace
