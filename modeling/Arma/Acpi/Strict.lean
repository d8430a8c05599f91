import Mathlib.Tactic.Common
import Arma.Acpi.Console
import Arma.Acpi.Madt
import Arma.Tatu.DeviceSpace

/-!
# Whole properties

A `reg` and a `ranges` are read tuple by tuple until too few bytes are left, a `bus-range` as far
as its second cell, and an interrupt of a sense that is not listed is announced as that of a
rising edge. Nothing is dropped or guessed as long as no property ends inside a tuple, no
`bus-range` goes on and every sense is listed.
-/

namespace Arma.Acpi.Strict

open Base.ByteString Base.Bytecode Base.Checked Base.Resources Base.Writer Devtree Dtb Numbered Aml
  Bridges Layout Sdt Numa Tables Serial Spcr Count Counted Capacity Collected Populate Image Filled
  Namespace Objects Templates Console Madt Tatu.E820 Tatu.DeviceSpace

/-- A `reg` is a row of whole pairs, and these are what is decoded. -/
def RegWhole (p : DtbNode×Site) : Prop :=
  ∃ raw regs, p.1.node.property "reg"=some raw ∧ p.1.reg p.2=.ok regs ∧
    Whole (4*(p.1.parentAddrCells+p.1.parentSizeCells)) (regPair p.1.parentAddrCells) raw regs

/-- A `reg` ends with a pair. -/
def RegEnds (p : DtbNode×Site) : Prop :=
  ∀ raw∈p.1.node.property "reg", raw.length%(4*(p.1.parentAddrCells+p.1.parentSizeCells))=0

/-- Whether it does can be computed. -/
instance (p : DtbNode×Site) : Decidable (RegEnds p) := inferInstanceAs (Decidable
  (∀ raw∈p.1.node.property "reg", raw.length%(4*(p.1.parentAddrCells+p.1.parentSizeCells))=0))

/-- A `ranges`, if there is one, is a row of whole windows, and these are what is decoded. -/
def RangesWhole (c : DtbNode) : Prop :=
  ∀ raw∈c.node.property "ranges", ∃ windows, c.pciRanges=.ok (some windows) ∧
    Whole (4*(5+c.parentAddrCells)) (pciRange c.parentAddrCells) raw windows

/-- A `ranges`, if there is one, ends with a window. -/
def RangesEnds (c : DtbNode) : Prop :=
  ∀ raw∈c.node.property "ranges", raw.length%(4*(5+c.parentAddrCells))=0

/-- Whether it does can be computed. -/
instance (c : DtbNode) : Decidable (RangesEnds c) := inferInstanceAs (Decidable
  (∀ raw∈c.node.property "ranges", raw.length%(4*(5+c.parentAddrCells))=0))

/-- A `bus-range` is one pair of cells, and this is what is decoded. -/
def BusesWhole (c : DtbNode) : Prop :=
  ∃ raw bus, c.node.property "bus-range"=some raw ∧ c.decodePciBusRange=.ok bus ∧
    Whole 8 (regPair 1) raw [bus]

/-- A `bus-range` does not go on behind its second cell. -/
def BusesEnds (c : DtbNode) : Prop := ∀ raw∈c.node.property "bus-range", raw.length≤8

/-- Whether it does can be computed. -/
instance (c : DtbNode) : Decidable (BusesEnds c) :=
  inferInstanceAs (Decidable (∀ raw∈c.node.property "bus-range", raw.length≤8))

/-- Nodes with the site that reads them. -/
def atSite (site : Site) (nodes : List DtbNode) : List (DtbNode×Site) :=
  nodes.map fun c => (c,site)

/-- What holds of nodes at a site. -/
theorem forall_atSite {P : DtbNode×Site → Prop} {site : Site} {nodes : List DtbNode} :
    (∀ p∈atSite site nodes, P p) ↔ ∀ c∈nodes, P (c,site) := by
  rw [atSite,List.forall_mem_map]

/-- The sense is one that an interrupt can be announced with: a rising edge, or one that the
choice of trigger and polarity names. -/
def Listed (sense : ℕ) : Prop := sense=1 ∨ triggerPolarity sense≠0b010

/-- Whether it is can be computed. -/
instance (sense : ℕ) : Decidable (Listed sense) :=
  inferInstanceAs (Decidable (sense=1 ∨ triggerPolarity sense≠0b010))

/-- The sense that the trigger and the polarity of an interrupt mean. -/
def flagsSense (flags : ℕ) : ℕ :=
  if flags.testBit 1 then if flags.testBit 2 then 2 else 1
  else if flags.testBit 2 then 8 else 4

/-- The listed senses. -/
theorem listed_iff {sense : ℕ} : Listed sense ↔ sense∈[1,2,4,8] := by
  unfold Listed triggerPolarity
  split <;> simp_all

/-- A sense is announced as itself exactly when it is listed. -/
theorem flagsSense_senseFlags {sense : ℕ} : flagsSense (senseFlags sense)=sense ↔ Listed sense := by
  unfold Listed senseFlags triggerPolarity
  split
  · exact iff_of_true (by decide) (.inr (by decide))
  · exact iff_of_true (by decide) (.inr (by decide))
  · exact iff_of_true (by decide) (.inr (by decide))
  · have hrising : flagsSense (1 ||| (2 : UInt8)).toNat=1 := by decide
    rw [hrising]
    exact ⟨fun h => .inl h.symm,fun h => (h.resolve_right (not_not_intro rfl)).symm⟩

/-- A `reg` that is read is whole exactly when it ends with a pair. -/
theorem regWhole_iff {p : DtbNode×Site} {regs : List (ℕ×ℕ)} (h : p.1.reg p.2=.ok regs) :
    RegWhole p ↔ RegEnds p := by
  have hread := h
  obtain ⟨raw,hraw,hpairs⟩ := bind_ok.mp hread
  have hprop := okOr_ok.mp hraw
  unfold regIter at hpairs
  split at hpairs
  · exact absurd hpairs fail_ne_ok
  · split at hpairs
    · exact absurd hpairs fail_ne_ok
    · cases hpairs
      have hends : RegEnds p ↔
          raw.length%(4*(p.1.parentAddrCells+p.1.parentSizeCells))=0 := by
        rw [RegEnds,hprop]
        exact ⟨fun hall => hall raw rfl,fun hmod bs hbs => Option.mem_some_iff.mp hbs ▸ hmod⟩
      rw [hends,←whole_iff (regPair p.1.parentAddrCells)]
      constructor
      · rintro ⟨bs,found,hbs,hfound,hwhole⟩
        cases hbs.symm.trans hprop
        cases hfound.symm.trans h
        exact hwhole
      · exact fun hwhole => ⟨raw,_,hprop,h,hwhole⟩

/-- A `ranges` that is read is whole exactly when it ends with a window. -/
theorem rangesWhole_iff {c : DtbNode} {windows : Option (List PciRange)}
    (h : c.pciRanges=.ok windows) : RangesWhole c ↔ RangesEnds c := by
  refine forall₂_congr fun raw hraw => ?_
  have hread := h
  rw [DtbNode.pciRanges,Option.mem_def.mp hraw] at hread
  dsimp only at hread
  split at hread
  · exact absurd hread fail_ne_ok
  · cases hread
    rw [←whole_iff (pciRange c.parentAddrCells)]
    constructor
    · rintro ⟨found,hfound,hwhole⟩
      cases hfound.symm.trans h
      exact hwhole
    · exact fun hwhole => ⟨_,h,hwhole⟩

/-- The cells of a pair. -/
theorem cells_pair {raw : Bytes} (h : raw.length=8) :
    decodeRecords 4 ofBE (raw.length/4) raw=[(regPair 1 raw).1,(regPair 1 raw).2] := by
  have hrest : (raw.drop 4).take 4=raw.drop 4 := by
    refine List.take_of_length_le ?_
    rw [List.length_drop]
    omega
  rw [h]
  change [ofBE (raw.take 4),ofBE ((raw.drop 4).take 4)]=_
  rw [hrest]
  rfl

/-- Two cells or more take eight bytes or more. -/
theorem length_of_second {raw : Bytes} {v : ℕ} (h : (cellsAsU32s raw)[1]?=some v) :
    8≤raw.length := by
  obtain ⟨hlt,-⟩ := List.getElem?_eq_some_iff.mp h
  rw [cellsAsU32s,length_decodeRecords] at hlt
  omega

/-- A `bus-range` that is read is whole exactly when it does not go on. -/
theorem busesWhole_iff {c : DtbNode} {bus : ℕ×ℕ} (h : c.decodePciBusRange=.ok bus) :
    BusesWhole c ↔ BusesEnds c := by
  have hread := h
  obtain ⟨raw,hraw,hread⟩ := bind_ok.mp hread
  obtain ⟨start,hstart,hread⟩ := bind_ok.mp hread
  obtain ⟨stop,hstop,hread⟩ := bind_ok.mp hread
  obtain ⟨busStart,hbusStart,hread⟩ := bind_ok.mp hread
  obtain ⟨busEnd,hbusEnd,hread⟩ := bind_ok.mp hread
  obtain ⟨rfl,-⟩ := narrow_eq_some.mp (okOr_ok.mp hbusStart)
  obtain ⟨rfl,-⟩ := narrow_eq_some.mp (okOr_ok.mp hbusEnd)
  have hprop := okOr_ok.mp hraw
  have hlong := length_of_second (okOr_ok.mp hstop)
  have hends : BusesEnds c ↔ raw.length=8 := by
    rw [BusesEnds,hprop]
    refine ⟨fun hall => le_antisymm (hall raw rfl) hlong,fun hlen bs hbs => ?_⟩
    rw [←Option.mem_some_iff.mp hbs]
    exact hlen.le
  rw [hends]
  constructor
  · rintro ⟨bs,found,hbs,-,hwhole⟩
    cases hbs.symm.trans hprop
    exact (whole_singleton.mp hwhole).1
  · intro hlen
    have hcells := cells_pair hlen
    have hfirst := okOr_ok.mp hstart
    have hsecond := okOr_ok.mp hstop
    rw [cellsAsU32s,hcells] at hfirst hsecond
    refine ⟨raw,bus,hprop,h,whole_singleton.mpr ⟨hlen,?_⟩⟩
    split at hread
    · exact absurd hread fail_ne_ok
    · cases hread
      exact Prod.ext (Option.some.inj hfirst) (Option.some.inj hsecond)

/-- The second cell of an `interrupts` is a listed sense. -/
def SenseListed (p : DtbNode×Site) : Prop :=
  ∀ raw∈p.1.node.property "interrupts", Listed (regPair 1 raw).2

/-- Whether it is can be computed. -/
instance (p : DtbNode×Site) : Decidable (SenseListed p) := inferInstanceAs (Decidable
  (∀ raw∈p.1.node.property "interrupts", Listed (regPair 1 raw).2))

section Strict

variable [DevtreeLib]

/-- An `interrupts` is one pair of cells with a defined sense, and this is what is decoded. -/
def InterruptsWhole (p : DtbNode×Site) : Prop :=
  ∃ raw irq, p.1.node.property "interrupts"=some raw ∧ p.1.decodeInterrupts2 p.2=.ok irq ∧
    Whole 8 (regPair 1) raw [irq] ∧ irq.2∈[1,2,4,8]

/-- The kind that the memory map gives to a node's own `reg`. -/
def regKind (n : Node) : Option E820Type :=
  if topSegment n.name="memory" then some .usable
  else if topSegment n.name="reserved-memory" then none
  else if isBridge n then some .reserved
  else none

/-- The memory map has the pairs of the node's own `reg`, as long as there is room for them. -/
def Mapped (p : DtbNode×Site) : Prop :=
  ∃ kind regs, regKind p.1.node=some kind ∧ p.1.reg p.2=.ok regs ∧
    ∀ room, regs.length≤room →
      extractChild p.1.node room=.ok (regs.map fun r => ⟨r.1,r.2,kind⟩)

/-- The nodes for power-off and reset. -/
def sysconsOf (root : Node) : Option DtbNode×Option DtbNode :=
  ((value (rootOf root).children).bind fun kids => value (findSyscons kids none none)).getD
    (none,none)

/-- The nodes whose `reg` reaches the tables. The memory nodes are among them when there is an
affinity table. -/
def registers (root : Node) (off : Offsets) : List (DtbNode×Site) :=
  atSite .cpu (cpusOf root)++(atSite .intc ((value (findLapic (rootOf root))).toList++
    ioapicsOf root)++(atSite .sysconPoweroff (sysconsOf root).1.toList++
      (atSite .sysconReboot (sysconsOf root).2.toList++(atSite .pciHost (hostBridges root)++
        (atSite .memory (if off.srat.isSome then memoriesOf root else [])++
          (atSite .serial ((serialOf root).toList++(consoleOf root).toList)++
            atSite .virtioMmio (virtios root)))))))

/-- The devices of the namespace that have an interrupt. -/
def lineDevices (root : Node) : List (DtbNode×Site) :=
  atSite .serial (serialOf root).toList++atSite .virtioMmio (virtios root)

/-- The nodes whose `interrupts` reaches the tables. -/
def interrupts (root : Node) : List (DtbNode×Site) :=
  lineDevices root++atSite .serial (consoleOf root).toList

/-- The memory nodes and the host bridges. -/
def mappedNodes (root : Node) : List (DtbNode×Site) :=
  atSite .memory (memoriesOf root)++atSite .pciHost (hostBridges root)

/-- Every property that reaches the tables consists of what is decoded from it, and the namespace
announces every interrupt with its sense. When the root has two address and two size cells, the
memory map has the same regions. -/
structure StrictlyDecoded (root : Node) (off : Offsets) (dsdt : Bytes) : Prop where
  /-- Registers. -/
  regs : ∀ p∈registers root off, RegWhole p
  /-- Windows of the host bridges. -/
  windows : ∀ c∈hostBridges root, RangesWhole c
  /-- Their buses. -/
  buses : ∀ c∈hostBridges root, BusesWhole c
  /-- Interrupts. -/
  lines : ∀ p∈interrupts root, InterruptsWhole p
  /-- Senses in the namespace. -/
  senses : ∃ objects, readObjects dsdt=some objects ∧
    (inTemplates flagsIn objects).map flagsSense=
      (lineDevices root).map fun p => (irqOf p.1 p.2).2
  /-- Regions in the memory map. -/
  mapped : (rootOf root).ownCells=.ok (2,2) → ∀ p∈mappedNodes root, Mapped p

/-- No property ends inside a tuple, no `bus-range` goes on, and every sense is listed. When the
root has two address and two size cells, this holds of all memory nodes, and no host bridge has
the name of reserved memory. -/
structure NothingLeft (root : Node) (off : Offsets) : Prop where
  /-- Registers. -/
  regs : ∀ p∈registers root off, RegEnds p
  /-- Windows of the host bridges. -/
  windows : ∀ c∈hostBridges root, RangesEnds c
  /-- Their buses. -/
  buses : ∀ c∈hostBridges root, BusesEnds c
  /-- Interrupts. -/
  senses : ∀ p∈interrupts root, SenseListed p
  /-- Regions of the memory nodes. -/
  memories : (rootOf root).ownCells=.ok (2,2) → ∀ c∈memoriesOf root, RegEnds (c,.memory)
  /-- Names of the host bridges. -/
  named : (rootOf root).ownCells=.ok (2,2) →
    ∀ c∈hostBridges root, topSegment c.name≠"reserved-memory"

/-- An `interrupts` that is read is a pair of cells. -/
theorem decodeInterrupts2_pair (hlaw : CellsLaw) {c : DtbNode} {site : Site} {irq : ℕ×ℕ}
    (h : c.decodeInterrupts2 site=.ok irq) :
    ∃ raw, c.node.property "interrupts"=some raw ∧ raw.length=8 ∧ regPair 1 raw=irq := by
  obtain ⟨raw,hraw,h⟩ := bind_ok.mp h
  obtain ⟨cells,hcells,h⟩ := bind_ok.mp h
  have hcells := okOr_ok.mp hcells
  rw [hlaw raw] at hcells
  split at hcells
  · rename_i hmod
    split at h
    · rename_i gsi sense
      have hall := Option.some.inj hcells
      have hlen := congrArg List.length hall
      rw [List.length_map,length_decodeRecords] at hlen
      have height : raw.length=8 := by
        rw [List.length_cons,List.length_singleton] at hlen
        omega
      rw [cells_pair height,List.map_cons,List.map_singleton] at hall
      cases h
      have hword : ∀ bs : Bytes, bs.length≤4 → (UInt32.ofNat (ofBE bs)).toNat=ofBE bs := by
        intro bs hbs
        have hlt := ofBE_lt bs
        have hpow : 256^bs.length≤256^4 := Nat.pow_le_pow_right (by norm_num) hbs
        exact UInt32.toNat_ofNat_of_lt' (by rw [UInt32.size]; omega)
      refine ⟨raw,okOr_ok.mp hraw,height,Prod.ext ?_ ?_⟩
      · rw [←(List.cons.inj hall).1]
        exact (hword _ (List.length_take_le _ _)).symm
      · rw [←(List.cons.inj (List.cons.inj hall).2).1]
        refine (hword _ ?_).symm
        rw [List.length_drop]
        omega
    · exact absurd h fail_ne_ok
  · cases hcells

/-- An `interrupts` that is read is whole with a defined sense exactly when its second cell is a
listed one. -/
theorem interruptsWhole_iff (hlaw : CellsLaw) {p : DtbNode×Site} {irq : ℕ×ℕ}
    (h : p.1.decodeInterrupts2 p.2=.ok irq) : InterruptsWhole p ↔ SenseListed p := by
  obtain ⟨raw,hraw,hlen,hpair⟩ := decodeInterrupts2_pair hlaw h
  have hlisted : SenseListed p ↔ Listed irq.2 := by
    rw [SenseListed,hraw,←hpair]
    exact ⟨fun hall => hall raw rfl,fun hone bs hbs => Option.mem_some_iff.mp hbs ▸ hone⟩
  rw [hlisted,listed_iff]
  constructor
  · rintro ⟨-,found,-,hfound,-,hsense⟩
    cases hfound.symm.trans h
    exact hsense
  · exact fun hsense => ⟨raw,irq,hraw,h,whole_singleton.mpr ⟨hlen,hpair⟩,hsense⟩

/-- A child whose own `reg` the memory map has is given its kind. -/
theorem extractChild_of_kind {n : Node} {kind : E820Type} (h : regKind n=some kind) (room : ℕ) :
    extractChild n room=appendReg kind n room := by
  unfold regKind at h
  unfold extractChild
  split at h
  · rename_i hname
    cases h
    rw [if_pos hname]
  · rename_i hname
    split at h
    · cases h
    · rename_i hreserved
      split at h
      · rename_i hbridge
        cases h
        rw [if_neg hname,if_neg hreserved,if_pos hbridge]
      · cases h

/-- With two address and two size cells the memory map has a node's pairs exactly when it gives
the node a kind and the `reg` ends with a pair. -/
theorem mapped_iff (hlaw : CellsLaw) {p : DtbNode×Site} {regs : List (ℕ×ℕ)}
    (hcells : p.1.parentAddrCells=2 ∧ p.1.parentSizeCells=2) (h : p.1.reg p.2=.ok regs) :
    Mapped p ↔ (regKind p.1.node).isSome=true ∧ RegEnds p := by
  have hread := h
  obtain ⟨raw,hraw,hpairs⟩ := bind_ok.mp hread
  have hprop := okOr_ok.mp hraw
  rw [hcells.1,hcells.2,regIter,if_neg (by omega),if_neg (by omega)] at hpairs
  cases hpairs
  have hends : RegEnds p ↔ RegShape p.1.node := by
    rw [RegEnds,hcells.1,hcells.2,RegShape]
  -- the entries are the pairs, with the kind
  have hentries : ∀ kind, (Tatu.Validate.regs p.1.node).map (entryOf kind)=
      (regPairs 2 2 raw).map fun r => ⟨r.1,r.2,kind⟩ := by
    intro kind
    rw [Tatu.Validate.regs,hprop,Option.map_some,Option.getD_some,regPairs_two,List.map_map]
    rfl
  rw [hends]
  constructor
  · rintro ⟨kind,found,hkind,hfound,hall⟩
    have hmap := hall _ le_rfl
    rw [extractChild_of_kind hkind] at hmap
    exact ⟨by rw [hkind]; rfl,((appendReg_ok hlaw kind _ _ _).mp hmap).1⟩
  · rintro ⟨hsome,hshape⟩
    obtain ⟨kind,hkind⟩ := Option.isSome_iff_exists.mp hsome
    refine ⟨kind,_,hkind,h,fun room hroom => ?_⟩
    rw [extractChild_of_kind hkind]
    refine (appendReg_ok hlaw kind _ _ _).mpr ⟨hshape,(hentries kind).symm,?_⟩
    rwa [List.length_map]

/-- The children of a root with two address and two size cells are read with them. -/
theorem cells_children {root : Node} {kids : List DtbNode} (hkids : (rootOf root).children=.ok kids)
    (hcells : (rootOf root).ownCells=.ok (2,2)) :
    ∀ c∈kids, c.parentAddrCells=2 ∧ c.parentSizeCells=2 := by
  obtain ⟨cells,hfound,hkids⟩ := bind_ok.mp hkids
  cases hfound.symm.trans hcells
  cases hkids
  intro c hc
  obtain ⟨node,-,rfl⟩ := List.mem_map.mp hc
  exact ⟨rfl,rfl⟩

/-- The memory map has the regions of a memory node as usable. -/
theorem regKind_memory {c : DtbNode} (h : baseNameIs c.name "memory"=true) :
    regKind c.node=some .usable := if_pos (of_decide_eq_true h)

/-- It has those of a host bridge, unless that has the name of reserved memory. -/
theorem regKind_bridge {c : DtbNode} (h : c.lists pciHostCompatible=true) :
    (regKind c.node).isSome=true ↔ topSegment c.name≠"reserved-memory" := by
  obtain ⟨strs,hstrs,hmem⟩ := lists_some h
  have hbridge : isBridge c.node=true := by
    rw [isBridge,hasCompatible,hstrs]
    exact decide_eq_true hmem
  change _ ↔ topSegment c.node.name≠_
  rw [regKind,if_pos hbridge]
  split
  · rename_i hname
    rw [hname]
    exact iff_of_true rfl (by decide)
  · split
    · rename_i hreserved
      exact iff_of_false Bool.false_ne_true (not_not_intro hreserved)
    · rename_i hreserved
      exact iff_of_true rfl hreserved

/-- Counting reads the registers of the local interrupt controller and those for power-off and
reset. -/
theorem run_registers {root : Node} {l : Layouted} (h : run root=.ok l) :
    (∀ n, value (findLapic (rootOf root))=some n → ∃ regs, n.reg .intc=.ok regs) ∧
    (∀ n, (sysconsOf root).1=some n → ∃ regs, n.reg .sysconPoweroff=.ok regs) ∧
    ∀ n, (sysconsOf root).2=some n → ∃ regs, n.reg .sysconReboot=.ok regs := by
  obtain ⟨_,_,_,hran⟩ := run_ran h
  obtain ⟨lapic,hlapic,hintc⟩ := bind_ok.mp hran.intc
  obtain ⟨base,hbase,-⟩ := bind_ok.mp hintc
  obtain ⟨lapicRegs,hlapicRegs,-⟩ := bind_ok.mp hbase
  obtain ⟨kids,hkids,hfadt⟩ := bind_ok.mp hran.fadt
  obtain ⟨nodes,hnodes,hfadt⟩ := bind_ok.mp hfadt
  obtain ⟨poweroff,hpoweroff,hfadt⟩ := bind_ok.mp hfadt
  obtain ⟨sleep,hsleep,hfadt⟩ := bind_ok.mp hfadt
  obtain ⟨reset,hreset,-⟩ := bind_ok.mp hfadt
  obtain ⟨sleepRegs,hsleepRegs,-⟩ := bind_ok.mp hsleep
  have hfound : sysconsOf root=nodes := by
    rw [sysconsOf,hkids,value_ok,Option.bind_some,hnodes,value_ok,Option.getD_some]
  rw [hfound,hlapic,value_ok]
  refine ⟨fun n hn => ?_,fun n hn => ?_,fun n hn => ?_⟩
  · cases hn
    exact ⟨lapicRegs,hlapicRegs⟩
  · cases (okOr_ok.mp hpoweroff).symm.trans hn
    exact ⟨sleepRegs,hsleepRegs⟩
  · rw [hn] at hreset
    obtain ⟨av,hav,-⟩ := bind_ok.mp hreset
    obtain ⟨resetRegs,hresetRegs,-⟩ := bind_ok.mp hav
    exact ⟨resetRegs,hresetRegs⟩

/-- The node of a console table has registers and an interrupt. -/
theorem spcr_properties {oem : OemIdentity} {console : DtbNode×Option ℕ} {table : Bytes}
    (h : spcr oem console=some table) : (∃ regs, console.1.reg .serial=.ok regs) ∧
      ∃ irq, console.1.decodeInterrupts2 .serial=.ok irq := by
  obtain ⟨port,hport,-⟩ := Option.bind_eq_some_iff.mp h
  obtain ⟨hready,p,hp,-⟩ := decodeSerial_ok (value_eq_some.mp hport)
  obtain ⟨regs,hregs,-⟩ := firstReg_some.mp hp
  exact ⟨⟨regs,hregs⟩,hready.interrupt⟩

/-- The properties that the tables are made of can be read. -/
structure PropertiesRead (root : Node) (off : Offsets) : Prop where
  /-- Registers. -/
  regs : ∀ p∈registers root off, ∃ regs, p.1.reg p.2=.ok regs
  /-- Windows of the host bridges. -/
  windows : ∀ c∈hostBridges root, ∃ windows, c.pciRanges=.ok windows
  /-- Their buses. -/
  buses : ∀ c∈hostBridges root, ∃ bus, c.decodePciBusRange=.ok bus
  /-- Interrupts. -/
  interrupts : ∀ p∈interrupts root, ∃ irq, p.1.decodeInterrupts2 p.2=.ok irq
  /-- Regions of the memory nodes and the host bridges. -/
  mapped : ∀ p∈mappedNodes root, ∃ regs, p.1.reg p.2=.ok regs

/-- Filling a buffer has read them. -/
theorem propertiesRead {root : Node} {oem : OemIdentity} {l : Layouted} {kids : List DtbNode}
    {serial : Option DtbNode} {console : Option (DtbNode×Option ℕ)} {t : Bytes}
    (hl : run root=.ok l) (hest : Established root l kids serial console)
    (hdesc : Described root l) (hholds : Holds root oem l kids serial console t)
    (hread : NodesRead root) : PropertiesRead root l.offsets := by
  have hfirst : ∀ {c site p}, firstReg c site=some p → ∃ regs, c.reg site=.ok regs := by
    intro c site p hp
    obtain ⟨regs,hregs,-⟩ := firstReg_some.mp hp
    exact ⟨regs,hregs⟩
  obtain ⟨hlapic,hpoweroff,hreboot⟩ := run_registers hl
  have hconsole : ∀ c, consoleOf root=some c → (∃ regs, c.reg .serial=.ok regs) ∧
      ∃ irq, c.decodeInterrupts2 .serial=.ok irq := by
    intro c hc
    obtain ⟨baud,table,-,htable⟩ := console_found hest hholds hc
    exact spcr_properties htable
  have hioapic : ∀ c∈ioapicsOf root, ∃ regs, c.reg .intc=.ok regs := by
    intro c hc
    rw [ioapicsOf,hest.children,value_ok,Option.getD_some] at hc
    obtain ⟨base,hbase⟩ := hest.ioapics c hc
    obtain ⟨p,hp,-⟩ := Option.bind_eq_some_iff.mp hbase
    exact hfirst hp
  have hbridge : ∀ c∈hostBridges root, ∃ regs, c.reg .pciHost=.ok regs :=
    fun c hc => hfirst (hread.ecam c hc).1
  have hmemory : ∀ c∈memoriesOf root, ∃ regs, c.reg .memory=.ok regs :=
    fun c hc => (hdesc.memories c hc).reg
  constructor
  case regs =>
    simp only [registers,List.forall_mem_append,forall_atSite]
    refine ⟨fun c hc => ?_,⟨fun c hc => ?_,hioapic⟩,fun c hc => ?_,fun c hc => ?_,hbridge,
      fun c hc => ?_,⟨fun c hc => ?_,fun c hc => ?_⟩,fun c hc => ?_⟩
    · obtain ⟨apicId,size,hreg,-⟩ := (hdesc.read c hc).reg
      exact hfirst hreg
    · exact hlapic c (Option.mem_toList.mp hc)
    · exact hpoweroff c (Option.mem_toList.mp hc)
    · exact hreboot c (Option.mem_toList.mp hc)
    · split at hc
      · exact hmemory c hc
      · exact absurd hc List.not_mem_nil
    · exact hfirst (hread.port c (Option.mem_toList.mp hc)).reg
    · exact (hconsole c (Option.mem_toList.mp hc)).1
    · exact hfirst (hread.transports c hc).reg
  case windows => exact fun c hc => (hread.windows c hc).1
  case buses => exact fun c hc => ⟨_,hread.buses c hc⟩
  case interrupts =>
    simp only [interrupts,lineDevices,List.forall_mem_append,forall_atSite]
    refine ⟨⟨fun c hc => ?_,fun c hc => ?_⟩,fun c hc => ?_⟩
    · exact ⟨_,(hread.port c (Option.mem_toList.mp hc)).irq⟩
    · exact ⟨_,(hread.transports c hc).irq⟩
    · exact (hconsole c (Option.mem_toList.mp hc)).2
  case mapped =>
    simp only [mappedNodes,List.forall_mem_append,forall_atSite]
    exact ⟨hmemory,hbridge⟩

/-- The registers of the host bridges are among the registers. -/
theorem bridge_mem_registers {root : Node} {off : Offsets} {c : DtbNode} (h : c∈hostBridges root) :
    (c,Site.pciHost)∈registers root off := by
  simp only [registers,List.mem_append]
  exact .inr (.inr (.inr (.inr (.inl (List.mem_map_of_mem h)))))

/-- The namespace announces what the choice of trigger and polarity gives to the senses. -/
theorem flags_namespace {root : Node} (h : NodesRead root) (sleepValue : ℕ) :
    inTemplates flagsIn (s5Object sleepValue::deviceObjects root)=
      (lineDevices root).map fun p => senseFlags (irqOf p.1 p.2).2 := by
  have hranges : ∀ as : List Address, flagsIn (as.map .address++[.endTag])=[] := by
    intro as
    induction as with
    | nil => rfl
    | cons a as ih => exact ih
  rw [inTemplates_devices hranges h,lineDevices,List.map_append,atSite,atSite,List.map_map,
    List.map_map]
  exact congrArg₂ (· ++ ·) (List.flatMap_pure_eq_map _ _) (List.flatMap_pure_eq_map _ _)

/-- It announces the senses themselves exactly when they are listed. -/
theorem senses_iff {root : Node} (h : NodesRead root) (sleepValue : ℕ) :
    (inTemplates flagsIn (s5Object sleepValue::deviceObjects root)).map flagsSense=
      ((lineDevices root).map fun p => (irqOf p.1 p.2).2) ↔
        ∀ p∈lineDevices root, Listed (irqOf p.1 p.2).2 := by
  rw [flags_namespace h,List.map_map,List.map_inj_left]
  exact forall₂_congr fun p _ => flagsSense_senseFlags

/-- The memory map has all regions exactly when every `reg` ends with a pair and no host bridge
has the name of reserved memory. -/
theorem allMapped_iff (hlaw : CellsLaw) {root : Node} {off : Offsets} {kids : List DtbNode}
    (hkids : (rootOf root).children=.ok kids) (hprops : PropertiesRead root off)
    (hcells : (rootOf root).ownCells=.ok (2,2)) :
    (∀ p∈mappedNodes root, Mapped p) ↔ (∀ c∈memoriesOf root, RegEnds (c,.memory)) ∧
      ∀ c∈hostBridges root, topSegment c.name≠"reserved-memory" ∧ RegEnds (c,.pciHost) := by
  have hread := hprops.mapped
  have hwidth := cells_children hkids hcells
  simp only [mappedNodes,List.forall_mem_append,forall_atSite] at hread ⊢
  obtain ⟨hmemory,hbridge⟩ := hread
  refine and_congr (forall₂_congr fun c hc => ?_) (forall₂_congr fun c hc => ?_)
  · obtain ⟨regs,hregs⟩ := hmemory c hc
    rw [memoriesOf,hkids,value_ok,Option.getD_some] at hc
    obtain ⟨hkid,hname⟩ := List.mem_filter.mp hc
    rw [@mapped_iff _ hlaw (c,.memory) _ (hwidth c hkid) hregs,regKind_memory hname]
    exact and_iff_right rfl
  · obtain ⟨regs,hregs⟩ := hbridge c hc
    rw [hostBridges_eq hkids] at hc
    obtain ⟨hkid,hlisted⟩ := List.mem_filter.mp hc
    rw [@mapped_iff _ hlaw (c,.pciHost) _ (hwidth c hkid) hregs,regKind_bridge hlisted]

/-- The properties of a tree are decoded strictly exactly when nothing is left over. -/
theorem strictlyDecoded_iff (hlaw : CellsLaw) {root : Node} {off : Offsets} {kids : List DtbNode}
    {dsdt : Bytes} {sleepValue : ℕ} (hkids : (rootOf root).children=.ok kids)
    (hprops : PropertiesRead root off) (hread : NodesRead root)
    (hdsdt : readObjects dsdt=some (s5Object sleepValue::deviceObjects root)) :
    StrictlyDecoded root off dsdt ↔ NothingLeft root off := by
  have hregs : ∀ p∈registers root off, RegWhole p ↔ RegEnds p := by
    intro p hp
    obtain ⟨regs,hregs⟩ := hprops.regs p hp
    exact regWhole_iff hregs
  have hwindows : ∀ c∈hostBridges root, RangesWhole c ↔ RangesEnds c := by
    intro c hc
    obtain ⟨windows,hwindows⟩ := hprops.windows c hc
    exact rangesWhole_iff hwindows
  have hbuses : ∀ c∈hostBridges root, BusesWhole c ↔ BusesEnds c := by
    intro c hc
    obtain ⟨bus,hbus⟩ := hprops.buses c hc
    exact busesWhole_iff hbus
  have hlines : ∀ p∈interrupts root, InterruptsWhole p ↔ SenseListed p := by
    intro p hp
    obtain ⟨irq,hirq⟩ := hprops.interrupts p hp
    exact interruptsWhole_iff hlaw hirq
  -- the senses in the namespace are among those of the interrupts
  have hsenses : (∀ p∈interrupts root, InterruptsWhole p) →
      ∀ p∈lineDevices root, Listed (irqOf p.1 p.2).2 := by
    intro hall p hp
    obtain ⟨-,irq,-,hirq,-,hlisted⟩ := hall p (List.mem_append_left _ hp)
    rw [irqOf,hirq,value_ok,Option.getD_some]
    exact listed_iff.mpr hlisted
  constructor
  · intro h
    constructor
    case regs => exact fun p hp => (hregs p hp).mp (h.regs p hp)
    case windows => exact fun c hc => (hwindows c hc).mp (h.windows c hc)
    case buses => exact fun c hc => (hbuses c hc).mp (h.buses c hc)
    case senses => exact fun p hp => (hlines p hp).mp (h.lines p hp)
    case memories =>
      exact fun hcells => ((allMapped_iff hlaw hkids hprops hcells).mp (h.mapped hcells)).1
    case named =>
      intro hcells c hc
      exact (((allMapped_iff hlaw hkids hprops hcells).mp (h.mapped hcells)).2 c hc).1
  · intro h
    have hwhole : ∀ p∈interrupts root, InterruptsWhole p :=
      fun p hp => (hlines p hp).mpr (h.senses p hp)
    constructor
    case regs => exact fun p hp => (hregs p hp).mpr (h.regs p hp)
    case windows => exact fun c hc => (hwindows c hc).mpr (h.windows c hc)
    case buses => exact fun c hc => (hbuses c hc).mpr (h.buses c hc)
    case lines => exact hwhole
    case senses => exact ⟨_,hdsdt,(senses_iff hread sleepValue).mpr (hsenses hwhole)⟩
    case mapped =>
      intro hcells
      exact (allMapped_iff hlaw hkids hprops hcells).mpr ⟨h.memories hcells,
        fun c hc => ⟨h.named hcells c hc,h.regs _ (bridge_mem_registers hc)⟩⟩

/-- When a buffer is filled, the properties of the tree are decoded strictly exactly when nothing
is left over. -/
theorem populate_strict_iff (hlaw : CellsLaw) {root : Node} {oem : OemIdentity} {baseGpa n : ℕ}
    {buf buf' : Bytes} (h : populate root oem baseGpa buf=.ok (n,buf')) :
    ∃ l, run root=.ok l ∧
      (StrictlyDecoded root l.offsets (bytesIn l.offsets.dsdt (buf'.take n)) ↔
        NothingLeft root l.offsets) := by
  obtain ⟨l,kids,serial,console,hl,hest,hdesc,hholds⟩ := populate_holds h
  obtain ⟨hread,-,-,hdsdt⟩ := objects_of_holds hest hholds
  exact ⟨l,hl,strictlyDecoded_iff hlaw hest.children
    (propertiesRead hl hest hdesc hholds hread) hread hdsdt⟩

end Strict

/-- A memory node, a host bridge with the given configuration space and a virtio transport with an
interrupt of the given sense. -/
def strictTree (space : Bytes) (sense : ℕ) : Node :=
  sampleTree (sampleKids++[.mk "memory@0" [⟨"device_type",dtString "memory"⟩,
      ⟨"reg",dtReg 0 0x8000000⟩] [],
    .mk "pcie@10000000" [⟨"compatible",dtString "pci-host-ecam-generic"⟩,⟨"reg",space⟩,
      ⟨"bus-range",beBytes 4 0++beBytes 4 15⟩] [],
    .mk "virtio@b000" [⟨"compatible",dtString "virtio,mmio"⟩,⟨"reg",dtReg 0xb000 0x200⟩,
      ⟨"interrupts",beBytes 4 5++beBytes 4 sense⟩] []])

/-- With whole properties and a listed sense nothing is dropped or guessed. -/
theorem populate_strict_iff_sample : ∃ n buf' l,
    @populate plainLib (strictTree (dtReg 0x10000000 0x1000000) 4) sampleOem 0x1000
      (List.replicate 1000 7)=.ok (n,buf') ∧
    @run plainLib (strictTree (dtReg 0x10000000 0x1000000) 4)=.ok l ∧
    @StrictlyDecoded plainLib (strictTree (dtReg 0x10000000 0x1000000) 4) (Layouted.offsets l)
      (bytesIn (Layouted.offsets l).dsdt (buf'.take n)) := by
  have hsome : (@populate plainLib (strictTree (dtReg 0x10000000 0x1000000) 4) sampleOem 0x1000
      (List.replicate 1000 7)).toOption.isSome=true := by decide +kernel
  have hsrat : ∀ l∈(@run plainLib (strictTree (dtReg 0x10000000 0x1000000) 4)).toOption,
      (Layouted.offsets l).srat.isSome=false := by decide +kernel
  obtain ⟨out,hfilled⟩ := exists_ok hsome
  obtain ⟨l,hl,hiff⟩ := @populate_strict_iff plainLib Tatu.MemoryMap.cellsLaw_plainLib _ _ _ _ _ _
    hfilled
  have hnone : (Layouted.offsets l).srat.isSome=false := hsrat l (by rw [hl]; rfl)
  refine ⟨out.1,out.2,l,hfilled,hl,hiff.mpr (@NothingLeft.mk plainLib _ _ ?_ (by decide +kernel)
    (by decide +kernel) (by decide +kernel) (fun _ => by decide +kernel)
    (fun _ => by decide +kernel))⟩
  unfold registers
  rw [hnone]
  decide +kernel

/-- A last cell of the configuration space is dropped. -/
theorem populate_trailing_cell : ∃ n buf' l,
    @populate plainLib (strictTree (dtReg 0x10000000 0x1000000++beBytes 4 1) 4) sampleOem 0x1000
      (List.replicate 1000 7)=.ok (n,buf') ∧
    @run plainLib (strictTree (dtReg 0x10000000 0x1000000++beBytes 4 1) 4)=.ok l ∧
    ¬@StrictlyDecoded plainLib (strictTree (dtReg 0x10000000 0x1000000++beBytes 4 1) 4)
      (Layouted.offsets l) (bytesIn (Layouted.offsets l).dsdt (buf'.take n)) := by
  have hsome : (@populate plainLib (strictTree (dtReg 0x10000000 0x1000000++beBytes 4 1) 4)
      sampleOem 0x1000 (List.replicate 1000 7)).toOption.isSome=true := by decide +kernel
  have hleft : ∃ c∈@hostBridges plainLib (strictTree (dtReg 0x10000000 0x1000000++beBytes 4 1) 4),
      ¬RegEnds (c,.pciHost) := by decide +kernel
  obtain ⟨out,hfilled⟩ := exists_ok hsome
  obtain ⟨l,kids,serial,console,hl,hest,hdesc,hholds⟩ :=
    @populate_holds plainLib _ _ _ _ _ _ hfilled
  obtain ⟨hread,-,-,hdsdt⟩ := @objects_of_holds plainLib _ _ _ _ _ _ _ hest hholds
  refine ⟨out.1,out.2,l,hfilled,hl,fun hstrict => ?_⟩
  obtain ⟨c,hc,hends⟩ := hleft
  have hprops := @propertiesRead plainLib _ _ _ _ _ _ _ hl hest hdesc hholds hread
  have hnothing := (@strictlyDecoded_iff plainLib Tatu.MemoryMap.cellsLaw_plainLib _ _ _ _ _
    (@Established.children plainLib _ _ _ _ _ hest) hprops hread hdsdt).mp hstrict
  exact hends (@NothingLeft.regs plainLib _ _ hnothing _ (@bridge_mem_registers plainLib _ _ _ hc))

end Arma.Acpi.Strict
