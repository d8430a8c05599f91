import Mathlib.Tactic.Common
import Arma.Acpi.Bridges
import Arma.Acpi.Layout
import Arma.Acpi.Sdt

/-!
# Interrupt controllers and configuration spaces

The cpus come from the cache that counting has filled; the controllers and the
host bridges are read from the tree again.
-/

namespace Arma.Acpi.Tables

open Base.ByteString Base.Checked Base.Writer Devtree Dtb Aml Numbered Bridges Layout Sdt

/-- Distance of the first interrupts of two controllers. -/
def ioapicGsiStride : ℕ := 24

/-- Compatible string of the local interrupt controller. -/
def lapicCompatible : String := "intel,ce4100-lapic"

/-- Compatible string of an interrupt controller. -/
def ioapicCompatible : String := "intel,ce4100-ioapic"

/-- Flags of a cpu: enabled, or able to go online. -/
def lapicFlags : DtStatus → ℕ
  | .okay => 1
  | .disabled => 2
  | .reserved => 0
  | .fail => 0

/-- Edge-triggered and active high. -/
def nmiFlags : ℕ := 5

/-- The input of the non-maskable interrupt. -/
def lintNmi : UInt8 := 1

/-- The short entry of a cpu. -/
def localApicEntry (processorId apicId flags : ℕ) : Bytes :=
  [0,8,UInt8.ofNat processorId,UInt8.ofNat apicId]++leBytes 4 flags

/-- The long entry of a cpu. -/
def localX2ApicEntry (processorId apicId flags : ℕ) : Bytes :=
  [9,16,0,0]++(leBytes 4 apicId++(leBytes 4 flags++leBytes 4 processorId))

/-- The short entry of a cpu's non-maskable interrupt. -/
def localApicNmiEntry (processorId : ℕ) : Bytes :=
  [4,6,UInt8.ofNat processorId]++(leBytes 2 nmiFlags++[lintNmi])

/-- The long entry of a cpu's non-maskable interrupt. -/
def localX2ApicNmiEntry (uid : ℕ) : Bytes :=
  [10,12]++(leBytes 2 nmiFlags++(leBytes 4 uid++([lintNmi]++[0,0,0])))

/-- The entry of an interrupt controller. -/
def ioApicEntry (ioApicId address gsiBase : ℕ) : Bytes :=
  [1,12,UInt8.ofNat ioApicId,0]++(leBytes 4 address++leBytes 4 gsiBase)

/-- Bytes of the entry of an interrupt controller. -/
def ioApicEntrySize : ℕ := 12

/-- Bytes of the entry of a cpu. -/
def lapicEntrySizeForApic (apicId processorId : ℕ) : ℕ :=
  if apicId≤xapicIdMax ∧ processorId≤xapicIdMax then 8 else 16

/-- Bytes of the entry of a cpu's non-maskable interrupt. -/
def nmiEntrySizeForUid (uid : ℕ) : ℕ := if uid≤xapicIdMax then 6 else 12

/-- Bytes of the table's header. -/
def madtHeaderSize : ℕ := 44

/-- Bytes of the table. -/
def madtTotalSize (ioapicCount vcpuEntriesBytes : ℕ) : Outcome DtbError ℕ := do
  let ioapicsBytes ← okOr (mulWord 64 ioapicCount ioApicEntrySize) .internal
  let s ← okOr (addWord 64 madtHeaderSize vcpuEntriesBytes) .internal
  okOr (addWord 64 s ioapicsBytes) .internal

/-- The entry of a cpu. -/
def lapicEntry (e : CpuEntry) : Bytes :=
  if e.apicId≤xapicIdMax ∧ e.processorId≤xapicIdMax then
    localApicEntry e.processorId e.apicId (lapicFlags e.status)
  else localX2ApicEntry e.processorId e.apicId (lapicFlags e.status)

/-- The entry of a cpu's non-maskable interrupt. -/
def nmiEntry (e : CpuEntry) : Bytes :=
  if e.processorId≤xapicIdMax then localApicNmiEntry e.processorId
  else localX2ApicNmiEntry e.processorId

/-- Write the entry of a cpu. -/
def writeLapicEntry (e : CpuEntry) (c : Cursor) : Outcome DtbError Cursor :=
  if e.apicId≤xapicIdMax ∧ e.processorId≤xapicIdMax then do
    let processorId ← okOr (narrow 8 e.processorId) .internal
    let apicId ← okOr (narrow 8 e.apicId) .internal
    writeBytes (localApicEntry processorId apicId (lapicFlags e.status)) c
  else writeBytes (localX2ApicEntry e.processorId e.apicId (lapicFlags e.status)) c

/-- Write the entry of a cpu's non-maskable interrupt. -/
def writeNmiEntry (e : CpuEntry) (c : Cursor) : Outcome DtbError Cursor :=
  if e.processorId≤xapicIdMax then do
    let processorId ← okOr (narrow 8 e.processorId) .internal
    writeBytes (localApicNmiEntry processorId) c
  else writeBytes (localX2ApicNmiEntry e.processorId) c

/-- Write the entries of all cpus. -/
def writeCpus : List CpuEntry → Emitter
  | [],c => .ok c
  | e::rest,c => do
    let c ← writeLapicEntry e c
    let c ← writeNmiEntry e c
    writeCpus rest c

/-- The entries of all cpus. -/
def cpuEntries (es : List CpuEntry) : Bytes := es.flatMap fun e => lapicEntry e++nmiEntry e

/-- Bytes of the entries of a cpu. -/
def vcpuBytes (e : CpuEntry) : ℕ :=
  lapicEntrySizeForApic e.apicId e.processorId+nmiEntrySizeForUid e.processorId

/-- Write the entries of interrupt controllers. -/
def writeIoapics : List DtbNode → ℕ → ℕ → Emitter
  | [],_,_,c => .ok c
  | n::rest,ioId,gsiBase,c => do
    let regs ← n.reg .intc
    let first ← okOr regs.head? .internal
    let base ← okOr (narrow 32 first.1) .internal
    let c ← writeBytes (ioApicEntry ioId base gsiBase) c
    let ioId ← okOr (addWord 8 ioId 1) .internal
    let gsiBase ← okOr (addWord 32 gsiBase ioapicGsiStride) .internal
    writeIoapics rest ioId gsiBase c

/-- The base of an interrupt controller. -/
def intcBase32 (n : DtbNode) : Option ℕ := (firstReg n .intc).bind fun p => narrow 32 p.1

/-- The entry of the interrupt controller of a number. -/
def ioapicEntry (n : DtbNode) (ioId : ℕ) : Option Bytes :=
  (intcBase32 n).map fun base => ioApicEntry ioId base (ioapicGsiStride*ioId)

/-- The entries of interrupt controllers, at most 255 of them. -/
def ioapicEntries (nodes : List DtbNode) : Option Bytes :=
  if nodes.length≤255 then catAll (nodes.zipIdx.map fun p => ioapicEntry p.1 p.2) else none

/-- The header of the table of interrupt controllers. -/
def madtHeader (oem : OemIdentity) (lapicBase length : ℕ) : Bytes :=
  (SdtHeader.new ⟨ascii "APIC",rfl⟩ length 5 oem).asBytes++(leBytes 4 lapicBase++leBytes 4 0)

/-- Bytes of a cpu's entries. -/
theorem length_vcpu (e : CpuEntry) : (lapicEntry e++nmiEntry e).length=vcpuBytes e := by
  unfold lapicEntry nmiEntry vcpuBytes lapicEntrySizeForApic nmiEntrySizeForUid
  rw [List.length_append]
  congr 1
  · split <;> rfl
  · split <;> rfl

/-- Bytes of the entries of all cpus. -/
theorem length_cpuEntries (es : List CpuEntry) :
    (cpuEntries es).length=(es.map vcpuBytes).sum := by
  induction es with
  | nil => rfl
  | cons e rest ih =>
    rw [cpuEntries,List.flatMap_cons,List.length_append,length_vcpu,←cpuEntries,ih,List.map_cons,
      List.sum_cons]

/-- The entry of a cpu is written. -/
theorem emits_writeLapicEntry (e : CpuEntry) : Emits (writeLapicEntry e) (some (lapicEntry e)) := by
  unfold writeLapicEntry lapicEntry
  split
  · rename_i h
    have hmax : xapicIdMax=254 := rfl
    rw [show narrow 8 e.processorId=some e.processorId from if_pos (by omega),
      show narrow 8 e.apicId=some e.apicId from if_pos (by omega)]
    exact emits_writeBytes _
  · exact emits_writeBytes _

/-- The entry of a cpu's non-maskable interrupt is written. -/
theorem emits_writeNmiEntry (e : CpuEntry) : Emits (writeNmiEntry e) (some (nmiEntry e)) := by
  unfold writeNmiEntry nmiEntry
  split
  · rename_i h
    have hmax : xapicIdMax=254 := rfl
    rw [show narrow 8 e.processorId=some e.processorId from if_pos (by omega)]
    exact emits_writeBytes _
  · exact emits_writeBytes _

/-- The entries of all cpus are written. -/
theorem emits_writeCpus (es : List CpuEntry) : Emits (writeCpus es) (some (cpuEntries es)) := by
  induction es with
  | nil => exact emits_nil
  | cons e rest ih =>
    have h := (emits_writeLapicEntry e).seq ((emits_writeNmiEntry e).seq ih)
    rw [cat_some,cat_some,←List.append_assoc] at h
    exact h

/-- The entries of interrupt controllers are written, as long as they can be
numbered. -/
theorem emits_writeIoapicsFrom {nodes : List DtbNode} {k : ℕ} (hk : k≤255) :
    Emits (writeIoapics nodes k (ioapicGsiStride*k))
      (if k+nodes.length≤255 then catAll ((nodes.zipIdx k).map fun p => ioapicEntry p.1 p.2)
        else none) := by
  induction nodes generalizing k with
  | nil =>
    rw [if_pos (by exact hk)]
    exact emits_nil
  | cons n rest ih =>
    have hstride : ioapicGsiStride=24 := rfl
    have hnext : Emits (fun c => okOr (addWord 8 k 1) .internal >>= fun i =>
        okOr (addWord 32 (ioapicGsiStride*k) ioapicGsiStride) DtbError.internal >>= fun g =>
          writeIoapics rest i g c)
        (if k+1+rest.length≤255 then
          catAll ((rest.zipIdx (k+1)).map fun p => ioapicEntry p.1 p.2) else none) := by
      by_cases hroom : k+1<2^8
      · have hgsi : addWord 32 (ioapicGsiStride*k) ioapicGsiStride=
            some (ioapicGsiStride*(k+1)) := by
          rw [hstride]
          exact addWord_some.mpr ⟨by omega,by omega⟩
        rw [show addWord 8 k 1=some (k+1) from if_pos hroom,hgsi]
        exact ih (by omega)
      · rw [show addWord 8 k 1=none from if_neg hroom,if_neg (by omega)]
        exact emits_fail _
    have hentry : Emits (fun c => n.reg .intc >>= fun regs => okOr regs.head? .internal >>=
        fun first => okOr (narrow 32 first.1) .internal >>= fun base =>
          writeBytes (ioApicEntry k base (ioapicGsiStride*k)) c >>= fun c =>
            okOr (addWord 8 k 1) .internal >>= fun i =>
              okOr (addWord 32 (ioapicGsiStride*k) ioapicGsiStride) DtbError.internal >>= fun g =>
                writeIoapics rest i g c)
        ((firstReg n .intc).bind fun first => (narrow 32 first.1).bind fun base =>
          cat (some (ioApicEntry k base (ioapicGsiStride*k)))
            (if k+1+rest.length≤255 then
              catAll ((rest.zipIdx (k+1)).map fun p => ioapicEntry p.1 p.2) else none)) := by
      refine emits_firstReg fun first => ?_
      have h := Emits.after (x := okOr (narrow 32 first.1) DtbError.internal)
        (fun base _ => (emits_writeBytes (ioApicEntry k base (ioapicGsiStride*k))).seq hnext)
      rwa [value_okOr] at h
    have hstring : ((firstReg n .intc).bind fun first => (narrow 32 first.1).bind fun base =>
        cat (some (ioApicEntry k base (ioapicGsiStride*k)))
          (if k+1+rest.length≤255 then
            catAll ((rest.zipIdx (k+1)).map fun p => ioapicEntry p.1 p.2) else none))=
        if k+(n::rest).length≤255 then
          catAll (((n::rest).zipIdx k).map fun p => ioapicEntry p.1 p.2) else none := by
      rw [List.length_cons,List.zipIdx_cons,List.map_cons,catAll,ioapicEntry,intcBase32]
      by_cases hall : k+(rest.length+1)≤255
      · rw [if_pos (by omega),if_pos hall]
        cases firstReg n .intc with
        | none => rfl
        | some first =>
          rw [Option.bind_some,Option.bind_some]
          cases narrow 32 first.1 <;> rfl
      · rw [if_neg (by omega),if_neg hall]
        simp only [cat_none,Option.bind_fun_none]
    rw [hstring] at hentry
    exact hentry

/-- The entries of interrupt controllers are written in order. -/
theorem emits_writeIoapics (nodes : List DtbNode) :
    Emits (writeIoapics nodes 0 0) (ioapicEntries nodes) := by
  have h := @emits_writeIoapicsFrom nodes 0 (Nat.zero_le 255)
  rw [Nat.zero_add] at h
  exact h

/-- The table of interrupt controllers: its header, the cpus and the
controllers. -/
def madt (oem : OemIdentity) (lapicBase : ℕ) (cache : CpuCache) (ioapics : List DtbNode)
    (len : ℕ) : Option Bytes :=
  table len (madtHeader oem lapicBase)
    (cat (some (cpuEntries (entries cache))) (ioapicEntries ioapics))

/-- Bytes of an allocation of configuration space. -/
def mcfgAllocationSize : ℕ := 16

/-- Bytes of the header of the table of configuration spaces. -/
def mcfgHeaderSize : ℕ := 44

/-- Bytes of the table of configuration spaces. -/
def mcfgTotalSize (ecamCount : ℕ) : Outcome DtbError ℕ := do
  let regionsBytes ← okOr (mulWord 64 ecamCount mcfgAllocationSize) .internal
  okOr (addWord 64 mcfgHeaderSize regionsBytes) .internal

/-- An allocation of configuration space in segment zero. -/
def mcfgAllocation (base busStart busEnd : ℕ) : Bytes :=
  leBytes 8 base++(leBytes 2 0++([UInt8.ofNat busStart,UInt8.ofNat busEnd]++leBytes 4 0))

/-- The header of the table of configuration spaces. -/
def mcfgHeader (oem : OemIdentity) (length : ℕ) : Bytes :=
  (SdtHeader.new ⟨ascii "MCFG",rfl⟩ length 1 oem).asBytes++leBytes 8 0

/-- The allocation of a host bridge. -/
def allocation (child : DtbNode) : Option Bytes :=
  (firstReg child .pciHost).bind fun p => (value child.decodePciBusRange).map fun bus =>
    mcfgAllocation p.1 bus.1 bus.2

/-- Write the allocation of a host bridge. -/
def writeAllocation (child : DtbNode) (c : Cursor) : Outcome DtbError Cursor := do
  let regs ← child.reg .pciHost
  let first ← okOr regs.head? (.missingProperty .pciHost "reg")
  let bus ← child.decodePciBusRange
  writeBytes (mcfgAllocation first.1 bus.1 bus.2) c

/-- The allocation of a host bridge is written. -/
theorem emits_writeAllocation (child : DtbNode) :
    Emits (writeAllocation child) (allocation child) := by
  have h : Emits (writeAllocation child) ((firstReg child .pciHost).bind fun p =>
      (value child.decodePciBusRange).bind fun bus => some (mcfgAllocation p.1 bus.1 bus.2)) :=
    emits_firstReg fun p => Emits.after fun bus _ => emits_writeBytes _
  unfold allocation
  cases hp : firstReg child .pciHost with
  | none =>
    rw [hp] at h
    exact h
  | some p =>
    rw [hp] at h
    cases hbus : value child.decodePciBusRange <;> rw [hbus] at h <;> exact h

/-- Bytes of the allocation of a host bridge. -/
theorem length_allocation {child : DtbNode} {out : Bytes} (h : allocation child=some out) :
    out.length=mcfgAllocationSize := by
  obtain ⟨p,_,h⟩ := Option.bind_eq_some_iff.mp h
  obtain ⟨bus,_,rfl⟩ := Option.map_eq_some_iff.mp h
  rfl

variable [DevtreeLib]

/-- The interrupt controllers among the root's children. -/
def ioapicNodes (root : DtbNode) : Outcome DtbError (List DtbNode) := do
  let kids ← root.children
  .ok (selected ioapicCompatible kids)

/-- Write the table of interrupt controllers. -/
def madtEmit (oem : OemIdentity) (root : DtbNode) (lapicBase : ℕ) (cache : CpuCache)
    (slot : Bytes) : Outcome DtbError Bytes :=
  emitTable (madtHeader oem lapicBase) madtHeaderSize (fun c => do
    let c ← writeCpus (entries cache) c
    let ioapics ← ioapicNodes root
    writeIoapics ioapics 0 0 c) slot

/-- Write the allocations of the host bridges. -/
def writeAllocations : List DtbNode → Emitter
  | [],c => .ok c
  | child::rest,c => do
    let found ← child.hasCompatible pciHostCompatible
    if found then do
      let c ← writeAllocation child c
      writeAllocations rest c
    else writeAllocations rest c

/-- Write the table of configuration spaces. -/
def mcfgEmit (oem : OemIdentity) (root : DtbNode) (slot : Bytes) : Outcome DtbError Bytes :=
  emitTable (mcfgHeader oem) mcfgHeaderSize (fun c => do
    let kids ← root.children
    writeAllocations kids c) slot

/-- The table of configuration spaces. -/
def mcfg (oem : OemIdentity) (kids : List DtbNode) (len : ℕ) : Option Bytes :=
  table len (mcfgHeader oem) (catAll ((selected pciHostCompatible kids).map allocation))

/-- The entries of the table of interrupt controllers are written. -/
theorem emits_madt (cache : CpuCache) {root : DtbNode} {kids : List DtbNode}
    (hkids : root.children=.ok kids) :
    Emits (fun c => writeCpus (entries cache) c >>= fun c => ioapicNodes root >>= fun ioapics =>
      writeIoapics ioapics 0 0 c) (cat (some (cpuEntries (entries cache)))
        (ioapicEntries (selected ioapicCompatible kids))) := by
  have hnodes : ioapicNodes root=.ok (selected ioapicCompatible kids) := by
    rw [ioapicNodes,hkids]
    rfl
  rw [hnodes]
  exact (emits_writeCpus _).seq (emits_writeIoapics _)

/-- On well-formed nodes the allocations are written in order. -/
theorem emits_writeAllocations {kids : List DtbNode} (hlisted : ∀ c∈kids, c.Listed) :
    Emits (writeAllocations kids)
      (catAll ((selected pciHostCompatible kids).map allocation)) := by
  induction kids with
  | nil => exact emits_nil
  | cons child rest ih =>
    obtain ⟨hchild,hrest⟩ := List.forall_mem_cons.mp hlisted
    have hcompat := hchild.hasCompatible pciHostCompatible
    cases hb : child.lists pciHostCompatible with
    | true =>
      rw [hb] at hcompat
      have hunfold : writeAllocations (child::rest)=fun c =>
          writeAllocation child c >>= writeAllocations rest := by
        funext c
        rw [writeAllocations,hcompat]
        rfl
      rw [hunfold,selected_cons hb]
      exact (emits_writeAllocation child).seq (ih hrest)
    | false =>
      rw [hb] at hcompat
      have hunfold : writeAllocations (child::rest)=writeAllocations rest := by
        funext c
        rw [writeAllocations,hcompat]
        rfl
      rw [hunfold,selected_skip hb]
      exact ih hrest

end Arma.Acpi.Tables
