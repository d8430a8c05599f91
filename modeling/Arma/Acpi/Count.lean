import Mathlib.Tactic.Common
import Arma.Acpi.Dsdt
import Arma.Acpi.Fixed
import Arma.Acpi.Numa
import Arma.Acpi.Spcr
import Arma.Acpi.Tables

/-!
# Counting

One pass over the tree validates the bindings, counts the entries and lays the
tables out. The cpus and the domains are collected on the way.
-/

namespace Arma.Acpi.Count

open Base.ArrayVec Base.ByteString Base.Checked Base.Writer Devtree Dtb Numbered Bridges Layout
  Sdt Fixed Tables Numa Serial Virtio Dsdt Spcr

variable [DevtreeLib]

/-- What the walk over the cpus has collected. -/
structure CpuWalk where
  /-- Bytes of the interrupt entries. -/
  vcpuEntriesBytes : ℕ
  /-- Bytes of the affinity entries. -/
  cpuEntriesBytes : ℕ
  /-- Number of cpus with a domain. -/
  cpuTaggedCount : ℕ
  /-- Number of cpus without one. -/
  cpuUntaggedCount : ℕ
  /-- Number of cpus. -/
  nVcpus : ℕ
  /-- The domains. -/
  domains : Domains
  /-- The cpus. -/
  cache : CpuCache

/-- Nothing collected. -/
def CpuWalk.start : CpuWalk := ⟨0,0,0,0,0,.empty,.empty⟩

/-- Count the domain of a cpu. -/
def tagCpu (w : CpuWalk) (tag : Option ℕ) : Outcome DtbError CpuWalk :=
  match tag with
  | some pd => do
    let n ← okOr (addWord 32 w.cpuTaggedCount 1) .internal
    let domains ← insertDomain w.domains pd
    .ok {w with cpuTaggedCount := n, domains := domains}
  | none => do
    let n ← okOr (addWord 32 w.cpuUntaggedCount 1) .internal
    .ok {w with cpuUntaggedCount := n}

/-- Count one cpu. The first one must be enabled. -/
def walkCpu (child : DtbNode) (w : CpuWalk) : Outcome DtbError CpuWalk := do
  let processorId := w.nVcpus
  let (apicId,tag,status) ← child.decodeCpuSubset
  if processorId=0 ∧ status≠.okay then fail .bootCpuNotEnabled
  else do
    let perVcpu ← okOr (addWord 64 (lapicEntrySizeForApic apicId processorId)
      (nmiEntrySizeForUid processorId)) .internal
    let vcpuBytes ← okOr (addWord 64 w.vcpuEntriesBytes perVcpu) .internal
    let cpuBytes ← okOr (addWord 64 w.cpuEntriesBytes (cpuAffinitySizeForApic apicId)) .internal
    let w ← tagCpu {w with vcpuEntriesBytes := vcpuBytes, cpuEntriesBytes := cpuBytes} tag
    let cache ← pushCpu w.cache apicId tag status
    let n ← okOr (addWord 32 w.nVcpus 1) .internal
    .ok {w with nVcpus := n, cache := cache}

/-- Count all cpus among the children of `cpus`. -/
def walkCpusIn : List DtbNode → CpuWalk → Outcome DtbError CpuWalk
  | [],w => .ok w
  | child::rest,w =>
    if baseNameIs child.name "cpu" then do
      let w ← walkCpu child w
      walkCpusIn rest w
    else walkCpusIn rest w

/-- Count the cpus; there must be one. -/
def walkCpus (root : DtbNode) : Outcome DtbError CpuWalk := do
  let cpus ← root.child "cpus" .cpus
  let cpus ← okOr cpus (.missingNode .cpus)
  let kids ← cpus.children
  let w ← walkCpusIn kids .start
  if w.nVcpus=0 then fail (.missingNode .cpu) else .ok w

/-- The first child compatible with the local interrupt controller. -/
def findLapicIn : List DtbNode → Outcome DtbError DtbNode
  | [] => fail (.missingNode .intc)
  | child::rest => do
    let found ← child.hasCompatible lapicCompatible
    if found then .ok child else findLapicIn rest

/-- The local interrupt controller. -/
def findLapic (root : DtbNode) : Outcome DtbError DtbNode := do
  let kids ← root.children
  findLapicIn kids

/-- The base of an interrupt controller, which must fit 32 bits. -/
def intcBase (n : DtbNode) : Outcome DtbError ℕ := do
  let regs ← n.reg .intc
  let first ← okOr regs.head? (.malformedProperty .intc "reg")
  okOr (narrow 32 first.1) (.valueOutOfRange .intc "reg")

/-- Count interrupt controllers, each with a valid base. -/
def countIoapics : List DtbNode → ℕ → Outcome DtbError ℕ
  | [],count => .ok count
  | n::rest,count => do
    let _ ← intcBase n
    let count ← okOr (addWord 32 count 1) .internal
    countIoapics rest count

/-- The base of the local interrupt controller and the number of the others. -/
def countIntc (root : DtbNode) : Outcome DtbError (ℕ×ℕ) := do
  let lapic ← findLapic root
  let lapicBase ← intcBase lapic
  let ioapics ← ioapicNodes root
  let count ← countIoapics ioapics 0
  .ok (lapicBase,count)

/-- A host bridge has registers and bus numbers. -/
def checkEcam (child : DtbNode) : Outcome DtbError ℕ := do
  let regs ← child.reg .pciHost
  let _ ← okOr regs.head? (.missingProperty .pciHost "reg")
  let _ ← child.decodePciBusRange
  .ok 1

/-- Count the host bridges. -/
def countMcfg (root : DtbNode) : Outcome DtbError ℕ := do
  let kids ← root.children
  sumOver 32 pciHostCompatible checkEcam kids 0

/-- Address and value of a register node. -/
def resolveSyscon (n : DtbNode) (site : Site) (valueRequired : Bool) :
    Outcome DtbError (ℕ×ℕ) := do
  let regs ← n.reg site
  let first ← okOr regs.head? (.malformedProperty site "reg")
  let valueU32 ← match n.node.property "value" with
    | some p => okOr ((DevtreeLib.asU32 p).map UInt32.toNat) (.malformedProperty site "value")
    | none => if valueRequired then fail (.missingProperty site "value") else .ok 0
  let v ← okOr (narrow 8 valueU32) (.valueOutOfRange site "value")
  .ok (first.1,v)

/-- Claim a node for a binding that is not yet claimed. -/
def claim (claimed : Option DtbNode) (child : DtbNode) (want : String) :
    Outcome DtbError (Option DtbNode) :=
  match claimed with
  | some n => .ok (some n)
  | none => do
    let found ← child.hasCompatible want
    .ok (if found then some child else none)

/-- The first nodes for power-off and reset; the search ends with both. -/
def findSyscons : List DtbNode → Option DtbNode → Option DtbNode →
    Outcome DtbError (Option DtbNode×Option DtbNode)
  | [],poweroff,reboot => .ok (poweroff,reboot)
  | child::rest,poweroff,reboot => do
    let poweroff ← claim poweroff child "syscon-poweroff"
    let reboot ← claim reboot child "syscon-reboot"
    if poweroff.isSome ∧ reboot.isSome then .ok (poweroff,reboot)
    else findSyscons rest poweroff reboot

/-- Register and value of a reset, if there is a node for it. -/
def resolveReboot (reboot : Option DtbNode) : Outcome DtbError (Option GenericAddress×ℕ) :=
  match reboot with
  | none => .ok (none,0)
  | some n => do
    let av ← resolveSyscon n .sysconReboot true
    .ok (some (systemMemoryByte av.1),av.2)

/-- The registers for power-off and reset. -/
def extractFadt (root : DtbNode) : Outcome DtbError FadtPlan := do
  let kids ← root.children
  let nodes ← findSyscons kids none none
  let poweroff ← okOr nodes.1 (.missingNode .sysconPoweroff)
  let sleep ← resolveSyscon poweroff .sysconPoweroff false
  let reset ← resolveReboot nodes.2
  .ok ⟨systemMemoryByte sleep.1,systemMemoryByte sleep.1,reset.1,reset.2,sleep.2⟩

/-- What the walk over the memory nodes has collected. -/
structure MemoryWalk where
  /-- Number of regions. -/
  regionCount : ℕ
  /-- Number of nodes with a domain. -/
  taggedCount : ℕ
  /-- Number of nodes. -/
  totalCount : ℕ
  /-- The domains. -/
  domains : Domains

/-- Count the domain of a memory node. -/
def tagMemory (w : MemoryWalk) (tag : Option ℕ) : Outcome DtbError MemoryWalk :=
  match tag with
  | none => .ok w
  | some pd =>
    if pd=numaTagNone then fail (.valueOutOfRange .memory "numa-node-id")
    else do
      let n ← okOr (addWord 32 w.taggedCount 1) .internal
      let domains ← insertDomain w.domains pd
      .ok {w with taggedCount := n, domains := domains}

/-- Count regions one by one. -/
def countRegions : List (ℕ×ℕ) → ℕ → Outcome DtbError ℕ
  | [],count => .ok count
  | _::rest,count => do
    let count ← okOr (addWord 32 count 1) .internal
    countRegions rest count

/-- Count one memory node. -/
def walkMemory (child : DtbNode) (w : MemoryWalk) : Outcome DtbError MemoryWalk := do
  let total ← okOr (addWord 32 w.totalCount 1) .internal
  let _ ← child.decodeStatus .memory
  let tag ← child.propertyU32Opt "numa-node-id"
  let w ← tagMemory {w with totalCount := total} tag
  let regs ← child.reg .memory
  let regions ← countRegions regs w.regionCount
  .ok {w with regionCount := regions}

/-- Count all memory nodes. -/
def walkMemories : List DtbNode → MemoryWalk → Outcome DtbError MemoryWalk
  | [],w => .ok w
  | child::rest,w =>
    if baseNameIs child.name "memory" then do
      let w ← walkMemory child w
      walkMemories rest w
    else walkMemories rest w

/-- There are distances if there are two domains and a distance map, which must
have a matrix. -/
def hasDistances (root : DtbNode) (domains : Domains) : Outcome DtbError Bool :=
  if 1<domains.toList.length then do
    let map ← root.child "distance-map" .distanceMap
    match map with
    | none => .ok false
    | some node => do
      let _ ← okOr (node.node.property "distance-matrix")
        (.missingProperty .distanceMap "distance-matrix")
      .ok true
  else .ok false

/-- What counting has found out about domains. -/
structure NumaCount where
  /-- Some node has a domain. -/
  hasNuma : Bool
  /-- Number of memory regions. -/
  memoryRegionCount : ℕ
  /-- There is a distance map. -/
  hasDistances : Bool
  /-- The domains. -/
  domains : Domains

/-- Domains must be complete when there is one. -/
def countNuma (root : DtbNode) (w : CpuWalk) : Outcome DtbError NumaCount := do
  let kids ← root.children
  let m ← walkMemories kids ⟨0,0,0,w.domains⟩
  if w.cpuTaggedCount=0 ∧ m.taggedCount=0 then .ok ⟨false,0,false,m.domains⟩
  else if 0<w.cpuUntaggedCount then fail (.partialNuma .cpuUntagged)
  else if m.taggedCount≠m.totalCount then fail (.partialNuma .memoryUntagged)
  else do
    let distances ← hasDistances root m.domains
    .ok ⟨true,m.regionCount,distances,m.domains⟩

/-- Everything that is counted. -/
structure Counts where
  /-- Bytes of the interrupt entries of the cpus. -/
  vcpuEntriesBytes : ℕ
  /-- Bytes of the affinity entries of the cpus. -/
  cpuEntriesBytes : ℕ
  /-- Number of interrupt controllers. -/
  ioapicCount : ℕ
  /-- Number of host bridges. -/
  ecamCount : ℕ
  /-- Bytes of the host bridges. -/
  pciDsdtBytes : ℕ
  /-- Bytes of the reserved configuration spaces. -/
  motherboardDsdtBytes : ℕ
  /-- Bytes of the serial port. -/
  serialDsdtBytes : ℕ
  /-- Bytes of the virtio transports. -/
  virtioMmioDsdtBytes : ℕ
  /-- There is a console. -/
  hasSerial : Bool
  /-- Some node has a domain. -/
  hasNuma : Bool
  /-- Number of memory regions. -/
  memoryRegionCount : ℕ
  /-- There is a distance map. -/
  hasDistances : Bool
deriving DecidableEq, Repr

/-- Carve a slot that is there under a condition. -/
def carveIf (cond : Bool) (cur : ℕ) (size : Outcome DtbError ℕ) :
    Outcome DtbError (Option Slot×ℕ) :=
  if cond then do
    let n ← size
    let p ← Slot.carve cur n
    .ok (some p.1,p.2)
  else .ok (none,cur)

/-- Bytes of the description of the system. -/
def dsdtSize (c : Counts) : Outcome DtbError ℕ := do
  let n ← okOr (addWord 64 SdtHeader.size s5AmlLen) .internal
  let n ← okOr (addWord 64 n c.motherboardDsdtBytes) .internal
  let n ← okOr (addWord 64 n c.pciDsdtBytes) .internal
  let n ← okOr (addWord 64 n c.serialDsdtBytes) .internal
  okOr (addWord 64 n c.virtioMmioDsdtBytes) .internal

/-- Lay the tables out one after another. -/
def offsetsNew (c : Counts) (nDomains : ℕ) : Outcome DtbError Offsets := do
  let rsdp ← Slot.carve 0 rsdpSize
  let dsdtBytes ← dsdtSize c
  let dsdt ← Slot.carve rsdp.2 dsdtBytes
  let fadt ← Slot.carve dsdt.2 fadtSize
  let madtBytes ← madtTotalSize c.ioapicCount c.vcpuEntriesBytes
  let madt ← Slot.carve fadt.2 madtBytes
  let mcfg ← carveIf (decide (0 < c.ecamCount)) madt.2 (mcfgTotalSize c.ecamCount)
  let spcr ← carveIf c.hasSerial mcfg.2 (.ok spcrSize)
  let srat ← carveIf c.hasNuma spcr.2 (sratTotalSize c.memoryRegionCount c.cpuEntriesBytes)
  let slit ← carveIf (c.hasNuma && c.hasDistances) srat.2 (slitTotalSize nDomains)
  let optional := [mcfg.1,spcr.1,srat.1,slit.1].countP Option.isSome
  let xsdtBytes ← xsdtTotalSize (2+optional)
  let xsdt ← Slot.carve slit.2 xsdtBytes
  .ok ⟨rsdp.1,dsdt.1,fadt.1,madt.1,mcfg.1,spcr.1,srat.1,slit.1,xsdt.1,xsdt.2⟩

/-- What counting hands to emission. -/
structure Layouted where
  /-- The slots. -/
  offsets : Offsets
  /-- Registers of the fixed description table. -/
  fadt : FadtPlan
  /-- Base of the local interrupt controller. -/
  lapicBase : ℕ
  /-- The cpus. -/
  cache : CpuCache
  /-- The domains. -/
  domains : Domains

/-- Count everything and lay the tables out. -/
def run (root : Node) : Outcome DtbError Layouted := do
  let node := rootOf root
  let walk ← walkCpus node
  let intc ← countIntc node
  let fadt ← extractFadt node
  let ecamCount ← countMcfg node
  let motherboardDsdtBytes ← motherboardTotalBytes node
  let pciDsdtBytes ← pciTotalBytes node
  let serialDsdtBytes ← serialTotalBytes node
  let virtioMmioDsdtBytes ← virtioTotalBytes node
  let hasSerial ← present root
  let numa ← countNuma node walk
  let offsets ← offsetsNew ⟨walk.vcpuEntriesBytes,walk.cpuEntriesBytes,intc.2,ecamCount,
    pciDsdtBytes,motherboardDsdtBytes,serialDsdtBytes,virtioMmioDsdtBytes,hasSerial,
    numa.hasNuma,numa.memoryRegionCount,numa.hasDistances⟩ numa.domains.toList.length
  .ok ⟨offsets,fadt,intc.1,walk.cache,numa.domains⟩

end Arma.Acpi.Count
