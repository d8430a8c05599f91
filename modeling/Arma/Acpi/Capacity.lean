import Mathlib.Data.Finset.Card
import Arma.Acpi.Counted

/-!
# Room for cpus and domains

Counting keeps the cpus and the domains in vectors of a fixed capacity. It runs
out of room exactly when there are more than 256 cpus, or more than 255 different
domains among the nodes that it gets to.
-/

namespace Arma.Acpi.Capacity

open Base.ArrayVec Base.ByteString Base.Checked Base.Writer Devtree Dtb Numbered Bridges Layout
  Numa Serial Virtio Tables Count Counted

/-- There is no room for a cpu or for a domain. -/
def CapacityError (e : DtbError) : Prop :=
  e=.tooManyCpus cpuCacheCap ∨ e=.valueOutOfRange .distanceMap "numa-node-id"

/-- The computation runs out of room. -/
abbrev Full {α : Type} (x : Outcome DtbError α) : Prop := Fails CapacityError x

section Readers

variable [DevtreeLib]

end Readers

/-- What the walk has collected after cpus with the domains `tags`. -/
structure Walked (w : CpuWalk) (n : ℕ) (tags : List ℕ) : Prop where
  /-- The cpus are counted. -/
  count : w.nVcpus=n
  /-- They are in the cache. -/
  cached : w.cache.toList.length=n
  /-- No more of them have a domain. -/
  tagged : w.cpuTaggedCount≤n
  /-- No more of them have none. -/
  untagged : w.cpuUntaggedCount≤n
  /-- Their interrupt entries are small. -/
  vcpuBytes : w.vcpuEntriesBytes≤28*n
  /-- So are their affinity entries. -/
  cpuBytes : w.cpuEntriesBytes≤24*n
  /-- Their domains are collected. -/
  domains : w.domains.Holds tags

/-- There are no more cpus than fit. -/
theorem Walked.le {w : CpuWalk} {n : ℕ} {tags : List ℕ} (h : Walked w n tags) : n≤256 := by
  rw [←h.cached]
  exact w.cache.bound

/-- The cpus among the children of `cpus`. -/
def cpusIn (kids : List DtbNode) : List DtbNode := kids.filter fun c => baseNameIs c.name "cpu"

/-- The cpus of a list, head first. -/
theorem cpusIn_cons {child : DtbNode} {rest : List DtbNode}
    (h : baseNameIs child.name "cpu"=true) : cpusIn (child::rest)=child::cpusIn rest :=
  List.filter_cons_of_pos (p := fun c : DtbNode => baseNameIs c.name "cpu") h

/-- Another child is no cpu. -/
theorem cpusIn_skip {child : DtbNode} {rest : List DtbNode}
    (h : baseNameIs child.name "cpu"=false) : cpusIn (child::rest)=cpusIn rest :=
  List.filter_cons_of_neg (p := fun c : DtbNode => baseNameIs c.name "cpu") (by rw [h]; decide)

section Cpus

variable [DevtreeLib]

/-- The domain of a cpu, if it has one. -/
def cpuTag (c : DtbNode) : Option ℕ := (value c.decodeCpuSubset).bind fun v => v.2.1

end Cpus

/-- The computation stops for another reason. -/
def Stops {α : Type} (x : Outcome DtbError α) : Prop := (∃ f, x=.error f) ∧ ¬Full x

/-- It then stops as a whole. -/
theorem Stops.bind {α β : Type} {x : Outcome DtbError α} (h : Stops x)
    (f : α → Outcome DtbError β) : Stops (x >>= f) := by
  have ⟨⟨e,he⟩,hquiet⟩ := h
  refine ⟨⟨e,by rw [he]; rfl⟩,fun hfull => ?_⟩
  rcases fails_bind.mp hfull with hfull | ⟨a,ha,_⟩
  · exact hquiet hfull
  · rw [he] at ha
    cases ha

section Memory

variable [DevtreeLib]

/-- The domain that a memory node adds, if counting gets to it. -/
def memoryTag (c : DtbNode) : Option ℕ :=
  (value (c.decodeStatus .memory)).bind fun _ =>
    ((value (c.propertyU32Opt "numa-node-id")).bind id).filter fun pd => decide (pd≠numaTagNone)

/-- `true` iff counting goes on behind a memory node. -/
def memoryRead (c : DtbNode) : Bool :=
  (value (c.decodeStatus .memory)).isSome &&
    (value (c.propertyU32Opt "numa-node-id")).any (fun tag => decide (tag≠some numaTagNone)) &&
    (value (c.reg .memory)).isSome

/-- The domains of the memory nodes up to the first one that cannot be read. -/
def tagsRead : List DtbNode → List ℕ
  | [] => []
  | c::rest => (memoryTag c).toList++if memoryRead c then tagsRead rest else []

end Memory

section Whole

variable [DevtreeLib]

/-- Everything between the cpus and the memory is read. -/
structure DevicesRead (root : Node) : Prop where
  /-- The interrupt controllers. -/
  intc : ∃ v, countIntc (rootOf root)=.ok v
  /-- The registers for power-off and reset. -/
  fadt : ∃ v, extractFadt (rootOf root)=.ok v
  /-- The host bridges. -/
  bridges : ∃ v, countMcfg (rootOf root)=.ok v
  /-- The reserved configuration spaces. -/
  motherboard : ∃ v, motherboardTotalBytes (rootOf root)=.ok v
  /-- The windows of the host bridges. -/
  pci : ∃ v, pciTotalBytes (rootOf root)=.ok v
  /-- The serial port. -/
  port : ∃ v, serialTotalBytes (rootOf root)=.ok v
  /-- The virtio transports. -/
  transports : ∃ v, virtioTotalBytes (rootOf root)=.ok v
  /-- The console. -/
  console : ∃ v, present root=.ok v

/-- The memory nodes of a tree. -/
def memoriesOf (root : Node) : List DtbNode :=
  memories ((value (rootOf root).children).getD [])

/-- There is room for the cpus of a tree and for the domains that counting gets to. -/
structure Room (root : Node) (cpus : List DtbNode) : Prop where
  /-- There are at most 256 cpus. -/
  number : cpus.length≤256
  /-- They have at most 255 domains. -/
  cpuDomains : (cpus.filterMap cpuTag).toFinset.card≤255
  /-- So have they and the memory nodes, if counting gets there. -/
  domains : DevicesRead root →
    (cpus.filterMap cpuTag++tagsRead (memoriesOf root)).toFinset.card≤255

end Whole

end Arma.Acpi.Capacity
