import Mathlib.Tactic.Common
import Arma.Base.Checked
import Arma.Base.Decimal
import Arma.Base.Writer
import Arma.Devtree

/-!
# Reading the devicetree

A node together with the cell counts its parent declares and the site that its
errors name. Absence of a property and a malformed property are told apart:
what absence means is left to the caller.
-/

namespace Arma.Acpi.Dtb

open Base.ByteString Base.Checked Base.Writer Devtree

/-- Where an error occurred. -/
inductive Site where
  | root
  | cpus
  | cpu
  | intc
  | pciHost
  | memory
  | sysconPoweroff
  | sysconReboot
  | distanceMap
  | serial
  | virtioMmio
deriving DecidableEq, Repr

/-- What part of the NUMA topology is missing. -/
inductive NumaIncomplete where
  | cpuUntagged
  | memoryUntagged
deriving DecidableEq, Repr

/-- What went wrong on the side of the devicetree. -/
inductive DtbError where
  | missingNode (site : Site)
  | missingProperty (site : Site) (property : String)
  | malformedProperty (site : Site) (property : String)
  | unsupportedAddressCells (site : Site) (found : ℕ)
  | unsupportedSizeCells (site : Site) (found : ℕ)
  | valueOutOfRange (site : Site) (property : String)
  | partialNuma (reason : NumaIncomplete)
  | bootCpuNotEnabled
  | tooManyCpus (limit : ℕ)
  | unsupportedProperty (site : Site)
  | unsupportedNode (site : Site)
  | internal
deriving DecidableEq, Repr

/-- `try_from` into a `w`-bit word. -/
def narrow (w v : ℕ) : Option ℕ := if v<2^w then some v else none

/-- A narrowed value is the value itself, within the width. -/
@[simp] theorem narrow_eq_some {w v x : ℕ} : narrow w v=some x ↔ v=x ∧ v<2^w := by
  unfold narrow
  split
  · rename_i h
    rw [Option.some.injEq]
    exact ⟨fun hx => ⟨hx,h⟩,fun hx => hx.1⟩
  · rename_i h
    simp only [reduceCtorEq,false_iff]
    exact fun hx => h hx.2

/-- Whether a value can be narrowed. -/
@[simp] theorem isSome_narrow {w v : ℕ} : (narrow w v).isSome=true ↔ v<2^w := by
  unfold narrow
  split <;> simp_all

/-- Operational state of a device. -/
inductive DtStatus where
  | okay
  | disabled
  | reserved
  | fail
deriving DecidableEq, Repr

/-- The state a `status` string names. -/
def DtStatus.fromDtStr (s : String) : Option DtStatus :=
  if s="okay" then some .okay
  else if s="disabled" then some .disabled
  else if s="reserved" then some .reserved
  else if s="fail" ∨ "fail-".toList<+:s.toList then some .fail
  else none

/-- A node with the cell counts of its parent. -/
structure DtbNode where
  /-- The node itself. -/
  node : Node
  /-- Address cells that its `reg` is decoded with. -/
  parentAddrCells : ℕ
  /-- Size cells that its `reg` is decoded with. -/
  parentSizeCells : ℕ
  /-- Site that its errors name. -/
  site : Site
deriving Repr

/-- Name of the node. -/
def DtbNode.name (n : DtbNode) : String := n.node.name

/-- The root, read with the default cell counts. -/
def rootOf (root : Node) : DtbNode := ⟨root,2,1,.root⟩

/-- One pair of a `reg`, an address and a size. -/
def regPair (addrCells : ℕ) (chunk : Bytes) : ℕ×ℕ :=
  (ofBE (chunk.take (4*addrCells)),ofBE (chunk.drop (4*addrCells)))

/-- The whole pairs at the front of a `reg`. -/
def regPairs (addrCells sizeCells : ℕ) (raw : Bytes) : List (ℕ×ℕ) :=
  decodeRecords (4*(addrCells+sizeCells)) (regPair addrCells)
    (raw.length/(4*(addrCells+sizeCells))) raw

/-- The pairs of a `reg` of supported cell counts. -/
def regIter (raw : Bytes) (addrCells sizeCells : ℕ) (site : Site) :
    Outcome DtbError (List (ℕ×ℕ)) :=
  if ¬(1≤addrCells ∧ addrCells≤2) then fail (.unsupportedAddressCells site addrCells)
  else if ¬sizeCells≤2 then fail (.unsupportedSizeCells site sizeCells)
  else .ok (regPairs addrCells sizeCells raw)

/-- The pairs of the node's `reg`. -/
def DtbNode.reg (n : DtbNode) (site : Site) : Outcome DtbError (List (ℕ×ℕ)) := do
  let prop ← okOr (n.node.property "reg") (.missingProperty site "reg")
  regIter prop n.parentAddrCells n.parentSizeCells site

/-- The pairs of a `reg` fit double words. -/
theorem regPairs_lt {a s : ℕ} (ha : a≤2) (hs : s≤2) (raw : Bytes) :
    ∀ p∈regPairs a s raw, p.1<2^64 ∧ p.2<2^64 := by
  have hbytes : ∀ bs : Bytes, bs.length≤8 → ofBE bs<2^64 := by
    intro bs hlen
    have hlt := ofBE_lt bs
    have hpow : 256^bs.length≤256^8 := Nat.pow_le_pow_right (by norm_num) hlen
    have hword : (256 : ℕ)^8=2^64 := by norm_num
    omega
  have hrecords : ∀ (count : ℕ) (bs : Bytes),
      ∀ p∈decodeRecords (4*(a+s)) (regPair a) count bs, p.1<2^64 ∧ p.2<2^64 := by
    intro count
    induction count with
    | zero => exact fun _ p hp => absurd hp List.not_mem_nil
    | succ count ih =>
      intro bs p hp
      obtain rfl | hp := List.mem_cons.mp hp
      · refine ⟨hbytes _ ?_,hbytes _ ?_⟩
        · rw [List.length_take]
          omega
        · rw [List.length_drop,List.length_take]
          omega
      · exact ih _ p hp
  exact hrecords _ raw

/-- So do the pairs of a node's `reg`. -/
theorem reg_lt {n : DtbNode} {site : Site} {regs : List (ℕ×ℕ)} (h : n.reg site=.ok regs) :
    ∀ p∈regs, p.1<2^64 ∧ p.2<2^64 := by
  obtain ⟨prop,-,h⟩ := bind_ok.mp h
  unfold regIter at h
  split at h
  · exact absurd h fail_ne_ok
  · rename_i ha
    split at h
    · exact absurd h fail_ne_ok
    · rename_i hs
      cases h
      exact regPairs_lt (by omega) (by omega) prop

/-- The first pair of a node's `reg`. -/
def firstReg (n : DtbNode) (site : Site) : Option (ℕ×ℕ) := (value (n.reg site)).bind List.head?

/-- The first pair of a `reg`, read by a check. -/
theorem firstReg_some {n : DtbNode} {site : Site} {p : ℕ×ℕ} :
    firstReg n site=some p ↔ ∃ regs, n.reg site=.ok regs ∧ regs.head?=some p := by
  rw [firstReg,Option.bind_eq_some_iff]
  exact exists_congr fun regs => and_congr_left' value_eq_some

/-- The cells of a raw value; bytes behind the last whole cell are dropped. -/
def cellsAsU32s (raw : Bytes) : List ℕ := decodeRecords 4 ofBE (raw.length/4) raw

/-- One window of a host bridge. -/
structure PciRange where
  /-- Space code: 1 I/O, 2 32-bit memory, 3 64-bit memory. -/
  spaceCode : ℕ
  /-- Base on the side of the cpu. -/
  parentAddr : ℕ
  /-- Length of the window. -/
  size : ℕ
deriving DecidableEq, Repr

/-- One entry of a `ranges`: three cells of bus address, the parent's address
cells and two cells of size. -/
def pciRange (addrCells : ℕ) (chunk : Bytes) : PciRange :=
  ⟨ofBE (chunk.take 4)/2^24%4,ofBE (slice 12 (4*addrCells) chunk),
    ofBE (chunk.drop (12+4*addrCells))⟩

/-- The whole entries at the front of a `ranges`. -/
def pciRangesOf (addrCells : ℕ) (raw : Bytes) : List PciRange :=
  decodeRecords (4*(5+addrCells)) (pciRange addrCells) (raw.length/(4*(5+addrCells))) raw

/-- The windows of a host bridge, absent without a `ranges`. -/
def DtbNode.pciRanges (n : DtbNode) : Outcome DtbError (Option (List PciRange)) :=
  match n.node.property "ranges" with
  | none => .ok none
  | some raw =>
    if ¬(1≤n.parentAddrCells ∧ n.parentAddrCells≤2) then
      fail (.unsupportedAddressCells .pciHost n.parentAddrCells)
    else .ok (some (pciRangesOf n.parentAddrCells raw))

/-- The `bus-range` of a host bridge. -/
def DtbNode.decodePciBusRange (n : DtbNode) : Outcome DtbError (ℕ×ℕ) := do
  let raw ← okOr (n.node.property "bus-range") (.missingProperty .pciHost "bus-range")
  let start ← okOr (cellsAsU32s raw)[0]? (.malformedProperty .pciHost "bus-range")
  let stop ← okOr (cellsAsU32s raw)[1]? (.malformedProperty .pciHost "bus-range")
  let busStart ← okOr (narrow 8 start) (.valueOutOfRange .pciHost "bus-range")
  let busEnd ← okOr (narrow 8 stop) (.valueOutOfRange .pciHost "bus-range")
  if busStart>busEnd then fail (.malformedProperty .pciHost "bus-range")
  else .ok (busStart,busEnd)

variable [DevtreeLib]

/-- A required property of a single cell. -/
def DtbNode.propertyU32 (n : DtbNode) (name : String) (site : Site) : Outcome DtbError ℕ := do
  let prop ← okOr (n.node.property name) (.missingProperty site name)
  let v ← okOr (DevtreeLib.asU32 prop) (.malformedProperty site name)
  .ok v.toNat

/-- A property of a single cell, if present. -/
def DtbNode.propertyU32Opt (n : DtbNode) (name : String) : Outcome DtbError (Option ℕ) :=
  match n.node.property name with
  | none => .ok none
  | some prop => do
    let v ← okOr (DevtreeLib.asU32 prop) (.malformedProperty n.site name)
    .ok (some v.toNat)

/-- Cell counts that the node declares for its children. -/
def DtbNode.ownCells (n : DtbNode) : Outcome DtbError (ℕ×ℕ) := do
  let a ← n.propertyU32Opt "#address-cells"
  let s ← n.propertyU32Opt "#size-cells"
  .ok (a.getD 2,s.getD 1)

/-- The direct child of a name. -/
def DtbNode.child (n : DtbNode) (name : String) (childSite : Site) :
    Outcome DtbError (Option DtbNode) :=
  match DevtreeLib.child n.node name with
  | none => .ok none
  | some child => do
    let cells ← n.ownCells
    .ok (some ⟨child,cells.1,cells.2,childSite⟩)

/-- The direct children in order. -/
def DtbNode.children (n : DtbNode) : Outcome DtbError (List DtbNode) := do
  let cells ← n.ownCells
  .ok (n.node.children.map fun c => ⟨c,cells.1,cells.2,n.site⟩)

/-- `true` iff the node's `compatible` lists `want`. -/
def DtbNode.hasCompatible (n : DtbNode) (want : String) : Outcome DtbError Bool :=
  match n.node.property "compatible" with
  | none => .ok false
  | some prop => do
    let strs ← okOr (DevtreeLib.asStrs prop) (.malformedProperty n.site "compatible")
    .ok (decide (want∈strs))

/-- The two cells of an `interrupts`: pin and sense. -/
def DtbNode.decodeInterrupts2 (n : DtbNode) (site : Site) : Outcome DtbError (ℕ×ℕ) := do
  let prop ← okOr (n.node.property "interrupts") (.missingProperty site "interrupts")
  let cells ← okOr (DevtreeLib.asU32s prop) (.malformedProperty site "interrupts")
  match cells with
  | [gsi,sense] => .ok (gsi.toNat,sense.toNat)
  | _ => fail (.malformedProperty site "interrupts")

/-- The `status` of a node, `okay` when absent. -/
def DtbNode.decodeStatus (n : DtbNode) (site : Site) : Outcome DtbError DtStatus :=
  match n.node.property "status" with
  | none => .ok .okay
  | some prop => do
    let s ← okOr (DevtreeLib.asStr prop) (.malformedProperty site "status")
    okOr (DtStatus.fromDtStr s) (.malformedProperty site "status")

/-- `true` iff the node has a `hotpluggable`. -/
def DtbNode.decodeMemoryHotpluggable (n : DtbNode) : Bool :=
  (n.node.property "hotpluggable").isSome

/-- The tag that stands for an absent one. -/
def numaTagNone : ℕ := 2^32-1

/-- The `numa-node-id` of a cpu; the value that stands for an absent one is
rejected. -/
def DtbNode.cpuNumaTag (n : DtbNode) : Outcome DtbError (Option ℕ) :=
  match n.node.property "numa-node-id" with
  | none => .ok none
  | some prop => do
    let v ← okOr (DevtreeLib.asU32 prop) (.malformedProperty n.site "numa-node-id")
    if v.toNat=numaTagNone then fail (.valueOutOfRange n.site "numa-node-id")
    else .ok (some v.toNat)

/-- APIC id, NUMA tag and status of a cpu. -/
def DtbNode.decodeCpuSubset (n : DtbNode) : Outcome DtbError (ℕ×Option ℕ×DtStatus) := do
  let raw ← okOr (n.node.property "reg") (.missingProperty .cpu "reg")
  let pairs ← regIter raw n.parentAddrCells n.parentSizeCells .cpu
  let first ← okOr pairs.head? (.malformedProperty .cpu "reg")
  let apicId ← okOr (narrow 32 first.1) (.valueOutOfRange .cpu "reg")
  let numa ← n.cpuNumaTag
  let status ← n.decodeStatus .cpu
  .ok (apicId,numa,status)

/-- The node's `compatible` is absent or well formed. -/
def DtbNode.Listed (n : DtbNode) : Prop :=
  ∀ prop, n.node.property "compatible"=some prop → (DevtreeLib.asStrs prop).isSome=true

/-- `true` iff the node's `compatible` is well formed and lists `want`. -/
def DtbNode.lists (n : DtbNode) (want : String) : Bool := (value (n.hasCompatible want)).getD false

/-- A node that lists a string has a list of strings with it. -/
theorem lists_some {n : DtbNode} {want : String} (h : n.lists want=true) :
    ∃ strs, (n.node.property "compatible").bind DevtreeLib.asStrs=some strs ∧ want∈strs := by
  rw [DtbNode.lists,DtbNode.hasCompatible] at h
  cases hprop : n.node.property "compatible" with
  | none =>
    rw [hprop] at h
    cases h
  | some prop =>
    rw [hprop] at h
    dsimp only at h
    cases hstrs : DevtreeLib.asStrs prop with
    | none =>
      rw [hstrs] at h
      cases h
    | some strs =>
      rw [hstrs] at h
      exact ⟨strs,hstrs,of_decide_eq_true h⟩

/-- A compatibility test succeeds exactly on a well-formed `compatible`. -/
theorem hasCompatible_ok {n : DtbNode} {want : String} {b : Bool} :
    n.hasCompatible want=.ok b ↔ n.Listed ∧ n.lists want=b := by
  unfold DtbNode.Listed DtbNode.lists DtbNode.hasCompatible
  cases hprop : n.node.property "compatible" with
  | none => simp
  | some prop =>
    dsimp only
    cases hstrs : DevtreeLib.asStrs prop with
    | none =>
      rw [show okOr (none : Option (List String)) (DtbError.malformedProperty n.site "compatible")=
        fail (.malformedProperty n.site "compatible") from rfl]
      constructor
      · intro h
        cases h
      · rintro ⟨h,_⟩
        have := h prop rfl
        rw [hstrs] at this
        cases this
    | some strs =>
      change (Except.ok (decide (want∈strs)) : Outcome DtbError Bool)=.ok b ↔
        _ ∧ (value (Except.ok (decide (want∈strs)) : Outcome DtbError Bool)).getD false=b
      rw [value_ok,Option.getD_some,Except.ok.injEq]
      constructor
      · intro h
        refine ⟨fun p hp => ?_,h⟩
        cases hp
        rw [hstrs]
        rfl
      · exact fun h => h.2

/-- On a well-formed `compatible` the test yields whether it lists the string. -/
theorem DtbNode.Listed.hasCompatible {n : DtbNode} (h : n.Listed) (want : String) :
    n.hasCompatible want=.ok (n.lists want) := hasCompatible_ok.mpr ⟨h,rfl⟩

end Arma.Acpi.Dtb
