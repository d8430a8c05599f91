import Mathlib.Tactic.Common
import Arma.Acpi.Count
import Arma.Base.TwoRuns
import Arma.Devtree.Merge

/-!
# Trees that give the same devices

Two runs of the translation are compared, on trees that are the same but for the
domains of nodes and for nodes that no device is made of. Every function on a node
reads the same of both, every walk over the children of the root selects the same
nodes, and so every table that describes devices is the same.
-/

namespace Arma.Acpi.TwoTrees

open Base.ByteString Base.Checked Base.TwoRuns Base.Writer Devtree Devtree.Merge Dtb Aml Numbered Bridges Serial
  Virtio Tables Dsdt Sdt Count Spcr Fixed

section Nodes

variable [DevtreeLib]

/-- Serial ports of the first tree have a domain in the second one only if they had
one before. -/
def SerialKept (before after : Node) : Prop :=
  ∀ pos a b, nodeAt pos before=some a → nodeAt pos after=some b →
    (rootOf a).lists serialCompatible=true →
    "numa-node-id"∈b.properties.map Property.name → "numa-node-id"∈a.properties.map Property.name

/-- Nodes that are read with the same cell counts and have the same properties, but
for the domain. -/
structure Agrees (n m : DtbNode) : Prop where
  /-- The names are the same. -/
  name : m.name=n.name
  /-- The properties are the same. -/
  properties : PropertiesGain "numa-node-id" n.node.properties m.node.properties
  /-- A serial port has gained no domain. -/
  tagged : n.lists serialCompatible=true →
    "numa-node-id"∈m.node.properties.map Property.name →
    "numa-node-id"∈n.node.properties.map Property.name
  /-- The address cells are the same. -/
  addrCells : m.parentAddrCells=n.parentAddrCells
  /-- The size cells are the same. -/
  sizeCells : m.parentSizeCells=n.parentSizeCells
  /-- Errors name the same site. -/
  site : m.site=n.site

/-- Nothing is gained by doing nothing. -/
theorem SerialKept.refl (n : Node) : SerialKept n n := by
  intro pos a b ha hb _ hnuma
  rw [ha] at hb
  cases hb
  exact hnuma

/-- Whether a node lists a string does not depend on how it is read. -/
theorem lists_rootOf (n : DtbNode) (want : String) :
    (rootOf n.node).lists want=n.lists want := by
  unfold DtbNode.lists DtbNode.hasCompatible rootOf
  dsimp only
  cases n.node.property "compatible" with
  | none => rfl
  | some prop =>
    dsimp only
    cases DevtreeLib.asStrs prop <;> rfl

namespace Agrees

variable {n m : DtbNode}

/-- Nodes that are the same but for domains agree. -/
theorem of_gains {a b : Node} (h : Gains "numa-node-id" a b) (hserial : SerialKept a b)
    (addrCells sizeCells : ℕ) (site : Site) :
    Agrees ⟨a,addrCells,sizeCells,site⟩ ⟨b,addrCells,sizeCells,site⟩ := by
  refine ⟨h.name,(Gains.iff.mp h).2.1,fun hlists => ?_,rfl,rfl,rfl⟩
  exact hserial [] a b rfl rfl ((lists_rootOf ⟨a,addrCells,sizeCells,site⟩ _).trans hlists)

/-- A property other than the domain is the same. -/
theorem property (h : Agrees n m) {name : String} (hne : name≠"numa-node-id") :
    m.node.property name=n.node.property name := by
  rw [Node.property,Node.property,h.properties.find? hne]

/-- Both nodes are compatible with the same. -/
theorem hasCompatible (h : Agrees n m) (want : String) :
    m.hasCompatible want=n.hasCompatible want := by
  unfold DtbNode.hasCompatible
  rw [h.property (by decide),h.site]

/-- Both nodes list the same. -/
theorem lists (h : Agrees n m) (want : String) : m.lists want=n.lists want := by
  rw [DtbNode.lists,DtbNode.lists,h.hasCompatible]

/-- Both nodes have the same registers. -/
theorem reg (h : Agrees n m) (site : Site) : m.reg site=n.reg site := by
  unfold DtbNode.reg
  rw [h.property (by decide),h.addrCells,h.sizeCells]

/-- Both nodes have the same windows. -/
theorem pciRanges (h : Agrees n m) : m.pciRanges=n.pciRanges := by
  unfold DtbNode.pciRanges
  rw [h.property (by decide),h.addrCells]

/-- Both nodes have the same bus numbers. -/
theorem decodePciBusRange (h : Agrees n m) : m.decodePciBusRange=n.decodePciBusRange := by
  unfold DtbNode.decodePciBusRange
  rw [h.property (by decide)]

/-- Both nodes have the same interrupt. -/
theorem decodeInterrupts2 (h : Agrees n m) (site : Site) :
    m.decodeInterrupts2 site=n.decodeInterrupts2 site := by
  unfold DtbNode.decodeInterrupts2
  rw [h.property (by decide)]

/-- Both nodes have the same cell of a name. -/
theorem propertyU32 (h : Agrees n m) {name : String} (hne : name≠"numa-node-id") (site : Site) :
    m.propertyU32 name site=n.propertyU32 name site := by
  unfold DtbNode.propertyU32
  rw [h.property hne]

/-- Both nodes have the same cell of a name, or none. -/
theorem propertyU32Opt (h : Agrees n m) {name : String} (hne : name≠"numa-node-id") :
    m.propertyU32Opt name=n.propertyU32Opt name := by
  unfold DtbNode.propertyU32Opt
  rw [h.property hne,h.site]

/-- Both nodes declare the same cell counts. -/
theorem ownCells (h : Agrees n m) : m.ownCells=n.ownCells := by
  unfold DtbNode.ownCells
  rw [h.propertyU32Opt (by decide),h.propertyU32Opt (by decide)]

/-- Both interrupt controllers have the same base. -/
theorem intcBase (h : Agrees n m) : intcBase m=intcBase n := by
  unfold Count.intcBase
  rw [h.reg]

/-- Both host bridges pass the same check. -/
theorem checkEcam (h : Agrees n m) : checkEcam m=checkEcam n := by
  unfold Count.checkEcam
  rw [h.reg,h.decodePciBusRange]

/-- Both register nodes have the same register and value. -/
theorem resolveSyscon (h : Agrees n m) (site : Site) (valueRequired : Bool) :
    resolveSyscon m site valueRequired=resolveSyscon n site valueRequired := by
  unfold Count.resolveSyscon
  rw [h.reg,h.property (by decide)]

/-- Both host bridges have windows of the same kinds. -/
theorem countWindows (h : Agrees n m) : countWindows m=countWindows n := by
  unfold Bridges.countWindows
  rw [h.pciRanges]

/-- Both host bridges have the same allocation. -/
theorem writeAllocation (h : Agrees n m) : writeAllocation m=writeAllocation n := by
  funext c
  unfold Tables.writeAllocation
  rw [h.reg,h.decodePciBusRange]

/-- Both host bridges reserve the same configuration space. -/
theorem writeMotherboardDevice (h : Agrees n m) (index : ℕ) :
    writeMotherboardDevice m index=writeMotherboardDevice n index := by
  funext c
  unfold Bridges.writeMotherboardDevice
  rw [h.reg]

/-- Both host bridges are the same device. -/
theorem writePciDevice (h : Agrees n m) (segment : ℕ) :
    writePciDevice m segment=writePciDevice n segment := by
  funext c
  unfold Bridges.writePciDevice writeRanges
  rw [h.decodePciBusRange,h.countWindows,h.pciRanges]

/-- Both transports are the same device. -/
theorem writeVirtioDevice (h : Agrees n m) (index : ℕ) :
    writeVirtioDevice m index=writeVirtioDevice n index := by
  funext c
  unfold Virtio.writeVirtioDevice
  rw [h.reg,h.decodeInterrupts2]

/-- Both serial ports are read alike. -/
theorem decodeSerial (h : Agrees n m) : decodeSerial m=decodeSerial n := by
  unfold Serial.decodeSerial
  rw [h.reg,h.propertyU32 (by decide),h.decodeInterrupts2]

/-- Both serial ports have the same baud rate. -/
theorem decodeBaudRate (h : Agrees n m) (stdoutBaud : Option ℕ) :
    decodeBaudRate m stdoutBaud=decodeBaudRate n stdoutBaud := by
  unfold Serial.decodeBaudRate
  rw [h.propertyU32Opt (by decide)]

/-- Both serial ports are the same device. -/
theorem writeSerialDevice (h : Agrees n m) : writeSerialDevice m=writeSerialDevice n := by
  funext c
  unfold Serial.writeSerialDevice
  rw [h.decodeSerial,h.reg,h.propertyU32 (by decide),h.propertyU32 (by decide),
    h.propertyU32 (by decide),h.decodeInterrupts2]

/-- Serial ports have properties that can be translated in both trees or in none. -/
theorem validatePropertySet (h : Agrees n m) (hserial : n.lists serialCompatible=true) :
    validatePropertySet m=validatePropertySet n := by
  have hall : (m.node.properties.all fun p => decide (p.name∈serialAllowed))=
      n.node.properties.all fun p => decide (p.name∈serialAllowed) := by
    have hiff := h.properties.forall_name (h.tagged hserial) (Q := fun name => name∈serialAllowed)
    rw [Bool.eq_iff_iff,List.all_eq_true,List.all_eq_true]
    simp only [decide_eq_true_eq]
    exact hiff
  unfold Serial.validatePropertySet
  rw [hall]

end Agrees

/-- Compatible strings of all devices that are looked up by them. -/
def bindings : List String :=
  [lapicCompatible,ioapicCompatible,"syscon-poweroff","syscon-reboot",pciHostCompatible,
    virtioMmioCompatible]

/-- No device is made of the node. -/
structure Skipped (n : DtbNode) : Prop where
  /-- The node is compatible with no device. -/
  quiet : ∀ want∈bindings, n.hasCompatible want=.ok false
  /-- The node is not named as a serial port. -/
  name : baseNameIs n.name "serial"=false

/-- Two lists of nodes that are the same but for nodes that no device is made of. -/
inductive ReadAlike : List DtbNode → List DtbNode → Prop where
  /-- Both lists end. -/
  | nil : ReadAlike [] []
  /-- Both lists go on with the same node. -/
  | both {n m : DtbNode} {l l' : List DtbNode} (h : Agrees n m) (hrest : ReadAlike l l') :
    ReadAlike (n::l) (m::l')
  /-- The first list has a node more. -/
  | left {n : DtbNode} {l l' : List DtbNode} (h : Skipped n) (hrest : ReadAlike l l') :
    ReadAlike (n::l) l'
  /-- The second list has a node more. -/
  | right {m : DtbNode} {l l' : List DtbNode} (h : Skipped m) (hrest : ReadAlike l l') :
    ReadAlike l (m::l')

namespace Skipped

variable {n : DtbNode}

/-- The search for the local interrupt controller passes the node. -/
theorem findLapicIn (h : Skipped n) (l : List DtbNode) :
    findLapicIn (n::l)=findLapicIn l := by
  rw [Count.findLapicIn,h.quiet lapicCompatible (by decide)]
  rfl

/-- The node is not selected. -/
theorem selected (h : Skipped n) {want : String} (hwant : want∈bindings) (l : List DtbNode) :
    selected want (n::l)=selected want l :=
  selected_skip (hasCompatible_ok.mp (h.quiet want hwant)).2

/-- The node contributes nothing. -/
theorem sumOver (h : Skipped n) {want : String} (hwant : want∈bindings) (w : ℕ)
    (size : DtbNode → Outcome DtbError ℕ) (l : List DtbNode) (total : ℕ) :
    sumOver w want size (n::l) total=sumOver w want size l total := by
  rw [Numbered.sumOver,h.quiet want hwant]
  rfl

/-- No device is written for the node. -/
theorem emitOver (h : Skipped n) {want : String} (hwant : want∈bindings)
    (write : DtbNode → ℕ → Emitter) (l : List DtbNode) (index : ℕ) :
    emitOver want write (n::l) index=emitOver want write l index := by
  funext c
  rw [Numbered.emitOver,h.quiet want hwant]
  rfl

/-- No allocation is written for the node. -/
theorem writeAllocations (h : Skipped n) (l : List DtbNode) :
    writeAllocations (n::l)=writeAllocations l := by
  funext c
  rw [Tables.writeAllocations,h.quiet pciHostCompatible (by decide)]
  rfl

/-- The node is not claimed. -/
theorem claim (h : Skipped n) {want : String} (hwant : want∈bindings) (o : Option DtbNode) :
    claim o n want=.ok o := by
  cases o with
  | some a => rfl
  | none =>
    rw [Count.claim,h.quiet want hwant]
    rfl

/-- The search for the serial port passes the node. -/
theorem findSerialIn (h : Skipped n) (l : List DtbNode) :
    findSerialIn (n::l)=findSerialIn l := by
  rw [Serial.findSerialIn,if_neg (by rw [h.name]; decide)]

end Skipped

/-- With both nodes found the search is over. -/
theorem findSyscons_done (l : List DtbNode) (a b : DtbNode) :
    findSyscons l (some a) (some b)=.ok (some a,some b) := by
  cases l <;> rfl

/-- The search for register nodes passes a node of which no device is made. -/
theorem Skipped.findSyscons {n : DtbNode} (h : Skipped n) (l : List DtbNode)
    (poweroff reboot : Option DtbNode) :
    findSyscons (n::l) poweroff reboot=findSyscons l poweroff reboot := by
  rw [Count.findSyscons,h.claim (by decide),h.claim (by decide)]
  change (if poweroff.isSome=true ∧ reboot.isSome=true then _ else _)=_
  split
  · rename_i hboth
    obtain ⟨a,rfl⟩ := Option.isSome_iff_exists.mp hboth.1
    obtain ⟨b,rfl⟩ := Option.isSome_iff_exists.mp hboth.2
    exact (findSyscons_done l a b).symm
  · rfl

/-- Related nodes are claimed alike. -/
theorem Agrees.claim {n m : DtbNode} (h : Agrees n m) {o o' : Option DtbNode}
    (ho : Option.Rel Agrees o o') (want : String) :
    Alike (Option.Rel Agrees) (claim o n want) (claim o' m want) := by
  cases ho with
  | some hab => exact .ok (.some hab)
  | none =>
    unfold Count.claim
    rw [h.hasCompatible]
    refine (Alike.refl (R := Eq) (fun _ => rfl) _).bind fun found found' hfound => .ok ?_
    cases hfound
    cases found with
    | true => exact .some h
    | false => exact .none

namespace ReadAlike

variable {l l' : List DtbNode}

/-- The first local interrupt controller is the same. -/
theorem findLapicIn (h : ReadAlike l l') : Alike Agrees (findLapicIn l) (findLapicIn l') := by
  induction h with
  | nil => exact .error _
  | @both n m _ _ hnm _ ih =>
    unfold Count.findLapicIn
    rw [hnm.hasCompatible]
    refine (Alike.refl (R := Eq) (fun _ => rfl) _).bind fun found found' hfound => ?_
    cases hfound
    cases found with
    | true => exact .ok hnm
    | false => exact ih
  | left hn _ ih =>
    rw [hn.findLapicIn]
    exact ih
  | right hm _ ih =>
    rw [hm.findLapicIn]
    exact ih

/-- The nodes of one binding are the same. -/
theorem selected (h : ReadAlike l l') {want : String} (hwant : want∈bindings) :
    List.Forall₂ Agrees (selected want l) (selected want l') := by
  induction h with
  | nil => exact .nil
  | @both n m _ _ hnm _ ih =>
    cases hn : n.lists want with
    | true =>
      rw [selected_cons hn,selected_cons ((hnm.lists want).trans hn)]
      exact .cons hnm ih
    | false =>
      rw [selected_skip hn,selected_skip ((hnm.lists want).trans hn)]
      exact ih
  | left hn _ ih =>
    rw [hn.selected hwant]
    exact ih
  | right hm _ ih =>
    rw [hm.selected hwant]
    exact ih

/-- The sums are the same. -/
theorem sumOver (h : ReadAlike l l') {want : String} (hwant : want∈bindings) (w : ℕ)
    {size : DtbNode → Outcome DtbError ℕ} (hsize : ∀ n m, Agrees n m → size m=size n)
    (total : ℕ) : sumOver w want size l' total=sumOver w want size l total := by
  induction h generalizing total with
  | nil => rfl
  | @both n m _ _ hnm _ ih =>
    unfold Numbered.sumOver
    rw [hnm.hasCompatible,hsize n m hnm]
    simp only [ih]
  | left hn _ ih =>
    rw [hn.sumOver hwant]
    exact ih total
  | right hm _ ih =>
    rw [hm.sumOver hwant]
    exact ih total

/-- The devices are the same. -/
theorem emitOver (h : ReadAlike l l') {want : String} (hwant : want∈bindings)
    {write : DtbNode → ℕ → Emitter} (hwrite : ∀ n m, Agrees n m → write m=write n)
    (index : ℕ) : emitOver want write l' index=emitOver want write l index := by
  induction h generalizing index with
  | nil => rfl
  | @both n m _ _ hnm _ ih =>
    funext c
    unfold Numbered.emitOver
    rw [hnm.hasCompatible,hwrite n m hnm]
    simp only [ih]
  | left hn _ ih =>
    rw [hn.emitOver hwant]
    exact ih index
  | right hm _ ih =>
    rw [hm.emitOver hwant]
    exact ih index

/-- The allocations are the same. -/
theorem writeAllocations (h : ReadAlike l l') : writeAllocations l'=writeAllocations l := by
  induction h with
  | nil => rfl
  | both hnm _ ih =>
    funext c
    unfold Tables.writeAllocations
    rw [hnm.hasCompatible,hnm.writeAllocation,ih]
  | left hn _ ih =>
    rw [hn.writeAllocations]
    exact ih
  | right hm _ ih =>
    rw [hm.writeAllocations]
    exact ih

/-- The register nodes are the same. -/
theorem findSyscons (h : ReadAlike l l') {p p' r r' : Option DtbNode}
    (hp : Option.Rel Agrees p p') (hr : Option.Rel Agrees r r') :
    Alike (fun a b : Option DtbNode×Option DtbNode =>
      Option.Rel Agrees a.1 b.1 ∧ Option.Rel Agrees a.2 b.2)
      (findSyscons l p r) (findSyscons l' p' r') := by
  induction h generalizing p p' r r' with
  | nil => exact .ok ⟨hp,hr⟩
  | both hnm _ ih =>
    unfold Count.findSyscons
    refine (hnm.claim hp _).bind fun p p' hp => (hnm.claim hr _).bind fun r r' hr => ?_
    rw [isSome_rel hp,isSome_rel hr]
    split
    · exact .ok ⟨hp,hr⟩
    · exact ih hp hr
  | left hn _ ih =>
    rw [hn.findSyscons]
    exact ih hp hr
  | right hm _ ih =>
    rw [hm.findSyscons]
    exact ih hp hr

/-- The serial port is the same. -/
theorem findSerialIn (h : ReadAlike l l') :
    Alike (Option.Rel Agrees) (findSerialIn l) (findSerialIn l') := by
  induction h with
  | nil => exact .ok .none
  | @both n m _ _ hnm _ ih =>
    unfold Serial.findSerialIn
    rw [hnm.name]
    split
    · cases hfound : n.hasCompatible serialCompatible with
      | error e =>
        rw [hnm.hasCompatible,hfound]
        exact .error e
      | ok found =>
        rw [hnm.hasCompatible,hfound]
        cases found with
        | true =>
          have hlists := (hasCompatible_ok.mp hfound).2
          change Alike _ (validatePropertySet n >>= fun _ => _) (validatePropertySet m >>= fun _ => _)
          rw [hnm.validatePropertySet hlists]
          exact (Alike.refl (R := Eq) (fun _ => rfl) _).bind fun _ _ _ => .ok (.some hnm)
        | false => exact .error _
    · exact ih
  | left hn _ ih =>
    rw [hn.findSerialIn]
    exact ih
  | right hm _ ih =>
    rw [hm.findSerialIn]
    exact ih

end ReadAlike

section Roots

variable {base merged : DtbNode} (hkids : Alike ReadAlike base.children merged.children)

include hkids

end Roots

end Nodes

end Arma.Acpi.TwoTrees
