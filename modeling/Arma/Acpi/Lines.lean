import Mathlib.Tactic.Common
import Arma.Acpi.Console
import Arma.Acpi.Madt

/-!
# Interrupts and lines

The table of interrupt controllers gives 24 interrupts to each controller in order. What the
tables say of a device is the pin of its `interrupts` alone, so it is the interrupt of the
device's line as long as the line belongs to the first controller.
-/

namespace Arma.Acpi.Lines

open Base.ByteString Base.Bytecode Base.Checked Base.Resources Base.Writer Devtree Dtb Aml Layout
  Sdt Tables Serial Spcr Count Counted Collected Populate Image Filled Namespace Objects Templates Madt Console

/-- A pin of an interrupt controller. -/
structure Line where
  /-- Number of the controller. -/
  controller : ℕ
  /-- Number of the pin. -/
  pin : ℕ
deriving DecidableEq, Repr

/-- Pins of a controller. -/
def controllerPins : ℕ := 24

/-- The first interrupt of a controller. -/
def MadtEntry.gsiBase : MadtEntry → Option ℕ
  | .ioApic _ _ gsiBase => some gsiBase
  | _ => none

/-- The interrupt that a table gives to a line. -/
def lineGsi (entries : List MadtEntry) (line : Line) : Option ℕ :=
  ((entries.filterMap MadtEntry.gsiBase)[line.controller]?).map fun base => base+line.pin

/-- The interrupts of a namespace in the order of its devices. -/
def namespaceGsis (objects : List Object) : List ℕ :=
  objects.flatMap fun o => ((resourcesOf o).map linesIn).getD []

/-- What is said of a line is what the table of interrupt controllers gives to it. -/
def Agrees (entries : List MadtEntry) (line : Option Line) (gsi : ℕ) : Prop :=
  ∀ x, line=some x → lineGsi entries x=some gsi ∧ gsi=controllerPins*x.controller+x.pin

/-- What is said of a line is its pin. -/
def PinOnly (controllers : ℕ) (line : Option Line) (gsi : ℕ) : Prop :=
  ∀ x, line=some x → x.controller<controllers ∧ x.pin=gsi

/-- Different lines have different interrupts. -/
def Distinct (a b : Option Line×ℕ) : Prop :=
  ∀ x y, a.1=some x → b.1=some y → x≠y → a.2≠b.2

/-- A template of ranges has no interrupts. -/
theorem linesIn_addresses (as : List Address) : linesIn (as.map Resource.address++[.endTag])=[] := by
  induction as with
  | nil => rfl
  | cons a as ih => exact ih

/-- Lines of the first controller have different interrupts when they are different. -/
theorem distinct_of_first {controllers : ℕ} {ls : List (Option Line)} {gsis : List ℕ}
    (h : List.Forall₂ (PinOnly controllers) ls gsis) (hfirst : ∀ x, some x∈ls → x.controller=0) :
    ∀ a∈ls.zip gsis, ∀ b∈ls.zip gsis, Distinct a b := by
  intro a ha b hb x y hx hy hne hsame
  have hpin : ∀ p∈ls.zip gsis, ∀ z, p.1=some z → z.controller=0 ∧ z.pin=p.2 := by
    intro p hp z hz
    have hmem := List.of_mem_zip (show (p.1,p.2)∈ls.zip gsis from hp)
    exact ⟨hfirst z (hz ▸ hmem.1),(List.forall₂_zip h hp z hz).2⟩
  obtain ⟨hxk,hxpin⟩ := hpin a ha x hx
  obtain ⟨hyk,hypin⟩ := hpin b hb y hy
  refine hne ?_
  rw [Line.mk.injEq x.controller x.pin y.controller y.pin]
  omega

section Lines

variable [DevtreeLib]

/-- The interrupt parent that a node names, or else inherits. -/
def interruptParent (inherited : Option ℕ) (n : Node) : Option ℕ :=
  match n.property "interrupt-parent" with
  | none => inherited
  | some prop => (DevtreeLib.asU32 prop).map UInt32.toNat

/-- The number of the interrupt controller with a phandle. -/
def controllerOf (root : Node) (phandle : ℕ) : Option ℕ :=
  (ioapicsOf root).findIdx? fun c => decide
    (((c.node.property "phandle").bind DevtreeLib.asU32).map UInt32.toNat=some phandle)

/-- The pin of a node. -/
def pinOf (n : Node) : Option ℕ :=
  ((n.property "interrupts").bind DevtreeLib.asU32s).bind fun cells => cells.head?.map UInt32.toNat

/-- The line of a node; the node may inherit its interrupt parent. -/
def lineOf (root : Node) (inherited : Option ℕ) (n : Node) : Option Line :=
  (interruptParent inherited n).bind fun phandle => (controllerOf root phandle).bind fun k =>
    (pinOf n).bind fun pin => if pin<controllerPins then some ⟨k,pin⟩ else none

/-- The line of a child of the root. -/
def childLine (root : Node) (c : DtbNode) : Option Line :=
  lineOf root (interruptParent none root) c.node

/-- The path that the standard output path gives, itself or by an alias. -/
def stdoutPath (root : Node) : Option (List Char) :=
  (((DevtreeLib.findPath root "/chosen").bind fun chosen =>
    chosen.property "stdout-path").bind DevtreeLib.asStr).bind fun stdout =>
      let target := stdout.toList.takeWhile (· != ':')
      if target.head?=some '/' then some target
      else ((DevtreeLib.findPath root "/aliases").bind fun aliases =>
        (aliases.property (String.ofList target)).bind DevtreeLib.asStr).map String.toList

/-- Descend along the segments of a path; the node is given with what it may inherit. -/
def walkParents : List (List Char) → Option ℕ → Node → Option (Node×Option ℕ)
  | [],inherited,n => some (n,inherited)
  | segment::rest,inherited,n => (DevtreeLib.child n (String.ofList segment)).bind fun c =>
    walkParents rest (interruptParent inherited n) c

/-- The line of the console. -/
def consoleLine (root : Node) : Option Line :=
  (stdoutPath root).bind fun path =>
    (walkParents (((path.drop 1).splitOn '/').filter fun s => decide (s≠[])) none root).bind
      fun found => lineOf root found.2 found.1

/-- The lines of the devices that the tables give interrupts to: the serial port and the virtio
transports of the namespace, and the console. -/
def lines (root : Node) : List (Option Line) :=
  ((serialOf root).toList++virtios root).map (childLine root)++
    (consoleOf root).toList.map fun _ => consoleLine root

/-- The interrupts of the namespace and of the console table are those that the table of
interrupt controllers gives to the lines, and different lines have different ones. -/
def LinesAgree (root : Node) (madt dsdt : Bytes) (spcr : Option Bytes) : Prop :=
  ∃ entries objects, madtEntries madt=some entries ∧ readObjects dsdt=some objects ∧
    List.Forall₂ (Agrees entries) (lines root) (namespaceGsis objects++spcr.toList.map consoleGsi) ∧
    ∀ a∈(lines root).zip (namespaceGsis objects++spcr.toList.map consoleGsi),
      ∀ b∈(lines root).zip (namespaceGsis objects++spcr.toList.map consoleGsi), Distinct a b

/-- Every line belongs to the first controller. -/
def FirstController (root : Node) : Prop := ∀ x, some x∈lines root → x.controller=0

/-- The controllers of a tree have the multiples of 24. -/
theorem gsiBases_madtOf (root : Node) : (madtOf root).filterMap MadtEntry.gsiBase=
    (List.range (ioapicsOf root).length).map fun k => controllerPins*k := by
  have hcpu : ∀ e : CpuEntry, (cpuMadt e).filterMap MadtEntry.gsiBase=[] := by
    intro e
    refine List.filterMap_eq_nil_iff.mpr fun entry hentry => ?_
    rw [cpuMadt] at hentry
    obtain rfl | hentry := List.mem_cons.mp hentry
    · split <;> rfl
    · rw [List.mem_singleton.mp hentry]
      split <;> rfl
  have hcpus : ((cpusOf root).zipIdx.flatMap fun p => cpuMadt (cpuEntry p.1 p.2)).filterMap
      MadtEntry.gsiBase=[] := by
    rw [List.filterMap_flatMap]
    exact List.flatMap_eq_nil_iff.mpr fun p _ => hcpu _
  have hcontrollers : ((ioapicsOf root).zipIdx.map fun p => ioapicMadt p.1 p.2).filterMap
      MadtEntry.gsiBase=(List.range (ioapicsOf root).length).map fun k => controllerPins*k := by
    rw [List.filterMap_map,List.range_eq_range',←List.zipIdx_map_snd,List.map_map,
      ←List.filterMap_eq_map]
    rfl
  rw [madtOf,List.filterMap_append,hcpus,hcontrollers,List.nil_append]

/-- The interrupt of a line of a tree. -/
theorem lineGsi_madtOf {root : Node} {x : Line} (h : x.controller<(ioapicsOf root).length) :
    lineGsi (madtOf root) x=some (controllerPins*x.controller+x.pin) := by
  rw [lineGsi,gsiBases_madtOf,List.getElem?_map,List.getElem?_range h]
  rfl

/-- The controller of a phandle is one of the controllers. -/
theorem controllerOf_lt {root : Node} {phandle k : ℕ} (h : controllerOf root phandle=some k) :
    k<(ioapicsOf root).length := by
  obtain ⟨hk,-⟩ := List.findIdx?_eq_some_iff_getElem.mp h
  exact hk

/-- The pin of an interrupt that is read. -/
theorem pinOf_eq {c : DtbNode} {site : Site} {irq : ℕ×ℕ} (h : c.decodeInterrupts2 site=.ok irq) :
    pinOf c.node=some irq.1 := by
  obtain ⟨prop,hprop,h⟩ := bind_ok.mp h
  obtain ⟨cells,hcells,h⟩ := bind_ok.mp h
  rw [pinOf,okOr_ok.mp hprop,Option.bind_some,okOr_ok.mp hcells,Option.bind_some]
  split at h
  · cases h
    rfl
  · exact absurd h fail_ne_ok

/-- What is said of a node's line is its pin, when it is the node's first cell. -/
theorem pinOnly_line {root : Node} {inherited : Option ℕ} {c : DtbNode} {site : Site} {irq : ℕ×ℕ}
    (h : c.decodeInterrupts2 site=.ok irq) :
    PinOnly (ioapicsOf root).length (lineOf root inherited c.node) irq.1 := by
  intro x hx
  obtain ⟨phandle,-,hx⟩ := Option.bind_eq_some_iff.mp hx
  obtain ⟨k,hk,hx⟩ := Option.bind_eq_some_iff.mp hx
  obtain ⟨pin,hpin,hx⟩ := Option.bind_eq_some_iff.mp hx
  split at hx
  · cases hx
    exact ⟨controllerOf_lt hk,Option.some.inj (hpin.symm.trans (pinOf_eq h))⟩
  · cases hx

/-- The interrupts of the devices for the nodes of a tree are their pins. -/
theorem namespaceGsis_eq {root : Node} (h : NodesRead root) (sleepValue : ℕ) :
    namespaceGsis (s5Object sleepValue::deviceObjects root)=
      ((serialOf root).toList.map fun n => (irqOf n .serial).1)++
        (virtios root).map fun c => (irqOf c .virtioMmio).1 := by
  have hsaid := inTemplates_devices linesIn_addresses h sleepValue
  change namespaceGsis _=_ at hsaid
  rw [hsaid]
  exact congrArg₂ (· ++ ·) (List.flatMap_pure_eq_map _ _) (List.flatMap_pure_eq_map _ _)

/-- Walking a path with the interrupt parents meets the same node. -/
theorem walkParents_eq {segments : List (List Char)} {n m : DtbNode} (inherited : Option ℕ)
    (h : walkSegments segments n=.ok (some m)) :
    ∃ parent, walkParents segments inherited n.node=some (m.node,parent) := by
  induction segments generalizing n inherited with
  | nil =>
    cases h
    exact ⟨inherited,rfl⟩
  | cons segment rest ih =>
    obtain ⟨next,hnext,h⟩ := bind_ok.mp h
    cases next with
    | none => cases h
    | some c =>
      unfold DtbNode.child at hnext
      split at hnext
      · cases hnext
      · rename_i child hchild
        obtain ⟨cells,-,hnext⟩ := bind_ok.mp hnext
        cases hnext
        obtain ⟨parent,hparent⟩ := ih (interruptParent inherited n.node) h
        refine ⟨parent,?_⟩
        rw [walkParents,hchild,Option.bind_some]
        exact hparent

/-- A path that leads to a node leads to it with the interrupt parents, too. -/
theorem findSerialByPath_walk {root : Node} {path : List Char} {m : DtbNode}
    (h : findSerialByPath (rootOf root) path=.ok (some m)) :
    ∃ parent, walkParents (((path.drop 1).splitOn '/').filter fun s => decide (s≠[])) none root=
      some (m.node,parent) := by
  unfold findSerialByPath at h
  split at h
  · cases h
  · split at h
    · cases h
    · split at h
      · cases h
      · exact walkParents_eq none h

/-- The console is at the end of the standard output path. -/
theorem stdoutPath_walk {root : Node} {c : DtbNode} {baud : Option ℕ}
    (h : findStdoutSerial root=.ok (some (c,baud))) :
    ∃ path parent, stdoutPath root=some path ∧
      walkParents (((path.drop 1).splitOn '/').filter fun s => decide (s≠[])) none root=
        some (c.node,parent) := by
  unfold findStdoutSerial at h
  split at h
  · cases h
  · rename_i prop hprop
    obtain ⟨stdout,hstdout,h⟩ := bind_ok.mp h
    obtain ⟨found,hfound,h⟩ := bind_ok.mp h
    obtain ⟨serial,hserial,h⟩ := bind_ok.mp h
    obtain ⟨listed,-,h⟩ := bind_ok.mp h
    have hsame : serial=c := by
      split at h
      · obtain ⟨_,-,h⟩ := bind_ok.mp h
        obtain ⟨_,-,h⟩ := bind_ok.mp h
        cases h
        rfl
      · exact absurd h fail_ne_ok
    rw [okOr_ok.mp hserial,hsame] at hfound
    rw [stdoutPath,hprop,Option.bind_some,okOr_ok.mp hstdout,Option.bind_some]
    unfold resolveStdout at hfound
    dsimp only
    split at hfound
    · rename_i hslash
      obtain ⟨parent,hwalk⟩ := findSerialByPath_walk hfound
      rw [if_pos hslash]
      exact ⟨_,parent,rfl,hwalk⟩
    · rename_i hslash
      obtain ⟨aliases,haliases,hfound⟩ := bind_ok.mp hfound
      obtain ⟨entry,hentry,hfound⟩ := bind_ok.mp hfound
      obtain ⟨path,hpath,hfound⟩ := bind_ok.mp hfound
      obtain ⟨parent,hwalk⟩ := findSerialByPath_walk hfound
      rw [if_neg hslash,okOr_ok.mp haliases,Option.bind_some,okOr_ok.mp hentry,Option.bind_some,
        okOr_ok.mp hpath]
      exact ⟨_,parent,rfl,hwalk⟩

/-- What the tables say of the lines of a tree are their pins. -/
theorem pinOnly_lines {root : Node} (h : NodesRead root)
    (hconsole : ∀ c, consoleOf root=some c →
      PinOnly (ioapicsOf root).length (consoleLine root) (irqOf c .serial).1) :
    List.Forall₂ (PinOnly (ioapicsOf root).length) (lines root)
      ((((serialOf root).toList.map fun n => (irqOf n .serial).1)++
        (virtios root).map fun c => (irqOf c .virtioMmio).1)++
          (consoleOf root).toList.map fun c => (irqOf c .serial).1) := by
  rw [lines,List.map_append]
  refine List.rel_append (List.rel_append ?_ ?_) ?_
  · rw [List.forall₂_map_left_iff,List.forall₂_map_right_iff,List.forall₂_same]
    exact fun n hn => pinOnly_line (h.port n (Option.mem_toList.mp hn)).irq
  · rw [List.forall₂_map_left_iff,List.forall₂_map_right_iff,List.forall₂_same]
    exact fun c hc => pinOnly_line (h.transports c hc).irq
  · rw [List.forall₂_map_left_iff,List.forall₂_map_right_iff,List.forall₂_same]
    exact fun c hc => hconsole c (Option.mem_toList.mp hc)

/-- Pins are the interrupts of the lines exactly when all lines belong to the first
controller. -/
theorem agrees_iff {root : Node} {ls : List (Option Line)} {gsis : List ℕ}
    (h : List.Forall₂ (PinOnly (ioapicsOf root).length) ls gsis) :
    List.Forall₂ (Agrees (madtOf root)) ls gsis ↔ ∀ x, some x∈ls → x.controller=0 := by
  have hone : ∀ (l : Option Line) (gsi : ℕ), PinOnly (ioapicsOf root).length l gsi →
      (Agrees (madtOf root) l gsi ↔ ∀ x, some x=l → x.controller=0) := by
    intro l gsi hpin
    constructor
    · rintro hagrees x rfl
      obtain ⟨-,hsame⟩ := hpin x rfl
      have hgsi := (hagrees x rfl).2
      rw [controllerPins] at hgsi
      omega
    · rintro hfirst x rfl
      obtain ⟨hk,hsame⟩ := hpin x rfl
      have hzero := hfirst x rfl
      have hgsi : gsi=controllerPins*x.controller+x.pin := by rw [hzero,hsame]; omega
      exact ⟨by rw [lineGsi_madtOf hk,hgsi],hgsi⟩
  induction h with
  | nil => exact ⟨fun _ x hx => absurd hx List.not_mem_nil,fun _ => .nil⟩
  | @cons l gsi ls gsis hpin _ ih =>
    rw [List.forall₂_cons,hone l gsi hpin]
    refine (and_congr_right' ih).trans ?_
    constructor
    · rintro ⟨hfirst,hrest⟩ x hx
      obtain hx | hx := List.mem_cons.mp hx
      · exact hfirst x hx
      · exact hrest x hx
    · exact fun hall => ⟨fun x hx => hall x (List.mem_cons.mpr (.inl hx)),
        fun x hx => hall x (List.mem_cons_of_mem _ hx)⟩

/-- The tables of a tree agree exactly when every line belongs to the first controller. -/
theorem linesAgree_iff {root : Node} {oem : OemIdentity} {l : Layouted} {kids : List DtbNode}
    {serial : Option DtbNode} {console : Option (DtbNode×Option ℕ)} {t : Bytes}
    (hest : Established root l kids serial console) (hdesc : Described root l)
    (hholds : Holds root oem l kids serial console t) (hread : NodesRead root)
    (hdsdt : readObjects (bytesIn l.offsets.dsdt t)=
      some (s5Object l.fadt.sleepValue::deviceObjects root)) :
    LinesAgree root (bytesIn l.offsets.madt t) (bytesIn l.offsets.dsdt t)
      (l.offsets.spcr.map fun s => bytesIn s t) ↔ FirstController root := by
  have hmadt := (madtExact_of_holds hest hdesc hholds).entries
  have hconsole := consoleOf_eq hest.stdoutPort
  -- the console table is there exactly when the path names a node, and has the pin of that node
  have hspcr : (l.offsets.spcr.map fun s => bytesIn s t).toList.map consoleGsi=
      (consoleOf root).toList.map fun c => (irqOf c .serial).1 := by
    have hslot := hest.spcr
    rw [hconsole]
    cases hs : l.offsets.spcr with
    | none =>
      cases console with
      | none => rfl
      | some c => rw [hs] at hslot; cases hslot
    | some s =>
      obtain ⟨c,hc,htable⟩ := Option.bind_eq_some_iff.mp (hholds.spcr s hs)
      rw [hc]
      exact congrArg (fun gsi => [gsi]) (spcr_read htable).2.1
  have hpin : ∀ c, consoleOf root=some c →
      PinOnly (ioapicsOf root).length (consoleLine root) (irqOf c .serial).1 := by
    intro c hc
    obtain ⟨baud,table,hstdout,htable⟩ := console_found hest hholds hc
    obtain ⟨path,parent,hpath,hwalk⟩ := stdoutPath_walk hstdout
    rw [consoleLine,hpath,Option.bind_some,hwalk,Option.bind_some]
    exact pinOnly_line (spcr_read htable).2.2
  have hpairs := pinOnly_lines hread hpin
  have hgsis := namespaceGsis_eq hread l.fadt.sleepValue
  constructor
  · rintro ⟨entries,objects,hentries,hobjects,hagree,-⟩
    cases hentries.symm.trans hmadt
    cases hobjects.symm.trans hdsdt
    rw [hgsis,hspcr] at hagree
    exact (agrees_iff hpairs).mp hagree
  · intro hfirst
    refine ⟨_,_,hmadt,hdsdt,?_⟩
    rw [hgsis,hspcr]
    exact ⟨(agrees_iff hpairs).mpr hfirst,distinct_of_first hpairs hfirst⟩

/-- When a buffer is filled, the interrupts of the namespace and of the console table are those
that the table of interrupt controllers gives to the lines exactly when every line belongs to the
first controller. -/
theorem populate_lines_iff {root : Node} {oem : OemIdentity} {baseGpa n : ℕ} {buf buf' : Bytes}
    (h : populate root oem baseGpa buf=.ok (n,buf')) :
    ∃ l, run root=.ok l ∧
      (LinesAgree root (bytesIn l.offsets.madt (buf'.take n)) (bytesIn l.offsets.dsdt (buf'.take n))
        (l.offsets.spcr.map fun s => bytesIn s (buf'.take n)) ↔ FirstController root) := by
  obtain ⟨l,kids,serial,console,hl,hest,hdesc,hholds⟩ := populate_holds h
  obtain ⟨hread,-,-,hdsdt⟩ := objects_of_holds hest hholds
  exact ⟨l,hl,linesAgree_iff hest hdesc hholds hread hdsdt⟩

end Lines

/-- Two controllers, a serial port on pin 4 of the controller with the given phandle, and a virtio
transport on the given pin of the first one. -/
def controllersTree (parent pin : ℕ) : Node :=
  sampleTree (sampleKids++[.mk "ioapic@fec00000" [⟨"compatible",dtString "intel,ce4100-ioapic"⟩,
      ⟨"reg",dtReg 0xfec00000 0x1000⟩,⟨"phandle",beBytes 4 1⟩] [],
    .mk "ioapic@fec01000" [⟨"compatible",dtString "intel,ce4100-ioapic"⟩,
      ⟨"reg",dtReg 0xfec01000 0x1000⟩,⟨"phandle",beBytes 4 2⟩] [],
    .mk "serial@a000" [⟨"compatible",dtString "ns16550a"⟩,⟨"reg",dtReg 0xa000 8⟩,
      ⟨"interrupts",beBytes 4 4++beBytes 4 1⟩,⟨"interrupt-parent",beBytes 4 parent⟩,
      ⟨"reg-shift",beBytes 4 0⟩,⟨"reg-io-width",beBytes 4 1⟩,
      ⟨"clock-frequency",beBytes 4 1843200⟩] [],
    .mk "virtio@b000" [⟨"compatible",dtString "virtio,mmio"⟩,⟨"reg",dtReg 0xb000 0x200⟩,
      ⟨"interrupts",beBytes 4 pin++beBytes 4 1⟩,⟨"interrupt-parent",beBytes 4 1⟩] [],
    .mk "chosen" [⟨"stdout-path",dtString "/serial@a000"⟩] []])

/-- With all lines on the first controller the tables agree. -/
theorem populate_lines_iff_sample : ∃ n buf' l,
    @populate plainLib (controllersTree 1 5) sampleOem 0x1000 (List.replicate 1000 7)=
      .ok (n,buf') ∧
    @run plainLib (controllersTree 1 5)=.ok l ∧
    @LinesAgree plainLib (controllersTree 1 5) (bytesIn (Layouted.offsets l).madt (buf'.take n))
      (bytesIn (Layouted.offsets l).dsdt (buf'.take n))
      ((Layouted.offsets l).spcr.map fun s => bytesIn s (buf'.take n)) := by
  have hsome : (@populate plainLib (controllersTree 1 5) sampleOem 0x1000
      (List.replicate 1000 7)).toOption.isSome=true := by decide +kernel
  have hlines : @lines plainLib (controllersTree 1 5)=
      [some ⟨0,4⟩,some ⟨0,5⟩,some ⟨0,4⟩] := by decide +kernel
  obtain ⟨out,hfilled⟩ := exists_ok hsome
  obtain ⟨l,hl,hiff⟩ := @populate_lines_iff plainLib _ _ _ _ _ _ hfilled
  refine ⟨out.1,out.2,l,hfilled,hl,hiff.mpr fun x hx => ?_⟩
  rw [hlines] at hx
  simp only [List.mem_cons,Option.some.injEq,List.not_mem_nil,or_false] at hx
  rcases hx with rfl | rfl | rfl <;> rfl

/-- The serial port on pin 4 of the second controller and the transport on pin 4 of the first
have the same interrupt. -/
theorem populate_second_controller : ∃ n buf' l,
    @populate plainLib (controllersTree 2 4) sampleOem 0x1000 (List.replicate 1000 7)=
      .ok (n,buf') ∧
    @run plainLib (controllersTree 2 4)=.ok l ∧
    ¬@LinesAgree plainLib (controllersTree 2 4) (bytesIn (Layouted.offsets l).madt (buf'.take n))
      (bytesIn (Layouted.offsets l).dsdt (buf'.take n))
      ((Layouted.offsets l).spcr.map fun s => bytesIn s (buf'.take n)) := by
  have hsome : (@populate plainLib (controllersTree 2 4) sampleOem 0x1000
      (List.replicate 1000 7)).toOption.isSome=true := by decide +kernel
  have hsecond : some ⟨1,4⟩∈@lines plainLib (controllersTree 2 4) := by decide +kernel
  obtain ⟨out,hfilled⟩ := exists_ok hsome
  obtain ⟨l,kids,serial,console,hl,hest,hdesc,hholds⟩ :=
    @populate_holds plainLib _ _ _ _ _ _ hfilled
  obtain ⟨hread,-,-,hdsdt⟩ := @objects_of_holds plainLib _ _ _ _ _ _ _ hest hholds
  refine ⟨out.1,out.2,l,hfilled,hl,fun hagree => ?_⟩
  have hfirst := (@linesAgree_iff plainLib _ _ _ _ _ _ _ hest hdesc hholds hread hdsdt).mp hagree
  exact Nat.one_ne_zero (hfirst _ hsecond)

end Arma.Acpi.Lines
