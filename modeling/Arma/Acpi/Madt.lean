import Mathlib.Tactic.Common
import Arma.Acpi.Filled
import Arma.Base.Tagged

/-!
# The table of interrupt controllers, read back

A reader of a filled buffer finds, for every cpu of the tree in order, its local interrupt
controller and its non-maskable interrupt, each in the short form when the ids fit, and then
the interrupt controllers of the tree, numbered from zero with 24 interrupts each.
-/

namespace Arma.Acpi.Madt

open Base.ByteString Base.Checked Base.Frames Base.Tagged Base.Writer Devtree Dtb Numbered Layout
  Sdt Tables Count Counted Collected Populate Image Filled

/-- An entry of the table. -/
inductive MadtEntry where
  /-- Type 0: UID, APIC id and flags of a cpu. -/
  | localApic (uid apicId flags : ℕ)
  /-- Type 1: id, address and first interrupt of a controller. -/
  | ioApic (id address gsiBase : ℕ)
  /-- Type 4: UID of a cpu, flags and input of its non-maskable interrupt. -/
  | localApicNmi (uid flags lint : ℕ)
  /-- Type 9: as type 0, with wide ids. -/
  | localX2Apic (uid apicId flags : ℕ)
  /-- Type 10: as type 4, with a wide UID. -/
  | localX2ApicNmi (uid flags lint : ℕ)
deriving DecidableEq, Repr

/-- What an entry says, by its kind. -/
def interpretMadt (kind : UInt8) (body : Bytes) : Option MadtEntry :=
  let field := fun o n => ofLE (slice o n body)
  if kind=0 ∧ body.length=6 then some (.localApic (field 0 1) (field 1 1) (field 2 4))
  else if kind=1 ∧ body.length=10 then some (.ioApic (field 0 1) (field 2 4) (field 6 4))
  else if kind=4 ∧ body.length=4 then some (.localApicNmi (field 0 1) (field 1 2) (field 3 1))
  else if kind=9 ∧ body.length=14 then some (.localX2Apic (field 10 4) (field 2 4) (field 6 4))
  else if kind=10 ∧ body.length=10 then some (.localX2ApicNmi (field 2 4) (field 0 2) (field 6 1))
  else none

/-- The entries behind the header of a table. -/
def madtEntries (table : Bytes) : Option (List MadtEntry) :=
  readAll (readTagged interpretMadt) (table.drop madtHeaderSize).length (table.drop madtHeaderSize)

/-- Bytes of an entry. -/
def MadtEntry.size : MadtEntry → ℕ
  | .localApic _ _ _ => 8
  | .ioApic _ _ _ => 12
  | .localApicNmi _ _ _ => 6
  | .localX2Apic _ _ _ => 16
  | .localX2ApicNmi _ _ _ => 12

/-- What the table says of a cpu. -/
def cpuMadt (e : CpuEntry) : List MadtEntry :=
  [if e.apicId≤254 ∧ e.processorId≤254 then
      .localApic e.processorId e.apicId (lapicFlags e.status)
    else .localX2Apic e.processorId e.apicId (lapicFlags e.status),
    if e.processorId≤254 then .localApicNmi e.processorId 5 1
    else .localX2ApicNmi e.processorId 5 1]

/-- The flags of a cpu are few. -/
theorem lapicFlags_lt (status : DtStatus) : lapicFlags status<2^32 := by
  cases status <;> decide

/-- The entry of a cpu says its ids and flags. -/
theorem isEntry_lapic {e : CpuEntry} (hid : e.apicId<2^32) (huid : e.processorId<2^32) :
    IsEntry interpretMadt (lapicEntry e)
      (if e.apicId≤254 ∧ e.processorId≤254 then
        .localApic e.processorId e.apicId (lapicFlags e.status)
      else .localX2Apic e.processorId e.apicId (lapicFlags e.status)) := by
  have hflags := ofLE_word (lapicFlags_lt e.status)
  unfold lapicEntry
  split
  · rename_i hshort
    obtain ⟨hapic,hproc⟩ : e.apicId≤254 ∧ e.processorId≤254 := hshort
    refine ⟨0,8,_,rfl,rfl,?_⟩
    have huid8 := ofLE_byte (v := e.processorId) (by omega)
    have hid8 := ofLE_byte (v := e.apicId) (by omega)
    rw [if_pos ⟨hapic,hproc⟩]
    exact congrArg some (congr (congr (congrArg _ huid8) hid8) hflags)
  · rename_i hlong
    refine ⟨9,16,_,rfl,rfl,?_⟩
    rw [if_neg (show ¬(e.apicId≤254 ∧ e.processorId≤254) from hlong)]
    exact congrArg some (congr (congr (congrArg _ (ofLE_word huid)) (ofLE_word hid)) hflags)

/-- The entry of its non-maskable interrupt says its UID. -/
theorem isEntry_nmi {e : CpuEntry} (huid : e.processorId<2^32) :
    IsEntry interpretMadt (nmiEntry e)
      (if e.processorId≤254 then .localApicNmi e.processorId 5 1
      else .localX2ApicNmi e.processorId 5 1) := by
  unfold nmiEntry
  split
  · rename_i hshort
    have hproc : e.processorId≤254 := hshort
    refine ⟨4,6,_,rfl,rfl,?_⟩
    rw [if_pos hproc]
    have huid8 := ofLE_byte (v := e.processorId) (by omega)
    exact congrArg (fun uid => some (MadtEntry.localApicNmi uid 5 1)) huid8
  · rename_i hlong
    refine ⟨10,12,_,rfl,rfl,?_⟩
    rw [if_neg (show ¬e.processorId≤254 from hlong)]
    exact congrArg (fun uid => some (MadtEntry.localX2ApicNmi uid 5 1)) (ofLE_word huid)

/-- The entry of a controller says its number, its base and its first interrupt. -/
theorem isEntry_ioapic {id base gsiBase : ℕ} (hid : id≤255) (hbase : base<2^32)
    (hgsi : gsiBase<2^32) :
    IsEntry interpretMadt (ioApicEntry id base gsiBase) (.ioApic id base gsiBase) := by
  refine ⟨1,12,_,rfl,rfl,?_⟩
  exact congrArg some (congr (congr (congrArg _ (ofLE_byte hid)) (ofLE_word hbase))
    (ofLE_word hgsi))

/-- The entries of cpus are a row of what they say. -/
theorem row_cpus {es : List CpuEntry}
    (h : ∀ e∈es, e.apicId<2^32 ∧ e.processorId<2^32) :
    ∃ ws, cpuEntries es=ws.flatten ∧ Row (readTagged interpretMadt) ws (es.flatMap cpuMadt) := by
  induction es with
  | nil => exact ⟨[],rfl,.nil⟩
  | cons e es ih =>
    obtain ⟨⟨hid,huid⟩,hes⟩ := List.forall_mem_cons.mp h
    obtain ⟨ws,hws,hrow⟩ := ih hes
    refine ⟨lapicEntry e::nmiEntry e::ws,?_,?_⟩
    · rw [cpuEntries,List.flatMap_cons,←cpuEntries,hws,List.append_assoc]
      rfl
    · exact .cons (isEntry_lapic hid huid).frame (.cons (isEntry_nmi huid).frame hrow)

/-- The base of a controller. -/
def ioapicBase (c : DtbNode) : ℕ := ((firstReg c .intc).map Prod.fst).getD 0

/-- What the table says of the controller of a number. -/
def ioapicMadt (c : DtbNode) (k : ℕ) : MadtEntry := .ioApic k (ioapicBase c) (24*k)

/-- The entry of the controller of a number. -/
theorem ioapicEntry_read {c : DtbNode} {k : ℕ} {w : Bytes} (h : ioapicEntry c k=some w) :
    (∃ size, firstReg c .intc=some (ioapicBase c,size)) ∧ ioapicBase c<2^32 ∧
      w=ioApicEntry k (ioapicBase c) (24*k) := by
  obtain ⟨base,hbase,hw⟩ := Option.map_eq_some_iff.mp h
  obtain ⟨first,hfirst,hnarrow⟩ := Option.bind_eq_some_iff.mp hbase
  obtain ⟨rfl,hlt⟩ := narrow_eq_some.mp hnarrow
  have hsame : ioapicBase c=first.1 := by
    rw [ioapicBase,hfirst]
    rfl
  rw [hsame]
  exact ⟨⟨first.2,hfirst⟩,hlt,hw.symm⟩

/-- The entries of controllers are a row of what they say. -/
theorem row_ioapics {nodes : List DtbNode} {out : Bytes} (h : ioapicEntries nodes=some out) :
    (∀ c∈nodes, ∃ size, firstReg c .intc=some (ioapicBase c,size)) ∧
    ∃ ws, out=ws.flatten ∧ Row (readTagged interpretMadt) ws
      (nodes.zipIdx.map fun p => ioapicMadt p.1 p.2) := by
  unfold ioapicEntries at h
  split at h
  · rename_i hfew
    obtain ⟨ws,hws,hout⟩ := catAll_eq_some.mp h
    have hpairs := forall₂_of_map_some hws
    refine ⟨fun c hc => ?_,ws,hout,?_⟩
    · obtain ⟨k,hk⟩ := List.mem_iff_getElem?.mp hc
      obtain ⟨w,-,hw⟩ := forall₂_mem hpairs (List.mk_mem_zipIdx_iff_getElem?.mpr hk)
      exact (ioapicEntry_read hw).1
    · rw [Row,List.forall₂_map_right_iff]
      refine forall₂_swap hpairs fun p hp w hw => ?_
      obtain ⟨-,hbase,hentry⟩ := ioapicEntry_read hw
      have hnumber := List.snd_lt_of_mem_zipIdx hp
      rw [hentry]
      exact (isEntry_ioapic (by omega) hbase (by omega)).frame
  · cases h

/-- What the table says of a cpu takes the bytes that were counted for it. -/
theorem size_cpuMadt (e : CpuEntry) : ((cpuMadt e).map MadtEntry.size).sum=vcpuBytes e := by
  have hlapic : MadtEntry.size (if e.apicId≤254 ∧ e.processorId≤254 then
      .localApic e.processorId e.apicId (lapicFlags e.status)
      else .localX2Apic e.processorId e.apicId (lapicFlags e.status))=
        lapicEntrySizeForApic e.apicId e.processorId := by
    unfold lapicEntrySizeForApic
    by_cases hshort : e.apicId≤254 ∧ e.processorId≤254
    · rw [if_pos hshort,if_pos (show e.apicId≤xapicIdMax ∧ e.processorId≤xapicIdMax from hshort)]
      rfl
    · rw [if_neg hshort,if_neg (show ¬(e.apicId≤xapicIdMax ∧ e.processorId≤xapicIdMax) from hshort)]
      rfl
  have hnmi : MadtEntry.size (if e.processorId≤254 then .localApicNmi e.processorId 5 1
      else .localX2ApicNmi e.processorId 5 1)=nmiEntrySizeForUid e.processorId := by
    unfold nmiEntrySizeForUid
    by_cases hshort : e.processorId≤254
    · rw [if_pos hshort,if_pos (show e.processorId≤xapicIdMax from hshort)]
      rfl
    · rw [if_neg hshort,if_neg (show ¬e.processorId≤xapicIdMax from hshort)]
      rfl
  rw [cpuMadt,List.map_cons,List.map_cons,List.map_nil,List.sum_cons,List.sum_cons,List.sum_nil,
    hlapic,hnmi,Nat.add_zero,vcpuBytes]

/-- What the table says of the cpus takes the bytes that were counted for them. -/
theorem size_cpusMadt (es : List CpuEntry) :
    ((es.flatMap cpuMadt).map MadtEntry.size).sum=(es.map vcpuBytes).sum := by
  induction es with
  | nil => rfl
  | cons e es ih =>
    rw [List.flatMap_cons,List.map_append,List.sum_append,size_cpuMadt,ih,List.map_cons,
      List.sum_cons]

/-- What the table says of controllers takes twelve bytes for each of them. -/
theorem size_ioapicsMadt (nodes : List DtbNode) :
    ((nodes.zipIdx.map fun p => ioapicMadt p.1 p.2).map MadtEntry.size).sum=
      nodes.length*ioApicEntrySize := by
  have hall : (nodes.zipIdx.map fun p => ioapicMadt p.1 p.2).map MadtEntry.size=
      nodes.zipIdx.map fun _ => ioApicEntrySize := by
    rw [List.map_map]
    rfl
  rw [hall,List.map_const',List.sum_replicate,List.length_zipIdx]
  rfl

section Exact

variable [DevtreeLib]

/-- The interrupt controllers of a tree. -/
def ioapicsOf (root : Node) : List DtbNode :=
  selected ioapicCompatible ((value (rootOf root).children).getD [])

/-- What the table says of a tree: the cpus in order, then the controllers. -/
def madtOf (root : Node) : List MadtEntry :=
  ((cpusOf root).zipIdx.flatMap fun p => cpuMadt (cpuEntry p.1 p.2))++
    (ioapicsOf root).zipIdx.map fun p => ioapicMadt p.1 p.2

/-- The table of interrupt controllers of an image is that of the tree. -/
structure MadtExact (root : Node) (s : Slot) (t : Bytes) : Prop where
  /-- Every cpu has an id and a status. -/
  cpus : ∀ c∈cpusOf root, CpuRead c
  /-- Every controller has a base. -/
  ioapics : ∀ c∈ioapicsOf root, ∃ size, firstReg c .intc=some (ioapicBase c,size)
  /-- Behind its header the table says this and nothing else. -/
  entries : madtEntries (bytesIn s t)=some (madtOf root)
  /-- The table fills the slot that was counted for it. -/
  filled : (bytesIn s t).length=s.len
  /-- The slot has room for the header and these entries, and no more. -/
  counted : s.len=madtHeaderSize+((madtOf root).map MadtEntry.size).sum

/-- The table of interrupt controllers that was written is that of the tree. -/
theorem madtExact_of_holds {root : Node} {oem : OemIdentity} {l : Layouted} {kids : List DtbNode}
    {serial : Option DtbNode} {console : Option (DtbNode×Option ℕ)} {t : Bytes}
    (hest : Established root l kids serial console) (hdesc : Described root l)
    (hholds : Holds root oem l kids serial console t) : MadtExact root l.offsets.madt t := by
  have hioapics : ioapicsOf root=selected ioapicCompatible kids := by
    rw [ioapicsOf,hest.children]
    rfl
  have hsize := (isSdt_madt hest hholds.madt).2
  have hbody := drop_table (n := madtHeaderSize) (fun len => by
    rw [madtHeader,List.length_append,SdtHeader.length_asBytes]
    rfl) (by decide) hholds.madt
  obtain ⟨a,ha,b,hb,hout⟩ := cat_eq_some.mp hbody
  cases ha
  rw [←hioapics] at hb
  obtain ⟨hbases,ws,rfl,hrow⟩ := row_ioapics hb
  -- the ids are words since they were read as words, and the UIDs since there are few cpus
  have hwords : ∀ e∈entries l.cache, e.apicId<2^32 ∧ e.processorId<2^32 := by
    intro e he
    have huid := processorId_lt he
    rw [hdesc.cached] at he
    obtain ⟨p,hp,rfl⟩ := List.mem_map.mp he
    obtain ⟨apicId,size,hreg,hlt⟩ := (hdesc.read p.1 (List.fst_mem_of_mem_zipIdx hp)).reg
    refine ⟨?_,by omega⟩
    rw [cpuEntry,hreg]
    exact hlt
  obtain ⟨vs,hvs,hcpus⟩ := row_cpus hwords
  have hrows := List.rel_append hcpus hrow
  refine ⟨hdesc.read,hbases,?_,hsize,?_⟩
  · rw [madtEntries,hout,hvs,←List.flatten_append,Row.readAll hrows,hdesc.cached,List.flatMap_map]
    rfl
  · rw [madtOf,List.map_append,List.sum_append,size_ioapicsMadt,hioapics,hest.madt,
      ←size_cpusMadt,hdesc.cached,List.flatMap_map]

/-- In a buffer that is filled the table of interrupt controllers is that of the tree. -/
theorem populate_madt_exact {root : Node} {oem : OemIdentity} {baseGpa n : ℕ} {buf buf' : Bytes}
    (h : populate root oem baseGpa buf=.ok (n,buf')) :
    ∃ l, run root=.ok l ∧ MadtExact root l.offsets.madt (buf'.take n) := by
  obtain ⟨l,kids,serial,console,hl,hest,hdesc,hholds⟩ := populate_holds h
  exact ⟨l,hl,madtExact_of_holds hest hdesc hholds⟩

end Exact

/-- A tree with a cpu of a short id, one of a long id that is disabled, and two interrupt
controllers. -/
def controllerTree : Node :=
  sampleTree [.mk "cpus" [⟨"#address-cells",beBytes 4 1⟩,⟨"#size-cells",beBytes 4 0⟩]
      [.mk "cpu@0" [⟨"reg",beBytes 4 0⟩] [],
        .mk "cpu@12c" [⟨"reg",beBytes 4 300⟩,⟨"status",dtString "disabled"⟩] []],
    .mk "lapic@fee00000" [⟨"compatible",dtString "intel,ce4100-lapic"⟩,
      ⟨"reg",dtReg 0xfee00000 0x1000⟩] [],
    .mk "ioapic@fec00000" [⟨"compatible",dtString "intel,ce4100-ioapic"⟩,
      ⟨"reg",dtReg 0xfec00000 0x1000⟩] [],
    .mk "ioapic@fec01000" [⟨"compatible",dtString "intel,ce4100-ioapic"⟩,
      ⟨"reg",dtReg 0xfec01000 0x1000⟩] [],
    .mk "poweroff@9000" [⟨"compatible",dtString "syscon-poweroff"⟩,⟨"reg",dtReg 0x9000 0x1000⟩] []]

/-- The table of that tree is read back. -/
theorem populate_madt_exact_sample : ∃ n buf' l,
    @populate plainLib controllerTree sampleOem 0x1000 (List.replicate 700 7)=.ok (n,buf') ∧
    @run plainLib controllerTree=.ok l ∧
    @MadtExact plainLib controllerTree l.offsets.madt (buf'.take n) ∧
    @madtOf plainLib controllerTree=[.localApic 0 0 1,.localApicNmi 0 5 1,.localX2Apic 1 300 2,
      .localApicNmi 1 5 1,.ioApic 0 0xfec00000 0,.ioApic 1 0xfec01000 24] := by
  have hsome : (@populate plainLib controllerTree sampleOem 0x1000
      (List.replicate 700 7)).toOption.isSome=true := by decide +kernel
  obtain ⟨out,hfilled⟩ := exists_ok hsome
  obtain ⟨l,hl,hexact⟩ := @populate_madt_exact plainLib _ _ _ _ _ _ hfilled
  exact ⟨out.1,out.2,l,hfilled,hl,hexact,by decide +kernel⟩

end Arma.Acpi.Madt
