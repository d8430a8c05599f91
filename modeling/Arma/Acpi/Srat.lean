import Mathlib.Tactic.Common
import Arma.Acpi.Filled
import Arma.Base.Tagged

/-!
# The table of affinities, read back

There is such a table exactly when a node names a domain, and then every cpu and every memory
node names one. A reader of the table finds the domain of every cpu, and then those of the
regions of every memory node, in the order of the tree.
-/

namespace Arma.Acpi.Srat

open Base.ByteString Base.Checked Base.Frames Base.Tagged Base.Writer Devtree Dtb Numbered Layout
  Sdt Tables Numa Count Counted Collected Capacity Populate Image Filled

/-- An entry of the table. -/
inductive SratEntry where
  /-- Type 0: a cpu with a short APIC id. -/
  | localApic (apicId domain flags : ℕ)
  /-- Type 1: a region of memory. -/
  | memory (domain base length flags : ℕ)
  /-- Type 2: a cpu with a wide APIC id. -/
  | localX2Apic (apicId domain flags : ℕ)
deriving DecidableEq, Repr

/-- What an entry says, by its kind. -/
def interpretSrat (kind : UInt8) (body : Bytes) : Option SratEntry :=
  let field := fun o n => ofLE (slice o n body)
  if kind=0 ∧ body.length=14 then
    some (.localApic (field 1 1) (field 0 1+256*field 7 3) (field 2 4))
  else if kind=1 ∧ body.length=38 then
    some (.memory (field 0 4) (field 6 4+2^32*field 10 4) (field 14 4+2^32*field 18 4) (field 26 4))
  else if kind=2 ∧ body.length=22 then some (.localX2Apic (field 6 4) (field 2 4) (field 10 4))
  else none

/-- The entries behind the header of a table. -/
def sratEntries (table : Bytes) : Option (List SratEntry) :=
  readAll (readTagged interpretSrat) (table.drop sratHeaderSize).length (table.drop sratHeaderSize)

/-- What the table says of a cpu in a domain. -/
def cpuSrat (e : CpuEntry) (domain : ℕ) : SratEntry :=
  if e.apicId≤254 then .localApic e.apicId domain (cpuAffinityFlags e.status)
  else .localX2Apic e.apicId domain (cpuAffinityFlags e.status)

/-- A domain is split into its low byte and the rest. -/
theorem domain_split {pd : ℕ} (h : pd<2^32) :
    ofLE [UInt8.ofNat pd]+256*ofLE (leBytes 3 (pd/256))=pd := by
  rw [show [UInt8.ofNat pd]=leBytes 1 pd from rfl,ofLE_leBytes,ofLE_leBytes]
  omega

/-- The flags of a cpu are few. -/
theorem cpuAffinityFlags_lt (status : DtStatus) : cpuAffinityFlags status<2^32 := by
  cases status <;> decide

/-- The flags of a region are few. -/
theorem memoryAffinityFlags_lt (status : DtStatus) (hot : Bool) :
    memoryAffinityFlags status hot<2^32 := by
  cases status <;> cases hot <;> decide

/-- The entry of a cpu says its id, its domain and its flags. -/
theorem isEntry_cpu {e : CpuEntry} {pd : ℕ} (hid : e.apicId<2^32) (hpd : pd<2^32) :
    IsEntry interpretSrat (cpuAffinity e pd) (cpuSrat e pd) := by
  have hflags := ofLE_word (cpuAffinityFlags_lt e.status)
  unfold cpuAffinity cpuSrat
  split
  · rename_i hshort
    have hapic : e.apicId≤254 := hshort
    have hid8 := ofLE_byte (v := e.apicId) (by omega)
    refine ⟨0,16,_,rfl,rfl,?_⟩
    rw [if_pos hapic]
    exact congrArg some (congr (congr (congrArg _ hid8) (domain_split hpd)) hflags)
  · rename_i hlong
    refine ⟨2,24,_,rfl,rfl,?_⟩
    rw [if_neg (show ¬e.apicId≤254 from hlong)]
    exact congrArg some (congr (congr (congrArg _ (ofLE_word hid)) (ofLE_word hpd)) hflags)

/-- The entry of a region says its domain, its base, its length and its flags. -/
theorem isEntry_memory {pd base length flags : ℕ} (hpd : pd<2^32) (hbase : base<2^64)
    (hlength : length<2^64) (hflags : flags<2^32) :
    IsEntry interpretSrat (memoryAffinity pd base length flags)
      (.memory pd base length flags) := by
  refine ⟨1,40,_,rfl,rfl,?_⟩
  exact congrArg some (congr (congr (congr (congrArg _ (ofLE_word hpd)) (ofLE_halves base hbase))
    (ofLE_halves length hlength)) (ofLE_word hflags))

/-- The entries of cpus are a row of what they say. -/
theorem row_cpuAffinities {es : List CpuEntry} {out : Bytes} (h : cpuAffinities es=some out)
    (hwords : ∀ e∈es, e.apicId<2^32 ∧ ∀ pd, e.numa=some pd → pd<2^32) :
    ∃ ws, out=ws.flatten ∧
      Row (readTagged interpretSrat) ws (es.map fun e => cpuSrat e (e.numa.getD 0)) := by
  obtain ⟨ws,hws,hout⟩ := catAll_eq_some.mp h
  refine ⟨ws,hout,?_⟩
  rw [Row,List.forall₂_map_right_iff]
  refine forall₂_swap (forall₂_of_map_some hws) fun e he w hw => ?_
  obtain ⟨pd,hpd,rfl⟩ := Option.map_eq_some_iff.mp hw
  obtain ⟨hid,hdomain⟩ := hwords e he
  rw [hpd,Option.getD_some]
  exact (isEntry_cpu hid (hdomain pd hpd)).frame

section Exact

variable [DevtreeLib]

/-- What the table says of a cpu. -/
def nodeSrat (c : DtbNode) : SratEntry := cpuSrat (cpuEntry c 0) ((domainOf c).getD 0)

/-- What the table says of the regions of a memory node. -/
def memorySrat (c : DtbNode) : List SratEntry :=
  ((value (c.reg .memory)).getD []).map fun r =>
    .memory ((memoryDomain c).getD 0) r.1 r.2
      (memoryAffinityFlags ((value (c.decodeStatus .memory)).getD .okay)
        c.decodeMemoryHotpluggable)

/-- The domain of a node is a word. -/
theorem propertyU32Opt_lt {c : DtbNode} {name : String} {v : ℕ}
    (h : (value (c.propertyU32Opt name)).bind id=some v) : v<2^32 := by
  obtain ⟨tag,htag,hv⟩ := Option.bind_eq_some_iff.mp h
  cases hv
  have hread := value_eq_some.mp htag
  unfold DtbNode.propertyU32Opt at hread
  split at hread
  · cases hread
  · obtain ⟨word,-,hsome⟩ := bind_ok.mp hread
    cases hsome
    exact word.toNat_lt

/-- The domain of a cpu is a word. -/
theorem domainOf_lt {c : DtbNode} {v : ℕ} (h : domainOf c=some v) : v<2^32 := by
  obtain ⟨tag,htag,hv⟩ := Option.bind_eq_some_iff.mp h
  cases hv
  have hread := value_eq_some.mp htag
  unfold DtbNode.cpuNumaTag at hread
  split at hread
  · cases hread
  · obtain ⟨word,-,hword⟩ := bind_ok.mp hread
    split at hword
    · exact absurd hword fail_ne_ok
    · cases hword
      exact word.toNat_lt

/-- The entries of the regions of a memory node are a row of what they say. -/
theorem row_memoryPart {c : DtbNode} {out : Bytes} (h : memoryPart c=some out) :
    ∃ ws, out=ws.flatten ∧ Row (readTagged interpretSrat) ws (memorySrat c) := by
  simp only [memoryPart,Option.bind_eq_bind,Option.bind_eq_some_iff] at h
  obtain ⟨tag,htag,pd,rfl,status,hstatus,regs,hregs,h⟩ := h
  cases h
  have hdomain : memoryDomain c=some pd := by
    rw [memoryDomain,htag]
    rfl
  have hpd := propertyU32Opt_lt hdomain
  have hwords := reg_lt (value_eq_some.mp hregs)
  refine ⟨_,rfl,?_⟩
  rw [memorySrat,hregs,hstatus,hdomain,Row,Option.getD_some,Option.getD_some,Option.getD_some,
    List.forall₂_map_right_iff,List.forall₂_map_left_iff,List.forall₂_same]
  intro r hr
  obtain ⟨hbase,hlength⟩ := hwords r hr
  exact (isEntry_memory hpd hbase hlength (memoryAffinityFlags_lt _ _)).frame

/-- The entries of memory nodes are a row of what they say. -/
theorem row_memories {nodes : List DtbNode} {out : Bytes}
    (h : catAll (nodes.map memoryPart)=some out) :
    ∃ ws, out=ws.flatten ∧ Row (readTagged interpretSrat) ws (nodes.flatMap memorySrat) := by
  induction nodes generalizing out with
  | nil =>
    cases h
    exact ⟨[],rfl,.nil⟩
  | cons c nodes ih =>
    obtain ⟨first,hfirst,rest,hrest,rfl⟩ := cat_eq_some.mp h
    obtain ⟨vs,rfl,hvs⟩ := row_memoryPart hfirst
    obtain ⟨ws,rfl,hws⟩ := ih hrest
    refine ⟨vs++ws,List.flatten_append.symm,?_⟩
    rw [List.flatMap_cons]
    exact List.rel_append hvs hws

/-- What the table says of a tree: the cpus in order, then the regions of memory. -/
def sratOf (root : Node) : List SratEntry :=
  (cpusOf root).map nodeSrat++(memoriesOf root).flatMap memorySrat

/-- Some cpu or memory node names a domain. -/
def NamesDomain (root : Node) : Prop := ∃ c∈cpusOf root++memoriesOf root, carriesDomain c=true

/-- Every cpu and every memory node names a domain. -/
def AllNameDomains (root : Node) : Prop := ∀ c∈cpusOf root++memoriesOf root, carriesDomain c=true

/-- The table of affinities of an image is that of the tree. -/
structure SratExact (root : Node) (o : Option Slot) (t : Bytes) : Prop where
  /-- There is a table exactly when a node names a domain. -/
  present : o.isSome=true ↔ NamesDomain root
  /-- Then all nodes do. -/
  complete : o.isSome=true → AllNameDomains root
  /-- Every cpu is read, and its domain when it names one. -/
  cpus : ∀ c∈cpusOf root, CpuRead c ∧ (domainOf c).isSome=carriesDomain c
  /-- So is every memory node. -/
  memories : ∀ c∈memoriesOf root, MemoryCounted c ∧ (memoryDomain c).isSome=carriesDomain c
  /-- The table has its signature, and its length is that of its slot. -/
  table : ∀ s, o=some s → TableAt (ascii "SRAT") s t
  /-- Behind its header the table says this and nothing else. -/
  entries : ∀ s, o=some s → sratEntries (bytesIn s t)=some (sratOf root)

/-- A table of affinities is read back. -/
theorem srat_entries {root : Node} {l : Layouted} (hdesc : Described root l)
    {oem : OemIdentity} {kids : List DtbNode} {len : ℕ} {table : Bytes}
    (hkids : memoriesOf root=Numa.memories kids) (h : srat oem l.cache kids len=some table) :
    sratEntries table=some (sratOf root) := by
  have hbody := drop_table (n := sratHeaderSize) (fun len => by
    rw [sratHeader,List.length_append,SdtHeader.length_asBytes]
    rfl) (by decide) h
  obtain ⟨a,ha,b,hb,hout⟩ := cat_eq_some.mp hbody
  have hwords : ∀ e∈entries l.cache, e.apicId<2^32 ∧ ∀ pd, e.numa=some pd → pd<2^32 := by
    intro e he
    rw [hdesc.cached] at he
    obtain ⟨p,hp,rfl⟩ := List.mem_map.mp he
    obtain ⟨apicId,size,hreg,hlt⟩ := (hdesc.read p.1 (List.fst_mem_of_mem_zipIdx hp)).reg
    refine ⟨?_,fun pd hpd => domainOf_lt hpd⟩
    rw [cpuEntry,hreg]
    exact hlt
  obtain ⟨vs,rfl,hcpus⟩ := row_cpuAffinities ha hwords
  rw [←hkids] at hb
  obtain ⟨ws,rfl,hmemory⟩ := row_memories hb
  have hnodes : (entries l.cache).map (fun e => cpuSrat e (e.numa.getD 0))=
      (cpusOf root).map nodeSrat := by
    have hfirst := congrArg (List.map nodeSrat) (List.zipIdx_map_fst 0 (cpusOf root))
    rw [List.map_map] at hfirst
    rw [hdesc.cached,List.map_map]
    exact hfirst
  rw [hnodes] at hcpus
  rw [sratEntries,hout,←List.flatten_append]
  exact Row.readAll (List.rel_append hcpus hmemory)

/-- Counting rejects a tree in which only some nodes name a domain. -/
theorem run_mixed {root : Node} (hsome : NamesDomain root) (hall : ¬AllNameDomains root)
    (l : Layouted) : run root≠.ok l := by
  intro h
  have hdesc := run_described h
  obtain ⟨c,hc,hcarries⟩ := hsome
  have hpresent := hdesc.srat.mpr ((List.mem_append.mp hc).imp (fun h => ⟨c,h,hcarries⟩)
    fun h => ⟨c,h,hcarries⟩)
  obtain ⟨hcpus,hmemories⟩ := hdesc.complete hpresent
  exact hall fun d hd => (List.mem_append.mp hd).elim (hcpus d) (hmemories d)

/-- In a buffer that is filled the table of affinities is that of the tree, and it is there
exactly when all nodes name their domains; a tree in which only some do is not counted. -/
theorem populate_srat_exact (root : Node) :
    (∀ (oem : OemIdentity) (baseGpa n : ℕ) (buf buf' : Bytes),
      populate root oem baseGpa buf=.ok (n,buf') →
        ∃ l, run root=.ok l ∧ SratExact root l.offsets.srat (buf'.take n)) ∧
    (NamesDomain root → ¬AllNameDomains root → ∃ f, run root=.error f) := by
  refine ⟨fun oem baseGpa n buf buf' h => ?_,fun hsome hall => ?_⟩
  · obtain ⟨l,kids,serial,console,hl,hest,hdesc,hholds⟩ := populate_holds h
    have hkids : memoriesOf root=Numa.memories kids := by
      rw [memoriesOf,hest.children]
      rfl
    refine ⟨l,hl,⟨?_,?_,?_,?_,?_,?_⟩⟩
    · rw [hdesc.srat,NamesDomain]
      simp only [List.mem_append,or_and_right,exists_or]
    · intro hpresent c hc
      obtain ⟨hcpus,hmemories⟩ := hdesc.complete hpresent
      exact (List.mem_append.mp hc).elim (hcpus c) (hmemories c)
    · exact fun c hc => ⟨hdesc.read c hc,(hdesc.read c hc).carries⟩
    · exact fun c hc => ⟨hdesc.memories c hc,isTagged_carries (hdesc.memories c hc)⟩
    · exact fun s hs => tableAt_of rfl (isSdt_srat hest hs (hholds.srat s hs))
    · exact fun s hs => srat_entries hdesc hkids (hholds.srat s hs)
  · cases hrun : run root with
    | error f => exact ⟨f,rfl⟩
    | ok l => exact absurd hrun (run_mixed hsome hall l)

end Exact

/-- A cpu that names a domain, or none. -/
def sampleCpu (name : String) (id : ℕ) (domain : List ℕ) : Node :=
  .mk name (⟨"reg",beBytes 4 id⟩::domain.map fun pd => ⟨"numa-node-id",beBytes 4 pd⟩) []

/-- A tree with two cpus and a memory node of two regions. -/
def affinityTree (second : List ℕ) : Node :=
  sampleTree [.mk "cpus" [⟨"#address-cells",beBytes 4 1⟩,⟨"#size-cells",beBytes 4 0⟩]
      [sampleCpu "cpu@0" 0 [7],sampleCpu "cpu@12c" 300 second],
    .mk "memory@0" [⟨"device_type",dtString "memory"⟩,
      ⟨"reg",dtReg 0 0xa0000++dtReg 0x100000000 0x80000000⟩,⟨"numa-node-id",beBytes 4 7⟩] [],
    .mk "lapic@fee00000" [⟨"compatible",dtString "intel,ce4100-lapic"⟩,
      ⟨"reg",dtReg 0xfee00000 0x1000⟩] [],
    .mk "poweroff@9000" [⟨"compatible",dtString "syscon-poweroff"⟩,⟨"reg",dtReg 0x9000 0x1000⟩] []]

/-- The table of that tree is read back when both cpus name a domain; when the second does
not, the tree is not counted. -/
theorem populate_srat_exact_sample :
    (∃ n buf' l, @populate plainLib (affinityTree [70000]) sampleOem 0x1000
        (List.replicate 800 7)=.ok (n,buf') ∧
      @SratExact plainLib (affinityTree [70000]) (Layouted.offsets l).srat (buf'.take n)) ∧
    @sratOf plainLib (affinityTree [70000])=[.localApic 0 7 1,.localX2Apic 300 70000 1,
      .memory 7 0 0xa0000 1,.memory 7 0x100000000 0x80000000 1] ∧
    ∃ f, @run plainLib (affinityTree [])=.error f := by
  have hsome : (@populate plainLib (affinityTree [70000]) sampleOem 0x1000
      (List.replicate 800 7)).toOption.isSome=true := by decide +kernel
  have hnames : @NamesDomain plainLib (affinityTree []) := by
    unfold NamesDomain
    decide +kernel
  have hnot : ¬@AllNameDomains plainLib (affinityTree []) := by
    unfold AllNameDomains
    decide +kernel
  obtain ⟨out,hfilled⟩ := exists_ok hsome
  obtain ⟨l,-,hexact⟩ := (@populate_srat_exact plainLib _).1 _ _ _ _ _ hfilled
  exact ⟨⟨out.1,out.2,l,hfilled,hexact⟩,by decide +kernel,
    (@populate_srat_exact plainLib _).2 hnames hnot⟩

end Arma.Acpi.Srat
