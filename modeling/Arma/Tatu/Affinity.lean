import Mathlib.Data.List.Forall2
import Arma.Acpi.Counted
import Arma.Acpi.Image
import Arma.Tatu.DeviceSpace

/-!
# Usable memory and memory affinity

Both the memory map and the affinity table have an entry for every region of a
`memory` node. The affinity table says which of them are enabled, by the node's
`status`; the memory map makes all of them usable. The table is read back entry
by entry, as the operating system reads it.
-/

namespace Arma.Tatu.Affinity

open Acpi.Aml Acpi.Count Acpi.Counted Acpi.Dtb Acpi.Image Acpi.Jobs Acpi.Layout Acpi.Numa Acpi.Populate Acpi.Sdt
  Base.ByteString Base.Checked Base.Writer Devtree DeviceSpace E820 MemoryMap Validate

/-- A memory entry of the affinity table. -/
structure MemoryEntry where
  /-- Base of the region. -/
  base : ℕ
  /-- Length of the region. -/
  length : ℕ
  /-- The region is enabled. -/
  enabled : Bool
deriving DecidableEq, Repr

/-- Read a memory entry; its addresses are split into halves. -/
def readMemory (bs : Bytes) : MemoryEntry :=
  ⟨ofLE (slice 8 4 bs)+2^32*ofLE (slice 12 4 bs),ofLE (slice 16 4 bs)+2^32*ofLE (slice 20 4 bs),
    decide (ofLE (slice 28 4 bs)%2=1)⟩

/-- Read entries that start with their type and their length, up to an entry
that claims to be empty, and keep those of memory. -/
def readEntries : ℕ → Bytes → List MemoryEntry
  | fuel+1,kind::len::rest =>
    if len=0 then []
    else
      let tail := readEntries fuel ((kind::len::rest).drop len.toNat)
      if kind=1 then readMemory ((kind::len::rest).take len.toNat)::tail else tail
  | _,_ => []

/-- The memory entries behind the header of an affinity table. -/
def memoryEntries (table : Bytes) : List MemoryEntry :=
  readEntries table.length (table.drop sratHeaderSize)

/-- The entries are these whatever the fuel, as long as it is enough. -/
def Reads (bs : Bytes) (es : List MemoryEntry) : Prop :=
  ∀ fuel, bs.length≤fuel → readEntries fuel bs=es

/-- There are no entries in nothing. -/
theorem reads_nil : Reads [] [] := by
  intro fuel _
  cases fuel <;> rfl

/-- An entry in front is read first. -/
theorem reads_cons {k n : UInt8} {b rest : Bytes} {es : List MemoryEntry}
    (hlen : n.toNat=b.length+2) (h : Reads rest es) :
    Reads ((k::n::b)++rest)
      (if k=1 then readMemory (k::n::b)::es else es) := by
  intro fuel hfuel
  rw [List.length_append] at hfuel
  simp only [List.length_cons] at hfuel
  have hwhole : (k::n::b).length=n.toNat := by
    simp only [List.length_cons]
    omega
  have hdrop : (k::n::(b++rest)).drop n.toNat=rest := List.drop_left' hwhole
  have htake : (k::n::(b++rest)).take n.toNat=k::n::b := List.take_left' hwhole
  have hpos : n≠0 := by
    rintro rfl
    exact absurd hlen (by rw [UInt8.toNat_zero]; omega)
  obtain ⟨fuel,rfl⟩ : ∃ k, fuel=k+1 := ⟨fuel-1,by omega⟩
  have htail : readEntries fuel rest=es := h fuel (by omega)
  change readEntries (fuel+1) (k::n::(b++rest))=_
  rw [readEntries,if_neg hpos,hdrop,htake,htail]

/-- An entry of a cpu is skipped. -/
theorem reads_cpu (e : CpuEntry) (pd : ℕ) {rest : Bytes} {es : List MemoryEntry}
    (h : Reads rest es) : Reads (cpuAffinity e pd++rest) es := by
  unfold cpuAffinity
  split
  · exact reads_cons (k := 0) (n := 16) rfl h
  · exact reads_cons (k := 2) (n := 24) rfl h

/-- The entries of all cpus are skipped. -/
theorem reads_cpus {cpus : List CpuEntry} {out rest : Bytes} {es : List MemoryEntry}
    (hout : cpuAffinities cpus=some out) (h : Reads rest es) : Reads (out++rest) es := by
  induction cpus generalizing out with
  | nil =>
    cases hout
    exact h
  | cons e cpus ih =>
    rw [cpuAffinities,List.map_cons,catAll,cat_eq_some] at hout
    obtain ⟨first,hfirst,others,hothers,rfl⟩ := hout
    obtain ⟨pd,_,rfl⟩ := Option.map_eq_some_iff.mp hfirst
    rw [List.append_assoc]
    exact reads_cpu e pd (ih hothers)

/-- The entry of a memory region reads back. -/
theorem readMemory_affinity (pd flags : ℕ) {base length : ℕ} (hbase : base<2^64)
    (hlength : length<2^64) (hflags : flags<2^32) :
    readMemory (memoryAffinity pd base length flags)=⟨base,length,decide (flags%2=1)⟩ := by
  have hflag : ofLE (leBytes 4 flags)=flags := by
    rw [ofLE_leBytes]
    exact Nat.mod_eq_of_lt (by norm_num at hflags ⊢; exact hflags)
  have hb := ofLE_halves base hbase
  have hl := ofLE_halves length hlength
  have h8 : slice 8 4 (memoryAffinity pd base length flags)=leBytes 4 (base%2^32) := rfl
  have h12 : slice 12 4 (memoryAffinity pd base length flags)=leBytes 4 (base/2^32%2^32) := rfl
  have h16 : slice 16 4 (memoryAffinity pd base length flags)=leBytes 4 (length%2^32) := rfl
  have h20 : slice 20 4 (memoryAffinity pd base length flags)=leBytes 4 (length/2^32%2^32) := rfl
  have h28 : slice 28 4 (memoryAffinity pd base length flags)=leBytes 4 flags := rfl
  rw [readMemory,h8,h12,h16,h20,h28,hb,hl,hflag]

/-- The entries of the regions of one node are read in order. -/
theorem reads_regions (pd flags : ℕ) (hflags : flags<2^32) {pairs : List (ℕ×ℕ)}
    (hpairs : ∀ p∈pairs, p.1<2^64 ∧ p.2<2^64) {rest : Bytes} {es : List MemoryEntry}
    (h : Reads rest es) : Reads ((pairs.flatMap fun p => memoryAffinity pd p.1 p.2 flags)++rest)
      ((pairs.map fun p => ⟨p.1,p.2,decide (flags%2=1)⟩)++es) := by
  induction pairs with
  | nil => exact h
  | cons p pairs ih =>
    obtain ⟨hp,hpairs⟩ := List.forall_mem_cons.mp hpairs
    have hread := readMemory_affinity pd flags hp.1 hp.2 hflags
    have hcons := reads_cons (k := 1) (n := 40) (b := (memoryAffinity pd p.1 p.2 flags).drop 2)
      rfl (ih hpairs)
    rw [List.flatMap_cons,List.append_assoc,List.map_cons,List.cons_append,←hread]
    exact hcons

/-- The flags of a region are enabled exactly when its node is okay. -/
theorem memoryAffinityFlags_enabled (status : DtStatus) (hot : Bool) :
    decide (memoryAffinityFlags status hot%2=1)=decide (status=.okay) ∧
      memoryAffinityFlags status hot<2^32 := by
  cases status <;> cases hot <;> decide

/-- A cell and what follows it. -/
theorem cell_cons {raw : Bytes} (h : 4 ≤ raw.length) :
    ∃ a b c d rest, raw=a::b::c::d::rest ∧ rest.length=raw.length-4 := by
  match raw with
  | a::b::c::d::rest => exact ⟨a,b,c,d,rest,rfl,rfl⟩
  | [] => exact absurd h (by decide)
  | [_] => exact absurd h (by simp)
  | [_,_] => exact absurd h (by simp)
  | [_,_,_] => exact absurd h (by simp)

/-- The four cells of a pair of two address and two size cells, and how fewer
cells are read from them. -/
theorem regPair_cells {raw : Bytes} (h : 16 ≤ raw.length) :
    ∃ w x y z, parseOneRegion (raw.take 16)=⟨2^32*w+x,2^32*y+z⟩ ∧
      regPair 1 (raw.take 4)=(w,0) ∧ regPair 1 (raw.take 8)=(w,x) ∧
      regPair 1 (raw.take 12)=(w,2^32*x+y) ∧ regPair 2 (raw.take 8)=(2^32*w+x,0) ∧
      regPair 2 (raw.take 12)=(2^32*w+x,y) := by
  obtain ⟨a,b,c,d,rest,rfl,hrest⟩ := @cell_cons raw (by omega)
  obtain ⟨e,f,g,i,rest,rfl,hrest⟩ := @cell_cons rest (by omega)
  obtain ⟨j,k,l,m,rest,rfl,hrest⟩ := @cell_cons rest (by omega)
  obtain ⟨n,o,p,q,rest,rfl,hrest⟩ := @cell_cons rest (by omega)
  have htwo : ∀ u v : Bytes, v.length=4 → ofBE (u++v)=2^32*ofBE u+ofBE v := by
    intro u v hv
    rw [ofBE_append,hv]
    norm_num
  have hax := htwo [a,b,c,d] [e,f,g,i] rfl
  have hxy := htwo [e,f,g,i] [j,k,l,m] rfl
  have hyz := htwo [j,k,l,m] [n,o,p,q] rfl
  refine ⟨ofBE [a,b,c,d],ofBE [e,f,g,i],ofBE [j,k,l,m],ofBE [n,o,p,q],?_,rfl,rfl,?_,?_,?_⟩
  · rw [←hax,←hyz]
    rfl
  · rw [←hxy]
    rfl
  · rw [←hax]
    rfl
  · rw [←hax]
    rfl

/-- The pairs of a node's `reg`; none when it has no `reg`. -/
def pairs (a s : ℕ) (node : Node) : List (ℕ×ℕ) := ((node.property "reg").map (regPairs a s)).getD []

/-- A node without regions has no pairs. -/
theorem pairs_nil {a s : ℕ} {node : Node} (hshape : RegShape node) (h : regs node=[]) :
    pairs a s node=[] := by
  unfold regs at h
  unfold pairs
  cases hreg : node.property "reg" with
  | none => rfl
  | some raw =>
    have hmod : raw.length%16=0 := hshape raw hreg
    rw [hreg,Option.map_some,Option.getD_some] at h
    have hcount : (parseRegions raw).length=raw.length/16 := length_decodeRecords _ _ _ _
    rw [h,List.length_nil] at hcount
    have hzero : raw.length=0 := by omega
    rw [Option.map_some,Option.getD_some,regPairs,hzero,Nat.zero_div]
    rfl

/-- In other cells the first entry of a node is not that of its first region. -/
theorem first_differs {a s : ℕ} {node : Node} (hshape : RegShape node)
    (hsized : ∀ r∈regs node, 0 < r.size) (ha : 1≤a ∧ a≤2) (hs : s≤2) (hcells : ¬(a=2 ∧ s=2))
    (h : regs node≠[]) : ∃ r rs p ps, regs node=r::rs ∧ pairs a s node=p::ps ∧
      ¬(p.1=r.gpa ∧ p.2=r.size) := by
  unfold regs at h hsized
  unfold regs pairs
  cases hreg : node.property "reg" with
  | none =>
    rw [hreg] at h
    exact absurd rfl h
  | some raw =>
    rw [hreg,Option.map_some,Option.getD_some] at h hsized
    have hmod : raw.length%16=0 := hshape raw hreg
    have hlong : 16 ≤ raw.length := by
      by_contra hshort
      have hzero : raw.length/16=0 := by omega
      rw [parseRegions,hzero] at h
      exact h rfl
    have hregion : parseRegions raw=parseOneRegion (raw.take 16)::
        decodeRecords 16 parseOneRegion (raw.length/16-1) (raw.drop 16) := by
      obtain ⟨k,hk⟩ : ∃ k, raw.length/16=k+1 := ⟨raw.length/16-1,by omega⟩
      rw [parseRegions,hk]
      rfl
    have hpair : ∃ ps, regPairs a s raw=regPair a (raw.take (4*(a+s)))::ps := by
      have hwidth : 4*(a+s) ≤ raw.length := by omega
      have hpos : 0 < raw.length/(4*(a+s)) := Nat.div_pos hwidth (by omega)
      obtain ⟨k,hk⟩ : ∃ k, raw.length/(4*(a+s))=k+1 := ⟨raw.length/(4*(a+s))-1,by omega⟩
      rw [regPairs,hk]
      exact ⟨_,rfl⟩
    obtain ⟨ps,hpair⟩ := hpair
    rw [hregion] at hsized
    refine ⟨_,_,_,ps,hregion,hpair,?_⟩
    have hsize := hsized _ List.mem_cons_self
    obtain ⟨w,x,y,z,hr,h10,h11,h12,h20,h21⟩ := regPair_cells hlong
    rw [hr] at hsize ⊢
    dsimp only at hsize ⊢
    -- the five other choices of supported cell counts
    obtain ⟨rfl,rfl⟩ | ⟨rfl,rfl⟩ | ⟨rfl,rfl⟩ | ⟨rfl,rfl⟩ | ⟨rfl,rfl⟩ :
        a=1 ∧ s=0 ∨ a=1 ∧ s=1 ∨ a=1 ∧ s=2 ∨ a=2 ∧ s=0 ∨ a=2 ∧ s=1 := by omega
    · rw [h10]
      dsimp only
      omega
    · rw [h11]
      dsimp only
      omega
    · rw [h12]
      dsimp only
      omega
    · rw [h20]
      dsimp only
      omega
    · rw [h21]
      dsimp only
      omega

/-- The memory nodes among the children that the emitter sees. -/
theorem memories_children (a s : ℕ) (l : List Node) :
    memories (l.map fun c => ⟨c,a,s,.root⟩)=(memoryNodes l).map fun c => ⟨c,a,s,.root⟩ := by
  rw [memories,memoryNodes,List.filter_map]
  rfl

section Agreement

variable [DevtreeLib]

/-- The node's `status` says that it is in use. -/
def okay (node : Node) : Bool :=
  decide (value ((⟨node,2,2,.root⟩ : DtbNode).decodeStatus .memory)=some .okay)

/-- The memory entries that the affinity table has for a node. -/
def nodeEntries (a s : ℕ) (node : Node) : List MemoryEntry :=
  (pairs a s node).map fun p => ⟨p.1,p.2,okay node⟩

/-- What is written for one node reads back, in cells that are supported. -/
theorem reads_memory {a s : ℕ} {node : Node} {out rest : Bytes} {es : List MemoryEntry}
    (hout : memoryPart ⟨node,a,s,.root⟩=some out) (h : Reads rest es) :
    Reads (out++rest) (nodeEntries a s node++es) ∧ (1≤a ∧ a≤2) ∧ s≤2 ∧
      (node.property "reg").isSome=true := by
  simp only [memoryPart,Option.bind_eq_bind,Option.bind_eq_some_iff] at hout
  obtain ⟨tag,_,pd,_,status,hstatus,regs,hregs,hout⟩ := hout
  cases hout
  obtain ⟨raw,hraw,hregs⟩ := bind_ok.mp (value_eq_some.mp hregs)
  have hraw : node.property "reg"=some raw := okOr_ok.mp hraw
  have hregs : regIter raw a s .memory=.ok regs := hregs
  unfold regIter at hregs
  split at hregs
  · exact absurd hregs fail_ne_ok
  · rename_i ha
    split at hregs
    · exact absurd hregs fail_ne_ok
    · rename_i hs
      cases hregs
      have ha : 1≤a ∧ a≤2 := not_not.mp ha
      have hs : s≤2 := not_not.mp hs
      obtain ⟨henabled,hflags⟩ := memoryAffinityFlags_enabled status
        (DtbNode.decodeMemoryHotpluggable ⟨node,a,s,.root⟩)
      have hokay : okay node=decide (status=.okay) := by
        have hsame : value ((⟨node,2,2,.root⟩ : DtbNode).decodeStatus .memory)=some status :=
          hstatus
        rw [okay,hsame]
        simp only [Option.some.injEq]
      have hreads := reads_regions pd _ hflags (regPairs_lt ha.2 hs raw) h
      rw [henabled,←hokay] at hreads
      refine ⟨?_,ha,hs,?_⟩
      · rw [nodeEntries,pairs,hraw]
        exact hreads
      · rw [hraw]
        rfl

/-- What is written for all nodes reads back. -/
theorem reads_memories {a s : ℕ} {nodes : List Node} {out : Bytes}
    (hout : catAll ((nodes.map fun c => (⟨c,a,s,.root⟩ : DtbNode)).map memoryPart)=some out) :
    Reads out (nodes.flatMap (nodeEntries a s)) ∧
      ∀ node∈nodes, (1≤a ∧ a≤2) ∧ s≤2 ∧ (node.property "reg").isSome=true := by
  induction nodes generalizing out with
  | nil =>
    cases hout
    exact ⟨reads_nil,fun node hn => absurd hn List.not_mem_nil⟩
  | cons node nodes ih =>
    rw [List.map_cons,List.map_cons,catAll,cat_eq_some] at hout
    obtain ⟨first,hfirst,others,hothers,rfl⟩ := hout
    obtain ⟨hreads,hnodes⟩ := ih hothers
    obtain ⟨hread,hnode⟩ := reads_memory hfirst hreads
    exact ⟨hread,List.forall_mem_cons.mpr ⟨hnode,hnodes⟩⟩

/-- The affinity table that is written reads back. -/
theorem memoryEntries_srat {oem : OemIdentity} {cache : CpuCache} {a s len : ℕ} {l : List Node}
    {table : Bytes} (h : srat oem cache (l.map fun c => ⟨c,a,s,.root⟩) len=some table) :
    memoryEntries table=(memoryNodes l).flatMap (nodeEntries a s) ∧
      ∀ node∈memoryNodes l, (1≤a ∧ a≤2) ∧ s≤2 ∧ (node.property "reg").isSome=true := by
  unfold srat Acpi.Sdt.table at h
  split at h
  · obtain ⟨out,hout,rfl⟩ := Option.map_eq_some_iff.mp h
    obtain ⟨cpus,hcpus,mems,hmems,rfl⟩ := cat_eq_some.mp hout
    rw [memories_children] at hmems
    obtain ⟨hreads,hnodes⟩ := reads_memories hmems
    have hheader : (sratHeader oem len).length=sratHeaderSize := by
      rw [sratHeader,List.length_append,SdtHeader.length_asBytes]
      rfl
    have hsize : sratHeaderSize=48 := rfl
    have hbody : (sealed 9 (sratHeader oem len++(cpus++mems))).drop sratHeaderSize=cpus++mems := by
      have hdrop : (sratHeader oem len++(cpus++mems)).drop sratHeaderSize=cpus++mems :=
        List.drop_left' hheader
      refine Eq.trans (List.ext_getElem? fun i => ?_) hdrop
      rw [List.getElem?_drop,List.getElem?_drop,getElem?_sealed (by omega)]
    have hall := reads_cpus hcpus hreads
    refine ⟨?_,hnodes⟩
    rw [memoryEntries,hbody]
    refine hall _ ?_
    calc
      (cpus++mems).length ≤ (sratHeader oem len).length+(cpus++mems).length := Nat.le_add_left _ _
      _=(sealed 9 (sratHeader oem len++(cpus++mems))).length := by
        rw [length_sealed,←List.length_append]
  · cases h

/-- The affinity table in a filled buffer reads back. -/
theorem memoryEntries_populate {root : Node} {oem : OemIdentity} {baseGpa n : ℕ}
    {buf buf' : Bytes} (h : populate root oem baseGpa buf=.ok (n,buf')) {l : Layouted}
    (hrun : Acpi.Count.run root=.ok l) {slot : Slot} (hslot : l.offsets.srat=some slot) :
    ∃ a s, (rootOf root).ownCells=.ok (a,s) ∧
      memoryEntries (bytesIn slot (buf'.take n))=
        (memoryNodes root.children).flatMap (nodeEntries a s) ∧
      ∀ node∈memoryNodes root.children, (1≤a ∧ a≤2) ∧ s≤2 ∧ (node.property "reg").isSome=true := by
  obtain ⟨l',hl,hroom,filled,hfilled,hout⟩ := populate_ok.mp h
  cases hrun.symm.trans hl
  obtain ⟨kids,serial,console,hest⟩ := run_ok hrun
  have hbase := emission_base hfilled
  obtain ⟨t,ht,rfl⟩ := (emission_ok hest hbase hroom).mp hfilled
  obtain ⟨hlen,hall⟩ := @slice_catAll _ _ (writes_all hest hbase) [] t _ hest.tiles ht
  have hlen : t.length=l.offsets.total := by
    rw [List.length_nil,Nat.zero_add] at hlen
    exact hlen
  cases hout
  have hfront : (overwrite 0 t buf).take l.offsets.total=t := by
    rw [overwrite,List.take_zero,List.nil_append,List.take_left' hlen]
  simp only [frontJobs,backJobs,frontParts,backParts,List.cons_append,List.nil_append,
    List.forall₂_cons,Option.some.injEq,forall_eq',List.forall₂_nil_left_iff,and_true] at hall
  obtain ⟨_,_,_,_,_,_,hsrat,_,_⟩ := hall
  have hpart := hsrat slot hslot
  rw [hslot] at hpart
  obtain ⟨cells,hcells,hkids⟩ := bind_ok.mp hest.children
  cases hkids
  rw [hfront]
  exact ⟨cells.1,cells.2,hcells,memoryEntries_srat hpart⟩

/-- The memory map and the affinity table say the same of a region. -/
structure AgreeAt (bp : BootE820) (r : Region) (e : MemoryEntry) : Prop where
  /-- The entry has the base of the region. -/
  base : e.base=r.gpa
  /-- The entry has the size of the region. -/
  length : e.length=r.size
  /-- The region is usable exactly when its entry is enabled. -/
  usable : entryOf .usable r∈bp.used ↔ e.enabled=true

/-- The memory map and the affinity table agree. -/
structure Agree (root : Node) (bp : BootE820) (table : Bytes) : Prop where
  /-- They say the same of every region. -/
  regions : List.Forall₂ (AgreeAt bp) (memoryRegions root) (memoryEntries table)
  /-- What is not in use is not usable. -/
  withheld : ∀ node∈memoryNodes root.children, okay node=false →
    ∀ r∈regs node, entryOf .usable r∉bp.used

/-- There is no memory, or addresses and sizes are of two cells and all memory
is in use. -/
def InUse (root : Node) : Prop :=
  memoryRegions root=[] ∨ (rootOf root).ownCells=.ok (2,2) ∧
    ∀ node∈memoryNodes root.children, regs node≠[] → okay node=true

/-- Entries that belong to the regions are of two address and two size cells. -/
theorem cells_of_agree {bp : BootE820} {a s : ℕ} {nodes : List Node}
    (hshape : ∀ node∈nodes, RegShape node) (hsized : ∀ node∈nodes, ∀ r∈regs node, 0 < r.size)
    (hcells : ∀ node∈nodes, (1≤a ∧ a≤2) ∧ s≤2) (hsome : nodes.flatMap regs≠[])
    (h : List.Forall₂ (AgreeAt bp) (nodes.flatMap regs) (nodes.flatMap (nodeEntries a s))) :
    a=2 ∧ s=2 := by
  induction nodes with
  | nil => exact absurd rfl hsome
  | cons node nodes ih =>
    obtain ⟨hnode,hnodes⟩ := List.forall_mem_cons.mp hshape
    obtain ⟨hpos,hposs⟩ := List.forall_mem_cons.mp hsized
    obtain ⟨⟨ha,hs⟩,hrest⟩ := List.forall_mem_cons.mp hcells
    rw [List.flatMap_cons,List.flatMap_cons] at h
    by_cases hregs : regs node=[]
    · rw [List.flatMap_cons,hregs,List.nil_append] at hsome
      rw [hregs,nodeEntries,pairs_nil hnode hregs] at h
      exact ih hnodes hposs hrest hsome h
    · by_contra hother
      obtain ⟨r,rs,p,ps,hr,hp,hdiff⟩ := first_differs hnode hpos ha hs hother hregs
      rw [hr,nodeEntries,hp] at h
      cases h with
      | cons hhead _ => exact hdiff ⟨hhead.base,hhead.length⟩

/-- In two address and two size cells the entries belong to the regions. -/
theorem nodeEntries_two (node : Node) :
    nodeEntries 2 2 node=(regs node).map fun r => ⟨r.gpa,r.size,okay node⟩ := by
  unfold nodeEntries pairs regs
  cases node.property "reg" with
  | none => rfl
  | some raw =>
    rw [Option.map_some,Option.map_some,Option.getD_some,Option.getD_some,regPairs_two,List.map_map]
    rfl

/-- They agree exactly when the nodes of all regions are in use. -/
theorem agree_two {bp : BootE820} {nodes : List Node}
    (husable : ∀ node∈nodes, ∀ r∈regs node, entryOf .usable r∈bp.used) :
    List.Forall₂ (AgreeAt bp) (nodes.flatMap regs) (nodes.flatMap (nodeEntries 2 2)) ↔
      ∀ node∈nodes, regs node≠[] → okay node=true := by
  have hregions : nodes.flatMap regs=
      (nodes.flatMap fun node => (regs node).map fun r => (node,r)).map Prod.snd := by
    rw [List.map_flatMap]
    refine List.flatMap_congr fun node _ => ?_
    rw [List.map_map]
    exact (List.map_id _).symm
  have hentries : nodes.flatMap (nodeEntries 2 2)=
      (nodes.flatMap fun node => (regs node).map fun r => (node,r)).map
        fun x => ⟨x.2.gpa,x.2.size,okay x.1⟩ := by
    rw [List.map_flatMap]
    refine List.flatMap_congr fun node _ => ?_
    rw [List.map_map]
    exact nodeEntries_two node
  rw [hregions,hentries,List.forall₂_map_left_iff,List.forall₂_map_right_iff,List.forall₂_same]
  constructor
  · intro h node hn hregs
    obtain ⟨r,hr⟩ := List.exists_mem_of_ne_nil _ hregs
    have hmem : (node,r)∈nodes.flatMap fun node => (regs node).map fun r => (node,r) :=
      List.mem_flatMap.mpr ⟨node,hn,List.mem_map_of_mem hr⟩
    exact (h _ hmem).usable.mp (husable node hn r hr)
  · intro h x hx
    obtain ⟨node,hn,hx⟩ := List.mem_flatMap.mp hx
    obtain ⟨r,hr,rfl⟩ := List.mem_map.mp hx
    have hok : okay node=true := h node hn (List.ne_nil_of_mem hr)
    exact ⟨rfl,rfl,fun _ => hok,fun _ => husable node hn r hr⟩

/-- For every accepted tree with an affinity table, memory map and affinity
table agree exactly when there is no memory or all of it is in use. -/
theorem usable_iff_enabled {root : Node} {paBits : ℕ} (hlaw : CellsLaw)
    (hvalid : validateMerged root paBits=.ok ()) {rsdpGpa acpiSize : ℕ} {bp : BootE820}
    (hfill : fillE820 root rsdpGpa acpiSize=.ok bp) {oem : OemIdentity} {baseGpa n : ℕ}
    {buf buf' : Bytes} (hpopulate : populate root oem baseGpa buf=.ok (n,buf')) {l : Layouted}
    (hrun : Acpi.Count.run root=.ok l) {slot : Slot} (hslot : l.offsets.srat=some slot) :
    Agree root bp (bytesIn slot (buf'.take n)) ↔ InUse root := by
  have hok := accepted_of_valid hvalid
  obtain ⟨a,s,hcells,hentries,hnodes⟩ := memoryEntries_populate hpopulate hrun hslot
  have hshape : ∀ node∈memoryNodes root.children, RegShape node := by
    intro node hn
    obtain ⟨hc,hseg⟩ := List.mem_filter.mp hn
    refine hok.shape node hc ?_
    rw [of_decide_eq_true hseg]
    decide
  have hsized : ∀ node∈memoryNodes root.children, ∀ r∈regs node, 0 < r.size :=
    fun node hn r hr => hok.sized r (List.mem_flatMap.mpr ⟨node,hn,hr⟩)
  have husable : ∀ node∈memoryNodes root.children, ∀ r∈regs node, entryOf .usable r∈bp.used := by
    intro node hn r hr
    obtain ⟨hc,hseg⟩ := List.mem_filter.mp hn
    rw [(fillE820_ok hlaw hfill).2.2.2.2]
    refine List.mem_cons_of_mem _ (List.mem_flatMap.mpr ⟨node,hc,?_⟩)
    rw [childEntries,if_pos (of_decide_eq_true hseg)]
    exact List.mem_map_of_mem hr
  constructor
  · intro h
    by_cases hnone : memoryRegions root=[]
    · exact .inl hnone
    · have hall := h.regions
      rw [hentries] at hall
      obtain ⟨rfl,rfl⟩ := cells_of_agree hshape hsized (fun node hn => ⟨(hnodes node hn).1,
        (hnodes node hn).2.1⟩) hnone hall
      exact .inr ⟨hcells,(agree_two husable).mp hall⟩
  · rintro (hnone | ⟨htwo,hokay⟩)
    · have hregs : ∀ node∈memoryNodes root.children, regs node=[] :=
        List.flatMap_eq_nil_iff.mp hnone
      refine ⟨?_,fun node hn _ r hr => ?_⟩
      · have hempty : (memoryNodes root.children).flatMap (nodeEntries a s)=[] := by
          refine List.flatMap_eq_nil_iff.mpr fun node hn => ?_
          rw [nodeEntries,pairs_nil (hshape node hn) (hregs node hn)]
          rfl
        rw [hentries,hnone,hempty]
        exact .nil
      · rw [hregs node hn] at hr
        exact absurd hr List.not_mem_nil
    · cases hcells.symm.trans htwo
      refine ⟨?_,fun node hn hnot r hr => ?_⟩
      · rw [hentries]
        exact (agree_two husable).mpr hokay
      · rw [hokay node hn (List.ne_nil_of_mem hr)] at hnot
        cases hnot

end Agreement

/-- A board of one domain whose memory node has further properties. -/
def numaBoard (more : List Property) : Node :=
  sampleTree (.mk "cpus" [⟨"#address-cells",beBytes 4 1⟩,⟨"#size-cells",beBytes 4 0⟩]
      [.mk "cpu@0" [⟨"reg",beBytes 4 0⟩,⟨"numa-node-id",beBytes 4 0⟩] []]::
    .mk "memory@100000" (⟨"reg",dtReg 0x100000 0x100000⟩::⟨"numa-node-id",beBytes 4 0⟩::more) []::
    sampleKids.drop 1)

/-- What is done with a board: the memory map, the tables, their layout and the
slot of the affinity table. -/
structure Booted (root : Node) (bp : BootE820) (table : Bytes) : Prop where
  /-- The board is accepted. -/
  valid : validateMerged root 36=.ok ()
  /-- The memory map is filled. -/
  map : @fillE820 plainLib root 0xA0000 0x1000=.ok bp
  /-- The tables are written, with an affinity table. -/
  tables : ∃ n buf' l slot, @populate plainLib root sampleOem 0xA0000 (zeros 800)=.ok (n,buf') ∧
    @Acpi.Count.run plainLib root=.ok l ∧ l.offsets.srat=some slot ∧
    table=bytesIn slot (buf'.take n)

/-- The memory entries of the affinity table of a board. -/
def boardEntries (root : Node) : Option (List MemoryEntry) := do
  let out ← value (@populate plainLib root sampleOem 0xA0000 (zeros 800))
  let l ← value (@Acpi.Count.run plainLib root)
  let slot ← l.offsets.srat
  some (memoryEntries (bytesIn slot (out.2.take out.1)))

/-- A board is booted when it is accepted, its memory map is filled and its
affinity table has entries. -/
theorem exists_booted {root : Node} {es : List MemoryEntry}
    (hvalid : validateMerged root 36=.ok ())
    (hfill : (@fillE820 plainLib root 0xA0000 0x1000).toOption.isSome=true)
    (hentries : boardEntries root=some es) :
    ∃ bp table, Booted root bp table ∧ memoryEntries table=es := by
  obtain ⟨bp,hbp⟩ := exists_ok hfill
  simp only [boardEntries,Option.bind_eq_bind,Option.bind_eq_some_iff] at hentries
  obtain ⟨out,hout,l,hl,slot,hslot,hes⟩ := hentries
  cases hes
  exact ⟨bp,_,⟨hvalid,hbp,out.1,out.2,l,slot,value_eq_some.mp hout,value_eq_some.mp hl,hslot,rfl⟩,rfl⟩

/-- Memory map and affinity table of the board agree. -/
theorem usable_iff_enabled_sample : ∃ bp table, Booted (numaBoard []) bp table ∧
    @Agree plainLib (numaBoard []) bp table := by
  have hvalid : validateMerged (numaBoard []) 36=.ok () := by decide +kernel
  have hentries : boardEntries (numaBoard [])=some [⟨0x100000,0x100000,true⟩] := by decide +kernel
  obtain ⟨bp,table,hboot,_⟩ := exists_booted hvalid (by decide +kernel) hentries
  obtain ⟨n,buf',l,slot,hpopulate,hrun,hslot,rfl⟩ := hboot.tables
  refine ⟨bp,_,hboot,?_⟩
  refine (@usable_iff_enabled plainLib _ _ cellsLaw_plainLib hvalid _ _ _ hboot.map _ _ _ _ _
    hpopulate _ hrun _ hslot).mpr ?_
  exact .inr ⟨by decide,by decide⟩

/-- Memory that is disabled is usable in the memory map, although it is not
enabled in the affinity table. -/
theorem disabled_memory_usable : ∃ bp table,
    Booted (numaBoard [⟨"status",dtString "disabled"⟩]) bp table ∧
    ⟨0x100000,0x100000,.usable⟩∈bp.used ∧
    memoryEntries table=[⟨0x100000,0x100000,false⟩] ∧
    ¬@Agree plainLib (numaBoard [⟨"status",dtString "disabled"⟩]) bp table := by
  have hvalid : validateMerged (numaBoard [⟨"status",dtString "disabled"⟩]) 36=.ok () := by
    decide +kernel
  have hentries : boardEntries (numaBoard [⟨"status",dtString "disabled"⟩])=
      some [⟨0x100000,0x100000,false⟩] := by decide +kernel
  obtain ⟨bp,table,hboot,htable⟩ := exists_booted hvalid (by decide +kernel) hentries
  have hused : (⟨0x100000,0x100000,.usable⟩ : E820Entry)∈bp.used := by
    rw [(@fillE820_ok plainLib cellsLaw_plainLib _ _ _ _ hboot.map).2.2.2.2]
    decide +kernel
  refine ⟨bp,table,hboot,hused,htable,fun h => ?_⟩
  have hregions := @Agree.regions plainLib _ _ _ h
  have hmemory : memoryRegions (numaBoard [⟨"status",dtString "disabled"⟩])=
      [⟨0x100000,0x100000⟩] := by decide +kernel
  rw [hmemory,htable] at hregions
  cases hregions with
  | cons hhead _ => exact Bool.false_ne_true (hhead.usable.mp hused)

end Arma.Tatu.Affinity
