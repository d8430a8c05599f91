import Arma.Tatu.E820

/-!
# The memory map of an accepted tree

The validator reads the tree by node name, the memory map reads memory by name
and host bridges by `compatible`. They agree region by region, except where a
`memory` or `cpus` node claims to be a host bridge.
-/

namespace Arma.Tatu.MemoryMap

open Base.ArrayVec Base.ByteString Base.Checked Devtree E820 Validate

/-- What the validator has checked about the regions of an accepted tree. -/
structure Accepted (root : Node) : Prop where
  /-- Every `reg` but those of `cpus` nodes is a whole number of pairs. -/
  shape : ∀ node∈root.children, topSegment node.name≠"cpus" → RegShape node
  /-- No memory region is empty. -/
  sized : ∀ r∈memoryRegions root, 0 < r.size
  /-- There are not too many memory regions. -/
  memory : (memoryRegions root).length≤32
  /-- There are not too many device regions. -/
  devices : (deviceRegions root).length≤64
  /-- Memory and devices are separate. -/
  separate : ∀ m∈memoryRegions root, ∀ d∈deviceRegions root, m.span.Separate d.span

/-- A region is only checked against an address space of less than 64 bits. -/
theorem validateRegion_bits {r : Region} {paBits : ℕ} (h : validateRegion r paBits=.ok ()) :
    paBits<64 := by
  unfold validateRegion at h
  split at h
  · exact absurd h fail_ne_ok
  · obtain ⟨stop,_,h⟩ := bind_ok.mp h
    obtain ⟨bound,hbound,_⟩ := bind_ok.mp h
    exact (bitWord_some.mp (unwrap_ok.mp hbound)).1

/-- Without such an address space there is no region to push. -/
theorem pushRegions_narrow {cap paBits : ℕ} (hpa : 64≤paBits) {err : ValidationError}
    {rs : List Region} {v w : ArrayVec Region cap} (h : pushRegions paBits err rs v=.ok w) :
    pushRegions 63 err rs v=.ok w := by
  cases rs with
  | nil => exact h
  | cons r rs =>
    obtain ⟨u,hr,_⟩ := bind_ok.mp h
    have hbits := validateRegion_bits hr
    omega

/-- Then a child passes in any address space. -/
theorem collectChild_narrow {paBits : ℕ} (hpa : 64≤paBits) {st st' : Collected} {child : Node}
    (h : collectChild paBits st child=.ok st') : collectChild 63 st child=.ok st' := by
  have hextract : ∀ {cap : ℕ} {err : ValidationError} {v w : ArrayVec Region cap},
      extractRegs child v paBits err=.ok w → extractRegs child v 63 err=.ok w := by
    intro cap err v w hv
    unfold extractRegs at hv ⊢
    cases hreg : child.property "reg" with
    | none =>
      rw [hreg] at hv
      exact hv
    | some bytes =>
      rw [hreg] at hv
      dsimp only at hv ⊢
      by_cases hshape : bytes.length%16≠0
      · rw [if_pos hshape] at hv
        exact absurd hv fail_ne_ok
      · rw [if_neg hshape] at hv ⊢
        exact pushRegions_narrow hpa hv
  unfold collectChild at h ⊢
  by_cases hcpus : topSegment child.name="cpus"
  · rw [if_pos hcpus] at h ⊢
    exact h
  · rw [if_neg hcpus] at h ⊢
    by_cases hmem : topSegment child.name="memory"
    · rw [if_pos hmem] at h ⊢
      obtain ⟨memory,hmemory,h⟩ := bind_ok.mp h
      exact bind_ok.mpr ⟨memory,hextract hmemory,h⟩
    · rw [if_neg hmem] at h ⊢
      by_cases hreg : (child.property "reg").isSome=true
      · rw [if_pos hreg] at h ⊢
        obtain ⟨devices,hdevices,h⟩ := bind_ok.mp h
        exact bind_ok.mpr ⟨devices,hextract hdevices,h⟩
      · rw [if_neg hreg] at h ⊢
        exact h

/-- And so do all children. -/
theorem collect_narrow {paBits : ℕ} (hpa : 64≤paBits) {l : List Node} {st st' : Collected}
    (h : collect paBits l st=.ok st') : collect 63 l st=.ok st' := by
  induction l generalizing st with
  | nil => exact h
  | cons child l ih =>
    obtain ⟨mid,hchild,hrest⟩ := bind_ok.mp h
    exact bind_ok.mpr ⟨mid,collectChild_narrow hpa hchild,ih hrest⟩

/-- An accepted tree is one that the validator accepts. -/
theorem accepted_of_valid {root : Node} {paBits : ℕ} (h : validateMerged root paBits=.ok ()) :
    Accepted root := by
  obtain ⟨st,hcollect,h⟩ := bind_ok.mp h
  obtain ⟨u,hoverlap,_⟩ := bind_ok.mp h
  have hsome : ∃ bits, bits<64 ∧ collect bits root.children ⟨.empty,.empty,0⟩=.ok st := by
    by_cases hpa : paBits<64
    · exact ⟨paBits,hpa,hcollect⟩
    · exact ⟨63,by omega,collect_narrow (by omega) hcollect⟩
  obtain ⟨bits,hbits,hcollect⟩ := hsome
  obtain ⟨hregs,hst⟩ := (collect_ok hbits (by simp)).mp hcollect
  obtain ⟨hm,hd⟩ := regions_valid hregs
  have hmemory : st.memory.toList=memoryRegions root := hst.memory
  have hdevices : st.devices.toList=deviceRegions root := hst.devices
  rw [hmemory,hdevices] at hoverlap
  refine ⟨fun node hn hname bytes hbytes => (hregs node hn hname bytes hbytes).1,
    fun r hr => (hm r hr).nonempty,?_,?_,(semanticOverlapChecks_ok hm hd).mp hoverlap⟩
  · rw [←hmemory]
    exact st.memory.bound
  · rw [←hdevices]
    exact st.devices.bound

/-- Mapping the chosen nodes is mapping all nodes, with nothing from the others. -/
theorem flatMap_filter (p : Node → Bool) (f : Node → List Region) (l : List Node) :
    (l.filter p).flatMap f=l.flatMap fun n => if p n=true then f n else [] := by
  induction l with
  | nil => rfl
  | cons n l ih =>
    rw [List.flatMap_cons,←ih]
    by_cases hp : p n=true
    · rw [List.filter_cons_of_pos hp,List.flatMap_cons,if_pos hp]
    · rw [List.filter_cons_of_neg hp,if_neg hp,List.nil_append]

/-- The kind of an entry decides a filter by kind. -/
theorem filter_entries (kind kind' : E820Type) (rs : List Region) :
    (rs.map (entryOf kind)).filter (fun e => decide (e.kind=kind'))=
      if kind=kind' then rs.map (entryOf kind) else [] := by
  by_cases h : kind=kind'
  · rw [if_pos h,List.filter_eq_self]
    intro e he
    obtain ⟨r,_,rfl⟩ := List.mem_map.mp he
    exact decide_eq_true h
  · rw [if_neg h,List.filter_eq_nil_iff]
    intro e he
    obtain ⟨r,_,rfl⟩ := List.mem_map.mp he
    exact fun hkind => h (of_decide_eq_true hkind)

/-- The regions of a child that become usable. -/
def usableOf (child : Node) : List Region :=
  if topSegment child.name="memory" then regs child else []

/-- The usable regions are the memory regions. -/
theorem flatMap_usableOf (root : Node) : root.children.flatMap usableOf=memoryRegions root := by
  rw [memoryRegions,memoryNodes,flatMap_filter]
  refine List.flatMap_congr fun n _ => ?_
  unfold usableOf
  simp only [decide_eq_true_eq]

section Map

variable [DevtreeLib]

/-- The host bridges among the root's children. -/
def bridges (root : Node) : List Node := root.children.filter isBridge

/-- Their regions, in order. -/
def bridgeRegions (root : Node) : List Region := (bridges root).flatMap regs

/-- The table is the memory map of the tree. -/
structure MapOf (root : Node) (bp : BootE820) : Prop where
  /-- The usable entries are the memory regions, in order. -/
  usable : bp.used.filter (fun e => decide (e.kind=.usable))=
    (memoryRegions root).map (entryOf .usable)
  /-- The reserved entries are the regions of the host bridges, in order. -/
  reserved : bp.used.filter (fun e => decide (e.kind=.reserved))=
    (bridgeRegions root).map (entryOf .reserved)
  /-- No usable entry has an address of a reserved one. -/
  disjoint : ∀ u∈bp.used, u.kind=.usable → ∀ v∈bp.used, v.kind=.reserved →
    u.span.Separate v.span
  /-- There is one entry for each region and one for the ACPI tables. -/
  count : bp.entries.toNat=1+(memoryRegions root).length+(bridgeRegions root).length
  /-- The entries fit the table. -/
  fits : bp.entries.toNat≤bp.table.length ∧ bp.table.length=128

/-- No `memory` node with regions is also a host bridge, host bridges among the
`cpus` nodes are in order, and the regions leave room for the ACPI entry. -/
structure MapReady (root : Node) : Prop where
  /-- A `memory` node that lists the host bridge has no regions. -/
  memory : ∀ node∈memoryNodes root.children, isBridge node=true → regs node=[]
  /-- A `cpus` node that lists it has a `reg` of whole pairs, apart from memory. -/
  cpus : ∀ node∈cpusNodes root.children, isBridge node=true → RegShape node ∧
    ∀ m∈memoryRegions root, ∀ r∈regs node, m.span.Separate r.span
  /-- The regions leave room for the ACPI entry. -/
  room : (memoryRegions root).length+(bridgeRegions root).length≤127

/-- The regions of a child that become reserved. -/
def reservedOf (child : Node) : List Region :=
  if topSegment child.name≠"memory" ∧ isBridge child=true then regs child else []

/-- A child other than reserved-memory contributes these. -/
theorem childEntries_eq {child : Node} (h : topSegment child.name≠"reserved-memory") :
    childEntries child=(usableOf child).map (entryOf .usable)++
      (reservedOf child).map (entryOf .reserved) := by
  unfold childEntries usableOf reservedOf
  by_cases hmem : topSegment child.name="memory"
  · rw [if_pos hmem,if_pos hmem,if_neg (fun hand => hand.1 hmem),List.map_nil,List.append_nil]
  · rw [if_neg hmem,if_neg hmem,if_neg h,List.map_nil,List.nil_append]
    by_cases hbridge : isBridge child=true
    · rw [if_pos hbridge,if_pos ⟨hmem,hbridge⟩]
    · rw [if_neg hbridge,if_neg (fun hand => hbridge hand.2),List.map_nil]

/-- What the entries of several children are, by kind and in number. -/
structure ByKind (l : List Node) : Prop where
  /-- The usable ones. -/
  usable : (l.flatMap childEntries).filter (fun e => decide (e.kind=.usable))=
    (l.flatMap usableOf).map (entryOf .usable)
  /-- The reserved ones. -/
  reserved : (l.flatMap childEntries).filter (fun e => decide (e.kind=.reserved))=
    (l.flatMap reservedOf).map (entryOf .reserved)
  /-- There are no others. -/
  length : (l.flatMap childEntries).length=
    (l.flatMap usableOf).length+(l.flatMap reservedOf).length

/-- Without reserved-memory the entries are these. -/
theorem byKind {l : List Node} (h : ∀ n∈l, topSegment n.name≠"reserved-memory") : ByKind l := by
  induction l with
  | nil => exact ⟨rfl,rfl,rfl⟩
  | cons n l ih =>
    obtain ⟨hn,hl⟩ := List.forall_mem_cons.mp h
    have hrest := ih hl
    refine ⟨?_,?_,?_⟩
    · simp only [List.flatMap_cons,List.filter_append,List.map_append,childEntries_eq hn,
        filter_entries,hrest.usable,if_true,reduceCtorEq,if_false,List.append_nil]
    · simp only [List.flatMap_cons,List.filter_append,List.map_append,childEntries_eq hn,
        filter_entries,hrest.reserved,if_true,reduceCtorEq,if_false,List.nil_append]
    · simp only [List.flatMap_cons,List.length_append,List.length_map,childEntries_eq hn,
        hrest.length]
      omega

/-- A child's reserved regions are those of a host bridge, or none. -/
theorem reservedOf_cases (child : Node) :
    reservedOf child=(if isBridge child=true then regs child else []) ∨
      reservedOf child=[] ∧ topSegment child.name="memory" ∧ isBridge child=true := by
  unfold reservedOf
  by_cases hmem : topSegment child.name="memory"
  · rw [if_neg (fun hand => hand.1 hmem)]
    by_cases hbridge : isBridge child=true
    · exact .inr ⟨rfl,hmem,hbridge⟩
    · rw [if_neg hbridge]
      exact .inl rfl
  · exact .inl (if_congr (and_iff_right hmem) rfl rfl)

/-- The reserved regions are those of all host bridges exactly when no `memory`
node with regions is one. -/
theorem reserved_all_iff (l : List Node) : (l.flatMap reservedOf).length≤
      ((l.filter isBridge).flatMap regs).length ∧
    ((l.flatMap reservedOf).length=((l.filter isBridge).flatMap regs).length ↔
      ∀ n∈memoryNodes l, isBridge n=true → regs n=[]) ∧
    ((∀ n∈memoryNodes l, isBridge n=true → regs n=[]) →
      l.flatMap reservedOf=(l.filter isBridge).flatMap regs) := by
  induction l with
  | nil => exact ⟨le_refl _,⟨fun _ n hn => absurd hn List.not_mem_nil,fun _ => rfl⟩,fun _ => rfl⟩
  | cons n l ih =>
    obtain ⟨hle,hiff,heq⟩ := ih
    have hbridges : ((n::l).filter isBridge).flatMap regs=
        (if isBridge n=true then regs n else [])++(l.filter isBridge).flatMap regs := by
      rw [flatMap_filter,flatMap_filter,List.flatMap_cons]
    have hnodes : (∀ m∈memoryNodes (n::l), isBridge m=true → regs m=[]) ↔
        (topSegment n.name="memory" → isBridge n=true → regs n=[]) ∧
          ∀ m∈memoryNodes l, isBridge m=true → regs m=[] := by
      simp only [memoryNodes,List.mem_filter,List.mem_cons,decide_eq_true_eq]
      constructor
      · exact fun h => ⟨fun hseg => h n ⟨.inl rfl,hseg⟩,fun m hm => h m ⟨.inr hm.1,hm.2⟩⟩
      · rintro ⟨hn,hl⟩ m ⟨rfl|hm,hseg⟩
        · exact hn hseg
        · exact hl m ⟨hm,hseg⟩
    rw [hbridges,hnodes,List.flatMap_cons,List.length_append,List.length_append]
    obtain hsame | ⟨hnone,hseg,hbridge⟩ := reservedOf_cases n
    · have hn : topSegment n.name="memory" → isBridge n=true → regs n=[] := by
        intro hseg hbridge
        rw [if_pos hbridge,reservedOf,if_neg (fun hand => hand.1 hseg)] at hsame
        exact hsame.symm
      rw [hsame]
      refine ⟨by omega,⟨fun h => ⟨hn,hiff.mp (by omega)⟩,fun h => ?_⟩,fun h => ?_⟩
      · rw [hiff.mpr h.2]
      · rw [heq h.2]
    · rw [hnone,if_pos hbridge,List.length_nil,List.nil_append]
      refine ⟨by omega,⟨fun h => ?_,fun h => ?_⟩,fun h => ?_⟩
      · have hzero : (regs n).length=0 := by omega
        exact ⟨fun _ _ => List.length_eq_zero_iff.mp hzero,hiff.mp (by omega)⟩
      · rw [h.1 hseg hbridge,hiff.mpr h.2,List.length_nil]
      · rw [h.1 hseg hbridge,heq h.2,List.nil_append]

/-- A reserved region is a device region, or one of a `cpus` node. -/
theorem reservedOf_mem {root child : Node} (hc : child∈root.children) {r : Region}
    (hr : r∈reservedOf child) : r∈deviceRegions root ∨
      child∈cpusNodes root.children ∧ isBridge child=true ∧ r∈regs child := by
  unfold reservedOf at hr
  split at hr
  · rename_i h
    by_cases hcpus : topSegment child.name="cpus"
    · exact .inr ⟨List.mem_filter.mpr ⟨hc,decide_eq_true hcpus⟩,h.2,hr⟩
    · refine .inl (List.mem_flatMap.mpr ⟨child,List.mem_filter.mpr ⟨hc,?_⟩,hr⟩)
      exact decide_eq_true ⟨hcpus,h.1⟩
  · exact absurd hr List.not_mem_nil

/-- A tree that is ready is well formed wherever the memory map reads it. -/
theorem MapReady.shape {root : Node} (h : MapReady root) (hok : Accepted root)
    (hres : ∀ child∈root.children, topSegment child.name≠"reserved-memory") :
    ∀ child∈root.children, ChildShape child := by
  intro child hc
  unfold ChildShape
  by_cases hmem : topSegment child.name="memory"
  · rw [if_pos hmem]
    refine hok.shape child hc ?_
    rw [hmem]
    decide
  · rw [if_neg hmem,if_neg (hres child hc)]
    intro hbridge
    by_cases hcpus : topSegment child.name="cpus"
    · exact (h.cpus child (List.mem_filter.mpr ⟨hc,decide_eq_true hcpus⟩) hbridge).1
    · exact hok.shape child hc hcpus

/-- Memory is apart from everything reserved in a tree that is ready. -/
theorem MapReady.separate {root : Node} (h : MapReady root) (hok : Accepted root) :
    ∀ m∈memoryRegions root, ∀ r∈root.children.flatMap reservedOf, m.span.Separate r.span := by
  intro m hm r hr
  obtain ⟨child,hc,hr⟩ := List.mem_flatMap.mp hr
  obtain hdev | ⟨hcpus,hbridge,hr⟩ := reservedOf_mem hc hr
  · exact hok.separate m hm r hdev
  · exact (h.cpus child hcpus hbridge).2 m hm r hr

/-- A tree whose memory map is complete has nothing that gets in its way. -/
theorem mapReady_of_fill {root : Node} (hlaw : CellsLaw)
    (hres : ∀ child∈root.children, topSegment child.name≠"reserved-memory")
    {rsdpGpa acpiSize : ℕ} {bp : BootE820} (hfill : fillE820 root rsdpGpa acpiSize=.ok bp)
    (hmap : MapOf root bp) : MapReady root := by
  have hkinds := byKind hres
  obtain ⟨_,hlengths,_⟩ := reserved_all_iff root.children
  have hlen := hkinds.length
  rw [flatMap_usableOf root] at hlen
  obtain ⟨hshape,hroom,_,_,hused⟩ := fillE820_ok hlaw hfill
  have hacpi : (⟨rsdpGpa,acpiSize,.acpi⟩ : E820Entry).kind=.acpi := rfl
  have hreserved := hmap.reserved
  rw [hused,List.filter_cons_of_neg (by rw [hacpi]; decide),hkinds.reserved] at hreserved
  have hsame := congrArg List.length hreserved
  rw [List.length_map,List.length_map] at hsame
  refine ⟨hlengths.mp hsame,fun node hn hbridge => ?_,?_⟩
  · obtain ⟨hc,hseg⟩ := List.mem_filter.mp hn
    have hseg := of_decide_eq_true hseg
    have hnot : topSegment node.name≠"memory" := by
      rw [hseg]
      decide
    have hnode := hshape node hc
    rw [ChildShape,if_neg hnot,if_neg (hres node hc)] at hnode
    refine ⟨hnode hbridge,fun m hm r hr => ?_⟩
    have hr' : r∈root.children.flatMap reservedOf := by
      refine List.mem_flatMap.mpr ⟨node,hc,?_⟩
      rw [reservedOf,if_pos ⟨hnot,hbridge⟩]
      exact hr
    have hmUsed : entryOf .usable m∈bp.used := by
      have hin := List.mem_map_of_mem (f := entryOf .usable) hm
      rw [←hmap.usable] at hin
      exact (List.mem_filter.mp hin).1
    have hrUsed : entryOf .reserved r∈bp.used := by
      have hin := List.mem_map_of_mem (f := entryOf .reserved) hr'
      rw [←hkinds.reserved] at hin
      rw [hused]
      exact List.mem_cons_of_mem _ (List.mem_filter.mp hin).1
    exact hmap.disjoint _ hmUsed rfl _ hrUsed rfl
  · rw [hsame] at hlen
    have hbridges : ((root.children.filter isBridge).flatMap regs).length=
        (bridgeRegions root).length := rfl
    omega

/-- A tree in which nothing gets in the way has a complete memory map. -/
theorem fill_of_mapReady {root : Node} {paBits : ℕ} (hlaw : CellsLaw)
    (h : validateMerged root paBits=.ok ())
    (hres : ∀ child∈root.children, topSegment child.name≠"reserved-memory")
    (hready : MapReady root) (rsdpGpa acpiSize : ℕ) :
    ∃ bp, fillE820 root rsdpGpa acpiSize=.ok bp ∧ MapOf root bp := by
  have hok := accepted_of_valid h
  have hkinds := byKind hres
  obtain ⟨_,_,hequal⟩ := reserved_all_iff root.children
  have husable := flatMap_usableOf root
  have hall : root.children.flatMap reservedOf=bridgeRegions root := hequal hready.memory
  have hlen := hkinds.length
  rw [husable,hall] at hlen
  have hroom := hready.room
  obtain ⟨bp,hfill⟩ := @exists_fillE820 _ hlaw root rsdpGpa acpiSize
    (hready.shape hok hres) (by omega)
  obtain ⟨_,_,htable,hentries,hused⟩ := fillE820_ok hlaw hfill
  have hacpi : (⟨rsdpGpa,acpiSize,.acpi⟩ : E820Entry).kind=.acpi := rfl
  have hmapUsable : bp.used.filter (fun e => decide (e.kind=.usable))=
      (memoryRegions root).map (entryOf .usable) := by
    rw [hused,List.filter_cons_of_neg (by rw [hacpi]; decide),hkinds.usable,husable]
  have hmapReserved : bp.used.filter (fun e => decide (e.kind=.reserved))=
      (bridgeRegions root).map (entryOf .reserved) := by
    rw [hused,List.filter_cons_of_neg (by rw [hacpi]; decide),hkinds.reserved,hall]
  refine ⟨bp,hfill,hmapUsable,hmapReserved,fun u hu hku v hv hkv => ?_,by omega,by omega,htable⟩
  have hu' : u∈(memoryRegions root).map (entryOf .usable) := by
    rw [←hmapUsable]
    exact List.mem_filter.mpr ⟨hu,decide_eq_true hku⟩
  have hv' : v∈(bridgeRegions root).map (entryOf .reserved) := by
    rw [←hmapReserved]
    exact List.mem_filter.mpr ⟨hv,decide_eq_true hkv⟩
  obtain ⟨m,hm,rfl⟩ := List.mem_map.mp hu'
  obtain ⟨r,hr,rfl⟩ := List.mem_map.mp hv'
  rw [←hall] at hr
  exact hready.separate hok m hm r hr

/-- For every accepted tree without reserved-memory, the memory map is complete
exactly when no `memory` or `cpus` node that claims to be a host bridge gets in
its way. -/
theorem fillE820_map_iff {root : Node} {paBits : ℕ} (hlaw : CellsLaw)
    (h : validateMerged root paBits=.ok ())
    (hres : ∀ child∈root.children, topSegment child.name≠"reserved-memory")
    (rsdpGpa acpiSize : ℕ) :
    (∃ bp, fillE820 root rsdpGpa acpiSize=.ok bp ∧ MapOf root bp) ↔ MapReady root := by
  constructor
  · rintro ⟨bp,hfill,hmap⟩
    exact mapReady_of_fill hlaw hres hfill hmap
  · intro hready
    exact fill_of_mapReady hlaw h hres hready rsdpGpa acpiSize

end Map

/-- The plain devicetree library decodes cells as required. -/
theorem cellsLaw_plainLib : @CellsLaw plainLib := fun _ => rfl

/-- A tree with one memory node and a host bridge. -/
def sampleBoard : Node :=
  .mk "" [] [.mk "memory@0" [⟨"reg",dtReg 0 0x100000⟩] [],
    .mk "pcie@10000000" [⟨"compatible",dtString "pci-host-ecam-generic"⟩,
      ⟨"reg",dtReg 0x10000000 0x1000000⟩] []]

/-- Its memory map is complete. -/
theorem fillE820_map_sample :
    ∃ bp, @fillE820 plainLib sampleBoard 0xA0000 0x1000=.ok bp ∧ @MapOf plainLib sampleBoard bp := by
  have hvalid : validateMerged sampleBoard 36=.ok () := by decide
  have hres : ∀ child∈sampleBoard.children, topSegment child.name≠"reserved-memory" := by decide
  refine (@fillE820_map_iff plainLib _ _ cellsLaw_plainLib hvalid hres 0xA0000 0x1000).mpr ?_
  refine @MapReady.mk plainLib _ (by decide) (fun node hn => ?_) (by decide)
  have hnone : cpusNodes sampleBoard.children=[] := rfl
  rw [hnone] at hn
  exact absurd hn List.not_mem_nil

/-- A tree whose memory node claims to be a host bridge. -/
def memoryBridge : Node :=
  .mk "" [] [.mk "memory@0" [⟨"compatible",dtString "pci-host-ecam-generic"⟩,
    ⟨"reg",dtReg 0 0x100000⟩] []]

/-- The tree is accepted and has no reserved-memory, but its map does not list
the regions of that host bridge as reserved. -/
theorem memoryBridge_not_reserved : validateMerged memoryBridge 36=.ok () ∧
    (∀ child∈memoryBridge.children, topSegment child.name≠"reserved-memory") ∧
    ¬∃ bp, @fillE820 plainLib memoryBridge 0xA0000 0x1000=.ok bp ∧
      @MapOf plainLib memoryBridge bp := by
  refine ⟨by decide,by decide,?_⟩
  rintro ⟨bp,hfill,hmap⟩
  have hused : bp.used=[⟨0xA0000,0x1000,.acpi⟩,⟨0,0x100000,.usable⟩] :=
    (@fillE820_ok plainLib cellsLaw_plainLib _ _ _ _ hfill).2.2.2.2
  have hreserved := @MapOf.reserved plainLib _ _ hmap
  rw [hused] at hreserved
  exact absurd hreserved (by decide)

end Arma.Tatu.MemoryMap
