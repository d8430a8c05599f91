import Arma.Base.ArrayVec
import Arma.Base.Checked
import Arma.Base.Intervals
import Arma.Devtree

/-!
# Validation of the merged devicetree

Regions are collected from the `reg` properties of the root's children into
vectors of fixed capacity, in tree order, and compared pairwise; then the
release addresses of the cpus are checked against them.
-/

namespace Arma.Tatu.Validate

open Base.ArrayVec Base.ByteString Base.Checked Devtree

/-- Maximal number of cpus. -/
def maxCpus : ℕ := 2048

/-- Maximal number of memory regions. -/
def maxMemoryRegions : ℕ := 32

/-- Maximal number of device regions. -/
def maxDeviceRanges : ℕ := 64

/-- Errors of both validation passes. -/
inductive ValidationError where
  | hostOverlayUnsupportedTarget
  | hostOverlayProhibitedPath
  | hostOverlayCpuPhandleProhibited
  | hostOverlayConflictingProperty
  | hostOverlayMemoryOverflow
  | memoryOverlapsDevice
  | nonCanonicalGpa
  | zeroSize
  | addressOverflow
  | cpuReleaseAddrUnsafe
  | tooManyCpus
  | tooManyMemoryRegions
  | tooManyDeviceRanges
  | badPropertyShape
deriving DecidableEq, Repr

/-- Address and size of a region. -/
structure Region where
  /-- First address. -/
  gpa : ℕ
  /-- Number of addresses. -/
  size : ℕ
deriving DecidableEq, Repr

/-- End of a region, absent when it does not fit 64 bits. -/
def Region.end (r : Region) : Option ℕ := addWord 64 r.gpa r.size

/-- Parse one 16-byte `reg` chunk, a pair of big-endian words. -/
def parseOneRegion (chunk : Bytes) : Region :=
  ⟨ofBE (slice 0 8 chunk),ofBE (slice 8 8 chunk)⟩

/-- The regions of a `reg` value, in 16-byte chunks. -/
def parseRegions (bytes : Bytes) : List Region :=
  decodeRecords 16 parseOneRegion (bytes.length/16) bytes

/-- A region is nonempty, does not overflow and fits the address space. -/
def validateRegion (r : Region) (paBits : ℕ) : Outcome ValidationError Unit :=
  if r.size=0 then fail .zeroSize
  else do
    let stop ← okOr r.end .addressOverflow
    let bound ← unwrap (bitWord 64 paBits)
    if bound < stop then fail .nonCanonicalGpa
    else .ok ()

/-- Two regions overlap; regions that overflow overlap everything. -/
def regionsOverlap (a b : Region) : Bool :=
  match a.end,b.end with
  | some aEnd,some bEnd => decide (a.gpa<bEnd) && decide (b.gpa<aEnd)
  | _,_ => true

/-- `inner` lies wholly within `outer`. -/
def regionContains (outer inner : Region) : Bool :=
  match outer.end,inner.end with
  | some outerEnd,some innerEnd => decide (outer.gpa ≤ inner.gpa) && decide (innerEnd≤outerEnd)
  | _,_ => false

/-- The loop over the chunks: validate each region and push it. -/
def pushRegions {cap : ℕ} (paBits : ℕ) (overflowErr : ValidationError) :
    List Region → ArrayVec Region cap → Outcome ValidationError (ArrayVec Region cap)
  | [],regions => .ok regions
  | r::rest,regions => do
    validateRegion r paBits
    let regions ← okOr (regions.tryPush r) overflowErr
    pushRegions paBits overflowErr rest regions

/-- Parse a node's `reg` into validated regions and push each. -/
def extractRegs {cap : ℕ} (node : Node) (regions : ArrayVec Region cap) (paBits : ℕ)
    (overflowErr : ValidationError) : Outcome ValidationError (ArrayVec Region cap) :=
  match node.property "reg" with
  | none => .ok regions
  | some bytes =>
    if bytes.length%16≠0 then fail .badPropertyShape
    else pushRegions paBits overflowErr (parseRegions bytes) regions

/-- Count children against the bound. -/
def countCpusFrom : List Node → ℕ → Outcome ValidationError ℕ
  | [],count => .ok count
  | _::rest,count => do
    let count ← okOr (addWord 64 count 1) .tooManyCpus
    if maxCpus < count then fail .tooManyCpus
    else countCpusFrom rest count

/-- Count the children of a `cpus` node against the bound. -/
def countCpus (node : Node) (count : ℕ) : Outcome ValidationError ℕ :=
  countCpusFrom node.children count

/-- What the first pass over the root's children collects. -/
structure Collected where
  /-- Regions of the `memory` nodes. -/
  memory : ArrayVec Region maxMemoryRegions
  /-- Regions of all nodes but `memory` and `cpus`. -/
  devices : ArrayVec Region maxDeviceRanges
  /-- Children of the `cpus` nodes. -/
  cpuCount : ℕ

/-- The first pass at one child of the root. -/
def collectChild (paBits : ℕ) (st : Collected) (child : Node) :
    Outcome ValidationError Collected :=
  if topSegment child.name="cpus" then do
    let cpuCount ← countCpus child st.cpuCount
    .ok {st with cpuCount}
  else if topSegment child.name="memory" then do
    let memory ← extractRegs child st.memory paBits .tooManyMemoryRegions
    .ok {st with memory}
  else if (child.property "reg").isSome then do
    let devices ← extractRegs child st.devices paBits .tooManyDeviceRanges
    .ok {st with devices}
  else .ok st

/-- The first pass over the root's children. -/
def collect (paBits : ℕ) : List Node → Collected → Outcome ValidationError Collected
  | [],st => .ok st
  | child::rest,st => do
    let st ← collectChild paBits st child
    collect paBits rest st

/-- No memory region overlaps a device region. -/
def semanticOverlapChecks (memory devices : List Region) : Outcome ValidationError Unit :=
  memory.forM fun m => devices.forM fun d =>
    if regionsOverlap m d then fail .memoryOverlapsDevice else .ok ()

/-- Parse a `cpu-release-addr` of one or two cells. -/
def parseReleaseAddr (bytes : Bytes) : Outcome ValidationError ℕ :=
  if bytes.length=8 ∨ bytes.length=4 then .ok (ofBE bytes)
  else fail .badPropertyShape

/-- The release address of one cpu, if it has one. -/
def validateReleaseAddr (memory devices : List Region) (paBits : ℕ) (cpu : Node) :
    Outcome ValidationError Unit :=
  match cpu.property "cpu-release-addr" with
  | none => .ok ()
  | some bytes => do
    let addr ← parseReleaseAddr bytes
    let target : Region := ⟨addr,8⟩
    validateRegion target paBits
    if devices.any fun d => regionsOverlap target d then fail .cpuReleaseAddrUnsafe
    else if !memory.any fun m => regionContains m target then fail .cpuReleaseAddrUnsafe
    else .ok ()

/-- The second pass: the release address of every cpu. -/
def validateCpuReleaseAddrs (root : Node) (memory devices : List Region) (paBits : ℕ) :
    Outcome ValidationError Unit :=
  root.children.forM fun child =>
    if topSegment child.name≠"cpus" then .ok ()
    else child.children.forM (validateReleaseAddr memory devices paBits)

/-- Validate the surfaces of the merged tree that the host can contribute to. -/
def validateMerged (root : Node) (paBits : ℕ) : Outcome ValidationError Unit := do
  let st ← collect paBits root.children ⟨.empty,.empty,0⟩
  semanticOverlapChecks st.memory.toList st.devices.toList
  validateCpuReleaseAddrs root st.memory.toList st.devices.toList paBits

/-- The addresses of a region. -/
def Region.span (r : Region) : Base.Intervals.Region ℕ := ⟨r.gpa,r.gpa+r.size⟩

/-- What is required of a single region: it is nonempty, its end fits 64 bits and
lies in the address space. -/
structure Region.Valid (r : Region) (paBits : ℕ) : Prop where
  /-- The region is nonempty. -/
  nonempty : 0 < r.size
  /-- The end does not overflow. -/
  fits : r.gpa+r.size<2^64
  /-- The end is in the address space. -/
  inRange : r.gpa+r.size≤2^paBits

/-- The regions of a node's `reg`; none when it has no `reg`. -/
def regs (node : Node) : List Region := ((node.property "reg").map parseRegions).getD []

/-- A node's `reg`, if it has one, is a whole number of valid pairs. -/
def RegValid (paBits : ℕ) (node : Node) : Prop :=
  ∀ bytes, node.property "reg"=some bytes →
    bytes.length%16=0 ∧ ∀ r∈parseRegions bytes, r.Valid paBits

/-- The `cpus` children of the root. -/
def cpusNodes (l : List Node) : List Node := l.filter fun n => decide (topSegment n.name="cpus")

/-- The `memory` children of the root. -/
def memoryNodes (l : List Node) : List Node :=
  l.filter fun n => decide (topSegment n.name="memory")

/-- The other children of the root. -/
def deviceNodes (l : List Node) : List Node :=
  l.filter fun n => decide (topSegment n.name≠"cpus" ∧ topSegment n.name≠"memory")

/-- All memory regions of the tree, in order. -/
def memoryRegions (root : Node) : List Region := (memoryNodes root.children).flatMap regs

/-- All device regions of the tree, in order. -/
def deviceRegions (root : Node) : List Region := (deviceNodes root.children).flatMap regs

/-- Number of children of all `cpus` nodes. -/
def cpuChildren (l : List Node) : ℕ := ((cpusNodes l).map fun n => n.children.length).sum

/-- A release address names eight valid bytes that no device region meets and
one memory region contains. -/
def ReleaseAddrValid (root : Node) (paBits : ℕ) (cpu : Node) : Prop :=
  ∀ bytes, cpu.property "cpu-release-addr"=some bytes →
    (bytes.length=4 ∨ bytes.length=8) ∧ Region.Valid ⟨ofBE bytes,8⟩ paBits ∧
      (∀ d∈deviceRegions root, (Region.span ⟨ofBE bytes,8⟩).Separate d.span) ∧
      ∃ m∈memoryRegions root, (Region.span ⟨ofBE bytes,8⟩).toSet⊆m.span.toSet

/-- What the validator is to decide about a merged tree. -/
structure MergedValid (root : Node) (paBits : ℕ) : Prop where
  /-- There are not too many cpus. -/
  cpus : cpuChildren root.children≤2048
  /-- Every `reg` but those of `cpus` nodes is well formed. -/
  regs : ∀ node∈root.children, topSegment node.name≠"cpus" → RegValid paBits node
  /-- There are not too many memory regions. -/
  memory : (memoryRegions root).length≤32
  /-- There are not too many device regions. -/
  devices : (deviceRegions root).length≤64
  /-- Memory and devices are separate. -/
  separate : ∀ m∈memoryRegions root, ∀ d∈deviceRegions root, m.span.Separate d.span
  /-- Every release address is safe. -/
  release : ∀ node∈cpusNodes root.children, ∀ cpu∈node.children, ReleaseAddrValid root paBits cpu

/-- The check of one region decides validity. -/
theorem validateRegion_ok {r : Region} {paBits : ℕ} (hpa : paBits<64) :
    validateRegion r paBits=.ok () ↔ r.Valid paBits := by
  unfold validateRegion
  by_cases hsize : r.size=0
  · rw [if_pos hsize]
    refine ⟨fun h => absurd h fail_ne_ok,fun h => ?_⟩
    exact absurd h.nonempty (by omega)
  · rw [if_neg hsize]
    simp only [bind_ok,okOr_ok,unwrap_ok,Region.end,addWord_some,bitWord_some]
    constructor
    · rintro ⟨stop,⟨rfl,hlt⟩,bound,⟨_,rfl⟩,h⟩
      split at h
      · exact absurd h fail_ne_ok
      · exact ⟨by omega,hlt,by omega⟩
    · intro h
      refine ⟨_,⟨rfl,h.fits⟩,_,⟨hpa,rfl⟩,?_⟩
      rw [if_neg (by have := h.inRange; omega)]

/-- On valid regions the overlap test decides separation. -/
theorem regionsOverlap_false {a b : Region} {paBits : ℕ} (ha : a.Valid paBits)
    (hb : b.Valid paBits) : regionsOverlap a b=false ↔ a.span.Separate b.span := by
  have haEnd : a.end=some (a.gpa+a.size) := addWord_some.mpr ⟨rfl,ha.fits⟩
  have hbEnd : b.end=some (b.gpa+b.size) := addWord_some.mpr ⟨rfl,hb.fits⟩
  have ha0 := ha.nonempty
  have hb0 := hb.nonempty
  rw [←Base.Intervals.overlaps_false_iff (r := a.span) (s := b.span)
    (by dsimp only [Region.span]; omega) (by dsimp only [Region.span]; omega)]
  unfold regionsOverlap
  rw [haEnd,hbEnd]
  rfl

/-- On valid regions the containment test decides inclusion. -/
theorem regionContains_true {outer inner : Region} {paBits : ℕ} (ho : outer.Valid paBits)
    (hi : inner.Valid paBits) :
    regionContains outer inner=true ↔ inner.span.toSet⊆outer.span.toSet := by
  have hoEnd : outer.end=some (outer.gpa+outer.size) := addWord_some.mpr ⟨rfl,ho.fits⟩
  have hiEnd : inner.end=some (inner.gpa+inner.size) := addWord_some.mpr ⟨rfl,hi.fits⟩
  have hi0 := hi.nonempty
  unfold regionContains
  rw [hoEnd,hiEnd]
  dsimp only [Base.Intervals.Region.toSet,Region.span]
  rw [Bool.and_eq_true,decide_eq_true_eq,decide_eq_true_eq,Set.Ico_subset_Ico_iff (by omega)]

/-- Pushing regions succeeds exactly when all are valid and there is room. -/
theorem pushRegions_ok {cap paBits : ℕ} (hpa : paBits<64) {err : ValidationError}
    {rs : List Region} {v w : ArrayVec Region cap} :
    pushRegions paBits err rs v=.ok w ↔
      (∀ r∈rs, r.Valid paBits) ∧ w.toList=v.toList++rs := by
  induction rs generalizing v with
  | nil =>
    rw [pushRegions,List.append_nil]
    constructor
    · intro h
      cases h
      exact ⟨fun r hr => absurd hr List.not_mem_nil,rfl⟩
    · intro h
      rw [ArrayVec.ext_toList h.2]
  | cons r rs ih =>
    unfold pushRegions
    simp only [bind_ok,okOr_ok,ih,List.forall_mem_cons,ArrayVec.tryPush_some]
    constructor
    · rintro ⟨u,hr,v',hpush,hrs,hw⟩
      refine ⟨⟨(validateRegion_ok hpa).mp hr,hrs⟩,?_⟩
      rw [hw,hpush,List.append_assoc,List.singleton_append]
    · rintro ⟨⟨hr,hrs⟩,hw⟩
      have hroom : (v.toList++[r]).length ≤ cap := by
        have hbound := w.bound
        rw [hw,List.length_append,List.length_cons] at hbound
        rw [List.length_append,List.length_singleton]
        omega
      refine ⟨(),(validateRegion_ok hpa).mpr hr,⟨v.toList++[r],hroom⟩,rfl,hrs,?_⟩
      rw [hw,List.append_assoc,List.singleton_append]

/-- Extracting a node's regions succeeds exactly when its `reg` is well formed
and there is room. -/
theorem extractRegs_ok {cap paBits : ℕ} (hpa : paBits<64) {err : ValidationError} {node : Node}
    {v w : ArrayVec Region cap} : extractRegs node v paBits err=.ok w ↔
      RegValid paBits node ∧ w.toList=v.toList++regs node := by
  unfold extractRegs RegValid regs
  cases hreg : node.property "reg" with
  | none =>
    dsimp only [Option.map_none,Option.getD_none]
    rw [List.append_nil]
    constructor
    · intro h
      cases h
      exact ⟨fun _ h => (by cases h),rfl⟩
    · intro h
      rw [ArrayVec.ext_toList h.2]
  | some bytes =>
    dsimp only [Option.map_some,Option.getD_some]
    by_cases hshape : bytes.length%16=0
    · rw [if_neg (by omega),pushRegions_ok hpa]
      constructor
      · rintro ⟨hvalid,hw⟩
        refine ⟨fun bytes' h => ?_,hw⟩
        cases h
        exact ⟨hshape,hvalid⟩
      · rintro ⟨hvalid,hw⟩
        exact ⟨(hvalid bytes rfl).2,hw⟩
    · rw [if_pos (by omega)]
      refine ⟨fun h => absurd h fail_ne_ok,fun h => ?_⟩
      exact absurd (h.1 bytes rfl).1 hshape

/-- Counting succeeds exactly when the bound is respected. -/
theorem countCpusFrom_ok {l : List Node} {count count' : ℕ} (hcount : count≤2048) :
    countCpusFrom l count=.ok count' ↔ count'=count+l.length ∧ count'≤2048 := by
  induction l generalizing count with
  | nil =>
    simp only [countCpusFrom,Except.ok.injEq,List.length_nil]
    omega
  | cons n l ih =>
    unfold countCpusFrom
    simp only [bind_ok,okOr_ok,addWord_some]
    rw [List.length_cons]
    constructor
    · rintro ⟨c,⟨rfl,_⟩,h⟩
      split at h
      · exact absurd h fail_ne_ok
      · rename_i hbound
        dsimp only [maxCpus] at hbound
        rw [ih (by omega)] at h
        omega
    · rintro ⟨rfl,hle⟩
      refine ⟨_,⟨rfl,by omega⟩,?_⟩
      rw [if_neg (by dsimp only [maxCpus]; omega),ih (by omega)]
      omega

/-- What a pass over the nodes `l` adds to the collected regions. -/
structure CollectedFrom (l : List Node) (st st' : Collected) : Prop where
  /-- Memory regions are appended in order. -/
  memory : st'.memory.toList=st.memory.toList++(memoryNodes l).flatMap regs
  /-- Device regions are appended in order. -/
  devices : st'.devices.toList=st.devices.toList++(deviceNodes l).flatMap regs
  /-- The children of `cpus` nodes are counted. -/
  cpuCount : st'.cpuCount=st.cpuCount+cpuChildren l
  /-- The bound on them is respected. -/
  bound : st'.cpuCount≤2048

/-- Collected regions are determined by the state before and the nodes. -/
theorem CollectedFrom.unique {l : List Node} {st a b : Collected} (ha : CollectedFrom l st a)
    (hb : CollectedFrom l st b) : a=b := by
  have hm : a.memory=b.memory := ArrayVec.ext_toList (ha.memory.trans hb.memory.symm)
  have hd : a.devices=b.devices := ArrayVec.ext_toList (ha.devices.trans hb.devices.symm)
  have hc : a.cpuCount=b.cpuCount := ha.cpuCount.trans hb.cpuCount.symm
  cases a
  cases b
  simp_all

/-- A `cpus` child only adds to the count. -/
theorem collectChild_cpus {paBits : ℕ} {st st' : Collected} {child : Node}
    (hst : st.cpuCount≤2048) (hseg : topSegment child.name="cpus") :
    collectChild paBits st child=.ok st' ↔ CollectedFrom [child] st st' := by
  have hm : memoryNodes [child]=[] := by simp [memoryNodes,hseg]
  have hd : deviceNodes [child]=[] := by simp [deviceNodes,hseg]
  have hc : cpuChildren [child]=child.children.length := by simp [cpuChildren,cpusNodes,hseg]
  unfold collectChild
  rw [if_pos hseg]
  simp only [bind_ok,countCpus,countCpusFrom_ok hst,Except.ok.injEq]
  constructor
  · rintro ⟨count,⟨rfl,hle⟩,rfl⟩
    exact ⟨by rw [hm]; simp,by rw [hd]; simp,by rw [hc],hle⟩
  · intro h
    refine ⟨st'.cpuCount,⟨by rw [h.cpuCount,hc],h.bound⟩,?_⟩
    refine CollectedFrom.unique ?_ h
    exact ⟨by rw [hm]; simp,by rw [hd]; simp,h.cpuCount,h.bound⟩

/-- A `memory` child only adds its regions to the memory. -/
theorem collectChild_memory {paBits : ℕ} {st st' : Collected} {child : Node} (hpa : paBits<64)
    (hst : st.cpuCount≤2048) (hseg : topSegment child.name="memory") :
    collectChild paBits st child=.ok st' ↔
      RegValid paBits child ∧ CollectedFrom [child] st st' := by
  have hne : topSegment child.name≠"cpus" := by
    rw [hseg]
    decide
  have hm : memoryNodes [child]=[child] := by simp [memoryNodes,hseg]
  have hd : deviceNodes [child]=[] := by simp [deviceNodes,hseg]
  have hc : cpuChildren [child]=0 := by simp [cpuChildren,cpusNodes,hseg]
  unfold collectChild
  rw [if_neg hne,if_pos hseg]
  simp only [bind_ok,extractRegs_ok hpa,Except.ok.injEq]
  constructor
  · rintro ⟨memory,⟨hvalid,hmemory⟩,rfl⟩
    exact ⟨hvalid,by rw [hm]; simpa using hmemory,by rw [hd]; simp,by rw [hc]; simp,hst⟩
  · rintro ⟨hvalid,h⟩
    have hmemory : st'.memory.toList=st.memory.toList++regs child := by
      have := h.memory
      rw [hm] at this
      simpa using this
    refine ⟨st'.memory,⟨hvalid,hmemory⟩,?_⟩
    refine CollectedFrom.unique ?_ h
    exact ⟨h.memory,by rw [hd]; simp,by rw [hc]; simp,hst⟩

/-- Any other child only adds its regions, if it has some, to the devices. -/
theorem collectChild_device {paBits : ℕ} {st st' : Collected} {child : Node} (hpa : paBits<64)
    (hst : st.cpuCount≤2048) (hcpus : topSegment child.name≠"cpus")
    (hmemory : topSegment child.name≠"memory") :
    collectChild paBits st child=.ok st' ↔
      RegValid paBits child ∧ CollectedFrom [child] st st' := by
  have hm : memoryNodes [child]=[] := by simp [memoryNodes,hmemory]
  have hd : deviceNodes [child]=[child] := by simp [deviceNodes,hcpus,hmemory]
  have hc : cpuChildren [child]=0 := by simp [cpuChildren,cpusNodes,hcpus]
  unfold collectChild
  rw [if_neg hcpus,if_neg hmemory]
  have hadd : ∀ devices : ArrayVec Region maxDeviceRanges,
      devices.toList=st.devices.toList++regs child →
      CollectedFrom [child] st {st with devices} := by
    intro devices hdevices
    exact ⟨by rw [hm]; simp,by rw [hd]; simpa using hdevices,by rw [hc]; simp,hst⟩
  split
  · simp only [bind_ok,extractRegs_ok hpa,Except.ok.injEq]
    constructor
    · rintro ⟨devices,⟨hvalid,hdevices⟩,rfl⟩
      exact ⟨hvalid,hadd devices hdevices⟩
    · rintro ⟨hvalid,h⟩
      have hdevices : st'.devices.toList=st.devices.toList++regs child := by
        have := h.devices
        rw [hd] at this
        simpa using this
      exact ⟨st'.devices,⟨hvalid,hdevices⟩,(hadd _ hdevices).unique h⟩
  · rename_i hreg
    have hnone : child.property "reg"=none := by simpa using hreg
    have hregs : regs child=[] := by rw [regs,hnone]; rfl
    have hsame : CollectedFrom [child] st st := by
      have := hadd st.devices (by rw [hregs,List.append_nil])
      exact this
    constructor
    · intro h
      cases h
      refine ⟨fun bytes hbytes => ?_,hsame⟩
      rw [hnone] at hbytes
      cases hbytes
    · rintro ⟨_,h⟩
      rw [hsame.unique h]

/-- One step of the first pass: it succeeds exactly when the child's `reg` is in
order and everything it adds fits. -/
theorem collectChild_ok {paBits : ℕ} {st st' : Collected} {child : Node} (hpa : paBits<64)
    (hst : st.cpuCount≤2048) : collectChild paBits st child=.ok st' ↔
      (topSegment child.name≠"cpus" → RegValid paBits child) ∧
        CollectedFrom [child] st st' := by
  by_cases hcpus : topSegment child.name="cpus"
  · rw [collectChild_cpus hst hcpus]
    exact ⟨fun h => ⟨fun hne => absurd hcpus hne,h⟩,fun h => h.2⟩
  · have hiff : collectChild paBits st child=.ok st' ↔
        RegValid paBits child ∧ CollectedFrom [child] st st' := by
      by_cases hmemory : topSegment child.name="memory"
      · exact collectChild_memory hpa hst hmemory
      · exact collectChild_device hpa hst hcpus hmemory
    rw [hiff]
    exact ⟨fun h => ⟨fun _ => h.1,h.2⟩,fun h => ⟨h.1 hcpus,h.2⟩⟩

/-- The memory regions of a list of nodes, head first. -/
theorem memoryNodes_cons (child : Node) (l : List Node) : (memoryNodes (child::l)).flatMap regs=
    (memoryNodes [child]).flatMap regs++(memoryNodes l).flatMap regs := by
  rw [←List.flatMap_append,memoryNodes,memoryNodes,memoryNodes,←List.filter_append]
  rfl

/-- The device regions of a list of nodes, head first. -/
theorem deviceNodes_cons (child : Node) (l : List Node) : (deviceNodes (child::l)).flatMap regs=
    (deviceNodes [child]).flatMap regs++(deviceNodes l).flatMap regs := by
  rw [←List.flatMap_append,deviceNodes,deviceNodes,deviceNodes,←List.filter_append]
  rfl

/-- The cpus of a list of nodes, head first. -/
theorem cpuChildren_cons (child : Node) (l : List Node) :
    cpuChildren (child::l)=cpuChildren [child]+cpuChildren l := by
  rw [cpuChildren,cpuChildren,cpuChildren,←List.sum_append,←List.map_append,cpusNodes,cpusNodes,
    cpusNodes,←List.filter_append]
  rfl

/-- Regions of a list of nodes are those of its head and of its tail. -/
theorem CollectedFrom.cons {child : Node} {l : List Node} {st mid st' : Collected}
    (hhead : CollectedFrom [child] st mid) :
    CollectedFrom l mid st' ↔ CollectedFrom (child::l) st st' := by
  have hmemory : mid.memory.toList++(memoryNodes l).flatMap regs=
      st.memory.toList++(memoryNodes (child::l)).flatMap regs := by
    rw [hhead.memory,memoryNodes_cons child l,List.append_assoc]
  have hdevices : mid.devices.toList++(deviceNodes l).flatMap regs=
      st.devices.toList++(deviceNodes (child::l)).flatMap regs := by
    rw [hhead.devices,deviceNodes_cons child l,List.append_assoc]
  have hcount : mid.cpuCount+cpuChildren l=st.cpuCount+cpuChildren (child::l) := by
    rw [hhead.cpuCount,cpuChildren_cons child l,Nat.add_assoc]
  constructor
  · intro h
    exact ⟨h.memory.trans hmemory,h.devices.trans hdevices,h.cpuCount.trans hcount,h.bound⟩
  · intro h
    exact ⟨h.memory.trans hmemory.symm,h.devices.trans hdevices.symm,
      h.cpuCount.trans hcount.symm,h.bound⟩

/-- What fits for a list of nodes fits for its head. -/
theorem CollectedFrom.exists_head {child : Node} {l : List Node} {st st' : Collected}
    (h : CollectedFrom (child::l) st st') : ∃ mid, CollectedFrom [child] st mid := by
  have hmemory : (st.memory.toList++(memoryNodes [child]).flatMap regs).length≤
      maxMemoryRegions := by
    refine le_trans ?_ st'.memory.bound
    rw [h.memory,memoryNodes_cons child l]
    simp only [List.length_append]
    omega
  have hdevices : (st.devices.toList++(deviceNodes [child]).flatMap regs).length≤
      maxDeviceRanges := by
    refine le_trans ?_ st'.devices.bound
    rw [h.devices,deviceNodes_cons child l]
    simp only [List.length_append]
    omega
  have hcount : st.cpuCount+cpuChildren [child]≤2048 := by
    have hbound := h.bound
    rw [h.cpuCount,cpuChildren_cons child l] at hbound
    omega
  exact ⟨⟨⟨_,hmemory⟩,⟨_,hdevices⟩,st.cpuCount+cpuChildren [child]⟩,⟨rfl,rfl,rfl,hcount⟩⟩

/-- The first pass succeeds exactly when every `reg` is in order and everything
fits; it then has collected all regions in order. -/
theorem collect_ok {paBits : ℕ} (hpa : paBits<64) {l : List Node} {st st' : Collected}
    (hst : st.cpuCount≤2048) : collect paBits l st=.ok st' ↔
      (∀ node∈l, topSegment node.name≠"cpus" → RegValid paBits node) ∧
        CollectedFrom l st st' := by
  induction l generalizing st with
  | nil =>
    have hsame : CollectedFrom [] st st := by
      refine ⟨?_,?_,rfl,hst⟩ <;> simp [memoryNodes,deviceNodes]
    rw [collect]
    constructor
    · intro h
      cases h
      exact ⟨fun node hn => absurd hn List.not_mem_nil,hsame⟩
    · intro h
      rw [hsame.unique h.2]
  | cons child l ih =>
    unfold collect
    rw [bind_ok,List.forall_mem_cons]
    constructor
    · rintro ⟨mid,hchild,hrest⟩
      obtain ⟨hvalid,hhead⟩ := (collectChild_ok hpa hst).mp hchild
      obtain ⟨hvalids,htail⟩ := (ih hhead.bound).mp hrest
      exact ⟨⟨hvalid,hvalids⟩,hhead.cons.mp htail⟩
    · rintro ⟨⟨hvalid,hvalids⟩,h⟩
      obtain ⟨mid,hhead⟩ := h.exists_head
      exact ⟨mid,(collectChild_ok hpa hst).mpr ⟨hvalid,hhead⟩,
        (ih hhead.bound).mpr ⟨hvalids,hhead.cons.mpr h⟩⟩

/-- Every region of a well formed `reg` is valid. -/
theorem regs_valid {paBits : ℕ} {node : Node} (h : RegValid paBits node) :
    ∀ r∈regs node, r.Valid paBits := by
  unfold regs
  cases hreg : node.property "reg" with
  | none => exact fun r hr => absurd hr List.not_mem_nil
  | some bytes => exact (h bytes hreg).2

/-- When every `reg` is in order, all collected regions are valid. -/
theorem regions_valid {paBits : ℕ} {root : Node}
    (h : ∀ node∈root.children, topSegment node.name≠"cpus" → RegValid paBits node) :
    (∀ r∈memoryRegions root, r.Valid paBits) ∧ ∀ r∈deviceRegions root, r.Valid paBits := by
  constructor
  · intro r hr
    obtain ⟨node,hnode,hr⟩ := List.mem_flatMap.mp hr
    obtain ⟨hmem,hseg⟩ := List.mem_filter.mp hnode
    refine regs_valid (h node hmem ?_) r hr
    rw [of_decide_eq_true hseg]
    decide
  · intro r hr
    obtain ⟨node,hnode,hr⟩ := List.mem_flatMap.mp hr
    obtain ⟨hmem,hseg⟩ := List.mem_filter.mp hnode
    exact regs_valid (h node hmem (of_decide_eq_true hseg).1) r hr

/-- The overlap checks decide that memory and devices are separate. -/
theorem semanticOverlapChecks_ok {paBits : ℕ} {memory devices : List Region}
    (hm : ∀ r∈memory, r.Valid paBits) (hd : ∀ r∈devices, r.Valid paBits) :
    semanticOverlapChecks memory devices=.ok () ↔
      ∀ m∈memory, ∀ d∈devices, m.span.Separate d.span := by
  unfold semanticOverlapChecks
  rw [forM_ok]
  refine forall₂_congr fun m hmem => ?_
  rw [forM_ok]
  refine forall₂_congr fun d hdev => ?_
  rw [←regionsOverlap_false (hm m hmem) (hd d hdev)]
  cases regionsOverlap m d <;> simp [fail]

/-- The check of a cpu decides that its release address is safe. -/
theorem validateReleaseAddr_ok {paBits : ℕ} (hpa : paBits<64) {root cpu : Node}
    (hm : ∀ r∈memoryRegions root, r.Valid paBits) (hd : ∀ r∈deviceRegions root, r.Valid paBits) :
    validateReleaseAddr (memoryRegions root) (deviceRegions root) paBits cpu=.ok () ↔
      ReleaseAddrValid root paBits cpu := by
  unfold validateReleaseAddr ReleaseAddrValid
  cases hprop : cpu.property "cpu-release-addr" with
  | none => exact ⟨fun _ bytes h => (by cases h),fun _ => rfl⟩
  | some bytes =>
    simp only [Option.some.injEq,forall_eq',bind_ok,parseReleaseAddr]
    by_cases hlen : bytes.length=8 ∨ bytes.length=4
    · rw [if_pos hlen]
      simp only [Except.ok.injEq,exists_eq_left',validateRegion_ok hpa]
      have hguard : Region.Valid ⟨ofBE bytes,8⟩ paBits →
          ((if (deviceRegions root).any fun d => regionsOverlap ⟨ofBE bytes,8⟩ d then
              fail .cpuReleaseAddrUnsafe
            else if !(memoryRegions root).any fun m => regionContains m ⟨ofBE bytes,8⟩ then
              fail .cpuReleaseAddrUnsafe
            else .ok () : Outcome ValidationError Unit)=.ok () ↔
          (∀ d∈deviceRegions root, (Region.span ⟨ofBE bytes,8⟩).Separate d.span) ∧
            ∃ m∈memoryRegions root, (Region.span ⟨ofBE bytes,8⟩).toSet⊆m.span.toSet) := by
        intro hvalid
        have hdev : ((deviceRegions root).any fun d => regionsOverlap ⟨ofBE bytes,8⟩ d)=false ↔
            ∀ d∈deviceRegions root, (Region.span ⟨ofBE bytes,8⟩).Separate d.span := by
          rw [List.any_eq_false]
          refine forall₂_congr fun d hmem => ?_
          rw [←regionsOverlap_false hvalid (hd d hmem),Bool.not_eq_true]
        have hmem : ((memoryRegions root).any fun m => regionContains m ⟨ofBE bytes,8⟩)=true ↔
            ∃ m∈memoryRegions root, (Region.span ⟨ofBE bytes,8⟩).toSet⊆m.span.toSet := by
          rw [List.any_eq_true]
          refine exists_congr fun m => and_congr_right fun hmem => ?_
          rw [regionContains_true (hm m hmem) hvalid]
        rw [←hdev,←hmem]
        cases (deviceRegions root).any fun d => regionsOverlap ⟨ofBE bytes,8⟩ d <;>
          cases (memoryRegions root).any fun m => regionContains m ⟨ofBE bytes,8⟩ <;> simp [fail]
      constructor
      · rintro ⟨u,hvalid,h⟩
        exact ⟨hlen.symm,hvalid,(hguard hvalid).mp h⟩
      · rintro ⟨_,hvalid,h⟩
        exact ⟨(),hvalid,(hguard hvalid).mpr h⟩
    · rw [if_neg hlen]
      constructor
      · rintro ⟨addr,h,_⟩
        exact absurd h fail_ne_ok
      · rintro ⟨h,_⟩
        exact absurd h.symm hlen

/-- The second pass decides that every release address is safe. -/
theorem validateCpuReleaseAddrs_ok {paBits : ℕ} (hpa : paBits<64) {root : Node}
    (hm : ∀ r∈memoryRegions root, r.Valid paBits) (hd : ∀ r∈deviceRegions root, r.Valid paBits) :
    validateCpuReleaseAddrs root (memoryRegions root) (deviceRegions root) paBits=.ok () ↔
      ∀ node∈cpusNodes root.children, ∀ cpu∈node.children, ReleaseAddrValid root paBits cpu := by
  unfold validateCpuReleaseAddrs cpusNodes
  rw [forM_ok]
  simp only [List.mem_filter,decide_eq_true_eq,and_imp]
  refine forall₂_congr fun node hnode => ?_
  by_cases hseg : topSegment node.name="cpus"
  · rw [if_neg (not_not_intro hseg),forM_ok]
    simp only [hseg,forall_const]
    exact forall₂_congr fun cpu _ => validateReleaseAddr_ok hpa hm hd
  · rw [if_pos hseg]
    exact ⟨fun _ h => absurd h hseg,fun _ => rfl⟩

/-- A tree that meets the specification of the validator is accepted. -/
theorem MergedValid.accepted {paBits : ℕ} (hpa : paBits<64) {root : Node}
    (h : MergedValid root paBits) : validateMerged root paBits=.ok () := by
  obtain ⟨hm,hd⟩ := regions_valid h.regs
  have hcollect : collect paBits root.children ⟨.empty,.empty,0⟩=.ok
      ⟨⟨memoryRegions root,h.memory⟩,⟨deviceRegions root,h.devices⟩,cpuChildren root.children⟩ := by
    refine (collect_ok hpa (by simp)).mpr ⟨h.regs,?_⟩
    exact ⟨by simp [memoryRegions],by simp [deviceRegions],by simp,h.cpus⟩
  rw [validateMerged,ok_bind hcollect,ok_bind ((semanticOverlapChecks_ok hm hd).mpr h.separate)]
  exact (validateCpuReleaseAddrs_ok hpa hm hd).mpr h.release

/-- The validator accepts exactly the trees that meet its specification. -/
theorem validateMerged_ok_iff {paBits : ℕ} (hpa : paBits<64) (root : Node) :
    validateMerged root paBits=.ok () ↔ MergedValid root paBits := by
  unfold validateMerged
  rw [bind_ok]
  constructor
  · rintro ⟨st,hcollect,h⟩
    obtain ⟨u,hoverlap,hrelease⟩ := bind_ok.mp h
    obtain ⟨hregs,hst⟩ := (collect_ok hpa (by simp)).mp hcollect
    obtain ⟨hm,hd⟩ := regions_valid hregs
    have hmemory : st.memory.toList=memoryRegions root := hst.memory
    have hdevices : st.devices.toList=deviceRegions root := hst.devices
    have hcount : st.cpuCount=cpuChildren root.children := by simpa using hst.cpuCount
    rw [hmemory,hdevices] at hoverlap hrelease
    constructor
    · rw [←hcount]
      exact hst.bound
    · exact hregs
    · rw [←hmemory]
      exact st.memory.bound
    · rw [←hdevices]
      exact st.devices.bound
    · exact (semanticOverlapChecks_ok hm hd).mp hoverlap
    · exact (validateCpuReleaseAddrs_ok hpa hm hd).mp hrelease
  · intro h
    exact bind_ok.mp (h.accepted hpa)

/-- A tree with 1 MiB of memory, one device at `0x9000000` and a cpu that is
released at `0x8000`. -/
def sampleTree : Node :=
  .mk "" [] [
    .mk "cpus" [] [.mk "cpu@0" [⟨"cpu-release-addr",[0,0,0x80,0]⟩] []],
    .mk "memory@0" [⟨"reg",beBytes 8 0++beBytes 8 0x100000⟩] [],
    .mk "serial@9000000" [⟨"reg",beBytes 8 0x9000000++beBytes 8 0x1000⟩] []]

/-- The sample tree is accepted, so it meets the specification. -/
theorem validateMerged_ok_iff_sample : MergedValid sampleTree 36 :=
  (validateMerged_ok_iff (by decide) sampleTree).mp (by decide)

end Arma.Tatu.Validate
