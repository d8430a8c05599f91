import Mathlib.Tactic.Common
import Arma.Acpi.Layout
import Arma.Acpi.Sdt

/-!
# Affinities and distances

The affinity table has an entry for every cpu of the cache and one for every
region of a memory node. The distance table is a square matrix over the domains,
filled from triples that may contradict neither the diagonal nor each other.
-/

namespace Arma.Acpi.Numa

open Base.ByteString Base.Checked Base.Writer Devtree Dtb Aml Layout Sdt

/-- Flags of a cpu: its affinity is meaningful. -/
def cpuAffinityFlags : DtStatus → ℕ
  | .okay => 1
  | .disabled => 1
  | .reserved => 0
  | .fail => 0

/-- Flags of a memory region: it is enabled, and it is hot-pluggable. -/
def memoryAffinityFlags (status : DtStatus) (hotpluggable : Bool) : ℕ :=
  (if status=.okay then 1 else 0)+
    (if hotpluggable=true ∧ (status=.okay ∨ status=.disabled) then 2 else 0)

/-- The short entry of a cpu. -/
def processorLocalApicAffinity (apicId proximityDomain flags : ℕ) : Bytes :=
  [0,16,UInt8.ofNat proximityDomain,UInt8.ofNat apicId]++(leBytes 4 flags++([0]++
    (leBytes 3 (proximityDomain/256)++leBytes 4 0)))

/-- The long entry of a cpu. -/
def x2ApicAffinity (apicId proximityDomain flags : ℕ) : Bytes :=
  [2,24,0,0]++(leBytes 4 proximityDomain++(leBytes 4 apicId++(leBytes 4 flags++
    (leBytes 4 0++zeros 4))))

/-- The entry of a memory region; addresses are split into halves. -/
def memoryAffinity (proximityDomain base length flags : ℕ) : Bytes :=
  [1,40]++(leBytes 4 proximityDomain++(leBytes 2 0++(leBytes 4 (base%2^32)++
    (leBytes 4 (base/2^32%2^32)++(leBytes 4 (length%2^32)++(leBytes 4 (length/2^32%2^32)++
      (leBytes 4 0++(leBytes 4 flags++leBytes 8 0))))))))

/-- Bytes of the entry of a memory region. -/
def memoryAffinitySize : ℕ := 40

/-- Bytes of the entry of a cpu. -/
def cpuAffinitySizeForApic (apicId : ℕ) : ℕ := if apicId≤xapicIdMax then 16 else 24

/-- Bytes of the header of the affinity table. -/
def sratHeaderSize : ℕ := 48

/-- Bytes of the affinity table. -/
def sratTotalSize (memoryRegionCount cpuEntriesBytes : ℕ) : Outcome DtbError ℕ := do
  let memBytes ← okOr (mulWord 64 memoryRegionCount memoryAffinitySize) .internal
  let s ← okOr (addWord 64 sratHeaderSize cpuEntriesBytes) .internal
  okOr (addWord 64 s memBytes) .internal

/-- The header of the affinity table. -/
def sratHeader (oem : OemIdentity) (length : ℕ) : Bytes :=
  (SdtHeader.new ⟨ascii "SRAT",rfl⟩ length 3 oem).asBytes++(leBytes 4 1++leBytes 8 0)

/-- The entry of a cpu in a domain. -/
def cpuAffinity (e : CpuEntry) (pd : ℕ) : Bytes :=
  if e.apicId≤xapicIdMax then processorLocalApicAffinity e.apicId pd (cpuAffinityFlags e.status)
  else x2ApicAffinity e.apicId pd (cpuAffinityFlags e.status)

/-- Write the entry of a cpu in a domain. -/
def writeCpuAffinity (e : CpuEntry) (pd : ℕ) (c : Cursor) : Outcome DtbError Cursor :=
  if e.apicId≤xapicIdMax then do
    let apicId ← okOr (narrow 8 e.apicId) .internal
    writeBytes (processorLocalApicAffinity apicId pd (cpuAffinityFlags e.status)) c
  else writeBytes (x2ApicAffinity e.apicId pd (cpuAffinityFlags e.status)) c

/-- Write the entries of all cpus. -/
def writeCpuAffinities : List CpuEntry → Emitter
  | [],c => .ok c
  | e::rest,c => do
    let pd ← okOr e.numa (.partialNuma .cpuUntagged)
    let c ← writeCpuAffinity e pd c
    writeCpuAffinities rest c

/-- The entries of all cpus. -/
def cpuAffinities (es : List CpuEntry) : Option Bytes :=
  catAll (es.map fun e => e.numa.map (cpuAffinity e))

/-- Write the entries of memory regions. -/
def writeRegions (pd flags : ℕ) : List (ℕ×ℕ) → Emitter
  | [],c => .ok c
  | r::rest,c => do
    let c ← writeBytes (memoryAffinity pd r.1 r.2 flags) c
    writeRegions pd flags rest c

/-- The memory nodes. -/
def memories (kids : List DtbNode) : List DtbNode := kids.filter fun c => baseNameIs c.name "memory"

/-- A node of another name is no memory node. -/
theorem memories_skip {child : DtbNode} {rest : List DtbNode}
    (h : baseNameIs child.name "memory"=false) : memories (child::rest)=memories rest :=
  List.filter_cons_of_neg (p := fun c : DtbNode => baseNameIs c.name "memory") (by rw [h]; decide)

/-- A node of that name is one. -/
theorem memories_cons {child : DtbNode} {rest : List DtbNode}
    (h : baseNameIs child.name "memory"=true) : memories (child::rest)=child::memories rest :=
  List.filter_cons_of_pos (p := fun c : DtbNode => baseNameIs c.name "memory") h

/-- The entry of a cpu is written. -/
theorem emits_writeCpuAffinity (e : CpuEntry) (pd : ℕ) :
    Emits (writeCpuAffinity e pd) (some (cpuAffinity e pd)) := by
  unfold writeCpuAffinity cpuAffinity
  split
  · rename_i h
    have hmax : xapicIdMax=254 := rfl
    rw [show narrow 8 e.apicId=some e.apicId from if_pos (by omega)]
    exact emits_writeBytes _
  · exact emits_writeBytes _

/-- The entries of all cpus are written. -/
theorem emits_writeCpuAffinities (es : List CpuEntry) :
    Emits (writeCpuAffinities es) (cpuAffinities es) := by
  induction es with
  | nil => exact emits_nil
  | cons e rest ih =>
    have h := Emits.after (x := okOr e.numa (DtbError.partialNuma .cpuUntagged))
      (fun pd _ => (emits_writeCpuAffinity e pd).seq ih)
    rw [value_okOr] at h
    have hstring : (e.numa.bind fun pd => cat (some (cpuAffinity e pd)) (cpuAffinities rest))=
        cpuAffinities (e::rest) := by
      rw [cpuAffinities,cpuAffinities,List.map_cons,catAll]
      cases e.numa <;> rfl
    rw [hstring] at h
    exact h

/-- Bytes of the entries of all cpus. -/
theorem length_cpuAffinities {es : List CpuEntry} {out : Bytes} (h : cpuAffinities es=some out) :
    out.length=(es.map fun e => cpuAffinitySizeForApic e.apicId).sum := by
  refine length_catAll (fun e => cpuAffinitySizeForApic e.apicId) (fun e _ out hout => ?_) h
  obtain ⟨pd,_,rfl⟩ := Option.map_eq_some_iff.mp hout
  unfold cpuAffinity cpuAffinitySizeForApic
  split <;> rfl

/-- The entries of memory regions are written. -/
theorem emits_writeRegions (pd flags : ℕ) (regs : List (ℕ×ℕ)) : Emits (writeRegions pd flags regs)
    (some (regs.flatMap fun r => memoryAffinity pd r.1 r.2 flags)) := by
  induction regs with
  | nil => exact emits_nil
  | cons r rest ih => exact (emits_writeBytes _).seq ih

/-- Bytes of the header of the distance table. -/
def slitHeaderSize : ℕ := 44

/-- Bytes of the distance table. -/
def slitTotalSize (n : ℕ) : Outcome DtbError ℕ := do
  let matrixBytes ← okOr (mulWord 64 n n) .internal
  okOr (addWord 64 slitHeaderSize matrixBytes) .internal

/-- The header of the distance table. -/
def slitHeader (oem : OemIdentity) (n length : ℕ) : Bytes :=
  (SdtHeader.new ⟨ascii "SLIT",rfl⟩ length 1 oem).asBytes++leBytes 8 n

/-- The matrix before any triple: ten on the diagonal, zero for unwritten. -/
def initialMatrix (n : ℕ) : Bytes :=
  (List.range n).foldl (fun m i => m.set (i*n+i) 10) (zeros (n*n))

/-- The error of a malformed matrix. -/
def malformedMatrix : DtbError := .malformedProperty .distanceMap "distance-matrix"

/-- The error of a distance that is no byte. -/
def distanceRange : DtbError := .valueOutOfRange .distanceMap "distance-matrix"

/-- Enter one triple: origin, destination and distance. -/
def applyTriple (domains : Domains) (m : Bytes) (origin dest v : ℕ) : Outcome DtbError Bytes := do
  let n := domains.toList.length
  let i ← okOr (indexOf domains origin) malformedMatrix
  let j ← okOr (indexOf domains dest) malformedMatrix
  let d ← okOr (narrow 8 v) distanceRange
  if i=j then
    if d≠10 then fail malformedMatrix else .ok m
  else if d<10 then fail malformedMatrix
  else
    let existingIj := m.getD (i*n+j) 0
    let existingJi := m.getD (j*n+i) 0
    if (existingIj≠0 ∧ existingIj≠UInt8.ofNat d) ∨ (existingJi≠0 ∧ existingJi≠UInt8.ofNat d) then
      fail malformedMatrix
    else .ok ((m.set (i*n+j) (UInt8.ofNat d)).set (j*n+i) (UInt8.ofNat d))

/-- Enter all triples. -/
def applyCells (domains : Domains) : List ℕ → Bytes → Outcome DtbError Bytes
  | [],m => .ok m
  | a::b::v::rest,m => do
    let m ← applyTriple domains m a b v
    applyCells domains rest m
  | _,_ => fail malformedMatrix

/-- The matrix after all triples of a `distance-matrix`; what is not written
gets the default distance. -/
def distances (domains : Domains) (raw m : Bytes) : Outcome DtbError Bytes :=
  if raw=[] ∨ raw.length%12≠0 then fail malformedMatrix
  else do
    let m ← applyCells domains (cellsAsU32s raw) m
    .ok (m.map fun b => if b=0 then 20 else b)

/-- The distance table of a matrix. -/
def slit (oem : OemIdentity) (domains : Domains) (len : ℕ) (raw : Bytes) : Option Bytes :=
  let n := domains.toList.length
  (value (distances domains raw (initialMatrix n))).map fun m =>
    sealed 9 (slitHeader oem n len++m)

/-- The initial matrix is square. -/
theorem length_initialMatrix (n : ℕ) : (initialMatrix n).length=n*n := by
  have hfold : ∀ (l : List ℕ) (m : Bytes),
      (l.foldl (fun m i => m.set (i*n+i) 10) m).length=m.length := by
    intro l
    induction l with
    | nil => exact fun _ => rfl
    | cons i l ih =>
      intro m
      rw [List.foldl_cons,ih,List.length_set]
  rw [initialMatrix,hfold,length_zeros]

/-- Entering a triple keeps the size of the matrix. -/
theorem length_applyTriple {domains : Domains} {m m' : Bytes} {a b v : ℕ}
    (h : applyTriple domains m a b v=.ok m') : m'.length=m.length := by
  obtain ⟨i,_,h⟩ := bind_ok.mp h
  obtain ⟨j,_,h⟩ := bind_ok.mp h
  obtain ⟨d,_,h⟩ := bind_ok.mp h
  split at h
  · split at h
    · exact absurd h fail_ne_ok
    · cases h
      rfl
  · split at h
    · exact absurd h fail_ne_ok
    · dsimp only at h
      split at h
      · exact absurd h fail_ne_ok
      · cases h
        rw [List.length_set,List.length_set]

/-- Entering all triples keeps the size of the matrix. -/
theorem length_applyCells {domains : Domains} {cells : List ℕ} {m m' : Bytes}
    (h : applyCells domains cells m=.ok m') : m'.length=m.length := by
  induction cells,m using applyCells.induct with
  | case1 m =>
    cases h
    rfl
  | case2 a b v rest m ih =>
    rw [applyCells] at h
    obtain ⟨m1,hm,h⟩ := bind_ok.mp h
    rw [ih m1 h,length_applyTriple hm]
  | case3 cells m hnil hcons =>
    rw [applyCells.eq_3 domains cells m hnil hcons] at h
    exact absurd h fail_ne_ok

/-- The final matrix has the size of the initial one. -/
theorem length_distances {domains : Domains} {raw m m' : Bytes}
    (h : distances domains raw m=.ok m') : m'.length=m.length := by
  unfold distances at h
  split at h
  · exact absurd h fail_ne_ok
  · obtain ⟨m1,hm,h⟩ := bind_ok.mp h
    cases h
    rw [List.length_map,length_applyCells hm]

/-- What a distance matrix may be rejected for. -/
def DistanceError (e : DtbError) : Prop := e=malformedMatrix ∨ e=distanceRange

/-- A triple is rejected for the distance matrix only. -/
theorem applyTriple_error {domains : Domains} {m : Bytes} {a b v : ℕ} {f : Fault DtbError}
    (h : applyTriple domains m a b v=.error f) : ∃ e, f=.err e ∧ DistanceError e := by
  unfold applyTriple at h
  cases hi : indexOf domains a with
  | none =>
    rw [hi] at h
    cases h
    exact ⟨_,rfl,.inl rfl⟩
  | some i =>
    cases hj : indexOf domains b with
    | none =>
      rw [hi,hj] at h
      cases h
      exact ⟨_,rfl,.inl rfl⟩
    | some j =>
      cases hd : narrow 8 v with
      | none =>
        rw [hi,hj,hd] at h
        cases h
        exact ⟨_,rfl,.inr rfl⟩
      | some d =>
        rw [hi,hj,hd] at h
        change (if i=j then if d≠10 then fail malformedMatrix else .ok m else
          if d<10 then fail malformedMatrix else _)=Except.error f at h
        split at h
        · split at h
          · cases h
            exact ⟨_,rfl,.inl rfl⟩
          · cases h
        · split at h
          · cases h
            exact ⟨_,rfl,.inl rfl⟩
          · dsimp only at h
            split at h
            · cases h
              exact ⟨_,rfl,.inl rfl⟩
            · cases h

/-- Triples are rejected for the distance matrix only. -/
theorem applyCells_error {domains : Domains} {cells : List ℕ} {m : Bytes} {f : Fault DtbError}
    (h : applyCells domains cells m=.error f) : ∃ e, f=.err e ∧ DistanceError e := by
  induction cells,m using applyCells.induct with
  | case1 m => cases h
  | case2 a b v rest m ih =>
    rw [applyCells] at h
    cases hm : applyTriple domains m a b v with
    | error g =>
      rw [hm] at h
      cases h
      exact applyTriple_error hm
    | ok m1 =>
      rw [hm] at h
      exact ih m1 h
  | case3 cells m hnil hcons =>
    rw [applyCells.eq_3 domains cells m hnil hcons] at h
    cases h
    exact ⟨_,rfl,.inl rfl⟩

/-- A `distance-matrix` is rejected for itself only. -/
theorem distances_error {domains : Domains} {raw m : Bytes} {f : Fault DtbError}
    (h : distances domains raw m=.error f) : ∃ e, f=.err e ∧ DistanceError e := by
  unfold distances at h
  split at h
  · cases h
    exact ⟨_,rfl,.inl rfl⟩
  · cases hm : applyCells domains (cellsAsU32s raw) m with
    | error g =>
      rw [hm] at h
      cases h
      exact applyCells_error hm
    | ok m1 =>
      rw [hm] at h
      cases h

variable [DevtreeLib]

/-- The entries of the regions of a memory node. -/
def memoryPart (child : DtbNode) : Option Bytes := do
  let tag ← value (child.propertyU32Opt "numa-node-id")
  let pd ← tag
  let status ← value (child.decodeStatus .memory)
  let regs ← value (child.reg .memory)
  some (regs.flatMap fun r => memoryAffinity pd r.1 r.2
    (memoryAffinityFlags status child.decodeMemoryHotpluggable))

/-- Write the entries of the regions of a memory node. -/
def writeMemory (child : DtbNode) (c : Cursor) : Outcome DtbError Cursor := do
  let tag ← child.propertyU32Opt "numa-node-id"
  let pd ← okOr tag (.partialNuma .memoryUntagged)
  let status ← child.decodeStatus .memory
  let regs ← child.reg .memory
  writeRegions pd (memoryAffinityFlags status child.decodeMemoryHotpluggable) regs c

/-- Write the entries of all memory nodes. -/
def writeMemories : List DtbNode → Emitter
  | [],c => .ok c
  | child::rest,c =>
    if baseNameIs child.name "memory" then do
      let c ← writeMemory child c
      writeMemories rest c
    else writeMemories rest c

/-- Write the affinity table. -/
def sratEmit (oem : OemIdentity) (root : DtbNode) (cache : CpuCache) (slot : Bytes) :
    Outcome DtbError Bytes :=
  emitTable (sratHeader oem) sratHeaderSize (fun c => do
    let c ← writeCpuAffinities (entries cache) c
    let kids ← root.children
    writeMemories kids c) slot

/-- The affinity table. -/
def srat (oem : OemIdentity) (cache : CpuCache) (kids : List DtbNode) (len : ℕ) : Option Bytes :=
  table len (sratHeader oem)
    (cat (cpuAffinities (entries cache)) (catAll ((memories kids).map memoryPart)))

/-- Bytes of the entries of a memory node. -/
def memoryBytes (child : DtbNode) : ℕ :=
  ((value (child.reg .memory)).getD []).length*memoryAffinitySize

/-- The entries of the regions of a memory node are written. -/
theorem emits_writeMemory (child : DtbNode) : Emits (writeMemory child) (memoryPart child) := by
  refine Emits.after fun tag _ => ?_
  have h := Emits.after (x := okOr tag (DtbError.partialNuma .memoryUntagged)) (fun pd _ =>
    Emits.after (x := child.decodeStatus .memory) (fun status _ =>
      Emits.after (x := child.reg .memory) (fun regs _ => emits_writeRegions pd
        (memoryAffinityFlags status child.decodeMemoryHotpluggable) regs)))
  rw [value_okOr] at h
  exact h

/-- The entries of all memory nodes are written. -/
theorem emits_writeMemories (kids : List DtbNode) :
    Emits (writeMemories kids) (catAll ((memories kids).map memoryPart)) := by
  induction kids with
  | nil => exact emits_nil
  | cons child rest ih =>
    cases hname : baseNameIs child.name "memory" with
    | true =>
      have hunfold : writeMemories (child::rest)=fun c => writeMemory child c >>= writeMemories rest := by
        funext c
        rw [writeMemories,if_pos hname]
      rw [hunfold,memories_cons hname]
      exact (emits_writeMemory child).seq ih
    | false =>
      have hunfold : writeMemories (child::rest)=writeMemories rest := by
        funext c
        rw [writeMemories,hname]
        rfl
      rw [hunfold,memories_skip hname]
      exact ih

/-- Bytes of the entries of a memory node. -/
theorem length_memoryPart {child : DtbNode} {out : Bytes} (h : memoryPart child=some out) :
    out.length=memoryBytes child := by
  simp only [memoryPart,Option.bind_eq_bind,Option.bind_eq_some_iff] at h
  obtain ⟨tag,_,pd,_,status,_,regs,hregs,h⟩ := h
  cases h
  rw [memoryBytes,hregs]
  exact length_flatMap_records fun _ _ => rfl

/-- The entries of the affinity table are written. -/
theorem emits_srat (cache : CpuCache) {root : DtbNode} {kids : List DtbNode}
    (hkids : root.children=.ok kids) :
    Emits (fun c => writeCpuAffinities (entries cache) c >>= fun c => root.children >>=
      fun kids => writeMemories kids c) (cat (cpuAffinities (entries cache))
        (catAll ((memories kids).map memoryPart))) := by
  rw [hkids]
  exact (emits_writeCpuAffinities _).seq (emits_writeMemories _)

/-- Write the distance table. The matrix is the part of the slot behind the
header, if there is room for it. -/
def slitEmit (oem : OemIdentity) (root : DtbNode) (domains : Domains) (slot : Bytes) :
    Outcome DtbError Bytes := do
  let n := domains.toList.length
  let length ← sdtLengthFromSlot slot
  let slot ← writeHeader (slitHeader oem n length) slot
  let room := decide (slitHeaderSize+n*n ≤ slot.length)
  let mapNode ← root.child "distance-map" .distanceMap
  let mapNode ← okOr mapNode .internal
  let raw ← okOr (mapNode.node.property "distance-matrix")
    (.missingProperty .distanceMap "distance-matrix")
  let m ← distances domains raw (if room then initialMatrix n else [])
  setSdtChecksum (if room then overwrite slitHeaderSize m slot else slot)

/-- In a slot of its size the distance table is written whole, or its matrix is
rejected. -/
theorem slitEmit_eq {oem : OemIdentity} {root mapNode : DtbNode} {domains : Domains}
    {raw : Bytes} (hmap : root.child "distance-map" .distanceMap=.ok (some mapNode))
    (hraw : mapNode.node.property "distance-matrix"=some raw) {slot : Bytes}
    (hsize : slot.length=slitHeaderSize+domains.toList.length*domains.toList.length) :
    slitEmit oem root domains slot=
      distances domains raw (initialMatrix domains.toList.length) >>= fun m =>
        .ok (sealed 9 (slitHeader oem domains.toList.length slot.length++m)) := by
  have hn := domains.bound
  have hsquare : domains.toList.length*domains.toList.length≤255*255 := Nat.mul_le_mul hn hn
  have hheader : ∀ n len, (slitHeader oem n len).length=slitHeaderSize := by
    intro n len
    rw [slitHeader,List.length_append,SdtHeader.length_asBytes,length_leBytes]
    rfl
  have hh : slitHeaderSize=44 := rfl
  have hlength : sdtLengthFromSlot slot=.ok slot.length := by
    rw [sdtLengthFromSlot,show narrow 32 slot.length=some slot.length from if_pos (by omega)]
    rfl
  have hover : (overwrite 0 (slitHeader oem domains.toList.length slot.length) slot).length=
      slot.length := length_overwrite (by rw [hheader]; omega)
  unfold slitEmit
  rw [hlength,hmap]
  change (writeHeader (slitHeader oem domains.toList.length slot.length) slot >>= fun s =>
    okOr (mapNode.node.property "distance-matrix") _ >>= fun raw =>
      distances domains raw (if decide (slitHeaderSize+_ ≤ s.length) then _ else []) >>= fun m =>
        setSdtChecksum (if decide (slitHeaderSize+_ ≤ s.length) then overwrite slitHeaderSize m s
          else s))=_
  rw [(writeHeader_ok (by rw [hheader]; omega)).mpr rfl,hraw]
  change (distances domains raw (if decide (slitHeaderSize+_≤(overwrite 0 _ slot).length) then _
    else []) >>= fun m => setSdtChecksum (if decide (slitHeaderSize+_≤(overwrite 0 _ slot).length)
      then overwrite slitHeaderSize m (overwrite 0 _ slot) else _))=_
  rw [hover,decide_eq_true hsize.ge]
  change (distances domains raw (initialMatrix domains.toList.length) >>= fun m =>
    setSdtChecksum (overwrite slitHeaderSize m (overwrite 0
      (slitHeader oem domains.toList.length slot.length) slot)))=_
  cases hm : distances domains raw (initialMatrix domains.toList.length) with
  | error f => rfl
  | ok m =>
    have hlen := length_distances hm
    rw [length_initialMatrix] at hlen
    change setSdtChecksum (overwrite slitHeaderSize m (overwrite 0
      (slitHeader oem domains.toList.length slot.length) slot))=.ok _
    rw [overwrite_next (hheader _ _) (by omega),overwrite_all (by
      rw [List.length_append,hheader,hlen]
      exact hsize.symm),setSdtChecksum_ok (by
        rw [List.length_append,hheader]
        omega)]

end Arma.Acpi.Numa
