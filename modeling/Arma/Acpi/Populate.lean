import Mathlib.Tactic.Common
import Arma.Acpi.Counted
import Arma.Acpi.Jobs

/-!
# Filling the buffer

The tables are counted and laid out first, then every table is written into its
slot. What is written depends on the tree, the identity and the base address
only.
-/

namespace Arma.Acpi.Populate

open Base.ArrayVec Base.ByteString Base.Checked Base.Writer Devtree Dtb Numbered Bridges Layout
  Sdt Fixed Tables Numa Serial Virtio Dsdt Spcr Count Counted Jobs

/-- What went wrong when the buffer was filled. -/
inductive EmitError where
  | bufferTooSmall (needed got : ℕ)
  | dtb (source : DtbError)
deriving DecidableEq, Repr

/-- An error on the side of the devicetree is handed on. -/
def ofDtb {α : Type} : Outcome DtbError α → Outcome EmitError α
  | .ok a => .ok a
  | .error (.err e) => .error (.err (.dtb e))
  | .error .panic => .error .panic

/-- A computation handed on succeeds exactly when it does. -/
@[simp] theorem ofDtb_ok {α : Type} {x : Outcome DtbError α} {a : α} :
    ofDtb x=.ok a ↔ x=.ok a := by
  cases x with
  | ok b => simp [ofDtb]
  | error f => cases f <;> simp [ofDtb]

/-- Jobs of two lists in sequence. -/
theorem runJobs_append (jobs more : List Job) (buf : Bytes) :
    runJobs (jobs++more) buf=runJobs jobs buf >>= runJobs more := by
  induction jobs generalizing buf with
  | nil => rfl
  | cons j jobs ih =>
    change (emitInOpt j.slot j.emit buf >>= runJobs (jobs++more))=
      (emitInOpt j.slot j.emit buf >>= runJobs jobs) >>= runJobs more
    rw [bind_assoc]
    congr 1
    funext b
    exact ih b

/-- Bytes of the entries of interrupt controllers. -/
theorem length_ioapicEntries {nodes : List DtbNode} {out : Bytes}
    (h : ioapicEntries nodes=some out) : out.length=nodes.length*ioApicEntrySize := by
  unfold ioapicEntries at h
  split at h
  · have hlen := length_catAll (fun _ : DtbNode×ℕ => ioApicEntrySize) (fun p _ o ho => by
      obtain ⟨base,_,rfl⟩ := Option.map_eq_some_iff.mp ho
      rfl) h
    rw [List.map_const',List.sum_replicate,List.length_zipIdx] at hlen
    exact hlen
  · cases h

/-- Bytes of the entries of a cpu are few. -/
theorem vcpuBytes_le (e : CpuEntry) : vcpuBytes e≤28 := by
  unfold vcpuBytes lapicEntrySizeForApic nmiEntrySizeForUid
  split <;> split <;> decide

/-- Bytes of the entries of all cpus are few. -/
theorem sum_vcpuBytes_le (cache : CpuCache) : ((entries cache).map vcpuBytes).sum≤256*28 := by
  have hle := List.sum_le_card_nsmul ((entries cache).map vcpuBytes) 28 (fun n hn => by
    obtain ⟨e,_,rfl⟩ := List.mem_map.mp hn
    exact vcpuBytes_le e)
  have hlen : ((entries cache).map vcpuBytes).length=cache.toList.length := by
    rw [List.length_map,entries,List.length_map,List.length_zipIdx]
  rw [hlen] at hle
  exact hle.trans (Nat.mul_le_mul_right 28 cache.bound)

/-- A last computation handed on. -/
theorem bind_ok_self {α : Type} (x : Outcome DtbError α) : (x >>= fun a => .ok a)=x := by
  cases x <;> rfl

/-- The address of a slot is a word when that of its end is. -/
theorem gpa_ok {s : Slot} {baseGpa : ℕ} (h : baseGpa+s.offset<2^64) :
    s.gpa baseGpa=.ok (baseGpa+s.offset) := okOr_ok.mpr (addWord_some.mpr ⟨rfl,h⟩)

variable [DevtreeLib]

/-- Write the tables up to the affinity table. -/
def emitFront (root : Node) (oem : OemIdentity) (baseGpa : ℕ) (l : Layouted) (buf : Bytes) :
    Outcome DtbError Bytes := do
  let buf ← l.offsets.rsdp.emitIn (fun slot => do
    let gpa ← l.offsets.xsdt.gpa baseGpa
    rsdpEmit oem gpa slot) buf
  let buf ← l.offsets.dsdt.emitIn (dsdtEmit oem l.fadt.sleepValue (rootOf root)) buf
  let buf ← l.offsets.fadt.emitIn (fun slot => do
    let gpa ← l.offsets.dsdt.gpa baseGpa
    fadtEmit gpa l.fadt oem slot) buf
  let buf ← l.offsets.madt.emitIn (madtEmit oem (rootOf root) l.lapicBase l.cache) buf
  let buf ← emitInOpt l.offsets.mcfg (mcfgEmit oem (rootOf root)) buf
  let buf ← emitInOpt l.offsets.spcr (spcrEmit oem root) buf
  emitInOpt l.offsets.srat (sratEmit oem (rootOf root) l.cache) buf

/-- Write all tables. -/
def emission (root : Node) (oem : OemIdentity) (baseGpa : ℕ) (l : Layouted) (buf : Bytes) :
    Outcome DtbError Bytes := do
  let buf ← emitFront root oem baseGpa l buf
  let buf ← emitInOpt l.offsets.slit (slitEmit oem (rootOf root) l.domains) buf
  l.offsets.xsdt.emitIn (xsdtEmit oem baseGpa l.offsets) buf

/-- Count the tables and write them into the buffer; the result comes with the
number of bytes of the layout. -/
def populate (root : Node) (oem : OemIdentity) (baseGpa : ℕ) (buf : Bytes) :
    Outcome EmitError (ℕ×Bytes) := do
  let l ← ofDtb (run root)
  if buf.length<l.offsets.total then fail (.bufferTooSmall l.offsets.total buf.length)
  else do
    let buf ← ofDtb (emission root oem baseGpa l buf)
    .ok (l.offsets.total,buf)

/-- The jobs up to the affinity table. -/
def frontJobs (root : Node) (oem : OemIdentity) (baseGpa : ℕ) (l : Layouted) : List Job :=
  [⟨some l.offsets.rsdp,fun slot => l.offsets.xsdt.gpa baseGpa >>= fun gpa =>
      rsdpEmit oem gpa slot⟩,
    ⟨some l.offsets.dsdt,dsdtEmit oem l.fadt.sleepValue (rootOf root)⟩,
    ⟨some l.offsets.fadt,fun slot => l.offsets.dsdt.gpa baseGpa >>= fun gpa =>
      fadtEmit gpa l.fadt oem slot⟩,
    ⟨some l.offsets.madt,madtEmit oem (rootOf root) l.lapicBase l.cache⟩,
    ⟨l.offsets.mcfg,mcfgEmit oem (rootOf root)⟩,
    ⟨l.offsets.spcr,spcrEmit oem root⟩,
    ⟨l.offsets.srat,sratEmit oem (rootOf root) l.cache⟩]

/-- The jobs behind the affinity table. -/
def backJobs (root : Node) (oem : OemIdentity) (baseGpa : ℕ) (l : Layouted) : List Job :=
  [⟨l.offsets.slit,slitEmit oem (rootOf root) l.domains⟩,
    ⟨some l.offsets.xsdt,xsdtEmit oem baseGpa l.offsets⟩]

/-- The tables are written by jobs. -/
theorem emitFront_eq (root : Node) (oem : OemIdentity) (baseGpa : ℕ) (l : Layouted)
    (buf : Bytes) : emitFront root oem baseGpa l buf=
      runJobs (frontJobs root oem baseGpa l) buf := by
  simp only [emitFront,frontJobs,runJobs,emitInOpt,bind_ok_self]

/-- All tables are written by jobs. -/
theorem emission_eq (root : Node) (oem : OemIdentity) (baseGpa : ℕ) (l : Layouted)
    (buf : Bytes) : emission root oem baseGpa l buf=
      runJobs (frontJobs root oem baseGpa l++backJobs root oem baseGpa l) buf := by
  rw [runJobs_append,emission,emitFront_eq]
  simp only [backJobs,runJobs,emitInOpt,bind_ok_self]

/-- The `distance-matrix` of the tree. -/
def distanceMatrix (root : Node) : Option Bytes :=
  ((value ((rootOf root).child "distance-map" .distanceMap)).bind id).bind fun n =>
    n.node.property "distance-matrix"

/-- The tables up to the affinity table. -/
def frontParts (oem : OemIdentity) (baseGpa : ℕ) (l : Layouted) (kids : List DtbNode)
    (serial : Option DtbNode) (console : Option (DtbNode×Option ℕ)) : List (Option Bytes) :=
  [some (rsdp oem (baseGpa+l.offsets.xsdt.offset)),
    dsdt oem l.fadt.sleepValue kids serial l.offsets.dsdt.len,
    some (fadt oem (baseGpa+l.offsets.dsdt.offset) l.fadt),
    madt oem l.lapicBase l.cache (selected ioapicCompatible kids) l.offsets.madt.len,
    optPart l.offsets.mcfg fun s => mcfg oem kids s.len,
    optPart l.offsets.spcr fun _ => console.bind (spcr oem),
    optPart l.offsets.srat fun s => srat oem l.cache kids s.len]

/-- The tables behind the affinity table. -/
def backParts (root : Node) (oem : OemIdentity) (baseGpa : ℕ) (l : Layouted) :
    List (Option Bytes) :=
  [optPart l.offsets.slit fun s => (distanceMatrix root).bind (slit oem l.domains s.len),
    some (xsdt oem baseGpa l.offsets)]

section Parts

variable {root : Node} {l : Layouted} {kids : List DtbNode} {serial : Option DtbNode}
  {console : Option (DtbNode×Option ℕ)}

/-- The directory lies behind every other slot. -/
theorem offset_le_xsdt (h : Established root l kids serial console) {s : Slot}
    (hs : s∈[some l.offsets.rsdp,some l.offsets.dsdt,some l.offsets.fadt,some l.offsets.madt,
      l.offsets.mcfg,l.offsets.spcr,l.offsets.srat,l.offsets.slit].reduceOption) :
    s.offset+s.len≤l.offsets.xsdt.offset := by
  have hpairs := h.tiles.pairwise
  have hslots : l.offsets.slots=[some l.offsets.rsdp,some l.offsets.dsdt,some l.offsets.fadt,
      some l.offsets.madt,l.offsets.mcfg,l.offsets.spcr,l.offsets.srat,
      l.offsets.slit].reduceOption++[l.offsets.xsdt] :=
    List.reduceOption_append [some l.offsets.rsdp,some l.offsets.dsdt,some l.offsets.fadt,
      some l.offsets.madt,l.offsets.mcfg,l.offsets.spcr,l.offsets.srat,l.offsets.slit]
      [some l.offsets.xsdt]
  rw [hslots] at hpairs
  exact (List.pairwise_append.mp hpairs).2.2 s hs _ (List.mem_singleton_self _)

/-- The addresses of the tables that the directory lists are words. -/
theorem gpa_lt (h : Established root l kids serial console) {baseGpa : ℕ}
    (hbase : baseGpa+l.offsets.xsdt.offset<2^64) :
    ∀ s∈l.offsets.xsdtTargets, baseGpa+s.offset<2^64 := by
  intro s hs
  have hle := offset_le_xsdt h (List.reduceOption_mem_iff.mpr (List.mem_cons_of_mem _
    (List.mem_cons_of_mem _ (List.reduceOption_mem_iff.mp hs))))
  omega

/-- The table of interrupt controllers fills its slot. -/
theorem madt_size (h : Established root l kids serial console) {out : Bytes}
    (hout : cat (some (cpuEntries (entries l.cache)))
      (ioapicEntries (selected ioapicCompatible kids))=some out) :
    madtHeaderSize+out.length=l.offsets.madt.len := by
  obtain ⟨a,ha,b,hb,rfl⟩ := cat_eq_some.mp hout
  cases ha
  rw [List.length_append,length_cpuEntries,length_ioapicEntries hb,h.madt]

/-- The table of configuration spaces fills its slot. -/
theorem mcfg_size (h : Established root l kids serial console) {s : Slot}
    (hs : l.offsets.mcfg=some s) {out : Bytes}
    (hout : catAll ((selected pciHostCompatible kids).map allocation)=some out) :
    mcfgHeaderSize+out.length=s.len := by
  have hlen := length_catAll (fun _ => mcfgAllocationSize)
    (fun c _ o ho => length_allocation ho) hout
  rw [List.map_const',List.sum_replicate] at hlen
  rw [hlen,(placed h.mcfg hs).2]
  rfl

/-- The affinity table fills its slot. -/
theorem srat_size (h : Established root l kids serial console) {s : Slot}
    (hs : l.offsets.srat=some s) {out : Bytes}
    (hout : cat (cpuAffinities (entries l.cache)) (catAll ((memories kids).map memoryPart))=
      some out) : sratHeaderSize+out.length=s.len := by
  obtain ⟨a,ha,b,hb,rfl⟩ := cat_eq_some.mp hout
  have hmem := length_catAll memoryBytes (fun c _ o ho => length_memoryPart ho) hb
  rw [List.length_append,length_cpuAffinities ha,hmem,(h.srat s hs).1]

/-- The table of interrupt controllers is a description table. -/
theorem isSdt_madt (h : Established root l kids serial console) {oem : OemIdentity} {t : Bytes}
    (ht : madt oem l.lapicBase l.cache (selected ioapicCompatible kids) l.offsets.madt.len=
      some t) : IsSdt (ascii "APIC") t ∧ t.length=l.offsets.madt.len := by
  refine isSdt_table (leBytes 4 l.lapicBase++leBytes 4 0) (fun out hout => ?_) ht
  have hsize := madt_size h hout
  have hheader : madtHeaderSize=SdtHeader.size+8 := rfl
  rw [List.length_append,length_leBytes,length_leBytes]
  omega

/-- The table of configuration spaces is a description table. -/
theorem isSdt_mcfg (h : Established root l kids serial console) {s : Slot}
    (hs : l.offsets.mcfg=some s) {oem : OemIdentity} {t : Bytes}
    (ht : mcfg oem kids s.len=some t) : IsSdt (ascii "MCFG") t ∧ t.length=s.len := by
  refine isSdt_table (leBytes 8 0) (fun out hout => ?_) ht
  have hsize := mcfg_size h hs hout
  have hheader : mcfgHeaderSize=SdtHeader.size+8 := rfl
  rw [length_leBytes]
  omega

/-- The affinity table is a description table. -/
theorem isSdt_srat (h : Established root l kids serial console) {s : Slot}
    (hs : l.offsets.srat=some s) {oem : OemIdentity} {t : Bytes}
    (ht : srat oem l.cache kids s.len=some t) : IsSdt (ascii "SRAT") t ∧ t.length=s.len := by
  refine isSdt_table (leBytes 4 1++leBytes 8 0) (fun out hout => ?_) ht
  have hsize := srat_size h hs hout
  have hheader : sratHeaderSize=SdtHeader.size+12 := rfl
  rw [List.length_append,length_leBytes,length_leBytes]
  omega

/-- The distance table is a description table. -/
theorem isSdt_slit (h : Established root l kids serial console) {s : Slot}
    (hs : l.offsets.slit=some s) {oem : OemIdentity} {raw t : Bytes}
    (ht : slit oem l.domains s.len raw=some t) : IsSdt (ascii "SLIT") t ∧ t.length=s.len := by
  obtain ⟨m,hm,rfl⟩ := Option.map_eq_some_iff.mp ht
  have hlen := length_distances (value_eq_some.mp hm)
  rw [length_initialMatrix] at hlen
  have hsize := (h.slit s hs).1
  have hheader : slitHeaderSize=SdtHeader.size+8 := rfl
  have hsquare : l.domains.toList.length*l.domains.toList.length≤255*255 :=
    Nat.mul_le_mul l.domains.bound l.domains.bound
  rw [slitHeader,List.append_assoc]
  refine ⟨isSdt_sealed (h := SdtHeader.new ⟨ascii "SLIT",rfl⟩ s.len 1 oem) ?_ ?_,?_⟩
  · rw [List.length_append,length_leBytes,hlen]
    change s.len=_
    omega
  · have : SdtHeader.size=36 := rfl
    change s.len<2^32
    omega
  · rw [length_sealed,List.length_append,SdtHeader.length_asBytes,List.length_append,
      length_leBytes,hlen]
    omega

/-- The directory is a description table. -/
theorem isSdt_xsdt (h : Established root l kids serial console) (oem : OemIdentity)
    (baseGpa : ℕ) : IsSdt (ascii "XSDT") (xsdt oem baseGpa l.offsets) ∧
      (xsdt oem baseGpa l.offsets).length=l.offsets.xsdt.len := by
  have hsize := h.xsdt
  have hentry : l.offsets.xsdtTargets.length*entrySize=l.offsets.xsdtTargets.length*8 := rfl
  have hheader : SdtHeader.size=36 := rfl
  have hcount := length_xsdtTargets l.offsets
  have hle := List.countP_le_length (p := Option.isSome)
    (l := [l.offsets.mcfg,l.offsets.spcr,l.offsets.srat,l.offsets.slit])
  simp only [List.length_cons,List.length_nil] at hle
  refine ⟨isSdt_sealed (h := xsdtHeader oem l.offsets.xsdt.len) ?_ ?_,?_⟩
  · change l.offsets.xsdt.len=_
    rw [length_gpas,hsize]
    rfl
  · change l.offsets.xsdt.len<2^32
    omega
  · rw [xsdt,length_sealed,List.length_append,SdtHeader.length_asBytes,length_gpas,hsize]
    rfl

/-- Every table up to the affinity table is written by its job. -/
theorem writes_front (h : Established root l kids serial console) (oem : OemIdentity)
    {baseGpa : ℕ} (hbase : baseGpa+l.offsets.xsdt.offset<2^64) :
    List.Forall₂ Job.Writes (frontJobs root oem baseGpa l)
      (frontParts oem baseGpa l kids serial console) := by
  have hdsdtSlot := offset_le_xsdt h
    (List.reduceOption_mem_iff.mpr (List.mem_cons_of_mem _ List.mem_cons_self))
  refine .cons (writes_slot ?_ ?_) (.cons (writes_slot ?_ ?_) (.cons (writes_slot ?_ ?_)
    (.cons (writes_slot ?_ ?_) (.cons (writes_optPart ?_ ?_) (.cons (writes_optPart ?_ ?_)
      (.cons (writes_optPart ?_ ?_) .nil))))))
  · intro slot slot' hslot
    rw [gpa_ok hbase]
    exact rsdpEmit_ok (hslot.trans h.rsdp)
  · intro out hout
    cases hout
    exact (length_rsdpBytes _ _ _ _).trans h.rsdp.symm
  · intro slot slot' hslot
    rw [←hslot]
    exact dsdtEmit_ok h.children h.counted h.namespacePort (hslot.trans h.dsdt)
  · intro out hout
    exact (isSdt_dsdt h.counted h.dsdt hout).2
  · intro slot slot' hslot
    rw [gpa_ok (by omega)]
    exact fadtEmit_ok (hslot.trans h.fadt)
  · intro out hout
    cases hout
    rw [fadt,length_sealed,length_fadtBytes,h.fadt]
  · intro slot slot' hslot
    rw [←hslot]
    exact emitTable_ok (emits_madt l.cache h.children)
      (fun len => by rw [madtHeader,List.length_append,SdtHeader.length_asBytes]; rfl) (by decide)
      (fun out hout => (madt_size h hout).trans hslot.symm) (by rw [hslot,h.madt]; omega)
  · intro out hout
    exact (isSdt_madt h hout).2
  · intro s hs slot slot' hslot
    have hsize := (placed h.mcfg hs).2
    rw [←hslot]
    refine emitTable_ok ?_
      (fun len => by rw [mcfgHeader,List.length_append,SdtHeader.length_asBytes]; rfl) (by decide)
      (fun out hout => (mcfg_size h hs hout).trans hslot.symm) (by rw [hslot,hsize]; omega)
    rw [h.children]
    exact emits_writeAllocations h.counted.listed
  · intro s hs out hout
    exact (isSdt_mcfg h hs hout).2
  · intro s hs slot slot' hslot
    obtain ⟨hconsole,hsize⟩ := placed h.spcr hs
    obtain ⟨c,rfl⟩ := Option.isSome_iff_exists.mp hconsole
    exact spcrEmit_ok h.stdoutPort (hslot.trans hsize)
  · intro s hs out hout
    obtain ⟨_,hsize⟩ := placed h.spcr hs
    obtain ⟨c,_,hc⟩ := Option.bind_eq_some_iff.mp hout
    exact (isSdt_spcr hc).2.trans hsize.symm
  · intro s hs slot slot' hslot
    obtain ⟨hsize,_⟩ := h.srat s hs
    rw [←hslot]
    exact emitTable_ok (emits_srat l.cache h.children)
      (fun len => by rw [sratHeader,List.length_append,SdtHeader.length_asBytes]; rfl) (by decide)
      (fun out hout => (srat_size h hs hout).trans hslot.symm) (by rw [hslot,hsize]; omega)
  · intro s hs out hout
    exact (isSdt_srat h hs hout).2

/-- The tables behind the affinity table are written by their jobs. -/
theorem writes_back (h : Established root l kids serial console) (oem : OemIdentity)
    {baseGpa : ℕ} (hbase : baseGpa+l.offsets.xsdt.offset<2^64) :
    List.Forall₂ Job.Writes (backJobs root oem baseGpa l) (backParts root oem baseGpa l) := by
  refine .cons (writes_optPart ?_ ?_) (.cons (writes_slot ?_ ?_) .nil)
  · intro s hs slot slot' hslot
    obtain ⟨hsize,mapNode,raw,hmap,hraw⟩ := h.slit s hs
    have hmatrix : distanceMatrix root=some raw := by
      rw [distanceMatrix,hmap]
      exact hraw
    rw [slitEmit_eq hmap hraw (hslot.trans hsize),hmatrix,Option.bind_some,slit,hslot,bind_ok,
      Option.map_eq_some_iff]
    simp only [value_eq_some,Except.ok.injEq]
  · intro s hs out hout
    obtain ⟨raw,_,hraw⟩ := Option.bind_eq_some_iff.mp hout
    exact (isSdt_slit h hs hraw).2
  · intro slot slot' hslot
    have hsize := h.xsdt
    obtain ⟨hsdt,hlen⟩ := isSdt_xsdt h oem baseGpa
    have hheader := hsdt.header
    have hword : ofLE (slice 4 4 (xsdt oem baseGpa l.offsets))<256^4 :=
      ofLE_slice_lt (le_trans (by decide) hheader)
    rw [hsdt.length,hlen,←hslot] at hword
    exact xsdtEmit_ok (gpa_lt h hbase) hslot (hslot.trans hsize) hword
  · intro out hout
    cases hout
    exact (isSdt_xsdt h oem baseGpa).2

end Parts

end Arma.Acpi.Populate
