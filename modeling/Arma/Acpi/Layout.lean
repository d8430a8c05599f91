import Mathlib.Data.List.ReduceOption
import Mathlib.Tactic.Common
import Arma.Acpi.Dtb
import Arma.Base.ArrayVec

/-!
# What counting hands to emission

The cpus in walk order, the NUMA domains in order of first occurrence, and the
slot of every table in the output buffer.
-/

namespace Arma.Acpi.Layout

open Base.ArrayVec Base.ByteString Base.Checked Dtb

/-- Maximal number of cpus. -/
def cpuCacheCap : ℕ := 256

/-- Largest id of the short entries of a cpu. -/
def xapicIdMax : ℕ := 254

/-- What is kept of one cpu. -/
structure CpuRecord where
  /-- APIC id. -/
  apicId : ℕ
  /-- NUMA tag, `numaTagNone` when absent. -/
  numaTag : ℕ
  /-- Code of the status. -/
  status : ℕ
deriving DecidableEq, Repr

/-- The cpus in walk order. -/
abbrev CpuCache : Type := ArrayVec CpuRecord cpuCacheCap

/-- Code of a status. -/
def statusToU8 : DtStatus → ℕ
  | .okay => 0
  | .disabled => 1
  | .reserved => 2
  | .fail => 3

/-- Status of a code. -/
def statusFromU8 : ℕ → DtStatus
  | 0 => .okay
  | 1 => .disabled
  | 2 => .reserved
  | _ => .fail

/-- A status is read back from its code. -/
@[simp] theorem statusFromU8_toU8 (s : DtStatus) : statusFromU8 (statusToU8 s)=s := by
  cases s <;> rfl

/-- One cpu as the emitters see it. -/
structure CpuEntry where
  /-- Processor UID, the position in walk order. -/
  processorId : ℕ
  /-- APIC id. -/
  apicId : ℕ
  /-- NUMA tag. -/
  numa : Option ℕ
  /-- Status. -/
  status : DtStatus
deriving DecidableEq, Repr

/-- Append a cpu. -/
def pushCpu (cache : CpuCache) (apicId : ℕ) (numaTag : Option ℕ) (status : DtStatus) :
    Outcome DtbError CpuCache :=
  okOr (cache.tryPush ⟨apicId,numaTag.getD numaTagNone,statusToU8 status⟩)
    (.tooManyCpus cpuCacheCap)

/-- The entry of a record at a position. -/
def CpuRecord.entry (r : CpuRecord) (i : ℕ) : CpuEntry :=
  ⟨i,r.apicId,if r.numaTag=numaTagNone then none else some r.numaTag,statusFromU8 r.status⟩

/-- The cpus with their UIDs. -/
def entries (cache : CpuCache) : List CpuEntry :=
  cache.toList.zipIdx.map fun p => p.1.entry p.2

/-- The record of a cpu is read back. -/
theorem entry_record {apicId i : ℕ} {numaTag : Option ℕ} {status : DtStatus}
    (h : ∀ pd, numaTag=some pd → pd≠numaTagNone) :
    CpuRecord.entry ⟨apicId,numaTag.getD numaTagNone,statusToU8 status⟩ i=
      ⟨i,apicId,numaTag,status⟩ := by
  cases numaTag with
  | none => simp [CpuRecord.entry]
  | some pd => simp [CpuRecord.entry,h pd rfl]

/-- The NUMA domains in order of first occurrence; their number is a byte. -/
abbrev Domains : Type := ArrayVec ℕ 255

/-- Append a domain unless it is present. -/
def insertDomain (domains : Domains) (pd : ℕ) : Outcome DtbError Domains :=
  if pd∈domains.toList then .ok domains
  else okOr (domains.tryPush pd) (.valueOutOfRange .distanceMap "numa-node-id")

/-- Position of a domain. -/
def indexOf (domains : Domains) (pd : ℕ) : Option ℕ :=
  (domains.toList.findIdx? fun x => decide (x=pd)).bind (narrow 8)

/-- Position and size of a table in the output buffer. -/
structure Slot where
  /-- Offset in the buffer. -/
  offset : ℕ
  /-- Number of bytes. -/
  len : ℕ
deriving DecidableEq, Repr

/-- Address of the slot in the guest. -/
def Slot.gpa (s : Slot) (baseGpa : ℕ) : Outcome DtbError ℕ :=
  okOr (addWord 64 baseGpa s.offset) .internal

/-- Carve `n` bytes at `cur`; the second component is the new `cur`. -/
def Slot.carve (cur n : ℕ) : Outcome DtbError (Slot×ℕ) := do
  let next ← okOr (addWord 64 cur n) .internal
  .ok (⟨cur,n⟩,next)

/-- The slot's bytes in a buffer. -/
def Slot.carveIn (s : Slot) (buf : Bytes) : Outcome DtbError Bytes :=
  if s.offset+s.len≤buf.length then .ok (slice s.offset s.len buf) else fail .internal

/-- Run an emitter on the slot's bytes in place. -/
def Slot.emitIn (s : Slot) (emit : Bytes → Outcome DtbError Bytes) (buf : Bytes) :
    Outcome DtbError Bytes := do
  let slot ← s.carveIn buf
  let slot ← emit slot
  .ok (overwrite s.offset slot buf)

/-- Run an emitter on the bytes of a slot that may be absent. -/
def emitInOpt (s : Option Slot) (emit : Bytes → Outcome DtbError Bytes) (buf : Bytes) :
    Outcome DtbError Bytes :=
  match s with
  | some s => s.emitIn emit buf
  | none => .ok buf

/-- The slots of all tables. -/
structure Offsets where
  /-- Root pointer, at the front. -/
  rsdp : Slot
  /-- Differentiated system description table. -/
  dsdt : Slot
  /-- Fixed description table. -/
  fadt : Slot
  /-- Interrupt controllers. -/
  madt : Slot
  /-- Configuration space, if there is a host bridge. -/
  mcfg : Option Slot
  /-- Serial console, if there is one. -/
  spcr : Option Slot
  /-- Affinities, if there are NUMA tags. -/
  srat : Option Slot
  /-- Distances, if there is a distance map. -/
  slit : Option Slot
  /-- Table directory, at the end. -/
  xsdt : Slot
  /-- Number of bytes of the layout. -/
  total : ℕ
deriving DecidableEq, Repr

/-- The slots that the directory lists, in order. -/
def Offsets.xsdtTargets (off : Offsets) : List Slot :=
  [some off.fadt,some off.madt,off.mcfg,off.spcr,off.srat,off.slit].reduceOption

/-- All slots in layout order. -/
def Offsets.slots (off : Offsets) : List Slot :=
  [some off.rsdp,some off.dsdt,some off.fadt,some off.madt,off.mcfg,off.spcr,off.srat,off.slit,
    some off.xsdt].reduceOption

/-- Carving succeeds exactly when the end fits a word. -/
theorem carve_ok {cur n : ℕ} {p : Slot×ℕ} :
    Slot.carve cur n=.ok p ↔ cur+n<2^64 ∧ p=(⟨cur,n⟩,cur+n) := by
  unfold Slot.carve
  rw [bind_ok]
  simp only [okOr_ok,addWord_some]
  constructor
  · rintro ⟨next,⟨rfl,hlt⟩,h⟩
    cases h
    exact ⟨hlt,rfl⟩
  · rintro ⟨hlt,rfl⟩
    exact ⟨_,⟨rfl,hlt⟩,rfl⟩

/-- Emission at the front of what is not yet written extends what is written. -/
theorem emitIn_ok {s : Slot} {emit : Bytes → Outcome DtbError Bytes} {r : Option Bytes}
    (hr : ∀ slot slot', slot.length=s.len → (emit slot=.ok slot' ↔ r=some slot'))
    (hlen : ∀ out, r=some out → out.length=s.len) {written buf buf' : Bytes}
    (hw : written.length=s.offset) (hroom : s.offset+s.len≤buf.length) :
    s.emitIn emit (overwrite 0 written buf)=.ok buf' ↔
      ∃ out, r=some out ∧ buf'=overwrite 0 (written++out) buf := by
  have hfit : 0+written.length≤buf.length := by omega
  have hbuf : (overwrite 0 written buf).length=buf.length := length_overwrite hfit
  have hslot : (slice s.offset s.len (overwrite 0 written buf)).length=s.len :=
    length_slice (by rw [hbuf]; exact hroom)
  unfold Slot.emitIn Slot.carveIn
  rw [hbuf,if_pos hroom]
  change (emit (slice s.offset s.len (overwrite 0 written buf)) >>= fun slot =>
    Except.ok (overwrite s.offset slot (overwrite 0 written buf)))=.ok buf' ↔ _
  rw [bind_ok]
  constructor
  · rintro ⟨out,hout,h⟩
    have hout := (hr _ _ hslot).mp hout
    cases h
    refine ⟨out,hout,overwrite_next hw ?_⟩
    rw [hlen out hout]
    exact hroom
  · rintro ⟨out,hout,rfl⟩
    refine ⟨out,(hr _ _ hslot).mpr hout,?_⟩
    rw [overwrite_next hw (by rw [hlen out hout]; exact hroom)]

/-- Slots that follow one another from `pos` to `stop` without a gap. -/
def Tiles : ℕ → List Slot → ℕ → Prop
  | pos,[],stop => pos=stop
  | pos,s::rest,stop => s.offset=pos ∧ Tiles (pos+s.len) rest stop

/-- Slots behind one another tile what each part tiles. -/
theorem Tiles.append {pos mid stop : ℕ} {ss ts : List Slot} (hs : Tiles pos ss mid)
    (ht : Tiles mid ts stop) : Tiles pos (ss++ts) stop := by
  induction ss generalizing pos with
  | nil =>
    cases hs
    exact ht
  | cons s rest ih => exact ⟨hs.1,ih hs.2⟩

/-- Slots that tile are two parts that tile. -/
theorem Tiles.split {pos stop : ℕ} {ss ts : List Slot} (h : Tiles pos (ss++ts) stop) :
    ∃ mid, Tiles pos ss mid ∧ Tiles mid ts stop := by
  induction ss generalizing pos with
  | nil => exact ⟨pos,rfl,h⟩
  | cons s rest ih =>
    obtain ⟨mid,hrest,ht⟩ := ih h.2
    exact ⟨mid,⟨h.1,hrest⟩,ht⟩

/-- Slots that tile end where their lengths say. -/
theorem Tiles.stop_eq {pos stop : ℕ} {ss : List Slot} (h : Tiles pos ss stop) :
    stop=pos+(ss.map Slot.len).sum := by
  induction ss generalizing pos with
  | nil => exact h.symm
  | cons s rest ih =>
    have hrest := ih h.2
    rw [List.map_cons,List.sum_cons]
    omega

/-- Every slot lies between the ends. -/
theorem Tiles.mem {pos stop : ℕ} {ss : List Slot} (h : Tiles pos ss stop) {s : Slot} (hs : s∈ss) :
    pos ≤ s.offset ∧ s.offset+s.len ≤ stop := by
  induction ss generalizing pos with
  | nil => exact absurd hs List.not_mem_nil
  | cons t rest ih =>
    have hstop := Tiles.stop_eq h.2
    obtain rfl | hs := List.mem_cons.mp hs
    · have := h.1
      omega
    · have hrest := ih h.2 hs
      omega

/-- Slots that tile are pairwise separate. -/
theorem Tiles.pairwise {pos stop : ℕ} {ss : List Slot} (h : Tiles pos ss stop) :
    ss.Pairwise fun s t => s.offset+s.len≤t.offset := by
  induction ss generalizing pos with
  | nil => exact List.Pairwise.nil
  | cons s rest ih =>
    refine List.Pairwise.cons (fun t ht => ?_) (ih h.2)
    have hpos := h.1
    have hmem := Tiles.mem h.2 ht
    omega

end Arma.Acpi.Layout
