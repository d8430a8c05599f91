import Mathlib.Data.List.Sort
import Mathlib.Tactic.Common
import Arma.Base.Checked
import Arma.Base.Intervals

/-!
# Guest-physical address planning

The planner assigns a guest-physical range to everything arma places, given
the immovable reserved ranges and the device configuration. Addresses and
sizes are 64-bit words, widths and slot counts 32-bit words; arithmetic that
leaves its width panics, as in a build with overflow checks.
-/

namespace Arma.Planner.Model

open Base.Checked Base.Intervals

/-- A range of guest-physical addresses. -/
abbrev Range : Type := Region ℕ

/-- PMI large-section granularity, 2 MiB. -/
def gran : ℕ := 2*1024*1024

/-- One page of ns16550a registers. -/
def serialSize : ℕ := 0x1000

/-- One virtio-mmio transport window. -/
def virtioSize : ℕ := 0x200

/-- Configuration space of one bus. -/
def ecamPerBus : ℕ := 0x100000

/-- Buses behind the ECAM window. -/
def ecamBuses : ℕ := 16

/-- Size of the ECAM window. -/
def ecamSize : ℕ := ecamBuses*ecamPerBus

/-- Which generic devices exist and how big they are. -/
structure ArgsSpec where
  /-- Presence of the serial port. -/
  serial : Bool
  /-- Number of virtio-mmio transports. -/
  mmioSlots : ℕ
  /-- Number of PCI slots; zero means no host bridge. -/
  pciSlots : ℕ
  /-- Binary logarithm of the BAR window size. -/
  windowBits : ℕ
  /-- Width of the guest-physical address space. -/
  addrSpaceBits : ℕ
deriving DecidableEq, Repr

/-- Load requirements of the kernel. -/
structure KernelSpec where
  /-- RAM footprint. -/
  size : ℕ
  /-- Load alignment. -/
  align : ℕ
  /-- Lowest load address. -/
  minGpa : ℕ
deriving DecidableEq, Repr

/-- Everything placement needs. -/
structure Planner where
  /-- Device configuration. -/
  args : ArgsSpec
  /-- Immovable ranges: tatu's sections and the fixed devices. -/
  reserved : List Range
  /-- Kernel load requirements. -/
  kernel : KernelSpec
  /-- Size of the initrd archive. -/
  initrdSize : Option ℕ
  /-- Whether a bootconfig fill follows the archive. -/
  bootconfig : Bool
  /-- Size of the KASLR relocation table. -/
  relocsSize : Option ℕ
deriving DecidableEq, Repr

/-- Everything the planner decided. -/
structure Layout where
  /-- The serial port. -/
  serial : Option Range
  /-- The virtio-mmio transports. -/
  virtio : List Range
  /-- The ECAM window. -/
  ecam : Option Range
  /-- The 64-bit BAR window. -/
  pciWindow : Option Range
  /-- The kernel. -/
  linux : Range
  /-- The padded initrd archive. -/
  initrd : Option Range
  /-- The fill immediately after the archive. -/
  bootconfig : Option Range
  /-- The relocation table. -/
  relocs : Option Range
deriving DecidableEq, Repr

/-- Errors of the planner. -/
inductive PlanError where
  /-- `{region} ({size:#x} bytes) does not fit in the guest-physical map`. -/
  | doesNotFit (region : String) (size : ℕ)
  /-- `pci window_bits {window_bits} + 2 exceeds addr_space_bits {addr_space_bits}`. -/
  | windowTooLarge (windowBits addrSpaceBits : ℕ)
  /-- `address computation overflowed`. -/
  | overflow
deriving DecidableEq, Repr

/-- `a` is a power of two. -/
def isPowerOfTwo (a : ℕ) : Bool := decide (a≠0) && decide (a &&& (a-1)=0)

/-- Round `v` up to a multiple of `a`, absent on overflow; an `a` that is not a
power of two fails the assertion. -/
def alignUp (v a : ℕ) : Outcome PlanError (Option ℕ) :=
  if isPowerOfTwo a then .ok ((addWord 64 v (a-1)).map (clearBits 64 · (a-1)))
  else .error .panic

/-- Round a range outward to whole units of `gran`. -/
def roundOutGran (r : Range) : Outcome PlanError Range := do
  let start := clearBits 64 r.start (gran-1)
  let stop ← unwrap (addWord 64 r.stop (gran-1))
  .ok ⟨start,clearBits 64 stop (gran-1)⟩

/-- Round `v` up to a multiple of `a`. -/
def roundUp (v a : ℕ) : Outcome PlanError ℕ :=
  if isPowerOfTwo a then do
    let sum ← unwrap (addWord 64 v (a-1))
    .ok (clearBits 64 sum (a-1))
  else .error .panic

/-- The loop of `firstFit`: hop past the first conflicting range and retry.
Every hop leaves one range of `sorted` behind for good, so the fuel
`sorted.length+1` is never used up. -/
def firstFitLoop (size align : ℕ) (sorted : List Range) (region : String) :
    ℕ → ℕ → Outcome PlanError Range
  | 0,_ => .error .panic
  | fuel+1,g => do
    let stop ← okOr (addWord 64 g size) .overflow
    match sorted.find? (·.overlaps ⟨g,stop⟩) with
    | some c => do
      let hop ← alignUp c.stop align
      let g ← okOr hop .overflow
      if g=2^64-1 then fail (.doesNotFit region size)
      else firstFitLoop size align sorted region fuel g
    | none => .ok ⟨g,stop⟩

/-- Lowest `align`-aligned slot of `size` bytes at or above `start` that
overlaps no `occupied` range. -/
def firstFit (start size align : ℕ) (occupied : List Range) (region : String) :
    Outcome PlanError Range := do
  let sorted := (occupied.filter fun r => decide (r.start < r.stop)).insertionSort
    fun r s => r.start ≤ s.start
  let first ← alignUp start align
  let g ← okOr first .overflow
  firstFitLoop size align sorted region (sorted.length+1) g

/-- Place a region with `firstFit` and add its rounded range to the carve-outs. -/
def placeFirstFit (start size align : ℕ) (occupied : List Range) (region : String) :
    Outcome PlanError (Range × List Range) := do
  let r ← firstFit start size align occupied region
  let rounded ← roundOutGran r
  .ok (r,occupied++[rounded])

/-- Size and alignment of the band of generic devices. -/
def bandGeometry (args : ArgsSpec) : Outcome PlanError (ℕ × ℕ) := do
  let ecam := if 0<args.pciSlots then ecamSize else 0
  let serial ← unwrap (addWord 64 ecam (if args.serial then serialSize else 0))
  let slots ← unwrap (mulWord 64 args.mmioSlots virtioSize)
  let size ← unwrap (addWord 64 serial slots)
  if size=0 then .ok (0,gran)
  else do
    let rounded ← roundUp size gran
    .ok (rounded,gran)

/-- Take `size` bytes at `cur` when `present`, and move past them. -/
def carve (present : Bool) (size cur : ℕ) : Outcome PlanError (Option Range × ℕ) :=
  if present then do
    let stop ← unwrap (addWord 64 cur size)
    .ok (some ⟨cur,stop⟩,stop)
  else .ok (none,cur)

/-- Take `slots` consecutive virtio-mmio windows from `cur` on. -/
def carveSlots : ℕ → ℕ → Outcome PlanError (List Range)
  | 0,_ => .ok []
  | slots+1,cur => do
    let stop ← unwrap (addWord 64 cur virtioSize)
    let rest ← carveSlots slots stop
    .ok (⟨cur,stop⟩::rest)

/-- Subdivide the band at `base`: ECAM, serial port, virtio-mmio transports. -/
def carveBand (args : ArgsSpec) (base : ℕ) :
    Outcome PlanError (Option Range × List Range × Option Range) := do
  let (ecam,cur) ← carve (decide (0<args.pciSlots)) ecamSize base
  let (serial,cur) ← carve args.serial serialSize cur
  let virtio ← carveSlots args.mmioSlots cur
  .ok (serial,virtio,ecam)

/-- Step 1: the PCI 64-bit BAR window, fixed at `2^(A-1)`. -/
def placeWindow (args : ArgsSpec) (occupied : List Range) :
    Outcome PlanError (Option Range × List Range) :=
  if 0<args.pciSlots then do
    let a := args.addrSpaceBits
    let b := args.windowBits
    let wide ← unwrap (addWord 32 b 2)
    if a<wide then fail (.windowTooLarge b a)
    else do
      let shift ← unwrap (subWord a 1)
      let base ← unwrap (bitWord 64 shift)
      let size ← unwrap (bitWord 64 b)
      let stop ← unwrap (addWord 64 base size)
      let w : Range := ⟨base,stop⟩
      let rounded ← roundOutGran w
      .ok (some w,occupied++[rounded])
  else .ok (none,occupied)

/-- Step 3: the padded archive and, right after it, the bootconfig fill. -/
def placeInitrd (initrdSize : Option ℕ) (bootconfig : Bool) (occupied : List Range) :
    Outcome PlanError ((Option Range × Option Range) × List Range) :=
  match initrdSize with
  | some sz =>
    if 0 < sz then do
      let padded ← alignUp sz gran
      let archiveSize ← okOr padded .overflow
      let fillSize := if bootconfig then gran else 0
      let total ← okOr (addWord 64 archiveSize fillSize) .overflow
      let (r,occupied) ← placeFirstFit 0 total gran occupied "initrd + bootconfig"
      let archiveEnd ← unwrap (addWord 64 r.start archiveSize)
      .ok ((some ⟨r.start,archiveEnd⟩,if bootconfig then some ⟨archiveEnd,r.stop⟩ else none),
        occupied)
    else .ok ((none,none),occupied)
  | none => .ok ((none,none),occupied)

/-- Step 3b: the relocation table. -/
def placeRelocs (relocsSize : Option ℕ) (occupied : List Range) :
    Outcome PlanError (Option Range × List Range) :=
  match relocsSize with
  | some sz =>
    if 0 < sz then do
      let (r,occupied) ← placeFirstFit 0 sz gran occupied "relocs"
      .ok (some r,occupied)
    else .ok (none,occupied)
  | none => .ok (none,occupied)

/-- Step 4: the device band, immediately below `2^(A-1)`. -/
def placeBand (args : ArgsSpec) (occupied : List Range) :
    Outcome PlanError (Option Range × List Range × Option Range) := do
  let (bandSize,_) ← bandGeometry args
  if 0<bandSize then do
    let shift ← unwrap (subWord args.addrSpaceBits 1)
    let highFloor ← unwrap (bitWord 64 shift)
    let bandStart ← okOr (subWord highFloor bandSize) .overflow
    let band : Range := ⟨bandStart,highFloor⟩
    if occupied.any (·.overlaps band) then fail (.doesNotFit "device band" bandSize)
    else carveBand args band.start
  else .ok (none,[],none)

/-- Place everything, each result added to the carve-outs of the next step. -/
def Planner.plan (p : Planner) : Outcome PlanError Layout := do
  let occupied ← p.reserved.mapM roundOutGran
  let (pciWindow,occupied) ← placeWindow p.args occupied
  let align := max p.kernel.align gran
  let (linux,occupied) ← placeFirstFit p.kernel.minGpa p.kernel.size align occupied "kernel"
  let ((initrd,bootconfig),occupied) ← placeInitrd p.initrdSize p.bootconfig occupied
  let (relocs,occupied) ← placeRelocs p.relocsSize occupied
  let (serial,virtio,ecam) ← placeBand p.args occupied
  .ok ⟨serial,virtio,ecam,pciWindow,linux,initrd,bootconfig,relocs⟩

/-- The steps of a plan, with the carve-outs that each hands on to the next. -/
structure PlanRun (p : Planner) (lay : Layout) (occ0 occ1 occ2 occ3 occ4 : List Range) : Prop where
  /-- The reserved ranges are rounded. -/
  reserved : p.reserved.mapM roundOutGran=.ok occ0
  /-- The BAR window is placed. -/
  window : placeWindow p.args occ0=.ok (lay.pciWindow,occ1)
  /-- So is the kernel. -/
  linux : placeFirstFit p.kernel.minGpa p.kernel.size (max p.kernel.align gran) occ1 "kernel"=
    .ok (lay.linux,occ2)
  /-- So is the archive with its fill. -/
  initrd : placeInitrd p.initrdSize p.bootconfig occ2=.ok ((lay.initrd,lay.bootconfig),occ3)
  /-- So is the relocation table. -/
  relocs : placeRelocs p.relocsSize occ3=.ok (lay.relocs,occ4)
  /-- So are the devices. -/
  band : placeBand p.args occ4=.ok (lay.serial,lay.virtio,lay.ecam)

/-- A plan that succeeds has run its steps. -/
theorem Planner.plan_run {p : Planner} {lay : Layout} (h : p.plan=.ok lay) :
    ∃ occ0 occ1 occ2 occ3 occ4, PlanRun p lay occ0 occ1 occ2 occ3 occ4 := by
  unfold Planner.plan at h
  obtain ⟨occ0,hreserved,h⟩ := bind_ok.mp h
  obtain ⟨⟨pciWindow,occ1⟩,hwindow,h⟩ := bind_ok.mp h
  obtain ⟨⟨linux,occ2⟩,hlinux,h⟩ := bind_ok.mp h
  obtain ⟨⟨⟨initrd,fill⟩,occ3⟩,hinitrd,h⟩ := bind_ok.mp h
  obtain ⟨⟨relocs,occ4⟩,hrelocs,h⟩ := bind_ok.mp h
  obtain ⟨⟨serial,virtio,ecam⟩,hband,h⟩ := bind_ok.mp h
  cases h
  exact ⟨occ0,occ1,occ2,occ3,occ4,hreserved,hwindow,hlinux,hinitrd,hrelocs,hband⟩

/-- A turn of the search that leads to a slot: either this one is free, or the search goes on
behind a range that is in the way. -/
theorem firstFitLoop_step {size align : ℕ} {sorted : List Range} {region : String} {r : Range}
    {fuel g : ℕ} (h : firstFitLoop size align sorted region (fuel+1) g=.ok r) :
    r=⟨g,g+size⟩ ∧ g+size<2^64 ∧ (∀ s∈sorted, s.overlaps ⟨g,g+size⟩=false) ∨
      ∃ c∈sorted, c.overlaps ⟨g,g+size⟩=true ∧ ∃ next, alignUp c.stop align=.ok (some next) ∧
        firstFitLoop size align sorted region fuel next=.ok r := by
  rw [firstFitLoop] at h
  obtain ⟨stop,hstop,h⟩ := bind_ok.mp h
  obtain ⟨rfl,hlt⟩ := addWord_some.mp (okOr_ok.mp hstop)
  split at h
  · rename_i c hfind
    obtain ⟨hop,hhop,h⟩ := bind_ok.mp h
    obtain ⟨next,hnext,h⟩ := bind_ok.mp h
    rw [okOr_ok.mp hnext] at hhop
    split at h
    · exact absurd h fail_ne_ok
    · have hover := List.find?_some hfind
      exact .inr ⟨c,List.mem_of_find?_eq_some hfind,hover,next,hhop,h⟩
  · rename_i hfind
    cases h
    refine .inl ⟨rfl,hlt,fun s hs => ?_⟩
    exact Bool.eq_false_of_not_eq_true (List.find?_eq_none.mp hfind s hs)

/-- An initrd step: there is nothing to place, or the archive is placed in one slot with the
fill behind it. -/
theorem placeInitrd_run {initrdSize : Option ℕ} {bootconfig : Bool}
    {occupied occupied' : List Range} {initrd fill : Option Range}
    (h : placeInitrd initrdSize bootconfig occupied=.ok ((initrd,fill),occupied')) :
    (∀ sz∈initrdSize, sz=0) ∧ initrd=none ∧ fill=none ∧ occupied'=occupied ∨
      ∃ sz size r, initrdSize=some sz ∧ 0<sz ∧ alignUp sz gran=.ok (some size) ∧
        placeFirstFit 0 (size+if bootconfig then gran else 0) gran occupied
          "initrd + bootconfig"=.ok (r,occupied') ∧
        initrd=some ⟨r.start,r.start+size⟩ ∧
        fill=if bootconfig then some ⟨r.start+size,r.stop⟩ else none := by
  unfold placeInitrd at h
  split at h
  · rename_i sz
    split at h
    · rename_i hpos
      obtain ⟨padded,hpadded,h⟩ := bind_ok.mp h
      obtain ⟨size,hsize,h⟩ := bind_ok.mp h
      obtain ⟨total,htotal,h⟩ := bind_ok.mp h
      obtain ⟨⟨r,after⟩,hplace,h⟩ := bind_ok.mp h
      obtain ⟨archiveEnd,hend,h⟩ := bind_ok.mp h
      obtain ⟨rfl,_⟩ := addWord_some.mp (okOr_ok.mp htotal)
      obtain ⟨rfl,_⟩ := addWord_some.mp (unwrap_ok.mp hend)
      rw [okOr_ok.mp hsize] at hpadded
      cases h
      exact .inr ⟨sz,size,r,rfl,hpos,hpadded,hplace,rfl,rfl⟩
    · rename_i hzero
      cases h
      refine .inl ⟨fun n hn => ?_,rfl,rfl,rfl⟩
      rw [←Option.mem_some_iff.mp hn]
      exact Nat.eq_zero_of_not_pos hzero
  · cases h
    exact .inl ⟨fun n hn => absurd hn (Option.not_mem_none n),rfl,rfl,rfl⟩

/-- A step for the relocation table: there is nothing to place, or it is placed in a slot. -/
theorem placeRelocs_run {relocsSize : Option ℕ} {occupied occupied' : List Range}
    {relocs : Option Range} (h : placeRelocs relocsSize occupied=.ok (relocs,occupied')) :
    (∀ sz∈relocsSize, sz=0) ∧ relocs=none ∧ occupied'=occupied ∨
      ∃ sz r, relocsSize=some sz ∧ 0<sz ∧
        placeFirstFit 0 sz gran occupied "relocs"=.ok (r,occupied') ∧ relocs=some r := by
  unfold placeRelocs at h
  split at h
  · rename_i sz
    split at h
    · rename_i hpos
      obtain ⟨⟨r,after⟩,hplace,h⟩ := bind_ok.mp h
      cases h
      exact .inr ⟨sz,r,rfl,hpos,hplace,rfl⟩
    · rename_i hzero
      cases h
      refine .inl ⟨fun n hn => ?_,rfl,rfl⟩
      rw [←Option.mem_some_iff.mp hn]
      exact Nat.eq_zero_of_not_pos hzero
  · cases h
    exact .inl ⟨fun n hn => absurd hn (Option.not_mem_none n),rfl,rfl⟩

end Arma.Planner.Model
