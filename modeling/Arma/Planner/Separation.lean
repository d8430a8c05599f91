import Arma.Planner.Model

/-!
# Separation of the planned ranges

Each placement step avoids the rounded carve-outs of all steps before it, so
whatever the steps add stays separate, down to whole 2 MiB units. Only the BAR
window is recorded without a check.
-/

namespace Arma.Planner.Separation

open Base.Checked Base.Intervals Model

/-- The granularity is a power of two. -/
theorem gran_eq : gran=2^21 := by decide

/-- The granularity is positive. -/
theorem gran_pos : 0<gran := by decide

/-- A range is covered by the whole units it is rounded out to. -/
theorem roundOutGran_ok {r s : Range} (h : roundOutGran r=.ok s) :
    r.toSet⊆s.toSet ∧ WholeBlocks (·/gran) s.toSet := by
  unfold roundOutGran at h
  obtain ⟨stop,hstop,h⟩ := bind_ok.mp h
  obtain ⟨hsum,hlt⟩ := addWord_some.mp (unwrap_ok.mp hstop)
  simp only [Except.ok.injEq] at h
  subst h
  have hend := sub_le_clearBits hlt (m := gran-1) (by decide)
  constructor
  · intro x hx
    obtain ⟨h1,h2⟩ := mem_toSet.mp hx
    have hstart : clearBits 64 r.start (gran-1) ≤ r.start := clearBits_le
    have hstop : r.stop ≤ clearBits 64 stop (gran-1) := by omega
    exact mem_toSet.mpr ⟨hstart.trans h1,h2.trans_le hstop⟩
  · refine wholeBlocks_of_dvd gran_pos ?_ ?_
    · exact dvd_clearBits (k := 21) r.start (by omega)
    · exact dvd_clearBits (k := 21) stop (by omega)

/-- An aligned address is at or above the address it was rounded from. -/
theorem alignUp_le {v a w : ℕ} (h : alignUp v a=.ok (some w)) : v≤w := by
  unfold alignUp at h
  split at h
  · simp only [Except.ok.injEq,Option.map_eq_some_iff,addWord_some] at h
    obtain ⟨x,⟨hsum,hlt⟩,hw⟩ := h
    have hmask : a-1<2^64 := by omega
    have hle := sub_le_clearBits hlt hmask
    omega
  · cases h

/-- Whatever the search returns has the requested size, lies at or above the
starting address and overlaps no range of the list. -/
theorem firstFitLoop_ok {size align : ℕ} {sorted : List Range} {region : String} {r : Range}
    {fuel g : ℕ} (h : firstFitLoop size align sorted region fuel g=.ok r) :
    g ≤ r.start ∧ r.stop=r.start+size ∧ r.stop<2^64 ∧ ∀ s∈sorted, s.overlaps r=false := by
  induction fuel generalizing g with
  | zero => cases h
  | succ fuel ih =>
    obtain ⟨rfl,hlt,hfree⟩ | ⟨c,hc,hover,next,hnext,h⟩ := firstFitLoop_step h
    · exact ⟨le_refl _,rfl,hlt,hfree⟩
    · have hle := alignUp_le hnext
      simp only [Region.overlaps,Bool.and_eq_true,decide_eq_true_eq] at hover
      obtain ⟨h1,h2⟩ := ih h
      exact ⟨by omega,h2⟩

/-- A first fit is separate from every occupied range. -/
theorem firstFit_ok {start size align : ℕ} {occupied : List Range} {region : String} {r : Range}
    (h : firstFit start size align occupied region=.ok r) :
    start ≤ r.start ∧ r.stop=r.start+size ∧ r.stop<2^64 ∧ ∀ o∈occupied, r.Separate o := by
  unfold firstFit at h
  obtain ⟨first,hfirst,h⟩ := bind_ok.mp h
  obtain ⟨g,hg,h⟩ := bind_ok.mp h
  rw [okOr_ok.mp hg] at hfirst
  have hle := alignUp_le hfirst
  obtain ⟨h1,h2,h3,h4⟩ := firstFitLoop_ok h
  refine ⟨by omega,h2,h3,?_⟩
  intro o ho
  by_cases hne : o.start<o.stop
  · have hmem : o∈(occupied.filter fun r => decide (r.start < r.stop)).insertionSort
        fun r s => r.start ≤ s.start := by
      rw [List.mem_insertionSort,List.mem_filter]
      exact ⟨ho,decide_eq_true hne⟩
    exact separate_comm.mp (separate_of_overlaps_false (h4 o hmem))
  · exact separate_comm.mp (separate_of_empty hne)

/-- A rounded range appended to the carve-outs covers the range. -/
theorem covered_roundOutGran {r s : Range} {occupied : List Range} (h : roundOutGran r=.ok s) :
    Covered (·/gran) (occupied++[s]) r.toSet := by
  obtain ⟨hsub,hwhole⟩ := roundOutGran_ok h
  intro x hx
  exact ⟨s,List.mem_append_right _ (List.mem_singleton_self s),hsub hx,hwhole⟩

/-- A placed region is clear of all carve-outs before it, and the units it
occupies are added to them. -/
theorem placeFirstFit_ok {start size align : ℕ} {occupied occupied' : List Range}
    {region : String} {r : Range}
    (h : placeFirstFit start size align occupied region=.ok (r,occupied')) :
    r.stop=r.start+size ∧ Clear occupied r.toSet ∧ occupied⊆occupied' ∧
      Covered (·/gran) occupied' r.toSet := by
  unfold placeFirstFit at h
  obtain ⟨r',hr,h⟩ := bind_ok.mp h
  obtain ⟨rounded,hrounded,h⟩ := bind_ok.mp h
  simp only [Except.ok.injEq,Prod.mk.injEq] at h
  obtain ⟨rfl,rfl⟩ := h
  obtain ⟨h1,h2,h3,h4⟩ := firstFit_ok hr
  exact ⟨h2,h4,List.subset_append_left _ _,covered_roundOutGran hrounded⟩

/-- The addresses of an optional range; none when it is absent. -/
def optSet (o : Option Range) : Set ℕ := {x | ∃ r∈o, x∈r.toSet}

/-- A present range has its own addresses. -/
@[simp] theorem optSet_some (r : Range) : optSet (some r)=r.toSet := by
  ext x
  simp [optSet]

/-- An absent range has no addresses. -/
@[simp] theorem optSet_none : optSet none=∅ := by
  ext x
  simp [optSet]

/-- The empty set is covered by any carve-outs. -/
theorem covered_empty {occupied : List Range} : Covered (·/gran) occupied ∅ :=
  fun _ hx => absurd hx (Set.notMem_empty _)

/-- The empty set is clear of any carve-outs. -/
theorem clear_empty {occupied : List Range} : Clear occupied ∅ :=
  fun _ _ => Set.empty_disjoint _

/-- The BAR window of a device configuration with PCI slots. -/
def window (args : ArgsSpec) : Range :=
  ⟨2^(args.addrSpaceBits-1),2^(args.addrSpaceBits-1)+2^args.windowBits⟩

/-- A window step: there is no window, or the rounded window is added to the carve-outs. -/
theorem placeWindow_run {args : ArgsSpec} {occupied occupied' : List Range} {w : Option Range}
    (h : placeWindow args occupied=.ok (w,occupied')) :
    ¬0<args.pciSlots ∧ w=none ∧ occupied'=occupied ∨
      0<args.pciSlots ∧ args.windowBits+2≤args.addrSpaceBits ∧ w=some (window args) ∧
        ∃ rounded, roundOutGran (window args)=.ok rounded ∧ occupied'=occupied++[rounded] := by
  unfold placeWindow at h
  split at h
  · rename_i hslots
    obtain ⟨wide,hwide,h⟩ := bind_ok.mp h
    obtain ⟨rfl,_⟩ := addWord_some.mp (unwrap_ok.mp hwide)
    split at h
    · exact absurd h fail_ne_ok
    · rename_i hbits
      obtain ⟨shift,hshift,h⟩ := bind_ok.mp h
      obtain ⟨base,hbase,h⟩ := bind_ok.mp h
      obtain ⟨size,hsize,h⟩ := bind_ok.mp h
      obtain ⟨stop,hstop,h⟩ := bind_ok.mp h
      obtain ⟨rounded,hrounded,h⟩ := bind_ok.mp h
      obtain ⟨_,rfl⟩ := subWord_some.mp (unwrap_ok.mp hshift)
      obtain ⟨_,rfl⟩ := bitWord_some.mp (unwrap_ok.mp hbase)
      obtain ⟨_,rfl⟩ := bitWord_some.mp (unwrap_ok.mp hsize)
      obtain ⟨rfl,_⟩ := addWord_some.mp (unwrap_ok.mp hstop)
      cases h
      exact .inr ⟨hslots,Nat.le_of_not_lt hbits,rfl,rounded,hrounded,rfl⟩
  · rename_i hslots
    cases h
    exact .inl ⟨hslots,rfl,rfl⟩

/-- The window step records the window, if there is one, without looking at the
carve-outs. -/
theorem placeWindow_ok {args : ArgsSpec} {occupied occupied' : List Range} {w : Option Range}
    (h : placeWindow args occupied=.ok (w,occupied')) :
    w=(if 0<args.pciSlots then some (window args) else none) ∧ occupied⊆occupied' ∧
      Covered (·/gran) occupied' (optSet w) := by
  obtain ⟨hslots,rfl,rfl⟩ | ⟨hslots,-,rfl,rounded,hrounded,rfl⟩ := placeWindow_run h
  · rw [if_neg hslots,optSet_none]
    exact ⟨rfl,List.Subset.refl _,covered_empty⟩
  · rw [if_pos hslots,optSet_some]
    exact ⟨rfl,List.subset_append_left _ _,covered_roundOutGran hrounded⟩

/-- The archive and the fill occupy one slot that is clear of the carve-outs. -/
theorem placeInitrd_ok {initrdSize : Option ℕ} {bootconfig : Bool}
    {occupied occupied' : List Range} {initrd fill : Option Range}
    (h : placeInitrd initrdSize bootconfig occupied=.ok ((initrd,fill),occupied')) :
    Clear occupied (optSet initrd∪optSet fill) ∧ occupied⊆occupied' ∧
      Covered (·/gran) occupied' (optSet initrd∪optSet fill) := by
  obtain ⟨-,rfl,rfl,rfl⟩ | ⟨sz,size,r,-,-,-,hplace,rfl,rfl⟩ := placeInitrd_run h
  · rw [optSet_none,Set.union_empty]
    exact ⟨clear_empty,List.Subset.refl _,covered_empty⟩
  · obtain ⟨hsize,hclear,hsub,hcover⟩ := placeFirstFit_ok hplace
    have hinside : optSet (some ⟨r.start,r.start+size⟩)∪
        optSet (if bootconfig then some ⟨r.start+size,r.stop⟩ else none)⊆r.toSet := by
      intro x hx
      cases bootconfig with
      | true =>
        simp only [optSet_some,if_true,Set.mem_union,mem_toSet] at hx hsize ⊢
        omega
      | false =>
        simp only [optSet_some,optSet_none,Bool.false_eq_true,if_false,Set.union_empty,
          mem_toSet] at hx hsize ⊢
        omega
    refine ⟨fun o ho => (hclear o ho).mono_left hinside,hsub,?_⟩
    exact fun x hx => hcover x (hinside hx)

/-- The relocation table, if placed, is clear of the carve-outs. -/
theorem placeRelocs_ok {relocsSize : Option ℕ} {occupied occupied' : List Range}
    {relocs : Option Range} (h : placeRelocs relocsSize occupied=.ok (relocs,occupied')) :
    Clear occupied (optSet relocs) ∧ occupied⊆occupied' ∧
      Covered (·/gran) occupied' (optSet relocs) := by
  obtain ⟨-,rfl,rfl⟩ | ⟨sz,r,-,-,hplace,rfl⟩ := placeRelocs_run h
  · rw [optSet_none]
    exact ⟨clear_empty,List.Subset.refl _,covered_empty⟩
  · rw [optSet_some]
    exact (placeFirstFit_ok hplace).2

/-- Bytes that the generic devices take inside the band. -/
def deviceBytes (args : ArgsSpec) : ℕ :=
  (if 0<args.pciSlots then ecamSize else 0)+(if args.serial then serialSize else 0)+
    args.mmioSlots*virtioSize

/-- The band: whole units for the generic devices, ending at `2^(A-1)`. -/
def deviceBand (args : ArgsSpec) : Option Range :=
  if deviceBytes args=0 then none
  else some ⟨2^(args.addrSpaceBits-1)-(deviceBytes args+(gran-1))/gran*gran,
    2^(args.addrSpaceBits-1)⟩

/-- The band has room for the devices, in whole units. -/
theorem bandGeometry_ok {args : ArgsSpec} {size align : ℕ}
    (h : bandGeometry args=.ok (size,align)) :
    size=(deviceBytes args+(gran-1))/gran*gran := by
  unfold bandGeometry at h
  obtain ⟨serial,hserial,h⟩ := bind_ok.mp h
  obtain ⟨slots,hslots,h⟩ := bind_ok.mp h
  obtain ⟨sum,hsum,h⟩ := bind_ok.mp h
  obtain ⟨rfl,_⟩ := addWord_some.mp (unwrap_ok.mp hserial)
  obtain ⟨rfl,_⟩ := mulWord_some.mp (unwrap_ok.mp hslots)
  obtain ⟨rfl,_⟩ := addWord_some.mp (unwrap_ok.mp hsum)
  change (if deviceBytes args=0 then _ else _)=_ at h
  split at h
  · rename_i hzero
    cases h
    rw [hzero]
    decide
  · obtain ⟨rounded,hrounded,h⟩ := bind_ok.mp h
    cases h
    unfold roundUp at hrounded
    rw [if_pos (by decide)] at hrounded
    obtain ⟨sum,hsum,hrounded⟩ := bind_ok.mp hrounded
    obtain ⟨rfl,hlt⟩ := addWord_some.mp (unwrap_ok.mp hsum)
    cases hrounded
    exact clearBits_low (k := 21) hlt (by omega)

/-- A carved device region follows the previous one. -/
theorem carve_ok {present : Bool} {size cur cur' : ℕ} {r : Option Range}
    (h : carve present size cur=.ok (r,cur')) :
    cur'=cur+(if present then size else 0) ∧ Consecutive cur r.toList cur' := by
  unfold carve at h
  split at h
  · rename_i hpresent
    obtain ⟨stop,hstop,h⟩ := bind_ok.mp h
    cases h
    obtain ⟨rfl,_⟩ := addWord_some.mp (unwrap_ok.mp hstop)
    rw [if_pos hpresent]
    exact ⟨rfl,rfl,by dsimp only; omega,rfl⟩
  · rename_i habsent
    cases h
    rw [if_neg habsent]
    exact ⟨rfl,rfl⟩

/-- The transports follow each other. -/
theorem carveSlots_ok {slots cur : ℕ} {l : List Range} (h : carveSlots slots cur=.ok l) :
    Consecutive cur l (cur+slots*virtioSize) := by
  induction slots generalizing cur l with
  | zero =>
    cases h
    change cur=cur+0*virtioSize
    omega
  | succ slots ih =>
    unfold carveSlots at h
    obtain ⟨stop,hstop,h⟩ := bind_ok.mp h
    obtain ⟨rest,hrest,h⟩ := bind_ok.mp h
    cases h
    obtain ⟨rfl,_⟩ := addWord_some.mp (unwrap_ok.mp hstop)
    have hstep := ih hrest
    rw [show cur+virtioSize+slots*virtioSize=cur+(slots+1)*virtioSize by
      rw [Nat.add_mul]; omega] at hstep
    exact ⟨rfl,by dsimp only; omega,hstep⟩

/-- The device regions fill the band from its base on, without gaps. -/
theorem carveBand_ok {args : ArgsSpec} {base : ℕ} {serial ecam : Option Range}
    {virtio : List Range} (h : carveBand args base=.ok (serial,virtio,ecam)) :
    Consecutive base (ecam.toList++serial.toList++virtio) (base+deviceBytes args) := by
  unfold carveBand at h
  obtain ⟨⟨ecam',cur⟩,hecam,h⟩ := bind_ok.mp h
  obtain ⟨⟨serial',cur'⟩,hserial,h⟩ := bind_ok.mp h
  obtain ⟨virtio',hvirtio,h⟩ := bind_ok.mp h
  cases h
  obtain ⟨rfl,h1⟩ := carve_ok hecam
  obtain ⟨rfl,h2⟩ := carve_ok hserial
  have h3 := carveSlots_ok hvirtio
  have hsum : base+(if decide (0<args.pciSlots) then ecamSize else 0)+
      (if args.serial then serialSize else 0)+args.mmioSlots*virtioSize=
      base+deviceBytes args := by
    unfold deviceBytes
    simp only [decide_eq_true_eq]
    omega
  rw [hsum] at h3
  exact (h1.append h2).append h3

/-- A multiple of the granularity is at least as large as what it rounds up. -/
theorem le_roundUp (n : ℕ) : n≤(n+(gran-1))/gran*gran := by
  have h := Nat.lt_div_mul_add gran_pos (a := n+(gran-1))
  omega

/-- A band step: there are no devices, or they are carved out of the band, which overlaps no
carve-out and ends at a power of two that is a word. -/
theorem placeBand_run {args : ArgsSpec} {occupied : List Range} {serial ecam : Option Range}
    {virtio : List Range} (h : placeBand args occupied=.ok (serial,virtio,ecam)) :
    deviceBytes args=0 ∧ serial=none ∧ virtio=[] ∧ ecam=none ∨
      ∃ band, deviceBand args=some band ∧
        band.start+(deviceBytes args+(gran-1))/gran*gran=band.stop ∧
        band.stop=2^(args.addrSpaceBits-1) ∧ args.addrSpaceBits-1<64 ∧
        deviceBytes args≠0 ∧ occupied.any (·.overlaps band)=false ∧
        carveBand args band.start=.ok (serial,virtio,ecam) := by
  obtain ⟨⟨bandSize,align⟩,hgeometry,h⟩ := bind_ok.mp h
  have hsize := bandGeometry_ok hgeometry
  have hle := le_roundUp (deviceBytes args)
  dsimp only at h
  split at h
  · obtain ⟨shift,hshift,h⟩ := bind_ok.mp h
    obtain ⟨highFloor,hfloor,h⟩ := bind_ok.mp h
    obtain ⟨bandStart,hstart,h⟩ := bind_ok.mp h
    obtain ⟨_,rfl⟩ := subWord_some.mp (unwrap_ok.mp hshift)
    obtain ⟨hbits,rfl⟩ := bitWord_some.mp (unwrap_ok.mp hfloor)
    obtain ⟨hfit,rfl⟩ := subWord_some.mp (okOr_ok.mp hstart)
    split at h
    · exact absurd h fail_ne_ok
    · rename_i hany
      have hbytes : deviceBytes args≠0 := by
        intro hzero
        rw [hzero] at hsize
        have hnone : bandSize=0 := hsize.trans (by decide)
        omega
      refine .inr ⟨_,by rw [deviceBand,if_neg hbytes,hsize],?_,rfl,hbits,hbytes,
        Bool.eq_false_of_not_eq_true hany,h⟩
      rw [←hsize]
      exact Nat.sub_add_cancel hfit
  · cases h
    exact .inl ⟨by omega,rfl,rfl,rfl⟩

/-- A band for devices consists of whole units. -/
theorem band_aligned {args : ArgsSpec} {band : Range}
    (hlength : band.start+(deviceBytes args+(gran-1))/gran*gran=band.stop)
    (hstop : band.stop=2^(args.addrSpaceBits-1)) (hbytes : deviceBytes args≠0) :
    gran∣band.start ∧ gran∣band.stop := by
  have hle := le_roundUp (deviceBytes args)
  have hunits : gran∣(deviceBytes args+(gran-1))/gran*gran := Nat.dvd_mul_left _ _
  have hgran : gran≤2^(args.addrSpaceBits-1) := by
    have hsize := Nat.le_of_dvd (by omega) hunits
    omega
  have hdvd : gran∣band.stop := by
    rw [hstop]
    rw [gran_eq] at hgran ⊢
    exact pow_dvd_pow 2 ((Nat.pow_le_pow_iff_right (by omega)).mp hgran)
  exact ⟨(Nat.dvd_add_iff_left hunits).mpr (hlength ▸ hdvd),hdvd⟩

/-- The band step puts the devices into the band, which is clear of every
carve-out and consists of whole units. -/
theorem placeBand_ok {args : ArgsSpec} {occupied : List Range} {serial ecam : Option Range}
    {virtio : List Range} (h : placeBand args occupied=.ok (serial,virtio,ecam)) :
    Clear occupied (optSet (deviceBand args)) ∧
      WholeBlocks (·/gran) (optSet (deviceBand args)) ∧
      (ecam.toList++serial.toList++virtio).Pairwise Region.Separate ∧
      ∀ r∈ecam.toList++serial.toList++virtio, ∃ band∈deviceBand args,
        band.start ≤ r.start ∧ r.stop≤band.stop := by
  obtain ⟨hbytes,rfl,rfl,rfl⟩ | ⟨band,hband,hlength,hstop,-,hbytes,hany,hcarved⟩ :=
    placeBand_run h
  · rw [deviceBand,if_pos hbytes,optSet_none]
    refine ⟨clear_empty,?_,List.Pairwise.nil,?_⟩
    · exact fun x y hx => absurd hx (Set.notMem_empty _)
    · exact fun r hr => absurd hr List.not_mem_nil
  · have hconsecutive := carveBand_ok hcarved
    have hle := le_roundUp (deviceBytes args)
    obtain ⟨hbase,hdvd⟩ := band_aligned hlength hstop hbytes
    rw [hband,optSet_some]
    refine ⟨?_,?_,hconsecutive.ascending.pairwise,?_⟩
    · intro o ho
      refine (separate_comm.mp (separate_of_overlaps_false ?_) : Region.Separate _ o)
      exact Bool.eq_false_of_not_eq_true (List.any_eq_false.mp hany o ho)
    · exact wholeBlocks_of_dvd gran_pos hbase hdvd
    · intro r hr
      obtain ⟨h1,_,h2⟩ := hconsecutive.ascending.bounds.2 r hr
      exact ⟨band,rfl,h1,by omega⟩

/-- The initrd archive together with the bootconfig fill. -/
def initrdArea (lay : Layout) : Set ℕ := optSet lay.initrd∪optSet lay.bootconfig

/-- The RAM payloads of a layout. -/
def payloads (lay : Layout) : List (Set ℕ) :=
  [optSet lay.relocs,initrdArea lay,lay.linux.toSet]

/-- The device regions of a layout: the band and the BAR window. -/
def devices (p : Planner) (lay : Layout) : List (Set ℕ) :=
  [optSet (deviceBand p.args),optSet lay.pciWindow]

/-- The device regions carved out of the band. -/
def carved (lay : Layout) : List Range := lay.ecam.toList++lay.serial.toList++lay.virtio

/-- The reserved ranges of the input, as sets of addresses. -/
def reservedSets (p : Planner) : List (Set ℕ) := p.reserved.map Region.toSet

/-- What a layout promises about the ranges it hands out. -/
structure Separated (p : Planner) (lay : Layout) : Prop where
  /-- No two ranges have an address in common. -/
  disjoint : (payloads lay++devices p lay).Pairwise Disjoint
  /-- No range has an address of a reserved range. -/
  reserved : ∀ s∈payloads lay++devices p lay, ∀ t∈reservedSets p, Disjoint s t
  /-- No two carved device regions have an address in common. -/
  carved : (carved lay).Pairwise Region.Separate
  /-- The carved device regions lie in the band. -/
  inside : ∀ r∈Separation.carved lay, ∃ band∈deviceBand p.args,
    band.start ≤ r.start ∧ r.stop≤band.stop
  /-- No RAM payload shares a 2 MiB unit with a device or a reserved range. -/
  granular : ∀ s∈payloads lay, ∀ t∈devices p lay++reservedSets p, BlocksApart (·/gran) s t

/-- The BAR window, if there is one, avoids every reserved range. -/
def WindowClear (p : Planner) : Prop :=
  0<p.args.pciSlots → ∀ r∈p.reserved, (window p.args).Separate r

/-- What every successful plan achieves, whatever the BAR window overlaps. -/
structure Planned (p : Planner) (lay : Layout) : Prop where
  /-- The BAR window depends on the device configuration only. -/
  window : lay.pciWindow=if 0<p.args.pciSlots then some (window p.args) else none
  /-- No two payloads share a unit. -/
  payloads : (payloads lay).Pairwise (BlocksApart (·/gran))
  /-- Payloads share no unit with a reserved range or the BAR window. -/
  fixed : ∀ s∈Separation.payloads lay, ∀ t∈optSet lay.pciWindow::reservedSets p,
    BlocksApart (·/gran) s t
  /-- The band shares no unit with anything else. -/
  band : ∀ t∈Separation.payloads lay++optSet lay.pciWindow::reservedSets p,
    BlocksApart (·/gran) (optSet (deviceBand p.args)) t
  /-- No two carved device regions have an address in common. -/
  carved : (carved lay).Pairwise Region.Separate
  /-- The carved device regions lie in the band. -/
  inside : ∀ r∈Separation.carved lay, ∃ band∈deviceBand p.args,
    band.start ≤ r.start ∧ r.stop≤band.stop

/-- Rounding the reserved ranges covers each of them. -/
theorem covered_reserved {reserved occupied : List Range}
    (h : reserved.mapM roundOutGran=.ok occupied) :
    ∀ s∈reserved.map Region.toSet, Covered (·/gran) occupied s := by
  intro s hs x hx
  obtain ⟨r,hr,rfl⟩ := List.mem_map.mp hs
  obtain ⟨o,ho,hround⟩ := forall₂_mem (mapM_ok.mp h) hr
  obtain ⟨hsub,hwhole⟩ := roundOutGran_ok hround
  exact ⟨o,ho,hsub hx,hwhole⟩

/-- A successful plan is the outcome of its five placement steps. -/
theorem plan_ok {p : Planner} {lay : Layout} (h : p.plan=.ok lay) : Planned p lay := by
  obtain ⟨occ0,occ1,occ2,occ3,occ4,hrun⟩ := Planner.plan_run h
  obtain ⟨hw,hsub1,hcover1⟩ := placeWindow_ok hrun.window
  obtain ⟨_,hclear2,hsub2,hcover2⟩ := placeFirstFit_ok hrun.linux
  obtain ⟨hclear3,hsub3,hcover3⟩ := placeInitrd_ok hrun.initrd
  obtain ⟨hclear4,hsub4,hcover4⟩ := placeRelocs_ok hrun.relocs
  obtain ⟨hclear5,hwhole5,hcarved,hinside⟩ := placeBand_ok hrun.band
  have hstart : Placement (·/gran) occ1 (optSet lay.pciWindow::reservedSets p) [] := by
    refine ⟨?_,fun s hs => absurd hs List.not_mem_nil,
      fun s hs => absurd hs List.not_mem_nil,List.Pairwise.nil⟩
    intro s hs
    obtain rfl | hs := List.mem_cons.mp hs
    · exact hcover1
    · exact (covered_reserved hrun.reserved s hs).grow hsub1
  have hdone := ((hstart.place hclear2 hsub2 hcover2).place hclear3 hsub3 hcover3).place
    hclear4 hsub4 hcover4
  refine ⟨hw,hdone.apartPlaced,hdone.apartFixed,?_,hcarved,hinside⟩
  intro t ht
  obtain ht | ht := List.mem_append.mp ht
  · exact hclear5.apart (hdone.coveredPlaced t ht)
  · exact hclear5.apart (hdone.coveredFixed t ht)

/-- Every successful plan keeps its promises exactly when the BAR window, which
is recorded without a check, avoids the reserved ranges. -/
theorem plan_separated_iff {p : Planner} {lay : Layout} (h : p.plan=.ok lay) :
    Separated p lay ↔ WindowClear p := by
  have hplan := plan_ok h
  constructor
  · intro hs hslots r hr
    have hmem : optSet lay.pciWindow∈payloads lay++devices p lay := by simp [devices]
    have hdisjoint := hs.reserved _ hmem r.toSet (List.mem_map_of_mem hr)
    rwa [hplan.window,if_pos hslots,optSet_some] at hdisjoint
  · intro hclear
    have hwindow : ∀ t∈reservedSets p, Disjoint (optSet lay.pciWindow) t := by
      intro t ht
      obtain ⟨r,hr,rfl⟩ := List.mem_map.mp ht
      rw [hplan.window]
      split
      · rename_i hslots
        rw [optSet_some]
        exact hclear hslots r hr
      · rw [optSet_none]
        exact Set.empty_disjoint _
    refine ⟨?_,?_,hplan.carved,hplan.inside,?_⟩
    · refine List.pairwise_append.mpr ⟨hplan.payloads.imp BlocksApart.disjoint,?_,?_⟩
      · refine List.pairwise_pair.mpr (hplan.band _ ?_).disjoint
        exact List.mem_append_right _ List.mem_cons_self
      · intro s hs t ht
        obtain rfl | rfl : t=optSet (deviceBand p.args) ∨ t=optSet lay.pciWindow := by
          simpa [devices] using ht
        · exact (hplan.band s (List.mem_append_left _ hs)).disjoint.symm
        · exact (hplan.fixed s hs _ List.mem_cons_self).disjoint
    · intro s hs t ht
      obtain hs | hs := List.mem_append.mp hs
      · exact (hplan.fixed s hs t (List.mem_cons_of_mem _ ht)).disjoint
      · obtain rfl | rfl : s=optSet (deviceBand p.args) ∨ s=optSet lay.pciWindow := by
          simpa [devices] using hs
        · exact (hplan.band t (List.mem_append_right _ (List.mem_cons_of_mem _ ht))).disjoint
        · exact hwindow t ht
    · intro s hs t ht
      obtain ht | ht := List.mem_append.mp ht
      · obtain rfl | rfl : t=optSet (deviceBand p.args) ∨ t=optSet lay.pciWindow := by
          simpa [devices] using ht
        · exact (hplan.band s (List.mem_append_left _ hs)).symm
        · exact hplan.fixed s hs _ List.mem_cons_self
      · exact hplan.fixed s hs t (List.mem_cons_of_mem _ ht)

/-- A board with tatu's low slab reserved, 39 address bits and a 2^37 window. -/
def slabPlanner : Planner where
  args := ⟨true,2,1,37,39⟩
  reserved := [⟨0,0x200000⟩]
  kernel := ⟨0x800000,0x200000,0x1000000⟩
  initrdSize := some 0x100000
  bootconfig := true
  relocsSize := some 0x3000

/-- Its layout: the initrd and the relocations fit below the kernel. -/
def slabLayout : Layout where
  serial := some ⟨0x3FFFE00000,0x3FFFE01000⟩
  virtio := [⟨0x3FFFE01000,0x3FFFE01200⟩,⟨0x3FFFE01200,0x3FFFE01400⟩]
  ecam := some ⟨0x3FFEE00000,0x3FFFE00000⟩
  pciWindow := some ⟨0x4000000000,0x6000000000⟩
  linux := ⟨0x1000000,0x1800000⟩
  initrd := some ⟨0x200000,0x400000⟩
  bootconfig := some ⟨0x400000,0x600000⟩
  relocs := some ⟨0x600000,0x603000⟩

/-- On this board the window is clear, so the layout keeps all its promises. -/
theorem plan_separated_iff_slab : Separated slabPlanner slabLayout := by
  have h : slabPlanner.plan=.ok slabLayout := by decide
  refine (plan_separated_iff h).mpr ?_
  intro _ r hr
  obtain rfl := List.mem_singleton.mp hr
  exact separate_comm.mp (separate_of_le (by decide))

/-- An aarch64 board whose 28 address bits put the BAR window at `0x8000000`,
where the interrupt controller is. -/
def gicPlanner : Planner where
  args := ⟨false,0,1,26,28⟩
  reserved := [⟨0,0x200000⟩,⟨0x8000000,0x8010000⟩,⟨0x8100000,0xA100000⟩,⟨0xA100000,0xA110000⟩]
  kernel := ⟨0x800000,0x200000,0⟩
  initrdSize := none
  bootconfig := false
  relocsSize := none

/-- Planning that board succeeds with a window over the interrupt controller. -/
theorem plan_window_over_gic :
    ∃ lay, gicPlanner.plan=.ok lay ∧ ¬Separated gicPlanner lay := by
  let lay : Layout := ⟨none,[],some ⟨0x7000000,0x8000000⟩,some ⟨0x8000000,0xC000000⟩,
    ⟨0x200000,0xA00000⟩,none,none,none⟩
  have h : gicPlanner.plan=.ok lay := by decide
  refine ⟨lay,h,fun hs => ?_⟩
  have hmem : optSet lay.pciWindow∈payloads lay++devices gicPlanner lay := by simp [devices]
  have hdisjoint := hs.reserved _ hmem (Region.toSet ⟨0x8000000,0x8010000⟩)
    (List.mem_map_of_mem (by decide))
  have hin : 0x8000000∈optSet lay.pciWindow := by
    rw [show lay.pciWindow=some ⟨0x8000000,0xC000000⟩ from rfl,optSet_some]
    exact mem_toSet.mpr ⟨by decide,by decide⟩
  exact Set.disjoint_left.mp hdisjoint hin (mem_toSet.mpr ⟨by decide,by decide⟩)

end Arma.Planner.Separation
