import Arma.Planner.Separation

/-!
# How far the planned ranges reach

The search for a slot has no upper bound: it returns the lowest aligned slot
that is free. The planned ranges stay in the address space, and below the BAR
window, exactly when every payload finds such a slot below the limit.
-/

namespace Arma.Planner.Bound

open Base.Checked Base.Intervals Model Separation

/-- An aligned slot at or above `start` that overlaps no occupied range. -/
structure FreeSlot (start size align : ℕ) (occupied : List Range) (g : ℕ) : Prop where
  /-- The slot is not below the start of the search. -/
  above : start≤g
  /-- The slot is aligned. -/
  aligned : align∣g
  /-- The slot overlaps no range that is not empty. -/
  free : ∀ r∈occupied, r.start < r.stop → r.overlaps ⟨g,g+size⟩=false

/-- The lowest free slot. -/
structure LowestSlot (start size align : ℕ) (occupied : List Range) (g : ℕ) : Prop where
  /-- The slot is free. -/
  free : FreeSlot start size align occupied g
  /-- No free slot is lower. -/
  least : ∀ g', FreeSlot start size align occupied g' → g≤g'

/-- There is a free slot that ends at or below the limit. -/
def HasRoom (limit start size align : ℕ) (occupied : List Range) : Prop :=
  ∃ g, FreeSlot start size align occupied g ∧ g+size≤limit

/-- The lowest free slot is the only one. -/
theorem LowestSlot.unique {start size align g g' : ℕ} {occupied : List Range}
    (h : LowestSlot start size align occupied g)
    (h' : LowestSlot start size align occupied g') : g=g' :=
  le_antisymm (h.least g' h'.free) (h'.least g h.free)

/-- There is room below the limit exactly when the lowest slot ends there. -/
theorem hasRoom_iff {limit start size align g : ℕ} {occupied : List Range}
    (h : LowestSlot start size align occupied g) :
    HasRoom limit start size align occupied ↔ g+size≤limit := by
  constructor
  · rintro ⟨g',hfree,hle⟩
    have hleast := h.least g' hfree
    omega
  · exact fun hle => ⟨g,h.free,hle⟩

/-- A rounded address is the lowest aligned one that is not below. -/
theorem alignUp_lowest {v a w : ℕ} (h : alignUp v a=.ok (some w)) :
    w=(v+(a-1))/a*a ∧ a∣w ∧ v≤w ∧ ∀ g, a∣g → v≤g → w≤g := by
  have hle := alignUp_le h
  unfold alignUp at h
  split at h
  · rename_i hpow
    rw [isPowerOfTwo,Bool.and_eq_true,decide_eq_true_eq,decide_eq_true_eq] at hpow
    obtain ⟨k,rfl⟩ := (Nat.and_sub_one_eq_zero_iff_isPowerOfTwo hpow.1).mp hpow.2
    simp only [Except.ok.injEq,Option.map_eq_some_iff,addWord_some] at h
    obtain ⟨x,⟨hsum,hlt⟩,hw⟩ := h
    have hpos : 0<2^k := Nat.two_pow_pos k
    have hk : k≤64 := by
      by_contra hbig
      have hmono : 2^65≤2^k := Nat.pow_le_pow_right (by omega) (by omega)
      omega
    rw [clearBits_low hlt hk,←hsum] at hw
    refine ⟨hw.symm,hw ▸ Nat.dvd_mul_left _ _,hle,fun g hg hvg => ?_⟩
    obtain ⟨q,rfl⟩ := hg
    have hdiv : (v+(2^k-1))/2^k≤q := by
      rw [←Nat.lt_succ_iff,Nat.div_lt_iff_lt_mul hpos,Nat.succ_mul,Nat.mul_comm q]
      omega
    rw [←hw,Nat.mul_comm]
    exact Nat.mul_le_mul_left _ hdiv
  · cases h

/-- The search returns an aligned slot, and passes over no aligned slot that is
free. -/
theorem firstFitLoop_lowest {size align : ℕ} {sorted : List Range} {region : String} {r : Range}
    {fuel g : ℕ} (h : firstFitLoop size align sorted region fuel g=.ok r) (hg : align∣g) :
    align∣r.start ∧ ∀ g', g≤g' → align∣g' →
      (∀ s∈sorted, s.overlaps ⟨g',g'+size⟩=false) → r.start≤g' := by
  induction fuel generalizing g with
  | zero => cases h
  | succ fuel ih =>
    obtain ⟨rfl,-,-⟩ | ⟨c,hc,hover,next,hnext,h⟩ := firstFitLoop_step h
    · exact ⟨hg,fun g' hgg _ _ => hgg⟩
    · obtain ⟨_,hdvd,hstop,hleast⟩ := alignUp_lowest hnext
      simp only [Region.overlaps,Bool.and_eq_true,decide_eq_true_eq] at hover
      obtain ⟨haligned,hfirst⟩ := ih h hdvd
      refine ⟨haligned,fun g' hgg hg' hfree => ?_⟩
      -- the conflicting range conflicts with every slot in front of its end
      have hpast := hfree c hc
      simp only [Region.overlaps,Bool.and_eq_false_iff,decide_eq_false_iff_not] at hpast
      have hbehind : c.stop≤g' := by omega
      exact hfirst g' (hleast g' hg' hbehind) hg' hfree

/-- The search returns the lowest free slot. -/
theorem firstFit_lowest {start size align : ℕ} {occupied : List Range} {region : String}
    {r : Range} (h : firstFit start size align occupied region=.ok r) :
    r.stop=r.start+size ∧ LowestSlot start size align occupied r.start := by
  unfold firstFit at h
  obtain ⟨first,hfirst,h⟩ := bind_ok.mp h
  obtain ⟨g,hg,h⟩ := bind_ok.mp h
  rw [okOr_ok.mp hg] at hfirst
  obtain ⟨_,hdvd,hle,hleast⟩ := alignUp_lowest hfirst
  obtain ⟨hge,hstop,_,hfree⟩ := firstFitLoop_ok h
  obtain ⟨haligned,hlowest⟩ := firstFitLoop_lowest h hdvd
  have hmem : ∀ o, o∈(occupied.filter fun r => decide (r.start < r.stop)).insertionSort
      (fun r s => r.start ≤ s.start) ↔ o∈occupied ∧ o.start<o.stop := fun o => by
    rw [List.mem_insertionSort,List.mem_filter,decide_eq_true_eq]
  have hr : r=⟨r.start,r.start+size⟩ := by rw [←hstop]
  refine ⟨hstop,⟨hle.trans hge,haligned,fun o ho hne => ?_⟩,fun g' hg' => ?_⟩
  · rw [←hr]
    exact hfree o ((hmem o).mpr ⟨ho,hne⟩)
  · refine hlowest g' (hleast g' hg'.aligned hg'.above) hg'.aligned fun o ho => ?_
    obtain ⟨hin,hne⟩ := (hmem o).mp ho
    exact hg'.free o hin hne

/-- A range in whole units of `gran`. -/
def units (r : Range) : Range :=
  ⟨clearBits 64 r.start (gran-1),clearBits 64 (r.stop+(gran-1)) (gran-1)⟩

/-- Rounding out yields the whole units. -/
theorem roundOutGran_units {r s : Range} (h : roundOutGran r=.ok s) : s=units r := by
  unfold roundOutGran at h
  obtain ⟨stop,hstop,h⟩ := bind_ok.mp h
  obtain ⟨hsum,_⟩ := addWord_some.mp (unwrap_ok.mp hstop)
  cases h
  rw [units,hsum]

/-- Rounding the reserved ranges yields their units. -/
theorem reserved_units {reserved occupied : List Range}
    (h : reserved.mapM roundOutGran=.ok occupied) : occupied=reserved.map units := by
  have hall := mapM_ok.mp h
  clear h
  induction hall with
  | nil => rfl
  | cons hr _ ih => rw [List.map_cons,roundOutGran_units hr,ih]

/-- Placing yields the lowest free slot and adds its units. -/
theorem placeFirstFit_lowest {start size align : ℕ} {occupied occupied' : List Range}
    {region : String} {r : Range}
    (h : placeFirstFit start size align occupied region=.ok (r,occupied')) :
    r=⟨r.start,r.start+size⟩ ∧ LowestSlot start size align occupied r.start ∧
      occupied'=occupied++[units ⟨r.start,r.start+size⟩] := by
  obtain ⟨r',hr,h⟩ := bind_ok.mp h
  obtain ⟨rounded,hrounded,h⟩ := bind_ok.mp h
  cases h
  obtain ⟨hstop,hlowest⟩ := firstFit_lowest hr
  have hsame : r=⟨r.start,r.start+size⟩ := by rw [←hstop]
  refine ⟨hsame,hlowest,?_⟩
  rw [roundOutGran_units hrounded,←hsame]

/-- What the payloads must keep clear of. -/
def fixedRanges (p : Planner) : List Range :=
  p.reserved.map units++if 0<p.args.pciSlots then [units (window p.args)] else []

/-- Bytes of the padded archive with the bootconfig fill, if there is one. -/
def initrdTotal (p : Planner) : Option ℕ :=
  p.initrdSize.bind fun sz => if 0 < sz then
    some ((sz+(gran-1))/gran*gran+if p.bootconfig then gran else 0) else none

/-- Bytes of the relocation table, if there is one. -/
def relocsTotal (p : Planner) : Option ℕ :=
  p.relocsSize.bind fun sz => if 0 < sz then some sz else none

/-- There is nothing to place when no size is positive. -/
theorem bind_positive_none {o : Option ℕ} {f : ℕ → ℕ} (h : ∀ sz∈o, sz=0) :
    (o.bind fun sz => if 0 < sz then some (f sz) else none)=none := by
  cases o with
  | none => rfl
  | some sz => rw [h sz rfl,Option.bind_some,if_neg (Nat.lt_irrefl 0)]

/-- The alignment of the kernel. -/
def kernelAlign (p : Planner) : ℕ := max p.kernel.align gran

/-- The kernel in its lowest free slot is added to the carve-outs. -/
def AfterKernel (p : Planner) (occupied : List Range) : Prop :=
  ∃ k, LowestSlot p.kernel.minGpa p.kernel.size (kernelAlign p) (fixedRanges p) k ∧
    occupied=fixedRanges p++[units ⟨k,k+p.kernel.size⟩]

/-- So is the initrd, if there is one. -/
def AfterInitrd (p : Planner) (occupied : List Range) : Prop :=
  match initrdTotal p with
  | none => AfterKernel p occupied
  | some n => ∃ occ i, AfterKernel p occ ∧ LowestSlot 0 n gran occ i ∧
      occupied=occ++[units ⟨i,i+n⟩]

/-- Where the payloads must end: the base of the BAR window if there is one,
and else the end of the address space. -/
def limit (args : ArgsSpec) : ℕ :=
  if 0<args.pciSlots then 2^(args.addrSpaceBits-1) else 2^args.addrSpaceBits

/-- Every payload finds a free slot below the limit when it is its turn. -/
structure Room (p : Planner) : Prop where
  /-- The kernel has room. -/
  kernel : HasRoom (limit p.args) p.kernel.minGpa p.kernel.size (kernelAlign p) (fixedRanges p)
  /-- The initrd with its fill has room. -/
  initrd : ∀ n∈initrdTotal p, ∀ occ, AfterKernel p occ → HasRoom (limit p.args) 0 n gran occ
  /-- The relocation table has room. -/
  relocs : ∀ n∈relocsTotal p, ∀ occ, AfterInitrd p occ → HasRoom (limit p.args) 0 n gran occ

/-- The ranges of the payloads. -/
def payloadRanges (lay : Layout) : List Range :=
  lay.linux::(lay.initrd.toList++lay.bootconfig.toList++lay.relocs.toList)

/-- All ranges but the BAR window. -/
def belowWindow (p : Planner) (lay : Layout) : List Range :=
  payloadRanges lay++carved lay++(deviceBand p.args).toList

/-- The planned ranges stay in the address space and below the BAR window. -/
structure Bounded (p : Planner) (lay : Layout) : Prop where
  /-- Every range ends in the address space. -/
  space : ∀ r∈belowWindow p lay++lay.pciWindow.toList, r.stop≤2^p.args.addrSpaceBits
  /-- Every other range ends at or below the base of the BAR window. -/
  window : ∀ w∈lay.pciWindow, ∀ r∈belowWindow p lay, r.stop≤w.start

/-- The window step adds the units of the window, which ends in the address
space. -/
theorem placeWindow_units {args : ArgsSpec} {occupied occupied' : List Range} {w : Option Range}
    (h : placeWindow args occupied=.ok (w,occupied')) :
    occupied'=occupied++(if 0<args.pciSlots then [units (window args)] else []) ∧
      (0<args.pciSlots → args.windowBits+2≤args.addrSpaceBits) := by
  obtain ⟨hslots,rfl,rfl⟩ | ⟨hslots,hbits,rfl,rounded,hrounded,rfl⟩ := placeWindow_run h
  · rw [if_neg hslots,List.append_nil]
    exact ⟨rfl,fun hpos => absurd hpos hslots⟩
  · rw [if_pos hslots,roundOutGran_units hrounded]
    exact ⟨rfl,fun _ => hbits⟩

/-- The initrd step adds the units of the lowest free slot for the archive and
the fill, which end with the slot. -/
theorem placeInitrd_lowest {p : Planner} {occupied occupied' : List Range}
    {initrd fill : Option Range}
    (h : placeInitrd p.initrdSize p.bootconfig occupied=.ok ((initrd,fill),occupied')) :
    match initrdTotal p with
    | none => initrd=none ∧ fill=none ∧ occupied'=occupied
    | some n => ∃ i, LowestSlot 0 n gran occupied i ∧ occupied'=occupied++[units ⟨i,i+n⟩] ∧
        ∀ limit, (∀ r∈initrd.toList++fill.toList, r.stop≤limit) ↔ i+n≤limit := by
  obtain ⟨hzero,rfl,rfl,rfl⟩ | ⟨sz,size,r,hsize,hpos,hpadded,hplace,rfl,rfl⟩ := placeInitrd_run h
  · have hnone : initrdTotal p=none := bind_positive_none hzero
    rw [hnone]
    exact ⟨rfl,rfl,rfl⟩
  · obtain ⟨rfl,_⟩ := alignUp_lowest hpadded
    have htotal : initrdTotal p=
        some ((sz+(gran-1))/gran*gran+if p.bootconfig then gran else 0) := by
      rw [initrdTotal,hsize,Option.bind_some,if_pos hpos]
    obtain ⟨hr,hlowest,hocc⟩ := placeFirstFit_lowest hplace
    have hstop := congrArg Region.stop hr
    rw [htotal]
    refine ⟨r.start,hlowest,hocc,fun limit => ?_⟩
    dsimp only at hstop
    cases hfill : p.bootconfig with
    | true =>
      rw [hfill] at hstop
      simp only [if_true,Option.toList_some,List.cons_append,List.nil_append,
        List.forall_mem_cons] at hstop ⊢
      constructor
      · rintro ⟨_,hle,_⟩
        omega
      · exact fun hle => ⟨by omega,by omega,fun r hr => absurd hr List.not_mem_nil⟩
    | false =>
      rw [hfill] at hstop
      simp only [Bool.false_eq_true,if_false,Option.toList_some,Option.toList_none,
        List.append_nil,List.forall_mem_singleton] at hstop ⊢
      omega

/-- The initrd step leaves occupied what is to be occupied after it. -/
theorem placeInitrd_after {p : Planner} {occupied occupied' : List Range}
    {initrd fill : Option Range} (hkernel : AfterKernel p occupied)
    (h : placeInitrd p.initrdSize p.bootconfig occupied=.ok ((initrd,fill),occupied')) :
    AfterInitrd p occupied' := by
  have hstep := placeInitrd_lowest h
  unfold AfterInitrd
  cases hn : initrdTotal p with
  | none =>
    rw [hn] at hstep
    rw [hstep.2.2]
    exact hkernel
  | some n =>
    rw [hn] at hstep
    obtain ⟨i,hi,hocc,_⟩ := hstep
    exact ⟨occupied,i,hkernel,hi,hocc⟩

/-- The relocation table is placed in the lowest free slot. -/
theorem placeRelocs_lowest {p : Planner} {occupied occupied' : List Range}
    {relocs : Option Range} (h : placeRelocs p.relocsSize occupied=.ok (relocs,occupied')) :
    match relocsTotal p with
    | none => relocs=none
    | some n => ∃ i, LowestSlot 0 n gran occupied i ∧ relocs=some ⟨i,i+n⟩ := by
  obtain ⟨hzero,rfl,-⟩ | ⟨sz,r,hsize,hpos,hplace,rfl⟩ := placeRelocs_run h
  · have hnone : relocsTotal p=none := bind_positive_none hzero
    rw [hnone]
  · have htotal : relocsTotal p=some sz := by
      rw [relocsTotal,hsize,Option.bind_some,if_pos hpos]
    obtain ⟨hr,hlowest,_⟩ := placeFirstFit_lowest hplace
    rw [htotal]
    exact ⟨r.start,hlowest,congrArg some hr⟩

/-- What a plan consists of. -/
structure Steps (p : Planner) (lay : Layout) : Prop where
  /-- The kernel is in its lowest free slot. -/
  kernel : LowestSlot p.kernel.minGpa p.kernel.size (kernelAlign p) (fixedRanges p)
      lay.linux.start ∧ lay.linux=⟨lay.linux.start,lay.linux.start+p.kernel.size⟩
  /-- The initrd with its fill is in the lowest free slot for both. -/
  initrd : match initrdTotal p with
    | none => lay.initrd=none ∧ lay.bootconfig=none
    | some n => ∃ occ i, AfterKernel p occ ∧ LowestSlot 0 n gran occ i ∧
        ∀ limit, (∀ r∈lay.initrd.toList++lay.bootconfig.toList, r.stop≤limit) ↔ i+n≤limit
  /-- The relocation table is in its lowest free slot. -/
  relocs : match relocsTotal p with
    | none => lay.relocs=none
    | some n => ∃ occ i, AfterInitrd p occ ∧ LowestSlot 0 n gran occ i ∧
        lay.relocs=some ⟨i,i+n⟩
  /-- The BAR window is in the address space. -/
  window : 0<p.args.pciSlots → p.args.windowBits+2≤p.args.addrSpaceBits

/-- A successful plan consists of these steps. -/
theorem plan_steps {p : Planner} {lay : Layout} (h : p.plan=.ok lay) : Steps p lay := by
  obtain ⟨occ0,occ1,occ2,occ3,occ4,hrun⟩ := Planner.plan_run h
  obtain ⟨hocc1,hbits⟩ := placeWindow_units hrun.window
  have hfixed : occ1=fixedRanges p := by rw [hocc1,reserved_units hrun.reserved,fixedRanges]
  have hlinux := hrun.linux
  rw [hfixed] at hlinux
  obtain ⟨hlin,hlowest,hocc2⟩ := placeFirstFit_lowest hlinux
  have hkernel : AfterKernel p occ2 := ⟨lay.linux.start,hlowest,hocc2⟩
  have hinit := placeInitrd_lowest hrun.initrd
  have hrel := placeRelocs_lowest hrun.relocs
  refine ⟨⟨hlowest,hlin⟩,?_,?_,hbits⟩
  · cases hn : initrdTotal p with
    | none =>
      rw [hn] at hinit
      exact ⟨hinit.1,hinit.2.1⟩
    | some n =>
      rw [hn] at hinit
      obtain ⟨i,hi,_,hends⟩ := hinit
      exact ⟨occ2,i,hkernel,hi,hends⟩
  · have hafter := placeInitrd_after hkernel hrun.initrd
    cases hn : relocsTotal p with
    | none =>
      rw [hn] at hrel
      exact hrel
    | some n =>
      rw [hn] at hrel
      obtain ⟨i,hi,hr⟩ := hrel
      exact ⟨occ3,i,hafter,hi,hr⟩

/-- What the kernel leaves occupied is determined by the input. -/
theorem AfterKernel.unique {p : Planner} {occ occ' : List Range} (h : AfterKernel p occ)
    (h' : AfterKernel p occ') : occ=occ' := by
  obtain ⟨k,hk,hocc⟩ := h
  obtain ⟨k',hk',hocc'⟩ := h'
  rw [hocc,hocc',hk.unique hk']

/-- So is what the initrd leaves occupied. -/
theorem AfterInitrd.unique {p : Planner} {occ occ' : List Range} (h : AfterInitrd p occ)
    (h' : AfterInitrd p occ') : occ=occ' := by
  unfold AfterInitrd at h h'
  cases hn : initrdTotal p with
  | none =>
    rw [hn] at h h'
    exact AfterKernel.unique h h'
  | some n =>
    rw [hn] at h h'
    obtain ⟨before,i,hbefore,hi,hocc⟩ := h
    obtain ⟨before',i',hbefore',hi',hocc'⟩ := h'
    have hsame := hbefore.unique hbefore'
    rw [←hsame] at hi' hocc'
    rw [hocc,hocc',hi.unique hi']

/-- The payloads end below the limit exactly when each of them has room. -/
theorem Steps.below_iff {p : Planner} {lay : Layout} (h : Steps p lay) :
    (∀ r∈payloadRanges lay, r.stop≤limit p.args) ↔ Room p := by
  obtain ⟨hlowest,hlinux⟩ := h.kernel
  have hkernel : lay.linux.stop≤limit p.args ↔
      HasRoom (limit p.args) p.kernel.minGpa p.kernel.size (kernelAlign p) (fixedRanges p) := by
    have hstop : lay.linux.stop=lay.linux.start+p.kernel.size := congrArg Region.stop hlinux
    rw [hasRoom_iff hlowest,hstop]
  have hinitrd : (∀ r∈lay.initrd.toList++lay.bootconfig.toList, r.stop≤limit p.args) ↔
      ∀ n∈initrdTotal p, ∀ occ, AfterKernel p occ → HasRoom (limit p.args) 0 n gran occ := by
    have hstep := h.initrd
    cases hn : initrdTotal p with
    | none =>
      rw [hn] at hstep
      rw [hstep.1,hstep.2]
      exact ⟨fun _ n hmem => (Option.not_mem_none n hmem).elim,
        fun _ r hr => absurd hr List.not_mem_nil⟩
    | some n =>
      rw [hn] at hstep
      obtain ⟨occ,i,hocc,hi,hends⟩ := hstep
      rw [hends,←hasRoom_iff hi]
      constructor
      · intro hroom n' hn' occ' hocc'
        obtain rfl := Option.mem_some_iff.mp hn'
        rwa [hocc'.unique hocc]
      · exact fun hroom => hroom n rfl occ hocc
  have hrelocs : (∀ r∈lay.relocs.toList, r.stop≤limit p.args) ↔
      ∀ n∈relocsTotal p, ∀ occ, AfterInitrd p occ → HasRoom (limit p.args) 0 n gran occ := by
    have hstep := h.relocs
    cases hn : relocsTotal p with
    | none =>
      rw [hn] at hstep
      rw [hstep]
      exact ⟨fun _ n hmem => (Option.not_mem_none n hmem).elim,
        fun _ r hr => absurd hr List.not_mem_nil⟩
    | some n =>
      rw [hn] at hstep
      obtain ⟨occ,i,hocc,hi,hr⟩ := hstep
      rw [hr,Option.toList_some,List.forall_mem_singleton]
      change i+n≤limit p.args ↔ _
      rw [←hasRoom_iff hi]
      constructor
      · intro hroom n' hn' occ' hocc'
        obtain rfl := Option.mem_some_iff.mp hn'
        rwa [hocc'.unique hocc]
      · exact fun hroom => hroom n rfl occ hocc
  rw [payloadRanges,List.forall_mem_cons,List.forall_mem_append,hkernel,hinitrd,hrelocs]
  exact ⟨fun ⟨h1,h2,h3⟩ => ⟨h1,h2,h3⟩,fun hroom => ⟨hroom.kernel,hroom.initrd,hroom.relocs⟩⟩

/-- The device regions end at or below `2^(A-1)`. -/
theorem devices_below {p : Planner} {lay : Layout} (h : p.plan=.ok lay) {r : Range}
    (hr : r∈carved lay++(deviceBand p.args).toList) : r.stop≤2^(p.args.addrSpaceBits-1) := by
  have hband : ∀ band∈deviceBand p.args, band.stop=2^(p.args.addrSpaceBits-1) := by
    intro band hmem
    unfold deviceBand at hmem
    split at hmem
    · exact (Option.not_mem_none band hmem).elim
    · obtain rfl := Option.mem_some_iff.mp hmem
      rfl
  obtain hr | hr := List.mem_append.mp hr
  · obtain ⟨band,hmem,_,hle⟩ := (plan_ok h).inside r hr
    rwa [hband band hmem] at hle
  · exact le_of_eq (hband r (Option.mem_toList.mp hr))

/-- Every successful plan stays in the address space and below the BAR window
exactly when each payload has room there. -/
theorem plan_bounded_iff {p : Planner} {lay : Layout} (h : p.plan=.ok lay) :
    Bounded p lay ↔ Room p := by
  have hsteps := plan_steps h
  have hwindow := (plan_ok h).window
  have hhalf : 2^(p.args.addrSpaceBits-1)≤2^p.args.addrSpaceBits :=
    Nat.pow_le_pow_right (by omega) (Nat.sub_le _ _)
  rw [←hsteps.below_iff]
  constructor
  · intro hb r hr
    have hmem : r∈belowWindow p lay :=
      List.mem_append_left _ (List.mem_append_left _ hr)
    by_cases hslots : 0<p.args.pciSlots
    · rw [if_pos hslots] at hwindow
      have hle := hb.window (window p.args) hwindow r hmem
      rwa [limit,if_pos hslots]
    · rw [limit,if_neg hslots]
      exact hb.space r (List.mem_append_left _ hmem)
  · intro hpay
    have hlimit : limit p.args≤2^p.args.addrSpaceBits := by
      unfold limit
      split
      · exact hhalf
      · exact le_refl _
    have hbelow : ∀ r∈belowWindow p lay, r.stop≤limit p.args ∨
        r.stop≤2^(p.args.addrSpaceBits-1) := by
      intro r hr
      rw [belowWindow,List.append_assoc] at hr
      obtain hr | hr := List.mem_append.mp hr
      · exact .inl (hpay r hr)
      · exact .inr (devices_below h hr)
    refine ⟨fun r hr => ?_,fun w hw r hr => ?_⟩
    · obtain hr | hr := List.mem_append.mp hr
      · obtain hle | hle := hbelow r hr
        · exact hle.trans hlimit
        · exact hle.trans hhalf
      · -- the window is at most a quarter of the address space
        by_cases hslots : 0<p.args.pciSlots
        · rw [hwindow,if_pos hslots,Option.toList_some,List.mem_singleton] at hr
          have hbits := hsteps.window hslots
          have hsize : 2^p.args.windowBits≤2^(p.args.addrSpaceBits-1) :=
            Nat.pow_le_pow_right (by omega) (by omega)
          have hdouble : 2^p.args.addrSpaceBits=2^(p.args.addrSpaceBits-1)*2 := by
            rw [←Nat.pow_succ,Nat.succ_eq_add_one,Nat.sub_add_cancel (by omega)]
          have hstop : r.stop=2^(p.args.addrSpaceBits-1)+2^p.args.windowBits :=
            congrArg Region.stop hr
          omega
        · rw [hwindow,if_neg hslots,Option.toList_none] at hr
          exact absurd hr List.not_mem_nil
    · by_cases hslots : 0<p.args.pciSlots
      · rw [hwindow,if_pos hslots] at hw
        have hbase : w.start=2^(p.args.addrSpaceBits-1) :=
          congrArg Region.start (Option.mem_some_iff.mp hw).symm
        have hbase' : limit p.args=2^(p.args.addrSpaceBits-1) := by rw [limit,if_pos hslots]
        rw [hbase]
        obtain hle | hle := hbelow r hr
        · exact hle.trans_eq hbase'
        · exact hle
      · rw [hwindow,if_neg hslots] at hw
        exact (Option.not_mem_none w hw).elim

/-- On the board with tatu's low slab everything stays below the window. -/
theorem plan_bounded_iff_slab : Bounded slabPlanner slabLayout := by
  have h : slabPlanner.plan=.ok slabLayout := by decide
  refine (plan_bounded_iff h).mpr ((plan_steps h).below_iff.mp ?_)
  decide

/-- An aarch64 board with 30 address bits and a 600 MiB initrd. -/
def crowdedPlanner : Planner where
  args := ⟨false,0,1,20,30⟩
  reserved := [⟨0,0x200000⟩,⟨0x8000000,0x8010000⟩,⟨0x8100000,0xA100000⟩,⟨0xA100000,0xA110000⟩]
  kernel := ⟨0x800000,0x200000,0⟩
  initrdSize := some 0x25800000
  bootconfig := false
  relocsSize := none

/-- Planning that board succeeds with the initrd above the BAR window and beyond
the end of the address space. -/
theorem plan_initrd_above_window :
    ∃ lay, crowdedPlanner.plan=.ok lay ∧ ¬Bounded crowdedPlanner lay := by
  let lay : Layout := ⟨none,[],some ⟨0x1F000000,0x20000000⟩,some ⟨0x20000000,0x20100000⟩,
    ⟨0x200000,0xA00000⟩,some ⟨0x20200000,0x45A00000⟩,none,none⟩
  have h : crowdedPlanner.plan=.ok lay := by decide
  refine ⟨lay,h,fun hb => ?_⟩
  have hmem : (⟨0x20200000,0x45A00000⟩ : Range)∈belowWindow crowdedPlanner lay := by
    simp [belowWindow,payloadRanges,lay]
  have hspace := hb.space _ (List.mem_append_left _ hmem)
  exact absurd hspace (by decide)

end Arma.Planner.Bound
