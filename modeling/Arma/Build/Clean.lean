import Arma.Build.Regions

/-!
# Which builds check clean

The planner puts the BAR window at the middle of the address space, whatever its size,
and bounds nothing that it places. The check wants the window and its buddy to end the
address space and everything else below them. Both agree when the window is a quarter of
the address space and the payloads find room below it.
-/

namespace Arma.Build.Clean

open Base.ByteString Base.Checked BaseDtb BaseDtb.Registers Build Build.Board Build.Regions
open Base.Intervals hiding Region
open Check hiding Libs run word
open Check.Board Check.Clean Check.Image Header Kernel.Image Manifest Pe.Granularity Pe.Writer
open Check.Disjoint hiding Range run_ok
open Planner.Bound Planner.Devices Planner.Model Planner.Payloads Planner.Separation Run TatuImage

/-- The check accepts the BAR window, and everything else is below it. -/
structure WindowFits (p : Planner) : Prop where
  /-- The window is a quarter of the address space. -/
  quarter : p.args.windowBits+2=p.args.addrSpaceBits
  /-- The end of the address space is a word. -/
  word : p.args.addrSpaceBits<64
  /-- What is reserved above address zero ends below the window. -/
  reserved : ∀ r∈p.reserved, 0 < r.start → r.stop≤2^(p.args.addrSpaceBits-1)
  /-- Every payload has room below it. -/
  room : Room p

/-- Everything that the check sees but the window. -/
def front (tatu : TatuImage) (input : BuildInput) (b : Built) : List Region :=
  sectionsShown tatu b++boardRegions (dtbInputs input b.kernel b.lay)

/-- Those regions come first. -/
theorem regions_eq (tatu : TatuImage) (input : BuildInput) (b : Built) :
    regions tatu input b=front tatu input b++windowRegions b.lay.pciWindow :=
  (List.append_assoc _ _ _).symm

/-- The addresses of arma's own sections above zero. -/
def ownRanges (b : Built) : List Range :=
  ((ownSections b).map fun s => regionRange (payloadRegion s)).filter fun r => decide (0 < r.start)

/-- Every fixed device has one at or below it that starts at a unit. -/
theorem archReserved_edge (arch : Arch) :
    ∀ r∈archReserved arch, ∃ s∈archReserved arch, s.start≤r.start ∧ gran∣s.start := by
  cases arch <;> decide

/-- The fixed devices are not at address zero. -/
theorem archReserved_pos (arch : Arch) : ∀ r∈archReserved arch, 0 < r.start := by
  cases arch <;> decide

section Finished

variable {libs : Libs} {tatu : TatuImage} {input : BuildInput} {b : Built}

/-- The sections that are shown are those of tatu and arma's own. -/
theorem shown_ranges (hlinked : Linked tatu) (h : Ran libs tatu input b)
    (hpacked : Packed tatu b.kernel.parsed.arch) : (sectionsShown tatu b).map regionRange=
      (tatu.reserved.filter fun r => decide (0 < r.start))++ownRanges b := by
  have htatu : ((shown (tatu.sections.map (tatuSection b.payload .attached))).map
      payloadRegion).map regionRange=tatu.reserved.filter fun r => decide (0 < r.start) := by
    rw [shown,TatuImage.reserved,List.filter_map,List.filter_map,List.map_map,List.map_map]
    refine List.map_congr_left fun s hs => ?_
    have hmem := (List.mem_filter.mp hs).1
    have hsize : emittedSize (tatuSection b.payload .attached s)=s.virtualSize :=
      emittedSize_eq (tatuData_fits hlinked h hpacked hmem) (hpacked.pages s hmem)
    change (⟨s.vaddr,s.vaddr+emittedSize (tatuSection b.payload .attached s)⟩ : Range)=_
    rw [hsize]
  have hown : ((shown (ownSections b)).map payloadRegion).map regionRange=ownRanges b := by
    rw [shown,ownRanges,List.filter_map,List.map_map]
    refine congrArg _ (List.filter_congr fun s hs => ?_)
    obtain ⟨_,-,hcarries⟩ := forall₂_mem (own_carries h).flip hs
    rw [hcarries.loaded]
    rfl
  have hmanifest : shown [nonLoadedSection sectionPmiVm b.payload.cbor]=[] := rfl
  rw [sectionsShown,sections_attached]
  unfold shown at htatu hown hmanifest ⊢
  rw [List.filter_append,List.filter_append,hmanifest,List.append_nil,List.map_append,
    List.map_append,htatu,hown]

/-- The regions of the board are its registers. -/
theorem board_ranges (h : Ran libs tatu input b) :
    (boardRegions (dtbInputs input b.kernel b.lay)).map regionRange=
      registers (dtbInputs input b.kernel b.lay) := by
  have hwords := registers_words h.plan
  refine devices_tree (fun r hr => ?_) fun r hr => (hwords r hr).1.1
  obtain ⟨⟨hstart,hstop⟩,-⟩ := hwords r hr
  have hsize : BaseDtb.sizeOf r=r.stop-r.start := rfl
  exact ⟨by omega,by omega⟩

/-- They are the fixed devices and the carved ones. -/
theorem registers_perm (h : Ran libs tatu input b) :
    (registers (dtbInputs input b.kernel b.lay)).Perm
      (archReserved b.kernel.parsed.arch++carved b.lay) := by
  rw [registers_planned h.plan,List.append_assoc,List.append_assoc]
  refine List.Perm.append_left _ ?_
  rw [carved,List.append_assoc,←List.append_assoc]
  exact List.perm_append_comm

/-- An own section has the units of a payload. -/
theorem own_mem (h : Ran libs tatu input b) {e : Range} (he : e∈ownRanges b) :
    ∃ r∈payloadRanges b.lay, Emitted r e := by
  obtain ⟨r,hr,hemitted⟩ := forall₂_mem (own_emitted h).flip (List.mem_filter.mp he).1
  exact ⟨r,hr,hemitted⟩

/-- It is apart from what the payloads are apart from. -/
theorem own_disjoint (h : Ran libs tatu input b) {e : Range} (he : e∈ownRanges b) {t : Set ℕ}
    (ht : ∀ s∈payloads b.lay, BlocksApart (·/gran) s t) : Disjoint e.toSet t := by
  obtain ⟨r,hr,hemitted⟩ := own_mem h he
  obtain ⟨s,hs,hsub⟩ := payload_subset hr
  have hapart := (ht s hs).mono hsub (Set.Subset.refl t)
  exact (hapart.spread hemitted.blocks (inBlocks_of_subset (Set.Subset.refl t))).disjoint

/-- The own sections are separate from each other. -/
theorem own_pairwise (h : Ran libs tatu input b) : (ownRanges b).Pairwise Region.Separate := by
  refine List.Pairwise.filter _ ?_
  refine pairwise_forall₂ (own_emitted h) (plan_apart h.plan) fun r s e t hr hs hapart => ?_
  exact (hapart.spread hr.blocks hs.blocks).disjoint

/-- They are separate from what is reserved. -/
theorem own_reserved (h : Ran libs tatu input b) {e r : Range} (he : e∈ownRanges b)
    (hr : r∈tatu.reserved++archReserved b.kernel.parsed.arch) : e.Separate r :=
  own_disjoint h he fun s hs => (plan_ok h.plan).fixed s hs r.toSet
    (List.mem_cons_of_mem _ (List.mem_map_of_mem hr))

/-- They are separate from the window. -/
theorem own_window (h : Ran libs tatu input b) {e w : Range} (he : e∈ownRanges b)
    (hw : w∈b.lay.pciWindow) : e.Separate w := by
  refine own_disjoint h he fun s hs => ?_
  have hapart := (plan_ok h.plan).fixed s hs _ List.mem_cons_self
  rwa [Option.mem_def.mp hw,optSet_some] at hapart

/-- A carved device is in the band. -/
theorem carved_subset (h : Ran libs tatu input b) {c : Range} (hc : c∈carved b.lay) :
    c.toSet⊆optSet (deviceBand (plannerFor input tatu b.kernel).args) := by
  obtain ⟨band,hband,hstart,hstop⟩ := (plan_ok h.plan).inside c hc
  intro x hx
  obtain ⟨hlo,hhi⟩ := mem_toSet.mp hx
  exact ⟨band,hband,mem_toSet.mpr ⟨hstart.trans hlo,hhi.trans_le hstop⟩⟩

/-- The ranges of everything but the window. -/
theorem front_ranges (hlinked : Linked tatu) (h : Ran libs tatu input b)
    (hpacked : Packed tatu b.kernel.parsed.arch) : (front tatu input b).map regionRange=
      (tatu.reserved.filter fun r => decide (0 < r.start))++ownRanges b++
        registers (dtbInputs input b.kernel b.lay) := by
  rw [front,List.map_append,shown_ranges hlinked h hpacked,board_ranges h]

/-- No two of them overlap, wherever the window is. -/
theorem front_separate (hlinked : Linked tatu) (h : Ran libs tatu input b)
    (hpacked : Packed tatu b.kernel.parsed.arch) :
    ((front tatu input b).map regionRange).Pairwise Region.Separate := by
  obtain ⟨hsections,hfixed,hcross⟩ := List.pairwise_append.mp hpacked.separate
  have hplan := plan_ok h.plan
  have hcarved : ∀ c∈carved b.lay, ∀ r∈tatu.reserved++archReserved b.kernel.parsed.arch,
      c.Separate r := by
    intro c hc r hr
    have hband := hplan.band r.toSet
      (List.mem_append_right _ (List.mem_cons_of_mem _ (List.mem_map_of_mem hr)))
    exact hband.disjoint.mono_left (carved_subset h hc)
  rw [front_ranges hlinked h hpacked,
    pairwise_separate_perm ((registers_perm h).append_left _)]
  refine List.pairwise_append.mpr ⟨List.pairwise_append.mpr ⟨hsections.filter _,own_pairwise h,?_⟩,
    List.pairwise_append.mpr ⟨hfixed,hplan.carved,?_⟩,?_⟩
  · intro r hr e he
    exact separate_comm.mp (own_reserved h he (List.mem_append_left _ (List.mem_filter.mp hr).1))
  · intro r hr c hc
    exact separate_comm.mp (hcarved c hc r (List.mem_append_right _ hr))
  · intro r hr s hs
    rcases List.mem_append.mp hr with hr | hr
    · have hmem := (List.mem_filter.mp hr).1
      rcases List.mem_append.mp hs with hs | hs
      · exact hcross r hmem s hs
      · exact separate_comm.mp (hcarved s hs r (List.mem_append_left _ hmem))
    · rcases List.mem_append.mp hs with hs | hs
      · exact own_reserved h hr (List.mem_append_right _ hs)
      · refine own_disjoint h hr fun t ht => ?_
        have hband := hplan.band t (List.mem_append_left _ ht)
        exact hband.symm.mono (Set.Subset.refl t) (carved_subset h hs)

/-- A region of the board is a device with the addresses of a register. -/
theorem board_region (h : Ran libs tatu input b) {r : Region}
    (hr : r∈boardRegions (dtbInputs input b.kernel b.lay)) :
    r.kind=.device ∧ regionRange r∈registers (dtbInputs input b.kernel b.lay) := by
  obtain ⟨c,-,hc⟩ := List.mem_flatMap.mp hr
  exact ⟨childDevices_kind r hc,board_ranges h ▸ List.mem_map_of_mem hr⟩

/-- A section that is shown is a payload. -/
theorem shown_region {r : Region} (hr : r∈sectionsShown tatu b) :
    ∃ s∈b.sections tatu .attached, s.nonLoaded=false ∧ 0 < s.vaddr ∧ r=payloadRegion s := by
  obtain ⟨s,hs,rfl⟩ := List.mem_map.mp hr
  obtain ⟨hmem,hshown⟩ := List.mem_filter.mp hs
  rw [Bool.and_eq_true,Bool.not_eq_true',decide_eq_true_eq] at hshown
  exact ⟨s,hmem,hshown.1,hshown.2,rfl⟩

/-- None of them is a window or its buddy. -/
theorem front_kind (h : Ran libs tatu input b) :
    ∀ r∈front tatu input b, r.kind≠.window ∧ r.kind≠.burned := by
  intro r hr
  rcases List.mem_append.mp hr with hr | hr
  · obtain ⟨s,-,-,-,rfl⟩ := shown_region hr
    change Kind.payload≠.window ∧ Kind.payload≠.burned
    decide
  · rw [(board_region h hr).1]
    decide

/-- The devices are the regions of the board. -/
theorem device_mem {r : Region} (hr : r∈regions tatu input b) (hkind : r.kind=.device) :
    r∈boardRegions (dtbInputs input b.kernel b.lay) := by
  rcases List.mem_append.mp hr with hr | hr
  · obtain ⟨s,-,-,-,rfl⟩ := shown_region hr
    cases hkind
  · rcases List.mem_append.mp hr with hr | hr
    · exact hr
    · cases hwindow : b.lay.pciWindow with
      | none =>
        rw [hwindow] at hr
        cases hr
      | some w =>
        rw [hwindow,windowRegions] at hr
        rcases List.mem_cons.mp hr with rfl | hr
        · cases hkind
        · rw [List.mem_singleton.mp hr] at hkind
          cases hkind

/-- A region of the board is not empty and ends in the lower half of the words. -/
theorem board_words (h : Ran libs tatu input b) {r : Region}
    (hr : r∈boardRegions (dtbInputs input b.kernel b.lay)) : 0 < r.size ∧ r.base+r.size≤2^63 := by
  obtain ⟨⟨hsome,hstop⟩,-⟩ := registers_words h.plan _ (board_region h hr).2
  have hstart : (regionRange r).start=r.base := rfl
  have hend : (regionRange r).stop=r.base+r.size := rfl
  exact ⟨by omega,hstop⟩

/-- All of them are nonempty and end at words. -/
theorem front_sized (hlinked : Linked tatu) (h : Ran libs tatu input b)
    (hmode : input.dtbMode=.attached) (hpacked : Packed tatu b.kernel.parsed.arch) :
    ∀ r∈front tatu input b, Sized r := by
  intro r hr
  rcases List.mem_append.mp hr with hr | hr
  · obtain ⟨s,hs,hload,-,rfl⟩ := shown_region hr
    obtain ⟨hsome,hdata⟩ := loaded_fits hlinked h hpacked s hs hload
    obtain ⟨hcover,hpadded⟩ := emittedSize_bounds hdata
    have hfits := h.fits (hmode ▸ hs)
    have hvaddr := hfits.vaddr hload
    have hsize := hfits.virtualSize
    have hend : wholeUnits fileAlignment s.virtualSize≤2^32 :=
      wholeUnits_le (by decide) (by decide) hsize.le
    have hword : s.vaddr+emittedSize s<2^64 := by omega
    exact ⟨hsome.trans_le hcover,hword⟩
  · obtain ⟨hsome,hstop⟩ := board_words h hr
    exact ⟨hsome,by omega⟩

/-- The island of the devices starts at a unit, wherever the window is. -/
theorem island_edge (h : Ran libs tatu input b) (window : Option (ℕ×ℕ)) :
    ∀ r∈islandRegions (regions tatu input b) window,
      ∃ s∈islandRegions (regions tatu input b) window, s.base≤r.base ∧ twoMib∣s.base := by
  have hperm := registers_perm h
  have hedge : ∀ r∈registers (dtbInputs input b.kernel b.lay),
      ∃ s∈registers (dtbInputs input b.kernel b.lay), s.start≤r.start ∧ gran∣s.start := by
    intro r hr
    rcases List.mem_append.mp (hperm.mem_iff.mp hr) with hr | hr
    · obtain ⟨s,hs,hle,hunit⟩ := archReserved_edge _ r hr
      exact ⟨s,hperm.mem_iff.mpr (List.mem_append_left _ hs),hle,hunit⟩
    · obtain ⟨s,hs,hle,hunit⟩ := plan_edge h.plan r hr
      exact ⟨s,hperm.mem_iff.mpr (List.mem_append_right _ hs),hle,hunit⟩
  intro r hr
  obtain ⟨hmem,hisland⟩ := List.mem_filter.mp hr
  rw [Bool.and_eq_true,decide_eq_true_eq] at hisland
  obtain ⟨s,hs,hle,hunit⟩ := hedge _ (board_region h (device_mem hmem hisland.1)).2
  rw [←board_ranges h] at hs
  obtain ⟨low,hlow,rfl⟩ := List.mem_map.mp hs
  have hlowmem : low∈regions tatu input b := List.mem_append_right _ (List.mem_append_left _ hlow)
  refine ⟨low,List.mem_filter.mpr ⟨hlowmem,?_⟩,hle,hunit⟩
  rw [Bool.and_eq_true,decide_eq_true_eq]
  refine ⟨(board_region h hlow).1,?_⟩
  cases window with
  | none => rfl
  | some w =>
    rw [Option.all_some,decide_eq_true_eq] at hisland ⊢
    exact hle.trans_lt hisland.2

/-- Everything ends below the window exactly when what is reserved does and the payloads have
room there. -/
theorem front_below_iff (hlinked : Linked tatu) (h : Ran libs tatu input b)
    (hpacked : Packed tatu b.kernel.parsed.arch) {w : Range} (hw : w∈b.lay.pciWindow) :
    (∀ r∈(front tatu input b).map regionRange, r.stop≤w.start) ↔
      (∀ r∈(plannerFor input tatu b.kernel).reserved, 0 < r.start → r.stop≤w.start) ∧
        Room (plannerFor input tatu b.kernel) := by
  obtain ⟨hslots,hwindow,-⟩ := plan_window h.plan hw
  have hlimit : w.start=limit (plannerFor input tatu b.kernel).args := by
    rw [limit,if_pos hslots,hwindow]
    rfl
  have hpos : 0<w.start := by
    rw [hwindow]
    exact Nat.two_pow_pos _
  have hsome : w.start<w.stop := by
    rw [hwindow]
    exact Nat.lt_add_of_pos_right (Nat.two_pow_pos _)
  have hperm := registers_perm h
  rw [←(plan_steps h.plan).below_iff,←hlimit,front_ranges hlinked h hpacked]
  constructor
  · intro hbelow
    refine ⟨fun r hr hstart => ?_,fun r hr => ?_⟩
    · refine hbelow r ?_
      rcases List.mem_append.mp hr with hr | hr
      · exact List.mem_append_left _ (List.mem_append_left _
          (List.mem_filter.mpr ⟨hr,decide_eq_true hstart⟩))
      · exact List.mem_append_right _ (hperm.mem_iff.mpr (List.mem_append_left _ hr))
    · by_cases hstart : 0 < r.start
      · obtain ⟨e,he,hemitted⟩ := forall₂_mem (own_emitted h) hr
        have hshown : e∈ownRanges b :=
          List.mem_filter.mpr ⟨he,decide_eq_true (hemitted.start ▸ hstart)⟩
        have hle := hbelow e (List.mem_append_left _ (List.mem_append_right _ hshown))
        exact hemitted.stop.trans hle
      · -- the check does not see what is at address zero, but it is apart from the window
        obtain ⟨s,hs,hsub⟩ := payload_subset hr
        have hapart := ((plan_ok h.plan).fixed s hs _ List.mem_cons_self).disjoint
        rw [Option.mem_def.mp hw,optSet_some] at hapart
        exact stop_le_of_separate (by omega) hsome (hapart.mono_left hsub)
  · rintro ⟨hreserved,hroom⟩ r hr
    rcases List.mem_append.mp hr with hr | hr
    · rcases List.mem_append.mp hr with hr | hr
      · obtain ⟨hmem,hstart⟩ := List.mem_filter.mp hr
        exact hreserved r (List.mem_append_left _ hmem) (of_decide_eq_true hstart)
      · obtain ⟨payload,hpayload,hemitted⟩ := own_mem h hr
        have hend := hroom payload hpayload
        have hpart := (payloads_aligned h payload hpayload).2
        have hstart := hemitted.start
        exact stop_le_of_separate (by omega) hsome (own_window h hr hw)
    · rcases List.mem_append.mp (hperm.mem_iff.mp hr) with hr | hr
      · exact hreserved r (List.mem_append_right _ hr) (archReserved_pos _ r hr)
      · have hdevice := devices_below h.plan (List.mem_append_left _ hr)
        rw [hwindow]
        exact hdevice

/-- The numbers of a planned window. -/
theorem window_numbers (h : Ran libs tatu input b) {w : Range} (hw : w∈b.lay.pciWindow) :
    w.start=2^((plannerFor input tatu b.kernel).args.addrSpaceBits-1) ∧
      BaseDtb.sizeOf w=2^(plannerFor input tatu b.kernel).args.windowBits ∧
      (plannerFor input tatu b.kernel).args.windowBits+2≤
        (plannerFor input tatu b.kernel).args.addrSpaceBits ∧
      (plannerFor input tatu b.kernel).args.addrSpaceBits≤64 := by
  obtain ⟨hslots,hwindow,hword⟩ := plan_window h.plan hw
  rw [hwindow] at hword ⊢
  have hstart : (window (plannerFor input tatu b.kernel).args).start≤
      (window (plannerFor input tatu b.kernel).args).stop := Nat.le_add_right _ _
  have hbits : 2^((plannerFor input tatu b.kernel).args.addrSpaceBits-1)<2^64 :=
    hstart.trans_lt (by omega)
  have hlt := (Nat.pow_lt_pow_iff_right (by decide)).mp hbits
  exact ⟨rfl,Nat.add_sub_cancel_left _ _,(plan_steps h.plan).window hslots,by omega⟩

/-- The window that the check looks at is the one that was planned. -/
theorem windowOf_regions (h : Ran libs tatu input b) :
    windowOf (sortByBase (regions tatu input b))=
      b.lay.pciWindow.map fun w => (w.start,BaseDtb.sizeOf w) := by
  have hfind := @windowOf_eq (regions tatu input b) (windowRegions b.lay.pciWindow).head? ?_ ?_
  · rw [hfind]
    cases b.lay.pciWindow <;> rfl
  · intro r hr
    refine ⟨List.mem_append_right _ (List.mem_append_right _ (List.mem_of_mem_head? hr)),?_⟩
    cases hwindow : b.lay.pciWindow with
    | none =>
      rw [hwindow] at hr
      cases hr
    | some w =>
      rw [hwindow] at hr
      cases hr
      rfl
  · intro r hr hkind
    rw [regions_eq] at hr
    rcases List.mem_append.mp hr with hr | hr
    · exact absurd hkind (front_kind h r hr).1
    · cases hwindow : b.lay.pciWindow with
      | none =>
        rw [hwindow] at hr
        cases hr
      | some w =>
        rw [hwindow,windowRegions] at hr
        rcases List.mem_cons.mp hr with rfl | hr
        · rfl
        · rw [List.mem_singleton.mp hr] at hkind
          cases hkind

/-- Without a window every build checks clean. -/
theorem clean_of_none (hlinked : Linked tatu) (h : Ran libs tatu input b)
    (hmode : input.dtbMode=.attached) (hpacked : Packed tatu b.kernel.parsed.arch)
    {check : Check.Libs} (hread : ReadBack check input b) (checks : Bool)
    (hnone : b.lay.pciWindow=none) : Check.run check checks b.pe=.ok () := by
  have hregions : regions tatu input b=front tatu input b := by
    rw [regions_eq,hnone]
    exact List.append_nil _
  have hwindow := windowOf_regions h
  rw [hnone,Option.map_none] at hwindow
  have hsized := front_sized hlinked h hmode hpacked
  refine (run_tidy_iff (shows h hmode hlinked hread checks) hwindow (hregions ▸ hsized)
    (fun w hw => absurd hw (Option.not_mem_none w))
    fun r hr hkind => (board_words h (device_mem hr hkind)).2).mpr ?_
  refine ⟨?_,fun w hw => absurd hw (Option.not_mem_none w),
    fun w hw => absurd hw (Option.not_mem_none w),island_edge h none⟩
  rw [hregions]
  exact front_separate hlinked h hpacked

/-- A build with a window checks clean only when the window is a quarter of the address
space, and its end is a word. -/
theorem quarter_of_clean (hlinked : Linked tatu) (h : Ran libs tatu input b)
    (hmode : input.dtbMode=.attached) {check : Check.Libs} (hread : ReadBack check input b)
    {checks : Bool} {w : Range} (hw : w∈b.lay.pciWindow)
    (hclean : Check.run check checks b.pe=.ok ()) :
    (plannerFor input tatu b.kernel).args.windowBits+2=
        (plannerFor input tatu b.kernel).args.addrSpaceBits ∧
      (plannerFor input tatu b.kernel).args.addrSpaceBits<64 := by
  obtain ⟨hstart,hsize,hbits,hword⟩ := window_numbers h hw
  generalize (plannerFor input tatu b.kernel).args.windowBits=bits at hsize hbits ⊢
  generalize (plannerFor input tatu b.kernel).args.addrSpaceBits=space at hstart hbits hword ⊢
  obtain ⟨-,-,hwindow,-⟩ := (run_iff (shows h hmode hlinked hread checks)).mp hclean
  rw [windowOf_regions h,Option.mem_def.mp hw,Option.map_some,hstart,hsize] at hwindow
  have hdouble : 2*2^bits=2^(bits+1) := by rw [Nat.pow_succ,Nat.mul_comm]
  have hhalf : 2^(bits+1)≤2^(space-1) := Nat.pow_le_pow_right (by decide) (by omega)
  have hspace : 2^(space-1)≤2^63 := Nat.pow_le_pow_right (by decide) (by omega)
  have htop := spaceTop_of_ok (by omega) (Nat.two_pow_pos _) hwindow
  rw [hdouble] at htop
  have heq := (isPowerOfTwo_add (by omega)).mp htop.1
  have hsum : 2^(bits+1)+2^(bits+1)=2^(bits+2) := by rw [Nat.pow_succ 2 (bits+1)]; omega
  rw [←heq,hsum] at htop
  have hlt := (Nat.pow_lt_pow_iff_right (by decide)).mp htop.2
  omega

/-- A window that is a quarter of the address space starts at its middle. -/
theorem quarter_numbers (h : Ran libs tatu input b) {w : Range} (hw : w∈b.lay.pciWindow)
    (hquarter : (plannerFor input tatu b.kernel).args.windowBits+2=
      (plannerFor input tatu b.kernel).args.addrSpaceBits) :
    BaseDtb.sizeOf w=2^(plannerFor input tatu b.kernel).args.windowBits ∧
      w.start=2*BaseDtb.sizeOf w ∧
      w.start+2*BaseDtb.sizeOf w=2^(plannerFor input tatu b.kernel).args.addrSpaceBits := by
  obtain ⟨hstart,hsize,-,-⟩ := window_numbers h hw
  rw [←hquarter] at hstart ⊢
  generalize (plannerFor input tatu b.kernel).args.windowBits=bits at hstart hsize
  have hbase : w.start=2*2^bits := by
    rw [hstart,Nat.add_sub_assoc (by decide),Nat.pow_succ,Nat.mul_comm]
  refine ⟨hsize,hsize ▸ hbase,?_⟩
  rw [hbase,hsize,Nat.pow_add]
  omega

/-- A tidy layout has everything below the window. -/
theorem below_of_tidy (h : Ran libs tatu input b) {w : Range} (hw : w∈b.lay.pciWindow)
    (htidy : Tidy (regions tatu input b) (some (w.start,BaseDtb.sizeOf w))) :
    ∀ r∈(front tatu input b).map regionRange, r.stop≤w.start := by
  have hregions : regions tatu input b=front tatu input b++windowRegions (some w) := by
    rw [regions_eq,Option.mem_def.mp hw]
  intro r hr
  obtain ⟨region,hregion,rfl⟩ := List.mem_map.mp hr
  obtain ⟨hnotWindow,hnotBurned⟩ := front_kind h region hregion
  have hmem : region∈regions tatu input b := hregions ▸ List.mem_append_left _ hregion
  obtain ⟨hlow,-⟩ := htidy.below _ rfl region hmem hnotWindow hnotBurned
  have hseparate := htidy.separate
  rw [hregions,List.map_append] at hseparate
  have hapart := (List.pairwise_append.mp hseparate).2.2 _ hr _ List.mem_cons_self
  have hsome : w.start<w.start+BaseDtb.sizeOf w :=
    Nat.lt_add_of_pos_right (window_words h hw).2.1
  exact @stop_le_of_separate _ _ _ ⟨w.start,w.start+BaseDtb.sizeOf w⟩ hlow hsome hapart

/-- With everything below a window that is a quarter of the address space the layout is tidy. -/
theorem tidy_of_below (hlinked : Linked tatu) (h : Ran libs tatu input b)
    (hmode : input.dtbMode=.attached) (hpacked : Packed tatu b.kernel.parsed.arch) {w : Range}
    (hw : w∈b.lay.pciWindow) (hquarter : (plannerFor input tatu b.kernel).args.windowBits+2=
      (plannerFor input tatu b.kernel).args.addrSpaceBits)
    (hbelow : ∀ r∈(front tatu input b).map regionRange, r.stop≤w.start) :
    Tidy (regions tatu input b) (some (w.start,BaseDtb.sizeOf w)) := by
  obtain ⟨hsize,hbase,hspace⟩ := quarter_numbers h hw hquarter
  have hregions : regions tatu input b=front tatu input b++windowRegions (some w) := by
    rw [regions_eq,Option.mem_def.mp hw]
  refine ⟨?_,fun v hv => ?_,fun v hv r hr hnotWindow hnotBurned => ?_,island_edge h _⟩
  · rw [hregions,List.map_append]
    refine List.pairwise_append.mpr ⟨front_separate hlinked h hpacked,
      List.pairwise_pair.mpr (separate_of_le le_rfl),fun r hr s hs => ?_⟩
    refine separate_of_le ((hbelow r hr).trans ?_)
    rcases List.mem_cons.mp hs with rfl | hs
    · exact le_rfl
    · rw [List.mem_singleton.mp hs]
      exact Nat.le_add_right _ _
  · cases hv
    refine ⟨isPowerOfTwo_iff.mpr ⟨_,hsize⟩,?_,isPowerOfTwo_iff.mpr ⟨_,hspace⟩⟩
    exact hbase ▸ Nat.dvd_mul_left _ _
  · cases hv
    rw [hregions] at hr
    rcases List.mem_append.mp hr with hr | hr
    · have hend : r.base+r.size≤w.start := hbelow _ (List.mem_map_of_mem hr)
      have hsome := (front_sized hlinked h hmode hpacked r hr).nonempty
      dsimp only
      omega
    · rcases List.mem_cons.mp hr with rfl | hr
      · exact absurd rfl hnotWindow
      · rw [List.mem_singleton.mp hr] at hnotBurned
        exact absurd rfl hnotBurned

/-- A build whose window is a quarter of the address space checks clean exactly when everything
ends below the window. -/
theorem clean_of_quarter (hlinked : Linked tatu) (h : Ran libs tatu input b)
    (hmode : input.dtbMode=.attached) (hpacked : Packed tatu b.kernel.parsed.arch)
    {check : Check.Libs} (hread : ReadBack check input b) (checks : Bool) {w : Range}
    (hw : w∈b.lay.pciWindow) (hquarter : (plannerFor input tatu b.kernel).args.windowBits+2=
      (plannerFor input tatu b.kernel).args.addrSpaceBits)
    (hword : (plannerFor input tatu b.kernel).args.addrSpaceBits<64) :
    Check.run check checks b.pe=.ok () ↔
      ∀ r∈(front tatu input b).map regionRange, r.stop≤w.start := by
  obtain ⟨-,-,hspace⟩ := quarter_numbers h hw hquarter
  have hlt : 2^(plannerFor input tatu b.kernel).args.addrSpaceBits<2^64 :=
    Nat.pow_lt_pow_right (by decide) hword
  have hpos := (window_words h hw).2.1
  have hsized : ∀ r∈regions tatu input b, Sized r := by
    rw [regions_eq,Option.mem_def.mp hw]
    refine List.forall_mem_append.mpr ⟨front_sized hlinked h hmode hpacked,
      List.forall_mem_cons.mpr ⟨⟨hpos,?_⟩,List.forall_mem_singleton.mpr ⟨hpos,?_⟩⟩⟩
    · exact show w.start+BaseDtb.sizeOf w<2^64 by omega
    · exact show w.start+BaseDtb.sizeOf w+BaseDtb.sizeOf w<2^64 by omega
  have hwindow := windowOf_regions h
  rw [Option.mem_def.mp hw,Option.map_some] at hwindow
  rw [run_tidy_iff (shows h hmode hlinked hread checks) hwindow hsized
    (fun v hv => by cases hv; omega)
    fun r hr hkind => (board_words h (device_mem hr hkind)).2]
  exact ⟨below_of_tidy h hw,tidy_of_below hlinked h hmode hpacked hw hquarter⟩

end Finished

/-- A build with an attached devicetree checks clean exactly when it has no BAR window or the
check accepts the window and everything else is below it. -/
theorem run_clean_iff {libs : Libs} {tatu : TatuImage} {input : BuildInput} {b : Built}
    {check : Check.Libs} (hlinked : Linked tatu) (h : Run.run libs tatu input=.ok b)
    (hmode : input.dtbMode=.attached) (hpacked : Packed tatu b.kernel.parsed.arch)
    (hread : ReadBack check input b) (checks : Bool) :
    Check.run check checks b.pe=.ok () ↔
      (0 < input.pciSlots → WindowFits (plannerFor input tatu b.kernel)) := by
  have hran := run_ok h
  have hplanned := (plan_ok hran.plan).window
  by_cases hslots : 0 < input.pciSlots
  · have hw : window (plannerFor input tatu b.kernel).args∈b.lay.pciWindow := by
      rw [hplanned]
      exact if_pos hslots
    have hiff := front_below_iff hlinked hran hpacked hw
    constructor
    · intro hclean _
      obtain ⟨hquarter,hword⟩ := quarter_of_clean hlinked hran hmode hread hw hclean
      have hbelow := (clean_of_quarter hlinked hran hmode hpacked hread checks hw hquarter
        hword).mp hclean
      obtain ⟨hreserved,hroom⟩ := hiff.mp hbelow
      exact ⟨hquarter,hword,hreserved,hroom⟩
    · intro hfits
      obtain ⟨hquarter,hword,hreserved,hroom⟩ := hfits hslots
      exact (clean_of_quarter hlinked hran hmode hpacked hread checks hw hquarter hword).mpr
        (hiff.mpr ⟨hreserved,hroom⟩)
  · have hnone : b.lay.pciWindow=none := hplanned.trans (if_neg hslots)
    exact iff_of_true (clean_of_none hlinked hran hmode hpacked hread checks hnone)
      fun hpos => absurd hpos hslots

/-- The libraries of a build with one ELF to parse and a manifest that has only the name of the
devicetree. -/
def attachedLibs : Libs where
  elfParse _ := some Kernel.Coverage.sampleElf
  fdtWrite t := some (Devtree.flatten t)
  cborEncode _ := some ([0xa1,0x66]++asBytes "dt:dtb"++[0x69]++asBytes sectionDtb)

/-- A build of that ELF with a serial port, a transport, a PCI slot and a BAR window. -/
def slotInput (pciWindow : Option ℕ) : BuildInput :=
  ⟨Kernel.Coverage.sampleFile 0,none,"quiet",false,true,1,1,none,pciWindow,"x86-64-v3",.attached⟩

/-- Parsers that read back what a build wrote. -/
def readers (input : BuildInput) (b : Built) : Check.Libs where
  peParse := readTable
  cborDecode bytes := if b.payload.cbor<+:bytes then some (.map (input.dtbMode.attribute.map
    fun name => (Value.text "dt:dtb",Value.text name)).toList) else none
  fdtParse bytes := if b.payload.dtbBytes<+:bytes then
    some (tree (dtbInputs input b.kernel b.lay)) else none

/-- They do. -/
theorem readBack_readers (input : BuildInput) (b : Built) :
    ReadBack (readers input b) input b := by
  refine ⟨rfl,fun n => ⟨_,if_pos (List.prefix_append _ _),?_⟩,
    fun n => if_pos (List.prefix_append _ _)⟩
  cases input.dtbMode.attribute with
  | none => rfl
  | some name => simp [valuesOf]

/-- tatu with a page at the reset vector is linked for that. -/
theorem linked_reset : Linked Mapped.resetTatu := by
  refine ⟨by decide,by decide,⟨sampleSection ".tatu.dtb" 0x2000 [],?_,rfl⟩,
    ⟨sampleSection ".tatu.dtbo" 0x3000 [],?_,rfl,rfl⟩⟩
  · simp [Mapped.resetTatu]
  · simp [Mapped.resetTatu]

/-- Its sections are pages off the fixed devices. -/
theorem packed_reset : Packed Mapped.resetTatu .x86_64 := by
  refine ⟨by decide,by decide,by decide,?_⟩
  have hoff : (Mapped.resetTatu.reserved++archReserved .x86_64).Pairwise fun r s =>
      r.overlaps s=false := by decide
  exact hoff.imp separate_of_overlaps_false

/-- A build with the default window checks clean. -/
theorem run_clean_iff_slot : ∃ b, Run.run attachedLibs Mapped.resetTatu (slotInput none)=.ok b ∧
    ∀ checks, Check.run (readers (slotInput none) b) checks b.pe=.ok () := by
  obtain ⟨b,pe,hb,htest⟩ := @exists_run attachedLibs Mapped.resetTatu (slotInput none)
    (fun b => decide (b.kernel.parsed.arch=.x86_64 ∧ ∀ r∈payloadRanges b.lay, r.stop≤2^38))
    (by decide +kernel)
  obtain ⟨harch,hpayloads⟩ := of_decide_eq_true htest
  refine ⟨_,hb,fun checks => (run_clean_iff linked_reset hb rfl ?_
    (readBack_readers (slotInput none) _) checks).mpr fun _ => ?_⟩
  · rw [harch]
    exact packed_reset
  · have hargs : (plannerFor (slotInput none) Mapped.resetTatu b.kernel).args=
        ⟨true,1,1,37,39⟩ := by
      rw [plannerFor,harch]
      rfl
    have hreserved : (plannerFor (slotInput none) Mapped.resetTatu b.kernel).reserved=
        Mapped.resetTatu.reserved++archReserved .x86_64 := by
      rw [plannerFor,harch]
    have hran := run_ok hb
    refine ⟨?_,?_,?_,(plan_steps hran.plan).below_iff.mp ?_⟩
    · rw [hargs]
    · rw [hargs]
      decide
    · rw [hargs,hreserved]
      decide
    · rw [hargs]
      exact hpayloads

/-- One with a smaller window does not: what is left above it is not a power of two. -/
theorem window_rejected : ∃ b,
    Run.run attachedLibs Mapped.resetTatu (slotInput (some 30))=.ok b ∧
      ReadBack (readers (slotInput (some 30)) b) (slotInput (some 30)) b ∧
      ∀ checks, Check.run (readers (slotInput (some 30)) b) checks b.pe≠.ok () := by
  obtain ⟨b,pe,hb,htest⟩ := @exists_run attachedLibs Mapped.resetTatu (slotInput (some 30))
    (fun b => decide (b.kernel.parsed.arch=.x86_64)) (by decide +kernel)
  have harch : b.kernel.parsed.arch=.x86_64 := of_decide_eq_true htest
  have hargs : (plannerFor (slotInput (some 30)) Mapped.resetTatu b.kernel).args=
      ⟨true,1,1,30,39⟩ := by
    rw [plannerFor,harch]
    rfl
  have hran := run_ok hb
  have hw : window ⟨true,1,1,30,39⟩∈b.lay.pciWindow := by
    have hplanned := (plan_ok hran.plan).window
    rw [hargs] at hplanned
    exact hplanned
  refine ⟨_,hb,readBack_readers _ _,fun checks hclean => ?_⟩
  have hquarter := (quarter_of_clean linked_reset hran rfl
    (readBack_readers (slotInput (some 30)) _) hw hclean).1
  rw [hargs] at hquarter
  exact absurd hquarter (by decide)

end Arma.Build.Clean
