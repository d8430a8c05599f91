import Arma.Check.Disjoint

/-!
# When a layout is clean

The check prints no problem exactly when the regions are separate, the window is the lower
of the two buddies that end the address space with everything else below it, and the lowest
device is aligned. The sums of the check must not leave 64 bits for that.
-/

namespace Arma.Check.Clean

open Base.ByteString Base.Checked Check.Disjoint Planner.Model
open Base.Intervals hiding Region

/-- A sum that is a word is what it is. -/
theorem word_eq {checks : Bool} {v : ℕ} (h : v<2^64) : word checks v=.ok v := if_pos h

/-- A power of two. -/
theorem isPowerOfTwo_iff {a : ℕ} : isPowerOfTwo a=true ↔ ∃ k, a=2^k := by
  rw [isPowerOfTwo,Bool.and_eq_true,decide_eq_true_eq,decide_eq_true_eq]
  constructor
  · rintro ⟨hne,hand⟩
    exact (Nat.and_sub_one_eq_zero_iff_isPowerOfTwo hne).mp hand
  · rintro ⟨k,rfl⟩
    have hne : 2^k≠0 := (Nat.two_pow_pos k).ne'
    exact ⟨hne,(Nat.and_sub_one_eq_zero_iff_isPowerOfTwo hne).mpr ⟨k,rfl⟩⟩

/-- Two powers of two are a power of two together only if they are equal. -/
theorem isPowerOfTwo_add {m n : ℕ} (hle : n≤ m) : isPowerOfTwo (2^m+2^n)=true ↔ n=m := by
  rw [isPowerOfTwo_iff]
  constructor
  · rintro ⟨k,hk⟩
    by_contra hne
    have hlt : 2^n<2^m := Nat.pow_lt_pow_right (by decide) (by omega)
    have hpos := Nat.two_pow_pos n
    have hlow : m<k := (Nat.pow_lt_pow_iff_right (a := 2) (by decide)).mp (by omega)
    have hhigh : k < m+1 :=
      (Nat.pow_lt_pow_iff_right (a := 2) (by decide)).mp (by rw [Nat.pow_succ]; omega)
    omega
  · rintro rfl
    exact ⟨n+1,by rw [Nat.pow_succ]; omega⟩

/-- A region has an address, and its end is a word. -/
structure Sized (r : Region) : Prop where
  /-- It is not empty. -/
  nonempty : 0 < r.size
  /-- Its end does not leave 64 bits. -/
  word : r.base+r.size<2^64

/-- A region with an address is not empty as a range. -/
theorem Sized.range {r : Region} (h : Sized r) : (regionRange r).start<(regionRange r).stop := by
  have hpos := h.nonempty
  change r.base<r.base+r.size
  omega

/-- What is left of a clean layout once the parsers are through. -/
structure Tidy (regions : List Region) (window : Option (ℕ×ℕ)) : Prop where
  /-- No two regions overlap. -/
  separate : (regions.map regionRange).Pairwise Region.Separate
  /-- The window is aligned, and ends the address space with its buddy. -/
  buddy : ∀ w∈window, isPowerOfTwo w.2=true ∧ w.2∣w.1 ∧ isPowerOfTwo (w.1+2*w.2)=true
  /-- Everything else starts below the window and ends in the address space. -/
  below : ∀ w∈window, ∀ r∈regions, r.kind≠.window → r.kind≠.burned →
    r.base<w.1 ∧ r.base+r.size≤w.1+2*w.2
  /-- The lowest device is aligned. -/
  edge : ∀ r∈islandRegions regions window, ∃ s∈islandRegions regions window,
    s.base≤r.base ∧ twoMib∣s.base

/-- Neighbours that follow one another do not overlap. -/
theorem overlaps_of_chain {checks : Bool} {l : List Region} (hsized : ∀ r∈l, Sized r)
    (h : l.IsChain fun a b => a.base+a.size≤b.base) : overlaps checks l=.ok [] := by
  induction l with
  | nil => rfl
  | cons a l ih =>
    cases l with
    | nil => rfl
    | cons b l =>
      obtain ⟨ha,hsized⟩ := List.forall_mem_cons.mp hsized
      obtain ⟨hab,h⟩ := List.isChain_cons_cons.mp h
      have hnone : overlap checks a b=.ok [] := by
        rw [overlap,ok_bind (word_eq ha.word),if_neg (not_lt.mpr hab)]
      rw [overlaps,ok_bind hnone,ok_bind (ih hsized h)]
      rfl

/-- 1. The scan finds no overlap exactly when no two regions overlap. -/
theorem overlaps_iff {checks : Bool} {regions : List Region} (hsized : ∀ r∈regions, Sized r) :
    overlaps checks (sortByBase regions)=.ok [] ↔
      (regions.map regionRange).Pairwise Region.Separate := by
  have hends : ∀ r∈regions.map regionRange, r.start<r.stop ∧ r.stop<2^64 := by
    intro r hr
    obtain ⟨region,hregion,rfl⟩ := List.mem_map.mp hr
    exact ⟨(hsized region hregion).range,(hsized region hregion).word⟩
  have hperm := sortByBase_perm regions
  constructor
  · intro h
    refine (cleared_of_overlaps h).imp_of_mem fun hr hs hclear => ?_
    rcases hclear with hsep | ⟨hreach,_⟩ | ⟨hreach,_⟩
    · exact hsep
    · exact absurd (hends _ hr).2 (not_lt.mpr hreach)
    · exact absurd (hends _ hs).2 (not_lt.mpr hreach)
  · intro hsep
    have hsorted := (pairwise_separate_perm (hperm.map regionRange)).mpr hsep
    refine overlaps_of_chain (fun r hr => hsized r (hperm.mem_iff.mp hr)) ?_
    have hfollow : ((sortByBase regions).map regionRange).Pairwise fun r s => r.stop≤ s.start := by
      refine ((sortByBase_sorted regions).and hsorted).imp_of_mem fun {r s} _ hs ⟨hle,hrs⟩ => ?_
      by_contra hover
      have hmem := hends s ((hperm.map regionRange).mem_iff.mp hs)
      exact Set.disjoint_left.mp hrs (mem_toSet.mpr ⟨hle,not_le.mp hover⟩)
        (mem_toSet.mpr ⟨le_rfl,hmem.1⟩)
    exact (List.pairwise_map.mp hfollow).isChain

/-- The problems of all elements are none exactly when each has none. -/
theorem mapM_flatten_nil {α : Type} {f : α → Outcome CheckError (List Problem)} {l : List α} :
    (∃ found, l.mapM f=.ok found ∧ found.flatten=[]) ↔ ∀ a∈l, f a=.ok [] := by
  constructor
  · rintro ⟨found,hfound,hnone⟩ a ha
    obtain ⟨problems,hmem,hproblems⟩ := forall₂_mem (mapM_ok.mp hfound) ha
    rw [hproblems,List.flatten_eq_nil_iff.mp hnone problems hmem]
  · intro h
    refine ⟨List.replicate l.length [],mapM_ok.mpr ?_,?_⟩
    · induction l with
      | nil => exact .nil
      | cons a l ih =>
        obtain ⟨ha,h⟩ := List.forall_mem_cons.mp h
        exact .cons ha (ih h)
    · exact List.flatten_eq_nil_iff.mpr fun problems hmem => List.eq_of_mem_replicate hmem

/-- A region is in place exactly when it is part of the window or below it. -/
theorem aboveWindow_iff {checks : Bool} {wb spaceTop : ℕ} {r : Region} (h : Sized r) :
    aboveWindow checks wb spaceTop r=.ok [] ↔
      (r.kind≠.window → r.kind≠.burned → r.base<wb ∧ r.base+r.size≤ spaceTop) := by
  unfold aboveWindow
  split
  · rename_i hkind
    refine ⟨fun _ hwindow hburned => ?_,fun _ => rfl⟩
    exact absurd hkind (not_or.mpr ⟨hwindow,hburned⟩)
  · rename_i hkind
    obtain ⟨hwindow,hburned⟩ := not_or.mp hkind
    rw [ok_bind (word_eq h.word),Except.ok.injEq,List.append_eq_nil_iff,ite_eq_right_iff,
      ite_eq_right_iff]
    constructor
    · rintro ⟨habove,hspace⟩ - -
      refine ⟨not_le.mp fun hle => ?_,not_lt.mp fun hlt => ?_⟩
      · cases habove hle
      · cases hspace hlt
    · intro hplace
      obtain ⟨hbelow,hinside⟩ := hplace hwindow hburned
      exact ⟨fun hle => absurd hle (not_le.mpr hbelow),fun hlt => absurd hlt (not_lt.mpr hinside)⟩

/-- A clean layout with a window ends at a power of two that is a word. -/
theorem spaceTop_of_ok {checks : Bool} {regions : List Region} {wb ws : ℕ}
    (hword : wb+2*ws≤2^64) (hwb : 0<wb)
    (h : windowProblems checks regions (some (wb,ws))=.ok []) :
    isPowerOfTwo (wb+2*ws)=true ∧ wb+2*ws<2^64 := by
  obtain ⟨twice,htwice,h⟩ := bind_ok.mp h
  rw [word_eq (by omega)] at htwice
  cases htwice
  obtain ⟨spaceTop,htop,h⟩ := bind_ok.mp h
  obtain ⟨others,-,h⟩ := bind_ok.mp h
  rw [Except.ok.injEq,List.append_eq_nil_iff,List.append_eq_nil_iff] at h
  have hpow : isPowerOfTwo spaceTop=true := by
    by_contra hnot
    rw [if_pos (Bool.eq_false_of_not_eq_true hnot)] at h
    cases h.1.2
  unfold word at htop
  split at htop
  · rename_i hlt
    cases htop
    exact ⟨hpow,hlt⟩
  · -- the end of the address space wraps to zero, which is no power of two
    rename_i hlt
    have heq : wb+2*ws=2^64 := by omega
    rw [heq,Nat.mod_self] at htop
    cases checks with
    | true => cases htop
    | false =>
      cases htop
      cases hpow

/-- 2. The window is in place exactly when it is the lower buddy and everything else is below
it. -/
theorem windowProblems_iff {checks : Bool} {regions : List Region} {window : Option (ℕ×ℕ)}
    (hsized : ∀ r∈regions, Sized r) (hword : ∀ w∈window, w.1+2*w.2<2^64) :
    windowProblems checks regions window=.ok [] ↔
      (∀ w∈window, isPowerOfTwo w.2=true ∧ w.2∣w.1 ∧ isPowerOfTwo (w.1+2*w.2)=true) ∧
        ∀ w∈window, ∀ r∈regions, r.kind≠.window → r.kind≠.burned →
          r.base<w.1 ∧ r.base+r.size≤w.1+2*w.2 := by
  cases window with
  | none =>
    have hnone : ∀ {P : ℕ×ℕ → Prop}, ∀ w∈(none : Option (ℕ×ℕ)), P w := by
      intro P w hw
      exact absurd hw (Option.not_mem_none w)
    exact ⟨fun _ => ⟨hnone,hnone⟩,fun _ => rfl⟩
  | some w =>
    obtain ⟨wb,ws⟩ := w
    have hsum : wb+2*ws<2^64 := hword _ rfl
    have hplaces : (∃ found, regions.mapM (aboveWindow checks wb (wb+2*ws))=.ok found ∧
        found.flatten=[]) ↔ ∀ r∈regions, r.kind≠.window → r.kind≠.burned →
          r.base<wb ∧ r.base+r.size≤wb+2*ws := by
      rw [mapM_flatten_nil]
      exact forall₂_congr fun r hr => aboveWindow_iff (hsized r hr)
    have hbuddy : (if isPowerOfTwo ws=false then [Problem.windowSize ws]
        else if wb%ws≠0 then [.windowBase wb] else [])=[] ↔ isPowerOfTwo ws=true ∧ ws∣wb := by
      rw [Nat.dvd_iff_mod_eq_zero]
      cases isPowerOfTwo ws <;> simp
    have htop : (if isPowerOfTwo (wb+2*ws)=false then [Problem.spaceTop (wb+2*ws)] else [])=[] ↔
        isPowerOfTwo (wb+2*ws)=true := by
      cases isPowerOfTwo (wb+2*ws) <;> simp
    simp only [Option.mem_some_iff,forall_eq',←hplaces]
    rw [windowProblems,ok_bind (word_eq (by omega)),ok_bind (word_eq hsum),bind_ok]
    constructor
    · rintro ⟨others,hothers,h⟩
      rw [Except.ok.injEq,List.append_eq_nil_iff,List.append_eq_nil_iff,hbuddy,htop] at h
      exact ⟨⟨h.1.1.1,h.1.1.2,h.1.2⟩,others,hothers,h.2⟩
    · rintro ⟨⟨hsize,hbase,hend⟩,others,hothers,hnone⟩
      refine ⟨others,hothers,?_⟩
      rw [Except.ok.injEq,List.append_eq_nil_iff,List.append_eq_nil_iff,hbuddy,htop]
      exact ⟨⟨⟨hsize,hbase⟩,hend⟩,hnone⟩

/-- Regions that are all sized have their ends computed. -/
theorem ends_eq {checks : Bool} {l : List Region} (h : ∀ r∈l, Sized r) :
    (l.mapM fun r => word checks (r.base+r.size))=.ok (l.map fun r => r.base+r.size) := by
  refine mapM_ok.mpr ?_
  induction l with
  | nil => exact .nil
  | cons r l ih =>
    obtain ⟨hr,h⟩ := List.forall_mem_cons.mp h
    exact .cons (word_eq hr.word) (ih h)

/-- Rounding up an end adds less than the alignment. -/
theorem top_bounds (n : ℕ) : n≤(n/twoMib+if n%twoMib=0 then 0 else 1)*twoMib ∧
    (n/twoMib+if n%twoMib=0 then 0 else 1)*twoMib≤n+twoMib := by
  have htwoMib : twoMib=2097152 := rfl
  rw [htwoMib]
  split <;> omega

/-- 3. The island is aligned exactly when no device is below an aligned one of them. -/
theorem islandProblems_iff {checks : Bool} {regions : List Region} {window : Option (ℕ×ℕ)}
    (hsized : ∀ r∈islandRegions regions window, Sized r)
    (hroom : ∀ r∈islandRegions regions window, r.base+r.size≤2^63) :
    islandProblems checks regions window=.ok [] ↔
      ∀ r∈islandRegions regions window, ∃ s∈islandRegions regions window,
        s.base≤r.base ∧ twoMib∣s.base := by
  rw [islandProblems,ok_bind (ends_eq hsized)]
  cases hlo : ((islandRegions regions window).map Region.base).min? with
  | none =>
    have hnil := List.map_eq_nil_iff.mp (List.min?_eq_none_iff.mp hlo)
    rw [hnil]
    exact ⟨fun _ r hr => absurd hr List.not_mem_nil,fun _ => rfl⟩
  | some lo =>
    obtain ⟨hmem,hleast⟩ := List.min?_eq_some_iff.mp hlo
    obtain ⟨low,hlow,rfl⟩ := List.mem_map.mp hmem
    cases hhi : ((islandRegions regions window).map fun r => r.base+r.size).max? with
    | none =>
      have hnil := List.map_eq_nil_iff.mp (List.max?_eq_none_iff.mp hhi)
      rw [hnil] at hlow
      exact absurd hlow List.not_mem_nil
    | some hi =>
      obtain ⟨hmem,hmost⟩ := List.max?_eq_some_iff.mp hhi
      obtain ⟨high,hhigh,rfl⟩ := List.mem_map.mp hmem
      have hbound := hroom high hhigh
      have hle := hmost _ (List.mem_map_of_mem hlow)
      have hround := top_bounds (high.base+high.size)
      dsimp only
      generalize ((high.base+high.size)/twoMib+
        if (high.base+high.size)%twoMib=0 then 0 else 1)*twoMib=top at hround ⊢
      have htwoMib : twoMib<2^63 := by decide
      have hdifference : difference checks top low.base=.ok (top-low.base) := if_pos (by omega)
      rw [ok_bind (word_eq (by omega)),ok_bind hdifference,Except.ok.injEq,ite_eq_right_iff]
      constructor
      · intro haligned r hr
        refine ⟨low,hlow,hleast _ (List.mem_map_of_mem hr),Nat.dvd_of_mod_eq_zero ?_⟩
        by_contra hne
        cases haligned hne
      · intro hedge hne
        obtain ⟨s,hs,hbelow,hdvd⟩ := hedge low hlow
        have habove := hleast _ (List.mem_map_of_mem hs)
        rw [le_antisymm hbelow habove] at hdvd
        exact absurd (Nat.mod_eq_zero_of_dvd hdvd) hne

/-- The parsers find these regions: those of the sections and those of the devicetree. -/
def Shows (libs : Libs) (checks : Bool) (bytes : Bytes) (regions : List Region) : Prop :=
  ∃ rows dtb devices, libs.peParse bytes=some rows ∧ baseDtbBytes libs bytes rows=.ok dtb ∧
    deviceRegions libs checks dtb=.ok devices ∧ regions=sectionRegions rows++devices

/-- A check of a parsed image looks for problems of three kinds. -/
theorem run_iff {libs : Libs} {checks : Bool} {bytes : Bytes} {regions : List Region}
    (h : Shows libs checks bytes regions) : run libs checks bytes=.ok () ↔
      render checks (sortByBase regions)=.ok () ∧ overlaps checks (sortByBase regions)=.ok [] ∧
        windowProblems checks (sortByBase regions) (windowOf (sortByBase regions))=.ok [] ∧
          islandProblems checks (sortByBase regions) (windowOf (sortByBase regions))=.ok [] := by
  obtain ⟨rows,dtb,devices,hpe,hdtb,hdevices,rfl⟩ := h
  rw [run,ok_bind (okOr_ok.mpr hpe),ok_bind hdtb,ok_bind hdevices]
  constructor
  · intro hrun
    obtain ⟨_,hrender,hrun⟩ := bind_ok.mp hrun
    obtain ⟨overlapping,hoverlaps,hrun⟩ := bind_ok.mp hrun
    obtain ⟨misplaced,hwindow,hrun⟩ := bind_ok.mp hrun
    obtain ⟨unaligned,hisland,hrun⟩ := bind_ok.mp hrun
    dsimp only at hrun
    split at hrun
    · rename_i hnone
      rw [List.append_eq_nil_iff,List.append_eq_nil_iff] at hnone
      obtain ⟨⟨rfl,rfl⟩,rfl⟩ := hnone
      exact ⟨hrender,hoverlaps,hwindow,hisland⟩
    · exact absurd hrun fail_ne_ok
  · rintro ⟨hrender,hoverlaps,hwindow,hisland⟩
    dsimp only
    rw [ok_bind hrender,ok_bind hoverlaps,ok_bind hwindow,ok_bind hisland]
    rfl

/-- The window of the map is the only one there is. -/
theorem windowOf_eq {regions : List Region} {window : Option Region}
    (hmem : ∀ w∈window, w∈regions ∧ w.kind=.window)
    (honly : ∀ r∈regions, r.kind=.window → r∈window) :
    windowOf (sortByBase regions)=window.map fun w => (w.base,w.size) := by
  have hperm := sortByBase_perm regions
  rw [windowOf]
  cases hfind : (sortByBase regions).find? fun r => decide (r.kind=.window) with
  | none =>
    cases window with
    | none => rfl
    | some w =>
      obtain ⟨hw,hkind⟩ := hmem w rfl
      have hno := List.find?_eq_none.mp hfind w (hperm.mem_iff.mpr hw)
      exact absurd (decide_eq_true hkind) hno
  | some r =>
    have hkind : r.kind=.window := by simpa using List.find?_some hfind
    have hr := hperm.mem_iff.mp (List.mem_of_find?_eq_some hfind)
    rw [Option.mem_def.mp (honly r hr hkind)]

/-- A parsed image whose regions are sized is clean exactly when its layout is tidy. -/
theorem run_tidy_iff {libs : Libs} {checks : Bool} {bytes : Bytes} {regions : List Region}
    {window : Option (ℕ×ℕ)} (h : Shows libs checks bytes regions)
    (hwindow : windowOf (sortByBase regions)=window) (hsized : ∀ r∈regions, Sized r)
    (hword : ∀ w∈window, w.1+2*w.2<2^64)
    (hroom : ∀ r∈regions, r.kind=.device → r.base+r.size≤2^63) :
    run libs checks bytes=.ok () ↔ Tidy regions window := by
  have hperm := sortByBase_perm regions
  have hmem : ∀ {P : Region → Prop}, (∀ r∈sortByBase regions, P r) ↔ ∀ r∈regions, P r :=
    fun {P} => forall_congr' fun r => by rw [hperm.mem_iff]
  have hisland : ∀ r, r∈islandRegions (sortByBase regions) window ↔
      r∈islandRegions regions window := fun r => (hperm.filter _).mem_iff
  have hdevice : ∀ r∈islandRegions regions window, r∈regions ∧ r.kind=.device := by
    intro r hr
    obtain ⟨hr,hkind⟩ := List.mem_filter.mp hr
    rw [Bool.and_eq_true,decide_eq_true_eq] at hkind
    exact ⟨hr,hkind.1⟩
  have hedge := @islandProblems_iff checks (sortByBase regions) window
    (fun r hr => hsized r (hdevice r ((hisland r).mp hr)).1)
    (fun r hr => hroom r (hdevice r ((hisland r).mp hr)).1 (hdevice r ((hisland r).mp hr)).2)
  have hplace := @windowProblems_iff checks (sortByBase regions) window (hmem.mpr hsized) hword
  have hrender : render checks (sortByBase regions)=.ok () := by
    refine forM_ok.mpr fun r hr => ?_
    rw [ok_bind (word_eq (hmem.mpr hsized r hr).word)]
  rw [run_iff h,hwindow,overlaps_iff hsized,hplace,hedge]
  simp only [hisland,hmem]
  constructor
  · rintro ⟨-,hseparate,⟨hbuddy,hbelow⟩,hlow⟩
    exact ⟨hseparate,hbuddy,hbelow,hlow⟩
  · rintro ⟨hseparate,hbuddy,hbelow,hlow⟩
    exact ⟨hrender,hseparate,⟨hbuddy,hbelow⟩,hlow⟩

end Arma.Check.Clean
