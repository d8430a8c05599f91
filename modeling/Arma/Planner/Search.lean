import Arma.Planner.Bound

/-!
# The search for a slot

Every hop of the search leaves a conflicting range behind, so the search ends; it
passes over no free slot, so it returns the lowest one, and it fails only when no
free slot ends in the address space.
-/

namespace Arma.Planner.Search

open Base.Checked Base.Intervals Model Separation Planner.Bound

/-- A list has fewer elements with a property that one of them loses. -/
theorem countP_lt {α : Type} {p q : α → Bool} {l : List α} (hle : ∀ a, p a=true → q a=true) {a : α}
    (ha : a∈l) (hp : p a=false) (hq : q a=true) : l.countP p<l.countP q := by
  induction l with
  | nil => exact absurd ha List.not_mem_nil
  | cons b rest ih =>
    have hrest : rest.countP p ≤ rest.countP q := List.countP_mono_left fun a _ => hle a
    rw [List.countP_cons,List.countP_cons]
    obtain rfl | ha := List.mem_cons.mp ha
    · rw [hp,hq,if_neg (by decide),if_pos rfl]
      omega
    · have hlt := ih ha
      cases hb : p b with
      | true =>
        rw [hle b hb,if_pos rfl]
        omega
      | false =>
        rw [if_neg (by decide)]
        omega

section Align

variable {v a : ℕ} (hpow : isPowerOfTwo a=true)

include hpow

/-- When rounding up overflows, no aligned word is at or above the address. -/
theorem alignUp_none (ha : a<2^64) (h : alignUp v a=.ok none) {g : ℕ} (hg : a∣g) (hvg : v≤g) :
    2^64≤g := by
  rw [alignUp,if_pos hpow] at h
  simp only [Except.ok.injEq,Option.map_eq_none_iff] at h
  rw [isPowerOfTwo,Bool.and_eq_true,decide_eq_true_eq,decide_eq_true_eq] at hpow
  obtain ⟨k,rfl⟩ := (Nat.and_sub_one_eq_zero_iff_isPowerOfTwo hpow.1).mp hpow.2
  have hpos : 0<2^k := Nat.two_pow_pos k
  have hsum : 2^64≤v+(2^k-1) := by
    by_contra hlt
    have hsome : addWord 64 v (2^k-1)=some (v+(2^k-1)) := if_pos (by omega)
    rw [hsome] at h
    cases h
  have hk : k≤64 := ((Nat.pow_lt_pow_iff_right (by decide)).mp ha).le
  obtain ⟨q,rfl⟩ := hg
  -- a multiple below 2^64 lies at least one step below it
  have hspace : 2^64=2^k*2^(64-k) := by
    rw [←pow_add]
    congr 1
    omega
  by_contra hlt
  have hq : q<2^(64-k) := by
    rw [hspace,not_le] at hlt
    exact Nat.lt_of_mul_lt_mul_left hlt
  have hstep : 2^k*(q+1)≤2^64 := by
    rw [hspace]
    exact Nat.mul_le_mul_left _ hq
  rw [Nat.mul_succ] at hstep
  omega

end Align

/-- What one round of the search does. -/
theorem firstFitLoop_cases {size align : ℕ} (hpow : isPowerOfTwo align=true) (sorted : List Range)
    (region : String) (fuel g : ℕ) :
    -- the slot ends outside the address space
    2^64≤g+size ∧ firstFitLoop size align sorted region (fuel+1) g=fail .overflow ∨
    -- the slot is free
    firstFitLoop size align sorted region (fuel+1) g=.ok ⟨g,g+size⟩ ∨
    -- a range is in the way
    ∃ c∈sorted, c.overlaps ⟨g,g+size⟩=true ∧
      (alignUp c.stop align=.ok none ∧
        firstFitLoop size align sorted region (fuel+1) g=fail .overflow ∨
      alignUp c.stop align=.ok (some (2^64-1)) ∧
        firstFitLoop size align sorted region (fuel+1) g=fail (.doesNotFit region size) ∨
      ∃ next, alignUp c.stop align=.ok (some next) ∧
        firstFitLoop size align sorted region (fuel+1) g=
          firstFitLoop size align sorted region fuel next) := by
  rw [firstFitLoop]
  by_cases hlt : g+size<2^64
  · have hstop : addWord 64 g size=some (g+size) := if_pos hlt
    rw [hstop,ok_bind (okOr_ok.mpr rfl)]
    refine .inr ?_
    cases hfind : sorted.find? (·.overlaps ⟨g,g+size⟩) with
    | none =>
      exact .inl rfl
    | some c =>
      have hover := List.find?_some hfind
      refine .inr ⟨c,List.mem_of_find?_eq_some hfind,hover,?_⟩
      have hround : alignUp c.stop align=.ok ((addWord 64 c.stop (align-1)).map
          (clearBits 64 · (align-1))) := if_pos hpow
      cases hnext : (addWord 64 c.stop (align-1)).map (clearBits 64 · (align-1)) with
      | none =>
        rw [hnext] at hround
        refine .inl ⟨hround,?_⟩
        simp only [okOr,bind,Except.bind,hround,fail]
      | some next =>
        rw [hnext] at hround
        by_cases htop : next=2^64-1
        · refine .inr (.inl ⟨htop ▸ hround,?_⟩)
          simp only [okOr,bind,Except.bind,hround]
          exact if_pos htop
        · refine .inr (.inr ⟨next,hround,?_⟩)
          simp only [okOr,bind,Except.bind,hround]
          exact if_neg htop
  · have hstop : addWord 64 g size=none := if_neg hlt
    rw [hstop]
    exact .inl ⟨by omega,rfl⟩

/-- The search ends and fails only when no free slot ends in the address space; a slot of
no bytes at an odd address is the exception. -/
theorem firstFitLoop_complete {size align : ℕ} {sorted : List Range} {region : String}
    (hsize : 0 < size ∨ 2∣align) (hpow : isPowerOfTwo align=true) (halign : align<2^64) {fuel g : ℕ}
    (hfuel : sorted.countP (fun r => decide (g < r.stop))<fuel) :
    NoPanic (firstFitLoop size align sorted region fuel g) ∧
      ∀ e, firstFitLoop size align sorted region fuel g=fail e → ∀ g', g≤g' → align∣g' →
        (∀ s∈sorted, s.overlaps ⟨g',g'+size⟩=false) → 2^64≤g'+size := by
  induction fuel generalizing g with
  | zero => exact absurd hfuel (Nat.not_lt_zero _)
  | succ fuel ih =>
    obtain ⟨hbig,hloop⟩ | hloop | ⟨c,hc,hover,hhop⟩ := firstFitLoop_cases hpow sorted region fuel g
    · rw [hloop]
      exact ⟨noPanic_fail _,fun e _ g' hgg _ _ => by omega⟩
    · rw [hloop]
      exact ⟨noPanic_ok _,fun e he => by cases he⟩
    · simp only [Region.overlaps,Bool.and_eq_true,decide_eq_true_eq] at hover
      -- the range conflicts with every slot in front of its end
      have hpast : ∀ g', g≤g' → (∀ s∈sorted, s.overlaps ⟨g',g'+size⟩=false) → c.stop≤g' := by
        intro g' hgg hfree
        have hclear := hfree c hc
        simp only [Region.overlaps,Bool.and_eq_false_iff,decide_eq_false_iff_not] at hclear
        omega
      obtain ⟨hnone,hloop⟩ | ⟨htop,hloop⟩ | ⟨next,hnext,hloop⟩ := hhop
      · rw [hloop]
        refine ⟨noPanic_fail _,fun e _ g' hgg hg' hfree => ?_⟩
        have hbeyond := alignUp_none hpow halign hnone hg' (hpast g' hgg hfree)
        omega
      · rw [hloop]
        refine ⟨noPanic_fail _,fun e _ g' hgg hg' hfree => ?_⟩
        obtain ⟨_,hdvd,_,hleast⟩ := alignUp_lowest htop
        have hlast := hleast g' hg' (hpast g' hgg hfree)
        -- the last address is odd
        have hodd : ¬2∣align := fun heven => by
          have htwo := heven.trans hdvd
          omega
        have hpos := hsize.resolve_right hodd
        omega
      · rw [hloop]
        obtain ⟨_,_,hstop,hleast⟩ := alignUp_lowest hnext
        have hfewer : sorted.countP (fun r => decide (next < r.stop))<fuel := by
          have hlt := countP_lt (p := fun r : Range => decide (next < r.stop))
            (q := fun r : Range => decide (g < r.stop)) (fun r hr => by
              rw [decide_eq_true_eq] at hr ⊢
              omega) hc (decide_eq_false (by omega)) (decide_eq_true hover.2)
          omega
        obtain ⟨hpanic,hfail⟩ := ih hfewer
        refine ⟨hpanic,fun e he g' hgg hg' hfree => ?_⟩
        exact hfail e he g' (hleast g' hg' (hpast g' hgg hfree)) hg' hfree

/-- The search over all ranges ends, and fails only when there is no room. -/
theorem firstFit_complete {start size align : ℕ} (occupied : List Range) (region : String)
    (hsize : 0 < size ∨ 2∣align) (hpow : isPowerOfTwo align=true) (halign : align<2^64) :
    NoPanic (firstFit start size align occupied region) ∧
      ∀ e, firstFit start size align occupied region=fail e →
        ¬HasRoom (2^64-1) start size align occupied := by
  obtain ⟨sorted,hsorted⟩ : ∃ sorted, (occupied.filter fun r => decide (r.start < r.stop)).insertionSort
      (fun r s => r.start ≤ s.start)=sorted := ⟨_,rfl⟩
  have hmem : ∀ o∈sorted, o∈occupied ∧ o.start<o.stop := fun o ho => by
    rw [←hsorted,List.mem_insertionSort,List.mem_filter,decide_eq_true_eq] at ho
    exact ho
  have hround : alignUp start align=.ok ((addWord 64 start (align-1)).map
      (clearBits 64 · (align-1))) := if_pos hpow
  have hcount : ∀ g, sorted.countP (fun r => decide (g < r.stop)) < sorted.length+1 := fun g =>
    Nat.lt_succ_of_le List.countP_le_length
  cases hfirst : (addWord 64 start (align-1)).map (clearBits 64 · (align-1)) with
  | none =>
    have hfit : firstFit start size align occupied region=fail .overflow := by
      rw [firstFit,hround,hfirst]
      rfl
    refine ⟨hfit ▸ noPanic_fail _,fun e _ => ?_⟩
    rintro ⟨g,hfree,hle⟩
    rw [hfirst] at hround
    have hbeyond := alignUp_none hpow halign hround hfree.aligned hfree.above
    omega
  | some g =>
    have hfit : firstFit start size align occupied region=
        firstFitLoop size align sorted region (sorted.length+1) g := by
      rw [firstFit,hround,hfirst,hsorted]
      rfl
    rw [hfirst] at hround
    obtain ⟨_,_,_,hleast⟩ := alignUp_lowest hround
    obtain ⟨hpanic,hfail⟩ := @firstFitLoop_complete _ _ _ region hsize hpow halign _ _ (hcount g)
    refine ⟨hfit ▸ hpanic,fun e he => ?_⟩
    rintro ⟨g',hfree,hle⟩
    have hbeyond := hfail e (hfit ▸ he) g' (hleast g' hfree.aligned hfree.above) hfree.aligned
      fun s hs => hfree.free s (hmem s hs).1 (hmem s hs).2
    omega

/-- The search ends; what it returns is the lowest free slot, and it fails only when
no free slot ends at or below the last address. -/
theorem firstFit_least {start size align : ℕ} (occupied : List Range) (region : String)
    (hsize : 0 < size) (hpow : isPowerOfTwo align=true) (halign : align<2^64) :
    NoPanic (firstFit start size align occupied region) ∧
      (∀ r, firstFit start size align occupied region=.ok r →
        r.stop=r.start+size ∧ LowestSlot start size align occupied r.start) ∧
      ∀ e, firstFit start size align occupied region=fail e →
        ¬HasRoom (2^64-1) start size align occupied := by
  obtain ⟨hpanic,hfail⟩ := @firstFit_complete start _ _ occupied region (.inl hsize) hpow halign
  exact ⟨hpanic,fun r => firstFit_lowest,hfail⟩

/-- The search over overlapping, empty and unordered ranges. -/
theorem firstFit_least_sample :
    NoPanic (firstFit 3 16 4 [⟨32,40⟩,⟨0,8⟩,⟨6,10⟩,⟨20,20⟩] "kernel") ∧
      (∀ r, firstFit 3 16 4 [⟨32,40⟩,⟨0,8⟩,⟨6,10⟩,⟨20,20⟩] "kernel"=.ok r →
        r.stop=r.start+16 ∧ LowestSlot 3 16 4 [⟨32,40⟩,⟨0,8⟩,⟨6,10⟩,⟨20,20⟩] r.start) ∧
      ∀ e, firstFit 3 16 4 [⟨32,40⟩,⟨0,8⟩,⟨6,10⟩,⟨20,20⟩] "kernel"=fail e →
        ¬HasRoom (2^64-1) 3 16 4 [⟨32,40⟩,⟨0,8⟩,⟨6,10⟩,⟨20,20⟩] :=
  firstFit_least _ _ (by decide) (by decide) (by decide)

example : firstFit 3 16 4 [⟨32,40⟩,⟨0,8⟩,⟨6,10⟩,⟨20,20⟩] "kernel"=.ok ⟨12,28⟩ := by decide

end Arma.Planner.Search
