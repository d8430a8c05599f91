import Arma.Planner.Search

/-!
# Arithmetic faults of the planner

The search itself is checked, but the widths of the window, the rounding of what was
placed and the base of the device band are not. The faults are located here step by
step: which step faults on which input, given what the steps before it placed.
-/

namespace Arma.Planner.Safety

open Base.Checked Base.Intervals Model Separation Search Planner.Bound

/-- What the command line and the kernel image can supply. -/
structure Supplied (p : Planner) : Prop where
  /-- The number of transports is a 32-bit word. -/
  mmioSlots : p.args.mmioSlots<2^32
  /-- The number of PCI slots is a 32-bit word. -/
  pciSlots : p.args.pciSlots<2^32
  /-- The width of the BAR window is a 32-bit word. -/
  windowBits : p.args.windowBits<2^32
  /-- The width of the address space is a 32-bit word. -/
  addrSpaceBits : p.args.addrSpaceBits<2^32
  /-- The size of the kernel is a 64-bit word. -/
  kernelSize : p.kernel.size<2^64
  /-- The lowest load address is a 64-bit word. -/
  minGpa : p.kernel.minGpa<2^64
  /-- The kernel is aligned to 2 MiB. -/
  kernelAlign : p.kernel.align=gran
  /-- The archive is a vector of bytes. -/
  initrdSize : ∀ n∈p.initrdSize, n<2^63
  /-- The relocation table is a vector of bytes. -/
  relocsSize : ∀ n∈p.relocsSize, n<2^63

/-- The BAR window is at most a quarter of the address space. -/
def WindowFits (args : ArgsSpec) : Prop :=
  0<args.pciSlots → args.windowBits+2≤args.addrSpaceBits

/-- There is a slot for the kernel. -/
def KernelFits (p : Planner) : Prop :=
  HasRoom (2^64-1) p.kernel.minGpa p.kernel.size (kernelAlign p) (fixedRanges p)

/-- There is a slot for the initrd with its fill, next to the kernel. -/
def InitrdFits (p : Planner) : Prop :=
  ∀ n∈initrdTotal p, ∀ occ, AfterKernel p occ → HasRoom (2^64-1) 0 n gran occ

/-- There is a slot for the relocation table, next to the kernel and the initrd. -/
def RelocsFit (p : Planner) : Prop :=
  ∀ n∈relocsTotal p, ∀ occ, AfterInitrd p occ → HasRoom (2^64-1) 0 n gran occ

/-- No step that is reached leaves its words. -/
structure NoOverflow (p : Planner) : Prop where
  /-- The reserved ranges round out within the address words. -/
  reserved : ∀ r∈p.reserved, r.stop+(gran-1)<2^64
  /-- The width of the window leaves room for the comparison, and when it fits the base
  of the window is an address. -/
  window : 0<p.args.pciSlots → p.args.windowBits+2<2^32 ∧
    (p.args.windowBits+2≤p.args.addrSpaceBits → p.args.addrSpaceBits≤64)
  /-- The kernel has a slot below the last 2 MiB if it has one at all. -/
  kernel : WindowFits p.args → KernelFits p →
    HasRoom (2^64-gran) p.kernel.minGpa p.kernel.size (kernelAlign p) (fixedRanges p)
  /-- So does the relocation table. -/
  relocs : WindowFits p.args → KernelFits p → InitrdFits p → ∀ n∈relocsTotal p, ∀ occ,
    AfterInitrd p occ → HasRoom (2^64-1) 0 n gran occ → HasRoom (2^64-gran) 0 n gran occ
  /-- The end of the device band, if there is one, is an address. -/
  band : WindowFits p.args → KernelFits p → InitrdFits p → RelocsFit p →
    0<deviceBytes p.args → 0<p.args.addrSpaceBits ∧ p.args.addrSpaceBits≤64

/-- Rounding out yields the whole units when it stays in the word. -/
theorem roundOutGran_ok {r : Range} (h : r.stop+(gran-1)<2^64) : roundOutGran r=.ok (units r) := by
  have hsum : addWord 64 r.stop (gran-1)=some (r.stop+(gran-1)) := if_pos h
  rw [roundOutGran,hsum]
  rfl

/-- Rounding out panics exactly when it leaves the word. -/
theorem noPanic_roundOutGran {r : Range} :
    NoPanic (roundOutGran r) ↔ r.stop+(gran-1)<2^64 := by
  constructor
  · intro h
    obtain ⟨stop,hstop⟩ := noPanic_unwrap.mp (noPanic_bind.mp h).1
    obtain ⟨rfl,hlt⟩ := addWord_some.mp hstop
    exact hlt
  · intro h
    rw [roundOutGran_ok h]
    exact noPanic_ok _

/-- Rounding the reserved ranges yields their units when each stays in the word. -/
theorem reserved_ok {l : List Range} (h : ∀ r∈l, r.stop+(gran-1)<2^64) :
    l.mapM roundOutGran=.ok (l.map units) := by
  induction l with
  | nil => rfl
  | cons r rest ih =>
    obtain ⟨hr,hrest⟩ := List.forall_mem_cons.mp h
    rw [List.mapM_cons,roundOutGran_ok hr,ih hrest]
    rfl

/-- Rounding the reserved ranges panics exactly when one of them leaves the word. -/
theorem noPanic_reserved {l : List Range} :
    NoPanic (l.mapM roundOutGran) ↔ ∀ r∈l, r.stop+(gran-1)<2^64 := by
  constructor
  · intro h
    induction l with
    | nil => exact fun r hr => absurd hr List.not_mem_nil
    | cons r rest ih =>
      rw [List.mapM_cons,noPanic_bind] at h
      have hr := noPanic_roundOutGran.mp h.1
      have hrest := (noPanic_bind.mp (h.2 _ (roundOutGran_ok hr))).1
      exact List.forall_mem_cons.mpr ⟨hr,ih hrest⟩
  · intro h
    rw [reserved_ok h]
    exact noPanic_ok _

section Slot

variable {start size align : ℕ} {occupied : List Range} {region : String}
  (hsize : 0 < size ∨ 2∣align) (hpow : isPowerOfTwo align=true) (halign : align<2^64)

/-- A slot below the last 2 MiB is a slot. -/
theorem HasRoom.inside (h : HasRoom (2^64-gran) start size align occupied) :
    HasRoom (2^64-1) start size align occupied := by
  obtain ⟨g,hfree,hle⟩ := h
  have hgran : gran=2^21 := gran_eq
  exact ⟨g,hfree,by omega⟩

include hsize hpow halign

/-- The search succeeds exactly when there is room. -/
theorem firstFit_ok_iff :
    (∃ r, firstFit start size align occupied region=.ok r) ↔
      HasRoom (2^64-1) start size align occupied := by
  obtain ⟨hpanic,hfail⟩ := @firstFit_complete start _ _ occupied region hsize hpow halign
  constructor
  · rintro ⟨r,hr⟩
    obtain ⟨hstop,hlowest⟩ := firstFit_lowest hr
    have hlt : r.stop<2^64 := (firstFit_ok hr).2.2.1
    exact (hasRoom_iff hlowest).mpr (by omega)
  · intro hroom
    by_contra hnone
    obtain ⟨e,he⟩ := hpanic.fails fun r hr => hnone ⟨r,hr⟩
    exact hfail e he hroom

/-- Placing succeeds when there is room below the last 2 MiB. -/
theorem exists_placeFirstFit (h : HasRoom (2^64-gran) start size align occupied) :
    ∃ r occupied', placeFirstFit start size align occupied region=.ok (r,occupied') := by
  obtain ⟨r,hr⟩ := (@firstFit_ok_iff _ _ _ _ region hsize hpow halign).mpr (HasRoom.inside h)
  obtain ⟨hstop,hlowest⟩ := firstFit_lowest hr
  have hend := (hasRoom_iff hlowest).mp h
  have hgran : gran=2^21 := gran_eq
  have hround : roundOutGran r=.ok (units r) := roundOutGran_ok (by omega)
  exact ⟨r,_,bind_ok.mpr ⟨r,hr,bind_ok.mpr ⟨_,hround,rfl⟩⟩⟩

/-- Placing panics exactly when there is room, but only at the very end. -/
theorem noPanic_placeFirstFit :
    NoPanic (placeFirstFit start size align occupied region) ↔
      (HasRoom (2^64-1) start size align occupied →
        HasRoom (2^64-gran) start size align occupied) := by
  have hpanic := (@firstFit_complete start _ _ occupied region hsize hpow halign).1
  have hgran : gran=2^21 := gran_eq
  constructor
  · intro h hroom
    obtain ⟨r,hr⟩ := (@firstFit_ok_iff _ _ _ _ region hsize hpow halign).mpr hroom
    have hround := noPanic_roundOutGran.mp (noPanic_bind.mp ((noPanic_bind.mp h).2 r hr)).1
    obtain ⟨hstop,hlowest⟩ := firstFit_lowest hr
    exact (hasRoom_iff hlowest).mpr (by omega)
  · intro h
    refine hpanic.bind fun r hr => ?_
    obtain ⟨hstop,hlowest⟩ := firstFit_lowest hr
    have hroom := (firstFit_ok_iff hsize hpow halign).mp ⟨r,hr⟩
    have hend := (hasRoom_iff hlowest).mp (h hroom)
    have hround := noPanic_roundOutGran.mpr (show r.stop+(gran-1)<2^64 by omega)
    exact hround.bind fun _ _ => noPanic_ok _

end Slot

/-- What the window step does with a host bridge. -/
theorem placeWindow_cases {args : ArgsSpec} (hslots : 0<args.pciSlots) (occupied : List Range) :
    -- the comparison overflows
    2^32≤args.windowBits+2 ∧ placeWindow args occupied=.error .panic ∨
    -- the window is too large
    args.windowBits+2<2^32 ∧ args.addrSpaceBits<args.windowBits+2 ∧
      (∃ e, placeWindow args occupied=fail e) ∨
    -- the base of the window is no address
    args.windowBits+2≤args.addrSpaceBits ∧ 64<args.addrSpaceBits ∧
      placeWindow args occupied=.error .panic ∨
    -- the window is placed
    args.windowBits+2≤args.addrSpaceBits ∧ args.addrSpaceBits≤64 ∧
      placeWindow args occupied=.ok (some (window args),occupied++[units (window args)]) := by
  rw [placeWindow,if_pos hslots]
  by_cases hwide : args.windowBits+2<2^32
  · have hsum : addWord 32 args.windowBits 2=some (args.windowBits+2) := if_pos hwide
    by_cases hfits : args.windowBits+2≤args.addrSpaceBits
    · have hshift : subWord args.addrSpaceBits 1=some (args.addrSpaceBits-1) := if_pos (by omega)
      by_cases hbits : args.addrSpaceBits≤64
      · have hbase : bitWord 64 (args.addrSpaceBits-1)=some (2^(args.addrSpaceBits-1)) :=
          if_pos (by omega)
        have hsize : bitWord 64 args.windowBits=some (2^args.windowBits) := if_pos (by omega)
        have hbaseLe : 2^(args.addrSpaceBits-1)≤2^63 := Nat.pow_le_pow_right (by omega) (by omega)
        have hsizeLe : 2^args.windowBits≤2^62 := Nat.pow_le_pow_right (by omega) (by omega)
        have hstop : addWord 64 (2^(args.addrSpaceBits-1)) (2^args.windowBits)=
            some (2^(args.addrSpaceBits-1)+2^args.windowBits) := if_pos (by omega)
        have hgran : gran=2^21 := gran_eq
        have hround := @roundOutGran_ok
          ⟨2^(args.addrSpaceBits-1),2^(args.addrSpaceBits-1)+2^args.windowBits⟩
          (by dsimp only; omega)
        refine .inr (.inr (.inr ⟨hfits,hbits,?_⟩))
        dsimp only
        rw [unwrap_bind hsum,if_neg (not_lt.mpr hfits),unwrap_bind hshift,unwrap_bind hbase,
          unwrap_bind hsize,unwrap_bind hstop]
        exact ok_bind hround
      · have hbase : bitWord 64 (args.addrSpaceBits-1)=none := if_neg (by omega)
        refine .inr (.inr (.inl ⟨hfits,by omega,?_⟩))
        dsimp only
        rw [unwrap_bind hsum,if_neg (not_lt.mpr hfits),unwrap_bind hshift,unwrap_bind_none hbase]
    · have hlt : args.addrSpaceBits<args.windowBits+2 := not_le.mp hfits
      refine .inr (.inl ⟨hwide,hlt,.windowTooLarge args.windowBits args.addrSpaceBits,?_⟩)
      dsimp only
      rw [unwrap_bind hsum,if_pos hlt]
  · have hsum : addWord 32 args.windowBits 2=none := if_neg hwide
    refine .inl ⟨by omega,?_⟩
    dsimp only
    rw [unwrap_bind_none hsum]

/-- The window step panics exactly when the width of the window leaves no room for the
comparison, or the window fits but its base is no address. -/
theorem noPanic_placeWindow {args : ArgsSpec} {occupied : List Range} :
    NoPanic (placeWindow args occupied) ↔ (0<args.pciSlots → args.windowBits+2<2^32 ∧
      (args.windowBits+2≤args.addrSpaceBits → args.addrSpaceBits≤64)) := by
  by_cases hslots : 0<args.pciSlots
  · obtain ⟨hwide,hstep⟩ | ⟨hwide,hfits,e,hstep⟩ | ⟨hfits,hbits,hstep⟩ |
      ⟨hfits,hbits,hstep⟩ :=
      placeWindow_cases hslots occupied
    · rw [hstep]
      exact ⟨fun h => absurd rfl h,fun h => absurd (h hslots).1 (by omega)⟩
    · rw [hstep]
      exact ⟨fun _ _ => ⟨hwide,fun h => absurd h (by omega)⟩,fun _ => noPanic_fail _⟩
    · rw [hstep]
      exact ⟨fun h => absurd rfl h,fun h => absurd ((h hslots).2 hfits) (by omega)⟩
    · rw [hstep]
      exact ⟨fun _ _ => ⟨by omega,fun _ => hbits⟩,fun _ => noPanic_ok _⟩
  · rw [placeWindow,if_neg hslots]
    exact ⟨fun _ hpos => absurd hpos hslots,fun _ => noPanic_ok _⟩

/-- What is aligned and has room has room below the last 2 MiB. -/
theorem HasRoom.aligned {start size : ℕ} {occupied : List Range} (hdvd : gran∣size)
    (h : HasRoom (2^64-1) start size gran occupied) :
    HasRoom (2^64-gran) start size gran occupied := by
  obtain ⟨g,hfree,hle⟩ := h
  have hgran : gran=2^21 := gran_eq
  have hend : gran∣g+size := Nat.dvd_add hfree.aligned hdvd
  rw [hgran] at hend
  exact ⟨g,hfree,by omega⟩

/-- Rounding up to the granularity does not change the number of units. -/
theorem alignUp_gran {v : ℕ} (h : v+(gran-1)<2^64) :
    alignUp v gran=.ok (some ((v+(gran-1))/gran*gran)) := by
  have hadd : addWord 64 v (gran-1)=some (v+(gran-1)) := if_pos h
  have hclear : clearBits 64 (v+(gran-1)) (gran-1)=(v+(gran-1))/gran*gran :=
    clearBits_low (k := 21) h (by decide)
  rw [alignUp,if_pos (by decide),hadd,Option.map_some,hclear]

/-- What the initrd step does. -/
theorem placeInitrd_cases (p : Planner) (occupied : List Range) :
    -- there is no initrd
    initrdTotal p=none ∧
      placeInitrd p.initrdSize p.bootconfig occupied=.ok ((none,none),occupied) ∨
    -- the padded archive with its fill is no word
    (∃ n∈initrdTotal p, 2^64≤n ∧
      placeInitrd p.initrdSize p.bootconfig occupied=fail .overflow) ∨
    -- both are placed together
    ∃ n∈initrdTotal p, gran∣n ∧ ∃ size≤n,
      placeInitrd p.initrdSize p.bootconfig occupied=(do
        let (r,occupied) ← placeFirstFit 0 n gran occupied "initrd + bootconfig"
        let archiveEnd ← unwrap (addWord 64 r.start size)
        .ok ((some ⟨r.start,archiveEnd⟩,
          if p.bootconfig then some ⟨archiveEnd,r.stop⟩ else none),occupied)) := by
  unfold placeInitrd initrdTotal
  cases hinitrd : p.initrdSize with
  | none => exact .inl ⟨rfl,rfl⟩
  | some sz =>
    rw [Option.bind_some]
    by_cases hpos : 0 < sz
    · rw [if_pos hpos]
      dsimp only
      rw [if_pos hpos]
      by_cases hsum : sz+(gran-1)<2^64
      · have hup := alignUp_gran hsum
        have hdvd : gran∣(sz+(gran-1))/gran*gran := Nat.dvd_mul_left _ _
        have hfill : gran∣if p.bootconfig then gran else 0 := by
          split
          · exact dvd_refl _
          · exact dvd_zero _
        rw [ok_bind hup]
        by_cases htotal : (sz+(gran-1))/gran*gran+(if p.bootconfig then gran else 0)<2^64
        · have hadd := addWord_some.mpr ⟨rfl,htotal⟩
          refine .inr (.inr ⟨_,rfl,Nat.dvd_add hdvd hfill,_,Nat.le_add_right _ _,?_⟩)
          rw [ok_bind (okOr_ok.mpr rfl),ok_bind (okOr_ok.mpr hadd)]
        · have hadd : addWord 64 ((sz+(gran-1))/gran*gran) (if p.bootconfig then gran else 0)=none :=
            if_neg htotal
          refine .inr (.inl ⟨_,rfl,not_lt.mp htotal,?_⟩)
          rw [ok_bind (okOr_ok.mpr rfl),hadd]
          rfl
      · have hup : alignUp sz gran=.ok none := by
          have hadd : addWord 64 sz (gran-1)=none := if_neg hsum
          rw [alignUp,if_pos (by decide),hadd,Option.map_none]
        have hle : 2^64≤(sz+(gran-1))/gran*gran := by
          have hspace : 2^64=2^64/gran*gran := by decide
          rw [hspace]
          exact Nat.mul_le_mul_right _ (Nat.div_le_div_right (not_lt.mp hsum))
        refine .inr (.inl ⟨_,rfl,hle.trans (Nat.le_add_right _ _),?_⟩)
        rw [ok_bind hup]
        rfl
    · rw [if_neg hpos]
      dsimp only
      rw [if_neg hpos]
      exact .inl ⟨rfl,rfl⟩

/-- Placing what is aligned does not panic. -/
theorem noPanic_placeFirstFit_aligned {start size : ℕ} {occupied : List Range} {region : String}
    (hdvd : gran∣size) : NoPanic (placeFirstFit start size gran occupied region) :=
  (noPanic_placeFirstFit (.inr (by decide)) (by decide) (by decide)).mpr (HasRoom.aligned hdvd)

/-- The initrd step does not panic. -/
theorem noPanic_placeInitrd (p : Planner) (occupied : List Range) :
    NoPanic (placeInitrd p.initrdSize p.bootconfig occupied) := by
  obtain ⟨_,hstep⟩ | ⟨n,_,_,hstep⟩ | ⟨n,_,hdvd,size,hle,hstep⟩ := placeInitrd_cases p occupied
  · rw [hstep]
    exact noPanic_ok _
  · rw [hstep]
    exact noPanic_fail _
  · rw [hstep]
    refine (noPanic_placeFirstFit_aligned hdvd).bind fun ⟨r,occupied'⟩ hplace => ?_
    obtain ⟨r',hr,h⟩ := bind_ok.mp hplace
    obtain ⟨rounded,hrounded,h⟩ := bind_ok.mp h
    cases h
    obtain ⟨_,hstop,hlt,_⟩ := firstFit_ok hr
    have hadd : addWord 64 r.start size=some (r.start+size) := if_pos (by omega)
    exact (noPanic_unwrap.mpr ⟨_,hadd⟩).bind fun _ _ => noPanic_ok _

/-- The initrd step succeeds exactly when there is room for the initrd. -/
theorem placeInitrd_ok_iff (p : Planner) (occupied : List Range) :
    (∃ v, placeInitrd p.initrdSize p.bootconfig occupied=.ok v) ↔
      ∀ n∈initrdTotal p, HasRoom (2^64-1) 0 n gran occupied := by
  obtain ⟨htotal,hstep⟩ | ⟨n,htotal,hbig,hstep⟩ | ⟨n,htotal,hdvd,size,hle,hstep⟩ :=
    placeInitrd_cases p occupied
  · rw [hstep,htotal]
    exact ⟨fun _ n hn => absurd hn (Option.not_mem_none n),fun _ => ⟨_,rfl⟩⟩
  · rw [hstep]
    constructor
    · rintro ⟨v,hv⟩
      exact absurd hv fail_ne_ok
    · intro hroom
      obtain ⟨g,_,hend⟩ := hroom n htotal
      omega
  · constructor
    · rintro ⟨v,hv⟩ n' hn'
      obtain rfl := Option.mem_unique htotal hn'
      rw [hstep] at hv
      obtain ⟨⟨r,occupied'⟩,hplace,_⟩ := bind_ok.mp hv
      obtain ⟨r',hr,_⟩ := bind_ok.mp hplace
      exact (firstFit_ok_iff (.inr (by decide)) (by decide) (by decide)).mp ⟨r',hr⟩
    · intro hroom
      have hinside := HasRoom.aligned hdvd (hroom n htotal)
      obtain ⟨r,occupied',hplace⟩ := @exists_placeFirstFit _ _ _ _ "initrd + bootconfig"
        (.inr (by decide)) (by decide) (by decide) hinside
      have hpanic := noPanic_placeInitrd p occupied
      rw [hstep] at hpanic ⊢
      rw [ok_bind hplace] at hpanic ⊢
      obtain ⟨stop,hstop⟩ := noPanic_unwrap.mp (noPanic_bind.mp hpanic).1
      dsimp only
      rw [unwrap_bind hstop]
      exact ⟨_,rfl⟩

/-- What the relocation step does. -/
theorem placeRelocs_cases (p : Planner) (occupied : List Range) :
    relocsTotal p=none ∧ placeRelocs p.relocsSize occupied=.ok (none,occupied) ∨
    ∃ n∈relocsTotal p, placeRelocs p.relocsSize occupied=(do
      let (r,occupied) ← placeFirstFit 0 n gran occupied "relocs"
      .ok (some r,occupied)) := by
  unfold placeRelocs relocsTotal
  cases hsize : p.relocsSize with
  | none => exact .inl ⟨rfl,rfl⟩
  | some sz =>
    rw [Option.bind_some]
    dsimp only
    by_cases hpos : 0 < sz
    · rw [if_pos hpos,if_pos hpos]
      exact .inr ⟨sz,rfl,rfl⟩
    · rw [if_neg hpos,if_neg hpos]
      exact .inl ⟨rfl,rfl⟩

/-- The relocation step panics exactly when the table has room, but only at the very
end. -/
theorem noPanic_placeRelocs (p : Planner) (occupied : List Range) :
    NoPanic (placeRelocs p.relocsSize occupied) ↔ ∀ n∈relocsTotal p,
      HasRoom (2^64-1) 0 n gran occupied → HasRoom (2^64-gran) 0 n gran occupied := by
  obtain ⟨htotal,hstep⟩ | ⟨n,htotal,hstep⟩ := placeRelocs_cases p occupied
  · rw [hstep,htotal]
    exact ⟨fun _ n hn => absurd hn (Option.not_mem_none n),fun _ => noPanic_ok _⟩
  · have hplace := @noPanic_placeFirstFit 0 n gran occupied "relocs" (.inr (by decide))
      (by decide) (by decide)
    rw [hstep]
    constructor
    · intro h n' hn'
      obtain rfl := Option.mem_unique htotal hn'
      exact hplace.mp (noPanic_bind.mp h).1
    · exact fun h => (hplace.mpr (h n htotal)).bind fun _ _ => noPanic_ok _

/-- The relocation step succeeds when there is room below the last 2 MiB, and then only
there is room. -/
theorem placeRelocs_ok_iff (p : Planner) (occupied : List Range)
    (hpanic : NoPanic (placeRelocs p.relocsSize occupied)) :
    (∃ v, placeRelocs p.relocsSize occupied=.ok v) ↔
      ∀ n∈relocsTotal p, HasRoom (2^64-1) 0 n gran occupied := by
  obtain ⟨htotal,hstep⟩ | ⟨n,htotal,hstep⟩ := placeRelocs_cases p occupied
  · rw [hstep,htotal]
    exact ⟨fun _ n hn => absurd hn (Option.not_mem_none n),fun _ => ⟨_,rfl⟩⟩
  · have hinside := (noPanic_placeRelocs p occupied).mp hpanic n htotal
    rw [hstep]
    constructor
    · rintro ⟨v,hv⟩ n' hn'
      obtain rfl := Option.mem_unique htotal hn'
      obtain ⟨⟨r,occupied'⟩,hplace,_⟩ := bind_ok.mp hv
      obtain ⟨r',hr,_⟩ := bind_ok.mp hplace
      exact (firstFit_ok_iff (.inr (by decide)) (by decide) (by decide)).mp ⟨r',hr⟩
    · intro hroom
      obtain ⟨r,occupied',hplace⟩ := @exists_placeFirstFit _ _ _ _ "relocs"
        (.inr (by decide)) (by decide) (by decide) (hinside (hroom n htotal))
      exact ⟨_,ok_bind hplace⟩

/-- Carving a device region does not panic below the end of the address words. -/
theorem carve_fits {present : Bool} {size cur : ℕ} (h : cur+(if present then size else 0)<2^64) :
    ∃ r, carve present size cur=.ok (r,cur+if present then size else 0) := by
  unfold carve
  cases present with
  | false => exact ⟨none,rfl⟩
  | true =>
    have hadd : addWord 64 cur size=some (cur+size) := if_pos h
    exact ⟨some ⟨cur,cur+size⟩,unwrap_bind hadd⟩

/-- Nor does carving the transports. -/
theorem noPanic_carveSlots {slots cur : ℕ} (h : cur+slots*virtioSize<2^64) :
    NoPanic (carveSlots slots cur) := by
  induction slots generalizing cur with
  | zero => exact noPanic_ok _
  | succ slots ih =>
    rw [Nat.succ_mul] at h
    have hadd : addWord 64 cur virtioSize=some (cur+virtioSize) := if_pos (by omega)
    rw [carveSlots,unwrap_bind hadd]
    exact (ih (by omega)).bind fun _ _ => noPanic_ok _

/-- Carving the band does not panic when the devices end at an address. -/
theorem noPanic_carveBand {args : ArgsSpec} {base : ℕ} (h : base+deviceBytes args<2^64) :
    NoPanic (carveBand args base) := by
  unfold deviceBytes at h
  have hecam : base+(if decide (0<args.pciSlots)=true then ecamSize else 0)<2^64 := by
    simp only [decide_eq_true_eq]
    omega
  obtain ⟨ecam,hcarve⟩ := carve_fits hecam
  have hserial : base+(if decide (0<args.pciSlots)=true then ecamSize else 0)+
      (if args.serial then serialSize else 0)<2^64 := by
    simp only [decide_eq_true_eq]
    omega
  obtain ⟨serial,hcarve'⟩ := carve_fits hserial
  unfold carveBand
  rw [ok_bind hcarve]
  dsimp only
  rw [ok_bind hcarve']
  refine (noPanic_carveSlots ?_).bind fun _ _ => noPanic_ok _
  simp only [decide_eq_true_eq]
  omega

/-- The size of the band is a word for any 32-bit number of transports. -/
theorem bandGeometry_total {args : ArgsSpec} (hslots : args.mmioSlots<2^32) :
    bandGeometry args=.ok ((deviceBytes args+(gran-1))/gran*gran,gran) := by
  have hecam : (if 0<args.pciSlots then ecamSize else 0)≤2^24 := by
    split <;> decide
  have hserial : (if args.serial then serialSize else 0)≤2^12 := by
    split <;> decide
  have hvirtio : args.mmioSlots*virtioSize<2^41 := by
    have hsize : virtioSize=512 := rfl
    rw [hsize]
    omega
  have hgran : gran=2^21 := gran_eq
  have hmul : mulWord 64 args.mmioSlots virtioSize=some (args.mmioSlots*virtioSize) :=
    if_pos (by omega)
  have hfirst : addWord 64 (if 0<args.pciSlots then ecamSize else 0)
      (if args.serial then serialSize else 0)=some ((if 0<args.pciSlots then ecamSize else 0)+
        (if args.serial then serialSize else 0)) := if_pos (by omega)
  have hsum : addWord 64 ((if 0<args.pciSlots then ecamSize else 0)+
      (if args.serial then serialSize else 0)) (args.mmioSlots*virtioSize)=
      some (deviceBytes args) := if_pos (by omega)
  have hbytes : deviceBytes args+(gran-1)<2^64 := by
    unfold deviceBytes
    omega
  unfold bandGeometry
  dsimp only
  rw [unwrap_bind hfirst,unwrap_bind hmul,unwrap_bind hsum]
  by_cases hzero : deviceBytes args=0
  · rw [if_pos hzero,hzero]
    rfl
  · have hadd : addWord 64 (deviceBytes args) (gran-1)=some (deviceBytes args+(gran-1)) :=
      if_pos hbytes
    have hclear : clearBits 64 (deviceBytes args+(gran-1)) (gran-1)=
        (deviceBytes args+(gran-1))/gran*gran := clearBits_low (k := 21) hbytes (by decide)
    have hround : roundUp (deviceBytes args) gran=.ok ((deviceBytes args+(gran-1))/gran*gran) := by
      rw [roundUp,if_pos (by decide),unwrap_bind hadd,hclear]
    rw [if_neg hzero,ok_bind hround]

/-- The band step panics exactly when there are devices and the end of the band is no
address. -/
theorem noPanic_placeBand {args : ArgsSpec} {occupied : List Range}
    (hslots : args.mmioSlots<2^32) :
    NoPanic (placeBand args occupied) ↔
      (0<deviceBytes args → 0<args.addrSpaceBits ∧ args.addrSpaceBits≤64) := by
  have hle := le_roundUp (deviceBytes args)
  unfold placeBand
  rw [ok_bind (bandGeometry_total hslots)]
  dsimp only
  by_cases hpos : 0<deviceBytes args
  · have hgran : gran=2^21 := gran_eq
    have hband : 0<(deviceBytes args+(gran-1))/gran*gran := hpos.trans_le hle
    rw [if_pos hband]
    constructor
    · intro h _
      obtain ⟨shift,hshift⟩ := noPanic_unwrap.mp (noPanic_bind.mp h).1
      obtain ⟨hone,rfl⟩ := subWord_some.mp hshift
      rw [unwrap_bind hshift] at h
      obtain ⟨floor,hfloor⟩ := noPanic_unwrap.mp (noPanic_bind.mp h).1
      have hlt := (bitWord_some.mp hfloor).1
      omega
    · intro h
      obtain ⟨hzero,hbits⟩ := h hpos
      have hshift : subWord args.addrSpaceBits 1=some (args.addrSpaceBits-1) := if_pos hzero
      have hfloor : bitWord 64 (args.addrSpaceBits-1)=some (2^(args.addrSpaceBits-1)) :=
        if_pos (by omega)
      have hfloorLe : 2^(args.addrSpaceBits-1)≤2^63 := Nat.pow_le_pow_right (by omega) (by omega)
      rw [unwrap_bind hshift,unwrap_bind hfloor]
      refine (noPanic_okOr _ _).bind fun bandStart hstart => ?_
      obtain ⟨hfit,hdiff⟩ := subWord_some.mp (okOr_ok.mp hstart)
      exact (noPanic_fail _).ite (noPanic_carveBand (by omega))
  · have hzero : deviceBytes args=0 := Nat.eq_zero_of_not_pos hpos
    have hband : ¬0<(deviceBytes args+(gran-1))/gran*gran := by
      rw [hzero]
      decide
    rw [if_neg hband]
    exact ⟨fun _ h => absurd h hpos,fun _ => noPanic_ok _⟩

section Stages

variable {p : Planner} {occupied : List Range}

/-- When the window fits its step ends with the fixed ranges. -/
theorem window_run (hpanic : NoPanic (placeWindow p.args (p.reserved.map units)))
    (hfits : WindowFits p.args) :
    ∃ w, placeWindow p.args (p.reserved.map units)=.ok (w,fixedRanges p) := by
  unfold fixedRanges
  by_cases hslots : 0<p.args.pciSlots
  · have hfit := hfits hslots
    obtain ⟨_,hstep⟩ | ⟨_,hlt,_⟩ | ⟨_,_,hstep⟩ | ⟨_,_,hstep⟩ :=
      placeWindow_cases hslots (p.reserved.map units)
    · exact absurd hstep hpanic
    · omega
    · exact absurd hstep hpanic
    · rw [if_pos hslots]
      exact ⟨_,hstep⟩
  · rw [placeWindow,if_neg hslots,if_neg hslots,List.append_nil]
    exact ⟨none,rfl⟩

/-- When the initrd fits its step ends with what is occupied after it. -/
theorem initrd_run (hkernel : AfterKernel p occupied) (hfits : InitrdFits p) :
    ∃ initrd fill occupied', placeInitrd p.initrdSize p.bootconfig occupied=
      .ok ((initrd,fill),occupied') ∧ AfterInitrd p occupied' := by
  obtain ⟨⟨⟨initrd,fill⟩,occupied'⟩,hstep⟩ := (placeInitrd_ok_iff p occupied).mpr
    fun n hn => hfits n hn occupied hkernel
  exact ⟨initrd,fill,occupied',hstep,placeInitrd_after hkernel hstep⟩

/-- When its step succeeds the initrd fits. -/
theorem initrd_fits (hkernel : AfterKernel p occupied)
    (h : ∃ v, placeInitrd p.initrdSize p.bootconfig occupied=.ok v) : InitrdFits p := by
  intro n hn occ hocc
  rw [hocc.unique hkernel]
  exact (placeInitrd_ok_iff p occupied).mp h n hn

/-- When its step succeeds the relocation table fits. -/
theorem relocs_fit (hafter : AfterInitrd p occupied)
    (hpanic : NoPanic (placeRelocs p.relocsSize occupied))
    (h : ∃ v, placeRelocs p.relocsSize occupied=.ok v) : RelocsFit p := by
  intro n hn occ hocc
  rw [hocc.unique hafter]
  exact (placeRelocs_ok_iff p occupied hpanic).mp h n hn

end Stages

/-- The plan comes to an end with a layout or an error exactly when no step that is
reached leaves its words. -/
theorem plan_noPanic_iff {p : Planner} (h : Supplied p) : NoPanic p.plan ↔ NoOverflow p := by
  have halign : kernelAlign p=gran := by
    rw [kernelAlign,h.kernelAlign,max_self]
  have hplace := @noPanic_placeFirstFit p.kernel.minGpa p.kernel.size (kernelAlign p)
    (fixedRanges p) "kernel" (.inr (by rw [halign]; decide)) (by rw [halign]; decide)
    (by rw [halign]; decide)
  have hexists := @exists_placeFirstFit p.kernel.minGpa p.kernel.size (kernelAlign p)
    (fixedRanges p) "kernel" (.inr (by rw [halign]; decide)) (by rw [halign]; decide)
    (by rw [halign]; decide)
  have hfits := @firstFit_ok_iff p.kernel.minGpa p.kernel.size (kernelAlign p)
    (fixedRanges p) "kernel" (.inr (by rw [halign]; decide)) (by rw [halign]; decide)
    (by rw [halign]; decide)
  constructor
  · intro hplan
    have hreserved := noPanic_reserved.mp (noPanic_bind.mp hplan).1
    unfold Planner.plan at hplan
    rw [ok_bind (reserved_ok hreserved)] at hplan
    obtain ⟨hwindow,hplan⟩ := noPanic_bind.mp hplan
    -- what fits is passed, and the step after it does not panic
    have hkernel (hw : WindowFits p.args) : NoPanic (placeFirstFit p.kernel.minGpa
        p.kernel.size (kernelAlign p) (fixedRanges p) "kernel") ∧ (KernelFits p → InitrdFits p →
        ∃ occ, AfterInitrd p occ ∧ NoPanic (placeRelocs p.relocsSize occ) ∧
          (RelocsFit p → ∃ occ, NoPanic (placeBand p.args occ))) := by
      obtain ⟨w,hrun⟩ := window_run hwindow hw
      have hrest := hplan _ hrun
      dsimp only at hrest
      obtain ⟨hstep,hrest⟩ := noPanic_bind.mp hrest
      refine ⟨hstep,fun hk hi => ?_⟩
      obtain ⟨linux,occ,hrun⟩ := hexists (hplace.mp hstep hk)
      have hafter : AfterKernel p occ := ⟨linux.start,(placeFirstFit_lowest hrun).2⟩
      obtain ⟨initrd,fill,occ',hrun',hafter'⟩ := initrd_run hafter hi
      have hrest := hrest _ hrun
      dsimp only at hrest
      rw [ok_bind hrun'] at hrest
      obtain ⟨hstep',hrest⟩ := noPanic_bind.mp hrest
      refine ⟨occ',hafter',hstep',fun hr => ?_⟩
      obtain ⟨⟨relocs,occ''⟩,hrun''⟩ := (placeRelocs_ok_iff p occ' hstep').mpr
        fun n hn => hr n hn occ' hafter'
      exact ⟨occ'',(noPanic_bind.mp (hrest _ hrun'')).1⟩
    refine ⟨hreserved,noPanic_placeWindow.mp hwindow,fun hw => hplace.mp (hkernel hw).1,
      fun hw hk hi n hn occ hocc => ?_,fun hw hk hi hr => ?_⟩
    · obtain ⟨occ',hafter,hstep,_⟩ := (hkernel hw).2 hk hi
      rw [hocc.unique hafter]
      exact (noPanic_placeRelocs p occ').mp hstep n hn
    · obtain ⟨_,_,_,hband⟩ := (hkernel hw).2 hk hi
      obtain ⟨occ,hstep⟩ := hband hr
      exact (noPanic_placeBand h.mmioSlots).mp hstep
  · intro hsafe
    unfold Planner.plan
    rw [ok_bind (reserved_ok hsafe.reserved)]
    refine (noPanic_placeWindow.mpr hsafe.window).bind fun ⟨w,occ1⟩ hwindow => ?_
    obtain ⟨hocc1,hw⟩ := placeWindow_units hwindow
    rw [show occ1=fixedRanges p from hocc1]
    refine (hplace.mpr (hsafe.kernel hw)).bind fun ⟨linux,occ2⟩ hlinux => ?_
    have hk : KernelFits p := by
      obtain ⟨r,hr,_⟩ := bind_ok.mp hlinux
      exact hfits.mp ⟨r,hr⟩
    have hafter : AfterKernel p occ2 := ⟨linux.start,(placeFirstFit_lowest hlinux).2⟩
    refine (noPanic_placeInitrd p occ2).bind fun ⟨⟨initrd,fill⟩,occ3⟩ hinitrd => ?_
    have hi := initrd_fits hafter ⟨_,hinitrd⟩
    have hafter' := placeInitrd_after hafter hinitrd
    have hstep := (noPanic_placeRelocs p occ3).mpr fun n hn =>
      hsafe.relocs hw hk hi n hn occ3 hafter'
    refine hstep.bind fun ⟨relocs,occ4⟩ hrelocs => ?_
    have hr := relocs_fit hafter' hstep ⟨_,hrelocs⟩
    exact ((noPanic_placeBand h.mmioSlots).mpr (hsafe.band hw hk hi hr)).bind fun _ _ => noPanic_ok _

/-- The x86 board without PCI, with an empty address space. -/
def flatPlanner : Planner where
  args := ⟨true,0,0,37,0⟩
  reserved := [⟨0,0x200000⟩,⟨0xFEE00000,0xFEE01000⟩,⟨0xFEC00000,0xFEC01000⟩,
    ⟨0xFEC01000,0xFEC01004⟩,⟨0xFEC02000,0xFEC02004⟩]
  kernel := ⟨0x1000000,gran,0x1000000⟩
  initrdSize := none
  bootconfig := false
  relocsSize := some 0x1000

/-- The command line can supply that board. -/
theorem flatPlanner_supplied : Supplied flatPlanner := by
  constructor <;> decide

/-- Planning that board shifts by one less than zero. -/
theorem plan_no_address_bits : Supplied flatPlanner ∧ ¬NoPanic flatPlanner.plan :=
  ⟨flatPlanner_supplied,fun h => h (by decide)⟩

/-- The faults of that board are where the conditions say. -/
theorem plan_noPanic_iff_sample : NoPanic flatPlanner.plan ↔ NoOverflow flatPlanner :=
  plan_noPanic_iff flatPlanner_supplied

end Arma.Planner.Safety
