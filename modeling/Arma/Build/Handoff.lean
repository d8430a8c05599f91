import Arma.Build.Mapped
import Arma.Planner.Safety
import Arma.Tatu.Overlay

/-!
# The initrd from the plan to the boot parameters

The planner places the archive and the page for the bootconfig behind it, the base
devicetree records where both begin and end, and tatu reads the two bounds back
from the merged tree and narrows them for the zero page.
-/

namespace Arma.Build.Handoff

open Base.ByteString Base.Checked Base.Intervals BaseDtb Build.Mapped Build.Run Devtree Devtree.Merge
open Planner.Bound Planner.Model Planner.Safety Planner.Separation Tatu.BootParams Tatu.Overlay
open Tatu.Validate

/-- The bytes of an archive in whole units. -/
def padded (sz : ℕ) : ℕ := (sz+(gran-1))/gran*gran

/-- The padded size is the size rounded up to 2 MiB. -/
theorem isLeast_padded (sz : ℕ) : IsLeast {n | 2^21∣n ∧ sz≤n} (padded sz) := by
  have hgran : gran=2^21 := gran_eq
  constructor
  · refine ⟨?_,?_⟩
    · rw [padded,hgran]
      exact Nat.dvd_mul_left _ _
    · exact le_roundUp sz
  · intro n hn
    have ⟨⟨k,hk⟩,hle⟩ := hn
    rw [padded,hgran]
    omega

/-- What the initrd step places: the archive, and the page behind it on request. -/
structure Placed (initrdSize : Option ℕ) (bootconfig : Bool) (r : Range) (fill : Option Range) :
    Prop where
  /-- The archive is as long as its padded size. -/
  archive : ∃ sz∈initrdSize, r.stop=r.start+padded sz
  /-- The page follows it. -/
  page : fill=if bootconfig then some ⟨r.stop,r.stop+gran⟩ else none
  /-- Both end at an address. -/
  stop : ((fill.map (·.stop)).getD r.stop)<2^64

/-- A placed archive has its size, and its page behind it. -/
theorem placeInitrd_placed {initrdSize : Option ℕ} {bootconfig : Bool}
    {occupied occupied' : List Range} {r : Range} {fill : Option Range}
    (h : placeInitrd initrdSize bootconfig occupied=.ok ((some r,fill),occupied')) :
    Placed initrdSize bootconfig r fill := by
  obtain ⟨-,hnone,-,-⟩ | ⟨sz,size,slot,rfl,-,hup,hplace,hr,rfl⟩ := placeInitrd_run h
  · cases hnone
  · have hpadded : size=padded sz := by
      by_cases hsum : sz+(gran-1)<2^64
      · have heq := alignUp_gran hsum
        rw [hup] at heq
        cases heq
        rfl
      · have hno : addWord 64 sz (gran-1)=none := if_neg hsum
        rw [alignUp,if_pos (by decide),hno] at hup
        cases hup
    obtain ⟨hstop,_⟩ := placeFirstFit_ok hplace
    have hlt : slot.stop<2^64 := by
      obtain ⟨slot',hslot,hplace⟩ := bind_ok.mp hplace
      obtain ⟨_,_,hplace⟩ := bind_ok.mp hplace
      cases hplace
      exact (firstFit_ok hslot).2.2.1
    cases hr
    cases bootconfig with
    | true =>
      rw [if_pos rfl] at hstop
      refine ⟨⟨sz,rfl,by rw [←hpadded]⟩,?_,hlt⟩
      rw [if_pos rfl,if_pos rfl,hstop,Nat.add_assoc]
    | false =>
      rw [if_neg Bool.false_ne_true,Nat.add_zero] at hstop
      exact ⟨⟨sz,rfl,by rw [←hpadded]⟩,rfl,hstop ▸ hlt⟩

/-- A planned archive has its size, and its page behind it. -/
theorem plan_placed {p : Planner} {lay : Layout} (h : p.plan=.ok lay) {r : Range}
    (hr : r∈lay.initrd) : Placed p.initrdSize p.bootconfig r lay.bootconfig := by
  obtain ⟨_,_,occupied,occupied',_,hrun⟩ := Planner.plan_run h
  have hinitrd := hrun.initrd
  rw [Option.mem_def.mp hr] at hinitrd
  exact placeInitrd_placed hinitrd

/-- Where the archive and its page end. -/
def initrdStop (r : Range) (fill : Option Range) : ℕ := (fill.map (·.stop)).getD r.stop

/-- The archive and its page are one range. -/
theorem Placed.toSet {initrdSize : Option ℕ} {bootconfig : Bool} {r : Range} {fill : Option Range}
    (h : Placed initrdSize bootconfig r fill) :
    Set.Ico r.start (initrdStop r fill)=r.toSet∪optSet fill := by
  have ⟨sz,_,hstop⟩ := h.archive
  have hle : r.start ≤ r.stop := hstop ▸ Nat.le_add_right _ _
  cases hfill : fill with
  | none =>
    rw [optSet_none,Set.union_empty]
    rfl
  | some page =>
    have hpage := h.page
    rw [hfill] at hpage
    cases bootconfig with
    | false => cases hpage
    | true =>
      cases hpage
      rw [optSet_some]
      exact (Set.Ico_union_Ico_eq_Ico hle (Nat.le_add_right _ _)).symm

/-- The two bounds are in `/chosen`. -/
theorem chosen_bounds {inputs : Inputs} {gpa size : ℕ} (h : inputs.initrd=some (gpa,size))
    (hlt : gpa+size<2^64) :
    (chosenNode inputs).property "linux,initrd-start"=some (beBytes 8 gpa) ∧
      (chosenNode inputs).property "linux,initrd-end"=some (beBytes 8 (gpa+size)) := by
  obtain ⟨arch,cmdline,initrd,serial,virtio,ecam,window⟩ := inputs
  cases h
  have hmin : min (gpa+size) (2^64-1)=gpa+size := by omega
  constructor
  · cases serial <;> rfl
  · rw [←hmin]
    cases serial <;> rfl

/-- The extent of the initrd depends on its two bounds in `/chosen`. -/
theorem fromDtb_congr [DevtreeLib] {tree tree' : Node}
    (h : ∀ name∈["linux,initrd-start","linux,initrd-end"],
      ((DevtreeLib.findPath tree "/chosen").bind fun chosen => chosen.property name)=
        (DevtreeLib.findPath tree' "/chosen").bind fun chosen => chosen.property name) :
    Initrd.fromDtb tree=Initrd.fromDtb tree' := by
  have hstart := h "linux,initrd-start" List.mem_cons_self
  have hstop := h "linux,initrd-end" (List.mem_cons_of_mem _ List.mem_cons_self)
  rw [Initrd.fromDtb,Initrd.fromDtb]
  cases hchosen : DevtreeLib.findPath tree "/chosen" with
  | none =>
    rw [hchosen,Option.bind_none] at hstart
    cases hchosen' : DevtreeLib.findPath tree' "/chosen" with
    | none => rfl
    | some chosen' =>
      rw [hchosen',Option.bind_some] at hstart
      dsimp only
      rw [←hstart]
  | some chosen =>
    rw [hchosen,Option.bind_some] at hstart hstop
    dsimp only
    rw [hstart,hstop]
    cases hchosen' : DevtreeLib.findPath tree' "/chosen" with
    | none => rfl
    | some chosen' => rfl

/-- An initrd beyond 32 bits is refused. -/
theorem fillElf_refused [DevtreeLib] {initrd : Initrd}
    (h : ¬(initrd.gpa<2^32 ∧ initrd.size<2^32)) (cmdLine rsdpGpa acpiSize : ℕ) (tree : Node) :
    fillElf cmdLine initrd rsdpGpa acpiSize tree=fail .addressOverflow := by
  rw [fillElf,tryU32]
  by_cases hptr : cmdLine<2^32
  · rw [if_pos hptr]
    by_cases hgpa : initrd.gpa<2^32
    · have hsize : ¬initrd.size<2^32 := fun hsize => h ⟨hgpa,hsize⟩
      rw [ok_bind rfl,ok_bind (tryU32_eq hgpa),tryU32,if_neg hsize]
      rfl
    · rw [ok_bind rfl,tryU32,if_neg hgpa]
      rfl
  · rw [if_neg hptr]
    rfl

/-- How an initrd from `gpa`, of `size` bytes, is handed to the kernel. -/
structure HandedOff [OverlayLib] (p : Planner) (lay : Layout) (r : Range) (gpa size : ℕ) :
    Prop where
  /-- The archive begins there. -/
  start : r.start=gpa
  /-- It is as long as its size rounded up to 2 MiB. -/
  archive : ∃ sz∈p.initrdSize, r.start ≤ r.stop ∧
    IsLeast {n | 2^21∣n ∧ sz≤n} (r.stop-r.start)
  /-- The page behind it is there on request only. -/
  requested : lay.bootconfig.isSome=p.bootconfig
  /-- It begins where the archive ends and has 2 MiB. -/
  page : ∀ fill∈lay.bootconfig, fill.start=r.stop ∧ fill.stop=fill.start+2^21
  /-- The extent is of both. -/
  both : Set.Ico gpa (gpa+size)=r.toSet∪optSet lay.bootconfig
  /-- Its bounds are in the base devicetree. -/
  bounds : ∀ inputs : Inputs, inputs.initrd=initrdExtent lay →
    (chosenNode inputs).property "linux,initrd-start"=some (beBytes 8 gpa) ∧
      (chosenNode inputs).property "linux,initrd-end"=some (beBytes 8 (gpa+size)) ∧
      gpa+size<2^64
  /-- tatu reads them there. -/
  base : ∀ inputs : Inputs, inputs.initrd=initrdExtent lay →
    Initrd.fromDtb (tree inputs)=⟨gpa,size⟩
  /-- It reads the same whatever an accepted overlay adds. -/
  merged : ∀ inputs : Inputs, inputs.initrd=initrdExtent lay → ∀ overlay merged,
    validateHostDtbo overlay (tree inputs)=.ok () →
    apply (tree inputs) overlay=some merged → Initrd.fromDtb merged=⟨gpa,size⟩
  /-- Within 32 bits it is written, and nothing goes wrong because of it. -/
  written : gpa<2^32 → size<2^32 → ∀ cmdLine rsdpGpa acpiSize merged,
    fillElf cmdLine ⟨gpa,size⟩ rsdpGpa acpiSize merged=
      (fillElf cmdLine .none rsdpGpa acpiSize merged).map (·.withRamdisk ⟨gpa,size⟩)
  /-- Beyond them it is refused. -/
  refused : ¬(gpa<2^32 ∧ size<2^32) → ∀ cmdLine rsdpGpa acpiSize merged,
    fillElf cmdLine ⟨gpa,size⟩ rsdpGpa acpiSize merged=fail .addressOverflow

/-- Every planned initrd reaches the boot parameters as it was placed. -/
theorem plan_handedOff [OverlayLib] (hchosen : ChosenLaw) (hpath : PathLaw) {p : Planner}
    {lay : Layout} (h : p.plan=.ok lay) {r : Range} (hr : r∈lay.initrd) :
    ∃ gpa size, initrdExtent lay=some (gpa,size) ∧ HandedOff p lay r gpa size := by
  have hplaced := plan_placed h hr
  have ⟨sz,hsz,hstop⟩ := hplaced.archive
  have hgran : gran=2^21 := gran_eq
  have hle : r.stop ≤ initrdStop r lay.bootconfig := by
    rw [hplaced.page,initrdStop]
    cases p.bootconfig with
    | false => exact le_rfl
    | true => exact Nat.le_add_right _ _
  have hlt : initrdStop r lay.bootconfig<2^64 := hplaced.stop
  have hextent : initrdExtent lay=some (r.start,initrdStop r lay.bootconfig-r.start) := by
    rw [initrdExtent,hr]
    rfl
  have hsum : r.start+(initrdStop r lay.bootconfig-r.start)=initrdStop r lay.bootconfig := by
    omega
  have hread : ∀ inputs : Inputs, inputs.initrd=initrdExtent lay →
      Initrd.fromDtb (tree inputs)=⟨r.start,initrdStop r lay.bootconfig-r.start⟩ := by
    intro inputs hinputs
    rw [fromDtb_tree hchosen,hinputs,hextent]
    · rfl
    · intro e he
      rw [hinputs,hextent] at he
      cases he
      dsimp only
      omega
  refine ⟨r.start,initrdStop r lay.bootconfig-r.start,hextent,?_⟩
  constructor
  · rfl
  · have hlength : r.stop-r.start=padded sz := by omega
    refine ⟨sz,hsz,by omega,?_⟩
    rw [hlength]
    exact isLeast_padded sz
  · rw [hplaced.page]
    cases p.bootconfig <;> rfl
  · intro fill hfill
    rw [hplaced.page] at hfill
    cases hboot : p.bootconfig with
    | false =>
      rw [hboot] at hfill
      cases hfill
    | true =>
      rw [hboot] at hfill
      cases hfill
      exact ⟨rfl,hgran ▸ rfl⟩
  · rw [hsum]
    exact hplaced.toSet
  · intro inputs hinputs
    have ⟨hstart,hend⟩ := chosen_bounds (hinputs.trans hextent) (by omega)
    exact ⟨hstart,hend,by omega⟩
  · exact hread
  · intro inputs hinputs overlay merged hok happly
    have hframe := frame_apply hpath hok happly
    have heq : Initrd.fromDtb merged=Initrd.fromDtb (tree inputs) := by
      refine fromDtb_congr fun name hname => chosen_property hpath hframe ?_
      rintro rfl
      exact absurd hname (by decide)
    rw [heq]
    exact hread inputs hinputs
  · intro hgpa hsize cmdLine rsdpGpa acpiSize merged
    exact @fillElf_initrd _ ⟨_,_⟩ hgpa hsize cmdLine rsdpGpa acpiSize merged
  · intro hbig cmdLine rsdpGpa acpiSize merged
    exact @fillElf_refused _ ⟨_,_⟩ hbig cmdLine rsdpGpa acpiSize merged

/-- The initrd of a board with a page for the bootconfig. -/
theorem plan_handedOff_slab : ∃ gpa size, initrdExtent slabLayout=some (gpa,size) ∧
    @HandedOff plainOverlayLib slabPlanner slabLayout ⟨0x200000,0x400000⟩ gpa size := by
  have h : slabPlanner.plan=.ok slabLayout := by decide
  exact @plan_handedOff plainOverlayLib chosenLaw_plainLib pathLaw_plain _ _ h _ rfl

end Arma.Build.Handoff
