import Arma.Base.Intervals
import Arma.Check
import Arma.Pe.RoundTrip

/-!
# What a clean check says

The check sorts the regions and compares each with the next one. In sorted order that is
enough for all pairs as long as no end leaves 64 bits. It does not see the sections at
GPA 0 nor the BAR windows that a later one takes the place of.
-/

namespace Arma.Check.Disjoint

open Base.ByteString Base.Checked Devtree Pe.RoundTrip Pe.Writer
open Base.Intervals hiding Region

/-- A range of addresses. -/
abbrev Range : Type := Base.Intervals.Region ℕ

/-- The addresses of a region. -/
def regionRange (r : Region) : Range := ⟨r.base,r.base+r.size⟩

/-- A base and a size as a range. -/
def pairRange (p : ℕ×ℕ) : Range := ⟨p.1,p.1+p.2⟩

/-- The range of a section. -/
def sectionRange (s : PeSection) : Range :=
  ⟨s.virtualAddress.toNat,s.virtualAddress.toNat+s.virtualSize.toNat⟩

/-- The base and the size in each tuple of a `ranges`. -/
def windowTuples : List ℕ → List (ℕ×ℕ)
  | _::_::_::a::b::c::d::rest => (cellWord a b,cellWord c d)::windowTuples rest
  | _ => []

/-- The `reg` of a child of the root. -/
def regRanges (child : Node) : List Range :=
  (regPairs (((child.property "reg").map beCells).getD [])).map pairRange

/-- The BAR windows of a child of the root. -/
def windowRanges (child : Node) : List Range :=
  (windowTuples (((child.property "ranges").map beCells).getD [])).map pairRange

/-- All BAR windows of a tree. -/
def windows (tree : Node) : List Range := tree.children.flatMap windowRanges

/-- The device regions of a tree. -/
def treeRanges (tree : Node) : List Range :=
  tree.children.flatMap regRanges++windows tree

/-- The loaded sections of an image and the device regions of its base devicetree. -/
def ranges (loaded : PeSection → Bool) (sections : List PeSection) (tree : Option Node) :
    List Range :=
  (sections.filter loaded).map sectionRange++(tree.map treeRanges).getD []

/-- The base devicetree that an image carries. -/
def bundledTree (libs : Libs) (bytes : Bytes) (sections : List PeSection) :
    Outcome CheckError (Option Node) := do
  match ← baseDtbBytes libs bytes sections with
  | some dtb => do
    let root ← okOr (libs.fdtParse dtb) .baseDtb
    .ok (some root)
  | none => .ok none

/-- The BAR window that the check looks at. -/
def keptWindow (tree : Node) : Option Range := (barWindow tree).map pairRange

/-- The loaded sections above GPA 0, the registers and the BAR window. -/
def seen (loaded : PeSection → Bool) (sections : List PeSection) (tree : Option Node) :
    List Range :=
  (sections.filter fun s => loaded s && decide (0<s.virtualAddress.toNat)).map sectionRange++
    (tree.map fun t => t.children.flatMap regRanges++(keptWindow t).toList).getD []

/-- A region that reaches the top of the 64-bit addresses starts above a region that is not
empty. -/
def Above (r s : Range) : Prop :=
  2^64≤r.stop → s.start<s.stop → s.start<r.start

/-- Two regions of a clean check are separate unless one of them reaches the top from
below the other. -/
def Cleared (r s : Range) : Prop :=
  r.Separate s ∨ (2^64≤r.stop ∧ r.start≤ s.start) ∨ (2^64≤ s.stop ∧ s.start≤r.start)

/-- A clean scan has compared all neighbours. -/
theorem overlaps_nil {checks : Bool} {l : List Region} (h : overlaps checks l=.ok []) :
    (l.map regionRange).IsChain fun r s => r.stop<2^64 → r.stop≤ s.start := by
  induction l with
  | nil => exact .nil
  | cons a l ih =>
    cases l with
    | nil => exact .singleton _
    | cons b l =>
      obtain ⟨found,hfound,h⟩ := bind_ok.mp h
      obtain ⟨more,hmore,h⟩ := bind_ok.mp h
      obtain ⟨rfl,rfl⟩ := List.append_eq_nil_iff.mp (Except.ok.inj h)
      refine List.isChain_cons_cons.mpr ⟨fun hlt => ?_,ih hmore⟩
      obtain ⟨stop,hstop,hfound⟩ := bind_ok.mp hfound
      have hword : word checks (a.base+a.size)=.ok (a.base+a.size) := if_pos hlt
      rw [hword] at hstop
      cases hstop
      split at hfound
      · obtain ⟨_,-,hfound⟩ := bind_ok.mp hfound
        cases hfound
      · rename_i hle
        exact not_lt.mp hle

/-- Sorting keeps the regions. -/
theorem sortByBase_perm (regions : List Region) : (sortByBase regions).Perm regions :=
  List.perm_insertionSort _ regions

/-- Sorting puts the bases in order. -/
theorem sortByBase_sorted (regions : List Region) :
    ((sortByBase regions).map regionRange).Pairwise fun r s => r.start≤ s.start := by
  have : Std.Total fun a b : Region => a.base≤b.base := ⟨fun a b => le_total a.base b.base⟩
  have : IsTrans Region fun a b => a.base≤b.base := ⟨fun _ _ _ => le_trans⟩
  exact List.pairwise_map.mpr (List.pairwise_insertionSort _ regions)

/-- A clean scan clears all pairs of regions. -/
theorem cleared_of_overlaps {checks : Bool} {regions : List Region}
    (h : overlaps checks (sortByBase regions)=.ok []) :
    (regions.map regionRange).Pairwise Cleared := by
  have hsorted := sortByBase_sorted regions
  have hends := pairwise_of_neighbours hsorted (overlaps_nil h)
  have hclear : ((sortByBase regions).map regionRange).Pairwise Cleared := by
    refine (hsorted.and hends).imp fun {r s} ⟨hstart,hstop⟩ => ?_
    by_cases hlt : r.stop<2^64
    · exact .inl (separate_of_le (hstop hlt))
    · exact .inr (.inl ⟨not_lt.mp hlt,hstart⟩)
  refine (((sortByBase_perm regions).map regionRange).pairwise_iff fun {r s} hrs => ?_).mp hclear
  rcases hrs with hsep | hr | hs
  · exact .inl (separate_comm.mp hsep)
  · exact .inr (.inr hr)
  · exact .inr (.inl hs)

/-- What a clean check went through. -/
theorem run_ok {libs : Libs} {checks : Bool} {bytes : Bytes} (h : run libs checks bytes=.ok ()) :
    ∃ sections dtb devices, libs.peParse bytes=some sections ∧
      baseDtbBytes libs bytes sections=.ok dtb ∧ deviceRegions libs checks dtb=.ok devices ∧
        render checks (sortByBase (sectionRegions sections++devices))=.ok () ∧
          overlaps checks (sortByBase (sectionRegions sections++devices))=.ok [] := by
  obtain ⟨sections,hpe,h⟩ := bind_ok.mp h
  obtain ⟨dtb,hdtb,h⟩ := bind_ok.mp h
  obtain ⟨devices,hdevices,h⟩ := bind_ok.mp h
  obtain ⟨_,hrender,h⟩ := bind_ok.mp h
  obtain ⟨overlapping,hoverlaps,h⟩ := bind_ok.mp h
  obtain ⟨misplaced,-,h⟩ := bind_ok.mp h
  obtain ⟨unaligned,-,h⟩ := bind_ok.mp h
  dsimp only at h
  split at h
  · rename_i hnone
    obtain ⟨hnone,-⟩ := List.append_eq_nil_iff.mp hnone
    obtain ⟨rfl,-⟩ := List.append_eq_nil_iff.mp hnone
    exact ⟨sections,dtb,devices,okOr_ok.mp hpe,hdtb,hdevices,hrender,hoverlaps⟩
  · exact absurd h fail_ne_ok

/-- The regions of a child are its registers that are not empty. -/
theorem childDevices_range (child : Node) :
    (childDevices child).map regionRange=
      (regRanges child).filter fun r => decide (r.start<r.stop) := by
  unfold childDevices regRanges
  cases child.property "reg" with
  | none => rfl
  | some reg =>
    have hsize : ∀ p : ℕ×ℕ, decide ((pairRange p).start<(pairRange p).stop)=decide (p.2≠0) := by
      intro p
      rw [decide_eq_decide]
      unfold pairRange
      dsimp only
      omega
    have hfst : ∀ l : List (ℕ×ℕ), (l.zipIdx.filter fun p => decide (p.1.2≠0)).map
        (fun p => pairRange p.1)=(l.filter fun p => decide (p.2≠0)).map pairRange := by
      intro l
      have hzip := List.zipIdx_map_fst 0 l
      conv_rhs => rw [←hzip]
      rw [List.filter_map,List.map_map]
      rfl
    rw [List.map_map,Option.map_some,Option.getD_some,List.filter_map]
    simp only [Function.comp_def,hsize]
    exact hfst _

/-- The window of a child is one of its windows. -/
theorem childWindow_mem {child : Node} {w : ℕ×ℕ} (h : childWindow child=some w) :
    pairRange w∈windowRanges child := by
  unfold childWindow at h
  unfold windowRanges
  split at h
  · rename_i hcells
    rw [hcells,Option.getD_some]
    split at h
    · cases h
      exact List.mem_cons_self
    · cases h
  · cases h

/-- The window that is kept is one of the tree's. -/
theorem keptWindow_mem {tree : Node} {w : Range} (h : keptWindow tree=some w) :
    w∈windows tree := by
  have hfold : ∀ (l : List Node) (start : Option (ℕ×ℕ)) (p : ℕ×ℕ),
      l.foldl (fun window child => (childWindow child).or window) start=some p →
        start=some p ∨ ∃ child∈l, childWindow child=some p := by
    intro l
    induction l with
    | nil => exact fun start p hp => .inl hp
    | cons child l ih =>
      intro start p hp
      rcases ih _ p hp with hor | ⟨c,hc,hwindow⟩
      · rcases Option.or_eq_some_iff.mp hor with hwindow | ⟨-,hstart⟩
        · exact .inr ⟨child,List.mem_cons_self,hwindow⟩
        · exact .inl hstart
      · exact .inr ⟨c,List.mem_cons_of_mem _ hc,hwindow⟩
  obtain ⟨p,hp,rfl⟩ := Option.map_eq_some_iff.mp h
  rcases hfold _ _ _ hp with hnone | ⟨child,hchild,hwindow⟩
  · cases hnone
  · exact List.mem_flatMap.mpr ⟨child,hchild,childWindow_mem hwindow⟩

/-- The check looks at the registers and the BAR window of the tree. -/
theorem seenTree_sublist {libs : Libs} {checks : Bool} {dtb : Bytes} {tree : Node}
    {devices : List Region} (htree : libs.fdtParse dtb=some tree)
    (h : baseDeviceRegions libs checks dtb=.ok devices) :
    ((tree.children.flatMap regRanges).filter (fun r => decide (r.start<r.stop))++
      (keptWindow tree).toList).Sublist (devices.map regionRange) := by
  obtain ⟨root,hroot,h⟩ := bind_ok.mp h
  obtain rfl : tree=root := Option.some.inj (htree.symm.trans (okOr_ok.mp hroot))
  have hregs : (tree.children.flatMap childDevices).map regionRange=
      (tree.children.flatMap regRanges).filter fun r => decide (r.start<r.stop) := by
    rw [List.map_flatMap,List.filter_flatMap]
    exact List.flatMap_congr fun child _ => childDevices_range child
  unfold keptWindow
  split at h
  · rename_i wb ws hwindow
    obtain ⟨burned,-,h⟩ := bind_ok.mp h
    cases h
    rw [List.map_append,hregs,hwindow]
    exact (List.Sublist.refl _).append ((List.nil_sublist _).cons_cons _)
  · rename_i hwindow
    cases h
    rw [hregs,hwindow]
    exact List.append_nil _ ▸ List.Sublist.refl _

/-- The check looks at the sections above GPA 0. -/
theorem seenSections_sublist (loaded : PeSection → Bool) (sections : List PeSection) :
    ((sections.filter fun s => loaded s && decide (0<s.virtualAddress.toNat)).map
      sectionRange).Sublist ((sectionRegions sections).map regionRange) := by
  unfold sectionRegions
  rw [List.map_map,←List.filter_filter]
  exact List.filter_sublist.map _

/-- A cell is a 32-bit word. -/
theorem beCells_lt (bytes : Bytes) : ∀ c∈beCells bytes, c<2^32 := by
  induction bytes using beCells.induct with
  | case1 a b c d rest ih =>
    intro v hv
    rcases List.mem_cons.mp hv with rfl | hv
    · have hlt := ofBE_lt [a,b,c,d]
      norm_num at hlt ⊢
      exact hlt
    · exact ih v hv
  | case2 bytes hshort =>
    intro v hv
    rw [beCells] at hv
    · cases hv
    · exact hshort

/-- Two cells are a 64-bit word. -/
theorem cellWord_lt {high low : ℕ} (hhigh : high<2^32) (hlow : low<2^32) :
    cellWord high low<2^64 := by
  unfold cellWord
  omega

/-- The bases in a `reg` are 64-bit words. -/
theorem regPairs_lt {cells : List ℕ} (hcells : ∀ c∈cells, c<2^32) :
    ∀ p∈regPairs cells, p.1<2^64 := by
  induction cells using regPairs.induct with
  | case1 a b c d rest ih =>
    obtain ⟨ha,hb,-,-,hrest⟩ := by simpa only [List.forall_mem_cons] using hcells
    intro p hp
    rcases List.mem_cons.mp hp with rfl | hp
    · exact cellWord_lt ha hb
    · exact ih hrest p hp
  | case2 cells hshort =>
    intro p hp
    rw [regPairs] at hp
    · cases hp
    · exact hshort

/-- So are the bases of the windows. -/
theorem windowTuples_lt {cells : List ℕ} (hcells : ∀ c∈cells, c<2^32) :
    ∀ p∈windowTuples cells, p.1<2^64 := by
  induction cells using windowTuples.induct with
  | case1 x y z a b c d rest ih =>
    obtain ⟨-,-,-,ha,hb,-,-,hrest⟩ := by simpa only [List.forall_mem_cons] using hcells
    intro p hp
    rcases List.mem_cons.mp hp with rfl | hp
    · exact cellWord_lt ha hb
    · exact ih hrest p hp
  | case2 cells hshort =>
    intro p hp
    rw [windowTuples] at hp
    · cases hp
    · exact hshort

/-- The cells of a property are 32-bit words. -/
theorem propertyCells_lt (child : Node) (name : String) :
    ∀ c∈((child.property name).map beCells).getD [], c<2^32 := by
  cases child.property name with
  | none => exact List.forall_mem_nil _
  | some value => exact beCells_lt value

section
variable {loaded : PeSection → Bool} {sections : List PeSection} {tree : Option Node}

/-- What the check looks at starts at a 64-bit address. -/
theorem seen_start_lt : ∀ r∈seen loaded sections tree, r.start<2^64 := by
  intro r hr
  rcases List.mem_append.mp hr with hr | hr
  · obtain ⟨s,-,rfl⟩ := List.mem_map.mp hr
    have hlt := s.virtualAddress.toNat_lt
    change s.virtualAddress.toNat<2^64
    omega
  · cases tree with
    | none => cases hr
    | some t =>
      rcases List.mem_append.mp hr with hr | hr
      · obtain ⟨child,-,hr⟩ := List.mem_flatMap.mp hr
        obtain ⟨p,hp,rfl⟩ := List.mem_map.mp hr
        exact regPairs_lt (propertyCells_lt child "reg") p hp
      · have hmem := keptWindow_mem (Option.mem_toList.mp hr)
        obtain ⟨child,-,hr⟩ := List.mem_flatMap.mp hmem
        obtain ⟨p,hp,rfl⟩ := List.mem_map.mp hr
        exact windowTuples_lt (propertyCells_lt child "ranges") p hp

/-- What the check looks at is among its regions. -/
theorem seen_sublist {libs : Libs} {checks : Bool} {bytes : Bytes} {dtb : Option Bytes}
    {devices : List Region} (hdtb : baseDtbBytes libs bytes sections=.ok dtb)
    (hdevices : deviceRegions libs checks dtb=.ok devices)
    (htree : bundledTree libs bytes sections=.ok tree) :
    ((seen loaded sections tree).filter fun r => decide (r.start<r.stop)).Sublist
      ((sectionRegions sections++devices).map regionRange) := by
  unfold seen
  rw [List.map_append,List.filter_append]
  refine (List.filter_sublist.trans (seenSections_sublist loaded sections)).append ?_
  unfold bundledTree at htree
  rw [ok_bind hdtb] at htree
  cases dtb with
  | none =>
    cases htree
    exact List.nil_sublist _
  | some dtb =>
    obtain ⟨root,hroot,htree⟩ := bind_ok.mp htree
    cases htree
    have hsub := seenTree_sublist (okOr_ok.mp hroot) hdevices
    rw [Option.map_some,Option.getD_some,List.filter_append]
    exact ((List.Sublist.refl _).append List.filter_sublist).trans hsub

/-- Where sums are checked, nothing the check looks at reaches the top. -/
theorem seen_stop_lt {libs : Libs} {bytes : Bytes} (h : run libs true bytes=.ok ())
    (hpe : libs.peParse bytes=some sections) (htree : bundledTree libs bytes sections=.ok tree) :
    ∀ r∈seen loaded sections tree, r.stop<2^64 := by
  obtain ⟨sections',dtb,devices,hpe',hdtb,hdevices,hrender,-⟩ := run_ok h
  obtain rfl : sections=sections' := Option.some.inj (hpe.symm.trans hpe')
  intro r hr
  by_cases hsome : r.start<r.stop
  · have hmem := (seen_sublist hdtb hdevices htree).subset
      (List.mem_filter.mpr ⟨hr,decide_eq_true hsome⟩)
    obtain ⟨region,hregion,rfl⟩ := List.mem_map.mp hmem
    have hword := forM_ok.mp hrender region ((sortByBase_perm _).mem_iff.mpr hregion)
    obtain ⟨stop,hstop,-⟩ := bind_ok.mp hword
    unfold word at hstop
    split at hstop
    · assumption
    · cases hstop
  · exact (not_lt.mp hsome).trans_lt (seen_start_lt r hr)

/-- Where sums are checked, no region reaches the top from below another. -/
theorem top_of_checked {libs : Libs} {bytes : Bytes} (h : run libs true bytes=.ok ())
    (hpe : libs.peParse bytes=some sections) (htree : bundledTree libs bytes sections=.ok tree) :
    (seen loaded sections tree).Pairwise fun r s => Above r s ∧ Above s r := by
  have hstop := @seen_stop_lt loaded _ _ _ _ h hpe htree
  exact List.pairwise_of_forall_mem_list fun r hr s hs =>
    ⟨fun hreach => absurd hreach (not_le.mpr (hstop r hr)),
      fun hreach => absurd hreach (not_le.mpr (hstop s hs))⟩

end

/-- A row of the section table. -/
def readRow (hdr : Bytes) : PeSection :=
  ⟨some (.ofList ((untilNul (slice 0 8 hdr)).map fun b => Char.ofNat b.toNat)),
    .ofNat (u32At hdr 12),.ofNat (u32At hdr 8),.ofNat (u32At hdr 20),.ofNat (u32At hdr 16)⟩

/-- The section table of an image with short names. -/
def readRows (file : Bytes) : Option (List PeSection) :=
  let pe := u32At file 60
  if u16At file 0=0x5A4D ∧ slice pe 4 file=peSignature then
    some (decodeRecords 40 readRow (u16At file (pe+6)) (file.drop (pe+24+u16At file (pe+20))))
  else none

/-- An image with so many rows, and the contents behind them. -/
def sampleImage (count : ℕ) (rows contents : Bytes) : Bytes :=
  dosHeader 64++peSignature++coffHeader 0x8664 count 0++optionalHeader 0 0 0 0x10000 0x1000++
    rows++contents

/-- A tree with a serial port. -/
def sampleTree : Node :=
  .mk "" [] [.mk "serial@10000000" [⟨"reg",[0,0,0,0,16,0,0,0,0,0,0,0,0,0,16,0]⟩] []]

/-- The manifest `{"dt:dtb": ".dtb"}`. -/
def sampleManifest : Bytes := [0xa1,0x66]++asBytes "dt:dtb"++[0x64]++asBytes ".dtb"

/-- Parsers for the samples. -/
def sampleLibs : Libs where
  peParse := readRows
  cborDecode bytes :=
    if bytes=sampleManifest then some (.map [(.text "dt:dtb",.text ".dtb")])
    else if bytes=[0xa0] then some (.map [])
    else none
  fdtParse bytes := if bytes=flatten sampleTree then some sampleTree else none

end Arma.Check.Disjoint
