import Arma.Build.Board
import Arma.Build.Handoff
import Arma.Check.Board
import Arma.Check.Clean
import Arma.Check.Image
import Arma.Planner.Payloads

/-!
# What the check sees of a finished build

The parsers of the check read back what the build wrote: a row for each section, and the
board that was planned. So the regions of the check are the sections that are loaded above
address zero, the registers of the board and the BAR window with its buddy.
-/

namespace Arma.Build.Regions

open Base.ByteString Base.Checked Base.Keyed Base.Text BaseDtb BaseDtb.Registers BootInfo Build
open Base.Intervals hiding Region
open Check.Board Check.Clean Check.Image Header Kernel.RelocTable Manifest Pe.Granularity
open Pe.RoundTrip Pe.Writer Planner.Bound Planner.Model Planner.Payloads Run TatuImage
open Check hiding Libs run word
open Check.Disjoint hiding Range

/-- The parsers of the check read back what the build wrote, with zeros behind it. -/
structure ReadBack (libs : Check.Libs) (input : BuildInput) (b : Built) : Prop where
  /-- The PE parser finds the section table. -/
  pe : libs.peParse b.pe=readTable b.pe
  /-- The manifest is a map with the name of the bundled devicetree. -/
  cbor : ∀ n, ∃ entries, libs.cborDecode (b.payload.cbor++zeros n)=some (.map entries) ∧
    valuesOf "dt:dtb" entries=(input.dtbMode.attribute.map Value.text).toList
  /-- The devicetree is that of the board. -/
  fdt : ∀ n, libs.fdtParse (b.payload.dtbBytes++zeros n)=
    some (tree (dtbInputs input b.kernel b.lay))

/-- arma's own loaded sections. -/
def ownSections (b : Built) : List Section :=
  linuxSection b.payload b.lay::
    (initrdSection b.payload b.lay++bootconfigSection b.lay++relocsSection b.payload b.lay)

/-- An image with an attached devicetree has tatu's sections, arma's own and the manifest. -/
theorem sections_attached (tatu : TatuImage) (b : Built) : b.sections tatu .attached=
    tatu.sections.map (tatuSection b.payload .attached)++
      (ownSections b++[nonLoadedSection sectionPmiVm b.payload.cbor]) := by
  simp only [Built.sections,assembleSections,fallbackSection,ownSections,List.append_assoc,
    List.cons_append,List.nil_append,List.append_nil,reduceCtorEq,if_false]

/-- arma's own sections are named from a fixed list. -/
theorem ownSections_names (b : Built) : ((ownSections b).map Section.name).Sublist ownNames := by
  have hinitrd : ((initrdSection b.payload b.lay).map Section.name).Sublist [sectionInitrd] := by
    unfold initrdSection
    split
    · exact List.Sublist.refl _
    · exact List.nil_sublist _
  have hbootconfig : ((bootconfigSection b.lay).map Section.name).Sublist [sectionBootconfig] := by
    unfold bootconfigSection
    cases b.lay.bootconfig with
    | none => exact List.nil_sublist _
    | some r => exact List.Sublist.refl _
  have hrelocs : ((relocsSection b.payload b.lay).map Section.name).Sublist [sectionRelocs] := by
    unfold relocsSection
    cases b.lay.relocs with
    | none => exact List.nil_sublist _
    | some r => exact List.Sublist.refl _
  rw [ownSections,List.map_cons,List.map_append,List.map_append]
  exact ((hinitrd.append hbootconfig).append hrelocs).cons_cons sectionLinux

/-- The names of tatu's sections are kept. -/
theorem tatuSection_names (tatu : TatuImage) (payload : Payload) (dtbMode : DtbMode) :
    (tatu.sections.map (tatuSection payload dtbMode)).map Section.name=
      tatu.sections.map TatuSection.name := by
  rw [List.map_map]
  rfl

/-- No two sections share a name. -/
theorem sections_nodup {tatu : TatuImage} (hlinked : Linked tatu) (b : Built) :
    ((b.sections tatu .attached).map Section.name).Nodup := by
  have hnames : ((ownSections b++[nonLoadedSection sectionPmiVm b.payload.cbor]).map
      Section.name).Sublist (ownNames++[sectionPmiVm]) := by
    rw [List.map_append]
    exact (ownSections_names b).append (List.Sublist.refl _)
  rw [sections_attached,List.map_append,tatuSection_names,List.nodup_append]
  refine ⟨hlinked.names,hnames.nodup (by decide),?_⟩
  rintro n hn _ hn' rfl
  have hown : ∀ m∈ownNames++[sectionPmiVm], m∈ownNames++nonLoadedNames := by decide
  exact tatu_name_not_own hlinked hn (hown _ (hnames.subset hn'))

/-- A section is found by its name. -/
theorem find_section {tatu : TatuImage} (hlinked : Linked tatu) {b : Built} {s : Section}
    (hs : s∈b.sections tatu .attached) :
    ((b.sections tatu .attached).find? fun t => decide (t.name=s.name))=some s :=
  find?_key (sections_nodup hlinked b) hs

/-- Every name starts with a dot. -/
theorem sections_dotted {tatu : TatuImage} (hlinked : Linked tatu) (b : Built) :
    ∀ s∈b.sections tatu .attached, (asBytes s.name).head?=some 0x2E := by
  have hprefix : ∀ name : String, ".tatu.".toList<+:name.toList →
      (asBytes name).head?=some 0x2E := by
    rintro name ⟨rest,hrest⟩
    have hbytes : asBytes name=name.toList.flatMap String.utf8EncodeChar := utf8_eq name
    rw [hbytes,←hrest]
    rfl
  intro s hs
  rw [sections_attached] at hs
  rcases List.mem_append.mp hs with hs | hs
  · obtain ⟨t,ht,rfl⟩ := List.mem_map.mp hs
    exact hprefix _ (hlinked.dotted t ht)
  · have hfixed : ∀ n∈ownNames++[sectionPmiVm], (asBytes n).head?=some 0x2E := by decide
    refine hfixed _ ?_
    rcases List.mem_append.mp hs with hs | hs
    · exact List.mem_append_left _ ((ownSections_names b).subset (List.mem_map_of_mem hs))
    · rw [List.mem_singleton.mp hs]
      exact List.mem_append_right _ (List.mem_singleton_self _)

/-- A section carries a planned range. -/
structure Carries (r : Range) (s : Section) : Prop where
  /-- The section is loaded. -/
  loaded : s.nonLoaded=false
  /-- It starts with the range. -/
  start : s.vaddr=r.start
  /-- It has the size of the range. -/
  size : s.virtualSize=r.stop-r.start
  /-- The data has room. -/
  data : s.data.length≤ s.virtualSize

section Finished

variable {libs : Libs} {tatu : TatuImage} {input : BuildInput} {b : Built}

/-- arma's own sections carry the ranges of the payloads. -/
theorem own_carries (h : Ran libs tatu input b) :
    List.Forall₂ Carries (payloadRanges b.lay) (ownSections b) := by
  have hlinux : Carries b.lay.linux (linuxSection b.payload b.lay) := by
    refine ⟨rfl,rfl,rfl,?_⟩
    change b.payload.kernelBytes.length≤b.lay.linux.stop-b.lay.linux.start
    rw [h.kernelBytes,h.linux_stop,Nat.add_sub_cancel_left,LoadedKernel.allocSize]
    unfold computeKernelAllocSize
    split
    · exact le_max_right _ _
    · exact le_max_right _ _
  have hsome : b.lay.initrd.isSome=true → b.payload.initrdBytes.isSome=true := by
    intro hinitrd
    have hsize : (input.initrd.map List.length).isSome=true := plan_initrd h.plan hinitrd
    rwa [h.initrdBytes,←Option.isSome_map]
  have hinitrd : List.Forall₂ Carries b.lay.initrd.toList (initrdSection b.payload b.lay) := by
    rw [initrdSection_eq hsome]
    refine forall₂_toList fun r hr => ⟨rfl,rfl,rfl,?_⟩
    obtain ⟨sz,hsz,hstop⟩ := (Handoff.plan_placed h.plan hr).archive
    obtain ⟨bytes,hbytes,hlen⟩ := Option.map_eq_some_iff.mp hsz
    have hpadded : sz≤Handoff.padded sz := (Handoff.isLeast_padded sz).1.2
    change (b.payload.initrdBytes.getD []).length≤r.stop-r.start
    rw [h.initrdBytes,hbytes,Option.getD_some,hlen]
    omega
  have hbootconfig : List.Forall₂ Carries b.lay.bootconfig.toList (bootconfigSection b.lay) :=
    forall₂_toList fun r _ => ⟨rfl,rfl,rfl,Nat.zero_le _⟩
  have hrelocs : List.Forall₂ Carries b.lay.relocs.toList (relocsSection b.payload b.lay) := by
    refine forall₂_toList fun r hr => ⟨rfl,rfl,rfl,?_⟩
    have hrange := h.relocs_range
    rw [Option.mem_def.mp hr] at hrange
    change b.payload.relocsBytes.length≤r.stop-r.start
    rw [h.relocsBytes,length_toSectionBytes]
    dsimp only at hrange
    omega
  exact .cons hlinux (List.rel_append (List.rel_append hinitrd hbootconfig) hrelocs)

/-- The sections of tatu are whole pages with room for their data, and their ranges and
those of the fixed devices are separate. -/
structure Packed (tatu : TatuImage) (arch : Kernel.Image.Arch) : Prop where
  /-- No section is empty. -/
  nonempty : ∀ s∈tatu.sections, 0 < s.virtualSize
  /-- They are whole pages. -/
  pages : ∀ s∈tatu.sections, fileAlignment∣s.virtualSize
  /-- The data has room. -/
  data : ∀ s∈tatu.sections, s.data.length≤ s.virtualSize
  /-- No two ranges overlap. -/
  separate : (tatu.reserved++archReserved arch).Pairwise Base.Intervals.Region.Separate

/-- The devicetree of a linked tatu has one section. -/
theorem dtb_unique (hlinked : Linked tatu) (h : Ran libs tatu input b) {s : TatuSection}
    (hs : s∈tatu.sections) (hname : s.name=sectionDtb) : s=b.dtb := by
  have hfind : tatu.section sectionDtb=some s := hname ▸ find?_key hlinked.names hs
  exact Option.some.inj (hfind.symm.trans h.dtb_fits.1)

/-- The sections of tatu have room for what is shipped in them. -/
theorem tatuData_fits (hlinked : Linked tatu) (h : Ran libs tatu input b)
    (hpacked : Packed tatu b.kernel.parsed.arch) {s : TatuSection} (hs : s∈tatu.sections) :
    (tatuData b.payload .attached s).length≤ s.virtualSize := by
  unfold tatuData
  split
  · -- the header takes a page
    have hmagic : b.bootInfo.magic.length=8 := by
      rw [h.header]
      rfl
    have hpage : b.payload.bootinfoBytes.length=fileAlignment := by
      rw [h.headerBytes,length_page hmagic]
      rfl
    rw [hpage]
    exact Nat.le_of_dvd (hpacked.nonempty s hs) (hpacked.pages s hs)
  · split
    · rename_i hdtb
      rw [Bool.and_eq_true,s.isDtb_eq,decide_eq_true_eq] at hdtb
      rw [dtb_unique hlinked h hs hdtb.1]
      exact h.dtb_fits.2
    · split
      · exact Nat.zero_le _
      · exact hpacked.data s hs

/-- A kernel is an x86 ELF file or has a header. -/
theorem parse_elf {elfParse : Bytes → Option Kernel.Image.Elf} {bytes : Bytes}
    {parsed : Kernel.Image.Parsed} (h : Kernel.Image.parse elfParse bytes=.ok parsed) :
    parsed.arch=.x86_64 ∨ parsed.elf=none ∧ 64≤bytes.length := by
  unfold Kernel.Image.parse at h
  split at h
  · exact absurd h fail_ne_ok
  · rename_i hlen
    split at h
    · obtain ⟨elf,-,h⟩ := bind_ok.mp h
      unfold Kernel.Image.parseVmlinux at h
      split at h
      · exact absurd h fail_ne_ok
      · obtain ⟨_,-,h⟩ := bind_ok.mp h
        obtain ⟨_,-,h⟩ := bind_ok.mp h
        obtain ⟨_,-,h⟩ := bind_ok.mp h
        cases h
        exact .inl rfl
    · split at h
      · cases h
        exact .inr ⟨rfl,not_lt.mp hlen⟩
      · exact absurd h fail_ne_ok

/-- No kernel is empty. -/
theorem alloc_pos (h : Ran libs tatu input b) : 0<b.kernel.allocSize := by
  rcases parse_elf (Mapped.loadKernel_parsed h.kernel) with hx86 | ⟨helf,hlen⟩
  · have hentry := Mapped.entry_lt h hx86
    omega
  · have himage : b.kernel.image=input.kernelBytes := by
      obtain ⟨parsed,hparse,hload⟩ := bind_ok.mp h.kernel
      have hsame := Mapped.loadKernel_parsed h.kernel
      rw [context_ok.mp hparse,Except.ok.injEq] at hsame
      rw [hsame,helf] at hload
      exact congrArg LoadedKernel.image (Except.ok.inj hload).symm
    have hfile : b.kernel.image.length≤b.kernel.allocSize := by
      rw [LoadedKernel.allocSize,helf]
      exact le_max_right _ _
    rw [himage] at hfile
    omega

/-- The payloads start at units and are not empty. -/
theorem payloads_aligned (h : Ran libs tatu input b) :
    ∀ r∈payloadRanges b.lay, gran∣r.start ∧ r.start < r.stop :=
  plan_aligned h.plan le_rfl (alloc_pos h)

/-- The addresses that an emitted section has for its planned range. -/
structure Emitted (r e : Range) : Prop where
  /-- They start with the range. -/
  start : e.start=r.start
  /-- They cover it. -/
  stop : r.stop≤e.stop
  /-- They are in its units. -/
  blocks : InBlocks (·/gran) e.toSet r.toSet

/-- A section stays in the units of the range that it carries. -/
theorem Carries.emitted {r : Range} {s : Section} (h : Carries r s) (haligned : gran∣r.start)
    (hsome : r.start < r.stop) : Emitted r (regionRange (payloadRegion s)) := by
  obtain ⟨hcover,hpadded⟩ := emittedSize_bounds h.data
  have hunit : fileAlignment∣gran := by decide
  have hround := Planner.Separation.le_roundUp r.stop
  have hpages : fileAlignment∣(r.stop+(gran-1))/gran*gran-r.start :=
    Nat.dvd_sub (hunit.trans (Nat.dvd_mul_left _ _)) (hunit.trans haligned)
  have hleast := wholeUnits_le (by decide) hpages (show s.virtualSize≤_ by rw [h.size]; omega)
  have hstart : (regionRange (payloadRegion s)).start=r.start := h.start
  have hstop : (regionRange (payloadRegion s)).stop=r.start+emittedSize s := by
    rw [←h.start]
    rfl
  have hsize := h.size
  refine ⟨hstart,by omega,inBlocks_of_round Planner.Separation.gran_pos hsome hstart ?_⟩
  omega

/-- So do all of arma's own sections. -/
theorem own_emitted (h : Ran libs tatu input b) : List.Forall₂ Emitted (payloadRanges b.lay)
    ((ownSections b).map fun s => regionRange (payloadRegion s)) := by
  have haligned := payloads_aligned h
  have hcarries := own_carries h
  rw [List.forall₂_map_right_iff]
  refine List.forall₂_iff_zip.mpr ⟨hcarries.length_eq,fun {r s} hmem => ?_⟩
  obtain ⟨hunit,hsome⟩ := haligned r (List.of_mem_zip hmem).1
  exact ((List.forall₂_iff_zip.mp hcarries).2 hmem).emitted hunit hsome

/-- A loaded section is not empty and has room for its data. -/
theorem loaded_fits (hlinked : Linked tatu) (h : Ran libs tatu input b)
    (hpacked : Packed tatu b.kernel.parsed.arch) :
    ∀ s∈b.sections tatu .attached, s.nonLoaded=false →
      0 < s.virtualSize ∧ s.data.length≤ s.virtualSize := by
  intro s hs hload
  rw [sections_attached] at hs
  rcases List.mem_append.mp hs with hs | hs
  · obtain ⟨t,ht,rfl⟩ := List.mem_map.mp hs
    exact ⟨hpacked.nonempty t ht,tatuData_fits hlinked h hpacked ht⟩
  · rcases List.mem_append.mp hs with hs | hs
    · obtain ⟨r,hr,hcarries⟩ := forall₂_mem (own_carries h).flip hs
      have hsome := (payloads_aligned h r hr).2
      have hsize := hcarries.size
      exact ⟨by omega,hcarries.data⟩
    · rw [List.mem_singleton.mp hs] at hload
      cases hload

/-- The registers of a board. -/
def boardRegions (inputs : Inputs) : List Region := (tree inputs).children.flatMap childDevices

/-- A BAR window and its buddy. -/
def windowRegions : Option Range → List Region
  | some w => [⟨"pcie-bar-window",w.start,BaseDtb.sizeOf w,.window⟩,
      ⟨"(burned buddy)",w.start+BaseDtb.sizeOf w,BaseDtb.sizeOf w,.burned⟩]
  | none => []

/-- The sections above address zero. -/
def sectionsShown (tatu : TatuImage) (b : Built) : List Region :=
  (shown (b.sections tatu .attached)).map payloadRegion

/-- Everything that the check sees. -/
def regions (tatu : TatuImage) (input : BuildInput) (b : Built) : List Region :=
  sectionsShown tatu b++(boardRegions (dtbInputs input b.kernel b.lay)++
    windowRegions b.lay.pciWindow)

/-- The numbers of a planned window are words. -/
theorem window_words (h : Ran libs tatu input b) {w : Range} (hw : w∈b.lay.pciWindow) :
    Worded w ∧ 0<BaseDtb.sizeOf w ∧ w.start+BaseDtb.sizeOf w<2^64 := by
  obtain ⟨-,hwindow,hword⟩ := plan_window h.plan hw
  have hsize : w.stop=w.start+2^(plannerFor input tatu b.kernel).args.windowBits := by
    rw [hwindow]
    rfl
  have hpos := Nat.two_pow_pos (plannerFor input tatu b.kernel).args.windowBits
  have hsizeOf : BaseDtb.sizeOf w=w.stop-w.start := rfl
  exact ⟨⟨by omega,by omega⟩,by omega,by omega⟩

/-- The check takes the regions of the board from the devicetree. -/
theorem board_regions (h : Ran libs tatu input b) {check : Check.Libs} {dtb : Bytes}
    (hparse : check.fdtParse dtb=some (tree (dtbInputs input b.kernel b.lay))) (checks : Bool) :
    deviceRegions check checks (some dtb)=.ok
      (boardRegions (dtbInputs input b.kernel b.lay)++windowRegions b.lay.pciWindow) := by
  have hhanded := Planner.Devices.plan_handed h.plan
  have hwindow := (Planner.Separation.plan_ok h.plan).window
  have hbridge : b.lay.ecam.isSome=b.lay.pciWindow.isSome := by
    rw [hhanded.space,hwindow]
    split
    · rename_i hslots
      exact decide_eq_true hslots
    · rename_i hslots
      exact decide_eq_false hslots
  have hbar := @barWindow_tree (dtbInputs input b.kernel b.lay)
    (fun w hw => ⟨(window_words h hw).1,(window_words h hw).2.1⟩) hbridge
  change baseDeviceRegions check checks dtb=_
  rw [baseDeviceRegions,ok_bind (okOr_ok.mpr hparse)]
  cases hw : b.lay.pciWindow with
  | none =>
    have hnone : barWindow (tree (dtbInputs input b.kernel b.lay))=none :=
      hbar.trans (congrArg (Option.map _) hw)
    rw [hnone,windowRegions,List.append_nil]
    rfl
  | some w =>
    have hsome : barWindow (tree (dtbInputs input b.kernel b.lay))=
        some (w.start,BaseDtb.sizeOf w) := hbar.trans (congrArg (Option.map _) hw)
    rw [hsome]
    dsimp only
    rw [ok_bind (word_eq (window_words h hw).2.2)]
    rfl

/-- The check finds the attached devicetree. -/
theorem attached_bytes (h : Ran libs tatu input b) (hmode : input.dtbMode=.attached)
    (hlinked : Linked tatu) {check : Check.Libs} (hread : ReadBack check input b)
    {rows : List PeSection} (hrows : List.Forall₂ (SameRow b.pe) (b.sections tatu .attached) rows)
    (hnul : ∀ s∈b.sections tatu .attached, (0 : UInt8)∉asBytes s.name) :
    ∃ n, baseDtbBytes check b.pe rows=.ok (some (b.payload.dtbBytes++zeros n)) := by
  have hmanifest : nonLoadedSection sectionPmiVm b.payload.cbor∈b.sections tatu .attached := by
    rw [sections_attached]
    exact List.mem_append_right _ (List.mem_append_right _ (List.mem_singleton_self _))
  obtain ⟨k,hk⟩ := sectionRaw_eq hrows hnul (find_section hlinked hmanifest)
  have hcbor : sectionRaw b.pe rows sectionPmiVm=some (b.payload.cbor++zeros k) := hk
  obtain ⟨entries,hdecode,hvalues⟩ := hread.cbor k
  have hattribute : dtDtbAttribute check b.pe rows=.ok (some sectionDtb) := by
    rw [hmode] at hvalues
    change (okOr (sectionRaw b.pe rows sectionPmiVm) _ >>= _)=_
    rw [ok_bind (okOr_ok.mpr hcbor),ok_bind (okOr_ok.mpr hdecode)]
    exact dtDtb_eq hvalues
  have hdtb := List.mem_of_find?_eq_some h.dtb_fits.1
  have hname : b.dtb.name=sectionDtb := by simpa using List.find?_some h.dtb_fits.1
  have hdata : tatuData b.payload .attached b.dtb=b.payload.dtbBytes := by
    have hboot : b.dtb.isBootinfo=false := by
      rw [b.dtb.isBootinfo_eq,hname]
      decide
    have hisDtb : b.dtb.isDtb=true := by
      rw [b.dtb.isDtb_eq,hname]
      decide
    rw [tatuData,hboot,hisDtb]
    rfl
  have hmem : tatuSection b.payload .attached b.dtb∈b.sections tatu .attached :=
    tatuSection_mem hdtb
  obtain ⟨n,hn⟩ := sectionRaw_eq hrows hnul (find_section hlinked hmem)
  have hraw : sectionRaw b.pe rows sectionDtb=some (b.payload.dtbBytes++zeros n) := by
    rw [←hname,←hdata]
    exact hn
  refine ⟨n,?_⟩
  rw [baseDtbBytes,ok_bind hattribute]
  exact ok_bind (okOr_ok.mpr hraw)

/-- These regions are what the check sees. -/
theorem shows (h : Ran libs tatu input b) (hmode : input.dtbMode=.attached)
    (hlinked : Linked tatu) {check : Check.Libs} (hread : ReadBack check input b)
    (checks : Bool) : Shows check checks b.pe (regions tatu input b) := by
  have hpe := h.pe
  rw [hmode] at hpe
  obtain ⟨rows,htable,hrows⟩ := readTable_buildPe (sections_dotted hlinked b) hpe
  obtain ⟨_,_,_,_,_,_,_,hcomposed,-⟩ := buildPe_ok hpe
  obtain ⟨n,hbytes⟩ := attached_bytes h hmode hlinked hread hrows hcomposed.noNul
  refine ⟨rows,_,_,hread.pe.trans htable,hbytes,board_regions h (hread.fdt n) checks,?_⟩
  rw [sectionRegions_eq hrows hcomposed.noNul]
  rfl

end Finished

end Arma.Build.Regions
