import Arma.Base.Keyed
import Arma.Manifest
import Arma.Pe.Writer
import Arma.Planner.Model

/-!
# Assembly of the image

The section list is built from tatu's sections, the payloads and the planned
layout. The manifest places the loaded sections by a separate list of actions;
the two agree on every name and address.
-/

namespace Arma.Build

open Base.ByteString Base.Checked Base.Keyed Manifest Pe.Writer Planner.Model TatuImage

/-- `IMAGE_SCN_MEM_DISCARDABLE`. -/
def imageScnMemDiscardable : UInt32 := 0x02000000

/-- `IMAGE_SCN_MEM_EXECUTE`. -/
def imageScnMemExecute : UInt32 := 0x20000000

/-- `IMAGE_SCN_MEM_READ`. -/
def imageScnMemRead : UInt32 := 0x40000000

/-- `IMAGE_SCN_MEM_WRITE`. -/
def imageScnMemWrite : UInt32 := 0x80000000

/-- `str::contains`. -/
def contains (name part : String) : Bool := decide (part.toList<:+:name.toList)

/-- Section flags for a section of tatu. -/
def tatuSectionCharacteristics (name : String) (isNobits : Bool) : UInt32 :=
  if isNobits then imageScnCntUninitializedData ||| imageScnMemRead ||| imageScnMemWrite
  else if contains name ".text" || decide (name=".tatu.reset") then
    imageScnCntCode ||| imageScnMemRead ||| imageScnMemExecute
  else if contains name ".rodata" then imageScnCntInitializedData ||| imageScnMemRead
  else imageScnCntInitializedData ||| imageScnMemRead ||| imageScnMemWrite

/-- The bytes that go into the image. -/
structure Payload where
  /-- The bootstrap header. -/
  bootinfoBytes : Bytes
  /-- The kernel image. -/
  kernelBytes : Bytes
  /-- The initrd archive. -/
  initrdBytes : Option Bytes
  /-- The relocation table. -/
  relocsBytes : Bytes
  /-- The base devicetree. -/
  dtbBytes : Bytes
  /-- The encoded manifest. -/
  cbor : Bytes
deriving DecidableEq, Repr

/-- The bytes shipped for a section of tatu: the header and an attached base
devicetree replace tatu's own, and a devicetree to be filled has none. -/
def tatuData (payload : Payload) (dtbMode : DtbMode) (s : TatuSection) : Bytes :=
  if s.isBootinfo then payload.bootinfoBytes
  else if s.isDtb && decide (dtbMode=.attached) then payload.dtbBytes
  else if s.isDtb || s.isNobits then []
  else s.data

/-- The section emitted for a section of tatu. -/
def tatuSection (payload : Payload) (dtbMode : DtbMode) (s : TatuSection) : Section :=
  ⟨s.name,s.vaddr,s.virtualSize,tatuData payload dtbMode s,
    tatuSectionCharacteristics s.name s.isNobits,false⟩

/-- A section outside the loaded image. -/
def nonLoadedSection (name : String) (data : Bytes) : Section :=
  ⟨name,0,data.length,data,
    imageScnCntInitializedData ||| imageScnMemRead ||| imageScnMemDiscardable,true⟩

/-- A section of read-only data at a planned range. -/
def dataSection (name : String) (r : Range) (data : Bytes) : Section :=
  ⟨name,r.start,r.stop-r.start,data,imageScnCntInitializedData ||| imageScnMemRead,false⟩

/-- The bundled fallback devicetree, in optional mode. -/
def fallbackSection (payload : Payload) (dtbMode : DtbMode) : List Section :=
  if dtbMode=.optional then [nonLoadedSection sectionDtbFallback payload.dtbBytes] else []

/-- `.linux`. -/
def linuxSection (payload : Payload) (lay : Layout) : Section :=
  dataSection sectionLinux lay.linux payload.kernelBytes

/-- `.initrd`, given both an archive and a place for it. -/
def initrdSection (payload : Payload) (lay : Layout) : List Section :=
  match payload.initrdBytes,lay.initrd with
  | some bytes,some r => [dataSection sectionInitrd r bytes]
  | _,_ => []

/-- `.bconf`, filled at launch. -/
def bootconfigSection (lay : Layout) : List Section :=
  (lay.bootconfig.map fun r => (⟨sectionBootconfig,r.start,r.stop-r.start,[],
    imageScnCntUninitializedData ||| imageScnMemRead,false⟩ : Section)).toList

/-- `.linux.relocs`. -/
def relocsSection (payload : Payload) (lay : Layout) : List Section :=
  (lay.relocs.map fun r => dataSection sectionRelocs r payload.relocsBytes).toList

/-- The list of sections, in the order of the section table. -/
def assembleSections (tatu : TatuImage) (payload : Payload) (lay : Layout) (dtbMode : DtbMode) :
    List Section :=
  tatu.sections.map (tatuSection payload dtbMode)++fallbackSection payload dtbMode++
    [linuxSection payload lay]++initrdSection payload lay++bootconfigSection lay++
    relocsSection payload lay++[nonLoadedSection sectionPmiVm payload.cbor]

/-- The addresses of the actions, read off the layout. -/
def actionGpas (lay : Layout) : ActionGpas :=
  ⟨lay.linux.start,lay.initrd.map (·.start),lay.bootconfig.map (·.start),lay.relocs.map (·.start)⟩

/-- The name and address of an action. -/
def actionPlacement (a : Action) : String × ℕ := (a.sectionName,a.gpa)

/-- The name and address of a section. -/
def sectionPlacement (s : Section) : String × ℕ := (s.name,s.vaddr)

/-- The names and addresses of arma's own sections. -/
def ownPlacements (gpas : ActionGpas) : List (String × ℕ) :=
  [(sectionLinux,gpas.linux)]++(gpas.initrd.map fun gpa => (sectionInitrd,gpa)).toList++
    (gpas.bootconfig.map fun gpa => (sectionBootconfig,gpa)).toList++
    (gpas.relocs.map fun gpa => (sectionRelocs,gpa)).toList

/-- The names and addresses of tatu's sections. -/
def tatuPlacements (sections : List TatuSection) : List (String × ℕ) :=
  sections.map fun s => (s.name,s.vaddr)

/-- What arma requires of tatu's section names, with the two devicetrees among
them and no contents for the host's. -/
structure Linked (tatu : TatuImage) : Prop where
  /-- No two sections share a name. -/
  names : (tatu.sections.map TatuSection.name).Nodup
  /-- Every name starts with `.tatu.`. -/
  dotted : ∀ s∈tatu.sections, ".tatu.".toList<+:s.name.toList
  /-- The base devicetree has a section. -/
  dtb : ∃ s∈tatu.sections, s.name=sectionDtb
  /-- The host's overlay has a zeroed section. -/
  dtbo : ∃ s∈tatu.sections, s.name=sectionDtbo ∧ s.isNobits=true

/-- The actions place exactly the loaded sections. -/
structure Agree (actions : List Action) (sections : List Section) : Prop where
  /-- Every section name is acted on once. -/
  once : (actions.map Action.sectionName).Nodup
  /-- Actions and loaded sections correspond by name and address. -/
  same : (actions.map actionPlacement).Perm
    ((sections.filter fun s => !s.nonLoaded).map sectionPlacement)
  /-- A fill targets a section without data. -/
  fills : ∀ a∈actions, a.isFill=true →
    ∃ s∈sections, s.nonLoaded=false ∧ sectionPlacement s=actionPlacement a ∧ s.data=[]
  /-- Sections that are not loaded have no action. -/
  silent : ∀ s∈sections, s.nonLoaded=true → ∀ a∈actions, a.sectionName≠s.name

/-- An archive has a place only if there is one. -/
theorem placeInitrd_size {initrdSize : Option ℕ} {bootconfig : Bool} {occupied occupied' : List Range}
    {initrd fill : Option Range}
    (h : placeInitrd initrdSize bootconfig occupied=.ok ((initrd,fill),occupied'))
    (hi : initrd.isSome=true) : initrdSize.isSome=true := by
  cases initrdSize with
  | some sz => rfl
  | none =>
    cases h
    cases hi

/-- A layout has a place for the archive only if there is one. -/
theorem plan_initrd {p : Planner} {lay : Layout} (h : p.plan=.ok lay)
    (hi : lay.initrd.isSome=true) : p.initrdSize.isSome=true := by
  obtain ⟨_,_,_,_,_,hrun⟩ := Planner.plan_run h
  exact placeInitrd_size hrun.initrd hi

/-- The actions place tatu's loaded sections, arma's own sections and the
devicetrees to be filled. -/
theorem buildActions_placements (tatu : TatuImage) (gpas : ActionGpas) (dtbMode : DtbMode) :
    (buildActions tatu gpas dtbMode).map actionPlacement=
      tatuPlacements (tatu.sections.filter (isLoaded dtbMode))++ownPlacements gpas++
        (dtbFill tatu dtbMode).map actionPlacement++[actionPlacement (dtboFill tatu)] := by
  obtain ⟨linux,initrd,bootconfig,relocs⟩ := gpas
  have htatu : (tatuLoads tatu dtbMode).map actionPlacement=
      tatuPlacements (tatu.sections.filter (isLoaded dtbMode)) := by
    rw [tatuLoads,tatuPlacements,List.map_map]
    rfl
  simp only [buildActions,ownPlacements,List.map_append,htatu,List.append_assoc]
  cases initrd <;> cases bootconfig <;> cases relocs <;> rfl

/-- With an archive for every place, `.initrd` follows the layout. -/
theorem initrdSection_eq {payload : Payload} {lay : Layout}
    (hi : lay.initrd.isSome=true → payload.initrdBytes.isSome=true) :
    initrdSection payload lay=(lay.initrd.map fun r =>
      dataSection sectionInitrd r (payload.initrdBytes.getD [])).toList := by
  unfold initrdSection
  cases hr : lay.initrd with
  | none => cases payload.initrdBytes <;> rfl
  | some r =>
    obtain ⟨bytes,hbytes⟩ := Option.isSome_iff_exists.mp (hi (by rw [hr]; rfl))
    rw [hbytes]
    rfl

/-- The loaded sections are tatu's and arma's own, each at its address. -/
theorem assembleSections_placements {tatu : TatuImage} {payload : Payload} {lay : Layout}
    {dtbMode : DtbMode} (hi : lay.initrd.isSome=true → payload.initrdBytes.isSome=true) :
    ((assembleSections tatu payload lay dtbMode).filter fun s => !s.nonLoaded).map sectionPlacement=
      tatuPlacements tatu.sections++ownPlacements (actionGpas lay) := by
  have htatu : ((tatu.sections.map (tatuSection payload dtbMode)).filter
      fun s => !s.nonLoaded).map sectionPlacement=tatuPlacements tatu.sections := by
    rw [List.filter_eq_self.mpr,List.map_map]
    · rfl
    · intro s hs
      obtain ⟨t,-,rfl⟩ := List.mem_map.mp hs
      rfl
  have hfallback : (fallbackSection payload dtbMode).filter (fun s => !s.nonLoaded)=[] := by
    cases dtbMode <;> rfl
  simp only [assembleSections,initrdSection_eq hi,List.filter_append,List.map_append,htatu,hfallback,
    ownPlacements,actionGpas,List.append_assoc,List.nil_append]
  obtain ⟨serial,virtio,ecam,window,linux,initrd,bootconfig,relocs⟩ := lay
  cases initrd <;> cases bootconfig <;> cases relocs <;> rfl

/-- The fill of the host's overlay is placed at its section. -/
theorem dtboFill_placement {tatu : TatuImage} (hlinked : Linked tatu) {o : TatuSection}
    (ho : o∈tatu.sections) (hname : o.name=sectionDtbo) :
    actionPlacement (dtboFill tatu)=(o.name,o.vaddr) := by
  have hfind : tatu.section sectionDtbo=some o := hname ▸ find?_key hlinked.names ho
  simp only [dtboFill,hfind,hname]
  rfl

/-- The fill of a base devicetree that is not attached is placed at its section. -/
theorem dtbFill_placement {tatu : TatuImage} (hlinked : Linked tatu) {dtbMode : DtbMode}
    (hmode : dtbMode≠.attached) {d : TatuSection} (hd : d∈tatu.sections) (hname : d.name=sectionDtb) :
    (dtbFill tatu dtbMode).map actionPlacement=[(d.name,d.vaddr)] := by
  have hfind : tatu.section sectionDtb=some d := hname ▸ find?_key hlinked.names hd
  simp only [dtbFill,if_pos hmode,hfind,hname]
  rfl

/-- The loads and fills of tatu's sections are together its sections. -/
theorem tatuPlacements_perm {tatu : TatuImage} (hlinked : Linked tatu) (dtbMode : DtbMode) :
    (tatuPlacements (tatu.sections.filter (isLoaded dtbMode))++
      (dtbFill tatu dtbMode).map actionPlacement++[actionPlacement (dtboFill tatu)]).Perm
      (tatuPlacements tatu.sections) := by
  obtain ⟨o,ho,honame,-⟩ := hlinked.dtbo
  obtain ⟨d,hd,hdname⟩ := hlinked.dtb
  have hdtbo := dtboFill_placement hlinked ho honame
  have hpermo : (tatuPlacements tatu.sections).Perm
      ((o.name,o.vaddr)::tatuPlacements (tatu.sections.filter fun s => decide (s.name≠o.name))) :=
    (perm_cons_filter hlinked.names ho).map fun s : TatuSection => (s.name,s.vaddr)
  rw [hdtbo]
  by_cases hmode : dtbMode=.attached
  · have hfilter : tatu.sections.filter (isLoaded dtbMode)=
        tatu.sections.filter fun s => decide (s.name≠o.name) := by
      refine List.filter_congr fun s _ => ?_
      simp [isLoaded,hmode,honame]
    rw [hfilter,dtbFill,if_neg (by simp [hmode]),List.map_nil,List.append_nil]
    exact (List.perm_append_singleton _ _).trans hpermo.symm
  · have hne : sectionDtb≠sectionDtbo := by decide
    have hmem : d∈tatu.sections.filter fun s => decide (s.name≠o.name) := by
      rw [List.mem_filter]
      exact ⟨hd,by rw [hdname,honame]; exact decide_eq_true hne⟩
    have hnames : ((tatu.sections.filter fun s => decide (s.name≠o.name)).map
        TatuSection.name).Nodup := hlinked.names.sublist (List.filter_sublist.map _)
    have hpermd := perm_cons_filter hnames hmem
    have hfilter : tatu.sections.filter (isLoaded dtbMode)=
        (tatu.sections.filter fun s => decide (s.name≠o.name)).filter
          fun s => decide (s.name≠d.name) := by
      rw [List.filter_filter]
      refine List.filter_congr fun s _ => ?_
      simp [isLoaded,hmode,honame,hdname,Bool.and_comm]
    have hdtb := dtbFill_placement hlinked hmode hd hdname
    rw [hfilter,hdtb]
    have hstep := (List.perm_append_singleton _ _).trans
      (hpermd.map fun s : TatuSection => (s.name,s.vaddr)).symm
    exact ((hstep.append_right _).trans (List.perm_append_singleton _ _)).trans hpermo.symm

/-- The names of arma's own loaded sections. -/
def ownNames : List String := [sectionLinux,sectionInitrd,sectionBootconfig,sectionRelocs]

/-- The names of the sections that are not loaded. -/
def nonLoadedNames : List String := [sectionDtbFallback,sectionPmiVm]

/-- arma's own sections are named from a fixed list. -/
theorem ownPlacements_names (gpas : ActionGpas) :
    ((ownPlacements gpas).map Prod.fst).Sublist ownNames := by
  have hopt : ∀ (o : Option ℕ) (name : String),
      ((o.map fun gpa => (name,gpa)).toList.map Prod.fst).Sublist [name] := by
    intro o name
    cases o with
    | none => exact List.nil_sublist _
    | some gpa => exact List.Sublist.refl _
  simp only [ownPlacements,List.map_append]
  exact (((List.Sublist.refl [sectionLinux]).append (hopt gpas.initrd sectionInitrd)).append
    (hopt gpas.bootconfig sectionBootconfig)).append (hopt gpas.relocs sectionRelocs)

/-- No section of tatu takes a name of arma's. -/
theorem tatu_name_not_own {tatu : TatuImage} (hlinked : Linked tatu) {name : String}
    (h : name∈tatu.sections.map TatuSection.name) : name∉ownNames++nonLoadedNames := by
  obtain ⟨s,hs,rfl⟩ := List.mem_map.mp h
  have hdotted := hlinked.dotted s hs
  intro hmem
  have hnone : ∀ n∈ownNames++nonLoadedNames, ¬".tatu.".toList<+:n.toList := by decide
  exact hnone _ hmem hdotted

/-- The names of tatu's sections among the placements. -/
theorem tatuPlacements_names (sections : List TatuSection) :
    (tatuPlacements sections).map Prod.fst=sections.map TatuSection.name := by
  rw [tatuPlacements,List.map_map]
  rfl

/-- The names of the loaded sections are distinct. -/
theorem placements_nodup {tatu : TatuImage} (hlinked : Linked tatu) (gpas : ActionGpas) :
    ((tatuPlacements tatu.sections++ownPlacements gpas).map Prod.fst).Nodup := by
  have hown := ownPlacements_names gpas
  rw [List.map_append,tatuPlacements_names,List.nodup_append]
  refine ⟨hlinked.names,hown.nodup (by decide),?_⟩
  rintro n hn _ hn' rfl
  exact tatu_name_not_own hlinked hn (List.mem_append_left _ (hown.subset hn'))

/-- The actions and the loaded sections have the same placements. -/
theorem placements_perm {tatu : TatuImage} {payload : Payload} {lay : Layout} {dtbMode : DtbMode}
    (hlinked : Linked tatu) (hi : lay.initrd.isSome=true → payload.initrdBytes.isSome=true) :
    ((buildActions tatu (actionGpas lay) dtbMode).map actionPlacement).Perm
      (((assembleSections tatu payload lay dtbMode).filter fun s => !s.nonLoaded).map
        sectionPlacement) := by
  rw [buildActions_placements,assembleSections_placements hi]
  refine List.Perm.trans ?_ ((tatuPlacements_perm hlinked dtbMode).append_right _)
  simp only [List.append_assoc]
  refine List.Perm.append_left _ ?_
  exact List.perm_append_comm.trans (by rw [List.append_assoc])

/-- A fill of tatu's sections targets a devicetree section without data. -/
theorem tatuData_fill {payload : Payload} {dtbMode : DtbMode} {s : TatuSection}
    (h : s.name=sectionDtb ∧ dtbMode≠.attached ∨ s.name=sectionDtbo ∧ s.isNobits=true) :
    tatuData payload dtbMode s=[] := by
  have hboot : s.isBootinfo=false := by
    rw [s.isBootinfo_eq]
    rcases h with h|h <;> rw [h.1] <;> decide
  unfold tatuData
  rw [hboot]
  rcases h with ⟨hname,hmode⟩|⟨hname,hnobits⟩
  · have hdtb : s.isDtb=true := by rw [s.isDtb_eq,hname]; decide
    simp [hdtb,hmode]
  · have hdtb : s.isDtb=false := by rw [s.isDtb_eq,hname]; decide
    simp [hdtb,hnobits]

/-- An emitted section of tatu is among the sections. -/
theorem tatuSection_mem {tatu : TatuImage} {payload : Payload} {lay : Layout} {dtbMode : DtbMode}
    {s : TatuSection} (hs : s∈tatu.sections) :
    tatuSection payload dtbMode s∈assembleSections tatu payload lay dtbMode := by
  have hmem := List.mem_map_of_mem (f := tatuSection payload dtbMode) hs
  simp only [assembleSections,List.mem_append]
  tauto

/-- A fill is one of the bootconfig and the two devicetrees. -/
theorem mem_fills {tatu : TatuImage} {gpas : ActionGpas} {dtbMode : DtbMode} {a : Action}
    (ha : a∈buildActions tatu gpas dtbMode) (hfill : a.isFill=true) :
    (∃ gpa, gpas.bootconfig=some gpa ∧ a=.fill gpa sectionBootconfig .lbcBootconfig) ∨
      (dtbMode≠.attached ∧ a∈dtbFill tatu dtbMode) ∨ a=dtboFill tatu := by
  have hload : ∀ gpa name, a≠.load gpa name := by
    rintro gpa name rfl
    cases hfill
  simp only [buildActions,List.mem_append,tatuLoads,List.mem_map,Option.mem_toList,
    Option.map_eq_some_iff,List.mem_singleton] at ha
  rcases ha with (((((⟨s,-,rfl⟩|rfl)|⟨gpa,-,rfl⟩)|⟨gpa,hgpa,rfl⟩)|⟨gpa,-,rfl⟩)|ha)|rfl
  · exact absurd rfl (hload _ _)
  · exact absurd rfl (hload _ _)
  · exact absurd rfl (hload _ _)
  · exact .inl ⟨gpa,hgpa,rfl⟩
  · exact absurd rfl (hload _ _)
  · refine .inr (.inl ⟨?_,ha⟩)
    intro hmode
    rw [dtbFill,if_neg (by simp [hmode])] at ha
    cases ha
  · exact .inr (.inr rfl)

/-- A fill targets a loaded section without data. -/
theorem fill_target {tatu : TatuImage} {payload : Payload} {lay : Layout} {dtbMode : DtbMode}
    (hlinked : Linked tatu) {a : Action} (ha : a∈buildActions tatu (actionGpas lay) dtbMode)
    (hfill : a.isFill=true) :
    ∃ s∈assembleSections tatu payload lay dtbMode, s.nonLoaded=false ∧
      sectionPlacement s=actionPlacement a ∧ s.data=[] := by
  rcases mem_fills ha hfill with ⟨gpa,hgpa,rfl⟩|⟨hmode,ha⟩|rfl
  · obtain ⟨r,hr,rfl⟩ := Option.map_eq_some_iff.mp hgpa
    refine ⟨⟨sectionBootconfig,r.start,r.stop-r.start,[],
      imageScnCntUninitializedData ||| imageScnMemRead,false⟩,?_,rfl,rfl,rfl⟩
    simp [assembleSections,bootconfigSection,hr]
  · obtain ⟨d,hd,hname⟩ := hlinked.dtb
    have hplace := List.mem_map_of_mem (f := actionPlacement) ha
    rw [dtbFill_placement hlinked hmode hd hname,List.mem_singleton] at hplace
    exact ⟨_,tatuSection_mem hd,rfl,hplace.symm,tatuData_fill (.inl ⟨hname,hmode⟩)⟩
  · obtain ⟨o,ho,hname,hnobits⟩ := hlinked.dtbo
    exact ⟨_,tatuSection_mem ho,rfl,(dtboFill_placement hlinked ho hname).symm,
      tatuData_fill (.inr ⟨hname,hnobits⟩)⟩

/-- A section that is not loaded has one of two names. -/
theorem nonLoaded_name {tatu : TatuImage} {payload : Payload} {lay : Layout} {dtbMode : DtbMode}
    {s : Section} (hs : s∈assembleSections tatu payload lay dtbMode) (h : s.nonLoaded=true) :
    s.name∈nonLoadedNames := by
  have hdata : ∀ name r data, s≠dataSection name r data := by
    rintro name r data rfl
    cases h
  simp only [assembleSections,List.mem_append,List.mem_map,List.mem_singleton] at hs
  rcases hs with (((((⟨t,-,rfl⟩|hs)|rfl)|hs)|hs)|hs)|rfl
  · cases h
  · unfold fallbackSection at hs
    split at hs
    · obtain rfl := List.mem_singleton.mp hs
      exact List.mem_cons_self
    · cases hs
  · exact absurd rfl (hdata _ _ _)
  · unfold initrdSection at hs
    split at hs
    · exact absurd (List.mem_singleton.mp hs) (hdata _ _ _)
    · cases hs
  · obtain ⟨r,-,rfl⟩ := Option.map_eq_some_iff.mp (Option.mem_toList.mp hs)
    cases h
  · obtain ⟨r,-,hr⟩ := Option.map_eq_some_iff.mp (Option.mem_toList.mp hs)
    exact absurd hr.symm (hdata _ _ _)
  · exact List.mem_cons_of_mem _ List.mem_cons_self

/-- For every planned layout the actions of the manifest place exactly the
loaded sections of the image, each once and at its own address. -/
theorem actions_agree {tatu : TatuImage} {p : Planner} {payload : Payload} {lay : Layout}
    (hlinked : Linked tatu) (hplan : p.plan=.ok lay)
    (hsize : p.initrdSize=payload.initrdBytes.map List.length) (dtbMode : DtbMode) :
    Agree (buildActions tatu (actionGpas lay) dtbMode)
      (assembleSections tatu payload lay dtbMode) := by
  have hi : lay.initrd.isSome=true → payload.initrdBytes.isSome=true := by
    intro h
    have hsome := plan_initrd hplan h
    rwa [hsize,Option.isSome_map] at hsome
  have hperm : ((buildActions tatu (actionGpas lay) dtbMode).map actionPlacement).Perm
      (((assembleSections tatu payload lay dtbMode).filter fun s => !s.nonLoaded).map
        sectionPlacement) := placements_perm hlinked hi
  have hnames : ((buildActions tatu (actionGpas lay) dtbMode).map Action.sectionName).Perm
      ((tatuPlacements tatu.sections++ownPlacements (actionGpas lay)).map Prod.fst) := by
    have hfst := hperm.map Prod.fst
    rw [assembleSections_placements hi,List.map_map] at hfst
    exact hfst
  refine ⟨hnames.nodup_iff.mpr (placements_nodup hlinked _),hperm,?_,?_⟩
  · exact fun a ha hfill => fill_target hlinked ha hfill
  · intro s hs hn a ha heq
    have hname := nonLoaded_name hs hn
    have hmem := hnames.subset (List.mem_map_of_mem ha)
    rw [List.map_append,tatuPlacements_names,List.mem_append,heq] at hmem
    rcases hmem with hmem|hmem
    · exact tatu_name_not_own hlinked hmem (List.mem_append_right _ hname)
    · have hdisjoint : ∀ n∈nonLoadedNames, n∉ownNames := by decide
      exact hdisjoint _ hname ((ownPlacements_names _).subset hmem)

/-- A zeroed or coded section of tatu. -/
def sampleSection (name : String) (vaddr : ℕ) (data : Bytes) : TatuSection :=
  ⟨name,vaddr,data,0x1000,data.isEmpty,decide (name=bootinfoSection),decide (name=dtbSection),
    fun h => List.isEmpty_iff.mp h,rfl,rfl⟩

/-- A small tatu. -/
def sampleTatu : TatuImage :=
  ⟨[sampleSection ".tatu.text" 0xf0000000 [0x90],sampleSection ".tatu.bootinfo" 0xf0001000 [],
    sampleSection ".tatu.dtb" 0xf0002000 [],sampleSection ".tatu.dtbo" 0xf0003000 []],0xf0000000⟩

/-- A planner input with every optional part. -/
def samplePlanner : Planner :=
  ⟨⟨true,1,1,30,40⟩,sampleTatu.reserved,⟨0x200000,0x200000,0x1000000⟩,some 3,true,some 8⟩

/-- The layout planned for it. -/
def sampleLayout : Layout :=
  ⟨some ⟨0x7fffe00000,0x7fffe01000⟩,[⟨0x7fffe01000,0x7fffe01200⟩],some ⟨0x7ffee00000,0x7fffe00000⟩,
    some ⟨0x8000000000,0x8040000000⟩,⟨0x1000000,0x1200000⟩,some ⟨0,0x200000⟩,
    some ⟨0x200000,0x400000⟩,some ⟨0x400000,0x400008⟩⟩

/-- Payload bytes to match. -/
def samplePayload : Payload := ⟨[1],[2],some [3,4,5],[6,7,8,9,10,11,12,13],[14],[15]⟩

/-- In optional mode the fallback rides along and the base devicetree is filled. -/
theorem actions_agree_sample :
    Agree (buildActions sampleTatu (actionGpas sampleLayout) .optional)
      (assembleSections sampleTatu samplePayload sampleLayout .optional) := by
  have hlinked : Linked sampleTatu := by
    refine ⟨by decide,by decide,⟨sampleSection ".tatu.dtb" 0xf0002000 [],?_,rfl⟩,
      ⟨sampleSection ".tatu.dtbo" 0xf0003000 [],?_,rfl,rfl⟩⟩
    · simp [sampleTatu]
    · simp [sampleTatu]
  have hplan : samplePlanner.plan=.ok sampleLayout := by decide
  exact actions_agree hlinked hplan rfl .optional

end Arma.Build
