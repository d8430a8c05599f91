import Arma.Build.Mapped
import Arma.Build.Regions
import Arma.Tatu.Handover

/-!
# Launching a finished x86 image

Whoever launches an image follows the actions of its manifest: sections are loaded at their
addresses, and the rest is filled in. tatu then finds in memory what arma has planned, whatever
the host fills in: a boot either reaches the planned kernel with the planned command line and
initrd, or halts for a reason that is not arma's.
-/

namespace Arma.Build.Launch

open Base.ByteString Base.Checked Base.Intervals Base.Keyed BaseDtb BootInfo Build Devtree
open Devtree.Merge Header Kernel.Coverage Kernel.Image Kernel.RelocTable Manifest Mapped
open Planner.Model Planner.Separation Regions Run Tatu.BootParams Tatu.CpuRoom Tatu.Handover Tatu.Kaslr
open Tatu.Lifecycle TatuImage
open Pe.Writer (Section imageScnCntUninitializedData)

/-- Memory in which the actions were done, with what is supplied for the fills. -/
structure Launched (actions : List Action) (sections : List Section) (supply : FillKind → Bytes)
    (m : Memory) : Prop where
  /-- A loaded section has its data. -/
  loads : ∀ gpa name, .load gpa name∈actions → ∀ s∈sections, s.name=name →
    region m gpa s.data.length=s.data
  /-- A filled one has what was supplied, which has room. -/
  fills : ∀ gpa name kind, .fill gpa name kind∈actions → ∀ s∈sections, s.name=name →
    (supply kind).length≤ s.virtualSize ∧ region m gpa (supply kind).length=supply kind

/-- Where an action stores what. -/
def actionData (sections : List Section) (supply : FillKind → Bytes) : Action → ℕ×Bytes
  | .load gpa name => (gpa,((sections.find? fun s => decide (s.name=name)).map Section.data).getD [])
  | .fill gpa _ kind => (gpa,supply kind)

/-- Do the actions one after another. -/
def launch (sections : List Section) (supply : FillKind → Bytes) : List Action → Memory → Memory
  | [],m => m
  | a::rest,m => launch sections supply rest
      (store m (actionData sections supply a).1 (actionData sections supply a).2)

/-- Two blocks of bytes have no address in common. -/
def BlocksSeparate (x y : ℕ×Bytes) : Prop := x.1+x.2.length≤y.1 ∨ y.1+y.2.length≤x.1

instance (x y : ℕ×Bytes) : Decidable (BlocksSeparate x y) := inferInstanceAs (Decidable (_ ∨ _))

/-- Actions elsewhere leave a region alone. -/
theorem region_launch {sections : List Section} {supply : FillKind → Bytes} {x : ℕ×Bytes}
    {actions : List Action} (h : ∀ a∈actions, BlocksSeparate x (actionData sections supply a))
    (m : Memory) : region (launch sections supply actions m) x.1 x.2.length=
      region m x.1 x.2.length := by
  induction actions generalizing m with
  | nil => rfl
  | cons a rest ih =>
    obtain ⟨ha,hrest⟩ := List.forall_mem_cons.mp h
    refine (ih hrest _).trans (region_congr fun b hb => store_of_notMem ?_)
    have hle : x.1≤b ∧ b<x.1+x.2.length := hb
    rcases ha with ha | ha
    · exact .inl (by omega)
    · exact .inr (by omega)

/-- An action whose bytes nothing else touches leaves them in memory. -/
theorem region_action {sections : List Section} {supply : FillKind → Bytes} {actions : List Action}
    (h : (actions.map (actionData sections supply)).Pairwise BlocksSeparate) {a : Action}
    (ha : a∈actions) (m : Memory) : region (launch sections supply actions m)
      (actionData sections supply a).1 (actionData sections supply a).2.length=
        (actionData sections supply a).2 := by
  induction actions generalizing m with
  | nil => exact absurd ha List.not_mem_nil
  | cons b rest ih =>
    obtain ⟨hb,hrest⟩ := List.pairwise_cons.mp h
    rcases List.mem_cons.mp ha with rfl | ha
    · exact (region_launch (fun c hc => hb _ (List.mem_map_of_mem hc)) _).trans
        (region_store m _ _)
    · exact ih hrest ha _

/-- Doing separate actions of sections with different names leaves memory as it should be. -/
theorem launched_launch {sections : List Section} {supply : FillKind → Bytes}
    {actions : List Action} (hnames : (sections.map Section.name).Nodup)
    (hseparate : (actions.map (actionData sections supply)).Pairwise BlocksSeparate)
    (hroom : ∀ gpa name kind, .fill gpa name kind∈actions → ∀ s∈sections, s.name=name →
      (supply kind).length≤ s.virtualSize) (m : Memory) :
    Launched actions sections supply (launch sections supply actions m) := by
  constructor
  · intro gpa name ha s hs hname
    have hregion := region_action hseparate ha m
    have hfind : (sections.find? fun s => decide (s.name=name))=some s :=
      hname ▸ find?_key hnames hs
    have hdata : actionData sections supply (.load gpa name)=(gpa,s.data) := by
      rw [actionData,hfind]
      rfl
    rw [hdata] at hregion
    exact hregion
  · intro gpa name kind ha s hs hname
    exact ⟨hroom gpa name kind ha s hs hname,region_action hseparate ha m⟩

/-- A finished build that was launched, with whatever was supplied for the fills. -/
structure Booting (libs : Libs) (tatu : TatuImage) (input : BuildInput) (b : Built)
    (ws : Workspace) (supply : FillKind → Bytes) (m : Memory) : Prop where
  /-- The build is finished. -/
  run : run libs tatu input=.ok b
  /-- tatu has the sections that arma requires. -/
  linked : Linked tatu
  /-- Its sections are separate. -/
  packed : Packed tatu b.kernel.parsed.arch
  /-- One of them is the buffer for the merged tree. -/
  dtbm : ∃ s∈tatu.sections, s.name=".tatu.dtbm" ∧ s.vaddr=ws.dtbm ∧ s.virtualSize=dtbmSize
  /-- One of them is the buffer for the tables. -/
  acpi : ∃ s∈tatu.sections, s.name=".tatu.acpi" ∧ s.vaddr=ws.acpi ∧ s.virtualSize=acpiWorkspaceSize
  /-- The actions were done. -/
  launched : Launched (buildActions tatu (actionGpas b.lay) input.dtbMode)
    (b.sections tatu input.dtbMode) supply m

/-- A finished build that was launched with its own devicetree. -/
structure Setting (libs : Libs) (tatu : TatuImage) (input : BuildInput) (b : Built)
    (ws : Workspace) (supply : FillKind → Bytes) (m : Memory) : Prop
    extends Booting libs tatu input b ws supply m where
  /-- A devicetree that is not attached is the one that arma has written. -/
  supplied : input.dtbMode≠.attached → supply .dtDtb=b.payload.dtbBytes

/-- The header has the numbers of the build. -/
structure Stated (b : Built) : Prop where
  /-- It is filled in. -/
  magic : b.bootInfo.magic=BootInfo.magic
  /-- The address of the base devicetree. -/
  baseDtbGpa : b.bootInfo.baseDtbGpa.toNat=b.dtb.vaddr
  /-- Its size. -/
  baseDtbSize : b.bootInfo.baseDtbSize.toNat=b.payload.dtbBytes.length
  /-- The address of the overlay's section. -/
  hostDtboGpa : b.bootInfo.hostDtboGpa.toNat=b.dtbo.vaddr
  /-- The size of the overlay's section. -/
  hostDtboSize : b.bootInfo.hostDtboSize.toNat=b.dtbo.virtualSize
  /-- The address of the kernel. -/
  kernelGpa : b.bootInfo.kernelGpa.toNat=b.lay.linux.start
  /-- Its size. -/
  kernelSize : b.bootInfo.kernelSize.toNat=b.kernel.image.length
  /-- The address of its entry point. -/
  entry : b.bootInfo.kernelEntryGpa.toNat=b.lay.linux.start+b.kernel.entryOffset
  /-- The address of the relocations. -/
  relocsGpa : b.bootInfo.relocsGpa.toNat=(b.lay.relocs.map (·.start)).getD 0
  /-- The counts of the relocations. -/
  relocs : b.bootInfo.relocsHeader=b.kernel.relocs.header b.bootInfo.relocsGpa
  /-- They are the lengths of the lists. -/
  sites : siteCount b.bootInfo=b.kernel.relocs.words.length

section Finished

variable {libs : Libs} {tatu : TatuImage} {input : BuildInput} {b : Built} {ws : Workspace}
  {supply : FillKind → Bytes} {m : Memory}

/-- Nothing of them is cut off. -/
theorem stated (h : Ran libs tatu input b) : Stated b := by
  obtain ⟨hdtb,hcapacity⟩ := h.dtb_fits
  obtain ⟨hdtbGpa,hdtbCapacity⟩ := h.tatu_fits (List.mem_of_find?_eq_some hdtb)
  obtain ⟨hdtboGpa,hdtboSize⟩ := h.tatu_fits (List.mem_of_find?_eq_some h.overlay)
  obtain ⟨hlinux,_,hfile⟩ := h.linux_fits
  obtain ⟨hrelocs,hsites⟩ := h.relocs_fits
  rw [h.kernelBytes] at hfile
  have h64 : ∀ n, n<2^64 → (UInt64.ofNat n).toNat=n := fun n hn => UInt64.toNat_ofNat_of_lt' hn
  have h32 : ∀ n, n<2^32 → (UInt32.ofNat n).toNat=n := fun n hn => UInt32.toNat_ofNat_of_lt' hn
  have hlists := hsites
  simp only [Relocs.words,List.length_append] at hlists
  have hpow : (2 : ℕ)^32<2^64 := by norm_num
  constructor <;> rw [h.header]
  · rfl
  · exact h64 _ (by omega)
  · exact h32 _ (by omega)
  · exact h64 _ (by omega)
  · exact h32 _ hdtboSize
  · exact h64 _ (by omega)
  · exact h32 _ hfile
  · exact h64 _ h.entry
  · exact h64 _ (by omega)
  · rfl
  · have hcount : siteCount (headerFor b.dtb b.dtbo b.payload.dtbBytes b.kernel b.lay
        (b.lay.linux.start+b.kernel.entryOffset))=
        (UInt32.ofNat b.kernel.relocs.relocs64.length).toNat+
          (UInt32.ofNat b.kernel.relocs.relocs32neg.length).toNat+
          (UInt32.ofNat b.kernel.relocs.relocs32.length).toNat := rfl
    rw [hcount,h32 _ (by omega),h32 _ (by omega),h32 _ (by omega),Relocs.words,
      List.length_append,List.length_append]

/-- A section of tatu that is loaded has its data. -/
theorem Launched.loaded {payload : Payload} {lay : Layout} {dtbMode : DtbMode}
    (h : Launched (buildActions tatu (actionGpas lay) dtbMode)
      (assembleSections tatu payload lay dtbMode) supply m) {s : TatuSection}
    (hs : s∈tatu.sections) (hloaded : isLoaded dtbMode s=true) :
    region m s.vaddr (tatuData payload dtbMode s).length=tatuData payload dtbMode s := by
  refine h.loads s.vaddr s.name ?_ (tatuSection payload dtbMode s) ?_ rfl
  · have hmem : Action.load s.vaddr s.name∈tatuLoads tatu dtbMode :=
      List.mem_map.mpr ⟨s,List.mem_filter.mpr ⟨hs,hloaded⟩,rfl⟩
    simp [buildActions,hmem]
  · have hmem : tatuSection payload dtbMode s∈tatu.sections.map (tatuSection payload dtbMode) :=
      List.mem_map_of_mem hs
    simp [assembleSections,hmem]

/-- The header is in memory. -/
theorem Booting.header (h : Booting libs tatu input b ws supply m) {s : TatuSection}
    (hs : s∈tatu.sections) (hboot : s.isBootinfo=true) :
    ofPage (region m s.vaddr sectionSize)=b.bootInfo := by
  have hran := run_ok h.run
  have hname : s.name=".tatu.bootinfo" := by
    rw [s.isBootinfo_eq] at hboot
    exact of_decide_eq_true hboot
  have hloaded : isLoaded input.dtbMode s=true := by
    rw [isLoaded,hname]
    rfl
  have hdata : tatuData b.payload input.dtbMode s=b.bootInfo.toSectionBytes := by
    rw [tatuData,if_pos hboot,hran.headerBytes]
  have hmagic : b.bootInfo.magic.length=8 := by
    rw [(stated hran).magic]
    rfl
  have hregion := h.launched.loaded hs hloaded
  rw [hdata,length_page hmagic] at hregion
  rw [hregion]
  exact ofPage_toSectionBytes hmagic

/-- So is the base devicetree, bundled or supplied. -/
theorem Booting.baseDtb (h : Booting libs tatu input b ws supply m) {bytes : Bytes}
    (hbundled : input.dtbMode=.attached → bytes=b.payload.dtbBytes)
    (hsupplied : input.dtbMode≠.attached → supply .dtDtb=bytes) :
    region m b.dtb.vaddr bytes.length=bytes := by
  have hran := run_ok h.run
  have hfind := hran.dtb_fits.1
  have hmem := List.mem_of_find?_eq_some hfind
  have hname : b.dtb.name=sectionDtb := by simpa using List.find?_some hfind
  by_cases hmode : input.dtbMode=.attached
  · have hboot : b.dtb.isBootinfo=false := by
      rw [b.dtb.isBootinfo_eq,hname]
      decide
    have hisDtb : b.dtb.isDtb=true := by
      rw [b.dtb.isDtb_eq,hname]
      decide
    have hdata : tatuData b.payload input.dtbMode b.dtb=b.payload.dtbBytes := by
      rw [tatuData,hboot,hisDtb,hmode]
      rfl
    have hloaded : isLoaded input.dtbMode b.dtb=true := by
      rw [isLoaded,hname,hmode]
      rfl
    have hregion := h.launched.loaded hmem hloaded
    rw [hdata,←hbundled hmode] at hregion
    exact hregion
  · have hfill : Action.fill b.dtb.vaddr sectionDtb .dtDtb∈
        buildActions tatu (actionGpas b.lay) input.dtbMode := by
      have hone : dtbFill tatu input.dtbMode=[.fill b.dtb.vaddr sectionDtb .dtDtb] := by
        rw [dtbFill,if_pos hmode,hfind]
        rfl
      simp [buildActions,hone]
    have hsection : tatuSection b.payload input.dtbMode b.dtb∈b.sections tatu input.dtbMode :=
      tatuSection_mem hmem
    have hregion := (h.launched.fills _ _ _ hfill _ hsection hname).2
    rw [hsupplied hmode] at hregion
    exact hregion

/-- So is the kernel. -/
theorem Booting.kernel (h : Booting libs tatu input b ws supply m) :
    region m b.lay.linux.start b.kernel.image.length=b.kernel.image := by
  have hload : Action.load b.lay.linux.start sectionLinux∈
      buildActions tatu (actionGpas b.lay) input.dtbMode := by
    simp [buildActions,actionGpas]
  have hregion := h.launched.loads _ _ hload _ (linuxSection_mem b input.dtbMode) rfl
  rw [←(run_ok h.run).kernelBytes]
  exact hregion

/-- So are the relocations, if there are any. -/
theorem Booting.relocs (h : Booting libs tatu input b ws supply m) :
    region m ((b.lay.relocs.map (·.start)).getD 0) b.kernel.relocs.toSectionBytes.length=
      b.kernel.relocs.toSectionBytes := by
  have hran := run_ok h.run
  cases hr : b.lay.relocs with
  | none =>
    have hrange := hran.relocs_range
    rw [hr] at hrange
    have hlen := length_toSectionBytes b.kernel.relocs
    have hnil : b.kernel.relocs.toSectionBytes=[] :=
      List.eq_nil_of_length_eq_zero (hlen.trans (by rw [hrange]))
    rw [hnil]
    rfl
  | some r =>
    have hload : Action.load r.start sectionRelocs∈
        buildActions tatu (actionGpas b.lay) input.dtbMode := by
      simp [buildActions,actionGpas,hr]
    have hregion := h.launched.loads _ _ hload _
      (relocsSection_mem (Option.mem_def.mpr hr) input.dtbMode) rfl
    rw [←hran.relocsBytes]
    exact hregion

/-- So is the archive. -/
theorem Booting.archive (h : Booting libs tatu input b ws supply m) {r : Range}
    (hr : b.lay.initrd=some r) {bytes : Bytes} (hbytes : input.initrd=some bytes) :
    region m r.start bytes.length=bytes := by
  have hload : Action.load r.start sectionInitrd∈
      buildActions tatu (actionGpas b.lay) input.dtbMode := by
    simp [buildActions,actionGpas,hr]
  have hsection : dataSection sectionInitrd r bytes∈b.sections tatu input.dtbMode := by
    have hone : initrdSection b.payload b.lay=[dataSection sectionInitrd r bytes] := by
      rw [initrdSection,(run_ok h.run).initrdBytes,hbytes,hr]
    simp [Built.sections,assembleSections,hone]
  exact h.launched.loads _ _ hload _ hsection rfl

/-- So is the bootconfig, in the page behind the archive. -/
theorem Booting.bootconfig (h : Booting libs tatu input b ws supply m) {r : Range}
    (hr : b.lay.bootconfig=some r) : (supply .lbcBootconfig).length≤r.stop-r.start ∧
      region m r.start (supply .lbcBootconfig).length=supply .lbcBootconfig := by
  have hfill : Action.fill r.start sectionBootconfig .lbcBootconfig∈
      buildActions tatu (actionGpas b.lay) input.dtbMode := by
    simp [buildActions,actionGpas,hr]
  have hsection : (⟨sectionBootconfig,r.start,r.stop-r.start,[],
      imageScnCntUninitializedData ||| imageScnMemRead,false⟩ : Section)∈
        b.sections tatu input.dtbMode := by
    have hone : bootconfigSection b.lay=[⟨sectionBootconfig,r.start,r.stop-r.start,[],
        imageScnCntUninitializedData ||| imageScnMemRead,false⟩] := by
      rw [bootconfigSection,hr]
      rfl
    simp [Built.sections,assembleSections,hone]
  exact h.launched.fills _ _ _ hfill _ hsection rfl

/-- A payload is apart from every section of tatu. -/
theorem payload_apart (h : Ran libs tatu input b) {p : Set ℕ} (hp : p∈payloads b.lay)
    {s : TatuSection} (hs : s∈tatu.sections) :
    Disjoint p (Set.Ico s.vaddr (s.vaddr+s.virtualSize)) := by
  refine ((plan_ok h.plan).fixed p hp _ ?_).disjoint
  refine List.mem_cons_of_mem _ (List.mem_map.mpr ⟨⟨s.vaddr,s.vaddr+s.virtualSize⟩,?_,rfl⟩)
  exact List.mem_append_left _ (List.mem_map.mpr ⟨s,hs,rfl⟩)

/-- A payload is apart from the buffers of tatu. -/
theorem Booting.buffers (h : Booting libs tatu input b ws supply m) {p : Set ℕ}
    (hp : p∈payloads b.lay) : Disjoint p (treeSet ws∪tablesSet ws) := by
  obtain ⟨s,hs,_,hdtbm,hsize⟩ := h.dtbm
  obtain ⟨t,ht,_,hacpi,hroom⟩ := h.acpi
  have htree := payload_apart (run_ok h.run) hp hs
  have htables := payload_apart (run_ok h.run) hp ht
  rw [hdtbm,hsize] at htree
  rw [hacpi,hroom] at htables
  exact Set.disjoint_union_right.mpr ⟨htree,htables⟩

/-- The bytes of the kernel are in its range. -/
theorem kernelSet_subset (h : Ran libs tatu input b) :
    kernelSet b.bootInfo⊆b.lay.linux.toSet := by
  have hstated := stated h
  have hfile : b.kernel.image.length≤b.kernel.allocSize := by
    unfold LoadedKernel.allocSize computeKernelAllocSize
    split
    · exact le_max_right _ _
    · exact le_max_right _ _
  have hset : kernelSet b.bootInfo=
      Set.Ico b.lay.linux.start (b.lay.linux.start+b.kernel.image.length) := by
    rw [kernelSet,hstated.kernelGpa,hstated.kernelSize]
  rw [hset]
  refine Set.Ico_subset_Ico_right ?_
  rw [h.linux_stop]
  omega

/-- The relocations are in their range. -/
theorem relocsSet_subset (h : Ran libs tatu input b) :
    relocsSet b.bootInfo⊆optSet b.lay.relocs := by
  have hstated := stated h
  have hrange := h.relocs_range
  rw [relocsSet,hstated.relocsGpa,hstated.sites]
  cases hr : b.lay.relocs with
  | none =>
    rw [hr] at hrange
    have hzero : b.kernel.relocs.words.length=0 := hrange
    rw [hzero]
    exact fun a ha => absurd (ha.1.trans_lt ha.2) (lt_irrefl _)
  | some r =>
    rw [hr] at hrange
    have hsize : r.stop-r.start=b.kernel.relocs.words.length*4 := hrange
    rw [optSet_some]
    intro a ha
    have hle : r.start≤a ∧ a<r.start+b.kernel.relocs.words.length*4 := ha
    exact ⟨hle.1,by omega⟩

/-- tatu's buffers are apart from everything that it needs. -/
theorem Booting.apart (h : Booting libs tatu input b ws supply m) : Apart ws b.bootInfo := by
  have hran := run_ok h.run
  constructor
  · obtain ⟨s,hs,hsname,hdtbm,hsize⟩ := h.dtbm
    obtain ⟨t,ht,htname,hacpi,hroom⟩ := h.acpi
    have hpairs := List.pairwise_map.mp (List.pairwise_append.mp h.packed.separate).1
    have hne : s≠t := by
      rintro rfl
      rw [hsname] at htname
      exact absurd htname (by decide)
    have hsymm : Std.Symm fun s t : TatuSection =>
        Region.Separate (⟨s.vaddr,s.vaddr+s.virtualSize⟩ : Range) ⟨t.vaddr,t.vaddr+t.virtualSize⟩ :=
      ⟨fun _ _ => separate_comm.mp⟩
    have hseparate := hpairs.forall hs ht hne
    have hdisjoint : Disjoint (Set.Ico s.vaddr (s.vaddr+s.virtualSize))
        (Set.Ico t.vaddr (t.vaddr+t.virtualSize)) := hseparate
    rw [hdtbm,hsize,hacpi,hroom] at hdisjoint
    exact hdisjoint
  · exact (h.buffers (by simp [payloads])).mono_left (kernelSet_subset hran)
  · exact (h.buffers (by simp [payloads])).mono_left (relocsSet_subset hran)

/-- The extent of the initrd is in words. -/
theorem extent_word (h : Ran libs tatu input b) {e : ℕ×ℕ} (he : e∈initrdExtent b.lay) :
    e.1+e.2<2^64 := by
  obtain ⟨r,hr,rfl⟩ := Option.map_eq_some_iff.mp he
  have hplaced := Handoff.plan_placed h.plan (Option.mem_def.mpr hr)
  obtain ⟨sz,_,hstop⟩ := hplaced.archive
  have hlt : (b.lay.bootconfig.map (·.stop)).getD r.stop<2^64 := hplaced.stop
  have hle : r.stop≤(b.lay.bootconfig.map (·.stop)).getD r.stop := by
    rw [hplaced.page]
    cases (plannerFor input tatu b.kernel).bootconfig with
    | false => exact le_rfl
    | true => exact Nat.le_add_right _ _
  dsimp only
  omega

/-- The archive has room in its range. -/
theorem archive_room (h : Ran libs tatu input b) {r : Range} (hr : b.lay.initrd=some r)
    {bytes : Bytes} (hbytes : input.initrd=some bytes) : bytes.length≤r.stop-r.start := by
  obtain ⟨sz,hsz,hstop⟩ := (Handoff.plan_placed h.plan (Option.mem_def.mpr hr)).archive
  have hsize : (plannerFor input tatu b.kernel).initrdSize=some bytes.length :=
    congrArg (Option.map List.length) hbytes
  cases Option.some.inj ((Option.mem_def.mp hsz).symm.trans hsize)
  have hpadded : bytes.length≤Handoff.padded bytes.length := (Handoff.isLeast_padded _).1.2
  omega

/-- The kernel and its relocations are handed to tatu, when its fields can be patched. -/
theorem Booting.handedOver (h : Booting libs tatu input b ws supply m)
    (hseparate : b.kernel.relocs.fields.Pairwise Region.Separate)
    (hinside : ∀ f∈b.kernel.relocs.fields, f.stop≤b.kernel.image.length) :
    HandedOver b.kernel.relocs m b.bootInfo := by
  have hstated := stated (run_ok h.run)
  refine ⟨?_,hstated.relocs,hseparate,?_⟩
  · rw [hstated.relocsGpa]
    exact h.relocs
  · rw [hstated.kernelSize]
    exact hinside

end Finished

/-- Randomizing a kernel that was handed over moves it. -/
theorem randomize_relocated {cpu : Cpu} {m : Memory} {r : Relocs}
    {info : TatuBootInfo} {left : Memory} (h : randomize cpu info m=.ok left) (hover : HandedOver r m info) :
    ∃ rand, Relocated r (kaslrDelta info rand) (kernelBytes m info) (kernelBytes left info) := by
  unfold randomize at h
  split at h
  · rename_i hnothing
    cases h
    have hwords := hover.relocsWords
    rw [hwords,hover.splitTables] at hnothing
    have hempty : r.words=[] := by simpa using hnothing
    have hsame : applyKaslr m info 0=m := by
      unfold applyKaslr
      dsimp only
      rw [hwords,hempty]
      rfl
    have hmoved := (applyKaslr_eq 0 hover).1
    rw [hsame] at hmoved
    exact ⟨0,hmoved⟩
  · obtain ⟨rand,_,h⟩ := bind_ok.mp h
    cases h
    exact ⟨rand.toNat,(applyKaslr_eq rand.toNat hover).1⟩

/-- The halts that blame what is measured. -/
def measuredHalts : List Halt := [.badMagic,.seedOverlay,.baseParse,.oversized,.reparse,.bootargs]

/-- An error of a step is given in other words. -/
theorem fails_context {ε ε' α : Type} {P : ε' → Prop} {f : ε → ε'} {x : Outcome ε α}
    (h : Fails P (context f x)) : ∃ e, P (f e) := by
  obtain ⟨e',he',h⟩ := h
  match x with
  | .ok a => cases h
  | .error (.err e) =>
    cases h
    exact ⟨e,he'⟩
  | .error .panic => cases h

/-- A step whose error blames something else does not blame what is measured. -/
theorem not_fails_context {ε α : Type} {e : Halt} {x : Outcome ε α} (he : e∉measuredHalts) :
    ¬Fails (fun e => e∈measuredHalts) (context (fun _ => e) x) :=
  fun h => he (fails_context h).choose_spec

/-- Nor does an absent value whose error blames something else. -/
theorem not_fails_okOr {α : Type} {e : Halt} {o : Option α} (he : e∉measuredHalts) :
    ¬Fails (fun e => e∈measuredHalts) (okOr o e) :=
  fun h => he (fails_okOr.mp h).2

section Boots

variable [BootLib] {libs : Libs} {tatu : TatuImage} {input : BuildInput} {b : Built} {ws : Workspace}
  {supply : FillKind → Bytes} {m : Memory} {cpu : Cpu}

/-- tatu's parser reads what arma's writer writes. -/
def FdtLaw (libs : Libs) : Prop := ∀ tree bytes, libs.fdtWrite tree=some bytes →
  BootLib.parseTree bytes=some tree

/-- The devicetree of a build is parsed as its tree. -/
theorem parsed_built (hfdt : FdtLaw libs) (h : Ran libs tatu input b) :
    BootLib.parseTree b.payload.dtbBytes=some (BaseDtb.tree (dtbInputs input b.kernel b.lay)) := by
  obtain ⟨dtbBytes,hwritten,hbuild⟩ := bind_ok.mp h.baseDtb
  obtain ⟨dtb,_,hbuild⟩ := bind_ok.mp hbuild
  split at hbuild
  · exact absurd hbuild fail_ne_ok
  · cases hbuild
    exact hfdt _ _ (okOr_ok.mp hwritten)

/-- tatu parses the tree that arma has built. -/
theorem Setting.parsed (hfdt : FdtLaw libs) (h : Setting libs tatu input b ws supply m) :
    BootLib.parseTree (baseDtbBytes m b.bootInfo)=
      some (BaseDtb.tree (dtbInputs input b.kernel b.lay)) := by
  have hran := run_ok h.run
  have hstated := stated hran
  rw [baseDtbBytes,hstated.baseDtbGpa,hstated.baseDtbSize,h.baseDtb (fun _ => rfl) h.supplied]
  exact parsed_built hfdt hran

/-- Its command line is the one of the build. -/
theorem bootargs_tree (hchosen : ChosenLaw) (inputs : Inputs) :
    bootargs (BaseDtb.tree inputs)=some (stringBytes inputs.cmdline) := by
  rw [bootargs,hchosen _ _ (tree_chosen inputs)]
  rfl

/-- What reaches the kernel of what was built. -/
structure Delivered (input : BuildInput) (b : Built) (supply : FillKind → Bytes) (out : Handoff) :
    Prop where
  /-- It is entered at the planned address. -/
  entry : out.entry=b.lay.linux.start+b.kernel.entryOffset
  /-- The command line is in memory, with its zero byte. -/
  cmdLine : region out.memory out.params.setupHeader.cmdLinePtr.toNat
    (stringBytes input.cmdline).length=stringBytes input.cmdline
  /-- The boot parameters have the extent of the initrd. -/
  ramdisk : (⟨out.params.setupHeader.ramdiskImage.toNat,
    out.params.setupHeader.ramdiskSize.toNat⟩ : Initrd)=
      ((initrdExtent b.lay).map fun e => (⟨e.1,e.2⟩ : Initrd)).getD .none
  /-- The archive is there. -/
  archive : ∀ r, b.lay.initrd=some r → ∀ bytes, input.initrd=some bytes →
    region out.memory r.start bytes.length=bytes
  /-- So is the bootconfig. -/
  bootconfig : ∀ r, b.lay.bootconfig=some r →
    region out.memory r.start (supply .lbcBootconfig).length=supply .lbcBootconfig
  /-- A kernel whose fields can be patched is moved as a whole. -/
  kernel : b.kernel.relocs.fields.Pairwise Region.Separate →
    (∀ f∈b.kernel.relocs.fields, f.stop≤b.kernel.image.length) →
    ∃ rand, Relocated b.kernel.relocs (kaslrDelta b.bootInfo rand) b.kernel.image
      (region out.memory b.lay.linux.start b.kernel.image.length)

/-- What is delivered with a measured tree that has a command line and the planned initrd. -/
theorem Booting.delivered (law : PathLaw) (blobs : BlobLaw)
    (h : Booting libs tatu input b ws supply m) {base : Node} {line : String}
    (hbase : BootLib.parseTree (baseDtbBytes m b.bootInfo)=some base)
    (hargs : bootargs base=some (stringBytes line))
    (hextent : Initrd.fromDtb base=
      ((initrdExtent b.lay).map fun e => (⟨e.1,e.2⟩ : Initrd)).getD .none) {out : Handoff}
    (hout : rustMain cpu ws b.bootInfo m=.ok out) :
    Delivered {input with cmdline := line} b supply out := by
  have hran := run_ok h.run
  have hstated := stated hran
  obtain ⟨measured,_,merged,blob,_,value,hmerges,hmem,hvalue,hparams,hentry⟩ :=
    rustMain_ok blobs hout
  obtain ⟨hptr,hinitrd,_,_⟩ := fillElf_ok hparams
  obtain ⟨prepared,hprepared,hparse⟩ := hmerges.measured
  cases hprepared
  obtain rfl : measured=base := Option.some.inj (hparse.symm.trans hbase)
  have hline := (hmerges.bootargs law).symm.trans hvalue
  rw [hargs,Option.some.injEq] at hline
  have hkept : ∀ p∈payloads b.lay, p⊆(treeSet ws∪tablesSet ws)ᶜ :=
    fun p hp => (h.buffers hp).subset_compl_right
  have hrest : ∀ p∈payloads b.lay, Disjoint p b.lay.linux.toSet → Set.EqOn out.memory m p := by
    intro p hp hapart
    refine hmem.rest.mono fun a ha => ?_
    rw [Set.compl_union]
    exact ⟨fun hk => Set.disjoint_left.mp hapart ha (kernelSet_subset hran hk),hkept p hp ha⟩
  have harea : Set.EqOn out.memory m (initrdArea b.lay) := by
    refine hrest _ (by simp [payloads]) ?_
    have hpairs := (List.pairwise_cons.mp (plan_ok hran.plan).payloads).2
    exact ((List.pairwise_cons.mp hpairs).1 _ (List.mem_singleton_self _)).disjoint
  have hin : ∀ {r : Range} {n : ℕ}, r.toSet⊆initrdArea b.lay → n≤r.stop-r.start →
      region out.memory r.start n=region m r.start n := by
    intro r n hsub hroom
    refine region_congr (harea.mono fun a ha => hsub ?_)
    have hle : r.start≤a ∧ a<r.start+n := ha
    exact ⟨hle.1,by omega⟩
  constructor
  · exact hentry.trans hstated.entry
  · rw [hptr]
    have hregion := cmdLine_region blobs hmerges.written hvalue (hmem.tree h.apart)
    rw [←hline] at hregion
    exact hregion
  · rw [←hinitrd,hmerges.initrd law,hextent]
  · intro r hr bytes hbytes
    have hsub : r.toSet⊆initrdArea b.lay := fun a ha => .inl ⟨r,hr,ha⟩
    rw [hin hsub (archive_room hran hr hbytes)]
    exact h.archive hr hbytes
  · intro r hr
    obtain ⟨hroom,hregion⟩ := h.bootconfig hr
    have hsub : r.toSet⊆initrdArea b.lay := fun a ha => .inr ⟨r,hr,ha⟩
    rw [hin hsub hroom]
    exact hregion
  · intro hseparate hinside
    obtain ⟨left,hleft,hagree⟩ := hmem.kernel h.apart
    obtain ⟨rand,hmoved⟩ := randomize_relocated hleft (h.handedOver hseparate hinside)
    have hkernel : kernelBytes m b.bootInfo=b.kernel.image := by
      rw [kernelBytes,hstated.kernelGpa,hstated.kernelSize]
      exact h.kernel
    have hfinal : kernelBytes left b.bootInfo=
        region out.memory b.lay.linux.start b.kernel.image.length := by
      have hsame : kernelBytes out.memory b.bootInfo=kernelBytes left b.bootInfo :=
        region_congr hagree
      rw [←hsame,kernelBytes,hstated.kernelGpa,hstated.kernelSize]
    rw [hkernel,hfinal] at hmoved
    exact ⟨rand,hmoved⟩

/-- With such a tree a boot halts for other reasons only. -/
theorem Booting.halts (law : PathLaw) (blobs : BlobLaw) (h : Booting libs tatu input b ws supply m)
    {base : Node} {line : Bytes} (hbase : BootLib.parseTree (baseDtbBytes m b.bootInfo)=some base)
    (hargs : bootargs base=some line) (hroom : b.dtbo.virtualSize≤hostDtboMax) :
    ¬Fails (fun e => e∈measuredHalts) (rustMain cpu ws b.bootInfo m) := by
  have hstated := stated (run_ok h.run)
  have hmerge : ¬Fails (fun e => e∈measuredHalts) (mergeStage .x86_64 cpu b.bootInfo m) := by
    have hprepare : prepareMergeBase .x86_64 cpu (baseDtbBytes m b.bootInfo)=
        some (baseDtbBytes m b.bootInfo) := rfl
    unfold mergeStage
    rw [if_neg (not_not.mpr hstated.magic),ok_bind (okOr_ok.mpr hprepare),ok_bind (okOr_ok.mpr hbase),
      if_neg (by rw [hstated.hostDtboSize]; omega)]
    refine not_fails_bind (not_fails_okOr (by decide)) fun overlay => ?_
    refine not_fails_bind (not_fails_context (by decide)) fun _ => ?_
    intro hfails
    rcases fails_bind.mp hfails with hmerged | ⟨blob,hblob,hrest⟩
    · exact not_fails_okOr (by decide) hmerged
    · obtain ⟨merged,_,hwritten,_⟩ := mergeTree_some.mp (okOr_ok.mp hblob)
      rw [ok_bind (okOr_ok.mpr (blobs.written merged blob hwritten))] at hrest
      exact not_fails_bind (not_fails_context (by decide)) (fun _ => not_fails_ok) hrest
  unfold rustMain
  intro hfails
  rcases fails_bind.mp hfails with hbad | ⟨⟨merged,blob⟩,hok,hrest⟩
  · exact hmerge hbad
  · obtain ⟨measured,overlay,hmerges⟩ := (mergeStage_ok blobs).mp hok
    obtain ⟨prepared,hprepared,hparse⟩ := hmerges.measured
    cases hprepared
    have htree := Option.some.inj (hparse.symm.trans hbase)
    have hline : bootargs merged=some line := by
      rw [hmerges.bootargs law,htree]
      exact hargs
    have hptr : cmdLinePtr merged blob ws.dtbm=some (ws.dtbm+BootLib.bootargsOffset blob) := by
      rw [cmdLinePtr,hline,Option.map_some]
    refine not_fails_bind (not_fails_bind (not_fails_context (by decide)) fun _ => not_fails_ok)
      (fun tabled => ?_) hrest
    rw [ok_bind (okOr_ok.mpr hptr)]
    refine not_fails_bind (not_fails_context (by decide)) fun params => ?_
    refine not_fails_bind ?_ fun _ => not_fails_ok
    unfold randomize
    split
    · exact not_fails_ok
    · exact not_fails_bind (not_fails_okOr (by decide)) fun _ => not_fails_ok

/-- A boot of a launched image never halts for a reason that is arma's, whatever the host fills
in, if tatu has no more room for the overlay than it accepts. -/
theorem launch_halts (law : PathLaw) (hchosen : ChosenLaw) (blobs : BlobLaw)
    (hfdt : FdtLaw libs) (h : Setting libs tatu input b ws supply m) {s : TatuSection}
    (hs : s∈tatu.sections) (hboot : s.isBootinfo=true) (hroom : b.dtbo.virtualSize≤hostDtboMax) :
    ¬Fails (fun e => e∈measuredHalts)
      (rustMain cpu ws (ofPage (region m s.vaddr sectionSize)) m) := by
  rw [h.header hs hboot]
  exact h.halts law blobs (h.parsed hfdt) (bootargs_tree hchosen _) hroom

end Boots

/-- A zeroed section. -/
def zeroedSection (name : String) (vaddr size : ℕ)
    (h : name≠bootinfoSection ∧ name≠dtbSection) : TatuSection :=
  ⟨name,vaddr,[],size,true,false,false,fun _ => rfl,(decide_eq_false h.1).symm,
    (decide_eq_false h.2).symm⟩

/-- tatu with its buffers. -/
def launchTatu : TatuImage :=
  ⟨[sampleSection ".tatu.bootinfo" 0x1000 [],sampleSection ".tatu.dtb" 0x2000 [],
    sampleSection ".tatu.dtbo" 0x3000 [],zeroedSection ".tatu.dtbm" 0x8000 dtbmSize (by decide),
    sampleSection ".tatu.pgt" 0x98000 [],sampleSection ".tatu.gdt" 0x9e000 [],
    zeroedSection ".tatu.acpi" 0xa0000 acpiWorkspaceSize (by decide),
    sampleSection ".tatu.reset" 0xfffff000 []],0xfffffff0⟩

/-- A writer of devicetrees that are parsed, with one ELF to parse and an empty manifest. -/
def launchLibs : Libs where
  elfParse _ := some sampleElf
  fdtWrite := boardLib.writeTree
  cborEncode _ := some [0xa0]

/-- A build of that ELF with a bundled devicetree. -/
def launchInput : BuildInput :=
  ⟨sampleFile 0,none,"quiet",false,false,0,0,none,none,"x86-64-v3",.attached⟩

/-- The host fills in an overlay with one cpu. -/
def launchSupply (kind : FillKind) : Bytes := if kind=.dtDtbo then overlayBlob 1 else []

/-- What is done to launch a build of tatu with its buffers. -/
def launchActions (input : BuildInput) (b : Built) : List Action :=
  buildActions launchTatu (actionGpas b.lay) input.dtbMode

/-- Memory after the launch. -/
def launchMemory (input : BuildInput) (supply : FillKind → Bytes) (b : Built) : Memory :=
  launch (b.sections launchTatu input.dtbMode) supply (launchActions input b) fun _ => 0

/-- `true` iff what is supplied for a fill has room in a section of its name. -/
def hasRoom (supply : FillKind → Bytes) (s : Section) : Action → Bool
  | .load _ _ => true
  | .fill _ name kind => decide (s.name≠name ∨ (supply kind).length≤ s.virtualSize)

/-- What is computed of a build that is launched with an overlay of one cpu. -/
structure Computed (input : BuildInput) (supply : FillKind → Bytes) (expected : Inputs)
    (b : Built) : Prop where
  /-- It is a build for x86. -/
  arch : b.kernel.parsed.arch=.x86_64
  /-- What its devicetree is made of. -/
  inputs : dtbInputs input b.kernel b.lay=expected
  /-- Its sections have different names. -/
  names : ((b.sections launchTatu input.dtbMode).map Section.name).Nodup
  /-- Its actions are separate. -/
  separate : ((launchActions input b).map
    (actionData (b.sections launchTatu input.dtbMode) supply)).Pairwise BlocksSeparate
  /-- There is room for what is supplied. -/
  room : ∀ a∈launchActions input b, ∀ s∈b.sections launchTatu input.dtbMode, hasRoom supply s a=true
  /-- One of the fills is the one of the overlay. -/
  fill : Action.fill 0x3000 sectionDtbo .dtDtbo∈launchActions input b
  /-- The section of the overlay is a page. -/
  dtbo : b.dtbo.vaddr=0x3000 ∧ b.dtbo.virtualSize=0x1000

instance (input : BuildInput) (supply : FillKind → Bytes) (expected : Inputs) (b : Built) :
    Decidable (Computed input supply expected b) :=
  decidable_of_iff (b.kernel.parsed.arch=.x86_64 ∧ dtbInputs input b.kernel b.lay=expected ∧
    ((b.sections launchTatu input.dtbMode).map Section.name).Nodup ∧
    ((launchActions input b).map
      (actionData (b.sections launchTatu input.dtbMode) supply)).Pairwise BlocksSeparate ∧
    (∀ a∈launchActions input b, ∀ s∈b.sections launchTatu input.dtbMode,
      hasRoom supply s a=true) ∧
    Action.fill 0x3000 sectionDtbo .dtDtbo∈launchActions input b ∧
    b.dtbo.vaddr=0x3000 ∧ b.dtbo.virtualSize=0x1000)
    ⟨fun ⟨h₁,h₂,h₃,h₄,h₅,h₆,h₇⟩ => ⟨h₁,h₂,h₃,h₄,h₅,h₆,h₇⟩,
      fun ⟨h₁,h₂,h₃,h₄,h₅,h₆,h₇⟩ => ⟨h₁,h₂,h₃,h₄,h₅,h₆,h₇⟩⟩

/-- The build succeeds. -/
theorem run_launchInput : ∃ b, run launchLibs launchTatu launchInput=.ok b ∧
    Computed launchInput launchSupply plainInputs b := by
  obtain ⟨b,pe,hb,hcomputed⟩ := @exists_run launchLibs launchTatu launchInput
    (fun b => decide (Computed launchInput launchSupply plainInputs b)) (by decide +kernel)
  obtain ⟨harch,hinputs,hnames,hseparate,hroom,hfill,hdtbo⟩ := of_decide_eq_true hcomputed
  exact ⟨_,hb,harch,hinputs,hnames,hseparate,hroom,hfill,hdtbo⟩

/-- tatu has the sections that arma requires. -/
theorem linked_launchTatu : Linked launchTatu := by
  refine ⟨by decide,by decide,⟨sampleSection ".tatu.dtb" 0x2000 [],?_,rfl⟩,
    ⟨sampleSection ".tatu.dtbo" 0x3000 [],?_,rfl,rfl⟩⟩
  · simp [launchTatu]
  · simp [launchTatu]

/-- They are separate. -/
theorem packed_launchTatu : Packed launchTatu .x86_64 := by
  refine ⟨by decide,by decide,by decide,?_⟩
  have hno : (launchTatu.reserved++archReserved .x86_64).Pairwise
      fun r s => Region.overlaps r s=false := by decide
  exact hno.imp separate_of_overlaps_false

section Computed

variable {libs : Libs} {input : BuildInput} {supply : FillKind → Bytes} {expected : Inputs}
  {b : Built}

/-- Such a build is launched. -/
theorem Computed.booting (hrun : run libs launchTatu input=.ok b)
    (h : Computed input supply expected b) :
    Booting libs launchTatu input b boardWs supply (launchMemory input supply b) := by
  refine ⟨hrun,linked_launchTatu,h.arch ▸ packed_launchTatu,?_,?_,?_⟩
  · exact ⟨zeroedSection ".tatu.dtbm" 0x8000 dtbmSize (by decide),by simp [launchTatu],rfl,rfl,rfl⟩
  · exact ⟨zeroedSection ".tatu.acpi" 0xa0000 acpiWorkspaceSize (by decide),by simp [launchTatu],
      rfl,rfl,rfl⟩
  · refine launched_launch h.names h.separate ?_ _
    intro gpa name kind ha s hs hname
    have hroom := of_decide_eq_true (h.room _ ha s hs)
    exact hroom.resolve_left (not_not.mpr hname)

/-- The host's overlay is in memory. -/
theorem Computed.overlay (hrun : run libs launchTatu input=.ok b)
    (h : Computed input supply expected b) (hsupply : supply .dtDtbo=overlayBlob 1) :
    (hostDtboBytes (launchMemory input supply b) b.bootInfo).take 1024=overlayBlob 1 := by
  have hstated := stated (run_ok hrun)
  have hregion := region_action h.separate h.fill fun _ => 0
  change region (launchMemory input supply b) 0x3000 (supply .dtDtbo).length=supply .dtDtbo
    at hregion
  rw [hsupply,bootable_one.length] at hregion
  rw [hostDtboBytes,hstated.hostDtboGpa,hstated.hostDtboSize,h.dtbo.1,h.dtbo.2,←hregion]
  exact slice_region (launchMemory input supply b) 0x3000 0x1000 0 1024 (by decide)

/-- A library that finds nodes by their exact names. -/
@[reducible] def exactLib (parseTree : Bytes → Option Node)
    (parseOverlay : Bytes → Option (List Fragment)) (writeTree : Node → Option Bytes)
    (bootargsOffset : Bytes → ℕ) : BootLib where
  toOverlayLib := plainOverlayLib
  parseTree := parseTree
  parseOverlay := parseOverlay
  writeTree := writeTree
  bootargsOffset := bootargsOffset

/-- The launched build boots, if the plain tree is measured. -/
theorem Computed.reaches {parseTree : Bytes → Option Node}
    {parseOverlay : Bytes → Option (List Fragment)} {writeTree : Node → Option Bytes}
    {offset : Bytes → ℕ} (blobs : @BlobLaw (exactLib parseTree parseOverlay writeTree offset))
    (hrun : run libs launchTatu input=.ok b) (h : Computed input supply expected b)
    (hbase : parseTree (baseDtbBytes (launchMemory input supply b) b.bootInfo)=
      some (BaseDtb.tree plainInputs))
    (hoverlay : parseOverlay (hostDtboBytes (launchMemory input supply b) b.bootInfo)=
      some (cpusOverlay 1))
    (hwritten : writeTree (cpusBoard 1)=some (flatten (cpusBoard 1)))
    (hoffset : offset (flatten (cpusBoard 1))=boardLib.bootargsOffset (flatten (cpusBoard 1))) :
    ∃ out, @rustMain (exactLib parseTree parseOverlay writeTree offset) boardCpu boardWs b.bootInfo
      (launchMemory input supply b)=.ok out := by
  let _ := exactLib parseTree parseOverlay writeTree offset
  have hstated := stated (run_ok hrun)
  obtain ⟨⟨size,buf⟩,htables⟩ := exists_ok bootable_one.tables
  obtain ⟨value,hvalue⟩ := Option.isSome_iff_exists.mp bootable_one.line
  obtain ⟨params,hparams⟩ := exists_ok bootable_one.params
  obtain ⟨_,_,_,hroom,_⟩ := populate_leaves htables
  rw [length_zeros] at hroom
  have hsmall : size≤acpiWorkspaceSize := hroom.trans (by decide)
  have hdrawn : drawn boardCpu=some 5 := by decide
  have hmerges : Merges .x86_64 boardCpu b.bootInfo (launchMemory input supply b)
      (BaseDtb.tree plainInputs) (cpusOverlay 1) (cpusBoard 1) (flatten (cpusBoard 1)) := by
    constructor
    · exact hstated.magic
    · exact ⟨_,rfl,hbase⟩
    · rw [hstated.hostDtboSize,h.dtbo.2]
      decide
    · exact hoverlay
    · exact cpusOverlay_accepted 1
    · exact apply_cpusOverlay 1
    · exact hwritten
    · exact bootable_one.room
    · exact bootable_one.valid
  rw [←hoffset] at hparams
  exact rustMain_reaches blobs hmerges htables hsmall hvalue hparams hdrawn

end Computed

section Launched

variable {b : Built}

/-- The build is launched with its own devicetree. -/
theorem launchInput_setting (hrun : run launchLibs launchTatu launchInput=.ok b)
    (h : Computed launchInput launchSupply plainInputs b) :
    Setting launchLibs launchTatu launchInput b boardWs launchSupply
      (launchMemory launchInput launchSupply b) :=
  ⟨h.booting hrun,fun hmode => absurd rfl hmode⟩

end Launched

/-- The launched build does not halt for a reason that is arma's. -/
theorem launch_halts_sample : ∃ b, run launchLibs launchTatu launchInput=.ok b ∧
    ¬Fails (fun e => e∈measuredHalts) (@rustMain boardLib boardCpu boardWs
      (ofPage (region (launchMemory launchInput launchSupply b) 0x1000 sectionSize))
      (launchMemory launchInput launchSupply b)) := by
  let _ := boardLib
  have hfdt : FdtLaw launchLibs := boardLib_law.written
  obtain ⟨b,hrun,hcomputed⟩ := run_launchInput
  have hboot : sampleSection ".tatu.bootinfo" 0x1000 []∈launchTatu.sections := by
    simp [launchTatu]
  have hroom : b.dtbo.virtualSize≤hostDtboMax := by
    rw [hcomputed.dtbo.2]
    decide
  have hsetting := launchInput_setting hrun hcomputed
  have hheader := hsetting.header hboot rfl
  have hnot := @launch_halts boardLib _ _ _ _ _ _ _ boardCpu Devtree.Merge.pathLaw_plain
    chosenLaw_plainLib boardLib_law hfdt hsetting _ hboot rfl hroom
  rw [hheader] at hnot
  change ofPage (region (launchMemory launchInput launchSupply b) 0x1000 sectionSize)=b.bootInfo
    at hheader
  refine ⟨b,hrun,?_⟩
  rw [hheader]
  exact hnot

end Arma.Build.Launch
