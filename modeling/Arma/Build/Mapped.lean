import Arma.Build.Header
import Arma.Kernel.Coverage
import Arma.Planner.Separation
import Arma.Tatu.BootMem
import Arma.Tatu.BootParams

/-!
# What tatu maps of an x86 image

The words of the section headers bound the addresses at which sections start, and
nothing bounds where they end. But no planned range has an address of the page at
the reset vector, which ends at 4 GiB, so none that starts below it reaches it, and
all are inside tatu's identity map. The extent of the initrd then fits the 32 bits
of the boot parameters.
-/

namespace Arma.Build.Mapped

open Base.ByteString Base.Checked Base.Intervals BaseDtb Build Devtree Header Kernel.Extract
  Kernel.Image Manifest Pe.Words Pe.Writer Planner.Bound Planner.Model Planner.Separation Run
  Tatu.BootMem Tatu.BootParams TatuImage

/-- A range that ends within 4 GiB, with every address mapped to itself. -/
def Within (r : Range) : Prop :=
  r.stop≤2^32 ∧ ∀ a∈r.toSet, translate identityMap4Gib pgtBase a=some a

/-- A range that ends within 4 GiB is mapped. -/
theorem within_of_stop {r : Range} (h : r.stop≤2^32) : Within r := by
  refine ⟨h,fun a ha => translate_identity ?_⟩
  obtain ⟨_,hlt⟩ := mem_toSet.mp ha
  omega

/-- The image includes the page at the reset vector, which ends at 4 GiB. -/
def HasReset (tatu : TatuImage) : Prop :=
  ∃ s∈tatu.sections, s.vaddr+s.virtualSize=2^32

/-- A range that starts below 4 GiB and has no address of the page at its end ends
below it. -/
theorem stop_lt {r reset : Range} (hstart : r.start<2^32) (hapart : Disjoint r.toSet reset.toSet)
    (hreset : reset.start<2^32) (hend : reset.stop=2^32) : r.stop<2^32 := by
  by_contra hstop
  have hlast : 2^32-1∈r.toSet := mem_toSet.mpr ⟨by omega,by omega⟩
  have htop : 2^32-1∈reset.toSet := mem_toSet.mpr ⟨by omega,by omega⟩
  exact Set.disjoint_left.mp hapart hlast htop

/-- A loaded kernel keeps what parsing found out. -/
theorem loadKernel_parsed {libs : Libs} {bytes : Bytes} {k : LoadedKernel}
    (h : loadKernel libs bytes=.ok k) : Kernel.Image.parse libs.elfParse bytes=.ok k.parsed := by
  obtain ⟨parsed,hparse,h⟩ := bind_ok.mp h
  have hkernel : k.parsed=parsed := by
    split at h
    · obtain ⟨image,_,h⟩ := bind_ok.mp h
      obtain ⟨relocs,_,h⟩ := bind_ok.mp h
      split at h
      · exact absurd h fail_ne_ok
      · cases h
        rfl
    · cases h
      rfl
  rw [hkernel]
  exact context_ok.mp hparse

/-- An x86 kernel is an ELF file whose entry point is in the image. -/
theorem parse_entry {elfParse : Bytes → Option Elf} {bytes : Bytes} {parsed : Parsed}
    (h : Kernel.Image.parse elfParse bytes=.ok parsed) (hx86 : parsed.arch=.x86_64) :
    ∃ e, parsed.elf=some e ∧ e.entryOffset<e.allocSize := by
  unfold Kernel.Image.parse at h
  split at h
  · exact absurd h fail_ne_ok
  · split at h
    · obtain ⟨elf,_,h⟩ := bind_ok.mp h
      unfold parseVmlinux at h
      split at h
      · exact absurd h fail_ne_ok
      · obtain ⟨span,_,h⟩ := bind_ok.mp h
        obtain ⟨alloc,_,h⟩ := bind_ok.mp h
        obtain ⟨entryOffset,hentry,h⟩ := bind_ok.mp h
        cases h
        have hfilter := (Option.filter_eq_some_iff.mp (okOr_ok.mp hentry)).2
        exact ⟨_,rfl,of_decide_eq_true hfilter⟩
    · split at h
      · cases h
        cases hx86
      · exact absurd h fail_ne_ok

/-- The base devicetree has a node for `/chosen`. -/
theorem tree_chosen (inputs : Inputs) :
    childNamed (tree inputs) "chosen"=some (chosenNode inputs) := rfl

/-- The word of two cells is read back. -/
theorem readUint_beBytes {v : ℕ} (h : v<2^64) : readUint (beBytes 8 v)=some v := by
  rw [readUint,if_pos (.inr (length_beBytes 8 v)),ofBE_beBytes]
  exact congrArg some (Nat.mod_eq_of_lt h)

/-- tatu reads the extent of the initrd back from the base devicetree. -/
theorem fromDtb_tree [DevtreeLib] (hlaw : ChosenLaw) {inputs : Inputs}
    (hextent : ∀ e∈inputs.initrd, e.1+e.2<2^64) : Initrd.fromDtb (tree inputs)=
      (inputs.initrd.map fun e => (⟨e.1,e.2⟩ : Initrd)).getD .none := by
  obtain ⟨arch,cmdline,initrd,serial,virtio,ecam,window⟩ := inputs
  rw [Initrd.fromDtb,hlaw _ _ (tree_chosen _)]
  cases initrd with
  | none => cases serial <;> rfl
  | some e =>
    obtain ⟨gpa,size⟩ := e
    have hlt : gpa+size<2^64 := hextent _ rfl
    have hmin : min (gpa+size) (2^64-1)=gpa+size := by omega
    have hstart : (chosenNode ⟨arch,cmdline,some (gpa,size),serial,virtio,ecam,window⟩).property
        "linux,initrd-start"=some (beBytes 8 gpa) := by
      cases serial <;> rfl
    have hstop : (chosenNode ⟨arch,cmdline,some (gpa,size),serial,virtio,ecam,window⟩).property
        "linux,initrd-end"=some (beBytes 8 (gpa+size)) := by
      rw [←hmin]
      cases serial <;> rfl
    dsimp only
    rw [hstart,hstop]
    dsimp only
    rw [Initrd.ofBounds,readUint_beBytes (by omega),readUint_beBytes hlt]
    dsimp only
    rw [if_neg (by omega),Nat.add_sub_cancel_left]
    rfl

section Finished

variable {libs : Libs} {tatu : TatuImage} {input : BuildInput} {b : Built}

/-- The addresses of a payload that starts below 4 GiB end below it. -/
theorem payload_stop (h : Ran libs tatu input b) (hreset : HasReset tatu) {s : Set ℕ}
    (hs : s∈payloads b.lay) {r : Range} (hr : r.toSet⊆s) (hstart : r.start<2^32) :
    r.stop<2^32 := by
  obtain ⟨top,htop,hend⟩ := hreset
  have hfits := (h.tatu_fits htop).1
  have hreserved : (⟨top.vaddr,top.vaddr+top.virtualSize⟩ : Range).toSet∈
      optSet b.lay.pciWindow::reservedSets (plannerFor input tatu b.kernel) := by
    refine List.mem_cons_of_mem _ (List.mem_map_of_mem ?_)
    exact List.mem_append_left _ (List.mem_map.mpr ⟨top,htop,rfl⟩)
  have hapart := ((plan_ok h.plan).fixed s hs _ hreserved).disjoint
  exact stop_lt hstart (hapart.mono_left hr) hfits hend

/-- The kernel ends below 4 GiB. -/
theorem linux_stop (h : Ran libs tatu input b) (hreset : HasReset tatu) :
    b.lay.linux.stop<2^32 :=
  payload_stop h hreset (by simp [payloads]) (Set.Subset.refl b.lay.linux.toSet) h.linux_fits.1

/-- The relocation table ends below 4 GiB. -/
theorem relocs_stop (h : Ran libs tatu input b) (hreset : HasReset tatu) {r : Range}
    (hr : r∈b.lay.relocs) : r.stop<2^32 := by
  have hfits := h.fits (relocsSection_mem hr input.dtbMode)
  have hsub : r.toSet⊆optSet b.lay.relocs := fun a ha => ⟨r,hr,ha⟩
  exact payload_stop h hreset (by simp [payloads]) hsub (hfits.vaddr rfl)

/-- A planned archive has a section. -/
theorem initrdSection_mem (h : Ran libs tatu input b) {r : Range} (hr : r∈b.lay.initrd) :
    ∃ bytes, dataSection sectionInitrd r bytes∈b.sections tatu input.dtbMode := by
  have hsome : b.lay.initrd.isSome=true := by
    rw [Option.mem_def.mp hr]
    rfl
  have hsize : (input.initrd.map List.length).isSome=true := plan_initrd h.plan hsome
  rw [Option.isSome_map] at hsize
  obtain ⟨bytes,hbytes⟩ := Option.isSome_iff_exists.mp hsize
  have hsection : initrdSection b.payload b.lay=[dataSection sectionInitrd r bytes] := by
    rw [initrdSection,h.initrdBytes,hbytes,Option.mem_def.mp hr]
  refine ⟨bytes,?_⟩
  simp only [Built.sections,assembleSections,hsection,List.mem_append,List.mem_singleton]
  exact .inl (.inl (.inl (.inr trivial)))

/-- The archive ends below 4 GiB. -/
theorem initrd_stop (h : Ran libs tatu input b) (hreset : HasReset tatu) {r : Range}
    (hr : r∈b.lay.initrd) : r.start<2^32 ∧ r.stop<2^32 := by
  obtain ⟨bytes,hmem⟩ := initrdSection_mem h hr
  have hstart : r.start<2^32 := (h.fits hmem).vaddr rfl
  have hsub : r.toSet⊆initrdArea b.lay := fun a ha => .inl ⟨r,hr,ha⟩
  exact ⟨hstart,payload_stop h hreset (by simp [payloads]) hsub hstart⟩

/-- The bootconfig ends below 4 GiB. -/
theorem bootconfig_stop (h : Ran libs tatu input b) (hreset : HasReset tatu) {r : Range}
    (hr : r∈b.lay.bootconfig) : r.stop<2^32 := by
  have hmem : (⟨sectionBootconfig,r.start,r.stop-r.start,[],
      imageScnCntUninitializedData ||| imageScnMemRead,false⟩ : Section)∈
      b.sections tatu input.dtbMode := by
    have hsection : bootconfigSection b.lay=[⟨sectionBootconfig,r.start,r.stop-r.start,[],
        imageScnCntUninitializedData ||| imageScnMemRead,false⟩] := by
      rw [bootconfigSection,Option.mem_def.mp hr]
      rfl
    simp only [Built.sections,assembleSections,hsection,List.mem_append,List.mem_singleton]
    exact .inl (.inl (.inr trivial))
  have hstart : r.start<2^32 := (h.fits hmem).vaddr rfl
  have hsub : r.toSet⊆initrdArea b.lay := fun a ha => .inr ⟨r,hr,ha⟩
  exact payload_stop h hreset (by simp [payloads]) hsub hstart

/-- The entry point of an x86 kernel is inside its range. -/
theorem entry_lt (h : Ran libs tatu input b) (hx86 : b.kernel.parsed.arch=.x86_64) :
    b.kernel.entryOffset<b.kernel.allocSize := by
  have hentry := parse_entry (loadKernel_parsed h.kernel) hx86
  obtain ⟨e,helf,hlt⟩ := hentry
  have halloc : e.allocSize ≤ b.kernel.allocSize := by
    rw [LoadedKernel.allocSize,helf]
    exact le_max_left _ _
  have hoffset : b.kernel.entryOffset=e.entryOffset := by
    rw [LoadedKernel.entryOffset,helf]
    rfl
  omega

/-- The extent of the initrd for the devicetree ends below 4 GiB. -/
theorem extent_lt (h : Ran libs tatu input b) (hreset : HasReset tatu) {gpa size : ℕ}
    (hextent : initrdExtent b.lay=some (gpa,size)) : gpa+size<2^32 := by
  obtain ⟨r,hr,heq⟩ := Option.map_eq_some_iff.mp hextent
  obtain ⟨rfl,rfl⟩ := Prod.mk.inj heq
  obtain ⟨hstart,hstop⟩ := initrd_stop h hreset hr
  have hend : (b.lay.bootconfig.map (·.stop)).getD r.stop<2^32 := by
    cases hboot : b.lay.bootconfig with
    | none => exact hstop
    | some fill => exact bootconfig_stop h hreset hboot
  omega

end Finished

/-- What tatu can reach of a finished x86 build. -/
structure Reached [DevtreeLib] (tatu : TatuImage) (input : BuildInput) (b : Built) : Prop where
  /-- The kernel is mapped. -/
  linux : Within b.lay.linux
  /-- Its entry point is in its range. -/
  entry : b.lay.linux.start+b.kernel.entryOffset<b.lay.linux.stop
  /-- The relocation table is mapped. -/
  relocs : ∀ r∈b.lay.relocs, Within r
  /-- The archive is mapped. -/
  initrd : ∀ r∈b.lay.initrd, Within r
  /-- So is the page behind it. -/
  bootconfig : ∀ r∈b.lay.bootconfig, Within r
  /-- The sections of tatu are mapped. -/
  sections : ∀ s∈tatu.sections, Within ⟨s.vaddr,s.vaddr+s.virtualSize⟩
  /-- tatu reads the planned extent from the base devicetree. -/
  read : Initrd.fromDtb (tree (dtbInputs input b.kernel b.lay))=
    ((initrdExtent b.lay).map fun e => (⟨e.1,e.2⟩ : Initrd)).getD .none
  /-- It goes into the boot parameters, which cannot fail for it. -/
  narrowed : ∀ cmdLine rsdpGpa acpiSize merged,
    fillElf cmdLine (Initrd.fromDtb (tree (dtbInputs input b.kernel b.lay))) rsdpGpa acpiSize merged=
      (fillElf cmdLine .none rsdpGpa acpiSize merged).map
        (·.withRamdisk (Initrd.fromDtb (tree (dtbInputs input b.kernel b.lay))))

/-- What an x86 build places is within the first 4 GiB, given a tatu image that ends
with the page at the reset vector. -/
theorem run_mapped [DevtreeLib] (hlaw : ChosenLaw) {libs : Libs} {tatu : TatuImage}
    {input : BuildInput} {b : Built} (h : run libs tatu input=.ok b)
    (hx86 : b.kernel.parsed.arch=.x86_64)
    (hlow : ∀ s∈tatu.sections, s.vaddr+s.virtualSize≤2^32) (hreset : HasReset tatu) :
    Reached tatu input b := by
  have hran := run_ok h
  have hextent : ∀ e∈initrdExtent b.lay, e.1+e.2<2^32 := fun e he => extent_lt hran hreset he
  have hread : Initrd.fromDtb (tree (dtbInputs input b.kernel b.lay))=
      ((initrdExtent b.lay).map fun e => (⟨e.1,e.2⟩ : Initrd)).getD .none :=
    fromDtb_tree hlaw fun e he => by
      have hlt := hextent e he
      omega
  have hsmall : (Initrd.fromDtb (tree (dtbInputs input b.kernel b.lay))).gpa<2^32 ∧
      (Initrd.fromDtb (tree (dtbInputs input b.kernel b.lay))).size<2^32 := by
    rw [hread]
    cases he : initrdExtent b.lay with
    | none => exact ⟨Nat.two_pow_pos 32,Nat.two_pow_pos 32⟩
    | some e =>
      have hlt := hextent e he
      dsimp only [Option.map_some,Option.getD_some]
      omega
  have hentry := entry_lt hran hx86
  have hstop := hran.linux_stop
  refine ⟨within_of_stop (linux_stop hran hreset).le,by omega,
    fun r hr => within_of_stop (relocs_stop hran hreset hr).le,
    fun r hr => within_of_stop (initrd_stop hran hreset hr).2.le,
    fun r hr => within_of_stop (bootconfig_stop hran hreset hr).le,
    fun s hs => within_of_stop (hlow s hs),hread,fun cmdLine rsdpGpa acpiSize merged =>
    fillElf_initrd hsmall.1 hsmall.2 cmdLine rsdpGpa acpiSize merged⟩

/-- tatu with the boot tables and a page at the reset vector. -/
def resetTatu : TatuImage :=
  ⟨[sampleSection ".tatu.bootinfo" 0x1000 [],sampleSection ".tatu.dtb" 0x2000 [],
    sampleSection ".tatu.dtbo" 0x3000 [],sampleSection ".tatu.pgt" 0x98000 [],
    sampleSection ".tatu.gdt" 0x9e000 [],sampleSection ".tatu.reset" 0xfffff000 []],0xfffffff0⟩

/-- The devicetree writer, with one ELF to parse and an empty manifest. -/
def elfLibs : Libs where
  elfParse _ := some Kernel.Coverage.sampleElf
  fdtWrite t := some (flatten t)
  cborEncode _ := some [0xa0]

/-- A build of that ELF with a serial port. -/
def elfInput : BuildInput :=
  ⟨Kernel.Coverage.sampleFile 0,none,"quiet",false,true,0,0,none,none,"x86-64-v3",.detached⟩

/-- That build succeeds. -/
theorem run_elfInput : ∃ b, run elfLibs resetTatu elfInput=.ok b ∧
    b.kernel.parsed.arch=.x86_64 := by
  have ⟨b,pe,hb,hx86⟩ := @exists_run elfLibs resetTatu elfInput
    (fun b => decide (b.kernel.parsed.arch=.x86_64)) (by decide +kernel)
  exact ⟨_,hb,of_decide_eq_true hx86⟩

/-- tatu can reach all of that build. -/
theorem run_mapped_sample : ∃ b, run elfLibs resetTatu elfInput=.ok b ∧
    @Reached plainLib resetTatu elfInput b := by
  have hlow : ∀ s∈resetTatu.sections, s.vaddr+s.virtualSize≤2^32 := by decide
  have hreset : HasReset resetTatu :=
    ⟨sampleSection ".tatu.reset" 0xfffff000 [],by simp [resetTatu],rfl⟩
  obtain ⟨b,hb,hx86⟩ := run_elfInput
  exact ⟨b,hb,@run_mapped plainLib chosenLaw_plainLib _ _ _ _ hb hx86 hlow hreset⟩

end Arma.Build.Mapped
