import Arma.Build.Run
import Arma.Pe.Complete
import Arma.Pe.Words
import Arma.Planner.Bound

/-!
# The bootstrap header of a finished build

Sizes and counts are narrowed to 32 bits in the header. The image is written
later, and only when the same numbers fit the words of its section headers, so
in a finished build nothing was cut off.
-/

namespace Arma.Build.Header

open Base.ByteString Base.Checked BootInfo Build Kernel.Image Kernel.RelocTable Manifest
open Pe.Words Pe.Writer Planner.Bound Planner.Model Run TatuImage

/-- What a finished build went through. -/
structure Ran (libs : Libs) (tatu : TatuImage) (input : BuildInput) (b : Built) : Prop where
  /-- The kernel was accepted. -/
  kernel : loadKernel libs input.kernelBytes=.ok b.kernel
  /-- A bootconfig came with an archive. -/
  bootconfig : input.bootconfig=true → ∃ bytes∈input.initrd, bytes≠[]
  /-- The layout was planned. -/
  plan : (plannerFor input tatu b.kernel).plan=.ok b.lay
  /-- The base devicetree was written and fits its section. -/
  baseDtb : buildDtb libs tatu (dtbInputs input b.kernel b.lay)=.ok (b.payload.dtbBytes,b.dtb)
  /-- The overlay has a section. -/
  overlay : tatu.section sectionDtbo=some b.dtbo
  /-- The entry point is a 64-bit address. -/
  entry : b.lay.linux.start+b.kernel.entryOffset<2^64
  /-- The header was made from these. -/
  header : b.bootInfo=headerFor b.dtb b.dtbo b.payload.dtbBytes b.kernel b.lay
    (b.lay.linux.start+b.kernel.entryOffset)
  /-- The section of the header has its bytes. -/
  headerBytes : b.payload.bootinfoBytes=b.bootInfo.toSectionBytes
  /-- The section of the kernel has the loaded image. -/
  kernelBytes : b.payload.kernelBytes=b.kernel.image
  /-- The archive is shipped as it is. -/
  initrdBytes : b.payload.initrdBytes=input.initrd
  /-- The section of the relocation table has its bytes. -/
  relocsBytes : b.payload.relocsBytes=b.kernel.relocs.toSectionBytes
  /-- The manifest was encoded. -/
  manifest : ∃ spec, buildPmiVm b.kernel.parsed.arch tatu (actionGpas b.lay) input.cpuProfile
    input.dtbMode=.ok spec ∧ libs.cborEncode spec=some b.payload.cbor
  /-- The image was emitted. -/
  pe : buildPe (peMachine b.kernel.parsed.arch) (b.sections tatu input.dtbMode)=.ok b.pe

/-- A build that succeeds went through all its steps. -/
theorem run_ok {libs : Libs} {tatu : TatuImage} {input : BuildInput} {b : Built}
    (h : run libs tatu input=.ok b) : Ran libs tatu input b := by
  obtain ⟨k,hkernel,h⟩ := bind_ok.mp h
  split at h
  · exact absurd h fail_ne_ok
  · rename_i hboot
    obtain ⟨lay,hplan,h⟩ := bind_ok.mp h
    obtain ⟨⟨dtbBytes,dtb⟩,hdtb,h⟩ := bind_ok.mp h
    obtain ⟨dtbo,hdtbo,h⟩ := bind_ok.mp h
    obtain ⟨entry,hentry,h⟩ := bind_ok.mp h
    obtain ⟨spec,hspec,h⟩ := bind_ok.mp h
    obtain ⟨cbor,hcbor,h⟩ := bind_ok.mp h
    obtain ⟨pe,hpe,h⟩ := bind_ok.mp h
    cases h
    obtain ⟨rfl,hlt⟩ := addWord_some.mp (unwrap_ok.mp hentry)
    refine ⟨hkernel,fun hb => ?_,context_ok.mp hplan,hdtb,okOr_ok.mp hdtbo,hlt,rfl,rfl,rfl,rfl,rfl,
      ⟨spec,context_ok.mp hspec,okOr_ok.mp hcbor⟩,context_ok.mp hpe⟩
    rw [hb,Bool.true_and,decide_eq_true_eq] at hboot
    cases hinitrd : input.initrd with
    | none =>
      rw [hinitrd] at hboot
      exact absurd rfl hboot
    | some bytes =>
      rw [hinitrd] at hboot
      refine ⟨bytes,rfl,fun hnil => hboot ?_⟩
      rw [Option.getD_some,hnil,List.length_nil]

/-- Everything a finished build plans, as the header states it. -/
structure Lossless (b : Built) (info : TatuBootInfo) : Prop where
  /-- The header is recognised. -/
  magic : info.magic=BootInfo.magic
  /-- The address of the base devicetree. -/
  baseDtbGpa : info.baseDtbGpa.toNat=b.dtb.vaddr
  /-- The bytes of the base devicetree. -/
  baseDtbSize : info.baseDtbSize.toNat=b.payload.dtbBytes.length
  /-- The address of the overlay slot. -/
  hostDtboGpa : info.hostDtboGpa.toNat=b.dtbo.vaddr
  /-- The bytes of the overlay slot. -/
  hostDtboSize : info.hostDtboSize.toNat=b.dtbo.virtualSize
  /-- The address of the kernel. -/
  kernelGpa : info.kernelGpa.toNat=b.lay.linux.start
  /-- The bytes of the kernel in its section. -/
  kernelSize : info.kernelSize.toNat=b.payload.kernelBytes.length
  /-- The address of the entry point. -/
  kernelEntryGpa : info.kernelEntryGpa.toNat=b.lay.linux.start+b.kernel.entryOffset
  /-- The RAM that is planned for the kernel. -/
  kernelAllocSize : info.kernelAllocSize.toNat=b.lay.linux.stop-b.lay.linux.start
  /-- The address of the relocation table; zero without one. -/
  relocsGpa : info.relocsGpa.toNat=(b.lay.relocs.map (·.start)).getD 0
  /-- The number of 8-byte sites. -/
  relocs64Count : info.relocs64Count.toNat=b.kernel.relocs.relocs64.length
  /-- The number of inverse 4-byte sites. -/
  relocs32negCount : info.relocs32negCount.toNat=b.kernel.relocs.relocs32neg.length
  /-- The number of 4-byte sites. -/
  relocs32Count : info.relocs32Count.toNat=b.kernel.relocs.relocs32.length
  /-- The counts fill the range of the relocation table. -/
  relocsSize : ∀ r∈b.lay.relocs, r.stop-r.start=4*(info.relocs64Count.toNat+
    info.relocs32negCount.toNat+info.relocs32Count.toNat)

section Finished

variable {libs : Libs} {tatu : TatuImage} {input : BuildInput} {b : Built}

/-- The words of every emitted section fit. -/
theorem Ran.fits (h : Ran libs tatu input b) {s : Section}
    (hs : s∈b.sections tatu input.dtbMode) : Fits s := buildPe_fits h.pe hs

/-- The address and size of a section of tatu fit. -/
theorem Ran.tatu_fits (h : Ran libs tatu input b) {s : TatuSection} (hs : s∈tatu.sections) :
    s.vaddr<2^32 ∧ s.virtualSize<2^32 := by
  have hfits := h.fits (tatuSection_mem hs)
  exact ⟨hfits.vaddr rfl,hfits.virtualSize⟩

/-- The range of the kernel has its footprint. -/
theorem Ran.linux_stop (h : Ran libs tatu input b) :
    b.lay.linux.stop=b.lay.linux.start+b.kernel.allocSize :=
  congrArg (·.stop) (plan_steps h.plan).kernel.2

/-- The kernel has a section. -/
theorem linuxSection_mem (b : Built) (dtbMode : DtbMode) :
    linuxSection b.payload b.lay∈b.sections tatu dtbMode := by
  simp [Built.sections,assembleSections]

/-- The address, footprint and bytes of the kernel fit. -/
theorem Ran.linux_fits (h : Ran libs tatu input b) : b.lay.linux.start<2^32 ∧
    b.kernel.allocSize<2^32 ∧ b.payload.kernelBytes.length<2^32 := by
  have hfits := h.fits (linuxSection_mem b input.dtbMode)
  have hsize : b.lay.linux.stop-b.lay.linux.start<2^32 := hfits.virtualSize
  rw [h.linux_stop,Nat.add_sub_cancel_left] at hsize
  exact ⟨hfits.vaddr rfl,hsize,hfits.dataLength⟩

/-- A planned relocation table has a section. -/
theorem relocsSection_mem {r : Range} (hr : r∈b.lay.relocs) (dtbMode : DtbMode) :
    dataSection sectionRelocs r b.payload.relocsBytes∈b.sections tatu dtbMode := by
  have hmem : dataSection sectionRelocs r b.payload.relocsBytes∈
      relocsSection b.payload b.lay := by
    rw [relocsSection,Option.mem_def.mp hr]
    exact List.mem_cons_self
  rw [Built.sections,assembleSections]
  exact List.mem_append_left _ (List.mem_append_right _ hmem)

/-- The relocation table is planned exactly when there are sites, at its size. -/
theorem Ran.relocs_range (h : Ran libs tatu input b) :
    match b.lay.relocs with
    | none => b.kernel.relocs.words.length=0
    | some r => r.stop-r.start=b.kernel.relocs.words.length*4 := by
  have hsteps := (plan_steps h.plan).relocs
  have hlen := length_toSectionBytes b.kernel.relocs
  have hsize : (plannerFor input tatu b.kernel).relocsSize=b.kernel.relocsSize := rfl
  rw [relocsTotal,hsize,LoadedKernel.relocsSize] at hsteps
  by_cases hempty : b.kernel.relocs.toSectionBytes=[]
  · rw [hempty] at hsteps hlen
    have hnone : b.lay.relocs=none := hsteps
    rw [hnone]
    rw [List.length_nil] at hlen
    dsimp only
    omega
  · have hfalse : b.kernel.relocs.toSectionBytes.isEmpty=false := by
      rw [List.isEmpty_eq_false_iff]
      exact hempty
    have hpos := List.length_pos_iff.mpr hempty
    rw [hfalse,if_neg Bool.false_ne_true,Option.bind_some,if_pos hpos] at hsteps
    obtain ⟨occ,i,_,_,hr⟩ := hsteps
    rw [hr]
    dsimp only
    omega

/-- The address of the relocation table and the number of sites fit. -/
theorem Ran.relocs_fits (h : Ran libs tatu input b) :
    (b.lay.relocs.map (·.start)).getD 0<2^32 ∧ b.kernel.relocs.words.length<2^32 := by
  have hrange := h.relocs_range
  cases hr : b.lay.relocs with
  | none =>
    rw [hr] at hrange
    have hzero : b.kernel.relocs.words.length=0 := hrange
    rw [hzero]
    exact ⟨Nat.two_pow_pos 32,Nat.two_pow_pos 32⟩
  | some r =>
    have hfits := h.fits (relocsSection_mem hr input.dtbMode)
    have hlen : b.payload.relocsBytes.length<2^32 := hfits.dataLength
    rw [h.relocsBytes,length_toSectionBytes] at hlen
    exact ⟨hfits.vaddr rfl,by omega⟩

/-- The base devicetree fits its section of tatu. -/
theorem Ran.dtb_fits (h : Ran libs tatu input b) :
    tatu.section sectionDtb=some b.dtb ∧ b.payload.dtbBytes.length≤b.dtb.virtualSize := by
  obtain ⟨dtbBytes,_,hbuild⟩ := bind_ok.mp h.baseDtb
  obtain ⟨dtb,hdtb,hbuild⟩ := bind_ok.mp hbuild
  split at hbuild
  · exact absurd hbuild fail_ne_ok
  · rename_i hfit
    cases hbuild
    exact ⟨okOr_ok.mp hdtb,Nat.le_of_not_lt hfit⟩

end Finished

/-- What a header section of a finished build ships is read back by tatu as
exactly the planned addresses, sizes and counts. -/
theorem run_lossless {libs : Libs} {tatu : TatuImage} {input : BuildInput} {b : Built}
    (h : run libs tatu input=.ok b) {s : TatuSection} (hs : s.isBootinfo=true) :
    Lossless b (ofPage (tatuData b.payload input.dtbMode s)) := by
  have hran := run_ok h
  have hdata : tatuData b.payload input.dtbMode s=b.bootInfo.toSectionBytes := by
    rw [tatuData,if_pos hs,hran.headerBytes]
  have hinfo : ofPage (tatuData b.payload input.dtbMode s)=b.bootInfo := by
    rw [hdata]
    refine ofPage_toSectionBytes ?_
    rw [hran.header]
    rfl
  obtain ⟨hdtb,hcapacity⟩ := hran.dtb_fits
  obtain ⟨hdtbGpa,hdtbCapacity⟩ := hran.tatu_fits (List.mem_of_find?_eq_some hdtb)
  obtain ⟨hdtboGpa,hdtboSize⟩ := hran.tatu_fits (List.mem_of_find?_eq_some hran.overlay)
  obtain ⟨hlinux,halloc,hfile⟩ := hran.linux_fits
  obtain ⟨hrelocs,hsites⟩ := hran.relocs_fits
  rw [hran.kernelBytes] at hfile
  simp only [Relocs.words,List.length_append] at hsites
  have h64 : ∀ n, n<2^64 → (UInt64.ofNat n).toNat=n := fun n hn => UInt64.toNat_ofNat_of_lt' hn
  have h32 : ∀ n, n<2^32 → (UInt32.ofNat n).toNat=n := fun n hn => UInt32.toNat_ofNat_of_lt' hn
  have hpow : (2 : ℕ)^32<2^64 := by norm_num
  have hcount64 : b.bootInfo.relocs64Count.toNat=b.kernel.relocs.relocs64.length := by
    rw [hran.header]
    exact h32 _ (by omega)
  have hcount32neg : b.bootInfo.relocs32negCount.toNat=b.kernel.relocs.relocs32neg.length := by
    rw [hran.header]
    exact h32 _ (by omega)
  have hcount32 : b.bootInfo.relocs32Count.toNat=b.kernel.relocs.relocs32.length := by
    rw [hran.header]
    exact h32 _ (by omega)
  rw [hinfo]
  refine ⟨?_,?_,?_,?_,?_,?_,?_,?_,?_,?_,hcount64,hcount32neg,hcount32,fun r hr => ?_⟩
  · rw [hran.header]
    rfl
  · rw [hran.header]
    exact h64 _ (by omega)
  · rw [hran.header]
    exact h32 _ (by omega)
  · rw [hran.header]
    exact h64 _ (by omega)
  · rw [hran.header]
    exact h32 _ hdtboSize
  · rw [hran.header]
    exact h64 _ (by omega)
  · rw [hran.header,hran.kernelBytes]
    exact h32 _ hfile
  · rw [hran.header]
    exact h64 _ hran.entry
  · rw [hran.header,hran.linux_stop,Nat.add_sub_cancel_left]
    exact h32 _ halloc
  · rw [hran.header]
    exact h64 _ (by omega)
  · have hrange := hran.relocs_range
    rw [Option.mem_def.mp hr] at hrange
    rw [hcount64,hcount32neg,hcount32]
    simp only [Relocs.words,List.length_append] at hrange
    omega

/-- The steps in front of the emission of the image. -/
def runFront (libs : Libs) (tatu : TatuImage) (input : BuildInput) : Outcome BuildError Built := do
  let k ← loadKernel libs input.kernelBytes
  if input.bootconfig && decide ((input.initrd.getD []).length=0) then fail .bootconfigWithoutInitrd
  else do
    let lay ← context .plan (plannerFor input tatu k).plan
    let (dtbBytes,dtb) ← buildDtb libs tatu (dtbInputs input k lay)
    let dtbo ← okOr (tatu.section sectionDtbo) (.missingSection sectionDtbo)
    let entry ← unwrap (addWord 64 lay.linux.start k.entryOffset)
    let info := headerFor dtb dtbo dtbBytes k lay entry
    let spec ← context .manifest
      (buildPmiVm k.parsed.arch tatu (actionGpas lay) input.cpuProfile input.dtbMode)
    let cbor ← okOr (libs.cborEncode spec) .cbor
    let payload : Payload :=
      ⟨info.toSectionBytes,k.image,input.initrd,k.relocs.toSectionBytes,dtbBytes,cbor⟩
    .ok ⟨k,lay,dtb,dtbo,info,payload,[]⟩

/-- A run emits the image from what the steps in front of it leave. -/
theorem run_eq (libs : Libs) (tatu : TatuImage) (input : BuildInput) : run libs tatu input=
    runFront libs tatu input >>= fun b => context .pe (buildPe (peMachine b.kernel.parsed.arch)
      (b.sections tatu input.dtbMode)) >>= fun pe => .ok {b with pe := pe} := by
  unfold run runFront
  rw [bind_assoc]
  congr 1
  funext k
  split
  · rfl
  · simp only [bind_assoc]
    rfl

/-- When the steps in front of the emission succeed and so do the passes over the
sections, the build succeeds. -/
theorem exists_run {libs : Libs} {tatu : TatuImage} {input : BuildInput} {test : Built → Bool}
    (h : (runFront libs tatu input).toOption.any (fun b =>
      Pe.Complete.passes (b.sections tatu input.dtbMode) && test b)=true) :
    ∃ b pe, run libs tatu input=.ok {b with pe := pe} ∧ test b=true := by
  have ⟨b,hfront,hall⟩ := exists_ok_of_any h
  rw [Bool.and_eq_true] at hall
  have ⟨file,hfile⟩ := @Pe.Complete.exists_buildPe_of_passes (peMachine b.kernel.parsed.arch) _
    hall.1
  refine ⟨b,file,?_,hall.2⟩
  rw [run_eq,ok_bind hfront,ok_bind (context_ok.mpr hfile)]

/-- A small arm64 Image. -/
def sampleKernel : Bytes :=
  zeros 16++leBytes 8 0x1000++zeros 32++leBytes 4 arm64ImageMagic++zeros 4

/-- The devicetree writer, with no ELF to parse and an empty manifest. -/
def sampleLibs : Libs where
  elfParse _ := none
  fdtWrite t := some (Devtree.flatten t)
  cborEncode _ := some [0xa0]

/-- A build of that Image with a serial port. -/
def sampleInput : BuildInput :=
  ⟨sampleKernel,none,"quiet",false,true,0,0,none,none,"armv8.0-a",.detached⟩

/-- tatu reads what was planned for that build. -/
theorem run_lossless_sample : ∃ b, run sampleLibs sampleTatu sampleInput=.ok b ∧
    Lossless b (ofPage (tatuData b.payload .detached (sampleSection ".tatu.bootinfo" 0xf0001000 [])))
    := by
  have ⟨b,pe,hb,_⟩ := @exists_run sampleLibs sampleTatu sampleInput (fun _ => true)
    (by decide +kernel)
  exact ⟨_,hb,run_lossless hb rfl⟩

end Arma.Build.Header
