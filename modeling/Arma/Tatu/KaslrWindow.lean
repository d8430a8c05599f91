import Arma.Build.Header
import Arma.Build.Mapped
import Arma.Kernel.Coverage
import Arma.Tatu.Kaslr

/-!
# The window of the randomized kernel

tatu bounds the delta by the footprint and a fixed link offset of 16 MiB. The offset a
kernel is linked at is in its ELF header only, so the bound keeps the image in the
window exactly when that offset is no larger than assumed.
-/

namespace Arma.Tatu.KaslrWindow

open Base.Checked BootInfo Build.Header Build.Mapped Build.Run Kaslr Kernel.Coverage
open Kernel.Extract Kernel.Image TatuImage

/-- Start of the kernel's high map. -/
def highMap : ℕ := 0xffffffff80000000

/-- An image that is moved by a delta lies in the window. -/
def InWindow (text size delta : ℕ) : Prop :=
  highMap≤text+delta ∧ text+delta+size≤highMap+kernelImageSize

/-- A sign-extended 32-bit site that holds an address of the image holds the moved address
after the delta is added. -/
def NoWrap (text size delta : ℕ) : Prop :=
  ∀ a, text≤a → a<text+size →
    signExtend (.ofNat (wrappingAdd 32 (a%2^32) delta))=a+delta

/-- The link base of an ELF kernel: the address of the segment that is lowest in physical
memory. -/
def LinkBase (libs : Libs) (bytes : Base.ByteString.Bytes) (text : UInt64) : Prop :=
  ∃ elf span, libs.elfParse bytes=some elf ∧ elfSpan elf=.ok span ∧ textVaddr elf span=.ok text

/-- A footprint in whole units of the delta. -/
def footprintUnits (size : ℕ) : ℕ := (size+(kaslrAlign-1))/kaslrAlign*kaslrAlign

/-- The link offset is at most the assumed one, up to what the footprint leaves of its
last unit; a footprint that leaves no room is not moved at all. -/
def OffsetAssumed (text size alloc : ℕ) : Prop :=
  alloc+loadPhysicalAddr≤kernelImageSize →
    text-highMap+size≤loadPhysicalAddr+footprintUnits alloc

/-- The largest delta. -/
def maxDelta (alloc : ℕ) : ℕ :=
  (kernelImageSize-alloc-loadPhysicalAddr)/kaslrAlign*kaslrAlign

/-- Every delta is a multiple of 2 MiB up to the largest one. -/
theorem kaslrDelta_le (info : TatuBootInfo) (rand : ℕ) : kaslrAlign∣kaslrDelta info rand ∧
    kaslrDelta info rand ≤ maxDelta info.kernelAllocSize.toNat := by
  refine ⟨Nat.dvd_mul_left _ _,Nat.mul_le_mul_right _ ?_⟩
  exact Nat.le_of_lt_succ (Nat.mod_lt _ (Nat.succ_pos _))

/-- Some random word selects the largest delta. -/
theorem exists_maxDelta (info : TatuBootInfo) :
    ∃ rand<2^64, kaslrDelta info rand=maxDelta info.kernelAllocSize.toNat := by
  have hsize : kernelImageSize=0x40000000 := rfl
  refine ⟨(kernelImageSize-info.kernelAllocSize.toNat-loadPhysicalAddr)/kaslrAlign,?_,?_⟩
  · have hle := Nat.div_le_self (kernelImageSize-info.kernelAllocSize.toNat-loadPhysicalAddr)
      kaslrAlign
    omega
  · unfold kaslrDelta maxDelta
    dsimp only
    rw [Nat.mod_eq_of_lt (Nat.lt_succ_self _)]

/-- The image stays in the window at the largest delta exactly when its link offset is at
most the assumed one. -/
theorem inWindow_maxDelta {text size alloc : ℕ} (hin : InWindow text size 0) :
    InWindow text size (maxDelta alloc) ↔ OffsetAssumed text size alloc := by
  have hsize : kernelImageSize=0x40000000 := rfl
  have hload : loadPhysicalAddr=0x1000000 := rfl
  have halign : kaslrAlign=0x200000 := rfl
  unfold InWindow at hin ⊢
  unfold OffsetAssumed maxDelta footprintUnits
  rw [hsize] at hin ⊢
  rw [hload,halign]
  omega

/-- In the window no sign-extended site wraps. -/
theorem InWindow.noWrap {text size delta : ℕ} (hin : InWindow text size 0)
    (h : InWindow text size delta) : NoWrap text size delta := by
  have hsize : kernelImageSize=0x40000000 := rfl
  have hbase : highMap=0xffffffff80000000 := rfl
  intro a hlow hhigh
  unfold InWindow at hin h
  rw [hsize,hbase] at hin h
  have hword : wrappingAdd 32 (a%2^32) delta=a+delta-(2^64-2^32) := by
    unfold wrappingAdd
    omega
  have hlt : a+delta-(2^64-2^32)<2^32 := by omega
  unfold signExtend
  rw [hword,UInt32.toNat_ofNat_of_lt' hlt,if_neg (by omega)]
  omega

/-- An x86 kernel that is accepted has a footprint and a link base. -/
theorem loadKernel_linkBase {libs : Libs} {bytes : Base.ByteString.Bytes} {k : LoadedKernel}
    (h : loadKernel libs bytes=.ok k) (hx86 : k.parsed.arch=.x86_64) :
    ∃ e text, k.parsed.elf=some e ∧ LinkBase libs bytes text := by
  obtain ⟨parsed,hparsed,h⟩ := bind_ok.mp h
  by_cases hsome : parsed.elf.isSome=true
  · rw [if_pos hsome] at h
    obtain ⟨image,_,h⟩ := bind_ok.mp h
    obtain ⟨relocs,hrelocs,h⟩ := bind_ok.mp h
    have hextract := context_ok.mp hrelocs
    obtain ⟨elf,helf,_⟩ := bind_ok.mp hextract
    have hparse := okOr_ok.mp helf
    obtain ⟨span,text,hspan,htext⟩ := extractRelocs_base hparse hextract
    obtain ⟨e,he⟩ := Option.isSome_iff_exists.mp hsome
    refine ⟨e,text,?_,elf,span,hparse,hspan,htext⟩
    split at h
    · exact absurd h fail_ne_ok
    · cases h
      exact he
  · rw [if_neg hsome] at h
    cases h
    obtain ⟨e,he,_⟩ := parse_entry (context_ok.mp hparsed) hx86
    exact absurd (Option.isSome_of_mem he) hsome

/-- For every x86 build whose kernel is linked in the window: all deltas keep the image in
the window, so that no site wraps, exactly when the link offset is at most the assumed
one. -/
theorem kaslr_window_iff {libs : Libs} {tatu : TatuImage} {input : BuildInput} {b : Built}
    (h : run libs tatu input=.ok b) (hx86 : b.kernel.parsed.arch=.x86_64) :
    ∃ e text, b.kernel.parsed.elf=some e ∧ LinkBase libs input.kernelBytes text ∧
      (InWindow text.toNat e.allocSize 0 →
        ((∀ rand<2^64, kaslrAlign∣kaslrDelta b.bootInfo rand ∧
          InWindow text.toNat e.allocSize (kaslrDelta b.bootInfo rand) ∧
          NoWrap text.toNat e.allocSize (kaslrDelta b.bootInfo rand)) ↔
          OffsetAssumed text.toNat e.allocSize b.kernel.allocSize)) := by
  have hran := run_ok h
  have halloc : b.bootInfo.kernelAllocSize.toNat=b.kernel.allocSize := by
    rw [hran.header]
    exact Nat.mod_eq_of_lt hran.linux_fits.2.1
  obtain ⟨e,text,helf,hbase⟩ := loadKernel_linkBase hran.kernel hx86
  refine ⟨e,text,helf,hbase,fun hin => ?_⟩
  rw [←halloc,←inWindow_maxDelta hin]
  constructor
  · intro hall
    obtain ⟨rand,hrand,hmax⟩ := exists_maxDelta b.bootInfo
    rw [←hmax]
    exact (hall rand hrand).2.1
  · intro hmax rand _
    obtain ⟨hdvd,hle⟩ := kaslrDelta_le b.bootInfo rand
    have hwindow : InWindow text.toNat e.allocSize (kaslrDelta b.bootInfo rand) := by
      unfold InWindow at hin hmax ⊢
      omega
    exact ⟨hdvd,hwindow,hin.noWrap hwindow⟩

/-- A kernel of two pages that is linked 32 MiB into the high map. -/
def highElf : Elf :=
  ⟨true,emX86_64,0x2000000,0,0,0,[⟨ptLoad,120,0xffffffff82000000,0x2000000,8,0x2000⟩],[],[],[]⟩

/-- Its file, with an appended table of one 64-bit site. -/
def highFile : Base.ByteString.Bytes :=
  elfMagic++Base.ByteString.zeros 116++Base.ByteString.leBytes 8 0x1111111182000000++
    Base.ByteString.leBytes 4 0++Base.ByteString.leBytes 4 0x82000000++Base.ByteString.leBytes 4 0

/-- The libraries of a build of that kernel. -/
def highLibs : Libs where
  elfParse _ := some highElf
  fdtWrite t := some (Devtree.flatten t)
  cborEncode _ := some [0xa0]

/-- A build of that kernel. -/
def highInput : BuildInput :=
  ⟨highFile,none,"quiet",false,true,0,0,none,none,"x86-64-v3",.detached⟩

/-- The random word 502 moves that kernel out of the window. -/
theorem kaslr_leaves_window : ∃ b, run highLibs resetTatu highInput=.ok b ∧
    b.kernel.parsed.elf=some ⟨0x2000,0x2000000,0⟩ ∧
    LinkBase highLibs highFile 0xffffffff82000000 ∧
    InWindow (0xffffffff82000000 : UInt64).toNat 0x2000 0 ∧
    ¬InWindow (0xffffffff82000000 : UInt64).toNat 0x2000 (kaslrDelta b.bootInfo 502) := by
  have ⟨b,pe,hb,htest⟩ := @exists_run highLibs resetTatu highInput (fun b =>
    decide (b.kernel.parsed.elf=some ⟨0x2000,0x2000000,0⟩) &&
      decide (kaslrDelta b.bootInfo 502=502*0x200000)) (by decide +kernel)
  rw [Bool.and_eq_true,decide_eq_true_eq,decide_eq_true_eq] at htest
  refine ⟨_,hb,htest.1,⟨highElf,⟨0x2000000,0x2000008,0x2002000⟩,rfl,?_,?_⟩,?_,?_⟩
  · decide +kernel
  · decide +kernel
  · exact ⟨by decide,by decide⟩
  · rw [htest.2]
    exact fun hwindow => absurd hwindow.2 (by decide)

/-- A kernel linked 16 MiB into the high map stays in the window. -/
theorem kaslr_window_iff_sample : ∃ b, run elfLibs resetTatu elfInput=.ok b ∧
    ∃ e text, b.kernel.parsed.elf=some e ∧ LinkBase elfLibs elfInput.kernelBytes text ∧
      (InWindow text.toNat e.allocSize 0 →
        ((∀ rand<2^64, kaslrAlign∣kaslrDelta b.bootInfo rand ∧
          InWindow text.toNat e.allocSize (kaslrDelta b.bootInfo rand) ∧
          NoWrap text.toNat e.allocSize (kaslrDelta b.bootInfo rand)) ↔
          OffsetAssumed text.toNat e.allocSize b.kernel.allocSize)) := by
  obtain ⟨b,hb,hx86⟩ := run_elfInput
  exact ⟨b,hb,kaslr_window_iff hb hx86⟩

end Arma.Tatu.KaslrWindow
