import Arma.BaseDtb
import Arma.BootInfo
import Arma.Build
import Arma.Kernel.Extract

/-!
# A run of the build

From the kernel file, the archive and the options to the emitted image. The ELF
parser and the serialisers of the devicetree and of the manifest are parameters;
reading and unwrapping the input files, and inferring the slots from the kernel
configuration, are done before.
-/

namespace Arma.Build.Run

open Base.ByteString Base.Checked BaseDtb BootInfo Build Kernel.Extract Kernel.Image
open Kernel.RelocTable Manifest Pe.Writer Planner.Model TatuImage

/-- The libraries that the build calls. -/
structure Libs where
  /-- The ELF parser. -/
  elfParse : Bytes → Option Elf
  /-- The devicetree writer. -/
  fdtWrite : Devtree.Node → Option Bytes
  /-- The encoder of the manifest. -/
  cborEncode : Spec → Option Bytes

/-- What the build knows after reading its input files. -/
structure BuildInput where
  /-- The kernel, unwrapped to an ELF or an arm64 Image. -/
  kernelBytes : Bytes
  /-- The archive to be loaded as initrd. -/
  initrd : Option Bytes
  /-- The kernel command line, with its `earlycon` prefix. -/
  cmdline : String
  /-- The command line asks for a bootconfig. -/
  bootconfig : Bool
  /-- `--serial`. -/
  serial : Bool
  /-- Number of virtio-mmio transports. -/
  mmioSlots : ℕ
  /-- Number of PCI slots. -/
  pciSlots : ℕ
  /-- `--min-addr-space`. -/
  minAddrSpace : Option ℕ
  /-- `--pci-window`. -/
  pciWindow : Option ℕ
  /-- The vCPU profile. -/
  cpuProfile : String
  /-- How the base devicetree reaches the guest. -/
  dtbMode : DtbMode
deriving DecidableEq, Repr

/-- Errors of the build. -/
inductive BuildError where
  /-- The kernel is not accepted. -/
  | kernel (e : KernelError)
  /-- `x86 kernel has no relocation data`. -/
  | noRelocs
  /-- `bootconfig requires a nonempty --initrd`. -/
  | bootconfigWithoutInitrd
  /-- `plan guest-physical layout`. -/
  | plan (e : PlanError)
  /-- `build base DTB`. -/
  | baseDtb
  /-- `tatu ELF missing {0} section`. -/
  | missingSection (name : String)
  /-- `base DTB ({size:#x} bytes) exceeds .tatu.dtb capacity ({capacity:#x})`. -/
  | dtbTooLarge (size capacity : ℕ)
  /-- `build CBOR manifest`. -/
  | manifest (missing : String)
  /-- `CBOR encode of .pmi.vm spec`. -/
  | cbor
  /-- `emit PE`. -/
  | pe (e : PeError)
deriving DecidableEq, Repr

/-- A kernel that is ready to be placed. -/
structure LoadedKernel where
  /-- What parsing the file found out. -/
  parsed : Parsed
  /-- The bytes to load. -/
  image : Bytes
  /-- The relocation sites. -/
  relocs : Relocs
deriving DecidableEq, Repr

/-- The default widths of the address space and the BAR window. -/
def defaultBits : Arch → ℕ×ℕ
  | .aarch64 => (36,34)
  | .x86_64 => (39,37)

/-- Step 2: an ELF kernel is lowered to its loaded image and must be
relocatable; other kernels pass through. -/
def loadKernel (libs : Libs) (kernelBytes : Bytes) : Outcome BuildError LoadedKernel := do
  let parsed ← context .kernel (parse libs.elfParse kernelBytes)
  if parsed.elf.isSome then do
    let image ← context .kernel (elfLoadImage libs.elfParse kernelBytes)
    let relocs ← context .kernel (extractRelocs libs.elfParse kernelBytes)
    if relocs.isEmpty then fail .noRelocs
    else .ok ⟨parsed,image,relocs⟩
  else .ok ⟨parsed,kernelBytes,⟨[],[],[]⟩⟩

/-- `compute_kernel_alloc_size`. -/
def computeKernelAllocSize (fileSize : ℕ) (aarch64ImageSize : Option ℕ) (elf : Option ElfMeta) : ℕ :=
  match elf with
  | some e => max e.allocSize fileSize
  | none => max (aarch64ImageSize.getD 0) fileSize

/-- The RAM footprint of a kernel. -/
def LoadedKernel.allocSize (k : LoadedKernel) : ℕ :=
  computeKernelAllocSize k.image.length k.parsed.aarch64ImageSize k.parsed.elf

/-- The offset of the entry point in the image. -/
def LoadedKernel.entryOffset (k : LoadedKernel) : ℕ :=
  (k.parsed.elf.map ElfMeta.entryOffset).getD 0

/-- The bytes of the relocation table, absent when there are none. -/
def LoadedKernel.relocsSize (k : LoadedKernel) : Option ℕ :=
  if k.relocs.toSectionBytes.isEmpty then none else some k.relocs.toSectionBytes.length

/-- Step 7: what the planner is asked for. -/
def plannerFor (input : BuildInput) (tatu : TatuImage) (k : LoadedKernel) : Planner where
  args := ⟨input.serial,input.mmioSlots,input.pciSlots,
    input.pciWindow.getD (defaultBits k.parsed.arch).2,
    input.minAddrSpace.getD (defaultBits k.parsed.arch).1⟩
  reserved := tatu.reserved++archReserved k.parsed.arch
  kernel := ⟨k.allocSize,2*1024*1024,(k.parsed.elf.map ElfMeta.minPaddr).getD 0⟩
  initrdSize := input.initrd.map List.length
  bootconfig := input.bootconfig
  relocsSize := k.relocsSize

/-- The extent of the initrd with the bootconfig fill. -/
def initrdExtent (lay : Layout) : Option (ℕ×ℕ) :=
  lay.initrd.map fun r => (r.start,((lay.bootconfig.map (·.stop)).getD r.stop)-r.start)

/-- Step 8: what the base devicetree is built from. -/
def dtbInputs (input : BuildInput) (k : LoadedKernel) (lay : Layout) : BaseDtb.Inputs :=
  ⟨k.parsed.arch,input.cmdline,initrdExtent lay,lay.serial,lay.virtio,lay.ecam,lay.pciWindow⟩

/-- Step 9: the bootstrap header. Sizes are narrowed to 32 bits. -/
def headerFor (dtb dtbo : TatuSection) (dtbBytes : Bytes) (k : LoadedKernel) (lay : Layout)
    (entry : ℕ) : TatuBootInfo :=
  .new (.ofNat dtb.vaddr) (.ofNat dtbBytes.length) (.ofNat dtbo.vaddr) (.ofNat dtbo.virtualSize)
    (.ofNat lay.linux.start) (.ofNat k.image.length) (.ofNat entry) (.ofNat k.allocSize)
    (k.relocs.header (.ofNat ((lay.relocs.map (·.start)).getD 0)))

/-- What a build leaves behind: the image and everything that went into it. -/
structure Built where
  /-- The kernel. -/
  kernel : LoadedKernel
  /-- The planned layout. -/
  lay : Layout
  /-- Section of the base devicetree. -/
  dtb : TatuSection
  /-- Section of the host's overlay. -/
  dtbo : TatuSection
  /-- The bootstrap header. -/
  bootInfo : TatuBootInfo
  /-- The bytes of the sections. -/
  payload : Payload
  /-- The emitted image. -/
  pe : Bytes

/-- The sections of the emitted image. -/
def Built.sections (b : Built) (tatu : TatuImage) (dtbMode : DtbMode) : List Section :=
  assembleSections tatu b.payload b.lay dtbMode

/-- The machine number of an architecture. -/
def peMachine : Arch → ℕ
  | .x86_64 => 0x8664
  | .aarch64 => 0xAA64

/-- The base devicetree, which must fit its section of tatu. -/
def buildDtb (libs : Libs) (tatu : TatuImage) (inputs : BaseDtb.Inputs) :
    Outcome BuildError (Bytes×TatuSection) := do
  let dtbBytes ← okOr (libs.fdtWrite (tree inputs)) .baseDtb
  let dtb ← okOr (tatu.section sectionDtb) (.missingSection sectionDtb)
  if dtb.virtualSize < dtbBytes.length then fail (.dtbTooLarge dtbBytes.length dtb.virtualSize)
  else .ok (dtbBytes,dtb)

/-- Steps 2 to 12 of the build. -/
def run (libs : Libs) (tatu : TatuImage) (input : BuildInput) : Outcome BuildError Built := do
  let k ← loadKernel libs input.kernelBytes
  if input.bootconfig && decide ((input.initrd.getD []).length=0) then fail .bootconfigWithoutInitrd
  else do
    let lay ← context .plan (plannerFor input tatu k).plan
    let (dtbBytes,dtb) ← buildDtb libs tatu (dtbInputs input k lay)
    let dtbo ← okOr (tatu.section sectionDtbo) (.missingSection sectionDtbo)
    let entry ← unwrap (addWord 64 lay.linux.start k.entryOffset)
    let info := headerFor dtb dtbo dtbBytes k lay entry
    let spec ← context .manifest
      (buildPmiVm k.parsed.arch tatu (actionGpas lay) input.cpuProfile input.dtbMode)
    let cbor ← okOr (libs.cborEncode spec) .cbor
    let payload : Payload :=
      ⟨info.toSectionBytes,k.image,input.initrd,k.relocs.toSectionBytes,dtbBytes,cbor⟩
    let pe ← context .pe (buildPe (peMachine k.parsed.arch)
      (assembleSections tatu payload lay input.dtbMode))
    .ok ⟨k,lay,dtb,dtbo,info,payload,pe⟩

end Arma.Build.Run
