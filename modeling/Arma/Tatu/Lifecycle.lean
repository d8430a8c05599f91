import Arma.Acpi.Populate
import Arma.Tatu.BootParams
import Arma.Tatu.CpuRoom
import Arma.Tatu.Kaslr
import Arma.Tatu.Seed

/-!
# A boot

tatu checks the header, prepares the measured tree, merges the host's overlay into it and
validates the result. On x86 it then writes the ACPI tables and the boot parameters and
relocates the kernel; on arm64 it hands the merged tree over. Whatever goes wrong on the way
halts the processor. What is on tatu's stack is not part of memory here.
-/

namespace Arma.Tatu.Lifecycle

open Base.ByteString Base.Checked Base.Intervals BootInfo BootParams CpuRoom Devtree
open Devtree.Merge Kaslr Kernel.Image Overlay Seed Validate
open Acpi.Populate (populate)
open Acpi.Sdt (OemIdentity)

/-- Why tatu halts in front of the kernel: the messages of `panic_halt`. -/
inductive Halt where
  /-- `bootinfo: bad magic`. -/
  | badMagic
  /-- `kaslr overlay merge failed`. -/
  | seedOverlay
  /-- `base dtb: structural parse failed`. -/
  | baseParse
  /-- `host dtbo: oversized`. -/
  | oversized
  /-- `host dtbo: structural parse failed`. -/
  | dtboParse
  /-- `host dtbo: allowlist rejection`. -/
  | allowlist
  /-- `dtbo merge failed`. -/
  | merge
  /-- `merged dtb: re-parse failed`. -/
  | reparse
  /-- `merged dtb: validation failed`. -/
  | merged
  /-- `acpi generation failed`. -/
  | acpi
  /-- `/chosen/bootargs missing`. -/
  | bootargs
  /-- `boot_params build failed`. -/
  | bootParams
  /-- No random word was to be had. -/
  | entropy
deriving DecidableEq, Repr

/-- What the processor tells. -/
structure Cpu where
  /-- `EAX` of leaf `0x8000_0008`. -/
  leafEax : UInt32
  /-- `ID_AA64MMFR0_EL1`. -/
  mmfr0 : UInt64
  /-- `ID_AA64ISAR0_EL1`. -/
  isar0 : UInt64
  /-- `CNTVCT_EL1`. -/
  counter : UInt64
  /-- What `RDRAND` or `RNDR` gives at each try. -/
  draw : ℕ → Option UInt64

/-- Where tatu's own writable sections are. -/
structure Workspace where
  /-- `.tatu.dtbm`, for the merged tree. -/
  dtbm : ℕ
  /-- `.tatu.acpi`, for the tables. -/
  acpi : ℕ

/-- The parsers and the writer of the devicetree library. -/
class BootLib extends OverlayLib where
  /-- `Tree::parse`. -/
  parseTree : Bytes → Option Node
  /-- `Overlay::parse`. -/
  parseOverlay : Bytes → Option (List Fragment)
  /-- The blob that a merge writes for a tree. -/
  writeTree : Node → Option Bytes
  /-- Where in a blob the value of `/chosen/bootargs` is. -/
  bootargsOffset : Bytes → ℕ

/-- `HOST_DTBO_MAX`. -/
def hostDtboMax : ℕ := 64*1024

/-- Bytes of `.tatu.dtbm`. -/
def dtbmSize : ℕ := 72*1024

/-- Bytes of the scratch buffer for the tree with the seed. -/
def kaslrScratch : ℕ := 16*1024

/-- Bytes of the buffer for the template. -/
def templateRoom : ℕ := 512

/-- `OEM`. -/
def oem : OemIdentity :=
  ⟨⟨ascii "TATU  ",rfl⟩,⟨ascii "TATUOEM ",rfl⟩,1,⟨ascii "TATU",rfl⟩,1⟩

/-- `guest_pa_bits`. -/
def guestPaBits : Arch → Cpu → ℕ
  | .x86_64,cpu => (cpu.leafEax &&& 0xFF).toNat
  | .aarch64,cpu =>
    match (cpu.mmfr0 &&& 0xf).toNat with
    | 0 => 32
    | 1 => 36
    | 2 => 40
    | 3 => 42
    | 4 => 44
    | 6 => 52
    | 7 => 56
    | _ => 48

/-- The first random word of a hundred tries. -/
def drawn (cpu : Cpu) : Option UInt64 := (List.range 100).findSome? cpu.draw

/-- `rand_u64` on arm64: without random words the counter has to do. -/
def seedWord (cpu : Cpu) : UInt64 :=
  (if (cpu.isar0 >>> 60) &&& 0xf≠0 then drawn cpu else none).getD
    (cpu.counter*0x9E3779B97F4A7C15)

/-- `base_dtb_bytes`. -/
def baseDtbBytes (m : Memory) (info : TatuBootInfo) : Bytes :=
  region m info.baseDtbGpa.toNat info.baseDtbSize.toNat

/-- `host_dtbo_bytes`. -/
def hostDtboBytes (m : Memory) (info : TatuBootInfo) : Bytes :=
  region m info.hostDtboGpa.toNat info.hostDtboSize.toNat

section Boots

variable [BootLib]

/-- `merge_into`, with the bytes of the buffer. -/
def mergeTree (base : Node) (overlay : List Fragment) (room : ℕ) : Option Bytes := do
  let merged ← apply base overlay
  let blob ← BootLib.writeTree merged
  if blob.length≤room then some blob else none

/-- `prepare_merge_base`: on arm64 the seed is merged into the measured tree. -/
def prepareMergeBase : Arch → Cpu → Bytes → Option Bytes
  | .x86_64,_,base => some base
  | .aarch64,cpu,base =>
    if templateRoom<kaslrOverlayTemplate.length then none
    else do
      let template ← patchOverlaySeed kaslrOverlayTemplate (seedWord cpu).toNat
      let overlay ← BootLib.parseOverlay template
      let tree ← BootLib.parseTree base
      mergeTree tree overlay kaslrScratch

/-- Steps 1 to 7 of `rust_main`: the merged tree and its blob. -/
def mergeStage (arch : Arch) (cpu : Cpu) (info : TatuBootInfo) (m : Memory) :
    Outcome Halt (Node×Bytes) :=
  if info.magic≠BootInfo.magic then fail .badMagic
  else do
    let baseBlob ← okOr (prepareMergeBase arch cpu (baseDtbBytes m info)) .seedOverlay
    let base ← okOr (BootLib.parseTree baseBlob) .baseParse
    if hostDtboMax< info.hostDtboSize.toNat then fail .oversized
    else do
      let overlay ← okOr (BootLib.parseOverlay (hostDtboBytes m info)) .dtboParse
      context (fun _ => Halt.allowlist) (validateHostDtbo overlay base)
      let blob ← okOr (mergeTree base overlay dtbmSize) .merge
      let merged ← okOr (BootLib.parseTree blob) .reparse
      context (fun _ => Halt.merged) (validateMerged merged (guestPaBits arch cpu))
      .ok (merged,blob)

/-- `AcpiTables::generate`: the tables are written at `gpa`. -/
def generate (merged : Node) (gpa : ℕ) (m : Memory) : Outcome Halt Memory := do
  let (_,buf) ← context (fun _ => Halt.acpi)
    (populate merged oem gpa (region m gpa acpiWorkspaceSize))
  .ok (store m gpa buf)

/-- The value of `/chosen/bootargs`. -/
def bootargs (tree : Node) : Option Bytes :=
  (DevtreeLib.findPath tree "/chosen").bind fun chosen => chosen.property "bootargs"

/-- `CmdLine::from_dtb`: the address of the value in the merged tree. -/
def cmdLinePtr (merged : Node) (blob : Bytes) (gpa : ℕ) : Option ℕ :=
  (bootargs merged).map fun _ => gpa+BootLib.bootargsOffset blob

end Boots

/-- `apply_kaslr` with the random word it draws. -/
def randomize (cpu : Cpu) (info : TatuBootInfo) (m : Memory) : Outcome Halt Memory :=
  if relocsWords m info=[] ∨ splitTables info (relocsWords m info)=none then .ok m
  else do
    let rand ← okOr (drawn cpu) .entropy
    .ok (applyKaslr m info rand.toNat)

/-- What an x86 kernel is entered with. -/
structure Handoff where
  /-- Where it is entered. -/
  entry : ℕ
  /-- The boot parameters. -/
  params : LinuxBootParams
  /-- Memory at that time. -/
  memory : Memory

/-- What an arm64 kernel is entered with. -/
structure ArmHandoff where
  /-- Where it is entered. -/
  entry : ℕ
  /-- `x0`, the address of the merged tree. -/
  x0 : ℕ
  /-- Memory at that time. -/
  memory : Memory

section Boots

variable [BootLib]

/-- `rust_main` with `finalize` on x86. -/
def rustMain (cpu : Cpu) (ws : Workspace) (info : TatuBootInfo) (m : Memory) :
    Outcome Halt Handoff := do
  let (merged,blob) ← mergeStage .x86_64 cpu info m
  let m ← generate merged ws.acpi (store m ws.dtbm blob)
  let ptr ← okOr (cmdLinePtr merged blob ws.dtbm) .bootargs
  let params ← context (fun _ => Halt.bootParams)
    (fillElf ptr (Initrd.fromDtb merged) ws.acpi acpiWorkspaceSize merged)
  let m ← randomize cpu info m
  .ok ⟨info.kernelEntryGpa.toNat,params,m⟩

/-- `rust_main` with `finalize` on arm64. -/
def rustMainArm (cpu : Cpu) (ws : Workspace) (info : TatuBootInfo) (m : Memory) :
    Outcome Halt ArmHandoff := do
  let (_,blob) ← mergeStage .aarch64 cpu info m
  .ok ⟨info.kernelGpa.toNat,ws.dtbm,store m ws.dtbm blob⟩

end Boots

end Arma.Tatu.Lifecycle
