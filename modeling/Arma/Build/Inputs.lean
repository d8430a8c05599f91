import Arma.Build.Run
import Arma.Initrd.Materialize
import Arma.Kernel.Support
import Arma.Modules.Packing

/-!
# The inputs of a build

What a build reads before it plans anything: the kernel and its configuration, the
archive and the modules that go into it. Unwrapping a kernel file, detecting its
release, finding a module tree and parsing the embedded tatu are parameters.
-/

namespace Arma.Build.Inputs

open Base.ByteString Base.Checked Base.Effects Base.Text
open Build Initrd.Materialize Kernel.CommandLine Kernel.Config Kernel.Image Kernel.Support
open Manifest Modules.Index Modules.Packing Modules.Resolve Run TatuImage

/-- The files of the host. -/
structure Files where
  /-- What they hold. -/
  contents : String → Option Bytes
  /-- The paths that were written to, the last one first. -/
  replaced : List String

/-- Put a file in place of what was there. -/
def Files.replace (files : Files) (path : String) (bytes : Bytes) : Files :=
  ⟨fun p => if p=path then some bytes else files.contents p,path::files.replaced⟩

/-- `BuildArgs`. -/
structure BuildArgs where
  /-- The kernel file. -/
  kernelPath : String
  /-- `--initrd`. -/
  initrdPath : Option String
  /-- `--module`, every one. -/
  moduleNames : List String
  /-- `--module-tree`. -/
  moduleTree : Option String
  /-- The kernel command line. -/
  cmdline : String
  /-- `--profile`. -/
  profile : Option String
  /-- `--serial`. -/
  serial : Bool
  /-- The file to write. -/
  outputPath : String
  /-- `--config`. -/
  configPath : Option String
  /-- `--mmio-slots`. -/
  mmioSlots : Option ℕ
  /-- `--pci-slots`. -/
  pciSlots : Option ℕ
  /-- `--pci-window`. -/
  pciWindow : Option ℕ
  /-- `--min-addr-space`. -/
  minAddrSpace : Option ℕ
  /-- How the base devicetree reaches the guest. -/
  dtbMode : DtbMode
  /-- The file for a base devicetree that is delivered apart. -/
  dtbOut : Option String
deriving DecidableEq, Repr

/-- Why a build does not succeed. -/
inductive RunError where
  /-- `--module-tree requires at least one --module selection`. -/
  | treeWithoutModules
  /-- `--module requires a static ELF --initrd`. -/
  | modulesWithoutInitrd
  /-- A file that cannot be read. -/
  | read (path : String)
  /-- `extract kernel from UKI`. -/
  | uki (message : String)
  /-- `kernel decompression`. -/
  | zboot (message : String)
  /-- `extract vmlinux from bzImage`. -/
  | vmlinux (message : String)
  /-- `no --config given and the kernel has no embedded CONFIG_IKCONFIG; ...`. -/
  | noConfig
  /-- `bootconfig kernel support`. -/
  | bootconfig (e : BootconfigError)
  /-- `slot inference`. -/
  | slots (e : SlotError)
  /-- `materialize initrd`. -/
  | initrd (e : InitrdError)
  /-- `detect target kernel release for modules`. -/
  | release (message : String)
  /-- `resolve selected modules`. -/
  | modules (e : ModuleError)
  /-- `selected module kernel support`. -/
  | moduleSupport (e : ModuleConfigError)
  /-- `prepare selected module`. -/
  | packing (e : PackError)
  /-- `parse embedded tatu ELF`, or there is none for the architecture. -/
  | tatu (message : String)
  /-- Planning and emitting. -/
  | build (e : BuildError)
  /-- A file that cannot be written. -/
  | write (path message : String)
deriving DecidableEq, Repr

/-- What a build calls. -/
structure Host where
  /-- The ELF parser and the serialisers. -/
  libs : Libs
  /-- The readers of compressed archives. -/
  initrdLib : InitrdLib
  /-- The readers of compressed modules. -/
  decoders : Decoders
  /-- `unwrap_uki`. -/
  unwrapUki : Bytes → Except String Bytes
  /-- `unwrap_zboot`. -/
  unwrapZboot : Bytes → Except String Bytes
  /-- `extract_vmlinux`. -/
  extractVmlinux : Bytes → Except String Bytes
  /-- The text of `from_ikconfig`. -/
  ikconfig : Bytes → Option String
  /-- `kernel_release::detect`. -/
  detect : Bytes → Except String String
  /-- The module tree for a release, or the one that is given. -/
  locate : Files → String → Option String → Outcome ModuleError Modules.Resolve.Tree
  /-- The embedded tatu, parsed. -/
  tatu : Arch → Except String TatuImage
  /-- Why a file cannot be written, if it cannot. -/
  write : Files → String → Bytes → Option String

/-- Report the error of a library. -/
def attempt {α : Type} (f : String → RunError) : Except String α → Outcome RunError α
  | .ok a => .ok a
  | .error message => fail (f message)

/-- `fs::read`. -/
def readInput (files : Files) (path : String) : Outcome RunError Bytes :=
  okOr (files.contents path) (.read path)

/-- The checks of the options. -/
def checkArgs (args : BuildArgs) : Outcome RunError Unit :=
  if args.moduleTree.isSome=true ∧ args.moduleNames=[] then fail .treeWithoutModules
  else if args.moduleNames≠[] ∧ args.initrdPath=none then fail .modulesWithoutInitrd
  else args.moduleNames.forM fun name => do
    let _ ← context .modules (validateName name)
    .ok ()

/-- `load_kernel_config`. -/
def loadKernelConfig (host : Host) (args : BuildArgs) (files : Files) (kernel : Bytes) :
    Outcome RunError KernelConfig :=
  match args.configPath with
  | some path => do
    let bytes ← readInput files path
    let text ← okOr (String.fromUTF8? ⟨bytes.toArray⟩) (.read path)
    .ok ⟨text⟩
  | none => okOr ((host.ikconfig kernel).map KernelConfig.mk) .noConfig

/-- `has_earlycon`. -/
def hasEarlycon (cmdline : String) : Bool :=
  ((cmdline.toList.splitOnP isWhiteSpace).filter (· ≠ [])).any fun arg =>
    arg == "earlycon".toList || "earlycon=".toList.isPrefixOf arg

/-- `serial_earlycon_cmdline`. -/
def serialEarlyconCmdline (serial : Bool) (cmdline : String) : String :=
  if serial=false ∨ hasEarlycon cmdline=true then cmdline
  else if cmdline.toList.all isWhiteSpace=true then "earlycon"
  else "earlycon "++cmdline

/-- Check and pack one module. -/
def prepareModule (host : Host) (cfg : KernelConfig) (file : ModuleFile) :
    Outcome RunError ModuleFile := do
  let packing ← context .moduleSupport (checkModule cfg file.relative)
  let (packed,file) := runOn (pack host.decoders packing) file
  context .packing packed
  .ok file

/-- The archive with the selected modules. -/
def modulesInitrd (host : Host) (args : BuildArgs) (files : Files) (cfg : KernelConfig)
    (kernel input : Bytes) : Outcome RunError Bytes := do
  context .initrd (checkModuleInit host.initrdLib input)
  let release ← attempt .release (host.detect kernel)
  let selection ← context .modules
    (resolve release (host.locate files release args.moduleTree) args.moduleNames)
  let packed ← selection.files.mapM (prepareModule host cfg)
  context .initrd (materializeModules host.initrdLib input release
    (packed.map fun file => ⟨utf8 file.relative,file.bytes⟩))

/-- Step 3: the archive to load. -/
def prepareInitrd (host : Host) (args : BuildArgs) (files : Files) (cfg : KernelConfig)
    (kernel : Bytes) : Option Bytes → Outcome RunError (Option Bytes)
  | none => if args.moduleNames=[] then .ok none else fail .modulesWithoutInitrd
  | some input => do
    let archive ← if args.moduleNames=[] then context .initrd (materialize host.initrdLib input)
      else modulesInitrd host args files cfg kernel input
    .ok (some archive)

/-- A kernel that is to read a bootconfig must support one. -/
def checkBootconfigSupport (bootconfig : Bool) (cfg : KernelConfig) (arch : Arch)
    (cmdline : String) : Outcome RunError Unit :=
  if bootconfig then context .bootconfig (checkBootconfig cfg arch cmdline) else .ok ()

/-- A bootconfig goes behind an archive. -/
def checkBootconfigInitrd (bootconfig : Bool) (initrd : Option Bytes) : Outcome RunError Unit :=
  if bootconfig && decide ((initrd.getD []).length=0) then fail (.build .bootconfigWithoutInitrd)
  else .ok ()

/-- The profile that a build starts from. -/
def baseline : Arch → String
  | .aarch64 => "armv8.0-a"
  | .x86_64 => "x86-64-v2"

/-- Step 1: the kernel, unwrapped. -/
def readKernel (host : Host) (args : BuildArgs) (files : Files) : Outcome RunError Bytes := do
  let bytes ← readInput files args.kernelPath
  let bytes ← attempt .uki (host.unwrapUki bytes)
  let bytes ← attempt .zboot (host.unwrapZboot bytes)
  attempt .vmlinux (host.extractVmlinux bytes)

/-- Steps 1 to 5. -/
def gather (host : Host) (args : BuildArgs) (files : Files) :
    Outcome RunError (TatuImage×BuildInput) := do
  checkArgs args
  let kernel ← readKernel host args files
  let initrdBytes ← args.initrdPath.mapM (readInput files)
  let k ← context .build (loadKernel host.libs kernel)
  let arch := k.parsed.arch
  let cfg ← loadKernelConfig host args files kernel
  let bootconfig := bootconfigRequested (utf8 args.cmdline)
  let cmdline := serialEarlyconCmdline args.serial args.cmdline
  checkBootconfigSupport bootconfig cfg arch cmdline
  let (mmioSlots,pciSlots) ← context .slots (cfg.inferSlots arch args.mmioSlots args.pciSlots)
  let initrd ← prepareInitrd host args files cfg kernel initrdBytes
  checkBootconfigInitrd bootconfig initrd
  let tatu ← attempt .tatu (host.tatu arch)
  let profile := raiseToFloor (args.profile.getD (baseline arch)) (isaFloor cfg arch) arch
  .ok (tatu,⟨kernel,initrd,cmdline,bootconfig,args.serial,mmioSlots,pciSlots,args.minAddrSpace,
    args.pciWindow,profile,args.dtbMode⟩)

/-- A build for a serial port has an early console. -/
theorem hasEarlycon_serial (cmdline : String) :
    hasEarlycon (serialEarlyconCmdline true cmdline)=true := by
  unfold serialEarlyconCmdline
  split
  · rename_i h
    exact h.resolve_left (by decide)
  · split
    · decide
    · have hsplit : ("earlycon "++cmdline).toList.splitOnP isWhiteSpace=
          "earlycon".toList::cmdline.toList.splitOnP isWhiteSpace := by
        have hlist : ("earlycon "++cmdline).toList="earlycon".toList++ ' '::cmdline.toList := by
          rw [String.toList_append]
          rfl
        rw [hlist,List.splitOnP_append_cons _ _ (by decide)]
        rfl
      unfold hasEarlycon
      rw [hsplit]
      simp

/-- The early console in front of a line does not change what the line asks for. -/
theorem bootconfigRequested_serial (serial : Bool) (cmdline : String) :
    bootconfigRequested (utf8 (serialEarlyconCmdline serial cmdline))=
      bootconfigRequested (utf8 cmdline) := by
  unfold serialEarlyconCmdline
  split
  · rfl
  · split
    · -- white space asks for nothing, and neither does the early console
      rename_i hblank
      have hb : (0x62 : UInt8)∈bootconfig := by decide
      have hconsole : (0x62 : UInt8)∉utf8 "earlycon" := by decide
      have hline : (0x62 : UInt8)∉utf8 cmdline := by
        refine notMem_utf8 (by decide) fun c hc heq => ?_
        have hspace := List.all_eq_true.mp hblank c hc
        rw [isWhiteSpace,heq] at hspace
        exact absurd hspace (by decide)
      rw [not_bootconfigRequested hb hconsole,not_bootconfigRequested hb hline]
    · have hbytes : utf8 ("earlycon "++cmdline)=ascii "earlycon"++0x20::utf8 cmdline := by
        have hconsole : utf8 "earlycon "=ascii "earlycon"++[0x20] := by decide
        rw [utf8_append,hconsole,List.append_assoc]
        rfl
      rw [hbytes]
      exact bootconfigRequested_plain _ (by decide +kernel) (by decide +kernel) (by decide)
        (by decide)

/-- A bootconfig is accepted exactly when the kernel is handed a parameter of that name
from the line in its buffer. The early console makes no difference to what the line itself
asks for, and the built-in line is the one that Kconfig wrote. -/
theorem bootconfig_gate (cfg : KernelConfig) (serial : Bool) (cmdline : String) (arch : Arch)
    (hoptions : ∀ option∈bootconfigOptions, cfg.isBuiltin option=true)
    (hforce : cfg.isBuiltin "CONFIG_BOOT_CONFIG_FORCE"=false) :
    bootconfigRequested (utf8 (serialEarlyconCmdline serial cmdline))=
        bootconfigRequested (utf8 cmdline) ∧
      (∀ supplied : String, checkBootconfig cfg arch supplied=.ok () ↔
        ∃ p∈parseArgs (kernelLine (builtinUse cfg arch) (utf8 (builtinCmdline cfg)) (utf8 supplied)),
          p.name=bootconfig) ∧
      (∀ value : String, (lines cfg.text).findSome? quotedCmdline=some (escape value.toList) →
        builtinCmdline cfg=value) ∧
      ((lines cfg.text).findSome? quotedCmdline=none → builtinCmdline cfg="") := by
  refine ⟨bootconfigRequested_serial serial cmdline,fun supplied => ?_,
    fun _ hvalue => builtinCmdline_escape hvalue,builtinCmdline_none⟩
  rw [checkBootconfig_ok,effectiveCmdline_eq,bootconfigRequested,parseArgs,←requestedIn_iff]
  constructor
  · rintro ⟨-,hforced | hrequested⟩
    · rw [hforce] at hforced
      cases hforced
    · exact hrequested
  · intro hrequested
    exact ⟨hoptions,.inr hrequested⟩

/-- A configuration with a built-in line that leaves a quote open. -/
def quotingConfig : KernelConfig :=
  ⟨"CONFIG_BOOT_CONFIG=y\nCONFIG_BLK_DEV_INITRD=y\nCONFIG_PROC_FS=y\nCONFIG_CMDLINE_BOOL=y\nCONFIG_CMDLINE=\"x=\\\"a\""⟩

/-- The open quote hides the request behind it from a kernel of x86 alone. -/
theorem bootconfig_gate_quoting :
    builtinCmdline quotingConfig="x=\"a" ∧
      checkBootconfig quotingConfig .x86_64 "bootconfig"≠.ok () ∧
      checkBootconfig quotingConfig .aarch64 "bootconfig"=.ok () := by
  have hx86 := bootconfig_gate quotingConfig true "bootconfig" .x86_64 (by decide +kernel)
    (by decide +kernel)
  have harm := bootconfig_gate quotingConfig true "bootconfig" .aarch64 (by decide +kernel)
    (by decide +kernel)
  refine ⟨hx86.2.2.1 _ (by decide +kernel),?_,?_⟩
  · rw [Ne,hx86.2.1]
    decide +kernel
  · rw [harm.2.1]
    decide +kernel

end Arma.Build.Inputs
