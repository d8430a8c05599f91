import Mathlib.Tactic.Common
import Arma.Kernel.Image
import Arma.TatuImage

/-!
# The actions of the manifest

One load for each section that arrives with the image, one fill for each
section that the VMM supplies at launch, each with its explicit address.
-/

namespace Arma.Manifest

open Base.Checked Kernel.Image TatuImage

/-- `.linux`. -/
def sectionLinux : String := ".linux"

/-- `.initrd`. -/
def sectionInitrd : String := ".initrd"

/-- `.bconf`. -/
def sectionBootconfig : String := ".bconf"

/-- `.linux.relocs`. -/
def sectionRelocs : String := ".linux.relocs"

/-- `.tatu.dtb`. -/
def sectionDtb : String := ".tatu.dtb"

/-- `.tatu.dtbo`. -/
def sectionDtbo : String := ".tatu.dtbo"

/-- `.dtb`, the bundled fallback. -/
def sectionDtbFallback : String := ".dtb"

/-- `.pmi.vm`. -/
def sectionPmiVm : String := ".pmi.vm"

/-- How the base devicetree reaches the guest. -/
inductive DtbMode where
  /-- Bundled in `.tatu.dtb` and loaded. -/
  | attached
  /-- Delivered out of band by a fill. -/
  | detached
  /-- Delivered by a fill, with a bundled fallback. -/
  | optional
deriving DecidableEq, Repr

/-- The addresses at which the actions place arma's own sections. -/
structure ActionGpas where
  /-- The kernel. -/
  linux : ℕ
  /-- The initrd. -/
  initrd : Option ℕ
  /-- The bootconfig fill. -/
  bootconfig : Option ℕ
  /-- The relocation table. -/
  relocs : Option ℕ
deriving DecidableEq, Repr

/-- What the VMM supplies for a fill. -/
inductive FillKind where
  /-- `lbc:bootconfig`. -/
  | lbcBootconfig
  /-- `dt:dtb`. -/
  | dtDtb
  /-- `dt:dtbo`. -/
  | dtDtbo
deriving DecidableEq, Repr

/-- One action of the manifest. -/
inductive Action where
  /-- Load a section with the default kind. -/
  | load (gpa : ℕ) (section_ : String)
  /-- Fill a section. -/
  | fill (gpa : ℕ) (section_ : String) (kind : FillKind)
deriving DecidableEq, Repr

/-- The section an action targets. -/
def Action.sectionName : Action → String
  | .load _ section_ => section_
  | .fill _ section_ _ => section_

/-- The address an action places its section at. -/
def Action.gpa : Action → ℕ
  | .load gpa _ => gpa
  | .fill gpa _ _ => gpa

/-- The action is a fill. -/
def Action.isFill : Action → Bool
  | .load _ _ => false
  | .fill _ _ _ => true

/-- A tatu section is loaded: all are but `.tatu.dtbo` and, unless attached,
`.tatu.dtb`. -/
def isLoaded (dtbMode : DtbMode) (s : TatuSection) : Bool :=
  !decide (s.name=sectionDtbo) && !(decide (s.name=sectionDtb) && decide (dtbMode≠.attached))

/-- The loads of tatu's sections. -/
def tatuLoads (tatu : TatuImage) (dtbMode : DtbMode) : List Action :=
  (tatu.sections.filter (isLoaded dtbMode)).map fun s => .load s.vaddr s.name

/-- The fill of the base devicetree, unless attached. -/
def dtbFill (tatu : TatuImage) (dtbMode : DtbMode) : List Action :=
  if dtbMode≠.attached then
    [.fill (((tatu.section sectionDtb).map TatuSection.vaddr).getD 0) sectionDtb .dtDtb]
  else []

/-- The fill of the host's overlay. -/
def dtboFill (tatu : TatuImage) : Action :=
  .fill (((tatu.section sectionDtbo).map TatuSection.vaddr).getD 0) sectionDtbo .dtDtbo

/-- The list of actions. -/
def buildActions (tatu : TatuImage) (gpas : ActionGpas) (dtbMode : DtbMode) : List Action :=
  tatuLoads tatu dtbMode++[.load gpas.linux sectionLinux]++
    (gpas.initrd.map fun gpa => Action.load gpa sectionInitrd).toList++
    (gpas.bootconfig.map fun gpa => Action.fill gpa sectionBootconfig .lbcBootconfig).toList++
    (gpas.relocs.map fun gpa => Action.load gpa sectionRelocs).toList++
    dtbFill tatu dtbMode++[dtboFill tatu]

/-- `.tatu.pgt`. -/
def sectionPgtable : String := ".tatu.pgt"

/-- `.tatu.gdt`. -/
def sectionGdt : String := ".tatu.gdt"

/-- The section that carries the bundled base devicetree. -/
def DtbMode.attribute : DtbMode → Option String
  | .attached => some sectionDtb
  | .optional => some sectionDtbFallback
  | .detached => none

/-- Where the boot vCPU starts. -/
inductive Vcpu where
  /-- The page tables and the descriptor table of x86. -/
  | x86_64 (cr3 gdtBase : ℕ)
  /-- The program counter of aarch64. -/
  | aarch64 (pc : ℕ)
deriving DecidableEq, Repr

/-- The target spec. -/
structure Spec where
  /-- The list of actions. -/
  actions : List Action
  /-- The boot vCPU. -/
  vcpu : Vcpu
  /-- The vCPU profile. -/
  cpuProfile : String
  /-- `dt:dtb`. -/
  dtDtb : Option String
deriving DecidableEq, Repr

/-- The boot vCPU, whose tables are sections of tatu on x86. -/
def buildVcpu (arch : Arch) (tatu : TatuImage) : Outcome String Vcpu :=
  match arch with
  | .x86_64 => do
    let pgtable ← okOr (tatu.section sectionPgtable) sectionPgtable
    let gdt ← okOr (tatu.section sectionGdt) sectionGdt
    .ok (.x86_64 pgtable.vaddr gdt.vaddr)
  | .aarch64 => .ok (.aarch64 tatu.entry)

/-- The target spec; the error names the section of tatu that is missing. -/
def buildPmiVm (arch : Arch) (tatu : TatuImage) (gpas : ActionGpas) (cpuProfile : String)
    (dtbMode : DtbMode) : Outcome String Spec := do
  let vcpu ← buildVcpu arch tatu
  .ok ⟨buildActions tatu gpas dtbMode,vcpu,cpuProfile,dtbMode.attribute⟩

end Arma.Manifest
