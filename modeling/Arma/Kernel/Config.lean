import Arma.Kernel.Image
import Arma.Modules.Index

/-!
# The kernel configuration

Symbols are matched in the text of the configuration on demand. A transport can
be driven when it is built in or a module; the default board has slots for
transports that are built in only.
-/

namespace Arma.Kernel.Config

open Base.Checked Kernel.Image Modules.Index

/-- A kernel configuration, held as its text. -/
structure KernelConfig where
  /-- The text. -/
  text : String
deriving DecidableEq, Repr

/-- Errors of the slot inference. -/
inductive SlotError where
  /-- `kernel supports neither virtio-mmio nor PCI`. -/
  | noTransport
  /-- `--mmio-slots requested but the kernel lacks CONFIG_VIRTIO_MMIO`. -/
  | mmioUnsupported
  /-- `the kernel builds no virtio transport in`. -/
  | noBuiltinTransport
  /-- `--pci-slots requested but the kernel lacks PCI support`. -/
  | pciUnsupported
deriving DecidableEq, Repr

/-- Unicode white space. -/
def isWhiteSpace (c : Char) : Bool :=
  let v := c.toNat
  decide (9≤v ∧ v≤13) || decide (0x2000≤v ∧ v≤0x200A) ||
    decide (v∈[0x20,0x85,0xA0,0x1680,0x2028,0x2029,0x202F,0x205F,0x3000])

/-- What is behind a prefix. -/
def stripPrefix (front text : List Char) : Option (List Char) :=
  if front<+:text then some (text.drop front.length) else none

/-- The value of a symbol on a line, if the line is about the symbol. -/
def lineValue (sym line : String) : Option (List Char) := do
  let rest ← stripPrefix sym.toList (line.toList.dropWhile isWhiteSpace)
  stripPrefix ['='] rest

/-- The symbol is built in or a module. -/
def KernelConfig.isSet (cfg : KernelConfig) (sym : String) : Bool :=
  (lines cfg.text).any fun line =>
    (lineValue sym line).any fun v => decide (v=['y']) || decide (v=['m'])

/-- The symbol is built in. -/
def KernelConfig.isBuiltin (cfg : KernelConfig) (sym : String) : Bool :=
  (lines cfg.text).any fun line => (lineValue sym line).any fun v => decide (v=['y'])

/-- virtio-mmio can be driven. -/
def KernelConfig.supportsVirtioMmio (cfg : KernelConfig) : Bool := cfg.isSet "CONFIG_VIRTIO_MMIO"

/-- virtio-mmio is built in. -/
def KernelConfig.builtinVirtioMmio (cfg : KernelConfig) : Bool :=
  cfg.isBuiltin "CONFIG_VIRTIO_MMIO"

/-- virtio over PCI can be driven. -/
def KernelConfig.supportsPci (cfg : KernelConfig) (arch : Arch) : Bool :=
  cfg.isSet "CONFIG_PCI" && cfg.isSet "CONFIG_VIRTIO_PCI" &&
    (!decide (arch=.aarch64) || cfg.isSet "CONFIG_PCI_HOST_GENERIC")

/-- virtio over PCI is built in. -/
def KernelConfig.builtinPci (cfg : KernelConfig) (arch : Arch) : Bool :=
  cfg.isBuiltin "CONFIG_PCI" && cfg.isBuiltin "CONFIG_VIRTIO_PCI" &&
    (!decide (arch=.aarch64) || cfg.isBuiltin "CONFIG_PCI_HOST_GENERIC")

/-- The slots of the default board. -/
def KernelConfig.defaultSlots (cfg : KernelConfig) (arch : Arch) : Outcome SlotError (ℕ×ℕ) :=
  match cfg.builtinVirtioMmio,cfg.builtinPci arch with
  | true,true => .ok (8,8)
  | true,false => .ok (16,0)
  | false,true => .ok (0,16)
  | false,false => fail .noBuiltinTransport

/-- The slots that were asked for. -/
def KernelConfig.explicitSlots (cfg : KernelConfig) (arch : Arch) (mmio pci : ℕ) :
    Outcome SlotError (ℕ×ℕ) :=
  if 0 < mmio ∧ cfg.supportsVirtioMmio=false then fail .mmioUnsupported
  else if 0<pci ∧ cfg.supportsPci arch=false then fail .pciUnsupported
  else .ok (mmio,pci)

/-- The numbers of virtio-mmio and PCI slots. -/
def KernelConfig.inferSlots (cfg : KernelConfig) (arch : Arch) (mmioOverride pciOverride : Option ℕ) :
    Outcome SlotError (ℕ×ℕ) :=
  if cfg.supportsVirtioMmio=false ∧ cfg.supportsPci arch=false then fail .noTransport
  else
    match mmioOverride,pciOverride with
    | none,none => cfg.defaultSlots arch
    | m,p => cfg.explicitSlots arch (m.getD 0) (p.getD 0)

/-- The number of virtio-mmio slots that the configuration and the command line
lead to, when they are accepted. -/
def KernelConfig.mmioSlots (cfg : KernelConfig) (arch : Arch) (mmioOverride pciOverride : Option ℕ) :
    ℕ :=
  match mmioOverride,pciOverride with
  | none,none =>
    if cfg.builtinVirtioMmio=true then (if cfg.builtinPci arch=true then 8 else 16) else 0
  | m,_ => m.getD 0

/-- The slots of the default board are given by what is built in. -/
theorem defaultSlots_ok {cfg : KernelConfig} {arch : Arch} {mmio pci : ℕ}
    (h : cfg.defaultSlots arch=.ok (mmio,pci)) :
    mmio=if cfg.builtinVirtioMmio=true then (if cfg.builtinPci arch=true then 8 else 16) else 0 := by
  unfold KernelConfig.defaultSlots at h
  cases hm : cfg.builtinVirtioMmio <;> cases hp : cfg.builtinPci arch <;> rw [hm,hp] at h <;>
    cases h <;> rfl

/-- Slots that are asked for are given as they are. -/
theorem explicitSlots_ok {cfg : KernelConfig} {arch : Arch} {m p mmio pci : ℕ}
    (h : cfg.explicitSlots arch m p=.ok (mmio,pci)) : mmio=m ∧ pci=p := by
  unfold KernelConfig.explicitSlots at h
  split at h
  · exact absurd h fail_ne_ok
  · split at h
    · exact absurd h fail_ne_ok
    · cases h
      exact ⟨rfl,rfl⟩

/-- The number of virtio-mmio slots when the slots are accepted. -/
theorem inferSlots_ok {cfg : KernelConfig} {arch : Arch} {m p : Option ℕ} {mmio pci : ℕ}
    (h : cfg.inferSlots arch m p=.ok (mmio,pci)) : mmio=cfg.mmioSlots arch m p := by
  unfold KernelConfig.inferSlots at h
  unfold KernelConfig.mmioSlots
  split at h
  · exact absurd h fail_ne_ok
  · cases m with
    | none =>
      cases p with
      | none => exact defaultSlots_ok h
      | some pci => exact (explicitSlots_ok h).1
    | some mmio => exact (explicitSlots_ok h).1

end Arma.Kernel.Config
