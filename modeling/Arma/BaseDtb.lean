import Mathlib.Tactic.Common
import Arma.Devtree
import Arma.Kernel.Image
import Arma.Planner.Model

/-!
# The base devicetree

arma describes the platform in a devicetree: the command line and the extent of
the initrd under `/chosen`, the fixed devices of the architecture, and the
devices that the planner placed. Serialising the tree is left to the devicetree
writer.
-/

namespace Arma.BaseDtb

open Base.ByteString Devtree Kernel.Image Planner.Model

/-- What the tree is built from. -/
structure Inputs where
  /-- Target architecture. -/
  arch : Arch
  /-- Kernel command line. -/
  cmdline : String
  /-- Address and size of the initrd. -/
  initrd : Option (ℕ×ℕ)
  /-- The serial port. -/
  serial : Option Range
  /-- The virtio-mmio transports. -/
  virtio : List Range
  /-- The ECAM window. -/
  ecam : Option Range
  /-- The BAR window. -/
  pciWindow : Option Range
deriving DecidableEq, Repr

/-- `property_u32`. -/
def propertyU32 (name : String) (v : ℕ) : Property := ⟨name,beBytes 4 v⟩

/-- `property_u64`. -/
def propertyU64 (name : String) (v : ℕ) : Property := ⟨name,beBytes 8 v⟩

/-- `property_array_u32`. -/
def propertyArrayU32 (name : String) (cells : List ℕ) : Property :=
  ⟨name,cells.flatMap (beBytes 4)⟩

/-- A string with its zero byte. -/
def stringBytes (s : String) : Bytes := s.toUTF8.data.toList++[0]

/-- `property_string`. -/
def propertyString (name : String) (s : String) : Property := ⟨name,stringBytes s⟩

/-- `property_string_list`. -/
def propertyStringList (name : String) (l : List String) : Property := ⟨name,l.flatMap stringBytes⟩

/-- `property_null`. -/
def propertyNull (name : String) : Property := ⟨name,[]⟩

/-- `property_phandle`. -/
def propertyPhandle (v : ℕ) : Property := propertyU32 "phandle" v

/-- The two cells of a 64-bit word. -/
def cells64 (v : ℕ) : List ℕ := [v/2^32,v%2^32]

/-- A `reg` of one base and size. -/
def regProperty (base size : ℕ) : Property := propertyArrayU32 "reg" (cells64 base++cells64 size)

/-- `{:x}`. -/
def hex (v : ℕ) : String := .ofList (Nat.toDigits 16 v)

/-- A name with its unit address. -/
def unitName (name : String) (base : ℕ) : String := name++"@"++hex base

/-- Number of addresses of a range. -/
def sizeOf (r : Range) : ℕ := r.stop-r.start

/-- Buses behind the ECAM window. -/
def ecamBuses : ℕ := 16

/-- 64-bit non-prefetchable memory in `ranges`. -/
def pciMem64 : ℕ := 0x03000000

/-- `SERIAL_ALIAS`. -/
def serialAlias : String := "serial0"

/-- `SERIAL_OPTIONS`. -/
def serialOptions : String := "115200n8"

/-- `/chosen`: the command line, the console and the extent of the initrd. -/
def chosenNode (inputs : Inputs) : Node :=
  .mk "chosen" ([propertyString "bootargs" inputs.cmdline]++
    (inputs.serial.map fun _ =>
      propertyString "stdout-path" (serialAlias++":"++serialOptions)).toList++
    match inputs.initrd with
    | some (gpa,size) => [propertyU64 "linux,initrd-start" gpa,
        propertyU64 "linux,initrd-end" (min (gpa+size) (2^64-1))]
    | none => []) []

/-- `/aliases`, with a serial port only. -/
def aliasesNode (inputs : Inputs) : List Node :=
  (inputs.serial.map fun serial =>
    Node.mk "aliases" [propertyString serialAlias ("/"++unitName "serial" serial.start)] []).toList

/-- `LAPIC_BASE`. -/
def lapicBase : ℕ := 0xFEE00000

/-- `IOAPIC_BASE`. -/
def ioapicBase : ℕ := 0xFEC00000

/-- `LAPIC_SIZE` and `IOAPIC_SIZE`. -/
def apicSize : ℕ := 0x1000

/-- `LAPIC_PHANDLE`. -/
def lapicPhandle : ℕ := 1

/-- `IOAPIC_PHANDLE`. -/
def ioapicPhandle : ℕ := 2

/-- `POWEROFF_BASE`. -/
def poweroffBase : ℕ := 0xFEC01000

/-- `REBOOT_BASE`. -/
def rebootBase : ℕ := 0xFEC02000

/-- `SYSCON_REG_SIZE`. -/
def sysconRegSize : ℕ := 4

/-- `SERIAL_CLK_HZ`. -/
def serialClkHz : ℕ := 3686400

/-- `SERIAL_CURRENT_SPEED`. -/
def serialCurrentSpeed : ℕ := 115200

/-- The fixed devices of x86: LAPIC, IOAPIC and the two syscon registers. -/
def x86Reserved : List Range :=
  [⟨lapicBase,lapicBase+apicSize⟩,⟨ioapicBase,ioapicBase+apicSize⟩,
    ⟨poweroffBase,poweroffBase+sysconRegSize⟩,⟨rebootBase,rebootBase+sysconRegSize⟩]

/-- A syscon node with its own register and trigger value. -/
def sysconAction (name compatible : String) (base value : ℕ) : Node :=
  .mk (unitName name base) [propertyString "compatible" compatible,regProperty base sysconRegSize,
    propertyU32 "value" value] []

/-- The serial port, with the routing of the architecture. -/
def serialNode (serial : Range) (routing : List Property) : Node :=
  .mk (unitName "serial" serial.start) ([propertyString "compatible" "ns16550a",
    regProperty serial.start (sizeOf serial),propertyU32 "reg-shift" 2,
    propertyU32 "reg-io-width" 4,propertyU32 "clock-frequency" serialClkHz,
    propertyU32 "current-speed" serialCurrentSpeed]++routing) []

/-- A virtio-mmio transport, with the routing of the architecture. -/
def virtioNode (v : Range) (routing : List Property) : Node :=
  .mk (unitName "virtio_mmio" v.start) ([propertyString "compatible" "virtio,mmio",
    regProperty v.start (sizeOf v)]++routing) []

/-- The interrupt of a device: its parent and the cells. -/
def interruptRouting (parent : ℕ) (cells : List ℕ) : List Property :=
  [propertyU32 "interrupt-parent" parent,propertyArrayU32 "interrupts" cells]

/-- The platform of x86. -/
def x86Platform (inputs : Inputs) : List Node :=
  [.mk (unitName "interrupt-controller" lapicBase) [propertyString "compatible" "intel,ce4100-lapic",
      regProperty lapicBase apicSize,propertyNull "interrupt-controller",
      propertyU32 "#interrupt-cells" 2,propertyPhandle lapicPhandle] [],
    .mk (unitName "interrupt-controller" ioapicBase)
      [propertyString "compatible" "intel,ce4100-ioapic",propertyU32 "#interrupt-cells" 2,
      propertyNull "interrupt-controller",regProperty ioapicBase apicSize,
      propertyPhandle ioapicPhandle] [],
    sysconAction "poweroff" "syscon-poweroff" poweroffBase 0x34,
    sysconAction "reboot" "syscon-reboot" rebootBase 0x1]++
  (inputs.serial.map fun serial => serialNode serial (interruptRouting ioapicPhandle [4,1])).toList++
  inputs.virtio.mapIdx fun i v => virtioNode v (interruptRouting ioapicPhandle [16+i,1])

/-- `GIC_DIST_BASE`. -/
def gicDistBase : ℕ := 0x08000000

/-- `GIC_DIST_SIZE` and `GIC_MSI_SIZE`. -/
def gicPageSize : ℕ := 0x10000

/-- `GIC_REDIST_BASE`. -/
def gicRedistBase : ℕ := 0x08100000

/-- `GIC_REDIST_SIZE`. -/
def gicRedistSize : ℕ := 0x02000000

/-- `GIC_MSI_BASE`. -/
def gicMsiBase : ℕ := 0x0A100000

/-- `INTC_PHANDLE`. -/
def intcPhandle : ℕ := 1

/-- `V2M_PHANDLE`. -/
def v2mPhandle : ℕ := 3

/-- The fixed devices of aarch64: GIC distributor, redistributor and MSI frame. -/
def aarch64Reserved : List Range :=
  [⟨gicDistBase,gicDistBase+gicPageSize⟩,⟨gicRedistBase,gicRedistBase+gicRedistSize⟩,
    ⟨gicMsiBase,gicMsiBase+gicPageSize⟩]

/-- The platform of aarch64. -/
def aarch64Platform (inputs : Inputs) : List Node :=
  [.mk (unitName "interrupt-controller" gicDistBase) [propertyString "compatible" "arm,gic-v3",
      propertyU32 "#interrupt-cells" 3,propertyNull "interrupt-controller",
      propertyArrayU32 "reg" (cells64 gicDistBase++cells64 gicPageSize++cells64 gicRedistBase++
        cells64 gicRedistSize),propertyPhandle intcPhandle] [],
    .mk (unitName "msi-controller" gicMsiBase) [propertyString "compatible" "arm,gic-v2m-frame",
      propertyNull "msi-controller",regProperty gicMsiBase gicPageSize,
      propertyU32 "arm,msi-base-spi" 64,propertyU32 "arm,msi-num-spis" 32,
      propertyPhandle v2mPhandle] [],
    .mk "timer" [propertyString "compatible" "arm,armv8-timer",
      propertyArrayU32 "interrupts" [1,13,0xff08,1,14,0xff08,1,11,0xff08,1,10,0xff08],
      propertyU32 "interrupt-parent" intcPhandle,propertyNull "always-on"] [],
    .mk "psci" [propertyStringList "compatible" ["arm,psci-1.0","arm,psci-0.2"],
      propertyString "method" "hvc"] []]++
  (inputs.serial.map fun serial => serialNode serial (interruptRouting intcPhandle [0,1,4])).toList++
  inputs.virtio.mapIdx fun i v => virtioNode v (interruptRouting intcPhandle [0,16+i,1])

/-- The fixed devices of an architecture. -/
def archReserved : Arch → List Range
  | .x86_64 => x86Reserved
  | .aarch64 => aarch64Reserved

/-- The platform of an architecture. -/
def addPlatform (inputs : Inputs) : List Node :=
  match inputs.arch with
  | .x86_64 => x86Platform inputs
  | .aarch64 => aarch64Platform inputs

/-- The PCIe host bridge: its ECAM and one 64-bit window, mapped one to one. -/
def pciNode (arch : Arch) (ecam window : Range) : Node :=
  .mk (unitName "pcie" ecam.start) ([propertyString "compatible" "pci-host-ecam-generic",
    propertyString "device_type" "pci",regProperty ecam.start (sizeOf ecam),
    propertyArrayU32 "bus-range" [0,ecamBuses-1],propertyU32 "#address-cells" 3,
    propertyU32 "#size-cells" 2,
    propertyArrayU32 "ranges" ([pciMem64]++cells64 window.start++cells64 window.start++
      cells64 (sizeOf window))]++
    if arch=.aarch64 then [propertyNull "dma-coherent",propertyU32 "msi-parent" v2mPhandle]
    else []) []

/-- The host bridge is present when both of its ranges are. -/
def pciNodes (inputs : Inputs) : List Node :=
  match inputs.ecam,inputs.pciWindow with
  | some ecam,some window => [pciNode inputs.arch ecam window]
  | _,_ => []

/-- The whole tree. -/
def tree (inputs : Inputs) : Node :=
  .mk "" [propertyU32 "#address-cells" 2,propertyU32 "#size-cells" 2,
    propertyString "model" "Arma Virtual Platform",propertyStringList "compatible" ["arma,v1"]]
    (chosenNode inputs::(aliasesNode inputs++addPlatform inputs++pciNodes inputs))

end Arma.BaseDtb
