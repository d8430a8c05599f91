import Arma.Acpi.Addresses
import Arma.Acpi.Aml
import Arma.Acpi.Bridges
import Arma.Acpi.Capacity
import Arma.Acpi.Collected
import Arma.Acpi.Console
import Arma.Acpi.Count
import Arma.Acpi.Counted
import Arma.Acpi.Dsdt
import Arma.Acpi.Dtb
import Arma.Acpi.Filled
import Arma.Acpi.Fixed
import Arma.Acpi.Image
import Arma.Acpi.Jobs
import Arma.Acpi.Layout
import Arma.Acpi.Lines
import Arma.Acpi.Madt
import Arma.Acpi.Names
import Arma.Acpi.Namespace
import Arma.Acpi.Numa
import Arma.Acpi.Numbered
import Arma.Acpi.Objects
import Arma.Acpi.Populate
import Arma.Acpi.Power
import Arma.Acpi.Ready
import Arma.Acpi.Sdt
import Arma.Acpi.Segments
import Arma.Acpi.Serial
import Arma.Acpi.Slit
import Arma.Acpi.Spcr
import Arma.Acpi.Srat
import Arma.Acpi.Strict
import Arma.Acpi.Tables
import Arma.Acpi.Templates
import Arma.Acpi.TwoTrees
import Arma.Acpi.Virtio
import Arma.Acpi.Workspace
import Arma.Base.Agreeing
import Arma.Base.ArrayVec
import Arma.Base.ByteString
import Arma.Base.Bytecode
import Arma.Base.Checked
import Arma.Base.Closure
import Arma.Base.Decimal
import Arma.Base.Effects
import Arma.Base.Frames
import Arma.Base.Intervals
import Arma.Base.Keyed
import Arma.Base.Ordered
import Arma.Base.Patch
import Arma.Base.Paths
import Arma.Base.ReprC
import Arma.Base.Resources
import Arma.Base.Tagged
import Arma.Base.Text
import Arma.Base.TwoRuns
import Arma.Base.Windows
import Arma.Base.Writer
import Arma.BaseDtb
import Arma.BaseDtb.Interrupts
import Arma.BaseDtb.Registers
import Arma.BootInfo
import Arma.Build
import Arma.Build.Board
import Arma.Build.Clean
import Arma.Build.Commit
import Arma.Build.Handoff
import Arma.Build.Header
import Arma.Build.Inputs
import Arma.Build.KernelFile
import Arma.Build.Launch
import Arma.Build.Mapped
import Arma.Build.Regions
import Arma.Build.Retune
import Arma.Build.Run
import Arma.Check
import Arma.Check.Board
import Arma.Check.Clean
import Arma.Check.Disjoint
import Arma.Check.Image
import Arma.Cmdline
import Arma.Devtree
import Arma.Devtree.Merge
import Arma.Devtree.Names
import Arma.Initrd.Archive
import Arma.Initrd.Grammar
import Arma.Initrd.Materialize
import Arma.Initrd.Newc
import Arma.Initrd.Sizes
import Arma.Kernel.Appended
import Arma.Kernel.CommandLine
import Arma.Kernel.Config
import Arma.Kernel.Coverage
import Arma.Kernel.Detect
import Arma.Kernel.Extract
import Arma.Kernel.Image
import Arma.Kernel.Loading
import Arma.Kernel.Release
import Arma.Kernel.Relink
import Arma.Kernel.RelocTable
import Arma.Kernel.Support
import Arma.Kernel.Uki
import Arma.Kernel.Unwrap
import Arma.Manifest
import Arma.Modules.Dependencies
import Arma.Modules.Index
import Arma.Modules.Packing
import Arma.Modules.Resolve
import Arma.Modules.Selected
import Arma.Pe.Capacity
import Arma.Pe.Complete
import Arma.Pe.Granularity
import Arma.Pe.RoundTrip
import Arma.Pe.Words
import Arma.Pe.Writer
import Arma.Planner.Bound
import Arma.Planner.Devices
import Arma.Planner.Model
import Arma.Planner.Payloads
import Arma.Planner.Safety
import Arma.Planner.Search
import Arma.Planner.Separation
import Arma.Tatu.Affinity
import Arma.Tatu.ArmHandover
import Arma.Tatu.BootMem
import Arma.Tatu.BootParams
import Arma.Tatu.ConfigSpace
import Arma.Tatu.CpuRoom
import Arma.Tatu.DeviceSpace
import Arma.Tatu.Devices
import Arma.Tatu.E820
import Arma.Tatu.Handles
import Arma.Tatu.Handover
import Arma.Tatu.Kaslr
import Arma.Tatu.KaslrWindow
import Arma.Tatu.Lifecycle
import Arma.Tatu.MemoryMap
import Arma.Tatu.Overlay
import Arma.Tatu.Seed
import Arma.Tatu.Validate
import Arma.TatuImage
