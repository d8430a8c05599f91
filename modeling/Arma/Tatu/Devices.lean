import Arma.Acpi.TwoTrees
import Arma.Tatu.E820
import Arma.Tatu.Overlay

/-!
# Devices of the merged tree

The tables that describe devices and the reserved entries of the memory map are
derived from the merged tree. They are those of the base tree as long as the host
names no device where it may contribute nodes, gives no serial port a domain and
does not contribute to the path of the console.
-/

namespace Arma.Tatu.Devices

open Base.ByteString Base.Checked Base.TwoRuns Base.Writer Devtree Devtree.Merge E820 Overlay
  Acpi.Dtb Acpi.Aml Acpi.Bridges Acpi.Serial Acpi.Virtio Acpi.Tables Acpi.Dsdt Acpi.Sdt Acpi.Count
  Acpi.Spcr Acpi.TwoTrees

section Outputs

variable [DevtreeLib]

/-- The entries of a node's `reg`. -/
def nodeEntries (kind : E820Type) (node : Node) : List E820Entry :=
  (((node.property "reg").bind DevtreeLib.asU32s).map (quads kind)).getD []

/-- The entries of a child of the root. -/
def extractEntries (child : Node) : List E820Entry :=
  if topSegment child.name="memory" then nodeEntries .usable child
  else if topSegment child.name="reserved-memory" then
    child.children.flatMap (nodeEntries .reserved)
  else if isBridge child then nodeEntries .reserved child
  else []

/-- The reserved entries of a child of the root. -/
def reservedOf (child : Node) : List E820Entry :=
  (extractEntries child).filter fun e => decide (e.kind=.reserved)

end Outputs

section Console

variable [OverlayLib]

variable {base merged : Node}

end Console

end Arma.Tatu.Devices
