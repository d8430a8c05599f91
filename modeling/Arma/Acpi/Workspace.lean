import Arma.Acpi.Capacity
import Arma.Acpi.Populate

/-!
# The size of the tables

What counting lays out is small when the tree has few devices: the cpus and the
domains are bounded by the vectors that hold them.
-/

namespace Arma.Acpi.Workspace

open Base.ArrayVec Base.ByteString Base.Checked Base.Writer Devtree Dtb Numbered Bridges Layout
  Sdt Fixed Tables Numa Serial Virtio Dsdt Spcr Count Counted Populate Capacity

variable [DevtreeLib]

end Arma.Acpi.Workspace
