import Vmill.Theorems.Caches
import Vmill.Theorems.Memory
import Vmill.Theorems.Ranges
import Vmill.Theorems.Lifting
import Vmill.Theorems.Marks
import Vmill.Theorems.Atomic
import Vmill.Theorems.Intrinsics
import Vmill.Theorems.WholePages
import Vmill.Theorems.Protect
import Vmill.Theorems.Allocators
import Vmill.Theorems.Mapped
import Vmill.Theorems.Status
import Vmill.Theorems.WakeOp
import Vmill.Theorems.Log
import Vmill.Theorems.Switch
import Vmill.Theorems.Gaps
import Vmill.Theorems.Kill
import Vmill.Theorems.MmapCall
import Vmill.Theorems.Resume
import Vmill.Theorems.Clone
import Vmill.Theorems.Vector
import Vmill.Theorems.CacheIndex
import Vmill.Theorems.Lifter
import Vmill.Theorems.Shadow
import Vmill.Theorems.SystemCallABI
import Vmill.Theorems.PathAt
import Vmill.Theorems.RecvFrom
import Vmill.Theorems.GetDents
import Vmill.Theorems.RecvMsg
import Vmill.Theorems.TypedReads
import Vmill.Theorems.ShadowPages
import Vmill.Theorems.Taint
import Vmill.Theorems.PageRanges
import Vmill.Theorems.BranchCoverage
