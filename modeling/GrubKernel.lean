import GrubKernel.Bitmap.Bounds
import GrubKernel.Bitmap.FrameSet
import GrubKernel.Collections.HeapList
import GrubKernel.Console.FormatEnd
import GrubKernel.Console.Screen
import GrubKernel.Heap.Break
import GrubKernel.Heap.Ceiling
import GrubKernel.Interrupts.Interleaving
import GrubKernel.Multiboot.Modules
import GrubKernel.Multiboot.Walk
import GrubKernel.Paging.AlignedFrames
import GrubKernel.Paging.Exhaustion
import GrubKernel.Pci.InitPcilist
import GrubKernel.Pci.MacAddress
import GrubKernel.Pci.RegisterWrites
import GrubKernel.PlacementMemory.Bounds
import GrubKernel.PlacementMemory.Collisions
import GrubKernel.PlacementMemory.Failure
import GrubKernel.PlacementMemory.Wrapping
import GrubKernel.Sorting.Agreement
import GrubKernel.Startup
import GrubKernel.Strings.Compare
import GrubKernel.Strings.Copy
import GrubKernel.Sorting.Offsets
