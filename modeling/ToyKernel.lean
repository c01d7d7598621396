import ToyKernel.Library.Result
import ToyKernel.Library.Memory
import ToyKernel.Library.Tiling
import ToyKernel.Library.Run
import ToyKernel.Library.Occurrences
import ToyKernel.Allocator.Model
import ToyKernel.Allocator.Chunks
import ToyKernel.Allocator.Malloc
import ToyKernel.Allocator.Free
import ToyKernel.Allocator.Runs
import ToyKernel.Paging.BitArray
import ToyKernel.Paging.Model
import ToyKernel.Paging.Effects
import ToyKernel.Paging.Counting
import ToyKernel.Paging.Invariants
import ToyKernel.Paging.Runs
import ToyKernel.Kernel.Model
import ToyKernel.Kernel.Edits
import ToyKernel.Kernel.Calls
import ToyKernel.Kernel.Isolation
import ToyKernel.Kernel.Exposure
import ToyKernel.Kernel.Coherence
import ToyKernel.Kernel.Pointers
import ToyKernel.Library.LinkedList
import ToyKernel.Scheduler.Model
import ToyKernel.Scheduler.Queue
import ToyKernel.Library.Stack
import ToyKernel.Scheduler.Machine
import ToyKernel.Scheduler.Frames
import ToyKernel.Scheduler.RoundTrip
import ToyKernel.Vfs.Model
import ToyKernel.Vfs.Nodes
import ToyKernel.Vfs.Walk
import ToyKernel.Vfs.Runs
import ToyKernel.Vfs.Invariants
import ToyKernel.Vfs.Lookup
import ToyKernel.Vfs.Agreement
import ToyKernel.Vfs.Resolution
import ToyKernel.Containers.BitVector
import ToyKernel.Library.Buffer
import ToyKernel.Containers.StdString
import ToyKernel.Containers.StdVector
import ToyKernel.Loader.Arguments
import ToyKernel.Loader.Elf
import ToyKernel.Kernel.HeapGrowth
import ToyKernel.Paging.References
import ToyKernel.Allocator.FirstFit
import ToyKernel.Allocator.Resize
import ToyKernel.Allocator.Overflow
import ToyKernel.Vfs.Archive
import ToyKernel.Kernel.Family
import ToyKernel.Library.Forest
import ToyKernel.Vfs.Trees
import ToyKernel.Vfs.RoundTrip
import ToyKernel.Kernel.Copies
import ToyKernel.Scheduler.Construction
import ToyKernel.Kernel.Separation
import ToyKernel.Scheduler.Loading
import ToyKernel.Scheduler.FirstRun
import ToyKernel.Loader.Program
import ToyKernel.Vfs.Files
import ToyKernel.Vfs.Names
import ToyKernel.Scheduler.RoundRobin
import ToyKernel.Kernel.Pages
import ToyKernel.Kernel.TaskCopies
import ToyKernel.Kernel.Creation
import ToyKernel.Kernel.Children
import ToyKernel.Kernel.Initrd
import ToyKernel.Containers.BitGrowth
import ToyKernel.Library.Numerals
import ToyKernel.Loader.ArgumentBounds
import ToyKernel.Print.Model
import ToyKernel.Print.Format
import ToyKernel.Libc.Strings
import ToyKernel.Containers.StringAppend
import ToyKernel.Libc.Start
import ToyKernel.Vfs.WorkingDirectory
import ToyKernel.Containers.Capacity
import ToyKernel.Paging.BitSets
import ToyKernel.Vfs.SimplifyName
import ToyKernel.Libc.Printf
import ToyKernel.Library.Division
import ToyKernel.Print.Division
import ToyKernel.Userboot.Shell
import ToyKernel.Scheduler.Interrupts
import ToyKernel.Scheduler.SystemCalls
import ToyKernel.Kernel.FreePages
import ToyKernel.Allocator.UserHeap
import ToyKernel.Libc.Memmove
import ToyKernel.Containers.HeapStrings
import ToyKernel.Containers.StringCalls
import ToyKernel.Kernel.Startup
