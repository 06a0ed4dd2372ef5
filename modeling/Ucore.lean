import Ucore.Library.BlockTiling
import Ucore.Library.CanonicalTiling
import Ucore.Library.Chain
import Ucore.Library.Circle
import Ucore.Library.Contents
import Ucore.Library.DeltaList
import Ucore.Library.DyadicTiling
import Ucore.Library.Linked
import Ucore.Library.Ownership
import Ucore.Library.Paste
import Ucore.Library.Preservation
import Ucore.Library.Program
import Ucore.Library.ReferenceCount
import Ucore.Library.Ring
import Ucore.Library.Run
import Ucore.Library.Simulation
import Ucore.Library.SkewHeap
import Ucore.Library.Threads
import Ucore.Library.TreeLinks
import Ucore.Memory.BestFit
import Ucore.Memory.BestFitChoice
import Ucore.Memory.BestFitOrder
import Ucore.Memory.BestFitRegions
import Ucore.Memory.BuddyAccounting
import Ucore.Memory.BuddyAllocation
import Ucore.Memory.BuddyBounds
import Ucore.Memory.BuddyCoalescing
import Ucore.Memory.BuddyCounters
import Ucore.Memory.BuddyInit
import Ucore.Memory.BuddyLists
import Ucore.Memory.BuddyPartition
import Ucore.Memory.BuddyShape
import Ucore.Memory.BuddySystem
import Ucore.Memory.FirstFit
import Ucore.Memory.FirstFitOrder
import Ucore.Memory.Kmalloc
import Ucore.Memory.KmallocRun
import Ucore.Memory.LowestFit
import Ucore.Memory.Page
import Ucore.Memory.Slob
import Ucore.Memory.SlobAlloc
import Ucore.Memory.SlobFree
import Ucore.Memory.SlobRun
import Ucore.Memory.Slub
import Ucore.Memory.SlubExhaustion
import Ucore.Memory.SlubOrder
import Ucore.Memory.SlubRuns
import Ucore.Memory.SlubSound
import Ucore.Vm.AddressSpace
import Ucore.Vm.CopyString
import Ucore.Vm.DefaultManager
import Ucore.Vm.EagerCopy
import Ucore.Vm.Mapping
import Ucore.Vm.PageBudget
import Ucore.Vm.PageMap
import Ucore.Vm.PageTable
import Ucore.Vm.PhysicalMemory
import Ucore.Vm.ReferenceCounts
import Ucore.Vm.ReferenceRun
import Ucore.Vm.UserAreas
import Ucore.Vm.UserMemory
import Ucore.Exec.ArgumentBlock
import Ucore.Exec.Arguments
import Ucore.Exec.Elf
import Ucore.Exec.LoadBudget
import Ucore.Exec.LoadIcode
import Ucore.Exec.Loading
import Ucore.Exec.Prepare
import Ucore.Exec.SegmentPages
import Ucore.Exec.Segments
import Ucore.Exec.Steady
import Ucore.Exec.Teardown
import Ucore.Exec.UserStack
import Ucore.Sched.RunQueue
import Ucore.Sched.SkewHeapLinks
import Ucore.Sched.Stride
import Ucore.Sched.StrideArrivals
import Ucore.Sched.StridePriority
import Ucore.Sched.StrideShares
import Ucore.Sched.Timer
import Ucore.Sched.TimerRun
import Ucore.Process.Calls
import Ucore.Process.ExitCalls
import Ucore.Process.Family
import Ucore.Process.FamilyTree
import Ucore.Process.ForkCalls
import Ucore.Process.Kernel
import Ucore.Process.KernelRun
import Ucore.Process.Kinship
import Ucore.Process.Soundness
import Ucore.Process.Standing
import Ucore.Process.Switching
import Ucore.Sync.Monitor
import Ucore.Sync.MonitorRun
import Ucore.Sync.Philosophers
import Ucore.Sync.PhilosophersCondvar
import Ucore.Sync.PhilosophersSema
import Ucore.Vfs.InodeLifetime
import Ucore.Files.Chunks
import Ucore.Files.DescriptorCalls
import Ucore.Files.DescriptorRun
import Ucore.Files.FdArray
import Ucore.Files.FdBalance
import Ucore.Files.FilesCount
import Ucore.Files.SysfileIo
import Ucore.Sfs.Apart
import Ucore.Sfs.BlockMap
import Ucore.Sfs.Blocks
import Ucore.Sfs.Directory
import Ucore.Sfs.Edits
import Ucore.Sfs.Extent
import Ucore.Sfs.File
import Ucore.Sfs.FileBytes
import Ucore.Sfs.FileStore
import Ucore.Sfs.Formatted
import Ucore.Sfs.Geometry
import Ucore.Sfs.Growth
import Ucore.Sfs.IoRules
import Ucore.Sfs.Keeping
import Ucore.Sfs.Layout
import Ucore.Sfs.Listing
import Ucore.Sfs.MapErrors
import Ucore.Sfs.MapRules
import Ucore.Sfs.Orderly
import Ucore.Sfs.Ownership
import Ucore.Sfs.Reading
import Ucore.Sfs.Remount
import Ucore.Sfs.Saving
import Ucore.Sfs.Shrink
import Ucore.Sfs.Volume
import Ucore.Sfs.VolumeRun
import Ucore.Sfs.WordMap
import Ucore.Mksfs.Append
import Ucore.Mksfs.AppendRule
import Ucore.Mksfs.Closing
import Ucore.Mksfs.Consistency
import Ucore.Mksfs.Contents
import Ucore.Mksfs.Directories
import Ucore.Mksfs.DirectoryListing
import Ucore.Mksfs.Entries
import Ucore.Mksfs.Host
import Ucore.Mksfs.HostStore
import Ucore.Mksfs.Image
import Ucore.Mksfs.Kernel
import Ucore.Mksfs.Links
import Ucore.Mksfs.Mounting
import Ucore.Mksfs.Numbers
import Ucore.Mksfs.Packing
import Ucore.Mksfs.Steps
import Ucore.Mksfs.Tables
import Ucore.Path.Borrowed
import Ucore.Path.Hierarchy
import Ucore.Path.Image
import Ucore.Path.Lookup
import Ucore.Path.Namefile
import Ucore.Path.Resolution
import Ucore.Path.Walk
import Ucore.Path.World
import Ucore.Devices.DeviceTree
import Ucore.Devices.Disk0
import Ucore.Devices.FlatTree
import Ucore.Devices.MemoryNodes
import Ucore.Devices.Stdin
import Ucore.Console.Numerals
import Ucore.Console.Printed
import Ucore.Console.Printfmt
import Ucore.Shell.Commands
import Ucore.Shell.Lexer
