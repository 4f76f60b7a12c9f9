import Kruspix.Lib.Transition
import Kruspix.Mm.Memory
import Kruspix.Mm.MemoryRounds
import Kruspix.Drivers.Mailbox
import Kruspix.Lib.Bitmap
import Kruspix.Lib.WordMemory
import Kruspix.Mm.FrameAllocator
import Kruspix.Mm.FrameSet
import Kruspix.Lib.Radix
import Kruspix.Mm.Layout
import Kruspix.Mm.PageFrames
import Kruspix.Arch.Mmu.Descriptor
import Kruspix.Arch.Mmu.Map
import Kruspix.Arch.Mmu.Walk
import Kruspix.Arch.Mmu.Create
import Kruspix.Arch.Mmu.Mapping
import Kruspix.Arch.Mmu.Setup
import Kruspix.Arch.Mmu.Mappings
import Kruspix.Mm.HeapAllocator
import Kruspix.Lib.Blocks
import Kruspix.Lib.FreeList
import Kruspix.Mm.HeapMemory
import Kruspix.Mm.HeapPages
import Kruspix.Mm.HeapLists
import Kruspix.Mm.HeapBlocks
import Kruspix.Mm.HeapRuns
import Kruspix.Lib.Iterator
import Kruspix.Kernel.Devicetree.Cursor
import Kruspix.Kernel.Devicetree.Fdt.StructureBlock
import Kruspix.Kernel.Sched
import Kruspix.Kernel.SchedRounds
import Kruspix.Kernel.Devicetree.Node
import Kruspix.Kernel.Devicetree.DeviceTree
import Kruspix.Kernel.Irq
import Kruspix.Drivers.InterruptController
import Kruspix.Drivers.RpiFirmware
import Kruspix.Drivers.Usb.Channel
import Kruspix.Drivers.Usb.InterruptIn
import Kruspix.Drivers.Usb.InterruptPhases
import Kruspix.Drivers.Usb.BufferRelease
import Kruspix.Drivers.Usb.TransferLength
import Kruspix.Drivers.Usb.DataToggle
import Kruspix.Lib.Preemption
import Kruspix.Lib.PreemptionSafety
import Kruspix.Kernel.LockOrder
import Kruspix.Kernel.LockSafety
import Kruspix.Kernel.Devicetree.Fdt.RawNode
import Kruspix.Kernel.Devicetree.Fdt.RawProp
import Kruspix.Kernel.Devicetree.Fdt
import Kruspix.Kernel.Devicetree.FromFdt
import Kruspix.Kernel.Devicetree.BlockEvents
import Kruspix.Kernel.Devicetree.TreeNodes
import Kruspix.Kernel.Devicetree.Parse
import Kruspix.Kernel.Devicetree.Blob
import Kruspix.Kernel.Devicetree.NodeProps
import Kruspix.Kernel.Devicetree.ResolveNode
import Kruspix.Kernel.Devicetree.NodeByPath
import Kruspix.Kernel.Devicetree.Paths
import Kruspix.Kernel.Devicetree.ResolveFdt
import Kruspix.Kernel.Devicetree.ParsedNode
import Kruspix.Kernel.Devicetree.Resolvers
import Kruspix.Mm.MemoryCuts
import Kruspix.Mm.MemoryCover
import Kruspix.Mm.MemoryPieces
import Kruspix.Mm.MemorySplits
import Kruspix.Kernel.Devicetree.Decodable
import Kruspix.Kernel.Devicetree.Sites
import Kruspix.Kernel.Devicetree.Cuts
import Kruspix.Kernel.Devicetree.Reordered
import Kruspix.Lib.LeastClosed
import Kruspix.Drivers.PlatformDrivers
import Kruspix.Common.RingArray
import Kruspix.Kernel.Console
import Kruspix.Lib.Loop
import Kruspix.Drivers.Display.Drawing
import Kruspix.Drivers.Dma.Transfer
import Kruspix.Drivers.Display.FbConsole
import Kruspix.Drivers.Display.Scroll
import Kruspix.Drivers.Display.Terminal
import Kruspix.Drivers.Display.TerminalRefinement
import Kruspix.Drivers.Dma.Bcm2835Dma
import Kruspix.Drivers.Dma.StaleResults
import Kruspix.Drivers.Dma.FailedTransfers
import Kruspix.Drivers.PendingInterrupt
import Kruspix.Drivers.Usb.ControlTransfer
import Kruspix.Drivers.Usb.Keyboard
import Kruspix.Drivers.Usb.KeyboardRepeat
import Kruspix.Drivers.Watchdog.Bcm2835Pm
import Kruspix.Lib.Locking
import Kruspix.Kernel.Shell
import Kruspix.Kernel.ShellSafety
import Kruspix.Kernel.ShellRuns
import Kruspix.Drivers.Display.Bcm2708Fb
import Kruspix.Drivers.Display.PixelAddresses
import Kruspix.Kernel.Devicetree.FdtMemory
import Kruspix.Kernel.Devicetree.RegPairs
import Kruspix.Kernel.Devicetree.ParseMemory
import Kruspix.Kernel.Devicetree.WrittenBlob
import Kruspix.Kernel.Devicetree.ReservedMemory
import Kruspix.Kernel.Devicetree.NodePaths
import Kruspix.Kernel.Devicetree.PathAgreement
import Kruspix.Drivers.DeviceManager
import Kruspix.Drivers.Registrations
import Kruspix.Kernel.TickConversion
import Kruspix.Kernel.Waiting
import Kruspix.Common.RingQueue
import Kruspix.Drivers.Timers
import Kruspix.Drivers.Usb.Descriptors
import Kruspix.Drivers.Usb.KeyboardInterface
import Kruspix.Drivers.Usb.KeyboardMeaning
import Kruspix.Drivers.Usb.KeyboardTiming
import Kruspix.Drivers.Display.Clamping
import Kruspix.Drivers.MessageAddress
import Kruspix.Drivers.InterruptLines
import Kruspix.Kernel.Devicetree.StringList
import Kruspix.Drivers.IoWindow
import Kruspix.Drivers.Watchdog.Countdown
import Kruspix.Kernel.SpinLock
import Kruspix.Kernel.TimeRegistry
import Kruspix.Drivers.TimerSetup
import Kruspix.Lib.ArrayWriter
import Kruspix.Drivers.PropertyMessage
import Kruspix.Lib.BlockPool
import Kruspix.Mm.HeapClasses
import Kruspix.Lib.A64.Machine
import Kruspix.Lib.A64.Run
import Kruspix.Arch.Boot.EarlyMmu
import Kruspix.Arch.Boot.StartKernel
import Kruspix.Arch.Context
import Kruspix.Arch.IrqEntry
import Kruspix.Kernel.Multitasking
import Kruspix.Kernel.TaskIsolation
import Kruspix.Drivers.Display.LinePage
import Kruspix.Drivers.InterruptDelivery
import Kruspix.Drivers.LocalInterrupts
import Kruspix.Kernel.LineDelivery
import Kruspix.Kernel.LineEcho
import Kruspix.Kernel.MutualExclusion
import Kruspix.Kernel.OnceLock
import Kruspix.Arch.DataCache
import Kruspix.Drivers.MessageCoherence
import Kruspix.Drivers.Usb.DmaBuffer
