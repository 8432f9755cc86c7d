import Newrex.Lib.LittleEndian
import Newrex.Lib.Bitmap
import Newrex.Lib.Transition
import Newrex.Lib.Search
import Newrex.Lib.Ownership
import Newrex.Console
import Newrex.Disk
import Newrex.RexFS.Basic
import Newrex.RexFS.Blocks
import Newrex.RexFS.Payload
import Newrex.RexFS.Commands
import Newrex.RexFS.Frees
import Newrex.RexFS.Ownership
import Newrex.RexFS.Files
import Newrex.RexFS.Rejection
import Newrex.Lib.Forest
import Newrex.RexFS.Tree
import Newrex.Lib.BlockList
import Newrex.Lib.Packing
import Newrex.Lib.Interrupt
import Newrex.Trace
import Newrex.Heap.Basic
import Newrex.Heap.Invariant
import Newrex.Lib.Ring
import Newrex.Lib.Stack
import Newrex.Sched.Basic
import Newrex.Sched.Switch
import Newrex.Sched.Create
import Newrex.Sched.Runs
import Newrex.Sched.Context
import Newrex.Sched.Stores
import Newrex.Sched.Interference
import Newrex.Sched.Interrupted
import Newrex.Net.Basic
import Newrex.Net.Tcp
import Newrex.Net.Connection
import Newrex.Pmm.Basic
import Newrex.Pmm.Runs
import Newrex.RexFS.Coherence
import Newrex.Lib.WriteLog
import Newrex.RexFS.Crash
import Newrex.RexFS.Names
import Newrex.Shell.Storage
import Newrex.Terminal.Basic
import Newrex.Terminal.LineEditor
import Newrex.Terminal.Submission
import Newrex.Net.Handlers
import Newrex.Net.Checksum
import Newrex.Net.Frames
import Newrex.Net.Stale
import Newrex.Lib.RecordRing
import Newrex.Net.Receive
import Newrex.Lib.X86
import Newrex.Hal.Gdt
import Newrex.RexFS.Hex
import Newrex.Pmm.Usable
import Newrex.RexFS.CrashOrder
import Newrex.Lib.AccessLog
import Newrex.RexFS.Accesses
import Newrex.RexFS.Sectors
import Newrex.RexFS.Bounds
import Newrex.Exec.Basic
import Newrex.Exec.Load
import Newrex.Exec.Memory
import Newrex.Mm.Vmm
import Newrex.Net.Acknowledge
import Newrex.RexFS.OutOfSpace
import Newrex.Exec.Exhaustion
import Newrex.Net.Echo
import Newrex.Pmm.Complete
import Newrex.Pmm.StrayFrees
import Newrex.RexFS.DataArea
import Newrex.RexFS.Capacity
import Newrex.Heap.Release
import Newrex.Sched.RoundRobin
import Newrex.Lib.SlotTable
import Newrex.Net.ArpCache
import Newrex.Net.Unreachable
import Newrex.Lib.CircularLog
import Newrex.Shell.TraceCommand
import Newrex.Pci.Scan
import Newrex.Lib.TextPage
import Newrex.Terminal.Scrollback
import Newrex.Net.Commands
import Newrex.Lib.Framing
import Newrex.Gui.Mouse
import Newrex.Rtc.Clock
import Newrex.Lib.OnesComplement
import Newrex.Net.Rfc1071
import Newrex.RexFS.Allocation
import Newrex.RexFS.HexLoop
import Newrex.Lib.Numeral
import Newrex.Shell.HexNumbers
import Newrex.Lib.PortIO
import Newrex.Ata.Drive
import Newrex.Ata.Driver
import Newrex.Ata.Session
import Newrex.Ata.RexFS
import Newrex.Lib.Painting
import Newrex.Gui.Render
import Newrex.Gui.CommandLine
import Newrex.Lib.Refresh
import Newrex.Gui.Desktop
import Newrex.Lib.Pic
import Newrex.Lib.Handlers
import Newrex.Hal.Idt
import Newrex.Hal.Interrupts
import Newrex.Lib.Dispatch
import Newrex.Shell.Dispatch
import Newrex.Lib.Fields
import Newrex.Lib.StringMemory
import Newrex.Shell.MemoryCommands
