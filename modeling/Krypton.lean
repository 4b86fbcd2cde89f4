import Krypton.Lib.Linked
import Krypton.Lib.Reach
import Krypton.Lib.Flags
import Krypton.Lib.Words
import Krypton.Lib.Tiling
import Krypton.Lib.Traced
import Krypton.Lib.PagedStack
import Krypton.Lib.Numeral
import Krypton.Lib.Pic
import Krypton.ExecList
import Krypton.ExecListRep
import Krypton.ExecListOps
import Krypton.ExecListRun
import Krypton.ExecListTail
import Krypton.ExecListTyped
import Krypton.Sys
import Krypton.Thread
import Krypton.Message
import Krypton.Entry
import Krypton.Machine
import Krypton.Objects
import Krypton.History
import Krypton.Sound
import Krypton.Handlers
import Krypton.Interrupts
import Krypton.Context
import Krypton.Steady
import Krypton.Boot
import Krypton.Leaving
import Krypton.Stable
import Krypton.Nesting
import Krypton.Runs
import Krypton.Queues
import Krypton.Placement
import Krypton.Settled
import Krypton.SchedRun
import Krypton.Blocking
import Krypton.Forbid
import Krypton.TimeSlice
import Krypton.FreshSlice
import Krypton.Lined
import Krypton.Signals
import Krypton.Priority
import Krypton.PortCount
import Krypton.Delivery
import Krypton.KernelPort
import Krypton.RoundRobin
import Krypton.WakeUp
import Krypton.Mmu
import Krypton.Paging
import Krypton.Rights
import Krypton.Clone
import Krypton.Pmm
import Krypton.FreePages
import Krypton.Heap
import Krypton.HeapRep
import Krypton.HeapOps
import Krypton.HeapRun
import Krypton.HeapLaws
import Krypton.HeapLinks
import Krypton.HeapNull
import Krypton.KernelImage
import Krypton.PageCount
import Krypton.Exhaustion
import Krypton.StackSlots
import Krypton.MemoryMap
import Krypton.Ingest
import Krypton.VirtualBytes
import Krypton.PagedHeap
import Krypton.KeptFrames
import Krypton.PagedHeapRep
import Krypton.PagedHeapOps
import Krypton.PagedHeapCalls
import Krypton.PagedHeapBoot
import Krypton.PagedHeapRun
import Krypton.PagedHeapLinks
import Krypton.PagedHeapSizes
import Krypton.Launch
import Krypton.Gdt
import Krypton.CallFrame
import Krypton.Monitor
import Krypton.Sheet
import Krypton.BootCursor
import Krypton.Names
import Krypton.Gates
import Krypton.Unprivileged
import Krypton.Vsprintf
import Krypton.NumberText
import Krypton.Directives
import Krypton.MonitorNumbers
import Krypton.Kprintf
import Krypton.Irq
import Krypton.OwnPort
import Krypton.Keyboard
