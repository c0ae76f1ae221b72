import Pomelo.Lib.Run
import Pomelo.Lib.Loop
import Pomelo.Lib.ListSeg
import Pomelo.Lib.Extent
import Pomelo.Lib.OrderedMap
import Pomelo.Lib.Keyed
import Pomelo.Lib.FreshMap
import Pomelo.Lib.Refine
import Pomelo.Memory.Kmm
import Pomelo.Memory.KmmHeader
import Pomelo.Memory.KmmList
import Pomelo.Memory.KmmFree
import Pomelo.Memory.KmmRun
import Pomelo.Memory.KmmOverlap
import Pomelo.Memory.KmmCoverage
import Pomelo.Memory.KmmLinks
import Pomelo.Memory.KmmRelink
import Pomelo.Memory.KmmUndo
import Pomelo.Memory.KmmWalks
import Pomelo.Memory.PageSlice
import Pomelo.Memory.Virt
import Pomelo.Memory.VirtLayout
import Pomelo.Memory.VirtFlat
import Pomelo.Memory.VirtWrite
import Pomelo.Memory.VirtArith
import Pomelo.Memory.VirtLookup
import Pomelo.Ipc.Message
import Pomelo.Ipc.Grammar
import Pomelo.Ipc.Codec
import Pomelo.Ipc.RoundTrip
import Pomelo.Ipc.Decoders
import Pomelo.Ipc.Accepts
import Pomelo.Kernel.ObjectTable
import Pomelo.Kernel.HandleMap
import Pomelo.Kernel.Object
import Pomelo.Kernel.State
import Pomelo.Kernel.Calls
import Pomelo.Kernel.Translate
import Pomelo.Kernel.TranslateMessage
import Pomelo.Kernel.Sleep
import Pomelo.Kernel.WakeOnce
import Pomelo.Hle.Sync
import Pomelo.Hle.Svc
import Pomelo.Hle.SvcCases
import Pomelo.Hle.System
import Pomelo.Kernel.HandleTurns
import Pomelo.Memory.KmmRegions
import Pomelo.Memory.KmmInfluence
import Pomelo.Hle.View
import Pomelo.Hle.Quiet
import Pomelo.Hle.Moves
import Pomelo.Hle.Waits
import Pomelo.Hle.ObjectCalls
import Pomelo.Hle.CallLog
import Pomelo.Hle.Mutex
import Pomelo.Hle.Signals
import Pomelo.Hle.Timers
import Pomelo.Hle.SvcMoves
import Pomelo.Hle.StepMoves
import Pomelo.Hle.LiveWakers
import Pomelo.Hle.Timeouts
import Pomelo.Hle.WaitAny
import Pomelo.Hle.Arbiter
import Pomelo.Hle.Queues
import Pomelo.Hle.EndPair
import Pomelo.Hle.Port
import Pomelo.Hle.Session
import Pomelo.Hle.Delivery
import Pomelo.Hle.Unserved
import Pomelo.Hle.LostWake
import Pomelo.Hle.Srv
import Pomelo.Hle.SrvNames
import Pomelo.Hle.SrvLookup
import Pomelo.Guest.CommandBuffer
import Pomelo.Guest.Tls
import Pomelo.Guest.DynarmicMemory
import Pomelo.Guest.DynarmicGuest
import Pomelo.Hle.Primitives
import Pomelo.Hle.WakeKeys
import Pomelo.Hle.Scheduler
import Pomelo.Guest.Slots
import Pomelo.Hle.TracedRuns
import Pomelo.Hle.Awaits
import Pomelo.Hle.Called
import Pomelo.Guest.HandleSvc
import Pomelo.Hle.Runtime
import Pomelo.Guest.HandleSvcCalls
import Pomelo.Guest.Machine
import Pomelo.Guest.GuestRuns
