/-
  What the kernel does for its threads and processes (`KernelImpl`, `KernelExt`,
  `CommonThreadManager` and `WakerImpl` of `kernel/src/lib.rs`).

  `run_thread` runs the code of a thread between its two halves, `startThread` and
  `stopThread`. `exit_thread` ends with a call of the thread's object; `finishThread` is the
  part before it.
-/
import Pomelo.Kernel.State

namespace Pomelo

open Lib

namespace Kernel

/-! ## Objects and handles -/

/-- `new_object`. -/
def newObject (k : Kernel) (data : KObject) : ObjId × Kernel :=
  (k.objects.length, { k with objects := k.objects ++ [some data] })

def newHandle (rng : Nat → UInt32) (fuel : Nat) (k : Kernel) (obj : ObjId) :
    Exec (Handle × Kernel) := do
  let process ← k.currentProcess
  let (handle, process) ← process.newHandle rng fuel obj
  return (handle, k.setProcess process)

def lookupHandle (k : Kernel) (handle : Handle) : Exec (Option ObjId) := do
  let process ← k.currentProcess
  return process.lookupHandle handle

/-- `handle.as_ref().and_then(|h| kctx.lookup_handle(h))`. -/
def lookupOptHandle (k : Kernel) : Option Handle → Exec (Option ObjId)
  | none => return none
  | some handle => k.lookupHandle handle

def newObjectHandle (rng : Nat → UInt32) (fuel : Nat) (k : Kernel) (data : KObject) :
    Exec (ObjId × Handle × Kernel) := do
  let (obj, k) := k.newObject data
  let (handle, k) ← k.newHandle rng fuel obj
  return (obj, handle, k)

/-! ## Processes and threads -/

/-- `new_process_boxed`. -/
def newProcess (k : Kernel) (process : Process) : Exec (ProcessId × Kernel) := do
  let pid := k.nextPid
  let nextPid ← addU32 pid 1
  return (pid, { k with
    nextPid := nextPid
    processes := k.processes ++ [⟨pid, ObjectTable.new, process⟩] })

/-- `new_thread_boxed`. -/
def newThread (k : Kernel) (pid : ProcessId) : Exec (ThreadIndex × ObjId × Kernel) := do
  let tid := k.nextTid
  let nextTid ← addU32 tid 1
  let (kobj, k) := k.newObject (.thread (ThreadImpl.new tid))
  return (tid, kobj, { k with
    nextTid := nextTid
    threads := k.threads ++ [CommonThread.new pid tid kobj]
    threadBoxes := k.threadBoxes ++ [(tid, true)] })

def createThread (rng : Nat → UInt32) (fuel : Nat) (k : Kernel) :
    Exec (ThreadIndex × Handle × Kernel) := do
  let (pid, _) ← k.currentPidTid
  let process ← Outcome.expect (k.process? pid) (.expect "Couldn't find Box<Process>")
  process.process.initThread
  let (index, object, k) ← k.newThread pid
  let (handle, k) ← k.newHandle rng fuel object
  return (index, handle, k)

/-- `next_thread`: the first thread that is ready. -/
def nextThread (k : Kernel) : Option ThreadIndex :=
  (k.threads.find? fun thread => thread.state = .ready).map CommonThread.index

/-- `schedule_next`. -/
def scheduleNext (k : Kernel) (thread : ThreadIndex) : Kernel := { k with next := some thread }

/-- `take_thread_box`. -/
def takeThreadBox (k : Kernel) (tid : ThreadIndex) : Exec Kernel := do
  let box ← Outcome.expect (findKey Prod.fst tid k.threadBoxes)
    (.expect "Couldn't find Box<Thread>")
  Outcome.assert box.2 (.expect ("Thread is locked outside, unavailable to kernel. " ++
    "This means we have reentrant thread execution"))
  return { k with threadBoxes := modifyKey Prod.fst tid (fun _ => (tid, false)) k.threadBoxes }

/-- `replace_thread_box`. -/
def replaceThreadBox (k : Kernel) (tid : ThreadIndex) : Exec Kernel := do
  let box ← Outcome.expect (findKey Prod.fst tid k.threadBoxes)
    (.expect "Couldn't find Box<Thread>")
  Outcome.assert (!box.2)
    (.panic "Replacing thread box when thread is already available to kernel")
  return { k with threadBoxes := modifyKey Prod.fst tid (fun _ => (tid, true)) k.threadBoxes }

/-- `run_thread` up to the code of the thread: what the thread resumes with. -/
def startThread (k : Kernel) (index : ThreadIndex) : Exec (ThreadResume × Kernel) := do
  let thread ← k.findThread index
  Outcome.assert (decide (thread.state = .ready)) (.assertion "thread.state == ThreadState::Ready")
  let k := k.setThread { thread with state := .running, resume := .normal }
  let _ ← k.findCommonProcess thread.pid
  let k := { k with current := some (thread.pid, index) }
  let k ← k.takeThreadBox index
  return (thread.resume, k)

/-- `run_thread` from where the code of the thread returns. -/
def stopThread (k : Kernel) (index : ThreadIndex) : Exec Kernel := do
  let k ← k.replaceThreadBox index
  let current ← Outcome.expect k.current (.expect "Current execution thread is gone")
  let thread ← k.findThread current.2
  let thread := if thread.state = .running then { thread with state := .ready } else thread
  let _ ← k.findCommonProcess thread.pid
  let k := k.setThread thread
  return { k with current := none }

/-- `run_next` up to the code of the thread: which thread runs, and what it resumes with. -/
def runNext (k : Kernel) : Exec (Option (ThreadIndex × ThreadResume) × Kernel) :=
  match k.next.or k.nextThread with
  | some index => do
    let (resume, k) ← { k with next := none }.startThread index
    return (some (index, resume), k)
  | none => return (none, k)

/-- `exit_thread`, without the call of the thread's object. -/
def finishThread (k : Kernel) : Exec (ObjId × Kernel) := do
  let (_, tid) ← k.currentPidTid
  let thread ← k.findThread tid
  return (thread.kobj, k.setThread { thread with state := .done })

def setThreadIpcData (k : Kernel) (data : List UInt8) : Exec Kernel := do
  let (_, tid) ← k.currentPidTid
  let thread ← k.findThread tid
  return k.setThread { thread with ipcData := data }

def getThreadIpcData (k : Kernel) : Exec (List UInt8) := do
  let (_, tid) ← k.currentPidTid
  let thread ← k.findThread tid
  return thread.ipcData

/-! ## Sleep and wake-up -/

/-- `suspend_thread`: the current thread waits, and the waker that wakes it. -/
def suspendThread (k : Kernel) (objects : List ObjId) (timeout : Option UInt64)
    (waitType : ThreadWaitType) : Exec (Waker × Kernel) := do
  let (_, tid) ← k.currentPidTid
  let thread ← k.findThread tid
  let thread ← thread.wait objects
  let thread := { thread with waitTimeout := timeout, waitType := some waitType }
  return (⟨thread.index, thread.wakeKey⟩, k.setThread thread)

/-- `wake_up_thread`. -/
def wakeUpThread (k : Kernel) (index : ThreadIndex) (key : UInt64) (object : ObjId) :
    Exec (Bool × Kernel) := do
  let thread ← k.findThread index
  if thread.wakeKey = key then do
    let (thread, objects) ← thread.wakeUp (.object object) k.objects
    return (true, { k.setThread thread with objects := objects })
  else return (false, k)

end Kernel

/-- `Waker::wake`: whether the thread was woken. -/
def Waker.wake (self : Waker) (object : ObjId) (k : Kernel) : Exec (Bool × Kernel) :=
  k.wakeUpThread self.thread self.key object

/-- What `tick_at` does to one thread. -/
def CommonThread.tickAt (time : UInt64) (self : CommonThread) (objects : Objects) :
    Exec (CommonThread × Objects) :=
  match self.state, self.waitTimeout with
  | .waiting, some timeout =>
    if timeout ≤ time then self.wakeUp .timeout objects else return (self, objects)
  | _, _ => return (self, objects)

/-- The loop of `CommonThreadManager::tick_at`. -/
def tickThreads (time : UInt64) : List CommonThread → Objects → Exec (List CommonThread × Objects)
  | [], objects => return ([], objects)
  | thread :: threads, objects => do
    let (thread, objects) ← thread.tickAt time objects
    let (threads, objects) ← tickThreads time threads objects
    return (thread :: threads, objects)

/-- `CommonThreadManager::tick_at`. -/
def Kernel.tickThreadsAt (k : Kernel) (time : UInt64) : Exec Kernel := do
  let (threads, objects) ← tickThreads time k.threads k.objects
  return { k with threads := threads, objects := objects }

end Pomelo
