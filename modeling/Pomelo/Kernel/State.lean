/-
  The state of the kernel and the threads in it (`kernel/src/lib.rs`).

  `objects` are the kernel objects in the order of their creation; an object is `none` once
  the last strong reference to it is gone. Threads, processes and thread boxes are found by
  their index or id, the first with it.
-/
import Pomelo.Kernel.Object
import Pomelo.Lib.Keyed

namespace Pomelo

open Lib

/-! ## Objects -/

/-- `ObjectManager`: all objects ever made. -/
abbrev Objects := List (Option KObject)

namespace Objects

/-- The object, while it is alive. -/
def at? (objects : Objects) (o : ObjId) : Option KObject := objects[o]?.join

def modify (objects : Objects) (o : ObjId) (f : KObject → KObject) : Objects :=
  List.modify objects o (Option.map f)

/-- `remove_wakers_by_opaque_id` on each of the objects. -/
def removeWakers (id : Nat) (os : List ObjId) (objects : Objects) : Objects :=
  os.foldl (fun objects o => objects.modify o (KObject.removeWakers id)) objects

theorem at?_modify (objects : Objects) (o o' : ObjId) (f : KObject → KObject) :
    (objects.modify o f).at? o' =
      if o' = o then (objects.at? o').map f else objects.at? o' := by
  unfold at? modify
  rw [List.getElem?_modify]
  cases objects[o']? with
  | none => simp
  | some x =>
    by_cases h : o' = o
    · simp [h]
    · simp [h, Ne.symm h]

theorem removeWakers_twice (id : Nat) (x : KObject) :
    (x.removeWakers id).removeWakers id = x.removeWakers id := by
  cases x <;> simp [KObject.removeWakers]

theorem at?_removeWakers (id : Nat) (os : List ObjId) (objects : Objects) (o : ObjId) :
    (removeWakers id os objects).at? o =
      if o ∈ os then (objects.at? o).map (KObject.removeWakers id) else objects.at? o := by
  unfold removeWakers
  induction os generalizing objects with
  | nil => simp
  | cons p os ih =>
    rw [List.foldl_cons, ih, at?_modify]
    by_cases hp : o = p
    · simp [hp, Function.comp_def, removeWakers_twice]
    · simp [hp]

end Objects

/-! ## Threads -/

inductive ThreadState where
  | running
  | ready
  | paused
  | waiting
  | done
deriving DecidableEq, Repr

inductive ThreadWaitType where
  | waitSync1
  | waitSyncN
  | arbiter
  | sleep
deriving DecidableEq, Repr

inductive ThreadWakeReason where
  | timeout
  | object (object : ObjId)
deriving DecidableEq, Repr

inductive ThreadResume where
  | normal
  | timeoutReached
  | waitSyncN (index : Nat)
deriving DecidableEq, Repr

structure CommonThread where
  index : ThreadIndex
  pid : ProcessId
  state : ThreadState
  waitObjects : List ObjId
  wakeKey : UInt64
  waitTimeout : Option UInt64
  waitType : Option ThreadWaitType
  resume : ThreadResume
  kobj : ObjId
  ipcData : List UInt8
deriving DecidableEq, Repr

namespace CommonThread

def new (pid : ProcessId) (tid : ThreadIndex) (kobj : ObjId) : CommonThread where
  index := tid
  pid := pid
  state := .ready
  waitObjects := []
  wakeKey := 0
  waitTimeout := none
  waitType := none
  resume := .normal
  kobj := kobj
  ipcData := List.replicate 256 0

/-- `CommonThread::wait`. -/
def wait (self : CommonThread) (objects : List ObjId) : Exec CommonThread := do
  Outcome.assert (decide (self.state = .running))
    (.assertion "self.state == ThreadState::Running")
  return { self with waitObjects := objects, state := .waiting }

/-- What a thread that is woken resumes with. -/
def resumeFor (self : CommonThread) (reason : ThreadWakeReason) : Exec ThreadResume := do
  let waitType ← Outcome.expect self.waitType
    (.expect "Timeout occurred on thread with invalid wait_type")
  match reason, waitType with
  | .timeout, .sleep => return .normal
  | .timeout, .arbiter | .timeout, .waitSync1 | .timeout, .waitSyncN => return .timeoutReached
  | .object _, .sleep => .panic (.unreachable "wake_up")
  | .object _, .arbiter | .object _, .waitSync1 => return .normal
  | .object object, .waitSyncN => do
    let index ← Outcome.expect (self.waitObjects.findIdx? fun other => other = object)
      (.expect "Unknown handle woke up thread during WaitSyncN")
    return .waitSyncN index

/-- The thread as it is once it is woken to resume with `resume`. -/
def woken (self : CommonThread) (resume : ThreadResume) : CommonThread :=
  { self with
    state := .ready
    wakeKey := self.wakeKey + 1
    resume := resume
    waitObjects := [] }

/-- `CommonThread::wake_up`: the thread, and the objects without its wakers. -/
def wakeUp (self : CommonThread) (reason : ThreadWakeReason) (objects : Objects) :
    Exec (CommonThread × Objects) := do
  let resume ← self.resumeFor reason
  return (self.woken resume, objects.removeWakers self.index self.waitObjects)

@[simp] theorem woken_index (self : CommonThread) (resume : ThreadResume) :
    (self.woken resume).index = self.index := rfl

end CommonThread

/-! ## The kernel -/

/-- `KernelImpl`, without its memory and its clock. A thread box is `true` while the kernel
    has it, and `false` while its thread runs. -/
structure Kernel where
  objects : Objects
  processes : List CommonProcess
  threads : List CommonThread
  threadBoxes : List (ThreadIndex × Bool)
  current : Option (ProcessId × ThreadIndex)
  next : Option ThreadIndex
  nextPid : Nat
  nextTid : Nat
  ports : List (List UInt8 × ObjId)
  interrupts : List (UInt32 × ObjId)

namespace Kernel

def new : Kernel where
  objects := []
  processes := []
  threads := []
  threadBoxes := []
  current := none
  next := none
  nextPid := 0
  nextTid := 0
  ports := []
  interrupts := []

def thread? (k : Kernel) (tid : ThreadIndex) : Option CommonThread :=
  findKey CommonThread.index tid k.threads

def process? (k : Kernel) (pid : ProcessId) : Option CommonProcess :=
  findKey CommonProcess.pid pid k.processes

def object? (k : Kernel) (o : ObjId) : Option KObject := k.objects.at? o

/-- The wakers queued in an object. -/
def wakers (k : Kernel) (o : ObjId) : List Waker :=
  match k.object? o with
  | some x => x.wakers
  | none => []

/-- Put a thread back in its place. -/
def setThread (k : Kernel) (thread : CommonThread) : Kernel :=
  { k with threads := modifyKey CommonThread.index thread.index (fun _ => thread) k.threads }

/-- Put a process back in its place. -/
def setProcess (k : Kernel) (process : CommonProcess) : Kernel :=
  { k with processes := modifyKey CommonProcess.pid process.pid (fun _ => process) k.processes }

/-- Change an object that is alive. -/
def modifyObject (k : Kernel) (o : ObjId) (f : KObject → KObject) : Kernel :=
  { k with objects := k.objects.modify o f }

/-- `find_thread`, `find_thread_mut`. -/
def findThread (k : Kernel) (tid : ThreadIndex) : Exec CommonThread :=
  Outcome.expect (k.thread? tid) (.expect "Couldn't find CommonThread")

/-- `find_common_process`. -/
def findCommonProcess (k : Kernel) (pid : ProcessId) : Exec CommonProcess :=
  Outcome.expect (k.process? pid) (.expect "Couldn't find Process")

/-- `current_pid_tid`. -/
def currentPidTid (k : Kernel) : Exec (ProcessId × ThreadIndex) :=
  Outcome.expect k.current (.expect "No current thread")

/-- `current_process`. -/
def currentProcess (k : Kernel) : Exec CommonProcess := do
  let current ← Outcome.expect k.current (.expect "No current process")
  k.findCommonProcess current.1

/-! ### What a change does to lookups -/

section Lookup

variable (k : Kernel)

theorem thread?_setThread (thread : CommonThread) (tid : ThreadIndex) :
    (k.setThread thread).thread? tid =
      if tid = thread.index then (k.thread? tid).map fun _ => thread else k.thread? tid :=
  findKey_modifyKey (fun _ _ => rfl) _ _

theorem process?_setProcess (process : CommonProcess) (pid : ProcessId) :
    (k.setProcess process).process? pid =
      if pid = process.pid then (k.process? pid).map fun _ => process else k.process? pid :=
  findKey_modifyKey (fun _ _ => rfl) _ _

theorem object?_modifyObject (o o' : ObjId) (f : KObject → KObject) :
    (k.modifyObject o f).object? o' =
      if o' = o then (k.object? o').map f else k.object? o' :=
  k.objects.at?_modify o o' f

@[simp] theorem object?_setThread (thread : CommonThread) (o : ObjId) :
    (k.setThread thread).object? o = k.object? o := rfl

@[simp] theorem process?_setThread (thread : CommonThread) (pid : ProcessId) :
    (k.setThread thread).process? pid = k.process? pid := rfl

@[simp] theorem object?_setProcess (process : CommonProcess) (o : ObjId) :
    (k.setProcess process).object? o = k.object? o := rfl

@[simp] theorem thread?_setProcess (process : CommonProcess) (tid : ThreadIndex) :
    (k.setProcess process).thread? tid = k.thread? tid := rfl

@[simp] theorem thread?_modifyObject (o : ObjId) (f : KObject → KObject) (tid : ThreadIndex) :
    (k.modifyObject o f).thread? tid = k.thread? tid := rfl

@[simp] theorem process?_modifyObject (o : ObjId) (f : KObject → KObject) (pid : ProcessId) :
    (k.modifyObject o f).process? pid = k.process? pid := rfl

theorem findThread_eq_ret {k : Kernel} {tid : ThreadIndex} {thread : CommonThread} :
    k.findThread tid = .ret thread ↔ k.thread? tid = some thread :=
  Outcome.expect_eq_ret

theorem currentPidTid_eq_ret {k : Kernel} {current : ProcessId × ThreadIndex} :
    k.currentPidTid = .ret current ↔ k.current = some current :=
  Outcome.expect_eq_ret

theorem findCommonProcess_eq_ret {k : Kernel} {pid : ProcessId} {process : CommonProcess} :
    k.findCommonProcess pid = .ret process ↔ k.process? pid = some process :=
  Outcome.expect_eq_ret

end Lookup

end Kernel

end Pomelo
