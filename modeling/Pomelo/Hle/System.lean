/-
  Runs of the kernel with its threads.

  A step is a supervisor call of the thread that runs, or what the main loop and the emulator
  do on their own: start and stop threads, tick, make processes and threads, and drop an object
  that nothing refers to any more. References that the model does not have, those of code of
  the emulator, can keep an object alive, so an object need not be dropped.
-/
import Pomelo.Hle.Svc
import Pomelo.Lib.Run

namespace Pomelo

open Lib

namespace Kernel

/-- The current thread runs. -/
def calling (k : Kernel) : Bool :=
  match k.current with
  | some (_, tid) => (k.thread? tid).any fun thread => thread.state = .running
  | none => false

/-- The objects that an object keeps alive: a port those of its sessions that nobody accepted
    yet. -/
def heldBy : KObject → List ObjId
  | .serverPort self => self.sessionQueue
  | _ => []

/-- A strong reference to the object is left, in a handle table, a thread, or the kernel. -/
def referenced (k : Kernel) (o : ObjId) : Bool :=
  (k.processes.any fun process => process.objects.objects.entries.any fun entry => entry.2 = o) ||
  (k.threads.any fun thread => thread.kobj = o || thread.waitObjects.contains o) ||
  (k.ports.any fun entry => entry.2 = o) || (k.interrupts.any fun entry => entry.2 = o) ||
  (k.objects.any fun object => object.any fun x => (heldBy x).contains o)

/-- The object is gone. -/
def dropObject (k : Kernel) (o : ObjId) : Kernel := { k with objects := k.objects.set o none }

/-- `new_handle` of an object that the calling code has a reference to. -/
def newHandleOf (rng : Nat → UInt32) (fuel : Nat) (k : Kernel) (o : ObjId) : Exec Kernel := do
  let _ ← Outcome.expect (k.object? o) .unwrap
  let (_, k) ← k.newHandle rng fuel o
  return k

end Kernel

inductive SvcCall where
  | createMutex (initialLocked : Bool)
  | createEvent (resetType : ResetType)
  | createTimer (resetType : ResetType)
  | createAddressArbiter
  | createCodeset
  | releaseMutex (handle : Option Handle)
  | signalEvent (handle : Option Handle)
  | clearEvent (handle : Option Handle)
  | setTimer (handle : Option Handle) (initial interval : Int64)
  | cancelTimer (handle : Option Handle)
  | waitSync1 (time : UInt64) (handle : Option Handle) (timeout : Int64)
  | waitSyncN (time : UInt64) (handles : List (Option Handle)) (waitAll : Bool)
      (timeout : Int64)
  | sleepThread (time : UInt64) (ns : Int64)
  | arbitrateAddress (handle : Option Handle) (addr : UInt32) (typ : ArbitrationType)
      (memoryValue value : Int32)
  | replyAndReceivePre (time : UInt64) (handles : List (Option Handle))
      (replyTarget : Option Handle)
  | replyAndReceivePost (handles : List (Option Handle)) (resume : ThreadResume)
  | sendSyncRequest (handle : Option Handle)
  | createSessionToPort (handle : Option Handle)
  | acceptSession (handle : Option Handle)
  | closeHandle (handle : Option Handle)
  | newHandle (o : ObjId)
  | makeSessionPair
  | makePortPair
  | registerPort (name : List UInt8) (port : ObjId)
  | bindInterrupt (name : UInt32) (handle : Option Handle)
  | setThreadIpcData (data : List UInt8)
  | createThread
  | exitThread
deriving DecidableEq, Repr

inductive SvcStep where
  | call (call : SvcCall)
  | tick (time : UInt64) (interrupts : List UInt32)
  | runNext
  | stop (index : ThreadIndex)
  | newProcess (process : Process)
  | newThread (pid : ProcessId)
  | drop (o : ObjId)
deriving DecidableEq, Repr

section Exec

variable (rng : Nat → UInt32) (fuel : Nat)

/-- The kernel after a call, without its result. -/
def afterCall {ε α : Type} (x : Outcome ε (α × Kernel)) : Outcome ε Kernel := do
  let (_, k) ← x
  return k

def SvcCall.exec (k : Kernel) : SvcCall → HleExec Kernel
  | createMutex initialLocked => do afterCall (k.createMutex rng fuel initialLocked)
  | createEvent resetType => do afterCall (k.createEvent rng fuel resetType)
  | createTimer resetType => do afterCall (k.createTimer rng fuel resetType)
  | createAddressArbiter => do afterCall (k.createAddressArbiter rng fuel)
  | createCodeset => do afterCall (k.createCodeset rng fuel)
  | releaseMutex handle => afterCall (k.releaseMutex handle)
  | signalEvent handle => afterCall (k.signalEvent handle)
  | clearEvent handle => do afterCall (k.clearEvent handle)
  | setTimer handle initial interval => do afterCall (k.setTimer handle initial interval)
  | cancelTimer handle => do afterCall (k.cancelTimer handle)
  | waitSync1 time handle timeout => do afterCall (k.waitSync1 time handle timeout)
  | waitSyncN time handles waitAll timeout => do
    afterCall (k.waitSyncN time handles waitAll timeout)
  | sleepThread time ns => do k.sleepThread time ns
  | arbitrateAddress handle addr typ memoryValue value => do
    afterCall (k.arbitrateAddress handle addr typ memoryValue value)
  | replyAndReceivePre time handles replyTarget =>
    afterCall (k.replyAndReceivePre rng fuel time handles replyTarget)
  | replyAndReceivePost handles resume => do
    afterCall (k.replyAndReceivePost rng fuel handles resume)
  | sendSyncRequest handle => afterCall (k.sendSyncRequest handle)
  | createSessionToPort handle => afterCall (k.createSessionToPort rng fuel handle)
  | acceptSession handle => afterCall (k.acceptSession rng fuel handle)
  | closeHandle handle => do afterCall (k.closeHandle handle)
  | newHandle o => do k.newHandleOf rng fuel o
  | makeSessionPair => return (Pomelo.makeSessionPair k).2.2
  | makePortPair => return (Pomelo.makePortPair k).2.2
  | registerPort name port => do k.registerPort name port
  | bindInterrupt name handle => do afterCall (k.bindInterrupt name handle)
  | setThreadIpcData data => do k.setThreadIpcData data
  | createThread => do k.createThreadNext rng fuel
  | exitThread => do k.exitThread

def SvcStep.exec (k : Kernel) : SvcStep → HleExec Kernel
  | call c => c.exec rng fuel k
  | tick time interrupts => k.tick time interrupts
  | runNext => do afterCall k.runNext
  | stop index => do k.stopThread index
  | newProcess process => do afterCall (k.newProcess process)
  | newThread pid => do
    let (_, _, k) ← k.newThread pid
    return k
  | drop o => return k.dropObject o

end Exec

/-- When a step can be made: a call by a thread that runs, a drop of an object without
    references. -/
def SvcStep.enabled (k : Kernel) : SvcStep → Bool
  | call _ => k.calling
  | drop o => !k.referenced o
  | _ => true

/-- The kernel runs from its start. A step is made if it returns; a panic ends the run. -/
def svcSystem (rng : Nat → UInt32) : System Kernel SvcStep where
  init k := k = Kernel.new
  step k l k' := l.enabled k = true ∧ ∃ fuel, l.exec rng fuel k = .ret k'

/-- A step by execution. -/
def svcStep? (rng : Nat → UInt32) (fuel : Nat) (k : Kernel) (l : SvcStep) : Option Kernel :=
  if l.enabled k then (l.exec rng fuel k).value? else none

theorem step_of_svcStep? {rng : Nat → UInt32} {fuel : Nat} {k k' : Kernel} {l : SvcStep}
    (h : svcStep? rng fuel k l = some k') : (svcSystem rng).step k l k' := by
  unfold svcStep? at h
  split at h
  · rename_i henabled
    exact ⟨henabled, fuel, Outcome.value?_eq_some.mp h⟩
  · cases h

end Pomelo
