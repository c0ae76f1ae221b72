/-
  The supervisor calls (`hle/src/svc.rs`, and those of `handle_svc` in `guest/src/lib.rs` that
  are not there), and what the main loop does between the threads.

  A call gives its result and the kernel after it. Calls that need the time or the memory of
  the guest get what they read of it as an argument; registers and guest memory are left out.
-/
import Pomelo.Hle.Sync

namespace Pomelo

open Lib

/-- `KResult`. -/
abbrev KResult := Except UInt32

namespace Errors

def timeoutReached : UInt32 := 0x09401BFE
def handleTypeMismatch : UInt32 := 0xD8E007F7
def noRequest : UInt32 := 0xC920181A

end Errors

/-- What a call gives that puts its thread to sleep. -/
structure Reschedule where
deriving DecidableEq, Repr

/-! ## Timeouts and address arbitration (`kernel/src/lib.rs`) -/

inductive Timeout where
  | instant
  | after (ns : UInt64)
  | forever
deriving DecidableEq, Repr

/-- `make_timeout`. -/
def makeTimeout (ns : Int64) : Timeout :=
  if ns ≥ 0 then
    if ns = 0 then .instant else .after ns.toUInt64
  else .forever

/-- `Timeout::absolute`. -/
def Timeout.absolute (self : Timeout) (base : UInt64) : Exec (Option UInt64) :=
  match self with
  | instant => do
    let ns ← addU64 0 base
    return some ns
  | after ns => do
    let ns ← addU64 ns base
    return some ns
  | forever => return none

inductive ArbitrationType where
  | signal
  | waitIfLessThan
  | decrementAndWaitIfLessThan
  | waitIfLessThanTimeout
  | decrementAndWaitIfLessThanTimeout
deriving DecidableEq, Repr

inductive ArbitrationAction where
  | signal
  | decrement
deriving DecidableEq, Repr

inductive ArbitrationFail where
  | wait
  | waitTimeout
deriving DecidableEq, Repr

/-- `arbitrate`: what is done, and how the thread fails to go on, if it does. -/
def ArbitrationType.arbitrate (self : ArbitrationType) (memoryValue value : Int32) :
    Option ArbitrationAction × Option ArbitrationFail :=
  match self with
  | signal => (some .signal, none)
  | waitIfLessThan => (none, if memoryValue < value then some .wait else none)
  | decrementAndWaitIfLessThan =>
    if memoryValue < value then (some .decrement, some .wait) else (none, none)
  | waitIfLessThanTimeout => (none, if memoryValue < value then some .waitTimeout else none)
  | decrementAndWaitIfLessThanTimeout =>
    if memoryValue < value then (some .decrement, some .waitTimeout) else (none, none)

namespace Kernel

/-- The object behind a handle, with its data. -/
def lookupObject (k : Kernel) (handle : Option Handle) : Exec (Option (ObjId × KObject)) := do
  let object ← k.lookupOptHandle handle
  return object.bind fun o => (k.object? o).map fun x => (o, x)

/-- `HANDLE_TYPE_MISMATCH`. -/
def mismatch {ε α : Type} (k : Kernel) : Outcome ε (KResult α × Kernel) :=
  return (.error Errors.handleTypeMismatch, k)

section Calls

variable (rng : Nat → UInt32) (fuel : Nat) (time : UInt64) (k : Kernel)

/-! ## Mutexes, events, timers -/

/-- The calls that make an object and give a handle to it. -/
def createObject (data : KObject) : Exec (KResult Handle × Kernel) := do
  let (_, handle, k) ← k.newObjectHandle rng fuel data
  return (.ok handle, k)

def createMutex (initialLocked : Bool) : Exec (KResult Handle × Kernel) :=
  k.createObject rng fuel (.mutex (MutexImpl.new initialLocked))

def createEvent (resetType : ResetType) : Exec (KResult Handle × Kernel) :=
  k.createObject rng fuel (.event (EventImpl.new resetType))

def createTimer (resetType : ResetType) : Exec (KResult Handle × Kernel) :=
  k.createObject rng fuel (.timer (TimerImpl.new resetType))

def createAddressArbiter : Exec (KResult Handle × Kernel) :=
  k.createObject rng fuel (.arbiter ArbiterImpl.new)

def createCodeset : Exec (KResult Handle × Kernel) :=
  k.createObject rng fuel .codeSet

def releaseMutex (handle : Option Handle) : HleExec (KResult Unit × Kernel) := do
  match ← k.lookupObject handle with
  | some (object, .mutex mutex) => do
    let k ← mutex.release object k
    return (.ok (), k)
  | _ => k.mismatch

def signalEvent (handle : Option Handle) : HleExec (KResult Unit × Kernel) := do
  match ← k.lookupObject handle with
  | some (object, .event event) => do
    let k ← event.doSignal object k
    return (.ok (), k)
  | _ => k.mismatch

def clearEvent (handle : Option Handle) : Exec (KResult Unit × Kernel) := do
  match ← k.lookupObject handle with
  | some (object, .event _) => return (.ok (), EventImpl.clear object k)
  | _ => k.mismatch

def setTimer (handle : Option Handle) (initial interval : Int64) :
    Exec (KResult Unit × Kernel) := do
  match ← k.lookupObject handle with
  | some (object, .timer _) => return (.ok (), TimerImpl.set object initial interval k)
  | _ => k.mismatch

def cancelTimer (handle : Option Handle) : Exec (KResult Unit × Kernel) := do
  match ← k.lookupObject handle with
  | some (object, .timer _) => return (.ok (), TimerImpl.cancel object k)
  | _ => k.mismatch

/-! ## Waiting -/

/-- Suspend the current thread on one object, and wait on it. -/
def waitOn (object : ObjId) (data : KObject) (timeout : Option UInt64) : Exec Kernel := do
  let (waker, k) ← k.suspendThread [object] timeout .waitSync1
  KObject.wait object waker k data

def waitSync1 (handle : Option Handle) (timeout : Int64) :
    Exec (KResult (Option Reschedule) × Kernel) := do
  match ← k.lookupObject handle with
  | some (object, data) =>
    if data.isSync then do
      let absolute ← (makeTimeout timeout).absolute time
      let k ← k.waitOn object data absolute
      return (.ok (some ⟨⟩), k)
    else k.mismatch
  | none => k.mismatch

/-- The objects behind the handles of `wait_sync_n`. -/
def waitedObjects : List (Option Handle) → Exec (List ObjId)
  | [] => return []
  | handle :: handles => do
    let object ← k.lookupOptHandle handle
    let object ← Outcome.expect object (.expect "null object in waitsync")
    let objects ← waitedObjects handles
    return object :: objects

/-- `for object in objects.iter()`: the waker goes to one object after the other. -/
def waitEach (waker : Waker) : List ObjId → Kernel → Exec Kernel
  | [], k => return k
  | object :: objects, k => do
    let data ← Outcome.expect ((k.object? object).filter KObject.isSync)
      (.unimplemented "waitsync with invalid objects")
    let k ← KObject.wait object waker k data
    waitEach waker objects k

def waitSyncN (handles : List (Option Handle)) (waitAll : Bool) (timeout : Int64) :
    Exec (KResult (Option Reschedule) × Kernel) := do
  Outcome.assert (!waitAll) (.unimplemented "wait_all unimplemented")
  let objects ← k.waitedObjects handles
  let absolute ← (makeTimeout timeout).absolute time
  let (waker, k) ← k.suspendThread objects absolute .waitSyncN
  let k ← waitEach waker objects k
  return (.ok (some ⟨⟩), k)

/-- `SleepThread`. -/
def sleepThread (ns : Int64) : Exec Kernel := do
  let absolute ← (makeTimeout ns).absolute time
  let (_, k) ← k.suspendThread [] absolute .sleep
  return k

/-- What `ArbitrateAddress` does before the thread waits. -/
def arbitrateAction (object : ObjId) (arb : ArbiterImpl) (value : Int32) (addr : UInt32) :
    Option ArbitrationAction → Exec Kernel
  | some .signal => do
    let (_, k) ← arb.signal object value addr k
    return k
  | some .decrement => return k
  | none => return k

/-- `ArbitrateAddress`, with the value in memory at the address. -/
def arbitrateAddress (handle : Option Handle) (addr : UInt32) (typ : ArbitrationType)
    (memoryValue value : Int32) : Exec (KResult (Option Reschedule) × Kernel) := do
  match ← k.lookupObject handle with
  | some (object, .arbiter arb) => do
    let (action, fail) := typ.arbitrate memoryValue value
    let k ← k.arbitrateAction object arb value addr action
    match fail with
    | none => return (.ok none, k)
    | some .wait => do
      let (waker, k) ← k.suspendThread [object] none .arbiter
      return (.ok (some ⟨⟩), ArbiterImpl.wait waker addr object k)
    | some .waitTimeout => .panic (.unimplemented "Timeouts NYI")
  | _ => k.mismatch

/-! ## Sessions and ports -/

/-- The first half of `reply_and_receive_pre`: the reply, if there is a target. -/
def replyTo (replyTarget : Option Handle) : HleExec (KResult Unit × Kernel) :=
  match replyTarget with
  | none => return (.ok (), k)
  | some _ => do
    let (_, tid) ← k.currentPidTid
    match ← k.lookupObject replyTarget with
    | some (object, .serverSession session) => do
      let k ← session.reply rng fuel object tid k
      return (.ok (), k)
    | _ => k.mismatch

def replyAndReceivePre (handles : List (Option Handle)) (replyTarget : Option Handle) :
    HleExec (KResult (Option Reschedule) × Kernel) := do
  let (replied, k) ← k.replyTo rng fuel replyTarget
  match replied with
  | .ok () => k.waitSyncN time handles false (-1)
  | .error err => return (.error err, k)

/-- `reply_and_receive_post`: the index of the handle that woke the thread. -/
def replyAndReceivePost (handles : List (Option Handle)) (resume : ThreadResume) :
    Exec ((Nat × KResult Unit) × Kernel) :=
  match resume with
  | .waitSyncN index => do
    let handle ← Outcome.expect handles[index]? .sliceIndex
    match ← k.lookupObject handle with
    | some (_, .serverSession session) => do
      let (_, tid) ← k.currentPidTid
      let (received, k) ← session.receive rng fuel tid k
      return ((index, if received then .ok () else .error Errors.noRequest), k)
    | _ => return ((index, .ok ()), k)
  | _ => .panic (.unreachable "reply_and_receive_post")

def closeHandle (handle : Option Handle) : Exec (KResult Unit × Kernel) :=
  match handle with
  | none => k.mismatch
  | some handle => do
    let process ← k.currentProcess
    let (ok, process) := process.closeHandle handle
    let k := k.setProcess process
    if ok then return (.ok (), k) else k.mismatch

def sendSyncRequest (handle : Option Handle) : HleExec (KResult (Option Reschedule) × Kernel) := do
  match ← k.lookupObject handle with
  | some (object, .clientSession session) => do
    let (waker, k) ← k.suspendThread [object] none .waitSync1
    let (connected, k) ← session.syncRequest object waker k
    Outcome.assert connected (.other (.panic "TODO: Handle remote end disconnected"))
    return (.ok (some ⟨⟩), k)
  | _ => k.mismatch

def createSessionToPort (handle : Option Handle) :
    HleExec (KResult (Option Reschedule × Handle) × Kernel) := do
  match ← k.lookupObject handle with
  | some (object, .clientPort port) => do
    let (server, client, k) := makeSessionPair k
    let k ← port.createSessionToPort server k
    let k ← k.waitOn object (.clientPort port) none
    let (handle, k) ← k.newHandle rng fuel client
    return (.ok (some ⟨⟩, handle), k)
  | _ => k.mismatch

def acceptSession (handle : Option Handle) : HleExec (KResult (Handle ⊕ Reschedule) × Kernel) := do
  match ← k.lookupObject handle with
  | some (object, .serverPort port) => do
    let (session, k) ← port.acceptSession object k
    match session with
    | some session => do
      let (handle, k) ← k.newHandle rng fuel session
      return (.ok (.inl handle), k)
    | none => do
      let k ← k.waitOn object (.serverPort port) none
      return (.ok (.inr ⟨⟩), k)
  | _ => k.mismatch

/-! ## Threads -/

/-- `CreateThread`: the new thread is the next to run. -/
def createThreadNext : Exec Kernel := do
  let (index, _, k) ← k.createThread rng fuel
  return k.scheduleNext index

/-- `exit_thread`. -/
def exitThread : Exec Kernel := do
  let (kobj, k) ← k.finishThread
  match k.object? kobj with
  | some (.thread self) => self.exit kobj k
  | _ => .panic .unwrap

/-! ## Ports and interrupts of the kernel -/

/-- `register_port`. Names are at most eight bytes. -/
def registerPort (name : List UInt8) (port : ObjId) : Exec Kernel := do
  Outcome.assert (decide (name.length ≤ 8)) .sliceIndex
  let name := name ++ List.replicate (8 - name.length) 0
  return { k with ports := (name, port) :: k.ports.filter fun entry => entry.1 ≠ name }

/-- `lookup_port`. A port that is registered is kept alive. -/
def lookupPort (name : List UInt8) : Option ObjId :=
  if name.length > 8 then none
  else
    let name := name ++ List.replicate (8 - name.length) 0
    ((k.ports.find? fun entry => entry.1 = name).map Prod.snd).filter fun o => (k.object? o).isSome

/-- `BindInterrupt`. -/
def bindInterrupt (name : UInt32) (handle : Option Handle) : Exec (KResult Unit × Kernel) := do
  match ← k.lookupObject handle with
  | some (object, .event _) => return (.ok (), { k with
      interrupts := (name, object) :: k.interrupts.filter fun entry => entry.1 ≠ name })
  | _ => k.mismatch

/-! ## The main loop -/

/-- What `tick_at` does with one object. -/
def tickTimer (object : ObjId) : HleExec Kernel :=
  match k.object? object with
  | some (.timer timer) => timer.tick object time k
  | _ => return k

/-- The objects of `tick_at`, in the order of their creation. -/
def tickTimers : List ObjId → Kernel → HleExec Kernel
  | [], k => return k
  | object :: objects, k => do
    let k ← k.tickTimer time object
    tickTimers objects k

/-- `KernelImpl::tick_at`. -/
def tickAt : HleExec Kernel := do
  let k ← k.tickThreadsAt time
  tickTimers time (List.range k.objects.length) k

/-- What `tick` does with one interrupt: it signals the event bound to it. -/
def tickInterrupt (interrupt : UInt32) : HleExec Kernel :=
  match (k.interrupts.find? fun entry => entry.1 = interrupt).map Prod.snd with
  | some object =>
    match k.object? object with
    | some (.event event) => event.doSignal object k
    | _ => return k
  | none => return k

/-- The interrupts of `tick`, in the order they came in. -/
def tickInterrupts : List UInt32 → Kernel → HleExec Kernel
  | [], k => return k
  | interrupt :: interrupts, k => do
    let k ← k.tickInterrupt interrupt
    tickInterrupts interrupts k

/-- `tick`, with the interrupts that came in since the last one. -/
def tick (interrupts : List UInt32) : HleExec Kernel := do
  let k ← k.tickAt time
  tickInterrupts interrupts k

end Calls

end Kernel

end Pomelo
