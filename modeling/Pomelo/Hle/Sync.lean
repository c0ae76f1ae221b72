/-
  The objects that threads wait on (`event.rs`, `timer.rs`, `mutex.rs`, `thread.rs`,
  `arbiter.rs`, `session.rs` and `port.rs` of `hle/src`).

  A method gets the object it is called on as it was at the call, and `this`, its place. A wake
  changes the queues of all objects that the thread waits on, this one included, so whatever a
  method does after a wake it does to the object as it then is.
-/
import Pomelo.Kernel.Translate

namespace Pomelo

open Lib

/-- Why code of this layer unwinds: it could not wake the thread of a waker of `object`, as it
    expects to (`expect("Failed to wake up thread")`), or anything else. -/
inductive HlePanic where
  | wake (object : ObjId)
  | other (e : Panic)
deriving DecidableEq, Repr

abbrev HleExec := Outcome HlePanic

instance : MonadLift Exec HleExec where
  monadLift := Outcome.mapPanic .other

namespace KObject

/-- `waker_queue.push(waker)`, `waker_queue.push_back(waker)`. -/
def pushWaker (waker : Waker) : KObject → KObject
  | event self => event { self with wakerQueue := self.wakerQueue ++ [waker] }
  | timer self => timer { self with wakerQueue := self.wakerQueue ++ [waker] }
  | mutex self => mutex { self with wakerQueue := self.wakerQueue ++ [waker] }
  | thread self => thread { self with wakerQueue := self.wakerQueue ++ [waker] }
  | serverPort self => serverPort { self with wakerQueue := self.wakerQueue ++ [waker] }
  | clientPort self => clientPort { self with wakerQueue := self.wakerQueue ++ [waker] }
  | serverSession self => serverSession { self with wakerQueue := self.wakerQueue ++ [waker] }
  | clientSession self => clientSession { self with wakerQueue := self.wakerQueue ++ [waker] }
  | x => x

/-- Replace the queue of a synchronization object. -/
def setWakers (wakers : List Waker) : KObject → KObject
  | event self => event { self with wakerQueue := wakers }
  | timer self => timer { self with wakerQueue := wakers }
  | mutex self => mutex { self with wakerQueue := wakers }
  | thread self => thread { self with wakerQueue := wakers }
  | serverPort self => serverPort { self with wakerQueue := wakers }
  | clientPort self => clientPort { self with wakerQueue := wakers }
  | serverSession self => serverSession { self with wakerQueue := wakers }
  | clientSession self => clientSession { self with wakerQueue := wakers }
  | x => x

def modifySignal (f : Signal → Signal) : KObject → KObject
  | event self => event { self with signal := f self.signal }
  | timer self => timer { self with signal := f self.signal }
  | x => x

def setAcquired (acquired : Bool) : KObject → KObject
  | mutex self => mutex { self with acquired := acquired }
  | x => x

def setDead (dead : Bool) : KObject → KObject
  | thread self => thread { self with dead := dead }
  | x => x

def setTimerData (data : TimerImplData) : KObject → KObject
  | timer self => timer { self with data := data }
  | x => x

def setArbiterQueue (queue : List (Waker × UInt32)) : KObject → KObject
  | arbiter self => arbiter { self with wakerQueue := queue }
  | x => x

def setRequests (requests : List ThreadIndex) : KObject → KObject
  | serverSession self => serverSession { self with requestQueue := requests }
  | x => x

def setSessions (sessions : List ObjId) : KObject → KObject
  | serverPort self => serverPort { self with sessionQueue := sessions }
  | x => x

/-- `*server.client.borrow_mut() = ..`. -/
def setClient (client : ObjId) : KObject → KObject
  | serverPort self => serverPort { self with client := some client }
  | serverSession self => serverSession { self with client := some client }
  | x => x

end KObject

/-! ## Waking what is queued -/

/-- `waker.wake(this, ct).expect("Failed to wake up thread")`. -/
def Waker.wakeExpect (self : Waker) (this : ObjId) (k : Kernel) : HleExec Kernel := do
  let (ok, k) ← self.wake this k
  Outcome.assert ok (.wake this)
  return k

/-- `queue.iter().for_each(|waker| { let _ = waker.wake(this, ct); })`. -/
def wakeEach (this : ObjId) : List Waker → Kernel → Exec Kernel
  | [], k => return k
  | waker :: wakers, k => do
    let (_, k) ← waker.wake this k
    wakeEach this wakers k

/-- `waker_queue.pop_front()`, and wake what was there. -/
def wakeFront (this : ObjId) (wakers : List Waker) (k : Kernel) : HleExec Kernel :=
  match wakers with
  | [] => return k
  | waker :: wakers => waker.wakeExpect this (k.modifyObject this (KObject.setWakers wakers))

/-- Wait on an object that is there at once if `ready` holds: then `take` takes it and the
    thread is woken, and `untake` takes this back if the thread could not be woken. -/
def waitOr (this : ObjId) (waker : Waker) (ready : Bool) (take untake : KObject → KObject)
    (k : Kernel) : Exec Kernel :=
  if ready then do
    let (ok, k) ← waker.wake this (k.modifyObject this take)
    return if ok then k else k.modifyObject this untake
  else return k.modifyObject this (KObject.pushWaker waker)

/-- Wake for a signal: all wakers if it is sticky, else the first, which consumes it. -/
def wakeForSignal (this : ObjId) (signal : Signal) (wakers : List Waker) (k : Kernel) :
    HleExec Kernel :=
  if signal.isSticky then do
    let k ← wakeEach this wakers (k.modifyObject this (KObject.setWakers []))
    return k.modifyObject this (KObject.setWakers [])
  else
    match wakers with
    | [] => return k
    | waker :: _ => do
      let k ← waker.wakeExpect this k
      return k.modifyObject this (KObject.modifySignal Signal.reset)

/-! ## Events and timers -/

/-- `EventImpl::wait` and `TimerImpl::wait`. -/
def Signal.wait (self : Signal) (this : ObjId) (waker : Waker) (k : Kernel) : Exec Kernel :=
  waitOr this waker self.consume.1 (KObject.modifySignal fun signal => signal.consume.2)
    (KObject.modifySignal Signal.unconsume) k

namespace EventImpl

def wait (self : EventImpl) (this : ObjId) (waker : Waker) (k : Kernel) : Exec Kernel :=
  self.signal.wait this waker k

/-- `EventImpl::signal`. -/
def doSignal (self : EventImpl) (this : ObjId) (k : Kernel) : HleExec Kernel :=
  wakeForSignal this self.signal.signal self.wakerQueue
    (k.modifyObject this (KObject.modifySignal Signal.signal))

def clear (this : ObjId) (k : Kernel) : Kernel :=
  k.modifyObject this (KObject.modifySignal Signal.reset)

end EventImpl

namespace TimerImpl

def wait (self : TimerImpl) (this : ObjId) (waker : Waker) (k : Kernel) : Exec Kernel :=
  self.signal.wait this waker k

def set (this : ObjId) (initialNs interval : Int64) (k : Kernel) : Kernel :=
  k.modifyObject this (KObject.setTimerData { nextNs := initialNs, interval := interval })

def cancel (this : ObjId) (k : Kernel) : Kernel := set this (-1) (-1) k

/-- What a timer that fires is set to: a pulse timer fires again. -/
def next (self : TimerImpl) (timeNs : UInt64) : Exec TimerImplData :=
  if self.signal.isPulse then do
    let nextNs ← addU64 timeNs self.data.interval.toUInt64
    return { self.data with nextNs := nextNs.toInt64 }
  else return { nextNs := -1, interval := -1 }

def tick (self : TimerImpl) (this : ObjId) (timeNs : UInt64) (k : Kernel) : HleExec Kernel :=
  if self.data.valid && decide (self.data.nextNs.toUInt64 ≤ timeNs) then do
    let data ← self.next timeNs
    wakeForSignal this self.signal.signal self.wakerQueue
      ((k.modifyObject this (KObject.modifySignal Signal.signal)).modifyObject this
        (KObject.setTimerData data))
  else return k

end TimerImpl

/-! ## Mutexes and threads -/

namespace MutexImpl

def wait (self : MutexImpl) (this : ObjId) (waker : Waker) (k : Kernel) : Exec Kernel :=
  waitOr this waker (!self.acquired) (KObject.setAcquired true) (KObject.setAcquired false) k

/-- The mutex passes to the first thread that waits, without being free in between. -/
def release (self : MutexImpl) (this : ObjId) (k : Kernel) : HleExec Kernel :=
  match self.wakerQueue with
  | [] => return k.modifyObject this (KObject.setAcquired false)
  | waker :: _ => waker.wakeExpect this k

end MutexImpl

namespace ThreadImpl

def wait (self : ThreadImpl) (this : ObjId) (waker : Waker) (k : Kernel) : Exec Kernel :=
  waitOr this waker self.dead id id k

/-- `exit`, which is `on_death`. -/
def exit (self : ThreadImpl) (this : ObjId) (k : Kernel) : Exec Kernel :=
  if self.dead then return k
  else wakeEach this self.wakerQueue
    ((k.modifyObject this (KObject.setDead true)).modifyObject this (KObject.setWakers []))

end ThreadImpl

/-! ## Address arbiters -/

namespace ArbiterImpl

def wait (waker : Waker) (addr : UInt32) (this : ObjId) (k : Kernel) : Kernel :=
  k.modifyObject this fun
    | .arbiter self => .arbiter { self with wakerQueue := self.wakerQueue ++ [(waker, addr)] }
    | x => x

/-- The `drain_filter` of `signal`: what is drained, and what stays in the queue. A count of
    all ones does not go down. -/
def drain (addr : UInt32) :
    UInt32 → List (Waker × UInt32) → List Waker × List (Waker × UInt32)
  | _, [] => ([], [])
  | signalCount, (waker, wakerAddr) :: queue =>
    if wakerAddr = addr ∧ signalCount > 0 then
      let signalCount := if signalCount ≠ 0xFFFFFFFF then signalCount - 1 else signalCount
      (waker :: (drain addr signalCount queue).1, (drain addr signalCount queue).2)
    else ((drain addr signalCount queue).1, (waker, wakerAddr) :: (drain addr signalCount queue).2)

/-- `for waker in drained { waker.wake(this, ct).expect(..) }`. -/
def wakeDrained (this : ObjId) : List Waker → Kernel → Exec Kernel
  | [], k => return k
  | waker :: wakers, k => do
    let (ok, k) ← waker.wake this k
    Outcome.assert ok (.expect "Failed to wake thread waiting on arbitration")
    wakeDrained this wakers k

/-- `signal`: whether threads were woken. -/
def signal (self : ArbiterImpl) (this : ObjId) (amount : Int32) (addr : UInt32) (k : Kernel) :
    Exec (Bool × Kernel) := do
  let signalCount := if amount < 0 then 0xFFFFFFFF else amount.toUInt32
  let (drained, queue) := drain addr signalCount self.wakerQueue
  let k ← wakeDrained this drained (k.modifyObject this (KObject.setArbiterQueue queue))
  return (!drained.isEmpty, k)

end ArbiterImpl

/-! ## Sessions -/

/-- `upgrade` of the reference to the client end of a session. -/
def Kernel.clientSession? (k : Kernel) (client : Option ObjId) :
    Option (ObjId × ClientSessionHLE) :=
  client.bind fun client =>
    match k.object? client with
    | some (.clientSession self) => some (client, self)
    | _ => none

/-- `upgrade` of the reference to the server end of a session. -/
def Kernel.serverSession? (k : Kernel) (server : ObjId) : Option ServerSessionHLE :=
  match k.object? server with
  | some (.serverSession self) => some self
  | _ => none

/-- `make_session_pair`: the server end and the client end. -/
def makeSessionPair (k : Kernel) : ObjId × ObjId × Kernel :=
  let (server, k) := k.newObject (.serverSession ⟨[], [], none⟩)
  let (client, k) := k.newObject (.clientSession ⟨[], server⟩)
  (server, client, k.modifyObject server (KObject.setClient client))

def ClientSessionHLE.enqueueResponse (self : ClientSessionHLE) (this : ObjId) (k : Kernel) :
    HleExec Kernel :=
  wakeFront this self.wakerQueue k

namespace ServerSessionHLE

def enqueueSyncRequest (self : ServerSessionHLE) (this : ObjId) (data : ThreadIndex)
    (k : Kernel) : HleExec Kernel :=
  wakeFront this self.wakerQueue
    (k.modifyObject this (KObject.setRequests (self.requestQueue ++ [data])))

/-- `receive`: whether there was a request. It stays in the queue. -/
def receive (self : ServerSessionHLE) (rng : Nat → UInt32) (fuel : Nat)
    (thisThread : ThreadIndex) (k : Kernel) : Exec (Bool × Kernel) :=
  match self.requestQueue with
  | [] => return (false, k)
  | request :: _ => do
    let k ← k.translateIpc rng fuel request thisThread false
    return (true, k)

/-- `reply`: the response goes to the thread of the first request. -/
def reply (self : ServerSessionHLE) (rng : Nat → UInt32) (fuel : Nat) (this : ObjId)
    (thisThread : ThreadIndex) (k : Kernel) : HleExec Kernel :=
  match self.requestQueue with
  | [] => .panic (.other (.expect "Server replied to nobody"))
  | requestThread :: requests => do
    let k := k.modifyObject this (KObject.setRequests requests)
    let k ← k.translateIpc rng fuel thisThread requestThread true
    let (client, data) ← Outcome.expect (k.clientSession? self.client)
      (.other (.expect "Client disconnected before reply"))
    data.enqueueResponse client k

end ServerSessionHLE

/-- `sync_request`: whether the server end is alive. -/
def ClientSessionHLE.syncRequest (self : ClientSessionHLE) (this : ObjId) (waker : Waker)
    (k : Kernel) : HleExec (Bool × Kernel) :=
  match k.serverSession? self.server with
  | some server => do
    let k := k.modifyObject this (KObject.pushWaker waker)
    let k ← server.enqueueSyncRequest self.server waker.thread k
    return (true, k)
  | none => return (false, k)

/-! ## Ports -/

/-- `upgrade` of the reference to the client end of a port. -/
def Kernel.clientPort? (k : Kernel) (client : Option ObjId) : Option (ObjId × ClientPortHLE) :=
  client.bind fun client =>
    match k.object? client with
    | some (.clientPort self) => some (client, self)
    | _ => none

/-- `upgrade` of the reference to the server end of a port. -/
def Kernel.serverPort? (k : Kernel) (server : ObjId) : Option ServerPortHLE :=
  match k.object? server with
  | some (.serverPort self) => some self
  | _ => none

/-- `make_port_pair`: the server end and the client end. -/
def makePortPair (k : Kernel) : ObjId × ObjId × Kernel :=
  let (server, k) := k.newObject (.serverPort ⟨[], [], none⟩)
  let (client, k) := k.newObject (.clientPort ⟨[], server⟩)
  (server, client, k.modifyObject server (KObject.setClient client))

def ClientPortHLE.wakeThread (self : ClientPortHLE) (this : ObjId) (k : Kernel) : HleExec Kernel :=
  wakeFront this self.wakerQueue k

namespace ServerPortHLE

def enqueueSession (self : ServerPortHLE) (this : ObjId) (serverSession : ObjId) (k : Kernel) :
    HleExec Kernel :=
  wakeFront this self.wakerQueue
    (k.modifyObject this (KObject.setSessions (self.sessionQueue ++ [serverSession])))

/-- `accept_session`: the first session in the queue. -/
def acceptSession (self : ServerPortHLE) (this : ObjId) (k : Kernel) :
    HleExec (Option ObjId × Kernel) :=
  match self.sessionQueue with
  | [] => return (none, k)
  | session :: sessions => do
    let k := k.modifyObject this (KObject.setSessions sessions)
    let (client, data) ← Outcome.expect (k.clientPort? self.client)
      (.other (.expect "ClientPortHLE disconnected"))
    let k ← data.wakeThread client k
    return (some session, k)

end ServerPortHLE

/-- `create_session_to_port`. -/
def ClientPortHLE.createSessionToPort (self : ClientPortHLE) (serverSession : ObjId)
    (k : Kernel) : HleExec Kernel := do
  let server ← Outcome.expect (k.serverPort? self.server)
    (.other (.expect "ServerPortHLE disconnected"))
  server.enqueueSession self.server serverSession k

/-! ## Waiting on any of them -/

/-- `KSynchronizationObject::wait`. Arbiters and code sets are not such objects. -/
def KObject.wait (this : ObjId) (waker : Waker) (k : Kernel) : KObject → Exec Kernel
  | .event self => self.wait this waker k
  | .timer self => self.wait this waker k
  | .mutex self => self.wait this waker k
  | .thread self => self.wait this waker k
  | .serverPort _ | .clientPort _ | .serverSession _ | .clientSession _ =>
    return k.modifyObject this (KObject.pushWaker waker)
  | .arbiter _ | .codeSet => .panic (.unreachable "KSynchronizationObject::wait")

end Pomelo
