/-
  Kernel objects (`kernel/src/object/mod.rs`, `Signal` of `kernel/src/lib.rs`, and the data of
  the objects of `hle/src`).

  A `KObject` is one of the nine objects of the emulator or a code set. All but code sets keep
  a queue of wakers; those of an address arbiter stand with the address they wait on. Which
  of the kernel's object traits an object has is a test on its kind.
-/
import Pomelo.Kernel.ObjectTable

namespace Pomelo

open Lib

/-- `ThreadIndex`. -/
abbrev ThreadIndex := Nat

/-- `WakerImpl`: the thread to wake, and its wake key when the waker was made. -/
structure Waker where
  thread : ThreadIndex
  key : UInt64
deriving DecidableEq, Repr

def Waker.checkOpaqueId (self : Waker) (id : Nat) : Bool := decide (self.thread = id)

/-! ## Signals -/

inductive ResetType where
  | oneShot
  | sticky
  | pulse
deriving DecidableEq, Repr

structure Signal where
  resetType : ResetType
  signaled : Bool
deriving DecidableEq, Repr

namespace Signal

def new (resetType : ResetType) : Signal := { resetType := resetType, signaled := false }

def isPulse (self : Signal) : Bool := decide (self.resetType = .pulse)

def isSticky (self : Signal) : Bool := decide (self.resetType = .sticky)

def signal (self : Signal) : Signal := { self with signaled := true }

/-- `consume`: whether the signal was there, and what is left of it. -/
def consume (self : Signal) : Bool × Signal :=
  if self.signaled then
    match self.resetType with
    | .oneShot | .pulse => (true, { self with signaled := false })
    | .sticky => (true, self)
  else (false, self)

def unconsume (self : Signal) : Signal := { self with signaled := true }

def reset (self : Signal) : Signal := { self with signaled := false }

end Signal

/-! ## The data of each kind of object -/

structure EventImpl where
  signal : Signal
  wakerQueue : List Waker
deriving DecidableEq, Repr

def EventImpl.new (resetType : ResetType) : EventImpl :=
  { signal := Signal.new resetType, wakerQueue := [] }

structure TimerImplData where
  nextNs : Int64
  interval : Int64
deriving DecidableEq, Repr

def TimerImplData.valid (self : TimerImplData) : Bool :=
  decide (self.nextNs ≥ 0) && decide (self.interval ≥ 0)

structure TimerImpl where
  signal : Signal
  wakerQueue : List Waker
  data : TimerImplData
deriving DecidableEq, Repr

def TimerImpl.new (resetType : ResetType) : TimerImpl :=
  { signal := Signal.new resetType, wakerQueue := [], data := { nextNs := -1, interval := -1 } }

structure MutexImpl where
  acquired : Bool
  wakerQueue : List Waker
deriving DecidableEq, Repr

def MutexImpl.new (acquired : Bool) : MutexImpl := { acquired := acquired, wakerQueue := [] }

structure ThreadImpl where
  index : ThreadIndex
  dead : Bool
  wakerQueue : List Waker
deriving DecidableEq, Repr

def ThreadImpl.new (index : ThreadIndex) : ThreadImpl :=
  { index := index, dead := false, wakerQueue := [] }

structure ArbiterImpl where
  wakerQueue : List (Waker × UInt32)
deriving DecidableEq, Repr

def ArbiterImpl.new : ArbiterImpl := { wakerQueue := [] }

/-- The references between the two ends of a port and of a session are weak: they keep no
    object alive. A server end is made before its client. -/
structure ServerPortHLE where
  wakerQueue : List Waker
  sessionQueue : List ObjId
  client : Option ObjId
deriving DecidableEq, Repr

structure ClientPortHLE where
  wakerQueue : List Waker
  server : ObjId
deriving DecidableEq, Repr

structure ServerSessionHLE where
  wakerQueue : List Waker
  requestQueue : List ThreadIndex
  client : Option ObjId
deriving DecidableEq, Repr

structure ClientSessionHLE where
  wakerQueue : List Waker
  server : ObjId
deriving DecidableEq, Repr

inductive KObject where
  | event (self : EventImpl)
  | timer (self : TimerImpl)
  | mutex (self : MutexImpl)
  | thread (self : ThreadImpl)
  | arbiter (self : ArbiterImpl)
  | serverPort (self : ServerPortHLE)
  | clientPort (self : ClientPortHLE)
  | serverSession (self : ServerSessionHLE)
  | clientSession (self : ClientSessionHLE)
  | codeSet
deriving DecidableEq, Repr

namespace KObject

/-- `Option<&KSynchronizationObject>`: everything with a queue but the arbiter. -/
def isSync : KObject → Bool
  | arbiter _ | codeSet => false
  | _ => true

/-- The wakers queued in an object. -/
def wakers : KObject → List Waker
  | event self => self.wakerQueue
  | timer self => self.wakerQueue
  | mutex self => self.wakerQueue
  | thread self => self.wakerQueue
  | arbiter self => self.wakerQueue.map Prod.fst
  | serverPort self => self.wakerQueue
  | clientPort self => self.wakerQueue
  | serverSession self => self.wakerQueue
  | clientSession self => self.wakerQueue
  | codeSet => []

/-- `remove_wakers_by_opaque_id`, of `KSynchronizationObject` and of `KAddressArbiter`. -/
def removeWakers (id : Nat) : KObject → KObject
  | event self => event { self with
      wakerQueue := self.wakerQueue.filter fun waker => !waker.checkOpaqueId id }
  | timer self => timer { self with
      wakerQueue := self.wakerQueue.filter fun waker => !waker.checkOpaqueId id }
  | mutex self => mutex { self with
      wakerQueue := self.wakerQueue.filter fun waker => !waker.checkOpaqueId id }
  | thread self => thread { self with
      wakerQueue := self.wakerQueue.filter fun waker => !waker.checkOpaqueId id }
  | arbiter self => arbiter { self with
      wakerQueue := self.wakerQueue.filter fun entry => !entry.1.checkOpaqueId id }
  | serverPort self => serverPort { self with
      wakerQueue := self.wakerQueue.filter fun waker => !waker.checkOpaqueId id }
  | clientPort self => clientPort { self with
      wakerQueue := self.wakerQueue.filter fun waker => !waker.checkOpaqueId id }
  | serverSession self => serverSession { self with
      wakerQueue := self.wakerQueue.filter fun waker => !waker.checkOpaqueId id }
  | clientSession self => clientSession { self with
      wakerQueue := self.wakerQueue.filter fun waker => !waker.checkOpaqueId id }
  | codeSet => codeSet

/-- The requests queued in a server session. -/
def requests : KObject → List ThreadIndex
  | serverSession self => self.requestQueue
  | _ => []

/-- The sessions queued in a server port. -/
def sessions : KObject → List ObjId
  | serverPort self => self.sessionQueue
  | _ => []

@[simp] theorem wakers_removeWakers (id : Nat) (x : KObject) :
    (x.removeWakers id).wakers = x.wakers.filter fun waker => waker.thread ≠ id := by
  cases x with
  | arbiter self =>
    unfold removeWakers wakers Waker.checkOpaqueId
    dsimp only
    rw [List.filter_map]
    simp [Function.comp_def]
  | codeSet => rfl
  | _ => simp [removeWakers, wakers, Waker.checkOpaqueId]

@[simp] theorem requests_removeWakers (id : Nat) (x : KObject) :
    (x.removeWakers id).requests = x.requests := by
  cases x <;> rfl

@[simp] theorem sessions_removeWakers (id : Nat) (x : KObject) :
    (x.removeWakers id).sessions = x.sessions := by
  cases x <;> rfl

end KObject

end Pomelo
