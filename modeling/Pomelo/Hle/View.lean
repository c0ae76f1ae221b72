/-
  What waiting and waking see of the kernel, and the moves they are made of.

  A `View` is the sleepers and the objects. Every supervisor call, and everything the main loop
  does, is a sequence of the moves below: a thread goes to sleep or is woken, a waker is put into
  a queue, an object changes, an object wakes what is queued in it. What is true of a waker in a
  queue after any run is then a matter of these moves, and not of the calls.

  A waker is live if it has its thread's key. `enqueueStale` is the move by which a waker that
  is not live gets into a queue.
-/
import Pomelo.Hle.System
import Pomelo.Kernel.Sleep
import Pomelo.Lib.Refine

namespace Pomelo

open Lib

/-- The threads, with their sleepers, and the objects. -/
structure View where
  sleepers : ThreadIndex → Option Sleeper
  objects : Objects
  indices : List ThreadIndex
  nextTid : Nat

def Kernel.view (k : Kernel) : View where
  sleepers := k.sleepers
  objects := k.objects
  indices := k.indices
  nextTid := k.nextTid

namespace View

def object? (v : View) (o : ObjId) : Option KObject := v.objects.at? o

/-- The wakers queued in an object. -/
def wakers (v : View) (o : ObjId) : List Waker :=
  match v.object? o with
  | some x => x.wakers
  | none => []

/-- The requests queued in a server session. -/
def requests (v : View) (o : ObjId) : List ThreadIndex :=
  match v.object? o with
  | some x => x.requests
  | none => []

/-- The sessions queued in a server port. -/
def sessions (v : View) (o : ObjId) : List ObjId :=
  match v.object? o with
  | some x => x.sessions
  | none => []

def modify (v : View) (o : ObjId) (f : KObject → KObject) : View :=
  { v with objects := v.objects.modify o f }

/-- The thread `t`, whose sleeper is `self`, is woken: its wakers leave the objects it waits
    on. -/
def wake (v : View) (t : ThreadIndex) (self : Sleeper) : View :=
  { v with
    sleepers := Function.update v.sleepers t (some self.woken)
    objects := v.objects.removeWakers t self.waitObjects }

/-- The waker has its thread's key. -/
def Live (v : View) (w : Waker) : Prop :=
  ∃ self, v.sleepers w.thread = some self ∧ self.wakeKey = w.key

/-- What `Waker::wake` does, whether or not it wakes the thread. -/
def tryWake (v : View) (w : Waker) : View :=
  match v.sleepers w.thread with
  | some self => if self.wakeKey = w.key then v.wake w.thread self else v
  | none => v

end View

/-! ## Ends of ports and sessions -/

/-- What a port or a session refers to at its other end. -/
inductive Peer where
  | none
  | ofServerPort (client : Option ObjId)
  | ofClientPort (server : ObjId)
  | ofServerSession (client : Option ObjId)
  | ofClientSession (server : ObjId)
deriving DecidableEq, Repr

/-- The two ends of a port or of a session have adjacent places, the server end the first. -/
def Peer.Adjacent (o : ObjId) : Peer → Prop
  | none => True
  | ofServerPort client => client = some (o + 1)
  | ofClientPort server => o = server + 1
  | ofServerSession client => client = some (o + 1)
  | ofClientSession server => o = server + 1

namespace KObject

def peer : KObject → Peer
  | serverPort self => .ofServerPort self.client
  | clientPort self => .ofClientPort self.server
  | serverSession self => .ofServerSession self.client
  | clientSession self => .ofClientSession self.server
  | _ => .none

/-- A change that keeps what ports and sessions have besides their wakers. -/
structure Plain (f : KObject → KObject) : Prop where
  requests : ∀ x, (f x).requests = x.requests
  sessions : ∀ x, (f x).sessions = x.sessions
  peer : ∀ x, (f x).peer = x.peer

theorem plain_id : Plain id := ⟨fun _ => rfl, fun _ => rfl, fun _ => rfl⟩

theorem plain_removeWakers (id : Nat) : Plain (removeWakers id) := by
  refine ⟨requests_removeWakers id, sessions_removeWakers id, fun x => ?_⟩
  cases x <;> rfl

theorem plain_pushWaker (waker : Waker) : Plain (pushWaker waker) := by
  refine ⟨fun x => ?_, fun x => ?_, fun x => ?_⟩ <;> cases x <;> rfl

theorem plain_setWakers (wakers : List Waker) : Plain (setWakers wakers) := by
  refine ⟨fun x => ?_, fun x => ?_, fun x => ?_⟩ <;> cases x <;> rfl

theorem plain_modifySignal (f : Signal → Signal) : Plain (modifySignal f) := by
  refine ⟨fun x => ?_, fun x => ?_, fun x => ?_⟩ <;> cases x <;> rfl

theorem plain_setAcquired (acquired : Bool) : Plain (setAcquired acquired) := by
  refine ⟨fun x => ?_, fun x => ?_, fun x => ?_⟩ <;> cases x <;> rfl

theorem plain_setDead (dead : Bool) : Plain (setDead dead) := by
  refine ⟨fun x => ?_, fun x => ?_, fun x => ?_⟩ <;> cases x <;> rfl

theorem plain_setTimerData (data : TimerImplData) : Plain (setTimerData data) := by
  refine ⟨fun x => ?_, fun x => ?_, fun x => ?_⟩ <;> cases x <;> rfl

theorem plain_setArbiterQueue (queue : List (Waker × UInt32)) : Plain (setArbiterQueue queue) := by
  refine ⟨fun x => ?_, fun x => ?_, fun x => ?_⟩ <;> cases x <;> rfl

/-! ### What the changes do to the wakers -/

@[simp] theorem wakers_modifySignal (f : Signal → Signal) (x : KObject) :
    (x.modifySignal f).wakers = x.wakers := by
  cases x <;> rfl

@[simp] theorem wakers_setAcquired (acquired : Bool) (x : KObject) :
    (x.setAcquired acquired).wakers = x.wakers := by
  cases x <;> rfl

@[simp] theorem wakers_setDead (dead : Bool) (x : KObject) :
    (x.setDead dead).wakers = x.wakers := by
  cases x <;> rfl

@[simp] theorem wakers_setTimerData (data : TimerImplData) (x : KObject) :
    (x.setTimerData data).wakers = x.wakers := by
  cases x <;> rfl

@[simp] theorem wakers_setRequests (requests : List ThreadIndex) (x : KObject) :
    (x.setRequests requests).wakers = x.wakers := by
  cases x <;> rfl

@[simp] theorem wakers_setSessions (sessions : List ObjId) (x : KObject) :
    (x.setSessions sessions).wakers = x.wakers := by
  cases x <;> rfl

@[simp] theorem wakers_setClient (client : ObjId) (x : KObject) :
    (x.setClient client).wakers = x.wakers := by
  cases x <;> rfl

theorem mem_wakers_setWakers {wakers : List Waker} {x : KObject} {w : Waker}
    (h : w ∈ (x.setWakers wakers).wakers) : w ∈ wakers ∨ x.isSync = false ∧ w ∈ x.wakers := by
  cases x with
  | arbiter self => exact Or.inr ⟨rfl, h⟩
  | codeSet => exact Or.inr ⟨rfl, h⟩
  | _ => exact Or.inl h

theorem mem_wakers_pushWaker {waker : Waker} {x : KObject} {w : Waker}
    (h : w ∈ (x.pushWaker waker).wakers) : w ∈ x.wakers ∨ w = waker := by
  cases x with
  | arbiter self => exact Or.inl h
  | codeSet => exact Or.inl h
  | _ =>
    rcases List.mem_append.mp h with h | h
    · exact Or.inl h
    · exact Or.inr (List.mem_singleton.mp h)

theorem wakers_pushWaker_of_peer (waker : Waker) {x : KObject} (h : x.peer ≠ .none) :
    (x.pushWaker waker).wakers = x.wakers ++ [waker] := by
  cases x with
  | arbiter self => exact absurd rfl h
  | codeSet => exact absurd rfl h
  | _ => rfl

theorem wakers_setWakers_of_peer (wakers : List Waker) {x : KObject} (h : x.peer ≠ .none) :
    (x.setWakers wakers).wakers = wakers := by
  cases x with
  | arbiter self => exact absurd rfl h
  | codeSet => exact absurd rfl h
  | _ => rfl

/-! ### Ends and queues -/

theorem requests_of_peer {x : KObject} (h : ∀ client, x.peer ≠ .ofServerSession client) :
    x.requests = [] := by
  cases x with
  | serverSession self => exact absurd rfl (h self.client)
  | _ => rfl

theorem sessions_of_peer {x : KObject} (h : ∀ client, x.peer ≠ .ofServerPort client) :
    x.sessions = [] := by
  cases x with
  | serverPort self => exact absurd rfl (h self.client)
  | _ => rfl

/-- A change that keeps the end that an object is, and adds no waker. -/
structure Keeps (f : KObject → KObject) : Prop where
  peer : ∀ x, (f x).peer = x.peer
  wakers : ∀ x, ∀ w ∈ (f x).wakers, w ∈ x.wakers

/-- The queue of an address arbiter. -/
def arbiterQueue : KObject → Option (List (Waker × UInt32))
  | arbiter self => some self.wakerQueue
  | _ => none

/-- A change that leaves address arbiters as they are, and makes none. -/
def SparesArbiters (f : KObject → KObject) : Prop := ∀ x, (f x).arbiterQueue = x.arbiterQueue

namespace SparesArbiters

theorem id : SparesArbiters id := fun _ => rfl

theorem comp {f g : KObject → KObject} (hf : SparesArbiters f) (hg : SparesArbiters g) :
    SparesArbiters fun x => g (f x) :=
  fun x => (hg _).trans (hf x)

theorem pushWaker (waker : Waker) : SparesArbiters (pushWaker waker) := fun x => by
  cases x <;> rfl

theorem setWakers (wakers : List Waker) : SparesArbiters (setWakers wakers) := fun x => by
  cases x <;> rfl

theorem modifySignal (f : Signal → Signal) : SparesArbiters (modifySignal f) := fun x => by
  cases x <;> rfl

theorem setAcquired (acquired : Bool) : SparesArbiters (setAcquired acquired) := fun x => by
  cases x <;> rfl

theorem setDead (dead : Bool) : SparesArbiters (setDead dead) := fun x => by
  cases x <;> rfl

theorem setTimerData (data : TimerImplData) : SparesArbiters (setTimerData data) := fun x => by
  cases x <;> rfl

end SparesArbiters

/-- Ends of ports and sessions are no arbiters. -/
theorem arbiterQueue_of_peer {x : KObject} (h : x.peer ≠ .none) : x.arbiterQueue = none := by
  cases x with
  | arbiter self => exact absurd rfl h
  | _ => rfl

theorem arbiterQueue_removeWakers (id : Nat) (x : KObject) :
    (x.removeWakers id).arbiterQueue =
      x.arbiterQueue.map (List.filter fun entry => entry.1.thread ≠ id) := by
  cases x with
  | arbiter self =>
    unfold removeWakers Waker.checkOpaqueId
    simp [arbiterQueue]
  | _ => rfl

/-- The object has no wakers, requests or sessions yet. -/
structure New (x : KObject) : Prop where
  wakers : x.wakers = []
  requests : x.requests = []
  sessions : x.sessions = []

end KObject

/-! ## Moves -/

/-- One of the changes that calls are made of. A change of an object names what end of a port or
    session it is. -/
inductive Move where
  | turn (t : ThreadIndex) (state : ThreadState)
  | born (t : ThreadIndex)
  | make (x : KObject)
  | makePair (server client : KObject)
  | drop (o : ObjId)
  | suspend (t : ThreadIndex) (objects : List ObjId) (timeout : Option UInt64)
      (waitType : ThreadWaitType)
  | expire (t : ThreadIndex)
  | change (o : ObjId) (p : Peer) (f : KObject → KObject)
  | enqueue (o : ObjId) (p : Peer) (w : Waker) (f : KObject → KObject)
  | enqueueStale (o : ObjId) (p : Peer) (w : Waker) (f : KObject → KObject)
  | take (o : ObjId) (p : Peer) (w : Waker) (f : KObject → KObject)
  | act (o : ObjId) (p : Peer) (ws : List Waker) (f g : KObject → KObject)

namespace View

/-- The object, whose end is `p`, is changed to one with the same end, and gets no wakers but
    those of `ws`. -/
structure Adds (v : View) (o : ObjId) (p : Peer) (ws : List Waker) (f : KObject → KObject) :
    Prop where
  peer : ∀ x, v.object? o = some x → x.peer = p ∧ (f x).peer = p
  wakers : ∀ x, v.object? o = some x → ∀ w ∈ (f x).wakers, w ∈ x.wakers ∨ w ∈ ws

/-- Each thread has one index, below the next one. -/
structure Tidy (v : View) : Prop where
  nodup : v.indices.Nodup
  below : ∀ t ∈ v.indices, t < v.nextTid

inductive Step : View → Move → View → Prop where
  /-- A thread starts, stops, or is done. -/
  | turn {v : View} {t : ThreadIndex} {self : Sleeper} {state : ThreadState}
      (h : v.sleepers t = some self) (hs : self.state ≠ .waiting) (hn : state ≠ .waiting) :
      Step v (.turn t state)
        { v with sleepers := Function.update v.sleepers t (some (self.inState state)) }
  | born {v : View} : Step v (.born v.nextTid)
      { v with
        sleepers := fun t => (v.sleepers t).or (if t = v.nextTid then some Sleeper.new else none)
        indices := v.indices ++ [v.nextTid]
        nextTid := v.nextTid + 1 }
  | make {v : View} {x : KObject} (hx : x.New) (hp : x.peer = .none) :
      Step v (.make x) { v with objects := v.objects ++ [some x] }
  /-- The two ends of a port or of a session, the server end first. -/
  | makePair {v : View} {server client : KObject} (hs : server.New) (hc : client.New)
      (hp : server.peer = .ofServerPort (some (v.objects.length + 1)) ∧
          client.peer = .ofClientPort v.objects.length ∨
        server.peer = .ofServerSession (some (v.objects.length + 1)) ∧
          client.peer = .ofClientSession v.objects.length) :
      Step v (.makePair server client)
        { v with objects := v.objects ++ [some server, some client] }
  | drop {v : View} {o : ObjId} (h : ∀ t self, v.sleepers t = some self → o ∉ self.waitObjects) :
      Step v (.drop o) { v with objects := v.objects.set o none }
  | suspend {v : View} {t : ThreadIndex} {self : Sleeper} {objects : List ObjId}
      {timeout : Option UInt64} {waitType : ThreadWaitType} (h : v.sleepers t = some self)
      (hs : self.state = .running) :
      Step v (.suspend t objects timeout waitType)
        { v with sleepers :=
            Function.update v.sleepers t (some (self.suspended objects timeout waitType)) }
  | expire {v : View} {t : ThreadIndex} {self : Sleeper} (h : v.sleepers t = some self)
      (hs : self.state = .waiting) (ht : self.waitTimeout ≠ none) :
      Step v (.expire t) (v.wake t self)
  | change {v : View} {o : ObjId} {p : Peer} {f : KObject → KObject} (hf : v.Adds o p [] f) :
      Step v (.change o p f) (v.modify o f)
  | enqueue {v : View} {o : ObjId} {p : Peer} {w : Waker} {f : KObject → KObject} {self : Sleeper}
      (h : v.sleepers w.thread = some self) (hk : self.wakeKey = w.key)
      (hs : self.state = .waiting) (ho : o ∈ self.waitObjects) (hf : v.Adds o p [w] f) :
      Step v (.enqueue o p w f) (v.modify o f)
  | enqueueStale {v : View} {o : ObjId} {p : Peer} {w : Waker} {f : KObject → KObject}
      (h : ¬ v.Live w) (hf : v.Adds o p [w] f) : Step v (.enqueueStale o p w f) (v.modify o f)
  /-- A thread that waits on an object that is there at once. -/
  | take {v : View} {o : ObjId} {p : Peer} {w : Waker} {f : KObject → KObject} {self : Sleeper}
      (h : v.sleepers w.thread = some self) (hk : self.wakeKey = w.key)
      (hs : self.state = .waiting) (ho : o ∈ self.waitObjects) (hf : v.Adds o p [] f) :
      Step v (.take o p w f) ((v.modify o f).wake w.thread self)
  /-- An object wakes threads that are queued in it. -/
  | act {v : View} {o : ObjId} {p : Peer} {ws : List Waker} {f g : KObject → KObject}
      (hws : ∀ w ∈ ws, w ∈ v.wakers o) (hf : v.Adds o p [] f) (hg : KObject.Keeps g) :
      Step v (.act o p ws f g) ((ws.foldl tryWake (v.modify o f)).modify o g)

end View

/-- What a panic says about the view: a waker in the queue of the object is not live. -/
def Blame : HlePanic → View → Prop
  | .wake o, v => ∃ w ∈ v.wakers o, ¬ v.Live w
  | .other _, _ => True

/-- A call, from a kernel to what it returns, is made of the allowed moves. -/
abbrev MadeOf {α : Type} (allowed : Move → Prop) (view : α → View) (k : Kernel)
    (x : HleExec α) : Prop :=
  Refines View.Step Blame allowed view k.view x

end Pomelo
