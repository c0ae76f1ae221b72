/-
  Runs as one object sees them.

  `CallStep o` are the calls on object `o`, and what happens between two of them: another object
  wakes a thread, threads time out, or anything that leaves `o` as it is. A thread that is woken
  or times out takes its wakers out of the queue of `o`, behind its back. The only threads that
  `o` itself wakes are those woken in a call on it (`ObjectCall.woken`).

  A supervisor call that does not call the object is made of what happens around it (`Around`).
-/
import Pomelo.Hle.SvcCases
import Pomelo.Hle.Waits
import Pomelo.Hle.Quiet
import Pomelo.Kernel.WakeOnce
import Mathlib.Data.Finset.Dedup
import Mathlib.Data.Finset.Card

namespace Pomelo

open Lib Outcome

/-- A call on the object, or what happens around it. -/
inductive ObjectCall where
  | wait (w : Waker)
  | release
  | signal
  | clear
  | tick (time : UInt64)
  | set (initialNs interval : Int64)
  | wake (w : Waker) (p : ObjId)
  | timeouts (time : UInt64)
  | other
deriving DecidableEq, Repr

inductive CallStep (o : ObjId) : Kernel → ObjectCall → Kernel → Prop where
  | wait {k k' : Kernel} {w : Waker} {x : KObject} (hx : k.object? o = some x)
      (h : KObject.wait o w k x = .ret k') : CallStep o k (.wait w) k'
  | release {k k' : Kernel} {self : MutexImpl} (hx : k.object? o = some (.mutex self))
      (h : self.release o k = .ret k') : CallStep o k .release k'
  | signal {k k' : Kernel} {self : EventImpl} (hx : k.object? o = some (.event self))
      (h : self.doSignal o k = .ret k') : CallStep o k .signal k'
  | clear {k : Kernel} {self : EventImpl} (hx : k.object? o = some (.event self)) :
      CallStep o k .clear (EventImpl.clear o k)
  | tick {k k' : Kernel} {time : UInt64} {self : TimerImpl}
      (hx : k.object? o = some (.timer self)) (h : self.tick o time k = .ret k') :
      CallStep o k (.tick time) k'
  | set {k : Kernel} {initialNs interval : Int64} {self : TimerImpl}
      (hx : k.object? o = some (.timer self)) :
      CallStep o k (.set initialNs interval) (TimerImpl.set o initialNs interval k)
  /-- Another object wakes the thread of a waker, or tries to. -/
  | wake {k k' : Kernel} {w : Waker} {p : ObjId} {ok : Bool} (hp : p ≠ o)
      (h : w.wake p k = .ret (ok, k')) : CallStep o k (.wake w p) k'
  | timeouts {k k' : Kernel} {time : UInt64} (h : k.tickThreadsAt time = .ret k') :
      CallStep o k (.timeouts time) k'
  | other {k k' : Kernel} (h : k'.object? o = k.object? o) : CallStep o k .other k'

namespace ObjectCall

/-- The object can wake threads in the call. -/
def wakes : ObjectCall → Bool
  | wait _ | release | signal | tick _ => true
  | _ => false

/-- The threads that the object woke in the call: those whose wake key changed. -/
def woken (call : ObjectCall) (k k' : Kernel) : Finset ThreadIndex :=
  if call.wakes then (wokenThreads k k').toFinset else ∅

end ObjectCall

/-! ## Who is woken -/

section Woken

variable {k k' : Kernel}

/-- Nobody is woken if no thread changes. -/
theorem woken_eq_empty (h : k'.sleepers = k.sleepers) : (wokenThreads k k').toFinset = ∅ := by
  have hnil : wokenThreads k k' = [] := Traced.wokenThreads_eq_nil fun tid self hself =>
    ⟨self, by rw [h, hself], rfl⟩
  rw [hnil]
  rfl

theorem mem_woken {t : ThreadIndex} {self self' : Sleeper} (hself : k.sleepers t = some self)
    (hself' : k'.sleepers t = some self') (hkey : self'.wakeKey ≠ self.wakeKey) :
    t ∈ (wokenThreads k k').toFinset := by
  rw [List.mem_toFinset, Traced.mem_wokenThreads]
  refine ⟨Traced.mem_indices_of_sleeper hself, fun heq => hkey ?_⟩
  rw [hself, hself'] at heq
  injection heq

/-- A thread is woken if it is given its next key. -/
theorem woken_eq_singleton {t : ThreadIndex} {self : Sleeper} (hself : k.sleepers t = some self)
    (h : k'.sleepers = Function.update k.sleepers t (some self.woken)) :
    (wokenThreads k k').toFinset = {t} := by
  ext t'
  rw [Finset.mem_singleton]
  constructor
  · intro hmem
    rw [List.mem_toFinset, Traced.mem_wokenThreads] at hmem
    by_contra hne
    rw [h, Function.update_of_ne hne] at hmem
    exact hmem.2 rfl
  · intro ht
    rw [ht]
    have hnext : k'.sleepers t = some self.woken := by
      rw [h, Function.update_self]
    have hkey : self.woken.wakeKey ≠ self.wakeKey := by
      show self.wakeKey + 1 ≠ self.wakeKey
      grind
    exact mem_woken hself hnext hkey

end Woken

/-! ## Behind the object's back -/

namespace Loses

variable {x y : KObject}

theorem mutex {self : MutexImpl} (h : Loses (.mutex self) y) : ∃ queue : List Waker,
    queue.Sublist self.wakerQueue ∧ y = .mutex { self with wakerQueue := queue } := by
  induction h with
  | refl => exact ⟨self.wakerQueue, List.Sublist.refl _, rfl⟩
  | @tail y t _ ih =>
    obtain ⟨queue, hqueue, rfl⟩ := ih
    exact ⟨_, List.filter_sublist.trans hqueue, rfl⟩

end Loses

/-- A wake, whether or not it wakes the thread, may only take the thread's wakers out. -/
theorem loses_wake {k k' : Kernel} {w : Waker} {p o : ObjId} {ok : Bool} {x : KObject}
    (h : w.wake p k = .ret (ok, k')) (hx : k.object? o = some x) :
    ∃ y, k'.object? o = some y ∧ Loses x y := by
  obtain ⟨thread, _, h⟩ := Kernel.wake_eq_ret h
  rcases h with ⟨_, _, resume, _, rfl⟩ | ⟨_, _, rfl⟩
  · have hat := Objects.at?_removeWakers w.thread thread.waitObjects k.objects o
    have hx' : k.objects.at? o = some x := hx
    rw [hx'] at hat
    by_cases ho : o ∈ thread.waitObjects
    · rw [if_pos ho] at hat
      exact ⟨_, hat, .tail .refl⟩
    · rw [if_neg ho] at hat
      exact ⟨x, hat, .refl⟩
  · exact ⟨x, hx, .refl⟩

theorem loses_tickThreads {time : UInt64} {threads threads' : List CommonThread}
    {objects objects' : Objects} {o : ObjId} {x : KObject}
    (h : tickThreads time threads objects = .ret (threads', objects'))
    (hx : objects.at? o = some x) : ∃ y, objects'.at? o = some y ∧ Loses x y := by
  induction threads generalizing threads' objects objects' x with
  | nil =>
    injection h with h
    obtain ⟨_, rfl⟩ := Prod.mk.inj h
    exact ⟨x, hx, .refl⟩
  | cons thread threads ih =>
    obtain ⟨⟨thread', objects1⟩, hone, h⟩ := bind_eq_ret.mp h
    obtain ⟨⟨threads1, objects2⟩, hrest, h⟩ := bind_eq_ret.mp h
    injection h with h
    obtain ⟨_, rfl⟩ := Prod.mk.inj h
    have hfirst : ∃ y, objects1.at? o = some y ∧ Loses x y := by
      rcases tickAt_eq_ret hone with ⟨_, resume, _, _, rfl⟩ | ⟨_, _, rfl⟩
      · rw [Objects.at?_removeWakers, hx]
        split
        · exact ⟨_, rfl, .tail .refl⟩
        · exact ⟨x, rfl, .refl⟩
      · exact ⟨x, hx, .refl⟩
    obtain ⟨y, hy, hloses⟩ := hfirst
    obtain ⟨z, hz, hloses'⟩ := ih hrest hy
    exact ⟨z, hz, hloses.trans hloses'⟩

theorem loses_tickThreadsAt {k k' : Kernel} {time : UInt64} {o : ObjId} {x : KObject}
    (h : k.tickThreadsAt time = .ret k') (hx : k.object? o = some x) :
    ∃ y, k'.object? o = some y ∧ Loses x y := by
  obtain ⟨⟨threads, objects⟩, htick, h⟩ := bind_eq_ret.mp h
  injection h with h
  obtain ⟨y, hy, hloses⟩ := loses_tickThreads htick hx
  exact ⟨y, by rw [← h]; exact hy, hloses⟩

/-! ## What waits and wakes do to the object -/

section Effect

variable {k k' : Kernel} {o : ObjId} {w : Waker} {x : KObject}

/-- The thread of the waker is woken, and no other. -/
def Wakes (w : Waker) (k k' : Kernel) : Prop :=
  ∃ self, k.sleepers w.thread = some self ∧ self.wakeKey = w.key ∧
    k'.sleepers = Function.update k.sleepers w.thread (some self.woken)

theorem Wakes.woken (h : Wakes w k k') : (wokenThreads k k').toFinset = {w.thread} := by
  obtain ⟨self, hself, _, hsleepers⟩ := h
  exact woken_eq_singleton hself hsleepers

/-- A wake that is expected to succeed, by the object or another. -/
theorem wakeExpect_effect {p : ObjId} (hx : k.object? o = some x)
    (h : w.wakeExpect p k = .ret k') :
    w.wake p k = .ret (true, k') ∧ Wakes w k k' ∧ ∃ y, k'.object? o = some y ∧ Loses x y := by
  obtain ⟨⟨ok, k1⟩, hwake, h⟩ := bind_eq_ret.mp h
  obtain ⟨_, hok, h⟩ := bind_eq_ret.mp h
  injection h with h
  subst h
  have hok : ok = true := assert_eq_ret.mp hok
  subst hok
  have hwake := mapPanic_eq_ret.mp hwake
  refine ⟨hwake, ?_, loses_wake hwake hx⟩
  obtain ⟨_, self, hself, hor⟩ := Kernel.wake_sleepers hwake
  rcases hor with ⟨_, hkey, hsleepers⟩ | ⟨hfalse, _⟩
  · exact ⟨self, hself, hkey, hsleepers⟩
  · cases hfalse

/-- A wait puts the waker into the queue, or takes the object and wakes the thread, or finds
    the object there and the thread already woken. -/
theorem wait_effect (hx : k.object? o = some x) (h : KObject.wait o w k x = .ret k') :
    x.ready = false ∧ k'.object? o = some (x.pushWaker w) ∧ k'.sleepers = k.sleepers ∨
    x.ready = true ∧ Wakes w k k' ∧ (∃ y, k'.object? o = some y ∧ Loses (x.takeFor x) y) ∨
    x.ready = true ∧ ¬ k.view.Live w ∧ k'.object? o = some (x.untakeFor (x.takeFor x)) ∧
      k'.sleepers = k.sleepers := by
  have hview : k.view.object? o = some x := hx
  have hmodify : ∀ f, (k.view.modify o f).object? o = some (f x) := fun f => by
    rw [View.object?_modify, if_pos rfl, hview]
    rfl
  rcases wait_cases h with ⟨hready, hk'⟩ | ⟨hready, hlive, hk'⟩ | ⟨hready, hlive, hk'⟩
  · refine Or.inl ⟨hready, ?_, congrArg View.sleepers hk'⟩
    rw [← hmodify, ← hk']
    rfl
  · have hlive' : (k.view.modify o x.takeFor).Live w := hlive
    obtain ⟨self, hself, hkey, htry⟩ := View.tryWake_of_live hlive'
    rw [htry] at hk'
    refine Or.inr (Or.inl ⟨hready, ⟨self, hself, hkey, congrArg View.sleepers hk'⟩, ?_⟩)
    have hobject : k'.object? o = ((k.view.modify o x.takeFor).wake w.thread self).object? o :=
      congrArg (View.object? · o) hk'
    rw [View.object?_wake, hmodify] at hobject
    split at hobject
    · exact ⟨_, hobject, .tail .refl⟩
    · exact ⟨_, hobject, .refl⟩
  · refine Or.inr (Or.inr ⟨hready, hlive, ?_, congrArg View.sleepers hk'⟩)
    have hobject : k'.object? o =
        (k.view.modify o fun y => x.untakeFor (x.takeFor y)).object? o :=
      congrArg (View.object? · o) hk'
    rw [hobject, hmodify]

end Effect

/-! ## What happens around the object -/

/-- The call is none on the object, but what happens around it. -/
def ObjectCall.isAround : ObjectCall → Bool
  | wake _ _ | timeouts _ | other => true
  | _ => false

/-- What happens around the object, without a call on it. -/
abbrev Around (o : ObjId) : Kernel → Kernel → Prop :=
  Moves (CallStep o) fun call => call.isAround = true

namespace Around

variable {o p : ObjId} {k k' : Kernel} {w : Waker} {ws : List Waker}

theorem of_object (h : k'.object? o = k.object? o) : Around o k k' :=
  .single rfl (.other h)

theorem of_view (h : k'.view = k.view) : Around o k k' :=
  of_object (congrArg (View.object? · o) h)

theorem of_processes (h : k.ProcessesOnly k') : Around o k k' := of_object (h.object? o)

/-- A change of another object. -/
theorem of_modify (hp : p ≠ o) (f : KObject → KObject) : Around o k (k.modifyObject p f) :=
  of_object (by rw [Kernel.object?_modifyObject, if_neg (Ne.symm hp)])

theorem of_wake {ok : Bool} (hp : p ≠ o) (h : w.wake p k = .ret (ok, k')) : Around o k k' :=
  .single rfl (.wake hp h)

theorem of_wakeExpect (hp : p ≠ o) (h : w.wakeExpect p k = .ret k') : Around o k k' := by
  obtain ⟨⟨ok, k1⟩, hwake, h⟩ := bind_eq_ret.mp h
  obtain ⟨_, _, h⟩ := bind_eq_ret.mp h
  injection h with h
  subst h
  exact of_wake hp (mapPanic_eq_ret.mp hwake)

theorem of_wakeEach (hp : p ≠ o) (h : wakeEach p ws k = .ret k') : Around o k k' := by
  induction ws generalizing k with
  | nil =>
    injection h with h
    exact .of_eq h
  | cons w ws ih =>
    obtain ⟨⟨ok, k1⟩, hwake, h⟩ := bind_eq_ret.mp h
    exact (of_wake hp hwake).trans (ih h)

theorem of_wakeDrained (hp : p ≠ o) (h : ArbiterImpl.wakeDrained p ws k = .ret k') :
    Around o k k' := by
  induction ws generalizing k with
  | nil =>
    injection h with h
    exact .of_eq h
  | cons w ws ih =>
    obtain ⟨⟨ok, k1⟩, hwake, h⟩ := bind_eq_ret.mp h
    obtain ⟨_, _, h⟩ := bind_eq_ret.mp h
    exact (of_wake hp hwake).trans (ih h)

theorem of_wakeFront (hp : p ≠ o) (h : wakeFront p ws k = .ret k') : Around o k k' := by
  cases ws with
  | nil =>
    injection h with h
    exact .of_eq h
  | cons w ws => exact (of_modify hp _).trans (of_wakeExpect hp h)

theorem of_wakeForSignal {signal : Signal} (hp : p ≠ o)
    (h : wakeForSignal p signal ws k = .ret k') : Around o k k' := by
  unfold wakeForSignal at h
  split at h
  · obtain ⟨k1, hwakes, h⟩ := bind_eq_ret.mp h
    injection h with h
    subst h
    have haround := of_wakeEach hp (mapPanic_eq_ret.mp hwakes)
    exact ((of_modify hp _).trans haround).trans (of_modify hp _)
  · cases ws with
    | nil =>
      injection h with h
      exact .of_eq h
    | cons w ws =>
      obtain ⟨k1, hwake, h⟩ := bind_eq_ret.mp h
      injection h with h
      subst h
      exact (of_wakeExpect hp hwake).trans (of_modify hp _)

theorem of_waitOr {ready : Bool} {take untake : KObject → KObject} (hp : p ≠ o)
    (h : waitOr p w ready take untake k = .ret k') : Around o k k' := by
  unfold waitOr at h
  split at h
  · obtain ⟨⟨ok, k1⟩, hwake, h⟩ := bind_eq_ret.mp h
    injection h with h
    have haround : Around o k k1 := (of_modify hp _).trans (of_wake hp hwake)
    cases ok with
    | true =>
      rw [if_pos rfl] at h
      exact h ▸ haround
    | false =>
      rw [if_neg (by simp)] at h
      exact h ▸ haround.trans (of_modify hp _)
  · injection h with h
    exact h ▸ of_modify hp _

/-- A wait on another object. -/
theorem of_wait {x : KObject} (hp : p ≠ o) (h : KObject.wait p w k x = .ret k') :
    Around o k k' := by
  cases x with
  | event self => exact of_waitOr hp h
  | timer self => exact of_waitOr hp h
  | mutex self => exact of_waitOr hp h
  | thread self => exact of_waitOr hp h
  | arbiter self => cases h
  | codeSet => cases h
  | _ =>
    injection h with h
    exact h ▸ of_modify hp _

end Around

/-! ## Supervisor calls -/

/-- An event, a timer or a mutex: an object that threads take. -/
def KObject.isTaken : KObject → Bool
  | event _ | timer _ | mutex _ => true
  | _ => false

section Svc

variable {rng : Nat → UInt32} {fuel : Nat} {time : UInt64} {k k' : Kernel} {o : ObjId}

/-- An object of another kind is another object. -/
theorem ne_of_isTaken {p : ObjId} {x y : KObject} (hx : k.object? o = some x)
    (hk : x.isTaken = true) (hy : k.object? p = some y) (hn : y.isTaken = false) : p ≠ o := by
  intro hp
  rw [hp, hx] at hy
  injection hy with hy
  rw [hy, hn] at hk
  cases hk

theorem suspendThread_object? {objects : List ObjId} {timeout : Option UInt64}
    {waitType : ThreadWaitType} {w : Waker}
    (h : k.suspendThread objects timeout waitType = .ret (w, k')) (p : ObjId) :
    k'.object? p = k.object? p := by
  obtain ⟨pid, tid, thread, _, _, _, _, rfl⟩ := Kernel.suspendThread_eq_ret h
  rfl

theorem waitOn_around {p : ObjId} {x : KObject} {timeout : Option UInt64} (hp : p ≠ o)
    (h : k.waitOn p x timeout = .ret k') : Around o k k' := by
  obtain ⟨⟨w, k1⟩, hsuspend, h⟩ := bind_eq_ret.mp h
  exact (Around.of_object (suspendThread_object? hsuspend o)).trans (Around.of_wait hp h)

theorem sleepThread_around {ns : Int64} (h : k.sleepThread time ns = .ret k') : Around o k k' := by
  obtain ⟨absolute, w, hsuspend⟩ := sleepThread_cases h
  exact Around.of_object (suspendThread_object? hsuspend o)

variable {x : KObject}

theorem arbitrateAddress_around {handle : Option Handle} {addr : UInt32} {typ : ArbitrationType}
    {memoryValue value : Int32} {r : KResult (Option Reschedule)} (hx : k.object? o = some x)
    (hk : x.isTaken = true)
    (h : k.arbitrateAddress handle addr typ memoryValue value = .ret (r, k')) :
    Around o k k' := by
  rcases arbitrateAddress_cases h with rfl | ⟨p, arb, hfound, hcase⟩
  · exact .refl k'
  · have hp : p ≠ o := ne_of_isTaken hx hk (lookupObject_eq_ret hfound) rfl
    rcases hcase with ⟨woke, hsignal⟩ | ⟨w, k1, hsuspend, rfl⟩
    · obtain ⟨k1, hwakes, hsignal⟩ := bind_eq_ret.mp hsignal
      cases hsignal
      exact (Around.of_modify hp _).trans (Around.of_wakeDrained hp hwakes)
    · exact (Around.of_object (suspendThread_object? hsuspend o)).trans (Around.of_modify hp _)

/-! ### Sessions and ports -/

theorem client_of_clientSession? {client : Option ObjId} {p : ObjId} {self : ClientSessionHLE}
    (h : k.clientSession? client = some (p, self)) : client = some p := by
  unfold Kernel.clientSession? at h
  obtain ⟨q, hq, h⟩ := Option.bind_eq_some_iff.mp h
  split at h
  · injection h with h
    rw [hq, (Prod.mk.inj h).1]
  · cases h

theorem client_of_clientPort? {client : Option ObjId} {p : ObjId} {self : ClientPortHLE}
    (h : k.clientPort? client = some (p, self)) : client = some p := by
  unfold Kernel.clientPort? at h
  obtain ⟨q, hq, h⟩ := Option.bind_eq_some_iff.mp h
  split at h
  · injection h with h
    rw [hq, (Prod.mk.inj h).1]
  · cases h

theorem replyTo_around {replyTarget : Option Handle} {r : KResult Unit}
    (hx : k.object? o = some x) (hk : x.isTaken = true)
    (h : k.replyTo rng fuel replyTarget = .ret (r, k')) : Around o k k' := by
  rcases replyTo_cases h with rfl | ⟨pid, server, p, session, _, hfound, _, hreply⟩
  · exact .refl k'
  · have hp : p ≠ o := ne_of_isTaken hx hk (lookupObject_eq_ret hfound) rfl
    obtain ⟨client, rest, k1, c, data, _, htranslate, hdata, hwake⟩ := reply_cases hreply
    have hsame : k1.object? o = k.object? o := by
      rw [Kernel.translateIpc_object? htranslate, Kernel.object?_modifyObject,
        if_neg (Ne.symm hp)]
    have hne : c ≠ o := ne_of_isTaken (hsame.trans hx) hk (clientSession?_eq_some hdata) rfl
    exact (Around.of_object hsame).trans (Around.of_wakeFront hne hwake)

theorem replyAndReceivePost_around {handles : List (Option Handle)} {resume : ThreadResume}
    {r : Nat × KResult Unit}
    (h : k.replyAndReceivePost rng fuel handles resume = .ret (r, k')) : Around o k k' := by
  rcases replyAndReceivePost_cases h with rfl | ⟨client, server, htranslate⟩
  · exact .refl k'
  · exact Around.of_object (Kernel.translateIpc_object? htranslate o)

theorem sendSyncRequest_around {handle : Option Handle} {r : KResult (Option Reschedule)}
    (hx : k.object? o = some x) (hk : x.isTaken = true)
    (h : k.sendSyncRequest handle = .ret (r, k')) : Around o k k' := by
  rcases sendSyncRequest_cases h with
    rfl | ⟨p, session, w, k1, server, hfound, hsuspend, hserver, henqueue⟩
  · exact .refl k'
  · have hp : p ≠ o := ne_of_isTaken hx hk (lookupObject_eq_ret hfound) rfl
    have hobject := suspendThread_object? hsuspend
    have ho : k1.object? o = some x := by rw [hobject, hx]
    have hs : session.server ≠ o := ne_of_isTaken ho hk hserver rfl
    refine (Around.of_object (hobject o)).trans ?_
    exact ((Around.of_modify hp _).trans (Around.of_modify hs _)).trans
      (Around.of_wakeFront hs henqueue)

/-- New objects are others. -/
theorem object?_append {data : List (Option KObject)} (hx : k.object? o = some x) :
    { k with objects := k.objects ++ data }.object? o = some x :=
  View.object?_append (v := k.view) hx data

theorem ne_length_of_object? (hx : k.object? o = some x) : o ≠ k.objects.length :=
  Nat.ne_of_lt (View.lt_length (v := k.view) hx)

theorem object?_makeSessionPair (hx : k.object? o = some x) :
    (makeSessionPair k).2.2.object? o = some x := by
  show ((_ : Kernel).modifyObject k.objects.length _).object? o = some x
  rw [Kernel.object?_modifyObject, if_neg (ne_length_of_object? hx)]
  exact object?_append (object?_append hx)

theorem object?_makePortPair (hx : k.object? o = some x) :
    (makePortPair k).2.2.object? o = some x := by
  show ((_ : Kernel).modifyObject k.objects.length _).object? o = some x
  rw [Kernel.object?_modifyObject, if_neg (ne_length_of_object? hx)]
  exact object?_append (object?_append hx)

theorem createSessionToPort_around {handle : Option Handle} {r : KResult (Option Reschedule × Handle)}
    (hx : k.object? o = some x) (hk : x.isTaken = true)
    (h : k.createSessionToPort rng fuel handle = .ret (r, k')) : Around o k k' := by
  rcases createSessionToPort_cases h with
    rfl | ⟨p, port, server, k1, w, k2, given, hfound, hserver, henqueue, hsuspend, hgiven⟩
  · exact .refl k'
  · have hp : p ≠ o := ne_of_isTaken hx hk (lookupObject_eq_ret hfound) rfl
    have ho := object?_makeSessionPair hx
    have hs : port.server ≠ o := ne_of_isTaken ho hk hserver rfl
    have hpair : Around o k (makeSessionPair k).2.2 := Around.of_object (by rw [ho, hx])
    have hqueue := (Around.of_modify hs _).trans (Around.of_wakeFront hs henqueue)
    have hwaited : Around o k1 (k2.modifyObject p (KObject.pushWaker w)) :=
      (Around.of_object (suspendThread_object? hsuspend o)).trans (Around.of_modify hp _)
    exact ((hpair.trans hqueue).trans hwaited).trans
      (Around.of_processes (Kernel.newHandle_processes hgiven))

theorem acceptSession_around {handle : Option Handle} {r : KResult (Handle ⊕ Reschedule)}
    (hx : k.object? o = some x) (hk : x.isTaken = true)
    (h : k.acceptSession rng fuel handle = .ret (r, k')) : Around o k k' := by
  rcases acceptSession_cases h with rfl | ⟨p, port, hfound, hcase⟩
  · exact .refl k'
  · have hp : p ≠ o := ne_of_isTaken hx hk (lookupObject_eq_ret hfound) rfl
    rcases hcase with
      ⟨_, hwait⟩ | ⟨first, rest, client, data, k1, given, _, _, hclient, hwake, hgiven⟩
    · exact waitOn_around hp hwait
    · have ho : (k.modifyObject p (KObject.setSessions rest)).object? o = some x := by
        rw [Kernel.object?_modifyObject, if_neg (Ne.symm hp), hx]
      have hne : client ≠ o := ne_of_isTaken ho hk (clientPort?_eq_some hclient) rfl
      have haccepted := (Around.of_modify hp _).trans (Around.of_wakeFront hne hwake)
      exact haccepted.trans (Around.of_processes (Kernel.newHandle_processes hgiven))

/-! ### Objects and threads -/

theorem createObject_around {data : KObject} {r : KResult Handle} (hx : k.object? o = some x)
    (h : k.createObject rng fuel data = .ret (r, k')) : Around o k k' := by
  obtain ⟨handle, hnew⟩ := createObject_cases h
  have hmade : Around o k (k.newObject data).2 :=
    Around.of_object (by rw [Kernel.newObject, object?_append hx, hx])
  exact hmade.trans (Around.of_processes (Kernel.newHandle_processes hnew))

theorem newThread_around {pid : ProcessId} {tid : ThreadIndex} {kobj : ObjId}
    (hx : k.object? o = some x) (h : k.newThread pid = .ret (tid, kobj, k')) : Around o k k' := by
  obtain ⟨_, _, rfl⟩ := Kernel.newThread_eq_ret h
  exact Around.of_object ((object?_append hx).trans hx.symm)

theorem createThreadNext_around (hx : k.object? o = some x)
    (h : k.createThreadNext rng fuel = .ret k') : Around o k k' := by
  obtain ⟨pid, tid, object, k1, handle, k2, hthread, hnew, rfl⟩ := createThreadNext_cases h
  have haround := (newThread_around hx hthread).trans
    (Around.of_processes (Kernel.newHandle_processes hnew))
  exact haround.trans (Around.of_object rfl)

theorem exitThread_around (hx : k.object? o = some x) (hk : x.isTaken = true)
    (h : k.exitThread = .ret k') : Around o k k' := by
  obtain ⟨⟨kobj, k1⟩, hfinish, h⟩ := bind_eq_ret.mp h
  obtain ⟨pid, tid, thread, _, _, _, rfl⟩ := Kernel.finishThread_eq_ret hfinish
  have hfinished : Around o k (k.setThread { thread with state := .done }) := Around.of_object rfl
  refine hfinished.trans ?_
  dsimp only at h
  split at h
  · rename_i self hself
    have hp : kobj ≠ o := ne_of_isTaken hx hk hself rfl
    unfold ThreadImpl.exit at h
    split at h
    · injection h with h
      exact .of_eq h
    · exact ((Around.of_modify hp _).trans (Around.of_modify hp _)).trans (Around.of_wakeEach hp h)
  · cases h

theorem afterCall_eq_ret {ε α : Type} {y : Outcome ε (α × Kernel)} :
    afterCall y = .ret k' ↔ ∃ r, y = .ret (r, k') := by
  constructor
  · intro h
    obtain ⟨⟨r, k1⟩, hy, h⟩ := bind_eq_ret.mp h
    injection h with h
    exact ⟨r, h ▸ hy⟩
  · rintro ⟨r, rfl⟩
    rfl

theorem liftCall_eq_ret {α : Type} {y : Exec (α × Kernel)} :
    afterCall (liftM y : HleExec (α × Kernel)) = .ret k' ↔ ∃ r, y = .ret (r, k') := by
  rw [afterCall_eq_ret]
  exact exists_congr fun _ => mapPanic_eq_ret

theorem runNext_object? {started : Option (ThreadIndex × ThreadResume)}
    (h : k.runNext = .ret (started, k')) (p : ObjId) : k'.object? p = k.object? p := by
  unfold Kernel.runNext at h
  split at h
  · obtain ⟨⟨resume, k1⟩, hstart, h⟩ := bind_eq_ret.mp h
    injection h with h
    obtain ⟨_, rfl⟩ := Prod.mk.inj h
    obtain ⟨thread, _, _, _, rfl⟩ := Kernel.startThread_eq_ret hstart
    rfl
  · injection h with h
    obtain ⟨_, rfl⟩ := Prod.mk.inj h
    rfl

theorem newHandleOf_processes {p : ObjId} (h : k.newHandleOf rng fuel p = .ret k') :
    k.ProcessesOnly k' := by
  obtain ⟨_, _, h⟩ := bind_eq_ret.mp h
  obtain ⟨⟨handle, k1⟩, hnew, h⟩ := bind_eq_ret.mp h
  injection h with h
  exact h ▸ Kernel.newHandle_processes hnew

end Svc

end Pomelo
