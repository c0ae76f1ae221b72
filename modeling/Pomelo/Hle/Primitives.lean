/-
  What the steps of the kernel are made of, on the kernel as a whole.

  A call works on the kernel and on the wakers that its code has at hand: those it made by
  suspending its thread, and those it took from the queue of an object. `Primitive` are the
  changes that there are. A waker is used only by an object that it was made for, and none is
  made up: it comes from a suspension, or out of a queue. What is true of the kernel after any
  run is then a matter of the primitives, and not of the calls (`svcCall_made`, `tick_made`).
-/
import Pomelo.Hle.StepMoves
import Mathlib.Logic.Relation

namespace Pomelo

open Lib Outcome

/-- The kernel inside a call, and the wakers at hand, each with an object that may use it. -/
structure InCall where
  kernel : Kernel
  held : List (Waker × ObjId)

/-- What only some calls may do: put their thread to sleep, or end it, and write a message into
    a thread. -/
structure Effects where
  sleeps : Prop
  messages : Prop

namespace Effects

def any : Effects := ⟨True, True⟩

/-- The thread is neither put to sleep nor ended. -/
def awake : Effects := ⟨False, True⟩

/-- No message is written. -/
def silent : Effects := ⟨True, False⟩

end Effects

/-- One change of the kernel inside a call, of those that it may make. -/
inductive Primitive (may : Effects) : InCall → InCall → Prop where
  /-- An object is changed. The wakers it gets are at hand. -/
  | change {k : Kernel} {held : List (Waker × ObjId)} {o : ObjId} {f : KObject → KObject}
      (hf : ∀ x, ∀ w ∈ (f x).wakers, w ∈ x.wakers ∨ (w, o) ∈ held) :
      Primitive may ⟨k, held⟩ ⟨k.modifyObject o f, held⟩
  | make {k : Kernel} {held : List (Waker × ObjId)} {data : List (Option KObject)}
      (hdata : ∀ x, some x ∈ data → x.wakers = []) :
      Primitive may ⟨k, held⟩ ⟨{ k with objects := k.objects ++ data }, held⟩
  /-- The wakers in a queue are looked at. -/
  | pick {k : Kernel} {held : List (Waker × ObjId)} (o : ObjId) :
      Primitive may ⟨k, held⟩ ⟨k, (k.wakers o).map (·, o) ++ held⟩
  | forget {k : Kernel} {held held' : List (Waker × ObjId)} (h : held' ⊆ held) :
      Primitive may ⟨k, held⟩ ⟨k, held'⟩
  | wake {k k' : Kernel} {held : List (Waker × ObjId)} {w : Waker} {o : ObjId} {ok : Bool}
      (hw : (w, o) ∈ held) (h : w.wake o k = .ret (ok, k')) :
      Primitive may ⟨k, held⟩ ⟨k', held⟩
  /-- The current thread goes to sleep; its waker is for the objects it waits on. -/
  | suspend {k k' : Kernel} {held : List (Waker × ObjId)} {objects : List ObjId}
      {timeout : Option UInt64} {waitType : ThreadWaitType} {w : Waker}
      (hs : may.sleeps) (hsleep : waitType = .sleep → objects = [])
      (h : k.suspendThread objects timeout waitType = .ret (w, k')) :
      Primitive may ⟨k, held⟩ ⟨k', objects.map (w, ·) ++ held⟩
  | handles {k : Kernel} {held : List (Waker × ObjId)} (process : CommonProcess) :
      Primitive may ⟨k, held⟩ ⟨k.setProcess process, held⟩
  | message {k : Kernel} {held : List (Waker × ObjId)} {thread : CommonThread}
      (hm : may.messages) (data : List UInt8) (h : k.thread? thread.index = some thread) :
      Primitive may ⟨k, held⟩ ⟨k.setThread { thread with ipcData := data }, held⟩
  | publish {k : Kernel} {held : List (Waker × ObjId)} (ports : List (List UInt8 × ObjId))
      (interrupts : List (UInt32 × ObjId)) :
      Primitive may ⟨k, held⟩ ⟨{ k with ports := ports, interrupts := interrupts }, held⟩
  | finish {k k' : Kernel} {held : List (Waker × ObjId)} {kobj : ObjId}
      (hs : may.sleeps) (hcalling : k.calling = true) (h : k.finishThread = .ret (kobj, k')) :
      Primitive may ⟨k, held⟩ ⟨k', held⟩
  | timeouts {k k' : Kernel} {held : List (Waker × ObjId)} {time : UInt64}
      (h : k.tickThreadsAt time = .ret k') : Primitive may ⟨k, held⟩ ⟨k', held⟩
  | born {k k' : Kernel} {held : List (Waker × ObjId)} {pid : ProcessId} {tid : ThreadIndex}
      {kobj : ObjId} (hpid : (k.process? pid).isSome) (h : k.newThread pid = .ret (tid, kobj, k')) :
      Primitive may ⟨k, held⟩ ⟨k', held⟩
  | schedule {k : Kernel} {held : List (Waker × ObjId)} {tid : ThreadIndex}
      {thread : CommonThread} (h : k.thread? tid = some thread) (hready : thread.state = .ready) :
      Primitive may ⟨k, held⟩ ⟨k.scheduleNext tid, held⟩

/-- A call that is made of primitives, by code that has these wakers at hand. -/
def Made (may : Effects) (held : List (Waker × ObjId)) (k k' : Kernel) : Prop :=
  Relation.ReflTransGen (Primitive may) ⟨k, held⟩ ⟨k', held⟩

/-- A wait: its type, the number of objects, and whether it has a timeout. -/
structure Wait where
  waitType : ThreadWaitType
  count : Nat
  timed : Bool
deriving DecidableEq, Repr

/-- The current thread goes to sleep in a call, and then its waker is put into queues or used. -/
inductive GoesToSleep (may : Effects) (held : List (Waker × ObjId)) (wait : Wait)
    (k k' : Kernel) : Prop where
  | intro {k1 k2 : Kernel} {objects : List ObjId} {timeout : Option UInt64} {w : Waker}
      (before : Made may held k k1) (hsleep : wait.waitType = .sleep → objects = [])
      (hcount : objects.length = wait.count) (htimed : timeout.isSome = wait.timed)
      (hsuspend : k1.suspendThread objects timeout wait.waitType = .ret (w, k2))
      (after : Made may (objects.map (w, ·) ++ held) k2 k')

namespace Made

variable {may : Effects} {held : List (Waker × ObjId)} {k k' k'' : Kernel} {o : ObjId}
  {w : Waker} {ws : List Waker} {f : KObject → KObject}

theorem refl (may : Effects) (held : List (Waker × ObjId)) (k : Kernel) : Made may held k k :=
  Relation.ReflTransGen.refl

theorem of_eq (h : k = k') : Made may held k k' := h ▸ refl may held k

theorem single (h : Primitive may ⟨k, held⟩ ⟨k', held⟩) : Made may held k k' :=
  Relation.ReflTransGen.single h

theorem trans (h : Made may held k k') (h' : Made may held k' k'') : Made may held k k'' :=
  Relation.ReflTransGen.trans h h'

/-- A part of a call, whose code has the wakers in a queue at hand besides. -/
theorem picking {x : KObject} (hx : k.object? o = some x)
    (h : Made may (x.wakers.map (·, o) ++ held) k k') : Made may held k k' := by
  have hpick : Primitive may ⟨k, held⟩ ⟨k, x.wakers.map (·, o) ++ held⟩ := by
    rw [← wakers_of_object hx]
    exact .pick o
  refine Relation.ReflTransGen.head hpick (Relation.ReflTransGen.tail h (.forget ?_))
  exact fun y hy => List.mem_append_right _ hy

/-- A part of a call behind the suspension of its thread. -/
theorem suspending {objects : List ObjId} {timeout : Option UInt64} {waitType : ThreadWaitType}
    (hs : may.sleeps) (hsleep : waitType = .sleep → objects = [])
    (hsuspend : k.suspendThread objects timeout waitType = .ret (w, k'))
    (h : Made may (objects.map (w, ·) ++ held) k' k'') : Made may held k k'' := by
  refine Relation.ReflTransGen.head (.suspend hs hsleep hsuspend)
    (Relation.ReflTransGen.tail h (.forget ?_))
  exact fun y hy => List.mem_append_right _ hy

/-! ## Objects -/

/-- A change that adds no waker. -/
theorem of_change (hf : ∀ x, (f x).wakers = x.wakers) : Made may held k (k.modifyObject o f) :=
  single (.change fun x _ hw => Or.inl (hf x ▸ hw))

theorem of_setWakers (hws : ∀ w ∈ ws, (w, o) ∈ held) :
    Made may held k (k.modifyObject o (KObject.setWakers ws)) := by
  refine single (.change fun x w hw => ?_)
  rcases KObject.mem_wakers_setWakers hw with hw | ⟨_, hw⟩
  · exact Or.inr (hws w hw)
  · exact Or.inl hw

theorem of_pushWaker (hw : (w, o) ∈ held) :
    Made may held k (k.modifyObject o (KObject.pushWaker w)) := by
  refine single (.change fun x w' hw' => ?_)
  rcases KObject.mem_wakers_pushWaker hw' with hw' | rfl
  · exact Or.inl hw'
  · exact Or.inr hw

theorem of_wake {ok : Bool} (hw : (w, o) ∈ held) (h : w.wake o k = .ret (ok, k')) :
    Made may held k k' :=
  single (.wake hw h)

theorem of_wakeExpect (hw : (w, o) ∈ held) (h : w.wakeExpect o k = .ret k') :
    Made may held k k' := by
  obtain ⟨⟨ok, k1⟩, hwake, h⟩ := bind_eq_ret.mp h
  obtain ⟨_, _, h⟩ := bind_eq_ret.mp h
  cases h
  exact of_wake hw (mapPanic_eq_ret.mp hwake)

theorem of_wakeEach (hws : ∀ w ∈ ws, (w, o) ∈ held) (h : wakeEach o ws k = .ret k') :
    Made may held k k' := by
  induction ws generalizing k with
  | nil =>
    injection h with h
    exact of_eq h
  | cons w ws ih =>
    obtain ⟨⟨ok, k1⟩, hwake, h⟩ := bind_eq_ret.mp h
    have hrest := ih (fun w' hw' => hws w' (List.mem_cons_of_mem w hw')) h
    exact (of_wake (hws w List.mem_cons_self) hwake).trans hrest

theorem of_wakeDrained (hws : ∀ w ∈ ws, (w, o) ∈ held)
    (h : ArbiterImpl.wakeDrained o ws k = .ret k') : Made may held k k' := by
  induction ws generalizing k with
  | nil =>
    injection h with h
    exact of_eq h
  | cons w ws ih =>
    obtain ⟨⟨ok, k1⟩, hwake, h⟩ := bind_eq_ret.mp h
    obtain ⟨_, _, h⟩ := bind_eq_ret.mp h
    have hrest := ih (fun w' hw' => hws w' (List.mem_cons_of_mem w hw')) h
    exact (of_wake (hws w List.mem_cons_self) hwake).trans hrest

theorem of_wakeFront (hws : ∀ w ∈ ws, (w, o) ∈ held) (h : wakeFront o ws k = .ret k') :
    Made may held k k' := by
  cases ws with
  | nil =>
    injection h with h
    exact of_eq h
  | cons w ws =>
    have hrest : Made may held k (k.modifyObject o (KObject.setWakers ws)) :=
      of_setWakers fun w' hw' => hws w' (List.mem_cons_of_mem w hw')
    exact hrest.trans (of_wakeExpect (hws w List.mem_cons_self) h)

theorem of_wakeForSignal {signal : Signal} (hws : ∀ w ∈ ws, (w, o) ∈ held)
    (h : wakeForSignal o signal ws k = .ret k') : Made may held k k' := by
  have hnone : ∀ w ∈ ([] : List Waker), (w, o) ∈ held := fun w hw => by cases hw
  unfold wakeForSignal at h
  split at h
  · obtain ⟨k1, hwakes, h⟩ := bind_eq_ret.mp h
    injection h with h
    have hwoken : Made may held (k.modifyObject o (KObject.setWakers [])) k1 :=
      of_wakeEach hws (mapPanic_eq_ret.mp hwakes)
    exact h ▸ ((of_setWakers hnone).trans hwoken).trans (of_setWakers hnone)
  · cases ws with
    | nil =>
      injection h with h
      exact of_eq h
    | cons w ws =>
      obtain ⟨k1, hwake, h⟩ := bind_eq_ret.mp h
      injection h with h
      exact h ▸ (of_wakeExpect (hws w List.mem_cons_self) hwake).trans
        (of_change (KObject.wakers_modifySignal _))

theorem of_waitOr {ready : Bool} {take untake : KObject → KObject} (hw : (w, o) ∈ held)
    (htake : ∀ x, (take x).wakers = x.wakers) (huntake : ∀ x, (untake x).wakers = x.wakers)
    (h : waitOr o w ready take untake k = .ret k') : Made may held k k' := by
  unfold waitOr at h
  split at h
  · obtain ⟨⟨ok, k1⟩, hwake, h⟩ := bind_eq_ret.mp h
    injection h with h
    have hwoken : Made may held k k1 := (of_change htake).trans (of_wake hw hwake)
    cases ok with
    | true =>
      rw [if_pos rfl] at h
      exact h ▸ hwoken
    | false =>
      rw [if_neg (by simp)] at h
      exact h ▸ hwoken.trans (of_change huntake)
  · injection h with h
    exact h ▸ of_pushWaker hw

theorem of_wait {x : KObject} (hw : (w, o) ∈ held) (h : KObject.wait o w k x = .ret k') :
    Made may held k k' := by
  cases x with
  | event self =>
    exact of_waitOr hw (KObject.wakers_modifySignal _) (KObject.wakers_modifySignal _) h
  | timer self =>
    exact of_waitOr hw (KObject.wakers_modifySignal _) (KObject.wakers_modifySignal _) h
  | mutex self =>
    exact of_waitOr hw (KObject.wakers_setAcquired _) (KObject.wakers_setAcquired _) h
  | thread self => exact of_waitOr hw (fun _ => rfl) (fun _ => rfl) h
  | arbiter self => cases h
  | codeSet => cases h
  | _ =>
    injection h with h
    exact h ▸ of_pushWaker hw

theorem of_waitEach {objects : List ObjId} (hw : ∀ o ∈ objects, (w, o) ∈ held)
    (h : Kernel.waitEach w objects k = .ret k') : Made may held k k' := by
  induction objects generalizing k with
  | nil =>
    injection h with h
    exact of_eq h
  | cons o objects ih =>
    obtain ⟨x, k1, _, hone, hrest⟩ := waitEach_cons h
    exact (of_wait (hw o List.mem_cons_self) hone).trans
      (ih (fun o' ho' => hw o' (List.mem_cons_of_mem o ho')) hrest)

/-! ## Handles and messages -/

section Handles

variable {rng : Nat → UInt32} {fuel : Nat} {src dest : ProcessId} {moved : Bool}

theorem of_newHandle {obj : ObjId} {handle : Handle}
    (h : k.newHandle rng fuel obj = .ret (handle, k')) : Made may held k k' := by
  obtain ⟨process, _, h⟩ := bind_eq_ret.mp h
  obtain ⟨⟨handle', process'⟩, _, h⟩ := bind_eq_ret.mp h
  cases h
  exact single (.handles process')

theorem of_takeHandle {handle : Handle} {kobj : Option ObjId}
    (h : k.takeHandle src moved handle = .ret (kobj, k')) : Made may held k k' := by
  obtain ⟨process, _, h⟩ := bind_eq_ret.mp h
  cases moved with
  | false =>
    cases h
    exact refl may held k
  | true =>
    cases h
    exact single (.handles _)

theorem of_giveHandle {handle : Handle} {obj : ObjId}
    (h : k.giveHandle rng fuel dest obj = .ret (handle, k')) : Made may held k k' := by
  obtain ⟨process, _, h⟩ := bind_eq_ret.mp h
  obtain ⟨⟨handle', process'⟩, _, h⟩ := bind_eq_ret.mp h
  cases h
  exact single (.handles process')

theorem of_translateHandle {handle handle' : Option Handle}
    (h : Kernel.translateHandle rng fuel src dest moved handle k = .ret (handle', k')) :
    Made may held k k' := by
  unfold Kernel.translateHandle at h
  cases handle with
  | none =>
    cases h
    exact refl may held k
  | some handle =>
    obtain ⟨⟨kobj, k1⟩, htake, h⟩ := bind_eq_ret.mp h
    cases kobj with
    | none =>
      cases h
      exact of_takeHandle htake
    | some obj =>
      obtain ⟨⟨given, k2⟩, hgive, h⟩ := bind_eq_ret.mp h
      cases h
      exact (of_takeHandle htake).trans (of_giveHandle hgive)

theorem of_translateHandles {handles handles' : List (Option Handle)}
    (h : Kernel.translateHandles rng fuel src dest moved handles k = .ret (handles', k')) :
    Made may held k k' := by
  induction handles generalizing k handles' with
  | nil =>
    cases h
    exact refl may held _
  | cons handle handles ih =>
    obtain ⟨⟨handle', k1⟩, hone, h⟩ := bind_eq_ret.mp h
    obtain ⟨⟨rest, k2⟩, hrest, h⟩ := bind_eq_ret.mp h
    cases h
    exact (of_translateHandle hone).trans (ih hrest)

theorem of_translateParam {param : IPCTranslateParameter} {writer writer' : MessageWriter}
    (h : Kernel.translateParam rng fuel src dest param writer k = .ret (writer', k')) :
    Made may held k k' := by
  cases param with
  | handle moved callingProcess handles =>
    obtain ⟨⟨handles', k1⟩, htrans, h⟩ := bind_eq_ret.mp h
    obtain ⟨writer1, _, h⟩ := bind_eq_ret.mp h
    cases h
    cases handles with
    | single handle =>
      obtain ⟨⟨handle', k2⟩, hone, htrans⟩ := bind_eq_ret.mp htrans
      cases htrans
      exact of_translateHandle hone
    | multiple handles =>
      obtain ⟨⟨rest, k2⟩, hall, htrans⟩ := bind_eq_ret.mp htrans
      cases htrans
      exact of_translateHandles hall
  | _ =>
    cases h
    exact refl may held k

theorem of_translateParams {n : Nat} {reader : IPCReader} {writer writer' : MessageWriter}
    (h : Kernel.translateParams rng fuel src dest n reader writer k = .ret (writer', k')) :
    Made may held k k' := by
  induction n generalizing reader writer k with
  | zero => cases h
  | succ n ih =>
    unfold Kernel.translateParams at h
    split at h
    · obtain ⟨⟨param, reader1⟩, _, h⟩ := bind_eq_ret.mp h
      obtain ⟨⟨writer1, k1⟩, hparam, h⟩ := bind_eq_ret.mp h
      exact (of_translateParam hparam).trans (ih h)
    · cases h
      exact refl may held _

/-- A message is written into the slot of its thread, which handles do not move. -/
theorem of_translateIpc {s d : ThreadIndex} {reply : Bool} (hm : may.messages)
    (hn : k.indices.Nodup)
    (h : k.translateIpc rng fuel s d reply = .ret k') : Made may held k k' := by
  obtain ⟨⟨srcThread, thread⟩, hpair, h⟩ := bind_eq_ret.mp h
  obtain ⟨currentProcess, _, h⟩ := bind_eq_ret.mp h
  obtain ⟨process, _, h⟩ := bind_eq_ret.mp h
  obtain ⟨reader, _, h⟩ := bind_eq_ret.mp h
  obtain ⟨writer, _, h⟩ := bind_eq_ret.mp h
  obtain ⟨⟨reader1, writer1⟩, _, h⟩ := bind_eq_ret.mp h
  obtain ⟨⟨writer2, k1⟩, hparams, h⟩ := bind_eq_ret.mp h
  obtain ⟨data, _, h⟩ := bind_eq_ret.mp h
  cases h
  obtain ⟨processes, rfl⟩ := Kernel.translateParams_processes hparams
  have hthread : { k with processes := processes }.thread? thread.index = some thread :=
    findKey_of_mem hn (Kernel.findThreadPair_mem hpair)
  exact (of_translateParams hparams).trans (single (.message hm data hthread))

theorem of_setThreadIpcData {data : List UInt8} (hm : may.messages)
    (h : k.setThreadIpcData data = .ret k') :
    Made may held k k' := by
  obtain ⟨⟨pid, tid⟩, _, h⟩ := bind_eq_ret.mp h
  obtain ⟨thread, hfind, h⟩ := bind_eq_ret.mp h
  cases h
  have hthread := Kernel.findThread_eq_ret.mp hfind
  exact single (.message hm data (Kernel.thread?_index hthread ▸ hthread))

theorem of_closeHandle {handle : Option Handle} {r : KResult Unit}
    (h : k.closeHandle handle = .ret (r, k')) : Made may held k k' := by
  unfold Kernel.closeHandle at h
  split at h
  · cases h
    exact refl may held k
  · obtain ⟨process, _, h⟩ := bind_eq_ret.mp h
    dsimp only at h
    split at h
    · cases h
      exact single (.handles _)
    · cases h
      exact single (.handles _)

end Handles

/-! ## Events, timers and mutexes -/

section Objects

variable {time : UInt64} {x : KObject}

/-- The wakers in the queue of the object that is looked at. -/
theorem mem_picked {held : List (Waker × ObjId)} (w : Waker) (hw : w ∈ x.wakers) :
    (w, o) ∈ x.wakers.map (·, o) ++ held :=
  List.mem_append_left _ (List.mem_map_of_mem hw)

theorem of_doSignal {self : EventImpl} (hx : k.object? o = some (.event self))
    (h : self.doSignal o k = .ret k') : Made may held k k' := by
  have hwoken : Made may ((KObject.event self).wakers.map (·, o) ++ held)
      (k.modifyObject o (KObject.modifySignal Signal.signal)) k' := of_wakeForSignal mem_picked h
  exact picking hx ((of_change (KObject.wakers_modifySignal _)).trans hwoken)

theorem of_timerTick {self : TimerImpl} (hx : k.object? o = some (.timer self))
    (h : self.tick o time k = .ret k') : Made may held k k' := by
  unfold TimerImpl.tick at h
  split at h
  · obtain ⟨data, _, h⟩ := bind_eq_ret.mp h
    have hwoken : Made may ((KObject.timer self).wakers.map (·, o) ++ held)
        ((k.modifyObject o (KObject.modifySignal Signal.signal)).modifyObject o
          (KObject.setTimerData data)) k' := of_wakeForSignal mem_picked h
    have hset := (of_change (KObject.wakers_setTimerData data)).trans hwoken
    exact picking hx ((of_change (KObject.wakers_modifySignal _)).trans hset)
  · cases h
    exact refl may held _

theorem of_release {self : MutexImpl} (hx : k.object? o = some (.mutex self))
    (h : self.release o k = .ret k') : Made may held k k' := by
  unfold MutexImpl.release at h
  split at h
  · cases h
    exact of_change (KObject.wakers_setAcquired false)
  · rename_i w ws hqueue
    have hw : w ∈ (KObject.mutex self).wakers := by
      show w ∈ self.wakerQueue
      rw [hqueue]
      exact List.mem_cons_self
    exact picking hx (of_wakeExpect (mem_picked w hw) h)

theorem of_exit {self : ThreadImpl} (hx : k.object? o = some (.thread self))
    (h : self.exit o k = .ret k') : Made may held k k' := by
  unfold ThreadImpl.exit at h
  split at h
  · cases h
    exact refl may held _
  · have hnone : ∀ w ∈ ([] : List Waker),
        (w, o) ∈ (KObject.thread self).wakers.map (·, o) ++ held := fun w hw => by cases hw
    have hwoken : Made may ((KObject.thread self).wakers.map (·, o) ++ held)
        (k.modifyObject o (KObject.setDead true)) k' :=
      (of_setWakers hnone).trans (of_wakeEach mem_picked h)
    exact picking hx ((of_change (KObject.wakers_setDead true)).trans hwoken)

theorem of_arbiterSignal {self : ArbiterImpl} {amount : Int32} {addr : UInt32} {woke : Bool}
    (hx : k.object? o = some (.arbiter self))
    (h : self.signal o amount addr k = .ret (woke, k')) : Made may held k k' := by
  obtain ⟨k1, hwakes, h⟩ := bind_eq_ret.mp h
  cases h
  have hdrained : ∀ w ∈ (ArbiterImpl.drain addr
      (if amount < 0 then 0xFFFFFFFF else amount.toUInt32) self.wakerQueue).1,
      (w, o) ∈ (KObject.arbiter self).wakers.map (·, o) ++ held :=
    fun w hw => mem_picked w (mem_drain.1 hw)
  refine picking hx (Made.trans (single (.change fun y w hw => ?_))
    (of_wakeDrained hdrained hwakes))
  cases y with
  | arbiter other => exact Or.inr (mem_picked w (mem_drain.2 hw))
  | _ => exact Or.inl hw

/-- The arbiter gets the waker of the thread that waits on it. -/
theorem of_arbiterWait {addr : UInt32} (hw : (w, o) ∈ held) :
    Made may held k (ArbiterImpl.wait w addr o k) := by
  refine single (.change fun y w' hw' => ?_)
  cases y with
  | arbiter other =>
    have hw' : w' ∈ (other.wakerQueue ++ [(w, addr)]).map Prod.fst := hw'
    rw [List.map_append, List.mem_append] at hw'
    rcases hw' with hw' | hw'
    · exact Or.inl hw'
    · rw [List.mem_singleton.mp hw']
      exact Or.inr hw
  | _ => exact Or.inl hw'

end Objects

end Made

theorem GoesToSleep.made {may : Effects} {held : List (Waker × ObjId)} {wait : Wait}
    {k k' : Kernel} (h : GoesToSleep may held wait k k') (hs : may.sleeps) :
    Made may held k k' := by
  obtain ⟨before, hsleep, _, _, hsuspend, after⟩ := h
  exact before.trans (.suspending hs hsleep hsuspend after)

/-- A call, of which the end puts its thread to sleep. -/
theorem GoesToSleep.behind {may : Effects} {held : List (Waker × ObjId)} {wait : Wait}
    {k k1 k' : Kernel} (h : GoesToSleep may held wait k1 k') (hbefore : Made may held k k1) :
    GoesToSleep may held wait k k' := by
  obtain ⟨before, hsleep, hcount, htimed, hsuspend, after⟩ := h
  exact ⟨hbefore.trans before, hsleep, hcount, htimed, hsuspend, after⟩

/-! ## Supervisor calls -/

section Svc

open Made

variable {may : Effects} {held : List (Waker × ObjId)} {rng : Nat → UInt32} {fuel : Nat}
  {time : UInt64} {k k' : Kernel} {o : ObjId} {x : KObject}

theorem createObject_made {data : KObject} {r : KResult Handle} (hdata : data.wakers = [])
    (h : k.createObject rng fuel data = .ret (r, k')) : Made may held k k' := by
  obtain ⟨handle, hnew⟩ := createObject_cases h
  refine (single (.make fun y hy => ?_)).trans (of_newHandle hnew)
  injection List.mem_singleton.mp hy with hy
  rw [hy]
  exact hdata

theorem waitOn_sleeps {timeout : Option UInt64} (h : k.waitOn o x timeout = .ret k') :
    GoesToSleep may held ⟨.waitSync1, 1, timeout.isSome⟩ k k' := by
  obtain ⟨⟨w, k1⟩, hsuspend, hwait⟩ := bind_eq_ret.mp h
  have hw : (w, o) ∈ [o].map (w, ·) ++ held := List.mem_cons_self
  exact ⟨refl may held k, (fun hsleep => by cases hsleep), rfl, rfl, hsuspend, of_wait hw hwait⟩

theorem waitSync1_result (may : Effects) (held : List (Waker × ObjId))
    {handle : Option Handle} {timeout : Int64}
    {r : KResult (Option Reschedule)} (h : k.waitSync1 time handle timeout = .ret (r, k')) :
    (∃ err, r = .error err ∧ k' = k) ∨ r = .ok (some ⟨⟩) ∧
      ∃ timed, GoesToSleep may held ⟨.waitSync1, 1, timed⟩ k k' := by
  obtain ⟨found, _, h⟩ := bind_eq_ret.mp h
  split at h
  · split at h
    · obtain ⟨absolute, _, h⟩ := bind_eq_ret.mp h
      obtain ⟨k1, hwait, h⟩ := bind_eq_ret.mp h
      cases h
      exact Or.inr ⟨rfl, _, waitOn_sleeps hwait⟩
    · cases h
      exact Or.inl ⟨_, rfl, rfl⟩
  · cases h
    exact Or.inl ⟨_, rfl, rfl⟩

theorem waitedObjects_length {handles : List (Option Handle)} {objects : List ObjId}
    (h : k.waitedObjects handles = .ret objects) : objects.length = handles.length := by
  induction handles generalizing objects with
  | nil =>
    cases h
    rfl
  | cons handle handles ih =>
    obtain ⟨found, _, h⟩ := bind_eq_ret.mp h
    obtain ⟨first, _, h⟩ := bind_eq_ret.mp h
    obtain ⟨rest, hrest, h⟩ := bind_eq_ret.mp h
    cases h
    exact congrArg Nat.succ (ih hrest)

theorem waitSyncN_result (may : Effects) (held : List (Waker × ObjId))
    {handles : List (Option Handle)} {waitAll : Bool} {timeout : Int64}
    {r : KResult (Option Reschedule)}
    (h : k.waitSyncN time handles waitAll timeout = .ret (r, k')) :
    r = .ok (some ⟨⟩) ∧ ∃ absolute, (makeTimeout timeout).absolute time = .ret absolute ∧
      GoesToSleep may held ⟨.waitSyncN, handles.length, absolute.isSome⟩ k k' := by
  obtain ⟨_, _, h⟩ := bind_eq_ret.mp h
  obtain ⟨objects, hwaited, h⟩ := bind_eq_ret.mp h
  obtain ⟨absolute, habsolute, h⟩ := bind_eq_ret.mp h
  obtain ⟨⟨w, k1⟩, hsuspend, h⟩ := bind_eq_ret.mp h
  obtain ⟨k2, hwait, h⟩ := bind_eq_ret.mp h
  cases h
  have hw : ∀ o ∈ objects, (w, o) ∈ objects.map (w, ·) ++ held := fun o ho =>
    List.mem_append_left _ (List.mem_map_of_mem ho)
  exact ⟨rfl, absolute, habsolute, refl may held k, (fun hsleep => by cases hsleep),
    waitedObjects_length hwaited, rfl, hsuspend, of_waitEach hw hwait⟩

theorem waitSyncN_made {handles : List (Option Handle)} {waitAll : Bool} {timeout : Int64}
    {r : KResult (Option Reschedule)}
    (hs : may.sleeps) (h : k.waitSyncN time handles waitAll timeout = .ret (r, k')) :
    Made may held k k' := by
  obtain ⟨_, absolute, _, hsleeps⟩ := waitSyncN_result may held h
  exact hsleeps.made hs

theorem releaseMutex_made {handle : Option Handle} {r : KResult Unit}
    (h : k.releaseMutex handle = .ret (r, k')) : Made may held k k' := by
  obtain ⟨found, hfound, h⟩ := bind_eq_ret.mp h
  split at h
  · obtain ⟨k1, hrelease, h⟩ := bind_eq_ret.mp h
    cases h
    exact of_release (lookupObject_eq_ret (mapPanic_eq_ret.mp hfound)) hrelease
  · cases h
    exact refl may held _

theorem signalEvent_made {handle : Option Handle} {r : KResult Unit}
    (h : k.signalEvent handle = .ret (r, k')) : Made may held k k' := by
  obtain ⟨found, hfound, h⟩ := bind_eq_ret.mp h
  split at h
  · obtain ⟨k1, hsignal, h⟩ := bind_eq_ret.mp h
    cases h
    exact of_doSignal (lookupObject_eq_ret (mapPanic_eq_ret.mp hfound)) hsignal
  · cases h
    exact refl may held _

theorem clearEvent_made {handle : Option Handle} {r : KResult Unit}
    (h : k.clearEvent handle = .ret (r, k')) : Made may held k k' := by
  obtain ⟨found, _, h⟩ := bind_eq_ret.mp h
  split at h
  · cases h
    exact of_change (KObject.wakers_modifySignal _)
  · cases h
    exact refl may held _

theorem setTimer_made {handle : Option Handle} {initial interval : Int64} {r : KResult Unit}
    (h : k.setTimer handle initial interval = .ret (r, k')) : Made may held k k' := by
  obtain ⟨found, _, h⟩ := bind_eq_ret.mp h
  split at h
  · cases h
    exact of_change (KObject.wakers_setTimerData _)
  · cases h
    exact refl may held _

theorem cancelTimer_made {handle : Option Handle} {r : KResult Unit}
    (h : k.cancelTimer handle = .ret (r, k')) : Made may held k k' := by
  obtain ⟨found, _, h⟩ := bind_eq_ret.mp h
  split at h
  · cases h
    exact of_change (KObject.wakers_setTimerData _)
  · cases h
    exact refl may held _

theorem arbitrateAddress_result (may : Effects) (held : List (Waker × ObjId))
    {handle : Option Handle} {addr : UInt32} {typ : ArbitrationType} {memoryValue value : Int32}
    {r : KResult (Option Reschedule)}
    (h : k.arbitrateAddress handle addr typ memoryValue value = .ret (r, k')) :
    Made may held k k' ∨ GoesToSleep may held ⟨.arbiter, 1, false⟩ k k' := by
  rcases arbitrateAddress_cases h with
    rfl | ⟨p, arb, hfound, ⟨woke, hsignal⟩ | ⟨w, k1, hsuspend, rfl⟩⟩
  · exact Or.inl (refl may held _)
  · exact Or.inl (of_arbiterSignal (lookupObject_eq_ret hfound) hsignal)
  · have hw : (w, p) ∈ [p].map (w, ·) ++ held := List.mem_cons_self
    exact Or.inr ⟨refl may held k, (fun hsleep => by cases hsleep), rfl, rfl, hsuspend,
      of_arbiterWait hw⟩

theorem arbitrateAddress_made {handle : Option Handle} {addr : UInt32} {typ : ArbitrationType}
    {memoryValue value : Int32} {r : KResult (Option Reschedule)}
    (hs : may.sleeps) (h : k.arbitrateAddress handle addr typ memoryValue value = .ret (r, k')) :
    Made may held k k' := by
  rcases arbitrateAddress_result may held h with hmade | hsleeps
  · exact hmade
  · exact hsleeps.made hs

/-- The front of a queue is woken. -/
theorem wakeQueue_made {w : List Waker} (hx : k.object? o = some x) (hw : x.wakers = w)
    (h : wakeFront o w k = .ret k') : Made may held k k' := by
  subst hw
  exact picking hx (of_wakeFront mem_picked h)

theorem replyTo_made {replyTarget : Option Handle} {r : KResult Unit} (hm : may.messages)
    (hn : k.indices.Nodup)
    (h : k.replyTo rng fuel replyTarget = .ret (r, k')) : Made may held k k' := by
  rcases replyTo_cases h with rfl | ⟨_, server, s, session, _, _, _, hreply⟩
  · exact refl may held _
  · obtain ⟨client, rest, k2, c, data, _, htranslate, hdata, hwake⟩ := reply_cases hreply
    have htaken : Made may held k (k.modifyObject s (KObject.setRequests rest)) :=
      of_change (KObject.wakers_setRequests rest)
    have hwoken : Made may held k2 k' :=
      wakeQueue_made (clientSession?_eq_some hdata) rfl hwake
    exact (htaken.trans (of_translateIpc hm hn htranslate)).trans hwoken

theorem replyTo_result {replyTarget : Option Handle} {r : KResult Unit}
    (h : k.replyTo rng fuel replyTarget = .ret (r, k')) :
    (∃ err, r = .error err ∧ k' = k) ∨ r = .ok () := by
  unfold Kernel.replyTo at h
  split at h
  · cases h
    exact Or.inr rfl
  · obtain ⟨⟨pid, tid⟩, _, h⟩ := bind_eq_ret.mp h
    obtain ⟨found, _, h⟩ := bind_eq_ret.mp h
    split at h
    · obtain ⟨k1, _, h⟩ := bind_eq_ret.mp h
      cases h
      exact Or.inr rfl
    · cases h
      exact Or.inl ⟨_, rfl, rfl⟩

/-- `reply_and_receive` waits without a timeout. -/
theorem replyAndReceivePre_result (may : Effects) (held : List (Waker × ObjId))
    {handles : List (Option Handle)} {replyTarget : Option Handle}
    {r : KResult (Option Reschedule)} (hm : may.messages) (hn : k.indices.Nodup)
    (h : k.replyAndReceivePre rng fuel time handles replyTarget = .ret (r, k')) :
    (∃ err, r = .error err ∧ k' = k) ∨ r = .ok (some ⟨⟩) ∧
      GoesToSleep may held ⟨.waitSyncN, handles.length, false⟩ k k' := by
  obtain ⟨⟨replied, k1⟩, hreply, hrest⟩ := bind_eq_ret.mp h
  dsimp only at hrest
  split at hrest
  · obtain ⟨hr, absolute, habsolute, hsleeps⟩ :=
      waitSyncN_result may held (mapPanic_eq_ret.mp hrest)
    cases habsolute
    exact Or.inr ⟨hr, hsleeps.behind (replyTo_made hm hn hreply)⟩
  · cases hrest
    rcases replyTo_result hreply with ⟨err, _, hsame⟩ | hok
    · exact Or.inl ⟨_, rfl, hsame⟩
    · cases hok

theorem replyAndReceivePre_made {handles : List (Option Handle)} {replyTarget : Option Handle}
    {r : KResult (Option Reschedule)} (hs : may.sleeps) (hm : may.messages) (hn : k.indices.Nodup)
    (h : k.replyAndReceivePre rng fuel time handles replyTarget = .ret (r, k')) :
    Made may held k k' := by
  rcases replyAndReceivePre_result may held hm hn h with ⟨_, _, rfl⟩ | ⟨_, hsleeps⟩
  · exact refl may held _
  · exact hsleeps.made hs

theorem replyAndReceivePost_made {handles : List (Option Handle)} {resume : ThreadResume}
    {r : Nat × KResult Unit} (hm : may.messages) (hn : k.indices.Nodup)
    (h : k.replyAndReceivePost rng fuel handles resume = .ret (r, k')) : Made may held k k' := by
  rcases replyAndReceivePost_cases h with rfl | ⟨client, server, htranslate⟩
  · exact refl may held _
  · exact of_translateIpc hm hn htranslate

/-- The first waiter of a session or port is woken, after its other queue has changed. -/
theorem enqueued_made {f : KObject → KObject} {w : List Waker} (hx : k.object? o = some x)
    (hf : ∀ y, (f y).wakers = y.wakers) (hw : x.wakers = w)
    (h : wakeFront o w (k.modifyObject o f) = .ret k') : Made may held k k' := by
  have hfx : (k.modifyObject o f).object? o = some (f x) := by
    rw [Kernel.object?_modifyObject, if_pos rfl, hx]
    rfl
  exact (of_change hf).trans (wakeQueue_made hfx ((hf x).trans hw) h)

theorem sendSyncRequest_result (may : Effects) (held : List (Waker × ObjId))
    {handle : Option Handle} {r : KResult (Option Reschedule)}
    (h : k.sendSyncRequest handle = .ret (r, k')) :
    (∃ err, r = .error err ∧ k' = k) ∨ r = .ok (some ⟨⟩) ∧
      GoesToSleep may held ⟨.waitSync1, 1, false⟩ k k' := by
  obtain ⟨found, hfound, hrest⟩ := bind_eq_ret.mp h
  split at hrest
  · rename_i c session
    have hfound := mapPanic_eq_ret.mp hfound
    obtain ⟨w, k1, server, hsuspend, hserver, henqueue⟩ := sendSyncRequest_of_found hfound h
    have hr : r = .ok (some ⟨⟩) := by
      obtain ⟨⟨_, k2⟩, _, hrest⟩ := bind_eq_ret.mp hrest
      obtain ⟨⟨_, k3⟩, _, hrest⟩ := bind_eq_ret.mp hrest
      obtain ⟨_, _, hrest⟩ := bind_eq_ret.mp hrest
      cases hrest
      rfl
    have hw : (w, c) ∈ [c].map (w, ·) ++ held := List.mem_cons_self
    -- the two ends are different objects: the one is a client end
    have hc : k1.object? c = some (.clientSession session) := by
      rw [suspendThread_object? hsuspend c]
      exact lookupObject_eq_ret hfound
    have hne : session.server ≠ c := fun heq => by
      rw [heq, hc] at hserver
      cases hserver
    have hs : (k1.modifyObject c (KObject.pushWaker w)).object? session.server =
        some (.serverSession server) := by
      rw [Kernel.object?_modifyObject, if_neg hne]
      exact hserver
    have hsent : Made may ([c].map (w, ·) ++ held)
        (k1.modifyObject c (KObject.pushWaker w)) k' :=
      enqueued_made hs (KObject.wakers_setRequests _) rfl henqueue
    exact Or.inr ⟨hr, refl may held k, (fun hsleep => by cases hsleep), rfl, rfl, hsuspend,
      (of_pushWaker hw).trans hsent⟩
  · cases hrest
    exact Or.inl ⟨_, rfl, rfl⟩

theorem sendSyncRequest_made {handle : Option Handle} {r : KResult (Option Reschedule)}
    (hs : may.sleeps) (h : k.sendSyncRequest handle = .ret (r, k')) : Made may held k k' := by
  rcases sendSyncRequest_result may held h with ⟨_, _, rfl⟩ | ⟨_, hsleeps⟩
  · exact refl may held _
  · exact hsleeps.made hs

theorem makeSessionPair_made : Made may held k (makeSessionPair k).2.2 := by
  have hmake : Made may held k { k with objects := k.objects ++
      [some (.serverSession ⟨[], [], none⟩)] } := single (.make fun y hy => by
    injection List.mem_singleton.mp hy with hy
    rw [hy]
    rfl)
  refine (hmake.trans (single (.make fun y hy => ?_))).trans
    (of_change (KObject.wakers_setClient _))
  injection List.mem_singleton.mp hy with hy
  rw [hy]
  rfl

theorem makePortPair_made : Made may held k (makePortPair k).2.2 := by
  have hmake : Made may held k { k with objects := k.objects ++
      [some (.serverPort ⟨[], [], none⟩)] } := single (.make fun y hy => by
    injection List.mem_singleton.mp hy with hy
    rw [hy]
    rfl)
  refine (hmake.trans (single (.make fun y hy => ?_))).trans
    (of_change (KObject.wakers_setClient _))
  injection List.mem_singleton.mp hy with hy
  rw [hy]
  rfl

theorem createSessionToPort_result (may : Effects) (held : List (Waker × ObjId))
    {handle : Option Handle}
    {r : KResult (Option Reschedule × Handle)}
    (h : k.createSessionToPort rng fuel handle = .ret (r, k')) :
    (∃ err, r = .error err ∧ k' = k) ∨ ∃ given, r = .ok (some ⟨⟩, given) ∧
      GoesToSleep may held ⟨.waitSync1, 1, false⟩ k k' := by
  obtain ⟨found, hfound, hrest⟩ := bind_eq_ret.mp h
  split at hrest
  · rename_i c port
    obtain ⟨server, k1, w, k2, _, hserver, henqueue, hsuspend, hgiven⟩ :=
      createSessionToPort_of_found (mapPanic_eq_ret.mp hfound) h
    obtain ⟨k3, _, hrest⟩ := bind_eq_ret.mp hrest
    obtain ⟨k4, _, hrest⟩ := bind_eq_ret.mp hrest
    obtain ⟨⟨given, k5⟩, _, hrest⟩ := bind_eq_ret.mp hrest
    cases hrest
    have hqueued : Made may held (makeSessionPair k).2.2 k1 :=
      enqueued_made hserver (KObject.wakers_setSessions _) rfl henqueue
    have hw : (w, c) ∈ [c].map (w, ·) ++ held := List.mem_cons_self
    exact Or.inr ⟨given, rfl, makeSessionPair_made.trans hqueued, (fun hsleep => by cases hsleep),
      rfl, rfl, hsuspend, (of_pushWaker hw).trans (of_newHandle hgiven)⟩
  · cases hrest
    exact Or.inl ⟨_, rfl, rfl⟩

theorem createSessionToPort_made {handle : Option Handle}
    {r : KResult (Option Reschedule × Handle)}
    (hs : may.sleeps) (h : k.createSessionToPort rng fuel handle = .ret (r, k')) :
    Made may held k k' := by
  rcases createSessionToPort_result may held h with ⟨_, _, rfl⟩ | ⟨given, _, hsleeps⟩
  · exact refl may held _
  · exact hsleeps.made hs

/-- A thread that accepts a session goes on, or waits for one. -/
theorem acceptSession_result (may : Effects) (held : List (Waker × ObjId))
    {handle : Option Handle} {r : KResult (Handle ⊕ Reschedule)}
    (h : k.acceptSession rng fuel handle = .ret (r, k')) :
    (∀ wait, r ≠ .ok (.inr wait)) ∧ (∀ may, Made may held k k') ∨
      r = .ok (.inr ⟨⟩) ∧ GoesToSleep may held ⟨.waitSync1, 1, false⟩ k k' := by
  obtain ⟨found, hfound, hrest⟩ := bind_eq_ret.mp h
  split at hrest
  · rename_i s port
    obtain ⟨⟨session, k1⟩, haccept, hnext⟩ := bind_eq_ret.mp hrest
    rcases portAcceptSession_cases haccept with
      ⟨_, rfl, rfl⟩ | ⟨first, rest, client, data, _, rfl, hclient, hwake⟩
    · obtain ⟨k2, hwait, hret⟩ := bind_eq_ret.mp hnext
      cases hret
      exact Or.inr ⟨rfl, waitOn_sleeps (mapPanic_eq_ret.mp hwait)⟩
    · obtain ⟨⟨given, k2⟩, hgiven, hret⟩ := bind_eq_ret.mp hnext
      cases hret
      refine Or.inl ⟨(fun _ heq => by cases heq), fun may => ?_⟩
      have htaken : Made may held k (k.modifyObject s (KObject.setSessions rest)) :=
        of_change (KObject.wakers_setSessions rest)
      have hwoken : Made may held (k.modifyObject s (KObject.setSessions rest)) k1 :=
        wakeQueue_made (clientPort?_eq_some hclient) rfl hwake
      exact (htaken.trans hwoken).trans (of_newHandle (mapPanic_eq_ret.mp hgiven))
  · cases hrest
    exact Or.inl ⟨(fun _ heq => by cases heq), fun may => refl may held _⟩

theorem acceptSession_made {handle : Option Handle} {r : KResult (Handle ⊕ Reschedule)}
    (hs : may.sleeps) (h : k.acceptSession rng fuel handle = .ret (r, k')) :
    Made may held k k' := by
  rcases acceptSession_result may held h with ⟨_, hmade⟩ | ⟨_, hsleeps⟩
  · exact hmade may
  · exact hsleeps.made hs

/-- The new thread is made for the process of the current one, and is ready when it is
    scheduled. -/
theorem createThreadNext_made (hfresh : k.nextTid ∉ k.indices)
    (h : k.createThreadNext rng fuel = .ret k') : Made may held k k' := by
  obtain ⟨⟨index, handle, k2⟩, hcreate, h⟩ := bind_eq_ret.mp h
  obtain ⟨⟨pid, _⟩, _, hcreate⟩ := bind_eq_ret.mp hcreate
  obtain ⟨process, hprocess, hcreate⟩ := bind_eq_ret.mp hcreate
  obtain ⟨_, _, hcreate⟩ := bind_eq_ret.mp hcreate
  obtain ⟨⟨tid, object, k1⟩, hthread, hcreate⟩ := bind_eq_ret.mp hcreate
  obtain ⟨⟨given, k3⟩, hnew, hcreate⟩ := bind_eq_ret.mp hcreate
  cases hcreate
  cases h
  have hpid : (k.process? pid).isSome := by
    rw [expect_eq_ret.mp hprocess]
    rfl
  have hborn : Made may held k k1 := single (.born hpid hthread)
  have hready : k2.thread? index = some (CommonThread.new pid index object) := by
    obtain ⟨processes, rfl⟩ := Kernel.newHandle_processes hnew
    obtain ⟨rfl, rfl, rfl⟩ := Kernel.newThread_eq_ret hthread
    rw [Kernel.mem_indices, Bool.not_eq_true, Option.isSome_eq_false_iff,
      Option.isNone_iff_eq_none] at hfresh
    show findKey CommonThread.index k.nextTid (k.threads ++ [_]) = _
    rw [findKey_append, show findKey CommonThread.index k.nextTid k.threads = none from hfresh]
    exact if_pos rfl
  exact (hborn.trans (of_newHandle hnew)).trans (single (.schedule hready rfl))

theorem exitThread_made (hs : may.sleeps) (hcalling : k.calling = true)
    (h : k.exitThread = .ret k') : Made may held k k' := by
  obtain ⟨⟨kobj, k1⟩, hfinish, h⟩ := bind_eq_ret.mp h
  dsimp only at h
  split at h
  · rename_i self hx
    exact (single (.finish hs hcalling hfinish)).trans (of_exit hx h)
  · cases h

theorem registerPort_made {name : List UInt8} {port : ObjId}
    (h : k.registerPort name port = .ret k') : Made may held k k' := by
  obtain ⟨_, _, h⟩ := bind_eq_ret.mp h
  cases h
  exact single (.publish _ _)

theorem bindInterrupt_made {name : UInt32} {handle : Option Handle} {r : KResult Unit}
    (h : k.bindInterrupt name handle = .ret (r, k')) : Made may held k k' := by
  obtain ⟨found, _, h⟩ := bind_eq_ret.mp h
  split at h
  · cases h
    exact single (.publish _ _)
  · cases h
    exact refl may held _

theorem newHandleOf_made (h : k.newHandleOf rng fuel o = .ret k') : Made may held k k' := by
  obtain ⟨_, _, h⟩ := bind_eq_ret.mp h
  obtain ⟨⟨handle, k1⟩, hnew, h⟩ := bind_eq_ret.mp h
  cases h
  exact of_newHandle hnew

/-- **Every supervisor call is made of primitives**, from no waker at hand to none. -/
theorem svcCall_made {call : SvcCall} (hs : call.suspends = true ∨ call = .exitThread → may.sleeps)
    (hm : call.messages = true → may.messages) (ht : k.view.Tidy) (hcalling : k.calling = true)
    (h : call.exec rng fuel k = .ret k') : Made may held k k' := by
  have hn : k.indices.Nodup := ht.nodup
  have hfresh : k.nextTid ∉ k.indices := fun hmem => Nat.lt_irrefl _ (ht.below _ hmem)
  cases call with
  | createMutex initialLocked =>
    obtain ⟨r, h⟩ := liftCall_eq_ret.mp h
    exact createObject_made rfl h
  | createEvent resetType =>
    obtain ⟨r, h⟩ := liftCall_eq_ret.mp h
    exact createObject_made rfl h
  | createTimer resetType =>
    obtain ⟨r, h⟩ := liftCall_eq_ret.mp h
    exact createObject_made rfl h
  | createAddressArbiter =>
    obtain ⟨r, h⟩ := liftCall_eq_ret.mp h
    exact createObject_made rfl h
  | createCodeset =>
    obtain ⟨r, h⟩ := liftCall_eq_ret.mp h
    exact createObject_made rfl h
  | releaseMutex handle =>
    obtain ⟨r, h⟩ := afterCall_eq_ret.mp h
    exact releaseMutex_made h
  | signalEvent handle =>
    obtain ⟨r, h⟩ := afterCall_eq_ret.mp h
    exact signalEvent_made h
  | clearEvent handle =>
    obtain ⟨r, h⟩ := liftCall_eq_ret.mp h
    exact clearEvent_made h
  | setTimer handle initial interval =>
    obtain ⟨r, h⟩ := liftCall_eq_ret.mp h
    exact setTimer_made h
  | cancelTimer handle =>
    obtain ⟨r, h⟩ := liftCall_eq_ret.mp h
    exact cancelTimer_made h
  | waitSync1 time handle timeout =>
    obtain ⟨r, h⟩ := liftCall_eq_ret.mp h
    rcases waitSync1_result may held h with ⟨_, _, rfl⟩ | ⟨_, timed, hsleeps⟩
    · exact refl may held _
    · exact hsleeps.made (hs (Or.inl rfl))
  | waitSyncN time handles waitAll timeout =>
    obtain ⟨r, h⟩ := liftCall_eq_ret.mp h
    exact waitSyncN_made (hs (Or.inl rfl)) h
  | sleepThread time ns =>
    obtain ⟨absolute, w, hsuspend⟩ := sleepThread_cases (mapPanic_eq_ret.mp h)
    exact suspending (hs (Or.inl rfl)) (fun _ => rfl) hsuspend (refl _ _ k')
  | arbitrateAddress handle addr typ memoryValue value =>
    obtain ⟨r, h⟩ := liftCall_eq_ret.mp h
    exact arbitrateAddress_made (hs (Or.inl rfl)) h
  | replyAndReceivePre time handles replyTarget =>
    obtain ⟨r, h⟩ := afterCall_eq_ret.mp h
    exact replyAndReceivePre_made (hs (Or.inl rfl)) (hm rfl) hn h
  | replyAndReceivePost handles resume =>
    obtain ⟨r, h⟩ := liftCall_eq_ret.mp h
    exact replyAndReceivePost_made (hm rfl) hn h
  | sendSyncRequest handle =>
    obtain ⟨r, h⟩ := afterCall_eq_ret.mp h
    exact sendSyncRequest_made (hs (Or.inl rfl)) h
  | createSessionToPort handle =>
    obtain ⟨r, h⟩ := afterCall_eq_ret.mp h
    exact createSessionToPort_made (hs (Or.inl rfl)) h
  | acceptSession handle =>
    obtain ⟨r, h⟩ := afterCall_eq_ret.mp h
    exact acceptSession_made (hs (Or.inl rfl)) h
  | closeHandle handle =>
    obtain ⟨r, h⟩ := liftCall_eq_ret.mp h
    exact of_closeHandle h
  | newHandle p => exact newHandleOf_made (mapPanic_eq_ret.mp h)
  | makeSessionPair =>
    injection h with h
    exact h ▸ makeSessionPair_made
  | makePortPair =>
    injection h with h
    exact h ▸ makePortPair_made
  | registerPort name port => exact registerPort_made (mapPanic_eq_ret.mp h)
  | bindInterrupt name handle =>
    obtain ⟨r, h⟩ := liftCall_eq_ret.mp h
    exact bindInterrupt_made h
  | setThreadIpcData data => exact of_setThreadIpcData (hm rfl) (mapPanic_eq_ret.mp h)
  | createThread => exact createThreadNext_made hfresh (mapPanic_eq_ret.mp h)
  | exitThread => exact exitThread_made (hs (Or.inr rfl)) hcalling (mapPanic_eq_ret.mp h)

/-- A call that does not exit leaves its thread awake all along, or puts it to sleep once. -/
theorem svcCall_sleeps {call : SvcCall} (hexit : call ≠ .exitThread)
    (hm : call.messages = true → may.messages) (ht : k.view.Tidy)
    (hcalling : k.calling = true) (h : call.exec rng fuel k = .ret k') :
    Made may held k k' ∨
      call.suspends = true ∧ ∃ wait, GoesToSleep may held wait k k' := by
  have hn : k.indices.Nodup := ht.nodup
  cases call with
  | waitSync1 time handle timeout =>
    obtain ⟨r, h⟩ := liftCall_eq_ret.mp h
    rcases waitSync1_result may held h with ⟨_, _, rfl⟩ | ⟨_, _, hsleeps⟩
    · exact Or.inl (refl may held _)
    · exact Or.inr ⟨rfl, _, hsleeps⟩
  | waitSyncN time handles waitAll timeout =>
    obtain ⟨r, h⟩ := liftCall_eq_ret.mp h
    obtain ⟨_, _, _, hsleeps⟩ := waitSyncN_result may held h
    exact Or.inr ⟨rfl, _, hsleeps⟩
  | sleepThread time ns =>
    obtain ⟨absolute, w, hsuspend⟩ := sleepThread_cases (mapPanic_eq_ret.mp h)
    exact Or.inr ⟨rfl, ⟨.sleep, 0, absolute.isSome⟩, refl may held k, (fun _ => rfl), rfl, rfl,
      hsuspend, refl may _ k'⟩
  | arbitrateAddress handle addr typ memoryValue value =>
    obtain ⟨r, h⟩ := liftCall_eq_ret.mp h
    rcases arbitrateAddress_result may held h with hmade | hsleeps
    · exact Or.inl hmade
    · exact Or.inr ⟨rfl, _, hsleeps⟩
  | replyAndReceivePre time handles replyTarget =>
    obtain ⟨r, h⟩ := afterCall_eq_ret.mp h
    rcases replyAndReceivePre_result may held (hm rfl) hn h with ⟨_, _, rfl⟩ | ⟨_, hsleeps⟩
    · exact Or.inl (refl may held _)
    · exact Or.inr ⟨rfl, _, hsleeps⟩
  | sendSyncRequest handle =>
    obtain ⟨r, h⟩ := afterCall_eq_ret.mp h
    rcases sendSyncRequest_result may held h with ⟨_, _, rfl⟩ | ⟨_, hsleeps⟩
    · exact Or.inl (refl may held _)
    · exact Or.inr ⟨rfl, _, hsleeps⟩
  | createSessionToPort handle =>
    obtain ⟨r, h⟩ := afterCall_eq_ret.mp h
    rcases createSessionToPort_result may held h with ⟨_, _, rfl⟩ | ⟨_, _, hsleeps⟩
    · exact Or.inl (refl may held _)
    · exact Or.inr ⟨rfl, _, hsleeps⟩
  | acceptSession handle =>
    obtain ⟨r, h⟩ := afterCall_eq_ret.mp h
    rcases acceptSession_result may held h with ⟨_, hmade⟩ | ⟨_, hsleeps⟩
    · exact Or.inl (hmade may)
    · exact Or.inr ⟨rfl, _, hsleeps⟩
  | exitThread => exact absurd rfl hexit
  | _ => exact Or.inl (svcCall_made (fun hs => by rcases hs with hs | hs <;> cases hs) hm ht
      hcalling h)

/-! ## Ticks -/

theorem tickTimers_made {objects : List ObjId}
    (h : Kernel.tickTimers time objects k = .ret k') : Made may held k k' := by
  induction objects generalizing k with
  | nil =>
    cases h
    exact refl may held _
  | cons p objects ih =>
    obtain ⟨k1, htick, h⟩ := bind_eq_ret.mp h
    refine Made.trans ?_ (ih h)
    unfold Kernel.tickTimer at htick
    split at htick
    · rename_i timer hx
      exact of_timerTick hx htick
    · cases htick
      exact refl may held _

theorem tickInterrupts_made {interrupts : List UInt32}
    (h : Kernel.tickInterrupts interrupts k = .ret k') : Made may held k k' := by
  induction interrupts generalizing k with
  | nil =>
    cases h
    exact refl may held _
  | cons interrupt interrupts ih =>
    obtain ⟨k1, htick, h⟩ := bind_eq_ret.mp h
    refine Made.trans ?_ (ih h)
    unfold Kernel.tickInterrupt at htick
    split at htick
    · split at htick
      · rename_i event hx
        exact of_doSignal hx htick
      · cases htick
        exact refl may held _
    · cases htick
      exact refl may held _

/-- A tick lets threads time out, and then timers and interrupts wake theirs. -/
theorem tick_made {interrupts : List UInt32} (h : k.tick time interrupts = .ret k') :
    Made may held k k' := by
  obtain ⟨k1, hat, h⟩ := bind_eq_ret.mp h
  obtain ⟨k2, hthreads, hat⟩ := bind_eq_ret.mp hat
  have htimeouts : Made may held k k2 := single (.timeouts (mapPanic_eq_ret.mp hthreads))
  exact (htimeouts.trans (tickTimers_made hat)).trans (tickInterrupts_made h)

end Svc

end Pomelo
