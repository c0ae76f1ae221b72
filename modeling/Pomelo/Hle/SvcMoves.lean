/-
  The moves that supervisor calls, and the steps of the main loop, are made of.

  `Common` are the moves that no property of ports and sessions forbids: what threads do on their
  own, and every change of an object that is no end of a port or session. Calls that wait, send,
  reply or hand over sessions need moves besides, which their lemmas name: `Touches` is any
  change of one end, and a wait needs what `WaitMoves` says.
-/
import Pomelo.Hle.Waits
import Pomelo.Hle.ObjectCalls

namespace Pomelo

open Lib Outcome

/-- All moves but those of waits on, and of other changes to, ends of ports and sessions. -/
structure Common (allowed : Move → Prop) : Prop where
  turn : ∀ t state, allowed (.turn t state)
  born : ∀ t, allowed (.born t)
  make : ∀ x, allowed (.make x)
  makePair : ∀ x y, allowed (.makePair x y)
  drop : ∀ o, allowed (.drop o)
  suspend : ∀ t objects timeout waitType, allowed (.suspend t objects timeout waitType)
  expire : ∀ t, allowed (.expire t)
  change : ∀ o f, allowed (.change o .none f)
  enqueue : ∀ o w f, allowed (.enqueue o .none w f)
  take : ∀ o w f, allowed (.take o .none w f)
  act : ∀ o ws f g, allowed (.act o .none ws f g)

/-- Of these, those of a step that puts no thread to sleep, and changes no address arbiter. -/
structure Steady (allowed : Move → Prop) : Prop where
  turn : ∀ t state, allowed (.turn t state)
  born : ∀ t, allowed (.born t)
  make : ∀ x, allowed (.make x)
  makePair : ∀ x y, allowed (.makePair x y)
  drop : ∀ o, allowed (.drop o)
  expire : ∀ t, allowed (.expire t)
  change : ∀ o f, KObject.SparesArbiters f → allowed (.change o .none f)
  take : ∀ o w f, KObject.SparesArbiters f → allowed (.take o .none w f)
  act : ∀ o ws f g, KObject.SparesArbiters f → KObject.SparesArbiters g →
    allowed (.act o .none ws f g)

/-- `Common` without the moves that change address arbiters: what arbitration alone does. -/
structure Usual (allowed : Move → Prop) : Prop extends Steady allowed where
  suspend : ∀ t objects timeout waitType, allowed (.suspend t objects timeout waitType)

theorem Common.usual {allowed : Move → Prop} (h : Common allowed) : Usual allowed where
  turn := h.turn
  born := h.born
  make := h.make
  makePair := h.makePair
  drop := h.drop
  suspend := h.suspend
  expire := h.expire
  change o f _ := h.change o f
  take o w f _ := h.take o w f
  act o ws f g _ _ := h.act o ws f g

/-- Any change of the object, an end of a port or session, that adds no waker. -/
structure Touches (allowed : Move → Prop) (o : ObjId) (p : Peer) : Prop where
  change : ∀ f, allowed (.change o p f)
  act : ∀ ws f g, allowed (.act o p ws f g)

section Threads

variable {allowed : Move → Prop} {k k' : Kernel}

theorem suspendThread_view {objects : List ObjId} {timeout : Option UInt64}
    {waitType : ThreadWaitType} {w : Waker}
    (h : k.suspendThread objects timeout waitType = .ret (w, k')) :
    (∃ pid, k.current = some (pid, w.thread)) ∧
      View.Step k.view (.suspend w.thread objects timeout waitType) k'.view ∧
      k'.view.Attends w objects ∧ k'.view.objects = k.view.objects := by
  obtain ⟨self, hself, hrun, hkey, hsleepers⟩ := Kernel.suspendThread_sleepers h
  obtain ⟨pid, tid, thread, hcurrent, _, _, rfl, rfl⟩ := Kernel.suspendThread_eq_ret h
  refine ⟨⟨pid, hcurrent⟩, ?_,
    ⟨self.suspended objects timeout waitType, ?_, hkey.symm, rfl, rfl⟩, rfl⟩
  · have hindices := Kernel.indices_setThread k { thread with
        waitObjects := objects
        state := .waiting
        waitTimeout := timeout
        waitType := some waitType }
    have hview : (k.setThread { thread with
        waitObjects := objects
        state := .waiting
        waitTimeout := timeout
        waitType := some waitType }).view = { k.view with
          sleepers := Function.update k.view.sleepers tid
            (some (self.suspended objects timeout waitType)) } := by
      unfold Kernel.view
      rw [hsleepers, hindices]
      rfl
    rw [hview]
    exact .suspend hself hrun
  · show (Kernel.setThread k _).sleepers tid = _
    rw [hsleepers]
    exact Function.update_self _ _ _

/-- A thread that starts, stops or is done. -/
theorem setThread_turn {t : ThreadIndex} {thread : CommonThread} (thread' : CommonThread)
    (h : k.thread? t = some thread) (hindex : thread'.index = thread.index)
    (hs : thread.state ≠ .waiting) (hn : thread'.state ≠ .waiting)
    (hsleeper : thread'.sleeper = thread.sleeper.inState thread'.state) :
    View.Step k.view (.turn t thread'.state) (k.setThread thread').view := by
  have hself : k.view.sleepers t = some thread.sleeper := by
    show k.sleepers t = _
    unfold Kernel.sleepers
    rw [h]
    rfl
  have hview : (k.setThread thread').view = { k.view with
      sleepers := Function.update k.view.sleepers t
        (some (thread.sleeper.inState thread'.state)) } := by
    unfold Kernel.view
    rw [Kernel.sleepers_setThread h hindex, Kernel.indices_setThread, hsleeper]
    rfl
  rw [hview]
  exact .turn hself hs hn

theorem runNext_moves {started : Option (ThreadIndex × ThreadResume)} (ha : Steady allowed)
    (h : k.runNext = .ret (started, k')) : Moves View.Step allowed k.view k'.view := by
  unfold Kernel.runNext at h
  split at h
  · obtain ⟨⟨resume, k1⟩, hstart, h⟩ := bind_eq_ret.mp h
    injection h with h
    obtain ⟨_, rfl⟩ := Prod.mk.inj h
    obtain ⟨thread, hthread, hready, _, rfl⟩ := Kernel.startThread_eq_ret hstart
    have hs : thread.state ≠ .waiting := by
      rw [hready]
      decide
    have hturn := setThread_turn { thread with state := .running, resume := .normal } hthread rfl
      hs (fun h => by cases h) rfl
    exact .single (ha.turn _ _) hturn
  · injection h with h
    obtain ⟨_, rfl⟩ := Prod.mk.inj h
    exact .refl _

theorem stopThread_moves {index : ThreadIndex} (ha : Steady allowed)
    (h : k.stopThread index = .ret k') : Moves View.Step allowed k.view k'.view := by
  obtain ⟨pid, tid, thread, _, hthread, rfl⟩ := Kernel.stopThread_eq_ret h
  by_cases hrun : thread.state = .running
  · rw [if_pos hrun]
    have hs : thread.state ≠ .waiting := by
      rw [hrun]
      decide
    have hturn := setThread_turn { thread with state := .ready } hthread rfl hs
      (fun h => by cases h) rfl
    exact .single (ha.turn _ _) hturn
  · rw [if_neg hrun]
    have hsame : (k.setThread thread).view = k.view :=
      Kernel.view_setIpcData thread.ipcData hthread
    exact .of_eq hsame.symm

/-- The current thread is done. -/
theorem finishThread_moves {kobj : ObjId} (ha : Steady allowed) (hcalling : k.calling = true)
    (h : k.finishThread = .ret (kobj, k')) : Moves View.Step allowed k.view k'.view := by
  obtain ⟨pid, tid, thread, hcurrent, hthread, _, rfl⟩ := Kernel.finishThread_eq_ret h
  have hrun : thread.state = .running := by
    unfold Kernel.calling at hcalling
    rw [hcurrent] at hcalling
    dsimp only at hcalling
    rw [hthread] at hcalling
    exact of_decide_eq_true hcalling
  have hs : thread.state ≠ .waiting := by
    rw [hrun]
    decide
  have hturn := setThread_turn { thread with state := .done } hthread rfl hs
    (fun h => by cases h) rfl
  exact .single (ha.turn _ _) hturn

theorem newThread_moves {pid : ProcessId} {tid : ThreadIndex} {kobj : ObjId}
    (ha : Steady allowed) (h : k.newThread pid = .ret (tid, kobj, k')) :
    Moves View.Step allowed k.view k'.view := by
  obtain ⟨rfl, rfl, rfl⟩ := Kernel.newThread_eq_ret h
  have hmake : View.Step k.view (.make (.thread (ThreadImpl.new k.nextTid)))
      { k.view with objects := k.view.objects ++ [some (.thread (ThreadImpl.new k.nextTid))] } :=
    .make ⟨rfl, rfl, rfl⟩ rfl
  refine (Moves.single (ha.make _) hmake).tail (ha.born k.nextTid) ?_
  have hsleepers : ∀ kobj, (fun t => (findKey CommonThread.index t
      (k.threads ++ [CommonThread.new pid k.nextTid kobj])).map CommonThread.sleeper) =
      fun t => (k.view.sleepers t).or (if t = k.nextTid then some Sleeper.new else none) := by
    intro kobj
    funext t
    rw [findKey_append, Option.map_or, findKey, CommonThread.new_index, findKey]
    by_cases ht : t = k.nextTid
    · rw [if_pos ht, if_pos ht.symm]
      rfl
    · rw [if_neg ht, if_neg (Ne.symm ht)]
      rfl
  have hborn := View.Step.born (v := { k.view with
    objects := k.view.objects ++ [some (.thread (ThreadImpl.new k.nextTid))] })
  have hindices : (k.threads ++ [CommonThread.new pid k.nextTid k.objects.length]).map
      CommonThread.index = k.indices ++ [k.nextTid] := by
    rw [List.map_append]
    rfl
  unfold Kernel.view Kernel.sleepers Kernel.thread? Kernel.indices
  dsimp only
  rw [hsleepers, hindices]
  exact hborn

/-! ## Objects and handles -/

theorem createObject_moves {rng : Nat → UInt32} {fuel : Nat} {data : KObject}
    {r : KResult Handle} (ha : Steady allowed) (hn : data.New) (hp : data.peer = .none)
    (h : k.createObject rng fuel data = .ret (r, k')) :
    Moves View.Step allowed k.view k'.view := by
  obtain ⟨handle, hnew⟩ := createObject_cases h
  rw [(Kernel.newHandle_processes hnew).view]
  exact .single (ha.make data) (.make hn hp)

theorem createThreadNext_moves {rng : Nat → UInt32} {fuel : Nat} (ha : Steady allowed)
    (h : k.createThreadNext rng fuel = .ret k') : Moves View.Step allowed k.view k'.view := by
  obtain ⟨pid, tid, object, k1, handle, k2, hthread, hnew, rfl⟩ := createThreadNext_cases h
  have hview : (k2.scheduleNext tid).view = k1.view := (Kernel.newHandle_processes hnew).view
  rw [hview]
  exact newThread_moves ha hthread

theorem modify_append_two {α : Type} (l : List α) (a b : α) (f : α → α) :
    (l ++ [a] ++ [b]).modify l.length f = l ++ [f a, b] := by
  induction l with
  | nil => rfl
  | cons x l ih =>
    rw [List.cons_append, List.cons_append, List.length_cons, List.modify_succ_cons, ih]
    rfl

/-- Two objects are made, and then the first is changed. -/
theorem newPair_objects (server client : KObject) (f : KObject → KObject) :
    (((k.newObject server).2.newObject client).2.modifyObject k.objects.length f).objects =
      k.objects ++ [some (f server), some client] :=
  modify_append_two k.objects (some server) (some client) (Option.map f)

/-- The two ends of a session are made in one move. -/
theorem makeSessionPair_step : View.Step k.view
    (.makePair (.serverSession ⟨[], [], some (k.objects.length + 1)⟩)
      (.clientSession ⟨[], k.objects.length⟩)) (makeSessionPair k).2.2.view := by
  have hstep := @View.Step.makePair k.view
    (.serverSession ⟨[], [], some (k.objects.length + 1)⟩) (.clientSession ⟨[], k.objects.length⟩)
    ⟨rfl, rfl, rfl⟩ ⟨rfl, rfl, rfl⟩ (Or.inr ⟨rfl, rfl⟩)
  have hobjects : (makeSessionPair k).2.2.objects = _ := newPair_objects
    (.serverSession ⟨[], [], none⟩) (.clientSession ⟨[], k.objects.length⟩) (KObject.setClient _)
  unfold Kernel.view at hstep ⊢
  rw [hobjects, List.length_append]
  exact hstep

theorem makePortPair_step : View.Step k.view
    (.makePair (.serverPort ⟨[], [], some (k.objects.length + 1)⟩)
      (.clientPort ⟨[], k.objects.length⟩)) (makePortPair k).2.2.view := by
  have hstep := @View.Step.makePair k.view
    (.serverPort ⟨[], [], some (k.objects.length + 1)⟩) (.clientPort ⟨[], k.objects.length⟩)
    ⟨rfl, rfl, rfl⟩ ⟨rfl, rfl, rfl⟩ (Or.inl ⟨rfl, rfl⟩)
  have hobjects : (makePortPair k).2.2.objects = _ := newPair_objects
    (.serverPort ⟨[], [], none⟩) (.clientPort ⟨[], k.objects.length⟩) (KObject.setClient _)
  unfold Kernel.view at hstep ⊢
  rw [hobjects, List.length_append]
  exact hstep

end Threads

/-! ## Calls on events, timers, mutexes and threads -/

section Calls

variable {allowed : Move → Prop} {rng : Nat → UInt32} {fuel : Nat} {time : UInt64}
  {k k' : Kernel}

/-- The kernel that a call leaves, as its view. -/
abbrev after {α : Type} (x : α × Kernel) : View := x.2.view

theorem releaseMutex_madeOf (ha : Steady allowed) (handle : Option Handle) :
    MadeOf allowed after k (k.releaseMutex handle) := by
  refine Refines.bind_of (fun e he => blame_of_lift he) fun found hfound => ?_
  have hfound := mapPanic_eq_ret.mp hfound
  split
  · refine Refines.bind (release_madeOf (lookupObject_eq_ret hfound) (ha.change _) (ha.act _))
      fun k1 _ => ?_
    exact .ret (.refl _)
  · exact .ret (.refl _)

theorem signalEvent_madeOf (ha : Steady allowed) (handle : Option Handle) :
    MadeOf allowed after k (k.signalEvent handle) := by
  refine Refines.bind_of (fun e he => blame_of_lift he) fun found hfound => ?_
  have hfound := mapPanic_eq_ret.mp hfound
  split
  · refine Refines.bind (doSignal_madeOf (lookupObject_eq_ret hfound)
      (ha.change _ _ (.modifySignal _)) (ha.act _)) fun k1 _ => ?_
    exact .ret (.refl _)
  · exact .ret (.refl _)

theorem clearEvent_moves {handle : Option Handle} {r : KResult Unit} (ha : Steady allowed)
    (h : k.clearEvent handle = .ret (r, k')) : Moves View.Step allowed k.view k'.view := by
  obtain ⟨found, hfound, h⟩ := bind_eq_ret.mp h
  split at h
  · injection h with h
    obtain ⟨_, rfl⟩ := Prod.mk.inj h
    have hx : k.view.object? _ = _ := lookupObject_eq_ret hfound
    exact .single (ha.change _ _ (.modifySignal _)) (.change (View.adds_of_wakers [] hx
      (KObject.plain_modifySignal Signal.reset).peer (KObject.wakers_modifySignal Signal.reset)))
  · injection h with h
    obtain ⟨_, rfl⟩ := Prod.mk.inj h
    exact .refl _

theorem timerSet_moves {o : ObjId} {self : TimerImpl} (initialNs interval : Int64)
    (ha : Steady allowed) (hx : k.view.object? o = some (.timer self)) :
    Moves View.Step allowed k.view (TimerImpl.set o initialNs interval k).view :=
  .single (ha.change _ _ (.setTimerData _)) (.change (View.adds_of_wakers [] hx
    (KObject.plain_setTimerData { nextNs := initialNs, interval := interval }).peer
    (KObject.wakers_setTimerData { nextNs := initialNs, interval := interval })))

theorem setTimer_moves {handle : Option Handle} {initial interval : Int64} {r : KResult Unit}
    (ha : Steady allowed) (h : k.setTimer handle initial interval = .ret (r, k')) :
    Moves View.Step allowed k.view k'.view := by
  obtain ⟨found, hfound, h⟩ := bind_eq_ret.mp h
  split at h
  · injection h with h
    obtain ⟨_, rfl⟩ := Prod.mk.inj h
    exact timerSet_moves initial interval ha (lookupObject_eq_ret hfound)
  · injection h with h
    obtain ⟨_, rfl⟩ := Prod.mk.inj h
    exact .refl _

theorem cancelTimer_moves {handle : Option Handle} {r : KResult Unit} (ha : Steady allowed)
    (h : k.cancelTimer handle = .ret (r, k')) : Moves View.Step allowed k.view k'.view := by
  obtain ⟨found, hfound, h⟩ := bind_eq_ret.mp h
  split at h
  · injection h with h
    obtain ⟨_, rfl⟩ := Prod.mk.inj h
    exact timerSet_moves (-1) (-1) ha (lookupObject_eq_ret hfound)
  · injection h with h
    obtain ⟨_, rfl⟩ := Prod.mk.inj h
    exact .refl _

theorem sleepThread_moves {ns : Int64} (ha : Usual allowed)
    (h : k.sleepThread time ns = .ret k') : Moves View.Step allowed k.view k'.view := by
  obtain ⟨absolute, w, hsuspend⟩ := sleepThread_cases h
  obtain ⟨_, hstep, _⟩ := suspendThread_view hsuspend
  exact .single (ha.suspend _ _ _ _) hstep

/-! ## Waits -/

/-- The waker is one of the current thread. -/
def Kernel.OwnWaker (k : Kernel) (w : Waker) : Prop := ∃ pid, k.current = some (pid, w.thread)

/-- A wait by the current thread may put its waker into the queues of these objects, whatever ends
    they are; and a waker that is stale only if `stale` allows it. -/
structure MayWait (allowed : Move → Prop) (k : Kernel) (objects : List ObjId) (stale : Prop) :
    Prop where
  enqueue : ∀ o ∈ objects, ∀ p w, k.OwnWaker w → allowed (.enqueue o p w (KObject.pushWaker w))
  enqueueStale : stale → ∀ o ∈ objects, ∀ p w, k.OwnWaker w →
    allowed (.enqueueStale o p w (KObject.pushWaker w))

theorem MayWait.waitMoves {objects : List ObjId} {stale : Prop} {w : Waker}
    (h : MayWait allowed k objects stale) (ha : Steady allowed) (hw : k.OwnWaker w) :
    WaitMoves allowed w objects stale where
  enqueue o ho p := h.enqueue o ho p w hw
  take o _ f := ha.take o w f
  change o _ f := ha.change o f
  enqueueStale hs o ho p := h.enqueueStale hs o ho p w hw

/-- A wait on one object, with data that is of its kind. -/
theorem waitOn_moves {o : ObjId} {x : KObject} {timeout : Option UInt64} (ha : Usual allowed)
    (hm : MayWait allowed k [o] False) (hx : k.object? o = some x)
    (h : k.waitOn o x timeout = .ret k') : Moves View.Step allowed k.view k'.view := by
  obtain ⟨⟨w, k1⟩, hsuspend, h⟩ := bind_eq_ret.mp h
  obtain ⟨hown, hstep, hattends, hobjects⟩ := suspendThread_view hsuspend
  have hx1 : k1.object? o = some x := by rw [suspendThread_object? hsuspend, hx]
  have hsync : x.isSync = true := by
    cases x with
    | arbiter self => cases h
    | codeSet => cases h
    | _ => rfl
  have hone : Kernel.waitEach w [o] k1 = .ret k' := by
    have hdata : (k1.object? o).filter KObject.isSync = some x := by
      rw [hx1, Option.filter_some, if_pos hsync]
    have hwait : KObject.wait o w k1 x = .ret k' := h
    unfold Kernel.waitEach
    rw [hdata, expect_some, ret_bind, hwait]
    rfl
  refine (Moves.single (ha.suspend _ _ _ _) hstep).trans ?_
  exact waitEach_moves (hm.waitMoves ha.toSteady hown) hattends (fun _ hp => hp)
    (Or.inl (staleFree_single _ _ o)) hone

theorem waitSync1_moves {handle : Option Handle} {timeout : Int64}
    {r : KResult (Option Reschedule)} (ha : Usual allowed)
    (hm : ∀ o x, k.lookupObject handle = .ret (some (o, x)) → MayWait allowed k [o] False)
    (h : k.waitSync1 time handle timeout = .ret (r, k')) :
    Moves View.Step allowed k.view k'.view := by
  rcases waitSync1_cases h with rfl | ⟨o, x, absolute, hfound, hwait⟩
  · exact .refl _
  · exact waitOn_moves ha (hm _ _ hfound) (lookupObject_eq_ret hfound) hwait

/-- The objects behind the handles are free of stale wakers in a wait on them. -/
def Kernel.WaitsStaleFree (k : Kernel) (objects : List ObjId) : Prop :=
  StaleFree k.objects.ready k.objects.lasting objects

theorem waitSyncN_moves {handles : List (Option Handle)} {waitAll : Bool} {timeout : Int64}
    {r : KResult (Option Reschedule)} {stale : Prop} (ha : Usual allowed)
    (hm : ∀ objects, k.waitedObjects handles = .ret objects →
      MayWait allowed k objects stale ∧ (k.WaitsStaleFree objects ∨ stale))
    (h : k.waitSyncN time handles waitAll timeout = .ret (r, k')) :
    Moves View.Step allowed k.view k'.view := by
  obtain ⟨objects, absolute, w, k1, hwaited, hsuspend, hwait⟩ := waitSyncN_cases h
  obtain ⟨hown, hstep, hattends, hobjects⟩ := suspendThread_view hsuspend
  obtain ⟨hmay, hfree⟩ := hm objects hwaited
  refine (Moves.single (ha.suspend _ _ _ _) hstep).trans ?_
  refine waitEach_moves (hmay.waitMoves ha.toSteady hown) hattends (fun _ hp => hp) ?_ hwait
  rw [hobjects]
  exact hfree

/-- A wait on an arbiter changes the arbiter only, and puts the waker into its queue. -/
theorem arbiterWait_adds {o : ObjId} {arb : ArbiterImpl} (w : Waker) (addr : UInt32)
    (hx : k.object? o = some (.arbiter arb)) :
    ∃ f, ArbiterImpl.wait w addr o k = k.modifyObject o f ∧ k.view.Adds o .none [w] f := by
  refine ⟨_, rfl, fun x hx' => ?_, fun x hx' w' hw' => ?_⟩
  · have heq : some (KObject.arbiter arb) = some x := hx.symm.trans hx'
    cases heq
    exact ⟨rfl, rfl⟩
  · have heq : some (KObject.arbiter arb) = some x := hx.symm.trans hx'
    cases heq
    have hw' : w' ∈ (arb.wakerQueue ++ [(w, addr)]).map Prod.fst := hw'
    rw [List.map_append, List.mem_append] at hw'
    exact hw'

/-- A thread that arbitrates may signal the arbiter, and then wait on it. -/
theorem arbitrateAddress_moves {handle : Option Handle} {addr : UInt32} {typ : ArbitrationType}
    {memoryValue value : Int32} {r : KResult (Option Reschedule)} (ha : Common allowed)
    (h : k.arbitrateAddress handle addr typ memoryValue value = .ret (r, k')) :
    Moves View.Step allowed k.view k'.view := by
  rcases arbitrateAddress_cases h with rfl | ⟨o, arb, hfound, hcase⟩
  · exact .refl _
  · have hx := lookupObject_eq_ret hfound
    rcases hcase with ⟨woke, hsignal⟩ | ⟨w, k1, hsuspend, rfl⟩
    · exact arbiterSignal_moves hx (ha.act _) hsignal
    · obtain ⟨_, hstep, ⟨self, hself, hkey, hstate, hobjects⟩, _⟩ := suspendThread_view hsuspend
      have ho : o ∈ self.waitObjects := by
        rw [hobjects]
        exact List.mem_cons_self
      obtain ⟨f, hwait, hadds⟩ :=
        arbiterWait_adds w addr ((suspendThread_object? hsuspend o).trans hx)
      rw [hwait]
      exact (Moves.single (ha.suspend _ _ _ _) hstep).trans
        (Moves.single (ha.enqueue _ _ _) (.enqueue hself hkey hstate ho hadds))

/-! ## Sessions -/

/-- A call without wakes of its own, made of moves. -/
theorem madeOf_lift {α : Type} {view : α → View} {x : Exec α}
    (h : ∀ a, x = .ret a → Moves View.Step allowed k.view (view a)) :
    MadeOf allowed view k (liftM x) :=
  ⟨fun a ha => h a (mapPanic_eq_ret.mp ha), fun _ he => ⟨k.view, .refl _, blame_of_lift he⟩⟩

/-- The first thread in the queue of a session or port is woken. -/
theorem wakeQueue_madeOf {o : ObjId} {x : KObject} (ht : Touches allowed o x.peer)
    (hx : k.object? o = some x) : MadeOf allowed Kernel.view k (wakeFront o x.wakers k) := by
  have hfront := wakeFront_madeOf (f := id) hx (fun _ => rfl) (fun _ => rfl)
    (fun _ => ht.change _) fun w rest _ => ht.act _ _ _
  rw [Kernel.modifyObject_id] at hfront
  exact hfront

theorem reply_madeOf {s : ObjId} {self : ServerSessionHLE} {t : ThreadIndex}
    (hn : k.indices.Nodup) (hx : k.object? s = some (.serverSession self))
    (hs : Touches allowed s (.ofServerSession self.client))
    (hc : ∀ c server, self.client = some c → Touches allowed c (.ofClientSession server)) :
    MadeOf allowed Kernel.view k (self.reply rng fuel s t k) := by
  unfold ServerSessionHLE.reply
  split
  · exact .panic trivial
  · rename_i request requests _
    have hv : k.view.object? s = some (.serverSession self) := hx
    have hpop : Moves View.Step allowed k.view
        (k.modifyObject s (KObject.setRequests requests)).view :=
      .single (hs.change _) (.change (View.adds_of_wakers [] hv
        (fun y => by cases y <;> rfl) (KObject.wakers_setRequests requests)))
    refine Refines.after hpop ?_
    refine Refines.bind_of (fun e he => blame_of_lift he) fun k1 htranslate => ?_
    have htranslate := mapPanic_eq_ret.mp htranslate
    have hview := Kernel.translateIpc_view (by exact hn) htranslate
    rw [← hview]
    refine Refines.bind_of (fun e he => ?_) fun found hfound => ?_
    · obtain ⟨_, rfl⟩ := expect_eq_panic.mp he
      trivial
    · obtain ⟨client, data⟩ := found
      have hfound := expect_eq_ret.mp hfound
      have hclient := client_of_clientSession? hfound
      exact wakeQueue_madeOf (hc client data.server hclient) (clientSession?_eq_some hfound)

theorem replyTo_madeOf {replyTarget : Option Handle} (hn : k.indices.Nodup)
    (hr : ∀ s self, k.lookupObject replyTarget = .ret (some (s, .serverSession self)) →
      Touches allowed s (.ofServerSession self.client) ∧
        ∀ c server, self.client = some c → Touches allowed c (.ofClientSession server)) :
    MadeOf allowed after k (k.replyTo rng fuel replyTarget) := by
  unfold Kernel.replyTo
  split
  · exact .ret (.refl _)
  · refine Refines.bind_of (fun e he => blame_of_lift he) fun current _ => ?_
    refine Refines.bind_of (fun e he => blame_of_lift he) fun found hfound => ?_
    have hfound := mapPanic_eq_ret.mp hfound
    split
    · obtain ⟨hs, hc⟩ := hr _ _ hfound
      refine Refines.bind (reply_madeOf hn (lookupObject_eq_ret hfound) hs hc) fun k1 _ => ?_
      exact .ret (.refl _)
    · exact .ret (.refl _)

theorem replyAndReceivePre_madeOf {handles : List (Option Handle)} {replyTarget : Option Handle}
    {stale : Prop} (ha : Usual allowed) (hn : k.indices.Nodup)
    (hr : ∀ s self, k.lookupObject replyTarget = .ret (some (s, .serverSession self)) →
      Touches allowed s (.ofServerSession self.client) ∧
        ∀ c server, self.client = some c → Touches allowed c (.ofClientSession server))
    (hm : ∀ k1, k.replyTo rng fuel replyTarget = .ret (.ok (), k1) →
      ∀ objects, k1.waitedObjects handles = .ret objects →
        MayWait allowed k1 objects stale ∧ (k1.WaitsStaleFree objects ∨ stale)) :
    MadeOf allowed after k (k.replyAndReceivePre rng fuel time handles replyTarget) := by
  refine Refines.bind (replyTo_madeOf hn hr) fun replied hreplied => ?_
  obtain ⟨r, k1⟩ := replied
  cases r with
  | ok _ => exact madeOf_lift fun a ha' => waitSyncN_moves ha (hm _ hreplied) ha'
  | error err => exact .ret (.refl _)

theorem replyAndReceivePost_view {handles : List (Option Handle)} {resume : ThreadResume}
    {r : Nat × KResult Unit} (hn : k.indices.Nodup)
    (h : k.replyAndReceivePost rng fuel handles resume = .ret (r, k')) : k'.view = k.view := by
  rcases replyAndReceivePost_cases h with rfl | ⟨client, server, htranslate⟩
  · rfl
  · exact Kernel.translateIpc_view hn htranslate

/-- A request is queued in the server session, and a thread that waits there is woken. -/
theorem enqueueSyncRequest_madeOf {s : ObjId} {self : ServerSessionHLE} {t : ThreadIndex}
    (hx : k.object? s = some (.serverSession self))
    (hs : Touches allowed s (.ofServerSession self.client)) :
    MadeOf allowed Kernel.view k (self.enqueueSyncRequest s t k) :=
  wakeFront_madeOf hx (fun y => by cases y <;> rfl) (KObject.wakers_setRequests _)
    (fun _ => hs.change _) fun w rest _ => hs.act _ _ _

theorem sendSyncRequest_madeOf {handle : Option Handle} (ha : Usual allowed)
    (hs : ∀ c self, k.lookupObject handle = .ret (some (c, .clientSession self)) →
      (∀ w, k.OwnWaker w →
        allowed (.enqueue c (.ofClientSession self.server) w (KObject.pushWaker w))) ∧
        ∀ client, Touches allowed self.server (.ofServerSession client)) :
    MadeOf allowed after k (k.sendSyncRequest handle) := by
  refine Refines.bind_of (fun e he => blame_of_lift he) fun found hfound => ?_
  have hfound := mapPanic_eq_ret.mp hfound
  split
  · rename_i c session _
    obtain ⟨hask, htouch⟩ := hs c session hfound
    refine Refines.bind_of (fun e he => blame_of_lift he) fun suspended hsuspend => ?_
    obtain ⟨w, k1⟩ := suspended
    have hsuspend := mapPanic_eq_ret.mp hsuspend
    obtain ⟨hown, hstep, ⟨self, hself, hkey, hstate, hobjects⟩, _⟩ := suspendThread_view hsuspend
    have hx : k1.object? c = some (.clientSession session) :=
      (suspendThread_object? hsuspend c).trans (lookupObject_eq_ret hfound)
    have hv : k1.view.object? c = some (.clientSession session) := hx
    have hsync : MadeOf allowed after k1 (session.syncRequest c w k1) := by
      unfold ClientSessionHLE.syncRequest
      split
      · rename_i server hserver
        have hs := serverSession?_eq_some hserver
        have hne : session.server ≠ c := by
          intro heq
          rw [heq, hx] at hs
          cases hs
        have ho : c ∈ self.waitObjects := by
          rw [hobjects]
          exact List.mem_cons_self
        have hpushed : (k1.modifyObject c (KObject.pushWaker w)).object? session.server =
            some (.serverSession server) := by
          rw [Kernel.object?_modifyObject, if_neg hne, hs]
        have hmove : View.Step k1.view
            (.enqueue c (.ofClientSession session.server) w (KObject.pushWaker w))
            (k1.modifyObject c (KObject.pushWaker w)).view :=
          .enqueue hself hkey hstate ho (View.adds_pushWaker w hv)
        refine Refines.after (.single (hask w hown) hmove) ?_
        refine Refines.bind (enqueueSyncRequest_madeOf hpushed (htouch _)) fun k2 _ => ?_
        exact .ret (.refl _)
      · exact .ret (.refl _)
    refine Refines.after (.single (ha.suspend _ _ _ _) hstep) ?_
    refine Refines.bind hsync fun a _ => ?_
    refine Refines.bind_of (fun e he => ?_) fun _ _ => .ret (.refl _)
    obtain ⟨_, rfl⟩ := assert_eq_panic.mp he
    trivial
  · exact .ret (.refl _)

/-! ## Ports -/

/-- The current thread is put into the queue of a client port, whatever is queued there. -/
theorem waitOnPort_moves {o : ObjId} {port : ClientPortHLE} {p : Peer} {timeout : Option UInt64}
    (ha : Usual allowed) (hm : ∀ w, allowed (.enqueue o p w (KObject.pushWaker w)))
    (hp : ∀ x, k.object? o = some x → x.peer = p)
    (h : k.waitOn o (.clientPort port) timeout = .ret k') :
    Moves View.Step allowed k.view k'.view := by
  obtain ⟨⟨w, k1⟩, hsuspend, h⟩ := bind_eq_ret.mp h
  obtain ⟨_, hstep, ⟨self, hself, hkey, hstate, hobjects⟩, _⟩ := suspendThread_view hsuspend
  injection h with h
  subst h
  have ho : o ∈ self.waitObjects := by
    rw [hobjects]
    exact List.mem_cons_self
  have hmoves := Moves.single (ha.suspend w.thread [o] timeout .waitSync1) hstep
  rw [Kernel.view_modifyObject]
  cases hx : k1.view.object? o with
  | none =>
    rw [View.modify_of_none hx]
    exact hmoves
  | some x =>
    have hpeer : x.peer = p := hp x ((suspendThread_object? hsuspend o).symm.trans hx)
    exact hmoves.tail (hm w)
      (.enqueue hself hkey hstate ho (hpeer ▸ View.adds_pushWaker w hx))

/-- A session is queued in the server port, and a thread that waits there is woken. -/
theorem enqueueSession_madeOf {o s : ObjId} {self : ServerPortHLE}
    (hx : k.object? o = some (.serverPort self))
    (ho : Touches allowed o (.ofServerPort self.client)) :
    MadeOf allowed Kernel.view k (self.enqueueSession o s k) :=
  wakeFront_madeOf hx (fun y => by cases y <;> rfl) (KObject.wakers_setSessions _)
    (fun _ => ho.change _) fun w rest _ => ho.act _ _ _

theorem createSessionToPort_madeOf {handle : Option Handle} (ha : Usual allowed)
    (hc : ∀ c self, k.lookupObject handle = .ret (some (c, .clientPort self)) →
      (∀ w, allowed (.enqueue c (.ofClientPort self.server) w (KObject.pushWaker w))) ∧
        ∀ client, Touches allowed self.server (.ofServerPort client)) :
    MadeOf allowed after k (k.createSessionToPort rng fuel handle) := by
  refine Refines.bind_of (fun e he => blame_of_lift he) fun found hfound => ?_
  have hfound := mapPanic_eq_ret.mp hfound
  split
  · rename_i c port _
    obtain ⟨hask, htouch⟩ := hc c port hfound
    have hmake := Moves.single (ha.makePair _ _) (@makeSessionPair_step k)
    refine Refines.after hmake ?_
    have hcreate : MadeOf allowed Kernel.view (makeSessionPair k).2.2
        (port.createSessionToPort (makeSessionPair k).1 (makeSessionPair k).2.2) := by
      refine Refines.bind_of (fun e he => ?_) fun server hserver => ?_
      · obtain ⟨_, rfl⟩ := expect_eq_panic.mp he
        trivial
      · exact enqueueSession_madeOf (serverPort?_eq_some (expect_eq_ret.mp hserver)) (htouch _)
    refine Refines.bind hcreate fun k1 hk1 => ?_
    have hpeer : ∀ x, k1.object? c = some x → x.peer = .ofClientPort port.server := fun x hx =>
      View.peer_of_moves (hmake.trans (hcreate.returns k1 hk1))
        (show k.view.object? c = _ from lookupObject_eq_ret hfound) hx
    have hwait : MadeOf allowed Kernel.view k1 (liftM (k1.waitOn c (.clientPort port) none)) :=
      madeOf_lift fun k2 hk2 => waitOnPort_moves ha hask hpeer hk2
    refine Refines.bind hwait fun k2 _ => ?_
    refine Refines.bind_of (fun e he => blame_of_lift he) fun given hgiven => ?_
    have hsame := (Kernel.newHandle_processes (mapPanic_eq_ret.mp hgiven)).view
    exact .ret (.of_eq hsame.symm)
  · exact .ret (.refl _)

/-- The first session leaves the queue, and its creator is woken. -/
theorem portAcceptSession_madeOf {s : ObjId} {self : ServerPortHLE}
    (hx : k.object? s = some (.serverPort self))
    (hs : Touches allowed s (.ofServerPort self.client))
    (hc : ∀ c server, self.client = some c → Touches allowed c (.ofClientPort server)) :
    MadeOf allowed after k (self.acceptSession s k) := by
  unfold ServerPortHLE.acceptSession
  split
  · exact .ret (.refl _)
  · rename_i session sessions _
    have hv : k.view.object? s = some (.serverPort self) := hx
    have hpop : Moves View.Step allowed k.view
        (k.modifyObject s (KObject.setSessions sessions)).view :=
      .single (hs.change _) (.change (View.adds_of_wakers [] hv
        (fun y => by cases y <;> rfl) (KObject.wakers_setSessions sessions)))
    refine Refines.after hpop ?_
    refine Refines.bind_of (fun e he => ?_) fun found hfound => ?_
    · obtain ⟨_, rfl⟩ := expect_eq_panic.mp he
      trivial
    · obtain ⟨client, data⟩ := found
      have hfound := expect_eq_ret.mp hfound
      have hclient := client_of_clientPort? hfound
      refine Refines.bind (wakeQueue_madeOf (hc client data.server hclient)
        (clientPort?_eq_some hfound)) fun k1 _ => ?_
      exact .ret (.refl _)

/-- The current thread is put into the queue of a server port. -/
theorem waitOnServerPort_moves {o : ObjId} {port : ServerPortHLE} {timeout : Option UInt64}
    (ha : Usual allowed)
    (hm : ∀ w, allowed (.enqueue o (.ofServerPort port.client) w (KObject.pushWaker w)))
    (hx : k.object? o = some (.serverPort port))
    (h : k.waitOn o (.serverPort port) timeout = .ret k') :
    Moves View.Step allowed k.view k'.view := by
  obtain ⟨⟨w, k1⟩, hsuspend, h⟩ := bind_eq_ret.mp h
  obtain ⟨_, hstep, ⟨self, hself, hkey, hstate, hobjects⟩, _⟩ := suspendThread_view hsuspend
  injection h with h
  subst h
  have ho : o ∈ self.waitObjects := by
    rw [hobjects]
    exact List.mem_cons_self
  have hv : k1.view.object? o = some (.serverPort port) :=
    (suspendThread_object? hsuspend o).trans hx
  have hmoves := Moves.single (ha.suspend w.thread [o] timeout .waitSync1) hstep
  exact hmoves.tail (hm w) (.enqueue hself hkey hstate ho (View.adds_pushWaker w hv))

theorem acceptSession_madeOf {handle : Option Handle} (ha : Usual allowed)
    (hs : ∀ s self, k.lookupObject handle = .ret (some (s, .serverPort self)) →
      (∀ w, allowed (.enqueue s (.ofServerPort self.client) w (KObject.pushWaker w))) ∧
        Touches allowed s (.ofServerPort self.client) ∧
        ∀ c server, self.client = some c → Touches allowed c (.ofClientPort server)) :
    MadeOf allowed after k (k.acceptSession rng fuel handle) := by
  refine Refines.bind_of (fun e he => blame_of_lift he) fun found hfound => ?_
  have hfound := mapPanic_eq_ret.mp hfound
  split
  · rename_i s port _
    obtain ⟨hwait, hs, hc⟩ := hs s port hfound
    have hx := lookupObject_eq_ret hfound
    refine Refines.bind (portAcceptSession_madeOf hx hs hc) fun accepted haccepted => ?_
    obtain ⟨session, k1⟩ := accepted
    dsimp only
    split
    · refine Refines.bind_of (fun e he => blame_of_lift he) fun given hgiven => ?_
      have hsame := (Kernel.newHandle_processes (mapPanic_eq_ret.mp hgiven)).view
      exact .ret (.of_eq hsame.symm)
    · have hx1 : k1.object? s = some (.serverPort port) := by
        rcases portAcceptSession_cases haccepted with
          ⟨_, _, rfl⟩ | ⟨first, rest, c, data, _, hsession, _⟩
        · exact hx
        · cases hsession
      have hwaits : MadeOf allowed Kernel.view k1 (liftM (k1.waitOn s (.serverPort port) none)) :=
        madeOf_lift fun k2 hk2 => waitOnServerPort_moves ha hwait hx1 hk2
      refine Refines.bind hwaits fun k2 _ => ?_
      exact .ret (.refl _)
  · exact .ret (.refl _)

end Calls

end Pomelo
