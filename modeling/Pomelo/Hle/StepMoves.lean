/-
  The moves that the steps of the kernel are made of.

  A tick lets threads time out, one `expire` after the other, and then lets timers and the
  events bound to interrupts wake their threads. `svcStep_madeOf` sums all steps up: a step is
  made of `Common` moves, and of what `SvcStep.May` says of the ends of ports and sessions that a
  call names. A property of the view is proved of all runs by what one move does to it.
-/
import Pomelo.Hle.SvcMoves

namespace Pomelo

open Lib Outcome

section Ticks

variable {allowed : Move → Prop} {k k' : Kernel} {time : UInt64}

/-- Threads whose time has come are woken, in the order of the list. -/
theorem tickThreads_moves {done threads threads' : List CommonThread} {objects objects' : Objects}
    (ha : Steady allowed) (hn : ((done ++ threads).map CommonThread.index).Nodup)
    (h : tickThreads time threads objects = .ret (threads', objects')) :
    Moves View.Step allowed { k with threads := done ++ threads, objects := objects }.view
      { k with threads := done ++ threads', objects := objects' }.view := by
  induction threads generalizing done threads' objects objects' with
  | nil =>
    injection h with h
    obtain ⟨rfl, rfl⟩ := Prod.mk.inj h
    exact .refl _
  | cons thread threads ih =>
    obtain ⟨⟨thread', objects1⟩, hone, h⟩ := bind_eq_ret.mp h
    obtain ⟨⟨rest, objects2⟩, hrest, h⟩ := bind_eq_ret.mp h
    injection h with h
    obtain ⟨rfl, rfl⟩ := Prod.mk.inj h
    have hindex := tickAt_index hone
    have hassoc : ∀ (x : CommonThread) xs, done ++ x :: xs = (done ++ [x]) ++ xs := fun x xs => by
      rw [List.append_assoc]
      rfl
    have hn' : (((done ++ [thread']) ++ threads).map CommonThread.index).Nodup := by
      rw [List.append_assoc, List.map_append, List.map_append, List.map_singleton, hindex,
        ← List.map_singleton, ← List.map_append, ← List.map_append]
      exact hn
    have hmoves : Moves View.Step allowed
        { k with threads := done ++ thread :: threads, objects := objects }.view
        { k with threads := done ++ thread' :: threads, objects := objects1 }.view := by
      rcases tickAt_eq_ret hone with ⟨hexpired, resume, _, rfl, rfl⟩ | ⟨_, rfl, rfl⟩
      · have hmem : thread ∈ done ++ thread :: threads :=
          List.mem_append_right _ List.mem_cons_self
        have hthread : { k with threads := done ++ thread :: threads, objects := objects }.thread?
            thread.index = some thread := findKey_of_mem hn hmem
        have hbefore : ∀ other ∈ done, other.index ≠ thread.index := by
          intro other hother heq
          rw [List.map_append, List.nodup_append] at hn
          exact hn.2.2 _ (List.mem_map_of_mem hother) _
            (List.mem_map_of_mem List.mem_cons_self) heq
        have hset : (done ++ (thread.woken resume) :: threads) =
            modifyKey CommonThread.index thread.index (fun _ => thread.woken resume)
              (done ++ thread :: threads) :=
          (modifyKey_append_cons (fun _ => thread.woken resume) hbefore).symm
        have hself : { k with
            threads := done ++ thread :: threads
            objects := objects }.view.sleepers thread.index = some thread.sleeper := by
          show Option.map _ _ = _
          rw [hthread]
          rfl
        have htimeout : thread.sleeper.waitTimeout ≠ none := by
          intro hnone
          unfold Sleeper.expired at hexpired
          rw [hnone, Option.any_none, Bool.and_false] at hexpired
          cases hexpired
        have hsleepers := @Kernel.sleepers_setThread
          { k with threads := done ++ thread :: threads, objects := objects } thread.index thread
          (thread.woken resume) hthread rfl
        have hindices := Kernel.indices_setThread
          { k with threads := done ++ thread :: threads, objects := objects } (thread.woken resume)
        have hview : { k with
            threads := done ++ (thread.woken resume) :: threads
            objects := objects.removeWakers thread.index thread.waitObjects }.view =
            { k with threads := done ++ thread :: threads, objects := objects }.view.wake
              thread.index thread.sleeper := by
          rw [hset]
          unfold Kernel.view View.wake
          dsimp only
          rw [CommonThread.sleeper_woken] at hsleepers
          rw [← hsleepers, ← hindices]
          rfl
        rw [hview]
        exact .single (ha.expire _)
          (.expire hself (Sleeper.waiting_of_expired hexpired) htimeout)
      · exact .refl _
    have hrests := ih hn' hrest
    rw [← hassoc, ← hassoc] at hrests
    exact hmoves.trans hrests

theorem tickThreadsAt_moves (ha : Steady allowed) (hn : k.indices.Nodup)
    (h : k.tickThreadsAt time = .ret k') : Moves View.Step allowed k.view k'.view := by
  obtain ⟨⟨threads, objects⟩, htick, h⟩ := bind_eq_ret.mp h
  injection h with h
  subst h
  exact @tickThreads_moves allowed k time [] k.threads threads k.objects objects ha hn htick

theorem tickTimers_madeOf (ha : Steady allowed) (os : List ObjId) :
    MadeOf allowed Kernel.view k (Kernel.tickTimers time os k) := by
  induction os generalizing k with
  | nil => exact .ret (.refl _)
  | cons o os ih =>
    have hone : MadeOf allowed Kernel.view k (k.tickTimer time o) := by
      unfold Kernel.tickTimer
      split
      · rename_i timer hx
        exact tickTimer_madeOf hx (ha.change o) (ha.act o)
      · exact .ret (.refl _)
    exact Refines.bind hone fun k1 _ => ih

theorem tickInterrupts_madeOf (ha : Steady allowed) (interrupts : List UInt32) :
    MadeOf allowed Kernel.view k (Kernel.tickInterrupts interrupts k) := by
  induction interrupts generalizing k with
  | nil => exact .ret (.refl _)
  | cons interrupt interrupts ih =>
    have hone : MadeOf allowed Kernel.view k (k.tickInterrupt interrupt) := by
      unfold Kernel.tickInterrupt
      split
      · split
        · rename_i event hx
          exact doSignal_madeOf hx (ha.change _ _ (.modifySignal _)) (ha.act _)
        · exact .ret (.refl _)
      · exact .ret (.refl _)
    exact Refines.bind hone fun k1 _ => ih

theorem tick_madeOf (ha : Steady allowed) (hn : k.indices.Nodup) (interrupts : List UInt32) :
    MadeOf allowed Kernel.view k (k.tick time interrupts) := by
  have hthreads : MadeOf allowed Kernel.view k (liftM (k.tickThreadsAt time)) :=
    madeOf_lift fun k1 hk1 => tickThreadsAt_moves ha hn hk1
  have htimes : MadeOf allowed Kernel.view k (k.tickAt time) :=
    Refines.bind hthreads fun k1 _ => tickTimers_madeOf ha _
  exact Refines.bind htimes fun k1 _ => tickInterrupts_madeOf ha _

theorem exitThread_moves (ha : Steady allowed) (hcalling : k.calling = true)
    (h : k.exitThread = .ret k') : Moves View.Step allowed k.view k'.view := by
  obtain ⟨⟨kobj, k1⟩, hfinish, h⟩ := bind_eq_ret.mp h
  dsimp only at h
  split at h
  · rename_i self hx
    exact (finishThread_moves ha hcalling hfinish).trans (exit_moves hx (ha.act _) h)
  · cases h

end Ticks

/-! ## Steps -/

section Steps

variable {allowed : Move → Prop} {rng : Nat → UInt32} {fuel : Nat} {k k' : Kernel}

/-- The objects of a wait, which may leave stale wakers in their queues if they are not free of
    them. -/
def MayWaitEach (allowed : Move → Prop) (k : Kernel) (handles : List (Option Handle))
    (stale : Prop) : Prop :=
  ∀ objects, k.waitedObjects handles = .ret objects →
    MayWait allowed k objects stale ∧ (k.WaitsStaleFree objects ∨ stale)

/-- What a call needs of the ends of ports and sessions that it names. -/
def SvcCall.May (allowed : Move → Prop) (rng : Nat → UInt32) (stale : Prop) (k : Kernel) :
    SvcCall → Prop
  | waitSync1 _ handle _ => ∀ o x, k.lookupObject handle = .ret (some (o, x)) →
      MayWait allowed k [o] False
  | waitSyncN _ handles _ _ => MayWaitEach allowed k handles stale
  | replyAndReceivePre _ handles replyTarget =>
    (∀ s self, k.lookupObject replyTarget = .ret (some (s, .serverSession self)) →
      Touches allowed s (.ofServerSession self.client) ∧
        ∀ c server, self.client = some c → Touches allowed c (.ofClientSession server)) ∧
    ∀ fuel k1, k.replyTo rng fuel replyTarget = .ret (.ok (), k1) →
      MayWaitEach allowed k1 handles stale
  | sendSyncRequest handle =>
    ∀ c self, k.lookupObject handle = .ret (some (c, .clientSession self)) →
      (∀ w, k.OwnWaker w →
        allowed (.enqueue c (.ofClientSession self.server) w (KObject.pushWaker w))) ∧
        ∀ client, Touches allowed self.server (.ofServerSession client)
  | createSessionToPort handle =>
    ∀ c self, k.lookupObject handle = .ret (some (c, .clientPort self)) →
      (∀ w, allowed (.enqueue c (.ofClientPort self.server) w (KObject.pushWaker w))) ∧
        ∀ client, Touches allowed self.server (.ofServerPort client)
  | acceptSession handle =>
    ∀ s self, k.lookupObject handle = .ret (some (s, .serverPort self)) →
      (∀ w, allowed (.enqueue s (.ofServerPort self.client) w (KObject.pushWaker w))) ∧
        Touches allowed s (.ofServerPort self.client) ∧
        ∀ c server, self.client = some c → Touches allowed c (.ofClientPort server)
  | _ => True

def SvcStep.May (allowed : Move → Prop) (rng : Nat → UInt32) (stale : Prop) (k : Kernel) :
    SvcStep → Prop
  | call c => c.May allowed rng stale k
  | _ => True

theorem madeOf_afterCall {α : Type} {x : HleExec (α × Kernel)} (h : MadeOf allowed after k x) :
    MadeOf allowed Kernel.view k (afterCall x) :=
  Refines.bind h fun _ _ => .ret (.refl _)

theorem madeOf_liftCall {α : Type} {x : Exec (α × Kernel)}
    (h : ∀ r k', x = .ret (r, k') → Moves View.Step allowed k.view k'.view) :
    MadeOf allowed Kernel.view k (afterCall (liftM x : HleExec (α × Kernel))) :=
  madeOf_afterCall (madeOf_lift fun a ha => h a.1 a.2 ha)

/-- The call changes an address arbiter, if it finds one. -/
def SvcCall.arbitrates : SvcCall → Bool
  | arbitrateAddress _ _ _ _ _ => true
  | _ => false

def SvcStep.arbitrates : SvcStep → Bool
  | call c => c.arbitrates
  | _ => false

/-- The call can put its thread to sleep. -/
def SvcCall.suspends : SvcCall → Bool
  | waitSync1 _ _ _ | waitSyncN _ _ _ _ | sleepThread _ _ | arbitrateAddress _ _ _ _ _
  | replyAndReceivePre _ _ _ | sendSyncRequest _ | createSessionToPort _ | acceptSession _ => true
  | _ => false

def SvcStep.suspends : SvcStep → Bool
  | call c => c.suspends
  | _ => false

/-- The call writes into the message buffers of threads. -/
def SvcCall.messages : SvcCall → Bool
  | setThreadIpcData _ | replyAndReceivePre _ _ _ | replyAndReceivePost _ _ => true
  | _ => false

theorem svcCall_madeOf {stale : Prop} {c : SvcCall} (ha : Steady allowed)
    (hsuspends : c.suspends = true → Usual allowed)
    (harb : c.arbitrates = true → Common allowed) (hn : k.indices.Nodup)
    (hcalling : k.calling = true) (hmay : c.May allowed rng stale k) :
    MadeOf allowed Kernel.view k (c.exec rng fuel k) := by
  cases c with
  | createMutex initialLocked =>
    exact madeOf_liftCall fun r k' h => createObject_moves ha ⟨rfl, rfl, rfl⟩ rfl h
  | createEvent resetType =>
    exact madeOf_liftCall fun r k' h => createObject_moves ha ⟨rfl, rfl, rfl⟩ rfl h
  | createTimer resetType =>
    exact madeOf_liftCall fun r k' h => createObject_moves ha ⟨rfl, rfl, rfl⟩ rfl h
  | createAddressArbiter =>
    exact madeOf_liftCall fun r k' h => createObject_moves ha ⟨rfl, rfl, rfl⟩ rfl h
  | createCodeset =>
    exact madeOf_liftCall fun r k' h => createObject_moves ha ⟨rfl, rfl, rfl⟩ rfl h
  | releaseMutex handle => exact madeOf_afterCall (releaseMutex_madeOf ha handle)
  | signalEvent handle => exact madeOf_afterCall (signalEvent_madeOf ha handle)
  | clearEvent handle => exact madeOf_liftCall fun r k' h => clearEvent_moves ha h
  | setTimer handle initial interval => exact madeOf_liftCall fun r k' h => setTimer_moves ha h
  | cancelTimer handle => exact madeOf_liftCall fun r k' h => cancelTimer_moves ha h
  | waitSync1 time handle timeout =>
    exact madeOf_liftCall fun r k' h => waitSync1_moves (hsuspends rfl) hmay h
  | waitSyncN time handles waitAll timeout =>
    exact madeOf_liftCall fun r k' h => waitSyncN_moves (hsuspends rfl) hmay h
  | sleepThread time ns => exact madeOf_lift fun k' h => sleepThread_moves (hsuspends rfl) h
  | arbitrateAddress handle addr typ memoryValue value =>
    exact madeOf_liftCall fun r k' h => arbitrateAddress_moves (harb rfl) h
  | replyAndReceivePre time handles replyTarget =>
    obtain ⟨hreply, hwait⟩ := hmay
    exact madeOf_afterCall (replyAndReceivePre_madeOf (hsuspends rfl) hn hreply (hwait fuel))
  | replyAndReceivePost handles resume =>
    exact madeOf_liftCall fun r k' h => .of_eq (replyAndReceivePost_view hn h).symm
  | sendSyncRequest handle => exact madeOf_afterCall (sendSyncRequest_madeOf (hsuspends rfl) hmay)
  | createSessionToPort handle =>
    exact madeOf_afterCall (createSessionToPort_madeOf (hsuspends rfl) hmay)
  | acceptSession handle => exact madeOf_afterCall (acceptSession_madeOf (hsuspends rfl) hmay)
  | closeHandle handle =>
    exact madeOf_liftCall fun r k' h => .of_eq (Kernel.closeHandle_view h).symm
  | newHandle o =>
    exact madeOf_lift fun k' h => .of_eq (newHandleOf_processes h).view.symm
  | makeSessionPair => exact .ret (.single (ha.makePair _ _) makeSessionPair_step)
  | makePortPair => exact .ret (.single (ha.makePair _ _) makePortPair_step)
  | registerPort name port =>
    exact madeOf_lift fun k' h => .of_eq (Kernel.registerPort_view h).symm
  | bindInterrupt name handle =>
    exact madeOf_liftCall fun r k' h => .of_eq (Kernel.bindInterrupt_view h).symm
  | setThreadIpcData data =>
    exact madeOf_lift fun k' h => .of_eq (Kernel.setThreadIpcData_view h).symm
  | createThread => exact madeOf_lift fun k' h => createThreadNext_moves ha h
  | exitThread => exact madeOf_lift fun k' h => exitThread_moves ha hcalling h

/-- An object without references is one that no thread waits on. -/
theorem dropObject_step {o : ObjId} (h : k.referenced o = false) :
    View.Step k.view (.drop o) (k.dropObject o).view := by
  refine .drop fun t self hself hmem => ?_
  have hself : k.sleepers t = some self := hself
  obtain ⟨thread, hthread, rfl⟩ := Option.map_eq_some_iff.mp hself
  have hany : (k.threads.any fun thread => thread.kobj = o || thread.waitObjects.contains o) =
      true := by
    rw [List.any_eq_true]
    refine ⟨thread, mem_of_findKey hthread, ?_⟩
    rw [Bool.or_eq_true]
    exact Or.inr (List.contains_iff_mem.mpr hmem)
  unfold Kernel.referenced at h
  rw [hany] at h
  simp at h

theorem svcStep_usual (fuel : Nat) {stale : Prop} {l : SvcStep} (ha : Steady allowed)
    (hsuspends : l.suspends = true → Usual allowed)
    (harb : l.arbitrates = true → Common allowed) (hn : k.indices.Nodup)
    (henabled : l.enabled k = true) (hmay : l.May allowed rng stale k) :
    MadeOf allowed Kernel.view k (l.exec rng fuel k) := by
  cases l with
  | call c => exact svcCall_madeOf ha hsuspends harb hn henabled hmay
  | tick time interrupts => exact tick_madeOf ha hn interrupts
  | runNext => exact madeOf_liftCall fun r k' h => runNext_moves ha h
  | stop index => exact madeOf_lift fun k' h => stopThread_moves ha h
  | newProcess process =>
    exact madeOf_liftCall fun r k' h => .of_eq (Kernel.newProcess_view h).symm
  | newThread pid =>
    refine ⟨fun k' h => ?_, fun e h => ⟨k.view, .refl _, ?_⟩⟩
    · obtain ⟨⟨tid, kobj, k1⟩, hnew, h⟩ := bind_eq_ret.mp h
      injection h with h
      subst h
      exact newThread_moves ha (mapPanic_eq_ret.mp hnew)
    · rcases bind_eq_panic.mp h with h | ⟨a, _, h⟩
      · exact blame_of_lift h
      · cases h
  | drop o =>
    have hunused : k.referenced o = false := by simpa [SvcStep.enabled] using henabled
    exact .ret (.single (ha.drop o) (dropObject_step hunused))

/-- **Every step is made of moves.** A step that returns has made such moves, and one that panics
    had made them when it did. -/
theorem svcStep_madeOf (fuel : Nat) {stale : Prop} {l : SvcStep} (ha : Common allowed)
    (hn : k.indices.Nodup) (henabled : l.enabled k = true) (hmay : l.May allowed rng stale k) :
    MadeOf allowed Kernel.view k (l.exec rng fuel k) :=
  svcStep_usual fuel ha.usual.toSteady (fun _ => ha.usual) (fun _ => ha) hn henabled hmay

end Steps

/-! ## Tidiness -/

namespace View

variable {v v' : View} {m : Move}

theorem tidy_wakes {ws : List Waker} (h : v.Tidy) : (ws.foldl tryWake v).Tidy := by
  induction ws generalizing v with
  | nil => exact h
  | cons w ws ih =>
    rw [List.foldl_cons]
    apply ih
    unfold tryWake
    split
    · split
      · exact ⟨h.nodup, h.below⟩
      · exact h
    · exact h

theorem Step.tidy (h : Step v m v') (ht : v.Tidy) : v'.Tidy := by
  cases h with
  | born =>
    refine ⟨?_, fun t hmem => ?_⟩
    · have hfresh : v.nextTid ∉ v.indices := fun hmem => Nat.lt_irrefl _ (ht.below _ hmem)
      exact ht.nodup.append (List.nodup_singleton _) (by simpa using hfresh)
    · rcases List.mem_append.mp hmem with hmem | hmem
      · exact Nat.lt_succ_of_lt (ht.below t hmem)
      · rw [List.mem_singleton.mp hmem]
        exact Nat.lt_succ_self _
  | @act o p ws f g hws hf hg =>
    have htidy : (ws.foldl tryWake (v.modify o f)).Tidy := tidy_wakes ⟨ht.nodup, ht.below⟩
    exact ⟨htidy.nodup, htidy.below⟩
  | _ => exact ⟨ht.nodup, ht.below⟩

theorem tidy_new : Kernel.new.view.Tidy := ⟨List.nodup_nil, fun t ht => by cases ht⟩

end View

end Pomelo
