/-
  Wakers in queues are live.

  `LiveFor P` says of the wakers of some threads that each is in the queue of an object that its
  thread waits on, under the thread's key. Every move keeps it but one: `enqueueStale`, of a
  waker of such a thread. A run of the kernel makes this move only in `waitEach`, when the wait
  goes on behind an object that woke the thread; hence the wakers are live in all states of a run
  in which no wait does so (`wakersLive`).
-/
import Pomelo.Hle.StepMoves

namespace Pomelo

open Lib Outcome

namespace View

/-- The thread of the waker waits on the object, and the waker has its key. -/
def WaitsAt (v : View) (w : Waker) (o : ObjId) : Prop :=
  ∃ self, v.sleepers w.thread = some self ∧ self.wakeKey = w.key ∧ self.state = .waiting ∧
    o ∈ self.waitObjects

/-- The wakers of these threads are live wherever they are queued. -/
def LiveFor (P : ThreadIndex → Prop) (v : View) : Prop :=
  ∀ o, ∀ w ∈ v.wakers o, P w.thread → v.WaitsAt w o

end View

/-- The move queues no stale waker of these threads. -/
def Move.LiveFor (P : ThreadIndex → Prop) : Move → Prop
  | enqueueStale _ _ w _ => ¬ P w.thread
  | _ => True

namespace View

variable {P : ThreadIndex → Prop} {v v' : View} {o q : ObjId} {p : Peer} {w : Waker}
  {f : KObject → KObject}

theorem WaitsAt.live (h : v.WaitsAt w o) : v.Live w := by
  obtain ⟨self, hself, hkey, _⟩ := h
  exact ⟨self, hself, hkey⟩

theorem WaitsAt.frame (h : v.WaitsAt w o) (hs : v'.sleepers w.thread = v.sleepers w.thread) :
    v'.WaitsAt w o := by
  obtain ⟨self, hself, hrest⟩ := h
  exact ⟨self, hs.trans hself, hrest⟩

/-- A waker that is waited at is not of a thread that does something else. -/
theorem WaitsAt.thread_ne {t : ThreadIndex} {self : Sleeper} (h : v.WaitsAt w o)
    (hself : v.sleepers t = some self) (hs : self.state ≠ .waiting) : w.thread ≠ t := by
  intro ht
  obtain ⟨self', hself', _, hwaiting, _⟩ := h
  rw [ht, hself] at hself'
  injection hself' with hself'
  exact hs (hself' ▸ hwaiting)

theorem mem_wakers : w ∈ v.wakers o ↔ ∃ x, v.object? o = some x ∧ w ∈ x.wakers := by
  unfold wakers
  cases v.object? o with
  | none => simp
  | some x => simp

/-! ### What becomes of queues -/

theorem mem_wakers_of_wake {t : ThreadIndex} {self : Sleeper}
    (h : w ∈ (v.wake t self).wakers o) :
    w ∈ v.wakers o ∧ (o ∈ self.waitObjects → w.thread ≠ t) := by
  obtain ⟨y, hy, hw⟩ := mem_wakers.mp h
  rw [object?_wake] at hy
  split at hy
  · obtain ⟨x, hx, rfl⟩ := Option.map_eq_some_iff.mp hy
    rw [KObject.wakers_removeWakers] at hw
    obtain ⟨hw, hne⟩ := List.mem_filter.mp hw
    exact ⟨mem_wakers.mpr ⟨x, hx, hw⟩, fun _ => of_decide_eq_true hne⟩
  · rename_i ho
    exact ⟨mem_wakers.mpr ⟨y, hy, hw⟩, fun hmem => absurd hmem ho⟩

theorem mem_wakers_of_wakes {ws : List Waker} (h : w ∈ (ws.foldl tryWake v).wakers o) :
    w ∈ v.wakers o := by
  obtain ⟨y, hy, hw⟩ := mem_wakers.mp h
  obtain ⟨x, hx, hloses⟩ := object?_of_wakes hy
  exact mem_wakers.mpr ⟨x, hx, hloses.wakers.subset hw⟩

theorem mem_wakers_of_modify {ws : List Waker} (hf : v.Adds q p ws f)
    (h : w ∈ (v.modify q f).wakers o) : w ∈ v.wakers o ∨ o = q ∧ w ∈ ws := by
  obtain ⟨y, hy, hw⟩ := mem_wakers.mp h
  obtain ⟨x, hx, rfl⟩ := object?_of_modify hy
  split at hw
  · rename_i ho
    rcases hf.wakers x (ho ▸ hx) w hw with hw | hw
    · exact Or.inl (mem_wakers.mpr ⟨x, hx, hw⟩)
    · exact Or.inr ⟨ho, hw⟩
  · exact Or.inl (mem_wakers.mpr ⟨x, hx, hw⟩)

theorem mem_wakers_of_keeps (hg : KObject.Keeps f) (h : w ∈ (v.modify q f).wakers o) :
    w ∈ v.wakers o := by
  obtain ⟨y, hy, hw⟩ := mem_wakers.mp h
  obtain ⟨x, hx, rfl⟩ := object?_of_modify hy
  split at hw
  · exact mem_wakers.mpr ⟨x, hx, hg.wakers x w hw⟩
  · exact mem_wakers.mpr ⟨x, hx, hw⟩

/-- New objects have no wakers. -/
theorem mem_wakers_of_append {data : List (Option KObject)}
    (hdata : ∀ x, some x ∈ data → x.wakers = [])
    (h : w ∈ { v with objects := v.objects ++ data }.wakers o) : w ∈ v.wakers o := by
  obtain ⟨y, hy, hw⟩ := mem_wakers.mp h
  rcases object?_of_append hy with hy | ⟨i, _, hi⟩
  · exact mem_wakers.mpr ⟨y, hy, hw⟩
  · rw [hdata y (List.mem_of_getElem? hi)] at hw
    cases hw

/-- A waker gets into a queue by being put there. -/
theorem Step.mem_wakers {m : Move} (h : Step v m v') (hw : w ∈ v'.wakers o) :
    w ∈ v.wakers o ∨ ∃ p f, (m = .enqueue o p w f ∨ m = .enqueueStale o p w f) ∧
      v.Adds o p [w] f := by
  cases h with
  | turn h hs hn => exact Or.inl hw
  | born => exact Or.inl hw
  | suspend h hs => exact Or.inl hw
  | @make x hx hp =>
    refine Or.inl (mem_wakers_of_append (fun y hy => ?_) hw)
    injection List.mem_singleton.mp hy with hy
    rw [hy]
    exact hx.wakers
  | @makePair server client hs hc hp =>
    refine Or.inl (mem_wakers_of_append (fun y hy => ?_) hw)
    rcases List.mem_cons.mp hy with hy | hy
    · injection hy with hy
      rw [hy]
      exact hs.wakers
    · injection List.mem_singleton.mp hy with hy
      rw [hy]
      exact hc.wakers
  | drop h =>
    obtain ⟨y, hy, hw⟩ := View.mem_wakers.mp hw
    exact Or.inl (View.mem_wakers.mpr ⟨y, (object?_of_drop hy).2, hw⟩)
  | expire h hs ht => exact Or.inl (mem_wakers_of_wake hw).1
  | change hf =>
    rcases mem_wakers_of_modify hf hw with hw | ⟨_, hw⟩
    · exact Or.inl hw
    · cases hw
  | @enqueue q p w' f self h hk hs ho hf =>
    rcases mem_wakers_of_modify hf hw with hw | ⟨rfl, hmem⟩
    · exact Or.inl hw
    · rw [List.mem_singleton.mp hmem]
      exact Or.inr ⟨p, f, Or.inl rfl, hf⟩
  | @enqueueStale q p w' f h hf =>
    rcases mem_wakers_of_modify hf hw with hw | ⟨rfl, hmem⟩
    · exact Or.inl hw
    · rw [List.mem_singleton.mp hmem]
      exact Or.inr ⟨p, f, Or.inr rfl, hf⟩
  | take h hk hs ho hf =>
    rcases mem_wakers_of_modify hf (mem_wakers_of_wake hw).1 with hw | ⟨_, hw⟩
    · exact Or.inl hw
    · cases hw
  | act hws hf hg =>
    have hw := mem_wakers_of_wakes (mem_wakers_of_keeps hg hw)
    rcases mem_wakers_of_modify hf hw with hw | ⟨_, hw⟩
    · exact Or.inl hw
    · cases hw

/-! ### What one move does -/

theorem LiveFor.of_wakers (hl : v.LiveFor P) (hs : v'.sleepers = v.sleepers)
    (hw : ∀ o, ∀ w ∈ v'.wakers o, w ∈ v.wakers o) : v'.LiveFor P :=
  fun o w h hP => (hl o w (hw o w h) hP).frame (congrFun hs _)

theorem LiveFor.modify (hl : v.LiveFor P) (hf : v.Adds q p [] f) : (v.modify q f).LiveFor P := by
  intro o w hw hP
  rcases mem_wakers_of_modify hf hw with hw | ⟨_, hw⟩
  · exact hl o w hw hP
  · cases hw

/-- All wakers of a thread that is woken are in the queues it is taken out of. -/
theorem LiveFor.wake {t : ThreadIndex} {self : Sleeper} (hl : v.LiveFor P)
    (hself : v.sleepers t = some self) : (v.wake t self).LiveFor P := by
  intro o w hw hP
  obtain ⟨hw, hne⟩ := mem_wakers_of_wake hw
  have hwaits := hl o w hw hP
  have ht : w.thread ≠ t := by
    intro ht
    obtain ⟨self', hself', _, _, ho⟩ := hwaits
    rw [ht, hself] at hself'
    injection hself' with hself'
    exact hne (hself' ▸ ho) ht
  exact hwaits.frame (Function.update_of_ne ht _ _)

theorem LiveFor.tryWake (hl : v.LiveFor P) (w : Waker) : (v.tryWake w).LiveFor P := by
  unfold View.tryWake
  split
  · rename_i hself
    split
    · exact hl.wake hself
    · exact hl
  · exact hl

theorem LiveFor.wakes {ws : List Waker} (hl : v.LiveFor P) : (ws.foldl View.tryWake v).LiveFor P := by
  induction ws generalizing v with
  | nil => exact hl
  | cons w ws ih => exact ih (hl.tryWake w)

theorem Step.liveFor {m : Move} (h : Step v m v') (hm : m.LiveFor P) (hl : v.LiveFor P) :
    v'.LiveFor P := by
  cases h with
  | @turn t self state hself hs hn =>
    intro o w hw hP
    have hwaits := hl o w hw hP
    exact hwaits.frame (Function.update_of_ne (hwaits.thread_ne hself hs) _ _)
  | born =>
    intro o w hw hP
    obtain ⟨self, hself, hrest⟩ := hl o w hw hP
    refine ⟨self, ?_, hrest⟩
    show (v.sleepers w.thread).or _ = _
    rw [hself]
    rfl
  | make hx hp =>
    exact hl.of_wakers rfl fun o w hw => by simpa using (Step.make hx hp).mem_wakers hw
  | makePair hs hc hp =>
    exact hl.of_wakers rfl fun o w hw => by simpa using (Step.makePair hs hc hp).mem_wakers hw
  | drop h => exact hl.of_wakers rfl fun o w hw => by simpa using (Step.drop h).mem_wakers hw
  | @suspend t self objects timeout waitType hself hs =>
    intro o w hw hP
    have hwaits := hl o w hw hP
    have hasleep : self.state ≠ .waiting := by simp [hs]
    exact hwaits.frame (Function.update_of_ne (hwaits.thread_ne hself hasleep) _ _)
  | expire hself hs ht => exact hl.wake hself
  | change hf => exact hl.modify hf
  | @enqueue o p w f self hself hkey hs ho hf =>
    intro q w' hw hP
    rcases mem_wakers_of_modify hf hw with hw | ⟨hq, hw⟩
    · exact hl q w' hw hP
    · rw [hq, List.mem_singleton.mp hw]
      exact ⟨self, hself, hkey, hs, ho⟩
  | @enqueueStale o p w f hlive hf =>
    intro q w' hw hP
    rcases mem_wakers_of_modify hf hw with hw | ⟨_, hw⟩
    · exact hl q w' hw hP
    · rw [List.mem_singleton.mp hw] at hP
      exact absurd hP hm
  | take hself hk hs ho hf => exact (hl.modify hf).wake hself
  | act hws hf hg =>
    intro q w' hw hP
    exact (hl.modify hf).wakes q w' (mem_wakers_of_keeps hg hw) hP

theorem liveFor_new : Kernel.new.view.LiveFor P := by
  intro o w hw
  obtain ⟨x, hx, _⟩ := mem_wakers.mp hw
  cases hx

end View

/-! ## Runs -/

theorem common_liveFor (P : ThreadIndex → Prop) : Common (Move.LiveFor P) where
  turn _ _ := trivial
  born _ := trivial
  make _ := trivial
  makePair _ _ := trivial
  drop _ := trivial
  suspend _ _ _ _ := trivial
  expire _ := trivial
  change _ _ := trivial
  enqueue _ _ _ := trivial
  take _ _ _ := trivial
  act _ _ _ _ := trivial

/-- What a step waits on is free of stale wakers: an object of the list that is not ready does not
    come behind one that is. A reply is over before the wait that follows it. -/
def SvcStep.StaleFree (rng : Nat → UInt32) (k : Kernel) : SvcStep → Prop
  | call (.waitSyncN _ handles _ _) =>
    ∀ objects, k.waitedObjects handles = .ret objects → k.WaitsStaleFree objects
  | call (.replyAndReceivePre _ handles replyTarget) =>
    ∀ fuel k1, k.replyTo rng fuel replyTarget = .ret (.ok (), k1) →
      ∀ objects, k1.waitedObjects handles = .ret objects → k1.WaitsStaleFree objects
  | _ => True

namespace Kernel

theorem mem_wakers {k : Kernel} {o : ObjId} {w : Waker} :
    w ∈ k.wakers o ↔ ∃ x, k.object? o = some x ∧ w ∈ x.wakers :=
  View.mem_wakers (v := k.view)

/-- Every waker in a queue is live: its thread waits, and the waker has the thread's key. -/
def WakersLive (k : Kernel) : Prop :=
  ∀ o, ∀ w ∈ k.wakers o, ∃ thread, k.thread? w.thread = some thread ∧
    thread.state = .waiting ∧ thread.wakeKey = w.key

/-- No step of the kernel, free of stale wakers, fails to wake a thread. -/
def NoFailedWake (rng : Nat → UInt32) (k : Kernel) : Prop :=
  ∀ (l : SvcStep) (fuel : Nat) (o : ObjId), l.enabled k = true → l.StaleFree rng k →
    l.exec rng fuel k ≠ .panic (.wake o)

end Kernel

section Runs

variable {rng : Nat → UInt32} {k k' : Kernel} {l : SvcStep}

/-- Where every end may be changed, and a thread may wait anywhere. -/
theorem may_of_any {allowed : Move → Prop} {stale : Prop}
    (henqueue : ∀ o p w, allowed (.enqueue o p w (KObject.pushWaker w)))
    (htouch : ∀ o p, p ≠ .none → Touches allowed o p)
    (hstale : stale → ∀ o p w, allowed (.enqueueStale o p w (KObject.pushWaker w)))
    (h : l.StaleFree rng k ∨ stale) : l.May allowed rng stale k := by
  have hwait : ∀ k1 objects, MayWait allowed k1 objects stale := fun _ _ =>
    ⟨fun _ _ _ _ _ => henqueue _ _ _, fun hs _ _ _ _ _ => hstale hs _ _ _⟩
  have hone : ∀ o, MayWait allowed k [o] False := fun _ =>
    ⟨fun _ _ _ _ _ => henqueue _ _ _, fun hf => hf.elim⟩
  cases l with
  | call c =>
    cases c with
    | waitSync1 time handle timeout => exact fun o x _ => hone o
    | waitSyncN time handles waitAll timeout =>
      exact fun objects ho => ⟨hwait _ _, h.imp_left fun h => h objects ho⟩
    | replyAndReceivePre time handles replyTarget =>
      exact ⟨fun s self _ => ⟨htouch _ _ (by simp), fun _ _ _ => htouch _ _ (by simp)⟩,
        fun fuel k1 hk1 objects ho => ⟨hwait _ _, h.imp_left fun h => h fuel k1 hk1 objects ho⟩⟩
    | sendSyncRequest handle =>
      exact fun c self _ => ⟨fun _ _ => henqueue _ _ _, fun _ => htouch _ _ (by simp)⟩
    | createSessionToPort handle =>
      exact fun c self _ => ⟨fun _ => henqueue _ _ _, fun _ => htouch _ _ (by simp)⟩
    | acceptSession handle =>
      exact fun s self _ => ⟨fun _ => henqueue _ _ _, htouch _ _ (by simp),
        fun _ _ _ => htouch _ _ (by simp)⟩
    | _ => trivial
  | _ => trivial

/-- What every move keeps is kept by every step. -/
theorem kept_of_step {I : View → Prop}
    (hI : ∀ v m v', v.Tidy → I v → View.Step v m v' → I v') (h : k.view.Tidy ∧ I k.view)
    (hstep : (svcSystem rng).step k l k') : k'.view.Tidy ∧ I k'.view := by
  obtain ⟨henabled, fuel, hexec⟩ := hstep
  have hany : Common fun _ => True := by constructor <;> intros <;> trivial
  have hmay : l.May (fun _ => True) rng True k :=
    may_of_any (fun _ _ _ => trivial) (fun _ _ _ => ⟨fun _ => trivial, fun _ _ _ => trivial⟩)
      (fun _ _ _ _ => trivial) (Or.inr trivial)
  have hmade := svcStep_madeOf fuel hany h.1.nodup henabled hmay
  exact hmade.keeps (I := fun v => v.Tidy ∧ I v)
    (fun v m v' hv _ hs => ⟨hs.tidy hv.1, hI v m v' hv.1 hv.2 hs⟩) h hexec

theorem tidy_of_step (ht : k.view.Tidy) (hstep : (svcSystem rng).step k l k') : k'.view.Tidy :=
  (kept_of_step (I := fun _ => True) (fun _ _ _ _ _ _ => trivial) ⟨ht, trivial⟩ hstep).1

/-- What every move keeps holds in every run. -/
theorem kept_of_run {I : View → Prop} (h0 : I Kernel.new.view)
    (hI : ∀ v m v', v.Tidy → I v → View.Step v m v' → I v') {tr : List (Kernel × SvcStep)}
    (h : Run (svcSystem rng) tr k) : k.view.Tidy ∧ I k.view := by
  refine h.invariant (I := fun k => k.view.Tidy ∧ I k.view) ?_ ?_
  · intro k hk
    rw [hk]
    exact ⟨View.tidy_new, h0⟩
  · exact fun k l k' hk hstep => kept_of_step hI hk hstep

theorem may_of_staleFree (P : ThreadIndex → Prop) (h : l.StaleFree rng k) :
    l.May (Move.LiveFor P) rng False k :=
  may_of_any (fun _ _ _ => trivial) (fun _ _ _ => ⟨fun _ => trivial, fun _ _ _ => trivial⟩)
    (fun hf => hf.elim) (Or.inl h)

/-- What holds between two steps. -/
structure View.Sound (P : ThreadIndex → Prop) (v : View) : Prop where
  tidy : v.Tidy
  live : v.LiveFor P

theorem View.Sound.step {P : ThreadIndex → Prop} {v v' : View} {m : Move} (h : v.Sound P)
    (hm : m.LiveFor P) (hs : View.Step v m v') : v'.Sound P :=
  ⟨hs.tidy h.tidy, hs.liveFor hm h.live⟩

theorem sound_new (P : ThreadIndex → Prop) : Kernel.new.view.Sound P :=
  ⟨View.tidy_new, View.liveFor_new⟩

theorem sound_of_step (h : k.view.Sound fun _ => True) (hfree : l.StaleFree rng k)
    (hstep : (svcSystem rng).step k l k') : k'.view.Sound fun _ => True := by
  obtain ⟨henabled, fuel, hexec⟩ := hstep
  have hmade := svcStep_madeOf fuel (common_liveFor fun _ => True) h.tidy.nodup henabled
    (may_of_staleFree _ hfree)
  exact hmade.keeps (fun v m v' hv hm hs => hv.step hm hs) h hexec

theorem wakersLive_of_sound (h : k.view.Sound fun _ => True) : k.WakersLive := by
  intro o w hw
  obtain ⟨self, hself, hkey, hstate, _⟩ := h.live o w hw trivial
  obtain ⟨thread, hthread, rfl⟩ := Option.map_eq_some_iff.mp hself
  exact ⟨thread, hthread, hstate, hkey⟩

/-- A panic of a wake is one of a waker that is not live. -/
theorem noFailedWake_of_sound (h : k.view.Sound fun _ => True) : k.NoFailedWake rng := by
  intro l fuel o henabled hfree
  have hmade := svcStep_madeOf fuel (common_liveFor fun _ => True) h.tidy.nodup henabled
    (may_of_staleFree _ hfree)
  refine hmade.no_panic (I := View.Sound fun _ => True) (fun v m v' hv hm hs => hv.step hm hs) h ?_
  rintro v hv ⟨w, hw, hlive⟩
  exact hlive (hv.live o w hw trivial).live

end Runs

/-- **Queued wakers are live, and no wake fails.** In a run whose waits are all free of stale
    wakers, every waker in every queue, between two steps, is that of a thread that waits, under
    its key. A step from there never fails to wake a thread it expects to wake. -/
theorem wakersLive {rng : Nat → UInt32} {tr : List (Kernel × SvcStep)} {k : Kernel}
    (h : Run (svcSystem rng) tr k) (hc : EveryStep (fun k l => l.StaleFree rng k) tr) :
    EveryState (fun k => k.WakersLive ∧ k.NoFailedWake rng) tr k := by
  refine h.every_of (I := fun k => k.view.Sound fun _ => True) ?_ ?_ ?_ hc
  · intro k hk
    rw [hk]
    exact sound_new _
  · exact fun k l k' hk hfree hstep => sound_of_step hk hfree hstep
  · exact fun k hk => ⟨wakersLive_of_sound hk, noFailedWake_of_sound hk⟩

/-- The step waits on nothing that is ready, and replies to nobody. -/
def SvcStep.patient (k : Kernel) : SvcStep → Bool
  | call (.waitSyncN _ handles _ _) =>
    match k.waitedObjects handles with
    | .ret objects => objects.all fun o => !k.objects.ready o
    | _ => true
  | call (.replyAndReceivePre _ _ _) => false
  | _ => true

theorem staleFree_of_patient {rng : Nat → UInt32} {k : Kernel} {l : SvcStep}
    (h : l.patient k = true) : l.StaleFree rng k := by
  unfold SvcStep.patient at h
  split at h
  · intro objects hwaited
    rw [hwaited] at h
    dsimp only at h
    rw [List.all_eq_true] at h
    exact staleFree_of_not_ready fun o ho => by simpa using h o ho
  · cases h
  · rename_i hwait hpre
    unfold SvcStep.StaleFree
    split
    · exact absurd rfl (hwait _ _ _ _)
    · exact absurd rfl (hpre _ _ _)
    · trivial

/-- A step by execution, of those that wait on nothing that is ready. -/
def patientStep? (rng : Nat → UInt32) (fuel : Nat) (k : Kernel) (l : SvcStep) : Option Kernel :=
  if l.patient k then svcStep? rng fuel k l else none

theorem step_of_patientStep? {rng : Nat → UInt32} {fuel : Nat} {k k' : Kernel} {l : SvcStep}
    (h : patientStep? rng fuel k l = some k') :
    (svcSystem rng).step k l k' ∧ l.StaleFree rng k := by
  unfold patientStep? at h
  split at h
  · rename_i hpatient
    exact ⟨step_of_svcStep? h, staleFree_of_patient hpatient⟩
  · cases h

/-- A thread waits on two events, and another signals the second. -/
theorem wakersLive_sample : ∃ (tr : List (Kernel × SvcStep)) (k : Kernel),
    Run (svcSystem UInt32.ofNat) tr k ∧ (k.thread? 0).map CommonThread.resume = some (.waitSyncN 1) ∧
      EveryState (fun k => k.WakersLive ∧ k.NoFailedWake UInt32.ofNat) tr k := by
  have hrun : (runAll (patientStep? UInt32.ofNat 4) Kernel.new [.newProcess .hle, .newThread 0,
      .newThread 0, .runNext, .call (.createEvent .oneShot), .call (.createEvent .oneShot),
      .call (.waitSyncN 0 [Handle.fromRaw 1, Handle.fromRaw 2] false (-1)), .stop 0, .runNext,
      .call (.signalEvent (Handle.fromRaw 2))]).map
        (fun k => (k.thread? 0).map CommonThread.resume) = some (some (.waitSyncN 1)) := by
    decide +kernel
  obtain ⟨k, hk, hresume⟩ := Option.map_eq_some_iff.mp hrun
  obtain ⟨tr, htr, hc⟩ := Run.every_of_runAll (fun _ _ _ hst => step_of_patientStep? hst)
    (.start (M := svcSystem UInt32.ofNat) rfl) (everyStep_nil _) hk
  exact ⟨tr, k, htr, hresume, wakersLive htr hc⟩

/-- A thread makes two events, signals the first, and waits on the first and the second. -/
def twoEvents : List SvcStep :=
  [.newProcess .hle, .newThread 0, .runNext, .call (.createEvent .oneShot),
    .call (.createEvent .oneShot), .call (.signalEvent (Handle.fromRaw 1)),
    .call (.waitSyncN 0 [Handle.fromRaw 1, Handle.fromRaw 2] false (-1)), .stop 0, .runNext]

/-- The thread is in the queue of the second event, but it runs; and the second event cannot be
    signaled. -/
theorem wakersLive_fails : ∃ (tr : List (Kernel × SvcStep)) (k : Kernel),
    Run (svcSystem UInt32.ofNat) tr k ∧ ¬ k.WakersLive ∧ ∃ fuel,
      (SvcStep.call (.signalEvent (Handle.fromRaw 2))).enabled k = true ∧
      (SvcStep.call (.signalEvent (Handle.fromRaw 2))).exec UInt32.ofNat fuel k =
        .panic (.wake 2) := by
  have hrun : (runAll (svcStep? UInt32.ofNat 4) Kernel.new twoEvents).map (fun k =>
      (k.wakers 2, (k.thread? 0).map CommonThread.state,
        (SvcStep.call (.signalEvent (Handle.fromRaw 2))).enabled k,
        ((SvcStep.call (.signalEvent (Handle.fromRaw 2))).exec UInt32.ofNat 4 k).panic?)) =
      some ([⟨0, 0⟩], some .running, true, some (.wake 2)) := by
    decide +kernel
  obtain ⟨k, hk, hview⟩ := Option.map_eq_some_iff.mp hrun
  obtain ⟨hwakers, hview⟩ := Prod.mk.inj hview
  obtain ⟨hstate, hview⟩ := Prod.mk.inj hview
  obtain ⟨henabled, hpanic⟩ := Prod.mk.inj hview
  obtain ⟨tr, htr⟩ := Run.of_runAll (fun _ _ _ hst => step_of_svcStep? hst)
    (.start (M := svcSystem UInt32.ofNat) rfl) hk
  refine ⟨tr, k, htr, fun hlive => ?_, 4, henabled, panic?_eq_some.mp hpanic⟩
  have hmem : (⟨0, 0⟩ : Waker) ∈ k.wakers 2 := by
    rw [hwakers]
    exact List.mem_cons_self
  obtain ⟨thread, hthread, hwaiting, _⟩ := hlive 2 _ hmem
  rw [hthread] at hstate
  injection hstate with hstate
  rw [hwaiting] at hstate
  cases hstate

end Pomelo
