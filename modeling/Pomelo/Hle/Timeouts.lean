/-
  What a tick does to the threads whose time has come, and that it does nothing else.

  Each thread that has timed out is woken, and its wakers leave the queues of the objects it
  waits on (`tickThreads_eq`); the threads are visited in order, and each finds the queues as the
  ones before it left them. A thread that waits has been told what it waits for (`Purposeful`),
  so no tick panics.
-/
import Pomelo.Hle.LiveWakers

namespace Pomelo

open Lib Outcome

/-! ## Objects that lose wakers -/

namespace KObject

/-- The object with those of its wakers that are kept. -/
def keepWakers (p : Waker → Bool) : KObject → KObject
  | event self => event { self with wakerQueue := self.wakerQueue.filter p }
  | timer self => timer { self with wakerQueue := self.wakerQueue.filter p }
  | mutex self => mutex { self with wakerQueue := self.wakerQueue.filter p }
  | thread self => thread { self with wakerQueue := self.wakerQueue.filter p }
  | arbiter self => arbiter { self with
      wakerQueue := self.wakerQueue.filter fun entry => p entry.1 }
  | serverPort self => serverPort { self with wakerQueue := self.wakerQueue.filter p }
  | clientPort self => clientPort { self with wakerQueue := self.wakerQueue.filter p }
  | serverSession self => serverSession { self with wakerQueue := self.wakerQueue.filter p }
  | clientSession self => clientSession { self with wakerQueue := self.wakerQueue.filter p }
  | codeSet => codeSet

variable {p q : Waker → Bool}

theorem removeWakers_eq (id : Nat) (x : KObject) :
    x.removeWakers id = x.keepWakers fun w => !w.checkOpaqueId id := by
  cases x <;> rfl

theorem keepWakers_keepWakers (x : KObject) :
    (x.keepWakers p).keepWakers q = x.keepWakers fun w => p w && q w := by
  cases x <;> simp [keepWakers, List.filter_filter, Bool.and_comm]

theorem keepWakers_all (h : ∀ w, p w = true) (x : KObject) : x.keepWakers p = x := by
  have hall : p = fun _ => true := funext h
  subst hall
  cases x <;> simp [keepWakers]

theorem map_keepWakers_all (h : ∀ w, p w = true) (x : Option KObject) :
    x.map (keepWakers p) = x := by
  cases x with
  | none => rfl
  | some x => rw [Option.map_some, keepWakers_all h]

theorem wakers_keepWakers (x : KObject) : (x.keepWakers p).wakers = x.wakers.filter p := by
  cases x with
  | arbiter self =>
    show (self.wakerQueue.filter fun entry => p entry.1).map Prod.fst = _
    exact List.filter_map.symm
  | codeSet => rfl
  | _ => rfl

theorem flag_keepWakers (x : KObject) : (x.keepWakers p).flag = x.flag := by
  cases x <;> rfl

end KObject

theorem Objects.at?_removeWakers_keep (id : Nat) (os : List ObjId) (objects : Objects)
    (o : ObjId) : (removeWakers id os objects).at? o =
      (objects.at? o).map (KObject.keepWakers fun w =>
        !(decide (o ∈ os) && w.checkOpaqueId id)) := by
  rw [Objects.at?_removeWakers]
  cases objects.at? o with
  | none => split <;> rfl
  | some x =>
    split
    · rename_i ho
      rw [Option.map_some, Option.map_some, KObject.removeWakers_eq]
      simp [ho]
    · rename_i ho
      rw [Option.map_some, KObject.keepWakers_all]
      simp [ho]

/-! ## One thread -/

namespace CommonThread

/-- The thread has timed out. -/
def expired (self : CommonThread) (time : UInt64) : Bool := self.sleeper.expired time

/-- What a thread that times out resumes with: a sleep is over. -/
def timeoutResume (self : CommonThread) : ThreadResume :=
  if self.waitType = some .sleep then .normal else .timeoutReached

/-- The thread after a tick. -/
def ticked (self : CommonThread) (time : UInt64) : CommonThread :=
  if self.expired time then self.woken self.timeoutResume else self

/-- The tick takes the waker out of the object: it is that of a thread that has timed out, and
    waits on the object. -/
def evicts (self : CommonThread) (time : UInt64) (o : ObjId) (w : Waker) : Bool :=
  self.expired time && decide (o ∈ self.waitObjects) && w.checkOpaqueId self.index

theorem ticked_index (self : CommonThread) (time : UInt64) :
    (self.ticked time).index = self.index := by
  unfold ticked
  split <;> rfl

theorem resumeFor_timeout {self : CommonThread} (h : self.waitType ≠ none) :
    self.resumeFor .timeout = .ret self.timeoutResume := by
  obtain ⟨waitType, hwait⟩ := Option.ne_none_iff_exists'.mp h
  unfold resumeFor timeoutResume
  rw [hwait, expect_some, ret_bind]
  cases waitType <;> rfl

theorem tickAt_eq {self : CommonThread} (time : UInt64)
    (h : self.state = .waiting → self.waitType ≠ none) (objects : Objects) :
    ∃ objects', self.tickAt time objects = .ret (self.ticked time, objects') ∧
      ∀ o, objects'.at? o =
        (objects.at? o).map (KObject.keepWakers fun w => !self.evicts time o w) := by
  have hexpired : self.expired time = (decide (self.state = .waiting) &&
      self.waitTimeout.any fun timeout => decide (timeout ≤ time)) := rfl
  by_cases hnow : self.expired time = true
  · have hwaiting : self.state = .waiting := Sleeper.waiting_of_expired hnow
    refine ⟨objects.removeWakers self.index self.waitObjects, ?_, fun o => ?_⟩
    · rw [hexpired, hwaiting, Bool.and_eq_true] at hnow
      obtain ⟨timeout, htimeout, hle⟩ := (Option.any_eq_true _ _).mp hnow.2
      have hle : timeout ≤ time := of_decide_eq_true hle
      have hticked : self.ticked time = self.woken self.timeoutResume := by
        unfold ticked
        rw [if_pos]
        rw [hexpired, hwaiting, htimeout]
        simp [hle]
      unfold tickAt
      rw [hwaiting, htimeout]
      dsimp only
      rw [if_pos hle, hticked]
      unfold wakeUp
      rw [resumeFor_timeout (h hwaiting), ret_bind]
      rfl
    · rw [Objects.at?_removeWakers_keep]
      unfold evicts
      rw [hnow]
      rfl
  · have hticked : self.ticked time = self := if_neg hnow
    have hnow : self.expired time = false := by simpa using hnow
    refine ⟨objects, ?_, fun o => ?_⟩
    · rw [hticked]
      unfold tickAt
      split
      · rename_i timeout hwaiting htimeout
        rw [hexpired, hwaiting, htimeout] at hnow
        rw [if_neg (by simpa using hnow)]
        rfl
      · rfl
    · have hkept : ∀ w, (!self.evicts time o w) = true := by
        intro w
        unfold evicts
        rw [hnow]
        rfl
      exact (KObject.map_keepWakers_all hkept _).symm

end CommonThread

/-! ## All threads -/

/-- The loop wakes the threads that have timed out, and takes their wakers out of the objects they
    wait on. -/
theorem tickThreads_eq (time : UInt64) {threads : List CommonThread}
    (h : ∀ thread ∈ threads, thread.state = .waiting → thread.waitType ≠ none)
    (objects : Objects) :
    ∃ objects', tickThreads time threads objects =
        .ret (threads.map (CommonThread.ticked · time), objects') ∧
      ∀ o, objects'.at? o = (objects.at? o).map (KObject.keepWakers fun w =>
        !threads.any fun thread => thread.evicts time o w) := by
  induction threads generalizing objects with
  | nil =>
    exact ⟨objects, rfl, fun o => (KObject.map_keepWakers_all (fun _ => rfl) _).symm⟩
  | cons thread threads ih =>
    obtain ⟨objects1, hone, hat1⟩ :=
      CommonThread.tickAt_eq time (h thread List.mem_cons_self) objects
    obtain ⟨objects2, hrest, hat2⟩ := ih (fun t ht => h t (List.mem_cons_of_mem _ ht)) objects1
    refine ⟨objects2, ?_, fun o => ?_⟩
    · unfold tickThreads
      rw [hone, ret_bind]
      dsimp only
      rw [hrest, ret_bind]
      rfl
    · rw [hat2, hat1, Option.map_map]
      congr 1
      funext x
      show (x.keepWakers _).keepWakers _ = _
      rw [KObject.keepWakers_keepWakers]
      congr 1
      funext w
      rw [List.any_cons, Bool.not_or]

/-! ## Threads that wait know what for -/

/-- What a thread waits for is set while it waits. -/
def Sleeper.Purposeful (self : Sleeper) : Prop := self.state = .waiting → self.waitType ≠ none

namespace View

variable {v v' : View} {t : ThreadIndex} {self : Sleeper}

def Purposeful (v : View) : Prop := ∀ t self, v.sleepers t = some self → self.Purposeful

theorem Purposeful.update {sleepers : ThreadIndex → Option Sleeper}
    (h : ∀ t self, sleepers t = some self → self.Purposeful) (hself : self.Purposeful) :
    ∀ t' self', Function.update sleepers t (some self) t' = some self' → self'.Purposeful := by
  intro t' self' hself'
  by_cases ht : t' = t
  · rw [ht, Function.update_self] at hself'
    injection hself' with hself'
    exact hself' ▸ hself
  · rw [Function.update_of_ne ht] at hself'
    exact h t' self' hself'

theorem Purposeful.wake (h : v.Purposeful) : (v.wake t self).Purposeful := by
  have hwoken : self.woken.Purposeful := fun hstate => by cases hstate
  exact Purposeful.update h hwoken

theorem Purposeful.wakes {ws : List Waker} (h : v.Purposeful) :
    (ws.foldl tryWake v).Purposeful := by
  induction ws generalizing v with
  | nil => exact h
  | cons w ws ih =>
    have hone : (v.tryWake w).Purposeful := by
      unfold View.tryWake
      split
      · split
        · exact h.wake
        · exact h
      · exact h
    exact ih hone

theorem Step.purposeful {m : Move} (hs : Step v m v') (h : v.Purposeful) : v'.Purposeful := by
  cases hs with
  | @turn t self state hself hstate hnew =>
    exact Purposeful.update h fun hwaiting => absurd hwaiting hnew
  | born =>
    intro t self hself
    rcases Option.or_eq_some_iff.mp hself with hself | ⟨_, hself⟩
    · exact h t self hself
    · split at hself
      · injection hself with hself
        intro hwaiting
        rw [← hself] at hwaiting
        cases hwaiting
      · cases hself
  | @suspend t self objects timeout waitType hself hstate =>
    exact Purposeful.update h fun _ hnone => by cases hnone
  | expire hself hstate htimeout => exact h.wake
  | take hself hkey hstate ho hf => exact Purposeful.wake h
  | @act o p ws f g hws hf hg => exact Purposeful.wakes h
  | _ => exact h

end View

/-! ## The kernel -/

namespace Kernel

variable {k : Kernel} {time : UInt64} {t : ThreadIndex} {thread : CommonThread}

/-- The waker is that of a thread that has timed out, and waits on the object. -/
def evicts (k : Kernel) (time : UInt64) (o : ObjId) (w : Waker) : Bool :=
  k.threads.any fun thread => thread.evicts time o w

/-- The kernel after its threads have timed out. Threads that have not are as before; objects are
    as before but for the wakers of those that have. -/
structure TimesOut (k : Kernel) (time : UInt64) (k' : Kernel) : Prop where
  woken : ∀ t thread, k.thread? t = some thread → thread.expired time = true →
    k'.thread? t = some { thread with
      state := .ready
      wakeKey := thread.wakeKey + 1
      resume := if thread.waitType = some .sleep then .normal else .timeoutReached
      waitObjects := [] }
  gone : ∀ t thread, k.thread? t = some thread → thread.expired time = true →
    ∀ o ∈ thread.waitObjects, ∀ w ∈ k'.wakers o, w.thread ≠ t
  asleep : ∀ t thread, k.thread? t = some thread → thread.expired time = false →
    k'.thread? t = some thread
  nobody : ∀ t, k.thread? t = none → k'.thread? t = none
  objects : ∀ o, ∃ kept : Waker → Bool,
    (∀ w, (∀ thread, k.thread? w.thread = some thread → thread.expired time = false) →
      kept w = true) ∧
    k'.object? o = (k.object? o).map (KObject.keepWakers kept)
  flags : ∀ o, (k'.object? o).bind KObject.flag = (k.object? o).bind KObject.flag
  rest : k' = { k with threads := k'.threads, objects := k'.objects }

theorem findKey_ticked (threads : List CommonThread) :
    findKey CommonThread.index t (threads.map (CommonThread.ticked · time)) =
      (findKey CommonThread.index t threads).map (CommonThread.ticked · time) := by
  induction threads with
  | nil => rfl
  | cons thread threads ih =>
    rw [List.map_cons, findKey, findKey, CommonThread.ticked_index]
    split
    · rfl
    · exact ih

theorem thread?_of_mem (hn : k.indices.Nodup) (h : thread ∈ k.threads) :
    k.thread? thread.index = some thread :=
  findKey_of_mem hn h

/-- Only wakers of threads that have timed out leave a queue. -/
theorem expired_of_evicts {o : ObjId} {w : Waker} (hn : k.indices.Nodup)
    (h : k.evicts time o w = true) :
    ∃ thread, k.thread? w.thread = some thread ∧ thread.expired time = true := by
  obtain ⟨thread, hmem, hevicts⟩ := List.any_eq_true.mp h
  unfold CommonThread.evicts at hevicts
  rw [Bool.and_eq_true, Bool.and_eq_true] at hevicts
  have hindex : w.thread = thread.index := of_decide_eq_true hevicts.2
  exact ⟨thread, hindex ▸ thread?_of_mem hn hmem, hevicts.1.1⟩

/-- All wakers of a thread that has timed out leave the queues of the objects it waits on. -/
theorem evicts_of_expired {o : ObjId} {w : Waker} (hthread : k.thread? w.thread = some thread)
    (hexpired : thread.expired time = true) (ho : o ∈ thread.waitObjects) :
    k.evicts time o w = true := by
  refine List.any_eq_true.mpr ⟨thread, mem_of_findKey hthread, ?_⟩
  have hindex : w.checkOpaqueId thread.index = true :=
    decide_eq_true (thread?_index hthread).symm
  unfold CommonThread.evicts
  rw [hexpired, decide_eq_true ho, hindex]
  rfl

/-- Between two steps, a tick at any time wakes the threads that have timed out. -/
theorem timesOut_of_view (hn : k.indices.Nodup) (hp : k.view.Purposeful) (time : UInt64) :
    ∃ k', k.tickThreadsAt time = .ret k' ∧ k.TimesOut time k' := by
  have hpurpose : ∀ thread ∈ k.threads, thread.state = .waiting → thread.waitType ≠ none := by
    intro thread hmem
    have hself : k.view.sleepers thread.index = some thread.sleeper := by
      show (k.thread? thread.index).map CommonThread.sleeper = _
      rw [thread?_of_mem hn hmem]
      rfl
    exact hp _ _ hself
  obtain ⟨objects', htick, hobjects⟩ := tickThreads_eq time hpurpose k.objects
  have hthread : ∀ t, findKey CommonThread.index t (k.threads.map (CommonThread.ticked · time)) =
      (k.thread? t).map (CommonThread.ticked · time) := fun t => findKey_ticked k.threads
  have hobject : ∀ o, objects'.at? o =
      (k.object? o).map (KObject.keepWakers fun w => !k.evicts time o w) := hobjects
  refine ⟨{ k with threads := k.threads.map (CommonThread.ticked · time), objects := objects' },
    ?_, ?_, ?_, ?_, ?_, ?_, ?_, rfl⟩
  · unfold tickThreadsAt
    rw [htick]
    rfl
  · intro t thread hget hexpired
    refine (hthread t).trans ?_
    rw [hget, Option.map_some]
    exact congrArg some (if_pos hexpired)
  · intro t thread hget hexpired o ho w hw ht
    obtain ⟨y, hy, hw⟩ := mem_wakers.mp hw
    obtain ⟨x, hx, rfl⟩ := Option.map_eq_some_iff.mp ((hobject o).symm.trans hy)
    rw [KObject.wakers_keepWakers] at hw
    have hkept := (List.mem_filter.mp hw).2
    rw [evicts_of_expired (ht ▸ hget) hexpired ho] at hkept
    cases hkept
  · intro t thread hget hasleep
    refine (hthread t).trans ?_
    rw [hget, Option.map_some]
    exact congrArg some (if_neg (by simp [hasleep]))
  · intro t hnone
    refine (hthread t).trans ?_
    rw [hnone]
    rfl
  · intro o
    refine ⟨fun w => !k.evicts time o w, fun w hw => ?_, hobject o⟩
    by_contra hnot
    have hevicts : k.evicts time o w = true := by simpa using hnot
    obtain ⟨thread, hget, hexpired⟩ := expired_of_evicts hn hevicts
    rw [hw thread hget] at hexpired
    cases hexpired
  · intro o
    show (objects'.at? o).bind KObject.flag = _
    rw [hobject o]
    cases k.object? o with
    | none => rfl
    | some x => exact KObject.flag_keepWakers x

end Kernel

theorem purposeful_new : Kernel.new.view.Purposeful := fun t self hself => by cases hself

/-- **Timeouts touch only what expired.** In every state of every run, a tick at any time makes
    the threads ready that wait for a time that has come, and takes their wakers out of the objects
    they wait on. Other threads, what objects are besides their queues, and the order of the
    wakers that stay are as before. -/
theorem timesOut {rng : Nat → UInt32} {tr : List (Kernel × SvcStep)} {k : Kernel}
    (h : Run (svcSystem rng) tr k) (time : UInt64) :
    ∃ k', k.tickThreadsAt time = .ret k' ∧ k.TimesOut time k' := by
  have hkept := kept_of_run (I := View.Purposeful) purposeful_new
    (fun _ _ _ _ hv hs => hs.purposeful hv) h
  exact Kernel.timesOut_of_view hkept.1.nodup hkept.2 time

/-- Two threads wait on an event, the first for at most ten nanoseconds: it times out, and the
    second stays in the queue. -/
theorem timesOut_sample : ∃ (tr : List (Kernel × SvcStep)) (k k' : Kernel),
    Run (svcSystem UInt32.ofNat) tr k ∧ k.wakers 2 = [⟨0, 0⟩, ⟨1, 0⟩] ∧
      k.tickThreadsAt 10 = .ret k' ∧ k.TimesOut 10 k' ∧ k'.wakers 2 = [⟨1, 0⟩] := by
  have hrun : (runAll (svcStep? UInt32.ofNat 4) Kernel.new [.newProcess .hle, .newThread 0,
      .newThread 0, .runNext, .call (.createEvent .oneShot),
      .call (.waitSync1 0 (Handle.fromRaw 1) 10), .stop 0, .runNext,
      .call (.waitSync1 5 (Handle.fromRaw 1) (-1)), .stop 1]).map (fun k =>
        (k.wakers 2, (k.tickThreadsAt 10).value?.map fun k' => k'.wakers 2)) =
      some ([⟨0, 0⟩, ⟨1, 0⟩], some [⟨1, 0⟩]) := by
    decide +kernel
  obtain ⟨k, hk, hview⟩ := Option.map_eq_some_iff.mp hrun
  obtain ⟨hbefore, hafter⟩ := Prod.mk.inj hview
  obtain ⟨tr, htr⟩ := Run.of_runAll (fun _ _ _ hst => step_of_svcStep? hst)
    (.start (M := svcSystem UInt32.ofNat) rfl) hk
  obtain ⟨k', htick, hout⟩ := timesOut htr 10
  rw [htick] at hafter
  injection hafter with hafter
  exact ⟨tr, k, k', htr, hbefore, htick, hout, hafter⟩

end Pomelo
