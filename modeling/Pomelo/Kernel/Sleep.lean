/-
  How threads sleep and wake: what each call of the kernel does to them.

  A `Sleeper` is the part of a thread that sleep and wake-up turn on; `sleepers` looks it up by
  thread. Each call has one lemma that says all it can do (`suspendThread_eq_ret`,
  `wake_eq_ret`, `startThread_eq_ret`, ..), and the lemmas behind it read off what became of
  the sleepers. Nothing below unfolds a call again.
-/
import Pomelo.Kernel.Calls
import Mathlib.Logic.Function.Basic

namespace Pomelo

open Lib Outcome

/-- What sleep and wake-up see of a thread. -/
structure Sleeper where
  state : ThreadState
  waitObjects : List ObjId
  wakeKey : UInt64
  waitTimeout : Option UInt64
  waitType : Option ThreadWaitType
deriving DecidableEq, Repr

namespace Sleeper

def woken (self : Sleeper) : Sleeper :=
  { self with state := .ready, wakeKey := self.wakeKey + 1, waitObjects := [] }

def suspended (self : Sleeper) (objects : List ObjId) (timeout : Option UInt64)
    (waitType : ThreadWaitType) : Sleeper :=
  { self with
    state := .waiting
    waitObjects := objects
    waitTimeout := timeout
    waitType := some waitType }

def inState (self : Sleeper) (state : ThreadState) : Sleeper := { self with state := state }

/-- The sleeper waits for a time that has come. -/
def expired (self : Sleeper) (time : UInt64) : Bool :=
  decide (self.state = .waiting) && self.waitTimeout.any fun timeout => decide (timeout ≤ time)

/-- The sleeper of a new thread. -/
def new : Sleeper :=
  { state := .ready, waitObjects := [], wakeKey := 0, waitTimeout := none, waitType := none }

theorem waiting_of_expired {self : Sleeper} {time : UInt64} (h : self.expired time = true) :
    self.state = .waiting := by
  unfold expired at h
  rw [Bool.and_eq_true] at h
  exact of_decide_eq_true h.1

end Sleeper

namespace CommonThread

def sleeper (self : CommonThread) : Sleeper where
  state := self.state
  waitObjects := self.waitObjects
  wakeKey := self.wakeKey
  waitTimeout := self.waitTimeout
  waitType := self.waitType

@[simp] theorem sleeper_woken (self : CommonThread) (resume : ThreadResume) :
    (self.woken resume).sleeper = self.sleeper.woken := rfl

@[simp] theorem new_index (pid : ProcessId) (tid : ThreadIndex) (kobj : ObjId) :
    (CommonThread.new pid tid kobj).index = tid := rfl

@[simp] theorem sleeper_new (pid : ProcessId) (tid : ThreadIndex) (kobj : ObjId) :
    (CommonThread.new pid tid kobj).sleeper = Sleeper.new := rfl

theorem wakeUp_eq_ret {self thread : CommonThread} {reason : ThreadWakeReason}
    {objects objects' : Objects} (h : self.wakeUp reason objects = .ret (thread, objects')) :
    ∃ resume, self.resumeFor reason = .ret resume ∧ thread = self.woken resume ∧
      objects' = objects.removeWakers self.index self.waitObjects := by
  unfold wakeUp at h
  obtain ⟨resume, hresume, h⟩ := bind_eq_ret.mp h
  injection h with h
  obtain ⟨h1, h2⟩ := Prod.mk.inj h
  exact ⟨resume, hresume, h1.symm, h2.symm⟩

theorem wakeUp_eq_panic {self : CommonThread} {reason : ThreadWakeReason} {objects : Objects}
    {e : Panic} (h : self.wakeUp reason objects = .panic e) :
    self.resumeFor reason = .panic e := by
  unfold wakeUp at h
  rcases bind_eq_panic.mp h with h | ⟨resume, _, h⟩
  · exact h
  · cases h

/-- A thread can be woken by an object it waits on, and by a timeout, once it has waited, as
    long as it does not sleep while it waits on objects. -/
theorem resumeFor_ne_panic {self : CommonThread} {object : ObjId} {waitType : ThreadWaitType}
    (ht : self.waitType = some waitType) (ho : object ∈ self.waitObjects)
    (hs : waitType ≠ .sleep) (e : Panic) : self.resumeFor (.object object) ≠ .panic e := by
  have hindex : (self.waitObjects.findIdx? fun other => other = object).isSome := by
    rw [List.findIdx?_isSome, List.any_eq_true]
    exact ⟨object, ho, by simp⟩
  obtain ⟨index, hindex⟩ := Option.isSome_iff_exists.mp hindex
  unfold resumeFor
  rw [ht, expect_some, ret_bind]
  cases waitType with
  | waitSync1 => intro h; cases h
  | waitSyncN =>
    dsimp only
    rw [hindex]
    intro h
    cases h
  | arbiter => intro h; cases h
  | sleep => exact absurd rfl hs

end CommonThread

/-! ## Ticks -/

theorem tickAt_eq_ret {time : UInt64} {self thread : CommonThread} {objects objects' : Objects}
    (h : self.tickAt time objects = .ret (thread, objects')) :
    (self.sleeper.expired time = true ∧
      ∃ resume, self.resumeFor .timeout = .ret resume ∧ thread = self.woken resume ∧
        objects' = objects.removeWakers self.index self.waitObjects) ∨
    (self.sleeper.expired time = false ∧ thread = self ∧ objects' = objects) := by
  have hexp : self.sleeper.expired time = (decide (self.state = .waiting) &&
      self.waitTimeout.any fun timeout => decide (timeout ≤ time)) := rfl
  unfold CommonThread.tickAt at h
  rw [hexp]
  split at h
  · rename_i timeout hstate htimeout
    rw [hstate, htimeout]
    by_cases hle : timeout ≤ time
    · rw [if_pos hle] at h
      exact Or.inl ⟨by simp [hle], CommonThread.wakeUp_eq_ret h⟩
    · rw [if_neg hle] at h
      injection h with h
      obtain ⟨h1, h2⟩ := Prod.mk.inj h
      exact Or.inr ⟨by simp [hle], h1.symm, h2.symm⟩
  · rename_i hnot
    injection h with h
    obtain ⟨h1, h2⟩ := Prod.mk.inj h
    refine Or.inr ⟨?_, h1.symm, h2.symm⟩
    cases htimeout : self.waitTimeout with
    | none => simp
    | some timeout =>
      have hstate : self.state ≠ .waiting := fun hs => hnot timeout hs htimeout
      simp [hstate]

theorem tickAt_index {time : UInt64} {self thread : CommonThread} {objects objects' : Objects}
    (h : self.tickAt time objects = .ret (thread, objects')) : thread.index = self.index := by
  rcases tickAt_eq_ret h with ⟨_, resume, _, rfl, _⟩ | ⟨_, rfl, _⟩
  · rfl
  · rfl

theorem tickAt_sleeper {time : UInt64} {self thread : CommonThread} {objects objects' : Objects}
    (h : self.tickAt time objects = .ret (thread, objects')) :
    thread.sleeper =
      if self.sleeper.expired time then self.sleeper.woken else self.sleeper := by
  rcases tickAt_eq_ret h with ⟨hexp, resume, _, rfl, _⟩ | ⟨hexp, rfl, _⟩
  · rw [if_pos hexp]
    rfl
  · rw [if_neg (by simp [hexp])]

/-- A tick wakes the threads whose time has come, and no other. -/
theorem tickThreads_sleepers {time : UInt64} {threads threads' : List CommonThread}
    {objects objects' : Objects}
    (h : tickThreads time threads objects = .ret (threads', objects')) :
    threads'.map CommonThread.index = threads.map CommonThread.index ∧
      ∀ tid, (findKey CommonThread.index tid threads').map CommonThread.sleeper =
        ((findKey CommonThread.index tid threads).map CommonThread.sleeper).map fun self =>
          if self.expired time then self.woken else self := by
  induction threads generalizing threads' objects objects' with
  | nil =>
    injection h with h
    obtain ⟨rfl, _⟩ := Prod.mk.inj h
    exact ⟨rfl, fun tid => rfl⟩
  | cons thread threads ih =>
    obtain ⟨⟨thread', objects1⟩, hone, h⟩ := bind_eq_ret.mp h
    obtain ⟨⟨threads1, objects2⟩, hrest, h⟩ := bind_eq_ret.mp h
    injection h with h
    obtain ⟨rfl, _⟩ := Prod.mk.inj h
    obtain ⟨hindices, hsleepers⟩ := ih hrest
    have hindex := tickAt_index hone
    refine ⟨by rw [List.map_cons, List.map_cons, hindex, hindices], fun tid => ?_⟩
    rw [findKey, findKey, hindex]
    split
    · rw [Option.map_some, Option.map_some, Option.map_some, tickAt_sleeper hone]
    · exact hsleepers tid

namespace Kernel

/-- The sleepers, by thread. -/
def sleepers (k : Kernel) : ThreadIndex → Option Sleeper :=
  fun tid => (k.thread? tid).map CommonThread.sleeper

/-- The indices of the threads, in the order of the list. -/
def indices (k : Kernel) : List ThreadIndex := k.threads.map CommonThread.index

theorem thread?_index {k : Kernel} {tid : ThreadIndex} {thread : CommonThread}
    (h : k.thread? tid = some thread) : thread.index = tid :=
  key_of_findKey h

theorem mem_indices {k : Kernel} {tid : ThreadIndex} :
    tid ∈ k.indices ↔ (k.thread? tid).isSome := by
  unfold indices thread?
  cases h : findKey CommonThread.index tid k.threads with
  | none =>
    rw [findKey_eq_none] at h
    simpa [List.mem_map] using h
  | some thread =>
    simp only [Option.isSome_some, iff_true]
    rw [← key_of_findKey h]
    exact List.mem_map_of_mem (mem_of_findKey h)

@[simp] theorem indices_setThread (k : Kernel) (thread : CommonThread) :
    (k.setThread thread).indices = k.indices :=
  map_modifyKey (fun _ _ => rfl) _

/-- Putting a thread back changes its own sleeper only. -/
theorem sleepers_setThread {k : Kernel} {tid : ThreadIndex} {old thread : CommonThread}
    (h : k.thread? tid = some old) (hindex : thread.index = old.index) :
    (k.setThread thread).sleepers = Function.update k.sleepers tid (some thread.sleeper) := by
  funext tid'
  unfold sleepers
  rw [thread?_setThread, hindex, thread?_index h]
  by_cases ht : tid' = tid
  · subst ht
    rw [if_pos rfl, h, Function.update_self]
    rfl
  · rw [if_neg ht, Function.update_of_ne ht]

/-! ## What each call can do -/

theorem suspendThread_eq_ret {k k' : Kernel} {objects : List ObjId} {timeout : Option UInt64}
    {waitType : ThreadWaitType} {waker : Waker}
    (h : k.suspendThread objects timeout waitType = .ret (waker, k')) :
    ∃ pid tid thread, k.current = some (pid, tid) ∧ k.thread? tid = some thread ∧
      thread.state = .running ∧ waker = ⟨tid, thread.wakeKey⟩ ∧
      k' = k.setThread { thread with
        waitObjects := objects
        state := .waiting
        waitTimeout := timeout
        waitType := some waitType } := by
  unfold suspendThread at h
  obtain ⟨⟨pid, tid⟩, hcur, h⟩ := bind_eq_ret.mp h
  obtain ⟨thread, hfind, h⟩ := bind_eq_ret.mp h
  obtain ⟨thread', hwait, h⟩ := bind_eq_ret.mp h
  unfold CommonThread.wait at hwait
  obtain ⟨_, hstate, hwait⟩ := bind_eq_ret.mp hwait
  injection hwait with hwait
  subst hwait
  injection h with h
  obtain ⟨rfl, rfl⟩ := Prod.mk.inj h
  have hthread := findThread_eq_ret.mp hfind
  have hindex := thread?_index hthread
  refine ⟨pid, tid, thread, currentPidTid_eq_ret.mp hcur, hthread,
    of_decide_eq_true (assert_eq_ret.mp hstate), by rw [← hindex], rfl⟩

theorem suspendThread_sleepers {k k' : Kernel} {objects : List ObjId} {timeout : Option UInt64}
    {waitType : ThreadWaitType} {waker : Waker}
    (h : k.suspendThread objects timeout waitType = .ret (waker, k')) :
    ∃ self, k.sleepers waker.thread = some self ∧ self.state = .running ∧
      waker.key = self.wakeKey ∧
      k'.sleepers = Function.update k.sleepers waker.thread
        (some (self.suspended objects timeout waitType)) := by
  obtain ⟨pid, tid, thread, hcur, hthread, hstate, rfl, rfl⟩ := suspendThread_eq_ret h
  refine ⟨thread.sleeper, by unfold sleepers; rw [hthread]; rfl, hstate, rfl, ?_⟩
  exact sleepers_setThread hthread rfl

/-- A wake finds its thread. With the thread's own key it wakes it, with any other key it does
    nothing. -/
theorem wake_eq_ret {k k' : Kernel} {waker : Waker} {object : ObjId} {ok : Bool}
    (h : waker.wake object k = .ret (ok, k')) :
    ∃ thread, k.thread? waker.thread = some thread ∧
      ((ok = true ∧ thread.wakeKey = waker.key ∧
        ∃ resume, thread.resumeFor (.object object) = .ret resume ∧
          k' = { k.setThread (thread.woken resume) with
            objects := k.objects.removeWakers waker.thread thread.waitObjects }) ∨
      (ok = false ∧ thread.wakeKey ≠ waker.key ∧ k' = k)) := by
  unfold Waker.wake wakeUpThread at h
  obtain ⟨thread, hfind, h⟩ := bind_eq_ret.mp h
  have hthread := findThread_eq_ret.mp hfind
  have hindex := thread?_index hthread
  refine ⟨thread, hthread, ?_⟩
  split at h
  · rename_i hkey
    obtain ⟨⟨thread', objects⟩, hwake, h⟩ := bind_eq_ret.mp h
    obtain ⟨resume, hresume, rfl, rfl⟩ := CommonThread.wakeUp_eq_ret hwake
    injection h with h
    obtain ⟨rfl, rfl⟩ := Prod.mk.inj h
    exact Or.inl ⟨rfl, hkey, resume, hresume, by rw [← hindex]⟩
  · rename_i hkey
    injection h with h
    obtain ⟨rfl, rfl⟩ := Prod.mk.inj h
    exact Or.inr ⟨rfl, hkey, rfl⟩

theorem wake_eq_panic {k : Kernel} {waker : Waker} {object : ObjId} {e : Panic}
    (h : waker.wake object k = .panic e) :
    k.thread? waker.thread = none ∨
      ∃ thread, k.thread? waker.thread = some thread ∧ thread.wakeKey = waker.key ∧
        thread.resumeFor (.object object) = .panic e := by
  unfold Waker.wake wakeUpThread at h
  rcases bind_eq_panic.mp h with h | ⟨thread, hfind, h⟩
  · exact Or.inl (expect_eq_panic.mp h).1
  · right
    refine ⟨thread, findThread_eq_ret.mp hfind, ?_⟩
    split at h
    · rename_i hkey
      rcases bind_eq_panic.mp h with h | ⟨x, _, h⟩
      · exact ⟨hkey, CommonThread.wakeUp_eq_panic h⟩
      · cases h
    · cases h

theorem wake_sleepers {k k' : Kernel} {waker : Waker} {object : ObjId} {ok : Bool}
    (h : waker.wake object k = .ret (ok, k')) :
    k'.indices = k.indices ∧ ∃ self, k.sleepers waker.thread = some self ∧
      ((ok = true ∧ self.wakeKey = waker.key ∧
        k'.sleepers = Function.update k.sleepers waker.thread (some self.woken)) ∨
      (ok = false ∧ self.wakeKey ≠ waker.key ∧ k'.sleepers = k.sleepers)) := by
  obtain ⟨thread, hthread, h⟩ := wake_eq_ret h
  have hself : k.sleepers waker.thread = some thread.sleeper := by
    unfold sleepers
    rw [hthread]
    rfl
  rcases h with ⟨hok, hkey, resume, _, rfl⟩ | ⟨hok, hkey, rfl⟩
  · refine ⟨indices_setThread _ _, thread.sleeper, hself, Or.inl ⟨hok, hkey, ?_⟩⟩
    exact sleepers_setThread hthread rfl
  · exact ⟨rfl, thread.sleeper, hself, Or.inr ⟨hok, hkey, rfl⟩⟩

theorem tickThreadsAt_sleepers {k k' : Kernel} {time : UInt64}
    (h : k.tickThreadsAt time = .ret k') :
    k'.indices = k.indices ∧ ∀ tid, k'.sleepers tid =
      (k.sleepers tid).map fun self => if self.expired time then self.woken else self := by
  unfold tickThreadsAt at h
  obtain ⟨⟨threads, objects⟩, htick, h⟩ := bind_eq_ret.mp h
  injection h with h
  subst h
  obtain ⟨h1, h2⟩ := tickThreads_sleepers htick
  exact ⟨h1, h2⟩

theorem takeThreadBox_eq_ret {k k' : Kernel} {tid : ThreadIndex}
    (h : k.takeThreadBox tid = .ret k') :
    k' = { k with threadBoxes := modifyKey Prod.fst tid (fun _ => (tid, false)) k.threadBoxes } := by
  unfold takeThreadBox at h
  obtain ⟨box, _, h⟩ := bind_eq_ret.mp h
  obtain ⟨_, _, h⟩ := bind_eq_ret.mp h
  injection h with h
  exact h.symm

theorem replaceThreadBox_eq_ret {k k' : Kernel} {tid : ThreadIndex}
    (h : k.replaceThreadBox tid = .ret k') :
    k' = { k with threadBoxes := modifyKey Prod.fst tid (fun _ => (tid, true)) k.threadBoxes } := by
  unfold replaceThreadBox at h
  obtain ⟨box, _, h⟩ := bind_eq_ret.mp h
  obtain ⟨_, _, h⟩ := bind_eq_ret.mp h
  injection h with h
  exact h.symm

theorem startThread_eq_ret {k k' : Kernel} {index : ThreadIndex} {resume : ThreadResume}
    (h : k.startThread index = .ret (resume, k')) :
    ∃ thread, k.thread? index = some thread ∧ thread.state = .ready ∧ resume = thread.resume ∧
      k' = { k.setThread { thread with state := .running, resume := .normal } with
        current := some (thread.pid, index)
        threadBoxes := modifyKey Prod.fst index (fun _ => (index, false)) k.threadBoxes } := by
  unfold startThread at h
  obtain ⟨thread, hfind, h⟩ := bind_eq_ret.mp h
  obtain ⟨_, hready, h⟩ := bind_eq_ret.mp h
  obtain ⟨process, _, h⟩ := bind_eq_ret.mp h
  obtain ⟨k1, hbox, h⟩ := bind_eq_ret.mp h
  injection h with h
  obtain ⟨rfl, rfl⟩ := Prod.mk.inj h
  exact ⟨thread, findThread_eq_ret.mp hfind, of_decide_eq_true (assert_eq_ret.mp hready), rfl,
    takeThreadBox_eq_ret hbox⟩

/-- A thread that starts was ready, and runs. -/
theorem startThread_sleepers {k k' : Kernel} {index : ThreadIndex} {resume : ThreadResume}
    (h : k.startThread index = .ret (resume, k')) :
    k'.indices = k.indices ∧ ∃ self, k.sleepers index = some self ∧ self.state = .ready ∧
      k'.sleepers = Function.update k.sleepers index (some (self.inState .running)) := by
  obtain ⟨thread, hthread, hready, _, rfl⟩ := startThread_eq_ret h
  refine ⟨indices_setThread _ _, thread.sleeper, by unfold sleepers; rw [hthread]; rfl, hready, ?_⟩
  exact sleepers_setThread hthread rfl

/-- `run_next` starts the thread scheduled next, else the first that is ready. -/
theorem runNext_sleepers {k k' : Kernel} {started : Option (ThreadIndex × ThreadResume)}
    (h : k.runNext = .ret (started, k')) :
    k'.indices = k.indices ∧ (k'.sleepers = k.sleepers ∨
      ∃ index self, k.sleepers index = some self ∧ self.state = .ready ∧
        k'.sleepers = Function.update k.sleepers index (some (self.inState .running))) := by
  unfold runNext at h
  split at h
  · rename_i index _
    obtain ⟨⟨resume, k1⟩, hstart, h⟩ := bind_eq_ret.mp h
    injection h with h
    obtain ⟨_, rfl⟩ := Prod.mk.inj h
    obtain ⟨h1, self, h2⟩ := startThread_sleepers hstart
    exact ⟨h1, Or.inr ⟨index, self, h2⟩⟩
  · injection h with h
    obtain ⟨_, rfl⟩ := Prod.mk.inj h
    exact ⟨rfl, Or.inl rfl⟩

theorem runNext_nextTid {k k' : Kernel} {started : Option (ThreadIndex × ThreadResume)}
    (h : k.runNext = .ret (started, k')) : k'.nextTid = k.nextTid := by
  unfold runNext at h
  split at h
  · obtain ⟨⟨resume, k1⟩, hstart, h⟩ := bind_eq_ret.mp h
    injection h with h
    obtain ⟨_, rfl⟩ := Prod.mk.inj h
    obtain ⟨_, _, _, _, hk1⟩ := startThread_eq_ret hstart
    rw [hk1]
    rfl
  · injection h with h
    obtain ⟨_, rfl⟩ := Prod.mk.inj h
    rfl

theorem stopThread_eq_ret {k k' : Kernel} {index : ThreadIndex}
    (h : k.stopThread index = .ret k') :
    ∃ pid tid thread, k.current = some (pid, tid) ∧ k.thread? tid = some thread ∧
      k' = { k.setThread (if thread.state = .running then { thread with state := .ready }
          else thread) with
        current := none
        threadBoxes := modifyKey Prod.fst index (fun _ => (index, true)) k.threadBoxes } := by
  unfold stopThread at h
  obtain ⟨k1, hbox, h⟩ := bind_eq_ret.mp h
  have hk1 := replaceThreadBox_eq_ret hbox
  subst hk1
  obtain ⟨⟨pid, tid⟩, hcur, h⟩ := bind_eq_ret.mp h
  obtain ⟨thread, hfind, h⟩ := bind_eq_ret.mp h
  obtain ⟨process, _, h⟩ := bind_eq_ret.mp h
  injection h with h
  exact ⟨pid, tid, thread, expect_eq_ret.mp hcur, findThread_eq_ret.mp hfind, h.symm⟩

/-- A thread that stops running is ready again; one that sleeps or is done stays so. -/
theorem stopThread_sleepers {k k' : Kernel} {index : ThreadIndex}
    (h : k.stopThread index = .ret k') :
    k'.indices = k.indices ∧ ∃ pid tid self, k.current = some (pid, tid) ∧
      k.sleepers tid = some self ∧
      k'.sleepers = Function.update k.sleepers tid
        (some (if self.state = .running then self.inState .ready else self)) := by
  obtain ⟨pid, tid, thread, hcur, hthread, rfl⟩ := stopThread_eq_ret h
  refine ⟨indices_setThread _ _, pid, tid, thread.sleeper, hcur,
    by unfold sleepers; rw [hthread]; rfl, ?_⟩
  show (k.setThread _).sleepers = _
  by_cases hrun : thread.state = .running
  · rw [if_pos hrun, if_pos (show thread.sleeper.state = _ from hrun)]
    exact sleepers_setThread hthread rfl
  · rw [if_neg hrun, if_neg (show thread.sleeper.state ≠ _ from hrun)]
    exact sleepers_setThread hthread rfl

theorem finishThread_eq_ret {k k' : Kernel} {kobj : ObjId}
    (h : k.finishThread = .ret (kobj, k')) :
    ∃ pid tid thread, k.current = some (pid, tid) ∧ k.thread? tid = some thread ∧
      kobj = thread.kobj ∧ k' = k.setThread { thread with state := .done } := by
  unfold finishThread at h
  obtain ⟨⟨pid, tid⟩, hcur, h⟩ := bind_eq_ret.mp h
  obtain ⟨thread, hfind, h⟩ := bind_eq_ret.mp h
  injection h with h
  obtain ⟨rfl, rfl⟩ := Prod.mk.inj h
  exact ⟨pid, tid, thread, currentPidTid_eq_ret.mp hcur, findThread_eq_ret.mp hfind, rfl, rfl⟩

theorem finishThread_sleepers {k k' : Kernel} {kobj : ObjId}
    (h : k.finishThread = .ret (kobj, k')) :
    k'.indices = k.indices ∧ ∃ pid tid self, k.current = some (pid, tid) ∧
      k.sleepers tid = some self ∧
      k'.sleepers = Function.update k.sleepers tid (some (self.inState .done)) := by
  obtain ⟨pid, tid, thread, hcur, hthread, _, rfl⟩ := finishThread_eq_ret h
  refine ⟨indices_setThread _ _, pid, tid, thread.sleeper, hcur,
    by unfold sleepers; rw [hthread]; rfl, ?_⟩
  exact sleepers_setThread hthread rfl

theorem newThread_eq_ret {k k' : Kernel} {pid : ProcessId} {tid : ThreadIndex} {kobj : ObjId}
    (h : k.newThread pid = .ret (tid, kobj, k')) :
    tid = k.nextTid ∧ kobj = k.objects.length ∧
      k' = { k with
        objects := k.objects ++ [some (.thread (ThreadImpl.new tid))]
        nextTid := k.nextTid + 1
        threads := k.threads ++ [CommonThread.new pid tid kobj]
        threadBoxes := k.threadBoxes ++ [(tid, true)] } := by
  unfold newThread at h
  obtain ⟨nextTid, hnext, h⟩ := bind_eq_ret.mp h
  injection h with h
  obtain ⟨htid, h⟩ := Prod.mk.inj h
  obtain ⟨hkobj, hk⟩ := Prod.mk.inj h
  have hadd : nextTid = k.nextTid + 1 := by
    unfold addU32 at hnext
    split at hnext
    · injection hnext with hnext
      exact hnext.symm
    · cases hnext
  subst hadd
  exact ⟨htid.symm, hkobj.symm, by rw [← hk, ← htid, ← hkobj]⟩

/-- A new thread is ready, and has an index of its own. -/
theorem newThread_sleepers {k k' : Kernel} {pid : ProcessId} {tid : ThreadIndex} {kobj : ObjId}
    (h : k.newThread pid = .ret (tid, kobj, k')) (hfresh : k.nextTid ∉ k.indices) :
    tid = k.nextTid ∧ k'.nextTid = k.nextTid + 1 ∧ k'.indices = k.indices ++ [tid] ∧
      k.sleepers tid = none ∧
      k'.sleepers = Function.update k.sleepers tid (some Sleeper.new) := by
  obtain ⟨rfl, rfl, rfl⟩ := newThread_eq_ret h
  have hnone : k.thread? k.nextTid = none := by
    rw [mem_indices] at hfresh
    simpa using hfresh
  refine ⟨rfl, rfl, by simp [indices], by unfold sleepers; rw [hnone]; rfl, ?_⟩
  funext tid
  show (findKey CommonThread.index tid (k.threads ++ [_])).map CommonThread.sleeper = _
  rw [findKey_append, findKey, CommonThread.new_index, findKey]
  by_cases ht : tid = k.nextTid
  · subst ht
    have hnone' : findKey CommonThread.index k.nextTid k.threads = none := hnone
    rw [hnone', Function.update_self, if_pos rfl]
    rfl
  · rw [Function.update_of_ne ht, if_neg (Ne.symm ht), Option.or_none]
    rfl

end Kernel

end Pomelo
