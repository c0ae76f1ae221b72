/-
  The main loop and the threads that it runs.

  The loop starts a thread, the thread makes its calls, the loop stops it and ticks
  (`SvcStep.inLoop`). Between two steps the books of the kernel agree (`Kernel.Scheduled`): a
  thread that runs is the current one, its box is the only one that is out, and the thread that
  is scheduled next is ready. Hence the loop never finds a thread, a process or a box missing,
  starts no thread that is not ready and puts no box back twice (`loop_neverPanics`), and starts
  the thread scheduled next, else the ready one that was made first (`runNext_first`). A thread
  that is ready stays so, with what it was woken to resume with, until it is started
  (`ready_untilStarted`).
-/
import Pomelo.Hle.WakeKeys

namespace Pomelo

open Lib Outcome

/-- What the main loop and the code of the emulator keep to: `run_next` runs when no thread does,
    `run_thread` stops the thread that it started, and a thread is made for a process. -/
def SvcStep.inLoop (k : Kernel) : SvcStep → Bool
  | runNext => k.current.isNone
  | stop index => decide (k.current.map Prod.snd = some index)
  | newThread pid => (k.process? pid).isSome
  | _ => true

namespace Kernel

/-- The books of the kernel. Threads are numbered in the order of their creation; each has a box,
    which is out while it is the current one. -/
structure Scheduled (k : Kernel) : Prop where
  numbered : k.indices = List.range k.nextTid
  boxes : k.threadBoxes = k.indices.map fun t => (t, decide (k.current.map Prod.snd ≠ some t))
  owned : ∀ t thread, k.thread? t = some thread → (k.process? thread.pid).isSome
  present : ∀ pid t, k.current = some (pid, t) →
    ∃ thread, k.thread? t = some thread ∧ thread.pid = pid
  running : ∀ t thread, k.thread? t = some thread → thread.state = .running →
    k.current.map Prod.snd = some t
  next : ∀ t, k.next = some t → ∃ thread, k.thread? t = some thread ∧ thread.state = .ready

/-- The books stay as they are: no thread starts to run, and one that is ready stays ready. -/
structure Undisturbed (k k' : Kernel) : Prop where
  current : k'.current = k.current
  next : k'.next = k.next
  boxes : k'.threadBoxes = k.threadBoxes
  nextTid : k'.nextTid = k.nextTid
  indices : k'.indices = k.indices
  processes : ∀ pid, (k.process? pid).isSome → (k'.process? pid).isSome
  threads : ∀ t thread', k'.thread? t = some thread' → ∃ thread, k.thread? t = some thread ∧
    thread'.pid = thread.pid ∧ (thread'.state = .running → thread.state = .running) ∧
    (thread.state = .ready → thread'.state = .ready)

variable {k k' : Kernel}

theorem isSome_thread?_of_indices (h : k'.indices = k.indices) (t : ThreadIndex) :
    (k'.thread? t).isSome ↔ (k.thread? t).isSome := by
  rw [← mem_indices, ← mem_indices, h]

namespace Undisturbed

/-- A thread that was there is there. -/
theorem thread? (h : Undisturbed k k') {t : ThreadIndex} {thread : CommonThread}
    (ht : k.thread? t = some thread) : ∃ thread', k'.thread? t = some thread' ∧
      thread'.pid = thread.pid ∧ (thread.state = .ready → thread'.state = .ready) := by
  have hsome : (k'.thread? t).isSome := by
    rw [isSome_thread?_of_indices h.indices, ht]
    rfl
  obtain ⟨thread', ht'⟩ := Option.isSome_iff_exists.mp hsome
  obtain ⟨other, hother, hpid, _, hready⟩ := h.threads t thread' ht'
  rw [ht] at hother
  injection hother with hother
  subst hother
  exact ⟨thread', ht', hpid, hready⟩

/-- Nothing but objects and ports change. -/
theorem of_threads (hcurrent : k'.current = k.current) (hnext : k'.next = k.next)
    (hboxes : k'.threadBoxes = k.threadBoxes) (hnextTid : k'.nextTid = k.nextTid)
    (hthreads : k'.threads = k.threads)
    (hprocesses : ∀ pid, (k.process? pid).isSome → (k'.process? pid).isSome) :
    Undisturbed k k' where
  current := hcurrent
  next := hnext
  boxes := hboxes
  nextTid := hnextTid
  indices := by
    show k'.threads.map _ = k.threads.map _
    rw [hthreads]
  processes := hprocesses
  threads t thread' ht' := by
    have ht : k.thread? t = some thread' := by
      unfold Kernel.thread? at ht' ⊢
      rw [← hthreads]
      exact ht'
    exact ⟨thread', ht, rfl, id, id⟩

/-- One thread changes, and does not start to run. -/
theorem setThread {t : ThreadIndex} {old thread : CommonThread} (objects : Objects)
    (h : k.thread? t = some old) (hindex : thread.index = old.index) (hpid : thread.pid = old.pid)
    (hrun : thread.state = .running → old.state = .running)
    (hready : old.state = .ready → thread.state = .ready) :
    Undisturbed k { k.setThread thread with objects := objects } where
  current := rfl
  next := rfl
  boxes := rfl
  nextTid := rfl
  indices := indices_setThread k thread
  processes _ hpid := hpid
  threads t' thread' ht' := by
    have ht' : (k.setThread thread).thread? t' = some thread' := ht'
    rw [thread?_setThread] at ht'
    split at ht'
    · rename_i heq
      obtain ⟨other, hother, rfl⟩ := Option.map_eq_some_iff.mp ht'
      rw [heq, hindex, thread?_index h, h] at hother
      injection hother with hother
      subst hother
      exact ⟨old, by rw [heq, hindex, thread?_index h, h], hpid, hrun, hready⟩
    · exact ⟨thread', ht', rfl, id, id⟩

end Undisturbed

theorem Scheduled.undisturbed (h : k.Scheduled) (hu : Undisturbed k k') : k'.Scheduled where
  numbered := by rw [hu.indices, hu.nextTid, h.numbered]
  boxes := by rw [hu.boxes, hu.indices, hu.current, h.boxes]
  owned t thread' ht' := by
    obtain ⟨thread, ht, hpid, _⟩ := hu.threads t thread' ht'
    rw [hpid]
    exact hu.processes _ (h.owned t thread ht)
  present pid t hcurrent := by
    obtain ⟨thread, ht, hpid⟩ := h.present pid t (hu.current ▸ hcurrent)
    obtain ⟨thread', ht', hpid', _⟩ := hu.thread? ht
    exact ⟨thread', ht', hpid'.trans hpid⟩
  running t thread' ht' hrun := by
    obtain ⟨thread, ht, _, hstate, _⟩ := hu.threads t thread' ht'
    rw [hu.current]
    exact h.running t thread ht (hstate hrun)
  next t hnext := by
    obtain ⟨thread, ht, hready⟩ := h.next t (hu.next ▸ hnext)
    obtain ⟨thread', ht', _, hready'⟩ := hu.thread? ht
    exact ⟨thread', ht', hready' hready⟩

/-! ## Primitives -/

theorem timed_of_expired {thread : CommonThread} {time : UInt64}
    (h : thread.sleeper.expired time = true) : thread.waitTimeout.isSome = true := by
  unfold Sleeper.expired at h
  obtain ⟨timeout, htimeout, _⟩ := (Option.any_eq_true _ _).mp (Bool.and_eq_true_iff.mp h).2
  rw [show thread.waitTimeout = some timeout from htimeout]
  rfl

/-- A tick leaves a thread as it is, or wakes it if it waits with a timeout. -/
theorem findKey_of_tickThreads {time : UInt64} {threads threads' : List CommonThread}
    {objects objects' : Objects} {t : ThreadIndex} {thread' : CommonThread}
    (h : tickThreads time threads objects = .ret (threads', objects'))
    (ht : findKey CommonThread.index t threads' = some thread') :
    ∃ thread, findKey CommonThread.index t threads = some thread ∧
      (thread' = thread ∨ thread.sleeper.expired time = true ∧
        ∃ resume, thread.resumeFor .timeout = .ret resume ∧ thread' = thread.woken resume) := by
  induction threads generalizing threads' objects objects' with
  | nil =>
    cases h
    cases ht
  | cons first threads ih =>
    obtain ⟨⟨first', objects1⟩, hone, h⟩ := bind_eq_ret.mp h
    obtain ⟨⟨threads1, objects2⟩, hrest, h⟩ := bind_eq_ret.mp h
    cases h
    rw [findKey, tickAt_index hone] at ht
    rw [findKey]
    split at ht
    · rename_i hindex
      injection ht with ht
      subst ht
      rw [if_pos hindex]
      refine ⟨first, rfl, ?_⟩
      rcases tickAt_eq_ret hone with ⟨hexpired, resume, hresume, hwoken, _⟩ | ⟨_, hsame, _⟩
      · exact Or.inr ⟨hexpired, resume, hresume, hwoken⟩
      · exact Or.inl hsame
    · rename_i hindex
      rw [if_neg hindex]
      exact ih hrest ht

theorem undisturbed_timeouts {time : UInt64} (h : k.tickThreadsAt time = .ret k') :
    Undisturbed k k' := by
  have hindices := (tickThreadsAt_sleepers h).1
  obtain ⟨⟨threads, objects⟩, htick, h⟩ := bind_eq_ret.mp h
  cases h
  refine ⟨rfl, rfl, rfl, rfl, hindices, fun _ hpid => hpid, fun t thread' ht' => ?_⟩
  obtain ⟨thread, ht, hcase⟩ := findKey_of_tickThreads htick ht'
  refine ⟨thread, ht, ?_⟩
  rcases hcase with rfl | ⟨_, resume, _, rfl⟩
  · exact ⟨rfl, id, id⟩
  · refine ⟨rfl, fun hrun => ?_, fun _ => rfl⟩
    have hrun : ThreadState.ready = .running := hrun
    cases hrun

theorem undisturbed_wake {w : Waker} {o : ObjId} {ok : Bool} (h : w.wake o k = .ret (ok, k')) :
    Undisturbed k k' := by
  obtain ⟨thread, hthread, hcase⟩ := wake_eq_ret h
  rcases hcase with ⟨_, _, resume, _, rfl⟩ | ⟨_, _, rfl⟩
  · exact .setThread _ hthread rfl rfl (fun hrun => by cases hrun) fun _ => rfl
  · exact .of_threads rfl rfl rfl rfl rfl fun _ hpid => hpid

theorem isSome_process?_setProcess (process : CommonProcess) {pid : ProcessId}
    (h : (k.process? pid).isSome) : ((k.setProcess process).process? pid).isSome := by
  rw [process?_setProcess]
  split
  · rw [Option.isSome_map]
    exact h
  · exact h

/-- The thread of a caller runs. -/
theorem state_of_calling {pid : ProcessId} {t : ThreadIndex} {thread : CommonThread}
    (h : k.calling = true) (hcurrent : k.current = some (pid, t))
    (ht : k.thread? t = some thread) : thread.state = .running := by
  unfold calling at h
  rw [hcurrent] at h
  dsimp only at h
  rw [ht, Option.any_some] at h
  exact of_decide_eq_true h

theorem thread?_born {pid : ProcessId} {tid : ThreadIndex} {kobj : ObjId}
    (hfresh : k.nextTid ∉ k.indices) (h : k.newThread pid = .ret (tid, kobj, k')) (t : ThreadIndex) :
    k'.thread? t = if t = tid then some (CommonThread.new pid tid kobj) else k.thread? t := by
  obtain ⟨rfl, rfl, rfl⟩ := newThread_eq_ret h
  rw [mem_indices, Bool.not_eq_true, Option.isSome_eq_false_iff, Option.isNone_iff_eq_none]
    at hfresh
  show findKey CommonThread.index t (k.threads ++ [_]) = _
  rw [findKey_append, findKey, CommonThread.new_index, findKey]
  by_cases ht : t = k.nextTid
  · subst ht
    rw [show findKey CommonThread.index k.nextTid k.threads = none from hfresh, if_pos rfl,
      if_pos rfl]
    rfl
  · rw [if_neg (Ne.symm ht), if_neg ht, Option.or_none]
    rfl

/-- A new thread is ready, and has its box. -/
theorem Scheduled.born {pid : ProcessId} {tid : ThreadIndex} {kobj : ObjId} (h : k.Scheduled)
    (hpid : (k.process? pid).isSome) (hthread : k.newThread pid = .ret (tid, kobj, k')) :
    k'.Scheduled := by
  have hfresh : k.nextTid ∉ k.indices := by
    rw [h.numbered]
    simp
  have hlookup := thread?_born hfresh hthread
  obtain ⟨rfl, rfl, hk⟩ := newThread_eq_ret hthread
  have hcurrent : k'.current = k.current := by rw [hk]
  have hprocess : ∀ pid, k'.process? pid = k.process? pid := fun _ => by
    rw [hk]
    rfl
  have hkeep : ∀ t thread, k.thread? t = some thread → t ≠ k.nextTid := by
    intro t thread ht heq
    refine hfresh (mem_indices.mpr ?_)
    rw [← heq, ht]
    rfl
  have hold : ∀ t thread, k.thread? t = some thread → k'.thread? t = some thread := by
    intro t thread ht
    rw [hlookup, if_neg (hkeep t thread ht), ht]
  have hother : k.current.map Prod.snd ≠ some k.nextTid := by
    intro heq
    obtain ⟨⟨pid', t⟩, hcur, ht⟩ := Option.map_eq_some_iff.mp heq
    obtain ⟨thread, hthread, _⟩ := h.present pid' t hcur
    exact hkeep t thread hthread ht
  have hindices : k'.indices = k.indices ++ [k.nextTid] := by
    rw [hk]
    simp [indices]
  refine ⟨?_, ?_, fun t thread ht => ?_, fun pid' t hcur => ?_, fun t thread ht hrun => ?_,
    fun t hnext => ?_⟩
  · rw [hindices, h.numbered, show k'.nextTid = k.nextTid + 1 by rw [hk], List.range_succ]
  · rw [hindices, hcurrent, List.map_append, ← h.boxes, List.map_singleton,
      show decide (k.current.map Prod.snd ≠ some k.nextTid) = true from decide_eq_true hother, hk]
  · rw [hprocess]
    rw [hlookup] at ht
    split at ht
    · injection ht with ht
      rw [← ht]
      exact hpid
    · exact h.owned t thread ht
  · obtain ⟨thread, ht, hpid'⟩ := h.present pid' t (hcurrent ▸ hcur)
    exact ⟨thread, hold t thread ht, hpid'⟩
  · rw [hcurrent]
    rw [hlookup] at ht
    split at ht
    · injection ht with ht
      rw [← ht] at hrun
      cases hrun
    · exact h.running t thread ht hrun
  · have hnext : k.next = some t := by
      rw [← hnext, hk]
    obtain ⟨thread, ht, hready⟩ := h.next t hnext
    exact ⟨thread, hold t thread ht, hready⟩

/-- **Every primitive keeps the books.** -/
theorem Scheduled.primitive {may : Effects} {c c' : InCall} (h : c.kernel.Scheduled)
    (hp : Primitive may c c') : c'.kernel.Scheduled := by
  cases hp with
  | wake hw hwake => exact h.undisturbed (undisturbed_wake hwake)
  | suspend hs hsleep hsuspend =>
    obtain ⟨_, _, thread, _, hthread, hrun, _, rfl⟩ := suspendThread_eq_ret hsuspend
    refine h.undisturbed (.setThread _ hthread rfl rfl (fun hrun => by cases hrun) fun hready => ?_)
    rw [hrun] at hready
    cases hready
  | message _ data hthread => exact h.undisturbed (.setThread _ hthread rfl rfl id id)
  | finish hs hcalling hfinish =>
    obtain ⟨_, _, thread, hcurrent, hthread, _, rfl⟩ := finishThread_eq_ret hfinish
    refine h.undisturbed (.setThread _ hthread rfl rfl (fun hrun => by cases hrun) fun hready => ?_)
    rw [state_of_calling hcalling hcurrent hthread] at hready
    cases hready
  | timeouts htick => exact h.undisturbed (undisturbed_timeouts htick)
  | born hpid hthread => exact h.born hpid hthread
  | @schedule k held tid thread hthread hready =>
    have hk : k.Scheduled := h
    refine ⟨hk.numbered, hk.boxes, hk.owned, hk.present, hk.running, fun t hnext => ?_⟩
    have hnext : some tid = some t := hnext
    injection hnext with hnext
    exact ⟨thread, hnext ▸ hthread, hready⟩
  | handles process =>
    exact h.undisturbed
      (.of_threads rfl rfl rfl rfl rfl fun _ => isSome_process?_setProcess process)
  | _ => exact h.undisturbed (.of_threads rfl rfl rfl rfl rfl fun _ hpid => hpid)

theorem scheduled_made {may : Effects} {held : List (Waker × ObjId)} (h : k.Scheduled)
    (hmade : Made may held k k') : k'.Scheduled := by
  have hall : ∀ c c' : InCall, Relation.ReflTransGen (Primitive may) c c' →
      c.kernel.Scheduled → c'.kernel.Scheduled := by
    intro c c' hsteps hc
    induction hsteps with
    | refl => exact hc
    | tail _ hp ih => exact ih.primitive hp
  exact hall _ _ hmade h

/-! ## Starting and stopping threads -/

/-- The boxes while `current` is the current thread. -/
theorem Scheduled.modify_boxes (h : k.Scheduled) {t : ThreadIndex} {inside : Bool}
    (current : Option (ProcessId × ThreadIndex))
    (hcase : ∀ t', decide (current.map Prod.snd ≠ some t') =
      if t' = t then inside else decide (k.current.map Prod.snd ≠ some t')) :
    modifyKey Prod.fst t (fun _ => (t, inside)) k.threadBoxes =
      k.indices.map fun t' => (t', decide (current.map Prod.snd ≠ some t')) := by
  have hnodup : k.indices.Nodup := by
    rw [h.numbered]
    exact List.nodup_range
  rw [h.boxes, modifyKey_table inside hnodup]
  exact List.map_congr_left fun t' _ => by rw [hcase t']

theorem takeThreadBox_returns {t : ThreadIndex}
    (h : findKey Prod.fst t k.threadBoxes = some (t, true)) :
    k.takeThreadBox t = .ret
      { k with threadBoxes := modifyKey Prod.fst t (fun _ => (t, false)) k.threadBoxes } := by
  unfold takeThreadBox
  rw [h]
  rfl

theorem replaceThreadBox_returns {t : ThreadIndex}
    (h : findKey Prod.fst t k.threadBoxes = some (t, false)) :
    k.replaceThreadBox t = .ret
      { k with threadBoxes := modifyKey Prod.fst t (fun _ => (t, true)) k.threadBoxes } := by
  unfold replaceThreadBox
  rw [h]
  rfl

/-- A thread that is ready can be started when none runs. -/
theorem Scheduled.startThread (h : k.Scheduled) (hcurrent : k.current = none) {t : ThreadIndex}
    {thread : CommonThread} (ht : k.thread? t = some thread) (hready : thread.state = .ready) :
    ∃ k', k.startThread t = .ret (thread.resume, k') := by
  have hmem : t ∈ k.indices := by
    rw [mem_indices, ht]
    rfl
  have hbox : findKey Prod.fst t k.threadBoxes = some (t, true) := by
    rw [h.boxes, findKey_table hmem, hcurrent]
    rfl
  obtain ⟨process, hprocess⟩ := Option.isSome_iff_exists.mp (h.owned t thread ht)
  have hfind : (k.setThread { thread with state := .running, resume := .normal }).findCommonProcess
      thread.pid = .ret process := findCommonProcess_eq_ret.mpr hprocess
  have hbox : findKey Prod.fst t { k.setThread { thread with
      state := .running
      resume := .normal } with
        current := some (thread.pid, t) }.threadBoxes = some (t, true) := hbox
  exact ⟨_, bind_eq_ret.mpr ⟨thread, findThread_eq_ret.mpr ht,
    bind_eq_ret.mpr ⟨(), assert_eq_ret.mpr (decide_eq_true hready),
      bind_eq_ret.mpr ⟨process, hfind, bind_eq_ret.mpr ⟨_, takeThreadBox_returns hbox, rfl⟩⟩⟩⟩⟩

theorem Scheduled.started (h : k.Scheduled) (hcurrent : k.current = none)
    (hnext : k.next = none) {t : ThreadIndex} {resume : ThreadResume}
    (hstart : k.startThread t = .ret (resume, k')) : k'.Scheduled := by
  obtain ⟨thread, ht, hready, _, rfl⟩ := startThread_eq_ret hstart
  have hindex := thread?_index ht
  have hlookup : ∀ t' other, { k.setThread { thread with state := .running, resume := .normal } with
      current := some (thread.pid, t)
      threadBoxes := modifyKey Prod.fst t (fun _ => (t, false)) k.threadBoxes }.thread? t' =
        some other → (t' = t ∧ other.pid = thread.pid) ∨ k.thread? t' = some other := by
    intro t' other hother
    have hother : (k.setThread { thread with state := .running, resume := .normal }).thread? t' =
        some other := hother
    rw [thread?_setThread] at hother
    split at hother
    · rename_i heq
      obtain ⟨_, _, rfl⟩ := Option.map_eq_some_iff.mp hother
      exact Or.inl ⟨heq.trans hindex, rfl⟩
    · exact Or.inr hother
  have hindices : (k.setThread { thread with state := .running, resume := .normal }).indices =
      k.indices := indices_setThread _ _
  refine ⟨hindices.trans h.numbered, ?_, fun t' other hother => ?_, fun pid t' hcur => ?_,
    fun t' other hother hrun => ?_, fun t' hnext' => ?_⟩
  · refine (h.modify_boxes (some (thread.pid, t)) fun t' => ?_).trans
      (congrArg _ hindices.symm)
    rw [hcurrent]
    by_cases heq : t' = t
    · simp [heq]
    · simp [heq, Ne.symm heq]
  · rcases hlookup t' other hother with ⟨_, hpid⟩ | hother
    · rw [hpid]
      exact h.owned t thread ht
    · exact h.owned t' other hother
  · have hcur : some (thread.pid, t) = some (pid, t') := hcur
    cases hcur
    refine ⟨{ thread with state := .running, resume := .normal }, ?_, rfl⟩
    show (k.setThread _).thread? t = _
    rw [thread?_setThread, if_pos hindex.symm, ht]
    rfl
  · rcases hlookup t' other hother with ⟨heq, _⟩ | hother
    · rw [heq]
      rfl
    · have hcur := h.running t' other hother hrun
      rw [hcurrent] at hcur
      cases hcur
  · have hnext' : k.next = some t' := hnext'
    rw [hnext] at hnext'
    cases hnext'

/-- The thread that is started is found ready. -/
theorem Scheduled.chosen (h : k.Scheduled) {t : ThreadIndex}
    (ht : k.next.or k.nextThread = some t) :
    ∃ thread, k.thread? t = some thread ∧ thread.state = .ready := by
  cases hnext : k.next with
  | some t' =>
    rw [hnext, Option.some_or] at ht
    injection ht with ht
    subst ht
    exact h.next t' hnext
  | none =>
    rw [hnext, Option.none_or] at ht
    obtain ⟨thread, hfind, rfl⟩ := Option.map_eq_some_iff.mp ht
    have hnodup : k.indices.Nodup := by
      rw [h.numbered]
      exact List.nodup_range
    have hready := List.find?_some hfind
    exact ⟨thread, findKey_of_mem hnodup (List.mem_of_find?_eq_some hfind),
      of_decide_eq_true hready⟩

theorem Scheduled.unscheduled (h : k.Scheduled) : { k with next := none }.Scheduled where
  numbered := h.numbered
  boxes := h.boxes
  owned := h.owned
  present := h.present
  running := h.running
  next t hnext := by cases hnext

theorem Scheduled.runNext (h : k.Scheduled) (hcurrent : k.current = none) :
    ∃ started, k.runNext = .ret started := by
  unfold Kernel.runNext
  split
  · rename_i t ht
    obtain ⟨thread, hthread, hready⟩ := h.chosen ht
    obtain ⟨k', hstart⟩ := h.unscheduled.startThread hcurrent hthread hready
    rw [hstart]
    exact ⟨_, rfl⟩
  · exact ⟨_, rfl⟩

theorem Scheduled.of_runNext (h : k.Scheduled) (hcurrent : k.current = none)
    {started : Option (ThreadIndex × ThreadResume)} (hrun : k.runNext = .ret (started, k')) :
    k'.Scheduled := by
  unfold Kernel.runNext at hrun
  split at hrun
  · obtain ⟨⟨resume, k1⟩, hstart, hrun⟩ := bind_eq_ret.mp hrun
    cases hrun
    exact h.unscheduled.started hcurrent rfl hstart
  · cases hrun
    exact h

/-- The current thread can be stopped. -/
theorem Scheduled.stopThread (h : k.Scheduled) {pid : ProcessId} {t : ThreadIndex}
    (hcurrent : k.current = some (pid, t)) : ∃ k', k.stopThread t = .ret k' := by
  obtain ⟨thread, ht, _⟩ := h.present pid t hcurrent
  have hmem : t ∈ k.indices := by
    rw [mem_indices, ht]
    rfl
  have hbox : findKey Prod.fst t k.threadBoxes = some (t, false) := by
    rw [h.boxes, findKey_table hmem, hcurrent]
    simp
  obtain ⟨process, hprocess⟩ := Option.isSome_iff_exists.mp (h.owned t thread ht)
  have hprocess : k.process? (if thread.state = .running then { thread with state := .ready }
      else thread).pid = some process := by
    rw [← hprocess]
    split <;> rfl
  exact ⟨_, bind_eq_ret.mpr ⟨_, replaceThreadBox_returns hbox,
    bind_eq_ret.mpr ⟨(pid, t), expect_eq_ret.mpr hcurrent,
      bind_eq_ret.mpr ⟨thread, findThread_eq_ret.mpr ht,
        bind_eq_ret.mpr ⟨process, findCommonProcess_eq_ret.mpr hprocess, rfl⟩⟩⟩⟩⟩

theorem Scheduled.stopped (h : k.Scheduled) {pid : ProcessId} {t : ThreadIndex}
    (hcurrent : k.current = some (pid, t)) (hstop : k.stopThread t = .ret k') : k'.Scheduled := by
  obtain ⟨pid', t', thread, hcurrent', ht, rfl⟩ := stopThread_eq_ret hstop
  rw [hcurrent] at hcurrent'
  cases hcurrent'
  -- the thread is put back, and then it is current no more
  have hback : Undisturbed k (k.setThread (if thread.state = .running
      then { thread with state := .ready } else thread)) := by
    refine .setThread k.objects ht ?_ ?_ ?_ ?_
    · split <;> rfl
    · split <;> rfl
    · split <;> exact fun hrun => by first | exact hrun | cases hrun
    · split <;> exact fun hready => by first | exact hready | rfl
  have hk := h.undisturbed hback
  have hother : ∀ t' other, (k.setThread (if thread.state = .running
      then { thread with state := .ready } else thread)).thread? t' = some other →
      other.state ≠ .running := by
    intro t' other hother hrun
    have hcur : k.current.map Prod.snd = some t' := hk.running t' other hother hrun
    rw [hcurrent] at hcur
    cases hcur
    rw [thread?_setThread, if_pos, ht] at hother
    · injection hother with hother
      rw [← hother] at hrun
      split at hrun
      · cases hrun
      · exact absurd hrun ‹_›
    · split <;> exact (thread?_index ht).symm
  refine ⟨hk.numbered, ?_, hk.owned, fun _ _ hcur => (by cases hcur),
    fun t' other hfound hrun => absurd hrun (hother t' other hfound), hk.next⟩
  refine hk.modify_boxes none fun t' => ?_
  show _ = if t' = t then true else decide (k.current.map Prod.snd ≠ some t')
  rw [hcurrent]
  by_cases heq : t' = t
  · simp [heq]
  · simp [heq, Ne.symm heq]

/-! ## Runs -/

variable {rng : Nat → UInt32} {l : SvcStep}

theorem scheduled_new : Kernel.new.Scheduled where
  numbered := rfl
  boxes := rfl
  owned t thread ht := by cases ht
  present pid t hcurrent := by cases hcurrent
  running t thread ht := by cases ht
  next t hnext := by cases hnext

/-- **Every step keeps the books**, as long as the main loop runs the threads. -/
theorem scheduled_of_step (h : k.Scheduled) (ht : k.view.Tidy) (hloop : l.inLoop k = true)
    (hstep : (svcSystem rng).step k l k') : k'.Scheduled := by
  obtain ⟨henabled, fuel, hexec⟩ := hstep
  cases l with
  | call c =>
    have hmade : Made .any [] k k' := svcCall_made (fun _ => trivial) (fun _ => trivial) ht
      henabled hexec
    exact scheduled_made h hmade
  | tick time interrupts =>
    have hmade : Made .any [] k k' := tick_made hexec
    exact scheduled_made h hmade
  | runNext =>
    obtain ⟨started, hexec⟩ := liftCall_eq_ret.mp hexec
    exact h.of_runNext (Option.isNone_iff_eq_none.mp hloop) hexec
  | stop index =>
    obtain ⟨⟨pid, t⟩, hcurrent, hindex⟩ := Option.map_eq_some_iff.mp (of_decide_eq_true hloop)
    cases hindex
    exact h.stopped hcurrent (mapPanic_eq_ret.mp hexec)
  | newProcess process =>
    obtain ⟨pid, hexec⟩ := liftCall_eq_ret.mp hexec
    obtain ⟨nextPid, _, hexec⟩ := bind_eq_ret.mp hexec
    cases hexec
    refine h.undisturbed (.of_threads rfl rfl rfl rfl rfl fun pid hpid => ?_)
    show (findKey CommonProcess.pid pid (k.processes ++ _)).isSome
    obtain ⟨found, hfound⟩ := Option.isSome_iff_exists.mp hpid
    rw [findKey_append, show findKey CommonProcess.pid pid k.processes = some found from hfound]
    rfl
  | newThread pid =>
    obtain ⟨⟨tid, kobj, k1⟩, hnew, hexec⟩ := bind_eq_ret.mp hexec
    cases hexec
    exact h.born hloop (mapPanic_eq_ret.mp hnew)
  | drop o =>
    cases hexec
    exact h.undisturbed (.of_threads rfl rfl rfl rfl rfl fun _ hpid => hpid)

theorem scheduled_of_run {tr : List (Kernel × SvcStep)} (h : Run (svcSystem rng) tr k)
    (hloop : EveryStep (fun k l => l.inLoop k = true) tr) : k.Scheduled ∧ k.view.Tidy := by
  refine h.invariant_of (I := fun k => k.Scheduled ∧ k.view.Tidy) ?_ ?_ hloop
  · intro k hk
    rw [hk]
    exact ⟨scheduled_new, View.tidy_new⟩
  · intro k l k' hk hloop hstep
    exact ⟨scheduled_of_step hk.1 hk.2 hloop hstep, tidy_of_step hk.2 hstep⟩

end Kernel

/-- **The main loop never panics over its own books.** In every state of a run in which the loop
    runs the threads: when no thread is current, `run_next` starts one or finds none, and when one
    is, `run_thread` can put it back, whatever its code has done. -/
theorem loop_neverPanics {rng : Nat → UInt32} {tr : List (Kernel × SvcStep)} {k : Kernel}
    (h : Run (svcSystem rng) tr k) (hloop : EveryStep (fun k l => l.inLoop k = true) tr) :
    (k.current = none → ∃ started, k.runNext = .ret started) ∧
      ∀ pid t, k.current = some (pid, t) → ∃ k', k.stopThread t = .ret k' := by
  obtain ⟨hscheduled, _⟩ := Kernel.scheduled_of_run h hloop
  exact ⟨hscheduled.runNext, fun _ _ hcurrent => hscheduled.stopThread hcurrent⟩

/-- A step by execution, of those that the main loop makes. -/
def loopStep? (rng : Nat → UInt32) (fuel : Nat) (k : Kernel) (l : SvcStep) : Option Kernel :=
  if l.inLoop k then svcStep? rng fuel k l else none

theorem step_of_loopStep? {rng : Nat → UInt32} {fuel : Nat} {k k' : Kernel} {l : SvcStep}
    (h : loopStep? rng fuel k l = some k') :
    (svcSystem rng).step k l k' ∧ l.inLoop k = true := by
  unfold loopStep? at h
  split at h
  · rename_i hloop
    exact ⟨step_of_svcStep? h, hloop⟩
  · cases h

/-- The thread that runs has made another thread, which is to run next. -/
theorem loop_neverPanics_sample : ∃ (tr : List (Kernel × SvcStep)) (k : Kernel),
    Run (svcSystem UInt32.ofNat) tr k ∧ k.current = some (0, 0) ∧ k.next = some 1 ∧
      ∃ k', k.stopThread 0 = .ret k' := by
  have hrun : (runAll (loopStep? UInt32.ofNat 4) Kernel.new [.newProcess .context,
      .newThread 0, .runNext, .call .createThread]).map (fun k => (k.current, k.next)) =
      some (some (0, 0), some 1) := by
    decide +kernel
  obtain ⟨k, hk, hview⟩ := Option.map_eq_some_iff.mp hrun
  obtain ⟨hcurrent, hnext⟩ := Prod.mk.inj hview
  obtain ⟨tr, htr, hc⟩ := Run.every_of_runAll (fun _ _ _ hst => step_of_loopStep? hst)
    (.start (M := svcSystem UInt32.ofNat) rfl) (everyStep_nil _) hk
  exact ⟨tr, k, htr, hcurrent, hnext, (loop_neverPanics htr hc).2 0 0 hcurrent⟩

/-- **One thread runs at a time.** In every state of a run in which the loop runs the threads, a
    thread that runs is the current one, the boxes of all others and no other box are in the
    kernel, the current thread and its process are found, and the thread that is scheduled next
    is ready. -/
theorem running_isCurrent {rng : Nat → UInt32} {tr : List (Kernel × SvcStep)} {k : Kernel}
    (h : Run (svcSystem rng) tr k) (hloop : EveryStep (fun k l => l.inLoop k = true) tr) :
    (∀ t thread, k.thread? t = some thread → thread.state = .running →
      k.current = some (thread.pid, t)) ∧
    k.threadBoxes = (List.range k.nextTid).map (fun t =>
      (t, decide (k.current.map Prod.snd ≠ some t))) ∧
    (∀ pid t, k.current = some (pid, t) → (∃ thread, k.findThread t = .ret thread) ∧
      ∃ process, k.currentProcess = .ret process) ∧
    ∀ t, k.next = some t → ∃ thread, k.thread? t = some thread ∧ thread.state = .ready := by
  obtain ⟨hscheduled, _⟩ := Kernel.scheduled_of_run h hloop
  refine ⟨fun t thread ht hrun => ?_, ?_, fun pid t hcurrent => ?_, hscheduled.next⟩
  · have hcur := hscheduled.running t thread ht hrun
    obtain ⟨⟨pid, t'⟩, hcurrent, ht'⟩ := Option.map_eq_some_iff.mp hcur
    have ht' : t' = t := ht'
    subst ht'
    obtain ⟨other, hother, hpid⟩ := hscheduled.present pid t' hcurrent
    rw [ht] at hother
    cases hother
    rw [hcurrent, hpid]
  · rw [hscheduled.boxes, hscheduled.numbered]
  · obtain ⟨thread, ht, rfl⟩ := hscheduled.present pid t hcurrent
    obtain ⟨process, hprocess⟩ := Option.isSome_iff_exists.mp (hscheduled.owned t thread ht)
    refine ⟨⟨thread, Kernel.findThread_eq_ret.mpr ht⟩, process, ?_⟩
    exact bind_eq_ret.mpr
      ⟨_, expect_eq_ret.mpr hcurrent, Kernel.findCommonProcess_eq_ret.mpr hprocess⟩

/-- The thread that runs has made another, whose box is in the kernel; its own is out. -/
theorem running_isCurrent_sample : ∃ (tr : List (Kernel × SvcStep)) (k : Kernel),
    Run (svcSystem UInt32.ofNat) tr k ∧ k.threadBoxes = [(0, false), (1, true)] ∧
      ∃ thread, k.thread? 1 = some thread ∧ thread.state = .ready := by
  have hrun : (runAll (loopStep? UInt32.ofNat 4) Kernel.new [.newProcess .context,
      .newThread 0, .runNext, .call .createThread]).map (fun k => (k.nextTid, k.current, k.next)) =
      some (2, some (0, 0), some 1) := by
    decide +kernel
  obtain ⟨k, hk, hview⟩ := Option.map_eq_some_iff.mp hrun
  obtain ⟨hnextTid, hview⟩ := Prod.mk.inj hview
  obtain ⟨hcurrent, hnext⟩ := Prod.mk.inj hview
  obtain ⟨tr, htr, hc⟩ := Run.every_of_runAll (fun _ _ _ hst => step_of_loopStep? hst)
    (.start (M := svcSystem UInt32.ofNat) rfl) (everyStep_nil _) hk
  obtain ⟨_, hboxes, _, hready⟩ := running_isCurrent htr hc
  refine ⟨tr, k, htr, ?_, hready 1 hnext⟩
  rw [hboxes, hnextTid, hcurrent]
  rfl

/-! ## Which thread is started -/

namespace Kernel

theorem Scheduled.nodup {k : Kernel} (h : k.Scheduled) : k.indices.Nodup := by
  rw [h.numbered]
  exact List.nodup_range

/-- The threads are in the order of their indices. -/
theorem Scheduled.sorted {k : Kernel} (h : k.Scheduled) :
    k.threads.Pairwise fun a b => a.index < b.index := by
  have hsorted : k.indices.Pairwise (· < ·) := by
    rw [h.numbered]
    exact List.pairwise_lt_range
  exact List.pairwise_map.mp hsorted

/-- The first thread that is ready is the one of those ready that was made first. -/
theorem Scheduled.nextThread_first {k : Kernel} (h : k.Scheduled) {t : ThreadIndex}
    (hnext : k.nextThread = some t) {t' : ThreadIndex} {thread' : CommonThread}
    (ht' : k.thread? t' = some thread') (hready : thread'.state = .ready) : t ≤ t' := by
  obtain ⟨thread, hfind, rfl⟩ := Option.map_eq_some_iff.mp hnext
  obtain ⟨_, before, behind, hsplit, hbefore⟩ := List.find?_eq_some_iff_append.mp hfind
  have hmem := mem_of_findKey ht'
  rw [hsplit] at hmem
  rcases List.mem_append.mp hmem with hmem | hmem
  · have hnot := hbefore thread' hmem
    simp [hready] at hnot
  · rw [← thread?_index ht']
    rcases List.mem_cons.mp hmem with rfl | hmem
    · exact Nat.le_refl _
    · have hsorted := h.sorted
      rw [hsplit, List.pairwise_append, List.pairwise_cons] at hsorted
      exact Nat.le_of_lt (hsorted.2.1.1 thread' hmem)

theorem Scheduled.nextThread_none {k : Kernel} (h : k.Scheduled) :
    k.nextThread = none ↔ ∀ t thread, k.thread? t = some thread → thread.state ≠ .ready := by
  unfold nextThread
  rw [Option.map_eq_none_iff, List.find?_eq_none]
  constructor
  · intro hnone t thread ht hready
    exact hnone thread (mem_of_findKey ht) (decide_eq_true hready)
  · intro hnone thread hmem hready
    exact hnone thread.index thread (findKey_of_mem h.nodup hmem) (of_decide_eq_true hready)

end Kernel

/-- **Which thread is started.** In every state of a run in which the loop runs the threads, when
    no thread is current, `run_next` starts the thread that is scheduled next, else, of the
    threads that are ready, the one that was made first; it starts none exactly when no thread is
    ready. The thread resumes with what it was left with. -/
theorem runNext_first {rng : Nat → UInt32} {tr : List (Kernel × SvcStep)} {k : Kernel}
    (h : Run (svcSystem rng) tr k) (hloop : EveryStep (fun k l => l.inLoop k = true) tr)
    (hcurrent : k.current = none) : ∃ started k', k.runNext = .ret (started, k') ∧
      (started = none ↔ ∀ t thread, k.thread? t = some thread → thread.state ≠ .ready) ∧
      ∀ t resume, started = some (t, resume) →
        k'.current.map Prod.snd = some t ∧ k'.next = none ∧
        (∃ thread, k.thread? t = some thread ∧ thread.state = .ready ∧ resume = thread.resume) ∧
        (k.next = some t ∨ k.next = none ∧ ∀ t' thread', k.thread? t' = some thread' →
          thread'.state = .ready → t ≤ t') := by
  obtain ⟨hscheduled, _⟩ := Kernel.scheduled_of_run h hloop
  obtain ⟨⟨started, k'⟩, hrun⟩ := hscheduled.runNext hcurrent
  refine ⟨started, k', hrun, ?_⟩
  unfold Kernel.runNext at hrun
  split at hrun
  · rename_i index hindex
    obtain ⟨⟨resume, k1⟩, hstart, hrun⟩ := bind_eq_ret.mp hrun
    cases hrun
    obtain ⟨thread, hthread, hready, hresume, rfl⟩ := Kernel.startThread_eq_ret hstart
    have hthread : k.thread? index = some thread := hthread
    refine ⟨⟨fun hnone => (by cases hnone),
      fun hnone => absurd hready (hnone index thread hthread)⟩, fun t resume' hsome => ?_⟩
    cases hsome
    refine ⟨rfl, rfl, ⟨thread, hthread, hready, hresume⟩, ?_⟩
    cases hnext : k.next with
    | some t' =>
      rw [hnext, Option.some_or] at hindex
      exact Or.inl hindex
    | none =>
      rw [hnext, Option.none_or] at hindex
      exact Or.inr ⟨rfl, fun t' thread' => hscheduled.nextThread_first hindex⟩
  · rename_i hnone
    cases hrun
    obtain ⟨_, hnextThread⟩ := Option.or_eq_none_iff.mp hnone
    exact ⟨⟨fun _ => hscheduled.nextThread_none.mp hnextThread, fun _ => rfl⟩,
      fun t resume hsome => by cases hsome⟩

/-- The thread scheduled next goes before the first. -/
theorem runNext_first_scheduled : ∃ (tr : List (Kernel × SvcStep)) (k k' : Kernel),
    Run (svcSystem UInt32.ofNat) tr k ∧ k.runNext = .ret (some (1, .normal), k') ∧
      k'.current.map Prod.snd = some 1 := by
  have hrun : (runAll (loopStep? UInt32.ofNat 4) Kernel.new [.newProcess .context, .newThread 0,
      .runNext, .call .createThread, .stop 0]).map (fun k =>
        (k.current, k.runNext.value?.map Prod.fst)) =
      some (none, some (some (1, .normal))) := by
    decide +kernel
  obtain ⟨k, hk, hview⟩ := Option.map_eq_some_iff.mp hrun
  obtain ⟨hcurrent, hstarted⟩ := Prod.mk.inj hview
  obtain ⟨⟨started, k'⟩, hnext, rfl⟩ := Option.map_eq_some_iff.mp hstarted
  have hnext := value?_eq_some.mp hnext
  obtain ⟨tr, htr, hc⟩ := Run.every_of_runAll (fun _ _ _ hst => step_of_loopStep? hst)
    (.start (M := svcSystem UInt32.ofNat) rfl) (everyStep_nil _) hk
  obtain ⟨started, k1, hrun1, _, hfirst⟩ := runNext_first htr hc hcurrent
  rw [hnext] at hrun1
  cases hrun1
  exact ⟨tr, k, k', htr, hnext, (hfirst 1 .normal rfl).1⟩

/-! ## Threads that do not run -/

/-- The thread is there, and has the property. -/
def Kernel.ThreadIs (k : Kernel) (t : ThreadIndex) (P : CommonThread → Prop) : Prop :=
  ∃ thread, k.thread? t = some thread ∧ P thread

/-- A property of threads that do not run. A thread that waits has it also when it is woken. -/
structure Resting (P : CommonThread → Prop) : Prop where
  still : ∀ {thread}, P thread → thread.state ≠ .running
  message : ∀ {thread} data, P thread → P { thread with ipcData := data }
  woken : ∀ {thread reason resume}, P thread → thread.state = .waiting →
    (reason = .timeout → thread.waitTimeout.isSome) → thread.resumeFor reason = .ret resume →
    P (thread.woken resume)

/-- The step starts the thread. -/
def SvcStep.starts (k : Kernel) (t : ThreadIndex) : SvcStep → Bool
  | runNext => decide (k.next.or k.nextThread = some t)
  | _ => false

namespace Kernel

variable {k k' : Kernel} {t : ThreadIndex} {P : CommonThread → Prop}

theorem ThreadIs.of_threads (h : k.ThreadIs t P) (hthreads : k'.threads = k.threads) :
    k'.ThreadIs t P := by
  obtain ⟨thread, ht, hP⟩ := h
  refine ⟨thread, ?_, hP⟩
  unfold Kernel.thread? at ht ⊢
  rw [hthreads]
  exact ht

/-- A thread changes, and has the property if it had it before. -/
theorem ThreadIs.setThread {t' : ThreadIndex} {old : CommonThread} (h : k.ThreadIs t P)
    (thread : CommonThread) (hold : k.thread? t' = some old) (hindex : thread.index = old.index)
    (hkeep : P old → P thread) : (k.setThread thread).ThreadIs t P := by
  obtain ⟨other, hother, hP⟩ := h
  by_cases heq : t = t'
  · subst heq
    rw [hold] at hother
    cases hother
    refine ⟨thread, ?_, hkeep hP⟩
    rw [thread?_setThread, hindex, thread?_index hold, if_pos rfl, hold]
    rfl
  · refine ⟨other, ?_, hP⟩
    rw [thread?_setThread, hindex, thread?_index hold, if_neg heq]
    exact hother

/-- **A thread that does not run is changed by nothing but its wake-up**: wakes and timeouts are
    for threads that wait. -/
theorem ThreadIs.primitive {may : Effects} {c c' : InCall} (h : c.kernel.ThreadIs t P)
    (hrest : Resting P) (hs : c.Sound) (htidy : c.kernel.view.Tidy)
    (hp : Primitive may c c') : c'.kernel.ThreadIs t P := by
  cases hp with
  | wake hw hwake =>
    obtain ⟨self, hself, _, hcur⟩ := hs.held _ hw
    obtain ⟨thread, hthread, hcase⟩ := wake_eq_ret hwake
    rcases hcase with ⟨_, hkey, resume, hresume, rfl⟩ | ⟨_, _, rfl⟩
    · have hwaiting : thread.state = .waiting := by
        obtain ⟨other, hother, rfl⟩ := Option.map_eq_some_iff.mp hself
        have hother := hthread.symm.trans hother
        cases hother
        exact (hcur hkey.symm).1
      have hset := h.setThread (thread.woken resume) hthread rfl fun hP =>
        hrest.woken hP hwaiting (fun htimeout => by cases htimeout) hresume
      exact hset.of_threads rfl
    · exact h
  | suspend _ _ hsuspend =>
    obtain ⟨_, _, thread, _, hthread, hrun, _, rfl⟩ := suspendThread_eq_ret hsuspend
    exact h.setThread _ hthread rfl fun hP => absurd hrun (hrest.still hP)
  | message _ data hthread => exact h.setThread _ hthread rfl (hrest.message data)
  | finish _ hcalling hfinish =>
    obtain ⟨_, _, thread, hcurrent, hthread, _, rfl⟩ := finishThread_eq_ret hfinish
    have hrun := state_of_calling hcalling hcurrent hthread
    exact h.setThread _ hthread rfl fun hP => absurd hrun (hrest.still hP)
  | timeouts htick =>
    obtain ⟨thread, ht, hP⟩ := h
    obtain ⟨thread', ht', _⟩ := (undisturbed_timeouts htick).thread? ht
    obtain ⟨⟨threads, objects⟩, hticks, htick⟩ := bind_eq_ret.mp htick
    cases htick
    obtain ⟨other, hother, hcase⟩ := findKey_of_tickThreads hticks ht'
    have hother := ht.symm.trans hother
    cases hother
    rcases hcase with rfl | ⟨hexpired, resume, hresume, rfl⟩
    · exact ⟨thread', ht', hP⟩
    · exact ⟨_, ht', hrest.woken hP (Sleeper.waiting_of_expired hexpired)
        (fun _ => timed_of_expired hexpired) hresume⟩
  | @born k k' held pid tid kobj hpid hthread =>
    have hk : k.view.Tidy := htidy
    have hfresh : k.nextTid ∉ k.indices := fun hmem => Nat.lt_irrefl _ (hk.below _ hmem)
    obtain ⟨thread, ht, hP⟩ := h
    have ht : k.thread? t = some thread := ht
    refine ⟨thread, ?_, hP⟩
    have hne : t ≠ tid := fun heq => by
      obtain ⟨rfl, _⟩ := newThread_eq_ret hthread
      refine hfresh (mem_indices.mpr ?_)
      rw [← heq, ht]
      rfl
    show k'.thread? t = some thread
    rw [thread?_born hfresh hthread, if_neg hne]
    exact ht
  | _ => exact h.of_threads rfl

theorem threadIs_made {may : Effects} {held : List (Waker × ObjId)} (h : k.ThreadIs t P)
    (hrest : Resting P) (hs : InCall.Sound ⟨k, held⟩) (htidy : k.view.Tidy)
    (hmade : Made may held k k') : k'.ThreadIs t P := by
  have hall : ∀ c c' : InCall, Relation.ReflTransGen (Primitive may) c c' →
      c.Sound ∧ c.kernel.view.Tidy ∧ c.kernel.ThreadIs t P →
      c'.Sound ∧ c'.kernel.view.Tidy ∧ c'.kernel.ThreadIs t P := by
    intro c c' hsteps hc
    induction hsteps with
    | refl => exact hc
    | tail _ hp ih =>
      obtain ⟨hs, ht, hr⟩ := ih
      exact ⟨hs.primitive ht hp, InCall.tidy_primitive ht hp, hr.primitive hrest hs ht hp⟩
  exact (hall _ _ hmade ⟨hs, htidy, h⟩).2.2

theorem threadIs_of_step {rng : Nat → UInt32} {l : SvcStep} (h : k.ThreadIs t P)
    (hrest : Resting P) (hk : k.Keyed) (htidy : k.view.Tidy) (hleft : k.KeysLeft)
    (hnot : l.starts k t = false) (hstep : (svcSystem rng).step k l k') : k'.ThreadIs t P := by
  obtain ⟨henabled, fuel, hexec⟩ := hstep
  have hsound := InCall.sound_of_keyed hk hleft
  cases l with
  | call c =>
    have hmade : Made .any [] k k' := svcCall_made (fun _ => trivial) (fun _ => trivial) htidy
      henabled hexec
    exact threadIs_made h hrest hsound htidy hmade
  | tick time interrupts =>
    have hmade : Made .any [] k k' := tick_made hexec
    exact threadIs_made h hrest hsound htidy hmade
  | runNext =>
    obtain ⟨started, hexec⟩ := liftCall_eq_ret.mp hexec
    unfold Kernel.runNext at hexec
    split at hexec
    · rename_i index hindex
      obtain ⟨⟨resume', k1⟩, hstart, hexec⟩ := bind_eq_ret.mp hexec
      cases hexec
      obtain ⟨thread, hthread, hready, _, rfl⟩ := startThread_eq_ret hstart
      have hne : t ≠ thread.index := fun heq =>
        of_decide_eq_false hnot ((heq.trans (thread?_index hthread)) ▸ hindex)
      obtain ⟨other, hother, hP⟩ := h
      refine ⟨other, ?_, hP⟩
      show ({ k with next := none }.setThread _).thread? t = some other
      rw [thread?_setThread, if_neg hne]
      exact hother
    · cases hexec
      exact h
  | stop index =>
    obtain ⟨_, _, thread, _, hthread, rfl⟩ := stopThread_eq_ret (mapPanic_eq_ret.mp hexec)
    have hset := h.setThread (if thread.state = .running
      then { thread with state := .ready } else thread) hthread (by split <;> rfl) fun hP => by
        rw [if_neg (hrest.still hP)]
        exact hP
    exact hset.of_threads rfl
  | newProcess process =>
    obtain ⟨pid, hexec⟩ := liftCall_eq_ret.mp hexec
    obtain ⟨nextPid, _, hexec⟩ := bind_eq_ret.mp hexec
    cases hexec
    exact h
  | newThread pid =>
    obtain ⟨⟨tid, kobj, k1⟩, hnew, hexec⟩ := bind_eq_ret.mp hexec
    cases hexec
    obtain ⟨thread, ht, hP⟩ := h
    obtain ⟨rfl, rfl, rfl⟩ := newThread_eq_ret (mapPanic_eq_ret.mp hnew)
    refine ⟨thread, ?_, hP⟩
    show findKey CommonThread.index t (k.threads ++ _) = some thread
    rw [findKey_append, show findKey CommonThread.index t k.threads = some thread from ht]
    rfl
  | drop o =>
    cases hexec
    exact h

end Kernel

/-! ## Threads that are ready -/

/-- The thread is ready, to resume with `resume`. -/
def CommonThread.Rests (resume : ThreadResume) (self : CommonThread) : Prop :=
  self.state = .ready ∧ self.resume = resume

theorem resting_rests (resume : ThreadResume) : Resting (CommonThread.Rests resume) where
  still h hrun := by
    rw [h.1] at hrun
    cases hrun
  message _ h := h
  woken h hwaiting := by
    rw [h.1] at hwaiting
    cases hwaiting

/-- **A wake-up is neither lost nor changed.** A thread that is ready at some point of a run stays
    ready, with what it is to resume with, through every step that does not start it, as long as
    no thread's key is the last there is; and when it is started, it resumes with just that. -/
theorem ready_untilStarted {rng : Nat → UInt32} {tr tr' : List (Kernel × SvcStep)} {k k' : Kernel}
    {t : ThreadIndex} {thread : CommonThread} (h : Run (svcSystem rng) tr k)
    (hleft : EveryStep (fun k _ => k.KeysLeft) tr) (hpath : Path (svcSystem rng) k tr' k')
    (hwait : EveryStep (fun k l => k.KeysLeft ∧ l.starts k t = false) tr')
    (ht : k.thread? t = some thread) (hready : thread.state = .ready) :
    (∃ thread', k'.thread? t = some thread' ∧ thread'.state = .ready ∧
      thread'.resume = thread.resume) ∧
    ∀ started k'', k'.next.or k'.nextThread = some t → k'.runNext = .ret (started, k'') →
      started = some (t, thread.resume) := by
  obtain ⟨hkeyed, htidy⟩ := Kernel.keyed_of_run h hleft
  have hkept := hpath.keeps (I := fun k => k.Keyed ∧ k.view.Tidy)
    (P := fun k => k.ThreadIs t (CommonThread.Rests thread.resume))
    (fun k l k' hi hc hstep hp =>
      Kernel.threadIs_of_step hp (resting_rests _) hi.1 hi.2 hc.1 hc.2 hstep)
    (fun k l k' hi hc hstep =>
      ⟨Kernel.keyed_of_step hi.1 hi.2 hc.1 hstep, tidy_of_step hi.2 hstep⟩)
    hwait ⟨hkeyed, htidy⟩ ⟨thread, ht, hready, rfl⟩
  obtain ⟨thread', ht', hready', hresume'⟩ := hkept.2
  refine ⟨⟨thread', ht', hready', hresume'⟩, fun started k'' hindex hrun => ?_⟩
  unfold Kernel.runNext at hrun
  rw [hindex] at hrun
  obtain ⟨⟨resume, k1⟩, hstart, hrun⟩ := bind_eq_ret.mp hrun
  cases hrun
  obtain ⟨other, hother, _, rfl, _⟩ := Kernel.startThread_eq_ret hstart
  have hother : k'.thread? t = some other := hother
  rw [ht'] at hother
  cases hother
  rw [hresume']

/-- A step by execution that leaves the thread alone, as long as there are keys left. -/
def waitStep? (rng : Nat → UInt32) (fuel : Nat) (t : ThreadIndex) (k : Kernel) (l : SvcStep) :
    Option Kernel :=
  if l.starts k t then none else keyedStep? rng fuel k l

theorem step_of_waitStep? {rng : Nat → UInt32} {fuel : Nat} {t : ThreadIndex} {k k' : Kernel}
    {l : SvcStep} (h : waitStep? rng fuel t k l = some k') :
    (svcSystem rng).step k l k' ∧ k.KeysLeft ∧ l.starts k t = false := by
  unfold waitStep? at h
  split at h
  · cases h
  · rename_i hstarts
    obtain ⟨hstep, hleft⟩ := step_of_keyedStep? h
    exact ⟨hstep, hleft, Bool.eq_false_iff.mpr hstarts⟩

/-- A thread is woken by the second event that it waits on. Two ticks and a signal of the first
    event later it resumes with the index of the second. -/
theorem ready_untilStarted_event : ∃ (tr tr' : List (Kernel × SvcStep)) (k k' : Kernel),
    Run (svcSystem UInt32.ofNat) tr k ∧ Path (svcSystem UInt32.ofNat) k tr' k' ∧
      ∃ started k'', k'.runNext = .ret (started, k'') ∧ started = some (0, .waitSyncN 1) := by
  have hrun : (runAll (keyedStep? UInt32.ofNat 4) Kernel.new [.newProcess .hle, .newThread 0,
      .newThread 0, .runNext, .call (.createEvent .oneShot), .call (.createEvent .oneShot),
      .call (.waitSyncN 0 [Handle.fromRaw 1, Handle.fromRaw 2] false (-1)), .stop 0, .runNext,
      .call (.signalEvent (Handle.fromRaw 2))]).bind (fun k =>
        (runAll (waitStep? UInt32.ofNat 4 0) k [.tick 5 [],
          .call (.signalEvent (Handle.fromRaw 1)), .stop 1, .tick 6 []]).map fun k' =>
        ((k.thread? 0).map fun thread => (thread.state, thread.resume),
          k'.next.or k'.nextThread, (k'.runNext.value?).isSome)) =
      some (some (.ready, .waitSyncN 1), some 0, true) := by
    decide +kernel
  obtain ⟨k, hk, hrun⟩ := Option.bind_eq_some_iff.mp hrun
  obtain ⟨k', hk', hview⟩ := Option.map_eq_some_iff.mp hrun
  obtain ⟨hthread, hview⟩ := Prod.mk.inj hview
  obtain ⟨hindex, hsome⟩ := Prod.mk.inj hview
  obtain ⟨thread, ht, hstate⟩ := Option.map_eq_some_iff.mp hthread
  obtain ⟨hready, hresume⟩ := Prod.mk.inj hstate
  obtain ⟨⟨started, k''⟩, hnext⟩ := Option.isSome_iff_exists.mp hsome
  have hnext := value?_eq_some.mp hnext
  obtain ⟨tr, htr, hc⟩ := Run.every_of_runAll (fun _ _ _ hst => step_of_keyedStep? hst)
    (.start (M := svcSystem UInt32.ofNat) rfl) (everyStep_nil _) hk
  obtain ⟨tr', hpath, hc'⟩ := Path.every_of_runAll (fun _ _ _ hst => step_of_waitStep? hst)
    .refl (everyStep_nil _) hk'
  have hstarted := (ready_untilStarted htr hc hpath hc' ht hready).2 started k'' hindex hnext
  exact ⟨tr, tr', k, k', htr, hpath, started, k'', hnext, hresume ▸ hstarted⟩

end Pomelo
