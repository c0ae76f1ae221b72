/-
  A mutex has at most one holder.

  The code keeps no record of who holds a mutex. `Held` runs the kernel together with one: a
  thread holds the mutex from when it is woken by it, or makes it locked, until it releases it.
  The invariant is that the holders are one thread while `acquired` is set, and none while it is
  not. A waiter that times out, or is woken by another of its objects, leaves the queue and no
  more; a wait whose thread can no longer be woken sets `acquired` and takes this back.
-/
import Pomelo.Hle.CallLog

namespace Pomelo

open Lib Outcome

/-- A kernel, and the threads that hold a mutex. -/
structure Held where
  kernel : Kernel
  holders : Finset ThreadIndex

namespace Held

/-- The holders that a call leaves: a release is one by the current thread. -/
def kept (s : Held) (call : ObjectCall) : Finset ThreadIndex :=
  match call, s.kernel.current with
  | .release, some (_, tid) => s.holders.erase tid
  | _, _ => s.holders

/-- A call on mutex `m`, or what happens around it. A thread releases the mutex only while it
    holds it; the threads that the mutex wakes hold it. -/
structure Step (m : ObjId) (s : Held) (call : ObjectCall) (s' : Held) : Prop where
  calls : CallStep m s.kernel call s'.kernel
  byHolder : call = .release → ∃ pid tid, s.kernel.current = some (pid, tid) ∧ tid ∈ s.holders
  holders : s'.holders = s.kept call ∪ call.woken s.kernel s'.kernel

/-- The state after a call. -/
def after (s : Held) (call : ObjectCall) (k' : Kernel) : Held where
  kernel := k'
  holders := s.kept call ∪ call.woken s.kernel k'

theorem Step.of_calls {m : ObjId} {s : Held} {call : ObjectCall} {k' : Kernel}
    (h : CallStep m s.kernel call k')
    (hby : call = .release → ∃ pid tid, s.kernel.current = some (pid, tid) ∧ tid ∈ s.holders) :
    Step m s call (s.after call k') :=
  ⟨h, hby, rfl⟩

/-- At most one thread holds the mutex, `acquired` is set exactly while one does, and threads
    wait only then. -/
def Exclusive (m : ObjId) (s : Held) : Prop :=
  ∃ self, s.kernel.object? m = some (.mutex self) ∧ s.holders.card ≤ 1 ∧
    (self.acquired = true ↔ s.holders.Nonempty) ∧
    (self.wakerQueue ≠ [] → self.acquired = true)

/-- A release that finds a waiter wakes the first, does nothing else, and so passes the mutex
    to its thread with `acquired` set throughout. -/
def Passes (m : ObjId) (s : Held) : Prop :=
  ∀ s' self w rest, Step m s .release s' → s.kernel.object? m = some (.mutex self) →
    self.wakerQueue = w :: rest →
    self.acquired = true ∧ w.wake m s.kernel = .ret (true, s'.kernel) ∧ s'.holders = {w.thread} ∧
      ∃ self', s'.kernel.object? m = some (.mutex self') ∧ self'.acquired = true

end Held

/-- Runs start with a mutex just made, free or locked by a thread; the rest of the kernel is
    arbitrary. -/
def mutexSystem (m : ObjId) : System Held ObjectCall where
  init s := ∃ locked creator, s.kernel.object? m = some (.mutex (MutexImpl.new locked)) ∧
    s.holders = if locked then {creator} else ∅
  step := Held.Step m

/-! ## What each call does to a mutex -/

section Calls

variable {k k' : Kernel} {m : ObjId} {self : MutexImpl} {call : ObjectCall}

/-- A call other than a wait or a release may take wakers from the queue. -/
theorem mutex_around (hx : k.object? m = some (.mutex self)) (h : CallStep m k call k')
    (hc : call.wakes = false) : ∃ queue : List Waker, queue.Sublist self.wakerQueue ∧
      k'.object? m = some (.mutex { self with wakerQueue := queue }) := by
  have hloses : ∀ y, k'.object? m = some y → Loses (.mutex self) y →
      ∃ queue : List Waker, queue.Sublist self.wakerQueue ∧
        k'.object? m = some (.mutex { self with wakerQueue := queue }) := by
    intro y hy hl
    obtain ⟨queue, hqueue, rfl⟩ := hl.mutex
    exact ⟨queue, hqueue, hy⟩
  cases h with
  | clear hy =>
    rw [hx] at hy
    cases hy
  | set hy =>
    rw [hx] at hy
    cases hy
  | wake hp h =>
    obtain ⟨y, hy, hl⟩ := loses_wake h hx
    exact hloses y hy hl
  | timeouts h =>
    obtain ⟨y, hy, hl⟩ := loses_tickThreadsAt h hx
    exact hloses y hy hl
  | other h => exact hloses _ (h.trans hx) .refl
  | _ => cases hc

theorem mutex_wait {w : Waker} (hx : k.object? m = some (.mutex self))
    (h : CallStep m k (.wait w) k') : ∃ self', k'.object? m = some (.mutex self') ∧
      (self.acquired = true ∧ self'.acquired = true ∧ (wokenThreads k k').toFinset = ∅ ∨
       self.acquired = false ∧ self'.acquired = true ∧
        (wokenThreads k k').toFinset = {w.thread} ∨
       self.acquired = false ∧ self'.acquired = false ∧ self'.wakerQueue = self.wakerQueue ∧
        (wokenThreads k k').toFinset = ∅) := by
  cases h with
  | wait hy h =>
    rw [hx] at hy
    injection hy with hy
    subst hy
    rcases wait_effect hx h with ⟨hready, hobject, hsleepers⟩ |
      ⟨hready, hwakes, y, hobject, hloses⟩ | ⟨hready, _, hobject, hsleepers⟩
    · have hacquired : self.acquired = true := by simpa [KObject.ready] using hready
      exact ⟨_, hobject, Or.inl ⟨hacquired, hacquired, woken_eq_empty hsleepers⟩⟩
    · have hfree : self.acquired = false := by simpa [KObject.ready] using hready
      have hloses : Loses (.mutex { self with acquired := true }) y := hloses
      obtain ⟨queue, _, rfl⟩ := hloses.mutex
      exact ⟨_, hobject, Or.inr (Or.inl ⟨hfree, rfl, hwakes.woken⟩)⟩
    · have hfree : self.acquired = false := by simpa [KObject.ready] using hready
      exact ⟨_, hobject, Or.inr (Or.inr ⟨hfree, rfl, rfl, woken_eq_empty hsleepers⟩)⟩

theorem mutex_release (hx : k.object? m = some (.mutex self)) (h : CallStep m k .release k') :
    (self.wakerQueue = [] ∧ (wokenThreads k k').toFinset = ∅ ∧
      k'.object? m = some (.mutex { self with acquired := false })) ∨
    ∃ w rest queue, self.wakerQueue = w :: rest ∧ w.wake m k = .ret (true, k') ∧
      (wokenThreads k k').toFinset = {w.thread} ∧
      k'.object? m = some (.mutex { self with wakerQueue := queue }) := by
  cases h with
  | release hy h =>
    rw [hx] at hy
    injection hy with hy
    injection hy with hy
    subst hy
    unfold MutexImpl.release at h
    split at h
    · rename_i hqueue
      injection h with h
      subst h
      refine Or.inl ⟨hqueue, woken_eq_empty rfl, ?_⟩
      rw [Kernel.object?_modifyObject, if_pos rfl, hx]
      rfl
    · rename_i w rest hqueue
      obtain ⟨hwake, hwakes, y, hobject, hloses⟩ := wakeExpect_effect hx h
      obtain ⟨queue, _, rfl⟩ := hloses.mutex
      exact Or.inr ⟨w, rest, queue, hqueue, hwake, hwakes.woken, hobject⟩

end Calls

/-! ## Mutual exclusion -/

namespace Held

variable {m : ObjId} {s s' : Held} {call : ObjectCall}

/-- A mutex that is held is held by one thread. -/
theorem Exclusive.holder (h : s.Exclusive m) {tid : ThreadIndex} (ht : tid ∈ s.holders) :
    s.holders = {tid} := by
  obtain ⟨self, _, hcard, _⟩ := h
  exact Finset.eq_singleton_iff_unique_mem.mpr ⟨ht, fun t hmem =>
    Finset.card_le_one.mp hcard t hmem tid ht⟩

/-- The thread that releases the mutex is its holder, so that it leaves none. -/
theorem Exclusive.kept_release (h : s.Exclusive m) {pid : ProcessId} {tid : ThreadIndex}
    (hcurrent : s.kernel.current = some (pid, tid)) (ht : tid ∈ s.holders) :
    s.kept .release = ∅ := by
  unfold kept
  rw [hcurrent]
  show s.holders.erase tid = ∅
  rw [h.holder ht, Finset.erase_singleton]

theorem exclusive_of_held {self : MutexImpl} {tid : ThreadIndex}
    (hx : s.kernel.object? m = some (.mutex self)) (ha : self.acquired = true)
    (hh : s.holders = {tid}) : s.Exclusive m := by
  refine ⟨self, hx, by rw [hh, Finset.card_singleton], ?_, fun _ => ha⟩
  rw [hh]
  exact ⟨fun _ => Finset.singleton_nonempty tid, fun _ => ha⟩

theorem exclusive_of_free {self : MutexImpl} (hx : s.kernel.object? m = some (.mutex self))
    (ha : self.acquired = false) (hq : self.wakerQueue = []) (hh : s.holders = ∅) :
    s.Exclusive m := by
  refine ⟨self, hx, by rw [hh]; exact Nat.zero_le 1, ?_, fun hne => absurd hq hne⟩
  rw [hh, ha]
  simp

/-- One call keeps the mutex exclusive. -/
theorem Exclusive.step (h : s.Exclusive m) (hstep : Step m s call s') : s'.Exclusive m := by
  have hexclusive := h
  obtain ⟨self, hx, hcard, hacquired, hqueue⟩ := h
  obtain ⟨hcalls, hby, hholders⟩ := hstep
  -- a free mutex has no holder and no waiter
  have hfree : self.acquired = false → s.holders = ∅ ∧ self.wakerQueue = [] := by
    intro ha
    refine ⟨Finset.not_nonempty_iff_eq_empty.mp fun hne => ?_, by_contra fun hne => ?_⟩
    · rw [hacquired.mpr hne] at ha
      cases ha
    · rw [hqueue hne] at ha
      cases ha
  -- and one that is acquired has exactly one
  have hheld : self.acquired = true → ∃ tid, s.holders = {tid} := by
    intro ha
    obtain ⟨tid, htid⟩ := hacquired.mp ha
    exact ⟨tid, hexclusive.holder htid⟩
  by_cases hwakes : call.wakes = true
  · have hwoken : call.woken s.kernel s'.kernel =
        (wokenThreads s.kernel s'.kernel).toFinset := if_pos hwakes
    rw [hwoken] at hholders
    cases call with
    | wait w =>
      have hkept : s.kept (.wait w) = s.holders := by
        unfold kept
        rfl
      rw [hkept] at hholders
      obtain ⟨self', hx', hor⟩ := mutex_wait hx hcalls
      rcases hor with ⟨ha, ha', hnone⟩ | ⟨ha, ha', hone⟩ | ⟨ha, ha', hsame, hnone⟩
      · obtain ⟨tid, htid⟩ := hheld ha
        exact exclusive_of_held hx' ha' (by rw [hholders, hnone, Finset.union_empty, htid])
      · have hheld' : s'.holders = {w.thread} := by
          rw [hholders, hone, (hfree ha).1, Finset.empty_union]
        exact exclusive_of_held hx' ha' hheld'
      · refine exclusive_of_free hx' ha' (by rw [hsame, (hfree ha).2]) ?_
        rw [hholders, hnone, (hfree ha).1, Finset.union_empty]
    | release =>
      obtain ⟨pid, tid, hcurrent, htid⟩ := hby rfl
      rw [hexclusive.kept_release hcurrent htid, Finset.empty_union] at hholders
      rcases mutex_release hx hcalls with ⟨hempty, hnone, hx'⟩ |
        ⟨w, rest, queue, _, _, hone, hx'⟩
      · exact exclusive_of_free hx' rfl hempty (by rw [hholders, hnone])
      · have ha : self.acquired = true := hacquired.mpr ⟨tid, htid⟩
        exact exclusive_of_held hx' ha (by rw [hholders, hone])
    | signal =>
      cases hcalls with
      | signal hy _ =>
        rw [hx] at hy
        cases hy
    | tick time =>
      cases hcalls with
      | tick hy _ =>
        rw [hx] at hy
        cases hy
    | _ => cases hwakes
  · have hwakes : call.wakes = false := by simpa using hwakes
    have hwoken : call.woken s.kernel s'.kernel = ∅ := by
      unfold ObjectCall.woken
      rw [if_neg (by simp [hwakes])]
    have hkept : s.kept call = s.holders := by
      cases call with
      | release => cases hwakes
      | _ =>
        unfold kept
        rfl
    rw [hwoken, hkept, Finset.union_empty] at hholders
    obtain ⟨queue, hsub, hx'⟩ := mutex_around hx hcalls hwakes
    cases ha : self.acquired with
    | true =>
      obtain ⟨tid, htid⟩ := hheld ha
      exact exclusive_of_held hx' ha (by rw [hholders, htid])
    | false =>
      obtain ⟨hnone, hempty⟩ := hfree ha
      rw [hempty] at hsub
      exact exclusive_of_free hx' ha (List.sublist_nil.mp hsub) (by rw [hholders, hnone])

theorem Exclusive.init (h : (mutexSystem m).init s) : s.Exclusive m := by
  obtain ⟨locked, creator, hx, hholders⟩ := h
  cases locked with
  | true => exact exclusive_of_held hx rfl hholders
  | false => exact exclusive_of_free hx rfl rfl hholders

theorem exclusive_of_run {tr : List (Held × ObjectCall)} (h : Run (mutexSystem m) tr s) :
    s.Exclusive m :=
  h.invariant (fun _ hinit => Exclusive.init hinit) fun _ _ _ hinv hstep => hinv.step hstep

/-- While the mutex is exclusive, a release passes it to the first waiter. -/
theorem Exclusive.passes (h : s.Exclusive m) : s.Passes m := by
  intro s' self w rest hstep hx hqueue
  obtain ⟨hcalls, hby, hholders⟩ := hstep
  obtain ⟨pid, tid, hcurrent, htid⟩ := hby rfl
  have hwoken : ObjectCall.release.woken s.kernel s'.kernel =
      (wokenThreads s.kernel s'.kernel).toFinset := if_pos rfl
  have ha : self.acquired = true := by
    obtain ⟨self', hx', _, hacquired, _⟩ := h
    rw [hx] at hx'
    injection hx' with hx'
    injection hx' with hx'
    rw [hx']
    exact hacquired.mpr ⟨tid, htid⟩
  rcases mutex_release hx hcalls with ⟨hempty, _⟩ | ⟨w', rest', queue, hq, hwake, hone, hx'⟩
  · rw [hempty] at hqueue
    cases hqueue
  · rw [hqueue] at hq
    injection hq with hw hrest
    subst hw
    refine ⟨ha, hwake, ?_, _, hx', ha⟩
    rw [hholders, hwoken, h.kept_release hcurrent htid, hone, Finset.empty_union]

end Held

/-- **Mutual exclusion.** In every run over one mutex, made free or locked by its creator, that
    any threads wait on, alone or with other objects, with or without timeouts, and release only
    while they hold it: at most one thread holds the mutex, `acquired` is set exactly while one
    does, threads are queued only then, and a release with threads queued passes the mutex to
    the first of them without setting `acquired` to false in between. -/
theorem mutualExclusion {m : ObjId} {tr : List (Held × ObjectCall)} {s : Held}
    (h : Run (mutexSystem m) tr s) : s.Exclusive m ∧ s.Passes m := by
  have hexclusive := Held.exclusive_of_run h
  exact ⟨hexclusive, hexclusive.passes⟩

/-- Two threads that are about to wait on object 0, a free mutex. -/
def Held.sample : Held where
  kernel :=
    let thread (tid : ThreadIndex) : CommonThread := { CommonThread.new 0 tid 1 with
      state := .waiting
      waitObjects := [0]
      waitType := some .waitSync1 }
    { Kernel.new with
      objects := [some (.mutex (MutexImpl.new false))]
      threads := [thread 0, thread 1]
      current := some (0, 0) }
  holders := ∅

/-- The first thread takes the mutex, the second waits, and gets it when the first releases
    it. -/
theorem mutualExclusion_sample : ∃ tr s, Run (mutexSystem 0) tr s ∧ s.holders = {1} ∧
    s.Exclusive 0 ∧ s.Passes 0 := by
  have h0 : Run (mutexSystem 0) [] Held.sample := .start ⟨false, 0, rfl, rfl⟩
  have h1 := h0.next (Held.Step.of_calls (.wait (w := ⟨0, 0⟩) rfl rfl) fun h => by cases h)
  have h2 := h1.next (Held.Step.of_calls (.wait (w := ⟨1, 0⟩) rfl rfl) fun h => by cases h)
  have h3 := h2.next (Held.Step.of_calls (.release rfl rfl) fun _ => ⟨0, 0, rfl, by decide⟩)
  exact ⟨_, _, h3, by decide, mutualExclusion h3⟩

/-! ## Supervisor calls -/

/-- A mutex lasts. -/
theorem lasts_mutex (m : ObjId) : Lasts m fun k => ∃ self, k.object? m = some (.mutex self) where
  taken k h := by
    obtain ⟨self, hx⟩ := h
    exact ⟨_, hx, rfl⟩
  step k call k' h hstep := by
    obtain ⟨self, hx⟩ := h
    cases hwakes : call.wakes with
    | false =>
      obtain ⟨queue, _, hx'⟩ := mutex_around hx hstep hwakes
      exact ⟨_, hx'⟩
    | true =>
      cases call with
      | wait w =>
        obtain ⟨self', hx', _⟩ := mutex_wait hx hstep
        exact ⟨self', hx'⟩
      | release =>
        rcases mutex_release hx hstep with ⟨_, _, hx'⟩ | ⟨_, _, queue, _, _, _, hx'⟩
        · exact ⟨_, hx'⟩
        · exact ⟨_, hx'⟩
      | signal =>
        cases hstep with
        | signal hy _ =>
          rw [hx] at hy
          cases hy
      | tick time =>
        cases hstep with
        | tick hy _ =>
          rw [hx] at hy
          cases hy
      | _ => cases hwakes

namespace Held

/-- The mutex was just made in the kernel, free or locked by its creator. -/
def made (k : Kernel) (locked : Bool) (creator : ThreadIndex) : Held where
  kernel := k
  holders := if locked then {creator} else ∅

/-- The holders over the calls on record. -/
def through : List CallRecord → Held → Held
  | [], s => s
  | r :: rs, s => through rs ({ s with kernel := r.before }.after r.label r.after)

/-- The current thread holds the mutex. -/
def current (s : Held) : Bool :=
  s.kernel.current.any fun thread => decide (thread.2 ∈ s.holders)

/-- Each release on record is by a thread that holds the mutex then. -/
def byHolders : List CallRecord → Held → Bool
  | [], _ => true
  | r :: rs, s =>
    let s := { s with kernel := r.before }
    (decide (r.label ≠ .release) || s.current) && byHolders rs (s.after r.label r.after)

/-- From where the mutex was made to kernel `k'`, with these calls on it. -/
def logged (k : Kernel) (locked : Bool) (creator : ThreadIndex) (log : List CallRecord)
    (k' : Kernel) : Held :=
  { through log (made k locked creator) with kernel := k' }

variable {m : ObjId} {s : Held} {k' : Kernel}

/-- What happens around the mutex leaves its holders. -/
theorem moves_of_around (h : Around m s.kernel k') :
    Moves (Step m) (fun _ => True) s { s with kernel := k' } := by
  induction h with
  | refl => exact .refl s
  | @tail k1 k2 call _ haround hstep ih =>
    have hafter : { s with kernel := k1 }.after call k2 = { s with kernel := k2 } := by
      cases call with
      | wake w p => exact congrArg (Held.mk k2) (Finset.union_empty _)
      | timeouts time => exact congrArg (Held.mk k2) (Finset.union_empty _)
      | other => exact congrArg (Held.mk k2) (Finset.union_empty _)
      | _ => cases haround
    have hcall : Step m { s with kernel := k1 } call ({ s with kernel := k1 }.after call k2) :=
      .of_calls hstep fun hrelease => by
        rw [hrelease] at haround
        cases haround
    rw [hafter] at hcall
    exact ih.tail trivial hcall

/-- Calls on the mutex, with each release by a holder. -/
theorem moves_of_calls {log : List CallRecord} (h : CallsOn m s.kernel log k')
    (hby : byHolders log s = true) :
    Moves (Step m) (fun _ => True) s { through log s with kernel := k' } := by
  generalize hk : s.kernel = k at h
  induction h generalizing s with
  | nil haround =>
    subst hk
    exact moves_of_around haround
  | @cons _ _ r rs haround hstep _ ih =>
    subst hk
    obtain ⟨hrelease, hrest⟩ := Bool.and_eq_true_iff.mp hby
    have hcall : Step m { s with kernel := r.before } r.label
        ({ s with kernel := r.before }.after r.label r.after) := by
      refine .of_calls hstep fun hlabel => ?_
      have hcurrent : ({ s with kernel := r.before } : Held).current = true := by
        simpa [hlabel] using hrelease
      obtain ⟨⟨pid, tid⟩, hthread, hmem⟩ := (Option.any_eq_true _ _).mp hcurrent
      exact ⟨pid, tid, hthread, of_decide_eq_true hmem⟩
    exact ((moves_of_around haround).tail trivial hcall).trans (ih hrest rfl)

end Held

/-- **The kernel keeps to the runs over a mutex.** From where a mutex was just made, take any path
    of the kernel, whatever its threads call and however it ticks, as long as the mutex is there.
    The calls that the code makes on the mutex in it, in their order, are a path over the mutex if
    each release among them is by a thread that holds it then: one that the mutex woke, or that
    made it locked, and that has not released it since. So at most one thread holds the mutex, and
    `acquired` says whether one does. -/
theorem mutex_followed {rng : Nat → UInt32} {m : ObjId} {locked : Bool} {creator : ThreadIndex}
    {k k' : Kernel} {tr : List (Kernel × SvcStep)}
    (hmade : k.object? m = some (.mutex (MutexImpl.new locked)))
    (h : Path (svcSystem rng) k tr k') (hkept : EveryStep (fun _ l => l ≠ .drop m) tr) :
    (∃ log, Logged rng m k tr log k') ∧ ∀ log, Logged rng m k tr log k' →
      Held.byHolders log (Held.made k locked creator) = true →
      (∃ tr', Path (mutexSystem m) (Held.made k locked creator) tr'
        (Held.logged k locked creator log k')) ∧
      (Held.logged k locked creator log k').Exclusive m := by
  have hstart : Run (mutexSystem m) [] (.made k locked creator) :=
    .start ⟨locked, creator, hmade, rfl⟩
  refine ⟨exists_logged (lasts_mutex m) ⟨_, hmade⟩ h hkept, fun log hlogged hby => ?_⟩
  have hcalls : CallsOn m (Held.made k locked creator).kernel log k' :=
    hlogged.callsOn (lasts_mutex m) ⟨_, hmade⟩ hkept
  obtain ⟨tr', hpath⟩ := Path.of_moves (M := mutexSystem m) (Held.moves_of_calls hcalls hby)
  exact ⟨⟨tr', hpath⟩, Held.exclusive_of_run (hstart.append hpath)⟩

/-- A thread makes a mutex that it holds, and sleeps; another waits for the mutex, and gets it when
    the first releases it. -/
theorem mutex_followed_passes : ∃ (tr : List (Kernel × SvcStep)) (k k' : Kernel)
    (log : List CallRecord), Path (svcSystem UInt32.ofNat) k tr k' ∧
      Logged UInt32.ofNat 2 k tr log k' ∧ k'.wakers 2 = [] ∧
      (Held.logged k true 0 log k').holders = {1} ∧
      (Held.logged k true 0 log k').Exclusive 2 := by
  have hrun : ((runAll (svcStep? UInt32.ofNat 4) Kernel.new [.newProcess .hle, .newThread 0,
      .newThread 0, .runNext, .call (.createMutex true)]).bind fun k =>
        (runAll (loggedStep? UInt32.ofNat 4 2) (k, []) [.call (.sleepThread 0 5), .stop 0,
          .runNext, .call (.waitSync1 0 (Handle.fromRaw 1) (-1)), .stop 1, .tick 6 [], .runNext,
          .call (.releaseMutex (Handle.fromRaw 1))]).map fun s =>
        (k.object? 2, s.1.wakers 2, decide ((Held.logged k true 0 s.2 s.1).holders = {1}),
          Held.byHolders s.2 (Held.made k true 0))) =
      some (some (.mutex (MutexImpl.new true)), [], true, true) := by
    decide +kernel
  obtain ⟨k, _, hrun⟩ := Option.bind_eq_some_iff.mp hrun
  obtain ⟨⟨k', log⟩, hk', hview⟩ := Option.map_eq_some_iff.mp hrun
  obtain ⟨hobject, hview⟩ := Prod.mk.inj hview
  obtain ⟨hwakers, hview⟩ := Prod.mk.inj hview
  obtain ⟨hholders, hby⟩ := Prod.mk.inj hview
  obtain ⟨tr, hpath, hkept, hlogged⟩ := Logged.of_runAll .refl (everyStep_nil _) .refl hk'
  have hfollows := (mutex_followed hobject hpath hkept).2 log hlogged hby
  exact ⟨tr, k, k', log, hpath, hlogged, hwakers, of_decide_eq_true hholders, hfollows.2⟩

end Pomelo
