/-
  Every suspension is ended at most once.

  A waker is a thread and a key, and may be copied anywhere and used at any time; all that a
  wake compares is the key. `Traced` runs the kernel together with what the code does not
  keep: all suspensions ever made, how often each thread was woken, and which suspension each
  wake or timeout ended. A thread counts as woken when its wake key changes.

  The invariant: a thread's key is the number of times it was woken, no waker has a larger
  one, and one that has the same was made in the suspension its thread is in (`Traced.Inv`).
-/
import Pomelo.Kernel.Sleep
import Pomelo.Lib.Run

namespace Pomelo

open Lib Outcome

/-- One call of `suspend_thread`, and the waker it returned. -/
structure Suspension where
  waker : Waker
  objects : List ObjId
  waitType : ThreadWaitType
deriving DecidableEq, Repr

/-- The threads whose wake key changes from `k` to `k'`. -/
def wokenThreads (k k' : Kernel) : List ThreadIndex :=
  k.indices.filter fun tid =>
    (k'.sleepers tid).map Sleeper.wakeKey ≠ (k.sleepers tid).map Sleeper.wakeKey

/-- A kernel and its history: the suspensions, oldest first; the last suspension of each
    thread; how often each thread was woken; and the suspensions that were ended. -/
structure Traced where
  kernel : Kernel
  suspensions : List Suspension
  last : ThreadIndex → Option Nat
  wakes : ThreadIndex → Nat
  ended : List (ThreadIndex × Option Nat)

namespace Traced

/-- The history after a call that leads to `k'`: each thread woken leaves its suspension. -/
def after (s : Traced) (k' : Kernel) : Traced where
  kernel := k'
  suspensions := s.suspensions
  last := s.last
  wakes := fun tid => if tid ∈ wokenThreads s.kernel k' then s.wakes tid + 1 else s.wakes tid
  ended := s.ended ++ (wokenThreads s.kernel k').map fun tid => (tid, s.last tid)

/-- The history with one more suspension. -/
def suspend (s : Traced) (suspension : Suspension) : Traced :=
  { s with
    suspensions := s.suspensions ++ [suspension]
    last := Function.update s.last suspension.waker.thread (some s.suspensions.length) }

end Traced

/-- The calls of a run. `wake i object` uses the waker of suspension `i`, whoever has it now;
    `exit` is `exit_thread`, whose thread object then wakes by `wake` calls of its own;
    `other` is anything that leaves all threads as they are, but for their messages. -/
inductive WakeCall where
  | suspend (objects : List ObjId) (timeout : Option UInt64) (waitType : ThreadWaitType)
  | wake (i : Nat) (object : ObjId)
  | tick (time : UInt64)
  | runNext
  | stop (index : ThreadIndex)
  | exit
  | newThread (pid : ProcessId)
  | other

inductive Traced.Step : Traced → WakeCall → Traced → Prop where
  | suspend {s : Traced} {objects : List ObjId} {timeout : Option UInt64}
      {waitType : ThreadWaitType} {waker : Waker} {k' : Kernel}
      (h : s.kernel.suspendThread objects timeout waitType = .ret (waker, k')) :
      Step s (.suspend objects timeout waitType)
        ((s.after k').suspend ⟨waker, objects, waitType⟩)
  | wake {s : Traced} {i : Nat} {object : ObjId} {suspension : Suspension} {ok : Bool}
      {k' : Kernel} (hi : s.suspensions[i]? = some suspension)
      (h : suspension.waker.wake object s.kernel = .ret (ok, k')) :
      Step s (.wake i object) (s.after k')
  | tick {s : Traced} {time : UInt64} {k' : Kernel}
      (h : s.kernel.tickThreadsAt time = .ret k') : Step s (.tick time) (s.after k')
  | runNext {s : Traced} {started : Option (ThreadIndex × ThreadResume)} {k' : Kernel}
      (h : s.kernel.runNext = .ret (started, k')) : Step s .runNext (s.after k')
  | stop {s : Traced} {index : ThreadIndex} {k' : Kernel}
      (h : s.kernel.stopThread index = .ret k') : Step s (.stop index) (s.after k')
  | exit {s : Traced} {pid : ProcessId} {tid : ThreadIndex} {self : Sleeper} {kobj : ObjId}
      {k' : Kernel} (hcur : s.kernel.current = some (pid, tid))
      (hself : s.kernel.sleepers tid = some self) (hrun : self.state = .running)
      (h : s.kernel.finishThread = .ret (kobj, k')) : Step s .exit (s.after k')
  | newThread {s : Traced} {pid : ProcessId} {tid : ThreadIndex} {kobj : ObjId} {k' : Kernel}
      (h : s.kernel.newThread pid = .ret (tid, kobj, k')) :
      Step s (.newThread pid) (s.after k')
  | other {s : Traced} {k' : Kernel} (hindices : k'.indices = s.kernel.indices)
      (hsleepers : k'.sleepers = s.kernel.sleepers) (hnext : k'.nextTid = s.kernel.nextTid) :
      Step s .other (s.after k')

/-- Runs start without threads; everything else is arbitrary. -/
def wakeSystem : System Traced WakeCall where
  init s := s.kernel.threads = [] ∧ s.suspensions = [] ∧ s.last = (fun _ => none) ∧
    s.wakes = (fun _ => 0) ∧ s.ended = []
  step := Traced.Step

/-- Every thread was woken fewer than 2^64 times. -/
def Traced.FewWakes (s : Traced) : Prop := ∀ tid, s.wakes tid < 18446744073709551616

/-- `Sleep` suspends on no object. -/
def Suspension.SleepsOnNothing (self : Suspension) : Prop :=
  self.waitType = .sleep → self.objects = []

/-- The thread of suspension `i` still waits, in that very suspension. -/
def Traced.StillIn (s : Traced) (i : Nat) (suspension : Suspension) : Prop :=
  ∃ self, s.kernel.sleepers suspension.waker.thread = some self ∧ self.state = .waiting ∧
    s.last suspension.waker.thread = some i

def Traced.IsDone (s : Traced) (tid : ThreadIndex) : Prop :=
  ∃ self, s.kernel.sleepers tid = some self ∧ self.state = .done

namespace Traced

/-- Wakers never have a key above their thread's, and one with the same key is that of the
    suspension its thread is in. What was ended lies below. -/
structure Inv (s : Traced) : Prop where
  nodup : s.kernel.indices.Nodup
  below : ∀ tid ∈ s.kernel.indices, tid < s.kernel.nextTid
  key : ∀ tid self, s.kernel.sleepers tid = some self →
    self.wakeKey = UInt64.ofNat (s.wakes tid)
  unborn : ∀ tid, s.kernel.sleepers tid = none → s.wakes tid = 0
  made : ∀ (i : Nat) suspension, s.suspensions[i]? = some suspension →
    ∃ self, s.kernel.sleepers suspension.waker.thread = some self ∧
      suspension.waker.key.toNat ≤ s.wakes suspension.waker.thread ∧
      (suspension.waker.key.toNat = s.wakes suspension.waker.thread →
        self.state = .waiting ∧ self.waitObjects = suspension.objects ∧
        self.waitType = some suspension.waitType ∧
        s.last suspension.waker.thread = some i)
  waiting : ∀ tid self, s.kernel.sleepers tid = some self → self.state = .waiting →
    ∃ (i : Nat) (suspension : Suspension), s.last tid = some i ∧
      s.suspensions[i]? = some suspension ∧ suspension.waker.thread = tid ∧
      suspension.waker.key.toNat = s.wakes tid
  ended : ∀ x ∈ s.ended, ∃ (i : Nat) (suspension : Suspension), x.2 = some i ∧
    s.suspensions[i]? = some suspension ∧ suspension.waker.thread = x.1 ∧
    suspension.waker.key.toNat < s.wakes x.1
  endedOnce : s.ended.Nodup

/-! ## What is woken -/

theorem mem_wokenThreads {k k' : Kernel} {tid : ThreadIndex} :
    tid ∈ wokenThreads k k' ↔ tid ∈ k.indices ∧
      (k'.sleepers tid).map Sleeper.wakeKey ≠ (k.sleepers tid).map Sleeper.wakeKey := by
  unfold wokenThreads
  simp

theorem mem_indices_of_sleeper {k : Kernel} {tid : ThreadIndex} {self : Sleeper}
    (h : k.sleepers tid = some self) : tid ∈ k.indices := by
  rw [Kernel.mem_indices]
  unfold Kernel.sleepers at h
  obtain ⟨thread, hthread, _⟩ := Option.map_eq_some_iff.mp h
  rw [hthread]
  rfl

/-- A call that keeps every wake key wakes nobody. -/
theorem wokenThreads_eq_nil {k k' : Kernel}
    (h : ∀ tid self, k.sleepers tid = some self →
      ∃ self', k'.sleepers tid = some self' ∧ self'.wakeKey = self.wakeKey) :
    wokenThreads k k' = [] := by
  unfold wokenThreads
  rw [List.filter_eq_nil_iff]
  intro tid htid
  rw [Kernel.mem_indices] at htid
  obtain ⟨thread, hthread⟩ := Option.isSome_iff_exists.mp htid
  have hself : k.sleepers tid = some thread.sleeper := by
    unfold Kernel.sleepers
    rw [hthread]
    rfl
  obtain ⟨self', hself', hkey⟩ := h tid thread.sleeper hself
  simp [hself, hself', hkey]

theorem ofNat_succ_key (n : Nat) : UInt64.ofNat n + 1 = UInt64.ofNat (n + 1) := by
  rw [UInt64.ofNat_add]
  rfl

theorem toNat_key {n : Nat} (h : n < 18446744073709551616) : (UInt64.ofNat n).toNat = n := by
  rw [UInt64.toNat_ofNat']
  exact Nat.mod_eq_of_lt h

/-! ## What keeps the invariant -/

section Keep

variable {s : Traced} {k' : Kernel}

/-- Waking threads that wait keeps the invariant: each leaves its suspension, which was not
    ended before. -/
theorem Inv.woken (h : s.Inv) (hindices : k'.indices = s.kernel.indices)
    (hnext : k'.nextTid = s.kernel.nextTid) (p : ThreadIndex → Sleeper → Bool)
    (hsleepers : ∀ tid, k'.sleepers tid =
      (s.kernel.sleepers tid).map fun self => if p tid self then self.woken else self)
    (hwait : ∀ tid self, s.kernel.sleepers tid = some self → p tid self = true →
      self.state = .waiting) : (s.after k').Inv := by
  have hmem : ∀ tid, tid ∈ wokenThreads s.kernel k' ↔
      ∃ self, s.kernel.sleepers tid = some self ∧ p tid self = true := by
    intro tid
    rw [mem_wokenThreads, hsleepers]
    constructor
    · rintro ⟨_, hne⟩
      cases hself : s.kernel.sleepers tid with
      | none => simp [hself] at hne
      | some self =>
        refine ⟨self, rfl, ?_⟩
        by_contra hp
        simp [hself, hp] at hne
    · rintro ⟨self, hself, hp⟩
      refine ⟨mem_indices_of_sleeper hself, ?_⟩
      simp [hself, hp, Sleeper.woken]
  have hwakes : ∀ tid self, s.kernel.sleepers tid = some self →
      (s.after k').wakes tid = if p tid self then s.wakes tid + 1 else s.wakes tid := by
    intro tid self hself
    have hiff : tid ∈ wokenThreads s.kernel k' ↔ p tid self = true := by
      rw [hmem]
      exact ⟨fun ⟨self', h1, h2⟩ => by rw [hself] at h1; cases h1; exact h2,
        fun hp => ⟨self, hself, hp⟩⟩
    show (if tid ∈ wokenThreads s.kernel k' then _ else _) = _
    simp only [hiff]
  have hle : ∀ tid, s.wakes tid ≤ (s.after k').wakes tid := by
    intro tid
    show _ ≤ if tid ∈ wokenThreads s.kernel k' then s.wakes tid + 1 else s.wakes tid
    split <;> omega
  refine ⟨by show k'.indices.Nodup; rw [hindices]; exact h.nodup, ?_, ?_, ?_, ?_, ?_, ?_, ?_⟩
  · intro tid htid
    show tid < k'.nextTid
    rw [hnext]
    exact h.below tid (hindices ▸ htid)
  · intro tid self' hself'
    have hs : k'.sleepers tid = some self' := hself'
    rw [hsleepers] at hs
    obtain ⟨self, hself, hs⟩ := Option.map_eq_some_iff.mp hs
    rw [hwakes tid self hself, ← hs]
    split
    · show self.wakeKey + 1 = _
      rw [h.key tid self hself, ofNat_succ_key]
    · exact h.key tid self hself
  · intro tid hnone
    have hs : k'.sleepers tid = none := hnone
    rw [hsleepers, Option.map_eq_none_iff] at hs
    have hnot : tid ∉ wokenThreads s.kernel k' := by
      rw [hmem]
      rintro ⟨self, hself, _⟩
      rw [hs] at hself
      cases hself
    show (if tid ∈ wokenThreads s.kernel k' then _ else _) = _
    rw [if_neg hnot]
    exact h.unborn tid hs
  · intro i suspension hi
    obtain ⟨self, hself, hkey, hcur⟩ := h.made i suspension hi
    have hs := hsleepers suspension.waker.thread
    rw [hself, Option.map_some] at hs
    refine ⟨_, hs, Nat.le_trans hkey (hle _), fun heq => ?_⟩
    rw [hwakes _ self hself] at heq
    by_cases hp : p suspension.waker.thread self = true
    · rw [if_pos hp] at heq
      omega
    · rw [if_neg hp] at heq ⊢
      exact hcur heq
  · intro tid self' hself' hst
    have hs : k'.sleepers tid = some self' := hself'
    rw [hsleepers] at hs
    obtain ⟨self, hself, hs⟩ := Option.map_eq_some_iff.mp hs
    by_cases hp : p tid self = true
    · rw [if_pos hp] at hs
      rw [← hs] at hst
      cases hst
    · rw [if_neg hp] at hs
      rw [hwakes tid self hself, if_neg hp]
      exact h.waiting tid self hself (by rw [hs]; exact hst)
  · intro x hx
    rcases List.mem_append.mp hx with hx | hx
    · obtain ⟨i, suspension, h1, h2, h3, h4⟩ := h.ended x hx
      exact ⟨i, suspension, h1, h2, h3, Nat.lt_of_lt_of_le h4 (hle _)⟩
    · obtain ⟨tid, htid, rfl⟩ := List.mem_map.mp hx
      obtain ⟨self, hself, hp⟩ := (hmem tid).mp htid
      obtain ⟨i, suspension, h1, h2, h3, h4⟩ := h.waiting tid self hself (hwait tid self hself hp)
      refine ⟨i, suspension, h1, h2, h3, ?_⟩
      show _ < (s.after k').wakes tid
      rw [hwakes tid self hself, if_pos hp]
      omega
  · -- a thread that is woken waits, so its suspension was not ended before
    refine List.nodup_append.mpr ⟨h.endedOnce, ?_, ?_⟩
    · refine List.Nodup.map (fun a b hab => (Prod.mk.inj hab).1) ?_
      exact h.nodup.filter _
    · intro x hx y hy hxy
      subst hxy
      obtain ⟨tid, htid, rfl⟩ := List.mem_map.mp hy
      obtain ⟨self, hself, hp⟩ := (hmem tid).mp htid
      obtain ⟨i, suspension, h1, h2, h3, h4⟩ := h.waiting tid self hself (hwait tid self hself hp)
      obtain ⟨j, suspension', h1', h2', h3', h4'⟩ := h.ended _ hx
      have hij : i = j := Option.some.inj (h1.symm.trans h1')
      subst hij
      rw [h2] at h2'
      cases h2'
      have h4'' : suspension.waker.key.toNat < s.wakes tid := h4'
      omega

/-- Changing threads that do not wait keeps the invariant. -/
theorem Inv.kept (h : s.Inv) (hindices : k'.indices = s.kernel.indices)
    (hnext : k'.nextTid = s.kernel.nextTid)
    (hnone : ∀ tid, s.kernel.sleepers tid = none → k'.sleepers tid = none)
    (hsome : ∀ tid self, s.kernel.sleepers tid = some self →
      ∃ self', k'.sleepers tid = some self' ∧ self'.wakeKey = self.wakeKey ∧
        (self' = self ∨ self.state ≠ .waiting ∧ self'.state ≠ .waiting)) :
    (s.after k').Inv := by
  have hback : ∀ tid self', k'.sleepers tid = some self' → ∃ self,
      s.kernel.sleepers tid = some self ∧ self'.wakeKey = self.wakeKey ∧
        (self' = self ∨ self.state ≠ .waiting ∧ self'.state ≠ .waiting) := by
    intro tid self' hself'
    cases hself : s.kernel.sleepers tid with
    | none =>
      rw [hnone tid hself] at hself'
      cases hself'
    | some self =>
      obtain ⟨self2, h2, hkey, hor⟩ := hsome tid self hself
      rw [hself'] at h2
      cases h2
      exact ⟨self, rfl, hkey, hor⟩
  have hnil : wokenThreads s.kernel k' = [] := wokenThreads_eq_nil fun tid self hself => by
    obtain ⟨self', h1, h2, _⟩ := hsome tid self hself
    exact ⟨self', h1, h2⟩
  have hafter : s.after k' = { s with kernel := k' } := by
    unfold after
    rw [hnil]
    simp
  rw [hafter]
  refine ⟨by show k'.indices.Nodup; rw [hindices]; exact h.nodup, ?_, ?_, ?_, ?_, ?_, h.ended,
    h.endedOnce⟩
  · intro tid htid
    show tid < k'.nextTid
    rw [hnext]
    exact h.below tid (hindices ▸ htid)
  · intro tid self' hself'
    obtain ⟨self, hself, hkey, _⟩ := hback tid self' hself'
    rw [hkey]
    exact h.key tid self hself
  · intro tid htid
    have htid' : k'.sleepers tid = none := htid
    cases hself : s.kernel.sleepers tid with
    | none => exact h.unborn tid hself
    | some self =>
      obtain ⟨self', h1, _⟩ := hsome tid self hself
      rw [htid'] at h1
      cases h1
  · intro i suspension hi
    obtain ⟨self, hself, hkey, hcur⟩ := h.made i suspension hi
    obtain ⟨self', hself', _, hor⟩ := hsome _ self hself
    refine ⟨self', hself', hkey, fun heq => ?_⟩
    rcases hor with rfl | ⟨hne, _⟩
    · exact hcur heq
    · exact absurd (hcur heq).1 hne
  · intro tid self' hself' hst
    obtain ⟨self, hself, _, hor⟩ := hback tid self' hself'
    rcases hor with rfl | ⟨_, hne⟩
    · exact h.waiting tid self' hself hst
    · exact absurd hst hne

end Keep

/-! ## The steps -/

theorem update_kept {f : ThreadIndex → Option Sleeper} {tid : ThreadIndex} {old new : Sleeper}
    (hold : f tid = some old) (hkey : new.wakeKey = old.wakeKey)
    (hor : new = old ∨ old.state ≠ .waiting ∧ new.state ≠ .waiting) (tid' : ThreadIndex) :
    (f tid' = none → Function.update f tid (some new) tid' = none) ∧
      ∀ self, f tid' = some self → ∃ self', Function.update f tid (some new) tid' = some self' ∧
        self'.wakeKey = self.wakeKey ∧
        (self' = self ∨ self.state ≠ .waiting ∧ self'.state ≠ .waiting) := by
  by_cases ht : tid' = tid
  · subst ht
    rw [Function.update_self, hold]
    refine ⟨fun h => (by cases h), fun self h => ?_⟩
    cases h
    exact ⟨new, rfl, hkey, hor⟩
  · rw [Function.update_of_ne ht]
    exact ⟨id, fun self h => ⟨self, h, rfl, Or.inl rfl⟩⟩

/-- Changing one thread that does not wait keeps the invariant. -/
theorem Inv.update {s : Traced} {k' : Kernel} (h : s.Inv)
    (hindices : k'.indices = s.kernel.indices) (hnext : k'.nextTid = s.kernel.nextTid)
    {tid : ThreadIndex} {old new : Sleeper} (hold : s.kernel.sleepers tid = some old)
    (hnew : k'.sleepers = Function.update s.kernel.sleepers tid (some new))
    (hkey : new.wakeKey = old.wakeKey)
    (hor : new = old ∨ old.state ≠ .waiting ∧ new.state ≠ .waiting) : (s.after k').Inv := by
  refine h.kept hindices hnext (fun t ht => ?_) fun t self ht => ?_
  · rw [hnew]
    exact (update_kept hold hkey hor t).1 ht
  · rw [hnew]
    exact (update_kept hold hkey hor t).2 self ht

/-- With fewer than 2^64 wakes, equal keys are equal numbers of wakes. -/
theorem Inv.key_eq {s : Traced} (h : s.Inv) (hfew : s.FewWakes) {waker : Waker} {self : Sleeper}
    (hself : s.kernel.sleepers waker.thread = some self) (hkey : self.wakeKey = waker.key) :
    waker.key.toNat = s.wakes waker.thread := by
  rw [← hkey, h.key _ self hself]
  exact toNat_key (hfew _)

theorem Inv.newThread {s : Traced} {k' : Kernel} (h : s.Inv) {pid : ProcessId}
    {tid : ThreadIndex} {kobj : ObjId} (hret : s.kernel.newThread pid = .ret (tid, kobj, k')) :
    (s.after k').Inv := by
  have hfresh : s.kernel.nextTid ∉ s.kernel.indices := fun hmem =>
    Nat.lt_irrefl _ (h.below _ hmem)
  obtain ⟨htid, hnext, hindices, hnone, hsleepers⟩ := Kernel.newThread_sleepers hret hfresh
  have hnil : wokenThreads s.kernel k' = [] := wokenThreads_eq_nil fun t self hself => by
    have hne : t ≠ tid := fun he => by
      rw [he, hnone] at hself
      cases hself
    exact ⟨self, by rw [hsleepers, Function.update_of_ne hne]; exact hself, rfl⟩
  have hafter : s.after k' = { s with kernel := k' } := by
    unfold after
    rw [hnil]
    simp
  have hother : ∀ t, t ≠ tid → k'.sleepers t = s.kernel.sleepers t := fun t ht => by
    rw [hsleepers, Function.update_of_ne ht]
  have hself : k'.sleepers tid = some Sleeper.new := by
    rw [hsleepers, Function.update_self]
  rw [hafter]
  refine ⟨?_, ?_, ?_, ?_, ?_, ?_, h.ended, h.endedOnce⟩
  · show k'.indices.Nodup
    rw [hindices]
    refine List.nodup_append.mpr ⟨h.nodup, List.nodup_singleton _, fun a ha b hb hab => ?_⟩
    rw [List.mem_singleton.mp hb, htid] at hab
    exact hfresh (hab ▸ ha)
  · intro t ht
    have ht' : t ∈ k'.indices := ht
    show t < k'.nextTid
    rw [hindices, List.mem_append, List.mem_singleton] at ht'
    rw [hnext]
    rcases ht' with ht' | ht'
    · exact Nat.lt_succ_of_lt (h.below t ht')
    · rw [ht', htid]
      exact Nat.lt_succ_self _
  · intro t self ht
    have ht' : k'.sleepers t = some self := ht
    by_cases he : t = tid
    · rw [he, hself] at ht'
      cases ht'
      show (0 : UInt64) = UInt64.ofNat (s.wakes t)
      rw [he, h.unborn tid hnone]
      rfl
    · rw [hother t he] at ht'
      exact h.key t self ht'
  · intro t ht
    have ht' : k'.sleepers t = none := ht
    by_cases he : t = tid
    · rw [he, hself] at ht'
      cases ht'
    · rw [hother t he] at ht'
      exact h.unborn t ht'
  · intro i suspension hi
    obtain ⟨self, hs, hkey, hcur⟩ := h.made i suspension hi
    have he : suspension.waker.thread ≠ tid := fun he => by
      rw [he, hnone] at hs
      cases hs
    exact ⟨self, by show k'.sleepers _ = _; rw [hother _ he]; exact hs, hkey, hcur⟩
  · intro t self ht hst
    have ht' : k'.sleepers t = some self := ht
    by_cases he : t = tid
    · rw [he, hself] at ht'
      cases ht'
      cases hst
    · rw [hother t he] at ht'
      exact h.waiting t self ht' hst

theorem Inv.suspend {s : Traced} {k' : Kernel} (h : s.Inv) (hfew : s.FewWakes)
    {objects : List ObjId} {timeout : Option UInt64} {waitType : ThreadWaitType} {waker : Waker}
    (hret : s.kernel.suspendThread objects timeout waitType = .ret (waker, k')) :
    ((s.after k').suspend ⟨waker, objects, waitType⟩).Inv := by
  obtain ⟨self, hself, hrun, hkey, hsleepers⟩ := Kernel.suspendThread_sleepers hret
  obtain ⟨pid, tid, thread, _, _, _, _, hk'⟩ := Kernel.suspendThread_eq_ret hret
  have hindices : k'.indices = s.kernel.indices := by
    rw [hk']
    exact Kernel.indices_setThread _ _
  have hnext : k'.nextTid = s.kernel.nextTid := by
    rw [hk']
    rfl
  have hother : ∀ t, t ≠ waker.thread → k'.sleepers t = s.kernel.sleepers t := fun t ht => by
    rw [hsleepers, Function.update_of_ne ht]
  have hnew : k'.sleepers waker.thread = some (self.suspended objects timeout waitType) := by
    rw [hsleepers, Function.update_self]
  have hnil : wokenThreads s.kernel k' = [] := wokenThreads_eq_nil fun t old hold => by
    by_cases he : t = waker.thread
    · subst he
      rw [hself] at hold
      cases hold
      exact ⟨_, hnew, rfl⟩
    · exact ⟨old, by rw [hother t he]; exact hold, rfl⟩
  have hafter : s.after k' = { s with kernel := k' } := by
    unfold after
    rw [hnil]
    simp
  have hcount : waker.key.toNat = s.wakes waker.thread := h.key_eq hfew hself hkey.symm
  -- the thread runs, so no earlier waker of it has its key
  have hold : ∀ (i : Nat) suspension, s.suspensions[i]? = some suspension →
      suspension.waker.thread = waker.thread →
      suspension.waker.key.toNat < s.wakes waker.thread := by
    intro i suspension hi hthread
    obtain ⟨self', hself', hle, hcur⟩ := h.made i suspension hi
    rw [hthread, hself] at hself'
    cases hself'
    rw [hthread] at hle hcur
    rcases Nat.lt_or_eq_of_le hle with hlt | heq
    · exact hlt
    · have := (hcur heq).1
      rw [hrun] at this
      cases this
  have hget : ∀ (i : Nat) suspension,
      (s.suspensions ++ [(⟨waker, objects, waitType⟩ : Suspension)])[i]? = some suspension →
      (s.suspensions[i]? = some suspension) ∨
        (i = s.suspensions.length ∧ suspension = ⟨waker, objects, waitType⟩) := by
    intro i suspension hi
    rw [List.getElem?_append] at hi
    split at hi
    · exact Or.inl hi
    · rename_i hlen
      right
      have hzero : i - s.suspensions.length = 0 := by
        by_contra hne
        rw [List.getElem?_eq_none (by simp; omega)] at hi
        cases hi
      rw [hzero] at hi
      injection hi with hi
      exact ⟨by omega, hi.symm⟩
  have hkeep : ∀ (i : Nat) suspension, s.suspensions[i]? = some suspension →
      (s.suspensions ++ [(⟨waker, objects, waitType⟩ : Suspension)])[i]? = some suspension := by
    intro i suspension hi
    have hlt : i < s.suspensions.length := by
      by_contra hge
      rw [List.getElem?_eq_none (by omega)] at hi
      cases hi
    rw [List.getElem?_append_left hlt]
    exact hi
  rw [hafter]
  refine ⟨by show k'.indices.Nodup; rw [hindices]; exact h.nodup, ?_, ?_, ?_, ?_, ?_, ?_,
    h.endedOnce⟩
  · intro t ht
    show t < k'.nextTid
    rw [hnext]
    exact h.below t (hindices ▸ ht)
  · intro t self' ht
    have ht' : k'.sleepers t = some self' := ht
    by_cases he : t = waker.thread
    · rw [he, hnew] at ht'
      cases ht'
      rw [he]
      exact h.key _ self hself
    · rw [hother t he] at ht'
      exact h.key t self' ht'
  · intro t ht
    have ht' : k'.sleepers t = none := ht
    by_cases he : t = waker.thread
    · rw [he, hnew] at ht'
      cases ht'
    · rw [hother t he] at ht'
      exact h.unborn t ht'
  · intro i suspension hi
    rcases hget i suspension hi with hi | ⟨rfl, rfl⟩
    · by_cases he : suspension.waker.thread = waker.thread
      · have hlt := hold i suspension hi he
        refine ⟨_, by show k'.sleepers _ = _; rw [he]; exact hnew, ?_, fun heq => ?_⟩
        · show _ ≤ s.wakes suspension.waker.thread
          rw [he]
          omega
        · have heq' : suspension.waker.key.toNat = s.wakes suspension.waker.thread := heq
          rw [he] at heq'
          omega
      · obtain ⟨self', hself', hle, hcur⟩ := h.made i suspension hi
        refine ⟨self', by show k'.sleepers _ = _; rw [hother _ he]; exact hself', hle,
          fun heq => ?_⟩
        obtain ⟨h1, h2, h3, h4⟩ := hcur heq
        refine ⟨h1, h2, h3, ?_⟩
        show Function.update s.last _ _ suspension.waker.thread = _
        rw [Function.update_of_ne he]
        exact h4
    · refine ⟨_, hnew, Nat.le_of_eq hcount, fun _ => ⟨rfl, rfl, rfl, ?_⟩⟩
      show Function.update s.last waker.thread _ waker.thread = _
      rw [Function.update_self]
  · intro t self' ht hst
    have ht' : k'.sleepers t = some self' := ht
    by_cases he : t = waker.thread
    · subst he
      refine ⟨s.suspensions.length, ⟨waker, objects, waitType⟩, ?_, ?_, rfl, hcount⟩
      · show Function.update s.last waker.thread _ waker.thread = _
        rw [Function.update_self]
      · show (s.suspensions ++ [_])[s.suspensions.length]? = _
        rw [List.getElem?_append_right (Nat.le_refl _), Nat.sub_self]
        rfl
    · rw [hother t he] at ht'
      obtain ⟨i, suspension, h1, h2, h3, h4⟩ := h.waiting t self' ht' hst
      refine ⟨i, suspension, ?_, hkeep i suspension h2, h3, h4⟩
      show Function.update s.last waker.thread _ t = _
      rw [Function.update_of_ne he]
      exact h1
  · intro x hx
    obtain ⟨i, suspension, h1, h2, h3, h4⟩ := h.ended x hx
    exact ⟨i, suspension, h1, hkeep i suspension h2, h3, h4⟩

/-- Every step keeps the invariant. -/
theorem Inv.step {s s' : Traced} {l : WakeCall} (h : s.Inv) (hfew : s.FewWakes)
    (hstep : Step s l s') : s'.Inv := by
  cases hstep with
  | @suspend objects timeout waitType waker k' hret => exact h.suspend hfew hret
  | @wake i object suspension ok k' hi hret =>
    obtain ⟨hindices, self, hself, hor⟩ := Kernel.wake_sleepers hret
    have hnext : k'.nextTid = s.kernel.nextTid := by
      obtain ⟨thread, _, hk⟩ := Kernel.wake_eq_ret hret
      rcases hk with ⟨_, _, resume, _, rfl⟩ | ⟨_, _, rfl⟩ <;> rfl
    rcases hor with ⟨_, hkey, hsleepers⟩ | ⟨_, _, hsleepers⟩
    · refine h.woken hindices hnext (fun tid _ => decide (tid = suspension.waker.thread)) ?_ ?_
      · intro tid
        rw [hsleepers]
        by_cases he : tid = suspension.waker.thread
        · subst he
          rw [Function.update_self, hself]
          simp
        · rw [Function.update_of_ne he]
          simp [he]
      · intro tid self' hself' hp
        have he : tid = suspension.waker.thread := of_decide_eq_true hp
        subst he
        rw [hself] at hself'
        cases hself'
        obtain ⟨self2, hself2, _, hcur⟩ := h.made i suspension hi
        rw [hself] at hself2
        cases hself2
        exact (hcur (h.key_eq hfew hself hkey)).1
    · refine h.kept hindices hnext (fun tid ht => by rw [hsleepers]; exact ht)
        fun tid self' ht => ⟨self', by rw [hsleepers]; exact ht, rfl, Or.inl rfl⟩
  | @tick time k' hret =>
    obtain ⟨hindices, hsleepers⟩ := Kernel.tickThreadsAt_sleepers hret
    have hnext : k'.nextTid = s.kernel.nextTid := by
      unfold Kernel.tickThreadsAt at hret
      obtain ⟨x, _, hret⟩ := bind_eq_ret.mp hret
      injection hret with hret
      rw [← hret]
    exact h.woken hindices hnext (fun _ self => self.expired time) hsleepers
      fun tid self _ hp => Sleeper.waiting_of_expired hp
  | @runNext started k' hret =>
    obtain ⟨hindices, hor⟩ := Kernel.runNext_sleepers hret
    have hnext := Kernel.runNext_nextTid hret
    rcases hor with hsame | ⟨index, self, hself, hready, hsleepers⟩
    · exact h.kept hindices hnext (fun tid ht => by rw [hsame]; exact ht)
        fun tid self' ht => ⟨self', by rw [hsame]; exact ht, rfl, Or.inl rfl⟩
    · refine h.update hindices hnext hself hsleepers rfl (Or.inr ⟨?_, ?_⟩)
      · rw [hready]
        decide
      · simp [Sleeper.inState]
  | @stop index k' hret =>
    obtain ⟨hindices, pid, tid, self, _, hself, hsleepers⟩ := Kernel.stopThread_sleepers hret
    have hnext : k'.nextTid = s.kernel.nextTid := by
      obtain ⟨_, _, _, _, _, rfl⟩ := Kernel.stopThread_eq_ret hret
      rfl
    by_cases hrun : self.state = .running
    · rw [if_pos hrun] at hsleepers
      refine h.update hindices hnext hself hsleepers rfl (Or.inr ⟨?_, ?_⟩)
      · rw [hrun]
        decide
      · simp [Sleeper.inState]
    · rw [if_neg hrun] at hsleepers
      exact h.update hindices hnext hself hsleepers rfl (Or.inl rfl)
  | @exit pid tid self kobj k' hcur hself hrun hret =>
    obtain ⟨hindices, pid', tid', self', hcur', hself', hsleepers⟩ :=
      Kernel.finishThread_sleepers hret
    rw [hcur] at hcur'
    cases hcur'
    rw [hself] at hself'
    cases hself'
    have hnext : k'.nextTid = s.kernel.nextTid := by
      obtain ⟨_, _, _, _, _, _, rfl⟩ := Kernel.finishThread_eq_ret hret
      rfl
    refine h.update hindices hnext hself hsleepers rfl (Or.inr ⟨?_, ?_⟩)
    · rw [hrun]
      decide
    · simp [Sleeper.inState]
  | newThread hret => exact h.newThread hret
  | other hindices hsleepers hnext =>
    exact h.kept hindices hnext (fun tid ht => by rw [hsleepers]; exact ht)
      fun tid self' ht => ⟨self', by rw [hsleepers]; exact ht, rfl, Or.inl rfl⟩

/-! ## Threads that are done -/

/-- Changing a thread that is not done leaves the others that are. -/
theorem done_update {f : ThreadIndex → Option Sleeper} {tid tid' : ThreadIndex}
    {old self : Sleeper} {new : Option Sleeper} (hold : f tid = some old)
    (hne : old.state ≠ .done) (hself : f tid' = some self) (hdone : self.state = .done) :
    Function.update f tid new tid' = some self := by
  have ht : tid' ≠ tid := fun ht => by
    subst ht
    rw [hold] at hself
    cases hself
    exact hne hdone
  rw [Function.update_of_ne ht]
  exact hself

/-- Every step leaves the threads that are done as they are. -/
theorem Inv.done {s s' : Traced} {l : WakeCall} (h : s.Inv) (hfew : s.FewWakes)
    (hstep : Step s l s') {tid : ThreadIndex} (hdone : s.IsDone tid) : s'.IsDone tid := by
  obtain ⟨self, hself, hstate⟩ := hdone
  refine ⟨self, ?_, hstate⟩
  cases hstep with
  | suspend hret =>
    obtain ⟨old, hold, hrun, _, hsleepers⟩ := Kernel.suspendThread_sleepers hret
    exact (congrFun hsleepers tid).trans
      (done_update hold (by rw [hrun]; decide) hself hstate)
  | @wake i object suspension ok k' hi hret =>
    obtain ⟨_, old, hold, hor⟩ := Kernel.wake_sleepers hret
    show k'.sleepers tid = _
    rcases hor with ⟨_, hkey, hsleepers⟩ | ⟨_, _, hsleepers⟩
    · obtain ⟨old', hold', _, hcur⟩ := h.made i suspension hi
      rw [hold] at hold'
      cases hold'
      have hwaiting := (hcur (h.key_eq hfew hold hkey)).1
      rw [hsleepers]
      exact done_update hold (by rw [hwaiting]; decide) hself hstate
    · rw [hsleepers]
      exact hself
  | @tick time k' hret =>
    obtain ⟨_, hsleepers⟩ := Kernel.tickThreadsAt_sleepers hret
    have hexp : self.expired time = false := by
      unfold Sleeper.expired
      rw [hstate]
      rfl
    show k'.sleepers tid = _
    rw [hsleepers, hself, Option.map_some, hexp]
    rfl
  | runNext hret =>
    obtain ⟨_, hsame | ⟨index, old, hold, hready, hsleepers⟩⟩ := Kernel.runNext_sleepers hret
    · exact (congrFun hsame tid).trans hself
    · exact (congrFun hsleepers tid).trans
        (done_update hold (by rw [hready]; decide) hself hstate)
  | stop hret =>
    obtain ⟨_, _, tid', old, _, hold, hsleepers⟩ := Kernel.stopThread_sleepers hret
    refine (congrFun hsleepers tid).trans ?_
    by_cases hrun : old.state = .running
    · exact done_update hold (by rw [hrun]; decide) hself hstate
    · rw [if_neg hrun, ← hold, Function.update_eq_self]
      exact hself
  | @exit pid tid' old kobj k' hcur hold hrun hret =>
    obtain ⟨_, pid'', tid'', old', hcur', hold', hsleepers⟩ := Kernel.finishThread_sleepers hret
    show k'.sleepers tid = _
    rw [hcur] at hcur'
    cases hcur'
    rw [hsleepers]
    exact done_update hold (by rw [hrun]; decide) hself hstate
  | @newThread pid tid' kobj k' hret =>
    have hfresh : s.kernel.nextTid ∉ s.kernel.indices := fun hmem =>
      Nat.lt_irrefl _ (h.below _ hmem)
    obtain ⟨_, _, _, hnone, hsleepers⟩ := Kernel.newThread_sleepers hret hfresh
    have ht : tid ≠ tid' := fun ht => by
      rw [ht, hnone] at hself
      cases hself
    show k'.sleepers tid = _
    rw [hsleepers, Function.update_of_ne ht]
    exact hself
  | other _ hsleepers _ => exact (congrFun hsleepers tid).trans hself

/-! ## Runs -/

theorem after_wakes (s : Traced) (k' : Kernel) (tid : ThreadIndex) :
    s.wakes tid ≤ (s.after k').wakes tid ∧ (s.after k').wakes tid ≤ s.wakes tid + 1 := by
  show _ ≤ (if tid ∈ wokenThreads s.kernel k' then s.wakes tid + 1 else s.wakes tid) ∧
    (if tid ∈ wokenThreads s.kernel k' then s.wakes tid + 1 else s.wakes tid) ≤ _
  split <;> omega

theorem Step.wakes {s s' : Traced} {l : WakeCall} (hstep : Step s l s') (tid : ThreadIndex) :
    s.wakes tid ≤ s'.wakes tid ∧ s'.wakes tid ≤ s.wakes tid + 1 := by
  cases hstep <;> exact after_wakes s _ tid

/-- Wakes only add up, so what bounds them at the end bounds them all along. -/
theorem FewWakes.everyStep {tr : List (Traced × WakeCall)} {s : Traced}
    (h : Run wakeSystem tr s) (hfew : s.FewWakes) : EveryStep (fun s _ => s.FewWakes) tr := by
  induction h with
  | start _ => exact everyStep_nil _
  | next _ hstep ih =>
    have hfew' : Traced.FewWakes _ := fun tid => Nat.lt_of_le_of_lt (hstep.wakes tid).1 (hfew tid)
    exact everyStep_cons.mpr ⟨hfew', ih hfew'⟩

/-- A thread is woken at most once a step. -/
theorem FewWakes.of_length {tr : List (Traced × WakeCall)} {s : Traced}
    (h : Run wakeSystem tr s) (hlen : tr.length < 18446744073709551616) : s.FewWakes := by
  have hle : ∀ tid, s.wakes tid ≤ tr.length := by
    clear hlen
    induction h with
    | start h0 =>
      intro tid
      rw [h0.2.2.2.1]
      exact Nat.le_refl _
    | next _ hstep ih =>
      intro tid
      rw [List.length_cons]
      exact Nat.le_trans (hstep.wakes tid).2 (Nat.succ_le_succ (ih tid))
  exact fun tid => Nat.lt_of_le_of_lt (hle tid) hlen

theorem Inv.start {s : Traced} (h : wakeSystem.init s) : s.Inv := by
  obtain ⟨hthreads, hsuspensions, hlast, hwakes, hended⟩ := h
  have hindices : s.kernel.indices = [] := by
    unfold Kernel.indices
    rw [hthreads]
    rfl
  have hnone : ∀ tid, s.kernel.sleepers tid = none := fun tid => by
    unfold Kernel.sleepers Kernel.thread?
    rw [hthreads]
    rfl
  refine ⟨by rw [hindices]; exact List.nodup_nil, ?_, ?_, ?_, ?_, ?_, ?_, ?_⟩
  · intro tid htid
    rw [hindices] at htid
    cases htid
  · intro tid self hself
    rw [hnone] at hself
    cases hself
  · intro tid _
    rw [hwakes]
  · intro i suspension hi
    rw [hsuspensions] at hi
    cases hi
  · intro tid self hself
    rw [hnone] at hself
    cases hself
  · intro x hx
    rw [hended] at hx
    cases hx
  · rw [hended]
    exact List.nodup_nil

theorem Inv.run {tr : List (Traced × WakeCall)} {s : Traced} (h : Run wakeSystem tr s)
    (hfew : s.FewWakes) : s.Inv :=
  h.invariant_of (fun _ => Inv.start) (fun _ _ _ hi hc hstep => hi.step hc hstep)
    (FewWakes.everyStep h hfew)

end Traced

/-- In every run, as long as no thread was woken 2^64 times:

    * a waker wakes its thread only in the suspension that made the waker;
    * what ends a suspension (a wake or a timeout) ends one that was made, and no suspension
      is ended twice;
    * a thread that was done at any point of the run is done;
    * an object of a suspension can use its waker, at any time: the wake does not panic. -/
theorem wakesOnce {tr : List (Traced × WakeCall)} {s : Traced} (h : Run wakeSystem tr s)
    (hfew : s.FewWakes) :
    (∀ (i : Nat) suspension object k', s.suspensions[i]? = some suspension →
      suspension.waker.wake object s.kernel = .ret (true, k') → s.StillIn i suspension) ∧
    ((∀ x ∈ s.ended, ∃ (i : Nat) (suspension : Suspension),
        x = (suspension.waker.thread, some i) ∧ s.suspensions[i]? = some suspension) ∧
      s.ended.Nodup) ∧
    (∀ x ∈ tr, ∀ tid, x.1.IsDone tid → s.IsDone tid) ∧
    ∀ (i : Nat) suspension, s.suspensions[i]? = some suspension → suspension.SleepsOnNothing →
      ∀ object ∈ suspension.objects, ∀ e, suspension.waker.wake object s.kernel ≠ .panic e := by
  have hinv := Traced.Inv.run h hfew
  refine ⟨?_, ⟨?_, hinv.endedOnce⟩, ?_, ?_⟩
  · intro i suspension object k' hi hwake
    obtain ⟨_, self, hself, hor⟩ := Kernel.wake_sleepers hwake
    rcases hor with ⟨_, hkey, _⟩ | ⟨hok, _⟩
    · obtain ⟨self', hself', _, hcur⟩ := hinv.made i suspension hi
      rw [hself] at hself'
      cases hself'
      obtain ⟨hwaiting, _, _, hlast⟩ := hcur (hinv.key_eq hfew hself hkey)
      exact ⟨self, hself, hwaiting, hlast⟩
    · cases hok
  · intro x hx
    obtain ⟨i, suspension, h1, h2, h3, _⟩ := hinv.ended x hx
    exact ⟨i, suspension, Prod.ext h3.symm h1, h2⟩
  · intro x hx tid
    exact h.stable (fun _ => Traced.Inv.start) (fun _ _ _ hi hc hstep => hi.step hc hstep)
      (fun _ _ _ hi hc hstep => hi.done hc hstep) (Traced.FewWakes.everyStep h hfew) x hx
  · intro i suspension hi hsleep object hobject e hpanic
    obtain ⟨self, hself, _, hcur⟩ := hinv.made i suspension hi
    rcases Kernel.wake_eq_panic hpanic with hnone | ⟨thread, hthread, hkey, hresume⟩
    · unfold Kernel.sleepers at hself
      rw [hnone] at hself
      cases hself
    · have hthread' : s.kernel.sleepers suspension.waker.thread = some thread.sleeper := by
        unfold Kernel.sleepers
        rw [hthread]
        rfl
      rw [hthread'] at hself
      cases hself
      obtain ⟨_, hobjects, htype, _⟩ := hcur (hinv.key_eq hfew hthread' hkey)
      have hne : suspension.waitType ≠ .sleep := fun hs => by
        rw [hsleep hs] at hobject
        cases hobject
      refine CommonThread.resumeFor_ne_panic htype ?_ hne e hresume
      show object ∈ thread.sleeper.waitObjects
      rw [hobjects]
      exact hobject

/-- A kernel with a process and no thread. -/
def Traced.sample : Traced where
  kernel := { Kernel.new with processes := [⟨0, ObjectTable.new, .hle⟩] }
  suspensions := []
  last := fun _ => none
  wakes := fun _ => 0
  ended := []

/-- A thread is made, runs, waits on object 0 and is woken by it; the object may use the waker
    once more. -/
theorem wakesOnce_sample : ∃ tr s, Run wakeSystem tr s ∧ s.ended = [(0, some 0)] ∧
    s.ended.Nodup ∧ ∀ e, (⟨0, 0⟩ : Waker).wake 0 s.kernel ≠ .panic e := by
  have h0 : Run wakeSystem [] Traced.sample := .start ⟨rfl, rfl, rfl, rfl, rfl⟩
  have h1 := h0.next (show Traced.Step _ (.newThread 0) _ from .newThread rfl)
  have h2 := h1.next (show Traced.Step _ .runNext _ from .runNext rfl)
  have h3 := h2.next (show Traced.Step _ (.suspend [0] none .waitSync1) _ from .suspend rfl)
  have h4 := h3.next (show Traced.Step _ (.wake 0 0) _ from .wake rfl rfl)
  obtain ⟨_, ⟨_, hended⟩, _, hpanic⟩ := wakesOnce h4 (Traced.FewWakes.of_length h4 (by decide))
  exact ⟨_, _, h4, rfl, hended, hpanic 0 ⟨⟨0, 0⟩, [0], .waitSync1⟩ rfl (fun h => by cases h) 0
    (List.mem_singleton.mpr rfl)⟩

end Pomelo
