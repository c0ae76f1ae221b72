/-
  Waiting on any of several objects.

  The waker of the thread goes to one object after the other. Up to the first that is ready each
  takes it into its queue (`waitEach_absent`); that one is taken, and wakes the thread
  (`wait_takes`); behind it the waker is stale, and each object that is ready is taken and given
  back (`waitEach_late`). So it is what an object is without its queue that these lemmas follow
  (`unqueued`).
-/
import Pomelo.Hle.LiveWakers

namespace Pomelo

open Lib Outcome

/-! ## One object -/

namespace KObject

/-- The object without its queue. -/
def unqueued (x : KObject) : KObject := x.setWakers []

/-- The flag of an object that a thread has taken: a signal is gone if it is not sticky, a mutex
    is acquired. -/
def takenFlag : KObject → Option Bool
  | event self => some self.signal.isSticky
  | timer self => some self.signal.isSticky
  | mutex _ => some true
  | thread _ => some true
  | _ => none

variable {x y : KObject} {w : Waker}

theorem unqueued_setWakers (ws : List Waker) (x : KObject) :
    (x.setWakers ws).unqueued = x.unqueued := by
  cases x <;> rfl

theorem unqueued_pushWaker (w : Waker) (x : KObject) : (x.pushWaker w).unqueued = x.unqueued := by
  cases x <;> rfl

theorem unqueued_removeWakers (id : Nat) (h : x.isSync = true) :
    (x.removeWakers id).unqueued = x.unqueued := by
  cases x with
  | arbiter self => cases h
  | codeSet => cases h
  | _ => rfl

theorem flag_unqueued (x : KObject) : x.unqueued.flag = x.flag := by
  cases x <;> rfl

theorem isSync_unqueued (x : KObject) : x.unqueued.isSync = x.isSync := by
  cases x <;> rfl

theorem isSync_takeFor (x y : KObject) : (x.takeFor y).isSync = y.isSync := by
  cases x <;> cases y <;> rfl

theorem unqueued_takeFor (x y : KObject) : (x.takeFor y).unqueued = x.takeFor y.unqueued := by
  cases x <;> cases y <;> rfl

theorem setWakers_wakers (x : KObject) : x.setWakers x.wakers = x := by
  cases x <;> rfl

theorem flag_takeFor (h : x.ready = true) : (x.takeFor x).flag = x.takenFlag := by
  cases x with
  | event self =>
    show some (self.signal.consume.2).signaled = _
    rw [consume_of_signaled h]
    rfl
  | timer self =>
    show some (self.signal.consume.2).signaled = _
    rw [consume_of_signaled h]
    rfl
  | mutex self => rfl
  | thread self => exact congrArg some h
  | _ => cases h

theorem unconsume_consume {signal : Signal} (h : signal.signaled = true) :
    signal.consume.2.unconsume = signal := by
  rw [consume_of_signaled h]
  obtain ⟨resetType, signaled⟩ := signal
  exact congrArg (Signal.mk resetType) h.symm

/-- An object that is taken and given back is as before. -/
theorem untakeFor_takeFor (h : x.ready = true) : x.untakeFor (x.takeFor x) = x := by
  cases x with
  | event self =>
    have hsame : self.signal.consume.2.unconsume = self.signal := unconsume_consume h
    exact congrArg (fun signal => event { self with signal := signal }) hsame
  | timer self =>
    have hsame : self.signal.consume.2.unconsume = self.signal := unconsume_consume h
    exact congrArg (fun signal => timer { self with signal := signal }) hsame
  | mutex self =>
    have hfree : self.acquired = false := by simpa [ready] using h
    exact congrArg (fun acquired => mutex { self with acquired := acquired }) hfree.symm
  | thread self => rfl
  | _ => cases h

/-- The waits of all kinds of objects are one. -/
theorem wait_eq {k : Kernel} {o : ObjId} (h : x.isSync = true) :
    KObject.wait o w k x = waitOr o w x.ready x.takeFor x.untakeFor k := by
  cases x with
  | event self =>
    show waitOr o w self.signal.consume.1 _ _ k = _
    rw [consume_fst]
    rfl
  | timer self =>
    show waitOr o w self.signal.consume.1 _ _ k = _
    rw [consume_fst]
    rfl
  | arbiter self => cases h
  | codeSet => cases h
  | _ => rfl

end KObject

/-! ## Waking a thread -/

section Wake

variable {k : Kernel} {o p : ObjId} {w : Waker} {x : KObject} {thread : CommonThread}
  {resume : ThreadResume}

theorem CommonThread.resumeFor_waitSyncN {self : CommonThread}
    (ht : self.waitType = some .waitSyncN) (ho : o ∈ self.waitObjects) :
    self.resumeFor (.object o) = .ret (.waitSyncN (self.waitObjects.idxOf o)) := by
  have hindex : self.waitObjects.findIdx? (fun other => other = o) =
      some (self.waitObjects.idxOf o) := by
    rw [List.findIdx?_eq_some_of_exists ⟨o, ho, by simp⟩]
    rfl
  unfold resumeFor
  rw [ht, expect_some, ret_bind]
  dsimp only
  rw [hindex]
  rfl

/-- The thread of the waker is woken. -/
def Kernel.afterWake (k : Kernel) (thread : CommonThread) (resume : ThreadResume) : Kernel :=
  { k.setThread (thread.woken resume) with
    objects := k.objects.removeWakers thread.index thread.waitObjects }

theorem wake_live (hthread : k.thread? w.thread = some thread) (hkey : thread.wakeKey = w.key)
    (hresume : thread.resumeFor (.object o) = .ret resume) :
    w.wake o k = .ret (true, k.afterWake thread resume) := by
  unfold Waker.wake Kernel.wakeUpThread
  rw [Kernel.findThread_eq_ret.mpr hthread, ret_bind, if_pos hkey]
  unfold CommonThread.wakeUp
  rw [hresume, ret_bind]
  rfl

theorem wake_stale (hthread : k.thread? w.thread = some thread) (hkey : thread.wakeKey ≠ w.key) :
    w.wake o k = .ret (false, k) := by
  unfold Waker.wake Kernel.wakeUpThread
  rw [Kernel.findThread_eq_ret.mpr hthread, ret_bind, if_neg hkey]
  rfl

theorem Kernel.thread?_afterWake {t : ThreadIndex} (hthread : k.thread? t = some thread)
    (t' : ThreadIndex) : (k.afterWake thread resume).thread? t' =
      if t' = t then some (thread.woken resume) else k.thread? t' := by
  show (k.setThread (thread.woken resume)).thread? t' = _
  rw [Kernel.thread?_setThread, CommonThread.woken_index, Kernel.thread?_index hthread]
  split
  · rename_i ht
    rw [ht, hthread]
    rfl
  · rfl

theorem Kernel.object?_afterWake (p : ObjId) : (k.afterWake thread resume).object? p =
    if p ∈ thread.waitObjects then (k.object? p).map (KObject.removeWakers thread.index)
    else k.object? p :=
  Objects.at?_removeWakers thread.index thread.waitObjects k.objects p

end Wake

/-! ## Waiting on the objects in turn -/

/-- The objects of the list are there, and can be waited on. -/
def Kernel.Waitable (k : Kernel) (os : List ObjId) : Prop :=
  ∀ o ∈ os, ∃ x, k.object? o = some x ∧ x.isSync = true

/-- No object changed but for its queue. -/
def Kernel.Requeues (k k' : Kernel) : Prop :=
  ∀ p, (k'.object? p).map KObject.unqueued = (k.object? p).map KObject.unqueued

section Waits

variable {k k' : Kernel} {o p : ObjId} {os pre post : List ObjId} {w : Waker} {x : KObject}
  {thread : CommonThread}

theorem ready_of_object? (hx : k.object? o = some x) : k.objects.ready o = x.ready :=
  View.ready_of_object? (v := k.view) hx

namespace Kernel

theorem Requeues.refl (k : Kernel) : k.Requeues k := fun _ => rfl

theorem Requeues.trans {k'' : Kernel} (h : k.Requeues k') (h' : k'.Requeues k'') :
    k.Requeues k'' :=
  fun p => (h' p).trans (h p)

theorem requeues_pushWaker (k : Kernel) (o : ObjId) (w : Waker) :
    k.Requeues (k.modifyObject o (KObject.pushWaker w)) := by
  intro p
  rw [object?_modifyObject]
  split
  · cases k.object? p with
    | none => rfl
    | some x => exact congrArg some (KObject.unqueued_pushWaker w x)
  · rfl

theorem Waitable.tail (h : k.Waitable (o :: os)) : k.Waitable os :=
  fun p hp => h p (List.mem_cons_of_mem o hp)

theorem Waitable.requeues (h : k.Waitable os) (hr : k.Requeues k') : k'.Waitable os := by
  intro o ho
  obtain ⟨x, hx, hsync⟩ := h o ho
  have hsame := hr o
  rw [hx] at hsame
  obtain ⟨y, hy, heq⟩ := Option.map_eq_some_iff.mp hsame
  refine ⟨y, hy, ?_⟩
  rw [← KObject.isSync_unqueued, heq, KObject.isSync_unqueued, hsync]

/-- What an object becomes is a matter of what it is without its queue. -/
theorem Requeues.modify {f : KObject → KObject} (h : k.Requeues k')
    (hf : ∀ y : KObject, (f y).unqueued = f y.unqueued) :
    (k.modifyObject o f).Requeues (k'.modifyObject o f) := by
  have hmap : ∀ y : Option KObject,
      (y.map f).map KObject.unqueued = (y.map KObject.unqueued).map f := by
    intro y
    cases y with
    | none => rfl
    | some y => exact congrArg some (hf y)
  intro p
  rw [object?_modifyObject, object?_modifyObject]
  split
  · rw [hmap, hmap, h p]
  · exact h p

theorem requeues_afterWake {resume : ThreadResume} (h : k.Waitable thread.waitObjects) :
    k.Requeues (k.afterWake thread resume) := by
  intro p
  rw [object?_afterWake]
  split
  · rename_i hp
    obtain ⟨x, hx, hsync⟩ := h p hp
    rw [hx]
    exact congrArg some (KObject.unqueued_removeWakers thread.index hsync)
  · rfl

theorem Waitable.modify {f : KObject → KObject} (h : k.Waitable os)
    (hf : ∀ y : KObject, (f y).isSync = y.isSync) : (k.modifyObject o f).Waitable os := by
  intro p hp
  obtain ⟨x, hx, hsync⟩ := h p hp
  rw [object?_modifyObject, hx]
  split
  · exact ⟨f x, rfl, (hf x).trans hsync⟩
  · exact ⟨x, rfl, hsync⟩

theorem waitEach_eq_cons (hx : k.object? o = some x) (hsync : x.isSync = true) :
    waitEach w (o :: os) k = (KObject.wait o w k x >>= fun k => waitEach w os k) := by
  have hfilter : (some x).filter KObject.isSync = some x := Option.filter_eq_some_iff.mpr
    ⟨rfl, hsync⟩
  rw [waitEach, hx, hfilter, expect_some, ret_bind]

theorem waitEach_append {k1 : Kernel} (h : waitEach w pre k = .ret k1) :
    waitEach w (pre ++ post) k = waitEach w post k1 := by
  induction pre generalizing k with
  | nil =>
    injection h with h
    rw [h]
    rfl
  | cons o pre ih =>
    obtain ⟨x, hx, h⟩ := bind_eq_ret.mp h
    obtain ⟨k2, hwait, h⟩ := bind_eq_ret.mp h
    rw [List.cons_append, waitEach, hx, ret_bind, hwait, ret_bind]
    exact ih h

/-- An object that is not ready takes the waker into its queue. -/
theorem wait_absent (hsync : x.isSync = true) (hready : x.ready = false) :
    KObject.wait o w k x = .ret (k.modifyObject o (KObject.pushWaker w)) := by
  rw [KObject.wait_eq hsync, hready]
  rfl

/-- Objects of which none is ready take the waker, each as often as it is in the list. -/
theorem waitEach_absent (hw : k.Waitable os) (hready : ∀ o ∈ os, k.objects.ready o = false) :
    ∃ k', waitEach w os k = .ret k' ∧ k'.thread? = k.thread? ∧
      ∀ p, k'.object? p = (k.object? p).map fun x =>
        x.setWakers (x.wakers ++ List.replicate (os.count p) w) := by
  induction os generalizing k with
  | nil =>
    refine ⟨k, rfl, rfl, fun p => ?_⟩
    cases k.object? p with
    | none => rfl
    | some x =>
      rw [Option.map_some, List.count_nil, List.replicate_zero, List.append_nil,
        KObject.setWakers_wakers]
  | cons o os ih =>
    obtain ⟨x, hx, hsync⟩ := hw o List.mem_cons_self
    have habsent : x.ready = false := by
      rw [← ready_of_object? hx]
      exact hready o List.mem_cons_self
    have hobject : ∀ p, (k.modifyObject o (KObject.pushWaker w)).object? p =
        if p = o then (k.object? p).map (KObject.pushWaker w) else k.object? p :=
      fun p => object?_modifyObject k o p _
    have hrest : ∀ p ∈ os, (k.modifyObject o (KObject.pushWaker w)).objects.ready p = false := by
      intro p hp
      rw [← hready p (List.mem_cons_of_mem o hp)]
      show ((k.modifyObject o _).object? p).any KObject.ready = (k.object? p).any KObject.ready
      rw [hobject]
      split
      · cases k.object? p with
        | none => rfl
        | some y => exact KObject.ready_pushWaker w y
      · rfl
    obtain ⟨k', hret, hthreads, hobjects⟩ :=
      ih (hw.tail.requeues (requeues_pushWaker k o w)) hrest
    refine ⟨k', ?_, hthreads, fun p => ?_⟩
    · rw [waitEach_eq_cons hx hsync, wait_absent hsync habsent, ret_bind]
      exact hret
    · rw [hobjects, hobject]
      split
      · rename_i hp
        rw [hp, hx, Option.map_some, Option.map_some, Option.map_some, List.count_cons_self]
        refine congrArg some ?_
        have happend : ∀ ws n, ws ++ List.replicate (n + 1) w =
            (ws ++ [w]) ++ List.replicate n w := by
          intro ws n
          rw [List.append_assoc]
          rfl
        rw [happend]
        cases x with
        | arbiter self => cases hsync
        | codeSet => cases hsync
        | _ => rfl
      · rename_i hp
        rw [List.count_cons_of_ne (Ne.symm hp)]

/-- Behind the object that woke the thread, an object that is ready is taken and given back. -/
theorem wait_late (hx : k.object? o = some x) (hsync : x.isSync = true)
    (hthread : k.thread? w.thread = some thread) (hkey : thread.wakeKey ≠ w.key) :
    ∃ k', KObject.wait o w k x = .ret k' ∧ k'.thread? = k.thread? ∧ k.Requeues k' := by
  by_cases hready : x.ready = true
  · refine ⟨(k.modifyObject o x.takeFor).modifyObject o x.untakeFor, ?_, rfl, fun p => ?_⟩
    · have hthread' : (k.modifyObject o x.takeFor).thread? w.thread = some thread := hthread
      rw [KObject.wait_eq hsync]
      unfold waitOr
      rw [if_pos hready, wake_stale hthread' hkey, ret_bind]
      rfl
    · rw [modifyObject_modifyObject, object?_modifyObject]
      split
      · rename_i hp
        rw [hp, hx, Option.map_some, KObject.untakeFor_takeFor hready]
      · rfl
  · have hready : x.ready = false := by simpa using hready
    exact ⟨_, wait_absent hsync hready, rfl, requeues_pushWaker k o w⟩

theorem waitEach_late (hw : k.Waitable os) (hthread : k.thread? w.thread = some thread)
    (hkey : thread.wakeKey ≠ w.key) :
    ∃ k', waitEach w os k = .ret k' ∧ k'.thread? = k.thread? ∧ k.Requeues k' := by
  induction os generalizing k with
  | nil => exact ⟨k, rfl, rfl, .refl k⟩
  | cons o os ih =>
    obtain ⟨x, hx, hsync⟩ := hw o List.mem_cons_self
    obtain ⟨k1, hone, hthreads, hrequeues⟩ := wait_late hx hsync hthread hkey
    have hthread' : k1.thread? w.thread = some thread := by
      rw [hthreads]
      exact hthread
    obtain ⟨k2, hrest, hthreads', hrequeues'⟩ := ih (hw.tail.requeues hrequeues) hthread'
    refine ⟨k2, ?_, hthreads'.trans hthreads, hrequeues.trans hrequeues'⟩
    rw [waitEach_eq_cons hx hsync, hone, ret_bind]
    exact hrest

/-- The first object that is ready is taken, and wakes the thread. -/
theorem wait_takes (hsync : x.isSync = true) (hready : x.ready = true)
    (hthread : k.thread? w.thread = some thread) (hkey : thread.wakeKey = w.key)
    (htype : thread.waitType = some .waitSyncN) (ho : o ∈ thread.waitObjects) :
    KObject.wait o w k x = .ret ((k.modifyObject o x.takeFor).afterWake thread
      (.waitSyncN (thread.waitObjects.idxOf o))) := by
  have hthread' : (k.modifyObject o x.takeFor).thread? w.thread = some thread := hthread
  rw [KObject.wait_eq hsync]
  unfold waitOr
  rw [if_pos hready,
    wake_live hthread' hkey (CommonThread.resumeFor_waitSyncN htype ho), ret_bind]
  rfl

/-- Where `o` is the first object that is ready, the thread wakes with its index, and no object
    but `o` changes besides its queue. -/
theorem waitEach_takes (hw : k.Waitable (pre ++ o :: post)) (hx : k.object? o = some x)
    (hready : x.ready = true) (hpre : ∀ p ∈ pre, k.objects.ready p = false)
    (hthread : k.thread? w.thread = some thread) (hkey : thread.wakeKey = w.key)
    (htype : thread.waitType = some .waitSyncN) (hobjects : thread.waitObjects = pre ++ o :: post) :
    ∃ k', waitEach w (pre ++ o :: post) k = .ret k' ∧
      k'.thread? w.thread = some (thread.woken (.waitSyncN pre.length)) ∧
      (∀ t, t ≠ w.thread → k'.thread? t = k.thread? t) ∧
      (k.modifyObject o x.takeFor).Requeues k' := by
  have hmem : o ∈ pre ++ o :: post := List.mem_append_right _ List.mem_cons_self
  have hnot : o ∉ pre := by
    intro ho
    have hfalse := hpre o ho
    rw [ready_of_object? hx, hready] at hfalse
    cases hfalse
  have hsync : x.isSync = true := by
    obtain ⟨y, hy, hsync⟩ := hw o hmem
    rw [hx] at hy
    injection hy with hy
    exact hy ▸ hsync
  have hindex : thread.waitObjects.idxOf o = pre.length := by
    rw [hobjects, List.idxOf_append, if_neg hnot, List.idxOf_cons_self, Nat.zero_add]
  -- the objects before `o`
  obtain ⟨k1, hret1, hthreads1, hobjects1⟩ :=
    waitEach_absent (w := w) (fun p hp => hw p (List.mem_append_left _ hp)) hpre
  have hx1 : k1.object? o = some x := by
    rw [hobjects1, hx, Option.map_some, List.count_eq_zero_of_not_mem hnot, List.replicate_zero,
      List.append_nil, KObject.setWakers_wakers]
  have hrequeues1 : k.Requeues k1 := by
    intro p
    rw [hobjects1, Option.map_map]
    congr 1
    funext y
    exact KObject.unqueued_setWakers _ y
  have hthread1 : k1.thread? w.thread = some thread := by
    rw [hthreads1]
    exact hthread
  -- `o` itself
  have hret2 := wait_takes hsync hready hthread1 hkey htype (hobjects ▸ hmem)
  rw [hindex] at hret2
  have htaken : (k.modifyObject o x.takeFor).Requeues (k1.modifyObject o x.takeFor) :=
    hrequeues1.modify (KObject.unqueued_takeFor x)
  have hw1 : (k1.modifyObject o x.takeFor).Waitable (pre ++ o :: post) :=
    (hw.requeues hrequeues1).modify (KObject.isSync_takeFor x)
  have hrequeues2 : (k.modifyObject o x.takeFor).Requeues
      ((k1.modifyObject o x.takeFor).afterWake thread (.waitSyncN pre.length)) :=
    htaken.trans (requeues_afterWake (hobjects ▸ hw1))
  have hthread2 : ∀ t, ((k1.modifyObject o x.takeFor).afterWake thread
      (.waitSyncN pre.length)).thread? t =
        if t = w.thread then some (thread.woken (.waitSyncN pre.length)) else k.thread? t := by
    intro t
    have hthread1' : (k1.modifyObject o x.takeFor).thread? w.thread = some thread := hthread1
    rw [thread?_afterWake hthread1', thread?_modifyObject, hthreads1]
  -- the objects behind it
  have hwoken := hthread2 w.thread
  rw [if_pos rfl] at hwoken
  have hstale : (thread.woken (.waitSyncN pre.length)).wakeKey ≠ w.key := by
    show thread.wakeKey + 1 ≠ w.key
    rw [← hkey]
    grind
  have hw2 : ((k1.modifyObject o x.takeFor).afterWake thread
      (.waitSyncN pre.length)).Waitable post := by
    have hw' : ((k1.modifyObject o x.takeFor).afterWake thread
        (.waitSyncN pre.length)).Waitable (pre ++ o :: post) :=
      hw1.requeues (requeues_afterWake (hobjects ▸ hw1))
    exact fun p hp => hw' p (List.mem_append_right _ (List.mem_cons_of_mem o hp))
  obtain ⟨k3, hret3, hthreads3, hrequeues3⟩ := waitEach_late hw2 hwoken hstale
  refine ⟨k3, ?_, ?_, fun t ht => ?_, hrequeues2.trans hrequeues3⟩
  · rw [waitEach_append hret1, waitEach_eq_cons hx1 hsync, hret2, ret_bind]
    exact hret3
  · rw [hthreads3, hwoken]
  · rw [hthreads3, hthread2, if_neg ht]

end Kernel

end Waits

/-! ## While the thread sleeps -/

namespace View

variable {v v' : View} {t : ThreadIndex} {self : Sleeper}

/-- Everything that can happen from a view on. -/
def system (v : View) : System View Move where
  init v0 := v0 = v
  step := Step

def Asleep (v : View) (t : ThreadIndex) : Prop :=
  ∃ self, v.sleepers t = some self ∧ self.state = .waiting

/-- The thread still sleeps, on the same, or it does not wait any more. -/
def SleepsOn (t : ThreadIndex) (self : Sleeper) (v : View) : Prop :=
  v.sleepers t = some self ∨ ¬ v.Asleep t

theorem not_asleep {self' : Sleeper} (hself : v.sleepers t = some self')
    (hstate : self'.state ≠ .waiting) : ¬ v.Asleep t := by
  rintro ⟨self1, hself1, hwaiting⟩
  rw [hself] at hself1
  injection hself1 with hself1
  exact hstate (hself1 ▸ hwaiting)

/-- A thread that is not woken is left alone. -/
theorem SleepsOn.update {t' : ThreadIndex} {self' : Sleeper} (h : v.SleepsOn t self)
    (hstate : self'.state ≠ .waiting)
    (hv : v'.sleepers = Function.update v.sleepers t' (some self')) : v'.SleepsOn t self := by
  unfold SleepsOn Asleep
  rw [hv]
  by_cases ht : t = t'
  · subst ht
    exact Or.inr (not_asleep (v := { v with sleepers := Function.update v.sleepers t (some self') })
      (Function.update_self _ _ _) hstate)
  · rw [Function.update_of_ne ht]
    exact h

theorem SleepsOn.wake {t' : ThreadIndex} {self' : Sleeper} (h : v.SleepsOn t self) :
    (v.wake t' self').SleepsOn t self :=
  have hstate : self'.woken.state ≠ .waiting := by
    show ThreadState.ready ≠ .waiting
    decide
  h.update hstate rfl

theorem SleepsOn.wakes {ws : List Waker} (h : v.SleepsOn t self) :
    (ws.foldl tryWake v).SleepsOn t self := by
  induction ws generalizing v with
  | nil => exact h
  | cons w ws ih =>
    have hone : (v.tryWake w).SleepsOn t self := by
      unfold View.tryWake
      split
      · split
        · exact h.wake
        · exact h
      · exact h
    exact ih hone

/-- A move leaves a thread that sleeps alone, or wakes it. -/
theorem Step.sleepsOn {m : Move} (hs : Step v m v') (hself : v.sleepers t = some self)
    (hstate : self.state = .waiting) : v'.SleepsOn t self := by
  have h : v.SleepsOn t self := Or.inl hself
  cases hs with
  | turn hself' hold hnew => exact h.update hnew rfl
  | born =>
    left
    show (v.sleepers t).or _ = _
    rw [hself]
    rfl
  | @suspend t' self' objects timeout waitType hself' hrunning =>
    have ht : t ≠ t' := by
      intro ht
      rw [← ht, hself] at hself'
      injection hself' with hself'
      rw [← hself', hstate] at hrunning
      cases hrunning
    left
    exact (Function.update_of_ne ht _ _).trans hself
  | expire => exact h.wake
  | take => exact SleepsOn.wake h
  | act => exact SleepsOn.wakes h
  | _ => exact h

/-- As long as a thread sleeps, it sleeps on the same. -/
theorem sleepers_of_run {v0 : View} {tr : List (View × Move)} (h : Run (system v0) tr v)
    (hself : v0.sleepers t = some self) (hstate : self.state = .waiting)
    (hasleep : EveryState (fun v => v.Asleep t) tr v) : v.sleepers t = some self := by
  induction h with
  | start hv =>
    rw [hv]
    exact hself
  | next _ hstep ih =>
    obtain ⟨hlast, hbefore⟩ := everyState_cons.mp hasleep
    rcases Step.sleepsOn hstep (ih hbefore) hstate with hsame | hnot
    · exact hsame
    · exact absurd hlast hnot

end View

/-! ## `wait_sync_n` -/

/-- The thread, asleep. -/
def CommonThread.suspended (self : CommonThread) (objects : List ObjId)
    (timeout : Option UInt64) (waitType : ThreadWaitType) : CommonThread :=
  { self with
    waitObjects := objects
    state := .waiting
    waitTimeout := timeout
    waitType := some waitType }

namespace Kernel

variable {k : Kernel} {t : ThreadIndex} {thread : CommonThread} {objects : List ObjId}
  {deadline : Option UInt64}

/-- The thread has taken the object with the index, and does not sleep. -/
structure Took (k : Kernel) (t : ThreadIndex) (index : Nat) (o : ObjId) (k' : Kernel) : Prop where
  ready : ∃ thread, k'.thread? t = some thread ∧ thread.state = .ready ∧
    thread.resume = .waitSyncN index
  taken : (k'.object? o).bind KObject.flag = (k.object? o).bind KObject.takenFlag
  flags : ∀ p, p ≠ o → (k'.object? p).bind KObject.flag = (k.object? p).bind KObject.flag
  data : ∀ p, p ≠ o → (k'.object? p).map KObject.unqueued = (k.object? p).map KObject.unqueued
  others : ∀ t', t' ≠ t → k'.thread? t' = k.thread? t'

/-- The thread of the waker sleeps on the objects. Whatever happens while it sleeps, any of them
    can wake it: it resumes with the first place of that object, and its wakers are gone. -/
structure Sleeps (k : Kernel) (w : Waker) (objects : List ObjId) (k' : Kernel) : Prop where
  waiting : ∃ thread, k'.thread? w.thread = some thread ∧ thread.state = .waiting ∧
    thread.wakeKey = w.key
  queued : ∀ p, k'.object? p = (k.object? p).map fun x =>
    x.setWakers (x.wakers ++ List.replicate (objects.count p) w)
  flags : ∀ p, (k'.object? p).bind KObject.flag = (k.object? p).bind KObject.flag
  others : ∀ t, t ≠ w.thread → k'.thread? t = k.thread? t
  wakes : ∀ (tr : List (View × Move)) (k1 : Kernel), Run (View.system k'.view) tr k1.view →
    EveryState (fun v => v.Asleep w.thread) tr k1.view → ∀ o ∈ objects,
      ∃ k2, w.wake o k1 = .ret (true, k2) ∧
        (∃ thread, k2.thread? w.thread = some thread ∧ thread.state = .ready ∧
          thread.resume = .waitSyncN (objects.idxOf o)) ∧
        ∀ p ∈ objects, ∀ w' ∈ k2.wakers p, w'.thread ≠ w.thread

/-- A thread that runs suspends itself. -/
theorem suspendThread_of_running {pid : ProcessId} (hcur : k.current = some (pid, t))
    (hthread : k.thread? t = some thread) (hrunning : thread.state = .running)
    (waitType : ThreadWaitType) : k.suspendThread objects deadline waitType =
      .ret (⟨t, thread.wakeKey⟩, k.setThread (thread.suspended objects deadline waitType)) := by
  have hwait : thread.wait objects =
      .ret { thread with waitObjects := objects, state := .waiting } := by
    unfold CommonThread.wait
    rw [decide_eq_true hrunning, assert_true, ret_bind]
    rfl
  unfold suspendThread
  rw [currentPidTid_eq_ret.mpr hcur, ret_bind]
  dsimp only
  rw [findThread_eq_ret.mpr hthread, ret_bind, hwait, ret_bind, ← thread?_index hthread]
  rfl

theorem thread?_suspended {waitType : ThreadWaitType} (hthread : k.thread? t = some thread)
    (t' : ThreadIndex) :
    (k.setThread (thread.suspended objects deadline waitType)).thread? t' =
      if t' = t then some (thread.suspended objects deadline waitType) else k.thread? t' := by
  have hindex : (thread.suspended objects deadline waitType).index = t := by
    rw [← thread?_index hthread]
    rfl
  rw [thread?_setThread, hindex]
  split
  · rename_i ht
    rw [ht, hthread]
    rfl
  · rfl

/-- The wakers of a thread that is woken leave the objects it waits on. -/
theorem not_mem_wakers_afterWake {resume : ThreadResume} {p : ObjId} {w : Waker}
    (hp : p ∈ thread.waitObjects) (hw : w ∈ (k.afterWake thread resume).wakers p) :
    w.thread ≠ thread.index := by
  obtain ⟨y, hy, hw⟩ := mem_wakers.mp hw
  rw [object?_afterWake, if_pos hp] at hy
  obtain ⟨x, _, rfl⟩ := Option.map_eq_some_iff.mp hy
  rw [KObject.wakers_removeWakers] at hw
  exact of_decide_eq_true (List.mem_filter.mp hw).2

section Suspended

variable {pid : ProcessId} {w : Waker} {k' : Kernel}

/-- The thread waits for the objects, and its waker is not stale. -/
structure Waits (k : Kernel) (w : Waker) (objects : List ObjId) (thread : CommonThread) : Prop where
  lookup : k.thread? w.thread = some thread
  key : thread.wakeKey = w.key
  state : thread.state = .waiting
  waitType : thread.waitType = some .waitSyncN
  waitObjects : thread.waitObjects = objects

/-- Any of the objects can wake the thread. -/
theorem Waits.wakes {o : ObjId} (h : k.Waits w objects thread) (ho : o ∈ objects) :
    ∃ k', w.wake o k = .ret (true, k') ∧
      (∃ thread, k'.thread? w.thread = some thread ∧ thread.state = .ready ∧
        thread.resume = .waitSyncN (objects.idxOf o)) ∧
      ∀ p ∈ objects, ∀ w' ∈ k'.wakers p, w'.thread ≠ w.thread := by
  have ho' : o ∈ thread.waitObjects := h.waitObjects.symm ▸ ho
  refine ⟨_, wake_live h.lookup h.key (CommonThread.resumeFor_waitSyncN h.waitType ho'),
    ⟨thread.woken (.waitSyncN (thread.waitObjects.idxOf o)), ?_, rfl, ?_⟩, fun p hp w' hw' => ?_⟩
  · rw [thread?_afterWake h.lookup, if_pos rfl]
  · rw [h.waitObjects]
    rfl
  · have hne := not_mem_wakers_afterWake (h.waitObjects.symm ▸ hp) hw'
    rw [thread?_index h.lookup] at hne
    exact hne

/-- A thread that sleeps all along still waits for the objects. -/
theorem Waits.later {k1 : Kernel} {tr : List (View × Move)} (h : k.Waits w objects thread)
    (hrun : Run (View.system k.view) tr k1.view)
    (hasleep : EveryState (fun v => v.Asleep w.thread) tr k1.view) :
    ∃ thread', k1.Waits w objects thread' := by
  have hself : k.view.sleepers w.thread = some thread.sleeper := by
    show (k.thread? w.thread).map CommonThread.sleeper = _
    rw [h.lookup]
    rfl
  have hsame := View.sleepers_of_run hrun hself h.state hasleep
  obtain ⟨thread', hthread', hsleeper⟩ := Option.map_eq_some_iff.mp hsame
  refine ⟨thread', hthread', ?_, ?_, ?_, ?_⟩
  · exact (congrArg Sleeper.wakeKey hsleeper).trans h.key
  · exact (congrArg Sleeper.state hsleeper).trans h.state
  · exact (congrArg Sleeper.waitType hsleeper).trans h.waitType
  · exact (congrArg Sleeper.waitObjects hsleeper).trans h.waitObjects

theorem waits_suspended (hthread : k.thread? t = some thread) :
    (k.setThread (thread.suspended objects deadline .waitSyncN)).Waits ⟨t, thread.wakeKey⟩ objects
      (thread.suspended objects deadline .waitSyncN) := by
  refine ⟨?_, rfl, rfl, rfl, rfl⟩
  rw [thread?_suspended hthread, if_pos rfl]

/-- Where no object is ready. -/
theorem waitEach_sleeps (h : k.Waits w objects thread) (hw : k.Waitable objects)
    (hready : ∀ o ∈ objects, k.objects.ready o = false) :
    ∃ k', waitEach w objects k = .ret k' ∧ k.Sleeps w objects k' := by
  obtain ⟨k', hret, hthreads, hobjects⟩ := waitEach_absent (w := w) hw hready
  have hwaits : k'.Waits w objects thread :=
    { h with lookup := (congrFun hthreads w.thread).trans h.lookup }
  refine ⟨k', hret, ⟨thread, hwaits.lookup, h.state, h.key⟩, hobjects, fun p => ?_,
    fun t _ => congrFun hthreads t, fun tr k1 hrun hasleep o ho => ?_⟩
  · rw [hobjects]
    cases k.object? p with
    | none => rfl
    | some x =>
      show KObject.flag _ = KObject.flag _
      rw [← KObject.flag_unqueued, KObject.unqueued_setWakers, KObject.flag_unqueued]
  · obtain ⟨thread', hlater⟩ := hwaits.later hrun hasleep
    exact hlater.wakes ho

/-- Where an object is ready. -/
theorem waitEach_took (h : k.Waits w objects thread) (hw : k.Waitable objects)
    (hready : ∃ o ∈ objects, k.objects.ready o = true) :
    ∃ k' pre o post, waitEach w objects k = .ret k' ∧ objects = pre ++ o :: post ∧
      (∀ p ∈ pre, k.objects.ready p = false) ∧ k.objects.ready o = true ∧
      k.Took w.thread pre.length o k' := by
  obtain ⟨o, hfind⟩ := Option.isSome_iff_exists.mp (List.find?_isSome.mpr hready)
  obtain ⟨ho, pre, post, rfl, hpre⟩ := List.find?_eq_some_iff_append.mp hfind
  have hpre : ∀ p ∈ pre, k.objects.ready p = false := fun p hp => by simpa using hpre p hp
  obtain ⟨x, hx, _⟩ := hw o (List.mem_append_right _ List.mem_cons_self)
  have hreadyx : x.ready = true := (ready_of_object? hx).symm.trans ho
  obtain ⟨k', hret, hwoken, hothers, hrequeues⟩ :=
    waitEach_takes hw hx hreadyx hpre h.lookup h.key h.waitType h.waitObjects
  have hdata : ∀ p, p ≠ o →
      (k'.object? p).map KObject.unqueued = (k.object? p).map KObject.unqueued := by
    intro p hp
    rw [hrequeues p, object?_modifyObject, if_neg hp]
  have hflag : ∀ y : Option KObject, y.bind KObject.flag = (y.map KObject.unqueued).bind
      KObject.flag := by
    intro y
    cases y with
    | none => rfl
    | some y => exact (KObject.flag_unqueued y).symm
  refine ⟨k', pre, o, post, hret, rfl, hpre, ho, ⟨_, hwoken, rfl, rfl⟩, ?_, fun p hp => ?_, hdata,
    hothers⟩
  · rw [hflag, hrequeues o, ← hflag, object?_modifyObject, if_pos rfl, hx]
    exact KObject.flag_takeFor hreadyx
  · rw [hflag, hdata p hp, ← hflag]

end Suspended

end Kernel

/-- **Waiting on any of several objects.** A thread that runs waits on objects, each any number
    of times. If one is ready, the thread is ready with the index of the first that is, has taken
    that object, and leaves all others what they were. If none is, the thread sleeps, its waker is
    in the queues, and any of the objects can wake it. -/
theorem waitAny {k : Kernel} {time : UInt64} {handles : List (Option Handle)} {timeout : Int64}
    {deadline : Option UInt64} {objects : List ObjId} {pid : ProcessId} {t : ThreadIndex}
    {thread : CommonThread} (hcur : k.current = some (pid, t))
    (hthread : k.thread? t = some thread) (hrunning : thread.state = .running)
    (hobjects : k.waitedObjects handles = .ret objects) (hw : k.Waitable objects)
    (hdeadline : (makeTimeout timeout).absolute time = .ret deadline) :
    ∃ k', k.waitSyncN time handles false timeout = .ret (.ok (some ⟨⟩), k') ∧
      ((∃ o ∈ objects, k.objects.ready o = true) →
        ∃ pre o post, objects = pre ++ o :: post ∧ (∀ p ∈ pre, k.objects.ready p = false) ∧
          k.objects.ready o = true ∧ k.Took t pre.length o k') ∧
      ((∀ o ∈ objects, k.objects.ready o = false) → k.Sleeps ⟨t, thread.wakeKey⟩ objects k') := by
  have hsuspend : k.suspendThread objects deadline .waitSyncN = .ret (⟨t, thread.wakeKey⟩,
      k.setThread (thread.suspended objects deadline .waitSyncN)) :=
    Kernel.suspendThread_of_running hcur hthread hrunning .waitSyncN
  have hwaits : (k.setThread (thread.suspended objects deadline .waitSyncN)).Waits
      ⟨t, thread.wakeKey⟩ objects (thread.suspended objects deadline .waitSyncN) :=
    Kernel.waits_suspended hthread
  have hothers : ∀ t', t' ≠ t →
      (k.setThread (thread.suspended objects deadline .waitSyncN)).thread? t' = k.thread? t' := by
    intro t' ht
    rw [Kernel.thread?_suspended hthread, if_neg ht]
  have hw' : (k.setThread (thread.suspended objects deadline .waitSyncN)).Waitable objects := hw
  have hcall : ∀ k', Kernel.waitEach ⟨t, thread.wakeKey⟩ objects
      (k.setThread (thread.suspended objects deadline .waitSyncN)) = .ret k' →
      k.waitSyncN time handles false timeout = .ret (.ok (some ⟨⟩), k') := by
    intro k' hret
    unfold Kernel.waitSyncN
    rw [Bool.not_false, assert_true, ret_bind, hobjects, ret_bind, hdeadline, ret_bind, hsuspend,
      ret_bind]
    dsimp only
    rw [hret, ret_bind]
    rfl
  by_cases hready : ∃ o ∈ objects, k.objects.ready o = true
  · obtain ⟨k', pre, o, post, hret, hsplit, hpre, ho, htook⟩ :=
      Kernel.waitEach_took hwaits hw' hready
    have htook' : k.Took t pre.length o k' :=
      ⟨htook.ready, htook.taken, htook.flags, htook.data, fun t' ht =>
        (htook.others t' ht).trans (hothers t' ht)⟩
    refine ⟨k', hcall k' hret, fun _ => ⟨pre, o, post, hsplit, hpre, ho, htook'⟩, fun hnone => ?_⟩
    obtain ⟨o, ho, hready⟩ := hready
    rw [hnone o ho] at hready
    cases hready
  · have hnone : ∀ o ∈ objects, k.objects.ready o = false := by
      intro o ho
      by_contra hnot
      exact hready ⟨o, ho, by simpa using hnot⟩
    obtain ⟨k', hret, hsleeps⟩ := Kernel.waitEach_sleeps hwaits hw' hnone
    have hsleeps' : k.Sleeps ⟨t, thread.wakeKey⟩ objects k' :=
      ⟨hsleeps.waiting, hsleeps.queued, hsleeps.flags, fun t' ht =>
        (hsleeps.others t' ht).trans (hothers t' ht), hsleeps.wakes⟩
    exact ⟨k', hcall k' hret, fun hsome => absurd hsome hready, fun _ => hsleeps'⟩

/-- A thread makes two events, signals the second, and waits on the first and twice on the
    second. -/
theorem waitAny_sample : ∃ (tr : List (Kernel × SvcStep)) (k k' : Kernel),
    Run (svcSystem UInt32.ofNat) tr k ∧
      k.waitSyncN 0 [Handle.fromRaw 1, Handle.fromRaw 2, Handle.fromRaw 2] false (-1) =
        .ret (.ok (some ⟨⟩), k') ∧
      ∃ pre o post, [1, 2, 2] = pre ++ o :: post ∧ (∀ p ∈ pre, k.objects.ready p = false) ∧
        k.objects.ready o = true ∧ k.Took 0 pre.length o k' := by
  have hrun : (runAll (svcStep? UInt32.ofNat 4) Kernel.new [.newProcess .hle, .newThread 0,
      .runNext, .call (.createEvent .oneShot), .call (.createEvent .pulse),
      .call (.signalEvent (Handle.fromRaw 2))]).map (fun k => (k.current,
        (k.thread? 0).map CommonThread.state,
        (k.waitedObjects [Handle.fromRaw 1, Handle.fromRaw 2, Handle.fromRaw 2]).value?,
        k.objects.ready 2 && [1, 2, 2].all fun o => (k.object? o).any KObject.isSync)) =
      some (some (0, 0), some .running, some [1, 2, 2], true) := by
    decide +kernel
  obtain ⟨k, hk, hview⟩ := Option.map_eq_some_iff.mp hrun
  obtain ⟨hcur, hview⟩ := Prod.mk.inj hview
  obtain ⟨hstate, hview⟩ := Prod.mk.inj hview
  obtain ⟨hobjects, hview⟩ := Prod.mk.inj hview
  obtain ⟨hready, hsync⟩ := Bool.and_eq_true_iff.mp hview
  obtain ⟨thread, hthread, hrunning⟩ := Option.map_eq_some_iff.mp hstate
  have hw : k.Waitable [1, 2, 2] := by
    intro o ho
    exact (Option.any_eq_true _ _).mp (List.all_eq_true.mp hsync o ho)
  obtain ⟨tr, htr⟩ := Run.of_runAll (fun _ _ _ hst => step_of_svcStep? hst)
    (.start (M := svcSystem UInt32.ofNat) rfl) hk
  obtain ⟨k', hret, htook, _⟩ :=
    @waitAny k 0 _ (-1) none _ 0 0 thread hcur hthread hrunning (value?_eq_some.mp hobjects) hw rfl
  exact ⟨tr, k, k', htr, hret, htook ⟨2, by simp, hready⟩⟩

end Pomelo
