/-
  Signals of address arbiters.

  Arbitration alone changes the queue of an arbiter; whatever else wakes a thread takes its
  wakers out. So in every run the queue holds one live waker of each thread in it, and that thread
  waits for this arbiter and nothing else (`QueuesSound`). A signal then wakes the first threads
  on its address, as many as it names (`drain_signalled`), and finds all of them asleep
  (`arbiterSignals`).
-/
import Pomelo.Hle.WaitAny

namespace Pomelo

open Lib Outcome

/-! ## What a signal drains -/

namespace ArbiterImpl

/-- The wakers that a signal is for: those on the address, as many as it names, or all of them if
    it names a negative number. -/
def signalled (self : ArbiterImpl) (amount : Int32) (addr : UInt32) : List Waker :=
  let waiting := (self.wakerQueue.filter fun entry => entry.2 = addr).map Prod.fst
  if amount < 0 then waiting else waiting.take amount.toInt.toNat

variable {addr count : UInt32} {queue : List (Waker × UInt32)}

/-- A count of all ones drains all entries with the address. -/
theorem drain_all : (drain addr 0xFFFFFFFF queue).1 =
    (queue.filter fun entry => entry.2 = addr).map Prod.fst := by
  induction queue with
  | nil => rfl
  | cons entry queue ih =>
    obtain ⟨w, a⟩ := entry
    unfold drain
    by_cases ha : a = addr
    · rw [if_pos ⟨ha, by decide⟩, List.filter_cons_of_pos (by simpa using ha), List.map_cons]
      exact congrArg (w :: ·) ih
    · rw [if_neg fun h => ha h.1, List.filter_cons_of_neg (by simpa using ha)]
      exact ih

/-- Any other count drains that many. -/
theorem drain_count (hcount : count ≠ 0xFFFFFFFF) : (drain addr count queue).1 =
    ((queue.filter fun entry => entry.2 = addr).map Prod.fst).take count.toNat := by
  induction queue generalizing count with
  | nil => simp [drain]
  | cons entry queue ih =>
    obtain ⟨w, a⟩ := entry
    unfold drain
    by_cases ha : a = addr
    · rw [List.filter_cons_of_pos (by simpa using ha), List.map_cons]
      by_cases hzero : count > 0
      · have hpos : 0 < count.toNat := UInt32.lt_iff_toNat_lt.mp hzero
        have hpred : (count - 1).toNat = count.toNat - 1 :=
          UInt32.toNat_sub_of_le count 1 (UInt32.le_iff_toNat_le.mpr hpos)
        have hne : count - 1 ≠ 0xFFFFFFFF := by
          intro heq
          have hmax := count.toNat_lt
          rw [heq] at hpred
          have hbig : (0xFFFFFFFF : UInt32).toNat = 4294967295 := rfl
          omega
        rw [if_pos ⟨ha, hzero⟩]
        dsimp only
        rw [if_pos hcount, ih hne, hpred]
        obtain ⟨n, hn⟩ := Nat.exists_eq_succ_of_ne_zero (Nat.ne_of_gt hpos)
        rw [hn]
        rfl
      · have hnone : count.toNat = 0 := by
          have hle := UInt32.not_lt.mp hzero
          exact Nat.le_zero.mp (UInt32.le_iff_toNat_le.mp hle)
        rw [if_neg fun h => hzero h.2]
        dsimp only
        rw [ih hcount, hnone]
        rfl
    · rw [if_neg fun h => ha h.1, List.filter_cons_of_neg (by simpa using ha)]
      exact ih hcount

theorem drain_rest_sublist : (drain addr count queue).2.Sublist queue := by
  induction queue generalizing count with
  | nil => exact List.Sublist.refl _
  | cons entry queue ih =>
    unfold drain
    split
    · exact ih.cons _
    · exact ih.cons_cons _

/-- Where no waker is queued twice, what is not drained stays, in its order. -/
theorem drain_rest (hn : (queue.map Prod.fst).Nodup) : (drain addr count queue).2 =
    queue.filter fun entry => decide (entry.1 ∉ (drain addr count queue).1) := by
  induction queue generalizing count with
  | nil => rfl
  | cons entry queue ih =>
    obtain ⟨w, a⟩ := entry
    rw [List.map_cons, List.nodup_cons] at hn
    have hother : ∀ e ∈ queue, e.1 ≠ w := by
      intro e he heq
      have hmem : e.1 ∈ queue.map Prod.fst := List.mem_map_of_mem he
      rw [heq] at hmem
      exact hn.1 hmem
    unfold drain
    split
    · dsimp only
      rw [List.filter_cons_of_neg (by simp), ih hn.2]
      refine List.filter_congr fun e he => ?_
      simp [hother e he]
    · dsimp only
      have hnot : w ∉ (drain addr count queue).1 := fun hmem => hn.1 (mem_drain.1 hmem)
      rw [List.filter_cons_of_pos (by simpa using hnot), ← ih hn.2]

theorem drain_signalled (self : ArbiterImpl) (amount : Int32) (addr : UInt32) :
    (drain addr (if amount < 0 then 0xFFFFFFFF else amount.toUInt32) self.wakerQueue).1 =
      self.signalled amount addr := by
  unfold signalled
  by_cases hneg : amount < 0
  · rw [if_pos hneg, if_pos hneg]
    exact drain_all
  · have hle : 0 ≤ amount := Int32.not_lt.mp hneg
    have hcount : amount.toUInt32.toNat = amount.toInt.toNat := Int32.toNat_toUInt32_of_le hle
    have hne : amount.toUInt32 ≠ 0xFFFFFFFF := by
      intro heq
      have hbig : (0xFFFFFFFF : UInt32).toNat = 4294967295 := rfl
      have hlt := amount.toInt_lt
      rw [heq] at hcount
      omega
    rw [if_neg hneg, if_neg hneg, drain_count hne, hcount]

end ArbiterImpl

/-! ## Who is queued in arbiters -/

/-- An arbiter that is new has an empty queue. -/
theorem KObject.arbiterQueue_of_new {x : KObject} {queue : List (Waker × UInt32)} (hx : x.New)
    (h : x.arbiterQueue = some queue) : queue = [] := by
  cases x with
  | arbiter self =>
    injection h with h
    exact h ▸ List.map_eq_nil_iff.mp hx.wakers
  | _ => cases h

namespace View

variable {v v' : View} {o q : ObjId} {t : ThreadIndex} {w : Waker} {p : Peer} {ws : List Waker}
  {f : KObject → KObject} {queue : List (Waker × UInt32)}

def arbiterQueue (v : View) (o : ObjId) : Option (List (Waker × UInt32)) :=
  (v.object? o).bind KObject.arbiterQueue

/-- The thread of the waker waits for the arbiter, and the waker has its key. -/
def Arbitrates (v : View) (w : Waker) (o : ObjId) : Prop :=
  ∃ self, v.sleepers w.thread = some self ∧ self.wakeKey = w.key ∧ self.state = .waiting ∧
    self.waitType = some .arbiter ∧ self.waitObjects = [o]

/-- Each thread is in the queue of an arbiter once, and waits for it. -/
structure QueuesSound (v : View) : Prop where
  alone : ∀ o queue, v.arbiterQueue o = some queue →
    (queue.map fun entry => entry.1.thread).Nodup
  waits : ∀ o queue, v.arbiterQueue o = some queue → ∀ entry ∈ queue, v.Arbitrates entry.1 o

/-- Queues that are as before, or empty, of threads that sleep as before. -/
theorem QueuesSound.frame (h : v.QueuesSound)
    (hq : ∀ o queue, v'.arbiterQueue o = some queue → v.arbiterQueue o = some queue ∨ queue = [])
    (hs : ∀ t self, v.sleepers t = some self → self.state = .waiting →
      v'.sleepers t = some self) : v'.QueuesSound := by
  refine ⟨fun o queue hqueue => ?_, fun o queue hqueue entry hentry => ?_⟩
  · rcases hq o queue hqueue with hqueue | rfl
    · exact h.alone o queue hqueue
    · exact List.nodup_nil
  · rcases hq o queue hqueue with hqueue | rfl
    · obtain ⟨self, hself, hkey, hstate, hrest⟩ := h.waits o queue hqueue entry hentry
      exact ⟨self, hs _ _ hself hstate, hkey, hstate, hrest⟩
    · cases hentry

theorem QueuesSound.update {self' : Sleeper} {self : Sleeper} (h : v.QueuesSound)
    (hself : v.sleepers t = some self) (hstate : self.state ≠ .waiting)
    (hv : v'.sleepers = Function.update v.sleepers t (some self'))
    (ho : v'.objects = v.objects) : v'.QueuesSound := by
  refine h.frame (fun o queue hqueue => Or.inl ?_) fun t' self1 hself1 hwaiting => ?_
  · unfold arbiterQueue object? at hqueue ⊢
    rw [← ho]
    exact hqueue
  · have ht : t' ≠ t := by
      intro ht
      rw [ht, hself] at hself1
      injection hself1 with hself1
      exact hstate (hself1 ▸ hwaiting)
    rw [hv, Function.update_of_ne ht]
    exact hself1

theorem arbiterQueue_wake {self : Sleeper} : (v.wake t self).arbiterQueue o =
    if o ∈ self.waitObjects then
      (v.arbiterQueue o).map (List.filter fun entry => entry.1.thread ≠ t)
    else v.arbiterQueue o := by
  unfold arbiterQueue
  rw [object?_wake]
  split
  · cases v.object? o with
    | none => rfl
    | some x => exact KObject.arbiterQueue_removeWakers t x
  · rfl

/-- A thread that is woken leaves the arbiter that it waits for. -/
theorem QueuesSound.wake {self : Sleeper} (h : v.QueuesSound)
    (hself : v.sleepers t = some self) : (v.wake t self).QueuesSound := by
  have hbefore : ∀ o queue, (v.wake t self).arbiterQueue o = some queue →
      ∃ queue0, v.arbiterQueue o = some queue0 ∧ queue.Sublist queue0 ∧
        ∀ entry ∈ queue, entry.1.thread ≠ t := by
    intro o queue hqueue
    rw [arbiterQueue_wake] at hqueue
    split at hqueue
    · obtain ⟨queue0, hqueue0, rfl⟩ := Option.map_eq_some_iff.mp hqueue
      refine ⟨queue0, hqueue0, List.filter_sublist, fun entry hentry => ?_⟩
      exact of_decide_eq_true (List.mem_filter.mp hentry).2
    · rename_i ho
      refine ⟨queue, hqueue, List.Sublist.refl _, fun entry hentry ht => ho ?_⟩
      obtain ⟨self', hself', _, _, _, hobjects⟩ := h.waits o queue hqueue entry hentry
      rw [ht, hself] at hself'
      injection hself' with hself'
      rw [hself', hobjects]
      exact List.mem_cons_self
  refine ⟨fun o queue hqueue => ?_, fun o queue hqueue entry hentry => ?_⟩
  · obtain ⟨queue0, hqueue0, hsub, _⟩ := hbefore o queue hqueue
    exact (hsub.map _).nodup (h.alone o queue0 hqueue0)
  · obtain ⟨queue0, hqueue0, hsub, hne⟩ := hbefore o queue hqueue
    obtain ⟨self', hself', hrest⟩ := h.waits o queue0 hqueue0 entry (hsub.subset hentry)
    exact ⟨self', (Function.update_of_ne (hne entry hentry) _ _).trans hself', hrest⟩

theorem QueuesSound.tryWake (h : v.QueuesSound) (w : Waker) : (v.tryWake w).QueuesSound := by
  unfold View.tryWake
  split
  · rename_i hself
    split
    · exact h.wake hself
    · exact h
  · exact h

theorem QueuesSound.wakes (h : v.QueuesSound) : (ws.foldl View.tryWake v).QueuesSound := by
  induction ws generalizing v with
  | nil => exact h
  | cons w ws ih => exact ih (h.tryWake w)

/-- A change of an end of a port or session, or one that spares arbiters. -/
theorem QueuesSound.modify (h : v.QueuesSound) (hf : v.Adds q p ws f)
    (hspares : p = .none → KObject.SparesArbiters f) : (v.modify q f).QueuesSound := by
  refine h.frame (fun o queue hqueue => Or.inl ?_) fun t self hself _ => hself
  rw [← hqueue]
  unfold arbiterQueue
  rw [object?_modify]
  split
  · rename_i ho
    cases hx : v.object? o with
    | none => rfl
    | some x =>
      show x.arbiterQueue = (f x).arbiterQueue
      by_cases hp : p = .none
      · exact (hspares hp x).symm
      · obtain ⟨hbefore, hafter⟩ := hf.peer x (ho ▸ hx)
        rw [KObject.arbiterQueue_of_peer (hbefore ▸ hp), KObject.arbiterQueue_of_peer (hafter ▸ hp)]
  · rfl

end View

/-- The move changes no arbiter, but for wakers of threads that are woken. -/
def Move.SparesArbiters : Move → Prop
  | change _ p f | enqueue _ p _ f | enqueueStale _ p _ f | take _ p _ f =>
    p = .none → KObject.SparesArbiters f
  | act _ p _ f g => (p = .none → KObject.SparesArbiters f) ∧ (p = .none → KObject.SparesArbiters g)
  | _ => True

namespace View

variable {v v' : View}

theorem Step.queuesSound {m : Move} (hs : Step v m v') (hm : m.SparesArbiters)
    (h : v.QueuesSound) : v'.QueuesSound := by
  cases hs with
  | turn hself hstate hnew => exact h.update hself hstate rfl rfl
  | suspend hself hstate =>
    have hrunning : ThreadState.running ≠ .waiting := by decide
    exact h.update hself (hstate ▸ hrunning) rfl rfl
  | born =>
    refine h.frame (fun o queue hqueue => Or.inl hqueue) fun t self hself _ => ?_
    show (v.sleepers t).or _ = _
    rw [hself]
    rfl
  | @make x hx hp =>
    refine h.frame (fun o queue hqueue => ?_) fun t self hself _ => hself
    obtain ⟨y, hy, hqueue⟩ := Option.bind_eq_some_iff.mp hqueue
    rcases object?_of_append hy with hy | ⟨i, _, hi⟩
    · exact Or.inl (Option.bind_eq_some_iff.mpr ⟨y, hy, hqueue⟩)
    · injection List.mem_singleton.mp (List.mem_of_getElem? hi) with hyx
      exact Or.inr (KObject.arbiterQueue_of_new hx (hyx ▸ hqueue))
  | @makePair server client hsn hcn hp =>
    refine h.frame (fun o queue hqueue => ?_) fun t self hself _ => hself
    obtain ⟨y, hy, hqueue⟩ := Option.bind_eq_some_iff.mp hqueue
    have hends : server.arbiterQueue = none ∧ client.arbiterQueue = none := by
      rcases hp with ⟨hserver, hclient⟩ | ⟨hserver, hclient⟩
      · exact ⟨KObject.arbiterQueue_of_peer (by rw [hserver]; simp),
          KObject.arbiterQueue_of_peer (by rw [hclient]; simp)⟩
      · exact ⟨KObject.arbiterQueue_of_peer (by rw [hserver]; simp),
          KObject.arbiterQueue_of_peer (by rw [hclient]; simp)⟩
    rcases object?_of_append hy with hy | ⟨i, _, hi⟩
    · exact Or.inl (Option.bind_eq_some_iff.mpr ⟨y, hy, hqueue⟩)
    · rcases List.mem_cons.mp (List.mem_of_getElem? hi) with hyx | hyx
      · injection hyx with hyx
        rw [hyx, hends.1] at hqueue
        cases hqueue
      · injection List.mem_singleton.mp hyx with hyx
        rw [hyx, hends.2] at hqueue
        cases hqueue
  | drop hunused =>
    refine h.frame (fun o queue hqueue => ?_) fun t self hself _ => hself
    obtain ⟨y, hy, hqueue⟩ := Option.bind_eq_some_iff.mp hqueue
    exact Or.inl (Option.bind_eq_some_iff.mpr ⟨y, (object?_of_drop hy).2, hqueue⟩)
  | expire hself hstate htimeout => exact h.wake hself
  | change hf => exact h.modify hf hm
  | enqueue hself hkey hstate ho hf => exact h.modify hf hm
  | enqueueStale hlive hf => exact h.modify hf hm
  | take hself hkey hstate ho hf => exact (h.modify hf hm).wake hself
  | @act o p ws f g hws hf hg =>
    obtain ⟨hspares, hspares'⟩ := hm
    have hwoken : (ws.foldl tryWake (v.modify o f)).QueuesSound := (h.modify hf hspares).wakes
    have hadds : (ws.foldl tryWake (v.modify o f)).Adds o p ws g := by
      refine ⟨fun x hx => ?_, fun x _ w hw => Or.inl (hg.wakers x w hw)⟩
      obtain ⟨y, hy, hloses⟩ := object?_of_wakes hx
      obtain ⟨z, hz, rfl⟩ := object?_of_modify hy
      rw [if_pos rfl] at hloses
      have hpeer : x.peer = p := hloses.peer.trans (hf.peer z hz).2
      exact ⟨hpeer, (hg.peer x).trans hpeer⟩
    exact hwoken.modify hadds hspares'

theorem queuesSound_new : Kernel.new.view.QueuesSound := by
  refine ⟨fun o queue hqueue => ?_, fun o queue hqueue => ?_⟩
  · cases hqueue
  · cases hqueue

end View

theorem usual_sparesArbiters : Usual Move.SparesArbiters where
  turn _ _ := trivial
  born _ := trivial
  make _ := trivial
  makePair _ _ := trivial
  drop _ := trivial
  suspend _ _ _ _ := trivial
  expire _ := trivial
  change _ _ hf := fun _ => hf
  take _ _ _ hf := fun _ => hf
  act _ _ _ _ hf hg := ⟨fun _ => hf, fun _ => hg⟩

theorem may_sparesArbiters (rng : Nat → UInt32) (k : Kernel) (l : SvcStep) :
    l.May Move.SparesArbiters rng True k :=
  may_of_any (fun _ _ w _ => .pushWaker w)
    (fun _ _ hp => ⟨fun _ h => absurd h hp, fun _ _ _ => ⟨fun h => absurd h hp,
      fun h => absurd h hp⟩⟩)
    (fun _ _ _ w _ => .pushWaker w) (Or.inr trivial)

/-! ## Arbitration -/

section Arbitration

variable {k k' : Kernel} {o : ObjId} {w : Waker} {addr : UInt32} {self : ArbiterImpl}

theorem arbiterQueue_of_object? {v : View} (h : v.object? o = some (.arbiter self)) :
    v.arbiterQueue o = some self.wakerQueue := by
  unfold View.arbiterQueue
  rw [h]
  rfl

/-- A change of the arbiter by which its queue becomes another. -/
theorem View.QueuesSound.setQueue {v : View} {f : KObject → KObject}
    {queue : List (Waker × UInt32)} (h : v.QueuesSound)
    (hx : v.object? o = some (.arbiter self)) (hf : f (.arbiter self) = .arbiter ⟨queue⟩)
    (halone : (queue.map fun entry => entry.1.thread).Nodup)
    (hwaits : ∀ entry ∈ queue, v.Arbitrates entry.1 o) : (v.modify o f).QueuesSound := by
  have hqueue : ∀ o', (v.modify o f).arbiterQueue o' =
      if o' = o then some queue else v.arbiterQueue o' := by
    intro o'
    unfold View.arbiterQueue
    rw [View.object?_modify]
    split
    · rename_i ho
      rw [ho, hx, Option.map_some, hf]
      rfl
    · rfl
  refine ⟨fun o' queue' hqueue' => ?_, fun o' queue' hqueue' entry hentry => ?_⟩
  · rw [hqueue] at hqueue'
    split at hqueue'
    · injection hqueue' with hqueue'
      exact hqueue' ▸ halone
    · exact h.alone o' queue' hqueue'
  · rw [hqueue] at hqueue'
    split at hqueue'
    · rename_i ho
      injection hqueue' with hqueue'
      rw [ho]
      exact hwaits entry (hqueue' ▸ hentry)
    · exact h.waits o' queue' hqueue' entry hentry

theorem queuesSound_of_signal {amount : Int32} {woke : Bool} (h : k.view.QueuesSound)
    (hx : k.object? o = some (.arbiter self))
    (hret : self.signal o amount addr k = .ret (woke, k')) : k'.view.QueuesSound := by
  unfold ArbiterImpl.signal at hret
  obtain ⟨k1, hwakes, hret⟩ := bind_eq_ret.mp hret
  injection hret with hret
  obtain ⟨_, rfl⟩ := Prod.mk.inj hret
  rw [wakeDrained_eq_ret hwakes, Kernel.view_modifyObject]
  have hqueue := arbiterQueue_of_object? (v := k.view) hx
  have hsub := @ArbiterImpl.drain_rest_sublist addr
    (if amount < 0 then 0xFFFFFFFF else amount.toUInt32) self.wakerQueue
  refine (h.setQueue hx rfl ?_ fun entry hentry => ?_).wakes
  · exact (hsub.map _).nodup (h.alone o _ hqueue)
  · exact h.waits o _ hqueue entry (hsub.subset hentry)

/-- A thread that runs is in no queue; so one that waits for the arbiter gets into it once. -/
theorem queuesSound_of_wait (h : k.view.QueuesSound) (hx : k.object? o = some (.arbiter self))
    (hsuspend : k.suspendThread [o] none .arbiter = .ret (w, k')) :
    (ArbiterImpl.wait w addr o k').view.QueuesSound := by
  have hqueue := arbiterQueue_of_object? (v := k.view) hx
  obtain ⟨runner, hrunner, hrunning, hkey, hsleepers⟩ := Kernel.suspendThread_sleepers hsuspend
  obtain ⟨_, hstep, _⟩ := suspendThread_view hsuspend
  have hsound : k'.view.QueuesSound := hstep.queuesSound trivial h
  have hx' : k'.view.object? o = some (.arbiter self) :=
    (suspendThread_object? hsuspend o).trans hx
  have hwaits : k'.view.Arbitrates w o :=
    ⟨runner.suspended [o] none .arbiter, (congrFun hsleepers w.thread).trans
      (Function.update_self _ _ _), hkey.symm, rfl, rfl, rfl⟩
  have hnot : ∀ entry ∈ self.wakerQueue, entry.1.thread ≠ w.thread := by
    intro entry hentry ht
    obtain ⟨sleeper, hsleeper, _, hwaiting, _⟩ := h.waits o _ hqueue entry hentry
    rw [ht] at hsleeper
    have hsame : some runner = some sleeper := hrunner.symm.trans hsleeper
    injection hsame with hsame
    rw [← hsame, hrunning] at hwaiting
    cases hwaiting
  refine hsound.setQueue hx' rfl ?_ fun entry hentry => ?_
  · rw [List.map_append, List.map_singleton]
    refine (h.alone o _ hqueue).append (List.nodup_singleton _) ?_
    rw [List.disjoint_singleton]
    intro hmem
    obtain ⟨entry, hentry, ht⟩ := List.mem_map.mp hmem
    exact hnot entry hentry ht
  · rcases List.mem_append.mp hentry with hentry | hentry
    · exact hsound.waits o _ (arbiterQueue_of_object? hx') entry hentry
    · rw [List.mem_singleton.mp hentry]
      exact hwaits

theorem queuesSound_of_arbitrate {handle : Option Handle} {typ : ArbitrationType}
    {memoryValue value : Int32} {r : KResult (Option Reschedule)} (hs : k.view.QueuesSound)
    (h : k.arbitrateAddress handle addr typ memoryValue value = .ret (r, k')) :
    k'.view.QueuesSound := by
  rcases arbitrateAddress_cases h with rfl | ⟨o, arb, hfound, hcase⟩
  · exact hs
  · have hx := lookupObject_eq_ret hfound
    rcases hcase with ⟨woke, hsignal⟩ | ⟨w, k1, hsuspend, rfl⟩
    · exact queuesSound_of_signal hs hx hsignal
    · exact queuesSound_of_wait hs hx hsuspend

/-- Every step keeps the queues of arbiters sound. -/
theorem queuesSound_of_step {rng : Nat → UInt32} {l : SvcStep}
    (h : k.view.Tidy ∧ k.view.QueuesSound) (hstep : (svcSystem rng).step k l k') :
    k'.view.Tidy ∧ k'.view.QueuesSound := by
  refine ⟨tidy_of_step h.1 hstep, ?_⟩
  obtain ⟨henabled, fuel, hexec⟩ := hstep
  by_cases harb : l.arbitrates = true
  · cases l with
    | call c =>
      cases c with
      | arbitrateAddress handle addr typ memoryValue value =>
        obtain ⟨r, hret⟩ := liftCall_eq_ret.mp hexec
        exact queuesSound_of_arbitrate h.2 hret
      | _ => cases harb
    | _ => cases harb
  · have hmade := svcStep_usual fuel usual_sparesArbiters.toSteady (fun _ => usual_sparesArbiters)
      (fun h => absurd h harb) h.1.nodup henabled (may_sparesArbiters rng k l)
    exact hmade.keeps (I := View.QueuesSound) (fun _ _ _ hv hm hs => hs.queuesSound hm hv) h.2 hexec

theorem queuesSound_of_run {rng : Nat → UInt32} {tr : List (Kernel × SvcStep)}
    (h : Run (svcSystem rng) tr k) : k.view.QueuesSound := by
  refine (h.invariant (I := fun k => k.view.Tidy ∧ k.view.QueuesSound) ?_ ?_).2
  · intro k hk
    rw [hk]
    exact ⟨View.tidy_new, View.queuesSound_new⟩
  · exact fun k l k' hk hstep => queuesSound_of_step hk hstep

end Arbitration

/-! ## Signals -/

/-- An arbiter without wakers of the thread stays as it is. -/
theorem removeWakers_arbiter {t : ThreadIndex} {self : ArbiterImpl}
    (h : ∀ entry ∈ self.wakerQueue, entry.1.thread ≠ t) :
    (KObject.arbiter self).removeWakers t = .arbiter self := by
  have hqueue : (self.wakerQueue.filter fun entry => !entry.1.checkOpaqueId t) =
      self.wakerQueue := by
    refine List.filter_eq_self.mpr fun entry hentry => ?_
    unfold Waker.checkOpaqueId
    simpa using h entry hentry
  exact congrArg (fun queue => KObject.arbiter ⟨queue⟩) hqueue

section Signals

variable {k k' : Kernel} {o : ObjId}

theorem resumeFor_arbiter {thread : CommonThread} (h : thread.waitType = some .arbiter) :
    thread.resumeFor (.object o) = .ret .normal := by
  unfold CommonThread.resumeFor
  rw [h]
  rfl

/-- Threads that wait for the arbiter, and are no longer in its queue, are woken; nothing else
    happens. -/
theorem wakeDrained_eq {self : ArbiterImpl} {ws : List Waker}
    (hx : k.object? o = some (.arbiter self)) (hn : (ws.map Waker.thread).Nodup)
    (hw : ∀ w ∈ ws, ∃ thread, k.thread? w.thread = some thread ∧ thread.wakeKey = w.key ∧
      thread.waitType = some .arbiter ∧ thread.waitObjects = [o])
    (hgone : ∀ entry ∈ self.wakerQueue, ∀ w ∈ ws, entry.1.thread ≠ w.thread) :
    ∃ k', ArbiterImpl.wakeDrained o ws k = .ret k' ∧
      (∀ t, k'.thread? t = if t ∈ ws.map Waker.thread then
        (k.thread? t).map (CommonThread.woken · .normal) else k.thread? t) ∧
      ∀ p, k'.object? p = k.object? p := by
  induction ws generalizing k with
  | nil => exact ⟨k, rfl, fun t => (if_neg (by simp)).symm, fun _ => rfl⟩
  | cons w ws ih =>
    rw [List.map_cons, List.nodup_cons] at hn
    obtain ⟨thread, hthread, hkey, htype, hobjects⟩ := hw w List.mem_cons_self
    have hwake := wake_live (o := o) hthread hkey (resumeFor_arbiter htype)
    have hthreads : ∀ t, (k.afterWake thread .normal).thread? t =
        if t = w.thread then some (thread.woken .normal) else k.thread? t :=
      Kernel.thread?_afterWake hthread
    have hsame : ∀ p, (k.afterWake thread .normal).object? p = k.object? p := by
      intro p
      rw [Kernel.object?_afterWake, hobjects]
      split
      · rename_i hp
        rw [List.mem_singleton.mp hp, hx, Option.map_some, removeWakers_arbiter]
        intro entry hentry
        rw [Kernel.thread?_index hthread]
        exact hgone entry hentry w List.mem_cons_self
      · rfl
    have hother : ∀ w' ∈ ws, w'.thread ≠ w.thread := fun w' hw' ht =>
      hn.1 (ht ▸ List.mem_map_of_mem hw')
    obtain ⟨k', hret, hthreads', hobjects'⟩ := ih ((hsame o).trans hx) hn.2
      (fun w' hw' => by
        rw [hthreads, if_neg (hother w' hw')]
        exact hw w' (List.mem_cons_of_mem w hw'))
      (fun entry hentry w' hw' => hgone entry hentry w' (List.mem_cons_of_mem w hw'))
    refine ⟨k', ?_, fun t => ?_, fun p => (hobjects' p).trans (hsame p)⟩
    · unfold ArbiterImpl.wakeDrained
      rw [hwake, ret_bind]
      dsimp only
      rw [assert_true, ret_bind]
      exact hret
    · rw [hthreads', hthreads]
      by_cases ht : t = w.thread
      · have hnot : t ∉ ws.map Waker.thread := ht ▸ hn.1
        rw [if_neg hnot, if_pos ht, List.map_cons, if_pos (List.mem_cons.mpr (Or.inl ht)), ht,
          hthread]
        rfl
      · have hmem : t ∈ (w :: ws).map Waker.thread ↔ t ∈ ws.map Waker.thread := by
          rw [List.map_cons, List.mem_cons]
          exact or_iff_right ht
        rw [if_neg ht]
        simp only [hmem]

/-- What a signal does: it wakes the threads of the wakers that it is for, and takes these out of
    the queue. -/
structure Kernel.Signalled (k : Kernel) (o : ObjId) (arb : ArbiterImpl) (ws : List Waker)
    (woke : Bool) (k' : Kernel) : Prop where
  distinct : (ws.map Waker.thread).Nodup
  woken : ∀ w ∈ ws, ∃ thread, k.thread? w.thread = some thread ∧ thread.state = .waiting ∧
    k'.thread? w.thread = some { thread with
      state := .ready
      wakeKey := thread.wakeKey + 1
      resume := .normal
      waitObjects := [] }
  asleep : ∀ t, (∀ w ∈ ws, w.thread ≠ t) → k'.thread? t = k.thread? t
  queue : k'.object? o =
    some (.arbiter ⟨arb.wakerQueue.filter fun entry => entry.1 ∉ ws⟩)
  objects : ∀ p, p ≠ o → k'.object? p = k.object? p
  result : woke = true ↔ ws ≠ []

theorem signalled_subset {self : ArbiterImpl} {amount : Int32} {addr : UInt32} :
    (self.signalled amount addr).Sublist (self.wakerQueue.map Prod.fst) := by
  have hall := (List.filter_sublist (p := fun entry : Waker × UInt32 => entry.2 = addr)
    (l := self.wakerQueue)).map Prod.fst
  unfold ArbiterImpl.signalled
  dsimp only
  split
  · exact hall
  · exact (List.take_sublist _ _).trans hall

theorem signalled_of_sound {self : ArbiterImpl} (h : k.view.QueuesSound)
    (hx : k.object? o = some (.arbiter self)) (amount : Int32) (addr : UInt32) :
    ∃ woke k', self.signal o amount addr k = .ret (woke, k') ∧
      k.Signalled o self (self.signalled amount addr) woke k' := by
  have hqueue := arbiterQueue_of_object? (v := k.view) hx
  have hthreads := h.alone o _ hqueue
  have hmap : (self.wakerQueue.map fun entry => entry.1.thread) =
      (self.wakerQueue.map Prod.fst).map Waker.thread := by
    rw [List.map_map]
    rfl
  rw [hmap] at hthreads
  have hdistinct : ((self.signalled amount addr).map Waker.thread).Nodup :=
    (signalled_subset.map _).nodup hthreads
  have hrest := @ArbiterImpl.drain_rest addr
    (if amount < 0 then 0xFFFFFFFF else amount.toUInt32) self.wakerQueue (.of_map _ hthreads)
  have hdrained := ArbiterImpl.drain_signalled self amount addr
  generalize hws : self.signalled amount addr = ws at *
  have hsub : ws.Sublist (self.wakerQueue.map Prod.fst) := hws ▸ signalled_subset
  rw [hdrained] at hrest
  have hwaiting : ∀ w ∈ ws, ∃ thread, k.thread? w.thread = some thread ∧
      thread.wakeKey = w.key ∧ thread.state = .waiting ∧ thread.waitType = some .arbiter ∧
      thread.waitObjects = [o] := by
    intro w hw
    obtain ⟨entry, hentry, rfl⟩ := List.mem_map.mp (hsub.subset hw)
    obtain ⟨self', hself', hkey, hstate, htype, hobjects⟩ := h.waits o _ hqueue entry hentry
    obtain ⟨thread, hthread, rfl⟩ := Option.map_eq_some_iff.mp hself'
    exact ⟨thread, hthread, hkey, hstate, htype, hobjects⟩
  obtain ⟨k', hret, hthreads', hobjects'⟩ := @wakeDrained_eq
    (k.modifyObject o (KObject.setArbiterQueue (self.wakerQueue.filter fun entry => entry.1 ∉ ws)))
    o ⟨self.wakerQueue.filter fun entry => entry.1 ∉ ws⟩ ws
    (by rw [Kernel.object?_modifyObject, if_pos rfl, hx]; rfl) hdistinct
    (fun w hw => by
      obtain ⟨thread, hthread, hkey, _, htype, hobjects⟩ := hwaiting w hw
      exact ⟨thread, hthread, hkey, htype, hobjects⟩)
    (fun entry hentry w hw ht => by
      obtain ⟨hmem, hnot⟩ := List.mem_filter.mp hentry
      have heq : entry.1 = w := List.inj_on_of_nodup_map hthreads (List.mem_map_of_mem hmem)
        (hsub.subset hw) ht
      exact of_decide_eq_true hnot (heq ▸ hw))
  refine ⟨!ws.isEmpty, k', ?_, hdistinct, fun w hw => ?_, fun t ht => ?_, ?_, fun p hp => ?_, ?_⟩
  · unfold ArbiterImpl.signal
    dsimp only
    rw [hdrained, hrest, hret, ret_bind]
    rfl
  · obtain ⟨thread, hthread, _, hstate, _⟩ := hwaiting w hw
    refine ⟨thread, hthread, hstate, ?_⟩
    rw [hthreads', if_pos (List.mem_map_of_mem hw)]
    show (k.thread? w.thread).map _ = _
    rw [hthread]
    rfl
  · rw [hthreads', if_neg]
    · rfl
    · intro hmem
      obtain ⟨w, hw, heq⟩ := List.mem_map.mp hmem
      exact ht w hw heq
  · rw [hobjects', Kernel.object?_modifyObject, if_pos rfl, hx]
    rfl
  · rw [hobjects', Kernel.object?_modifyObject, if_neg hp]
  · simp

end Signals

/-- **Signals wake whom they are for.** In every state of every run, a signal of an arbiter wakes
    the first threads that wait there on the address, as many as it names or all of them: each of
    them is asleep before and ready after. Other threads, other objects and the order of the
    wakers that stay are as before. -/
theorem arbiterSignals {rng : Nat → UInt32} {tr : List (Kernel × SvcStep)} {k : Kernel}
    (h : Run (svcSystem rng) tr k) {o : ObjId} {self : ArbiterImpl}
    (hx : k.object? o = some (.arbiter self)) (amount : Int32) (addr : UInt32) :
    ∃ woke k', self.signal o amount addr k = .ret (woke, k') ∧
      k.Signalled o self (self.signalled amount addr) woke k' :=
  signalled_of_sound (queuesSound_of_run h) hx amount addr

/-- Three threads wait, two of them on the address: a signal of one wakes the first. -/
theorem arbiterSignals_sample : ∃ (tr : List (Kernel × SvcStep)) (k k' : Kernel)
    (self : ArbiterImpl), Run (svcSystem UInt32.ofNat) tr k ∧
      self.wakerQueue = [(⟨0, 0⟩, 16), (⟨1, 0⟩, 32), (⟨2, 0⟩, 16)] ∧
      self.signal 3 1 16 k = .ret (true, k') ∧ k.Signalled 3 self [⟨0, 0⟩] true k' := by
  have hrun : (runAll (svcStep? UInt32.ofNat 4) Kernel.new [.newProcess .hle, .newThread 0,
      .newThread 0, .newThread 0, .runNext, .call .createAddressArbiter,
      .call (.arbitrateAddress (Handle.fromRaw 1) 16 .waitIfLessThan 0 1), .stop 0, .runNext,
      .call (.arbitrateAddress (Handle.fromRaw 1) 32 .waitIfLessThan 0 1), .stop 1, .runNext,
      .call (.arbitrateAddress (Handle.fromRaw 1) 16 .waitIfLessThan 0 1)]).map
        (fun k => k.object? 3) =
      some (some (.arbiter ⟨[(⟨0, 0⟩, 16), (⟨1, 0⟩, 32), (⟨2, 0⟩, 16)]⟩)) := by
    decide +kernel
  obtain ⟨k, hk, hobject⟩ := Option.map_eq_some_iff.mp hrun
  obtain ⟨tr, htr⟩ := Run.of_runAll (fun _ _ _ hst => step_of_svcStep? hst)
    (.start (M := svcSystem UInt32.ofNat) rfl) hk
  obtain ⟨woke, k', hsignal, hout⟩ := arbiterSignals htr hobject 1 16
  have hwoke : woke = true := hout.result.mpr (by decide)
  rw [hwoke] at hsignal hout
  exact ⟨tr, k, k', _, htr, rfl, hsignal, hout⟩

end Pomelo
