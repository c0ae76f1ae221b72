/-
  The moves that waits are made of.

  A thread that waits on several objects gives one waker to each, in order. The first object
  that is ready wakes the thread, and from then on the waker is stale: an object visited later
  that is not ready puts a stale waker into its queue. `StaleFree` is the condition on the
  objects, before the call, under which this does not happen (`waitEach_moves`).
-/
import Pomelo.Hle.Moves

namespace Pomelo

open Lib Outcome

namespace KObject

/-- The object is there for a thread that waits on it now. -/
def ready : KObject → Bool
  | event self => self.signal.signaled
  | timer self => self.signal.signaled
  | mutex self => !self.acquired
  | thread self => self.dead
  | _ => false

/-- An event or a timer is signaled, a mutex is acquired, a thread is dead. -/
def flag : KObject → Option Bool
  | event self => some self.signal.signaled
  | timer self => some self.signal.signaled
  | mutex self => some self.acquired
  | thread self => some self.dead
  | _ => none

/-- The object stays ready when a thread takes it. -/
def lasting : KObject → Bool
  | event self => self.signal.isSticky
  | timer self => self.signal.isSticky
  | thread _ => true
  | _ => false

/-- What a thread that takes the object does to it. -/
def takeFor : KObject → KObject → KObject
  | event _ | timer _ => modifySignal fun signal => signal.consume.2
  | mutex _ => setAcquired true
  | _ => id

/-- What undoes it. -/
def untakeFor : KObject → KObject → KObject
  | event _ | timer _ => modifySignal Signal.unconsume
  | mutex _ => setAcquired false
  | _ => id

theorem plain_takeFor (x : KObject) : Plain x.takeFor := by
  cases x with
  | event self => exact plain_modifySignal fun signal => signal.consume.2
  | timer self => exact plain_modifySignal fun signal => signal.consume.2
  | mutex self => exact plain_setAcquired true
  | _ => exact plain_id

theorem plain_untakeFor (x : KObject) : Plain x.untakeFor := by
  cases x with
  | event self => exact plain_modifySignal Signal.unconsume
  | timer self => exact plain_modifySignal Signal.unconsume
  | mutex self => exact plain_setAcquired false
  | _ => exact plain_id

theorem sparesArbiters_takeFor (x : KObject) : SparesArbiters x.takeFor := by
  cases x with
  | event self => exact .modifySignal fun signal => signal.consume.2
  | timer self => exact .modifySignal fun signal => signal.consume.2
  | mutex self => exact .setAcquired true
  | _ => exact .id

theorem sparesArbiters_untakeFor (x : KObject) : SparesArbiters x.untakeFor := by
  cases x with
  | event self => exact .modifySignal Signal.unconsume
  | timer self => exact .modifySignal Signal.unconsume
  | mutex self => exact .setAcquired false
  | _ => exact .id

theorem wakers_takeFor (x y : KObject) : (x.takeFor y).wakers = y.wakers := by
  cases x with
  | event self => exact wakers_modifySignal (fun signal => signal.consume.2) y
  | timer self => exact wakers_modifySignal (fun signal => signal.consume.2) y
  | mutex self => exact wakers_setAcquired true y
  | _ => rfl

theorem wakers_untakeFor (x y : KObject) : (x.untakeFor y).wakers = y.wakers := by
  cases x with
  | event self => exact wakers_modifySignal Signal.unconsume y
  | timer self => exact wakers_modifySignal Signal.unconsume y
  | mutex self => exact wakers_setAcquired false y
  | _ => rfl

@[simp] theorem ready_removeWakers (id : Nat) (x : KObject) :
    (x.removeWakers id).ready = x.ready := by
  cases x <;> rfl

@[simp] theorem ready_pushWaker (w : Waker) (x : KObject) : (x.pushWaker w).ready = x.ready := by
  cases x <;> rfl

@[simp] theorem lasting_removeWakers (id : Nat) (x : KObject) :
    (x.removeWakers id).lasting = x.lasting := by
  cases x <;> rfl

@[simp] theorem lasting_pushWaker (w : Waker) (x : KObject) :
    (x.pushWaker w).lasting = x.lasting := by
  cases x <;> rfl

theorem consume_of_signaled {signal : Signal} (h : signal.signaled = true) :
    signal.consume = (true, { signal with signaled := signal.isSticky }) := by
  obtain ⟨resetType, signaled⟩ := signal
  dsimp only at h
  subst h
  cases resetType <;> rfl

theorem consume_fst (signal : Signal) : signal.consume.1 = signal.signaled := by
  obtain ⟨resetType, signaled⟩ := signal
  cases signaled with
  | false => rfl
  | true => cases resetType <;> rfl

theorem ready_takeFor {x : KObject} (h : x.ready = true) : (x.takeFor x).ready = x.lasting := by
  cases x with
  | event self =>
    show (self.signal.consume.2).signaled = _
    rw [consume_of_signaled h]
    rfl
  | timer self =>
    show (self.signal.consume.2).signaled = _
    rw [consume_of_signaled h]
    rfl
  | mutex self => rfl
  | thread self => exact h
  | _ => cases h

/-- A take that is undone leaves the object ready. -/
theorem ready_untakeFor {x : KObject} (h : x.ready = true) :
    (x.untakeFor (x.takeFor x)).ready = true := by
  cases x with
  | event self => rfl
  | timer self => rfl
  | mutex self => rfl
  | thread self => exact h
  | _ => cases h

/-- Ports and sessions are never ready. -/
theorem peer_of_ready {x : KObject} (h : x.ready = true) : x.peer = .none := by
  cases x with
  | event self => rfl
  | timer self => rfl
  | mutex self => rfl
  | thread self => rfl
  | _ => cases h

end KObject

/-- The object is there, and ready. -/
def Objects.ready (objects : Objects) (o : ObjId) : Bool := (objects.at? o).any KObject.ready

def Objects.lasting (objects : Objects) (o : ObjId) : Bool := (objects.at? o).any KObject.lasting

/-- Behind the first of the objects that is ready, all are, and this one comes up again only if
    it stays so. -/
def StaleFree (ready lasting : ObjId → Bool) : List ObjId → Prop
  | [] => True
  | o :: os =>
    if ready o then ∀ p ∈ os, ready p = true ∧ (p = o → lasting o = true)
    else StaleFree ready lasting os

/-! ## One object -/

namespace View

/-- The waker is live, and its thread waits on the objects. -/
def Attends (v : View) (w : Waker) (objects : List ObjId) : Prop :=
  ∃ self, v.sleepers w.thread = some self ∧ self.wakeKey = w.key ∧ self.state = .waiting ∧
    self.waitObjects = objects

variable {v : View} {w : Waker} {objects : List ObjId} {o p : ObjId} {f : KObject → KObject}

theorem tryWake_of_live (h : v.Live w) : ∃ self, v.sleepers w.thread = some self ∧
    self.wakeKey = w.key ∧ v.tryWake w = v.wake w.thread self := by
  obtain ⟨self, hself, hkey⟩ := h
  refine ⟨self, hself, hkey, ?_⟩
  unfold tryWake
  rw [hself]
  dsimp only
  rw [if_pos hkey]

theorem tryWake_of_not_live (h : ¬ v.Live w) : v.tryWake w = v := by
  unfold tryWake
  cases hself : v.sleepers w.thread with
  | none => rfl
  | some self =>
    dsimp only
    exact if_neg fun hkey => h ⟨self, hself, hkey⟩

/-- A thread that is woken has another key. -/
theorem not_live_wake {self : Sleeper} (hk : self.wakeKey = w.key) :
    ¬ (v.wake w.thread self).Live w := by
  rintro ⟨self', hself', hkey⟩
  have hwoken : (v.wake w.thread self).sleepers w.thread = some self.woken :=
    Function.update_self _ _ _
  rw [hwoken] at hself'
  injection hself' with hself'
  rw [← hself', ← hk] at hkey
  have hne : self.wakeKey + 1 ≠ self.wakeKey := by grind
  exact hne hkey

theorem ready_of_object? {x : KObject} (hx : v.object? o = some x) :
    v.objects.ready o = x.ready := by
  show (v.object? o).any KObject.ready = _
  rw [hx]
  rfl

theorem lasting_of_object? {x : KObject} (hx : v.object? o = some x) :
    v.objects.lasting o = x.lasting := by
  show (v.object? o).any KObject.lasting = _
  rw [hx]
  rfl

/-- The readiness of the objects of a view after an object changed. -/
theorem ready_modify {x : KObject} (hx : v.object? o = some x) :
    (v.modify o f).objects.ready p = if p = o then (f x).ready else v.objects.ready p := by
  show ((v.modify o f).object? p).any KObject.ready = _
  rw [object?_modify]
  by_cases hp : p = o
  · rw [if_pos hp, if_pos hp, hp, hx]
    rfl
  · rw [if_neg hp, if_neg hp]
    rfl

theorem lasting_modify {x : KObject} (hx : v.object? o = some x) :
    (v.modify o f).objects.lasting p = if p = o then (f x).lasting else v.objects.lasting p := by
  show ((v.modify o f).object? p).any KObject.lasting = _
  rw [object?_modify]
  by_cases hp : p = o
  · rw [if_pos hp, if_pos hp, hp, hx]
    rfl
  · rw [if_neg hp, if_neg hp]
    rfl

theorem ready_wake (t : ThreadIndex) (self : Sleeper) :
    (v.wake t self).objects.ready p = v.objects.ready p := by
  show ((v.wake t self).object? p).any KObject.ready = (v.object? p).any KObject.ready
  rw [object?_wake]
  split
  · cases v.object? p <;> simp
  · rfl

end View

section Wait

variable {k k' : Kernel} {o : ObjId} {w : Waker} {x : KObject}

/-- A wait on an object that may be there at once. -/
theorem waitOr_cases {ready : Bool} {take untake : KObject → KObject}
    (h : waitOr o w ready take untake k = .ret k') :
    ready = false ∧ k'.view = k.view.modify o (KObject.pushWaker w) ∨
    ready = true ∧ k.view.Live w ∧ k'.view = (k.view.modify o take).tryWake w ∨
    ready = true ∧ ¬ k.view.Live w ∧ k'.view = k.view.modify o fun x => untake (take x) := by
  unfold waitOr at h
  split at h
  · rename_i hready
    right
    obtain ⟨⟨ok, k1⟩, hwake, h⟩ := bind_eq_ret.mp h
    obtain ⟨hview, hlive⟩ := Kernel.view_wake hwake
    rw [Kernel.view_modifyObject] at hview hlive
    injection h with h
    cases ok with
    | true =>
      exact Or.inl ⟨hready, hlive.mp rfl, by rw [← h, if_pos rfl, hview]⟩
    | false =>
      have hnot : ¬ k.view.Live w := fun hl => by cases hlive.mpr hl
      refine Or.inr ⟨hready, hnot, ?_⟩
      have hnot' : ¬ (k.view.modify o take).Live w := hnot
      rw [← h, if_neg (by simp), Kernel.view_modifyObject, hview, View.tryWake_of_not_live hnot',
        View.modify_modify]
  · rename_i hready
    injection h with h
    exact Or.inl ⟨by simpa using hready, by rw [← h]; rfl⟩

/-- What a wait on one object comes to. -/
theorem wait_cases (h : KObject.wait o w k x = .ret k') :
    x.ready = false ∧ k'.view = k.view.modify o (KObject.pushWaker w) ∨
    x.ready = true ∧ k.view.Live w ∧ k'.view = (k.view.modify o x.takeFor).tryWake w ∨
    x.ready = true ∧ ¬ k.view.Live w ∧
      k'.view = k.view.modify o fun y => x.untakeFor (x.takeFor y) := by
  cases x with
  | event self =>
    have hcases := waitOr_cases h
    rw [KObject.consume_fst] at hcases
    exact hcases
  | timer self =>
    have hcases := waitOr_cases h
    rw [KObject.consume_fst] at hcases
    exact hcases
  | mutex self => exact waitOr_cases h
  | thread self => exact waitOr_cases h
  | arbiter self => cases h
  | codeSet => cases h
  | _ =>
    injection h with h
    exact Or.inl ⟨rfl, by rw [← h]; rfl⟩

end Wait

/-! ## Several objects -/

section WaitEach

variable {allowed : Move → Prop} {k k' : Kernel} {w : Waker} {all os : List ObjId}

theorem staleFree_of_not_ready {ready lasting : ObjId → Bool}
    (h : ∀ o ∈ os, ready o = false) : StaleFree ready lasting os := by
  induction os with
  | nil => trivial
  | cons o os ih =>
    unfold StaleFree
    rw [if_neg (by simp [h o])]
    exact ih fun p hp => h p (List.mem_cons_of_mem o hp)

theorem staleFree_single (ready lasting : ObjId → Bool) (o : ObjId) :
    StaleFree ready lasting [o] := by
  unfold StaleFree
  split
  · intro p hp
    cases hp
  · trivial

/-- The moves of a thread that waits with `w` on the objects, in order. A waker goes stale only
    in a wait that is not free of it. -/
structure WaitMoves (allowed : Move → Prop) (w : Waker) (os : List ObjId) (stale : Prop) :
    Prop where
  enqueue : ∀ o ∈ os, ∀ p, allowed (.enqueue o p w (KObject.pushWaker w))
  take : ∀ o ∈ os, ∀ f, KObject.SparesArbiters f → allowed (.take o .none w f)
  change : ∀ o ∈ os, ∀ f, KObject.SparesArbiters f → allowed (.change o .none f)
  enqueueStale : stale → ∀ o ∈ os, ∀ p, allowed (.enqueueStale o p w (KObject.pushWaker w))

theorem WaitMoves.tail {o : ObjId} {stale : Prop} (h : WaitMoves allowed w (o :: os) stale) :
    WaitMoves allowed w os stale where
  enqueue p hp := h.enqueue p (List.mem_cons_of_mem o hp)
  take p hp := h.take p (List.mem_cons_of_mem o hp)
  change p hp := h.change p (List.mem_cons_of_mem o hp)
  enqueueStale hs p hp := h.enqueueStale hs p (List.mem_cons_of_mem o hp)

theorem waitEach_cons {o : ObjId} (h : Kernel.waitEach w (o :: os) k = .ret k') :
    ∃ x k1, k.object? o = some x ∧ KObject.wait o w k x = .ret k1 ∧
      Kernel.waitEach w os k1 = .ret k' := by
  obtain ⟨x, hx, h⟩ := bind_eq_ret.mp h
  obtain ⟨k1, hwait, h⟩ := bind_eq_ret.mp h
  obtain ⟨hx, _⟩ := Option.filter_eq_some_iff.mp (expect_eq_ret.mp hx)
  exact ⟨x, k1, hx, hwait, h⟩

/-- The rest of a wait whose thread was woken. -/
theorem waitEach_woken {stale : Prop} (ha : WaitMoves allowed w os stale)
    (hlive : ¬ k.view.Live w)
    (hs : (∀ o ∈ os, k.view.objects.ready o = true) ∨ stale)
    (h : Kernel.waitEach w os k = .ret k') : Moves View.Step allowed k.view k'.view := by
  induction os generalizing k with
  | nil =>
    injection h with h
    rw [h]
    exact .refl _
  | cons o os ih =>
    obtain ⟨x, k1, hx, hwait, h⟩ := waitEach_cons h
    have hv : k.view.object? o = some x := hx
    have hready := View.ready_of_object? hv
    rcases wait_cases hwait with ⟨hnot, hview⟩ | ⟨_, hl, _⟩ | ⟨hr, _, hview⟩
    · have hstale : stale := by
        rcases hs with hs | hs
        · rw [hs o List.mem_cons_self, hnot] at hready
          cases hready
        · exact hs
      have hlive' : ¬ k1.view.Live w := by
        rw [hview]
        exact hlive
      have hmove : View.Step k.view (.enqueueStale o x.peer w (KObject.pushWaker w)) k1.view := by
        rw [hview]
        exact .enqueueStale hlive (View.adds_pushWaker w hv)
      exact (Moves.single (ha.enqueueStale hstale o List.mem_cons_self _) hmove).trans
        (ih ha.tail hlive' (Or.inr hstale) h)
    · exact absurd hl hlive
    · have hlive' : ¬ k1.view.Live w := by
        rw [hview]
        exact hlive
      have hpeer := KObject.peer_of_ready hr
      have hspares := (KObject.sparesArbiters_takeFor x).comp (KObject.sparesArbiters_untakeFor x)
      have hplain : ∀ y, (x.untakeFor (x.takeFor y)).peer = y.peer := fun y => by
        rw [(KObject.plain_untakeFor x).peer, (KObject.plain_takeFor x).peer]
      have hwakers : ∀ y, (x.untakeFor (x.takeFor y)).wakers = y.wakers := fun y => by
        rw [KObject.wakers_untakeFor, KObject.wakers_takeFor]
      have hmove : View.Step k.view
          (.change o .none fun y => x.untakeFor (x.takeFor y)) k1.view := by
        rw [hview, ← hpeer]
        exact .change (View.adds_of_wakers [] hv hplain hwakers)
      have hrest : (∀ p ∈ os, k1.view.objects.ready p = true) ∨ stale := by
        refine hs.imp_left fun hall p hp => ?_
        rw [hview, View.ready_modify hv]
        split
        · exact KObject.ready_untakeFor hr
        · exact hall p (List.mem_cons_of_mem o hp)
      exact (Moves.single (ha.change o List.mem_cons_self _ hspares) hmove).trans
        (ih ha.tail hlive' hrest h)

/-- A wait on several objects. -/
theorem waitEach_moves {stale : Prop} (ha : WaitMoves allowed w os stale)
    (hw : k.view.Attends w all) (hall : ∀ o ∈ os, o ∈ all)
    (hs : StaleFree k.view.objects.ready k.view.objects.lasting os ∨ stale)
    (h : Kernel.waitEach w os k = .ret k') : Moves View.Step allowed k.view k'.view := by
  induction os generalizing k with
  | nil =>
    injection h with h
    rw [h]
    exact .refl _
  | cons o os ih =>
    obtain ⟨x, k1, hx, hwait, h⟩ := waitEach_cons h
    have hv : k.view.object? o = some x := hx
    have hready := View.ready_of_object? hv
    obtain ⟨self, hself, hkey, hstate, hobjects⟩ := hw
    have ho : o ∈ self.waitObjects := by
      rw [hobjects]
      exact hall o List.mem_cons_self
    rcases wait_cases hwait with ⟨hnot, hview⟩ | ⟨hr, _, hview⟩ | ⟨_, hl, _⟩
    · have hw' : k1.view.Attends w all := by
        rw [hview]
        exact ⟨self, hself, hkey, hstate, hobjects⟩
      have hmove : View.Step k.view (.enqueue o x.peer w (KObject.pushWaker w)) k1.view := by
        rw [hview]
        exact .enqueue hself hkey hstate ho (View.adds_pushWaker w hv)
      have hrest : StaleFree k1.view.objects.ready k1.view.objects.lasting os ∨ stale := by
        refine hs.imp_left fun hs => ?_
        have hsame : k1.view.objects.ready = k.view.objects.ready := by
          funext p
          rw [hview, View.ready_modify hv, KObject.ready_pushWaker]
          split
          · rename_i hp
            rw [hp, hready]
          · rfl
        have hsame' : k1.view.objects.lasting = k.view.objects.lasting := by
          funext p
          rw [hview, View.lasting_modify hv, KObject.lasting_pushWaker]
          split
          · rename_i hp
            rw [hp, View.lasting_of_object? hv]
          · rfl
        unfold StaleFree at hs
        rw [hready, hnot, if_neg (by simp)] at hs
        rw [hsame, hsame']
        exact hs
      exact (Moves.single (ha.enqueue o List.mem_cons_self _) hmove).trans
        (ih ha.tail hw' (fun p hp => hall p (List.mem_cons_of_mem o hp)) hrest h)
    · have hpeer := KObject.peer_of_ready hr
      have hwoken : k1.view = (k.view.modify o x.takeFor).wake w.thread self := by
        rw [hview]
        unfold View.tryWake
        rw [show (k.view.modify o x.takeFor).sleepers w.thread = some self from hself]
        exact if_pos hkey
      have hmove : View.Step k.view (.take o .none w x.takeFor) k1.view := by
        rw [hwoken, ← hpeer]
        exact .take hself hkey hstate ho (View.adds_of_wakers [] hv
          (KObject.plain_takeFor x).peer (KObject.wakers_takeFor x))
      have hlive' : ¬ k1.view.Live w := by
        rw [hwoken]
        exact View.not_live_wake hkey
      have hrest : (∀ p ∈ os, k1.view.objects.ready p = true) ∨ stale := by
        refine hs.imp_left fun hs p hp => ?_
        unfold StaleFree at hs
        rw [hready, hr, if_pos rfl] at hs
        obtain ⟨hreadyp, hlasting⟩ := hs p hp
        rw [hwoken, View.ready_wake, View.ready_modify hv]
        split
        · rename_i hpo
          rw [KObject.ready_takeFor hr, ← View.lasting_of_object? hv, hlasting hpo]
        · exact hreadyp
      have htaken := ha.take o List.mem_cons_self _ (KObject.sparesArbiters_takeFor x)
      exact (Moves.single htaken hmove).trans
        (waitEach_woken ha.tail hlive' hrest h)
    · exact absurd ⟨self, hself, hkey⟩ hl

end WaitEach

end Pomelo
