/-
  Who sleeps at a server end where something is queued.

  An end is `Unserved` while it queues what a server has yet to take: sessions, or requests that
  no server has received. `Heeds E` says that the threads asleep at such ends are all of `E`. A
  move that keeps what server ends queue keeps it too, unless it puts another thread to sleep
  (`Step.heeds`). A thread that suspends itself is one of `E` until its call is over
  (`heeded_of_suspended`), and a thread that is woken makes room for what is queued next
  (`heeded_of_wakeFront`).
-/
import Pomelo.Hle.Queues
import Pomelo.Hle.WaitAny

namespace Pomelo

open Lib Outcome

/-- The server end of a port or of a session. -/
def Peer.IsServer : Peer → Prop
  | ofServerPort _ | ofServerSession _ => True
  | _ => False

namespace View

/-- The thread of the waker sleeps in the queue of the object. -/
def SleepsIn (v : View) (w : Waker) (o : ObjId) : Prop := w ∈ v.wakers o ∧ v.WaitsAt w o

/-- The requests that no server has received, if the first was received or not. -/
def unreceived (received : ObjId → Bool) (v : View) (o : ObjId) : List ThreadIndex :=
  if received o then (v.requests o).tail else v.requests o

/-- A request that was not received is queued at the object, or a session is. -/
def Unserved (received : ObjId → Bool) (v : View) (o : ObjId) : Prop :=
  v.unreceived received o ≠ [] ∨ v.sessions o ≠ []

/-- The threads asleep where something is unserved are of `E`. -/
def Heeds (received : ObjId → Bool) (E : ThreadIndex → Prop) (v : View) : Prop :=
  ∀ o w, v.SleepsIn w o → v.Unserved received o → E w.thread

/-- No thread sleeps where something is unserved. -/
abbrev Heeded (received : ObjId → Bool) (v : View) : Prop := v.Heeds received fun _ => False

end View

/-- No thread goes to sleep in the move, but those of `E` into the queues that they wait in. -/
def Move.SleepsOnly (E : ThreadIndex → Prop) : Move → Prop
  | suspend _ _ _ _ => False
  | enqueue _ _ w _ => E w.thread
  | _ => True

/-- The move also keeps what server ends queue. -/
structure Move.Calm (E : ThreadIndex → Prop) (m : Move) : Prop where
  sleeps : m.SleepsOnly E
  data : ∀ o p, p.IsServer → m.KeepsData o p

namespace View

variable {v v' : View} {m : Move} {o s : ObjId} {w : Waker} {t : ThreadIndex} {self : Sleeper}
  {E : ThreadIndex → Prop} {received received' : ObjId → Bool}

/-! ## What is unserved -/

theorem unserved_iff {x : KObject} (hx : v.object? o = some x) : v.Unserved received o ↔
    (if received o then x.requests.tail else x.requests) ≠ [] ∨ x.sessions ≠ [] := by
  unfold Unserved unreceived requests sessions
  rw [hx]

theorem Unserved.object? (h : v.Unserved received o) : ∃ x, v.object? o = some x := by
  unfold Unserved unreceived requests sessions at h
  cases hx : v.object? o with
  | some x => exact ⟨x, rfl⟩
  | none =>
    rw [hx] at h
    simp at h

/-- Only server ends queue anything. -/
theorem Unserved.isServer {x : KObject} (h : v.Unserved received o) (hx : v.object? o = some x) :
    x.peer.IsServer := by
  rw [unserved_iff hx] at h
  cases x with
  | serverPort self => trivial
  | serverSession self => trivial
  | _ => simp [KObject.requests, KObject.sessions] at h

theorem unserved_congr (h : v'.objects = v.objects) :
    v'.Unserved received o ↔ v.Unserved received o := by
  unfold Unserved unreceived requests sessions object?
  rw [h]

/-- A move that keeps what the object queues leaves nothing unserved that was not. -/
theorem Step.unserved (h : Step v m v') (hm : ∀ p, p.IsServer → m.KeepsData o p)
    (hu : v'.Unserved received o) : v.Unserved received o := by
  obtain ⟨y, hy⟩ := hu.object?
  rcases h.peer hy with ⟨x, hx, hp⟩ | ⟨_, hnew, _⟩
  · have hserver := hu.isServer hy
    rw [hp] at hserver
    obtain ⟨hrequests, hsessions⟩ := h.keepsData (hm _ hserver) hx rfl hy
    rw [unserved_iff hy, hrequests, hsessions] at hu
    exact (unserved_iff hx).mpr hu
  · rw [unserved_iff hy, hnew.requests, hnew.sessions] at hu
    simp at hu

/-! ## Who sleeps -/

theorem sleepers_of_tryWake (hself : (v.tryWake w).sleepers t = some self)
    (hstate : self.state = .waiting) : v.sleepers t = some self := by
  unfold tryWake at hself
  split at hself
  · split at hself
    · have hself : Function.update v.sleepers w.thread _ t = some self := hself
      rw [Function.update_apply] at hself
      split at hself
      · injection hself with hself
        rw [← hself] at hstate
        cases hstate
      · exact hself
    · exact hself
  · exact hself

theorem sleepers_of_wakes {ws : List Waker} (hself : (ws.foldl tryWake v).sleepers t = some self)
    (hstate : self.state = .waiting) : v.sleepers t = some self := by
  induction ws generalizing v with
  | nil => exact hself
  | cons w ws ih => exact sleepers_of_tryWake (ih hself) hstate

/-- A thread that waits after a move in which none is suspended waited before it. -/
theorem Step.sleepers_before (h : Step v m v') (hm : m.SleepsOnly E)
    (hself : v'.sleepers t = some self) (hstate : self.state = .waiting) :
    v.sleepers t = some self := by
  have hupdate : ∀ {t' : ThreadIndex} {self' : Sleeper}, self'.state ≠ .waiting →
      Function.update v.sleepers t' (some self') t = some self → v.sleepers t = some self := by
    intro t' self' hnot hself
    rw [Function.update_apply] at hself
    split at hself
    · injection hself with hself
      exact absurd (hself ▸ hstate) hnot
    · exact hself
  cases h with
  | turn _ _ hn => exact hupdate hn hself
  | born =>
    have hself : (v.sleepers t).or _ = some self := hself
    cases hold : v.sleepers t with
    | some self' =>
      rw [hold] at hself
      exact hself
    | none =>
      rw [hold, Option.none_or] at hself
      split at hself
      · injection hself with hself
        rw [← hself] at hstate
        cases hstate
      · cases hself
  | suspend => exact hm.elim
  | expire => exact hupdate (fun h => by cases h) hself
  | take => exact hupdate (fun h => by cases h) hself
  | @act o p ws f g hws hf hg =>
    have hself : (ws.foldl tryWake (v.modify o f)).sleepers t = some self := hself
    have hbefore : (v.modify o f).sleepers t = some self := sleepers_of_wakes hself hstate
    exact hbefore
  | _ => exact hself

theorem Step.not_asleep (h : Step v m v') (hm : m.SleepsOnly E) (ht : ¬ v.Asleep t) :
    ¬ v'.Asleep t := by
  rintro ⟨self, hself, hstate⟩
  exact ht ⟨self, h.sleepers_before hm hself hstate, hstate⟩

/-- A thread gets into a queue that it sleeps in by being put there. -/
theorem Step.sleepsIn (h : Step v m v') (hm : m.SleepsOnly E) (hs : v'.SleepsIn w o) :
    v.SleepsIn w o ∨ E w.thread := by
  obtain ⟨hw, self, hself, hkey, hstate, ho⟩ := hs
  have hbefore := h.sleepers_before hm hself hstate
  rcases h.mem_wakers hw with hw | ⟨p, f, rfl | rfl, _⟩
  · exact Or.inl ⟨hw, self, hbefore, hkey, hstate, ho⟩
  · exact Or.inr hm
  · cases h with
    | enqueueStale hlive => exact absurd ⟨self, hbefore, hkey⟩ hlive

/-! ## Moves -/

/-- A step that unserves nothing. -/
theorem Heeds.of_step (h : v.Heeds received E) (hstep : Step v m v') (hm : m.SleepsOnly E)
    (hu : ∀ o, v'.Unserved received' o → v.Unserved received o) : v'.Heeds received' E := by
  intro o w hs hun
  rcases hstep.sleepsIn hm hs with hs | he
  · exact h o w hs (hu o hun)
  · exact he

theorem Step.heeds (hstep : Step v m v') (hm : m.Calm E) (h : v.Heeds received E) :
    v'.Heeds received E :=
  h.of_step hstep hm.sleeps fun o => hstep.unserved (hm.data o)

theorem heeds_of_moves (hmoves : Moves Step (Move.Calm E) v v') (h : v.Heeds received E) :
    v'.Heeds received E :=
  hmoves.keeps (I := View.Heeds received E) (fun _ _ _ hv hm hs => hs.heeds hm hv) h

theorem unserved_of_moves (hmoves : Moves Step (Move.Calm E) v v')
    (hu : v'.Unserved received o) : v.Unserved received o := by
  by_contra hnot
  exact hmoves.keeps (I := fun v => ¬ v.Unserved received o)
    (fun _ _ _ hv hm hs hun => hv (hs.unserved (hm.data o) hun)) hnot hu

/-- A thread that sleeps on some objects sleeps on, or is woken and sleeps no more. -/
theorem sleepsOn_of_moves (hmoves : Moves Step (Move.Calm E) v v')
    (hself : v.sleepers t = some self) (hstate : self.state = .waiting) : v'.SleepsOn t self := by
  refine hmoves.keeps (I := fun v => v.SleepsOn t self) ?_ (Or.inl hself)
  rintro v1 m v2 (hself1 | hnot) hm hs
  · exact hs.sleepsOn hself1 hstate
  · exact Or.inr (hs.not_asleep hm.sleeps hnot)

end View

/-! ## Calls that put their thread to sleep -/

theorem steady_calm (E : ThreadIndex → Prop) : Steady (Move.Calm E) := by
  have hnone : ∀ (o o' : ObjId) (p : Peer), p.IsServer → ¬ (o = o' ∧ Peer.none = p) := by
    rintro o o' p hp ⟨_, rfl⟩
    exact hp
  exact {
    turn := fun _ _ => ⟨trivial, fun _ _ _ => trivial⟩
    born := fun _ => ⟨trivial, fun _ _ _ => trivial⟩
    make := fun _ => ⟨trivial, fun _ _ _ => trivial⟩
    makePair := fun _ _ => ⟨trivial, fun _ _ _ => trivial⟩
    drop := fun _ => ⟨trivial, fun _ _ _ => trivial⟩
    expire := fun _ => ⟨trivial, fun _ _ _ => trivial⟩
    change := fun o _ _ => ⟨trivial, hnone o⟩
    take := fun o _ _ _ => ⟨trivial, hnone o⟩
    act := fun o _ _ _ _ _ => ⟨trivial, hnone o⟩ }

theorem calm_enqueue {E : ThreadIndex → Prop} {o : ObjId} {p : Peer} {w : Waker} (h : E w.thread) :
    Move.Calm E (.enqueue o p w (KObject.pushWaker w)) :=
  ⟨h, fun _ _ _ _ => fun x =>
    ⟨(KObject.plain_pushWaker w).requests x, (KObject.plain_pushWaker w).sessions x⟩⟩

/-- The moves of a wait are calm but for its own thread. -/
theorem waitMoves_calm (w : Waker) (os : List ObjId) :
    WaitMoves (Move.Calm fun t => t = w.thread) w os True where
  enqueue _ _ _ := calm_enqueue rfl
  take o _ f := (steady_calm _).take o w f
  change o _ f := (steady_calm _).change o f
  enqueueStale _ _ _ _ := ⟨trivial, fun _ _ _ _ => fun x =>
    ⟨(KObject.plain_pushWaker w).requests x, (KObject.plain_pushWaker w).sessions x⟩⟩

section Calls

variable {k k' k1 : Kernel} {o : ObjId} {w : Waker} {objects : List ObjId}
  {received : ObjId → Bool}

/-- A thread suspends itself. If it sleeps in the end, what it waits for was served. -/
theorem heeded_of_suspended {timeout : Option UInt64} {waitType : ThreadWaitType} {v : View}
    (h : k.view.Heeded received) (hsuspend : k.suspendThread objects timeout waitType = .ret (w, k1))
    (hmoves : Moves View.Step (Move.Calm fun t => t = w.thread) k1.view v)
    (hserved : v.Asleep w.thread → ∀ o ∈ objects, ¬ k.view.Unserved received o) :
    v.Heeded received := by
  obtain ⟨_, _, _, hobjects⟩ := suspendThread_view hsuspend
  obtain ⟨self, _, _, _, hsleepers⟩ := Kernel.suspendThread_sleepers hsuspend
  have hsleepers : k1.view.sleepers = Function.update k.view.sleepers w.thread
      (some (self.suspended objects timeout waitType)) := hsleepers
  have hself : k1.view.sleepers w.thread = some (self.suspended objects timeout waitType) := by
    rw [hsleepers, Function.update_self]
  have hwakers : ∀ o, k1.view.wakers o = k.view.wakers o := by
    intro o
    unfold View.wakers View.object?
    rw [hobjects]
  -- the other threads sleep as before
  have h1 : k1.view.Heeds received fun t => t = w.thread := by
    rintro o w' ⟨hw', hwaits⟩ hu
    by_contra hne
    have hsame : k.view.sleepers w'.thread = k1.view.sleepers w'.thread := by
      rw [hsleepers, Function.update_of_ne hne]
    exact h o w' ⟨hwakers o ▸ hw', hwaits.frame hsame⟩ ((View.unserved_congr hobjects).mp hu)
  have h2 := View.heeds_of_moves hmoves h1
  intro o w' hs hu
  have ht : w'.thread = w.thread := h2 o w' hs hu
  obtain ⟨_, self', hself', _, hstate, ho⟩ := hs
  rw [ht] at hself'
  have hasleep : v.Asleep w.thread := ⟨self', hself', hstate⟩
  rcases View.sleepsOn_of_moves hmoves hself rfl with hsame | hnot
  · rw [hself'] at hsame
    injection hsame with hsame
    rw [hsame] at ho
    have hu1 := View.unserved_of_moves hmoves hu
    exact hserved hasleep o ho ((View.unserved_congr hobjects).mp hu1)
  · exact hnot hasleep

/-- A thread that waits on an object that is ready does not sleep in the end. -/
theorem not_asleep_of_ready {os : List ObjId} (hw : k.view.Attends w objects)
    (hall : ∀ o ∈ os, o ∈ objects) (hready : ∃ o ∈ os, k.objects.ready o = true)
    (h : Kernel.waitEach w os k = .ret k') : ¬ k'.view.Asleep w.thread := by
  induction os generalizing k with
  | nil =>
    obtain ⟨o, ho, _⟩ := hready
    cases ho
  | cons p os ih =>
    obtain ⟨x, k1, hx, hwait, h⟩ := waitEach_cons h
    have hv : k.view.object? p = some x := hx
    obtain ⟨self, hself, hkey, hstate, hobjects⟩ := hw
    rcases wait_cases hwait with ⟨hnot, hview⟩ | ⟨_, hlive, hview⟩ | ⟨_, hlive, _⟩
    · -- the thread waits on, for an object behind this one
      have hw1 : k1.view.Attends w objects := by
        rw [hview]
        exact ⟨self, hself, hkey, hstate, hobjects⟩
      have hsame : ∀ o, k1.objects.ready o = k.objects.ready o := by
        intro o
        have hmodify := View.ready_modify (f := KObject.pushWaker w) (p := o) hv
        rw [KObject.ready_pushWaker, ← View.ready_of_object? hv, ← hview] at hmodify
        have hmodify : k1.objects.ready o =
            if o = p then k.objects.ready p else k.objects.ready o := hmodify
        rw [hmodify]
        split
        · rename_i ho
          rw [ho]
        · rfl
      obtain ⟨o, ho, hreadyo⟩ := hready
      have hbehind : o ∈ os := by
        rcases List.mem_cons.mp ho with rfl | ho
        · rw [ready_of_object? hx, hnot] at hreadyo
          cases hreadyo
        · exact ho
      exact ih hw1 (fun q hq => hall q (List.mem_cons_of_mem p hq))
        ⟨o, hbehind, (hsame o).trans hreadyo⟩ h
    · -- this one wakes the thread
      obtain ⟨self', _, hkey', htry⟩ := View.tryWake_of_live (v := k.view.modify p x.takeFor) hlive
      rw [htry] at hview
      have hstale : ¬ k1.view.Live w := by
        rw [hview]
        exact View.not_live_wake hkey'
      have hwoken : ¬ k1.view.Asleep w.thread := by
        rw [hview]
        exact View.not_asleep (Function.update_self _ _ _) fun h => by cases h
      have hmoves := waitEach_woken (waitMoves_calm w os) hstale (Or.inr trivial) h
      exact hmoves.keeps (I := fun v => ¬ v.Asleep w.thread)
        (fun _ _ _ hv hm hs => hs.not_asleep hm.sleeps hv) hwoken
    · exact absurd ⟨self, hself, hkey⟩ hlive

/-- A wait on objects of which one is ready, or all are served. -/
theorem heeded_of_waitEach {timeout : Option UInt64} {waitType : ThreadWaitType}
    (h : k.view.Heeded received) (hsuspend : k.suspendThread objects timeout waitType = .ret (w, k1))
    (hserved : (∃ o ∈ objects, k.objects.ready o = true) ∨
      ∀ o ∈ objects, ¬ k.view.Unserved received o)
    (hwait : Kernel.waitEach w objects k1 = .ret k') : k'.view.Heeded received := by
  obtain ⟨_, _, hattends, hobjects⟩ := suspendThread_view hsuspend
  have hmoves := waitEach_moves (waitMoves_calm w objects) hattends (fun _ ho => ho)
    (Or.inr trivial) hwait
  refine heeded_of_suspended h hsuspend hmoves fun hasleep => ?_
  rcases hserved with hready | hserved
  · have hobjects : k1.objects = k.objects := hobjects
    have hnot := not_asleep_of_ready hattends (fun _ ho => ho) (hobjects ▸ hready) hwait
    exact absurd hasleep hnot
  · exact hserved

/-! ## Pushes -/

/-- The threads asleep at the object are those of its first waker. -/
def Kernel.OneSleeper (k : Kernel) (o : ObjId) : Prop :=
  ∀ w, k.view.SleepsIn w o → (k.wakers o).head?.map Waker.thread = some w.thread

/-- Something is queued at the object, and the thread that sleeps there is woken. -/
theorem heeded_of_wakeFront {x : KObject} {f : KObject → KObject} (h : k.view.Heeded received)
    (hx : k.object? o = some x) (hp : ∀ y, (f y).peer = y.peer)
    (hf : ∀ y : KObject, (f y).wakers = y.wakers) (hone : k.OneSleeper o)
    (hret : wakeFront o x.wakers (k.modifyObject o f) = .ret k') : k'.view.Heeded received := by
  have hhead : k.wakers o = x.wakers := wakers_of_object hx
  obtain ⟨ws, g, hstep, _⟩ := wakeFront_step hx hp hf hret
  intro q w' hs hu
  have hbefore : k.view.SleepsIn w' q :=
    (hstep.sleepsIn (E := fun _ => False) trivial hs).resolve_right fun h => h
  by_cases hq : q = o
  · subst hq
    have hfirst := hone w' hbefore
    rw [hhead] at hfirst
    obtain ⟨w, hw, ht⟩ := Option.map_eq_some_iff.mp hfirst
    obtain ⟨rest, hwakers⟩ := List.head?_eq_some_iff.mp hw
    rw [hwakers] at hret
    obtain ⟨hlive, hview⟩ := wakeExpect_eq_ret hret
    obtain ⟨self, _, _, htry⟩ := View.tryWake_of_live hlive
    rw [htry] at hview
    obtain ⟨_, self', hself', _, hstate, _⟩ := hs
    rw [← ht, hview] at hself'
    refine View.not_asleep (Function.update_self _ _ _) ?_ ⟨self', hself', hstate⟩
    exact fun h => by cases h
  · exact h q w' hbefore (hstep.unserved (fun p _ heq => hq heq.1.symm) hu)

end Calls

end Pomelo
