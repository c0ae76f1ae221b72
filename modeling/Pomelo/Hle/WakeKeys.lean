/-
  Wakers and the keys of their threads.

  A waker in a queue has the key that its thread had when it was suspended. It stays there when
  the thread is woken by another object, and no later wake may take it for a present one. Its
  key is then below the thread's, as long as no key has come around at 2^64: a waker with its
  thread's key belongs to the suspension that the thread is in, on an object that the thread
  waits on (`Kernel.Dated`). Hence objects wake threads that wait on them and no others, no wake
  finds a thread that it cannot wake up, and a thread that runs goes on running until it goes to
  sleep or exits itself (`wakes_waiting`, `calling_goesOn`). Waits that leave stale wakers in
  queues are among the steps here.
-/
import Pomelo.Hle.Primitives
import Pomelo.Hle.LiveWakers

namespace Pomelo

open Lib Outcome

namespace Kernel

/-- The key of the waker is one of its thread, and if it is the present one, the thread waits on
    the object. -/
def Dated (k : Kernel) (w : Waker) (o : ObjId) : Prop :=
  ∃ self, k.sleepers w.thread = some self ∧ w.key ≤ self.wakeKey ∧
    (w.key = self.wakeKey → self.state = .waiting ∧ o ∈ self.waitObjects ∧
      ∃ waitType, self.waitType = some waitType ∧ waitType ≠ .sleep)

/-- What holds of wakers and waiting threads between two steps. -/
structure Keyed (k : Kernel) : Prop where
  queued : ∀ o, ∀ w ∈ k.wakers o, k.Dated w o
  typed : ∀ t self, k.sleepers t = some self → self.state = .waiting → self.waitType.isSome

/-- No thread has the last key there is. -/
def KeysLeft (k : Kernel) : Prop := ∀ thread ∈ k.threads, thread.wakeKey ≠ 0xFFFFFFFFFFFFFFFF

instance (k : Kernel) : Decidable k.KeysLeft :=
  inferInstanceAs (Decidable (∀ thread ∈ k.threads, thread.wakeKey ≠ 0xFFFFFFFFFFFFFFFF))

theorem KeysLeft.sleeper {k : Kernel} (h : k.KeysLeft) {t : ThreadIndex} {self : Sleeper}
    (hself : k.sleepers t = some self) : self.wakeKey ≠ 0xFFFFFFFFFFFFFFFF := by
  obtain ⟨thread, hthread, rfl⟩ := Option.map_eq_some_iff.mp hself
  exact h thread (mem_of_findKey hthread)

end Kernel

/-- What holds inside a call that began with keys left: a thread has the last key only because
    it was woken in the call. -/
structure InCall.Sound (c : InCall) : Prop extends c.kernel.Keyed where
  held : ∀ x ∈ c.held, c.kernel.Dated x.1 x.2
  room : ∀ t self, c.kernel.sleepers t = some self → self.wakeKey = 0xFFFFFFFFFFFFFFFF →
    self.state = .ready

/-! ## What becomes of a sleeper -/

/-- A thread is woken while it waits, goes to sleep while it runs, or starts, stops or is done. -/
inductive Sleeper.Turn (self : Sleeper) : Sleeper → Prop where
  | woken (h : self.state = .waiting) : Turn self self.woken
  | suspended {objects : List ObjId} {timeout : Option UInt64} {waitType : ThreadWaitType}
      (h : self.state = .running) : Turn self (self.suspended objects timeout waitType)
  | inState {state : ThreadState} (h : self.state ≠ .waiting) (hs : state ≠ .waiting) :
      Turn self (self.inState state)

namespace Kernel

variable {k k' : Kernel} {w : Waker} {o : ObjId}

theorem Dated.frame (h : k.Dated w o) (hs : k'.sleepers w.thread = k.sleepers w.thread) :
    k'.Dated w o := by
  obtain ⟨self, hself, hrest⟩ := h
  exact ⟨self, hs.trans hself, hrest⟩

/-- A key that is not the last is below the next one. -/
theorem key_lt_succ {a b : UInt64} (h : a ≤ b) (hb : b ≠ 0xFFFFFFFFFFFFFFFF) : a < b + 1 := by
  grind

/-- Wakers stay dated when their thread turns, if a thread that is woken has a key left. -/
theorem Dated.turn {self self' : Sleeper} (h : k.Dated w o)
    (hself : k.sleepers w.thread = some self) (hself' : k'.sleepers w.thread = some self')
    (hturn : self.Turn self')
    (hroom : self.state = .waiting → self.wakeKey ≠ 0xFFFFFFFFFFFFFFFF) : k'.Dated w o := by
  obtain ⟨self0, hself0, hle, hcur⟩ := h
  rw [hself] at hself0
  injection hself0 with hself0
  subst hself0
  refine ⟨self', hself', ?_⟩
  cases hturn with
  | woken hwaiting =>
    have hlt : w.key < self.wakeKey + 1 := key_lt_succ hle (hroom hwaiting)
    exact ⟨UInt64.le_of_lt hlt, fun heq => absurd heq (UInt64.ne_of_lt hlt)⟩
  | suspended hrun =>
    refine ⟨hle, fun heq => ?_⟩
    rw [(hcur heq).1] at hrun
    cases hrun
  | inState hnot _ => exact ⟨hle, fun heq => absurd (hcur heq).1 hnot⟩

/-- Every thread stays as it is, or turns. -/
def Turns (k k' : Kernel) : Prop :=
  ∀ t, k'.sleepers t = k.sleepers t ∨ ∃ self self', k.sleepers t = some self ∧
    k'.sleepers t = some self' ∧ self.Turn self'

/-- A thread that waits has a key left. -/
def WaitersRoom (k : Kernel) : Prop :=
  ∀ t self, k.sleepers t = some self → self.state = .waiting →
    self.wakeKey ≠ 0xFFFFFFFFFFFFFFFF

theorem Dated.turns (h : k.Dated w o) (hturns : k.Turns k') (hroom : k.WaitersRoom) :
    k'.Dated w o := by
  rcases hturns w.thread with hsame | ⟨self, self', hself, hself', hturn⟩
  · exact h.frame hsame
  · exact h.turn hself hself' hturn (hroom _ self hself)

theorem Turns.of_eq (h : k'.sleepers = k.sleepers) : k.Turns k' := fun t => Or.inl (by rw [h])

/-- One thread turns. -/
theorem Turns.update {t : ThreadIndex} {self self' : Sleeper} (hself : k.sleepers t = some self)
    (h : k'.sleepers = Function.update k.sleepers t (some self')) (hturn : self.Turn self') :
    k.Turns k' := by
  intro t'
  rw [h]
  by_cases ht : t' = t
  · subst ht
    exact Or.inr ⟨self, self', hself, Function.update_self .., hturn⟩
  · exact Or.inl (Function.update_of_ne ht ..)

theorem Keyed.turns (hk : k.Keyed) (hturns : k.Turns k') (hroom : k.WaitersRoom)
    (hwakers : ∀ o, ∀ w ∈ k'.wakers o, w ∈ k.wakers o) : k'.Keyed where
  queued o w hw := (hk.queued o w (hwakers o w hw)).turns hturns hroom
  typed t self' hself' hwaiting := by
    rcases hturns t with hsame | ⟨self, self'', hself, hself'', hturn⟩
    · exact hk.typed t self' (hsame ▸ hself') hwaiting
    · rw [hself''] at hself'
      injection hself' with hself'
      subst hself'
      cases hturn with
      | woken _ => cases hwaiting
      | suspended _ => rfl
      | inState _ hs => exact absurd hwaiting hs

/-! ## What becomes of queues -/

theorem mem_wakers_of_view (hv : k'.view.objects = k.view.objects) (hw : w ∈ k'.wakers o) :
    w ∈ k.wakers o := by
  obtain ⟨x, hx, hw⟩ := mem_wakers.mp hw
  have hx : k'.view.objects.at? o = some x := hx
  rw [hv] at hx
  exact mem_wakers.mpr ⟨x, hx, hw⟩

theorem mem_wakers_of_wake {w' : Waker} {p : ObjId} {ok : Bool}
    (h : w'.wake p k = .ret (ok, k')) (hw : w ∈ k'.wakers o) : w ∈ k.wakers o := by
  have hview : k'.view = [w'].foldl View.tryWake k.view := (view_wake h).1
  have hw : w ∈ k'.view.wakers o := hw
  rw [hview] at hw
  exact View.mem_wakers_of_wakes hw

theorem mem_wakers_of_append {data : List (Option KObject)}
    (hdata : ∀ x, some x ∈ data → x.wakers = [])
    (hw : w ∈ { k with objects := k.objects ++ data }.wakers o) : w ∈ k.wakers o :=
  View.mem_wakers_of_append (v := k.view) hdata hw

/-- The object of a new thread has no wakers. -/
theorem mem_wakers_of_newThread {pid : ProcessId} {tid : ThreadIndex} {kobj : ObjId}
    (h : k.newThread pid = .ret (tid, kobj, k')) (hw : w ∈ k'.wakers o) : w ∈ k.wakers o := by
  obtain ⟨rfl, rfl, rfl⟩ := newThread_eq_ret h
  refine mem_wakers_of_append (fun x hx => ?_) hw
  injection List.mem_singleton.mp hx with hx
  rw [hx]
  rfl

theorem mem_wakers_of_drop {p : ObjId} (hw : w ∈ (k.dropObject p).wakers o) : w ∈ k.wakers o := by
  obtain ⟨y, hy, hw⟩ := mem_wakers.mp hw
  exact mem_wakers.mpr ⟨y, (View.object?_of_drop (v := k.view) hy).2, hw⟩

theorem runNext_objects {started : Option (ThreadIndex × ThreadResume)}
    (h : k.runNext = .ret (started, k')) : k'.view.objects = k.view.objects := by
  unfold runNext at h
  split at h
  · obtain ⟨⟨resume, k1⟩, hstart, h⟩ := bind_eq_ret.mp h
    obtain ⟨_, _, _, _, rfl⟩ := startThread_eq_ret hstart
    cases h
    rfl
  · cases h
    rfl

theorem stopThread_objects {index : ThreadIndex} (h : k.stopThread index = .ret k') :
    k'.view.objects = k.view.objects := by
  obtain ⟨_, _, _, _, _, rfl⟩ := stopThread_eq_ret h
  rfl

/-- Threads that time out leave the queues that they are in. -/
theorem object?_of_tickThreads {time : UInt64} {threads threads' : List CommonThread}
    {objects objects' : Objects} {y : KObject}
    (h : tickThreads time threads objects = .ret (threads', objects'))
    (hy : objects'.at? o = some y) : ∃ x, objects.at? o = some x ∧ Loses x y := by
  induction threads generalizing threads' objects with
  | nil =>
    cases h
    exact ⟨y, hy, .refl⟩
  | cons thread threads ih =>
    obtain ⟨⟨thread', objects1⟩, hone, h⟩ := bind_eq_ret.mp h
    obtain ⟨⟨threads1, objects2⟩, hrest, h⟩ := bind_eq_ret.mp h
    cases h
    obtain ⟨z, hz, hloses⟩ := ih hrest
    rcases tickAt_eq_ret hone with ⟨_, resume, _, _, rfl⟩ | ⟨_, _, rfl⟩
    · rw [Objects.at?_removeWakers] at hz
      split at hz
      · obtain ⟨x, hx, rfl⟩ := Option.map_eq_some_iff.mp hz
        exact ⟨x, hx, Loses.trans (.tail .refl) hloses⟩
      · exact ⟨z, hz, hloses⟩
    · exact ⟨z, hz, hloses⟩

theorem mem_wakers_of_timeouts {time : UInt64} (h : k.tickThreadsAt time = .ret k')
    (hw : w ∈ k'.wakers o) : w ∈ k.wakers o := by
  obtain ⟨⟨threads, objects⟩, htick, h⟩ := bind_eq_ret.mp h
  cases h
  obtain ⟨y, hy, hmem⟩ := mem_wakers.mp hw
  obtain ⟨x, hx, hloses⟩ := object?_of_tickThreads htick hy
  exact mem_wakers.mpr ⟨x, hx, hloses.wakers.subset hmem⟩

end Kernel

/-! ## Primitives -/

namespace InCall

open Kernel

variable {c c' : InCall} {may : Effects}

theorem Sound.waitersRoom (h : c.Sound) : c.kernel.WaitersRoom := by
  intro t self hself hwaiting hlast
  rw [h.room t self hself hlast] at hwaiting
  cases hwaiting

/-- A change that leaves all threads as they are. -/
theorem Sound.frame (h : c.Sound) (hs : c'.kernel.sleepers = c.kernel.sleepers)
    (hwakers : ∀ o, ∀ w ∈ c'.kernel.wakers o, w ∈ c.kernel.wakers o ∨ (w, o) ∈ c.held)
    (hheld : ∀ x ∈ c'.held, x ∈ c.held ∨ x.1 ∈ c.kernel.wakers x.2) : c'.Sound where
  queued o w hw := by
    have hframe := congrFun hs w.thread
    rcases hwakers o w hw with hw | hw
    · exact (h.queued o w hw).frame hframe
    · exact (h.held _ hw).frame hframe
  typed t self hself := h.typed t self (hs ▸ hself)
  held x hx := by
    have hframe := congrFun hs x.1.thread
    rcases hheld x hx with hx | hx
    · exact (h.held x hx).frame hframe
    · exact (h.queued x.2 x.1 hx).frame hframe
  room t self hself := h.room t self (hs ▸ hself)

/-- A change in which threads turn, none of them to the last key but by being woken. -/
theorem Sound.turns (h : c.Sound) (hturns : c.kernel.Turns c'.kernel)
    (hlast : ∀ t self', c'.kernel.sleepers t = some self' → self'.wakeKey = 0xFFFFFFFFFFFFFFFF →
      c.kernel.sleepers t ≠ some self' → self'.state = .ready)
    (hwakers : ∀ o, ∀ w ∈ c'.kernel.wakers o, w ∈ c.kernel.wakers o)
    (hheld : c'.held = c.held) : c'.Sound where
  toKeyed := h.toKeyed.turns hturns h.waitersRoom hwakers
  held x hx := (h.held x (hheld ▸ hx)).turns hturns h.waitersRoom
  room t self' hself' hkey := by
    by_cases hsame : c.kernel.sleepers t = some self'
    · exact h.room t self' hsame hkey
    · exact hlast t self' hself' hkey hsame

/-- The thread that changes is the one that was updated. -/
theorem eq_of_update {α : Type} {f : ThreadIndex → Option α} {t t' : ThreadIndex} {x y : α}
    (h : Function.update f t (some x) t' = some y) (hne : f t' ≠ some y) : y = x := by
  by_cases ht : t' = t
  · rw [ht, Function.update_self] at h
    injection h with h
    exact h.symm
  · rw [Function.update_of_ne ht] at h
    exact absurd h hne

/-- A thread that does not wait, and does not wait for anything thereafter. -/
theorem Sound.update {t : ThreadIndex} {self self' : Sleeper} (h : c.Sound)
    (hself : c.kernel.sleepers t = some self)
    (hupdate : c'.kernel.sleepers = Function.update c.kernel.sleepers t (some self'))
    (hturn : self.Turn self') (hkey : self'.wakeKey = 0xFFFFFFFFFFFFFFFF → self'.state = .ready)
    (hwakers : ∀ o, ∀ w ∈ c'.kernel.wakers o, w ∈ c.kernel.wakers o)
    (hheld : c'.held = c.held) : c'.Sound := by
  refine h.turns (.update hself hupdate hturn) (fun t' x hx hlast hne => ?_) hwakers hheld
  rw [hupdate] at hx
  rw [eq_of_update hx hne] at hlast ⊢
  exact hkey hlast

theorem Sound.awake_key {t : ThreadIndex} {self : Sleeper} (h : c.Sound)
    (hself : c.kernel.sleepers t = some self) (hs : self.state ≠ .ready) :
    self.wakeKey ≠ 0xFFFFFFFFFFFFFFFF :=
  fun hlast => hs (h.room t self hself hlast)

/-- A wake by an object wakes a thread that waits on it, or nobody. -/
theorem Sound.wake {k k' : Kernel} {held : List (Waker × ObjId)} {w : Waker} {o : ObjId}
    {ok : Bool} (h : InCall.Sound ⟨k, held⟩) (hw : (w, o) ∈ held)
    (hwake : w.wake o k = .ret (ok, k')) : InCall.Sound ⟨k', held⟩ := by
  obtain ⟨self0, hself0, _, hcur⟩ := h.held _ hw
  obtain ⟨_, self, hself, hcase⟩ := wake_sleepers hwake
  rcases hcase with ⟨_, hkey, hupdate⟩ | ⟨_, _, hsame⟩
  · rw [hself] at hself0
    injection hself0 with hself0
    subst hself0
    have hwaiting : self.state = .waiting := (hcur hkey.symm).1
    exact h.update hself hupdate (.woken hwaiting) (fun _ => rfl)
      (fun _ _ => mem_wakers_of_wake hwake) rfl
  · exact h.frame hsame (fun _ _ hw => Or.inl (mem_wakers_of_wake hwake hw)) fun x hx => Or.inl hx

/-- The waker of a thread that goes to sleep is dated. -/
theorem Sound.suspend {k k' : Kernel} {held : List (Waker × ObjId)} {objects : List ObjId}
    {timeout : Option UInt64} {waitType : ThreadWaitType} {w : Waker}
    (h : InCall.Sound ⟨k, held⟩) (hsleep : waitType = .sleep → objects = [])
    (hsuspend : k.suspendThread objects timeout waitType = .ret (w, k')) :
    InCall.Sound ⟨k', objects.map (w, ·) ++ held⟩ := by
  obtain ⟨self, hself, hrun, hkey, hupdate⟩ := suspendThread_sleepers hsuspend
  have hself : (InCall.mk k held).kernel.sleepers w.thread = some self := hself
  have hawake : self.wakeKey ≠ 0xFFFFFFFFFFFFFFFF :=
    h.awake_key hself (by rw [hrun]; exact fun hs => by cases hs)
  have hobjects : k'.view.objects = k.view.objects := (suspendThread_view hsuspend).2.2.2
  have hk' : InCall.Sound ⟨k', held⟩ :=
    h.update hself hupdate (.suspended hrun) (fun hlast => absurd hlast hawake)
      (fun _ _ => mem_wakers_of_view hobjects) rfl
  refine ⟨hk'.toKeyed, fun x hx => ?_, hk'.room⟩
  rcases List.mem_append.mp hx with hx | hx
  · obtain ⟨o, ho, rfl⟩ := List.mem_map.mp hx
    have hslept : k'.sleepers w.thread = some (self.suspended objects timeout waitType) := by
      rw [hupdate, Function.update_self]
    refine ⟨_, hslept, UInt64.le_of_eq hkey, fun _ => ⟨rfl, ho, waitType, rfl, fun ht => ?_⟩⟩
    rw [hsleep ht] at ho
    cases ho
  · exact hk'.held x hx

theorem Sound.timeouts {k k' : Kernel} {held : List (Waker × ObjId)} {time : UInt64}
    (h : InCall.Sound ⟨k, held⟩) (htick : k.tickThreadsAt time = .ret k') :
    InCall.Sound ⟨k', held⟩ := by
  have hsleepers := (tickThreadsAt_sleepers htick).2
  have hturns : k.Turns k' := by
    intro t
    rw [hsleepers t]
    cases hself : k.sleepers t with
    | none => exact Or.inl rfl
    | some self =>
      rw [Option.map_some]
      split
      · rename_i hexpired
        exact Or.inr ⟨self, _, rfl, rfl, .woken (Sleeper.waiting_of_expired hexpired)⟩
      · exact Or.inl rfl
  refine h.turns hturns (fun t x hx _ hne => ?_)
    (fun _ _ => mem_wakers_of_timeouts htick) rfl
  have hx : k'.sleepers t = some x := hx
  rw [hsleepers t] at hx
  obtain ⟨self, hself, rfl⟩ := Option.map_eq_some_iff.mp hx
  split at hne
  · rename_i hexpired
    rw [if_pos hexpired]
    rfl
  · exact absurd hself hne

theorem Sound.born {k k' : Kernel} {held : List (Waker × ObjId)} {pid : ProcessId}
    {tid : ThreadIndex} {kobj : ObjId} (h : InCall.Sound ⟨k, held⟩)
    (hfresh : k.nextTid ∉ k.indices) (hthread : k.newThread pid = .ret (tid, kobj, k')) :
    InCall.Sound ⟨k', held⟩ := by
  obtain ⟨_, _, _, hnone, hupdate⟩ := newThread_sleepers hthread hfresh
  have hkeep : ∀ t self, k.sleepers t = some self → k'.sleepers t = some self := by
    intro t self hself
    have hne : t ≠ tid := fun ht => by
      rw [ht, hnone] at hself
      cases hself
    rw [hupdate, Function.update_of_ne hne, hself]
  have hdated : ∀ {w : Waker} {o : ObjId}, k.Dated w o → k'.Dated w o := fun hw => by
    obtain ⟨self, hself, hrest⟩ := hw
    exact ⟨self, hkeep _ _ hself, hrest⟩
  have hwakers : ∀ o, ∀ w ∈ k'.wakers o, w ∈ k.wakers o := fun _ _ =>
    mem_wakers_of_newThread hthread
  have hold : ∀ t self, k'.sleepers t = some self →
      k.sleepers t = some self ∨ self = Sleeper.new := by
    intro t self hself
    by_cases ht : t = tid
    · rw [hupdate, ht, Function.update_self] at hself
      injection hself with hself
      exact Or.inr hself.symm
    · rw [hupdate, Function.update_of_ne ht] at hself
      exact Or.inl hself
  refine ⟨⟨fun o w hw => hdated (h.queued o w (hwakers o w hw)), fun t self hself hwaiting => ?_⟩,
    fun x hx => hdated (h.held x hx), fun t self hself hlast => ?_⟩
  · rcases hold t self hself with hself | rfl
    · exact h.typed t self hself hwaiting
    · cases hwaiting
  · rcases hold t self hself with hself | rfl
    · exact h.room t self hself hlast
    · rfl

/-- **Every primitive keeps wakers dated.** -/
theorem Sound.primitive (h : c.Sound) (ht : c.kernel.view.Tidy) (hp : Primitive may c c') :
    c'.Sound := by
  have hhas : ∀ x ∈ c.held, x ∈ c.held ∨ x.1 ∈ c.kernel.wakers x.2 := fun x hx => Or.inl hx
  cases hp with
  | @change k held o f hf =>
    refine h.frame rfl (fun p w hw => ?_) hhas
    obtain ⟨y, hy, hw⟩ := mem_wakers.mp hw
    rw [object?_modifyObject] at hy
    split at hy
    · rename_i hp
      subst hp
      obtain ⟨x, hx, rfl⟩ := Option.map_eq_some_iff.mp hy
      rcases hf x w hw with hw | hw
      · exact Or.inl (mem_wakers.mpr ⟨x, hx, hw⟩)
      · exact Or.inr hw
    · exact Or.inl (mem_wakers.mpr ⟨y, hy, hw⟩)
  | make hdata => exact h.frame rfl (fun _ _ hw => Or.inl (mem_wakers_of_append hdata hw)) hhas
  | @pick k held o =>
    refine h.frame rfl (fun _ _ hw => Or.inl hw) fun x hx => ?_
    rcases List.mem_append.mp hx with hx | hx
    · obtain ⟨w, hw, rfl⟩ := List.mem_map.mp hx
      exact Or.inr hw
    · exact Or.inl hx
  | forget hsub => exact h.frame rfl (fun _ _ hw => Or.inl hw) fun x hx => Or.inl (hsub hx)
  | wake hw hwake => exact h.wake hw hwake
  | suspend hs hsleep hsuspend => exact h.suspend hsleep hsuspend
  | handles process => exact h.frame rfl (fun _ _ hw => Or.inl hw) hhas
  | message _ data hthread =>
    have hview := view_setIpcData data hthread
    exact h.frame (congrArg View.sleepers hview)
      (fun _ _ hw => Or.inl (mem_wakers_of_view (congrArg View.objects hview) hw)) hhas
  | publish ports interrupts => exact h.frame rfl (fun _ _ hw => Or.inl hw) hhas
  | @finish k k' held kobj hs hcalling hfinish =>
    obtain ⟨_, pid, tid, self, hcurrent, hself, hupdate⟩ := finishThread_sleepers hfinish
    have hrun : self.state = .running := by
      obtain ⟨thread, hthread, rfl⟩ := Option.map_eq_some_iff.mp hself
      unfold calling at hcalling
      rw [hcurrent] at hcalling
      dsimp only at hcalling
      rw [hthread, Option.any_some] at hcalling
      exact of_decide_eq_true hcalling
    have hawake : self.wakeKey ≠ 0xFFFFFFFFFFFFFFFF :=
      h.awake_key hself (by rw [hrun]; exact fun hs => by cases hs)
    refine h.update hself hupdate (.inState ?_ ?_)
      (fun hlast => absurd hlast hawake) (fun _ _ hw => ?_) rfl
    · rw [hrun]
      exact fun hs => by cases hs
    · exact fun hs => by cases hs
    · obtain ⟨_, _, thread, _, _, _, rfl⟩ := finishThread_eq_ret hfinish
      exact hw
  | timeouts htick => exact h.timeouts htick
  | born hpid hthread =>
    have hfresh : ∀ {k : Kernel}, k.view.Tidy → k.nextTid ∉ k.indices :=
      fun ht hmem => Nat.lt_irrefl _ (ht.below _ hmem)
    exact h.born (hfresh ht) hthread
  | schedule hthread hready => exact h.frame rfl (fun _ _ hw => Or.inl hw) hhas

theorem tidy_frame {k k' : Kernel} (ht : k.view.Tidy) (hindices : k'.indices = k.indices)
    (hnext : k'.nextTid = k.nextTid) : k'.view.Tidy where
  nodup := by
    have hn : k'.indices.Nodup := hindices ▸ ht.nodup
    exact hn
  below t hmem := by
    have hmem : t ∈ k'.indices := hmem
    rw [hindices] at hmem
    have hlt : t < k'.nextTid := hnext ▸ ht.below t hmem
    exact hlt

/-- Threads keep their indices, and a new one gets the next. -/
theorem tidy_primitive (ht : c.kernel.view.Tidy) (hp : Primitive may c c') :
    c'.kernel.view.Tidy := by
  cases hp with
  | wake hw hwake =>
    obtain ⟨thread, _, hcase⟩ := wake_eq_ret hwake
    refine tidy_frame ht (wake_sleepers hwake).1 ?_
    rcases hcase with ⟨_, _, resume, _, rfl⟩ | ⟨_, _, rfl⟩ <;> rfl
  | suspend hs hsleep hsuspend =>
    obtain ⟨_, _, thread, _, _, _, _, rfl⟩ := suspendThread_eq_ret hsuspend
    exact tidy_frame ht (indices_setThread _ _) rfl
  | message _ data hthread => exact tidy_frame ht (indices_setThread _ _) rfl
  | finish hs hcalling hfinish =>
    obtain ⟨_, _, thread, _, _, _, rfl⟩ := finishThread_eq_ret hfinish
    exact tidy_frame ht (indices_setThread _ _) rfl
  | timeouts htick =>
    refine tidy_frame ht (tickThreadsAt_sleepers htick).1 ?_
    obtain ⟨_, _, htick⟩ := bind_eq_ret.mp htick
    cases htick
    rfl
  | born hpid hthread =>
    obtain ⟨rfl, rfl, rfl⟩ := newThread_eq_ret hthread
    have hborn := (View.Step.born).tidy ht
    exact ⟨by simpa [view, indices] using hborn.nodup, by simpa [view, indices] using hborn.below⟩
  | _ => exact tidy_frame ht rfl rfl

theorem sound_made {k k' : Kernel} {held : List (Waker × ObjId)}
    (h : InCall.Sound ⟨k, held⟩) (ht : k.view.Tidy) (hmade : Made may held k k') :
    InCall.Sound ⟨k', held⟩ ∧ k'.view.Tidy := by
  have hboth : ∀ c c', Relation.ReflTransGen (Primitive may) c c' →
      c.Sound ∧ c.kernel.view.Tidy → c'.Sound ∧ c'.kernel.view.Tidy := by
    intro c c' hsteps hc
    induction hsteps with
    | refl => exact hc
    | tail _ hp ih => exact ⟨ih.1.primitive ih.2 hp, tidy_primitive ih.2 hp⟩
  exact hboth _ _ hmade ⟨h, ht⟩

/-- Between two steps no waker is at hand. -/
theorem sound_of_keyed {k : Kernel} (h : k.Keyed) (hleft : k.KeysLeft) :
    InCall.Sound ⟨k, []⟩ where
  toKeyed := h
  held x hx := by cases hx
  room _ _ hself hlast := absurd hlast (hleft.sleeper hself)

end InCall

/-! ## Runs -/

namespace Kernel

variable {rng : Nat → UInt32} {k k' : Kernel} {l : SvcStep}

theorem keyed_new : Kernel.new.Keyed where
  queued o w hw := by
    obtain ⟨x, hx, _⟩ := mem_wakers.mp hw
    have hx : Objects.at? [] o = some x := hx
    simp [Objects.at?] at hx
  typed t self hself := by cases hself

theorem keyed_runNext {started : Option (ThreadIndex × ThreadResume)} (h : k.Keyed)
    (hroom : k.WaitersRoom) (hrun : k.runNext = .ret (started, k')) : k'.Keyed := by
  refine h.turns ?_ hroom fun _ _ => mem_wakers_of_view (runNext_objects hrun)
  rcases (runNext_sleepers hrun).2 with hsame | ⟨index, self, hself, hready, hupdate⟩
  · exact .of_eq hsame
  · refine .update hself hupdate (.inState ?_ ?_)
    · rw [hready]
      exact fun hs => by cases hs
    · exact fun hs => by cases hs

theorem keyed_stopThread {index : ThreadIndex} (h : k.Keyed) (hroom : k.WaitersRoom)
    (hstop : k.stopThread index = .ret k') : k'.Keyed := by
  refine h.turns ?_ hroom fun _ _ => mem_wakers_of_view (stopThread_objects hstop)
  obtain ⟨_, pid, tid, self, _, hself, hupdate⟩ := stopThread_sleepers hstop
  split at hupdate
  · rename_i hrun
    refine .update hself hupdate (.inState ?_ ?_)
    · rw [hrun]
      exact fun hs => by cases hs
    · exact fun hs => by cases hs
  · -- a thread that does not run stays as it is
    refine .of_eq ?_
    rw [hupdate, ← hself, Function.update_eq_self]

theorem keyed_dropObject {o : ObjId} (h : k.Keyed) : (k.dropObject o).Keyed where
  queued p w hw := h.queued p w (mem_wakers_of_drop hw)
  typed := h.typed

theorem keyed_of_step (h : k.Keyed) (ht : k.view.Tidy) (hleft : k.KeysLeft)
    (hstep : (svcSystem rng).step k l k') : k'.Keyed := by
  obtain ⟨henabled, fuel, hexec⟩ := hstep
  have hsound := InCall.sound_of_keyed h hleft
  have hmade : ∀ {k' : Kernel}, Made .any [] k k' → k'.Keyed := fun hmade =>
    (InCall.sound_made hsound ht hmade).1.toKeyed
  cases l with
  | call call => exact hmade (svcCall_made (fun _ => trivial) (fun _ => trivial) ht henabled hexec)
  | tick time interrupts => exact hmade (tick_made hexec)
  | runNext =>
    obtain ⟨r, hexec⟩ := liftCall_eq_ret.mp hexec
    exact keyed_runNext h hsound.waitersRoom hexec
  | stop index => exact keyed_stopThread h hsound.waitersRoom (mapPanic_eq_ret.mp hexec)
  | newProcess process =>
    obtain ⟨r, hexec⟩ := liftCall_eq_ret.mp hexec
    obtain ⟨nextPid, _, hexec⟩ := bind_eq_ret.mp hexec
    cases hexec
    exact ⟨h.queued, h.typed⟩
  | newThread pid =>
    obtain ⟨⟨tid, kobj, k1⟩, hnew, hexec⟩ := bind_eq_ret.mp hexec
    cases hexec
    have hfresh : k.nextTid ∉ k.indices := fun hmem => Nat.lt_irrefl _ (ht.below _ hmem)
    exact (hsound.born hfresh (mapPanic_eq_ret.mp hnew)).toKeyed
  | drop o =>
    cases hexec
    exact keyed_dropObject h

theorem keyed_of_run {tr : List (Kernel × SvcStep)} (h : Run (svcSystem rng) tr k)
    (hleft : EveryStep (fun k _ => k.KeysLeft) tr) : k.Keyed ∧ k.view.Tidy := by
  refine h.invariant_of (I := fun k => k.Keyed ∧ k.view.Tidy) ?_ ?_ hleft
  · intro k hk
    rw [hk]
    exact ⟨keyed_new, View.tidy_new⟩
  · intro k l k' hk hleft hstep
    exact ⟨keyed_of_step hk.1 hk.2 hleft hstep, tidy_of_step hk.2 hstep⟩

/-! ## What a wake does -/

/-- A thread that waits on the object is woken up by it. -/
theorem resumeFor_object {self : CommonThread} {object : ObjId} {waitType : ThreadWaitType}
    (ht : self.waitType = some waitType) (hs : waitType ≠ .sleep) (ho : object ∈ self.waitObjects) :
    ∃ resume, self.resumeFor (.object object) = .ret resume := by
  have hindex : (self.waitObjects.findIdx? fun other => other = object).isSome := by
    rw [List.findIdx?_isSome, List.any_eq_true]
    exact ⟨object, ho, by simp⟩
  obtain ⟨index, hindex⟩ := Option.isSome_iff_exists.mp hindex
  unfold CommonThread.resumeFor
  rw [ht, expect_some, ret_bind]
  cases waitType with
  | waitSync1 => exact ⟨_, rfl⟩
  | arbiter => exact ⟨_, rfl⟩
  | sleep => exact absurd rfl hs
  | waitSyncN =>
    dsimp only
    rw [hindex]
    exact ⟨_, rfl⟩

/-- A thread that waits is woken up when its time has come. -/
theorem resumeFor_timeout {self : CommonThread} (ht : self.waitType.isSome) :
    ∃ resume, self.resumeFor .timeout = .ret resume := by
  obtain ⟨waitType, ht⟩ := Option.isSome_iff_exists.mp ht
  unfold CommonThread.resumeFor
  rw [ht]
  cases waitType <;> exact ⟨_, rfl⟩

/-- The wake of a dated waker returns, and wakes its thread only where it waits. -/
theorem Dated.wake {w : Waker} {o : ObjId} (h : k.Dated w o) :
    ∃ ok k', w.wake o k = .ret (ok, k') ∧ (ok = true → ∃ thread,
      k.thread? w.thread = some thread ∧ thread.state = .waiting ∧ o ∈ thread.waitObjects) := by
  obtain ⟨self, hself, _, hcur⟩ := h
  obtain ⟨thread, hthread, rfl⟩ := Option.map_eq_some_iff.mp hself
  unfold Waker.wake wakeUpThread
  rw [findThread_eq_ret.mpr hthread, ret_bind]
  by_cases hkey : thread.wakeKey = w.key
  · obtain ⟨hwaiting, ho, waitType, htype, hne⟩ := hcur hkey.symm
    obtain ⟨resume, hresume⟩ := resumeFor_object htype hne ho
    rw [if_pos hkey]
    unfold CommonThread.wakeUp
    rw [hresume]
    exact ⟨true, _, rfl, fun _ => ⟨thread, hthread, hwaiting, ho⟩⟩
  · rw [if_neg hkey]
    exact ⟨false, k, rfl, fun hok => by cases hok⟩

theorem tickThreads_returns {time : UInt64} {threads : List CommonThread} (objects : Objects)
    (h : ∀ thread ∈ threads, thread.state = .waiting → thread.waitType.isSome) :
    ∃ threads' objects', tickThreads time threads objects = .ret (threads', objects') := by
  induction threads generalizing objects with
  | nil => exact ⟨[], objects, rfl⟩
  | cons thread threads ih =>
    have hone : ∃ thread' objects', thread.tickAt time objects = .ret (thread', objects') := by
      unfold CommonThread.tickAt
      split
      · rename_i timeout hstate _
        split
        · obtain ⟨resume, hresume⟩ := resumeFor_timeout (h thread List.mem_cons_self hstate)
          unfold CommonThread.wakeUp
          rw [hresume]
          exact ⟨_, _, rfl⟩
        · exact ⟨_, _, rfl⟩
      · exact ⟨_, _, rfl⟩
    obtain ⟨thread', objects1, hone⟩ := hone
    obtain ⟨threads', objects2, hrest⟩ :=
      ih objects1 fun other hother => h other (List.mem_cons_of_mem thread hother)
    refine ⟨thread' :: threads', objects2, ?_⟩
    unfold tickThreads
    rw [hone, ret_bind]
    dsimp only
    rw [hrest]
    rfl

/-- No timeout finds a thread that it cannot wake up. -/
theorem Keyed.tickThreadsAt (h : k.Keyed) (hn : k.indices.Nodup) (time : UInt64) :
    ∃ k', k.tickThreadsAt time = .ret k' := by
  have htyped : ∀ thread ∈ k.threads, thread.state = .waiting → thread.waitType.isSome := by
    intro thread hmem hwaiting
    have hthread : k.thread? thread.index = some thread := findKey_of_mem hn hmem
    have hself : k.sleepers thread.index = some thread.sleeper := by
      unfold sleepers
      rw [hthread]
      rfl
    exact h.typed _ _ hself hwaiting
  obtain ⟨threads, objects, htick⟩ := tickThreads_returns k.objects htyped
  exact ⟨{ k with threads := threads, objects := objects }, by
    unfold Kernel.tickThreadsAt
    rw [htick]
    rfl⟩

end Kernel

/-! ## The thread that runs -/

/-- The current thread runs, and its sleeper is `self`. -/
def Kernel.Runs (k : Kernel) (pid : ProcessId) (t : ThreadIndex) (self : Sleeper) : Prop :=
  k.current = some (pid, t) ∧ k.sleepers t = some self ∧ self.state = .running

theorem Kernel.calling_iff {k : Kernel} :
    k.calling = true ↔ ∃ pid t self, k.Runs pid t self := by
  unfold Kernel.calling Kernel.Runs
  cases hcurrent : k.current with
  | none => simp
  | some current =>
    obtain ⟨pid, t⟩ := current
    cases hthread : k.thread? t with
    | none =>
      have hnone : k.sleepers t = none := by
        unfold Kernel.sleepers
        rw [hthread]
        rfl
      simp [hthread, hnone]
    | some thread =>
      have hself : k.sleepers t = some thread.sleeper := by
        unfold Kernel.sleepers
        rw [hthread]
        rfl
      simp [hthread, hself, CommonThread.sleeper]

/-- What a primitive makes of a sleeper: it is woken out of a wait, or goes to sleep or exits
    while it runs. -/
inductive Sleeper.Becomes (sleeps : Prop) (self : Sleeper) : Sleeper → Prop where
  | same : Becomes sleeps self self
  | woken (h : self.state = .waiting) : Becomes sleeps self self.woken
  | suspended {objects : List ObjId} {timeout : Option UInt64} {waitType : ThreadWaitType}
      (hs : sleeps) (h : self.state = .running) :
      Becomes sleeps self (self.suspended objects timeout waitType)
  | done (hs : sleeps) (h : self.state = .running) : Becomes sleeps self (self.inState .done)

/-- One thread becomes something else. -/
theorem Sleeper.becomes_update {sleeps : Prop} {f : ThreadIndex → Option Sleeper}
    {t t' : ThreadIndex} {self x x' : Sleeper} (hx : f t' = some x)
    (hbecomes : x.Becomes sleeps x') (hself : f t = some self) :
    ∃ self', Function.update f t' (some x') t = some self' ∧ self.Becomes sleeps self' := by
  by_cases ht : t = t'
  · subst ht
    rw [hself] at hx
    injection hx with hx
    subst hx
    exact ⟨x', Function.update_self .., hbecomes⟩
  · exact ⟨self, (Function.update_of_ne ht ..).trans hself, .same⟩

namespace Kernel

variable {k k' : Kernel} {may : Effects}

theorem current_primitive {c c' : InCall} (hp : Primitive may c c') :
    c'.kernel.current = c.kernel.current := by
  cases hp with
  | wake _ hwake => exact wake_current hwake
  | suspend _ _ hsuspend =>
    obtain ⟨_, _, _, _, _, _, _, rfl⟩ := suspendThread_eq_ret hsuspend
    rfl
  | finish _ _ hfinish =>
    obtain ⟨_, _, _, _, _, _, rfl⟩ := finishThread_eq_ret hfinish
    rfl
  | timeouts htick =>
    obtain ⟨_, _, htick⟩ := bind_eq_ret.mp htick
    cases htick
    rfl
  | born _ hthread =>
    obtain ⟨rfl, rfl, rfl⟩ := newThread_eq_ret hthread
    rfl
  | _ => rfl

/-- The current thread stays the current one in a call. -/
theorem current_made {held : List (Waker × ObjId)} (hmade : Made may held k k') :
    k'.current = k.current := by
  have hall : ∀ c c' : InCall, Relation.ReflTransGen (Primitive may) c c' →
      c'.kernel.current = c.kernel.current := by
    intro c c' hsteps
    induction hsteps with
    | refl => rfl
    | tail _ hp ih => exact (current_primitive hp).trans ih
  exact hall _ _ hmade

/-- A call leaves its thread the current one. -/
theorem current_of_call {rng : Nat → UInt32} {call : SvcCall} (ht : k.view.Tidy)
    (hstep : (svcSystem rng).step k (.call call) k') : k'.current = k.current := by
  obtain ⟨hcalling, fuel, hexec⟩ := hstep
  have hmade : Made .any [] k k' :=
    svcCall_made (fun _ => trivial) (fun _ => trivial) ht hcalling hexec
  exact current_made hmade

end Kernel

namespace InCall

open Kernel

variable {c c' : InCall} {pid : ProcessId} {t : ThreadIndex} {self : Sleeper} {may : Effects}

/-- **What a primitive does to a thread.** A wake by an object wakes a thread that waits, and
    only the thread that runs goes to sleep or exits. -/
theorem Sound.becomes (h : c.Sound) (ht : c.kernel.view.Tidy) (hp : Primitive may c c')
    (hself : c.kernel.sleepers t = some self) :
    ∃ self', c'.kernel.sleepers t = some self' ∧ self.Becomes may.sleeps self' := by
  cases hp with
  | @wake k k' held w o ok hw hwake =>
    obtain ⟨self0, hself0, _, hcur⟩ := h.held _ hw
    obtain ⟨_, x, hx, hcase⟩ := wake_sleepers hwake
    have hself0 : k.sleepers w.thread = some self0 := hself0
    rw [hx] at hself0
    injection hself0 with hself0
    subst hself0
    rcases hcase with ⟨_, hkey, hupdate⟩ | ⟨_, _, hsame⟩
    · show ∃ self', k'.sleepers t = some self' ∧ _
      rw [hupdate]
      exact Sleeper.becomes_update hx (.woken (hcur hkey.symm).1) hself
    · exact ⟨self, (congrFun hsame t).trans hself, .same⟩
  | @suspend k k' held objects timeout waitType w hs hsleep hsuspend =>
    obtain ⟨x, hx, hrun, _, hupdate⟩ := suspendThread_sleepers hsuspend
    show ∃ self', k'.sleepers t = some self' ∧ _
    rw [hupdate]
    exact Sleeper.becomes_update hx (.suspended hs hrun) hself
  | @finish k k' held kobj hs hcalling hfinish =>
    obtain ⟨_, pid, tid, x, hcurrent, hx, hupdate⟩ := finishThread_sleepers hfinish
    obtain ⟨pid', t', x', hcurrent', hx', hrun⟩ := calling_iff.mp hcalling
    rw [hcurrent] at hcurrent'
    cases hcurrent'
    rw [hx] at hx'
    cases hx'
    show ∃ self', k'.sleepers t = some self' ∧ _
    rw [hupdate]
    exact Sleeper.becomes_update hx (.done hs hrun) hself
  | message _ data hthread =>
    have hsleepers := congrArg View.sleepers (view_setIpcData data hthread)
    exact ⟨self, (congrFun hsleepers t).trans hself, .same⟩
  | @timeouts k k' held time htick =>
    have hself : k.sleepers t = some self := hself
    show ∃ self', k'.sleepers t = some self' ∧ _
    rw [(tickThreadsAt_sleepers htick).2 t, hself, Option.map_some]
    split
    · rename_i hexpired
      exact ⟨_, rfl, .woken (Sleeper.waiting_of_expired hexpired)⟩
    · exact ⟨self, rfl, .same⟩
  | @born k k' held pid' tid kobj hpid hthread =>
    have hfresh : k.nextTid ∉ k.indices := fun hmem => Nat.lt_irrefl _ (ht.below _ hmem)
    obtain ⟨_, _, _, hnone, hupdate⟩ := newThread_sleepers hthread hfresh
    have hself : k.sleepers t = some self := hself
    have hne : t ≠ tid := fun heq => by
      rw [heq, hnone] at hself
      cases hself
    refine ⟨self, ?_, .same⟩
    show k'.sleepers t = some self
    rw [hupdate, Function.update_of_ne hne, hself]
  | _ => exact ⟨self, hself, .same⟩

/-- What every primitive keeps of a sleeper, a call keeps. -/
theorem sleeper_made {k k' : Kernel} {held : List (Waker × ObjId)} {Q : Sleeper → Prop}
    (hQ : ∀ x x', Q x → x.Becomes may.sleeps x' → Q x') (h : InCall.Sound ⟨k, held⟩)
    (ht : k.view.Tidy) (hself : k.sleepers t = some self) (hq : Q self)
    (hmade : Made may held k k') : ∃ self', k'.sleepers t = some self' ∧ Q self' := by
  have hall : ∀ c c', Relation.ReflTransGen (Primitive may) c c' →
      c.Sound ∧ c.kernel.view.Tidy ∧ (∃ x, c.kernel.sleepers t = some x ∧ Q x) →
      c'.Sound ∧ c'.kernel.view.Tidy ∧ ∃ x, c'.kernel.sleepers t = some x ∧ Q x := by
    intro c c' hsteps hc
    induction hsteps with
    | refl => exact hc
    | tail _ hp ih =>
      obtain ⟨hs, ht, x, hx, hq⟩ := ih
      obtain ⟨x', hx', hbecomes⟩ := hs.becomes ht hp hx
      exact ⟨hs.primitive ht hp, tidy_primitive ht hp, x', hx', hQ x x' hq hbecomes⟩
  exact (hall _ _ hmade ⟨h, ht, self, hself, hq⟩).2.2

/-- The thread that runs is woken by nobody, and stops only if it does so itself. -/
theorem runs_made {k k' : Kernel} {held : List (Waker × ObjId)} (h : InCall.Sound ⟨k, held⟩)
    (ht : k.view.Tidy) (hruns : k.Runs pid t self) (hmade : Made .awake held k k') :
    k'.Runs pid t self := by
  obtain ⟨hcurrent, hself, hrun⟩ := hruns
  obtain ⟨self', hself', rfl⟩ := sleeper_made (Q := fun x => x = self) (fun x x' hx hbecomes => by
    subst hx
    cases hbecomes with
    | same => rfl
    | woken hwaiting =>
      rw [hrun] at hwaiting
      cases hwaiting
    | suspended hs _ => exact hs.elim
    | done hs _ => exact hs.elim) h ht hself rfl hmade
  exact ⟨(current_made hmade).trans hcurrent, hself', hrun⟩

end InCall

/-- A call that neither puts its thread to sleep nor ends it. -/
def SvcCall.goesOn (call : SvcCall) : Bool := !call.suspends && decide (call ≠ .exitThread)

/-! ## The thread that makes a call -/

namespace Kernel

variable {k k' : Kernel} {pid : ProcessId} {t : ThreadIndex} {self : Sleeper}

/-- A thread that goes to sleep in a call sleeps after it, unless it was woken in it. -/
theorem slept_of_goesToSleep {wait : Wait} (h : GoesToSleep .awake [] wait k k')
    (hsound : InCall.Sound ⟨k, []⟩) (ht : k.view.Tidy) (hruns : k.Runs pid t self) :
    k'.current = some (pid, t) ∧ ∃ objects timeout slept,
      slept = self.suspended objects timeout wait.waitType ∧
      (k'.sleepers t = some slept ∨ k'.sleepers t = some slept.woken) := by
  obtain @⟨k1, k2, objects, timeout, w, before, hsleep, _, _, hsuspend, after⟩ := h
  obtain ⟨hsound1, ht1⟩ := InCall.sound_made hsound ht before
  obtain ⟨hcurrent1, hself1, _⟩ := InCall.runs_made hsound ht hruns before
  have hstep : Primitive .any ⟨k1, []⟩ ⟨k2, objects.map (w, ·) ++ []⟩ :=
    .suspend trivial hsleep hsuspend
  have hsound2 := hsound1.primitive ht1 hstep
  have ht2 := InCall.tidy_primitive ht1 hstep
  obtain ⟨pid', tid, thread, hcurrent', _, _, hw, hk2⟩ := suspendThread_eq_ret hsuspend
  rw [hcurrent1] at hcurrent'
  cases hcurrent'
  have hcurrent2 : k2.current = some (pid, t) := by
    rw [hk2]
    exact hcurrent1
  obtain ⟨x, hx, _, _, hupdate⟩ := suspendThread_sleepers hsuspend
  have hthread : w.thread = t := by
    rw [hw]
  rw [hthread] at hx hupdate
  rw [hself1] at hx
  cases hx
  have hself2 : k2.sleepers t = some (self.suspended objects timeout wait.waitType) := by
    rw [hupdate, Function.update_self]
  obtain ⟨self', hself', hcase⟩ := InCall.sleeper_made
    (Q := fun x => x = self.suspended objects timeout wait.waitType ∨
      x = (self.suspended objects timeout wait.waitType).woken)
    (fun x x' hx hbecomes => by
      cases hbecomes with
      | same => exact hx
      | woken hwaiting =>
        rcases hx with rfl | rfl
        · exact Or.inr rfl
        · cases hwaiting
      | suspended hs _ => exact hs.elim
      | done hs _ => exact hs.elim) hsound2 ht2 hself2 (Or.inl rfl) after
  refine ⟨(current_made after).trans hcurrent2, objects, timeout, _, rfl, ?_⟩
  rcases hcase with rfl | rfl
  · exact Or.inl hself'
  · exact Or.inr hself'

/-- A thread that exits is done. -/
theorem done_of_exitThread (h : k.exitThread = .ret k') (hsound : InCall.Sound ⟨k, []⟩)
    (ht : k.view.Tidy) (hruns : k.Runs pid t self) :
    k'.current = some (pid, t) ∧ k'.sleepers t = some (self.inState .done) := by
  have hcalling : k.calling = true := calling_iff.mpr ⟨pid, t, self, hruns⟩
  obtain ⟨hcurrent, hself, hrun⟩ := hruns
  obtain ⟨⟨kobj, k1⟩, hfinish, h⟩ := bind_eq_ret.mp h
  have hstep : Primitive .any ⟨k, []⟩ ⟨k1, []⟩ := .finish trivial hcalling hfinish
  have hsound1 := hsound.primitive ht hstep
  have ht1 := InCall.tidy_primitive ht hstep
  have hcurrent1 : k1.current = some (pid, t) := (current_primitive hstep).trans hcurrent
  obtain ⟨_, pid', t', x, hcurrent', hx, hupdate⟩ := finishThread_sleepers hfinish
  rw [hcurrent] at hcurrent'
  cases hcurrent'
  rw [hself] at hx
  cases hx
  have hself1 : k1.sleepers t = some (self.inState .done) := by
    rw [hupdate, Function.update_self]
  dsimp only at h
  split at h
  · rename_i thread hx
    have hmade : Made .awake [] k1 k' := .of_exit hx h
    obtain ⟨self', hself', rfl⟩ := InCall.sleeper_made (Q := fun x => x = self.inState .done)
      (fun x x' hx hbecomes => by
        subst hx
        cases hbecomes with
        | same => rfl
        | woken hwaiting => cases hwaiting
        | suspended hs _ => exact hs.elim
        | done hs _ => exact hs.elim) hsound1 ht1 hself1 rfl hmade
    exact ⟨(current_made hmade).trans hcurrent1, hself'⟩
  · cases h

end Kernel

/-- What a call leaves of the thread that makes it: a thread that runs on as it was, one that
    went to sleep in the call, which may have been woken since, or one that has exited. -/
inductive SvcCall.Leaves (call : SvcCall) (self : Sleeper) : Sleeper → Prop where
  | running (h : call ≠ .exitThread) : Leaves call self self
  | asleep {objects : List ObjId} {timeout : Option UInt64} {waitType : ThreadWaitType}
      (h : call.suspends = true) : Leaves call self (self.suspended objects timeout waitType)
  | woken {objects : List ObjId} {timeout : Option UInt64} {waitType : ThreadWaitType}
      (h : call.suspends = true) : Leaves call self (self.suspended objects timeout waitType).woken
  | done (h : call = .exitThread) : Leaves call self (self.inState .done)

/-- **What a call makes of the thread that makes it.** -/
theorem leaves_of_call {rng : Nat → UInt32} {fuel : Nat} {k k' : Kernel} {call : SvcCall}
    {pid : ProcessId} {t : ThreadIndex} {self : Sleeper} (h : k.Keyed) (ht : k.view.Tidy)
    (hleft : k.KeysLeft) (hruns : k.Runs pid t self) (hexec : call.exec rng fuel k = .ret k') :
    k'.current = some (pid, t) ∧ ∃ self', k'.sleepers t = some self' ∧ call.Leaves self self' := by
  have hcalling : k.calling = true := Kernel.calling_iff.mpr ⟨pid, t, self, hruns⟩
  have hsound := InCall.sound_of_keyed h hleft
  by_cases hexit : call = .exitThread
  · subst hexit
    obtain ⟨hcurrent, hdone⟩ :=
      Kernel.done_of_exitThread (mapPanic_eq_ret.mp hexec) hsound ht hruns
    exact ⟨hcurrent, _, hdone, .done rfl⟩
  · have hmessages : call.messages = true → Effects.awake.messages := fun _ => trivial
    rcases svcCall_sleeps hexit hmessages ht hcalling hexec with
      hmade | ⟨hsuspends, wait, hsleeps⟩
    · obtain ⟨hcurrent, hself, _⟩ := InCall.runs_made hsound ht hruns hmade
      exact ⟨hcurrent, self, hself, .running hexit⟩
    · obtain ⟨hcurrent, objects, timeout, slept, rfl, hself | hself⟩ :=
        Kernel.slept_of_goesToSleep hsleeps hsound ht hruns
      · exact ⟨hcurrent, _, hself, .asleep hsuspends⟩
      · exact ⟨hcurrent, _, hself, .woken hsuspends⟩

/-- **Objects wake the threads that wait on them, and no others.** In every state of a run in
    which no thread's key is the last there is, stale wakers in queues or not:

    * an object can use every waker in its queue: the wake does not panic, and if it wakes the
      thread, the thread waits on this very object;
    * whatever the time is, no timeout panics. -/
theorem wakes_waiting {rng : Nat → UInt32} {tr : List (Kernel × SvcStep)} {k : Kernel}
    (h : Run (svcSystem rng) tr k) (hleft : EveryStep (fun k _ => k.KeysLeft) tr) :
    (∀ o, ∀ w ∈ k.wakers o, ∃ ok k', w.wake o k = .ret (ok, k') ∧ (ok = true → ∃ thread,
      k.thread? w.thread = some thread ∧ thread.state = .waiting ∧ o ∈ thread.waitObjects)) ∧
    ∀ time, ∃ k', k.tickThreadsAt time = .ret k' := by
  obtain ⟨hkeyed, htidy⟩ := Kernel.keyed_of_run h hleft
  exact ⟨fun o w hw => (hkeyed.queued o w hw).wake, hkeyed.tickThreadsAt htidy.nodup⟩

/-- A step by execution, as long as there are keys left. -/
def keyedStep? (rng : Nat → UInt32) (fuel : Nat) (k : Kernel) (l : SvcStep) : Option Kernel :=
  if k.KeysLeft then svcStep? rng fuel k l else none

theorem step_of_keyedStep? {rng : Nat → UInt32} {fuel : Nat} {k k' : Kernel} {l : SvcStep}
    (h : keyedStep? rng fuel k l = some k') : (svcSystem rng).step k l k' ∧ k.KeysLeft := by
  unfold keyedStep? at h
  split at h
  · rename_i hleft
    exact ⟨step_of_svcStep? h, hleft⟩
  · cases h

/-- A stale waker of a thread that runs again: its object cannot wake the thread. -/
theorem wakes_waiting_stale : ∃ (tr : List (Kernel × SvcStep)) (k : Kernel),
    Run (svcSystem UInt32.ofNat) tr k ∧ k.wakers 2 = [⟨0, 0⟩] ∧
      (k.thread? 0).map CommonThread.state = some .running ∧
      ∃ ok k', (⟨0, 0⟩ : Waker).wake 2 k = .ret (ok, k') ∧ (ok = true → ∃ thread,
        k.thread? 0 = some thread ∧ thread.state = .waiting ∧ 2 ∈ thread.waitObjects) := by
  have hrun : (runAll (keyedStep? UInt32.ofNat 4) Kernel.new twoEvents).map (fun k =>
      (k.wakers 2, (k.thread? 0).map CommonThread.state)) =
      some ([⟨0, 0⟩], some .running) := by
    decide +kernel
  obtain ⟨k, hk, hview⟩ := Option.map_eq_some_iff.mp hrun
  obtain ⟨hwakers, hstate⟩ := Prod.mk.inj hview
  obtain ⟨tr, htr, hc⟩ := Run.every_of_runAll (fun _ _ _ hst => step_of_keyedStep? hst)
    (.start (M := svcSystem UInt32.ofNat) rfl) (everyStep_nil _) hk
  have hmem : (⟨0, 0⟩ : Waker) ∈ k.wakers 2 := by
    rw [hwakers]
    exact List.mem_cons_self
  exact ⟨tr, k, htr, hwakers, hstate, (wakes_waiting htr hc).1 2 _ hmem⟩

/-- **A thread runs until it goes to sleep or exits.** In every run in which no thread's key is
    the last there is, a call leaves its thread the current one. Whomever the call wakes, the
    thread runs on as it was, with its key, unless it went to sleep in the call or is done: its
    sleeper is then what going to sleep or exiting made of it, and it does not run. -/
theorem calling_goesOn {rng : Nat → UInt32} {tr : List (Kernel × SvcStep)} {k k' : Kernel}
    {fuel : Nat} {call : SvcCall} {pid : ProcessId} {t : ThreadIndex} {self : Sleeper}
    (h : Run (svcSystem rng) tr k) (hleft : EveryStep (fun k _ => k.KeysLeft) tr)
    (hnow : k.KeysLeft) (hruns : k.Runs pid t self) (hexec : call.exec rng fuel k = .ret k') :
    k'.current = some (pid, t) ∧ ∃ self', k'.sleepers t = some self' ∧ call.Leaves self self' ∧
      (k'.calling = true ↔ self' = self) := by
  obtain ⟨hkeyed, htidy⟩ := Kernel.keyed_of_run h hleft
  obtain ⟨hcurrent, self', hself', hleaves⟩ := leaves_of_call hkeyed htidy hnow hruns hexec
  refine ⟨hcurrent, self', hself', hleaves, ?_⟩
  have hiff : k'.calling = true ↔ self'.state = .running := by
    rw [Kernel.calling_iff]
    constructor
    · rintro ⟨pid', t', x, hcurrent', hx, hrun⟩
      rw [hcurrent] at hcurrent'
      cases hcurrent'
      rw [hself'] at hx
      cases hx
      exact hrun
    · exact fun hrun => ⟨pid, t, self', hcurrent, hself', hrun⟩
  rw [hiff]
  refine ⟨fun hrun => ?_, fun heq => heq ▸ hruns.2.2⟩
  cases hleaves with
  | running _ => rfl
  | asleep _ => cases hrun
  | woken _ => cases hrun
  | done _ => cases hrun

/-- A thread wakes another by an event, and runs on. -/
theorem calling_goesOn_wakes : ∃ (tr : List (Kernel × SvcStep)) (k k' : Kernel) (self : Sleeper),
    Run (svcSystem UInt32.ofNat) tr k ∧ k.Runs 0 1 self ∧
      (k.thread? 0).map CommonThread.state = some .waiting ∧
      (SvcCall.signalEvent (Handle.fromRaw 1)).exec UInt32.ofNat 4 k = .ret k' ∧
      (k'.thread? 0).map CommonThread.state = some .ready ∧ k'.current = some (0, 1) ∧
      ∃ self', k'.sleepers 1 = some self' ∧
        (SvcCall.signalEvent (Handle.fromRaw 1)).Leaves self self' := by
  have hrun : (runAll (keyedStep? UInt32.ofNat 4) Kernel.new
      [.newProcess .hle, .newThread 0, .newThread 0, .runNext, .call (.createEvent .oneShot),
        .call (.waitSync1 0 (Handle.fromRaw 1) (-1)), .stop 0, .runNext]).map (fun k =>
      ((k.thread? 0).map CommonThread.state, decide (k.KeysLeft ∧ k.current = some (0, 1)),
        (k.sleepers 1).map Sleeper.state,
        ((SvcCall.signalEvent (Handle.fromRaw 1)).exec UInt32.ofNat 4 k).value?.map fun k' =>
          (k'.thread? 0).map CommonThread.state)) =
      some (some .waiting, true, some .running, some (some .ready)) := by
    decide +kernel
  obtain ⟨k, hk, hview⟩ := Option.map_eq_some_iff.mp hrun
  obtain ⟨hwaits, hview⟩ := Prod.mk.inj hview
  obtain ⟨hnow, hview⟩ := Prod.mk.inj hview
  obtain ⟨hnow, hcurrent⟩ := of_decide_eq_true hnow
  obtain ⟨hstate, hview⟩ := Prod.mk.inj hview
  obtain ⟨self, hself, hrunning⟩ := Option.map_eq_some_iff.mp hstate
  obtain ⟨k', hexec, hwoken⟩ := Option.map_eq_some_iff.mp hview
  obtain ⟨tr, htr, hc⟩ := Run.every_of_runAll (fun _ _ _ hst => step_of_keyedStep? hst)
    (.start (M := svcSystem UInt32.ofNat) rfl) (everyStep_nil _) hk
  have hexec := value?_eq_some.mp hexec
  have hruns : k.Runs 0 1 self := ⟨hcurrent, hself, hrunning⟩
  obtain ⟨hcurrent', self', hself', hleaves, _⟩ :=
    calling_goesOn htr hc hnow hruns hexec
  exact ⟨tr, k, k', self, htr, hruns, hwaits, hexec, hwoken, hcurrent', self', hself', hleaves⟩

end Pomelo
