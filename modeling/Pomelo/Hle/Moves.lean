/-
  The moves that the methods of the objects are made of.

  Each lemma takes one method of `Hle.Sync` apart into moves (`MadeOf`), or says what it makes
  of the view. A method that wakes threads is one `act`, with what it does to its object before
  and after; a wait is a `take` or an `enqueue`. Whether a waker goes stale on the way is part
  of these lemmas: a waker is used for the objects of its suspension (`Attends`) until one of
  them wakes the thread.
-/
import Pomelo.Hle.View

namespace Pomelo

open Lib Outcome

/-- The object without the wakers of some threads. -/
inductive Loses (x : KObject) : KObject → Prop where
  | refl : Loses x x
  | tail {y : KObject} {t : ThreadIndex} : Loses x y → Loses x (y.removeWakers t)

namespace Loses

variable {x y z : KObject}

theorem trans (h : Loses x y) (h' : Loses y z) : Loses x z := by
  induction h' with
  | refl => exact h
  | tail _ ih => exact .tail ih

theorem wakers (h : Loses x y) : y.wakers.Sublist x.wakers := by
  induction h with
  | refl => exact List.Sublist.refl _
  | tail _ ih =>
    rw [KObject.wakers_removeWakers]
    exact List.filter_sublist.trans ih

theorem peer (h : Loses x y) : y.peer = x.peer := by
  induction h with
  | refl => rfl
  | @tail y t _ ih => rw [(KObject.plain_removeWakers t).peer, ih]

theorem requests (h : Loses x y) : y.requests = x.requests := by
  induction h with
  | refl => rfl
  | @tail y t _ ih => rw [KObject.requests_removeWakers, ih]

theorem sessions (h : Loses x y) : y.sessions = x.sessions := by
  induction h with
  | refl => rfl
  | @tail y t _ ih => rw [KObject.sessions_removeWakers, ih]

end Loses

namespace View

variable {v : View} {o p : ObjId} {t : ThreadIndex} {f : KObject → KObject}

theorem object?_modify : (v.modify o f).object? p =
    if p = o then (v.object? p).map f else v.object? p :=
  v.objects.at?_modify o p f

theorem object?_wake {self : Sleeper} : (v.wake t self).object? o =
    if o ∈ self.waitObjects then (v.object? o).map (KObject.removeWakers t) else v.object? o :=
  Objects.at?_removeWakers t self.waitObjects v.objects o

theorem modify_id : v.modify o id = v := by
  unfold modify Objects.modify
  rw [Option.map_id, List.modify_id]

theorem modify_of_none (h : v.object? o = none) : v.modify o f = v := by
  have hsame : Objects.modify v.objects o f = v.objects := by
    unfold Objects.modify
    refine List.ext_getElem? fun i => ?_
    rw [List.getElem?_modify]
    by_cases hi : o = i
    · subst hi
      have hat : v.objects[o]?.join = none := h
      cases hget : v.objects[o]? with
      | none => rfl
      | some x =>
        rw [hget] at hat
        have hat : x = none := hat
        rw [hat]
        simp
    · simp [hi]
  unfold modify
  rw [hsame]

theorem modify_modify {g : KObject → KObject} :
    (v.modify o f).modify o g = v.modify o fun x => g (f x) := by
  unfold modify Objects.modify
  dsimp only
  rw [List.modify_modify_eq]
  congr 2
  funext x
  cases x <;> rfl

theorem adds_of {x : KObject} {ws : List Waker} (hx : v.object? o = some x)
    (hp : ∀ y, (f y).peer = y.peer) (hw : ∀ w ∈ (f x).wakers, w ∈ x.wakers ∨ w ∈ ws) :
    v.Adds o x.peer ws f := by
  refine ⟨fun y hy => ?_, fun y hy => ?_⟩
  · rw [hx] at hy
    injection hy with hy
    rw [hp, hy]
    exact ⟨rfl, rfl⟩
  · rw [hx] at hy
    injection hy with hy
    rw [← hy]
    exact hw

theorem adds_of_wakers {x : KObject} (ws : List Waker) (hx : v.object? o = some x)
    (hp : ∀ y, (f y).peer = y.peer) (hw : ∀ y : KObject, (f y).wakers = y.wakers) :
    v.Adds o x.peer ws f :=
  adds_of hx hp fun _ hmem => Or.inl (hw x ▸ hmem)

/-! ### What becomes of an object -/

theorem object?_append {x : KObject} (hx : v.object? o = some x) (data : List (Option KObject)) :
    { v with objects := v.objects ++ data }.object? o = some x := by
  have hat : v.objects[o]?.join = some x := hx
  show (v.objects ++ data)[o]?.join = some x
  cases hget : v.objects[o]? with
  | none =>
    rw [hget] at hat
    cases hat
  | some y => rw [List.getElem?_append_left (List.getElem?_eq_some_iff.mp hget).1, ← hat, hget]

/-- An object of a longer list is one of the list before, or one of those appended. -/
theorem object?_of_append {data : List (Option KObject)} {y : KObject}
    (h : { v with objects := v.objects ++ data }.object? o = some y) :
    v.object? o = some y ∨ ∃ i, o = v.objects.length + i ∧ data[i]? = some (some y) := by
  have hat : (v.objects ++ data)[o]?.join = some y := h
  by_cases ho : o < v.objects.length
  · rw [List.getElem?_append_left ho] at hat
    exact Or.inl hat
  · rw [List.getElem?_append_right (Nat.le_of_not_lt ho)] at hat
    exact Or.inr ⟨o - v.objects.length, (Nat.add_sub_cancel' (Nat.le_of_not_lt ho)).symm,
      Option.join_eq_some_iff.mp hat⟩

theorem object?_of_drop {y : KObject}
    (h : { v with objects := v.objects.set p none }.object? o = some y) :
    o ≠ p ∧ v.object? o = some y := by
  have hat : (v.objects.set p none)[o]?.join = some y := h
  by_cases hp : p = o
  · subst hp
    rw [List.getElem?_set] at hat
    split at hat
    · split at hat
      · cases hat
      · cases hat
    · exact absurd rfl ‹_›
  · rw [List.getElem?_set_ne hp] at hat
    exact ⟨Ne.symm hp, hat⟩

theorem lt_length {x : KObject} (h : v.object? o = some x) : o < v.objects.length := by
  by_contra hlt
  have hat : v.objects[o]?.join = some x := h
  rw [List.getElem?_eq_none (Nat.le_of_not_lt hlt)] at hat
  cases hat

theorem object?_of_wake {self : Sleeper} {y : KObject} (h : (v.wake t self).object? o = some y) :
    ∃ x, v.object? o = some x ∧ Loses x y := by
  rw [object?_wake] at h
  split at h
  · obtain ⟨x, hx, rfl⟩ := Option.map_eq_some_iff.mp h
    exact ⟨x, hx, .tail .refl⟩
  · exact ⟨y, h, .refl⟩

theorem object?_of_tryWake {w : Waker} {y : KObject} (h : (v.tryWake w).object? o = some y) :
    ∃ x, v.object? o = some x ∧ Loses x y := by
  unfold tryWake at h
  split at h
  · split at h
    · exact object?_of_wake h
    · exact ⟨y, h, .refl⟩
  · exact ⟨y, h, .refl⟩

theorem object?_of_wakes {ws : List Waker} {y : KObject}
    (h : (ws.foldl tryWake v).object? o = some y) : ∃ x, v.object? o = some x ∧ Loses x y := by
  induction ws generalizing v with
  | nil => exact ⟨y, h, .refl⟩
  | cons w ws ih =>
    obtain ⟨x, hx, hrest⟩ := ih h
    obtain ⟨z, hz, hfirst⟩ := object?_of_tryWake hx
    exact ⟨z, hz, hfirst.trans hrest⟩

theorem object?_of_modify {y : KObject} (h : (v.modify o f).object? p = some y) :
    ∃ x, v.object? p = some x ∧ y = if p = o then f x else x := by
  rw [object?_modify] at h
  split at h
  · rename_i hp
    obtain ⟨x, hx, rfl⟩ := Option.map_eq_some_iff.mp h
    exact ⟨x, hx, (if_pos hp).symm⟩
  · rename_i hp
    exact ⟨y, h, (if_neg hp).symm⟩

/-- A changed object is the end it was. -/
theorem Adds.peer_of {q : Peer} {ws : List Waker} {y : KObject} (hf : v.Adds o q ws f)
    (h : (v.modify o f).object? p = some y) : ∃ x, v.object? p = some x ∧ y.peer = x.peer := by
  obtain ⟨x, hx, rfl⟩ := object?_of_modify h
  refine ⟨x, hx, ?_⟩
  split
  · rename_i hp
    obtain ⟨hbefore, hafter⟩ := hf.peer x (hp ▸ hx)
    rw [hbefore, hafter]
  · rfl

/-- A move makes new objects, and leaves every other the end that it was. -/
theorem Step.peer {v' : View} {m : Move} {y : KObject} (h : Step v m v')
    (hy : v'.object? o = some y) :
    (∃ x, v.object? o = some x ∧ y.peer = x.peer) ∨
      v.objects.length ≤ o ∧ y.New ∧ y.peer.Adjacent o := by
  cases h with
  | turn h hs hn => exact Or.inl ⟨y, hy, rfl⟩
  | born => exact Or.inl ⟨y, hy, rfl⟩
  | suspend h hs => exact Or.inl ⟨y, hy, rfl⟩
  | @make x hx hp =>
    rcases object?_of_append hy with hy | ⟨i, ho, hi⟩
    · exact Or.inl ⟨y, hy, rfl⟩
    · cases i with
      | zero =>
        injection hi with hi
        injection hi with hi
        subst hi
        refine Or.inr ⟨Nat.le_of_eq ho.symm, hx, ?_⟩
        rw [hp]
        trivial
      | succ i => cases hi
  | @makePair server client hs hc hp =>
    rcases object?_of_append hy with hy | ⟨i, ho, hi⟩
    · exact Or.inl ⟨y, hy, rfl⟩
    · right
      match i, hi with
      | 0, hi =>
        injection hi with hi
        injection hi with hi
        subst hi
        refine ⟨Nat.le_of_eq ho.symm, hs, ?_⟩
        rcases hp with ⟨hp, _⟩ | ⟨hp, _⟩
        · rw [hp, ho]
          rfl
        · rw [hp, ho]
          rfl
      | 1, hi =>
        injection hi with hi
        injection hi with hi
        subst hi
        refine ⟨ho ▸ Nat.le_add_right _ _, hc, ?_⟩
        rcases hp with ⟨_, hp⟩ | ⟨_, hp⟩
        · rw [hp, ho]
          rfl
        · rw [hp, ho]
          rfl
  | @drop p h =>
    obtain ⟨_, hy⟩ := object?_of_drop hy
    exact Or.inl ⟨y, hy, rfl⟩
  | expire h hs ht =>
    obtain ⟨x, hx, hloses⟩ := object?_of_wake hy
    exact Or.inl ⟨x, hx, hloses.peer⟩
  | change hf => exact Or.inl (hf.peer_of hy)
  | enqueue h hk hs ho hf => exact Or.inl (hf.peer_of hy)
  | enqueueStale h hf => exact Or.inl (hf.peer_of hy)
  | take h hk hs ho hf =>
    obtain ⟨x, hx, hloses⟩ := object?_of_wake hy
    obtain ⟨z, hz, hpeer⟩ := hf.peer_of hx
    exact Or.inl ⟨z, hz, by rw [hloses.peer, hpeer]⟩
  | act hws hf hg =>
    obtain ⟨x, hx, rfl⟩ := object?_of_modify hy
    obtain ⟨z, hz, hloses⟩ := object?_of_wakes hx
    obtain ⟨z', hz', hpeer⟩ := hf.peer_of hz
    refine Or.inl ⟨z', hz', ?_⟩
    split
    · rw [hg.peer, hloses.peer, hpeer]
    · rw [hloses.peer, hpeer]

theorem alive_modify {x : KObject} (hx : v.object? p = some x) :
    ∃ y, (v.modify o f).object? p = some y := by
  rw [object?_modify, hx]
  split
  · exact ⟨f x, rfl⟩
  · exact ⟨x, rfl⟩

theorem alive_wake {self : Sleeper} {x : KObject} (hx : v.object? o = some x) :
    ∃ y, (v.wake t self).object? o = some y := by
  rw [object?_wake, hx]
  split
  · exact ⟨x.removeWakers t, rfl⟩
  · exact ⟨x, rfl⟩

theorem alive_wakes {ws : List Waker} {x : KObject} (hx : v.object? o = some x) :
    ∃ y, (ws.foldl tryWake v).object? o = some y := by
  induction ws generalizing v x with
  | nil => exact ⟨x, hx⟩
  | cons w ws ih =>
    have hone : ∃ y, (v.tryWake w).object? o = some y := by
      unfold tryWake
      split
      · split
        · exact alive_wake hx
        · exact ⟨x, hx⟩
      · exact ⟨x, hx⟩
    obtain ⟨y, hy⟩ := hone
    exact ih hy

/-- Only a drop takes an object away. -/
theorem Step.alive {v' : View} {m : Move} {x : KObject} (h : Step v m v') (hm : m ≠ .drop o)
    (hx : v.object? o = some x) : ∃ y, v'.object? o = some y ∧ y.peer = x.peer := by
  have halive : ∃ y, v'.object? o = some y := by
    cases h with
    | turn h hs hn => exact ⟨x, hx⟩
    | born => exact ⟨x, hx⟩
    | suspend h hs => exact ⟨x, hx⟩
    | make hn hp => exact ⟨x, object?_append hx _⟩
    | makePair hs hc hp => exact ⟨x, object?_append hx _⟩
    | @drop p h =>
      have hne : p ≠ o := fun hp => hm (hp ▸ rfl)
      refine ⟨x, ?_⟩
      show (v.objects.set p none)[o]?.join = some x
      rw [List.getElem?_set_ne hne]
      exact hx
    | expire h hs ht => exact alive_wake hx
    | change hf => exact alive_modify hx
    | enqueue h hk hs ho hf => exact alive_modify hx
    | enqueueStale h hf => exact alive_modify hx
    | take h hk hs ho hf =>
      obtain ⟨y, hy⟩ := alive_modify hx
      exact alive_wake hy
    | act hws hf hg =>
      obtain ⟨y, hy⟩ := alive_modify hx
      obtain ⟨z, hz⟩ := alive_wakes hy
      exact alive_modify hz
  obtain ⟨y, hy⟩ := halive
  rcases h.peer hy with ⟨z, hz, hp⟩ | ⟨hle, _⟩
  · rw [hx] at hz
    injection hz with hz
    exact ⟨y, hy, hz ▸ hp⟩
  · exact absurd (lt_length hx) (Nat.not_lt.mpr hle)

theorem length_modify : (v.modify o f).objects.length = v.objects.length := by
  show (List.modify v.objects o _).length = _
  rw [List.length_modify]

theorem length_wake {self : Sleeper} : (v.wake t self).objects.length = v.objects.length := by
  show (Objects.removeWakers t self.waitObjects v.objects).length = _
  unfold Objects.removeWakers
  induction self.waitObjects generalizing v with
  | nil => rfl
  | cons p ps ih =>
    rw [List.foldl_cons]
    exact (ih (v := v.modify p (KObject.removeWakers t))).trans length_modify

theorem length_wakes {ws : List Waker} :
    (ws.foldl tryWake v).objects.length = v.objects.length := by
  induction ws generalizing v with
  | nil => rfl
  | cons w ws ih =>
    rw [List.foldl_cons, ih]
    unfold tryWake
    split
    · split
      · exact length_wake
      · rfl
    · rfl

theorem Step.length {v' : View} {m : Move} (h : Step v m v') :
    v.objects.length ≤ v'.objects.length := by
  cases h with
  | turn h hs hn => exact Nat.le_refl _
  | born => exact Nat.le_refl _
  | suspend h hs => exact Nat.le_refl _
  | make hx hp =>
    rw [List.length_append]
    exact Nat.le_add_right _ _
  | makePair hs hc hp =>
    rw [List.length_append]
    exact Nat.le_add_right _ _
  | drop h => rw [List.length_set]
  | expire h hs ht => rw [length_wake]
  | change hf => rw [length_modify]
  | enqueue h hk hs ho hf => rw [length_modify]
  | enqueueStale h hf => rw [length_modify]
  | take h hk hs ho hf => rw [length_wake, length_modify]
  | act hws hf hg => rw [length_modify, length_wakes, length_modify]

/-- An object that is there before and after some moves is the same end. -/
theorem peer_of_moves {allowed : Move → Prop} {v' : View} {x y : KObject}
    (h : Moves Step allowed v v') (hx : v.object? o = some x) (hy : v'.object? o = some y) :
    y.peer = x.peer := by
  have hkept : v.objects.length ≤ v'.objects.length ∧
      ∀ y, v'.object? o = some y → y.peer = x.peer := by
    refine h.keeps (I := fun v' => v.objects.length ≤ v'.objects.length ∧
      ∀ y, v'.object? o = some y → y.peer = x.peer) ?_ ⟨Nat.le_refl _, fun y hy => ?_⟩
    · rintro v1 m v2 ⟨hlength, hpeer⟩ _ hstep
      refine ⟨Nat.le_trans hlength hstep.length, fun y hy => ?_⟩
      rcases hstep.peer hy with ⟨z, hz, heq⟩ | ⟨hle, _⟩
      · rw [heq, hpeer z hz]
      · exact absurd (lt_length hx) (Nat.not_lt.mpr (Nat.le_trans hlength hle))
    · rw [hx] at hy
      injection hy with hy
      rw [hy]
  exact hkept.2 y hy

theorem adds_pushWaker {x : KObject} (w : Waker) (hx : v.object? o = some x) :
    v.Adds o x.peer [w] (KObject.pushWaker w) :=
  adds_of hx (KObject.plain_pushWaker w).peer fun _ hmem =>
    (KObject.mem_wakers_pushWaker hmem).imp_right List.mem_singleton.mpr

end View

namespace Kernel

theorem view_modifyObject (k : Kernel) (o : ObjId) (f : KObject → KObject) :
    (k.modifyObject o f).view = k.view.modify o f := rfl

theorem modifyObject_modifyObject (k : Kernel) (o : ObjId) (f g : KObject → KObject) :
    (k.modifyObject o f).modifyObject o g = k.modifyObject o fun x => g (f x) := by
  unfold modifyObject Objects.modify
  dsimp only
  rw [List.modify_modify_eq]
  congr 2
  funext x
  cases x <;> rfl

theorem modifyObject_id (k : Kernel) (o : ObjId) : k.modifyObject o id = k := by
  unfold modifyObject Objects.modify
  rw [Option.map_id, List.modify_id]

/-- A wake is a try of the view, and tells whether the waker was live. -/
theorem view_wake {k k' : Kernel} {w : Waker} {o : ObjId} {ok : Bool}
    (h : w.wake o k = .ret (ok, k')) :
    k'.view = k.view.tryWake w ∧ (ok = true ↔ k.view.Live w) := by
  obtain ⟨thread, hthread, h⟩ := wake_eq_ret h
  have hself : k.view.sleepers w.thread = some thread.sleeper := by
    show k.sleepers w.thread = _
    unfold sleepers
    rw [hthread]
    rfl
  have hlive : k.view.Live w ↔ thread.wakeKey = w.key := by
    unfold View.Live
    rw [hself]
    constructor
    · rintro ⟨self, hs, hk⟩
      injection hs with hs
      rw [← hk, ← hs]
      rfl
    · exact fun hk => ⟨_, rfl, hk⟩
  rw [hlive]
  unfold View.tryWake
  rw [hself]
  dsimp only
  rcases h with ⟨rfl, hkey, resume, _, rfl⟩ | ⟨rfl, hkey, rfl⟩
  · refine ⟨?_, by simp [hkey]⟩
    rw [if_pos (show thread.sleeper.wakeKey = w.key from hkey)]
    have hsleepers : (k.setThread (thread.woken resume)).sleepers =
        Function.update k.sleepers w.thread (some thread.sleeper.woken) :=
      sleepers_setThread hthread rfl
    have hindices : (k.setThread (thread.woken resume)).indices = k.indices :=
      indices_setThread _ _
    unfold view View.wake
    rw [← hsleepers, ← hindices]
    rfl
  · refine ⟨?_, by simp [hkey]⟩
    rw [if_neg (show ¬ thread.sleeper.wakeKey = w.key from hkey)]

end Kernel

/-! ## Waking what is queued -/

section Wakes

variable {allowed : Move → Prop} {k k' : Kernel} {o : ObjId} {w : Waker} {ws : List Waker}
  {f : KObject → KObject}

theorem wakeExpect_eq_ret (h : w.wakeExpect o k = .ret k') :
    k.view.Live w ∧ k'.view = k.view.tryWake w := by
  obtain ⟨⟨ok, k1⟩, hwake, h⟩ := bind_eq_ret.mp h
  obtain ⟨_, hok, h⟩ := bind_eq_ret.mp h
  injection h with h
  subst h
  obtain ⟨hview, hlive⟩ := Kernel.view_wake (mapPanic_eq_ret.mp hwake)
  exact ⟨hlive.mp (assert_eq_ret.mp hok), hview⟩

/-- The thread of the waker is woken, and every other stays as it is. -/
theorem wakeExpect_thread? (h : w.wakeExpect o k = .ret k') :
    ∃ thread resume, k.thread? w.thread = some thread ∧
      ∀ t, k'.thread? t = if t = w.thread then some (thread.woken resume) else k.thread? t := by
  obtain ⟨⟨ok, k1⟩, hwake, h⟩ := bind_eq_ret.mp h
  obtain ⟨_, hok, h⟩ := bind_eq_ret.mp h
  injection h with h
  subst h
  have hok : ok = true := assert_eq_ret.mp hok
  obtain ⟨thread, hthread, hor⟩ := Kernel.wake_eq_ret (mapPanic_eq_ret.mp hwake)
  rcases hor with ⟨_, _, resume, _, rfl⟩ | ⟨hfalse, _⟩
  · refine ⟨thread, resume, hthread, fun t => ?_⟩
    show (k.setThread (thread.woken resume)).thread? t = _
    rw [Kernel.thread?_setThread, CommonThread.woken_index, Kernel.thread?_index hthread]
    split
    · rename_i ht
      rw [ht, hthread]
      rfl
    · rfl
  · rw [hfalse] at hok
    cases hok

theorem wakeExpect_eq_panic {e : HlePanic} (h : w.wakeExpect o k = .panic e) :
    (∃ e', e = .other e') ∨ e = .wake o ∧ ¬ k.view.Live w := by
  rcases bind_eq_panic.mp h with h | ⟨⟨ok, k1⟩, hwake, h⟩
  · obtain ⟨e', _, he⟩ := mapPanic_eq_panic.mp h
    exact Or.inl ⟨e', he.symm⟩
  · obtain ⟨_, hlive⟩ := Kernel.view_wake (mapPanic_eq_ret.mp hwake)
    rcases bind_eq_panic.mp h with h | ⟨u, _, h⟩
    · obtain ⟨hok, he⟩ := assert_eq_panic.mp h
      refine Or.inr ⟨he.symm, fun hl => ?_⟩
      rw [hlive.mpr hl] at hok
      cases hok
    · cases h

theorem wakeEach_eq_ret (h : wakeEach o ws k = .ret k') :
    k'.view = ws.foldl View.tryWake k.view := by
  induction ws generalizing k with
  | nil =>
    injection h with h
    rw [h]
    rfl
  | cons w ws ih =>
    obtain ⟨⟨ok, k1⟩, hwake, h⟩ := bind_eq_ret.mp h
    rw [ih h, (Kernel.view_wake hwake).1]
    rfl

theorem wakeDrained_eq_ret (h : ArbiterImpl.wakeDrained o ws k = .ret k') :
    k'.view = ws.foldl View.tryWake k.view := by
  induction ws generalizing k with
  | nil =>
    injection h with h
    rw [h]
    rfl
  | cons w ws ih =>
    obtain ⟨⟨ok, k1⟩, hwake, h⟩ := bind_eq_ret.mp h
    obtain ⟨_, _, h⟩ := bind_eq_ret.mp h
    rw [ih h, (Kernel.view_wake hwake).1]
    rfl

/-- A panic that the blame needs no account of. -/
theorem blame_of_lift {α : Type} {x : Exec α} {e : HlePanic} {v : View}
    (h : (liftM x : HleExec α) = .panic e) : Blame e v := by
  obtain ⟨e', _, rfl⟩ := mapPanic_eq_panic.mp h
  trivial

theorem lift_ne_wake {α : Type} {x : Exec α} : (liftM x : HleExec α) ≠ .panic (.wake o) := by
  intro h
  obtain ⟨_, _, he⟩ := mapPanic_eq_panic.mp h
  cases he

theorem blame_of_wakeExpect {e : HlePanic} {v : View} (h : w.wakeExpect o k = .panic e)
    (hw : w ∈ v.wakers o) (hv : v.sleepers = k.view.sleepers) : Blame e v := by
  rcases wakeExpect_eq_panic h with ⟨e', rfl⟩ | ⟨rfl, hlive⟩
  · trivial
  · refine ⟨w, hw, fun hl => hlive ?_⟩
    unfold View.Live at hl ⊢
    rw [← hv]
    exact hl

theorem wakers_of_object {x : KObject} (h : k.object? o = some x) :
    k.view.wakers o = x.wakers := by
  unfold View.wakers
  rw [show k.view.object? o = some x from h]

theorem keeps_id : KObject.Keeps id := ⟨fun _ => rfl, fun _ _ hw => hw⟩

theorem keeps_setWakers_nil : KObject.Keeps (KObject.setWakers []) := by
  refine ⟨(KObject.plain_setWakers []).peer, fun x w hw => ?_⟩
  rcases KObject.mem_wakers_setWakers hw with hw | ⟨_, hw⟩
  · cases hw
  · exact hw

theorem keeps_modifySignal (f : Signal → Signal) : KObject.Keeps (KObject.modifySignal f) := by
  refine ⟨(KObject.plain_modifySignal f).peer, fun x w hw => ?_⟩
  rw [KObject.wakers_modifySignal] at hw
  exact hw

/-- One waker of the queue is woken. -/
theorem act_one {x : KObject} (hx : k.object? o = some x) (hw : w ∈ x.wakers)
    (hf : k.view.Adds o x.peer [] f) :
    View.Step k.view (.act o x.peer [w] f id) ((k.view.modify o f).tryWake w) := by
  have hstep : View.Step k.view (.act o x.peer [w] f id) _ :=
    .act (fun w' hw' => by
      rw [wakers_of_object hx, List.mem_singleton.mp hw']
      exact hw) hf keeps_id
  rw [View.modify_id] at hstep
  exact hstep

/-- The first waker of the queue is woken, and leaves it. -/
theorem act_front {x : KObject} {rest : List Waker} (hx : k.object? o = some x)
    (hws : x.wakers = w :: rest) (hp : ∀ y, (f y).peer = y.peer)
    (hf : ∀ y : KObject, (f y).wakers = y.wakers) :
    View.Step k.view (.act o x.peer [w] (fun y => (f y).setWakers rest) id)
      ((k.view.modify o fun y => (f y).setWakers rest).tryWake w) := by
  have hmem : w ∈ x.wakers := by
    rw [hws]
    exact List.mem_cons_self
  have hadds : k.view.Adds o x.peer [] fun y => (f y).setWakers rest := by
    refine View.adds_of hx (fun y => ?_) fun w' hw' => ?_
    · rw [(KObject.plain_setWakers rest).peer, hp]
    · rcases KObject.mem_wakers_setWakers hw' with hw' | ⟨_, hw'⟩
      · rw [hws]
        exact Or.inl (List.mem_cons_of_mem w hw')
      · exact Or.inl (hf x ▸ hw')
  exact act_one hx hmem hadds

/-- A change of the object, and its first waker is woken and leaves the queue. -/
theorem wakeFront_madeOf {x : KObject} (hx : k.object? o = some x)
    (hp : ∀ y, (f y).peer = y.peer) (hf : ∀ y : KObject, (f y).wakers = y.wakers)
    (hc : x.wakers = [] → allowed (.change o x.peer f))
    (ha : ∀ w rest, x.wakers = w :: rest →
      allowed (.act o x.peer [w] (fun y => (f y).setWakers rest) id)) :
    MadeOf allowed Kernel.view k (wakeFront o x.wakers (k.modifyObject o f)) := by
  cases hws : x.wakers with
  | nil => exact .ret (.single (hc hws) (.change (View.adds_of_wakers [] hx hp hf)))
  | cons w rest =>
    unfold wakeFront
    refine ⟨fun k' h => ?_, fun e h => ?_⟩
    · obtain ⟨_, hview⟩ := wakeExpect_eq_ret h
      refine .single (ha w rest hws) ?_
      rw [hview, Kernel.view_modifyObject, Kernel.view_modifyObject, View.modify_modify]
      exact act_front hx hws hp hf
    · have hmem : w ∈ k.view.wakers o := by
        rw [wakers_of_object hx, hws]
        exact List.mem_cons_self
      exact ⟨k.view, .refl _, blame_of_wakeExpect h hmem rfl⟩

theorem wake_current {ok : Bool} (h : w.wake o k = .ret (ok, k')) : k'.current = k.current := by
  obtain ⟨thread, _, h⟩ := Kernel.wake_eq_ret h
  rcases h with ⟨_, _, resume, _, rfl⟩ | ⟨_, _, rfl⟩
  · rfl
  · rfl

theorem wakeExpect_current (h : w.wakeExpect o k = .ret k') : k'.current = k.current := by
  obtain ⟨⟨ok, k1⟩, hwake, h⟩ := bind_eq_ret.mp h
  obtain ⟨_, _, h⟩ := bind_eq_ret.mp h
  injection h with h
  subst h
  exact wake_current (mapPanic_eq_ret.mp hwake)

theorem wakeFront_current (h : wakeFront o ws k = .ret k') : k'.current = k.current := by
  cases ws with
  | nil =>
    injection h with h
    rw [h]
  | cons w ws => exact (wakeExpect_current h).trans rfl

/-- The change and the wake are one move, which does to the data of an end what the change does. -/
theorem wakeFront_step {x : KObject} (hx : k.object? o = some x)
    (hp : ∀ y, (f y).peer = y.peer) (hf : ∀ y : KObject, (f y).wakers = y.wakers)
    (h : wakeFront o x.wakers (k.modifyObject o f) = .ret k') :
    ∃ ws g, View.Step k.view (.act o x.peer ws g id) k'.view ∧
      ∀ y, (g y).requests = (f y).requests ∧ (g y).sessions = (f y).sessions := by
  cases hws : x.wakers with
  | nil =>
    rw [hws] at h
    injection h with h
    have hact : View.Step k.view (.act o x.peer [] f id) _ :=
      .act (fun w hw => by cases hw) (View.adds_of_wakers [] hx hp hf) keeps_id
    rw [View.modify_id] at hact
    exact ⟨[], f, h ▸ hact, fun y => ⟨rfl, rfl⟩⟩
  | cons w rest =>
    rw [hws] at h
    obtain ⟨_, hview⟩ := wakeExpect_eq_ret h
    refine ⟨[w], fun y => (f y).setWakers rest, ?_, fun y =>
      ⟨(KObject.plain_setWakers rest).requests _, (KObject.plain_setWakers rest).sessions _⟩⟩
    rw [hview, Kernel.view_modifyObject, Kernel.view_modifyObject, View.modify_modify]
    exact act_front hx hws hp hf

/-- What a signal does: a sticky one wakes all, another the first. -/
theorem wakeForSignal_madeOf {x : KObject} {signal : Signal} (hx : k.object? o = some x)
    (hp : ∀ y, (f y).peer = y.peer) (hf : ∀ y : KObject, (f y).wakers = y.wakers)
    (hs : KObject.SparesArbiters f) (hc : allowed (.change o x.peer f))
    (ha : ∀ ws f g, KObject.SparesArbiters f → KObject.SparesArbiters g →
      allowed (.act o x.peer ws f g)) :
    MadeOf allowed Kernel.view k (wakeForSignal o signal x.wakers (k.modifyObject o f)) := by
  unfold wakeForSignal
  split
  · refine ⟨fun k' h => ?_, fun e h => ?_⟩
    · obtain ⟨k1, hwakes, h⟩ := bind_eq_ret.mp h
      injection h with h
      subst h
      have hview := wakeEach_eq_ret (mapPanic_eq_ret.mp hwakes)
      have hadds : k.view.Adds o x.peer [] fun y => (f y).setWakers [] := by
        refine View.adds_of hx (fun y => ?_) fun w' hw' => ?_
        · rw [(KObject.plain_setWakers []).peer, hp]
        · rcases KObject.mem_wakers_setWakers hw' with hw' | ⟨_, hw'⟩
          · cases hw'
          · exact Or.inl (hf x ▸ hw')
      refine .single (ha x.wakers (fun y => (f y).setWakers []) (KObject.setWakers [])
        (hs.comp (.setWakers [])) (.setWakers [])) ?_
      rw [Kernel.view_modifyObject, hview, Kernel.view_modifyObject, Kernel.view_modifyObject,
        View.modify_modify]
      exact .act (fun w hw => wakers_of_object hx ▸ hw) hadds keeps_setWakers_nil
    · refine ⟨k.view, .refl _, ?_⟩
      rcases bind_eq_panic.mp h with h | ⟨k1, _, h⟩
      · exact blame_of_lift h
      · cases h
  · cases hws : x.wakers with
    | nil => exact .ret (.single hc (.change (View.adds_of_wakers [] hx hp hf)))
    | cons w rest =>
      have hmem : w ∈ k.view.wakers o := by
        rw [wakers_of_object hx, hws]
        exact List.mem_cons_self
      refine ⟨fun k' h => ?_, fun e h => ?_⟩
      · obtain ⟨k1, hwake, h⟩ := bind_eq_ret.mp h
        injection h with h
        subst h
        obtain ⟨_, hview⟩ := wakeExpect_eq_ret hwake
        refine .single (ha [w] f (KObject.modifySignal Signal.reset) hs (.modifySignal _)) ?_
        rw [Kernel.view_modifyObject, hview, Kernel.view_modifyObject]
        exact .act (fun w' hw' => (List.mem_singleton.mp hw') ▸ hmem)
          (View.adds_of_wakers [] hx hp hf) (keeps_modifySignal Signal.reset)
      · refine ⟨k.view, .refl _, ?_⟩
        rcases bind_eq_panic.mp h with h | ⟨k1, _, h⟩
        · exact blame_of_wakeExpect h hmem rfl
        · cases h

end Wakes

/-! ## Events, timers, mutexes, threads and arbiters -/

section Methods

variable {allowed : Move → Prop} {k k' : Kernel} {o : ObjId}

theorem doSignal_madeOf {self : EventImpl} (h : k.object? o = some (.event self))
    (hc : allowed (.change o .none (KObject.modifySignal Signal.signal)))
    (ha : ∀ ws f g, KObject.SparesArbiters f → KObject.SparesArbiters g →
      allowed (.act o .none ws f g)) :
    MadeOf allowed Kernel.view k (self.doSignal o k) :=
  wakeForSignal_madeOf h (KObject.plain_modifySignal _).peer (KObject.wakers_modifySignal _)
    (.modifySignal _) hc ha

theorem tickTimer_madeOf {self : TimerImpl} {time : UInt64} (h : k.object? o = some (.timer self))
    (hc : ∀ f, KObject.SparesArbiters f → allowed (.change o .none f))
    (ha : ∀ ws f g, KObject.SparesArbiters f → KObject.SparesArbiters g →
      allowed (.act o .none ws f g)) :
    MadeOf allowed Kernel.view k (self.tick o time k) := by
  unfold TimerImpl.tick
  split
  · refine Refines.bind_of (fun e he => blame_of_lift he) fun data _ => ?_
    rw [Kernel.modifyObject_modifyObject]
    have hspares : KObject.SparesArbiters fun x =>
        (x.modifySignal Signal.signal).setTimerData data :=
      KObject.SparesArbiters.comp (.modifySignal Signal.signal) (.setTimerData data)
    refine wakeForSignal_madeOf h (fun x => ?_) (fun x => ?_) hspares (hc _ hspares) ha
    · rw [(KObject.plain_setTimerData data).peer, (KObject.plain_modifySignal _).peer]
    · rw [KObject.wakers_setTimerData, KObject.wakers_modifySignal]
  · exact .ret (.refl _)

theorem release_madeOf {self : MutexImpl} (h : k.object? o = some (.mutex self))
    (hc : ∀ f, KObject.SparesArbiters f → allowed (.change o .none f))
    (ha : ∀ ws f g, KObject.SparesArbiters f → KObject.SparesArbiters g →
      allowed (.act o .none ws f g)) :
    MadeOf allowed Kernel.view k (self.release o k) := by
  have hv : k.view.object? o = some (.mutex self) := h
  unfold MutexImpl.release
  split
  · have hadds := View.adds_of_wakers [] hv (KObject.plain_setAcquired false).peer
      (KObject.wakers_setAcquired false)
    exact .ret (.single (hc _ (.setAcquired false)) (.change hadds))
  · rename_i w rest hq
    have hmem : w ∈ (KObject.mutex self).wakers := by
      show w ∈ self.wakerQueue
      rw [hq]
      exact List.mem_cons_self
    refine ⟨fun k' hk => ?_, fun e he => ⟨k.view, .refl _, ?_⟩⟩
    · obtain ⟨_, hview⟩ := wakeExpect_eq_ret hk
      have hstep := act_one (f := id) h hmem
        (View.adds_of_wakers [] hv (fun _ => rfl) fun _ => rfl)
      rw [View.modify_id] at hstep
      refine .single (ha [w] id id .id .id) ?_
      rw [hview]
      exact hstep
    · exact blame_of_wakeExpect he (wakers_of_object h ▸ hmem) rfl

theorem exit_moves {self : ThreadImpl} (h : k.object? o = some (.thread self))
    (ha : ∀ ws f g, KObject.SparesArbiters f → KObject.SparesArbiters g →
      allowed (.act o .none ws f g)) (hret : self.exit o k = .ret k') :
    Moves View.Step allowed k.view k'.view := by
  unfold ThreadImpl.exit at hret
  split at hret
  · injection hret with hret
    exact .of_eq (by rw [hret])
  · have hview := wakeEach_eq_ret hret
    have hv : k.view.object? o = some (.thread self) := h
    have hadds : k.view.Adds o .none [] fun x => (x.setDead true).setWakers [] := by
      refine View.adds_of hv (fun y => ?_) fun w hw => ?_
      · rw [(KObject.plain_setWakers []).peer, (KObject.plain_setDead true).peer]
      · rcases KObject.mem_wakers_setWakers hw with hw | ⟨_, hw⟩
        · cases hw
        · exact Or.inl (KObject.wakers_setDead true (KObject.thread self) ▸ hw)
    have hstep : View.Step k.view
        (.act o .none self.wakerQueue (fun x => (x.setDead true).setWakers []) id) _ :=
      .act (fun w hw => wakers_of_object h ▸ hw) hadds keeps_id
    rw [View.modify_id] at hstep
    rw [hview, Kernel.view_modifyObject, Kernel.view_modifyObject, View.modify_modify]
    exact .single (ha _ _ _ (KObject.SparesArbiters.comp (.setDead true) (.setWakers [])) .id)
      hstep

theorem mem_drain {addr signalCount : UInt32} {queue : List (Waker × UInt32)} {w : Waker} :
    (w ∈ (ArbiterImpl.drain addr signalCount queue).1 → w ∈ queue.map Prod.fst) ∧
      (w ∈ (ArbiterImpl.drain addr signalCount queue).2.map Prod.fst →
        w ∈ queue.map Prod.fst) := by
  induction queue generalizing signalCount with
  | nil => exact ⟨fun h => h, fun h => h⟩
  | cons entry queue ih =>
    unfold ArbiterImpl.drain
    split
    · refine ⟨fun h => ?_, fun h => List.mem_cons_of_mem _ (ih.2 h)⟩
      rcases List.mem_cons.mp h with rfl | h
      · exact List.mem_cons_self
      · exact List.mem_cons_of_mem _ (ih.1 h)
    · refine ⟨fun h => List.mem_cons_of_mem _ (ih.1 h), fun h => ?_⟩
      rcases List.mem_cons.mp h with rfl | h
      · exact List.mem_cons_self
      · exact List.mem_cons_of_mem _ (ih.2 h)

theorem arbiterSignal_moves {self : ArbiterImpl} {amount : Int32} {addr : UInt32} {woke : Bool}
    (h : k.object? o = some (.arbiter self)) (ha : ∀ ws f g, allowed (.act o .none ws f g))
    (hret : self.signal o amount addr k = .ret (woke, k')) :
    Moves View.Step allowed k.view k'.view := by
  unfold ArbiterImpl.signal at hret
  obtain ⟨k1, hwakes, hret⟩ := bind_eq_ret.mp hret
  injection hret with hret
  obtain ⟨_, rfl⟩ := Prod.mk.inj hret
  have hview := wakeDrained_eq_ret hwakes
  rw [Kernel.view_modifyObject] at hview
  rw [hview]
  have hstep : ∀ ws queue, (∀ w ∈ ws, w ∈ self.wakerQueue.map Prod.fst) →
      (∀ w, w ∈ queue.map Prod.fst → w ∈ self.wakerQueue.map Prod.fst) →
      View.Step k.view (.act o .none ws (KObject.setArbiterQueue queue) id)
        (ws.foldl View.tryWake (k.view.modify o (KObject.setArbiterQueue queue))) := by
    intro ws queue hws hqueue
    have hv : k.view.object? o = some (.arbiter self) := h
    have hadds : k.view.Adds o .none [] (KObject.setArbiterQueue queue) :=
      View.adds_of hv (KObject.plain_setArbiterQueue queue).peer fun w hw =>
        Or.inl (hqueue w hw)
    have hstep : View.Step k.view (.act o .none ws (KObject.setArbiterQueue queue) id) _ :=
      .act (fun w hw => wakers_of_object h ▸ hws w hw) hadds keeps_id
    rw [View.modify_id] at hstep
    exact hstep
  exact .single (ha _ _ _) (hstep _ _ (fun _ hw => mem_drain.1 hw) fun _ hw => mem_drain.2 hw)

end Methods

end Pomelo
