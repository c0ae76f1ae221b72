/-
  One end of a port or session among all the moves.

  The threads queued in a client end wait there and nowhere else (`Sole`). A move that spares the
  end leaves its queue as it is, and wakes none of the threads in it (`Step.spares`): they are
  queued in no other object, and have no timeout. `KeepsData` is the same for the requests and
  sessions of a server end, whose queue any wait may add to.
-/
import Pomelo.Hle.LiveWakers

namespace Pomelo

open Lib Outcome

/-- The move does not change the object as that end. -/
def Move.Spares (c : ObjId) (p : Peer) : Move → Prop
  | change o q _ | enqueue o q _ _ | enqueueStale o q _ _ | take o q _ _ | act o q _ _ _ =>
    ¬ (o = c ∧ q = p)
  | _ => True

/-- The change keeps requests and sessions. -/
def KObject.KeepsData (f : KObject → KObject) : Prop :=
  ∀ x, (f x).requests = x.requests ∧ (f x).sessions = x.sessions

/-- The move changes nothing but the queue of the object as that end, and that only for a thread
    that waits. -/
def Move.KeepsData (c : ObjId) (p : Peer) : Move → Prop
  | enqueue o q _ f | enqueueStale o q _ f => o = c ∧ q = p → KObject.KeepsData f
  | change o q _ | take o q _ _ | act o q _ _ _ => ¬ (o = c ∧ q = p)
  | _ => True

namespace View

variable {v v' : View} {o c : ObjId} {p q : Peer} {w : Waker} {f : KObject → KObject}

/-- The queue of the object, while it is that end of a port or session. -/
def queue (v : View) (c : ObjId) (p : Peer) : List Waker :=
  match v.object? c with
  | some x => if x.peer = p then x.wakers else []
  | none => []

/-- The threads queued in the end wait on nothing else, without a timeout, and each once. -/
structure Sole (v : View) (c : ObjId) (p : Peer) : Prop where
  alone : ∀ w ∈ v.queue c p, ∃ self, v.sleepers w.thread = some self ∧ self.wakeKey = w.key ∧
    self.state = .waiting ∧ self.waitObjects = [c] ∧ self.waitTimeout = none
  once : ((v.queue c p).map Waker.thread).Nodup

theorem queue_of_object? {x : KObject} (hx : v.object? c = some x) (hp : x.peer = p) :
    v.queue c p = x.wakers := by
  unfold queue
  rw [hx]
  exact if_pos hp

theorem queue_of_none (hx : v.object? c = none) : v.queue c p = [] := by
  unfold queue
  rw [hx]

theorem queue_of_peer_ne {x : KObject} (hx : v.object? c = some x) (hp : x.peer ≠ p) :
    v.queue c p = [] := by
  unfold queue
  rw [hx]
  exact if_neg hp

theorem mem_queue : w ∈ v.queue c p ↔ ∃ x, v.object? c = some x ∧ x.peer = p ∧ w ∈ x.wakers := by
  cases hx : v.object? c with
  | none =>
    rw [queue_of_none hx]
    simp
  | some x =>
    by_cases hp : x.peer = p
    · rw [queue_of_object? hx hp]
      simp [hp]
    · rw [queue_of_peer_ne hx hp]
      simp [hp]

theorem mem_wakers_of_queue (h : w ∈ v.queue c p) : w ∈ v.wakers c := by
  obtain ⟨x, hx, _, hw⟩ := mem_queue.mp h
  exact mem_wakers.mpr ⟨x, hx, hw⟩

theorem queue_congr (h : v'.object? c = v.object? c) : v'.queue c p = v.queue c p := by
  unfold queue
  rw [h]

/-! ### What becomes of the queue -/

/-- A change of another object, or of the object as another end. -/
theorem queue_modify (h : o = c → ∀ x, v.object? o = some x → x.peer ≠ p ∧ (f x).peer ≠ p) :
    (v.modify o f).queue c p = v.queue c p := by
  by_cases ho : o = c
  · subst ho
    cases hx : v.object? o with
    | none =>
      have hx' : (v.modify o f).object? o = none := by rw [object?_modify, if_pos rfl, hx]; rfl
      rw [queue_of_none hx, queue_of_none hx']
    | some x =>
      obtain ⟨hbefore, hafter⟩ := h rfl x hx
      have hx' : (v.modify o f).object? o = some (f x) := by
        rw [object?_modify, if_pos rfl, hx]
        rfl
      rw [queue_of_peer_ne hx hbefore, queue_of_peer_ne hx' hafter]
  · exact queue_congr (by rw [object?_modify, if_neg (Ne.symm ho)])

theorem queue_of_adds {ws : List Waker} (hf : v.Adds o q ws f) (h : ¬ (o = c ∧ q = p)) :
    (v.modify o f).queue c p = v.queue c p := by
  refine queue_modify fun ho x hx => ?_
  have hq : q ≠ p := fun hq => h ⟨ho, hq⟩
  obtain ⟨hbefore, hafter⟩ := hf.peer x hx
  rw [hbefore, hafter]
  exact ⟨hq, hq⟩

/-- A wake of a thread that is not in the queue. -/
theorem queue_wake {t : ThreadIndex} {self : Sleeper} (h : ∀ w ∈ v.queue c p, w.thread ≠ t) :
    (v.wake t self).queue c p = v.queue c p := by
  cases hx : v.object? c with
  | none =>
    have hx' : (v.wake t self).object? c = none := by
      rw [object?_wake, hx]
      split <;> rfl
    rw [queue_of_none hx, queue_of_none hx']
  | some x =>
    by_cases hc : c ∈ self.waitObjects
    · have hx' : (v.wake t self).object? c = some (x.removeWakers t) := by
        rw [object?_wake, if_pos hc, hx]
        rfl
      have hpeer := (KObject.plain_removeWakers t).peer x
      by_cases hp : x.peer = p
      · rw [queue_of_object? hx hp] at h ⊢
        rw [queue_of_object? hx' (hpeer.trans hp), KObject.wakers_removeWakers,
          List.filter_eq_self]
        exact fun w hw => decide_eq_true (h w hw)
      · rw [queue_of_peer_ne hx hp, queue_of_peer_ne hx' (by rw [hpeer]; exact hp)]
    · exact queue_congr (by rw [object?_wake, if_neg hc])

theorem queue_wakes {ws : List Waker}
    (h : ∀ w' ∈ v.queue c p, ∀ w ∈ ws, w'.thread ≠ w.thread) :
    (ws.foldl tryWake v).queue c p = v.queue c p ∧
      ∀ w' ∈ v.queue c p, (ws.foldl tryWake v).sleepers w'.thread = v.sleepers w'.thread := by
  induction ws generalizing v with
  | nil => exact ⟨rfl, fun _ _ => rfl⟩
  | cons w ws ih =>
    have hother : ∀ w' ∈ v.queue c p, w'.thread ≠ w.thread := fun w' hw' =>
      h w' hw' w List.mem_cons_self
    have hone : (v.tryWake w).queue c p = v.queue c p ∧
        ∀ w' ∈ v.queue c p, (v.tryWake w).sleepers w'.thread = v.sleepers w'.thread := by
      unfold tryWake
      split
      · split
        · exact ⟨queue_wake hother, fun w' hw' => Function.update_of_ne (hother w' hw') _ _⟩
        · exact ⟨rfl, fun _ _ => rfl⟩
      · exact ⟨rfl, fun _ _ => rfl⟩
    obtain ⟨hqueue, hsleepers⟩ := hone
    have hrest := @ih (v.tryWake w) fun w' hw' w'' hw'' =>
      h w' (hqueue ▸ hw') w'' (List.mem_cons_of_mem w hw'')
    rw [hqueue] at hrest
    exact ⟨hrest.1, fun w' hw' => (hrest.2 w' hw').trans (hsleepers w' hw')⟩

/-- New objects have empty queues. -/
theorem queue_append {data : List (Option KObject)} (hdata : ∀ x, some x ∈ data → x.wakers = []) :
    { v with objects := v.objects ++ data }.queue c p = v.queue c p := by
  cases hx : v.object? c with
  | some x => exact queue_congr (by rw [object?_append hx, hx])
  | none =>
    rw [queue_of_none hx, List.eq_nil_iff_forall_not_mem]
    intro w hw
    have hw' := mem_wakers_of_append hdata (mem_wakers_of_queue hw)
    obtain ⟨y, hy, _⟩ := mem_wakers.mp hw'
    rw [hx] at hy
    cases hy

/-! ### What one move does to it -/

section Spares

variable {P : ThreadIndex → Prop} {m : Move}

/-- A move that spares the end leaves the queue and the threads in it alone. -/
theorem Step.spares (h : Step v m v') (hm : m.Spares c p) (hP : ∀ w ∈ v.queue c p, P w.thread)
    (hl : v.LiveFor P) (hs : v.Sole c p) : v'.queue c p = v.queue c p ∧
      ∀ w ∈ v.queue c p, v'.sleepers w.thread = v.sleepers w.thread := by
  -- a thread of the queue that waits on `o` waits on the end itself
  have hend : ∀ w ∈ v.queue c p, ∀ o q ws f self, v.sleepers w.thread = some self →
      o ∈ self.waitObjects → v.Adds o q ws f → o = c ∧ q = p := by
    intro w hw o q ws f self hself ho hf
    obtain ⟨self', hself', _, _, hobjects, _⟩ := hs.alone w hw
    rw [hself] at hself'
    injection hself' with hself'
    rw [hself', hobjects] at ho
    have ho := List.mem_singleton.mp ho
    obtain ⟨x, hx, hp, _⟩ := mem_queue.mp hw
    exact ⟨ho, (hf.peer x (ho ▸ hx)).1.symm.trans hp⟩
  cases h with
  | @turn t self state hself hstate hn =>
    refine ⟨rfl, fun w hw => Function.update_of_ne (fun ht => hstate ?_) _ _⟩
    obtain ⟨self', hself', _, hwaiting, _⟩ := hs.alone w hw
    rw [ht, hself] at hself'
    injection hself' with hself'
    rw [hself', hwaiting]
  | born =>
    refine ⟨rfl, fun w hw => ?_⟩
    obtain ⟨self, hself, _⟩ := hs.alone w hw
    show (v.sleepers w.thread).or _ = _
    rw [hself]
    rfl
  | @make x hx hp =>
    refine ⟨queue_append fun y hy => ?_, fun _ _ => rfl⟩
    injection List.mem_singleton.mp hy with hy
    rw [hy]
    exact hx.wakers
  | @makePair server client hserver hclient hp =>
    refine ⟨queue_append fun y hy => ?_, fun _ _ => rfl⟩
    rcases List.mem_cons.mp hy with hy | hy
    · injection hy with hy
      rw [hy]
      exact hserver.wakers
    · injection List.mem_singleton.mp hy with hy
      rw [hy]
      exact hclient.wakers
  | @drop o hunused =>
    refine ⟨?_, fun _ _ => rfl⟩
    by_cases ho : o = c
    · subst ho
      have hnil : v.queue o p = [] := by
        rw [List.eq_nil_iff_forall_not_mem]
        intro w hw
        obtain ⟨self, hself, _, _, hobjects, _⟩ := hs.alone w hw
        exact hunused w.thread self hself (by rw [hobjects]; exact List.mem_cons_self)
      rw [hnil, List.eq_nil_iff_forall_not_mem]
      intro w hw
      obtain ⟨x, hx, _⟩ := mem_queue.mp hw
      exact (object?_of_drop hx).1 rfl
    · refine queue_congr ?_
      show (v.objects.set o none)[c]?.join = v.objects[c]?.join
      rw [List.getElem?_set_ne ho]
  | @suspend t self objects timeout waitType hself hrun =>
    refine ⟨rfl, fun w hw => Function.update_of_ne (fun ht => ?_) _ _⟩
    obtain ⟨self', hself', _, hwaiting, _⟩ := hs.alone w hw
    rw [ht, hself] at hself'
    injection hself' with hself'
    rw [hself', hwaiting] at hrun
    cases hrun
  | @expire t self hself hstate htimeout =>
    have hne : ∀ w ∈ v.queue c p, w.thread ≠ t := by
      intro w hw ht
      obtain ⟨self', hself', _, _, _, hnone⟩ := hs.alone w hw
      rw [ht, hself] at hself'
      injection hself' with hself'
      rw [hself', hnone] at htimeout
      exact htimeout rfl
    exact ⟨queue_wake hne, fun w hw => Function.update_of_ne (hne w hw) _ _⟩
  | change hf => exact ⟨queue_of_adds hf hm, fun _ _ => rfl⟩
  | enqueue _ _ _ _ hf => exact ⟨queue_of_adds hf hm, fun _ _ => rfl⟩
  | enqueueStale _ hf => exact ⟨queue_of_adds hf hm, fun _ _ => rfl⟩
  | @take o q w f self hself hk hstate ho hf =>
    have hqueue := queue_of_adds hf hm
    have hne : ∀ w' ∈ v.queue c p, w'.thread ≠ w.thread := fun w' hw' ht =>
      hm (hend w' hw' o q [] f self (ht ▸ hself) ho hf)
    refine ⟨?_, fun w' hw' => Function.update_of_ne (hne w' hw') _ _⟩
    rw [queue_wake (by rw [hqueue]; exact hne), hqueue]
  | @act o q ws f g hws hf hg =>
    have hqueue := queue_of_adds hf hm
    have hne : ∀ w' ∈ v.queue c p, ∀ w ∈ ws, w'.thread ≠ w.thread := by
      intro w' hw' w hw ht
      obtain ⟨self, hself, _, _, ho⟩ := hl o w (hws w hw) (ht ▸ hP w' hw')
      exact hm (hend w' hw' o q [] f self (ht ▸ hself) ho hf)
    obtain ⟨hwakes, hsleepers⟩ := @queue_wakes (v.modify o f) c p ws (by rw [hqueue]; exact hne)
    rw [hqueue] at hwakes hsleepers
    refine ⟨?_, hsleepers⟩
    rw [queue_modify, hwakes]
    intro ho x hx
    obtain ⟨y, hy, hloses⟩ := object?_of_wakes hx
    obtain ⟨z, hz, rfl⟩ := object?_of_modify hy
    rw [if_pos rfl] at hloses
    have hq : x.peer = q := hloses.peer.trans (hf.peer z hz).2
    rw [hg.peer, hq]
    exact ⟨fun hp => hm ⟨ho, hp⟩, fun hp => hm ⟨ho, hp⟩⟩

theorem Sole.frame (hs : v.Sole c p) (hqueue : v'.queue c p = v.queue c p)
    (hsleepers : ∀ w ∈ v.queue c p, v'.sleepers w.thread = v.sleepers w.thread) :
    v'.Sole c p := by
  refine ⟨fun w hw => ?_, ?_⟩
  · rw [hqueue] at hw
    rw [hsleepers w hw]
    exact hs.alone w hw
  · rw [hqueue]
    exact hs.once

end Spares

/-! ### The queue's own moves -/

theorem sole_push {x : KObject} {self : Sleeper} (hs : v.Sole c p) (hx : v.object? c = some x)
    (hp : x.peer = p) (hne : p ≠ .none) (hself : v.sleepers w.thread = some self)
    (hkey : self.wakeKey = w.key) (hstate : self.state = .waiting)
    (hobjects : self.waitObjects = [c]) (htimeout : self.waitTimeout = none)
    (hnew : w.thread ∉ (v.queue c p).map Waker.thread) :
    (v.modify c (KObject.pushWaker w)).queue c p = v.queue c p ++ [w] ∧
      (v.modify c (KObject.pushWaker w)).Sole c p := by
  have hx' : (v.modify c (KObject.pushWaker w)).object? c = some (x.pushWaker w) := by
    rw [object?_modify, if_pos rfl, hx]
    rfl
  have hqueue : (v.modify c (KObject.pushWaker w)).queue c p = v.queue c p ++ [w] := by
    rw [queue_of_object? hx' (((KObject.plain_pushWaker w).peer x).trans hp),
      queue_of_object? hx hp]
    exact KObject.wakers_pushWaker_of_peer w (hp ▸ hne)
  refine ⟨hqueue, fun w' hw' => ?_, ?_⟩
  · rw [hqueue] at hw'
    rcases List.mem_append.mp hw' with hw' | hw'
    · exact hs.alone w' hw'
    · rw [List.mem_singleton.mp hw']
      exact ⟨self, hself, hkey, hstate, hobjects, htimeout⟩
  · rw [hqueue, List.map_append]
    exact hs.once.append (List.nodup_singleton _) (by simpa using hnew)

/-- The first thread of the queue is woken and leaves it. -/
theorem sole_pop {rest : List Waker} {x : KObject} (self : Sleeper) (hs : v.Sole c p)
    (hx : v.object? c = some x) (hp : x.peer = p) (hne : p ≠ .none)
    (hqueue : v.queue c p = w :: rest) :
    ((v.modify c (KObject.setWakers rest)).wake w.thread self).queue c p = rest ∧
      ((v.modify c (KObject.setWakers rest)).wake w.thread self).Sole c p := by
  have honce := hs.once
  rw [hqueue, List.map_cons, List.nodup_cons] at honce
  obtain ⟨hnot, honce⟩ := honce
  have hothers : ∀ w' ∈ rest, w'.thread ≠ w.thread := fun w' hw' ht =>
    hnot (ht ▸ List.mem_map_of_mem hw')
  have hx' : (v.modify c (KObject.setWakers rest)).object? c = some (x.setWakers rest) := by
    rw [object?_modify, if_pos rfl, hx]
    rfl
  have hset : (v.modify c (KObject.setWakers rest)).queue c p = rest := by
    rw [queue_of_object? hx' (((KObject.plain_setWakers rest).peer x).trans hp)]
    exact KObject.wakers_setWakers_of_peer rest (hp ▸ hne)
  have hpopped : ((v.modify c (KObject.setWakers rest)).wake w.thread self).queue c p = rest := by
    rw [queue_wake (by rw [hset]; exact hothers), hset]
  refine ⟨hpopped, fun w' hw' => ?_, ?_⟩
  · rw [hpopped] at hw'
    have hsame : ((v.modify c (KObject.setWakers rest)).wake w.thread self).sleepers w'.thread =
        v.sleepers w'.thread := Function.update_of_ne (hothers w' hw') _ _
    rw [hsame]
    exact hs.alone w' (by rw [hqueue]; exact List.mem_cons_of_mem w hw')
  · rw [hpopped]
    exact honce

/-! ### What one move does to requests and sessions -/

theorem data_of_modify {ws : List Waker} {x y : KObject} (hf : v.Adds o q ws f)
    (hm : o = c ∧ q = p → KObject.KeepsData f) (hx : v.object? c = some x) (hp : x.peer = p)
    (hy : (v.modify o f).object? c = some y) :
    y.requests = x.requests ∧ y.sessions = x.sessions := by
  obtain ⟨z, hz, rfl⟩ := object?_of_modify hy
  rw [hx] at hz
  injection hz with hz
  subst hz
  by_cases ho : c = o
  · rw [if_pos ho]
    have hq : q = p := (hf.peer x (ho ▸ hx)).1.symm.trans hp
    exact hm ⟨ho.symm, hq⟩ x
  · rw [if_neg ho]
    exact ⟨rfl, rfl⟩

/-- The data of an object that wakes threads is what it is changed to. -/
theorem data_of_act {ws : List Waker} {x y : KObject} (h : Step v (.act o p ws f id) v')
    (hx : v.object? o = some x) (hy : v'.object? o = some y) :
    y.requests = (f x).requests ∧ y.sessions = (f x).sessions := by
  cases h with
  | act hws hf hg =>
    rw [modify_id] at hy
    obtain ⟨z, hz, hloses⟩ := object?_of_wakes hy
    obtain ⟨z', hz', rfl⟩ := object?_of_modify hz
    rw [hx] at hz'
    injection hz' with hz'
    rw [if_pos rfl, ← hz'] at hloses
    exact ⟨hloses.requests, hloses.sessions⟩

/-- An end whose data the move keeps has the same requests and sessions after it. -/
theorem Step.keepsData {m : Move} {x y : KObject} (h : Step v m v') (hm : m.KeepsData c p)
    (hx : v.object? c = some x) (hp : x.peer = p) (hy : v'.object? c = some y) :
    y.requests = x.requests ∧ y.sessions = x.sessions := by
  have hsame : ∀ {z}, v.object? c = some z → z.requests = x.requests ∧ z.sessions = x.sessions := by
    intro z hz
    rw [hx] at hz
    injection hz with hz
    rw [hz]
    exact ⟨rfl, rfl⟩
  cases h with
  | turn h hs hn => exact hsame hy
  | born => exact hsame hy
  | make hn hpeer =>
    rw [object?_append hx] at hy
    injection hy with hy
    rw [hy]
    exact ⟨rfl, rfl⟩
  | makePair hs hc hpeer =>
    rw [object?_append hx] at hy
    injection hy with hy
    rw [hy]
    exact ⟨rfl, rfl⟩
  | drop h => exact hsame (object?_of_drop hy).2
  | suspend h hs => exact hsame hy
  | expire h hs ht =>
    obtain ⟨z, hz, hloses⟩ := object?_of_wake hy
    rw [hloses.requests, hloses.sessions]
    exact hsame hz
  | change hf => exact data_of_modify hf (fun h => absurd h hm) hx hp hy
  | enqueue h hk hs ho hf => exact data_of_modify hf hm hx hp hy
  | enqueueStale h hf => exact data_of_modify hf hm hx hp hy
  | take h hk hs ho hf =>
    obtain ⟨z, hz, hloses⟩ := object?_of_wake hy
    rw [hloses.requests, hloses.sessions]
    exact data_of_modify hf (fun h => absurd h hm) hx hp hz
  | @act o q ws f g hws hf hg =>
    obtain ⟨z, hz, rfl⟩ := object?_of_modify hy
    obtain ⟨z', hz', hloses⟩ := object?_of_wakes hz
    have hne : c ≠ o := by
      intro ho
      subst ho
      exact hm ⟨rfl, (hf.peer x hx).1.symm.trans hp⟩
    rw [if_neg hne, hloses.requests, hloses.sessions]
    exact data_of_modify hf (fun h => absurd h hm) hx hp hz'

end View

end Pomelo
