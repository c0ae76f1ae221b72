/-
  A port or a session as a pair of ends.

  A client end queues the threads that wait for the server, and the server end queues what they
  ask of it: sessions in a port, requests in a session. `Linked` says what is queued in the one
  and in the other, for a pair whose client end is waited on by asking only. `Linked.quiet` is
  about all moves but those of the pair; of those `Linked.push`, `Linked.pop` and
  `Linked.serves` are about one queue each.
-/
import Pomelo.Hle.Queues

namespace Pomelo

open Lib Outcome

/-- The two ends, and what the server end queues. -/
structure EndPair (β : Type) where
  server : ObjId
  client : ObjId
  serverEnd : Peer
  clientEnd : Peer
  data : KObject → List β

namespace EndPair

variable {β : Type}

/-- The port whose server end is `o`. -/
def port (o : ObjId) : EndPair ObjId where
  server := o
  client := o + 1
  serverEnd := .ofServerPort (some (o + 1))
  clientEnd := .ofClientPort o
  data := KObject.sessions

/-- The session whose server end is `o`. -/
def session (o : ObjId) : EndPair ThreadIndex where
  server := o
  client := o + 1
  serverEnd := .ofServerSession (some (o + 1))
  clientEnd := .ofClientSession o
  data := KObject.requests

/-- What a pair of ends has in common with any other. -/
structure Lawful (e : EndPair β) : Prop where
  ne : e.server ≠ e.client
  server : e.serverEnd ≠ .none
  client : e.clientEnd ≠ .none
  new : ∀ x : KObject, x.New → e.data x = []
  keeps : ∀ x y : KObject, y.requests = x.requests → y.sessions = x.sessions →
    e.data y = e.data x
  other : ∀ x : KObject, x.peer.Adjacent e.server → x.peer ≠ e.serverEnd → e.data x = []

theorem lawful_port (o : ObjId) : (port o).Lawful where
  ne := (Nat.succ_ne_self o).symm
  server h := by cases h
  client h := by cases h
  new x h := h.sessions
  keeps x y _ h := h
  other x hadjacent hne := by
    refine KObject.sessions_of_peer fun client hp => hne ?_
    rw [hp] at hadjacent ⊢
    have hadjacent : client = some (o + 1) := hadjacent
    rw [hadjacent]
    rfl

theorem lawful_session (o : ObjId) : (session o).Lawful where
  ne := (Nat.succ_ne_self o).symm
  server h := by cases h
  client h := by cases h
  new x h := h.requests
  keeps x y h _ := h
  other x hadjacent hne := by
    refine KObject.requests_of_peer fun client hp => hne ?_
    rw [hp] at hadjacent ⊢
    have hadjacent : client = some (o + 1) := hadjacent
    rw [hadjacent]
    rfl

/-- A move that is none of the pair's own: no waker of these threads goes stale, the client end
    stays as it is, and the server end but for its queue. -/
structure Quiet (e : EndPair β) (P : ThreadIndex → Prop) (m : Move) : Prop where
  live : m.LiveFor P
  client : m.Spares e.client e.clientEnd
  server : m.KeepsData e.server e.serverEnd

/-- What is queued in the two ends: these threads in the client end, and this in the server
    end. -/
structure Linked (e : EndPair β) (P : ThreadIndex → Prop) (v : View) (waiting : List ThreadIndex)
    (queued : List β) : Prop where
  sound : v.Sound P
  ends : ∀ o x, v.object? o = some x → x.peer.Adjacent o
  sole : v.Sole e.client e.clientEnd
  covered : ∀ t ∈ waiting, P t
  waits : (v.queue e.client e.clientEnd).map Waker.thread = waiting
  queues : ∀ x, v.object? e.server = some x → e.data x = queued
  made : queued ≠ [] → e.server < v.objects.length

/-- What the server end queues. -/
structure Queued (e : EndPair β) (v : View) (queued : List β) : Prop where
  ends : ∀ o x, v.object? o = some x → x.peer.Adjacent o
  queues : ∀ x, v.object? e.server = some x → e.data x = queued
  made : queued ≠ [] → e.server < v.objects.length

section Linked

variable {e : EndPair β} {P : ThreadIndex → Prop} {v v' : View} {m : Move} {w : Waker}
  {waiting : List ThreadIndex} {queued queued' : List β}

theorem adjacent_of_step (h : ∀ o x, v.object? o = some x → x.peer.Adjacent o)
    (hstep : View.Step v m v') : ∀ o x, v'.object? o = some x → x.peer.Adjacent o := by
  intro o y hy
  rcases hstep.peer hy with ⟨x, hx, hp⟩ | ⟨_, _, hp⟩
  · rw [hp]
    exact h o x hx
  · exact hp

namespace Queued

theorem new : e.Queued Kernel.new.view [] :=
  ⟨(fun _ _ hx => by cases hx), (fun _ hx => by cases hx), fun h => absurd rfl h⟩

/-- What is queued then, after a move that may change it. -/
theorem serves (h : e.Queued v queued) (hstep : View.Step v m v')
    (hqueued : ∀ x, v'.object? e.server = some x → e.data x = queued')
    (hmade : queued' ≠ [] → e.server < v'.objects.length) : e.Queued v' queued' :=
  ⟨adjacent_of_step h.ends hstep, hqueued, hmade⟩

/-- A move that keeps what the server end queues. -/
theorem quiet (he : e.Lawful) (h : e.Queued v queued) (hstep : View.Step v m v')
    (hm : m.KeepsData e.server e.serverEnd) : e.Queued v' queued := by
  refine h.serves hstep (fun y hy => ?_) fun hne => Nat.lt_of_lt_of_le (h.made hne) hstep.length
  rcases hstep.peer hy with ⟨x, hx, hp⟩ | ⟨hnew, hempty, _⟩
  · have hbefore := h.queues x hx
    by_cases hend : x.peer = e.serverEnd
    · obtain ⟨hrequests, hsessions⟩ := hstep.keepsData hm hx hend hy
      rw [he.keeps x y hrequests hsessions, hbefore]
    · have hadjacent := h.ends _ x hx
      rw [he.other y (hp ▸ hadjacent) (hp ▸ hend), ← hbefore, he.other x hadjacent hend]
  · rw [he.new y hempty]
    by_contra hne
    exact absurd (h.made (Ne.symm hne)) (Nat.not_lt.mpr hnew)

theorem quiets (he : e.Lawful) (h : e.Queued v queued)
    (hmoves : Moves View.Step (Move.KeepsData e.server e.serverEnd) v v') :
    e.Queued v' queued := by
  refine hmoves.keeps (I := fun v => e.Queued v queued) ?_ h
  intro v m v' hv hm hstep
  exact hv.quiet he hstep hm

end Queued

theorem linked_new : e.Linked P Kernel.new.view [] [] := by
  have hnone : ∀ o, Kernel.new.view.object? o = none := fun o => rfl
  have hqueue : Kernel.new.view.queue e.client e.clientEnd = [] := View.queue_of_none (hnone _)
  refine ⟨sound_new P, fun o x hx => ?_, ⟨fun w hw => ?_, ?_⟩, fun t ht => ?_, ?_, fun x hx => ?_,
    fun h => absurd rfl h⟩
  · rw [hnone] at hx
    cases hx
  · rw [hqueue] at hw
    cases hw
  · rw [hqueue]
    exact List.nodup_nil
  · cases ht
  · rw [hqueue]
    rfl
  · rw [hnone] at hx
    cases hx

namespace Linked

theorem covers (h : e.Linked P v waiting queued) :
    ∀ w ∈ v.queue e.client e.clientEnd, P w.thread := by
  intro w hw
  exact h.covered _ (h.waits ▸ List.mem_map_of_mem hw)

/-- A move that leaves the client end alone, with what is then queued in the server end. -/
theorem serves (h : e.Linked P v waiting queued) (hstep : View.Step v m v') (hlive : m.LiveFor P)
    (hspares : m.Spares e.client e.clientEnd)
    (hqueued : ∀ x, v'.object? e.server = some x → e.data x = queued')
    (hmade : queued' ≠ [] → e.server < v'.objects.length) : e.Linked P v' waiting queued' := by
  obtain ⟨hqueue, hsleepers⟩ := hstep.spares hspares h.covers h.sound.live h.sole
  exact ⟨h.sound.step hlive hstep, adjacent_of_step h.ends hstep, h.sole.frame hqueue hsleepers,
    h.covered, by rw [hqueue, h.waits], hqueued, hmade⟩

/-- A move that leaves the client end alone wakes none of the threads there. -/
theorem sleepers (h : e.Linked P v waiting queued) (hstep : View.Step v m v')
    (hspares : m.Spares e.client e.clientEnd) : ∀ t ∈ waiting, v'.sleepers t = v.sleepers t := by
  intro t ht
  rw [← h.waits] at ht
  obtain ⟨w, hw, rfl⟩ := List.mem_map.mp ht
  exact (hstep.spares hspares h.covers h.sound.live h.sole).2 w hw

/-- A thread that runs is not at the client end. -/
theorem not_mem_of_running {t : ThreadIndex} {self : Sleeper} (h : e.Linked P v waiting queued)
    (hself : v.sleepers t = some self) (hrun : self.state = .running) : t ∉ waiting := by
  intro ht
  rw [← h.waits] at ht
  obtain ⟨w, hw, rfl⟩ := List.mem_map.mp ht
  obtain ⟨self', hself', _, hwaiting, _⟩ := h.sole.alone w hw
  rw [hself] at hself'
  injection hself' with hself'
  rw [hself', hwaiting] at hrun
  cases hrun

theorem atServer (h : e.Linked P v waiting queued) : e.Queued v queued := ⟨h.ends, h.queues, h.made⟩

/-- What the server end queues after a move that keeps it. -/
theorem queued_of_keepsData (he : e.Lawful) (h : e.Linked P v waiting queued)
    (hstep : View.Step v m v') (hm : m.KeepsData e.server e.serverEnd) :
    ∀ x, v'.object? e.server = some x → e.data x = queued :=
  (h.atServer.quiet he hstep hm).queues

theorem quiet (he : e.Lawful) (h : e.Linked P v waiting queued) (hstep : View.Step v m v')
    (hm : e.Quiet P m) : e.Linked P v' waiting queued :=
  h.serves hstep hm.live hm.client (h.queued_of_keepsData he hstep hm.server) fun hne =>
    Nat.lt_of_lt_of_le (h.made hne) hstep.length

theorem quiets (he : e.Lawful) (h : e.Linked P v waiting queued)
    (hmoves : Moves View.Step (e.Quiet P) v v') : e.Linked P v' waiting queued := by
  refine hmoves.keeps (I := fun v => e.Linked P v waiting queued) ?_ h
  intro v m v' hv hm hstep
  exact hv.quiet he hstep hm

/-- No thread at the client end is woken on the way. -/
theorem quiets_sleepers (he : e.Lawful) (h : e.Linked P v waiting queued)
    (hmoves : Moves View.Step (e.Quiet P) v v') : ∀ t ∈ waiting, v'.sleepers t = v.sleepers t := by
  have hkept : e.Linked P v' waiting queued ∧ ∀ t ∈ waiting, v'.sleepers t = v.sleepers t := by
    refine hmoves.keeps (I := fun v' => e.Linked P v' waiting queued ∧
      ∀ t ∈ waiting, v'.sleepers t = v.sleepers t) ?_ ⟨h, fun _ _ => rfl⟩
    rintro v1 m v2 ⟨hv1, hsame⟩ hm hstep
    refine ⟨hv1.quiet he hstep hm, fun t ht => ?_⟩
    rw [hv1.sleepers hstep hm.client t ht, hsame t ht]
  exact hkept.2

/-- A thread that waits at the client end is put into its queue. -/
theorem push (he : e.Lawful) {x : KObject} {self : Sleeper} (h : e.Linked P v waiting queued)
    (hx : v.object? e.client = some x) (hp : x.peer = e.clientEnd)
    (hself : v.sleepers w.thread = some self) (hkey : self.wakeKey = w.key)
    (hstate : self.state = .waiting) (hobjects : self.waitObjects = [e.client])
    (htimeout : self.waitTimeout = none) (hnew : w.thread ∉ waiting) (hP : P w.thread) :
    e.Linked P (v.modify e.client (KObject.pushWaker w)) (waiting ++ [w.thread]) queued := by
  have ho : e.client ∈ self.waitObjects := by
    rw [hobjects]
    exact List.mem_cons_self
  have hstep : View.Step v (.enqueue e.client e.clientEnd w (KObject.pushWaker w))
      (v.modify e.client (KObject.pushWaker w)) :=
    .enqueue hself hkey hstate ho (hp ▸ View.adds_pushWaker w hx)
  obtain ⟨hqueue, hsole⟩ := View.sole_push h.sole hx hp he.client hself hkey hstate hobjects
    htimeout (by rw [h.waits]; exact hnew)
  have hlive : (Move.enqueue e.client e.clientEnd w (KObject.pushWaker w)).LiveFor P := trivial
  have hkeeps : (Move.enqueue e.client e.clientEnd w (KObject.pushWaker w)).KeepsData e.server
      e.serverEnd := fun ⟨heq, _⟩ => absurd heq.symm he.ne
  refine ⟨h.sound.step hlive hstep, adjacent_of_step h.ends hstep, hsole, ?_, ?_,
    h.queued_of_keepsData he hstep hkeeps, fun hne => ?_⟩
  · intro t ht
    rcases List.mem_append.mp ht with ht | ht
    · exact h.covered t ht
    · rw [List.mem_singleton.mp ht]
      exact hP
  · rw [hqueue, List.map_append, h.waits]
    rfl
  · exact Nat.lt_of_lt_of_le (h.made hne) hstep.length

/-- The first thread in the queue of the client end is woken. -/
theorem pop (he : e.Lawful) {x : KObject} {rest : List Waker} (h : e.Linked P v waiting queued)
    (hx : v.object? e.client = some x) (hp : x.peer = e.clientEnd) (hw : x.wakers = w :: rest) :
    ∃ self, v.sleepers w.thread = some self ∧ self.wakeKey = w.key ∧
      (v.modify e.client (KObject.setWakers rest)).tryWake w =
        (v.modify e.client (KObject.setWakers rest)).wake w.thread self ∧
      waiting = w.thread :: rest.map Waker.thread ∧
      e.Linked P ((v.modify e.client (KObject.setWakers rest)).tryWake w)
        (rest.map Waker.thread) queued := by
  have hqueue : v.queue e.client e.clientEnd = w :: rest := by
    rw [View.queue_of_object? hx hp, hw]
  have hmem : w ∈ v.queue e.client e.clientEnd := by
    rw [hqueue]
    exact List.mem_cons_self
  obtain ⟨self, hself, hkey, _⟩ := h.sole.alone w hmem
  have hwaiting : waiting = w.thread :: rest.map Waker.thread := by
    rw [← h.waits, hqueue]
    rfl
  have hwake : (v.modify e.client (KObject.setWakers rest)).tryWake w =
      (v.modify e.client (KObject.setWakers rest)).wake w.thread self := by
    unfold View.tryWake
    rw [show (v.modify e.client (KObject.setWakers rest)).sleepers w.thread = some self from hself]
    exact if_pos hkey
  have hadds : v.Adds e.client e.clientEnd [] (KObject.setWakers rest) := by
    rw [← hp]
    refine View.adds_of hx (KObject.plain_setWakers rest).peer fun w' hw' => Or.inl ?_
    rw [KObject.wakers_setWakers_of_peer rest (hp ▸ he.client)] at hw'
    rw [hw]
    exact List.mem_cons_of_mem w hw'
  have hstep : View.Step v (.act e.client e.clientEnd [w] (KObject.setWakers rest) id)
      ((v.modify e.client (KObject.setWakers rest)).tryWake w) := by
    have hact := View.Step.act (fun w' hw' => by
      rw [List.mem_singleton.mp hw']
      exact View.mem_wakers_of_queue hmem) hadds keeps_id
    rw [View.modify_id] at hact
    exact hact
  obtain ⟨hpopped, hsole⟩ := View.sole_pop self h.sole hx hp he.client hqueue
  have hlive : (Move.act e.client e.clientEnd [w] (KObject.setWakers rest) id).LiveFor P := trivial
  have hkeeps : (Move.act e.client e.clientEnd [w] (KObject.setWakers rest) id).KeepsData e.server
      e.serverEnd := fun ⟨heq, _⟩ => absurd heq.symm he.ne
  refine ⟨self, hself, hkey, hwake, hwaiting, h.sound.step hlive hstep,
    adjacent_of_step h.ends hstep, hwake ▸ hsole, fun t ht => ?_, ?_,
    h.queued_of_keepsData he hstep hkeeps, fun hne => ?_⟩
  · exact h.covered t (hwaiting ▸ List.mem_cons_of_mem _ ht)
  · rw [hwake, hpopped]
  · exact Nat.lt_of_lt_of_le (h.made hne) hstep.length

end Linked

/-! ### The moves of other steps -/

theorem common_keepsData (he : e.Lawful) : Common (Move.KeepsData e.server e.serverEnd) := by
  have hserver : ∀ o, ¬ (o = e.server ∧ Peer.none = e.serverEnd) := fun o h => he.server h.2.symm
  exact {
    turn := fun _ _ => trivial
    born := fun _ => trivial
    make := fun _ => trivial
    makePair := fun _ _ => trivial
    drop := fun _ => trivial
    suspend := fun _ _ _ _ => trivial
    expire := fun _ => trivial
    change := fun o _ => hserver o
    enqueue := fun o _ _ h => absurd h (hserver o)
    take := fun o _ _ => hserver o
    act := fun o _ _ _ => hserver o }

theorem common_quiet (he : e.Lawful) (P : ThreadIndex → Prop) : Common (e.Quiet P) := by
  have hclient : ∀ o, ¬ (o = e.client ∧ Peer.none = e.clientEnd) := fun o h => he.client h.2.symm
  have hserver : ∀ o, ¬ (o = e.server ∧ Peer.none = e.serverEnd) := fun o h => he.server h.2.symm
  exact {
    turn := fun _ _ => ⟨trivial, trivial, trivial⟩
    born := fun _ => ⟨trivial, trivial, trivial⟩
    make := fun _ => ⟨trivial, trivial, trivial⟩
    makePair := fun _ _ => ⟨trivial, trivial, trivial⟩
    drop := fun _ => ⟨trivial, trivial, trivial⟩
    suspend := fun _ _ _ _ => ⟨trivial, trivial, trivial⟩
    expire := fun _ => ⟨trivial, trivial, trivial⟩
    change := fun o _ => ⟨trivial, hclient o, hserver o⟩
    enqueue := fun o _ _ => ⟨trivial, hclient o, fun h => absurd h (hserver o)⟩
    take := fun o _ _ => ⟨trivial, hclient o, hserver o⟩
    act := fun o _ _ _ => ⟨trivial, hclient o, hserver o⟩ }

theorem touches_quiet {o : ObjId} {p : Peer} (hclient : ¬ (o = e.client ∧ p = e.clientEnd))
    (hserver : ¬ (o = e.server ∧ p = e.serverEnd)) : Touches (e.Quiet P) o p :=
  ⟨fun _ => ⟨trivial, hclient, hserver⟩, fun _ _ _ => ⟨trivial, hclient, hserver⟩⟩

theorem keepsData_pushWaker (w : Waker) : KObject.KeepsData (KObject.pushWaker w) := fun x =>
  ⟨(KObject.plain_pushWaker w).requests x, (KObject.plain_pushWaker w).sessions x⟩

theorem enqueue_quiet {o : ObjId} {p : Peer} (h : ¬ (o = e.client ∧ p = e.clientEnd)) :
    e.Quiet P (.enqueue o p w (KObject.pushWaker w)) :=
  ⟨trivial, h, fun _ => keepsData_pushWaker w⟩

/-- A wait on other objects than the client end. -/
theorem mayWait_quiet {k : Kernel} {objects : List ObjId} {stale : Prop}
    (h : e.client ∉ objects) (hstale : stale → ∀ w, k.OwnWaker w → ¬ P w.thread) :
    MayWait (e.Quiet P) k objects stale := by
  have hne : ∀ o ∈ objects, ∀ p, ¬ (o = e.client ∧ p = e.clientEnd) := fun o ho p hp =>
    h (hp.1 ▸ ho)
  exact ⟨fun o ho p w _ => enqueue_quiet (hne o ho p), fun hs o ho p w hw =>
    ⟨hstale hs w hw, hne o ho p, fun _ => keepsData_pushWaker w⟩⟩

end Linked

end EndPair

/-! ## Ends of the kernel -/

/-- In every run the ends of ports and sessions have adjacent places. -/
theorem ends_of_step {rng : Nat → UInt32} {k k' : Kernel} {l : SvcStep}
    (h : k.view.Tidy ∧ ∀ o x, k.view.object? o = some x → x.peer.Adjacent o)
    (hstep : (svcSystem rng).step k l k') :
    k'.view.Tidy ∧ ∀ o x, k'.view.object? o = some x → x.peer.Adjacent o :=
  kept_of_step (I := fun v => ∀ o x, v.object? o = some x → x.peer.Adjacent o)
    (fun _ _ _ _ hv hs => EndPair.adjacent_of_step hv hs) h hstep

end Pomelo
