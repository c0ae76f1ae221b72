/-
  Replies of a session.

  A thread that sends a request waits at the client end of its session until a server thread
  replies at the server end. A request puts its thread behind the others in both ends, and a reply
  takes the first out of both. So the threads at the client end are those of the requests in every
  run in which these threads leave no stale wakers behind, whatever the servers leave
  (`sessionReplies`).
-/
import Pomelo.Hle.EndPair

namespace Pomelo

open Lib Outcome

namespace Kernel

/-- The thread that runs is one of these. -/
def RunsOneOf (P : ThreadIndex → Prop) (k : Kernel) : Prop :=
  ∃ pid t, k.current = some (pid, t) ∧ P t

/-- The two are ends of one session. -/
def SessionPair (k : Kernel) (ss cs : ObjId) : Prop :=
  ∃ server client, k.object? ss = some (.serverSession server) ∧ server.client = some cs ∧
    k.object? cs = some (.clientSession client) ∧ client.server = ss

end Kernel

/-- The step sends a request at the client end `cs`. -/
def SvcStep.Asks (k : Kernel) (cs : ObjId) (l : SvcStep) : Prop :=
  ∃ handle session, l = .call (.sendSyncRequest handle) ∧
    k.lookupObject handle = .ret (some (cs, .clientSession session))

/-- The step replies at the server end `ss`. -/
def SvcStep.Replies (k : Kernel) (ss : ObjId) (l : SvcStep) : Prop :=
  ∃ time handles replyTarget session, l = .call (.replyAndReceivePre time handles replyTarget) ∧
    k.lookupObject replyTarget = .ret (some (ss, .serverSession session))

/-- No step waits on the client end `cs` but to send a request. This the clients do, who leave no
    stale wakers in their waits. -/
def SvcStep.KeepsRoles (rng : Nat → UInt32) (clients : ThreadIndex → Prop) (cs : ObjId)
    (k : Kernel) : SvcStep → Prop
  | call (.waitSync1 _ handle _) => ∀ o x, k.lookupObject handle = .ret (some (o, x)) → o ≠ cs
  | call (.waitSyncN _ handles _ _) => ∀ objects, k.waitedObjects handles = .ret objects →
    cs ∉ objects ∧ (k.WaitsStaleFree objects ∨ ¬ k.RunsOneOf clients)
  | call (.replyAndReceivePre _ handles replyTarget) =>
    ∀ fuel k1, k.replyTo rng fuel replyTarget = .ret (.ok (), k1) →
      ∀ objects, k1.waitedObjects handles = .ret objects →
        cs ∉ objects ∧ (k1.WaitsStaleFree objects ∨ ¬ k.RunsOneOf clients)
  | call (.sendSyncRequest handle) =>
    ∀ session, k.lookupObject handle = .ret (some (cs, .clientSession session)) →
      k.RunsOneOf clients
  | _ => True

namespace Kernel

/-- The threads that wait at the client end are those of the requests at the server end, in one
    order and each once; they wait under live wakers. -/
structure Lockstep (k : Kernel) (ss cs : ObjId) : Prop where
  order : (k.wakers cs).map Waker.thread = k.view.requests ss
  once : (k.view.requests ss).Nodup
  waiting : ∀ w ∈ k.wakers cs, ∃ thread, k.thread? w.thread = some thread ∧
    thread.state = .waiting ∧ thread.wakeKey = w.key

/-- The reply goes into the message slot of the thread of the first request, and wakes this
    thread; all others are as before. -/
def ReachesFirst (rng : Nat → UInt32) (fuel : Nat) (ss : ObjId) (server : ThreadIndex)
    (requests : List ThreadIndex) (k k' : Kernel) : Prop :=
  ∃ client rest k1 thread resume, requests = client :: rest ∧
    (k.modifyObject ss (KObject.setRequests rest)).translateIpc rng fuel server client true =
      .ret k1 ∧
    k1.thread? client = some thread ∧ k'.thread? client = some (thread.woken resume) ∧
    ∀ t, t ≠ client → k'.thread? t = k.thread? t

/-- Every reply reaches the thread of the first request. -/
def RepliesReach (rng : Nat → UInt32) (ss : ObjId) (k : Kernel) : Prop :=
  ∀ fuel server session k', k.object? ss = some (.serverSession session) →
    session.reply rng fuel ss server k = .ret k' →
    ReachesFirst rng fuel ss server session.requestQueue k k'

/-- A step that wakes a thread that waits for a reply is a reply to the first request, which is of
    this thread. -/
def WakesByReply (rng : Nat → UInt32) (clients : ThreadIndex → Prop) (ss cs : ObjId)
    (k : Kernel) : Prop :=
  ∀ l k' t, (svcSystem rng).step k l k' → l.KeepsRoles rng clients cs k →
    t ∈ k.view.requests ss → k'.sleepers t ≠ k.sleepers t →
    l.Replies k ss ∧ (k.view.requests ss).head? = some t

/-- No wake at the client end fails. -/
def NoFailedReply (rng : Nat → UInt32) (clients : ThreadIndex → Prop) (cs : ObjId)
    (k : Kernel) : Prop :=
  ∀ (l : SvcStep) (fuel : Nat), l.enabled k = true → l.KeepsRoles rng clients cs k →
    l.exec rng fuel k ≠ .panic (.wake cs)

end Kernel

/-! ## Steps that are not the session's own -/

section Other

variable {rng : Nat → UInt32} {fuel : Nat} {k k' : Kernel} {l : SvcStep} {ss : ObjId}
  {clients : ThreadIndex → Prop}

theorem mayWaitEach_of_apart {k1 : Kernel} {objects : List ObjId} (hcurrent : k1.current = k.current)
    (h : ss + 1 ∉ objects ∧ (k1.WaitsStaleFree objects ∨ ¬ k.RunsOneOf clients)) :
    MayWait ((EndPair.session ss).Quiet clients) k1 objects (¬ k.RunsOneOf clients) ∧
      (k1.WaitsStaleFree objects ∨ ¬ k.RunsOneOf clients) := by
  refine ⟨EndPair.mayWait_quiet h.1 fun hstale w hw hclient => hstale ?_, h.2⟩
  obtain ⟨pid, hpid⟩ := hw
  exact ⟨pid, w.thread, hcurrent ▸ hpid, hclient⟩

theorem reply_current {self : ServerSessionHLE} {s : ObjId} {t : ThreadIndex}
    (h : self.reply rng fuel s t k = .ret k') : k'.current = k.current := by
  unfold ServerSessionHLE.reply at h
  split at h
  · cases h
  · obtain ⟨k1, htranslate, h⟩ := bind_eq_ret.mp h
    obtain ⟨⟨client, data⟩, _, h⟩ := bind_eq_ret.mp h
    have hmessage := Kernel.translateIpc_current (mapPanic_eq_ret.mp htranslate)
    exact (wakeFront_current h).trans hmessage

theorem replyTo_current {replyTarget : Option Handle} {r : KResult Unit}
    (h : k.replyTo rng fuel replyTarget = .ret (r, k')) : k'.current = k.current := by
  rcases replyTo_cases h with rfl | ⟨pid, server, o, session, _, _, _, hreply⟩
  · rfl
  · exact reply_current hreply

/-- What the waits of a step need. -/
def SvcStep.MayWaits (allowed : Move → Prop) (rng : Nat → UInt32) (stale : Prop) (k : Kernel) :
    SvcStep → Prop
  | call (.waitSync1 _ handle _) => ∀ o x, k.lookupObject handle = .ret (some (o, x)) →
    MayWait allowed k [o] False
  | call (.waitSyncN _ handles _ _) => MayWaitEach allowed k handles stale
  | call (.replyAndReceivePre _ handles replyTarget) =>
    ∀ fuel k1, k.replyTo rng fuel replyTarget = .ret (.ok (), k1) →
      MayWaitEach allowed k1 handles stale
  | _ => True

/-- A step that neither asks nor replies needs no moves of the session's ends but in waits. -/
theorem may_of_apart {allowed : Move → Prop} {stale : Prop}
    (hends : ∀ o x, k.view.object? o = some x → x.peer.Adjacent o)
    (hasks : ¬ l.Asks k (ss + 1)) (hreplies : ¬ l.Replies k ss)
    (htouch : ∀ o p, ¬ (o = ss + 1 ∧ p = .ofClientSession ss) →
      ¬ (o = ss ∧ p = .ofServerSession (some (ss + 1))) → Touches allowed o p)
    (henqueue : ∀ o p w, ¬ (o = ss + 1 ∧ p = .ofClientSession ss) →
      allowed (.enqueue o p w (KObject.pushWaker w)))
    (hwaits : l.MayWaits allowed rng stale k) : l.May allowed rng stale k := by
  have hclient : ∀ {o : ObjId} {p : Peer}, (∀ server, p ≠ .ofClientSession server) →
      ¬ (o = ss + 1 ∧ p = .ofClientSession ss) := fun hp h => hp _ h.2
  have hserver : ∀ {o : ObjId} {p : Peer}, (∀ client, p ≠ .ofServerSession client) →
      ¬ (o = ss ∧ p = .ofServerSession (some (ss + 1))) := fun hp h => hp _ h.2
  cases l with
  | call c =>
    cases c with
    | waitSync1 time handle timeout => exact hwaits
    | waitSyncN time handles waitAll timeout => exact hwaits
    | replyAndReceivePre time handles replyTarget =>
      refine ⟨fun s self hfound => ?_, hwaits⟩
      have hs : s ≠ ss := fun hs => hreplies ⟨time, handles, replyTarget, self, rfl, hs ▸ hfound⟩
      have hadjacent : self.client = some (s + 1) := hends s _ (lookupObject_eq_ret hfound)
      refine ⟨htouch _ _ (hclient fun _ h => by cases h) fun h => hs h.1, fun c server hc => ?_⟩
      rw [hadjacent] at hc
      injection hc with hc
      refine htouch _ _ (fun h => hs ?_) (hserver fun _ h => by cases h)
      exact Nat.succ.inj (hc.trans h.1)
    | sendSyncRequest handle =>
      intro c self hfound
      have hc : c ≠ ss + 1 := fun hc => hasks ⟨handle, self, rfl, hc ▸ hfound⟩
      have hadjacent : c = self.server + 1 := hends c _ (lookupObject_eq_ret hfound)
      have hs : self.server ≠ ss := fun hs => hc (hs ▸ hadjacent)
      exact ⟨fun w _ => henqueue _ _ _ fun h => hc h.1, fun client =>
        htouch _ _ (hclient fun _ h => by cases h) fun h => hs h.1⟩
    | createSessionToPort handle =>
      exact fun c self _ => ⟨fun w => henqueue _ _ _ (hclient fun _ h => by cases h), fun client =>
        htouch _ _ (hclient fun _ h => by cases h) (hserver fun _ h => by cases h)⟩
    | acceptSession handle =>
      intro s self _
      exact ⟨fun w => henqueue _ _ _ (hclient fun _ h => by cases h),
        htouch _ _ (hclient fun _ h => by cases h) (hserver fun _ h => by cases h),
        fun c server _ => htouch _ _ (hclient fun _ h => by cases h)
          (hserver fun _ h => by cases h)⟩
    | _ => trivial
  | _ => trivial

/-- A step that neither asks nor replies is made of moves that leave the session alone. -/
theorem may_of_keepsRoles (hends : ∀ o x, k.view.object? o = some x → x.peer.Adjacent o)
    (hroles : l.KeepsRoles rng clients (ss + 1) k) (hasks : ¬ l.Asks k (ss + 1))
    (hreplies : ¬ l.Replies k ss) :
    l.May ((EndPair.session ss).Quiet clients) rng (¬ k.RunsOneOf clients) k := by
  refine may_of_apart hends hasks hreplies (fun o p hclient hserver =>
    EndPair.touches_quiet hclient hserver) (fun o p w hclient => EndPair.enqueue_quiet hclient) ?_
  cases l with
  | call c =>
    cases c with
    | waitSync1 time handle timeout =>
      exact fun o x hfound => EndPair.mayWait_quiet
        (fun hmem => hroles o x hfound (List.mem_singleton.mp hmem).symm) fun hf => hf.elim
    | waitSyncN time handles waitAll timeout =>
      exact fun objects ho => mayWaitEach_of_apart rfl (hroles objects ho)
    | replyAndReceivePre time handles replyTarget =>
      exact fun fuel k1 hk1 objects ho =>
        mayWaitEach_of_apart (replyTo_current hk1) (hroles fuel k1 hk1 objects ho)
    | _ => trivial
  | _ => trivial

/-- Waits keep what is queued at the server end. -/
theorem mayWait_keepsData {k1 : Kernel} {objects : List ObjId} {stale : Prop} :
    MayWait (Move.KeepsData ss (.ofServerSession (some (ss + 1)))) k1 objects stale :=
  ⟨fun _ _ _ w _ _ => EndPair.keepsData_pushWaker w,
    fun _ _ _ _ w _ _ => EndPair.keepsData_pushWaker w⟩

theorem touches_keepsData {o : ObjId} {p : Peer}
    (h : ¬ (o = ss ∧ p = .ofServerSession (some (ss + 1)))) :
    Touches (Move.KeepsData ss (.ofServerSession (some (ss + 1)))) o p :=
  ⟨fun _ => h, fun _ _ _ => h⟩

/-- A step that neither asks nor replies keeps the requests. -/
theorem may_keepsData (hends : ∀ o x, k.view.object? o = some x → x.peer.Adjacent o)
    (hasks : ¬ l.Asks k (ss + 1)) (hreplies : ¬ l.Replies k ss) :
    l.May (Move.KeepsData ss (.ofServerSession (some (ss + 1)))) rng True k := by
  refine may_of_apart hends hasks hreplies (fun o p _ hserver => touches_keepsData hserver)
    (fun o p w _ _ => EndPair.keepsData_pushWaker w) ?_
  cases l with
  | call c =>
    cases c with
    | waitSync1 time handle timeout => exact fun _ _ _ => mayWait_keepsData
    | waitSyncN time handles waitAll timeout =>
      exact fun _ _ => ⟨mayWait_keepsData, Or.inr trivial⟩
    | replyAndReceivePre time handles replyTarget =>
      exact fun _ _ _ _ _ => ⟨mayWait_keepsData, Or.inr trivial⟩
    | _ => trivial
  | _ => trivial

end Other

/-! ## Asking and replying -/

section Own

variable {rng : Nat → UInt32} {fuel : Nat} {k k' : Kernel} {ss : ObjId}
  {clients : ThreadIndex → Prop} {waiting : List ThreadIndex}

/-- The threads that wait at the client end are those whose requests are queued at the server
    end. -/
abbrev Awaiting (clients : ThreadIndex → Prop) (ss : ObjId) (v : View)
    (waiting : List ThreadIndex) : Prop :=
  (EndPair.session ss).Linked clients v waiting waiting

/-- A request is queued behind the others. -/
theorem queued_enqueue {server : ServerSessionHLE} {t : ThreadIndex} {queued : List ThreadIndex}
    (h : (EndPair.session ss).Queued k.view queued)
    (hx : k.object? ss = some (.serverSession server))
    (hret : server.enqueueSyncRequest ss t k = .ret k') :
    (EndPair.session ss).Queued k'.view (queued ++ [t]) := by
  have hv : k.view.object? ss = some (.serverSession server) := hx
  obtain ⟨ws, g, hact, hdata⟩ := wakeFront_step hx (fun y => by cases y <;> rfl)
    (KObject.wakers_setRequests _) hret
  have hrequests : server.requestQueue = queued := h.queues _ hv
  refine h.serves hact (fun y hy => ?_) fun _ => ?_
  · show y.requests = _
    rw [(View.data_of_act hact hv hy).1, (hdata _).1, ← hrequests]
    rfl
  · exact Nat.lt_of_lt_of_le (View.lt_length hv) hact.length

/-- The first request leaves the queue. -/
theorem queued_pop {session : ServerSessionHLE} {client : ThreadIndex} {rest : List ThreadIndex}
    (h : (EndPair.session ss).Queued k.view (client :: rest))
    (hx : k.object? ss = some (.serverSession session)) :
    View.Step k.view (.change ss (.ofServerSession session.client) (KObject.setRequests rest))
        (k.modifyObject ss (KObject.setRequests rest)).view ∧
      (EndPair.session ss).Queued (k.modifyObject ss (KObject.setRequests rest)).view rest := by
  have hv : k.view.object? ss = some (.serverSession session) := hx
  have hpop : View.Step k.view
      (.change ss (.ofServerSession session.client) (KObject.setRequests rest))
      (k.modifyObject ss (KObject.setRequests rest)).view :=
    .change (View.adds_of_wakers [] hv (fun y => by cases y <;> rfl)
      (KObject.wakers_setRequests rest))
  refine ⟨hpop, h.serves hpop (fun y hy => ?_) fun _ => ?_⟩
  · have hy : (k.view.modify ss (KObject.setRequests rest)).object? ss = some y := hy
    obtain ⟨z, hz, rfl⟩ := View.object?_of_modify hy
    rw [hv] at hz
    injection hz with hz
    rw [if_pos rfl, ← hz]
    rfl
  · exact Nat.lt_of_lt_of_le (View.lt_length hv) hpop.length

/-- A request is queued at the server end, and wakes no thread at the client end. -/
theorem linked_enqueue {server : ServerSessionHLE} {t : ThreadIndex} {queued : List ThreadIndex}
    (h : (EndPair.session ss).Linked clients k.view waiting queued)
    (hx : k.object? ss = some (.serverSession server))
    (hret : server.enqueueSyncRequest ss t k = .ret k') :
    (EndPair.session ss).Linked clients k'.view waiting (queued ++ [t]) ∧
      ∀ t' ∈ waiting, k'.sleepers t' = k.sleepers t' := by
  have hne : ss ≠ ss + 1 := (EndPair.lawful_session ss).ne
  obtain ⟨ws, g, hact, _⟩ := wakeFront_step hx (fun y => by cases y <;> rfl)
    (KObject.wakers_setRequests _) hret
  have hspares : (Move.act ss (KObject.serverSession server).peer ws g id).Spares (ss + 1)
      (.ofClientSession ss) := fun heq => absurd heq.1 hne
  have hnext := queued_enqueue h.atServer hx hret
  exact ⟨h.serves hact trivial hspares hnext.queues hnext.made, h.sleepers hact hspares⟩

/-- A thread that sends a request waits behind those that did before, and its request is queued
    behind theirs. -/
theorem awaiting_ask {handle : Option Handle} {session : ClientSessionHLE}
    {r : KResult (Option Reschedule)} (h : Awaiting clients ss k.view waiting)
    (hclient : k.RunsOneOf clients)
    (hfound : k.lookupObject handle = .ret (some (ss + 1, .clientSession session)))
    (hret : k.sendSyncRequest handle = .ret (r, k')) :
    ∃ t, Awaiting clients ss k'.view (waiting ++ [t]) ∧
      ∀ t' ∈ waiting, k'.sleepers t' = k.sleepers t' := by
  have he := EndPair.lawful_session ss
  have hne : ss ≠ ss + 1 := he.ne
  have hx : k.view.object? (ss + 1) = some (.clientSession session) := lookupObject_eq_ret hfound
  have hserver : session.server = ss := (Nat.succ.inj (h.ends _ _ hx)).symm
  obtain ⟨w, k1, server, hsuspend, hs1, henqueue⟩ := sendSyncRequest_of_found hfound hret
  rw [hserver] at hs1 henqueue
  -- the thread goes to sleep, and is queued
  obtain ⟨⟨pid, hpid⟩, hstep, _, _⟩ := suspendThread_view hsuspend
  obtain ⟨self, hself, hrun, hkey, hsleepers⟩ := Kernel.suspendThread_sleepers hsuspend
  have hP : clients w.thread := by
    obtain ⟨pid', t, hcurrent, ht⟩ := hclient
    rw [hpid] at hcurrent
    injection hcurrent with hcurrent
    exact (Prod.mk.inj hcurrent).2 ▸ ht
  have hnew : w.thread ∉ waiting := h.not_mem_of_running hself hrun
  have h1 := h.quiet he hstep ⟨trivial, trivial, trivial⟩
  have hx1 : k1.view.object? (ss + 1) = some (.clientSession session) :=
    (suspendThread_object? hsuspend _).trans hx
  have hp1 : (KObject.clientSession session).peer = .ofClientSession ss := by
    rw [← hserver]
    rfl
  have hself1 : k1.view.sleepers w.thread = some (self.suspended [ss + 1] none .waitSync1) := by
    show k1.sleepers w.thread = _
    rw [hsleepers, Function.update_self]
  have h2 := h1.push he hx1 hp1 hself1 hkey.symm rfl rfl rfl hnew hP
  -- its request is queued
  have hs : (k1.modifyObject (ss + 1) (KObject.pushWaker w)).object? ss =
      some (.serverSession server) := by
    rw [Kernel.object?_modifyObject, if_neg hne, hs1]
  obtain ⟨h3, hsame⟩ := linked_enqueue h2 hs henqueue
  refine ⟨w.thread, h3, fun t' ht' => ?_⟩
  have hother : t' ≠ w.thread := fun heq => hnew (heq ▸ ht')
  rw [hsame t' (List.mem_append_left _ ht')]
  show k1.sleepers t' = _
  rw [hsleepers, Function.update_of_ne hother]

/-- When the response to the first request is written, its thread is the first at the client
    end. -/
theorem linked_respond {session : ServerSessionHLE} {data : ClientSessionHLE} {k1 : Kernel}
    {client server : ThreadIndex} {rest : List ThreadIndex} {c : ObjId}
    (h : Awaiting clients ss k.view (client :: rest))
    (hx : k.object? ss = some (.serverSession session))
    (htranslate : (k.modifyObject ss (KObject.setRequests rest)).translateIpc rng fuel server client
      true = .ret k1)
    (hdata : k1.clientSession? session.client = some (c, data)) :
    c = ss + 1 ∧ ∃ w ws, data.wakerQueue = w :: ws ∧ w.thread = client ∧ k1.view.Live w ∧
      Awaiting clients ss
        ((k1.view.modify (ss + 1) (KObject.setWakers ws)).tryWake w) rest := by
  have he := EndPair.lawful_session ss
  have hv : k.view.object? ss = some (.serverSession session) := hx
  have hclient : session.client = some (ss + 1) := h.ends _ _ hv
  have hc := client_of_clientSession? hdata
  rw [hclient] at hc
  injection hc with hc
  subst hc
  -- the request has left the server end
  obtain ⟨hpop, hqueued⟩ := queued_pop h.atServer hx
  have h1 : (EndPair.session ss).Linked clients
      (k.modifyObject ss (KObject.setRequests rest)).view (client :: rest) rest :=
    h.serves hpop trivial (fun heq => absurd heq.1 he.ne) hqueued.queues hqueued.made
  have hview := Kernel.translateIpc_view (by exact h.sound.tidy.nodup) htranslate
  rw [← hview] at h1
  have hx1 : k1.view.object? (ss + 1) = some (.clientSession data) := clientSession?_eq_some hdata
  have hp1 : (KObject.clientSession data).peer = .ofClientSession ss := by
    have hadjacent : ss + 1 = data.server + 1 := h1.ends _ _ hx1
    rw [Nat.succ.inj hadjacent]
    rfl
  have hwaits : data.wakerQueue.map Waker.thread = client :: rest := by
    rw [← show _ = data.wakerQueue from View.queue_of_object? hx1 hp1]
    exact h1.waits
  obtain ⟨w, ws, hws, hw, hrest⟩ := List.map_eq_cons_iff.mp hwaits
  obtain ⟨self, hself, hkey, _, _, h2⟩ := h1.pop he hx1 hp1 hws
  exact ⟨rfl, w, ws, hws, hw, ⟨self, hself, hkey⟩, hrest ▸ h2⟩

/-- A reply takes the first request out of both ends, and reaches its thread. -/
theorem awaiting_reply {session : ServerSessionHLE} {server : ThreadIndex}
    (h : Awaiting clients ss k.view waiting)
    (hx : k.object? ss = some (.serverSession session))
    (hret : session.reply rng fuel ss server k = .ret k') :
    Kernel.ReachesFirst rng fuel ss server waiting k k' ∧
      ∃ client rest, waiting = client :: rest ∧ Awaiting clients ss k'.view rest := by
  have hrequests : session.requestQueue = waiting := h.queues _ hx
  obtain ⟨client, rest, k1, c, data, hqueue, htranslate, hdata, hwake⟩ := reply_cases hret
  rw [hrequests] at hqueue
  subst hqueue
  obtain ⟨rfl, w, ws, hws, rfl, _, h1⟩ := linked_respond h hx htranslate hdata
  rw [hws] at hwake
  obtain ⟨_, hview⟩ := wakeExpect_eq_ret hwake
  obtain ⟨thread, response, _, hslot⟩ :=
    Kernel.translateIpc_thread? (by exact h.sound.tidy.nodup) htranslate
  obtain ⟨thread', resume, hthread', hwoken⟩ := wakeExpect_thread? hwake
  refine ⟨⟨w.thread, rest, k1, thread', resume, rfl, htranslate, hthread', ?_, fun t ht => ?_⟩,
    w.thread, rest, rfl, ?_⟩
  · rw [hwoken, if_pos rfl]
  · rw [hwoken, if_neg ht]
    show k1.thread? t = _
    rw [hslot, if_neg ht]
    rfl
  · rw [hview]
    exact h1

/-- The thread that a reply wakes is there to be woken. -/
theorem reply_ne_panic {session : ServerSessionHLE} {server : ThreadIndex}
    (h : Awaiting clients ss k.view waiting)
    (hx : k.object? ss = some (.serverSession session)) :
    session.reply rng fuel ss server k ≠ .panic (.wake (ss + 1)) := by
  intro hpanic
  have hrequests : session.requestQueue = waiting := h.queues _ hx
  unfold ServerSessionHLE.reply at hpanic
  rw [hrequests] at hpanic
  split at hpanic
  · cases hpanic
  · rename_i client rest
    rcases bind_eq_panic.mp hpanic with hpanic | ⟨k1, htranslate, hpanic⟩
    · exact lift_ne_wake hpanic
    rcases bind_eq_panic.mp hpanic with hpanic | ⟨⟨c, data⟩, hdata, hwake⟩
    · obtain ⟨_, he⟩ := expect_eq_panic.mp hpanic
      cases he
    obtain ⟨rfl, w, ws, hws, _, hlive, _⟩ :=
      linked_respond h hx (mapPanic_eq_ret.mp htranslate) (expect_eq_ret.mp hdata)
    have hwake : wakeFront (ss + 1) data.wakerQueue k1 = .panic (.wake (ss + 1)) := hwake
    rw [hws] at hwake
    rcases wakeExpect_eq_panic hwake with ⟨_, he⟩ | ⟨_, hstale⟩
    · cases he
    · exact hstale hlive

/-- A request wakes no thread at the client end. -/
theorem ask_ne_panic {handle : Option Handle} {session : ClientSessionHLE}
    (h : Awaiting clients ss k.view waiting)
    (hfound : k.lookupObject handle = .ret (some (ss + 1, .clientSession session))) :
    k.sendSyncRequest handle ≠ .panic (.wake (ss + 1)) := by
  intro hpanic
  have hx : k.view.object? (ss + 1) = some (.clientSession session) := lookupObject_eq_ret hfound
  have hserver : session.server = ss := (Nat.succ.inj (h.ends _ _ hx)).symm
  have hne : ss ≠ ss + 1 := (EndPair.lawful_session ss).ne
  have hpanic := (lift_bind hfound _).symm.trans hpanic
  rcases bind_eq_panic.mp hpanic with hpanic | ⟨⟨w, k1⟩, _, hpanic⟩
  · exact lift_ne_wake hpanic
  rcases bind_eq_panic.mp hpanic with hsync | ⟨⟨connected, k2⟩, _, hpanic⟩
  · unfold ClientSessionHLE.syncRequest at hsync
    rw [hserver] at hsync
    split at hsync
    · rename_i server _
      rcases bind_eq_panic.mp hsync with henqueue | ⟨_, _, hsync⟩
      · unfold ServerSessionHLE.enqueueSyncRequest wakeFront at henqueue
        split at henqueue
        · cases henqueue
        · rcases wakeExpect_eq_panic henqueue with ⟨_, he⟩ | ⟨he, _⟩
          · cases he
          · injection he with he
            exact hne he.symm
      · cases hsync
    · cases hsync
  · rcases bind_eq_panic.mp hpanic with hpanic | ⟨_, _, hpanic⟩
    · obtain ⟨_, he⟩ := assert_eq_panic.mp hpanic
      cases he
    · cases hpanic

theorem replyAndReceive_ne_panic {time : UInt64} {handles : List (Option Handle)}
    {replyTarget : Option Handle} {session : ServerSessionHLE}
    (h : Awaiting clients ss k.view waiting)
    (hfound : k.lookupObject replyTarget = .ret (some (ss, .serverSession session))) :
    k.replyAndReceivePre rng fuel time handles replyTarget ≠ .panic (.wake (ss + 1)) := by
  intro hpanic
  rcases bind_eq_panic.mp hpanic with hpanic | ⟨⟨replied, k1⟩, hreplyTo, hpanic⟩
  · unfold Kernel.replyTo at hpanic
    split at hpanic
    · cases hpanic
    · rcases bind_eq_panic.mp hpanic with hpanic | ⟨⟨pid, server⟩, _, hpanic⟩
      · exact lift_ne_wake hpanic
      have hpanic := (lift_bind hfound _).symm.trans hpanic
      rcases bind_eq_panic.mp hpanic with hpanic | ⟨_, _, hpanic⟩
      · exact reply_ne_panic h (lookupObject_eq_ret hfound) hpanic
      · cases hpanic
  · obtain ⟨_, _, _, rfl, _⟩ := replyTo_of_found hfound hreplyTo
    exact lift_ne_wake hpanic

theorem Awaiting.nodup (h : Awaiting clients ss k.view waiting) : waiting.Nodup := by
  have honce := h.sole.once
  rw [h.waits] at honce
  exact honce

theorem sleepers_congr {t : ThreadIndex} (h : k'.thread? t = k.thread? t) :
    k'.sleepers t = k.sleepers t := by
  unfold Kernel.sleepers
  rw [h]

/-- A reply, and the wait that goes with it. -/
theorem awaiting_replyAndReceive {time : UInt64} {handles : List (Option Handle)}
    {replyTarget : Option Handle} {session : ServerSessionHLE} {r : KResult (Option Reschedule)}
    (h : Awaiting clients ss k.view waiting)
    (hroles : SvcStep.KeepsRoles rng clients (ss + 1) k
      (.call (.replyAndReceivePre time handles replyTarget)))
    (hfound : k.lookupObject replyTarget = .ret (some (ss, .serverSession session)))
    (hret : k.replyAndReceivePre rng fuel time handles replyTarget = .ret (r, k')) :
    ∃ client rest, waiting = client :: rest ∧ Awaiting clients ss k'.view rest ∧
      ∀ t ∈ rest, k'.sleepers t = k.sleepers t := by
  have he := EndPair.lawful_session ss
  obtain ⟨⟨replied, k1⟩, hreplyTo, hwait⟩ := bind_eq_ret.mp hret
  obtain ⟨_, server, _, rfl, hreply⟩ := replyTo_of_found hfound hreplyTo
  have hwait := mapPanic_eq_ret.mp hwait
  obtain ⟨hreach, client, rest, rfl, h1⟩ := awaiting_reply h (lookupObject_eq_ret hfound) hreply
  obtain ⟨client', rest', _, _, _, heq, _, _, _, hsame⟩ := hreach
  injection heq with hclient hrest
  have hmoves := waitSyncN_moves (EndPair.common_quiet he clients).usual
    (fun objects ho => mayWaitEach_of_apart (replyTo_current hreplyTo)
      (hroles fuel k1 hreplyTo objects ho)) hwait
  refine ⟨client, rest, rfl, h1.quiets he hmoves, fun t ht => ?_⟩
  have hnodup : (client :: rest).Nodup := h.nodup
  have hne : t ≠ client' := by
    intro heq
    rw [← hclient] at heq
    exact (List.nodup_cons.mp hnodup).1 (heq ▸ ht)
  have hlater : k'.sleepers t = k1.sleepers t := h1.quiets_sleepers he hmoves t ht
  rw [hlater]
  exact sleepers_congr (hsame t hne)

end Own

/-! ## Runs -/

section Runs

variable {rng : Nat → UInt32} {k k' : Kernel} {l : SvcStep} {ss : ObjId}
  {clients : ThreadIndex → Prop} {waiting : List ThreadIndex}

/-- Every step keeps the two ends together. Of the threads that wait there it wakes the first, by a
    reply, or none. -/
theorem awaiting_step (h : Awaiting clients ss k.view waiting)
    (hroles : l.KeepsRoles rng clients (ss + 1) k) (hstep : (svcSystem rng).step k l k') :
    (∃ waiting', Awaiting clients ss k'.view waiting') ∧
      ∀ t ∈ waiting, k'.sleepers t ≠ k.sleepers t →
        l.Replies k ss ∧ waiting.head? = some t := by
  have he := EndPair.lawful_session ss
  obtain ⟨henabled, fuel, hexec⟩ := hstep
  by_cases hasks : l.Asks k (ss + 1)
  · obtain ⟨handle, session, rfl, hfound⟩ := hasks
    obtain ⟨r, hret⟩ := afterCall_eq_ret.mp hexec
    obtain ⟨t, hnext, hsame⟩ := awaiting_ask h (hroles session hfound) hfound hret
    exact ⟨⟨_, hnext⟩, fun t' ht' hwoken => absurd (hsame t' ht') hwoken⟩
  · by_cases hreplies : l.Replies k ss
    · obtain ⟨time, handles, replyTarget, session, rfl, hfound⟩ := id hreplies
      obtain ⟨r, hret⟩ := afterCall_eq_ret.mp hexec
      obtain ⟨client, rest, rfl, hnext, hsame⟩ := awaiting_replyAndReceive h hroles hfound hret
      refine ⟨⟨_, hnext⟩, fun t ht hwoken => ⟨hreplies, ?_⟩⟩
      rcases List.mem_cons.mp ht with rfl | ht
      · rfl
      · exact absurd (hsame t ht) hwoken
    · have hmade := svcStep_madeOf fuel (EndPair.common_quiet he clients) h.sound.tidy.nodup
        henabled (may_of_keepsRoles h.ends hroles hasks hreplies)
      have hmoves := hmade.returns _ hexec
      exact ⟨⟨_, h.quiets he hmoves⟩, fun t ht hwoken =>
        absurd (h.quiets_sleepers he hmoves t ht) hwoken⟩

theorem awaiting_of_run {tr : List (Kernel × SvcStep)} (h : Run (svcSystem rng) tr k)
    (hc : EveryStep (fun k l => l.KeepsRoles rng clients (ss + 1) k) tr) :
    ∃ waiting, Awaiting clients ss k.view waiting := by
  refine h.invariant_of (I := fun k => ∃ waiting, Awaiting clients ss k.view waiting) ?_ ?_ hc
  · intro k hinit
    rw [hinit]
    exact ⟨[], EndPair.linked_new⟩
  · rintro k l k' ⟨waiting, hk⟩ hroles hstep
    exact (awaiting_step hk hroles hstep).1

/-! ### What follows -/

theorem Awaiting.requests {session : ServerSessionHLE} (h : Awaiting clients ss k.view waiting)
    (hx : k.object? ss = some (.serverSession session)) : k.view.requests ss = waiting := by
  have hv : k.view.object? ss = some (.serverSession session) := hx
  unfold View.requests
  rw [hv]
  exact h.queues _ hv

theorem Awaiting.lockstep (h : Awaiting clients ss k.view waiting)
    (hpair : k.SessionPair ss (ss + 1)) : k.Lockstep ss (ss + 1) := by
  obtain ⟨server, client, hserver, _, hclient, hpeer⟩ := hpair
  have hp : (KObject.clientSession client).peer = .ofClientSession ss := by
    rw [← hpeer]
    rfl
  have hqueue : k.view.queue (ss + 1) (.ofClientSession ss) = k.wakers (ss + 1) := by
    unfold Kernel.wakers
    rw [View.queue_of_object? (show k.view.object? (ss + 1) = _ from hclient) hp, hclient]
  refine ⟨?_, ?_, fun w hw => ?_⟩
  · rw [← hqueue, h.requests hserver]
    exact h.waits
  · rw [h.requests hserver]
    exact h.nodup
  · obtain ⟨self, hself, hkey, hstate, _⟩ := h.sole.alone w (hqueue ▸ hw)
    obtain ⟨thread, hthread, rfl⟩ := Option.map_eq_some_iff.mp hself
    exact ⟨thread, hthread, hstate, hkey⟩

theorem Awaiting.repliesReach (h : Awaiting clients ss k.view waiting) :
    k.RepliesReach rng ss := by
  intro fuel server session k' hx hret
  have hrequests : session.requestQueue = waiting := h.queues _ hx
  rw [hrequests]
  exact (awaiting_reply h hx hret).1

theorem Awaiting.wakesByReply {session : ServerSessionHLE} (h : Awaiting clients ss k.view waiting)
    (hx : k.object? ss = some (.serverSession session)) :
    k.WakesByReply rng clients ss (ss + 1) := by
  intro l k' t hstep hroles ht hwoken
  rw [h.requests hx] at ht ⊢
  exact (awaiting_step h hroles hstep).2 t ht hwoken

theorem Awaiting.noFailedReply {client : ClientSessionHLE} (h : Awaiting clients ss k.view waiting)
    (hx : k.object? (ss + 1) = some (.clientSession client)) :
    k.NoFailedReply rng clients (ss + 1) := by
  intro l fuel henabled hroles hpanic
  have he := EndPair.lawful_session ss
  by_cases hasks : l.Asks k (ss + 1)
  · obtain ⟨handle, session, rfl, hfound⟩ := hasks
    rcases bind_eq_panic.mp hpanic with hpanic | ⟨_, _, hpanic⟩
    · exact ask_ne_panic h hfound hpanic
    · cases hpanic
  · by_cases hreplies : l.Replies k ss
    · obtain ⟨time, handles, replyTarget, session, rfl, hfound⟩ := hreplies
      rcases bind_eq_panic.mp hpanic with hpanic | ⟨_, _, hpanic⟩
      · exact replyAndReceive_ne_panic h hfound hpanic
      · cases hpanic
    · have hmade := svcStep_madeOf fuel (EndPair.common_quiet he clients) h.sound.tidy.nodup
        henabled (may_of_keepsRoles h.ends hroles hasks hreplies)
      obtain ⟨v, hmoves, w, hw, hstale⟩ := hmade.panics _ hpanic
      have hv : k.view.object? (ss + 1) = some (.clientSession client) := hx
      obtain ⟨y, hy, hwaker⟩ := View.mem_wakers.mp hw
      have hadjacent : ss + 1 = client.server + 1 := h.ends _ _ hv
      have hpeer : y.peer = .ofClientSession ss := by
        rw [View.peer_of_moves hmoves hv hy, Nat.succ.inj hadjacent]
        rfl
      obtain ⟨self, hself, hkey, _⟩ :=
        (h.quiets he hmoves).sole.alone w (View.mem_queue.mpr ⟨y, hy, hpeer, hwaker⟩)
      exact hstale ⟨self, hself, hkey⟩

theorem adjacent_of_run {tr : List (Kernel × SvcStep)} (h : Run (svcSystem rng) tr k) :
    ∀ o x, k.view.object? o = some x → x.peer.Adjacent o :=
  (kept_of_run (I := fun v => ∀ o x, v.object? o = some x → x.peer.Adjacent o)
    (fun _ _ hx => by cases hx) (fun _ _ _ _ hv hs => EndPair.adjacent_of_step hv hs) h).2

end Runs

/-- **Replies reach the thread that asked.** In every run in which the client end is waited on only
    by requests, of threads that leave no stale wakers, in every state in which both ends are
    there: the threads at the client end are those of the requests, in order and once, and they
    wait under live wakers. A reply writes into the slot of the thread that it wakes, which is the
    first; no other step wakes a thread there; and no such wake fails. -/
theorem sessionReplies {rng : Nat → UInt32} {clients : ThreadIndex → Prop} {ss cs : ObjId}
    {tr : List (Kernel × SvcStep)} {k : Kernel} (h : Run (svcSystem rng) tr k)
    (hc : EveryStep (fun k l => l.KeepsRoles rng clients cs k) tr) (hpair : k.SessionPair ss cs) :
    k.Lockstep ss cs ∧ k.RepliesReach rng ss ∧ k.WakesByReply rng clients ss cs ∧
      k.NoFailedReply rng clients cs := by
  obtain ⟨server, client, hserver, hpeer, hclient, _⟩ := id hpair
  have hcs : cs = ss + 1 := by
    have hadjacent : server.client = some (ss + 1) := adjacent_of_run h ss _ hserver
    rw [hpeer] at hadjacent
    injection hadjacent
  subst hcs
  obtain ⟨waiting, hwaiting⟩ := awaiting_of_run h hc
  exact ⟨hwaiting.lockstep hpair, hwaiting.repliesReach, hwaiting.wakesByReply hserver,
    hwaiting.noFailedReply hclient⟩

/-- The step keeps the roles of these clients. A reply waits for nothing after it. -/
def SvcStep.keepsRoles (clients : ThreadIndex → Bool) (cs : ObjId) (k : Kernel) :
    SvcStep → Bool
  | call (.waitSync1 _ handle _) =>
    match k.lookupObject handle with
    | .ret (some (o, _)) => decide (o ≠ cs)
    | _ => true
  | call (.waitSyncN _ handles _ _) =>
    match k.waitedObjects handles with
    | .ret objects => !objects.contains cs && !k.current.any fun current => clients current.2
    | _ => true
  | call (.replyAndReceivePre _ handles _) =>
    handles.isEmpty && !k.current.any fun current => clients current.2
  | call (.sendSyncRequest _) => k.current.any fun current => clients current.2
  | _ => true

theorem runsOneOf_iff {clients : ThreadIndex → Bool} {k : Kernel} :
    k.RunsOneOf (fun t => clients t = true) ↔
      (k.current.any fun current => clients current.2) = true := by
  unfold Kernel.RunsOneOf
  cases k.current with
  | none => simp
  | some current =>
    obtain ⟨pid, t⟩ := current
    constructor
    · rintro ⟨pid', t', heq, ht⟩
      injection heq with heq
      exact (Prod.mk.inj heq).2 ▸ ht
    · exact fun ht => ⟨pid, t, rfl, ht⟩

theorem keepsRoles_of_test {rng : Nat → UInt32} {clients : ThreadIndex → Bool} {cs : ObjId}
    {k : Kernel} {l : SvcStep} (h : l.keepsRoles clients cs k = true) :
    l.KeepsRoles rng (fun t => clients t = true) cs k := by
  have hserver : (!k.current.any fun current => clients current.2) = true →
      ¬ k.RunsOneOf fun t => clients t = true := by
    intro hnot hruns
    rw [runsOneOf_iff.mp hruns] at hnot
    cases hnot
  cases l with
  | call c =>
    cases c with
    | waitSync1 time handle timeout =>
      intro o x hfound
      unfold SvcStep.keepsRoles at h
      dsimp only at h
      rw [hfound] at h
      exact of_decide_eq_true h
    | waitSyncN time handles waitAll timeout =>
      intro objects hwaited
      unfold SvcStep.keepsRoles at h
      dsimp only at h
      rw [hwaited] at h
      obtain ⟨hnot, hruns⟩ := Bool.and_eq_true_iff.mp h
      exact ⟨by simpa using hnot, Or.inr (hserver hruns)⟩
    | replyAndReceivePre time handles replyTarget =>
      intro fuel k1 _ objects hwaited
      obtain ⟨hempty, hruns⟩ := Bool.and_eq_true_iff.mp h
      rw [List.isEmpty_iff.mp hempty] at hwaited
      injection hwaited with hwaited
      exact ⟨hwaited ▸ List.not_mem_nil, Or.inr (hserver hruns)⟩
    | sendSyncRequest handle => exact fun _ _ => runsOneOf_iff.mpr h
    | _ => trivial
  | _ => trivial

/-- A step by execution, of those that keep the roles. -/
def roleStep? (rng : Nat → UInt32) (fuel : Nat) (clients : ThreadIndex → Bool) (cs : ObjId)
    (k : Kernel) (l : SvcStep) : Option Kernel :=
  if l.keepsRoles clients cs k then svcStep? rng fuel k l else none

theorem step_of_roleStep? {rng : Nat → UInt32} {fuel : Nat} {clients : ThreadIndex → Bool}
    {cs : ObjId} {k k' : Kernel} {l : SvcStep} (h : roleStep? rng fuel clients cs k l = some k') :
    (svcSystem rng).step k l k' ∧ l.KeepsRoles rng (fun t => clients t = true) cs k := by
  unfold roleStep? at h
  split at h
  · rename_i hroles
    exact ⟨step_of_svcStep? h, keepsRoles_of_test hroles⟩
  · cases h

/-- Two threads send requests to a third that waits for them, and it replies to the first. -/
theorem sessionReplies_sample : ∃ (tr : List (Kernel × SvcStep)) (k : Kernel),
    Run (svcSystem UInt32.ofNat) tr k ∧ k.wakers 4 = [⟨1, 1⟩] ∧ k.Lockstep 3 4 ∧
      k.RepliesReach UInt32.ofNat 3 ∧
      k.WakesByReply UInt32.ofNat (fun t => decide (t < 2) = true) 3 4 ∧
      k.NoFailedReply UInt32.ofNat (fun t => decide (t < 2) = true) 4 := by
  have hrun : (runAll (roleStep? UInt32.ofNat 4 (fun t => decide (t < 2)) 4) Kernel.new
      [.newProcess .hle, .newThread 0, .newThread 0, .newThread 0, .runNext,
        .call .makeSessionPair, .call (.newHandle 3), .call (.newHandle 4),
        .call (.sleepThread 0 10), .stop 0, .runNext, .call (.sleepThread 0 10), .stop 1, .runNext,
        .call (.waitSyncN 0 [Handle.fromRaw 1] false (-1)), .stop 2, .tick 20 [], .runNext,
        .call (.sendSyncRequest (Handle.fromRaw 2)), .stop 0, .runNext,
        .call (.sendSyncRequest (Handle.fromRaw 2)), .stop 1, .runNext,
        .call (.replyAndReceivePost [Handle.fromRaw 1] (.waitSyncN 0)),
        .call (.replyAndReceivePre 0 [] (Handle.fromRaw 1))]).map (fun k =>
        (k.object? 3, k.object? 4)) =
      some (some (.serverSession ⟨[], [1], some 4⟩), some (.clientSession ⟨[⟨1, 1⟩], 3⟩)) := by
    decide +kernel
  obtain ⟨k, hk, hview⟩ := Option.map_eq_some_iff.mp hrun
  obtain ⟨hserver, hclient⟩ := Prod.mk.inj hview
  obtain ⟨tr, htr, hc⟩ := Run.every_of_runAll (fun _ _ _ hst => step_of_roleStep? hst)
    (.start (M := svcSystem UInt32.ofNat) rfl) (everyStep_nil _) hk
  have hwakers : k.wakers 4 = [⟨1, 1⟩] := by
    unfold Kernel.wakers
    rw [hclient]
    rfl
  exact ⟨tr, k, htr, hwakers, sessionReplies htr hc ⟨_, _, hserver, rfl, hclient, rfl⟩⟩

end Pomelo
