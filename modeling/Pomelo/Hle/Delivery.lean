/-
  Requests and the servers that receive them.

  A server thread receives the first request of its session without taking it out of the queue;
  its reply takes the first out, whichever that is by then. `ServeTrace` adds to the kernel who sent
  the requests, who received which, and where the replies went. While one thread at a time serves
  the session, every request is received once, and its response goes back to its sender
  (`deliveredOnce`). Two threads that serve at a time receive the same request, and the later
  reply goes to a thread whose request nobody received (`deliveredOnce_fails`).
-/
import Pomelo.Hle.Session

namespace Pomelo

open Lib Outcome

namespace Kernel

/-- The thread that sends a request to the server end `ss`. -/
def askedBy (k : Kernel) (ss : ObjId) : SvcStep → List ThreadIndex
  | .call (.sendSyncRequest handle) =>
    match k.lookupObject handle, k.current with
    | .ret (some (_, .clientSession session)), some (_, tid) =>
      if session.server = ss then [tid] else []
    | _, _ => []
  | _ => []

/-- The server thread that receives the first request at `ss`. -/
def receiver? (k : Kernel) (ss : ObjId) : SvcStep → Option ThreadIndex
  | .call (.replyAndReceivePost handles (.waitSyncN index)) =>
    match k.lookupObject handles[index]?.join, k.current with
    | .ret (some (o, .serverSession session)), some (_, tid) =>
      if o = ss ∧ session.requestQueue ≠ [] then some tid else none
    | _, _ => none
  | _ => none

/-- The server thread that replies at `ss`, and the thread that its response goes to. -/
def replier? (k : Kernel) (ss : ObjId) : SvcStep → Option (ThreadIndex × ThreadIndex)
  | .call (.replyAndReceivePre _ _ replyTarget) =>
    match k.lookupObject replyTarget, k.current with
    | .ret (some (o, .serverSession session)), some (_, tid) =>
      if o = ss then session.requestQueue.head?.map fun client => (tid, client) else none
    | _, _ => none
  | _ => none

end Kernel

/-- A reply: the server thread, the number of the request that it last received, and the thread
    that the response went to. -/
structure Reply where
  server : ThreadIndex
  received : Option Nat
  client : ThreadIndex
deriving DecidableEq, Repr

/-- The kernel; the threads whose requests were sent to the session, oldest first, which numbers
    the requests; the requests that were received, newest first, each with its receiver; the
    replies, oldest first; and the server threads that are to reply. -/
structure ServeTrace where
  kernel : Kernel
  sent : List ThreadIndex
  received : List (Nat × ThreadIndex)
  replies : List Reply
  busy : List ThreadIndex

namespace ServeTrace

/-- The number of the request that the thread last received. -/
def lastReceived (s : ServeTrace) (server : ThreadIndex) : Option Nat :=
  (s.received.find? fun r => r.2 = server).map Prod.fst

/-- The first request in the queue is the one after those that are replied to. -/
def after (ss : ObjId) (s : ServeTrace) (l : SvcStep) (k : Kernel) : ServeTrace :=
  match s.kernel.receiver? ss l, s.kernel.replier? ss l with
  | some server, _ =>
    { s with
      kernel := k
      received := (s.replies.length, server) :: s.received
      busy := server :: s.busy }
  | none, some (server, client) =>
    { s with
      kernel := k
      replies := s.replies ++ [⟨server, s.lastReceived server, client⟩]
      busy := s.busy.erase server }
  | none, none => { s with kernel := k, sent := s.sent ++ s.kernel.askedBy ss l }

/-- Server threads reply once to what they receive: who receives has replied, and who replies has
    received. -/
structure InTurn (ss : ObjId) (s : ServeTrace) (l : SvcStep) : Prop where
  receives : ∀ server, s.kernel.receiver? ss l = some server → server ∉ s.busy
  replies : ∀ server client, s.kernel.replier? ss l = some (server, client) → server ∈ s.busy

end ServeTrace

def serveSystem (rng : Nat → UInt32) (ss : ObjId) : System ServeTrace SvcStep where
  init s := s = ⟨Kernel.new, [], [], [], []⟩
  step s l s' := s.InTurn ss l ∧ ∃ k, (svcSystem rng).step s.kernel l k ∧ s' = s.after ss l k

namespace ServeTrace

/-- A server thread receives while no other is to reply. -/
def OneServes (ss : ObjId) (s : ServeTrace) (l : SvcStep) : Prop :=
  ∀ server, s.kernel.receiver? ss l = some server → s.busy = []

/-- No request is received by two server threads, and every response went to the sender of the
    request that the server thread had last received. -/
structure Delivered (s : ServeTrace) : Prop where
  once : ∀ n server server', (n, server) ∈ s.received → (n, server') ∈ s.received →
    server = server'
  answered : ∀ r ∈ s.replies, ∃ n, r.received = some n ∧ s.sent[n]? = some r.client

end ServeTrace

/-! ## What becomes of the queue -/

section Queue

variable {rng : Nat → UInt32} {fuel : Nat} {k k' : Kernel} {ss : ObjId} {l : SvcStep}
  {queued : List ThreadIndex}

/-- The request of the current thread is queued behind the others. -/
theorem queued_ask {handle : Option Handle} {session : ClientSessionHLE}
    {r : KResult (Option Reschedule)} (h : (EndPair.session ss).Queued k.view queued)
    (hfound : k.lookupObject handle = .ret (some (ss + 1, .clientSession session)))
    (hret : k.sendSyncRequest handle = .ret (r, k')) :
    session.server = ss ∧ ∃ pid t, k.current = some (pid, t) ∧
      (EndPair.session ss).Queued k'.view (queued ++ [t]) := by
  have he := EndPair.lawful_session ss
  have hne : ss ≠ ss + 1 := he.ne
  have hx : k.view.object? (ss + 1) = some (.clientSession session) := lookupObject_eq_ret hfound
  have hserver : session.server = ss := (Nat.succ.inj (h.ends _ _ hx)).symm
  obtain ⟨w, k1, server, hsuspend, hs1, henqueue⟩ := sendSyncRequest_of_found hfound hret
  rw [hserver] at hs1 henqueue
  obtain ⟨⟨pid, hpid⟩, hstep, ⟨self, hself, hkey, hstate, hobjects⟩, _⟩ :=
    suspendThread_view hsuspend
  have ho : ss + 1 ∈ self.waitObjects := by
    rw [hobjects]
    exact List.mem_cons_self
  have hx1 : k1.view.object? (ss + 1) = some (.clientSession session) :=
    (suspendThread_object? hsuspend _).trans hx
  have hpush : View.Step k1.view
      (.enqueue (ss + 1) (KObject.clientSession session).peer w (KObject.pushWaker w))
      (k1.modifyObject (ss + 1) (KObject.pushWaker w)).view :=
    .enqueue hself hkey hstate ho (View.adds_pushWaker w hx1)
  have h1 := h.quiet he hstep trivial
  have h2 := h1.quiet he hpush fun _ => EndPair.keepsData_pushWaker w
  have hs : (k1.modifyObject (ss + 1) (KObject.pushWaker w)).object? ss =
      some (.serverSession server) := by
    rw [Kernel.object?_modifyObject, if_neg hne, hs1]
  exact ⟨hserver, pid, w.thread, hpid, queued_enqueue h2 hs henqueue⟩

/-- A reply takes the first request out of the queue, and the wait that goes with it keeps the
    others. -/
theorem queued_reply {time : UInt64} {handles : List (Option Handle)}
    {replyTarget : Option Handle} {session : ServerSessionHLE} {r : KResult (Option Reschedule)}
    (hn : k.indices.Nodup) (h : (EndPair.session ss).Queued k.view queued)
    (hfound : k.lookupObject replyTarget = .ret (some (ss, .serverSession session)))
    (hret : k.replyAndReceivePre rng fuel time handles replyTarget = .ret (r, k')) :
    ∃ pid server client rest, k.current = some (pid, server) ∧
      session.requestQueue = client :: rest ∧ queued = client :: rest ∧
      (EndPair.session ss).Queued k'.view rest := by
  have he := EndPair.lawful_session ss
  have hx := lookupObject_eq_ret hfound
  have hrequests : session.requestQueue = queued := h.queues _ hx
  obtain ⟨⟨replied, k1⟩, hreplyTo, hwait⟩ := bind_eq_ret.mp hret
  obtain ⟨pid, server, hcurrent, rfl, hreply⟩ := replyTo_of_found hfound hreplyTo
  have hwait := mapPanic_eq_ret.mp hwait
  obtain ⟨client, rest, k2, c, data, hqueue, htranslate, hdata, hwake⟩ := reply_cases hreply
  rw [hrequests] at hqueue
  subst hqueue
  obtain ⟨_, h1⟩ := queued_pop h hx
  have hview := Kernel.translateIpc_view (by exact hn) htranslate
  rw [← hview] at h1
  have hclient : ¬ (c = ss ∧
      (KObject.clientSession data).peer = .ofServerSession (some (ss + 1))) :=
    fun heq => by cases heq.2
  have hwakes := wakeQueue_madeOf (touches_keepsData hclient) (clientSession?_eq_some hdata)
  have h2 := h1.quiets he (hwakes.returns _ hwake)
  have hmoves := waitSyncN_moves (EndPair.common_keepsData he).usual
    (fun _ _ => ⟨mayWait_keepsData, Or.inr trivial⟩) hwait
  exact ⟨pid, server, client, rest, hcurrent, hrequests, rfl, h2.quiets he hmoves⟩

end Queue

/-! ## Runs -/

namespace ServeTrace

variable {rng : Nat → UInt32} {ss : ObjId} {s s' : ServeTrace} {l : SvcStep} {k : Kernel}

/-- The requests that are not replied to. -/
def queue (s : ServeTrace) : List ThreadIndex := s.sent.drop s.replies.length

/-- These are the requests in the queue. -/
structure Numbered (ss : ObjId) (s : ServeTrace) : Prop where
  tidy : s.kernel.view.Tidy
  below : s.replies.length ≤ s.sent.length
  queued : (EndPair.session ss).Queued s.kernel.view s.queue

/-- What a step does to the requests. -/
inductive Effect (ss : ObjId) (s : ServeTrace) (l : SvcStep) : ServeTrace → Prop
  | other {k : Kernel} (h : (EndPair.session ss).Queued k.view s.queue) :
    Effect ss s l { s with kernel := k }
  | asks {k : Kernel} {t : ThreadIndex}
      (h : (EndPair.session ss).Queued k.view (s.queue ++ [t])) :
    Effect ss s l { s with kernel := k, sent := s.sent ++ [t] }
  | receives {k : Kernel} {server : ThreadIndex} (hl : s.kernel.receiver? ss l = some server)
      (hq : s.queue ≠ []) (h : (EndPair.session ss).Queued k.view s.queue) :
    Effect ss s l
      { s with
        kernel := k
        received := (s.replies.length, server) :: s.received
        busy := server :: s.busy }
  | replies {k : Kernel} {server client : ThreadIndex} {rest : List ThreadIndex}
      (hl : s.kernel.replier? ss l = some (server, client)) (hq : s.queue = client :: rest)
      (h : (EndPair.session ss).Queued k.view rest) :
    Effect ss s l
      { s with
        kernel := k
        replies := s.replies ++ [⟨server, s.lastReceived server, client⟩]
        busy := s.busy.erase server }

theorem askedBy_eq_nil (hends : ∀ o x, k.view.object? o = some x → x.peer.Adjacent o)
    (h : ¬ l.Asks k (ss + 1)) : k.askedBy ss l = [] := by
  unfold Kernel.askedBy
  split
  · rename_i handle
    split
    · rename_i c session _ tid hfound _
      by_cases hs : session.server = ss
      · have hadjacent : c = session.server + 1 := hends c _ (lookupObject_eq_ret hfound)
        rw [hs] at hadjacent
        exact absurd ⟨handle, session, rfl, hadjacent ▸ hfound⟩ h
      · exact if_neg hs
    · rfl
  · rfl

theorem replier?_eq_none (h : ¬ l.Replies k ss) : k.replier? ss l = none := by
  unfold Kernel.replier?
  split
  · rename_i time handles replyTarget
    split
    · rename_i o session _ tid hfound _
      by_cases ho : o = ss
      · exact absurd ⟨time, handles, replyTarget, session, rfl, ho ▸ hfound⟩ h
      · exact if_neg ho
    · rfl
  · rfl

/-- A thread that receives leaves the queue as it is, and there is a request in it. -/
theorem receives_of_receiver? {server : ThreadIndex} (h : k.receiver? ss l = some server) :
    (∃ handles resume, l = .call (.replyAndReceivePost handles resume)) ∧
      ∃ session, k.object? ss = some (.serverSession session) ∧ session.requestQueue ≠ [] := by
  unfold Kernel.receiver? at h
  split at h
  · rename_i handles index
    split at h
    · rename_i o session _ tid hfound _
      split at h
      · rename_i ho
        obtain ⟨rfl, hqueue⟩ := ho
        exact ⟨⟨handles, _, rfl⟩, session, lookupObject_eq_ret hfound, hqueue⟩
      · cases h
    · cases h
  · cases h

/-! ### The numbers of requests -/

theorem Numbered.init (h : (serveSystem rng ss).init s) : s.Numbered ss := by
  have h : s = ⟨Kernel.new, [], [], [], []⟩ := h
  subst h
  exact ⟨View.tidy_new, Nat.le_refl _, EndPair.Queued.new⟩

/-- Every step has one of these effects. -/
theorem effect_of_step (h : s.Numbered ss) (hstep : (serveSystem rng ss).step s l s') :
    s.Effect ss l s' ∧ s'.kernel.view.Tidy := by
  have he := EndPair.lawful_session ss
  obtain ⟨_, k, hstep, rfl⟩ := hstep
  have htidy : k.view.Tidy := tidy_of_step h.tidy hstep
  obtain ⟨henabled, fuel, hexec⟩ := hstep
  by_cases hasks : l.Asks s.kernel (ss + 1)
  · obtain ⟨handle, session, rfl, hfound⟩ := hasks
    obtain ⟨r, hret⟩ := afterCall_eq_ret.mp hexec
    obtain ⟨hserver, pid, t, hcurrent, hnext⟩ := queued_ask h.queued hfound hret
    have hasked : s.kernel.askedBy ss (.call (.sendSyncRequest handle)) = [t] := by
      unfold Kernel.askedBy
      dsimp only
      rw [hfound, hcurrent]
      exact if_pos hserver
    have hafter : s.after ss (.call (.sendSyncRequest handle)) k =
        { s with kernel := k, sent := s.sent ++ [t] } := by
      rw [← hasked]
      rfl
    rw [hafter]
    exact ⟨.asks hnext, htidy⟩
  · by_cases hreplies : l.Replies s.kernel ss
    · obtain ⟨time, handles, replyTarget, session, rfl, hfound⟩ := hreplies
      obtain ⟨r, hret⟩ := afterCall_eq_ret.mp hexec
      obtain ⟨pid, server, client, rest, hcurrent, hrequests, hqueue, hnext⟩ :=
        queued_reply h.tidy.nodup h.queued hfound hret
      have hreplier : s.kernel.replier? ss (.call (.replyAndReceivePre time handles replyTarget)) =
          some (server, client) := by
        unfold Kernel.replier?
        dsimp only
        rw [hfound, hcurrent]
        dsimp only
        rw [if_pos rfl, hrequests]
        rfl
      have hafter : s.after ss (.call (.replyAndReceivePre time handles replyTarget)) k =
          { s with
            kernel := k
            replies := s.replies ++ [⟨server, s.lastReceived server, client⟩]
            busy := s.busy.erase server } := by
        unfold after
        rw [hreplier]
        rfl
      rw [hafter]
      exact ⟨.replies hreplier hqueue hnext, htidy⟩
    · have hmade := svcStep_madeOf fuel (EndPair.common_keepsData he) h.tidy.nodup henabled
        (@may_keepsData rng s.kernel l ss h.queued.ends hasks hreplies)
      have hnext := h.queued.quiets he (hmade.returns _ hexec)
      refine ⟨?_, by unfold after; split <;> exact htidy⟩
      unfold after
      rw [replier?_eq_none hreplies, askedBy_eq_nil h.queued.ends hasks, List.append_nil]
      cases hreceiver : s.kernel.receiver? ss l with
      | none => exact .other hnext
      | some server =>
        obtain ⟨_, session, hx, hrequests⟩ := receives_of_receiver? hreceiver
        have hqueue : session.requestQueue = s.queue := h.queued.queues _ hx
        exact .receives hreceiver (hqueue ▸ hrequests) hnext

theorem queue_append {t : ThreadIndex} (h : s.replies.length ≤ s.sent.length) :
    (s.sent ++ [t]).drop s.replies.length = s.queue ++ [t] := List.drop_append_of_le_length h

theorem Numbered.step (h : s.Numbered ss) (hstep : (serveSystem rng ss).step s l s') :
    s'.Numbered ss := by
  obtain ⟨heffect, htidy⟩ := effect_of_step h hstep
  cases heffect with
  | other hq => exact ⟨htidy, h.below, hq⟩
  | asks hq =>
    refine ⟨htidy, ?_, ?_⟩
    · rw [List.length_append]
      exact Nat.le_add_right_of_le h.below
    · rw [← queue_append h.below] at hq
      exact hq
  | receives hl hne hq => exact ⟨htidy, h.below, hq⟩
  | @replies k server client rest hl hqueue hq =>
    have hlt : s.replies.length < s.sent.length := by
      by_contra hle
      have hnil : s.queue = [] := List.drop_eq_nil_of_le (Nat.le_of_not_lt hle)
      rw [hnil] at hqueue
      cases hqueue
    refine ⟨htidy, ?_, ?_⟩
    · rw [List.length_append]
      exact hlt
    · have hdrop : s.sent.drop (s.replies.length + 1) = rest := by
        have htail := congrArg List.tail hqueue
        rw [queue, List.tail_drop] at htail
        exact htail
      unfold queue
      rw [List.length_append]
      exact hdrop ▸ hq

/-! ### One thread at a time -/

/-- The requests that are replied to were received once. At most one thread is to reply, and this
    has received the request after those. -/
structure Serving (ss : ObjId) (s : ServeTrace) : Prop where
  numbered : s.Numbered ss
  older : ∀ r ∈ s.received, r.1 < s.replies.length ∨ s.busy ≠ [] ∧ r.1 = s.replies.length
  once : (s.received.map Prod.fst).Nodup
  one : ∀ server ∈ s.busy, s.busy = [server] ∧ s.received.head? = some (s.replies.length, server)
  answered : ∀ r ∈ s.replies, ∃ n, r.received = some n ∧ s.sent[n]? = some r.client

theorem Serving.init (h : (serveSystem rng ss).init s) : s.Serving ss := by
  have hnumbered := Numbered.init h
  have h : s = ⟨Kernel.new, [], [], [], []⟩ := h
  subst h
  exact ⟨hnumbered, (fun r hr => by cases hr), List.nodup_nil, (fun t ht => by cases ht),
    fun r hr => by cases hr⟩

theorem Serving.step (h : s.Serving ss) (hone : s.OneServes ss l)
    (hstep : (serveSystem rng ss).step s l s') : s'.Serving ss := by
  have hturn := hstep.1
  have hnumbered := h.numbered.step hstep
  obtain ⟨heffect, _⟩ := effect_of_step h.numbered hstep
  cases heffect with
  | other hq => exact ⟨hnumbered, h.older, h.once, h.one, h.answered⟩
  | asks hq =>
    refine ⟨hnumbered, h.older, h.once, h.one, fun r hr => ?_⟩
    obtain ⟨n, hreceived, hsent⟩ := h.answered r hr
    exact ⟨n, hreceived, List.getElem?_append_left (List.getElem?_eq_some_iff.mp hsent).1 ▸ hsent⟩
  | @receives k server hl hne hq =>
    have hidle : s.busy = [] := hone server hl
    have holder : ∀ r ∈ s.received, r.1 < s.replies.length := by
      intro r hr
      rcases h.older r hr with hlt | ⟨hbusy, _⟩
      · exact hlt
      · exact absurd hidle hbusy
    refine ⟨hnumbered, fun r hr => ?_, ?_, fun t ht => ?_, h.answered⟩
    · rcases List.mem_cons.mp hr with rfl | hr
      · exact Or.inr ⟨List.cons_ne_nil _ _, rfl⟩
      · exact Or.inl (holder r hr)
    · rw [List.map_cons, List.nodup_cons]
      refine ⟨fun hmem => ?_, h.once⟩
      obtain ⟨r, hr, heq⟩ := List.mem_map.mp hmem
      exact Nat.ne_of_lt (holder r hr) heq
    · rw [hidle] at ht ⊢
      rw [List.mem_singleton.mp ht]
      exact ⟨rfl, rfl⟩
  | @replies k server client rest hl hqueue hq =>
    obtain ⟨hbusy, hhead⟩ := h.one server (hturn.replies server client hl)
    have hlast : s.lastReceived server = some s.replies.length := by
      unfold lastReceived
      obtain ⟨rest, hreceived⟩ := List.head?_eq_some_iff.mp hhead
      rw [hreceived, List.find?_cons_of_pos (by simp)]
      rfl
    have hsent : s.sent[s.replies.length]? = some client := by
      rw [← List.head?_drop]
      exact congrArg List.head? hqueue
    have hnow : s.busy.erase server = [] := by
      rw [hbusy, List.erase_cons_head]
    have hlength : ∀ reply : Reply, (s.replies ++ [reply]).length = s.replies.length + 1 :=
      fun reply => List.length_append
    refine ⟨hnumbered, fun r hr => Or.inl ?_, h.once, fun t ht => ?_, fun r hr => ?_⟩
    · show r.1 < (s.replies ++ [_]).length
      rw [hlength]
      rcases h.older r hr with hlt | ⟨_, heq⟩
      · exact Nat.lt_succ_of_lt hlt
      · exact heq ▸ Nat.lt_succ_self _
    · rw [hnow] at ht
      cases ht
    · rcases List.mem_append.mp hr with hr | hr
      · exact h.answered r hr
      · rw [List.mem_singleton.mp hr]
        exact ⟨_, hlast, hsent⟩

theorem Serving.delivered (h : s.Serving ss) : s.Delivered := by
  refine ⟨fun n server server' hmem hmem' => ?_, h.answered⟩
  have heq := List.inj_on_of_nodup_map h.once hmem hmem' rfl
  exact (Prod.mk.inj heq).2

/-- A thread that receives while another is to reply receives the request of the other. -/
theorem Serving.not_delivered (h : s.Serving ss) (hone : ¬ s.OneServes ss l)
    (hstep : (serveSystem rng ss).step s l s') : ¬ s'.Delivered := by
  intro hdelivered
  obtain ⟨hturn, k, _, rfl⟩ := hstep
  refine hone fun server hserver => ?_
  by_contra hbusy
  obtain ⟨t, ht⟩ := List.exists_mem_of_ne_nil _ hbusy
  have hmem := List.mem_of_head? (h.one t ht).2
  have hafter : (s.after ss l k).received = (s.replies.length, server) :: s.received := by
    unfold after
    rw [hserver]
  have hsame := hdelivered.once s.replies.length server t
    (hafter ▸ List.mem_cons_self) (hafter ▸ List.mem_cons_of_mem _ hmem)
  exact hturn.receives server hserver (hsame ▸ ht)

end ServeTrace

namespace ServeTrace

def inTurn (ss : ObjId) (s : ServeTrace) (l : SvcStep) : Bool :=
  (s.kernel.receiver? ss l).all (fun server => !s.busy.contains server) &&
    (s.kernel.replier? ss l).all fun reply => s.busy.contains reply.1

def oneServes (ss : ObjId) (s : ServeTrace) (l : SvcStep) : Bool :=
  (s.kernel.receiver? ss l).all fun _ => s.busy.isEmpty

theorem inTurn_of_test {ss : ObjId} {s : ServeTrace} {l : SvcStep} (h : s.inTurn ss l = true) :
    s.InTurn ss l := by
  obtain ⟨hreceives, hreplies⟩ := Bool.and_eq_true_iff.mp h
  refine ⟨fun server hserver => ?_, fun server client hreply => ?_⟩
  · rw [hserver] at hreceives
    simpa using hreceives
  · rw [hreply] at hreplies
    simpa using hreplies

theorem oneServes_of_test {ss : ObjId} {s : ServeTrace} {l : SvcStep}
    (h : s.oneServes ss l = true) : s.OneServes ss l := by
  intro server hserver
  unfold oneServes at h
  rw [hserver] at h
  exact List.isEmpty_iff.mp h

/-- A step by execution, of those that are in turn. -/
def step? (rng : Nat → UInt32) (fuel : Nat) (ss : ObjId) (s : ServeTrace) (l : SvcStep) :
    Option ServeTrace :=
  if s.inTurn ss l then (svcStep? rng fuel s.kernel l).map (s.after ss l) else none

theorem step_of_step? {rng : Nat → UInt32} {fuel : Nat} {ss : ObjId} {s s' : ServeTrace}
    {l : SvcStep} (h : s.step? rng fuel ss l = some s') : (serveSystem rng ss).step s l s' := by
  unfold step? at h
  split at h
  · rename_i hturn
    obtain ⟨k, hk, rfl⟩ := Option.map_eq_some_iff.mp h
    exact ⟨inTurn_of_test hturn, k, step_of_svcStep? hk, rfl⟩
  · cases h

/-- The same, of those that receive while no other thread is to reply. -/
def oneStep? (rng : Nat → UInt32) (fuel : Nat) (ss : ObjId) (s : ServeTrace) (l : SvcStep) :
    Option ServeTrace :=
  if s.oneServes ss l then s.step? rng fuel ss l else none

theorem step_of_oneStep? {rng : Nat → UInt32} {fuel : Nat} {ss : ObjId} {s s' : ServeTrace}
    {l : SvcStep} (h : s.oneStep? rng fuel ss l = some s') :
    (serveSystem rng ss).step s l s' ∧ s.OneServes ss l := by
  unfold oneStep? at h
  split at h
  · rename_i hone
    exact ⟨step_of_step? h, oneServes_of_test hone⟩
  · cases h

end ServeTrace

end Pomelo
