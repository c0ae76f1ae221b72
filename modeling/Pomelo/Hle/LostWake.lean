/-
  Wake-ups of server threads.

  A server thread that waits on a session or a port goes to sleep whatever is queued there: only
  what is queued later wakes it, and that wakes one thread. `ReceiveTrace` adds to the kernel at
  which sessions the first request was received. No thread sleeps at an end where something is
  unserved in a run in which no wait goes to sleep at such an end, and in which a request or a
  session is queued only where no more than one thread sleeps (`noLostWake`). A server that
  receives, replies and waits again sleeps while the next request is queued (`noLostWake_fails`).
-/
import Pomelo.Hle.Delivery
import Pomelo.Hle.Unserved

namespace Pomelo

open Lib Outcome

/-- The kernel, and the sessions whose first request was received. -/
structure ReceiveTrace where
  kernel : Kernel
  received : ObjId → Bool

namespace ReceiveTrace

/-- A reply takes the first request out of the queue, so that another is the first. -/
def after (s : ReceiveTrace) (l : SvcStep) (k : Kernel) : ReceiveTrace where
  kernel := k
  received o :=
    if (s.kernel.receiver? o l).isSome then true
    else if (s.kernel.replier? o l).isSome then false
    else s.received o

end ReceiveTrace

def receiveSystem (rng : Nat → UInt32) : System ReceiveTrace SvcStep where
  init s := s = ⟨Kernel.new, fun _ => false⟩
  step s l s' := ∃ k, (svcSystem rng).step s.kernel l k ∧ s' = s.after l k

namespace ReceiveTrace

/-- No thread is asleep in the queue of a session with a request that no thread received, or in
    that of a port with a session. -/
def NoLostWake (s : ReceiveTrace) : Prop :=
  ∀ o w, s.kernel.view.SleepsIn w o → ¬ s.kernel.view.Unserved s.received o

/-- A wait on these objects goes to sleep only where nothing is unserved. -/
def WaitsServed (received : ObjId → Bool) (k : Kernel) (objects : List ObjId) : Prop :=
  (∃ o ∈ objects, k.objects.ready o = true) ∨ ∀ o ∈ objects, ¬ k.view.Unserved received o

/-- The waits of the step go to sleep only where nothing is unserved, and what it queues at a
    server end it queues where no more than one thread sleeps. -/
def Watchful (rng : Nat → UInt32) (s : ReceiveTrace) : SvcStep → Prop
  | .call (.waitSync1 _ handle _) => ∀ o x, s.kernel.lookupObject handle = .ret (some (o, x)) →
    WaitsServed s.received s.kernel [o]
  | .call (.waitSyncN _ handles _ _) => ∀ objects, s.kernel.waitedObjects handles = .ret objects →
    WaitsServed s.received s.kernel objects
  | .call (.replyAndReceivePre time handles replyTarget) =>
    ∀ fuel k, s.kernel.replyTo rng fuel replyTarget = .ret (.ok (), k) →
      ∀ objects, k.waitedObjects handles = .ret objects →
        WaitsServed (s.after (.call (.replyAndReceivePre time handles replyTarget)) k).received k
          objects
  | .call (.sendSyncRequest handle) => ∀ c session,
    s.kernel.lookupObject handle = .ret (some (c, .clientSession session)) →
      s.kernel.OneSleeper session.server
  | .call (.createSessionToPort handle) => ∀ c port,
    s.kernel.lookupObject handle = .ret (some (c, .clientPort port)) →
      s.kernel.OneSleeper port.server
  | _ => True

end ReceiveTrace

/-! ## Calls -/

section Calls

variable {rng : Nat → UInt32} {fuel : Nat} {time : UInt64} {k k' : Kernel} {o : ObjId}
  {received : ObjId → Bool}

/-- Where nothing but server ends queue anything. -/
theorem served_of_object? {x : KObject} (hx : k.object? o = some x) (hp : ¬ x.peer.IsServer) :
    ¬ k.view.Unserved received o :=
  fun hu => hp (hu.isServer (show k.view.object? o = some x from hx))

/-- A thread suspends itself on one object, and gets into its queue. -/
theorem heeded_of_push {timeout : Option UInt64} {waitType : ThreadWaitType} {k1 : Kernel}
    {w : Waker} {f : KObject → KObject} (h : k.view.Heeded received)
    (hsuspend : k.suspendThread [o] timeout waitType = .ret (w, k1))
    (hserved : ¬ k.view.Unserved received o)
    (hmoves : Moves View.Step (Move.Calm fun t => t = w.thread) k1.view
      (k1.modifyObject o f).view) : (k1.modifyObject o f).view.Heeded received :=
  heeded_of_suspended h hsuspend hmoves fun _ _ hp => (List.mem_singleton.mp hp) ▸ hserved

theorem heeded_of_waitOn {x : KObject} {timeout : Option UInt64} (h : k.view.Heeded received)
    (hx : k.object? o = some x) (hserved : ReceiveTrace.WaitsServed received k [o])
    (hret : k.waitOn o x timeout = .ret k') : k'.view.Heeded received := by
  obtain ⟨⟨w, k1⟩, hsuspend, hwait⟩ := bind_eq_ret.mp hret
  have hx1 : k1.object? o = some x := by rw [suspendThread_object? hsuspend, hx]
  have hsync : x.isSync = true := by
    cases x with
    | arbiter self => cases hwait
    | codeSet => cases hwait
    | _ => rfl
  have hone : Kernel.waitEach w [o] k1 = .ret k' := by
    have hwait : KObject.wait o w k1 x = .ret k' := hwait
    rw [Kernel.waitEach_eq_cons hx1 hsync, hwait]
    rfl
  exact heeded_of_waitEach h hsuspend hserved hone

theorem heeded_of_waitSync1 {handle : Option Handle} {timeout : Int64}
    {r : KResult (Option Reschedule)} (h : k.view.Heeded received)
    (hserved : ∀ o x, k.lookupObject handle = .ret (some (o, x)) →
      ReceiveTrace.WaitsServed received k [o])
    (hret : k.waitSync1 time handle timeout = .ret (r, k')) : k'.view.Heeded received := by
  rcases waitSync1_cases hret with rfl | ⟨o, x, absolute, hfound, hwait⟩
  · exact h
  · exact heeded_of_waitOn h (lookupObject_eq_ret hfound) (hserved _ _ hfound) hwait

theorem heeded_of_waitSyncN {handles : List (Option Handle)} {waitAll : Bool} {timeout : Int64}
    {r : KResult (Option Reschedule)} (h : k.view.Heeded received)
    (hserved : ∀ objects, k.waitedObjects handles = .ret objects →
      ReceiveTrace.WaitsServed received k objects)
    (hret : k.waitSyncN time handles waitAll timeout = .ret (r, k')) :
    k'.view.Heeded received := by
  obtain ⟨objects, absolute, w, k1, hwaited, hsuspend, hwait⟩ := waitSyncN_cases hret
  exact heeded_of_waitEach h hsuspend (hserved objects hwaited) hwait

theorem heeded_of_sleepThread {ns : Int64} (h : k.view.Heeded received)
    (hret : k.sleepThread time ns = .ret k') : k'.view.Heeded received := by
  obtain ⟨absolute, w, hsuspend⟩ := sleepThread_cases hret
  exact heeded_of_suspended h hsuspend (.refl _) fun _ _ hp => by cases hp

theorem heeded_of_arbitrate {handle : Option Handle} {addr : UInt32} {typ : ArbitrationType}
    {memoryValue value : Int32} {r : KResult (Option Reschedule)} (h : k.view.Heeded received)
    (hret : k.arbitrateAddress handle addr typ memoryValue value = .ret (r, k')) :
    k'.view.Heeded received := by
  rcases arbitrateAddress_cases hret with rfl | ⟨o, arb, hfound, hcase⟩
  · exact h
  · have hx := lookupObject_eq_ret hfound
    rcases hcase with ⟨woke, hsignal⟩ | ⟨w, k1, hsuspend, rfl⟩
    · refine View.heeds_of_moves (arbiterSignal_moves hx (fun _ _ _ => ⟨trivial, ?_⟩) hsignal) h
      rintro o' p hp ⟨_, rfl⟩
      exact hp
    · obtain ⟨_, _, ⟨self, hself, hkey, hstate, hobjects⟩, _⟩ := suspendThread_view hsuspend
      have ho : o ∈ self.waitObjects := by
        rw [hobjects]
        exact List.mem_cons_self
      obtain ⟨f, hwait, hadds⟩ :=
        arbiterWait_adds w addr ((suspendThread_object? hsuspend o).trans hx)
      have hcalm : Move.Calm (fun t => t = w.thread) (.enqueue o .none w f) :=
        ⟨rfl, fun _ p hp heq => by
          rw [← heq.2] at hp
          exact hp.elim⟩
      rw [hwait]
      exact heeded_of_push h hsuspend (served_of_object? hx fun hp => hp)
        (.single hcalm (.enqueue hself hkey hstate ho hadds))

/-! ### Sessions and ports -/

/-- The waker of a thread that sleeps gets into the queue of an object that it waits on. -/
theorem moves_pushWaker {w : Waker} {objects : List ObjId} (h : k.view.Attends w objects)
    (ho : o ∈ objects) : Moves View.Step (Move.Calm fun t => t = w.thread) k.view
      (k.modifyObject o (KObject.pushWaker w)).view := by
  obtain ⟨self, hself, hkey, hstate, hobjects⟩ := h
  rw [Kernel.view_modifyObject]
  cases hx : k.view.object? o with
  | none => exact .of_eq (View.modify_of_none hx).symm
  | some x =>
    exact .single (calm_enqueue rfl)
      (.enqueue hself hkey hstate (hobjects ▸ ho) (View.adds_pushWaker w hx))

theorem touches_calm {p : Peer} (E : ThreadIndex → Prop) (hp : ¬ p.IsServer) :
    Touches (Move.Calm E) o p := by
  have hne : ∀ o' p', p'.IsServer → ¬ (o = o' ∧ p = p') := by
    rintro o' p' hp' ⟨_, rfl⟩
    exact hp hp'
  exact ⟨fun _ => ⟨trivial, hne⟩, fun _ _ _ => ⟨trivial, hne⟩⟩

/-- The first in the queue of a client end is woken. -/
theorem heeded_of_wakeClient {x : KObject} (h : k.view.Heeded received)
    (hx : k.object? o = some x) (hp : ¬ x.peer.IsServer)
    (hret : wakeFront o x.wakers k = .ret k') : k'.view.Heeded received := by
  have hmade := wakeQueue_madeOf (touches_calm (fun _ => False) hp) hx
  exact View.heeds_of_moves (hmade.returns _ hret) h

/-- A thread that suspends itself on another object leaves the sleepers of this one alone. -/
theorem oneSleeper_of_push {s : ObjId} {timeout : Option UInt64} {waitType : ThreadWaitType}
    {k1 : Kernel} {w : Waker} {f : KObject → KObject} (h : k.OneSleeper s) (hne : s ≠ o)
    (hsuspend : k.suspendThread [o] timeout waitType = .ret (w, k1)) :
    (k1.modifyObject o f).OneSleeper s := by
  obtain ⟨self, _, _, _, hsleepers⟩ := Kernel.suspendThread_sleepers hsuspend
  have hobject : (k1.modifyObject o f).object? s = k.object? s := by
    rw [Kernel.object?_modifyObject, if_neg hne, suspendThread_object? hsuspend]
  have hwakers : (k1.modifyObject o f).wakers s = k.wakers s := by
    unfold Kernel.wakers
    rw [hobject]
  rintro w' ⟨hw', self', hself', hkey, hstate, hs⟩
  have hself1 : Function.update k.sleepers w.thread
      (some (self.suspended [o] timeout waitType)) w'.thread = some self' := hsleepers ▸ hself'
  rw [hwakers]
  have hw' : w' ∈ k.wakers s := hwakers ▸ hw'
  rw [Function.update_apply] at hself1
  split at hself1
  · injection hself1 with hself1
    rw [← hself1] at hs
    exact absurd (List.mem_singleton.mp hs) hne
  · exact h w' ⟨hw', self', hself1, hkey, hstate, hs⟩

theorem heeded_of_sendSyncRequest {handle : Option Handle} {r : KResult (Option Reschedule)}
    (h : k.view.Heeded received)
    (hone : ∀ c session, k.lookupObject handle = .ret (some (c, .clientSession session)) →
      k.OneSleeper session.server)
    (hret : k.sendSyncRequest handle = .ret (r, k')) : k'.view.Heeded received := by
  rcases sendSyncRequest_cases hret with
    rfl | ⟨c, session, w, k1, server, hfound, hsuspend, hs, henqueue⟩
  · exact h
  · have hx := lookupObject_eq_ret hfound
    obtain ⟨_, _, hattends, _⟩ := suspendThread_view hsuspend
    have hne : session.server ≠ c := by
      intro heq
      rw [heq, suspendThread_object? hsuspend, hx] at hs
      cases hs
    have hserved : ¬ k.view.Unserved received c := served_of_object? hx fun hp => hp
    have h1 := heeded_of_push h hsuspend hserved (moves_pushWaker hattends List.mem_cons_self)
    have hs1 : (k1.modifyObject c (KObject.pushWaker w)).object? session.server =
        some (.serverSession server) := by
      rw [Kernel.object?_modifyObject, if_neg hne, hs]
    exact heeded_of_wakeFront h1 hs1 (fun y => by cases y <;> rfl) (KObject.wakers_setRequests _)
      (oneSleeper_of_push (hone c session hfound) hne hsuspend) henqueue

/-- The two ends of a session are new. -/
theorem oneSleeper_makeSessionPair {s : ObjId} (h : k.OneSleeper s) :
    (makeSessionPair k).2.2.OneSleeper s := by
  intro w hs
  have hmake := @makeSessionPair_step k
  have hbefore : k.view.SleepsIn w s :=
    (hmake.sleepsIn (E := fun _ => False) trivial hs).resolve_right fun h => h
  obtain ⟨x, hx, _⟩ := View.mem_wakers.mp hbefore.1
  have hsame : (makeSessionPair k).2.2.wakers s = k.wakers s := by
    have hx : k.object? s = some x := hx
    unfold Kernel.wakers
    rw [object?_makeSessionPair hx, hx]
  rw [hsame]
  exact h w hbefore

theorem heeded_of_createSessionToPort {handle : Option Handle}
    {r : KResult (Option Reschedule × Handle)} (h : k.view.Heeded received)
    (hone : ∀ c port, k.lookupObject handle = .ret (some (c, .clientPort port)) →
      k.OneSleeper port.server)
    (hret : k.createSessionToPort rng fuel handle = .ret (r, k')) :
    k'.view.Heeded received := by
  rcases createSessionToPort_cases hret with
    rfl | ⟨c, port, server, k1, w, k2, given, hfound, hs, henqueue, hsuspend, hgiven⟩
  · exact h
  · have hx := lookupObject_eq_ret hfound
    rw [(Kernel.newHandle_processes hgiven).view]
    -- the session is queued
    have hmake := @makeSessionPair_step k
    have h0 : (makeSessionPair k).2.2.view.Heeded received :=
      hmake.heeds ⟨trivial, fun _ _ _ => trivial⟩ h
    have h1 := heeded_of_wakeFront h0 hs (fun y => by cases y <;> rfl)
      (KObject.wakers_setSessions _) (oneSleeper_makeSessionPair (hone c port hfound)) henqueue
    -- the thread waits at the client end
    have hne : port.server ≠ c := by
      intro heq
      rw [heq, object?_makeSessionPair hx] at hs
      cases hs
    obtain ⟨ws, g, hact, _⟩ := wakeFront_step hs (fun y => by cases y <;> rfl)
      (KObject.wakers_setSessions _) henqueue
    have hserved : ¬ k1.view.Unserved received c := by
      intro hu
      have hu0 := hact.unserved (fun p _ heq => hne heq.1) hu
      exact served_of_object? hx (fun hp => hp) (hmake.unserved (fun _ _ => trivial) hu0)
    obtain ⟨_, _, hattends, _⟩ := suspendThread_view hsuspend
    exact heeded_of_push h1 hsuspend hserved (moves_pushWaker hattends List.mem_cons_self)

/-- A server end loses the first in its queue. -/
theorem heeded_of_pop {received' : ObjId → Bool} {x : KObject} {f : KObject → KObject}
    (h : k.view.Heeded received) (hx : k.object? o = some x) (hp : ∀ y, (f y).peer = y.peer)
    (hf : ∀ y : KObject, (f y).wakers = y.wakers)
    (hsame : ∀ q, q ≠ o → received' q = received q)
    (hu : (k.modifyObject o f).view.Unserved received' o → k.view.Unserved received o) :
    (k.modifyObject o f).view.Heeded received' := by
  have hv : k.view.object? o = some x := hx
  have hstep : View.Step k.view (.change o x.peer f) (k.modifyObject o f).view :=
    .change (View.adds_of_wakers [] hv hp hf)
  refine View.Heeds.of_step h hstep trivial fun q hq => ?_
  by_cases ho : q = o
  · rw [ho] at hq ⊢
    exact hu hq
  · refine hstep.unserved (fun p _ heq => ho heq.1.symm) ?_
    unfold View.Unserved View.unreceived at hq ⊢
    rw [hsame q ho] at hq
    exact hq

theorem heeded_of_acceptSession {handle : Option Handle} {r : KResult (Handle ⊕ Reschedule)}
    (h : k.view.Heeded received) (hret : k.acceptSession rng fuel handle = .ret (r, k')) :
    k'.view.Heeded received := by
  rcases acceptSession_cases hret with rfl | ⟨s, port, hfound, hcase⟩
  · exact h
  · have hx := lookupObject_eq_ret hfound
    have hunserved : k.view.Unserved received s ↔ port.sessionQueue ≠ [] := by
      rw [View.unserved_iff (show k.view.object? s = some _ from hx)]
      simp [KObject.requests, KObject.sessions]
    rcases hcase with
      ⟨hqueue, hwait⟩ | ⟨first, rest, c, data, k1, given, hqueue, _, hclient, hwake, hgiven⟩
    · -- the thread waits for a session
      refine heeded_of_waitOn h hx (Or.inr fun p hp hu => ?_) hwait
      rw [List.mem_singleton.mp hp] at hu
      exact hunserved.mp hu hqueue
    · rw [(Kernel.newHandle_processes hgiven).view]
      have hpop := heeded_of_pop (f := KObject.setSessions rest) h hx
        (fun y => by cases y <;> rfl) (KObject.wakers_setSessions rest) (fun _ _ => rfl)
        fun _ => hunserved.mpr (by simp [hqueue])
      exact heeded_of_wakeClient hpop (clientPort?_eq_some hclient) (fun hp => hp) hwake

/-- A reply takes a request, received or not, and wakes a client. -/
theorem heeded_of_reply {received' : ObjId → Bool} {session : ServerSessionHLE}
    {server : ThreadIndex} (hn : k.indices.Nodup) (h : k.view.Heeded received)
    (hx : k.object? o = some (.serverSession session))
    (hsame : ∀ q, q ≠ o → received' q = received q)
    (hret : session.reply rng fuel o server k = .ret k') : k'.view.Heeded received' := by
  obtain ⟨client, rest, k1, c, data, hqueue, htranslate, hdata, hwake⟩ := reply_cases hret
  have hpop : (k.modifyObject o (KObject.setRequests rest)).view.Heeded received' := by
    refine heeded_of_pop h hx (fun y => by cases y <;> rfl) (KObject.wakers_setRequests rest)
      hsame fun hu => ?_
    have hx' : (k.modifyObject o (KObject.setRequests rest)).view.object? o =
        some (.serverSession { session with requestQueue := rest }) := by
      show (k.modifyObject o (KObject.setRequests rest)).object? o = _
      rw [Kernel.object?_modifyObject, if_pos rfl, hx]
      rfl
    rw [View.unserved_iff hx'] at hu
    rw [View.unserved_iff (show k.view.object? o = some _ from hx)]
    have hrest : rest ≠ [] := by
      rintro rfl
      simp [KObject.requests, KObject.sessions] at hu
    left
    simp only [KObject.requests, hqueue]
    split
    · exact hrest
    · exact List.cons_ne_nil client rest
  have hview := Kernel.translateIpc_view (by exact hn) htranslate
  rw [← hview] at hpop
  exact heeded_of_wakeClient hpop (clientSession?_eq_some hdata) (fun hp => hp) hwake

theorem suspends_of_arbitrates {l : SvcStep} (h : l.arbitrates = true) : l.suspends = true := by
  cases l with
  | call c => cases c <;> first | rfl | cases h
  | _ => cases h

/-- A step that puts no thread to sleep. -/
theorem heeded_of_steady {l : SvcStep} (hn : k.indices.Nodup) (h : k.view.Heeded received)
    (hl : l.suspends = false) (henabled : l.enabled k = true) (hret : l.exec rng fuel k = .ret k') :
    k'.view.Heeded received := by
  have hmay : l.May (Move.Calm fun _ => False) rng True k := by
    cases l with
    | call c => cases c <;> trivial
    | _ => trivial
  have hsuspends : l.suspends = true → Usual (Move.Calm fun _ => False) := by
    rw [hl]
    exact fun h => by cases h
  have harbitrates : l.arbitrates = true → Common (Move.Calm fun _ => False) := by
    intro harb
    rw [suspends_of_arbitrates harb] at hl
    cases hl
  have hmade := svcStep_usual fuel (steady_calm _) hsuspends harbitrates hn henabled hmay
  exact View.heeds_of_moves (hmade.returns _ hret) h

end Calls

/-! ## Runs -/

namespace ReceiveTrace

variable {rng : Nat → UInt32} {s s' : ReceiveTrace} {l : SvcStep} {k : Kernel}

theorem receiver?_pre {time : UInt64} {handles : List (Option Handle)}
    {replyTarget : Option Handle} (o : ObjId) :
    k.receiver? o (.call (.replyAndReceivePre time handles replyTarget)) = none := rfl

/-- A reply changes what was received at its own session only. -/
theorem received_of_reply {time : UInt64} {handles : List (Option Handle)}
    {replyTarget : Option Handle} {k1 : Kernel} {o : ObjId}
    (h : ∀ session, s.kernel.lookupObject replyTarget ≠ .ret (some (o, .serverSession session))) :
    (s.after (.call (.replyAndReceivePre time handles replyTarget)) k1).received o =
      s.received o := by
  have hnone : s.kernel.replier? o (.call (.replyAndReceivePre time handles replyTarget)) =
      none := by
    unfold Kernel.replier?
    dsimp only
    split
    · rename_i o' session _ tid hfound _
      by_cases ho : o' = o
      · exact absurd (ho ▸ hfound) (h session)
      · exact if_neg ho
    · rfl
  unfold after
  dsimp only
  rw [hnone, receiver?_pre]
  rfl

/-- A receive leaves nothing unserved that was not. -/
theorem unserved_of_receive {v : View} {handles : List (Option Handle)} {resume : ThreadResume}
    {o : ObjId} (h : v.Unserved (s.after (.call (.replyAndReceivePost handles resume)) k).received o) :
    v.Unserved s.received o := by
  unfold View.Unserved View.unreceived at h ⊢
  refine h.imp_left fun h => ?_
  unfold after at h
  dsimp only at h
  split at h
  · -- the first request is received now
    split
    · exact h
    · intro hnil
      rw [hnil] at h
      exact h rfl
  · exact h

/-- Between two steps no thread sleeps where something is unserved. -/
structure Inv (s : ReceiveTrace) : Prop where
  tidy : s.kernel.view.Tidy
  heeded : s.kernel.view.Heeded s.received

theorem Inv.init (h : (receiveSystem rng).init s) : s.Inv := by
  have h : s = ⟨Kernel.new, fun _ => false⟩ := h
  subst h
  refine ⟨View.tidy_new, fun o w hs => ?_⟩
  obtain ⟨x, hx, _⟩ := View.mem_wakers.mp hs.1
  cases hx

/-- The reply, and then the wait. -/
theorem heeded_of_replyAndReceive {fuel : Nat} {time : UInt64} {handles : List (Option Handle)}
    {replyTarget : Option Handle} {r : KResult (Option Reschedule)} (h : s.Inv)
    (hwatch : s.Watchful rng (.call (.replyAndReceivePre time handles replyTarget)))
    (hret : s.kernel.replyAndReceivePre rng fuel time handles replyTarget = .ret (r, k)) :
    k.view.Heeded
      (s.after (.call (.replyAndReceivePre time handles replyTarget)) k).received := by
  obtain ⟨⟨replied, k1⟩, hreplyTo, hwait⟩ := bind_eq_ret.mp hret
  have hreplied : k1.view.Heeded
      (s.after (.call (.replyAndReceivePre time handles replyTarget)) k1).received := by
    by_cases hfound : ∃ o session,
        s.kernel.lookupObject replyTarget = .ret (some (o, .serverSession session))
    · obtain ⟨o, session, hfound⟩ := hfound
      obtain ⟨_, server, _, _, hreply⟩ := replyTo_of_found hfound hreplyTo
      refine heeded_of_reply h.tidy.nodup h.heeded (lookupObject_eq_ret hfound) (fun q hq => ?_)
        hreply
      refine received_of_reply fun session' hfound' => ?_
      rw [hfound] at hfound'
      injection hfound' with hfound'
      injection hfound' with hfound'
      exact hq (Prod.mk.inj hfound').1.symm
    · have hsame : k1 = s.kernel := by
        unfold Kernel.replyTo at hreplyTo
        split at hreplyTo
        · injection hreplyTo with hreplyTo
          exact (Prod.mk.inj hreplyTo).2.symm
        · obtain ⟨current, _, hreplyTo⟩ := bind_eq_ret.mp hreplyTo
          obtain ⟨found, hlookup, hreplyTo⟩ := bind_eq_ret.mp hreplyTo
          split at hreplyTo
          · exact absurd ⟨_, _, mapPanic_eq_ret.mp hlookup⟩ hfound
          · injection hreplyTo with hreplyTo
            exact (Prod.mk.inj hreplyTo).2.symm
      have hreceived : (s.after (.call (.replyAndReceivePre time handles replyTarget)) k1).received =
          s.received := by
        funext o
        exact received_of_reply fun session hlookup => hfound ⟨o, session, hlookup⟩
      rw [hreceived, hsame]
      exact h.heeded
  dsimp only at hwait
  split at hwait
  · exact heeded_of_waitSyncN hreplied (hwatch fuel k1 hreplyTo) (mapPanic_eq_ret.mp hwait)
  · injection hwait with hwait
    obtain ⟨_, rfl⟩ := Prod.mk.inj hwait
    exact hreplied

theorem Inv.step (h : s.Inv) (hwatch : s.Watchful rng l) (hstep : (receiveSystem rng).step s l s') :
    s'.Inv := by
  obtain ⟨k, hstep, rfl⟩ := hstep
  have htidy : k.view.Tidy := tidy_of_step h.tidy hstep
  refine ⟨htidy, ?_⟩
  obtain ⟨henabled, fuel, hexec⟩ := hstep
  cases l with
  | call c =>
    cases c with
    | waitSync1 time handle timeout =>
      obtain ⟨r, hret⟩ := liftCall_eq_ret.mp hexec
      exact heeded_of_waitSync1 h.heeded hwatch hret
    | waitSyncN time handles waitAll timeout =>
      obtain ⟨r, hret⟩ := liftCall_eq_ret.mp hexec
      exact heeded_of_waitSyncN h.heeded hwatch hret
    | sleepThread time ns => exact heeded_of_sleepThread h.heeded (mapPanic_eq_ret.mp hexec)
    | arbitrateAddress handle addr typ memoryValue value =>
      obtain ⟨r, hret⟩ := liftCall_eq_ret.mp hexec
      exact heeded_of_arbitrate h.heeded hret
    | replyAndReceivePre time handles replyTarget =>
      obtain ⟨r, hret⟩ := afterCall_eq_ret.mp hexec
      exact heeded_of_replyAndReceive h hwatch hret
    | replyAndReceivePost handles resume =>
      obtain ⟨r, hret⟩ := liftCall_eq_ret.mp hexec
      have hview := replyAndReceivePost_view h.tidy.nodup hret
      intro o w hs hu
      have hs : k.view.SleepsIn w o := hs
      rw [hview] at hs
      have hu := unserved_of_receive hu
      have hu : k.view.Unserved s.received o := hu
      rw [hview] at hu
      exact h.heeded o w hs hu
    | sendSyncRequest handle =>
      obtain ⟨r, hret⟩ := afterCall_eq_ret.mp hexec
      exact heeded_of_sendSyncRequest h.heeded hwatch hret
    | createSessionToPort handle =>
      obtain ⟨r, hret⟩ := afterCall_eq_ret.mp hexec
      exact heeded_of_createSessionToPort h.heeded hwatch hret
    | acceptSession handle =>
      obtain ⟨r, hret⟩ := afterCall_eq_ret.mp hexec
      exact heeded_of_acceptSession h.heeded hret
    | _ => exact heeded_of_steady h.tidy.nodup h.heeded rfl henabled hexec
  | _ => exact heeded_of_steady h.tidy.nodup h.heeded rfl henabled hexec

end ReceiveTrace

/-- **No wake-up of a server thread is lost.** In a run whose waits go to sleep only where nothing
    is unserved, and in which a request or a session is queued only where no more than one thread
    sleeps, no thread ever sleeps in the queue of a session with a request that was not received,
    or in the queue of a port with a session. -/
theorem noLostWake {rng : Nat → UInt32} {tr : List (ReceiveTrace × SvcStep)} {s : ReceiveTrace}
    (h : Run (receiveSystem rng) tr s) (hc : EveryStep (fun s l => s.Watchful rng l) tr) :
    EveryState ReceiveTrace.NoLostWake tr s :=
  h.every_of (I := ReceiveTrace.Inv) (fun _ hinit => ReceiveTrace.Inv.init hinit)
    (fun _ _ _ hs hwatch hstep => hs.step hwatch hstep) (fun _ hs => hs.heeded) hc

/-! ## Runs on fixed steps -/

namespace ReceiveTrace

/-- Waits where nothing is queued, requests and sessions where at most one waker is. A reply waits
    for nothing after it. -/
def watchful (k : Kernel) : SvcStep → Bool
  | .call (.waitSync1 _ _ _) => false
  | .call (.waitSyncN _ handles _ _) =>
    match k.waitedObjects handles with
    | .ret objects => objects.all fun o =>
      (k.object? o).all fun x => x.requests.isEmpty && x.sessions.isEmpty
    | _ => true
  | .call (.replyAndReceivePre _ handles _) => handles.isEmpty
  | .call (.sendSyncRequest handle) =>
    match k.lookupObject handle with
    | .ret (some (_, .clientSession session)) => decide ((k.wakers session.server).length ≤ 1)
    | _ => true
  | .call (.createSessionToPort handle) =>
    match k.lookupObject handle with
    | .ret (some (_, .clientPort port)) => decide ((k.wakers port.server).length ≤ 1)
    | _ => true
  | _ => true

theorem oneSleeper_of_length {k : Kernel} {o : ObjId} (h : (k.wakers o).length ≤ 1) :
    k.OneSleeper o := by
  rintro w ⟨hw, _⟩
  have hw : w ∈ k.wakers o := hw
  match hwakers : k.wakers o with
  | [] =>
    rw [hwakers] at hw
    cases hw
  | [w'] =>
    rw [hwakers] at hw
    rw [List.mem_singleton.mp hw]
    rfl
  | _ :: _ :: _ =>
    rw [hwakers] at h
    simp at h

theorem watchful_of_test {rng : Nat → UInt32} {s : ReceiveTrace} {l : SvcStep}
    (h : watchful s.kernel l = true) : s.Watchful rng l := by
  cases l with
  | call c =>
    cases c with
    | waitSync1 time handle timeout => cases h
    | waitSyncN time handles waitAll timeout =>
      intro objects hwaited
      unfold watchful at h
      dsimp only at h
      rw [hwaited] at h
      refine Or.inr fun o ho hu => ?_
      obtain ⟨x, hx⟩ := hu.object?
      have hempty := List.all_eq_true.mp h o ho
      rw [show s.kernel.object? o = some x from hx] at hempty
      obtain ⟨hrequests, hsessions⟩ := Bool.and_eq_true_iff.mp hempty
      rw [View.unserved_iff hx, List.isEmpty_iff.mp hrequests,
        List.isEmpty_iff.mp hsessions] at hu
      simp at hu
    | replyAndReceivePre time handles replyTarget =>
      intro fuel k _ objects hwaited
      rw [List.isEmpty_iff.mp h] at hwaited
      injection hwaited with hwaited
      exact Or.inr fun o ho => by
        rw [← hwaited] at ho
        cases ho
    | sendSyncRequest handle =>
      intro c session hfound
      unfold watchful at h
      dsimp only at h
      rw [hfound] at h
      exact oneSleeper_of_length (of_decide_eq_true h)
    | createSessionToPort handle =>
      intro c port hfound
      unfold watchful at h
      dsimp only at h
      rw [hfound] at h
      exact oneSleeper_of_length (of_decide_eq_true h)
    | _ => trivial
  | _ => trivial

def step? (rng : Nat → UInt32) (fuel : Nat) (s : ReceiveTrace) (l : SvcStep) :
    Option ReceiveTrace :=
  (svcStep? rng fuel s.kernel l).map (s.after l)

theorem step_of_step? {rng : Nat → UInt32} {fuel : Nat} {s s' : ReceiveTrace} {l : SvcStep}
    (h : s.step? rng fuel l = some s') : (receiveSystem rng).step s l s' := by
  obtain ⟨k, hk, rfl⟩ := Option.map_eq_some_iff.mp h
  exact ⟨k, step_of_svcStep? hk, rfl⟩

def watchfulStep? (rng : Nat → UInt32) (fuel : Nat) (s : ReceiveTrace) (l : SvcStep) :
    Option ReceiveTrace :=
  if watchful s.kernel l then s.step? rng fuel l else none

theorem step_of_watchfulStep? {rng : Nat → UInt32} {fuel : Nat} {s s' : ReceiveTrace}
    {l : SvcStep} (h : s.watchfulStep? rng fuel l = some s') :
    (receiveSystem rng).step s l s' ∧ s.Watchful rng l := by
  unfold watchfulStep? at h
  split at h
  · rename_i hwatch
    exact ⟨step_of_step? h, watchful_of_test hwatch⟩
  · cases h

end ReceiveTrace

/-- A thread waits for the request of another, receives it and replies. -/
theorem noLostWake_sample : ∃ (tr : List (ReceiveTrace × SvcStep)) (s : ReceiveTrace),
    Run (receiveSystem UInt32.ofNat) tr s ∧
      s.kernel.object? 2 = some (.serverSession ⟨[], [], some 3⟩) ∧
      EveryState ReceiveTrace.NoLostWake tr s := by
  have hrun : (runAll (ReceiveTrace.watchfulStep? UInt32.ofNat 4) ⟨Kernel.new, fun _ => false⟩
      [.newProcess .hle, .newThread 0, .newThread 0, .runNext, .call .makeSessionPair,
        .call (.newHandle 2), .call (.newHandle 3), .call (.sleepThread 0 10), .stop 0, .runNext,
        .call (.waitSyncN 0 [Handle.fromRaw 1] false (-1)), .stop 1, .tick 20 [], .runNext,
        .call (.sendSyncRequest (Handle.fromRaw 2)), .stop 0, .runNext,
        .call (.replyAndReceivePost [Handle.fromRaw 1] (.waitSyncN 0)),
        .call (.replyAndReceivePre 20 [] (Handle.fromRaw 1))]).map (fun s => s.kernel.object? 2) =
      some (some (.serverSession ⟨[], [], some 3⟩)) := by
    decide +kernel
  obtain ⟨s, hs, hx⟩ := Option.map_eq_some_iff.mp hrun
  obtain ⟨tr, htr, hc⟩ := Run.every_of_runAll
    (fun _ _ _ hst => ReceiveTrace.step_of_watchfulStep? hst)
    (.start (M := receiveSystem UInt32.ofNat) rfl) (everyStep_nil _) hs
  exact ⟨tr, s, htr, hx, noLostWake htr hc⟩

/-- Two threads send requests to a third, which receives the first. It replies, and waits for the
    next: it sleeps, though the request of the other thread is queued. -/
theorem noLostWake_fails : ∃ (tr : List (ReceiveTrace × SvcStep)) (s : ReceiveTrace),
    Run (receiveSystem UInt32.ofNat) tr s ∧
      s.kernel.object? 3 = some (.serverSession ⟨[⟨2, 1⟩], [1], some 4⟩) ∧
      s.received 3 = false ∧ ¬ s.NoLostWake := by
  have hrun : (runAll (ReceiveTrace.step? UInt32.ofNat 4) ⟨Kernel.new, fun _ => false⟩
      [.newProcess .hle, .newThread 0, .newThread 0, .newThread 0, .runNext,
        .call .makeSessionPair, .call (.newHandle 3), .call (.newHandle 4),
        .call (.sleepThread 0 10), .stop 0, .runNext, .call (.sleepThread 0 10), .stop 1, .runNext,
        .call (.waitSyncN 0 [Handle.fromRaw 1] false (-1)), .stop 2, .tick 20 [], .runNext,
        .call (.sendSyncRequest (Handle.fromRaw 2)), .stop 0, .runNext,
        .call (.sendSyncRequest (Handle.fromRaw 2)), .stop 1, .runNext,
        .call (.replyAndReceivePost [Handle.fromRaw 1] (.waitSyncN 0)),
        .call (.replyAndReceivePre 20 [Handle.fromRaw 1] (Handle.fromRaw 1))]).map (fun s =>
        (s.kernel.object? 3, s.received 3, s.kernel.sleepers 2)) =
      some (some (.serverSession ⟨[⟨2, 1⟩], [1], some 4⟩), false,
        some ⟨.waiting, [3], 1, none, some .waitSyncN⟩) := by
    decide +kernel
  obtain ⟨s, hs, hview⟩ := Option.map_eq_some_iff.mp hrun
  obtain ⟨hx, hview⟩ := Prod.mk.inj hview
  obtain ⟨hreceived, hself⟩ := Prod.mk.inj hview
  obtain ⟨tr, htr⟩ := Run.of_runAll (fun _ _ _ hst => ReceiveTrace.step_of_step? hst)
    (.start (M := receiveSystem UInt32.ofNat) rfl) hs
  have hv : s.kernel.view.object? 3 = some (.serverSession ⟨[⟨2, 1⟩], [1], some 4⟩) := hx
  have hasleep : s.kernel.view.SleepsIn ⟨2, 1⟩ 3 :=
    ⟨View.mem_wakers.mpr ⟨_, hv, List.mem_cons_self⟩, _, hself, rfl, rfl, List.mem_cons_self⟩
  refine ⟨tr, s, htr, hx, hreceived, fun hnone => hnone 3 ⟨2, 1⟩ hasleep ?_⟩
  rw [View.unserved_iff hv, hreceived]
  exact Or.inl (List.cons_ne_nil _ _)

end Pomelo
