/-
  What a supervisor call that returned has done.

  One lemma a call: it has left the kernel as it was, or it is made of these calls, with these
  results. What the other modules say of a call, of one object or of the whole view, starts from
  its lemma here.
-/
import Pomelo.Hle.Svc

namespace Pomelo

open Lib Outcome

variable {rng : Nat → UInt32} {fuel : Nat} {time : UInt64} {k k' : Kernel}

/-! ## References -/

theorem lookupObject_eq_ret {handle : Option Handle} {p : ObjId} {x : KObject}
    (h : k.lookupObject handle = .ret (some (p, x))) : k.object? p = some x := by
  unfold Kernel.lookupObject at h
  obtain ⟨object, _, h⟩ := bind_eq_ret.mp h
  injection h with h
  obtain ⟨q, _, h⟩ := Option.bind_eq_some_iff.mp h
  obtain ⟨y, hy, h⟩ := Option.map_eq_some_iff.mp h
  obtain ⟨rfl, rfl⟩ := Prod.mk.inj h
  exact hy

/-- A call of the emulated kernel goes on with what a call of the kernel returns. -/
theorem lift_bind {α β : Type} {x : Exec α} {a : α} (hx : x = .ret a) (f : α → HleExec β) :
    (liftM x : HleExec α) >>= f = f a := by
  rw [hx]
  rfl

theorem clientSession?_eq_some {client : Option ObjId} {p : ObjId} {self : ClientSessionHLE}
    (h : k.clientSession? client = some (p, self)) : k.object? p = some (.clientSession self) := by
  unfold Kernel.clientSession? at h
  obtain ⟨q, _, h⟩ := Option.bind_eq_some_iff.mp h
  split at h
  · rename_i hq
    injection h with h
    obtain ⟨rfl, rfl⟩ := Prod.mk.inj h
    exact hq
  · cases h

theorem clientPort?_eq_some {client : Option ObjId} {p : ObjId} {self : ClientPortHLE}
    (h : k.clientPort? client = some (p, self)) : k.object? p = some (.clientPort self) := by
  unfold Kernel.clientPort? at h
  obtain ⟨q, _, h⟩ := Option.bind_eq_some_iff.mp h
  split at h
  · rename_i hq
    injection h with h
    obtain ⟨rfl, rfl⟩ := Prod.mk.inj h
    exact hq
  · cases h

theorem serverSession?_eq_some {p : ObjId} {self : ServerSessionHLE}
    (h : k.serverSession? p = some self) : k.object? p = some (.serverSession self) := by
  unfold Kernel.serverSession? at h
  split at h
  · rename_i hp
    injection h with h
    rw [hp, h]
  · cases h

theorem serverPort?_eq_some {p : ObjId} {self : ServerPortHLE}
    (h : k.serverPort? p = some self) : k.object? p = some (.serverPort self) := by
  unfold Kernel.serverPort? at h
  split at h
  · rename_i hp
    injection h with h
    rw [hp, h]
  · cases h

/-! ## What is made -/

theorem createObject_cases {data : KObject} {r : KResult Handle}
    (h : k.createObject rng fuel data = .ret (r, k')) :
    ∃ handle, (k.newObject data).2.newHandle rng fuel k.objects.length = .ret (handle, k') := by
  obtain ⟨⟨object, handle, k1⟩, hmake, h⟩ := bind_eq_ret.mp h
  obtain ⟨⟨given, k2⟩, hnew, hmake⟩ := bind_eq_ret.mp hmake
  cases hmake
  cases h
  exact ⟨handle, hnew⟩

theorem createThreadNext_cases (h : k.createThreadNext rng fuel = .ret k') :
    ∃ pid tid object k1 handle k2, k.newThread pid = .ret (tid, object, k1) ∧
      k1.newHandle rng fuel object = .ret (handle, k2) ∧ k' = k2.scheduleNext tid := by
  obtain ⟨⟨index, handle, k2⟩, hcreate, h⟩ := bind_eq_ret.mp h
  cases h
  obtain ⟨⟨pid, _⟩, _, hcreate⟩ := bind_eq_ret.mp hcreate
  obtain ⟨_, _, hcreate⟩ := bind_eq_ret.mp hcreate
  obtain ⟨_, _, hcreate⟩ := bind_eq_ret.mp hcreate
  obtain ⟨⟨tid, object, k1⟩, hthread, hcreate⟩ := bind_eq_ret.mp hcreate
  obtain ⟨⟨given, k3⟩, hnew, hcreate⟩ := bind_eq_ret.mp hcreate
  cases hcreate
  exact ⟨pid, index, object, k1, handle, k2, hthread, hnew, rfl⟩

/-! ## Waiting -/

theorem waitSync1_cases {handle : Option Handle} {timeout : Int64}
    {r : KResult (Option Reschedule)} (h : k.waitSync1 time handle timeout = .ret (r, k')) :
    k' = k ∨ ∃ o x absolute, k.lookupObject handle = .ret (some (o, x)) ∧
      k.waitOn o x absolute = .ret k' := by
  obtain ⟨found, hfound, h⟩ := bind_eq_ret.mp h
  split at h
  · split at h
    · obtain ⟨absolute, _, h⟩ := bind_eq_ret.mp h
      obtain ⟨k1, hwait, h⟩ := bind_eq_ret.mp h
      cases h
      exact Or.inr ⟨_, _, absolute, hfound, hwait⟩
    · cases h
      exact Or.inl rfl
  · cases h
    exact Or.inl rfl

theorem waitSyncN_cases {handles : List (Option Handle)} {waitAll : Bool} {timeout : Int64}
    {r : KResult (Option Reschedule)}
    (h : k.waitSyncN time handles waitAll timeout = .ret (r, k')) :
    ∃ objects absolute w k1, k.waitedObjects handles = .ret objects ∧
      k.suspendThread objects absolute .waitSyncN = .ret (w, k1) ∧
      Kernel.waitEach w objects k1 = .ret k' := by
  obtain ⟨_, _, h⟩ := bind_eq_ret.mp h
  obtain ⟨objects, hwaited, h⟩ := bind_eq_ret.mp h
  obtain ⟨absolute, _, h⟩ := bind_eq_ret.mp h
  obtain ⟨⟨w, k1⟩, hsuspend, h⟩ := bind_eq_ret.mp h
  obtain ⟨k2, hwait, h⟩ := bind_eq_ret.mp h
  cases h
  exact ⟨objects, absolute, w, k1, hwaited, hsuspend, hwait⟩

theorem sleepThread_cases {ns : Int64} (h : k.sleepThread time ns = .ret k') :
    ∃ absolute w, k.suspendThread [] absolute .sleep = .ret (w, k') := by
  obtain ⟨absolute, _, h⟩ := bind_eq_ret.mp h
  obtain ⟨⟨w, k1⟩, hsuspend, h⟩ := bind_eq_ret.mp h
  cases h
  exact ⟨absolute, w, hsuspend⟩

/-- A thread that signals does not wait. -/
theorem arbitrate_signal {typ : ArbitrationType} {memoryValue value : Int32}
    (h : (typ.arbitrate memoryValue value).1 = some .signal) :
    (typ.arbitrate memoryValue value).2 = none := by
  cases typ with
  | signal => rfl
  | waitIfLessThan => cases h
  | waitIfLessThanTimeout => cases h
  | decrementAndWaitIfLessThan =>
    unfold ArbitrationType.arbitrate at h
    dsimp only at h
    split at h <;> cases h
  | decrementAndWaitIfLessThanTimeout =>
    unfold ArbitrationType.arbitrate at h
    dsimp only at h
    split at h <;> cases h

/-- The arbiter is signalled, or the thread waits on it. -/
theorem arbitrateAddress_cases {handle : Option Handle} {addr : UInt32} {typ : ArbitrationType}
    {memoryValue value : Int32} {r : KResult (Option Reschedule)}
    (h : k.arbitrateAddress handle addr typ memoryValue value = .ret (r, k')) :
    k' = k ∨ ∃ o arb, k.lookupObject handle = .ret (some (o, .arbiter arb)) ∧
      ((∃ woke, arb.signal o value addr k = .ret (woke, k')) ∨
        ∃ w k1, k.suspendThread [o] none .arbiter = .ret (w, k1) ∧
          k' = ArbiterImpl.wait w addr o k1) := by
  obtain ⟨found, hfound, h⟩ := bind_eq_ret.mp h
  split at h
  · rename_i o arb
    have hfail := @arbitrate_signal typ memoryValue value
    generalize typ.arbitrate memoryValue value = result at h hfail
    obtain ⟨action, fail⟩ := result
    obtain ⟨k1, haction, hrest⟩ := bind_eq_ret.mp h
    unfold Kernel.arbitrateAction at haction
    split at haction
    · have hfail : fail = none := hfail rfl
      subst hfail
      obtain ⟨⟨woke, k2⟩, hsignal, haction⟩ := bind_eq_ret.mp haction
      cases haction
      cases hrest
      exact Or.inr ⟨o, arb, hfound, Or.inl ⟨woke, hsignal⟩⟩
    all_goals
      cases haction
      split at hrest
      · cases hrest
        exact Or.inl rfl
      · obtain ⟨⟨w, k2⟩, hsuspend, hrest⟩ := bind_eq_ret.mp hrest
        cases hrest
        exact Or.inr ⟨o, arb, hfound, Or.inr ⟨w, k2, hsuspend, rfl⟩⟩
      · cases hrest
  · cases h
    exact Or.inl rfl

/-! ## Sessions -/

theorem reply_cases {o : ObjId} {session : ServerSessionHLE} {server : ThreadIndex}
    (h : session.reply rng fuel o server k = .ret k') :
    ∃ client rest k1 c data, session.requestQueue = client :: rest ∧
      (k.modifyObject o (KObject.setRequests rest)).translateIpc rng fuel server client true =
        .ret k1 ∧
      k1.clientSession? session.client = some (c, data) ∧
      wakeFront c data.wakerQueue k1 = .ret k' := by
  unfold ServerSessionHLE.reply at h
  split at h
  · cases h
  · rename_i client rest hqueue
    obtain ⟨k1, htranslate, hanswer⟩ := bind_eq_ret.mp h
    obtain ⟨⟨c, data⟩, hdata, hwake⟩ := bind_eq_ret.mp hanswer
    exact ⟨client, rest, k1, c, data, hqueue, mapPanic_eq_ret.mp htranslate,
      expect_eq_ret.mp hdata, hwake⟩

theorem replyTo_of_found {replyTarget : Option Handle} {o : ObjId} {session : ServerSessionHLE}
    {r : KResult Unit}
    (hfound : k.lookupObject replyTarget = .ret (some (o, .serverSession session)))
    (h : k.replyTo rng fuel replyTarget = .ret (r, k')) :
    ∃ pid server, k.current = some (pid, server) ∧ r = .ok () ∧
      session.reply rng fuel o server k = .ret k' := by
  unfold Kernel.replyTo at h
  split at h
  · cases hfound
  · obtain ⟨⟨pid, server⟩, hcurrent, h⟩ := bind_eq_ret.mp h
    have hcurrent := Kernel.currentPidTid_eq_ret.mp (mapPanic_eq_ret.mp hcurrent)
    have h := (lift_bind hfound _).symm.trans h
    obtain ⟨k1, hreply, h⟩ := bind_eq_ret.mp h
    cases h
    exact ⟨pid, server, hcurrent, rfl, hreply⟩

theorem replyTo_cases {replyTarget : Option Handle} {r : KResult Unit}
    (h : k.replyTo rng fuel replyTarget = .ret (r, k')) :
    k' = k ∨ ∃ pid server o session, k.current = some (pid, server) ∧
      k.lookupObject replyTarget = .ret (some (o, .serverSession session)) ∧ r = .ok () ∧
      session.reply rng fuel o server k = .ret k' := by
  have hcall := h
  unfold Kernel.replyTo at h
  split at h
  · cases h
    exact Or.inl rfl
  · obtain ⟨_, _, h⟩ := bind_eq_ret.mp h
    obtain ⟨found, hfound, h⟩ := bind_eq_ret.mp h
    have hfound := mapPanic_eq_ret.mp hfound
    split at h
    · obtain ⟨pid, server, hcurrent, hr, hreply⟩ := replyTo_of_found hfound hcall
      exact Or.inr ⟨pid, server, _, _, hcurrent, hfound, hr, hreply⟩
    · cases h
      exact Or.inl rfl

theorem replyAndReceivePre_cases {handles : List (Option Handle)} {replyTarget : Option Handle}
    {r : KResult (Option Reschedule)}
    (h : k.replyAndReceivePre rng fuel time handles replyTarget = .ret (r, k')) :
    ∃ replied k1, k.replyTo rng fuel replyTarget = .ret (replied, k1) ∧
      (k' = k1 ∨ replied = .ok () ∧ k1.waitSyncN time handles false (-1) = .ret (r, k')) := by
  obtain ⟨⟨replied, k1⟩, hreply, h⟩ := bind_eq_ret.mp h
  refine ⟨replied, k1, hreply, ?_⟩
  dsimp only at h
  split at h
  · exact Or.inr ⟨rfl, mapPanic_eq_ret.mp h⟩
  · cases h
    exact Or.inl rfl

theorem replyAndReceivePost_cases {handles : List (Option Handle)} {resume : ThreadResume}
    {r : Nat × KResult Unit}
    (h : k.replyAndReceivePost rng fuel handles resume = .ret (r, k')) :
    k' = k ∨ ∃ client server, k.translateIpc rng fuel client server false = .ret k' := by
  unfold Kernel.replyAndReceivePost at h
  split at h
  · obtain ⟨handle, _, h⟩ := bind_eq_ret.mp h
    obtain ⟨found, _, h⟩ := bind_eq_ret.mp h
    split at h
    · obtain ⟨current, _, h⟩ := bind_eq_ret.mp h
      obtain ⟨⟨received, k1⟩, hreceive, h⟩ := bind_eq_ret.mp h
      cases h
      unfold ServerSessionHLE.receive at hreceive
      split at hreceive
      · cases hreceive
        exact Or.inl rfl
      · obtain ⟨k2, htranslate, hreceive⟩ := bind_eq_ret.mp hreceive
        cases hreceive
        exact Or.inr ⟨_, _, htranslate⟩
    · cases h
      exact Or.inl rfl
  · cases h

/-- The thread waits at the client end, and its request is queued at the server end. -/
theorem sendSyncRequest_of_found {handle : Option Handle} {c : ObjId}
    {session : ClientSessionHLE} {r : KResult (Option Reschedule)}
    (hfound : k.lookupObject handle = .ret (some (c, .clientSession session)))
    (h : k.sendSyncRequest handle = .ret (r, k')) :
    ∃ w k1 server, k.suspendThread [c] none .waitSync1 = .ret (w, k1) ∧
      k1.object? session.server = some (.serverSession server) ∧
      server.enqueueSyncRequest session.server w.thread
        (k1.modifyObject c (KObject.pushWaker w)) = .ret k' := by
  have h := (lift_bind hfound _).symm.trans h
  obtain ⟨⟨w, k1⟩, hsuspend, h⟩ := bind_eq_ret.mp h
  obtain ⟨⟨connected, k2⟩, hsync, h⟩ := bind_eq_ret.mp h
  obtain ⟨_, hconnected, h⟩ := bind_eq_ret.mp h
  have hconnected : connected = true := assert_eq_ret.mp hconnected
  cases h
  unfold ClientSessionHLE.syncRequest at hsync
  split at hsync
  · rename_i server hserver
    obtain ⟨k3, henqueue, hsync⟩ := bind_eq_ret.mp hsync
    cases hsync
    exact ⟨w, k1, server, mapPanic_eq_ret.mp hsuspend, serverSession?_eq_some hserver, henqueue⟩
  · cases hsync
    cases hconnected

theorem sendSyncRequest_cases {handle : Option Handle} {r : KResult (Option Reschedule)}
    (h : k.sendSyncRequest handle = .ret (r, k')) :
    k' = k ∨ ∃ c session w k1 server,
      k.lookupObject handle = .ret (some (c, .clientSession session)) ∧
      k.suspendThread [c] none .waitSync1 = .ret (w, k1) ∧
      k1.object? session.server = some (.serverSession server) ∧
      server.enqueueSyncRequest session.server w.thread
        (k1.modifyObject c (KObject.pushWaker w)) = .ret k' := by
  obtain ⟨found, hfound, hrest⟩ := bind_eq_ret.mp h
  have hfound := mapPanic_eq_ret.mp hfound
  split at hrest
  · obtain ⟨w, k1, server, hsent⟩ := sendSyncRequest_of_found hfound h
    exact Or.inr ⟨_, _, w, k1, server, hfound, hsent⟩
  · cases hrest
    exact Or.inl rfl

/-! ## Ports -/

/-- The session is queued at the server end, and the thread waits at the client end. -/
theorem createSessionToPort_of_found {handle : Option Handle} {c : ObjId} {port : ClientPortHLE}
    {r : KResult (Option Reschedule × Handle)}
    (hfound : k.lookupObject handle = .ret (some (c, .clientPort port)))
    (h : k.createSessionToPort rng fuel handle = .ret (r, k')) :
    ∃ server k1 w k2 given,
      (makeSessionPair k).2.2.object? port.server = some (.serverPort server) ∧
      server.enqueueSession port.server (makeSessionPair k).1 (makeSessionPair k).2.2 =
        .ret k1 ∧
      k1.suspendThread [c] none .waitSync1 = .ret (w, k2) ∧
      (k2.modifyObject c (KObject.pushWaker w)).newHandle rng fuel (makeSessionPair k).2.1 =
        .ret (given, k') := by
  have h := (lift_bind hfound _).symm.trans h
  obtain ⟨k1, hcreate, h⟩ := bind_eq_ret.mp h
  obtain ⟨server, hserver, henqueue⟩ := bind_eq_ret.mp hcreate
  obtain ⟨k2, hwait, h⟩ := bind_eq_ret.mp h
  obtain ⟨⟨w, k3⟩, hsuspend, hpush⟩ := bind_eq_ret.mp (mapPanic_eq_ret.mp hwait)
  cases hpush
  obtain ⟨⟨given, k4⟩, hgiven, h⟩ := bind_eq_ret.mp h
  cases h
  exact ⟨server, k1, w, k3, given, serverPort?_eq_some (expect_eq_ret.mp hserver), henqueue,
    hsuspend, mapPanic_eq_ret.mp hgiven⟩

theorem createSessionToPort_cases {handle : Option Handle}
    {r : KResult (Option Reschedule × Handle)}
    (h : k.createSessionToPort rng fuel handle = .ret (r, k')) :
    k' = k ∨ ∃ c port server k1 w k2 given,
      k.lookupObject handle = .ret (some (c, .clientPort port)) ∧
      (makeSessionPair k).2.2.object? port.server = some (.serverPort server) ∧
      server.enqueueSession port.server (makeSessionPair k).1 (makeSessionPair k).2.2 =
        .ret k1 ∧
      k1.suspendThread [c] none .waitSync1 = .ret (w, k2) ∧
      (k2.modifyObject c (KObject.pushWaker w)).newHandle rng fuel (makeSessionPair k).2.1 =
        .ret (given, k') := by
  obtain ⟨found, hfound, hrest⟩ := bind_eq_ret.mp h
  have hfound := mapPanic_eq_ret.mp hfound
  split at hrest
  · obtain ⟨server, k1, w, k2, given, hcreated⟩ := createSessionToPort_of_found hfound h
    exact Or.inr ⟨_, _, server, k1, w, k2, given, hfound, hcreated⟩
  · cases hrest
    exact Or.inl rfl

theorem portAcceptSession_cases {o : ObjId} {port : ServerPortHLE} {session : Option ObjId}
    (h : port.acceptSession o k = .ret (session, k')) :
    port.sessionQueue = [] ∧ session = none ∧ k' = k ∨
      ∃ first rest c data, port.sessionQueue = first :: rest ∧ session = some first ∧
        (k.modifyObject o (KObject.setSessions rest)).clientPort? port.client = some (c, data) ∧
        wakeFront c data.wakerQueue (k.modifyObject o (KObject.setSessions rest)) = .ret k' := by
  unfold ServerPortHLE.acceptSession at h
  split at h
  · rename_i hqueue
    cases h
    exact Or.inl ⟨hqueue, rfl, rfl⟩
  · rename_i first rest hqueue
    obtain ⟨⟨c, data⟩, hdata, h⟩ := bind_eq_ret.mp h
    obtain ⟨k1, hwake, h⟩ := bind_eq_ret.mp h
    cases h
    exact Or.inr ⟨first, rest, c, data, hqueue, rfl, expect_eq_ret.mp hdata, hwake⟩

/-- The thread gets a handle to the first session, or waits for one. -/
theorem acceptSession_of_found {handle : Option Handle} {o : ObjId} {port : ServerPortHLE}
    {r : KResult (Handle ⊕ Reschedule)}
    (hfound : k.lookupObject handle = .ret (some (o, .serverPort port)))
    (h : k.acceptSession rng fuel handle = .ret (r, k')) :
    port.sessionQueue = [] ∧ k.waitOn o (.serverPort port) none = .ret k' ∨
      ∃ first rest c data k1 given, port.sessionQueue = first :: rest ∧
        port.acceptSession o k = .ret (some first, k1) ∧
        (k.modifyObject o (KObject.setSessions rest)).clientPort? port.client = some (c, data) ∧
        wakeFront c data.wakerQueue (k.modifyObject o (KObject.setSessions rest)) = .ret k1 ∧
        k1.newHandle rng fuel first = .ret (given, k') := by
  have h := (lift_bind hfound _).symm.trans h
  obtain ⟨⟨session, k1⟩, haccept, hrest⟩ := bind_eq_ret.mp h
  rcases portAcceptSession_cases haccept with
    ⟨hqueue, rfl, rfl⟩ | ⟨first, rest, c, data, hqueue, rfl, hclient, hwake⟩
  · dsimp only at hrest
    obtain ⟨k2, hwait, hrest⟩ := bind_eq_ret.mp hrest
    cases hrest
    exact Or.inl ⟨hqueue, mapPanic_eq_ret.mp hwait⟩
  · dsimp only at hrest
    obtain ⟨⟨given, k2⟩, hgiven, hrest⟩ := bind_eq_ret.mp hrest
    cases hrest
    exact Or.inr ⟨first, rest, c, data, k1, given, hqueue, haccept, hclient, hwake,
      mapPanic_eq_ret.mp hgiven⟩

theorem acceptSession_cases {handle : Option Handle} {r : KResult (Handle ⊕ Reschedule)}
    (h : k.acceptSession rng fuel handle = .ret (r, k')) :
    k' = k ∨ ∃ o port, k.lookupObject handle = .ret (some (o, .serverPort port)) ∧
      (port.sessionQueue = [] ∧ k.waitOn o (.serverPort port) none = .ret k' ∨
        ∃ first rest c data k1 given, port.sessionQueue = first :: rest ∧
          port.acceptSession o k = .ret (some first, k1) ∧
          (k.modifyObject o (KObject.setSessions rest)).clientPort? port.client =
            some (c, data) ∧
          wakeFront c data.wakerQueue (k.modifyObject o (KObject.setSessions rest)) = .ret k1 ∧
          k1.newHandle rng fuel first = .ret (given, k')) := by
  obtain ⟨found, hfound, hrest⟩ := bind_eq_ret.mp h
  have hfound := mapPanic_eq_ret.mp hfound
  split at hrest
  · exact Or.inr ⟨_, _, hfound, acceptSession_of_found hfound h⟩
  · cases hrest
    exact Or.inl rfl

end Pomelo
