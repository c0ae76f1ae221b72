/-
  The hand-shake of a port.

  A thread that creates a session to a port waits at the client end until a server accepts the
  session at the server end. Both ends queue, the one threads and the other sessions, and an
  accept takes the first of each. `PortTrace` adds to the kernel the sessions that were created
  and those that were accepted; in every run the sessions that are left are those in the queue of
  the server end, and their creators those in the queue of the client end (`portHandShake`).
-/
import Pomelo.Hle.EndPair

namespace Pomelo

open Lib Outcome

namespace Kernel

/-- The object is an end of a port or session. -/
def isEnd (k : Kernel) (o : ObjId) : Bool := (k.object? o).any fun x => x.peer ≠ .none

/-- A wait on objects other than the client end `cp`: on ports and sessions only, or one that
    leaves no stale wakers. -/
def WaitsAside (k : Kernel) (cp : ObjId) (objects : List ObjId) : Prop :=
  cp ∉ objects ∧ ((∀ o ∈ objects, k.isEnd o = true) ∨ k.WaitsStaleFree objects)

/-- The session that a step creates at the client end `cp`, and the thread that does. -/
def createdBy (k : Kernel) (cp : ObjId) : SvcStep → List (ObjId × ThreadIndex)
  | .call (.createSessionToPort handle) =>
    match k.lookupObject handle, k.current with
    | .ret (some (o, .clientPort _)), some (_, tid) =>
      if o = cp then [((makeSessionPair k).1, tid)] else []
    | _, _ => []
  | _ => []

/-- The session that a step accepts at the server end `sp`. -/
def acceptedBy (k : Kernel) (sp : ObjId) : SvcStep → List ObjId
  | .call (.acceptSession handle) =>
    match k.lookupObject handle with
    | .ret (some (o, .serverPort port)) =>
      if o = sp then
        match port.acceptSession o k with
        | .ret (some session, _) => [session]
        | _ => []
      else []
    | _ => []
  | _ => []

/-- The two are ends of one port. -/
def PortPair (k : Kernel) (sp cp : ObjId) : Prop :=
  ∃ server client, k.object? sp = some (.serverPort server) ∧ server.client = some cp ∧
    k.object? cp = some (.clientPort client) ∧ client.server = sp

end Kernel

/-- No step waits on the client end `cp` but to create a session. -/
def SvcStep.KeepsOff (rng : Nat → UInt32) (cp : ObjId) (k : Kernel) : SvcStep → Prop
  | call (.waitSync1 _ handle _) => ∀ o x, k.lookupObject handle = .ret (some (o, x)) → o ≠ cp
  | call (.waitSyncN _ handles _ _) =>
    ∀ objects, k.waitedObjects handles = .ret objects → k.WaitsAside cp objects
  | call (.replyAndReceivePre _ handles replyTarget) =>
    ∀ fuel k1, k.replyTo rng fuel replyTarget = .ret (.ok (), k1) →
      ∀ objects, k1.waitedObjects handles = .ret objects → k1.WaitsAside cp objects
  | _ => True

/-- The kernel, the sessions created at the client end with their creators, oldest first, and
    the sessions accepted at the server end. -/
structure PortTrace where
  kernel : Kernel
  created : List (ObjId × ThreadIndex)
  accepted : List ObjId

def portSystem (rng : Nat → UInt32) (sp cp : ObjId) : System PortTrace SvcStep where
  init s := s = ⟨Kernel.new, [], []⟩
  step s l s' := (svcSystem rng).step s.kernel l s'.kernel ∧
    s'.created = s.created ++ s.kernel.createdBy cp l ∧
    s'.accepted = s.accepted ++ s.kernel.acceptedBy sp l

namespace PortTrace

/-- The i-th waker at the client end is live, and that of the thread that created the i-th session
    at the server end; sessions are accepted in the order of their creation, each once. -/
structure HandShake (sp cp : ObjId) (s : PortTrace) : Prop where
  length : (s.kernel.wakers cp).length = (s.kernel.view.sessions sp).length
  creators : ∀ (i : Nat) w session, (s.kernel.wakers cp)[i]? = some w →
    (s.kernel.view.sessions sp)[i]? = some session → (session, w.thread) ∈ s.created ∧
      ∃ thread, s.kernel.thread? w.thread = some thread ∧ thread.state = .waiting ∧
        thread.wakeKey = w.key
  order : s.created.map Prod.fst = s.accepted ++ s.kernel.view.sessions sp
  once : (s.created.map Prod.fst).Nodup

/-- A step that accepts a session wakes its creator, and no other thread. -/
def WakesCreator (rng : Nat → UInt32) (sp cp : ObjId) (s : PortTrace) : Prop :=
  ∀ l s' session, (portSystem rng sp cp).step s l s' → session ∈ s.kernel.acceptedBy sp l →
    ∃ creator, (session, creator) ∈ s.created ∧
      (wokenThreads s.kernel s'.kernel).toFinset = {creator}

/-- No step fails to wake a thread. -/
def NoFailedWake (rng : Nat → UInt32) (cp : ObjId) (s : PortTrace) : Prop :=
  ∀ (l : SvcStep) (fuel : Nat) (o : ObjId), l.enabled s.kernel = true →
    l.KeepsOff rng cp s.kernel → l.exec rng fuel s.kernel ≠ .panic (.wake o)

end PortTrace

/-! ## Steps that are not the port's own -/

section Other

variable {rng : Nat → UInt32} {k k' : Kernel} {l : SvcStep} {sp cp : ObjId}

/-- The step creates a session at `cp`. -/
def SvcStep.Creates (k : Kernel) (cp : ObjId) (l : SvcStep) : Prop :=
  ∃ handle port, l = .call (.createSessionToPort handle) ∧
    k.lookupObject handle = .ret (some (cp, .clientPort port))

/-- The step accepts a session at `sp`, or waits for one. -/
def SvcStep.Accepts (k : Kernel) (sp : ObjId) (l : SvcStep) : Prop :=
  ∃ handle port, l = .call (.acceptSession handle) ∧
    k.lookupObject handle = .ret (some (sp, .serverPort port))

theorem createdBy_eq_nil (h : ¬ l.Creates k cp) : k.createdBy cp l = [] := by
  unfold Kernel.createdBy
  split
  · rename_i handle
    split
    · rename_i o port _ tid hfound _
      by_cases ho : o = cp
      · exact absurd ⟨handle, port, rfl, ho ▸ hfound⟩ h
      · exact if_neg ho
    · rfl
  · rfl

theorem acceptedBy_eq_nil (h : ¬ l.Accepts k sp) : k.acceptedBy sp l = [] := by
  unfold Kernel.acceptedBy
  split
  · rename_i handle
    split
    · rename_i o port hfound
      by_cases ho : o = sp
      · exact absurd ⟨handle, port, rfl, ho ▸ hfound⟩ h
      · exact if_neg ho
    · rfl
  · rfl

theorem not_ready_of_isEnd {o : ObjId} (h : k.isEnd o = true) : k.objects.ready o = false := by
  unfold Kernel.isEnd at h
  obtain ⟨x, hx, hp⟩ := (Option.any_eq_true _ _).mp h
  have hready : k.objects.ready o = x.ready := View.ready_of_object? (v := k.view) hx
  rw [hready, Bool.eq_false_iff]
  exact fun hr => (of_decide_eq_true hp) (KObject.peer_of_ready hr)

theorem staleFree_of_waitsAside {objects : List ObjId} (h : k.WaitsAside cp objects) :
    k.WaitsStaleFree objects := by
  rcases h.2 with h | h
  · exact staleFree_of_not_ready fun o ho => not_ready_of_isEnd (h o ho)
  · exact h

theorem mayWaitEach_of_waitsAside {P : ThreadIndex → Prop} {objects : List ObjId}
    (h : k.WaitsAside (sp + 1) objects) :
    MayWait ((EndPair.port sp).Quiet P) k objects False ∧ (k.WaitsStaleFree objects ∨ False) :=
  ⟨EndPair.mayWait_quiet h.1 fun hf => hf.elim, Or.inl (staleFree_of_waitsAside h)⟩

/-- A step that neither creates nor accepts is made of moves that leave the port alone. -/
theorem may_of_keepsOff {P : ThreadIndex → Prop}
    (hends : ∀ o x, k.view.object? o = some x → x.peer.Adjacent o)
    (hoff : l.KeepsOff rng (sp + 1) k) (hcreates : ¬ l.Creates k (sp + 1))
    (haccepts : ¬ l.Accepts k sp) : l.May ((EndPair.port sp).Quiet P) rng False k := by
  have hclient : ∀ {o : ObjId} {p : Peer}, (∀ server, p ≠ .ofClientPort server) →
      ¬ (o = sp + 1 ∧ p = .ofClientPort sp) := fun hp h => hp _ h.2
  have hserver : ∀ {o : ObjId} {p : Peer}, (∀ client, p ≠ .ofServerPort client) →
      ¬ (o = sp ∧ p = .ofServerPort (some (sp + 1))) := fun hp h => hp _ h.2
  have htouch : ∀ o p, (∀ server, p ≠ .ofClientPort server) → (∀ client, p ≠ .ofServerPort client) →
      Touches ((EndPair.port sp).Quiet P) o p := fun o p hc hs =>
    EndPair.touches_quiet (hclient hc) (hserver hs)
  cases l with
  | call c =>
    cases c with
    | waitSync1 time handle timeout =>
      exact fun o x hfound => EndPair.mayWait_quiet
        (fun hmem => hoff o x hfound (List.mem_singleton.mp hmem).symm) fun hf => hf.elim
    | waitSyncN time handles waitAll timeout =>
      exact fun objects ho => mayWaitEach_of_waitsAside (hoff objects ho)
    | replyAndReceivePre time handles replyTarget =>
      refine ⟨fun s self _ => ⟨?_, fun c server _ => ?_⟩,
        fun fuel k1 hk1 objects ho => mayWaitEach_of_waitsAside (hoff fuel k1 hk1 objects ho)⟩
      · exact htouch _ _ (fun _ h => by cases h) (fun _ h => by cases h)
      · exact htouch _ _ (fun _ h => by cases h) (fun _ h => by cases h)
    | sendSyncRequest handle =>
      exact fun c self _ => ⟨fun w _ => EndPair.enqueue_quiet (hclient fun _ h => by cases h),
        fun client => htouch _ _ (fun _ h => by cases h) (fun _ h => by cases h)⟩
    | createSessionToPort handle =>
      intro c self hfound
      have hc : c ≠ sp + 1 := fun hc => hcreates ⟨handle, self, rfl, hc ▸ hfound⟩
      have hadjacent : c = self.server + 1 := hends c _ (lookupObject_eq_ret hfound)
      have hs : self.server ≠ sp := fun hs => hc (hs ▸ hadjacent)
      exact ⟨fun w => EndPair.enqueue_quiet fun h => hc h.1, fun client =>
        EndPair.touches_quiet (hclient fun _ h => by cases h) fun h => hs h.1⟩
    | acceptSession handle =>
      intro s self hfound
      have hs : s ≠ sp := fun hs => haccepts ⟨handle, self, rfl, hs ▸ hfound⟩
      have hadjacent : self.client = some (s + 1) := hends s _ (lookupObject_eq_ret hfound)
      refine ⟨fun w => EndPair.enqueue_quiet (hclient fun _ h => by cases h),
        EndPair.touches_quiet (hclient fun _ h => by cases h) fun h => hs h.1, ?_⟩
      intro c server hc
      rw [hadjacent] at hc
      injection hc with hc
      refine EndPair.touches_quiet (fun h => hs ?_) (hserver fun _ h => by cases h)
      exact Nat.succ.inj (hc.trans h.1)
    | _ => trivial
  | _ => trivial

end Other

/-! ## Creating and accepting -/

section Own

/-- These sessions are to be accepted, for the threads that created them. -/
abbrev Pending (sp : ObjId) (v : View) (pending : List (ObjId × ThreadIndex)) : Prop :=
  (EndPair.port sp).Linked (fun _ => True) v (pending.map Prod.snd) (pending.map Prod.fst)

variable {rng : Nat → UInt32} {fuel : Nat} {k k' : Kernel} {sp : ObjId}
  {pending : List (ObjId × ThreadIndex)}

theorem length_lt_makeSessionPair (k : Kernel) :
    k.objects.length < (makeSessionPair k).2.2.objects.length := by
  simp [makeSessionPair, Kernel.newObject, Kernel.modifyObject, Objects.modify]

/-- A thread that creates a session waits behind those that did before, and its session is queued
    behind theirs. -/
theorem pending_create {handle : Option Handle} {port : ClientPortHLE}
    {r : KResult (Option Reschedule × Handle)}
    (h : Pending sp k.view pending)
    (hfound : k.lookupObject handle = .ret (some (sp + 1, .clientPort port)))
    (hret : k.createSessionToPort rng fuel handle = .ret (r, k')) :
    ∃ pid tid, k.current = some (pid, tid) ∧ k.objects.length < k'.objects.length ∧
      Pending sp k'.view (pending ++ [(k.objects.length, tid)]) := by
  have he := EndPair.lawful_port sp
  have hx : k.view.object? (sp + 1) = some (.clientPort port) := lookupObject_eq_ret hfound
  have hserver : port.server = sp := (Nat.succ.inj (h.ends _ _ hx)).symm
  obtain ⟨server, k1, w, k3, given, hs, henqueue, hsuspend, hgiven⟩ :=
    createSessionToPort_of_found hfound hret
  rw [hserver] at hs henqueue
  have hs : (makeSessionPair k).2.2.view.object? sp = some (.serverPort server) := hs
  -- the two ends of the session
  have hmake := @makeSessionPair_step k
  have h0 := h.quiet he hmake ⟨trivial, trivial, trivial⟩
  obtain ⟨x0, hx0, hp0⟩ := hmake.alive (fun hm => by cases hm) hx
  -- the session is queued, and a server that waits is woken
  obtain ⟨ws, g, hact, hdata⟩ := wakeFront_step hs (fun y => by cases y <;> rfl)
    (KObject.wakers_setSessions _) henqueue
  have hsessions : server.sessionQueue = pending.map Prod.fst := h0.queues _ hs
  have hlength : sp < k1.view.objects.length :=
    Nat.lt_of_lt_of_le (View.lt_length hs) hact.length
  have h1 : (EndPair.port sp).Linked (fun _ => True) k1.view (pending.map Prod.snd)
      (pending.map Prod.fst ++ [k.objects.length]) := by
    refine h0.serves hact trivial (fun heq => absurd heq.1 he.ne) (fun y hy => ?_) fun _ => hlength
    show y.sessions = _
    rw [(View.data_of_act hact hs hy).2, (hdata _).2, ← hsessions]
    rfl
  obtain ⟨x1, hx1, hp1⟩ := hact.alive (fun hm => by cases hm) hx0
  have hcurrent : k1.current = k.current := by
    unfold ServerPortHLE.enqueueSession at henqueue
    exact (wakeFront_current henqueue).trans rfl
  -- the thread goes to sleep, and is queued
  obtain ⟨⟨pid, hpid⟩, hstep, _, hobjects⟩ := suspendThread_view hsuspend
  obtain ⟨self, hself, hrun, hkey, hsleepers⟩ := Kernel.suspendThread_sleepers hsuspend
  have h3 := h1.quiet he hstep ⟨trivial, trivial, trivial⟩
  have hx3 : k3.view.object? (sp + 1) = some x1 := (suspendThread_object? hsuspend _).trans hx1
  have hp3 : x1.peer = .ofClientPort sp := by
    rw [hp1, hp0, ← hserver]
    rfl
  have hself3 : k3.view.sleepers w.thread = some (self.suspended [sp + 1] none .waitSync1) := by
    show k3.sleepers w.thread = _
    rw [hsleepers, Function.update_self]
  have hnew : w.thread ∉ pending.map Prod.snd := h1.not_mem_of_running hself hrun
  have h4 := h3.push he hx3 hp3 hself3 hkey.symm rfl rfl rfl hnew trivial
  have hsame := (Kernel.newHandle_processes hgiven).view
  refine ⟨pid, w.thread, hcurrent ▸ hpid, ?_, ?_⟩
  · have hmade : k.objects.length < (makeSessionPair k).2.2.view.objects.length :=
      length_lt_makeSessionPair k
    have hgrown := Nat.le_trans hact.length hstep.length
    have hlast : k'.view.objects.length = k3.view.objects.length := by
      rw [hsame, Kernel.view_modifyObject, View.length_modify]
    exact Nat.lt_of_lt_of_le hmade (hlast ▸ hgrown)
  · unfold Pending
    rw [hsame, List.map_append, List.map_append]
    exact h4

/-- An accept takes the first session, and wakes the thread that waits for it. -/
theorem pending_accept {handle : Option Handle} {port : ServerPortHLE} {session : ObjId}
    {sessions : List ObjId} {r : KResult (Handle ⊕ Reschedule)} (h : Pending sp k.view pending)
    (hfound : k.lookupObject handle = .ret (some (sp, .serverPort port)))
    (hqueue : port.sessionQueue = session :: sessions)
    (hret : k.acceptSession rng fuel handle = .ret (r, k')) :
    (∃ k1, port.acceptSession sp k = .ret (some session, k1)) ∧
      k.objects.length ≤ k'.objects.length ∧
      ∃ tid rest, pending = (session, tid) :: rest ∧ Pending sp k'.view rest ∧
        (wokenThreads k k').toFinset = {tid} := by
  have he := EndPair.lawful_port sp
  have hx : k.view.object? sp = some (.serverPort port) := lookupObject_eq_ret hfound
  have hclient : port.client = some (sp + 1) := h.ends _ _ hx
  have hqueued : pending.map Prod.fst = session :: sessions := by
    rw [← h.queues _ hx, ← hqueue]
    rfl
  obtain ⟨⟨session', tid⟩, rest, rfl, hsession, hsessions⟩ := List.map_eq_cons_iff.mp hqueued
  have hsession : session' = session := hsession
  subst hsession
  obtain ⟨data, k1, given, haccepted, hdata, hwake, hgiven⟩ : ∃ data k1 given,
      port.acceptSession sp k = .ret (some session', k1) ∧
      (k.modifyObject sp (KObject.setSessions sessions)).object? (sp + 1) =
        some (.clientPort data) ∧
      wakeFront (sp + 1) data.wakerQueue (k.modifyObject sp (KObject.setSessions sessions)) =
        .ret k1 ∧
      k1.newHandle rng fuel session' = .ret (given, k') := by
    rcases acceptSession_of_found hfound hret with
      ⟨hnil, _⟩ | ⟨first, rest', c, data, k1, given, hcons, haccepted, hdata, hwake, hgiven⟩
    · rw [hqueue] at hnil
      cases hnil
    · rw [hqueue] at hcons
      obtain ⟨rfl, rfl⟩ := List.cons.inj hcons
      have hc := client_of_clientPort? hdata
      rw [hclient] at hc
      cases hc
      exact ⟨data, k1, given, haccepted, clientPort?_eq_some hdata, hwake, hgiven⟩
  -- the session leaves the queue
  have hpop : View.Step k.view (.change sp (.ofServerPort port.client) (KObject.setSessions sessions))
      (k.modifyObject sp (KObject.setSessions sessions)).view :=
    .change (View.adds_of_wakers [] hx (fun y => by cases y <;> rfl)
      (KObject.wakers_setSessions sessions))
  have h1 : (EndPair.port sp).Linked (fun _ => True)
      (k.modifyObject sp (KObject.setSessions sessions)).view
      (((session', tid) :: rest).map Prod.snd) sessions := by
    refine h.serves hpop trivial (fun heq => absurd heq.1 he.ne) (fun y hy => ?_) fun _ => ?_
    · have hy : (k.view.modify sp (KObject.setSessions sessions)).object? sp = some y := hy
      obtain ⟨z, hz, rfl⟩ := View.object?_of_modify hy
      rw [hx] at hz
      injection hz with hz
      rw [if_pos rfl, ← hz]
      rfl
    · exact Nat.lt_of_lt_of_le (View.lt_length hx) hpop.length
  -- its creator is woken
  have hx1 : (k.modifyObject sp (KObject.setSessions sessions)).view.object? (sp + 1) =
      some (.clientPort data) := hdata
  have hp1 : (KObject.clientPort data).peer = .ofClientPort sp := by
    have hadjacent : sp + 1 = data.server + 1 := h1.ends _ _ hx1
    rw [Nat.succ.inj hadjacent]
    rfl
  have hwaits : data.wakerQueue.map Waker.thread = tid :: rest.map Prod.snd := by
    rw [← show _ = data.wakerQueue from View.queue_of_object? hx1 hp1]
    exact h1.waits
  obtain ⟨w, ws, hws, hw, hrest⟩ := List.map_eq_cons_iff.mp hwaits
  have hw : w.thread = tid := hw
  subst hw
  have hws : data.wakerQueue = w :: ws := hws
  rw [hws] at hwake
  obtain ⟨_, hview⟩ := wakeExpect_eq_ret hwake
  obtain ⟨self, hself, hkey, htry, _, h2⟩ := h1.pop he hx1 hp1 hws
  have hsame := (Kernel.newHandle_processes hgiven).view
  have hview : k'.view = ((k.modifyObject sp (KObject.setSessions sessions)).view.modify (sp + 1)
      (KObject.setWakers ws)).tryWake w := hsame.trans hview
  refine ⟨⟨_, haccepted⟩, ?_, w.thread, rest, rfl, ?_, ?_⟩
  · have hlast : k'.view.objects.length = _ :=
      congrArg (fun v : View => v.objects.length) (hview.trans htry)
    show k.view.objects.length ≤ k'.view.objects.length
    rw [hlast, View.length_wake, View.length_modify]
    exact hpop.length
  · unfold Pending
    rw [hview, ← hrest, hsessions]
    exact h2
  · have hwakes : Wakes w k k' := ⟨self, hself, hkey, by
      have hsleepers := congrArg View.sleepers (hview.trans htry)
      exact hsleepers⟩
    exact hwakes.woken

end Own

/-! ## Runs -/

namespace PortTrace

variable {rng : Nat → UInt32} {sp : ObjId} {s s' : PortTrace} {l : SvcStep}

/-- The first sessions that were created are accepted, and the others are pending. Every session
    is a younger object than those created before it. -/
def Inv (sp : ObjId) (s : PortTrace) : Prop :=
  ∃ done pending, s.created = done ++ pending ∧ s.accepted = done.map Prod.fst ∧
    Pending sp s.kernel.view pending ∧ (s.created.map Prod.fst).Pairwise (· < ·) ∧
    ∀ c ∈ s.created, c.1 < s.kernel.objects.length

theorem Inv.init (h : (portSystem rng sp (sp + 1)).init s) : s.Inv sp := by
  have h : s = ⟨Kernel.new, [], []⟩ := h
  subst h
  exact ⟨[], [], rfl, rfl, EndPair.linked_new, List.Pairwise.nil, fun c hc => by cases hc⟩

/-- A step without effect on the port. -/
theorem Inv.quiet (h : s.Inv sp)
    (hmoves : Moves View.Step ((EndPair.port sp).Quiet fun _ => True) s.kernel.view s'.kernel.view)
    (hcreated : s'.created = s.created) (haccepted : s'.accepted = s.accepted) : s'.Inv sp := by
  obtain ⟨done, pending, hsplit, hdone, hpending, hyounger, hbelow⟩ := h
  have hlength : s.kernel.view.objects.length ≤ s'.kernel.view.objects.length :=
    hmoves.keeps (I := fun v => s.kernel.view.objects.length ≤ v.objects.length)
      (fun _ _ _ hv _ hstep => Nat.le_trans hv hstep.length) (Nat.le_refl _)
  refine ⟨done, pending, hcreated.trans hsplit, haccepted.trans hdone,
    hpending.quiets (EndPair.lawful_port sp) hmoves, ?_, fun c hc => ?_⟩
  · rw [hcreated]
    exact hyounger
  · rw [hcreated] at hc
    exact Nat.lt_of_lt_of_le (hbelow c hc) hlength

theorem Inv.create {handle : Option Handle} {port : ClientPortHLE} (h : s.Inv sp)
    (hfound : s.kernel.lookupObject handle = .ret (some (sp + 1, .clientPort port)))
    (hstep : (portSystem rng sp (sp + 1)).step s (.call (.createSessionToPort handle)) s') :
    s'.Inv sp := by
  obtain ⟨done, pending, hsplit, hdone, hpending, hyounger, hbelow⟩ := h
  obtain ⟨⟨_, fuel, hexec⟩, hcreated, haccepted⟩ := hstep
  obtain ⟨r, hret⟩ := afterCall_eq_ret.mp hexec
  obtain ⟨pid, tid, hcurrent, hlength, hnext⟩ := pending_create hpending hfound hret
  have hnew : s.kernel.createdBy (sp + 1) (.call (.createSessionToPort handle)) =
      [(s.kernel.objects.length, tid)] := by
    unfold Kernel.createdBy
    dsimp only
    rw [hfound, hcurrent]
    exact if_pos rfl
  have hnone : s.kernel.acceptedBy sp (.call (.createSessionToPort handle)) = [] := rfl
  rw [hnew] at hcreated
  rw [hnone, List.append_nil] at haccepted
  refine ⟨done, pending ++ [(s.kernel.objects.length, tid)], ?_, haccepted.trans hdone, hnext, ?_,
    fun c hc => ?_⟩
  · rw [hcreated, hsplit, List.append_assoc]
  · rw [hcreated, List.map_append, List.pairwise_append]
    refine ⟨hyounger, List.pairwise_singleton _ _, fun a ha b hb => ?_⟩
    obtain ⟨c, hc, rfl⟩ := List.mem_map.mp ha
    rw [List.map_singleton, List.mem_singleton] at hb
    rw [hb]
    exact hbelow c hc
  · rw [hcreated] at hc
    rcases List.mem_append.mp hc with hc | hc
    · exact Nat.lt_trans (hbelow c hc) hlength
    · rw [List.mem_singleton.mp hc]
      exact hlength

/-- The session that is accepted is the first in the queue. -/
theorem acceptedBy_of_found {k : Kernel} {handle : Option Handle} {port : ServerPortHLE}
    (hfound : k.lookupObject handle = .ret (some (sp, .serverPort port))) :
    k.acceptedBy sp (.call (.acceptSession handle)) =
      match port.acceptSession sp k with
      | .ret (some session, _) => [session]
      | _ => [] := by
  unfold Kernel.acceptedBy
  dsimp only
  rw [hfound]
  exact if_pos rfl

theorem acceptSession_of_nil {k : Kernel} {port : ServerPortHLE} (h : port.sessionQueue = []) :
    port.acceptSession sp k = .ret (none, k) := by
  unfold ServerPortHLE.acceptSession
  rw [h]
  rfl

theorem Inv.accept {handle : Option Handle} {port : ServerPortHLE} (h : s.Inv sp)
    (hfound : s.kernel.lookupObject handle = .ret (some (sp, .serverPort port)))
    (hstep : (portSystem rng sp (sp + 1)).step s (.call (.acceptSession handle)) s') :
    s'.Inv sp := by
  have hinv := h
  obtain ⟨done, pending, hsplit, hdone, hpending, hyounger, hbelow⟩ := h
  obtain ⟨⟨_, fuel, hexec⟩, hcreated, haccepted⟩ := hstep
  obtain ⟨r, hret⟩ := afterCall_eq_ret.mp hexec
  have hnone : s.kernel.createdBy (sp + 1) (.call (.acceptSession handle)) = [] := rfl
  rw [hnone, List.append_nil] at hcreated
  rw [acceptedBy_of_found hfound] at haccepted
  have hx : s.kernel.object? sp = some (.serverPort port) := lookupObject_eq_ret hfound
  cases hqueue : port.sessionQueue with
  | nil =>
    rw [acceptSession_of_nil hqueue] at haccepted
    refine hinv.quiet ?_ hcreated (haccepted.trans (List.append_nil _))
    have hwait : s.kernel.waitOn sp (.serverPort port) none = .ret s'.kernel := by
      rcases acceptSession_of_found hfound hret with
        ⟨_, hwait⟩ | ⟨first, rest, _, _, _, _, hcons, _⟩
      · exact hwait
      · rw [hqueue] at hcons
        cases hcons
    have hspares : ¬ (sp = sp + 1 ∧ Peer.ofServerPort port.client = .ofClientPort sp) :=
      fun heq => by cases heq.2
    exact waitOnServerPort_moves (EndPair.common_quiet (EndPair.lawful_port sp) _).usual
      (fun w => EndPair.enqueue_quiet hspares) hx hwait
  | cons session sessions =>
    obtain ⟨⟨k1, hresult⟩, hlength, tid, rest, rfl, hnext, _⟩ :=
      pending_accept hpending hfound hqueue hret
    rw [hresult] at haccepted
    refine ⟨done ++ [(session, tid)], rest, ?_, ?_, hnext, ?_, fun c hc => ?_⟩
    · rw [hcreated, hsplit, List.append_assoc]
      rfl
    · rw [haccepted, hdone, List.map_append]
      rfl
    · rw [hcreated]
      exact hyounger
    · rw [hcreated] at hc
      exact Nat.lt_of_lt_of_le (hbelow c hc) hlength

theorem Inv.step (h : s.Inv sp) (hoff : l.KeepsOff rng (sp + 1) s.kernel)
    (hstep : (portSystem rng sp (sp + 1)).step s l s') : s'.Inv sp := by
  by_cases hcreates : l.Creates s.kernel (sp + 1)
  · obtain ⟨handle, port, rfl, hfound⟩ := hcreates
    exact h.create hfound hstep
  · by_cases haccepts : l.Accepts s.kernel sp
    · obtain ⟨handle, port, rfl, hfound⟩ := haccepts
      exact h.accept hfound hstep
    · obtain ⟨⟨henabled, fuel, hexec⟩, hcreated, haccepted⟩ := hstep
      rw [createdBy_eq_nil hcreates, List.append_nil] at hcreated
      rw [acceptedBy_eq_nil haccepts, List.append_nil] at haccepted
      obtain ⟨_, _, _, _, hpending, _⟩ := id h
      have hmade := svcStep_madeOf fuel
        (EndPair.common_quiet (EndPair.lawful_port sp) fun _ => True)
        hpending.sound.tidy.nodup henabled
        (may_of_keepsOff hpending.ends hoff hcreates haccepts)
      exact h.quiet (hmade.returns _ hexec) hcreated haccepted

theorem inv_of_run {tr : List (PortTrace × SvcStep)} (h : Run (portSystem rng sp (sp + 1)) tr s)
    (hc : EveryStep (fun s l => l.KeepsOff rng (sp + 1) s.kernel) tr) : s.Inv sp :=
  h.invariant_of (fun _ hinit => Inv.init hinit) (fun _ _ _ hinv hoff hst => hinv.step hoff hst) hc

/-! ### What follows -/

theorem Inv.handShake (h : s.Inv sp) (hpair : s.kernel.PortPair sp (sp + 1)) :
    s.HandShake sp (sp + 1) := by
  obtain ⟨done, pending, hsplit, hdone, hpending, hyounger, _⟩ := h
  obtain ⟨server, client, hserver, _, hclient, hpeer⟩ := hpair
  have hp : (KObject.clientPort client).peer = .ofClientPort sp := by
    rw [← hpeer]
    rfl
  have hqueue : s.kernel.view.queue (sp + 1) (.ofClientPort sp) = s.kernel.wakers (sp + 1) := by
    unfold Kernel.wakers
    rw [View.queue_of_object? (show s.kernel.view.object? (sp + 1) = _ from hclient) hp, hclient]
  have hwakers : (s.kernel.wakers (sp + 1)).map Waker.thread = pending.map Prod.snd := by
    rw [← hqueue]
    exact hpending.waits
  have hsessions : s.kernel.view.sessions sp = pending.map Prod.fst := by
    have hx : s.kernel.view.object? sp = some (.serverPort server) := hserver
    unfold View.sessions
    rw [hx]
    exact hpending.queues _ hx
  refine ⟨?_, fun i w session hw hsession => ⟨?_, ?_⟩, ?_, ?_⟩
  · have hlength := congrArg List.length hwakers
    rw [List.length_map, List.length_map] at hlength
    rw [hsessions, List.length_map, hlength]
  · have hthread : (pending.map Prod.snd)[i]? = some w.thread := by
      rw [← hwakers, List.getElem?_map, hw]
      rfl
    rw [hsessions] at hsession
    rw [List.getElem?_map] at hthread hsession
    obtain ⟨c, hc, rfl⟩ := Option.map_eq_some_iff.mp hsession
    rw [hc] at hthread
    injection hthread with hthread
    rw [hsplit, ← hthread]
    exact List.mem_append_right _ (List.mem_of_getElem? hc)
  · have hmem : w ∈ s.kernel.view.queue (sp + 1) (.ofClientPort sp) :=
      hqueue ▸ List.mem_of_getElem? hw
    obtain ⟨self, hself, hkey, hstate, _⟩ := hpending.sole.alone w hmem
    obtain ⟨thread, hthread, rfl⟩ := Option.map_eq_some_iff.mp hself
    exact ⟨thread, hthread, hstate, hkey⟩
  · rw [hsplit, hdone, hsessions, List.map_append]
  · exact hyounger.imp fun hlt => Nat.ne_of_lt hlt

theorem Inv.wakesCreator (h : s.Inv sp) : s.WakesCreator rng sp (sp + 1) := by
  intro l s' session hstep hmem
  obtain ⟨done, pending, hsplit, _, hpending, _⟩ := h
  by_cases haccepts : l.Accepts s.kernel sp
  · obtain ⟨handle, port, rfl, hfound⟩ := haccepts
    obtain ⟨⟨_, fuel, hexec⟩, _⟩ := hstep
    obtain ⟨r, hret⟩ := afterCall_eq_ret.mp hexec
    rw [acceptedBy_of_found hfound] at hmem
    cases hqueue : port.sessionQueue with
    | nil =>
      rw [acceptSession_of_nil hqueue] at hmem
      cases hmem
    | cons first sessions =>
      obtain ⟨⟨k1, hresult⟩, _, tid, rest, rfl, _, hwoken⟩ :=
        pending_accept hpending hfound hqueue hret
      rw [hresult] at hmem
      rw [List.mem_singleton.mp hmem]
      exact ⟨tid, hsplit ▸ List.mem_append_right _ List.mem_cons_self, hwoken⟩
  · rw [acceptedBy_eq_nil haccepts] at hmem
    cases hmem

theorem staleFree_of_keepsOff {k : Kernel} {cp : ObjId} (h : l.KeepsOff rng cp k) :
    l.StaleFree rng k := by
  cases l with
  | call c =>
    cases c with
    | waitSyncN time handles waitAll timeout =>
      exact fun objects ho => staleFree_of_waitsAside (h objects ho)
    | replyAndReceivePre time handles replyTarget =>
      exact fun fuel k1 hk1 objects ho => staleFree_of_waitsAside (h fuel k1 hk1 objects ho)
    | _ => trivial
  | _ => trivial

theorem Inv.noFailedWake (h : s.Inv sp) : s.NoFailedWake rng (sp + 1) := by
  intro l fuel o henabled hoff
  obtain ⟨_, _, _, _, hpending, _⟩ := h
  exact noFailedWake_of_sound hpending.sound l fuel o henabled (staleFree_of_keepsOff hoff)

theorem ends_of_run {cp : ObjId} {tr : List (PortTrace × SvcStep)}
    (h : Run (portSystem rng sp cp) tr s) :
    ∀ o x, s.kernel.view.object? o = some x → x.peer.Adjacent o := by
  have hkept : s.kernel.view.Tidy ∧
      ∀ o x, s.kernel.view.object? o = some x → x.peer.Adjacent o := by
    refine h.invariant (I := fun s => s.kernel.view.Tidy ∧
      ∀ o x, s.kernel.view.object? o = some x → x.peer.Adjacent o) ?_ ?_
    · intro s hinit
      have hinit : s = ⟨Kernel.new, [], []⟩ := hinit
      subst hinit
      exact ⟨View.tidy_new, fun o x hx => by cases hx⟩
    · exact fun s l s' hs hstep => ends_of_step hs hstep.1
  exact hkept.2

end PortTrace

/-- **The hand-shake of a port.** In every run in which the client end is waited on only by
    creating sessions, in every state in which both ends are there: the two queues have one
    length, the i-th waker is live and of the thread that created the i-th session, and what was
    accepted is what was created, in order and once. An accept wakes the creator of its session
    and no other thread, and no wake fails. -/
theorem portHandShake {rng : Nat → UInt32} {sp cp : ObjId} {tr : List (PortTrace × SvcStep)}
    {s : PortTrace} (h : Run (portSystem rng sp cp) tr s)
    (hc : EveryStep (fun s l => l.KeepsOff rng cp s.kernel) tr)
    (hpair : s.kernel.PortPair sp cp) :
    s.HandShake sp cp ∧ s.WakesCreator rng sp cp ∧ s.NoFailedWake rng cp := by
  have hcp : cp = sp + 1 := by
    obtain ⟨server, client, hserver, hclient, _⟩ := hpair
    have hadjacent : server.client = some (sp + 1) := PortTrace.ends_of_run h sp _ hserver
    rw [hclient] at hadjacent
    injection hadjacent
  subst hcp
  have hinv := PortTrace.inv_of_run h hc
  exact ⟨hinv.handShake hpair, hinv.wakesCreator, hinv.noFailedWake⟩

/-- The step waits on ports and sessions only, and on `cp` only to create a session. -/
def SvcStep.keepsOff (cp : ObjId) (k : Kernel) : SvcStep → Bool
  | call (.waitSync1 _ handle _) =>
    match k.lookupObject handle with
    | .ret (some (o, _)) => decide (o ≠ cp)
    | _ => true
  | call (.waitSyncN _ handles _ _) =>
    match k.waitedObjects handles with
    | .ret objects => !objects.contains cp && objects.all k.isEnd
    | _ => true
  | call (.replyAndReceivePre _ _ _) => false
  | _ => true

theorem keepsOff_of_test {rng : Nat → UInt32} {cp : ObjId} {k : Kernel} {l : SvcStep}
    (h : l.keepsOff cp k = true) : l.KeepsOff rng cp k := by
  cases l with
  | call c =>
    cases c with
    | waitSync1 time handle timeout =>
      intro o x hfound
      unfold SvcStep.keepsOff at h
      dsimp only at h
      rw [hfound] at h
      exact of_decide_eq_true h
    | waitSyncN time handles waitAll timeout =>
      intro objects hwaited
      unfold SvcStep.keepsOff at h
      dsimp only at h
      rw [hwaited] at h
      obtain ⟨hnot, hends⟩ := Bool.and_eq_true_iff.mp h
      exact ⟨by simpa using hnot, Or.inl (List.all_eq_true.mp hends)⟩
    | replyAndReceivePre time handles replyTarget => cases h
    | _ => trivial
  | _ => trivial

/-- A step by execution, of those that keep off the client end. -/
def PortTrace.step? (rng : Nat → UInt32) (fuel : Nat) (sp cp : ObjId) (s : PortTrace)
    (l : SvcStep) : Option PortTrace :=
  if l.keepsOff cp s.kernel then
    (svcStep? rng fuel s.kernel l).map fun k =>
      ⟨k, s.created ++ s.kernel.createdBy cp l, s.accepted ++ s.kernel.acceptedBy sp l⟩
  else none

theorem PortTrace.step_of_step? {rng : Nat → UInt32} {fuel : Nat} {sp cp : ObjId}
    {s s' : PortTrace} {l : SvcStep} (h : s.step? rng fuel sp cp l = some s') :
    (portSystem rng sp cp).step s l s' ∧ l.KeepsOff rng cp s.kernel := by
  unfold PortTrace.step? at h
  split at h
  · rename_i hoff
    obtain ⟨k, hk, rfl⟩ := Option.map_eq_some_iff.mp h
    exact ⟨⟨step_of_svcStep? hk, rfl, rfl⟩, keepsOff_of_test hoff⟩
  · cases h

/-- A server waits on its port, accepts the session of a thread, and waits for the next, which
    the same thread creates. -/
theorem portHandShake_sample : ∃ (tr : List (PortTrace × SvcStep)) (s : PortTrace),
    Run (portSystem UInt32.ofNat 2 3) tr s ∧ s.created = [(4, 1), (6, 1)] ∧ s.accepted = [4] ∧
      s.HandShake 2 3 ∧ s.WakesCreator UInt32.ofNat 2 3 ∧ s.NoFailedWake UInt32.ofNat 3 := by
  have hrun : (runAll (PortTrace.step? UInt32.ofNat 4 2 3) ⟨Kernel.new, [], []⟩
      [.newProcess .hle, .newThread 0, .newThread 0, .runNext, .call .makePortPair,
        .call (.newHandle 2), .call (.newHandle 3),
        .call (.waitSyncN 0 [Handle.fromRaw 1] false (-1)), .stop 0, .runNext,
        .call (.createSessionToPort (Handle.fromRaw 2)), .stop 1, .runNext,
        .call (.acceptSession (Handle.fromRaw 1)), .call (.acceptSession (Handle.fromRaw 1)),
        .stop 0, .runNext, .call (.createSessionToPort (Handle.fromRaw 2))]).map (fun s =>
        (s.created, s.accepted, s.kernel.object? 2, s.kernel.object? 3)) =
      some ([(4, 1), (6, 1)], [4], some (.serverPort ⟨[], [6], some 3⟩),
        some (.clientPort ⟨[⟨1, 1⟩], 2⟩)) := by
    decide +kernel
  obtain ⟨s, hs, hview⟩ := Option.map_eq_some_iff.mp hrun
  obtain ⟨hcreated, hview⟩ := Prod.mk.inj hview
  obtain ⟨haccepted, hview⟩ := Prod.mk.inj hview
  obtain ⟨hserver, hclient⟩ := Prod.mk.inj hview
  obtain ⟨tr, htr, hc⟩ := Run.every_of_runAll (fun _ _ _ hst => PortTrace.step_of_step? hst)
    (.start (M := portSystem UInt32.ofNat 2 3) rfl) (everyStep_nil _) hs
  exact ⟨tr, s, htr, hcreated, haccepted,
    portHandShake htr hc ⟨_, _, hserver, rfl, hclient, rfl⟩⟩

end Pomelo
