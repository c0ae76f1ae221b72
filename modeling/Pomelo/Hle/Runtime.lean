/-
  Threads of the emulator (`hle/src/thread.rs`).

  The code of such a thread is a future. It calls the kernel, waits in the functions of
  `HLEContext`, and is ready at its end (`HLEAction`). A function of `HLEContext` makes its
  supervisor call, suspends if the call has put the thread to sleep, and goes on from there with
  what the kernel resumes the thread with (`HLESuspended`). `ThreadHLE.advance` is one such
  stretch of a poll; a poll goes on until the future is pending or ready.

  A thread of the emulator calls the kernel only while it runs: a call that puts it to sleep is
  the last before it suspends. Where it suspends it goes on with what the wait can end with, and
  with nothing else (`Stretch`, `HLESuspended.expects_of_endsWith`).
-/
import Pomelo.Hle.Called
import Pomelo.Hle.Awaits

namespace Pomelo

open Lib Outcome

/-! ## Calls without waiting -/

/-- What code of the emulator asks of the kernel without waiting for anything. -/
inductive DirectCall where
  | createMutex (initialLocked : Bool)
  | createEvent (resetType : ResetType)
  | createTimer (resetType : ResetType)
  | createAddressArbiter
  | createCodeset
  | releaseMutex (handle : Option Handle)
  | signalEvent (handle : Option Handle)
  | setTimer (handle : Option Handle) (initial interval : Int64)
  | closeHandle (handle : Option Handle)
  | makeSessionPair
  | makePortPair
  | newHandle (o : ObjId)
  | registerPort (name : List UInt8) (port : ObjId)
  | lookupPort (name : List UInt8)
deriving DecidableEq, Repr

inductive DirectResult where
  | created (res : KResult Handle)
  | done (res : KResult Unit)
  | pair (server client : ObjId)
  | handle (handle : Handle)
  | unit
  | port (port : Option ObjId)

namespace DirectCall

variable (rng : Nat → UInt32) (fuel : Nat) (k : Kernel)

def exec : DirectCall → HleExec (DirectResult × Kernel)
  | createMutex initialLocked => do
    let (res, k) ← k.createMutex rng fuel initialLocked
    return (.created res, k)
  | createEvent resetType => do
    let (res, k) ← k.createEvent rng fuel resetType
    return (.created res, k)
  | createTimer resetType => do
    let (res, k) ← k.createTimer rng fuel resetType
    return (.created res, k)
  | createAddressArbiter => do
    let (res, k) ← k.createAddressArbiter rng fuel
    return (.created res, k)
  | createCodeset => do
    let (res, k) ← k.createCodeset rng fuel
    return (.created res, k)
  | releaseMutex handle => do
    let (res, k) ← k.releaseMutex handle
    return (.done res, k)
  | signalEvent handle => do
    let (res, k) ← k.signalEvent handle
    return (.done res, k)
  | setTimer handle initial interval => do
    let (res, k) ← k.setTimer handle initial interval
    return (.done res, k)
  | closeHandle handle => do
    let (res, k) ← k.closeHandle handle
    return (.done res, k)
  | makeSessionPair =>
    let (server, client, k) := Pomelo.makeSessionPair k
    return (.pair server client, k)
  | makePortPair =>
    let (server, client, k) := Pomelo.makePortPair k
    return (.pair server client, k)
  | newHandle o => do
    -- the code holds a reference to the object
    let _ ← liftM (Outcome.expect (k.object? o) Panic.unwrap)
    let (handle, k) ← k.newHandle rng fuel o
    return (.handle handle, k)
  | registerPort name port => do
    let k ← k.registerPort name port
    return (.unit, k)
  | lookupPort name => return (.port (k.lookupPort name), k)

end DirectCall

/-! ## Futures -/

/-- What the code of a future does next, and how it goes on after it: the functions of
    `HLEContext` with their results. -/
inductive HLEAction (C : Type) where
  | direct (call : DirectCall) (cont : DirectResult → C)
  | waitSync1 (handle : Handle) (timeout : Option Int64) (cont : KResult Unit → C)
  | replyAndReceive (handles : List (Option Handle)) (replyTarget : Option Handle)
      (ipcData : List UInt8) (cont : Option Nat → KResult Unit → List UInt8 → C)
  | sendSyncRequest (handle : Handle) (ipcData : List UInt8)
      (cont : KResult Unit → List UInt8 → C)
  | createSessionToPort (handle : Handle) (cont : KResult Handle → C)
  | acceptSession (handle : Handle) (cont : KResult Handle → C)
  | ready
  | panic (e : Panic)

/-- The code of threads of the emulator. -/
class HLECode (C : Type) where
  next : C → HLEAction C

/-- The function of `HLEContext` in which a future is suspended. -/
inductive HLESuspended (C : Type) where
  | waitSync1 (cont : KResult Unit → C)
  | replyAndReceive (handles : List (Option Handle))
      (cont : Option Nat → KResult Unit → List UInt8 → C)
  | sendSyncRequest (cont : KResult Unit → List UInt8 → C)
  | createSessionToPort (given : Handle) (cont : KResult Handle → C)
  | acceptSession (handle : Handle) (cont : KResult Handle → C)

namespace HLESuspended

variable {C : Type}

/-- The payloads that the function goes on with: on others it panics, and so does the access to
    the handles with an index that is too large. `wait_sync_1` goes on with `TimeoutReached`
    whether or not it has a timeout. -/
def expects : HLESuspended C → ThreadResume → Bool
  | waitSync1 _, .normal => true
  | waitSync1 _, .timeoutReached => true
  | waitSync1 _, .waitSyncN _ => false
  | replyAndReceive handles _, .waitSyncN index => decide (index < handles.length)
  | replyAndReceive _ _, _ => false
  | sendSyncRequest _, resume => decide (resume = .normal)
  | createSessionToPort _ _, resume => decide (resume = .normal)
  | acceptSession _ _, resume => decide (resume = .normal)

/-- The wait in which the function puts its thread to sleep. -/
def SleepsIn : HLESuspended C → Wait → Prop
  | waitSync1 _, wait => wait.waitType = .waitSync1
  | replyAndReceive handles _, wait => wait = ⟨.waitSyncN, handles.length, false⟩
  | sendSyncRequest _, wait => wait = ⟨.waitSync1, 1, false⟩
  | createSessionToPort _ _, wait => wait = ⟨.waitSync1, 1, false⟩
  | acceptSession _ _, wait => wait = ⟨.waitSync1, 1, false⟩

/-- **A function of `HLEContext` goes on with whatever its wait can end with.** -/
theorem expects_of_endsWith {pending : HLESuspended C} {wait : Wait} {resume : ThreadResume}
    (hwait : pending.SleepsIn wait) (h : wait.endsWith resume = true) :
    pending.expects resume = true := by
  cases pending with
  | waitSync1 cont =>
    cases resume with
    | normal => rfl
    | timeoutReached => rfl
    | waitSyncN index =>
      have htype := of_decide_eq_true (Bool.and_eq_true_iff.mp h).1
      rw [show wait.waitType = .waitSync1 from hwait] at htype
      cases htype
  | replyAndReceive handles cont =>
    subst hwait
    cases resume with
    | normal => cases h
    | timeoutReached => cases h
    | waitSyncN index => exact h
  | sendSyncRequest cont =>
    subst hwait
    cases resume <;> first | rfl | cases h
  | createSessionToPort given cont =>
    subst hwait
    cases resume <;> first | rfl | cases h
  | acceptSession handle cont =>
    subst hwait
    cases resume <;> first | rfl | cases h

end HLESuspended

inductive Future (C : Type) where
  | running (code : C)
  | suspended (pending : HLESuspended C)
  | finished

/-- The future, and the payload of the last resume (`SharedHLEContext`). -/
structure ThreadHLE (C : Type) where
  future : Future C
  resume : ThreadResume

/-- How a stretch of a poll ends: the code goes on, or the poll is over. -/
inductive Polled where
  | goesOn
  | pending
  | ready
deriving DecidableEq, Repr

namespace ThreadHLE

def new {C : Type} (code : C) : ThreadHLE C := { future := .running code, resume := .normal }

section Advance

variable {C : Type} (rng : Nat → UInt32) (fuel : Nat) (time : UInt64) (self : ThreadHLE C)
  (k : Kernel)

/-- The code goes on. -/
def goOn (code : C) : Polled × ThreadHLE C := (.goesOn, { self with future := .running code })

/-- `HLESuspendFuture`, polled the first time. -/
def suspend (pending : HLESuspended C) : Polled × ThreadHLE C :=
  (.pending, { self with future := .suspended pending })

/-- `unreachable!("{:?}", resume)`. -/
def badResume {α : Type} : HleExec α := .panic (.other (.unreachable "resume"))

/-- The loop of `accept_session`, up to where it waits. -/
def accept (handle : Handle) (cont : KResult Handle → C) :
    HleExec ((Polled × ThreadHLE C) × Kernel) := do
  let (res, k) ← k.acceptSession rng fuel (some handle)
  match res with
  | .ok (.inl session) => return (self.goOn (cont (.ok session)), k)
  | .ok (.inr _) => return (self.suspend (.acceptSession handle cont), k)
  | .error err => return (self.goOn (cont (.error err)), k)

/-- The next action of the code, up to where it waits. -/
def act : HLEAction C → HleExec ((Polled × ThreadHLE C) × Kernel)
  | .direct call cont => do
    let (res, k) ← call.exec rng fuel k
    return (self.goOn (cont res), k)
  | .waitSync1 handle timeout cont => do
    let (res, k) ← k.waitSync1 time (some handle) (timeout.getD (-1))
    match res with
    | .ok _ => return (self.suspend (.waitSync1 cont), k)
    | .error err => return (self.goOn (cont (.error err)), k)
  | .replyAndReceive handles replyTarget ipcData cont => do
    let k ← k.setThreadIpcData ipcData
    let (res, k) ← k.replyAndReceivePre rng fuel time handles replyTarget
    match res with
    | .ok (some _) => return (self.suspend (.replyAndReceive handles cont), k)
    | .ok none => .panic (.other (.unreachable "reply_and_receive"))
    | .error err => return (self.goOn (cont none (.error err) ipcData), k)
  | .sendSyncRequest handle ipcData cont => do
    let k ← k.setThreadIpcData ipcData
    let (res, k) ← k.sendSyncRequest (some handle)
    match res with
    | .ok _ => return (self.suspend (.sendSyncRequest cont), k)
    | .error err => return (self.goOn (cont (.error err) ipcData), k)
  | .createSessionToPort handle cont => do
    let (res, k) ← k.createSessionToPort rng fuel (some handle)
    match res with
    | .ok (some _, given) => return (self.suspend (.createSessionToPort given cont), k)
    | .ok (none, given) => return (self.goOn (cont (.ok given)), k)
    | .error err => return (self.goOn (cont (.error err)), k)
  | .acceptSession handle cont => self.accept rng fuel k handle cont
  | .ready => do
    let k ← k.exitThread
    return ((.ready, { self with future := .finished }), k)
  | .panic e => .panic (.other e)

/-- From where the future was suspended, with what the thread was resumed with. -/
def proceed (resume : ThreadResume) : HLESuspended C → HleExec ((Polled × ThreadHLE C) × Kernel)
  | .waitSync1 cont =>
    match resume with
    | .normal => return (self.goOn (cont (.ok ())), k)
    | .timeoutReached => return (self.goOn (cont (.error Errors.timeoutReached)), k)
    | _ => badResume
  | .replyAndReceive handles cont => do
    let ((index, res), k) ← k.replyAndReceivePost rng fuel handles resume
    let ipcData ← k.getThreadIpcData
    return (self.goOn (cont (some index) res ipcData), k)
  | .sendSyncRequest cont =>
    match resume with
    | .normal => do
      let ipcData ← k.getThreadIpcData
      return (self.goOn (cont (.ok ()) ipcData), k)
    | _ => badResume
  | .createSessionToPort given cont =>
    match resume with
    | .normal => return (self.goOn (cont (.ok given)), k)
    | _ => badResume
  | .acceptSession handle cont =>
    match resume with
    | .normal => self.accept rng fuel k handle cont
    | _ => badResume

/-- A stretch of a poll. `HLESuspendFuture`, polled again, takes the payload. -/
def advance [HLECode C] : HleExec ((Polled × ThreadHLE C) × Kernel) :=
  match self.future with
  | .running code => self.act rng fuel time k (HLECode.next code)
  | .suspended pending => { self with resume := .normal }.proceed rng fuel k self.resume pending
  | .finished => .panic (.other (.panic "async fn resumed after completion"))

end Advance

section Resume

variable {C : Type} [HLECode C] (rng : Nat → UInt32) (fuel : Nat)

/-- A poll, with the time in each of its stretches. -/
def poll : List UInt64 → ThreadHLE C → Kernel → HleExec (ThreadHLE C × Kernel)
  | [], _, _ => .diverge
  | time :: times, self, k => do
    let ((polled, self), k) ← self.advance rng fuel time k
    match polled with
    | .goesOn => poll times self k
    | .pending => return (self, k)
    | .ready => return (self, k)

/-- What the thread is resumed with is left for its future. -/
def resumed {C : Type} (self : ThreadHLE C) (payload : ThreadResume) : ThreadHLE C :=
  { self with resume := payload }

/-- `ThreadHLE::resume`. -/
def resumeThread (times : List UInt64) (self : ThreadHLE C) (payload : ThreadResume)
    (k : Kernel) : HleExec (ThreadHLE C × Kernel) :=
  poll rng fuel times (self.resumed payload) k

end Resume

end ThreadHLE

/-! ## What a stretch does to the kernel -/

section Called

variable {rng : Nat → UInt32} {fuel : Nat} {time : UInt64} {C : Type} {self : ThreadHLE C}
  {k k' : Kernel} {after : Polled × ThreadHLE C} {goesOn : Prop}

theorem DirectCall.exec_called {call : DirectCall} {res : DirectResult}
    (hcalling : k.calling = true) (ht : k.view.Tidy)
    (h : call.exec rng fuel k = .ret (res, k')) : Called rng (fun _ => True) goesOn k k' := by
  have hcall : ∀ (svc : SvcCall), svc.goesOn = true → svc.exec rng fuel k = .ret k' →
      Called rng (fun _ => True) goesOn k k' := fun svc hgoesOn =>
        .of_call svc fuel hcalling ht hgoesOn fun _ _ => trivial
  cases call with
  | createMutex initialLocked =>
    obtain ⟨⟨r, k1⟩, hcreate, h⟩ := bind_eq_ret.mp h
    cases h
    exact hcall (.createMutex initialLocked) rfl (afterCall_eq_ret.mpr ⟨r, hcreate⟩)
  | createEvent resetType =>
    obtain ⟨⟨r, k1⟩, hcreate, h⟩ := bind_eq_ret.mp h
    cases h
    exact hcall (.createEvent resetType) rfl (afterCall_eq_ret.mpr ⟨r, hcreate⟩)
  | createTimer resetType =>
    obtain ⟨⟨r, k1⟩, hcreate, h⟩ := bind_eq_ret.mp h
    cases h
    exact hcall (.createTimer resetType) rfl (afterCall_eq_ret.mpr ⟨r, hcreate⟩)
  | createAddressArbiter =>
    obtain ⟨⟨r, k1⟩, hcreate, h⟩ := bind_eq_ret.mp h
    cases h
    exact hcall .createAddressArbiter rfl (afterCall_eq_ret.mpr ⟨r, hcreate⟩)
  | createCodeset =>
    obtain ⟨⟨r, k1⟩, hcreate, h⟩ := bind_eq_ret.mp h
    cases h
    exact hcall .createCodeset rfl (afterCall_eq_ret.mpr ⟨r, hcreate⟩)
  | releaseMutex handle =>
    obtain ⟨⟨r, k1⟩, hrelease, h⟩ := bind_eq_ret.mp h
    cases h
    exact hcall (.releaseMutex handle) rfl (afterCall_eq_ret.mpr ⟨r, hrelease⟩)
  | signalEvent handle =>
    obtain ⟨⟨r, k1⟩, hsignal, h⟩ := bind_eq_ret.mp h
    cases h
    exact hcall (.signalEvent handle) rfl (afterCall_eq_ret.mpr ⟨r, hsignal⟩)
  | setTimer handle initial interval =>
    obtain ⟨⟨r, k1⟩, hset, h⟩ := bind_eq_ret.mp h
    cases h
    exact hcall (.setTimer handle initial interval) rfl (afterCall_eq_ret.mpr ⟨r, hset⟩)
  | closeHandle handle =>
    obtain ⟨⟨r, k1⟩, hclose, h⟩ := bind_eq_ret.mp h
    cases h
    exact hcall (.closeHandle handle) rfl (afterCall_eq_ret.mpr ⟨r, hclose⟩)
  | makeSessionPair =>
    cases h
    exact hcall .makeSessionPair rfl rfl
  | makePortPair =>
    cases h
    exact hcall .makePortPair rfl rfl
  | newHandle o =>
    obtain ⟨x, hx, h⟩ := bind_eq_ret.mp h
    obtain ⟨⟨handle, k1⟩, hnew, h⟩ := bind_eq_ret.mp h
    cases h
    refine hcall (.newHandle o) rfl (mapPanic_eq_ret.mpr ?_)
    exact bind_eq_ret.mpr ⟨x, mapPanic_eq_ret.mp hx,
      bind_eq_ret.mpr ⟨_, mapPanic_eq_ret.mp hnew, rfl⟩⟩
  | registerPort name port =>
    obtain ⟨k1, hregister, h⟩ := bind_eq_ret.mp h
    cases h
    exact hcall (.registerPort name port) rfl hregister
  | lookupPort name =>
    cases h
    exact .refl k

namespace ThreadHLE

/-- What a stretch of a poll has done: its calls, and how it has left the future. Where the poll
    is over, the thread has gone to sleep in the wait of the function that it is suspended in, or
    has exited. -/
structure Stretch (rng : Nat → UInt32) (k k' : Kernel) (after : Polled × ThreadHLE C) : Prop where
  called : Called rng (fun _ => True) (after.1 = .goesOn) k k'
  goesOn : after.1 = .goesOn → ∃ code, after.2.future = .running code
  pending : after.1 = .pending → ∃ pending wait, after.2.future = .suspended pending ∧
    pending.SleepsIn wait ∧ GoesToSleep .any [] wait k k'
  ready : after.1 = .ready → after.2.future = .finished ∧ k.exitThread = .ret k'

namespace Stretch

/-- The code goes on. -/
theorem of_goOn {code : C} (h : Called rng (fun _ => True) True k k') :
    Stretch rng k k' (self.goOn code) where
  called := ⟨h.calls, fun _ => h.quiet trivial⟩
  goesOn _ := ⟨code, rfl⟩
  pending hpending := by cases hpending
  ready hready := by cases hready

/-- The future is suspended, after calls of which the last put the thread to sleep. -/
theorem of_suspend {pending : HLESuspended C} {wait : Wait}
    (hcalls : ∃ calls, CallsTo rng calls k k' ∧
      ∀ data, SvcCall.setThreadIpcData data ∈ calls → True) (hwait : pending.SleepsIn wait)
    (hsleeps : GoesToSleep .any [] wait k k') : Stretch rng k k' (self.suspend pending) where
  called := ⟨hcalls, fun hgoesOn => by cases hgoesOn⟩
  goesOn hgoesOn := by cases hgoesOn
  pending _ := ⟨pending, wait, rfl, hwait, hsleeps⟩
  ready hready := by cases hready

end Stretch

theorem accept_stretch {handle : Handle} {cont : KResult Handle → C} (hcalling : k.calling = true)
    (h : self.accept rng fuel k handle cont = .ret (after, k')) : Stretch rng k k' after := by
  obtain ⟨⟨res, k1⟩, hcall, h⟩ := bind_eq_ret.mp h
  have hcalls : ∃ calls, CallsTo rng calls k k1 ∧
      ∀ data, SvcCall.setThreadIpcData data ∈ calls → True :=
    calls_one (.acceptSession (some handle)) fuel hcalling (fun _ _ => trivial)
      (afterCall_eq_ret.mpr ⟨res, hcall⟩)
  rcases acceptSession_result .any [] hcall with ⟨_, hmade⟩ | ⟨rfl, hsleeps⟩
  · dsimp only at h
    split at h
    · cases h
      exact .of_goOn ⟨hcalls, fun _ => hmade .awake⟩
    · rename_i hwait
      exact absurd rfl (hwait _)
    · cases h
      exact .of_goOn ⟨hcalls, fun _ => hmade .awake⟩
  · cases h
    exact .of_suspend hcalls rfl hsleeps

theorem act_stretch {action : HLEAction C} (hcalling : k.calling = true) (ht : k.view.Tidy)
    (h : self.act rng fuel time k action = .ret (after, k')) : Stretch rng k k' after := by
  cases action with
  | direct call cont =>
    obtain ⟨⟨res, k1⟩, hcall, h⟩ := bind_eq_ret.mp h
    cases h
    exact .of_goOn (call.exec_called hcalling ht hcall)
  | waitSync1 handle timeout cont =>
    obtain ⟨⟨res, k1⟩, hcall, hrest⟩ := bind_eq_ret.mp h
    have hexec : SvcCall.exec rng fuel k (.waitSync1 time (some handle) (timeout.getD (-1))) =
        .ret k1 := liftCall_eq_ret.mpr ⟨res, mapPanic_eq_ret.mp hcall⟩
    rcases waitSync1_result .any [] (mapPanic_eq_ret.mp hcall) with
      ⟨err, rfl, rfl⟩ | ⟨rfl, timed, hsleeps⟩
    · cases hrest
      exact .of_goOn (.refl _)
    · cases hrest
      have hwait : (HLESuspended.waitSync1 cont).SleepsIn ⟨.waitSync1, 1, timed⟩ := rfl
      exact .of_suspend (calls_one _ fuel hcalling (fun _ _ => trivial) hexec) hwait hsleeps
  | replyAndReceive handles replyTarget ipcData cont =>
    obtain ⟨k1, hcopy, h⟩ := bind_eq_ret.mp h
    have hcopy := mapPanic_eq_ret.mp hcopy
    obtain ⟨⟨res, k2⟩, hcall, hrest⟩ := bind_eq_ret.mp h
    have hexec : SvcCall.exec rng fuel k1 (.replyAndReceivePre time handles replyTarget) =
        .ret k2 := afterCall_eq_ret.mpr ⟨res, hcall⟩
    rcases replyAndReceivePre_result .any [] trivial (nodup_of_copy ht hcopy) hcall with
      ⟨err, rfl, rfl⟩ | ⟨rfl, hsleeps⟩
    · cases hrest
      exact .of_goOn (.of_command hcalling trivial (fun _ _ => trivial) hcopy hexec fun _ => rfl)
    · cases hrest
      exact .of_suspend (calls_of_command hcalling trivial (fun _ _ => trivial) hcopy hexec) rfl
        (hsleeps.behind (.of_setThreadIpcData trivial hcopy))
  | sendSyncRequest handle ipcData cont =>
    obtain ⟨k1, hcopy, h⟩ := bind_eq_ret.mp h
    have hcopy := mapPanic_eq_ret.mp hcopy
    obtain ⟨⟨res, k2⟩, hcall, hrest⟩ := bind_eq_ret.mp h
    have hexec : SvcCall.exec rng fuel k1 (.sendSyncRequest (some handle)) = .ret k2 :=
      afterCall_eq_ret.mpr ⟨res, hcall⟩
    rcases sendSyncRequest_result .any [] hcall with ⟨err, rfl, rfl⟩ | ⟨rfl, hsleeps⟩
    · cases hrest
      exact .of_goOn (.of_command hcalling trivial (fun _ _ => trivial) hcopy hexec fun _ => rfl)
    · cases hrest
      exact .of_suspend (calls_of_command hcalling trivial (fun _ _ => trivial) hcopy hexec) rfl
        (hsleeps.behind (.of_setThreadIpcData trivial hcopy))
  | createSessionToPort handle cont =>
    obtain ⟨⟨res, k1⟩, hcall, hrest⟩ := bind_eq_ret.mp h
    have hexec : SvcCall.exec rng fuel k (.createSessionToPort (some handle)) = .ret k1 :=
      afterCall_eq_ret.mpr ⟨res, hcall⟩
    rcases createSessionToPort_result .any [] hcall with
      ⟨err, rfl, rfl⟩ | ⟨given, rfl, hsleeps⟩
    · cases hrest
      exact .of_goOn (.refl _)
    · cases hrest
      exact .of_suspend (calls_one _ fuel hcalling (fun _ _ => trivial) hexec) rfl hsleeps
  | acceptSession handle cont => exact accept_stretch hcalling h
  | ready =>
    obtain ⟨k1, hexit, h⟩ := bind_eq_ret.mp h
    cases h
    refine ⟨.of_last .exitThread 0 hcalling (fun hgoesOn => by cases hgoesOn)
      (fun _ _ => trivial) hexit, ?_, ?_, ?_⟩
    · exact fun hgoesOn => by cases hgoesOn
    · exact fun hpending => by cases hpending
    · exact fun _ => ⟨rfl, mapPanic_eq_ret.mp hexit⟩
  | panic e => cases h

theorem proceed_stretch {resume : ThreadResume} {pending : HLESuspended C}
    (hcalling : k.calling = true) (ht : k.view.Tidy)
    (h : self.proceed rng fuel k resume pending = .ret (after, k')) : Stretch rng k k' after := by
  cases pending with
  | waitSync1 cont =>
    cases resume with
    | normal =>
      cases h
      exact .of_goOn (.refl k)
    | timeoutReached =>
      cases h
      exact .of_goOn (.refl k)
    | waitSyncN index => cases h
  | replyAndReceive handles cont =>
    obtain ⟨⟨⟨index, res⟩, k1⟩, hpost, h⟩ := bind_eq_ret.mp h
    obtain ⟨ipcData, _, h⟩ := bind_eq_ret.mp h
    cases h
    exact .of_goOn (.of_call (.replyAndReceivePost handles resume) fuel hcalling ht rfl
      (fun _ _ => trivial) (liftCall_eq_ret.mpr ⟨_, mapPanic_eq_ret.mp hpost⟩))
  | sendSyncRequest cont =>
    cases resume with
    | normal =>
      obtain ⟨ipcData, _, h⟩ := bind_eq_ret.mp h
      cases h
      exact .of_goOn (.refl k)
    | timeoutReached => cases h
    | waitSyncN index => cases h
  | createSessionToPort given cont =>
    cases resume with
    | normal =>
      cases h
      exact .of_goOn (.refl k)
    | timeoutReached => cases h
    | waitSyncN index => cases h
  | acceptSession handle cont =>
    cases resume with
    | normal => exact accept_stretch hcalling h
    | timeoutReached => cases h
    | waitSyncN index => cases h

/-- **A stretch of a poll** makes calls of the running thread, and is over with the call that puts
    the thread to sleep or ends it. -/
theorem advance_stretch [HLECode C] (hcalling : k.calling = true) (ht : k.view.Tidy)
    (h : self.advance rng fuel time k = .ret (after, k')) : Stretch rng k k' after := by
  unfold advance at h
  split at h
  · exact act_stretch hcalling ht h
  · exact proceed_stretch hcalling ht h
  · cases h

end ThreadHLE

end Called

end Pomelo
