/-
  The calls that the kernel makes on an object.

  A step of the kernel calls an event, a timer or a mutex where its code says so: a thread waits,
  releases or signals, a timer is looked at in a tick. `SvcStep.log` follows the code of a step and
  writes these calls down, with the kernels before and after each. All else that a step does is
  around the object, between two of its calls (`svcStep_log`), so that what is counted over the
  records of a path is counted over all calls on the object in it.
-/
import Pomelo.Hle.ObjectCalls

namespace Pomelo

open Lib Outcome

/-- A call on an object, with the kernels before and after it. -/
abbrev CallRecord := Record Kernel ObjectCall

/-- The calls on the object from one kernel to another. -/
abbrev CallsOn (o : ObjId) : Kernel → List CallRecord → Kernel → Prop :=
  Recorded (CallStep o) fun call => call.isAround = true

/-- The record of a call on `p`, if this is the object. -/
def recordOf (o p : ObjId) (call : ObjectCall) (k k' : Kernel) : List CallRecord :=
  if p = o then [⟨k, call, k'⟩] else []

/-! ## The records of a step -/

namespace Kernel

section Log

variable (rng : Nat → UInt32) (fuel : Nat) (time : UInt64) (o : ObjId) (k : Kernel)

def releaseMutexLog (handle : Option Handle) : HleExec (List CallRecord) := do
  match ← k.lookupObject handle with
  | some (object, .mutex mutex) => do
    let k' ← mutex.release object k
    return recordOf o object .release k k'
  | _ => return []

def signalEventLog (handle : Option Handle) : HleExec (List CallRecord) := do
  match ← k.lookupObject handle with
  | some (object, .event event) => do
    let k' ← event.doSignal object k
    return recordOf o object .signal k k'
  | _ => return []

def clearEventLog (handle : Option Handle) : Exec (List CallRecord) := do
  match ← k.lookupObject handle with
  | some (object, .event _) => return recordOf o object .clear k (EventImpl.clear object k)
  | _ => return []

/-- `set_timer`, and `cancel_timer` with no time and no interval. -/
def setTimerLog (handle : Option Handle) (initial interval : Int64) : Exec (List CallRecord) := do
  match ← k.lookupObject handle with
  | some (object, .timer _) =>
    return recordOf o object (.set initial interval) k (TimerImpl.set object initial interval k)
  | _ => return []

def waitSync1Log (handle : Option Handle) (timeout : Int64) : Exec (List CallRecord) := do
  match ← k.lookupObject handle with
  | some (object, data) =>
    if data.isSync then do
      let absolute ← (makeTimeout timeout).absolute time
      let (waker, k) ← k.suspendThread [object] absolute .waitSync1
      let k' ← KObject.wait object waker k data
      return recordOf o object (.wait waker) k k'
    else return []
  | none => return []

def waitEachLog (waker : Waker) : List ObjId → Kernel → Exec (List CallRecord)
  | [], _ => return []
  | object :: objects, k => do
    let data ← Outcome.expect ((k.object? object).filter KObject.isSync)
      (.unimplemented "waitsync with invalid objects")
    let k' ← KObject.wait object waker k data
    let log ← waitEachLog waker objects k'
    return recordOf o object (.wait waker) k k' ++ log

def waitSyncNLog (handles : List (Option Handle)) (timeout : Int64) : Exec (List CallRecord) := do
  let objects ← k.waitedObjects handles
  let absolute ← (makeTimeout timeout).absolute time
  let (waker, k) ← k.suspendThread objects absolute .waitSyncN
  waitEachLog o waker objects k

def replyAndReceivePreLog (handles : List (Option Handle)) (replyTarget : Option Handle) :
    HleExec (List CallRecord) := do
  let (replied, k) ← k.replyTo rng fuel replyTarget
  match replied with
  | .ok () => k.waitSyncNLog time o handles (-1)
  | .error _ => return []

/-- `tick_at` calls the object if it is a timer. -/
def timerLog (object : ObjId) (k' : Kernel) : List CallRecord :=
  match k.object? object with
  | some (.timer _) => recordOf o object (.tick time) k k'
  | _ => []

def tickTimersLog : List ObjId → Kernel → HleExec (List CallRecord)
  | [], _ => return []
  | object :: objects, k => do
    let k' ← k.tickTimer time object
    let log ← tickTimersLog objects k'
    return k.timerLog time o object k' ++ log

/-- An interrupt signals the event bound to it. -/
def interruptLog (interrupt : UInt32) (k' : Kernel) : List CallRecord :=
  match (k.interrupts.find? fun entry => entry.1 = interrupt).map Prod.snd with
  | some object =>
    match k.object? object with
    | some (.event _) => recordOf o object .signal k k'
    | _ => []
  | none => []

def tickInterruptsLog : List UInt32 → Kernel → HleExec (List CallRecord)
  | [], _ => return []
  | interrupt :: interrupts, k => do
    let k' ← k.tickInterrupt interrupt
    let log ← tickInterruptsLog interrupts k'
    return k.interruptLog o interrupt k' ++ log

def tickLog (interrupts : List UInt32) : HleExec (List CallRecord) := do
  let k ← k.tickThreadsAt time
  let timers := List.range k.objects.length
  let k' ← Kernel.tickTimers time timers k
  let log ← tickTimersLog time o timers k
  let log' ← tickInterruptsLog o interrupts k'
  return log ++ log'

end Log

end Kernel

section Log

variable (rng : Nat → UInt32) (fuel : Nat) (o : ObjId) (k : Kernel)

/-- The calls on an event, a timer or a mutex in a supervisor call. -/
def SvcCall.log : SvcCall → HleExec (List CallRecord)
  | releaseMutex handle => k.releaseMutexLog o handle
  | signalEvent handle => k.signalEventLog o handle
  | clearEvent handle => do k.clearEventLog o handle
  | setTimer handle initial interval => do k.setTimerLog o handle initial interval
  | cancelTimer handle => do k.setTimerLog o handle (-1) (-1)
  | waitSync1 time handle timeout => do k.waitSync1Log time o handle timeout
  | waitSyncN time handles _ timeout => do k.waitSyncNLog time o handles timeout
  | replyAndReceivePre time handles replyTarget =>
    k.replyAndReceivePreLog rng fuel time o handles replyTarget
  | _ => return []

/-- The calls on an event, a timer or a mutex in a step of the kernel. -/
def SvcStep.log : SvcStep → HleExec (List CallRecord)
  | call c => c.log rng fuel o k
  | tick time interrupts => k.tickLog time o interrupts
  | _ => return []

end Log

/-- A path of the kernel with the calls on the object in it, oldest first. -/
inductive Logged (rng : Nat → UInt32) (o : ObjId) (k : Kernel) :
    List (Kernel × SvcStep) → List CallRecord → Kernel → Prop where
  | refl : Logged rng o k [] [] k
  | next {tr : List (Kernel × SvcStep)} {log log' : List CallRecord} {k1 k2 : Kernel}
      {l : SvcStep} {fuel : Nat} (h : Logged rng o k tr log k1) (henabled : l.enabled k1 = true)
      (hexec : l.exec rng fuel k1 = .ret k2) (hlog : l.log rng fuel o k1 = .ret log') :
      Logged rng o k ((k1, l) :: tr) (log ++ log') k2

/-! ## The records are the calls -/

section Calls

variable {rng : Nat → UInt32} {fuel : Nat} {time : UInt64} {k k' : Kernel} {o : ObjId}

/-- A call, on the object or on another. -/
theorem callsOn_recordOf {p : ObjId} {call : ObjectCall} (hcall : p = o → CallStep o k call k')
    (haround : p ≠ o → Around o k k') : CallsOn o k (recordOf o p call k k') k' := by
  unfold recordOf
  split
  · rename_i hp
    exact .single (hcall hp)
  · rename_i hp
    exact .nil (haround hp)

theorem releaseMutex_log (o : ObjId) {handle : Option Handle} {r : KResult Unit}
    (h : k.releaseMutex handle = .ret (r, k')) :
    ∃ log, k.releaseMutexLog o handle = .ret log ∧ CallsOn o k log k' := by
  obtain ⟨found, hfound, h⟩ := bind_eq_ret.mp h
  split at h
  · rename_i p self
    have hx := lookupObject_eq_ret (mapPanic_eq_ret.mp hfound)
    obtain ⟨k1, hrelease, h⟩ := bind_eq_ret.mp h
    cases h
    refine ⟨_, bind_eq_ret.mpr ⟨_, hfound, bind_eq_ret.mpr ⟨k', hrelease, rfl⟩⟩,
      callsOn_recordOf (fun hp => ?_) fun hp => ?_⟩
    · subst hp
      exact .release hx hrelease
    · unfold MutexImpl.release at hrelease
      split at hrelease
      · cases hrelease
        exact Around.of_modify hp _
      · exact Around.of_wakeExpect hp hrelease
  · rename_i hother
    cases h
    refine ⟨[], bind_eq_ret.mpr ⟨_, hfound, ?_⟩, .nil (.refl k)⟩
    split
    · exact absurd rfl (hother _ _)
    · rfl

theorem callsOn_doSignal {p : ObjId} {self : EventImpl} (hx : k.object? p = some (.event self))
    (h : self.doSignal p k = .ret k') : CallsOn o k (recordOf o p .signal k k') k' := by
  refine callsOn_recordOf (fun hp => ?_) fun hp => ?_
  · subst hp
    exact .signal hx h
  · exact (Around.of_modify hp _).trans (Around.of_wakeForSignal hp h)

theorem signalEvent_log (o : ObjId) {handle : Option Handle} {r : KResult Unit}
    (h : k.signalEvent handle = .ret (r, k')) :
    ∃ log, k.signalEventLog o handle = .ret log ∧ CallsOn o k log k' := by
  obtain ⟨found, hfound, h⟩ := bind_eq_ret.mp h
  split at h
  · obtain ⟨k1, hsignal, h⟩ := bind_eq_ret.mp h
    cases h
    exact ⟨_, bind_eq_ret.mpr ⟨_, hfound, bind_eq_ret.mpr ⟨k', hsignal, rfl⟩⟩,
      callsOn_doSignal (lookupObject_eq_ret (mapPanic_eq_ret.mp hfound)) hsignal⟩
  · rename_i hother
    cases h
    refine ⟨[], bind_eq_ret.mpr ⟨_, hfound, ?_⟩, .nil (.refl k)⟩
    split
    · exact absurd rfl (hother _ _)
    · rfl

theorem clearEvent_log (o : ObjId) {handle : Option Handle} {r : KResult Unit}
    (h : k.clearEvent handle = .ret (r, k')) :
    ∃ log, k.clearEventLog o handle = .ret log ∧ CallsOn o k log k' := by
  obtain ⟨found, hfound, h⟩ := bind_eq_ret.mp h
  split at h
  · rename_i p self
    cases h
    refine ⟨_, bind_eq_ret.mpr ⟨_, hfound, rfl⟩,
      callsOn_recordOf (fun hp => ?_) fun hp => Around.of_modify hp _⟩
    subst hp
    exact .clear (lookupObject_eq_ret hfound)
  · rename_i hother
    cases h
    refine ⟨[], bind_eq_ret.mpr ⟨_, hfound, ?_⟩, .nil (.refl k)⟩
    split
    · exact absurd rfl (hother _ _)
    · rfl

theorem setTimer_log (o : ObjId) {handle : Option Handle} {initial interval : Int64}
    {r : KResult Unit} (h : k.setTimer handle initial interval = .ret (r, k')) :
    ∃ log, k.setTimerLog o handle initial interval = .ret log ∧ CallsOn o k log k' := by
  obtain ⟨found, hfound, h⟩ := bind_eq_ret.mp h
  split at h
  · rename_i p self
    cases h
    refine ⟨_, bind_eq_ret.mpr ⟨_, hfound, rfl⟩,
      callsOn_recordOf (fun hp => ?_) fun hp => Around.of_modify hp _⟩
    subst hp
    exact .set (lookupObject_eq_ret hfound)
  · rename_i hother
    cases h
    refine ⟨[], bind_eq_ret.mpr ⟨_, hfound, ?_⟩, .nil (.refl k)⟩
    split
    · exact absurd rfl (hother _ _)
    · rfl

/-- `cancel_timer` sets the timer to no time. -/
theorem cancelTimer_eq_setTimer (handle : Option Handle) :
    k.cancelTimer handle = k.setTimer handle (-1) (-1) := rfl

theorem callsOn_wait {p : ObjId} {w : Waker} {x : KObject} (hx : k.object? p = some x)
    (h : KObject.wait p w k x = .ret k') : CallsOn o k (recordOf o p (.wait w) k k') k' := by
  refine callsOn_recordOf (fun hp => ?_) fun hp => Around.of_wait hp h
  subst hp
  exact .wait hx h

theorem waitSync1_log (o : ObjId) {handle : Option Handle} {timeout : Int64}
    {r : KResult (Option Reschedule)} (h : k.waitSync1 time handle timeout = .ret (r, k')) :
    ∃ log, k.waitSync1Log time o handle timeout = .ret log ∧ CallsOn o k log k' := by
  obtain ⟨found, hfound, h⟩ := bind_eq_ret.mp h
  unfold Kernel.waitSync1Log
  rw [hfound, ret_bind]
  split at h
  · rename_i p x
    dsimp only
    split at h
    · rename_i hsync
      obtain ⟨absolute, habsolute, h⟩ := bind_eq_ret.mp h
      obtain ⟨k1, hwait, h⟩ := bind_eq_ret.mp h
      cases h
      obtain ⟨⟨w, k2⟩, hsuspend, hwait⟩ := bind_eq_ret.mp hwait
      have hwait : KObject.wait p w k2 x = .ret k' := hwait
      have hobject := suspendThread_object? hsuspend
      have hx : k2.object? p = some x := by
        rw [hobject, lookupObject_eq_ret hfound]
      rw [if_pos hsync, habsolute, ret_bind, hsuspend, ret_bind]
      dsimp only
      rw [hwait, ret_bind]
      exact ⟨_, rfl, .after (Around.of_object (hobject o)) (callsOn_wait hx hwait)⟩
    · rename_i hsync
      cases h
      exact ⟨[], if_neg hsync, .nil (.refl k)⟩
  · cases h
    exact ⟨[], rfl, .nil (.refl k)⟩

theorem waitEach_log (o : ObjId) {w : Waker} {objects : List ObjId}
    (h : Kernel.waitEach w objects k = .ret k') :
    ∃ log, Kernel.waitEachLog o w objects k = .ret log ∧ CallsOn o k log k' := by
  induction objects generalizing k with
  | nil =>
    cases h
    exact ⟨[], rfl, .nil (.refl _)⟩
  | cons p objects ih =>
    obtain ⟨x, hx, h⟩ := bind_eq_ret.mp h
    obtain ⟨k1, hwait, h⟩ := bind_eq_ret.mp h
    obtain ⟨log, hlog, hcalls⟩ := ih h
    unfold Kernel.waitEachLog
    rw [hx, ret_bind, hwait, ret_bind, hlog, ret_bind]
    obtain ⟨hx, _⟩ := Option.filter_eq_some_iff.mp (expect_eq_ret.mp hx)
    exact ⟨_, rfl, (callsOn_wait hx hwait).trans hcalls⟩

theorem waitSyncN_log (o : ObjId) {handles : List (Option Handle)} {waitAll : Bool}
    {timeout : Int64} {r : KResult (Option Reschedule)}
    (h : k.waitSyncN time handles waitAll timeout = .ret (r, k')) :
    ∃ log, k.waitSyncNLog time o handles timeout = .ret log ∧ CallsOn o k log k' := by
  obtain ⟨_, _, h⟩ := bind_eq_ret.mp h
  obtain ⟨objects, hobjects, h⟩ := bind_eq_ret.mp h
  obtain ⟨absolute, habsolute, h⟩ := bind_eq_ret.mp h
  obtain ⟨⟨w, k1⟩, hsuspend, h⟩ := bind_eq_ret.mp h
  obtain ⟨k2, hwait, h⟩ := bind_eq_ret.mp h
  cases h
  obtain ⟨log, hlog, hcalls⟩ := waitEach_log o hwait
  refine ⟨log, ?_, .after (Around.of_object (suspendThread_object? hsuspend o)) hcalls⟩
  unfold Kernel.waitSyncNLog
  rw [hobjects, ret_bind, habsolute, ret_bind, hsuspend, ret_bind]
  exact hlog

theorem replyAndReceivePre_log {x : KObject} {handles : List (Option Handle)}
    {replyTarget : Option Handle} {r : KResult (Option Reschedule)} (hx : k.object? o = some x)
    (hk : x.isTaken = true)
    (h : k.replyAndReceivePre rng fuel time handles replyTarget = .ret (r, k')) :
    ∃ log, k.replyAndReceivePreLog rng fuel time o handles replyTarget = .ret log ∧
      CallsOn o k log k' := by
  obtain ⟨⟨replied, k1⟩, hreply, h⟩ := bind_eq_ret.mp h
  have haround := replyTo_around hx hk hreply
  unfold Kernel.replyAndReceivePreLog
  rw [hreply, ret_bind]
  dsimp only at h ⊢
  split at h
  · obtain ⟨log, hlog, hcalls⟩ := waitSyncN_log o (mapPanic_eq_ret.mp h)
    exact ⟨log, mapPanic_eq_ret.mpr hlog, hcalls.after haround⟩
  · cases h
    exact ⟨[], rfl, .nil haround⟩

/-! ### Ticks -/

theorem tickTimer_callsOn {p : ObjId} (h : k.tickTimer time p = .ret k') :
    CallsOn o k (k.timerLog time o p k') k' := by
  unfold Kernel.tickTimer at h
  split at h
  · rename_i timer hx
    have hlog : k.timerLog time o p k' = recordOf o p (.tick time) k k' := by
      unfold Kernel.timerLog
      rw [hx]
    rw [hlog]
    refine callsOn_recordOf (fun hp => ?_) fun hp => ?_
    · subst hp
      exact .tick hx h
    · unfold TimerImpl.tick at h
      split at h
      · obtain ⟨data, _, h⟩ := bind_eq_ret.mp h
        exact ((Around.of_modify hp _).trans (Around.of_modify hp _)).trans
          (Around.of_wakeForSignal hp h)
      · cases h
        exact .refl k
  · rename_i hother
    cases h
    have hlog : k.timerLog time o p k = [] := by
      unfold Kernel.timerLog
      split
      · rename_i timer hx
        exact absurd hx (hother timer)
      · rfl
    rw [hlog]
    exact .nil (.refl k)

theorem tickTimers_log (o : ObjId) {objects : List ObjId}
    (h : Kernel.tickTimers time objects k = .ret k') :
    ∃ log, Kernel.tickTimersLog time o objects k = .ret log ∧ CallsOn o k log k' := by
  induction objects generalizing k with
  | nil =>
    cases h
    exact ⟨[], rfl, .nil (.refl _)⟩
  | cons p objects ih =>
    obtain ⟨k1, htick, h⟩ := bind_eq_ret.mp h
    obtain ⟨log, hlog, hcalls⟩ := ih h
    unfold Kernel.tickTimersLog
    rw [htick, ret_bind, hlog, ret_bind]
    exact ⟨_, rfl, (tickTimer_callsOn htick).trans hcalls⟩

theorem tickInterrupt_callsOn {interrupt : UInt32} (h : k.tickInterrupt interrupt = .ret k') :
    CallsOn o k (k.interruptLog o interrupt k') k' := by
  unfold Kernel.tickInterrupt at h
  unfold Kernel.interruptLog
  generalize (k.interrupts.find? fun entry => entry.1 = interrupt).map Prod.snd = bound at h ⊢
  cases bound with
  | none =>
    cases h
    exact .nil (.refl k)
  | some p =>
    dsimp only at h ⊢
    cases hx : k.object? p with
    | none =>
      rw [hx] at h
      cases h
      exact .nil (.refl k)
    | some x =>
      rw [hx] at h
      cases x with
      | event event => exact callsOn_doSignal hx h
      | _ =>
        cases h
        exact .nil (.refl k)

theorem tickInterrupts_log (o : ObjId) {interrupts : List UInt32}
    (h : Kernel.tickInterrupts interrupts k = .ret k') :
    ∃ log, Kernel.tickInterruptsLog o interrupts k = .ret log ∧ CallsOn o k log k' := by
  induction interrupts generalizing k with
  | nil =>
    cases h
    exact ⟨[], rfl, .nil (.refl _)⟩
  | cons interrupt interrupts ih =>
    obtain ⟨k1, htick, h⟩ := bind_eq_ret.mp h
    obtain ⟨log, hlog, hcalls⟩ := ih h
    unfold Kernel.tickInterruptsLog
    rw [htick, ret_bind, hlog, ret_bind]
    exact ⟨_, rfl, (tickInterrupt_callsOn htick).trans hcalls⟩

/-- A tick lets threads time out, and then calls timers and events. -/
theorem tick_log (o : ObjId) {interrupts : List UInt32} (h : k.tick time interrupts = .ret k') :
    ∃ log, k.tickLog time o interrupts = .ret log ∧ CallsOn o k log k' := by
  obtain ⟨k2, hat, hinterrupts⟩ := bind_eq_ret.mp h
  obtain ⟨k1, hthreads, htimers⟩ := bind_eq_ret.mp hat
  obtain ⟨log, hlog, hcalls⟩ := tickTimers_log o htimers
  obtain ⟨log', hlog', hcalls'⟩ := tickInterrupts_log o hinterrupts
  have htimeouts : Around o k k1 := .single rfl (.timeouts (mapPanic_eq_ret.mp hthreads))
  refine ⟨log ++ log', ?_, .after htimeouts (hcalls.trans hcalls')⟩
  unfold Kernel.tickLog
  rw [hthreads, ret_bind]
  dsimp only
  rw [htimers, ret_bind, hlog, ret_bind, hlog', ret_bind]
  rfl

/-! ### Steps of the kernel -/

/-- **The records of a supervisor call are its calls on the object.** -/
theorem svcCall_log {x : KObject} {call : SvcCall} (hx : k.object? o = some x)
    (hk : x.isTaken = true) (h : call.exec rng fuel k = .ret k') :
    ∃ log, call.log rng fuel o k = .ret log ∧ CallsOn o k log k' := by
  have hlift : ∀ {log : Exec (List CallRecord)}, (∃ cs, log = .ret cs ∧ CallsOn o k cs k') →
      ∃ cs, (liftM log : HleExec (List CallRecord)) = .ret cs ∧ CallsOn o k cs k' := by
    rintro log ⟨cs, hcs, hcalls⟩
    exact ⟨cs, mapPanic_eq_ret.mpr hcs, hcalls⟩
  have haround : Around o k k' → ∃ cs, (.ret [] : HleExec (List CallRecord)) = .ret cs ∧
      CallsOn o k cs k' := fun haround => ⟨[], rfl, .nil haround⟩
  cases call with
  | createMutex initialLocked =>
    obtain ⟨r, h⟩ := liftCall_eq_ret.mp h
    exact haround (createObject_around hx h)
  | createEvent resetType =>
    obtain ⟨r, h⟩ := liftCall_eq_ret.mp h
    exact haround (createObject_around hx h)
  | createTimer resetType =>
    obtain ⟨r, h⟩ := liftCall_eq_ret.mp h
    exact haround (createObject_around hx h)
  | createAddressArbiter =>
    obtain ⟨r, h⟩ := liftCall_eq_ret.mp h
    exact haround (createObject_around hx h)
  | createCodeset =>
    obtain ⟨r, h⟩ := liftCall_eq_ret.mp h
    exact haround (createObject_around hx h)
  | releaseMutex handle =>
    obtain ⟨r, h⟩ := afterCall_eq_ret.mp h
    exact releaseMutex_log o h
  | signalEvent handle =>
    obtain ⟨r, h⟩ := afterCall_eq_ret.mp h
    exact signalEvent_log o h
  | clearEvent handle =>
    obtain ⟨r, h⟩ := liftCall_eq_ret.mp h
    exact hlift (clearEvent_log o h)
  | setTimer handle initial interval =>
    obtain ⟨r, h⟩ := liftCall_eq_ret.mp h
    exact hlift (setTimer_log o h)
  | cancelTimer handle =>
    obtain ⟨r, h⟩ := liftCall_eq_ret.mp h
    rw [cancelTimer_eq_setTimer] at h
    exact hlift (setTimer_log o h)
  | waitSync1 time handle timeout =>
    obtain ⟨r, h⟩ := liftCall_eq_ret.mp h
    exact hlift (waitSync1_log o h)
  | waitSyncN time handles waitAll timeout =>
    obtain ⟨r, h⟩ := liftCall_eq_ret.mp h
    exact hlift (waitSyncN_log o h)
  | sleepThread time ns => exact haround (sleepThread_around (mapPanic_eq_ret.mp h))
  | arbitrateAddress handle addr typ memoryValue value =>
    obtain ⟨r, h⟩ := liftCall_eq_ret.mp h
    exact haround (arbitrateAddress_around hx hk h)
  | replyAndReceivePre time handles replyTarget =>
    obtain ⟨r, h⟩ := afterCall_eq_ret.mp h
    exact replyAndReceivePre_log hx hk h
  | replyAndReceivePost handles resume =>
    obtain ⟨r, h⟩ := liftCall_eq_ret.mp h
    exact haround (replyAndReceivePost_around h)
  | sendSyncRequest handle =>
    obtain ⟨r, h⟩ := afterCall_eq_ret.mp h
    exact haround (sendSyncRequest_around hx hk h)
  | createSessionToPort handle =>
    obtain ⟨r, h⟩ := afterCall_eq_ret.mp h
    exact haround (createSessionToPort_around hx hk h)
  | acceptSession handle =>
    obtain ⟨r, h⟩ := afterCall_eq_ret.mp h
    exact haround (acceptSession_around hx hk h)
  | closeHandle handle =>
    obtain ⟨r, h⟩ := liftCall_eq_ret.mp h
    exact haround (Around.of_view (Kernel.closeHandle_view h))
  | newHandle p =>
    exact haround (Around.of_processes (newHandleOf_processes (mapPanic_eq_ret.mp h)))
  | makeSessionPair =>
    cases h
    exact haround (Around.of_object (by rw [object?_makeSessionPair hx, hx]))
  | makePortPair =>
    cases h
    exact haround (Around.of_object (by rw [object?_makePortPair hx, hx]))
  | registerPort name port =>
    exact haround (Around.of_view (Kernel.registerPort_view (mapPanic_eq_ret.mp h)))
  | bindInterrupt name handle =>
    obtain ⟨r, h⟩ := liftCall_eq_ret.mp h
    exact haround (Around.of_view (Kernel.bindInterrupt_view h))
  | setThreadIpcData data =>
    exact haround (Around.of_view (Kernel.setThreadIpcData_view (mapPanic_eq_ret.mp h)))
  | createThread => exact haround (createThreadNext_around hx (mapPanic_eq_ret.mp h))
  | exitThread => exact haround (exitThread_around hx hk (mapPanic_eq_ret.mp h))

/-- **The records of a step are its calls on the object**, if the step does not drop it. -/
theorem svcStep_log {x : KObject} {l : SvcStep} (hx : k.object? o = some x)
    (hk : x.isTaken = true) (hl : l ≠ .drop o) (h : l.exec rng fuel k = .ret k') :
    ∃ log, l.log rng fuel o k = .ret log ∧ CallsOn o k log k' := by
  have haround : Around o k k' → ∃ cs, (.ret [] : HleExec (List CallRecord)) = .ret cs ∧
      CallsOn o k cs k' := fun haround => ⟨[], rfl, .nil haround⟩
  cases l with
  | call call => exact svcCall_log hx hk h
  | tick time interrupts => exact tick_log o h
  | runNext =>
    obtain ⟨r, h⟩ := liftCall_eq_ret.mp h
    exact haround (Around.of_object (runNext_object? h o))
  | stop index =>
    obtain ⟨pid, tid, thread, _, _, rfl⟩ := Kernel.stopThread_eq_ret (mapPanic_eq_ret.mp h)
    exact haround (Around.of_object rfl)
  | newProcess process =>
    obtain ⟨r, h⟩ := liftCall_eq_ret.mp h
    exact haround (Around.of_view (Kernel.newProcess_view h))
  | newThread pid =>
    obtain ⟨⟨tid, kobj, k1⟩, hthread, h⟩ := bind_eq_ret.mp h
    cases h
    exact haround (newThread_around hx (mapPanic_eq_ret.mp hthread))
  | drop p =>
    cases h
    have hp : p ≠ o := fun ho => hl (by rw [ho])
    refine haround (Around.of_object ?_)
    show (k.objects.set p none)[o]?.join = k.objects[o]?.join
    rw [List.getElem?_set_ne hp]

end Calls

/-! ## The records of a path -/

/-- What holds of the object as long as it is there: calls on it keep this, and threads take
    it. -/
structure Lasts (o : ObjId) (I : Kernel → Prop) : Prop where
  taken : ∀ k, I k → ∃ x, k.object? o = some x ∧ x.isTaken = true
  step : ∀ k call k', I k → CallStep o k call k' → I k'

section Paths

variable {rng : Nat → UInt32} {o : ObjId} {k k' : Kernel} {tr : List (Kernel × SvcStep)}
  {log : List CallRecord} {I : Kernel → Prop}

/-- **The records of a path are the calls on the object in it.** -/
theorem Logged.callsOn (hI : Lasts o I) (hk : I k) (h : Logged rng o k tr log k')
    (hkept : EveryStep (fun _ l => l ≠ .drop o) tr) : CallsOn o k log k' := by
  induction h with
  | refl => exact .nil (.refl k)
  | next h henabled hexec hlog ih =>
    obtain ⟨hl, hkept⟩ := everyStep_cons.mp hkept
    have hcalls := ih hkept
    obtain ⟨x, hx, htaken⟩ := hI.taken _ (hcalls.keeps hI.step hk)
    obtain ⟨log', hlog', hcalls'⟩ := svcStep_log hx htaken hl hexec
    rw [hlog] at hlog'
    cases hlog'
    exact hcalls.trans hcalls'

/-- Every path has its records. -/
theorem exists_logged (hI : Lasts o I) (hk : I k) (h : Path (svcSystem rng) k tr k')
    (hkept : EveryStep (fun _ l => l ≠ .drop o) tr) : ∃ log, Logged rng o k tr log k' := by
  induction h with
  | refl => exact ⟨[], .refl⟩
  | next _ hstep ih =>
    obtain ⟨hl, hkept⟩ := everyStep_cons.mp hkept
    obtain ⟨log, hlogged⟩ := ih hkept
    obtain ⟨henabled, fuel, hexec⟩ := hstep
    obtain ⟨x, hx, htaken⟩ := hI.taken _ ((hlogged.callsOn hI hk hkept).keeps hI.step hk)
    obtain ⟨log', hlog', _⟩ := svcStep_log hx htaken hl hexec
    exact ⟨log ++ log', hlogged.next henabled hexec hlog'⟩

end Paths

/-- A step by execution, with its records. Nothing is dropped. -/
def loggedStep? (rng : Nat → UInt32) (fuel : Nat) (o : ObjId) (s : Kernel × List CallRecord)
    (l : SvcStep) : Option (Kernel × List CallRecord) :=
  match l with
  | .drop _ => none
  | l => (svcStep? rng fuel s.1 l).bind fun k =>
      (l.log rng fuel o s.1).value?.map fun log => (k, s.2 ++ log)

theorem eq_of_loggedStep? {rng : Nat → UInt32} {fuel : Nat} {o : ObjId} {l : SvcStep}
    {s s' : Kernel × List CallRecord} (h : loggedStep? rng fuel o s l = some s') :
    l ≠ .drop o ∧ svcStep? rng fuel s.1 l = some s'.1 ∧
      ∃ log, l.log rng fuel o s.1 = .ret log ∧ s'.2 = s.2 ++ log := by
  unfold loggedStep? at h
  split at h
  · cases h
  · rename_i hdrop
    obtain ⟨k, hk, h⟩ := Option.bind_eq_some_iff.mp h
    obtain ⟨log, hlog, h⟩ := Option.map_eq_some_iff.mp h
    cases h
    exact ⟨hdrop o, hk, log, value?_eq_some.mp hlog, rfl⟩

/-- Steps that are executed are a path with its records. -/
theorem Logged.of_runAll {rng : Nat → UInt32} {fuel : Nat} {o : ObjId} {k₀ : Kernel}
    {ls : List SvcStep} {tr : List (Kernel × SvcStep)} {s s' : Kernel × List CallRecord}
    (hpath : Path (svcSystem rng) k₀ tr s.1) (hkept : EveryStep (fun _ l => l ≠ .drop o) tr)
    (hlogged : Logged rng o k₀ tr s.2 s.1) (h : runAll (loggedStep? rng fuel o) s ls = some s') :
    ∃ tr', Path (svcSystem rng) k₀ tr' s'.1 ∧ EveryStep (fun _ l => l ≠ .drop o) tr' ∧
      Logged rng o k₀ tr' s'.2 s'.1 := by
  induction ls generalizing tr s with
  | nil =>
    cases h
    exact ⟨tr, hpath, hkept, hlogged⟩
  | cons l ls ih =>
    obtain ⟨s1, hone, h⟩ := runAll_cons.mp h
    obtain ⟨hl, hk, log, hlog, hs1⟩ := eq_of_loggedStep? hone
    obtain ⟨henabled, hexec⟩ : l.enabled s.1 = true ∧ l.exec rng fuel s.1 = .ret s1.1 := by
      unfold svcStep? at hk
      split at hk
      · exact ⟨‹_›, value?_eq_some.mp hk⟩
      · cases hk
    refine ih (hpath.next ⟨henabled, fuel, hexec⟩) (everyStep_cons.mpr ⟨hl, hkept⟩) ?_ h
    rw [hs1]
    exact hlogged.next henabled hexec hlog

end Pomelo
