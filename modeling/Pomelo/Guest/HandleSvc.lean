/-
  Supervisor calls as the guest makes them (`handle_svc` of `guest/src/lib.rs`).

  A call finds its arguments in the registers and in guest memory, works on the kernel, and puts
  its results into registers and memory. Each arm of `handle_svc` is a definition of its own;
  those that repeat a function of `hle/src/svc.rs` in place keep their own body.

  Guest memory with its mappings, the time, and the number of ticks that the floating-point
  product of the time gives are parameters. The thread of the emulator that waits for an
  interrupt is left out: what it activates is among the interrupts of the next tick.
-/
import Pomelo.Guest.DynarmicGuest

namespace Pomelo

open Lib

/-! ## Numbers (`kernel/src/lib.rs`) -/

def ResetType.fromRaw (id : UInt32) : Exec ResetType :=
  match id.toNat with
  | 0 => return .oneShot
  | 1 => return .sticky
  | 2 => return .pulse
  | _ => .panic (.unreachable "ResetType::from_raw")

def ArbitrationType.fromRaw (x : UInt32) : Exec ArbitrationType :=
  match x.toNat with
  | 0 => return .signal
  | 1 => return .waitIfLessThan
  | 2 => return .decrementAndWaitIfLessThan
  | 3 => return .waitIfLessThanTimeout
  | 4 => return .decrementAndWaitIfLessThanTimeout
  | _ => .panic (.unreachable "ArbitrationType::from_raw")

inductive ResLimit where
  | priority
  | commit
  | thread
  | event
  | mutex
  | semaphore
  | timer
  | sharedMemory
  | addressArbiter
  | cpuTime
deriving DecidableEq, Repr

def ResLimit.fromRaw (id : UInt32) : Exec ResLimit :=
  match id.toNat with
  | 0 => return .priority
  | 1 => return .commit
  | 2 => return .thread
  | 3 => return .event
  | 4 => return .mutex
  | 5 => return .semaphore
  | 6 => return .timer
  | 7 => return .sharedMemory
  | 8 => return .addressArbiter
  | 9 => return .cpuTime
  | _ => .panic (.unreachable "Unhandled res limit")

/-! ## The guest's side -/

/-- The sixteen registers have a first one, by which their numbers are read. -/
instance registersNeZero : @NeZero Nat Zero.ofOfNat0 16 := Nat.instNeZeroSucc

inductive Protection where
  | readOnly
  | readWrite
  | readExecute
deriving DecidableEq, Repr

/-- The trait `MemoryMap`. What it maps where is the business of the memory. -/
class MemoryMap (M : Type) extends Memory M where
  map : M → Cells → Nat → Nat → String → Option (List UInt8) → Protection → Exec Cells

def userlandStackBase : UInt32 := 0x10000000

def stackSize : UInt32 := 0x00002000

/-- How a panic of the emulated kernel unwinds through its caller. -/
def HlePanic.panic : HlePanic → Panic
  | wake _ => .expect "Failed to wake up thread"
  | other e => e

/-- A call into the emulated kernel. -/
def callHle {α : Type} (x : HleExec α) : Exec α := x.mapPanic HlePanic.panic

/-- What `handle_svc` leaves: how the guest goes on, the registers, the memory, the kernel. -/
abbrev SvcReturn := SvcResult × ThreadRegs × Cells × Kernel

namespace HandleSvc

section Arms

variable (rng : Nat → UInt32) (fuel : Nat) (time : UInt64)
variable {M : Type} [MemoryMap M] (regs : ThreadRegs) (tls : Nat) (mem : M) (c : Cells)
  (k : Kernel)

/-! ### Results -/

/-- The result, and the handle of what was created. -/
def setCreated : KResult Handle → ThreadRegs
  | .ok handle => (regs.sr 0 0).sr 1 handle.raw
  | .error err => (regs.sr 0 err).sr 1 0

/-- The result alone. -/
def setResult : KResult Unit → ThreadRegs
  | .ok () => regs.sr 0 0
  | .error err => regs.sr 0 err

/-- The call goes on with another object, or none, behind the handle. -/
def mismatch : Exec SvcReturn :=
  return (.continues, regs.sr 0 Errors.handleTypeMismatch, c, k)

/-! ### Memory -/

/-- `ControlMemory`. -/
def controlMemory : Exec SvcReturn := do
  let c ← MemoryMap.map mem c (regs.r 1).toNat (regs.r 3).toNat "ControlMemory" none .readWrite
  return (.continues, regs.sr 0 0, c, k)

/-- `QueryMemory`. -/
def queryMemory : Exec SvcReturn := do
  let addr := regs.r 2
  if addr ≥ userlandStackBase - stackSize ∧ addr < userlandStackBase then
    return (.continues, (((((regs.sr 0 0).sr 1 (userlandStackBase - stackSize)).sr 2
      stackSize).sr 3 3).sr 4 3).sr 5 0, c, k)
  else if addr > 0x08000000 ∧ addr < userlandStackBase - stackSize then
    return (.continues, (((((regs.sr 0 0).sr 1 0x08000000).sr 2
      (0x08000000 - stackSize)).sr 3 0).sr 4 0).sr 5 0, c, k)
  else .panic (.unimplemented "not implemented")

/-- `CreateMemoryBlock`. -/
def createMemoryBlock : Exec SvcReturn :=
  return (.continues, (regs.sr 0 0).sr 1 0xA000, c, k)

/-- `MapMemoryBlock`. -/
def mapMemoryBlock : Exec SvcReturn := do
  let c ← MemoryMap.map mem c (regs.r 1).toNat 0x22000 "MapMemoryBlock" none .readWrite
  return (.continues, regs.sr 0 0, c, k)

/-! ### Threads -/

/-- `CreateThread`: the new thread is the next to run. -/
def createThread : Exec SvcReturn := do
  let (index, handle, k) ← k.createThread rng fuel
  return (.reschedule, (regs.sr 0 0).sr 1 handle.raw, c, k.scheduleNext index)

/-- `ExitThread`. -/
def exitThread : Exec SvcReturn := do
  let k ← k.exitThread
  return (.reschedule, regs, c, k)

/-- `SleepThread`. -/
def sleepThread : Exec SvcReturn := do
  let timeout := makeTimeoutOf (regs.r 0) (regs.r 1)
  let absolute ← timeout.absolute time
  let (_, k) ← k.suspendThread [] absolute .sleep
  return (.reschedule, regs, c, k)

/-! ### Objects -/

/-- `CreateMutex`. -/
def createMutex : Exec SvcReturn := do
  let initialLocked := regs.r 1
  let (res, k) ← k.createMutex rng fuel (initialLocked ≠ 0)
  return (.continues, setCreated regs res, c, k)

/-- `ReleaseMutex`. -/
def releaseMutex : Exec SvcReturn := do
  let (res, k) ← callHle (k.releaseMutex (Handle.fromRaw (regs.r 0)))
  return (.continues, setResult regs res, c, k)

/-- `CreateEvent`. -/
def createEvent : Exec SvcReturn := do
  let eventType ← ResetType.fromRaw (regs.r 1)
  let (res, k) ← k.createEvent rng fuel eventType
  return (.continues, setCreated regs res, c, k)

/-- `SignalEvent`. -/
def signalEvent : Exec SvcReturn := do
  match ← k.lookupObject (Handle.fromRaw (regs.r 0)) with
  | some (object, .event event) => do
    let k ← callHle (event.doSignal object k)
    return (.reschedule, regs.sr 0 0, c, k)
  | _ => mismatch regs c k

/-- `ClearEvent`. -/
def clearEvent : Exec SvcReturn := do
  let _ ← Memory.read mem c (regs.r 13).toNat 12
  match ← k.lookupObject (Handle.fromRaw (regs.r 0)) with
  | some (object, .event _) => return (.continues, regs.sr 0 0, c, EventImpl.clear object k)
  | _ => mismatch regs c k

/-- `CreateTimer`: the result does not get into its register. -/
def createTimer : Exec SvcReturn := do
  let eventType ← ResetType.fromRaw (regs.r 1)
  let (res, k) ← k.createTimer rng fuel eventType
  return (.continues, (setCreated regs res).sr 0 0, c, k)

/-- `SetTimer`. -/
def setTimer : Exec SvcReturn := do
  let intervalLow := (regs.r 1).toUInt64
  let initialLow := (regs.r 2).toUInt64
  let initialHigh := (regs.r 3).toUInt64
  let intervalHigh := (regs.r 4).toUInt64
  match ← k.lookupObject (Handle.fromRaw (regs.r 0)) with
  | some (object, .timer _) =>
    let initial := (initialLow ||| initialHigh <<< 32).toInt64
    let interval := (intervalLow ||| intervalHigh <<< 32).toInt64
    return (.continues, regs.sr 0 0, c, TimerImpl.set object initial interval k)
  | _ => mismatch regs c k

/-- `CancelTimer`. -/
def cancelTimer : Exec SvcReturn := do
  let _ ← Memory.read mem c (regs.r 13).toNat 12
  match ← k.lookupObject (Handle.fromRaw (regs.r 0)) with
  | some (object, .timer _) => return (.continues, regs.sr 0 0, c, TimerImpl.cancel object k)
  | _ => mismatch regs c k

/-- `CreateAddressArbiter`. -/
def createAddressArbiter : Exec SvcReturn := do
  let (res, k) ← k.createAddressArbiter rng fuel
  return (.continues, setCreated regs res, c, k)

/-- What `ArbitrateAddress` does to memory and kernel before its thread waits. -/
def arbitrateAction (object : ObjId) (arb : ArbiterImpl) (addr : UInt32)
    (memoryValue value : Int32) : Option ArbitrationAction → Exec (Cells × Kernel)
  | some .decrement => do
    let c ← Memory.write mem c addr.toNat (leBytes 4 (memoryValue - 1).toUInt32.toNat)
    return (c, k)
  | some .signal => do
    let (_, k) ← arb.signal object value addr k
    return (c, k)
  | none => return (c, k)

/-- `ArbitrateAddress`. -/
def arbitrateAddress : Exec SvcReturn := do
  let addr := regs.r 1
  let typ ← ArbitrationType.fromRaw (regs.r 2)
  let value := (regs.r 3).toInt32
  match ← k.lookupObject (Handle.fromRaw (regs.r 0)) with
  | some (object, .arbiter arb) => do
    let data ← Memory.read mem c addr.toNat 4
    let memoryValue := (UInt32.ofNat (leValue data)).toInt32
    let (action, arbResult) := typ.arbitrate memoryValue value
    let (c, k) ← arbitrateAction mem c k object arb addr memoryValue value action
    match arbResult with
    | none => return (.continues, regs.sr 0 0, c, k)
    | some .wait => do
      let (waker, k) ← k.suspendThread [object] none .arbiter
      return (.reschedule, regs.sr 0 0, c, ArbiterImpl.wait waker addr object k)
    | some .waitTimeout => .panic (.unimplemented "Timeouts NYI")
  | _ => mismatch regs c k

/-! ### Handles -/

/-- `CloseHandle`: on failure the handle stays in the register of the result. -/
def closeHandle : Exec SvcReturn :=
  match Handle.fromRaw (regs.r 0) with
  | none => return (.continues, regs, c, k)
  | some handle => do
    let process ← k.currentProcess
    let (ok, process) := process.closeHandle handle
    return (.continues, if ok then regs.sr 0 0 else regs, c, k.setProcess process)

/-- `DuplicateHandle`: the same handle again. -/
def duplicateHandle : Exec SvcReturn :=
  return (.continues, (regs.sr 0 0).sr 1 (regs.r 1), c, k)

/-! ### Waiting -/

/-- `WaitSynchronization1`. -/
def waitSynchronization1 : Exec SvcReturn := do
  let _ ← Memory.read mem c (regs.r 13).toNat 32
  match ← k.lookupObject (Handle.fromRaw (regs.r 0)) with
  | some (object, data) =>
    let timeout := makeTimeoutOf (regs.r 2) (regs.r 3)
    if data.isSync then do
      let absolute ← timeout.absolute time
      let (waker, k) ← k.suspendThread [object] absolute .waitSync1
      let k ← KObject.wait object waker k data
      return (.reschedule, regs.sr 0 0, c, k)
    else mismatch regs c k
  | none => mismatch regs c k

/-- `WaitSynchronizationN`: it waits for any of the handles, whatever `wait_all` is. -/
def waitSynchronizationN : Exec SvcReturn := do
  let timeout := makeTimeoutOf (regs.r 4) (regs.r 0)
  let handleCount := (regs.r 2).toNat
  let vec ← Memory.read mem c (regs.r 1).toNat (handleCount * 4)
  let objects ← k.waitedObjects (ProcessSvcHandler.handlesFrom handleCount vec)
  let absolute ← timeout.absolute time
  let (waker, k) ← k.suspendThread objects absolute .waitSyncN
  let k ← Kernel.waitEach waker objects k
  let _ ← Memory.read mem c 0x1FF81060 8
  return (.reschedule, (regs.sr 0 0).sr 1 0xFFFFFFFF, c, k)

/-! ### System -/

/-- `GetSystemTick`, with the ticks of the time. -/
def getSystemTick (ticks : UInt64 → UInt64) : Exec SvcReturn := do
  let ticks := ticks time
  let _ ← Memory.read mem c (regs.r 13).toNat 12
  let low := (ticks &&& 0xFFFFFFFF).toUInt32
  let high := ((ticks &&& 0xFFFFFFFF00000000) >>> 32).toUInt32
  return (.continues, (regs.sr 0 low).sr 1 high, c, k)

/-- `GetProcessInfo`: the physical base of the process's own memory. -/
def getProcessInfo : Exec SvcReturn :=
  if regs.r 1 = 0xFFFF8001 ∧ regs.r 2 = 20 then
    return (.continues, ((regs.sr 0 0).sr 1 0xA0000000).sr 2 0, c, k)
  else .panic (.unimplemented "not implemented")

/-- `GetResourceLimit`. -/
def getResourceLimit : Exec SvcReturn :=
  return (.continues, (regs.sr 0 0).sr 1 0, c, k)

/-- The loop of `GetResourceLimitCurrentValues`, for `n` names from the one at `index` on. -/
def resourceValues (values names : Nat) : Nat → Nat → Cells → Exec Cells
  | 0, _, c => return c
  | n + 1, index, c => do
    let nameAddr ← addU32 names (← mulU32 index 4)
    let name ← Memory.read mem c nameAddr 4
    let _ ← ResLimit.fromRaw (UInt32.ofNat (leValue name))
    let valueAddr ← addU32 values (← mulU32 index 8)
    let c ← Memory.write mem c valueAddr (leBytes 8 0)
    resourceValues values names n (index + 1) c

/-- `GetResourceLimitCurrentValues`: every value is 0. -/
def getResourceLimitCurrentValues : Exec SvcReturn := do
  let nameCount := (regs.r 3).toNat
  let c ← resourceValues mem (regs.r 0).toNat (regs.r 2).toNat nameCount 0 c
  return (.continues, regs.sr 0 0, c, k)

/-! ### Ports and sessions -/

/-- `b"srv:"`. -/
def srvName : List UInt8 := [115, 114, 118, 58]

/-- `port_object.map(|obj| kctx.new_handle(obj))`. -/
def newPortHandle : Option ObjId → Exec (Option Handle × Kernel)
  | none => return (none, k)
  | some port => do
    let (handle, k) ← k.newHandle rng fuel port
    return (some handle, k)

/-- `ConnectToPort`. -/
def connectToPort : Exec SvcReturn := do
  let name ← Memory.read mem c (regs.r 1).toNat 11
  let name := name.takeWhile fun b => b ≠ 0
  Outcome.assert (decide (name = srvName)) (.panic "Looking up invalid port")
  let (port, k) ← newPortHandle rng fuel k (k.lookupPort name)
  let (res, k) ← callHle (k.createSessionToPort rng fuel port)
  match res with
  | .ok (reschedule, handle) =>
    return (if reschedule.isSome then .reschedule else .continues,
      (regs.sr 0 0).sr 1 handle.raw, c, k)
  | .error err => return (.continues, (regs.sr 0 err).sr 1 0, c, k)

/-- `SendSyncRequest`. -/
def sendSyncRequest : Exec SvcReturn := do
  let handle := Handle.fromRaw (regs.r 0)
  let k ← commandCopy mem tls k c
  let (res, k) ← callHle (k.sendSyncRequest handle)
  match res with
  | .ok reschedule =>
    return (if reschedule.isSome then .reschedule else .continues, regs.sr 0 0, c, k)
  | .error err => return (.continues, regs.sr 0 err, c, k)

/-- `AcceptSession`. -/
def acceptSession : Exec SvcReturn := do
  let (res, k) ← callHle (k.acceptSession rng fuel (Handle.fromRaw (regs.r 1)))
  match res with
  | .ok (.inl serverSession) =>
    return (.continues, (regs.sr 0 0).sr 1 serverSession.raw, c, k)
  | .ok (.inr _) => .panic (.panic "Unimplemented")
  | .error err => return (.continues, regs.sr 0 err, c, k)

/-- `ReplyAndReceive`: its thread resumes with `handle_resume`. -/
def replyAndReceive : Exec SvcReturn := do
  let handleCount := (regs.r 2).toNat
  let k ← commandCopy mem tls k c
  let vec ← Memory.read mem c (regs.r 1).toNat (handleCount * 4)
  let handles := ProcessSvcHandler.handlesFrom handleCount vec
  let replyTarget := Handle.fromRaw (regs.r 3)
  let (res, k) ← callHle (k.replyAndReceivePre rng fuel time handles replyTarget)
  match res with
  | .ok (some _) => return (.reschedule, regs, c, k)
  | .ok none => .panic (.unreachable "handle_svc")
  | .error err => return (.continues, regs.sr 0 err, c, k)

/-! ### Interrupts -/

/-- `BindInterrupt`. -/
def bindInterrupt : Exec SvcReturn := do
  let (res, k) ← k.bindInterrupt (regs.r 0) (Handle.fromRaw (regs.r 1))
  return (.continues, setResult regs res, c, k)

/-- `UnbindInterrupt`: nothing is unbound. -/
def unbindInterrupt : Exec SvcReturn :=
  return (.continues, regs.sr 0 0, c, k)

/-- `StoreProcessDataCache`, `FlushProcessDataCache`. -/
def processDataCache : Exec SvcReturn :=
  return (.continues, regs, c, k)

/-- A number as `{:X}` formats it. -/
def upperHex (n : Nat) : String := String.ofList ((Nat.toDigits 16 n).map Char.toUpper)

/-- The `match` of `handle_svc`. -/
def arm (ticks : UInt64 → UInt64) (svc : Nat) : Exec SvcReturn :=
  match svc with
  | 0x01 => controlMemory regs mem c k
  | 0x02 => queryMemory regs c k
  | 0x08 => createThread rng fuel regs c k
  | 0x09 => exitThread regs c k
  | 0x0A => sleepThread time regs c k
  | 0x13 => createMutex rng fuel regs c k
  | 0x14 => releaseMutex regs c k
  | 0x17 => createEvent rng fuel regs c k
  | 0x18 => signalEvent regs c k
  | 0x19 => clearEvent regs mem c k
  | 0x1A => createTimer rng fuel regs c k
  | 0x1B => setTimer regs c k
  | 0x1C => cancelTimer regs mem c k
  | 0x1E => createMemoryBlock regs c k
  | 0x1F => mapMemoryBlock regs mem c k
  | 0x21 => createAddressArbiter rng fuel regs c k
  | 0x22 => arbitrateAddress regs mem c k
  | 0x23 => closeHandle regs c k
  | 0x24 => waitSynchronization1 time regs mem c k
  | 0x25 => waitSynchronizationN time regs mem c k
  | 0x27 => duplicateHandle regs c k
  | 0x28 => getSystemTick time regs mem c k ticks
  | 0x2B => getProcessInfo regs c k
  | 0x2D => connectToPort rng fuel regs mem c k
  | 0x32 => sendSyncRequest regs tls mem c k
  | 0x38 => getResourceLimit regs c k
  | 0x3A => getResourceLimitCurrentValues regs mem c k
  | 0x4A => acceptSession rng fuel regs c k
  | 0x4F => replyAndReceive rng fuel time regs tls mem c k
  | 0x50 => bindInterrupt regs c k
  | 0x51 => unbindInterrupt regs c k
  | 0x53 | 0x54 => processDataCache regs c k
  | svc => .panic (.panic ("Unknown " ++ upperHex svc))

/-- `handle_svc`. -/
def handleSvc (ticks : UInt64 → UInt64) : Exec SvcReturn := do
  let svc ← ProcessSvcHandler.getSvc regs mem c
  arm rng fuel time regs tls mem c k ticks svc

end Arms

end HandleSvc

/-- `ProcessSvcHandler`. -/
def processSvcHandler (rng : Nat → UInt32) (fuel : Nat) (ticks : UInt64 → UInt64) (M : Type)
    [MemoryMap M] : SvcHandler M where
  handle time regs tls mem c k := HandleSvc.handleSvc rng fuel time regs tls mem c k ticks
  handleResume resume regs tls mem c k :=
    ProcessSvcHandler.handleResume rng fuel resume regs tls mem c k

end Pomelo
