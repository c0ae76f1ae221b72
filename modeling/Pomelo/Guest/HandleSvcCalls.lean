/-
  The supervisor calls of the guest are calls of the kernel.

  Whatever an arm of `handle_svc` does to the kernel is what supervisor calls of the running
  thread do to it: one, none, or two (`HandleSvc.CallsTo`). This holds of the arms that call
  `hle/src/svc.rs` and of those that repeat a function of it in place. If the guest goes on
  after the call, none of them has put the thread to sleep or ended it. The registers from r6 on
  are left alone (`HandleSvc.handleSvc_spec`).
-/
import Pomelo.Guest.HandleSvc
import Pomelo.Hle.Called
import Mathlib.Data.Nat.Bitwise

namespace Pomelo

open Lib Outcome

/-! ## Timeouts -/

theorem highBit_iff (ns : UInt64) : ns &&& 0x8000000000000000 = 0 ↔ ns.toInt64 ≥ 0 := by
  have hbit : ns &&& 0x8000000000000000 = 0 ↔ ns.toNat.testBit 63 = false := by
    have hand : ns.toNat &&& 2 ^ 63 = (ns.toNat.testBit 63).toNat * 2 ^ 63 :=
      Nat.and_two_pow _ _
    rw [← UInt64.toNat_inj, UInt64.toNat_and]
    show ns.toNat &&& 2 ^ 63 = 0 ↔ _
    rw [hand]
    cases ns.toNat.testBit 63 <;> simp
  have hmsb : ns.toBitVec.msb = ns.toNat.testBit 63 := by
    rw [BitVec.msb_eq_getLsbD_last]
    rfl
  rw [hbit, ← hmsb, ge_iff_le, Int64.le_iff_toInt_le, BitVec.msb_eq_toInt]
  show _ ↔ (0 : Int) ≤ ns.toBitVec.toInt
  simp

/-- The signed number that two registers make. -/
def signedOf (low high : UInt32) : Int64 := (high.toUInt64 <<< 32 ||| low.toUInt64).toInt64

theorem makeTimeoutOf_eq (low high : UInt32) :
    makeTimeoutOf low high = makeTimeout (signedOf low high) := by
  unfold makeTimeoutOf makeTimeout signedOf
  dsimp only
  generalize high.toUInt64 <<< 32 ||| low.toUInt64 = ns
  have hzero : ns = 0 ↔ ns.toInt64 = 0 := by
    refine ⟨fun h => h ▸ rfl, fun h => ?_⟩
    have hback := congrArg Int64.toUInt64 h
    rw [UInt64.toUInt64_toInt64] at hback
    exact hback
  simp only [highBit_iff, hzero, UInt64.toUInt64_toInt64]

/-! ## Registers -/

/-- The registers from r6 on, the status register and the extension registers are as before. -/
structure ThreadRegs.Kept (regs regs' : ThreadRegs) : Prop where
  cpsr : regs'.cpsr = regs.cpsr
  extRegs : regs'.extRegs = regs.extRegs
  regs : ∀ i : Fin 16, 6 ≤ i.val → regs'.r i = regs.r i

namespace ThreadRegs

theorem Kept.refl (regs : ThreadRegs) : regs.Kept regs := ⟨rfl, rfl, fun _ _ => rfl⟩

theorem Kept.sr {regs regs' : ThreadRegs} {reg : Fin 16} (h : regs.Kept regs') (hreg : reg.val < 6)
    (value : UInt32) : regs.Kept (regs'.sr reg value) where
  cpsr := h.cpsr
  extRegs := h.extRegs
  regs i hi := by
    have hne : i ≠ reg := fun heq => by
      rw [heq] at hi
      omega
    show Function.update regs'.regs reg value i = _
    rw [Function.update_of_ne hne]
    exact h.regs i hi

theorem kept_one (regs : ThreadRegs) (v : UInt32) : regs.Kept (regs.sr 0 v) :=
  (Kept.refl regs).sr (by decide) v

theorem kept_two (regs : ThreadRegs) (v v' : UInt32) : regs.Kept ((regs.sr 0 v).sr 1 v') :=
  (kept_one regs v).sr (by decide) v'

end ThreadRegs

namespace HandleSvc

open ThreadRegs

/-! ## What an arm has done -/

/-- What an arm that returned has done. A command buffer that it copied is one of those given. -/
structure Spec (rng : Nat → UInt32) (copied : List UInt8 → Prop) (regs : ThreadRegs) (k : Kernel)
    (ret : SvcReturn) : Prop where
  kept : regs.Kept ret.2.1
  called : Called rng copied (ret.1 = .continues) k ret.2.2.2

section Arms

variable {rng : Nat → UInt32} {fuel : Nat} {time : UInt64} {M : Type} [MemoryMap M]
  {regs regs' : ThreadRegs} {tls : Nat} {mem : M} {c c' : Cells} {k k' : Kernel}
  {result : SvcResult} {ret : SvcReturn} {copied : List UInt8 → Prop}

/-- The kernel is not changed. -/
theorem spec_of_kept (h : regs.Kept regs') : Spec rng copied regs k (result, regs', c, k) :=
  ⟨h, .refl k⟩

theorem mismatch_spec (h : mismatch regs c k = .ret ret) : Spec rng copied regs k ret := by
  cases h
  exact spec_of_kept (kept_one _ _)

/-- A call that writes no message copies no command buffer. -/
theorem copies_nothing {call : SvcCall} (hsilent : call.messages = false) (data : List UInt8)
    (h : call = .setThreadIpcData data) : copied data := by
  rw [h] at hsilent
  cases hsilent

/-- One call, after which the thread goes on. -/
theorem spec_of_call (call : SvcCall) (fuel : Nat) (hcalling : k.calling = true)
    (ht : k.view.Tidy) (hgoesOn : call.goesOn = true) (hsilent : call.messages = false)
    (hkept : regs.Kept regs') (h : call.exec rng fuel k = .ret k') :
    Spec rng copied regs k (result, regs', c, k') :=
  ⟨hkept, .of_call call fuel hcalling ht hgoesOn (copies_nothing hsilent) h⟩

/-- One call, after which another thread is to run. -/
theorem spec_of_reschedule (call : SvcCall) (fuel : Nat) (hcalling : k.calling = true)
    (hsilent : call.messages = false) (hkept : regs.Kept regs')
    (h : call.exec rng fuel k = .ret k') : Spec rng copied regs k (.reschedule, regs', c, k') :=
  ⟨hkept, .of_last call fuel hcalling (fun hcontinues => by cases hcontinues)
    (copies_nothing hsilent) h⟩

theorem kept_setCreated (res : KResult Handle) : regs.Kept (setCreated regs res) := by
  cases res with
  | ok handle => exact kept_two _ _ _
  | error err => exact kept_two _ _ _

theorem kept_setResult (res : KResult Unit) : regs.Kept (setResult regs res) := by
  cases res with
  | ok u => exact kept_one _ _
  | error err => exact kept_one _ _

/-! ### Arms that leave the kernel as it is -/

theorem controlMemory_spec (h : controlMemory regs mem c k = .ret ret) :
    Spec rng copied regs k ret := by
  obtain ⟨c', _, h⟩ := bind_eq_ret.mp h
  cases h
  exact spec_of_kept (kept_one _ _)

theorem queryMemory_spec (h : queryMemory regs c k = .ret ret) : Spec rng copied regs k ret := by
  unfold queryMemory at h
  dsimp only at h
  split at h
  · cases h
    exact spec_of_kept (((((kept_two _ _ _).sr (by decide) _).sr (by decide) _).sr
      (by decide) _).sr (by decide) _)
  · split at h
    · cases h
      exact spec_of_kept (((((kept_two _ _ _).sr (by decide) _).sr (by decide) _).sr
        (by decide) _).sr (by decide) _)
    · cases h

theorem mapMemoryBlock_spec (h : mapMemoryBlock regs mem c k = .ret ret) :
    Spec rng copied regs k ret := by
  obtain ⟨c', _, h⟩ := bind_eq_ret.mp h
  cases h
  exact spec_of_kept (kept_one _ _)

theorem getSystemTick_spec {ticks : UInt64 → UInt64}
    (h : getSystemTick time regs mem c k ticks = .ret ret) : Spec rng copied regs k ret := by
  obtain ⟨_, _, h⟩ := bind_eq_ret.mp h
  cases h
  exact spec_of_kept (kept_two _ _ _)

theorem getProcessInfo_spec (h : getProcessInfo regs c k = .ret ret) :
    Spec rng copied regs k ret := by
  unfold getProcessInfo at h
  split at h
  · cases h
    exact spec_of_kept ((kept_two _ _ _).sr (by decide) _)
  · cases h

theorem getResourceLimitCurrentValues_spec
    (h : getResourceLimitCurrentValues regs mem c k = .ret ret) : Spec rng copied regs k ret := by
  obtain ⟨c', _, h⟩ := bind_eq_ret.mp h
  cases h
  exact spec_of_kept (kept_one _ _)

/-! ### Threads -/

theorem createThread_spec (hcalling : k.calling = true)
    (h : createThread rng fuel regs c k = .ret ret) : Spec rng copied regs k ret := by
  obtain ⟨⟨index, handle, k1⟩, hcreate, h⟩ := bind_eq_ret.mp h
  cases h
  refine spec_of_reschedule .createThread fuel hcalling rfl (kept_two _ _ _) ?_
  exact mapPanic_eq_ret.mpr (bind_eq_ret.mpr ⟨_, hcreate, rfl⟩)

theorem exitThread_spec (hcalling : k.calling = true) (h : exitThread regs c k = .ret ret) :
    Spec rng copied regs k ret := by
  obtain ⟨k1, hexit, h⟩ := bind_eq_ret.mp h
  cases h
  exact spec_of_reschedule .exitThread 0 hcalling rfl (.refl _)
    (mapPanic_eq_ret.mpr hexit)

theorem sleepThread_spec (hcalling : k.calling = true)
    (h : sleepThread time regs c k = .ret ret) : Spec rng copied regs k ret := by
  unfold sleepThread at h
  rw [makeTimeoutOf_eq] at h
  obtain ⟨absolute, habsolute, h⟩ := bind_eq_ret.mp h
  obtain ⟨⟨w, k1⟩, hsuspend, h⟩ := bind_eq_ret.mp h
  cases h
  refine spec_of_reschedule (.sleepThread time _) 0 hcalling rfl (.refl _)
    (mapPanic_eq_ret.mpr (bind_eq_ret.mpr ⟨absolute, habsolute, ?_⟩))
  exact bind_eq_ret.mpr ⟨_, hsuspend, rfl⟩

/-! ### Objects -/

theorem createMutex_spec (hcalling : k.calling = true) (ht : k.view.Tidy)
    (h : createMutex rng fuel regs c k = .ret ret) : Spec rng copied regs k ret := by
  obtain ⟨⟨res, k1⟩, hcreate, h⟩ := bind_eq_ret.mp h
  cases h
  exact spec_of_call (.createMutex _) fuel hcalling ht rfl rfl (kept_setCreated res)
    (liftCall_eq_ret.mpr ⟨res, hcreate⟩)

theorem createEvent_spec (hcalling : k.calling = true) (ht : k.view.Tidy)
    (h : createEvent rng fuel regs c k = .ret ret) : Spec rng copied regs k ret := by
  obtain ⟨eventType, _, h⟩ := bind_eq_ret.mp h
  obtain ⟨⟨res, k1⟩, hcreate, h⟩ := bind_eq_ret.mp h
  cases h
  exact spec_of_call (.createEvent _) fuel hcalling ht rfl rfl (kept_setCreated res)
    (liftCall_eq_ret.mpr ⟨res, hcreate⟩)

theorem createTimer_spec (hcalling : k.calling = true) (ht : k.view.Tidy)
    (h : createTimer rng fuel regs c k = .ret ret) : Spec rng copied regs k ret := by
  obtain ⟨eventType, _, h⟩ := bind_eq_ret.mp h
  obtain ⟨⟨res, k1⟩, hcreate, h⟩ := bind_eq_ret.mp h
  cases h
  exact spec_of_call (.createTimer _) fuel hcalling ht rfl rfl
    ((kept_setCreated res).sr (by decide) 0) (liftCall_eq_ret.mpr ⟨res, hcreate⟩)

theorem createAddressArbiter_spec (hcalling : k.calling = true) (ht : k.view.Tidy)
    (h : createAddressArbiter rng fuel regs c k = .ret ret) : Spec rng copied regs k ret := by
  obtain ⟨⟨res, k1⟩, hcreate, h⟩ := bind_eq_ret.mp h
  cases h
  exact spec_of_call .createAddressArbiter fuel hcalling ht rfl rfl (kept_setCreated res)
    (liftCall_eq_ret.mpr ⟨res, hcreate⟩)

theorem releaseMutex_spec (hcalling : k.calling = true) (ht : k.view.Tidy)
    (h : releaseMutex regs c k = .ret ret) : Spec rng copied regs k ret := by
  obtain ⟨⟨res, k1⟩, hrelease, h⟩ := bind_eq_ret.mp h
  cases h
  exact spec_of_call (.releaseMutex _) 0 hcalling ht rfl rfl (kept_setResult res)
    (afterCall_eq_ret.mpr ⟨res, mapPanic_eq_ret.mp hrelease⟩)

theorem signalEvent_spec (hcalling : k.calling = true)
    (h : signalEvent regs c k = .ret ret) : Spec rng copied regs k ret := by
  obtain ⟨found, hfound, h⟩ := bind_eq_ret.mp h
  split at h
  · obtain ⟨k1, hsignal, h⟩ := bind_eq_ret.mp h
    cases h
    refine spec_of_reschedule (.signalEvent _) 0 hcalling rfl (kept_one _ _)
      (afterCall_eq_ret.mpr ⟨.ok (), (lift_bind hfound _).trans ?_⟩)
    exact bind_eq_ret.mpr ⟨k1, mapPanic_eq_ret.mp hsignal, rfl⟩
  · exact mismatch_spec h

theorem clearEvent_spec (hcalling : k.calling = true) (ht : k.view.Tidy)
    (h : clearEvent regs mem c k = .ret ret) : Spec rng copied regs k ret := by
  obtain ⟨_, _, h⟩ := bind_eq_ret.mp h
  obtain ⟨found, hfound, h⟩ := bind_eq_ret.mp h
  split at h
  · cases h
    exact spec_of_call (.clearEvent _) 0 hcalling ht rfl rfl (kept_one _ _)
      (liftCall_eq_ret.mpr ⟨.ok (), bind_eq_ret.mpr ⟨_, hfound, rfl⟩⟩)
  · exact mismatch_spec h

theorem setTimer_spec (hcalling : k.calling = true) (ht : k.view.Tidy)
    (h : setTimer regs c k = .ret ret) : Spec rng copied regs k ret := by
  obtain ⟨found, hfound, h⟩ := bind_eq_ret.mp h
  split at h
  · cases h
    exact spec_of_call (.setTimer _ _ _) 0 hcalling ht rfl rfl (kept_one _ _)
      (liftCall_eq_ret.mpr ⟨.ok (), bind_eq_ret.mpr ⟨_, hfound, rfl⟩⟩)
  · exact mismatch_spec h

theorem cancelTimer_spec (hcalling : k.calling = true) (ht : k.view.Tidy)
    (h : cancelTimer regs mem c k = .ret ret) : Spec rng copied regs k ret := by
  obtain ⟨_, _, h⟩ := bind_eq_ret.mp h
  obtain ⟨found, hfound, h⟩ := bind_eq_ret.mp h
  split at h
  · cases h
    exact spec_of_call (.cancelTimer _) 0 hcalling ht rfl rfl (kept_one _ _)
      (liftCall_eq_ret.mpr ⟨.ok (), bind_eq_ret.mpr ⟨_, hfound, rfl⟩⟩)
  · exact mismatch_spec h

/-- Memory aside, what is done before the thread waits is what the kernel's own call does. -/
theorem arbitrateAction_eq_ret {object : ObjId} {arb : ArbiterImpl} {addr : UInt32}
    {memoryValue value : Int32} {action : Option ArbitrationAction}
    (h : arbitrateAction mem c k object arb addr memoryValue value action = .ret (c', k')) :
    k.arbitrateAction object arb value addr action = .ret k' := by
  cases action with
  | none =>
    cases h
    rfl
  | some action =>
    cases action with
    | decrement =>
      obtain ⟨c1, _, h⟩ := bind_eq_ret.mp h
      cases h
      rfl
    | signal =>
      obtain ⟨⟨woke, k1⟩, hsignal, h⟩ := bind_eq_ret.mp h
      cases h
      exact bind_eq_ret.mpr ⟨_, hsignal, rfl⟩

theorem arbitrateAction_made {object : ObjId} {arb : ArbiterImpl} {addr : UInt32} {value : Int32}
    {action : Option ArbitrationAction} (hx : k.object? object = some (.arbiter arb))
    (h : k.arbitrateAction object arb value addr action = .ret k') : Made .awake [] k k' := by
  unfold Kernel.arbitrateAction at h
  split at h
  · obtain ⟨⟨woke, k1⟩, hsignal, h⟩ := bind_eq_ret.mp h
    cases h
    exact .of_arbiterSignal hx hsignal
  · cases h
    exact .refl .awake [] _
  · cases h
    exact .refl .awake [] _

/-- A thread that goes on has at most signalled the arbiter. -/
theorem arbitrateAddress_spec (hcalling : k.calling = true)
    (h : arbitrateAddress regs mem c k = .ret ret) : Spec rng copied regs k ret := by
  unfold arbitrateAddress at h
  dsimp only at h
  obtain ⟨typ, _, h⟩ := bind_eq_ret.mp h
  obtain ⟨found, hfound, h⟩ := bind_eq_ret.mp h
  split at h
  · rename_i object arb
    obtain ⟨data, _, h⟩ := bind_eq_ret.mp h
    generalize (UInt32.ofNat (leValue data)).toInt32 = memoryValue at h
    generalize hres : typ.arbitrate memoryValue (regs.r 3).toInt32 = result at h
    obtain ⟨action, fail⟩ := result
    obtain ⟨⟨c1, k1⟩, haction, h⟩ := bind_eq_ret.mp h
    have haction := arbitrateAction_eq_ret haction
    cases fail with
    | none =>
      cases h
      refine ⟨kept_one _ _, ?_, fun _ => ?_⟩
      · refine calls_one (.arbitrateAddress (Handle.fromRaw (regs.r 0)) (regs.r 1) typ
          memoryValue (regs.r 3).toInt32) 0 hcalling (copies_nothing rfl)
          (liftCall_eq_ret.mpr ⟨.ok none, bind_eq_ret.mpr ⟨_, hfound, ?_⟩⟩)
        dsimp only
        rw [hres]
        exact bind_eq_ret.mpr ⟨k1, haction, rfl⟩
      · exact arbitrateAction_made (lookupObject_eq_ret hfound) haction
    | some fail =>
      cases fail with
      | wait =>
        obtain ⟨⟨w, k2⟩, hsuspend, h⟩ := bind_eq_ret.mp h
        cases h
        refine spec_of_reschedule (.arbitrateAddress (Handle.fromRaw (regs.r 0)) (regs.r 1) typ
          memoryValue (regs.r 3).toInt32) 0 hcalling rfl (kept_one _ _)
          (liftCall_eq_ret.mpr ⟨.ok (some ⟨⟩), bind_eq_ret.mpr ⟨_, hfound, ?_⟩⟩)
        dsimp only
        rw [hres]
        exact bind_eq_ret.mpr ⟨k1, haction, bind_eq_ret.mpr ⟨_, hsuspend, rfl⟩⟩
      | waitTimeout => cases h
  · exact mismatch_spec h

/-! ### Handles and waiting -/

theorem closeHandle_spec (hcalling : k.calling = true) (ht : k.view.Tidy)
    (h : closeHandle regs c k = .ret ret) : Spec rng copied regs k ret := by
  unfold closeHandle at h
  split at h
  · cases h
    exact spec_of_kept (.refl _)
  · rename_i handle hraw
    obtain ⟨process, hprocess, h⟩ := bind_eq_ret.mp h
    cases h
    have hkept : regs.Kept (if (process.closeHandle handle).1 then regs.sr 0 0 else regs) := by
      split
      · exact kept_one _ _
      · exact .refl _
    refine spec_of_call (.closeHandle (some handle)) 0 hcalling ht rfl rfl hkept ?_
    refine liftCall_eq_ret.mpr
      ⟨if (process.closeHandle handle).1 then .ok () else .error Errors.handleTypeMismatch,
        bind_eq_ret.mpr ⟨process, hprocess, ?_⟩⟩
    dsimp only
    split <;> rfl

theorem waitSynchronization1_spec (hcalling : k.calling = true)
    (h : waitSynchronization1 time regs mem c k = .ret ret) : Spec rng copied regs k ret := by
  obtain ⟨_, _, h⟩ := bind_eq_ret.mp h
  obtain ⟨found, hfound, h⟩ := bind_eq_ret.mp h
  split at h
  · rename_i object data
    dsimp only at h
    split at h
    · rename_i hsync
      rw [makeTimeoutOf_eq] at h
      obtain ⟨absolute, habsolute, h⟩ := bind_eq_ret.mp h
      obtain ⟨⟨w, k1⟩, hsuspend, h⟩ := bind_eq_ret.mp h
      obtain ⟨k2, hwait, h⟩ := bind_eq_ret.mp h
      cases h
      refine spec_of_reschedule (.waitSync1 time _ (signedOf (regs.r 2) (regs.r 3))) 0 hcalling
        rfl (kept_one _ _)
        (liftCall_eq_ret.mpr ⟨.ok (some ⟨⟩), bind_eq_ret.mpr ⟨_, hfound, ?_⟩⟩)
      dsimp only
      rw [if_pos hsync]
      refine bind_eq_ret.mpr ⟨absolute, habsolute, bind_eq_ret.mpr ⟨_, ?_, rfl⟩⟩
      exact bind_eq_ret.mpr ⟨_, hsuspend, hwait⟩
    · exact mismatch_spec h
  · exact mismatch_spec h

theorem waitSynchronizationN_spec (hcalling : k.calling = true)
    (h : waitSynchronizationN time regs mem c k = .ret ret) : Spec rng copied regs k ret := by
  unfold waitSynchronizationN at h
  dsimp only at h
  rw [makeTimeoutOf_eq] at h
  obtain ⟨vec, _, h⟩ := bind_eq_ret.mp h
  obtain ⟨objects, hobjects, h⟩ := bind_eq_ret.mp h
  obtain ⟨absolute, habsolute, h⟩ := bind_eq_ret.mp h
  obtain ⟨⟨w, k1⟩, hsuspend, h⟩ := bind_eq_ret.mp h
  obtain ⟨k2, hwait, h⟩ := bind_eq_ret.mp h
  obtain ⟨_, _, h⟩ := bind_eq_ret.mp h
  cases h
  refine spec_of_reschedule (.waitSyncN time
      (ProcessSvcHandler.handlesFrom (regs.r 2).toNat vec) false (signedOf (regs.r 4) (regs.r 0)))
    0 hcalling rfl (kept_two _ _ _)
    (liftCall_eq_ret.mpr ⟨.ok (some ⟨⟩), bind_eq_ret.mpr ⟨(), rfl, ?_⟩⟩)
  refine bind_eq_ret.mpr ⟨objects, hobjects, bind_eq_ret.mpr ⟨absolute, habsolute, ?_⟩⟩
  exact bind_eq_ret.mpr ⟨_, hsuspend, bind_eq_ret.mpr ⟨k2, hwait, rfl⟩⟩

/-! ### Ports and sessions -/

theorem sendSyncRequest_spec (hcalling : k.calling = true)
    (h : sendSyncRequest regs tls mem c k = .ret ret) :
    Spec rng (fun data => readBuffer mem tls c = .ret data) regs k ret := by
  obtain ⟨k1, hcopy, h⟩ := bind_eq_ret.mp h
  obtain ⟨data, hread, hcopy⟩ := bind_eq_ret.mp hcopy
  obtain ⟨⟨res, k2⟩, hcall, h⟩ := bind_eq_ret.mp h
  have hcall := mapPanic_eq_ret.mp hcall
  have hexec : SvcCall.exec rng 0 k1 (.sendSyncRequest (Handle.fromRaw (regs.r 0))) = .ret k2 :=
    afterCall_eq_ret.mpr ⟨res, hcall⟩
  have hcopied : ∀ data, SvcCall.sendSyncRequest (Handle.fromRaw (regs.r 0)) =
      .setThreadIpcData data → readBuffer mem tls c = .ret data := fun _ heq => by cases heq
  rcases sendSyncRequest_result .any [] hcall with ⟨err, rfl, hsame⟩ | ⟨rfl, _⟩
  · cases h
    exact ⟨kept_one _ _, .of_command hcalling hread hcopied hcopy hexec fun _ => hsame⟩
  · cases h
    exact ⟨kept_one _ _, .of_command hcalling hread hcopied hcopy hexec
      fun hcontinues => by cases hcontinues⟩

theorem replyAndReceive_spec (hcalling : k.calling = true) (ht : k.view.Tidy)
    (h : replyAndReceive rng fuel time regs tls mem c k = .ret ret) :
    Spec rng (fun data => readBuffer mem tls c = .ret data) regs k ret := by
  obtain ⟨k1, hcopy, h⟩ := bind_eq_ret.mp h
  obtain ⟨data, hread, hcopy⟩ := bind_eq_ret.mp hcopy
  obtain ⟨vec, _, h⟩ := bind_eq_ret.mp h
  obtain ⟨⟨res, k2⟩, hcall, h⟩ := bind_eq_ret.mp h
  have hcall := mapPanic_eq_ret.mp hcall
  have hexec : SvcCall.exec rng fuel k1 (.replyAndReceivePre time
      (ProcessSvcHandler.handlesFrom (regs.r 2).toNat vec) (Handle.fromRaw (regs.r 3))) = .ret k2 :=
    afterCall_eq_ret.mpr ⟨res, hcall⟩
  have hcopied : ∀ data, SvcCall.replyAndReceivePre time
      (ProcessSvcHandler.handlesFrom (regs.r 2).toNat vec) (Handle.fromRaw (regs.r 3)) =
      .setThreadIpcData data → readBuffer mem tls c = .ret data := fun _ heq => by cases heq
  rcases replyAndReceivePre_result .any [] trivial (nodup_of_copy ht hcopy) hcall with
    ⟨err, rfl, hsame⟩ | ⟨rfl, _⟩
  · cases h
    exact ⟨kept_one _ _, .of_command hcalling hread hcopied hcopy hexec fun _ => hsame⟩
  · cases h
    exact ⟨.refl _, .of_command hcalling hread hcopied hcopy hexec
      fun hcontinues => by cases hcontinues⟩

theorem acceptSession_spec (hcalling : k.calling = true)
    (h : acceptSession rng fuel regs c k = .ret ret) : Spec rng copied regs k ret := by
  obtain ⟨⟨res, k1⟩, hcall, h⟩ := bind_eq_ret.mp h
  have hcall := mapPanic_eq_ret.mp hcall
  have hexec : SvcCall.exec rng fuel k (.acceptSession (Handle.fromRaw (regs.r 1))) = .ret k1 :=
    afterCall_eq_ret.mpr ⟨res, hcall⟩
  rcases acceptSession_result .any [] hcall with ⟨_, hmade⟩ | ⟨rfl, _⟩
  · dsimp only at h
    split at h
    · cases h
      exact ⟨kept_two _ _ _, calls_one _ fuel hcalling (copies_nothing rfl) hexec,
        fun _ => hmade .awake⟩
    · cases h
    · cases h
      exact ⟨kept_one _ _, calls_one _ fuel hcalling (copies_nothing rfl) hexec,
        fun _ => hmade .awake⟩
  · cases h

/-- A port that is registered, alive, gets a handle first. -/
theorem newPortHandle_cases {name : List UInt8} {handle : Option Handle}
    (h : newPortHandle rng fuel k (k.lookupPort name) = .ret (handle, k')) :
    k' = k ∨ ∃ port, SvcCall.exec rng fuel k (.newHandle port) = .ret k' ∧
      k'.view = k.view ∧ k'.current = k.current := by
  cases hport : k.lookupPort name with
  | none =>
    rw [hport] at h
    cases h
    exact Or.inl rfl
  | some port =>
    rw [hport] at h
    obtain ⟨⟨given, k1⟩, hnew, h⟩ := bind_eq_ret.mp h
    cases h
    have halive : ∃ x, k.object? port = some x := by
      unfold Kernel.lookupPort at hport
      split at hport
      · cases hport
      · exact Option.isSome_iff_exists.mp (Option.filter_eq_some_iff.mp hport).2
    obtain ⟨x, hx⟩ := halive
    have hsame := Kernel.newHandle_processes hnew
    refine Or.inr ⟨port, mapPanic_eq_ret.mpr ?_, hsame.view, hsame.current⟩
    exact bind_eq_ret.mpr ⟨x, expect_eq_ret.mpr hx, bind_eq_ret.mpr ⟨_, hnew, rfl⟩⟩

theorem connectToPort_spec (hcalling : k.calling = true) (ht : k.view.Tidy)
    (h : connectToPort rng fuel regs mem c k = .ret ret) : Spec rng copied regs k ret := by
  obtain ⟨name, _, h⟩ := bind_eq_ret.mp h
  obtain ⟨_, _, h⟩ := bind_eq_ret.mp h
  obtain ⟨⟨port, k1⟩, hport, h⟩ := bind_eq_ret.mp h
  obtain ⟨⟨res, k2⟩, hcall, hret⟩ := bind_eq_ret.mp h
  have hcall := mapPanic_eq_ret.mp hcall
  have hexec : SvcCall.exec rng fuel k1 (.createSessionToPort port) = .ret k2 :=
    afterCall_eq_ret.mpr ⟨res, hcall⟩
  have hcalls : ∃ calls, CallsTo rng calls k k2 ∧
      ∀ data, SvcCall.setThreadIpcData data ∈ calls → copied data := by
    rcases newPortHandle_cases hport with rfl | ⟨o, hnew, hview, hcurrent⟩
    · exact calls_one _ fuel hcalling (copies_nothing rfl) hexec
    · refine ⟨_, callsTo_two hcalling hnew hview hcurrent hexec, fun data hmem => ?_⟩
      rcases List.mem_cons.mp hmem with heq | hmem
      · cases heq
      · cases List.mem_singleton.mp hmem
  rcases createSessionToPort_result .any [] hcall with ⟨err, rfl, hsame⟩ | ⟨given, rfl, _⟩
  · cases hret
    refine ⟨kept_two _ _ _, hcalls, fun _ => ?_⟩
    subst hsame
    rcases newPortHandle_cases hport with rfl | ⟨o, hnew, _, _⟩
    · exact .refl .awake [] _
    · exact svcCall_made (fun hs => by rcases hs with hs | hs <;> cases hs) (fun _ => trivial) ht
        hcalling hnew
  · cases hret
    exact ⟨kept_two _ _ _, hcalls, fun hcontinues => by cases hcontinues⟩

/-! ### Interrupts -/

theorem bindInterrupt_spec (hcalling : k.calling = true) (ht : k.view.Tidy)
    (h : bindInterrupt regs c k = .ret ret) : Spec rng copied regs k ret := by
  obtain ⟨⟨res, k1⟩, hbind, h⟩ := bind_eq_ret.mp h
  cases h
  exact spec_of_call (.bindInterrupt _ _) 0 hcalling ht rfl rfl (kept_setResult res)
    (liftCall_eq_ret.mpr ⟨res, hbind⟩)

/-! ## Every call -/

/-- What `handle_svc` does to the kernel is what calls of the running thread do. A command buffer
    that it copies is the thread's. -/
theorem handleSvc_spec {ticks : UInt64 → UInt64} (hcalling : k.calling = true)
    (ht : k.view.Tidy) (h : handleSvc rng fuel time regs tls mem c k ticks = .ret ret) :
    Spec rng (fun data => readBuffer mem tls c = .ret data) regs k ret := by
  obtain ⟨svc, _, h⟩ := bind_eq_ret.mp h
  unfold arm at h
  split at h
  · exact controlMemory_spec h
  · exact queryMemory_spec h
  · exact createThread_spec hcalling h
  · exact exitThread_spec hcalling h
  · exact sleepThread_spec hcalling h
  · exact createMutex_spec hcalling ht h
  · exact releaseMutex_spec hcalling ht h
  · exact createEvent_spec hcalling ht h
  · exact signalEvent_spec hcalling h
  · exact clearEvent_spec hcalling ht h
  · exact createTimer_spec hcalling ht h
  · exact setTimer_spec hcalling ht h
  · exact cancelTimer_spec hcalling ht h
  · cases h
    exact spec_of_kept (kept_two _ _ _)
  · exact mapMemoryBlock_spec h
  · exact createAddressArbiter_spec hcalling ht h
  · exact arbitrateAddress_spec hcalling h
  · exact closeHandle_spec hcalling ht h
  · exact waitSynchronization1_spec hcalling h
  · exact waitSynchronizationN_spec hcalling h
  · cases h
    exact spec_of_kept (kept_two _ _ _)
  · exact getSystemTick_spec h
  · exact getProcessInfo_spec h
  · exact connectToPort_spec hcalling ht h
  · exact sendSyncRequest_spec hcalling h
  · cases h
    exact spec_of_kept (kept_two _ _ _)
  · exact getResourceLimitCurrentValues_spec h
  · exact acceptSession_spec hcalling h
  · exact replyAndReceive_spec hcalling ht h
  · exact bindInterrupt_spec hcalling ht h
  · cases h
    exact spec_of_kept (kept_one _ _)
  · cases h
    exact spec_of_kept (.refl _)
  · cases h
    exact spec_of_kept (.refl _)
  · cases h

end Arms

end HandleSvc

end Pomelo
