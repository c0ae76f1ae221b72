/-
  The emulator of a guest process and its threads (`guest_dynarmic/src/lib.rs`), and what a
  supervisor call does when its thread resumes (`handle_resume` of `guest/src/lib.rs`).

  The threads of a process share one `DynarmicGuest`, and with it the flag `ran_svc`: a handled
  supervisor call sets it, and the next run of any thread takes it for the thread's own. The
  executor is not part of the repository; what it does in a run is given by the pieces of guest
  code between the supervisor calls, and it returns at a halt request or behind the last piece.

  A run of the executor that handled no call is repeated, so that `run` returns with the flag
  set, and every run but the first of a process starts with `handle_resume`. That is right for
  the threads whose own previous run ended in a call that blocked, and for no others
  (`resumedRight_iff`).
-/
import Pomelo.Guest.CommandBuffer
import Pomelo.Hle.Svc

namespace Pomelo

open Lib

/-! ## Registers and handlers -/

structure ThreadRegs where
  cpsr : UInt32
  regs : Fin 16 → UInt32
  extRegs : Fin 64 → UInt32

namespace ThreadRegs

def zero : ThreadRegs := { cpsr := 0, regs := fun _ => 0, extRegs := fun _ => 0 }

def r (self : ThreadRegs) (reg : Fin 16) : UInt32 := self.regs reg

def sr (self : ThreadRegs) (reg : Fin 16) (value : UInt32) : ThreadRegs :=
  { self with regs := Function.update self.regs reg value }

end ThreadRegs

/-- `SvcResult`, with `Continue` and `Reschedule`. -/
inductive SvcResult where
  | continues
  | reschedule
deriving DecidableEq, Repr

/-- The trait `SvcHandler`. Both methods change the registers, guest memory and the kernel.
    `handle` may ask the kernel for the time; it gets the one that the clock has in the call. -/
structure SvcHandler (M : Type) where
  handle : UInt64 → ThreadRegs → Nat → M → Cells → Kernel →
    Exec (SvcResult × ThreadRegs × Cells × Kernel)
  handleResume : ThreadResume → ThreadRegs → Nat → M → Cells → Kernel →
    Exec (ThreadRegs × Cells × Kernel)

/-- `make_timeout` of `guest/src/lib.rs`. -/
def makeTimeoutOf (timeoutLow timeoutHigh : UInt32) : Timeout :=
  let ns : UInt64 := timeoutHigh.toUInt64 <<< 32 ||| timeoutLow.toUInt64
  if ns &&& 0x8000000000000000 = 0 then
    if ns = 0 then .instant else .after ns
  else .forever

namespace ProcessSvcHandler

variable {M : Type} [Memory M]

/-- `get_svc`: the number in the instruction before the program counter. -/
def getSvc (regs : ThreadRegs) (mem : M) (c : Cells) : Exec Nat := do
  let addr ← subU32 (regs.r 15).toNat 4
  let svcBytes ← Memory.read mem c addr 4
  return leValue svcBytes &&& 0xFFFFFF

/-- The `count` handles in a buffer of guest memory. -/
def handlesFrom : Nat → List UInt8 → List (Option Handle)
  | 0, _ => []
  | count + 1, bytes =>
    Handle.fromRaw (UInt32.ofNat (leValue (bytes.take 4))) :: handlesFrom count (bytes.drop 4)

/-- `ReplyAndReceive`, when its thread resumes: receive, and store the index of the session. -/
def replyAndReceiveResume (rng : Nat → UInt32) (fuel : Nat) (resume : ThreadResume)
    (regs : ThreadRegs) (mem : M) (c : Cells) (k : Kernel) : Exec (ThreadRegs × Cells × Kernel) := do
  let indexOut := (regs.r 0).toNat
  let handleCount := (regs.r 2).toNat
  let vec ← Memory.read mem c (regs.r 1).toNat (handleCount * 4)
  let ((index, res), k) ← k.replyAndReceivePost rng fuel (handlesFrom handleCount vec) resume
  let c ← Memory.write mem c indexOut (leBytes 4 (index % u32Size))
  match res with
  | .error err => return (regs.sr 0 err, c, k)
  | .ok () => return (regs.sr 0 0, c, k)

/-- The registers in which a thread finds why it was resumed. -/
def resumeRegs (regs : ThreadRegs) : ThreadResume → ThreadRegs
  | .normal => regs
  | .timeoutReached => regs.sr 0 Errors.timeoutReached
  | .waitSyncN index => regs.sr 1 (UInt32.ofNat index)

/-- `ProcessSvcHandler::handle_resume`. -/
def handleResume (rng : Nat → UInt32) (fuel : Nat) (resume : ThreadResume) (regs : ThreadRegs)
    (_tls : Nat) (mem : M) (c : Cells) (k : Kernel) : Exec (ThreadRegs × Cells × Kernel) := do
  let svc ← getSvc regs mem c
  let (regs, c, k) ← match svc with
    | 0x4F => replyAndReceiveResume rng fuel resume regs mem c k
    | _ => pure (regs, c, k)
  return (resumeRegs regs resume, c, k)

end ProcessSvcHandler

/-! ## The emulator -/

/-- What a run asks of the handler. -/
inductive HandlerCall where
  | handle (result : SvcResult)
  | handleResume
deriving DecidableEq, Repr

/-- Guest code: it may look at its tls and change registers and memory. -/
abbrev GuestCode := ThreadRegs → Nat → Cells → ThreadRegs × Cells

/-- A piece of guest code that ends in a supervisor call, and the time of the call. -/
structure GuestSvc where
  code : GuestCode
  time : UInt64

/-- What the guest does in one run of the executor, if no call of it blocks: the pieces of code
    that end in a supervisor call, and the one behind them. -/
structure ExecutorRun where
  svcs : List GuestSvc
  last : GuestCode

/-- `DynarmicGuest` with its `ServiceContext`, and what it works on: the cells behind guest
    memory and the kernel. `exec` is the context of the executor; `calls` are the calls of the
    handler since the run began. -/
structure DynarmicGuest where
  exec : ThreadRegs
  ranSvc : Bool
  tls : Nat
  cells : Cells
  kernel : Kernel
  calls : List HandlerCall

namespace DynarmicGuest

variable {M : Type}

def execute (self : DynarmicGuest) (code : GuestCode) : DynarmicGuest :=
  let (regs, cells) := code self.exec self.tls self.cells
  { self with exec := regs, cells := cells }

/-- `DynarmicHandlers::handle_svc`. -/
def handleSvc (self : DynarmicGuest) (svcHandler : SvcHandler M) (mem : M) (time : UInt64) :
    Exec (SvcResult × DynarmicGuest) := do
  let (result, regs, cells, kernel) ←
    svcHandler.handle time self.exec self.tls mem self.cells self.kernel
  return (result, { self with
    exec := regs, ranSvc := true, cells := cells, kernel := kernel,
    calls := self.calls ++ [.handle result] })

/-- `Executor::run`: a call that asks for a reschedule halts it. -/
def execRun (svcHandler : SvcHandler M) (mem : M) (last : GuestCode) :
    List GuestSvc → DynarmicGuest → Exec DynarmicGuest
  | [], self => .ret (self.execute last)
  | svc :: svcs, self => do
    let (result, self) ← (self.execute svc.code).handleSvc svcHandler mem svc.time
    match result with
    | .continues => execRun svcHandler mem last svcs self
    | .reschedule => return self

/-- The loop of `run`, as far as the executor's runs are given. -/
def runLoop (svcHandler : SvcHandler M) (mem : M) :
    List ExecutorRun → DynarmicGuest → Exec DynarmicGuest
  | [], _ => .diverge
  | run :: runs, self => do
    let self ← execRun svcHandler mem run.last run.svcs self
    if self.ranSvc then return self else runLoop svcHandler mem runs self

/-- The head of `run`: the flag is taken back, and a call that set it is resumed. -/
def resumeSvc (self : DynarmicGuest) (svcHandler : SvcHandler M) (mem : M)
    (resume : ThreadResume) : Exec DynarmicGuest :=
  if self.ranSvc then do
    let (regs, cells, kernel) ←
      svcHandler.handleResume resume self.exec self.tls mem self.cells self.kernel
    return { self with
      exec := regs, ranSvc := false, cells := cells, kernel := kernel,
      calls := self.calls ++ [.handleResume] }
  else return self

/-- `DynarmicGuest::run`. -/
def run (self : DynarmicGuest) (svcHandler : SvcHandler M) (mem : M) (resume : ThreadResume)
    (runs : List ExecutorRun) : Exec DynarmicGuest := do
  let self ← self.resumeSvc svcHandler mem resume
  runLoop svcHandler mem runs self

/-! ## The calls of a run -/

section Calls

variable {svcHandler : SvcHandler M} {mem : M} {g g' : DynarmicGuest}

/-- A run of the executor handles calls, and sets the flag if there is one. -/
theorem execRun_calls {last : GuestCode} {svcs : List GuestSvc}
    (h : execRun svcHandler mem last svcs g = .ret g') : ∃ results : List SvcResult,
      g'.calls = g.calls ++ results.map .handle ∧
        g'.ranSvc = (g.ranSvc || !results.isEmpty) := by
  induction svcs generalizing g with
  | nil =>
    cases h
    exact ⟨[], by simp [execute], by simp [execute]⟩
  | cons svc svcs ih =>
    rw [execRun] at h
    obtain ⟨⟨result, g₁⟩, hsvc, h⟩ := Outcome.bind_eq_ret.mp h
    obtain ⟨⟨result', regs, cells, kernel⟩, -, hret⟩ := Outcome.bind_eq_ret.mp hsvc
    obtain ⟨rfl, rfl⟩ := Prod.mk.inj (Outcome.ret.inj hret)
    cases result' with
    | continues =>
      obtain ⟨results, hcalls, hran⟩ := ih h
      refine ⟨.continues :: results, ?_, ?_⟩
      · rw [hcalls]
        simp [execute]
      · rw [hran]
        simp
    | reschedule =>
      cases h
      exact ⟨[.reschedule], by simp [execute], by simp⟩

/-- The loop ends with the flag set. -/
theorem runLoop_calls {runs : List ExecutorRun} (h : runLoop svcHandler mem runs g = .ret g') :
    g'.ranSvc = true ∧ ∃ results : List SvcResult, g'.calls = g.calls ++ results.map .handle := by
  induction runs generalizing g with
  | nil => cases h
  | cons run runs ih =>
    rw [runLoop] at h
    obtain ⟨g₁, hexec, h⟩ := Outcome.bind_eq_ret.mp h
    obtain ⟨results, hcalls, -⟩ := execRun_calls hexec
    split at h
    · rename_i hran
      cases h
      exact ⟨hran, results, hcalls⟩
    · obtain ⟨hran, results', hcalls'⟩ := ih h
      refine ⟨hran, results ++ results', ?_⟩
      rw [hcalls', hcalls, List.map_append, List.append_assoc]

/-- A run resumes a call exactly when it finds the flag set, before anything else, and leaves
    the flag set. -/
theorem run_calls {resume : ThreadResume} {runs : List ExecutorRun}
    (h : g.run svcHandler mem resume runs = .ret g') :
    g'.ranSvc = true ∧ ∃ results : List SvcResult, g'.calls =
      g.calls ++ (if g.ranSvc then [.handleResume] else []) ++ results.map .handle := by
  unfold run at h
  obtain ⟨g₁, hresume, hloop⟩ := Outcome.bind_eq_ret.mp h
  obtain ⟨hran, results, hcalls⟩ := runLoop_calls hloop
  refine ⟨hran, results, ?_⟩
  unfold resumeSvc at hresume
  split at hresume
  · rename_i hflag
    obtain ⟨⟨regs, cells, kernel⟩, -, hret⟩ := Outcome.bind_eq_ret.mp hresume
    cases hret
    rw [hcalls, if_pos hflag]
  · rename_i hflag
    cases hresume
    rw [hcalls, if_neg hflag, List.append_nil]

end Calls

end DynarmicGuest

/-- `ThreadContext`, with all the registers. -/
structure GuestThread where
  tls : Nat
  ctx : ThreadRegs

/-- `ThreadContext::resume`. -/
def GuestThread.resume {M : Type} [Memory M] (self : GuestThread) (svcHandler : SvcHandler M)
    (mem : M) (payload : ThreadResume) (runs : List ExecutorRun) (guest : DynarmicGuest) :
    Exec (GuestThread × DynarmicGuest) := do
  let cells ← resumeCopy mem self.tls guest.kernel guest.cells
  let guest ← { guest with cells := cells, exec := self.ctx, tls := self.tls }.run svcHandler mem
    payload runs
  return ({ self with ctx := guest.exec }, guest)

theorem GuestThread.resume_calls {M : Type} [Memory M] {self self' : GuestThread}
    {svcHandler : SvcHandler M} {mem : M} {payload : ThreadResume} {runs : List ExecutorRun}
    {g g' : DynarmicGuest}
    (h : self.resume svcHandler mem payload runs g = .ret (self', g')) :
    g'.ranSvc = true ∧ ∃ results : List SvcResult, g'.calls =
      g.calls ++ (if g.ranSvc then [.handleResume] else []) ++ results.map .handle := by
  unfold GuestThread.resume at h
  obtain ⟨cells, -, h⟩ := Outcome.bind_eq_ret.mp h
  obtain ⟨guest, hrun, hret⟩ := Outcome.bind_eq_ret.mp h
  obtain ⟨-, rfl⟩ := Prod.mk.inj (Outcome.ret.inj hret)
  obtain ⟨hran, results, hcalls⟩ := DynarmicGuest.run_calls hrun
  exact ⟨hran, results, hcalls⟩

/-! ## The threads of a process -/

/-- The calls of the runs of a process's threads, newest first. -/
abbrev RunLog := List (ThreadIndex × List HandlerCall)

/-- The thread has run, and its last run ended in a call that asked for a reschedule. -/
def RunLog.blocked (log : RunLog) (tid : ThreadIndex) : Bool :=
  match log.find? fun run => run.1 = tid with
  | some (_, calls) => calls.getLast? = some (.handle .reschedule)
  | none => false

/-- In every run `handle_resume` was called if the thread's own run before had ended in a call
    that blocked: then once, before anything else, and else not at all. -/
def RunLog.Right : RunLog → Prop
  | [] => True
  | (tid, calls) :: before =>
    (∃ results : List SvcResult, calls =
      (if RunLog.blocked before tid then [.handleResume] else []) ++ results.map .handle) ∧
    RunLog.Right before

/-- A guest process: the emulator, the threads that were created, and what their runs asked of
    the handler. -/
structure GuestProcess where
  guest : DynarmicGuest
  threads : ThreadIndex → Option GuestThread
  log : RunLog

/-- A thread is created, a thread runs, or something else changes guest memory or the
    kernel. -/
inductive ProcessLabel where
  | create (tid : ThreadIndex) (thread : GuestThread)
  | run (tid : ThreadIndex) (payload : ThreadResume) (runs : List ExecutorRun)
  | outside (cells : Cells) (kernel : Kernel)

def processStep {M : Type} [Memory M] (svcHandler : SvcHandler M) (mem : M) (s : GuestProcess) :
    ProcessLabel → Option GuestProcess
  | .create tid thread =>
    match s.threads tid with
    | some _ => none
    | none => some { s with threads := Function.update s.threads tid (some thread) }
  | .run tid payload runs => do
    let thread ← s.threads tid
    let guest := { s.guest with calls := [] }
    let (thread, guest) ← (thread.resume svcHandler mem payload runs guest).value?
    return {
      guest := guest
      threads := Function.update s.threads tid (some thread)
      log := (tid, guest.calls) :: s.log }
  | .outside cells kernel => some { s with guest := { s.guest with cells := cells, kernel := kernel } }

/-- The runs of the threads of a process, in any order. A new emulator has the flag unset. -/
def guestProcess {M : Type} [Memory M] (svcHandler : SvcHandler M) (mem : M) :
    System GuestProcess ProcessLabel where
  init s := s.guest.ranSvc = false ∧ s.guest.tls = 0 ∧ (∀ tid, s.threads tid = none) ∧ s.log = []
  step s l s' := processStep svcHandler mem s l = some s'

/-- Every run called `handle_resume` as it should. -/
def ResumedRight (s : GuestProcess) : Prop := s.log.Right

/-- The run is the first one of the process, or the thread's own run before it ended in a call
    that blocked. -/
def FirstOrBlocked (s : GuestProcess) : ProcessLabel → Prop
  | .run tid _ _ => s.log = [] ∨ s.log.blocked tid = true
  | _ => True

section Run

variable {M : Type} [Memory M] {svcHandler : SvcHandler M} {mem : M} {s s' : GuestProcess}

/-- What a step does to the log: a run is put down with its calls. -/
theorem processStep_log {l : ProcessLabel} (h : processStep svcHandler mem s l = some s') :
    (∃ tid payload runs, ∃ results : List SvcResult, l = .run tid payload runs ∧
      s'.guest.ranSvc = true ∧
      s'.log = (tid, (if s.guest.ranSvc then [.handleResume] else []) ++ results.map .handle) ::
        s.log) ∨
    ((∀ tid payload runs, l ≠ .run tid payload runs) ∧ s'.guest.ranSvc = s.guest.ranSvc ∧
      s'.log = s.log) := by
  cases l with
  | create tid thread =>
    refine Or.inr ⟨by simp, ?_⟩
    simp only [processStep] at h
    split at h
    · cases h
    · cases h
      exact ⟨rfl, rfl⟩
  | outside cells kernel =>
    refine Or.inr ⟨by simp, ?_⟩
    cases h
    exact ⟨rfl, rfl⟩
  | run tid payload runs =>
    obtain ⟨thread, hthread, h⟩ := Option.bind_eq_some_iff.mp h
    obtain ⟨⟨thread', guest⟩, hresume, hret⟩ := Option.bind_eq_some_iff.mp h
    obtain ⟨hran, results, hcalls⟩ :=
      GuestThread.resume_calls (Outcome.value?_eq_some.mp hresume)
    cases hret
    refine Or.inl ⟨tid, payload, runs, results, rfl, hran, ?_⟩
    rw [hcalls, List.nil_append]

/-- The flag is set from the first run on. -/
def FlagKept (s : GuestProcess) : Prop := s.guest.ranSvc = !s.log.isEmpty

theorem FlagKept.step {l : ProcessLabel} (hs : FlagKept s)
    (h : processStep svcHandler mem s l = some s') : FlagKept s' := by
  unfold FlagKept at hs ⊢
  rcases processStep_log h with ⟨tid, payload, runs, results, -, hran, hlog⟩ | ⟨-, hran, hlog⟩
  · rw [hran, hlog]
    rfl
  · rw [hran, hlog, hs]

end Run

/-- **Resumption belongs to the thread that blocked.** In a run of a process's threads
    `handle_resume` is called for a thread exactly once after each of its runs that ended in a
    call that blocked, and for no other, exactly when every run but the first is of a thread
    whose own run before it ended so. -/
theorem resumedRight_iff {M : Type} [Memory M] (svcHandler : SvcHandler M) (mem : M)
    {tr : List (GuestProcess × ProcessLabel)} {s : GuestProcess}
    (h : Run (guestProcess svcHandler mem) tr s) :
    EveryState ResumedRight tr s ↔ EveryStep FirstOrBlocked tr := by
  refine h.all_iff (I := fun s => ResumedRight s ∧ FlagKept s) ?_ ?_ (fun s hi => hi.1) ?_
  · rintro s ⟨hran, -, -, hlog⟩
    unfold ResumedRight FlagKept
    rw [hlog, hran]
    exact ⟨trivial, rfl⟩
  · rintro s l s' ⟨hright, hflag⟩ hc hstep
    refine ⟨?_, hflag.step hstep⟩
    unfold ResumedRight at hright ⊢
    rcases processStep_log hstep with ⟨tid, payload, runs, results, rfl, -, hlog⟩ | ⟨-, -, hlog⟩
    · rw [hlog]
      refine ⟨⟨results, ?_⟩, hright⟩
      unfold FlagKept at hflag
      rcases hc with hfirst | hblocked
      · -- the first run of the process finds the flag unset
        rw [hflag, hfirst]
        rfl
      · have hne : s.log ≠ [] := by
          intro hnil
          rw [hnil] at hblocked
          cases hblocked
        have hset : s.guest.ranSvc = true := by simpa [hflag] using hne
        rw [hset, hblocked]
    · rw [hlog]
      exact hright
  · rintro s l s' ⟨hright, hflag⟩ hc hstep hafter
    cases l with
    | create tid thread => exact hc trivial
    | outside cells kernel => exact hc trivial
    | run tid payload runs =>
      obtain ⟨hne, hfree⟩ := not_or.mp hc
      rcases processStep_log hstep with ⟨tid', _, _, results, hl, -, hlog⟩ | ⟨hl, -, -⟩
      · cases hl
        have hset : s.guest.ranSvc = true := by
          unfold FlagKept at hflag
          simpa [hflag] using hne
        unfold ResumedRight at hafter
        rw [hlog, hset] at hafter
        obtain ⟨results', hcalls⟩ := hafter.1
        rw [if_neg hfree, if_pos rfl] at hcalls
        cases results' with
        | nil => simp at hcalls
        | cons result results' => simp at hcalls
      · exact hl tid payload runs rfl

/-! ## Two threads -/

/-- `ProcessSvcHandler`, of whose calls `handle` knows `SleepThread`, `StoreProcessDataCache` and
    `FlushProcessDataCache`. The latter two only print. -/
def cacheSvcHandler : SvcHandler FlatMemory where
  handle time regs _tls mem c k := do
    match ← ProcessSvcHandler.getSvc regs mem c with
    | 0x0A => do
      let absolute ← (makeTimeoutOf (regs.r 0) (regs.r 1)).absolute time
      let (_, k) ← k.suspendThread [] absolute .sleep
      return (.reschedule, regs, c, k)
    | 0x53 | 0x54 => return (.continues, regs, c, k)
    | _ => .panic (.panic "Unknown")
  handleResume := ProcessSvcHandler.handleResume (fun _ => 1) 1

/-- Host memory with an `svc 0x54` at 0x100, and an `svc 0x0A` behind it. -/
def flushCells : Cells := writeCells (fun _ => 0) 0x100 [0x54, 0, 0, 0xEF, 0x0A, 0, 0, 0xEF]

/-- The kernel with the two threads of a process, while `tid` runs. -/
def twoThreads (tid : ThreadIndex) : Kernel :=
  { Kernel.new with
    threads := [0, 1].map fun index =>
      { CommonThread.new 0 index index with
        state := if index = tid then .running else .ready }
    current := some (0, tid) }

def newProcess : GuestProcess where
  guest :=
    { exec := .zero, ranSvc := false, tls := 0, cells := flushCells, kernel := twoThreads 0,
      calls := [] }
  threads _ := none
  log := []

/-- The thread flushes the cache, and the executor returns behind the call. -/
def flushOnce : ExecutorRun where
  svcs := [⟨fun regs _ c => (regs.sr 15 0x104, c), 0⟩]
  last regs _ c := (regs, c)

/-- The thread flushes the cache, and sleeps. -/
def flushAndSleep : ExecutorRun where
  svcs := [⟨fun regs _ c => (regs.sr 15 0x104, c), 0⟩, ⟨fun regs _ c => (regs.sr 15 0x108, c), 1⟩]
  last regs _ c := (regs, c)

/-- A thread whose first instruction is the one at 0x100. -/
def freshThread : GuestThread := { tls := 0x1000, ctx := ThreadRegs.zero.sr 15 0x100 }

theorem newProcess_init (svcHandler : SvcHandler FlatMemory) (mem : FlatMemory) :
    Run (guestProcess svcHandler mem) [] newProcess :=
  .start ⟨rfl, rfl, fun _ => rfl, rfl⟩

/-- The log of the process after the steps of `ls`. -/
def logAfter (ls : List ProcessLabel) : Option RunLog :=
  (runAll (processStep cacheSvcHandler ⟨16⟩) newProcess ls).map GuestProcess.log

instance (s : GuestProcess) (l : ProcessLabel) : Decidable (FirstOrBlocked s l) :=
  match l with
  | .run tid _ _ => inferInstanceAs (Decidable (s.log = [] ∨ s.log.blocked tid = true))
  | .create _ _ => inferInstanceAs (Decidable True)
  | .outside _ _ => inferInstanceAs (Decidable True)

/-- A step by execution, of a thread that was to be resumed if the flag is set. -/
def blockedStep? (s : GuestProcess) (l : ProcessLabel) : Option GuestProcess :=
  if FirstOrBlocked s l then processStep cacheSvcHandler ⟨16⟩ s l else none

theorem step_of_blockedStep? {s s' : GuestProcess} {l : ProcessLabel}
    (h : blockedStep? s l = some s') :
    (guestProcess cacheSvcHandler ⟨16⟩).step s l s' ∧ FirstOrBlocked s l := by
  unfold blockedStep? at h
  split at h
  · exact ⟨h, ‹_›⟩
  · cases h

/-- A thread flushes the cache and sleeps. When it runs again, its call is resumed. -/
theorem resumedRight_iff_sleep : ∃ tr s, Run (guestProcess cacheSvcHandler ⟨16⟩) tr s ∧
    s.log = [(0, [.handleResume, .handle .continues]),
      (0, [.handle .continues, .handle .reschedule])] ∧ EveryState ResumedRight tr s := by
  have hlog : (runAll blockedStep? newProcess [.create 0 freshThread,
      .run 0 .normal [flushAndSleep], .outside flushCells (twoThreads 0),
      .run 0 .normal [flushOnce]]).map GuestProcess.log =
      some [(0, [.handleResume, .handle .continues]),
        (0, [.handle .continues, .handle .reschedule])] := by
    decide +kernel
  obtain ⟨s, hrun, hs⟩ := Option.map_eq_some_iff.mp hlog
  obtain ⟨tr, htr, hc⟩ := Run.every_of_runAll (fun _ _ _ h => step_of_blockedStep? h)
    (newProcess_init cacheSvcHandler ⟨16⟩) (everyStep_nil _) hrun
  exact ⟨tr, s, htr, hs, (resumedRight_iff cacheSvcHandler ⟨16⟩ htr).mpr hc⟩

/-- A thread that has just been created goes through `handle_resume`, because another one
    flushed the cache. -/
theorem resumedRight_fails : ¬ ∀ (svcHandler : SvcHandler FlatMemory) (mem : FlatMemory)
    (tr : List (GuestProcess × ProcessLabel)) (s : GuestProcess),
    Run (guestProcess svcHandler mem) tr s → ResumedRight s := by
  intro hall
  have hlog : logAfter [.create 0 freshThread, .run 0 .normal [flushOnce],
      .create 1 freshThread, .outside flushCells (twoThreads 1), .run 1 .normal [flushOnce]] =
      some [(1, [.handleResume, .handle .continues]), (0, [.handle .continues])] := by
    decide +kernel
  obtain ⟨s, hrun, hs⟩ := Option.map_eq_some_iff.mp hlog
  obtain ⟨tr, htr⟩ := Run.of_runAll (fun _ _ _ h => h)
    (newProcess_init cacheSvcHandler ⟨16⟩) hrun
  have hright := hall cacheSvcHandler ⟨16⟩ tr s htr
  unfold ResumedRight at hright
  rw [hs] at hright
  obtain ⟨results, hcalls⟩ := hright.1
  cases results with
  | nil => cases hcalls
  | cons result results => cases hcalls

end Pomelo
