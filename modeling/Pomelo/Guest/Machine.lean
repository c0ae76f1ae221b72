/-
  The whole emulator: the main loop, guest threads in the emulator of their process, and the
  threads of the emulator itself.

  A step is one of the main loop, a piece of guest code, one supervisor call of the guest, or a
  stretch of a future's poll. The kernel of such a machine goes through a run of the kernel on
  its own (`svcSystem`), in the order that the main loop keeps to, and the thread whose code is
  executed is the one that runs (`machine_refines`). What holds of every such run of the kernel
  therefore holds of the machine.

  A future that is suspended in a function of `HLEContext` is resumed only with what the function
  goes on with, and one that is ready is not resumed again (`futures_resume`). A run of a thread
  to its end, as `resume` makes it, is a sequence of steps of the machine (`resume_path`).
-/
import Pomelo.Guest.HandleSvcCalls
import Pomelo.Hle.Runtime

namespace Pomelo

open Lib Outcome

/-! ## The machine -/

/-- What runs a thread: the emulator of its process, or a future. -/
inductive ThreadCode (C : Type) where
  | guest (thread : GuestThread)
  | hle (thread : ThreadHLE C)

/-- The emulator of the process with the kernel, the threads, and the one whose code is being
    executed. -/
structure Machine (C : Type) where
  guest : DynarmicGuest
  threads : ThreadIndex → Option (ThreadCode C)
  inside : Option ThreadIndex

inductive MachineStep (C : Type) where
  /-- `run_next`, up to the code of the thread. -/
  | start
  /-- The main loop ticks and stops the thread, and code of the emulator makes processes and
      threads and drops objects. -/
  | kernel (step : SvcStep)
  /-- The context of a guest thread is made. -/
  | createGuest (tid : ThreadIndex) (thread : GuestThread)
  | createHLE (tid : ThreadIndex) (code : C)
  /-- Code of the emulator writes to guest memory. -/
  | load (cells : Cells)
  /-- Guest code runs up to a supervisor call, and the call is handled. -/
  | svc (code : GuestCode) (time : UInt64)
  /-- Guest code runs, and the executor returns. -/
  | halt (code : GuestCode)
  /-- A future is polled, for a stretch. -/
  | poll (time : UInt64)

def ThreadCode.isGuest {C : Type} : ThreadCode C → Bool
  | guest _ => true
  | hle _ => false

namespace Machine

variable {C : Type}

/-- Code of the guest is being executed. -/
def runsGuest (s : Machine C) : Bool := (s.inside.bind s.threads).any ThreadCode.isGuest

/-- A future is being polled. -/
def runsFuture (s : Machine C) : Bool := (s.inside.bind s.threads).any fun code => !code.isGuest

def setThread (s : Machine C) (tid : ThreadIndex) (code : ThreadCode C) : Machine C :=
  { s with threads := Function.update s.threads tid (some code) }

/-- The guest thread leaves the emulator, and its registers are saved. -/
def leave (s : Machine C) (tid : ThreadIndex) (thread : GuestThread) (guest : DynarmicGuest) :
    Machine C :=
  { (s.setThread tid (.guest { thread with ctx := guest.exec })) with
    guest := guest
    inside := none }

end Machine

/-- When a step can be made: starts, stops and ticks follow the order of the main loop, and only
    the code that is being executed calls the kernel. -/
def MachineStep.enabled {C : Type} (s : Machine C) : MachineStep C → Bool
  | start => s.inside.isNone && s.guest.kernel.current.isNone
  | kernel (.call _) => false
  | kernel .runNext => false
  | kernel (.tick _ _) => s.inside.isNone
  | kernel (.stop tid) => s.inside.isNone && SvcStep.inLoop s.guest.kernel (.stop tid)
  | kernel l => l.enabled s.guest.kernel && l.inLoop s.guest.kernel
  | createGuest tid _ => (s.threads tid).isNone
  | createHLE tid _ => (s.threads tid).isNone
  | load _ => !s.runsGuest
  | svc _ _ => s.runsGuest
  | halt _ => s.runsGuest
  | poll _ => s.runsFuture

/-- The steps of the kernel that a step of the machine makes, newest first: code that is executed
    makes calls, and nothing else. -/
def MachineStep.Makes {C : Type} : MachineStep C → List SvcStep → Prop
  | start, steps => ∃ calls : List SvcCall, steps = calls.map .call ++ [.runNext]
  | kernel l, steps => steps = [l]
  | svc _ _, steps => ∃ calls : List SvcCall, steps = calls.map .call
  | poll _, steps => ∃ calls : List SvcCall, steps = calls.map .call
  | _, steps => steps = []

section Exec

variable (rng : Nat → UInt32) (fuel : Nat) (ticks : UInt64 → UInt64) {M : Type} [MemoryMap M]
  (mem : M) {C : Type} [HLECode C]

/-- The code of the thread that `run_next` started: its box is never empty. -/
def Machine.enter (s : Machine C) (payload : ThreadResume) (tid : ThreadIndex) :
    Exec (Machine C) :=
  match s.threads tid with
  | some (.guest thread) => do
    let cells ← resumeCopy mem thread.tls s.guest.kernel s.guest.cells
    let guest := { s.guest with cells := cells, exec := thread.ctx, tls := thread.tls }
    let guest ← guest.resumeSvc (processSvcHandler rng fuel ticks M) mem payload
    return { s with guest := guest, inside := some tid }
  | some (.hle thread) =>
    return { (s.setThread tid (.hle (thread.resumed payload))) with inside := some tid }
  | none => .panic .unwrap

def MachineStep.exec (s : Machine C) : MachineStep C → Exec (Machine C)
  | start => do
    let (started, k) ← s.guest.kernel.runNext
    let s := { s with guest := { s.guest with kernel := k } }
    match started with
    | some (tid, payload) => s.enter rng fuel ticks mem payload tid
    | none => return s
  | kernel l => do
    let k ← callHle (l.exec rng fuel s.guest.kernel)
    return { s with guest := { s.guest with kernel := k } }
  | createGuest tid thread => return s.setThread tid (.guest thread)
  | createHLE tid code => return s.setThread tid (.hle (.new code))
  | load cells => return { s with guest := { s.guest with cells := cells } }
  | svc code time => do
    let tid ← Outcome.expect s.inside .unwrap
    match s.threads tid with
    | some (.guest thread) => do
      let (result, guest) ←
        (s.guest.execute code).handleSvc (processSvcHandler rng fuel ticks M) mem time
      match result with
      | .continues => return { s with guest := guest }
      | .reschedule => return s.leave tid thread guest
    | _ => .panic .unwrap
  | halt code => do
    let tid ← Outcome.expect s.inside .unwrap
    match s.threads tid with
    | some (.guest thread) =>
      let guest := s.guest.execute code
      if guest.ranSvc then return s.leave tid thread guest else return { s with guest := guest }
    | _ => .panic .unwrap
  | poll time => do
    let tid ← Outcome.expect s.inside .unwrap
    match s.threads tid with
    | some (.hle thread) => do
      let ((polled, thread), k) ← callHle (thread.advance rng fuel time s.guest.kernel)
      return { (s.setThread tid (.hle thread)) with
        guest := { s.guest with kernel := k }
        inside := if polled = .goesOn then some tid else none }
    | _ => .panic .unwrap

end Exec

/-- The machine with a new kernel and no thread. -/
def machine (rng : Nat → UInt32) (ticks : UInt64 → UInt64) {M : Type} [MemoryMap M] (mem : M)
    (C : Type) [HLECode C] : System (Machine C) (MachineStep C) where
  init s := s.guest.kernel = Kernel.new ∧ s.guest.ranSvc = false ∧ (∀ tid, s.threads tid = none) ∧
    s.inside = none
  step s l s' := l.enabled s = true ∧ ∃ fuel, l.exec rng fuel ticks mem s = .ret s'

/-! ## Paths of the kernel -/

theorem Kernel.KeysLeft.of_sleepers {k k' : Kernel} (hleft : k.KeysLeft) (hn : k'.indices.Nodup)
    (hsame : ∀ t self', k'.sleepers t = some self' →
      ∃ self, k.sleepers t = some self ∧ self.wakeKey = self'.wakeKey) : k'.KeysLeft := by
  intro thread hthread
  have hfind : k'.thread? thread.index = some thread := findKey_of_mem hn hthread
  have hself' : k'.sleepers thread.index = some thread.sleeper := by
    unfold Kernel.sleepers
    rw [hfind]
    rfl
  obtain ⟨self, hself, hkey⟩ := hsame _ _ hself'
  exact fun hlast => hleft.sleeper hself (hkey.trans hlast)

/-- Steps of the kernel as the main loop makes them, with keys left. -/
def LoopStep (k : Kernel) (l : SvcStep) : Prop := k.KeysLeft ∧ l.inLoop k = true

/-- Such steps that start no thread but the one given. -/
def StartsOnly (tid : Option ThreadIndex) (k : Kernel) (l : SvcStep) : Prop :=
  LoopStep k l ∧ ∀ t, tid ≠ some t → l.starts k t = false

section Steps

variable {rng : Nat → UInt32} {fuel : Nat} {k k' : Kernel}

/-- Calls are steps of the kernel that start no thread. -/
theorem CallsTo.path {calls : List SvcCall} (h : CallsTo rng calls k k')
    (ht : k.view.Tidy) (hleft : k.KeysLeft) :
    ∃ tr, Path (svcSystem rng) k tr k' ∧ EveryStep (StartsOnly none) tr ∧
      tr.map Prod.snd = calls.reverse.map .call := by
  induction calls generalizing k with
  | nil =>
    cases h
    exact ⟨[], .refl, everyStep_nil _, rfl⟩
  | cons call calls ih =>
    obtain ⟨hcalling, fuel, k1, hexec, hview, hrest⟩ := h
    have hstep : (svcSystem rng).step k (.call call) k1 := ⟨hcalling, fuel, hexec⟩
    have hone : EveryStep (StartsOnly none) [(k, SvcStep.call call)] :=
      everyStep_cons.mpr ⟨⟨⟨hleft, rfl⟩, fun _ _ => rfl⟩, everyStep_nil _⟩
    cases calls with
    | nil =>
      cases hrest
      exact ⟨_, .next .refl hstep, hone, rfl⟩
    | cons call' calls =>
      have hview : k1.view = k.view := hview.resolve_left fun hnil => by cases hnil
      have ht1 : k1.view.Tidy := hview ▸ ht
      have hleft1 : k1.KeysLeft := hleft.of_sleepers ht1.nodup fun t self hself =>
        ⟨self, (congrFun (congrArg View.sleepers hview) t).symm.trans hself, rfl⟩
      obtain ⟨tr, hpath, hloop, hlabels⟩ := ih hrest ht1 hleft1
      refine ⟨_, hpath.head hstep, everyStep_append.mpr ⟨hloop, hone⟩, ?_⟩
      have hreverse : (call :: call' :: calls).reverse = (call' :: calls).reverse ++ [call] :=
        List.reverse_cons
      rw [List.map_append, hlabels, hreverse, List.map_append]
      rfl

/-- What code that was executed has done is a path of the kernel, and its thread runs if the code
    goes on. -/
theorem Called.path {copied : List UInt8 → Prop} {goesOn : Prop} {pid : ProcessId}
    {t : ThreadIndex} {self : Sleeper} (h : Called rng copied goesOn k k') (hk : k.Keyed)
    (ht : k.view.Tidy) (hleft : k.KeysLeft) (hruns : k.Runs pid t self) : ∃ tr, Path (svcSystem rng) k tr k' ∧
      EveryStep (StartsOnly none) tr ∧ (∃ calls : List SvcCall, tr.map Prod.snd = calls.map .call) ∧
      (goesOn → k'.Runs pid t self) := by
  obtain ⟨calls, hcalls, _⟩ := h.calls
  obtain ⟨tr, hpath, hsteps, hlabels⟩ := hcalls.path ht hleft
  exact ⟨tr, hpath, hsteps, ⟨_, hlabels⟩, fun hgoesOn =>
    InCall.runs_made (InCall.sound_of_keyed hk hleft) ht hruns (h.quiet hgoesOn)⟩

theorem handleResume_called {M : Type} [Memory M] {mem : M} {resume : ThreadResume}
    {regs regs' : ThreadRegs} (tls : Nat) {c c' : Cells} (hcalling : k.calling = true)
    (ht : k.view.Tidy)
    (h : ProcessSvcHandler.handleResume rng fuel resume regs tls mem c k = .ret (regs', c', k')) :
    Called rng (fun _ => False) True k k' := by
  obtain ⟨svc, _, h⟩ := bind_eq_ret.mp h
  dsimp only at h
  split at h
  · obtain ⟨⟨regs1, c1, k1⟩, hresume, h⟩ := bind_eq_ret.mp h
    cases h
    obtain ⟨vec, _, hresume⟩ := bind_eq_ret.mp hresume
    obtain ⟨⟨⟨index, res⟩, k2⟩, hpost, hresume⟩ := bind_eq_ret.mp hresume
    obtain ⟨c2, _, hresume⟩ := bind_eq_ret.mp hresume
    have hexec : SvcCall.exec rng fuel k (.replyAndReceivePost
        (ProcessSvcHandler.handlesFrom (regs.r 2).toNat vec) resume) = .ret k2 :=
      liftCall_eq_ret.mpr ⟨(index, res), hpost⟩
    cases res with
    | ok u =>
      cases hresume
      exact .of_call _ fuel hcalling ht rfl (fun _ heq => by cases heq) hexec
    | error err =>
      cases hresume
      exact .of_call _ fuel hcalling ht rfl (fun _ heq => by cases heq) hexec
  · cases h
    exact .refl k

theorem resumeSvc_called {M : Type} [MemoryMap M] {mem : M} {ticks : UInt64 → UInt64}
    {resume : ThreadResume} {guest guest' : DynarmicGuest}
    (hcalling : guest.kernel.calling = true) (ht : guest.kernel.view.Tidy)
    (h : guest.resumeSvc (processSvcHandler rng fuel ticks M) mem resume = .ret guest') :
    Called rng (fun _ => False) True guest.kernel guest'.kernel := by
  unfold DynarmicGuest.resumeSvc at h
  split at h
  · obtain ⟨⟨regs, c, k1⟩, hhandle, h⟩ := bind_eq_ret.mp h
    cases h
    exact handleResume_called guest.tls hcalling ht hhandle
  · cases h
    exact .refl _

theorem resumeSvc_tls {M : Type} {svcHandler : SvcHandler M} {mem : M} {resume : ThreadResume}
    {guest guest' : DynarmicGuest} (h : guest.resumeSvc svcHandler mem resume = .ret guest') :
    guest'.tls = guest.tls := by
  unfold DynarmicGuest.resumeSvc at h
  split at h
  · obtain ⟨_, _, h⟩ := bind_eq_ret.mp h
    cases h
    rfl
  · cases h
    rfl

/-- The thread that `run_next` started is the current one, and runs. -/
theorem runs_of_runNext {t : ThreadIndex} {payload : ThreadResume}
    (h : k.runNext = .ret (some (t, payload), k')) : ∃ pid self, k'.Runs pid t self := by
  unfold Kernel.runNext at h
  split at h
  · obtain ⟨⟨resume, k1⟩, hstart, h⟩ := bind_eq_ret.mp h
    cases h
    obtain ⟨_, self, _, _, hupdate⟩ := Kernel.startThread_sleepers hstart
    obtain ⟨thread, _, _, _, rfl⟩ := Kernel.startThread_eq_ret hstart
    refine ⟨thread.pid, self.inState .running, rfl, ?_, rfl⟩
    rw [hupdate, Function.update_self]
  · cases h

theorem keysLeft_of_runNext {started : Option (ThreadIndex × ThreadResume)} (hleft : k.KeysLeft)
    (ht : k.view.Tidy) (h : k.runNext = .ret (started, k')) : k'.KeysLeft := by
  obtain ⟨hindices, hcase⟩ := Kernel.runNext_sleepers h
  have hn : k'.indices.Nodup := hindices ▸ ht.nodup
  refine hleft.of_sleepers hn fun t self' hself' => ?_
  rcases hcase with hsame | ⟨index, self, hself, _, hupdate⟩
  · exact ⟨self', (congrFun hsame t).symm.trans hself', rfl⟩
  · rw [hupdate] at hself'
    by_cases heq : t = index
    · subst heq
      rw [Function.update_self] at hself'
      cases hself'
      exact ⟨self, hself, rfl⟩
    · rw [Function.update_of_ne heq] at hself'
      exact ⟨self', hself', rfl⟩

end Steps

/-! ## The machine follows the kernel -/

namespace ThreadHLE

variable {C : Type}

/-- The future is being polled: it goes on with what its thread was resumed with. -/
def Resumed (self : ThreadHLE C) : Prop :=
  match self.future with
  | .running _ => True
  | .suspended pending => pending.expects self.resume = true
  | .finished => False

/-- The future is not being polled: it has not begun, its thread is in the wait of the function
    that it is suspended in, or its thread is done. -/
def Parked (self : ThreadHLE C) (k : Kernel) (t : ThreadIndex) : Prop :=
  match self.future with
  | .running _ => True
  | .suspended pending => ∃ wait, pending.SleepsIn wait ∧ k.ThreadIs t (CommonThread.Awaits wait)
  | .finished => k.ThreadIs t CommonThread.Done

theorem resumed_of_running {self : ThreadHLE C} (h : ∃ code, self.future = .running code) :
    self.Resumed := by
  obtain ⟨code, h⟩ := h
  unfold Resumed
  rw [h]
  trivial

theorem parked_of_running {self : ThreadHLE C} (h : ∃ code, self.future = .running code)
    (k : Kernel) (t : ThreadIndex) : self.Parked k t := by
  obtain ⟨code, h⟩ := h
  unfold Parked
  rw [h]
  trivial

/-- A thread that is started has what its future goes on with. -/
theorem Parked.start {self : ThreadHLE C} {k k' : Kernel} {t : ThreadIndex}
    {payload : ThreadResume} (h : self.Parked k t)
    (hrun : k.runNext = .ret (some (t, payload), k')) : (self.resumed payload).Resumed := by
  unfold Parked at h
  unfold Resumed ThreadHLE.resumed
  dsimp only
  split
  · trivial
  · rename_i pending hpending
    rw [hpending] at h
    obtain ⟨wait, hwait, hawaits⟩ := h
    exact HLESuspended.expects_of_endsWith hwait (Kernel.runNext_endsWith hrun hawaits)
  · rename_i hfinished
    rw [hfinished] at h
    exact Kernel.runNext_notDone hrun h

/-- Nothing but a start changes a thread whose future is not being polled. -/
theorem Parked.path {self : ThreadHLE C} {rng : Nat → UInt32} {k k' : Kernel} {t : ThreadIndex}
    {path : List (Kernel × SvcStep)} (h : self.Parked k t) (hk : k.Keyed) (ht : k.view.Tidy)
    (hpath : Path (svcSystem rng) k path k')
    (hsteps : EveryStep (fun k l => k.KeysLeft ∧ l.starts k t = false) path) :
    self.Parked k' t := by
  have hkeep : ∀ P, Resting P → k.ThreadIs t P → k'.ThreadIs t P := fun P hrest hP =>
    (hpath.keeps (I := fun k => k.Keyed ∧ k.view.Tidy) (P := fun k => k.ThreadIs t P)
      (fun k l k' hi hc hstep hp =>
        Kernel.threadIs_of_step hp hrest hi.1 hi.2 hc.1 hc.2 hstep)
      (fun k l k' hi hc hstep =>
        ⟨Kernel.keyed_of_step hi.1 hi.2 hc.1 hstep, tidy_of_step hi.2 hstep⟩)
      hsteps ⟨hk, ht⟩ hP).2
  unfold Parked at h ⊢
  split
  · trivial
  · rename_i pending hpending
    rw [hpending] at h
    obtain ⟨wait, hwait, hawaits⟩ := h
    exact ⟨wait, hwait, hkeep _ (CommonThread.resting_awaits wait) hawaits⟩
  · rename_i hfinished
    rw [hfinished] at h
    exact hkeep _ CommonThread.resting_done h

/-- Where the poll is over, the thread sleeps or is done. -/
theorem Stretch.parked {rng : Nat → UInt32} {k k' : Kernel} {after : Polled × ThreadHLE C}
    (h : Stretch rng k k' after) (hover : after.1 ≠ .goesOn) (hk : k.Keyed) (hleft : k.KeysLeft)
    (ht : k.view.Tidy) {pid : ProcessId} {t : ThreadIndex} {self : Sleeper}
    (hruns : k.Runs pid t self) : after.2.Parked k' t := by
  have hsound := InCall.sound_of_keyed hk hleft
  unfold Parked
  cases hpolled : after.1 with
  | goesOn => exact absurd hpolled hover
  | pending =>
    obtain ⟨pending, wait, hfuture, hwait, hsleeps⟩ := h.pending hpolled
    rw [hfuture]
    exact ⟨wait, hwait, hsleeps.awaits trivial hsound ht hruns.1⟩
  | ready =>
    obtain ⟨hfuture, hexit⟩ := h.ready hpolled
    rw [hfuture]
    have hcalling : k.calling = true := Kernel.calling_iff.mpr ⟨pid, t, self, hruns⟩
    exact Kernel.exitThread_done hexit hsound ht hcalling hruns.1

end ThreadHLE

namespace Machine

variable {rng : Nat → UInt32} {ticks : UInt64 → UInt64} {M : Type} [MemoryMap M] {mem : M}
  {C : Type} {s s' : Machine C} {l : MachineStep C} {done : List (Machine C × MachineStep C)}
  {tr path : List (Kernel × SvcStep)} {fuel : Nat}

/-- What a step of the machine is to its kernel: a path, which starts no thread but the one whose
    code is executed after it. -/
structure KernelPath (rng : Nat → UInt32) (s s' : Machine C) (path : List (Kernel × SvcStep)) :
    Prop where
  leads : Path (svcSystem rng) s.guest.kernel path s'.guest.kernel
  steps : EveryStep (StartsOnly s'.inside) path
  inside : ∀ t, s'.inside = some t → ∃ pid self, s'.guest.kernel.Runs pid t self

/-- A step of the kernel itself, after which the thread whose code is executed still runs. -/
theorem KernelPath.of_step {l : SvcStep} (hleft : s.guest.kernel.KeysLeft)
    (hstep : (svcSystem rng).step s.guest.kernel l s'.guest.kernel)
    (hloop : l.inLoop s.guest.kernel = true) (hl : l ≠ .runNext)
    (hruns : ∀ t, s'.inside = some t → ∃ pid self, s'.guest.kernel.Runs pid t self) :
    KernelPath rng s s' [(s.guest.kernel, l)] where
  leads := .next .refl hstep
  steps := by
    refine everyStep_cons.mpr ⟨⟨⟨hleft, hloop⟩, fun t _ => ?_⟩, everyStep_nil _⟩
    cases l with
    | runNext => exact absurd rfl hl
    | _ => rfl
  inside := hruns

/-- A run of the kernel alone, a piece for each step of the machine, and what the threads of the
    machine are at. -/
structure Follows (rng : Nat → UInt32) (s : Machine C) (done : List (Machine C × MachineStep C))
    (tr : List (Kernel × SvcStep)) : Prop where
  pieces : InPieces (svcSystem rng) (fun s k => s.guest.kernel = k) MachineStep.Makes done s tr
    s.guest.kernel
  steps : EveryStep LoopStep tr
  inside : ∀ t, s.inside = some t → ∃ pid self, s.guest.kernel.Runs pid t self
  polled : ∀ t thread, s.threads t = some (.hle thread) → s.inside = some t → thread.Resumed
  parked : ∀ t thread, s.threads t = some (.hle thread) → s.inside ≠ some t →
    thread.Parked s.guest.kernel t

namespace Follows

theorem keyed (h : s.Follows rng done tr) : s.guest.kernel.Keyed ∧ s.guest.kernel.view.Tidy :=
  Kernel.keyed_of_run h.pieces.run fun x hx => (h.steps x hx).1

/-- A thread whose future is not being polled, before and after. -/
theorem parked_of_path (h : s.Follows rng done tr) (hpath : KernelPath rng s s' path)
    {t : ThreadIndex} {thread : ThreadHLE C} (hthread : s.threads t = some (.hle thread)) (hout : s.inside ≠ some t)
    (hout' : s'.inside ≠ some t) : thread.Parked s'.guest.kernel t :=
  (h.parked t thread hthread hout).path h.keyed.1 h.keyed.2 hpath.leads fun x hx =>
    ⟨(hpath.steps x hx).1.1, (hpath.steps x hx).2 t hout'⟩

/-- The run goes on. -/
theorem next (h : s.Follows rng done tr) (hpath : KernelPath rng s s' path)
    (hmakes : l.Makes (path.map Prod.snd))
    (hpolled : ∀ t thread, s'.threads t = some (.hle thread) → s'.inside = some t →
      thread.Resumed)
    (hparked : ∀ t thread, s'.threads t = some (.hle thread) → s'.inside ≠ some t →
      thread.Parked s'.guest.kernel t) : ∃ tr', s'.Follows rng ((s, l) :: done) tr' :=
  ⟨_, h.pieces.next hpath.leads hmakes rfl,
    everyStep_append.mpr ⟨fun x hx => (hpath.steps x hx).1, h.steps⟩, hpath.inside, hpolled,
    hparked⟩

/-- The threads stay as they are, and so does the one whose code is executed. -/
theorem next_same (h : s.Follows rng done tr) (hpath : KernelPath rng s s' path)
    (hmakes : l.Makes (path.map Prod.snd)) (hthreads : s'.threads = s.threads)
    (hinside : s'.inside = s.inside) : ∃ tr', s'.Follows rng ((s, l) :: done) tr' := by
  refine h.next hpath hmakes (fun t thread hthread hin => ?_) fun t thread hthread hout => ?_
  · exact h.polled t thread (hthreads ▸ hthread) (hinside ▸ hin)
  · exact h.parked_of_path hpath (hthreads ▸ hthread) (hinside ▸ hout) hout

/-- A thread gets its code. -/
theorem next_create (h : s.Follows rng done tr) (hmakes : l.Makes []) {tid : ThreadIndex}
    {code : ThreadCode C} (hcode : ∀ thread, code = .hle thread → ∃ c, thread.future = .running c) :
    ∃ tr', (s.setThread tid code).Follows rng ((s, l) :: done) tr' := by
  have hcases : ∀ t thread, (s.setThread tid code).threads t = some (.hle thread) →
      s.threads t = some (.hle thread) ∨ ∃ c, thread.future = .running c := by
    intro t thread hthread
    by_cases heq : t = tid
    · have hthread : Function.update s.threads tid (some code) t = some (.hle thread) := hthread
      rw [heq, Function.update_self] at hthread
      exact Or.inr (hcode thread (Option.some.inj hthread))
    · exact Or.inl ((Function.update_of_ne heq _ _).symm.trans hthread)
  have hpieces : InPieces (svcSystem rng) (fun s k => s.guest.kernel = k) MachineStep.Makes
      ((s, l) :: done) (s.setThread tid code) ([] ++ tr) s.guest.kernel :=
    h.pieces.next .refl hmakes rfl
  refine ⟨tr, hpieces, h.steps, h.inside, fun t thread hthread hin => ?_,
    fun t thread hthread hout => ?_⟩
  · rcases hcases t thread hthread with hsame | hrunning
    · exact h.polled t thread hsame hin
    · exact ThreadHLE.resumed_of_running hrunning
  · rcases hcases t thread hthread with hsame | hrunning
    · exact h.parked t thread hsame hout
    · exact ThreadHLE.parked_of_running hrunning _ t

/-- The guest thread inside leaves. -/
theorem leave (h : s.Follows rng done tr) {tid : ThreadIndex} {thread : GuestThread}
    {guest : DynarmicGuest} (hpath : KernelPath rng s (s.leave tid thread guest) path)
    (hmakes : l.Makes (path.map Prod.snd)) (hinside : s.inside = some tid) :
    ∃ tr', (s.leave tid thread guest).Follows rng ((s, l) :: done) tr' := by
  refine h.next hpath hmakes (fun t future _ hin => by cases hin) fun t future hfuture hout => ?_
  have hfuture : Function.update s.threads tid
    (some (.guest { thread with ctx := guest.exec })) t = some (.hle future) := hfuture
  have hne : t ≠ tid := fun heq => by
    rw [heq, Function.update_self] at hfuture
    cases hfuture
  rw [Function.update_of_ne hne] at hfuture
  refine h.parked_of_path hpath hfuture (fun hin => ?_) hout
  rw [hinside] at hin
  exact hne (Option.some.inj hin).symm

/-! ### The main loop -/

/-- `run_next`, and what the code that is executed first does. -/
theorem start_path (h : s.Follows rng done tr) (hleft : s.guest.kernel.KeysLeft)
    (hcurrent : s.guest.kernel.current = none) {tid : ThreadIndex} {payload : ThreadResume}
    {k : Kernel} (hrun : s.guest.kernel.runNext = .ret (some (tid, payload), k))
    {copied : List UInt8 → Prop}
    (hcalled : k.calling = true → k.view.Tidy → Called rng copied True k s'.guest.kernel)
    (hinside : s'.inside = some tid) : ∃ path, KernelPath rng s s' path ∧
      MachineStep.Makes (C := C) .start (path.map Prod.snd) := by
  obtain ⟨hk, ht⟩ := h.keyed
  have hstep : (svcSystem rng).step s.guest.kernel .runNext k :=
    ⟨rfl, 0, liftCall_eq_ret.mpr ⟨_, hrun⟩⟩
  have hloop : SvcStep.runNext.inLoop s.guest.kernel = true := by
    unfold SvcStep.inLoop
    rw [hcurrent]
    rfl
  have hstarts : ∀ t, s'.inside ≠ some t → SvcStep.runNext.starts s.guest.kernel t = false := by
    intro t hout
    rw [hinside, ← (Kernel.runNext_ready hrun).1] at hout
    exact decide_eq_false hout
  have hk' : k.Keyed := Kernel.keyed_of_step hk ht hleft hstep
  have ht' : k.view.Tidy := tidy_of_step ht hstep
  obtain ⟨pid, self, hruns⟩ := runs_of_runNext hrun
  have hcalling : k.calling = true := Kernel.calling_iff.mpr ⟨pid, tid, self, hruns⟩
  obtain ⟨path, hpath, hsteps, ⟨calls, hlabels⟩, hgoesOn⟩ :=
    (hcalled hcalling ht').path hk' ht' (keysLeft_of_runNext hleft ht hrun) hruns
  refine ⟨_, ⟨hpath.head hstep, everyStep_append.mpr ⟨fun x hx => ?_, ?_⟩, fun t ht => ?_⟩,
    calls, by rw [List.map_append, hlabels]; rfl⟩
  · exact ⟨(hsteps x hx).1, fun t _ => (hsteps x hx).2 t (by simp)⟩
  · exact everyStep_cons.mpr ⟨⟨⟨hleft, hloop⟩, hstarts⟩, everyStep_nil _⟩
  · rw [hinside] at ht
    cases ht
    exact ⟨pid, self, hgoesOn trivial⟩

variable [HLECode C]

theorem start (h : s.Follows rng done tr) (hleft : s.guest.kernel.KeysLeft)
    (henabled : MachineStep.start.enabled s = true)
    (hexec : MachineStep.start.exec rng fuel ticks mem s = .ret s') :
    ∃ tr', s'.Follows rng ((s, .start) :: done) tr' := by
  obtain ⟨hout, hcurrent⟩ := Bool.and_eq_true_iff.mp henabled
  have hout : s.inside = none := Option.isNone_iff_eq_none.mp hout
  have hcurrent : s.guest.kernel.current = none := Option.isNone_iff_eq_none.mp hcurrent
  obtain ⟨⟨started, k⟩, hrun, hexec⟩ := bind_eq_ret.mp hexec
  cases started with
  | none =>
    cases hexec
    have hstep : (svcSystem rng).step s.guest.kernel .runNext k :=
      ⟨rfl, 0, liftCall_eq_ret.mpr ⟨_, hrun⟩⟩
    have hnone : ∀ t, SvcStep.runNext.starts s.guest.kernel t = false := by
      refine fun t => decide_eq_false fun hindex => ?_
      unfold Kernel.runNext at hrun
      rw [hindex] at hrun
      obtain ⟨_, _, hrun⟩ := bind_eq_ret.mp hrun
      cases hrun
    have hloop : SvcStep.runNext.inLoop s.guest.kernel = true := by
      unfold SvcStep.inLoop
      rw [hcurrent]
      rfl
    have hsteps : EveryStep (StartsOnly s.inside) [(s.guest.kernel, .runNext)] :=
      everyStep_cons.mpr ⟨⟨⟨hleft, hloop⟩, fun t _ => hnone t⟩, everyStep_nil _⟩
    refine h.next_same ⟨.next .refl hstep, hsteps, fun t ht => ?_⟩ ⟨[], rfl⟩ rfl rfl
    rw [show s.inside = some t from ht] at hout
    cases hout
  | some started =>
    obtain ⟨tid, payload⟩ := started
    unfold Machine.enter at hexec
    dsimp only at hexec
    split at hexec
    · rename_i thread hthread
      obtain ⟨cells, _, hexec⟩ := bind_eq_ret.mp hexec
      obtain ⟨guest, hresume, hexec⟩ := bind_eq_ret.mp hexec
      cases hexec
      have hstart : ∃ path, KernelPath rng s { s with guest := guest, inside := some tid } path ∧
          MachineStep.Makes (C := C) .start (path.map Prod.snd) :=
        h.start_path hleft hcurrent hrun (fun hcalling ht => resumeSvc_called hcalling ht hresume)
          rfl
      obtain ⟨path, hpath, hmakes⟩ := hstart
      refine h.next hpath hmakes (fun t future hfuture hin => ?_) fun t future hfuture hout' => ?_
      · cases hin
        have hfuture : s.threads tid = some (.hle future) := hfuture
        rw [hthread] at hfuture
        cases hfuture
      · exact h.parked_of_path hpath hfuture (by rw [hout]; simp) hout'
    · rename_i thread hthread
      cases hexec
      let s1 : Machine C := { s with guest := { s.guest with kernel := k } }
      have hstart : ∃ path, KernelPath rng s
          { (s1.setThread tid (.hle (thread.resumed payload))) with inside := some tid } path ∧
          MachineStep.Makes (C := C) .start (path.map Prod.snd) :=
        h.start_path hleft hcurrent hrun
          (fun _ _ => (.refl k : Called rng (fun _ => False) True k k)) rfl
      obtain ⟨path, hpath, hmakes⟩ := hstart
      refine h.next hpath hmakes (fun t future hfuture hin => ?_) fun t future hfuture hout' => ?_
      · cases hin
        have hfuture : Function.update s.threads tid (some (.hle (thread.resumed payload))) tid =
          some (.hle future) := hfuture
        rw [Function.update_self] at hfuture
        cases hfuture
        exact (h.parked tid thread hthread (by rw [hout]; simp)).start hrun
      · have hne : t ≠ tid := fun heq => hout' (heq ▸ rfl)
        have hfuture : Function.update s.threads tid (some (.hle (thread.resumed payload))) t =
          some (.hle future) := hfuture
        rw [Function.update_of_ne hne] at hfuture
        exact h.parked_of_path hpath hfuture (by rw [hout]; simp) hout'
    · cases hexec

theorem kernel {l : SvcStep} (h : s.Follows rng done tr) (hleft : s.guest.kernel.KeysLeft)
    (henabled : (MachineStep.kernel l).enabled s = true)
    (hexec : (MachineStep.kernel l).exec rng fuel ticks mem s = .ret s') :
    ∃ tr', s'.Follows rng ((s, .kernel l) :: done) tr' := by
  obtain ⟨k', hkernel, hexec⟩ := bind_eq_ret.mp hexec
  have hkernel := mapPanic_eq_ret.mp hkernel
  cases hexec
  obtain ⟨hk, ht⟩ := h.keyed
  have hnext : l ≠ .runNext → l.enabled s.guest.kernel = true →
      l.inLoop s.guest.kernel = true →
      (∀ t, s.inside = some t → ∃ pid self, k'.Runs pid t self) →
      ∃ tr', Follows rng { s with guest := { s.guest with kernel := k' } }
        ((s, .kernel l) :: done) tr' :=
    fun hl hcan hloop hruns => h.next_same
      (KernelPath.of_step hleft ⟨hcan, fuel, hkernel⟩ hloop hl hruns) rfl rfl rfl
  have houtside : s.inside.isNone = true →
      ∀ t, s.inside = some t → ∃ pid self, k'.Runs pid t self := by
    intro hout t ht
    rw [ht] at hout
    cases hout
  cases l with
  | call call => cases henabled
  | runNext => cases henabled
  | tick time interrupts =>
    exact hnext (fun hl => by cases hl) rfl rfl (houtside henabled)
  | stop index =>
    obtain ⟨hout, hloop⟩ := Bool.and_eq_true_iff.mp henabled
    exact hnext (fun hl => by cases hl) rfl hloop (houtside hout)
  | newProcess process =>
    refine hnext (fun hl => by cases hl) rfl rfl fun t ht => ?_
    obtain ⟨pid, hkernel⟩ := liftCall_eq_ret.mp hkernel
    obtain ⟨nextPid, _, hkernel⟩ := bind_eq_ret.mp hkernel
    cases hkernel
    exact h.inside t ht
  | newThread pid =>
    have hloop : SvcStep.inLoop s.guest.kernel (.newThread pid) = true := henabled
    refine hnext (fun hl => by cases hl) rfl hloop fun t ht' => ?_
    obtain ⟨⟨tid, kobj, k1⟩, hnew, hkernel⟩ := bind_eq_ret.mp hkernel
    cases hkernel
    obtain ⟨pid', self, hruns⟩ := h.inside t ht'
    exact ⟨pid', self, InCall.runs_made (InCall.sound_of_keyed hk hleft) ht hruns
      (.single (.born hloop (mapPanic_eq_ret.mp hnew)))⟩
  | drop o =>
    obtain ⟨hcan, hloop⟩ := Bool.and_eq_true_iff.mp henabled
    refine hnext (fun hl => by cases hl) hcan hloop fun t ht => ?_
    cases hkernel
    exact h.inside t ht

/-! ### Code -/

/-- A supervisor call of the guest: its thread goes on, or leaves. -/
theorem svc {code : GuestCode} {time : UInt64} (h : s.Follows rng done tr)
    (hleft : s.guest.kernel.KeysLeft)
    (hexec : (MachineStep.svc code time).exec rng fuel ticks mem s = .ret s') :
    ∃ tr', s'.Follows rng ((s, .svc code time) :: done) tr' := by
  obtain ⟨tid, hinside, hexec⟩ := bind_eq_ret.mp hexec
  have hinside : s.inside = some tid := expect_eq_ret.mp hinside
  split at hexec
  · rename_i thread hthread
    obtain ⟨⟨result, guest⟩, hsvc, hexec⟩ := bind_eq_ret.mp hexec
    obtain ⟨⟨result', regs, cells, k'⟩, hhandle, hsvc⟩ := bind_eq_ret.mp hsvc
    cases hsvc
    obtain ⟨hk, ht⟩ := h.keyed
    obtain ⟨pid, self, hruns⟩ := h.inside tid hinside
    have hcalling : s.guest.kernel.calling = true :=
      Kernel.calling_iff.mpr ⟨pid, tid, self, hruns⟩
    have hcalled := (HandleSvc.handleSvc_spec hcalling ht hhandle).called
    obtain ⟨path, hpath, hsteps, hmakes, hgoesOn⟩ := hcalled.path hk ht hleft hruns
    have hsteps' : ∀ inside, EveryStep (StartsOnly inside) path := fun _ x hx =>
      ⟨(hsteps x hx).1, fun t _ => (hsteps x hx).2 t (by simp)⟩
    cases result with
    | continues =>
      cases hexec
      refine h.next_same ⟨hpath, hsteps' _, fun t ht => ?_⟩ hmakes rfl rfl
      rw [show s.inside = some t from ht] at hinside
      cases hinside
      exact ⟨pid, self, hgoesOn rfl⟩
    | reschedule =>
      cases hexec
      exact h.leave ⟨hpath, hsteps' _, fun t ht => by cases ht⟩ hmakes hinside
  · cases hexec

theorem halt {code : GuestCode} (h : s.Follows rng done tr)
    (hexec : (MachineStep.halt code).exec rng fuel ticks mem s = .ret s') :
    ∃ tr', s'.Follows rng ((s, .halt code) :: done) tr' := by
  obtain ⟨tid, hinside, hexec⟩ := bind_eq_ret.mp hexec
  have hinside : s.inside = some tid := expect_eq_ret.mp hinside
  split at hexec
  · rename_i thread hthread
    dsimp only at hexec
    split at hexec
    · cases hexec
      exact h.leave ⟨.refl, everyStep_nil _, fun t ht => by cases ht⟩ rfl hinside
    · cases hexec
      exact h.next_same ⟨.refl, everyStep_nil _, h.inside⟩ rfl rfl rfl
  · cases hexec

/-- A stretch of a poll: the future goes on, or its thread leaves. -/
theorem poll {time : UInt64} (h : s.Follows rng done tr) (hleft : s.guest.kernel.KeysLeft)
    (hexec : (MachineStep.poll time).exec rng fuel ticks mem s = .ret s') :
    ∃ tr', s'.Follows rng ((s, .poll time) :: done) tr' := by
  obtain ⟨tid, hinside, hexec⟩ := bind_eq_ret.mp hexec
  have hinside : s.inside = some tid := expect_eq_ret.mp hinside
  split at hexec
  · rename_i thread hthread
    obtain ⟨⟨⟨polled, thread'⟩, k'⟩, hadvance, hexec⟩ := bind_eq_ret.mp hexec
    cases hexec
    obtain ⟨hk, ht⟩ := h.keyed
    obtain ⟨pid, self, hruns⟩ := h.inside tid hinside
    have hcalling : s.guest.kernel.calling = true :=
      Kernel.calling_iff.mpr ⟨pid, tid, self, hruns⟩
    have hstretch := ThreadHLE.advance_stretch hcalling ht (mapPanic_eq_ret.mp hadvance)
    obtain ⟨path, hpath, hsteps, hmakes, hgoesOn⟩ := hstretch.called.path hk ht hleft hruns
    have hmine : ∀ t future, Function.update s.threads tid (some (.hle thread')) t =
        some (.hle future) → t = tid ∧ future = thread' ∨
          t ≠ tid ∧ s.threads t = some (.hle future) := by
      intro t future hfuture
      by_cases heq : t = tid
      · subst heq
        rw [Function.update_self] at hfuture
        cases hfuture
        exact Or.inl ⟨rfl, rfl⟩
      · rw [Function.update_of_ne heq] at hfuture
        exact Or.inr ⟨heq, hfuture⟩
    let s' : Machine C := { (s.setThread tid (.hle thread')) with
      guest := { s.guest with kernel := k' }
      inside := if polled = .goesOn then some tid else none }
    have hin : ∀ t, s'.inside = some t → t = tid ∧ polled = .goesOn := by
      intro t ht
      have ht : (if polled = .goesOn then some tid else none) = some t := ht
      split at ht
      · exact ⟨(Option.some.inj ht).symm, ‹_›⟩
      · cases ht
    have hkernel : KernelPath rng s s' path := by
      refine ⟨hpath, fun x hx => ⟨(hsteps x hx).1, fun t _ => (hsteps x hx).2 t (by simp)⟩,
        fun t ht => ?_⟩
      obtain ⟨rfl, hgoes⟩ := hin t ht
      exact ⟨pid, self, hgoesOn hgoes⟩
    refine h.next hkernel hmakes (fun t future hfuture hin' => ?_) fun t future hfuture hout => ?_
    · obtain ⟨rfl, hgoes⟩ := hin t hin'
      rcases hmine _ _ hfuture with ⟨_, rfl⟩ | ⟨hne, _⟩
      · exact ThreadHLE.resumed_of_running (hstretch.goesOn hgoes)
      · exact absurd rfl hne
    · rcases hmine _ _ hfuture with ⟨rfl, rfl⟩ | ⟨hne, hsame⟩
      · refine hstretch.parked (fun hgoes => hout ?_) hk hleft ht hruns
        exact if_pos hgoes
      · refine h.parked_of_path hkernel hsame (fun hin' => ?_) hout
        rw [hinside] at hin'
        exact hne (Option.some.inj hin').symm
  · cases hexec

/-- **One step of the machine** is no, one, or several steps of the kernel. -/
theorem of_step (h : s.Follows rng done tr) (hleft : s.guest.kernel.KeysLeft)
    (hstep : (machine rng ticks mem C).step s l s') :
    ∃ tr', s'.Follows rng ((s, l) :: done) tr' := by
  obtain ⟨henabled, fuel, hexec⟩ := hstep
  cases l with
  | start => exact h.start hleft henabled hexec
  | kernel l => exact h.kernel hleft henabled hexec
  | createGuest tid thread =>
    cases hexec
    exact h.next_create (l := .createGuest tid thread) rfl fun _ heq => by cases heq
  | createHLE tid code =>
    cases hexec
    refine h.next_create (l := .createHLE tid code) rfl fun thread heq => ?_
    cases heq
    exact ⟨code, rfl⟩
  | load cells =>
    cases hexec
    exact h.next_same ⟨.refl, everyStep_nil _, h.inside⟩ rfl rfl rfl
  | svc code time => exact h.svc hleft hexec
  | halt code => exact h.halt hexec
  | poll time => exact h.poll hleft hexec

end Follows

end Machine

section Refines

variable {rng : Nat → UInt32} {ticks : UInt64 → UInt64} {M : Type} [MemoryMap M] {mem : M}
  {C : Type} [HLECode C] {tr : List (Machine C × MachineStep C)} {s : Machine C}

theorem Machine.follows_of_run (h : Run (machine rng ticks mem C) tr s)
    (hleft : EveryStep (fun s _ => s.guest.kernel.KeysLeft) tr) :
    ∃ tr', s.Follows rng tr tr' := by
  induction h with
  | start hs =>
    obtain ⟨hkernel, _, hthreads, hinside⟩ := hs
    refine ⟨[], .start hkernel rfl, everyStep_nil _, fun t ht => ?_, fun t thread hthread _ => ?_,
      fun t thread hthread _ => ?_⟩
    · rw [hinside] at ht
      cases ht
    · rw [hthreads t] at hthread
      cases hthread
    · rw [hthreads t] at hthread
      cases hthread
  | next _ hstep ih =>
    obtain ⟨hnow, hleft⟩ := everyStep_cons.mp hleft
    obtain ⟨tr', hfollows⟩ := ih hleft
    exact hfollows.of_step hnow hstep

end Refines

/-- **The machine refines its kernel.** Whatever the guest and the code of the emulator do, in
    every run of the machine in which no thread has been woken 2^64 times the kernel goes through
    a run of its own, in the order of the main loop. Each step of the machine is a piece of this
    run, from the kernel before the step to the kernel after it: `run_next` at a start, the
    loop's own steps, and calls where code is executed. The thread whose code is executed is the
    current thread and runs. -/
theorem machine_refines {rng : Nat → UInt32} {ticks : UInt64 → UInt64} {M : Type} [MemoryMap M]
    {mem : M} {C : Type} [HLECode C] {tr : List (Machine C × MachineStep C)} {s : Machine C}
    (h : Run (machine rng ticks mem C) tr s)
    (hleft : EveryStep (fun s _ => s.guest.kernel.KeysLeft) tr) :
    ∃ tr', InPieces (svcSystem rng) (fun s k => s.guest.kernel = k) MachineStep.Makes tr s tr'
        s.guest.kernel ∧
      Run (svcSystem rng) tr' s.guest.kernel ∧ EveryStep LoopStep tr' ∧
      ∀ t, s.inside = some t → s.guest.kernel.calling = true ∧
        ∃ pid, s.guest.kernel.current = some (pid, t) := by
  obtain ⟨tr', hfollows⟩ := Machine.follows_of_run h hleft
  refine ⟨tr', hfollows.pieces, hfollows.pieces.run, hfollows.steps, fun t ht => ?_⟩
  obtain ⟨pid, self, hruns⟩ := hfollows.inside t ht
  exact ⟨Kernel.calling_iff.mpr ⟨pid, t, self, hruns⟩, pid, hruns.1⟩

/-- **A future goes on with what it waited for.** Whenever the future of a thread is polled, in
    any run of the machine in which no thread has been woken 2^64 times, it is not at its end, and
    if it is suspended in a function of `HLEContext`, its thread was resumed with a payload that
    the function goes on with: no wait for one object ends with an index, none but `wait_sync_1`
    ends with a timeout, and an index is one of the handles that were waited on. -/
theorem futures_resume {rng : Nat → UInt32} {ticks : UInt64 → UInt64} {M : Type} [MemoryMap M]
    {mem : M} {C : Type} [HLECode C] {tr : List (Machine C × MachineStep C)} {s : Machine C}
    {t : ThreadIndex} {thread : ThreadHLE C} (h : Run (machine rng ticks mem C) tr s)
    (hleft : EveryStep (fun s _ => s.guest.kernel.KeysLeft) tr) (hinside : s.inside = some t)
    (hthread : s.threads t = some (.hle thread)) :
    (∃ code, thread.future = .running code) ∨
      ∃ pending, thread.future = .suspended pending ∧ pending.expects thread.resume = true := by
  obtain ⟨tr', hfollows⟩ := Machine.follows_of_run h hleft
  have hresumed := hfollows.polled t thread hthread hinside
  unfold ThreadHLE.Resumed at hresumed
  cases hfuture : thread.future with
  | running code => exact Or.inl ⟨code, rfl⟩
  | suspended pending =>
    rw [hfuture] at hresumed
    exact Or.inr ⟨pending, rfl, hresumed⟩
  | finished =>
    rw [hfuture] at hresumed
    exact hresumed.elim

/-! ## A future that waits, and a guest thread that creates a mutex -/

/-- Flat memory has every address mapped from the start. -/
instance : MemoryMap FlatMemory where
  map _ c addr size _ init _ :=
    match init with
    | none => return c
    | some data => do
      Outcome.assert (decide (data.length ≤ size)) (.assertion "data.len() <= (size as usize)")
      return writeCells c addr data

/-- Code that makes an event, and waits for it for five nanoseconds. -/
inductive WaitingCode where
  | create
  | wait (event : DirectResult)
  | stop

instance : HLECode WaitingCode where
  next
    | .create => .direct (.createEvent .oneShot) .wait
    | .wait (.created (.ok event)) => .waitSync1 event (some 5) fun _ => .stop
    | .wait _ => .panic .unwrap
    | .stop => .ready

/-- A step by execution, with keys left. -/
def machineStep? {M : Type} [MemoryMap M] (mem : M) {C : Type} [HLECode C] (s : Machine C)
    (l : MachineStep C) : Option (Machine C) :=
  if l.enabled s = true ∧ s.guest.kernel.KeysLeft then
    (l.exec UInt32.ofNat 4 id mem s).value?
  else none

theorem step_of_machineStep? {M : Type} [MemoryMap M] {mem : M} {C : Type} [HLECode C]
    {s s' : Machine C} {l : MachineStep C} (h : machineStep? mem s l = some s') :
    (machine UInt32.ofNat id mem C).step s l s' ∧ s.guest.kernel.KeysLeft := by
  unfold machineStep? at h
  split at h
  · rename_i hguards
    exact ⟨⟨hguards.1, 4, value?_eq_some.mp h⟩, hguards.2⟩
  · cases h

/-- Memory with an `svc 0x13` at 0x100 and an `svc 0x0A` behind it. -/
def mutexCells : Cells := writeCells (fun _ => 0) 0x100 [0x13, 0, 0, 0xEF, 0x0A, 0, 0, 0xEF]

def newMachine : Machine WaitingCode where
  guest :=
    { exec := .zero, ranSvc := false, tls := 0, cells := mutexCells, kernel := Kernel.new,
      calls := [] }
  threads _ := none
  inside := none

/-- The process and its thread are made, the thread is started, and makes its first call. -/
def mutexSteps : List (MachineStep WaitingCode) :=
  [.kernel (.newProcess .context), .kernel (.newThread 0), .createGuest 0 freshThread, .start,
    .svc (fun regs _ c => (regs.sr 15 0x104, c)) 0]

theorem machine_refines_mutex : ∃ (tr : List (Machine WaitingCode × MachineStep WaitingCode))
    (s : Machine WaitingCode) (tr' : List (Kernel × SvcStep)),
    Run (machine UInt32.ofNat id (⟨16⟩ : FlatMemory) WaitingCode) tr s ∧ s.inside = some 0 ∧
      InPieces (svcSystem UInt32.ofNat) (fun s k => s.guest.kernel = k) MachineStep.Makes tr s tr'
        s.guest.kernel ∧
      s.guest.kernel.calling = true := by
  have hrun : (runAll (machineStep? (⟨16⟩ : FlatMemory)) newMachine mutexSteps).map
      Machine.inside = some (some 0) := by
    decide +kernel
  obtain ⟨s, hs, hinside⟩ := Option.map_eq_some_iff.mp hrun
  obtain ⟨tr, htr, hleft⟩ := Run.every_of_runAll (fun _ _ _ hst => step_of_machineStep? hst)
    (.start (M := machine UInt32.ofNat id (⟨16⟩ : FlatMemory) WaitingCode)
      ⟨rfl, rfl, fun _ => rfl, rfl⟩) (everyStep_nil _) hs
  obtain ⟨tr', hpieces, _, _, hruns⟩ := machine_refines htr hleft
  exact ⟨tr, s, tr', htr, hinside, hpieces, (hruns 0 hinside).1⟩

/-- The future is suspended until its timeout, and started again. -/
def waitingSteps : List (MachineStep WaitingCode) :=
  [.kernel (.newProcess .hle), .kernel (.newThread 0), .createHLE 0 .create, .start, .poll 0,
    .poll 0, .kernel (.stop 0), .kernel (.tick 3 []), .start, .kernel (.tick 6 []), .start]

/-- What the future of a thread is suspended in, and the payload that its thread was resumed
    with. -/
def suspendedWith (s : Machine WaitingCode) (t : ThreadIndex) : Option ThreadResume :=
  match s.threads t with
  | some (.hle ⟨.suspended (.waitSync1 _), resume⟩) => some resume
  | _ => none

theorem futures_resume_timeout : ∃ (tr : List (Machine WaitingCode × MachineStep WaitingCode))
    (s : Machine WaitingCode) (thread : ThreadHLE WaitingCode) (pending : HLESuspended WaitingCode),
    Run (machine UInt32.ofNat id (⟨16⟩ : FlatMemory) WaitingCode) tr s ∧ s.inside = some 0 ∧
      s.threads 0 = some (.hle thread) ∧ thread.future = .suspended pending ∧
      thread.resume = .timeoutReached ∧ pending.expects .timeoutReached = true := by
  have hrun : (runAll (machineStep? (⟨16⟩ : FlatMemory)) newMachine waitingSteps).map
      (fun s => (s.inside, suspendedWith s 0)) = some (some 0, some .timeoutReached) := by
    decide +kernel
  obtain ⟨s, hs, hview⟩ := Option.map_eq_some_iff.mp hrun
  obtain ⟨hinside, hresume⟩ := Prod.mk.inj hview
  obtain ⟨tr, htr, hleft⟩ := Run.every_of_runAll (fun _ _ _ hst => step_of_machineStep? hst)
    (.start (M := machine UInt32.ofNat id (⟨16⟩ : FlatMemory) WaitingCode)
      ⟨rfl, rfl, fun _ => rfl, rfl⟩) (everyStep_nil _) hs
  unfold suspendedWith at hresume
  split at hresume
  · rename_i cont resume hthread
    cases hresume
    rcases futures_resume htr hleft hinside hthread with ⟨code, hcode⟩ | ⟨pending, hpending, hexp⟩
    · cases hcode
    · exact ⟨tr, s, _, pending, htr, hinside, hthread, hpending, rfl, hexp⟩
  · cases hresume

/-! ## A thread's run as the emulator makes it -/

section Resume

variable (rng : Nat → UInt32) (fuel : Nat) (ticks : UInt64 → UInt64) {M : Type} [MemoryMap M]
  (mem : M) {C : Type} [HLECode C]

/-- `Thread::resume`: the executor runs `runs`, or the future is polled for as many stretches as
    there are times. -/
def ThreadCode.resume (self : ThreadCode C) (payload : ThreadResume) (runs : List ExecutorRun)
    (times : List UInt64) (guest : DynarmicGuest) : Exec (ThreadCode C × DynarmicGuest) :=
  match self with
  | .guest thread => do
    let (thread, guest) ←
      thread.resume (processSvcHandler rng fuel ticks M) mem payload runs guest
    return (.guest thread, guest)
  | .hle thread => do
    let (thread, k) ← callHle (thread.resumeThread rng fuel times payload guest.kernel)
    return (.hle thread, { guest with kernel := k })

end Resume

namespace Machine

variable {rng : Nat → UInt32} {ticks : UInt64 → UInt64} {M : Type} [MemoryMap M] {mem : M}
  {C : Type} [HLECode C] {s : Machine C} {g' : DynarmicGuest} {t : ThreadIndex}
  {thread : GuestThread} {fuel : Nat}

/-- The thread has run: its code and the emulator are as the run has left them. -/
def ran (s : Machine C) (t : ThreadIndex) (code : ThreadCode C) (guest : DynarmicGuest) :
    Machine C :=
  { (s.setThread t code) with guest := guest, inside := none }

/-- Where the machine is when the executor has returned. -/
def executed (s : Machine C) (t : ThreadIndex) (thread : GuestThread) (guest : DynarmicGuest) :
    Machine C :=
  if guest.ranSvc then s.leave t thread guest else { s with guest := guest }

theorem execRun_path {last : GuestCode} {svcs : List GuestSvc} (hinside : s.inside = some t)
    (hthread : s.threads t = some (.guest thread))
    (h : DynarmicGuest.execRun (processSvcHandler rng fuel ticks M) mem last svcs s.guest =
      .ret g') : ∃ tr, Path (machine rng ticks mem C) s tr (s.executed t thread g') := by
  have hcan : s.runsGuest = true := by
    unfold runsGuest
    rw [hinside, Option.bind_some, hthread]
    rfl
  have hexpect : Outcome.expect s.inside Panic.unwrap = .ret t := expect_eq_ret.mpr hinside
  induction svcs generalizing s with
  | nil =>
    cases h
    have hstep : (machine rng ticks mem C).step s (.halt last)
        (s.executed t thread (s.guest.execute last)) := by
      refine ⟨hcan, fuel, bind_eq_ret.mpr ⟨t, hexpect, ?_⟩⟩
      rw [hthread]
      unfold executed
      dsimp only
      split <;> rfl
    exact ⟨_, .next .refl hstep⟩
  | cons svc svcs ih =>
    rw [DynarmicGuest.execRun] at h
    obtain ⟨⟨result, after⟩, hsvc, h⟩ := bind_eq_ret.mp h
    cases result with
    | continues =>
      have hstep : (machine rng ticks mem C).step s (.svc svc.code svc.time)
          { s with guest := after } := by
        refine ⟨hcan, fuel, bind_eq_ret.mpr ⟨t, hexpect, ?_⟩⟩
        rw [hthread]
        exact bind_eq_ret.mpr ⟨_, hsvc, rfl⟩
      obtain ⟨tr, hpath⟩ := ih (s := { s with guest := after }) hinside hthread h hcan hexpect
      exact ⟨_, hpath.head hstep⟩
    | reschedule =>
      cases h
      have hstep : (machine rng ticks mem C).step s (.svc svc.code svc.time)
          (s.leave t thread g') := by
        refine ⟨hcan, fuel, bind_eq_ret.mpr ⟨t, hexpect, ?_⟩⟩
        rw [hthread]
        exact bind_eq_ret.mpr ⟨_, hsvc, rfl⟩
      obtain ⟨⟨result, regs, cells, k⟩, _, hret⟩ := bind_eq_ret.mp hsvc
      cases hret
      exact ⟨_, .next .refl hstep⟩

theorem runLoop_path {runs : List ExecutorRun} (hinside : s.inside = some t)
    (hthread : s.threads t = some (.guest thread))
    (h : DynarmicGuest.runLoop (processSvcHandler rng fuel ticks M) mem runs s.guest =
      .ret g') : ∃ tr, Path (machine rng ticks mem C) s tr (s.leave t thread g') := by
  induction runs generalizing s with
  | nil => cases h
  | cons run runs ih =>
    rw [DynarmicGuest.runLoop] at h
    obtain ⟨guest, hexec, h⟩ := bind_eq_ret.mp h
    obtain ⟨tr, hpath⟩ := execRun_path hinside hthread hexec
    unfold executed at hpath
    split at h
    · rename_i hran
      cases h
      rw [if_pos hran] at hpath
      exact ⟨tr, hpath⟩
    · rename_i hran
      rw [if_neg hran] at hpath
      obtain ⟨tr', hpath'⟩ := ih (s := { s with guest := guest }) hinside hthread h
      exact ⟨_, hpath.trans hpath'⟩

omit [HLECode C] in
theorem ran_setThread {s s' : Machine C} (t : ThreadIndex) (code code' : ThreadCode C)
    (guest : DynarmicGuest) (hthreads : s'.threads = (s.setThread t code).threads) :
    s'.ran t code' guest = s.ran t code' guest := by
  have hsame : Function.update s'.threads t (some code') =
      Function.update s.threads t (some code') := by
    rw [hthreads]
    exact Function.update_idem ..
  unfold ran setThread
  rw [Machine.mk.injEq]
  exact ⟨rfl, hsame, rfl⟩

theorem poll_path {times : List UInt64} {future future' : ThreadHLE C} {k k' : Kernel}
    (hinside : s.inside = some t) (hthread : s.threads t = some (.hle future))
    (hkernel : s.guest.kernel = k)
    (h : ThreadHLE.poll rng fuel times future k = .ret (future', k')) :
    ∃ tr, Path (machine rng ticks mem C) s tr
      (s.ran t (.hle future') { s.guest with kernel := k' }) := by
  induction times generalizing s future k with
  | nil => cases h
  | cons time times ih =>
    rw [ThreadHLE.poll] at h
    obtain ⟨⟨⟨polled, future1⟩, k1⟩, hadvance, h⟩ := bind_eq_ret.mp h
    have hcan : s.runsFuture = true := by
      unfold runsFuture
      rw [hinside, Option.bind_some, hthread]
      rfl
    have hstep : (machine rng ticks mem C).step s (.poll time)
        { (s.setThread t (.hle future1)) with
          guest := { s.guest with kernel := k1 }
          inside := if polled = .goesOn then some t else none } := by
      refine ⟨hcan, fuel, bind_eq_ret.mpr ⟨t, expect_eq_ret.mpr hinside, ?_⟩⟩
      rw [hthread]
      refine bind_eq_ret.mpr ⟨((polled, future1), k1), mapPanic_eq_ret.mpr ?_, rfl⟩
      rw [hkernel]
      exact hadvance
    cases polled with
    | goesOn =>
      let s' : Machine C :=
        { (s.setThread t (.hle future1)) with
          guest := { s.guest with kernel := k1 }
          inside := some t }
      obtain ⟨tr, hpath⟩ := ih (s := s') rfl (Function.update_self ..) rfl h
      have hthreads : s'.threads = (s.setThread t (.hle future1)).threads := rfl
      rw [ran_setThread t _ _ _ hthreads] at hpath
      exact ⟨_, hpath.head hstep⟩
    | pending =>
      cases h
      exact ⟨_, .next .refl hstep⟩
    | ready =>
      cases h
      exact ⟨_, .next .refl hstep⟩

end Machine

/-- **The machine runs threads as the emulator does.** When `run_next` starts a thread and its
    `resume` returns, whatever the times of its calls, the machine gets by its steps to the same
    emulator, kernel and thread. -/
theorem resume_path {rng : Nat → UInt32} {ticks : UInt64 → UInt64} {M : Type} [MemoryMap M]
    {mem : M} {C : Type} [HLECode C] {s : Machine C} {fuel : Nat} {k : Kernel}
    {t : ThreadIndex} {payload : ThreadResume} {code code' : ThreadCode C}
    {runs : List ExecutorRun} {times : List UInt64} {g' : DynarmicGuest} (hinside : s.inside = none)
    (hcurrent : s.guest.kernel.current = none)
    (hrun : s.guest.kernel.runNext = .ret (some (t, payload), k))
    (hcode : s.threads t = some code)
    (h : code.resume rng fuel ticks mem payload runs times { s.guest with kernel := k } =
      .ret (code', g')) :
    ∃ tr, Path (machine rng ticks mem C) s tr (s.ran t code' g') := by
  have hcan : MachineStep.start.enabled s = true := by
    unfold MachineStep.enabled
    rw [hinside, hcurrent]
    rfl
  cases code with
  | guest thread =>
    obtain ⟨⟨thread', g⟩, h, hret⟩ := bind_eq_ret.mp h
    cases hret
    obtain ⟨cells, hcopy, h⟩ := bind_eq_ret.mp h
    obtain ⟨guest, hguest, h⟩ := bind_eq_ret.mp h
    cases h
    obtain ⟨guest1, hresume, hloop⟩ := bind_eq_ret.mp hguest
    have hstep : (machine rng ticks mem C).step s .start
        { s with guest := guest1, inside := some t } := by
      refine ⟨hcan, fuel, bind_eq_ret.mpr ⟨_, hrun, ?_⟩⟩
      unfold Machine.enter
      dsimp only
      rw [hcode]
      exact bind_eq_ret.mpr ⟨cells, hcopy, bind_eq_ret.mpr ⟨guest1, hresume, rfl⟩⟩
    obtain ⟨tr, hpath⟩ := Machine.runLoop_path (s := { s with guest := guest1, inside := some t })
      rfl hcode hloop
    exact ⟨_, hpath.head hstep⟩
  | hle thread =>
    obtain ⟨⟨thread', k'⟩, hpoll, hret⟩ := bind_eq_ret.mp h
    cases hret
    have hstep : (machine rng ticks mem C).step s .start
        { ({ s with guest := { s.guest with kernel := k } } : Machine C).setThread t
          (.hle (thread.resumed payload)) with inside := some t } := by
      refine ⟨hcan, fuel, bind_eq_ret.mpr ⟨_, hrun, ?_⟩⟩
      unfold Machine.enter
      dsimp only
      rw [hcode]
      rfl
    let s1 : Machine C := { s with guest := { s.guest with kernel := k } }
    let s2 : Machine C :=
      { (s1.setThread t (.hle (thread.resumed payload))) with inside := some t }
    have hpolled : ∃ tr, Path (machine rng ticks mem C) s2 tr
        (s2.ran t (.hle thread') { s.guest with kernel := k' }) :=
      Machine.poll_path (s := s2) rfl (Function.update_self ..) rfl (mapPanic_eq_ret.mp hpoll)
    obtain ⟨tr, hpath⟩ := hpolled
    have hthreads : s2.threads = (s.setThread t (.hle (thread.resumed payload))).threads := rfl
    rw [Machine.ran_setThread t _ _ _ hthreads] at hpath
    exact ⟨_, hpath.head hstep⟩

/-- A process with a thread that is ready. -/
def threadKernel : Kernel :=
  { Kernel.new with
    objects := [some (.thread ⟨0, false, []⟩)]
    processes := [⟨0, ObjectTable.new, .hle⟩]
    threads := [CommonThread.new 0 0 0]
    threadBoxes := [(0, true)]
    nextPid := 1
    nextTid := 1 }

def threadMachine : Machine WaitingCode where
  guest := { newMachine.guest with kernel := threadKernel }
  threads := Function.update (fun _ => none) 0 (some (.hle (.new .create)))
  inside := none

/-- The first poll of the future: it makes the event, and is pending. -/
theorem resume_path_wait : ∃ (tr : List (Machine WaitingCode × MachineStep WaitingCode))
    (s' : Machine WaitingCode),
    Path (machine UInt32.ofNat id (⟨16⟩ : FlatMemory) WaitingCode) threadMachine tr s' ∧
      s'.guest.kernel.calling = false := by
  have hresume : (threadKernel.runNext.value?.bind fun started =>
      (((ThreadCode.hle (.new .create) : ThreadCode WaitingCode).resume UInt32.ofNat 4 id
        (⟨16⟩ : FlatMemory) .normal [] [0, 1]
        { threadMachine.guest with kernel := started.2 }).value?.map fun after =>
          (started.1, after.2.kernel.calling))) = some (some (0, .normal), false) := by
    decide +kernel
  obtain ⟨⟨started, k⟩, hnext, hresume⟩ := Option.bind_eq_some_iff.mp hresume
  obtain ⟨⟨code', g'⟩, hafter, hview⟩ := Option.map_eq_some_iff.mp hresume
  obtain ⟨hstarted, hcalling⟩ := Prod.mk.inj hview
  have hstarted : started = some (0, .normal) := hstarted
  subst hstarted
  obtain ⟨tr, hpath⟩ := resume_path (s := threadMachine) rfl rfl (value?_eq_some.mp hnext) rfl
    (value?_eq_some.mp hafter)
  exact ⟨tr, _, hpath, hcalling⟩

end Pomelo
