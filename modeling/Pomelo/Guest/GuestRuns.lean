/-
  A guest thread in the machine.

  `guestRuns` is a guest thread with its command buffer, beside a kernel that does what it likes
  but for the thread's slot. Here such runs are found in those of the machine. A turn of the
  thread is a resume, a store into guest memory, a pause, or a step of the kernel; what the step
  is to the thread follows from the kernel and the step (`GuestTurn.label`), and it is one of
  `guestRuns` (`guestTurns`). From where a guest thread has its context, every step of the machine
  is some turns of it: the kernel makes the steps that it makes there, the thread is resumed in a
  start and nowhere else, and it runs while its code is executed (`guest_followed`).
-/
import Pomelo.Guest.Machine
import Pomelo.Guest.Slots

namespace Pomelo

open Lib Outcome

/-! ## Turns -/

inductive GuestTurn where
  | resume
  | store
  | pause
  | kernel (step : SvcStep)

namespace GuestTurn

/-- The step of the kernel, if the turn is one. -/
def step? : GuestTurn → Option SvcStep
  | kernel step => some step
  | _ => none

def call (call : SvcCall) : GuestTurn := kernel (.call call)

/-- What the turn is to the thread: a step of the kernel may translate a message for it, or copy
    its command buffer. -/
def label (tid : ThreadIndex) (k : Kernel) : GuestTurn → GuestLabel
  | resume => .resume
  | store => .store
  | pause => .pause
  | kernel step =>
    if k.messageTo? step = some tid then .translate
    else if k.copies? step = some tid then .commandCopy
    else .other

theorem step?_calls (calls : List SvcCall) :
    (calls.map call).filterMap step? = calls.map .call := by
  induction calls with
  | nil => rfl
  | cons c calls ih =>
    show SvcStep.call c :: (calls.map call).filterMap step? = _
    rw [ih, List.map_cons]

theorem mem_calls {turn : GuestTurn} {calls : List SvcCall} (h : turn ∈ calls.map call) :
    ∃ step, turn = kernel step := by
  obtain ⟨c, _, rfl⟩ := List.mem_map.mp h
  exact ⟨_, rfl⟩

end GuestTurn

/-- The runs of a guest thread whose kernel takes the steps of the kernel. -/
def guestTurns (rng : Nat → UInt32) {M : Type} [Memory M] (mem : M) (tls : Nat)
    (tid : ThreadIndex) : System GuestState GuestTurn where
  init := (guestRuns mem tls tid).init
  step g turn g' := (guestRuns mem tls tid).step g (turn.label tid g.kernel) g' ∧
    ∀ step, turn.step? = some step → (svcSystem rng).step g.kernel step g'.kernel

theorem guestRuns_of_guestTurns {rng : Nat → UInt32} {M : Type} [Memory M] {mem : M} {tls : Nat}
    {tid : ThreadIndex} {tr : List (GuestState × GuestTurn)} {g : GuestState}
    (h : Run (guestTurns rng mem tls tid) tr g) :
    Run (guestRuns mem tls tid) (tr.map fun x => (x.1, x.2.label tid x.1.kernel)) g := by
  induction h with
  | start hinit => exact .start hinit
  | next _ hstep ih => exact ih.next hstep.1

section Turned

variable {rng : Nat → UInt32} {M : Type} [Memory M] {mem : M} {tls : Nat} {tid : ThreadIndex}
  {g : GuestState} {turns : List GuestTurn} {k k' : Kernel} {c c' : Cells} {running : Bool}

/-- The thread has taken the turns, newest first, and is then beside this kernel and these cells,
    and running or not. -/
structure Turned (rng : Nat → UInt32) (mem : M) (tls : Nat) (tid : ThreadIndex) (g : GuestState)
    (turns : List GuestTurn) (k : Kernel) (c : Cells) (running : Bool) : Prop where
  taken : ∃ tr g', Path (guestTurns rng mem tls tid) g tr g' ∧ tr.map Prod.snd = turns ∧
    SlotHeld tid g' ∧ g'.kernel = k ∧ g'.cells = c ∧ g'.running = running

namespace Turned

theorem refl (hheld : SlotHeld tid g) : Turned rng mem tls tid g [] g.kernel g.cells g.running :=
  ⟨[], g, .refl, rfl, hheld, rfl, rfl, rfl⟩

theorem store (h : Turned rng mem tls tid g turns k c running) (c' : Cells) :
    Turned rng mem tls tid g (.store :: turns) k c' running := by
  obtain ⟨tr, g1, hpath, rfl, hheld, rfl, rfl, rfl⟩ := h.taken
  have hstep : (guestTurns rng mem tls tid).step g1 .store { g1 with cells := c' } :=
    ⟨⟨c', rfl⟩, fun _ hstep => by cases hstep⟩
  exact ⟨_, _, hpath.next hstep, rfl, ⟨hheld.length, hheld.held, hheld.idle⟩, rfl, rfl, rfl⟩

theorem resume (hmem : ReadsBack mem) (h : Turned rng mem tls tid g turns k c false)
    {pid : ProcessId} (hcurrent : k.current = some (pid, tid))
    (hcopy : resumeCopy mem tls k c = .ret c') {buffer : List UInt8}
    (hread : readBuffer mem tls c' = .ret buffer) :
    Turned rng mem tls tid g (.resume :: turns) k c' true := by
  obtain ⟨tr, g1, hpath, rfl, hheld, rfl, rfl, hrun⟩ := h.taken
  have hstep : (guestTurns rng mem tls tid).step g1 .resume
      { g1 with
        cells := c'
        running := true
        pause := none
        found := foundAfter g1.pause buffer g1.found } :=
    ⟨⟨hrun, ⟨pid, hcurrent⟩, c', buffer, hcopy, hread, rfl⟩, fun _ hstep => by cases hstep⟩
  exact ⟨_, _, hpath.next hstep, rfl, hheld.step hmem hstep.1, rfl, rfl, rfl⟩

theorem pause (hmem : ReadsBack mem) (h : Turned rng mem tls tid g turns k c true)
    {buffer : List UInt8} (hread : readBuffer mem tls c = .ret buffer) :
    Turned rng mem tls tid g (.pause :: turns) k c false := by
  obtain ⟨tr, g1, hpath, rfl, hheld, rfl, rfl, hrun⟩ := h.taken
  obtain ⟨slot, hslot, _⟩ := hheld.length
  have hstep : (guestTurns rng mem tls tid).step g1 .pause
      { g1 with
        running := false
        pause := some { buffer := buffer, slot := slot, translated := false } } :=
    ⟨⟨hrun, buffer, slot, hread, hslot, rfl⟩, fun _ hstep => by cases hstep⟩
  exact ⟨_, _, hpath.next hstep, rfl, hheld.step hmem hstep.1, rfl, rfl, rfl⟩

/-- A step of the kernel. A command buffer that it copies for the thread is the thread's own. -/
theorem kernel (hmem : ReadsBack mem) (h : Turned rng mem tls tid g turns k c running)
    {l : SvcStep} (ht : k.view.Tidy) (hstep : (svcSystem rng).step k l k')
    (hcopied : ∀ data, l = .call (.setThreadIpcData data) → k.copies? l = some tid →
      running = true ∧ readBuffer mem tls c = .ret data) :
    Turned rng mem tls tid g (.kernel l :: turns) k' c running := by
  obtain ⟨tr, g1, hpath, rfl, hheld, rfl, rfl, rfl⟩ := h.taken
  obtain ⟨slot, hslot, hlen⟩ := hheld.length
  have htaken : ∀ g2 : GuestState, g2.kernel = k' → g2.cells = g1.cells →
      g2.running = g1.running →
      (guestRuns mem tls tid).step g1 (GuestTurn.label tid g1.kernel (.kernel l)) g2 →
      Turned rng mem tls tid g (.kernel l :: tr.map Prod.snd) k' g1.cells g1.running := by
    intro g2 hkernel hcells hrun hguest
    have hturn : (guestTurns rng mem tls tid).step g1 (.kernel l) g2 := by
      refine ⟨hguest, fun step heq => ?_⟩
      cases heq
      rw [hkernel]
      exact hstep
    exact ⟨_, _, hpath.next hturn, rfl, hheld.step hmem hguest, hkernel, hcells, hrun⟩
  unfold GuestTurn.label at htaken
  dsimp only at htaken
  by_cases hmessage : g1.kernel.messageTo? l = some tid
  · rw [if_pos hmessage] at htaken
    have hcopy : g1.kernel.copies? l = none := Kernel.copies?_of_messageTo? hmessage
    obtain ⟨data, hdata, hsame⟩ :=
      (Kernel.delivers_of_step ht hcopy hstep).own tid slot hmessage hslot
    exact htaken { g1 with kernel := k', pause := _ } rfl rfl rfl
      ⟨k', data, hdata, hsame.trans hlen, rfl⟩
  · rw [if_neg hmessage] at htaken
    by_cases hcopy : g1.kernel.copies? l = some tid
    · rw [if_pos hcopy] at htaken
      obtain ⟨data, pid, rfl, hcurrent, hset⟩ := Kernel.copies?_eq_some hcopy hstep
      obtain ⟨hrun, hread⟩ := hcopied data rfl hcopy
      exact htaken { g1 with kernel := k' } rfl rfl rfl
        ⟨hrun, ⟨pid, hcurrent⟩, k', bind_eq_ret.mpr ⟨data, hread, hset⟩, rfl⟩
    · rw [if_neg hcopy] at htaken
      have hsame : k'.slot tid = some slot :=
        Kernel.slot_of_step ht hmessage hcopy hstep hslot
      exact htaken { g1 with kernel := k' } rfl rfl rfl ⟨k', hsame.trans hslot.symm, rfl⟩

/-- Calls of the current thread. -/
theorem calls (hmem : ReadsBack mem) (h : Turned rng mem tls tid g turns k c running)
    {path : List (Kernel × SvcStep)} {calls : List SvcCall} (ht : k.view.Tidy)
    (hpath : Path (svcSystem rng) k path k')
    (hlabels : path.map Prod.snd = calls.map SvcStep.call) {pid : ProcessId} {t : ThreadIndex}
    (hcurrent : k.current = some (pid, t))
    (hcopied : t = tid → ∀ data, SvcCall.setThreadIpcData data ∈ calls →
      running = true ∧ readBuffer mem tls c = .ret data) :
    k'.view.Tidy ∧ k'.current = some (pid, t) ∧
      Turned rng mem tls tid g (calls.map GuestTurn.call ++ turns) k' c running := by
  induction hpath generalizing calls with
  | refl =>
    cases List.map_eq_nil_iff.mp hlabels.symm
    exact ⟨ht, hcurrent, h⟩
  | @next path k1 k2 l hpath hstep ih =>
    obtain ⟨call, rest, rfl, rfl, hrest⟩ := List.map_eq_cons_iff.mp hlabels.symm
    obtain ⟨ht1, hcurrent1, h1⟩ := ih hrest.symm fun heq data hmem =>
      hcopied heq data (List.mem_cons_of_mem call hmem)
    refine ⟨tidy_of_step ht1 hstep, (Kernel.current_of_call ht1 hstep).trans hcurrent1,
      h1.kernel hmem ht1 hstep fun data hcall hcopy => ?_⟩
    cases hcall
    have hcopy : k1.current.map Prod.snd = some tid := hcopy
    rw [hcurrent1] at hcopy
    exact hcopied (Option.some.inj hcopy) data List.mem_cons_self

/-- What code of the current thread has done to the kernel. -/
theorem called (hmem : ReadsBack mem) (h : Turned rng mem tls tid g turns k c running)
    {copied : List UInt8 → Prop} {goesOn : Prop} (hcalled : Called rng copied goesOn k k')
    (ht : k.view.Tidy) (hleft : k.KeysLeft) {pid : ProcessId} {t : ThreadIndex}
    (hcurrent : k.current = some (pid, t))
    (hcopied : t = tid → ∀ data, copied data → running = true ∧ readBuffer mem tls c = .ret data) :
    ∃ calls : List SvcCall,
      Turned rng mem tls tid g (calls.map GuestTurn.call ++ turns) k' c running := by
  obtain ⟨calls, hcalls, hbuffers⟩ := hcalled.calls
  obtain ⟨path, hpath, _, hlabels⟩ := hcalls.path ht hleft
  exact ⟨calls.reverse, (h.calls hmem ht hpath hlabels hcurrent fun heq data hdata =>
    hcopied heq data (hbuffers data (List.mem_reverse.mp hdata))).2.2⟩

end Turned

end Turned

/-! ## Steps of the machine -/

def MachineStep.isStart {C : Type} : MachineStep C → Bool
  | start => true
  | _ => false

/-- The turns of a guest thread in a step of the machine, newest first: the kernel makes the steps
    that it makes there, and the thread is resumed in no step but a start, where it does not
    pause. -/
structure MachineStep.Turns {C : Type} (l : MachineStep C) (turns : List GuestTurn) : Prop where
  makes : l.Makes (turns.filterMap GuestTurn.step?)
  resume : GuestTurn.resume ∈ turns → l.isStart = true
  pause : GuestTurn.pause ∈ turns → l.isStart = false

namespace Machine

variable {C : Type}

/-- The guest thread in the machine. It runs while its code is executed. -/
structure Sees (tid : ThreadIndex) (s : Machine C) (g : GuestState) : Prop where
  kernel : g.kernel = s.guest.kernel
  cells : g.cells = s.guest.cells
  running : g.running = true ↔ s.inside = some tid

/-- The thread is a guest thread with its local storage at `tls`. -/
structure Hosts (tls : Nat) (tid : ThreadIndex) (s : Machine C) : Prop where
  thread : ∃ thread, s.threads tid = some (.guest thread) ∧ thread.tls = tls
  inside : s.inside = some tid → s.guest.tls = tls

/-- What a step of the machine is to the guest thread. -/
structure Answers (rng : Nat → UInt32) {M : Type} [Memory M] (mem : M) (tls : Nat)
    (tid : ThreadIndex) (l : MachineStep C) (g : GuestState) (s' : Machine C) : Prop where
  hosts : s'.Hosts tls tid
  turned : ∃ turns, l.Turns turns ∧ Turned rng mem tls tid g turns s'.guest.kernel s'.guest.cells
    (decide (s'.inside = some tid))

section Steps

variable {rng : Nat → UInt32} {ticks : UInt64 → UInt64} {M : Type} [MemoryMap M] {mem : M}
  {s s' : Machine C} {l : MachineStep C} {done : List (Machine C × MachineStep C)}
  {tr : List (Kernel × SvcStep)} {tls : Nat} {tid t : ThreadIndex} {g : GuestState} {fuel : Nat}
  {turns : List GuestTurn} {thread : GuestThread}

theorem Sees.turned (h : s.Sees tid g) (hheld : SlotHeld tid g) :
    Turned rng mem tls tid g [] s.guest.kernel s.guest.cells (decide (s.inside = some tid)) := by
  have hrun : g.running = decide (s.inside = some tid) := by
    rw [Bool.eq_iff_iff, decide_eq_true_eq]
    exact h.running
  rw [← h.kernel, ← h.cells, ← hrun]
  exact .refl hheld

/-! ### Turns in a step -/

theorem turns_nil (hmakes : l.Makes []) : l.Turns [] :=
  ⟨hmakes, fun h => (by cases h), fun h => (by cases h)⟩

theorem turns_store (h : l.Turns turns) : l.Turns (.store :: turns) where
  makes := h.makes
  resume hmem := h.resume (List.mem_of_ne_of_mem (by simp) hmem)
  pause hmem := h.pause (List.mem_of_ne_of_mem (by simp) hmem)

theorem turns_pause (h : l.Turns turns) (hl : l.isStart = false) : l.Turns (.pause :: turns) where
  makes := h.makes
  resume hmem := h.resume (List.mem_of_ne_of_mem (by simp) hmem)
  pause _ := hl

/-- Calls, in a step in which code is executed. -/
theorem turns_calls (calls : List SvcCall) (hmakes : l.Makes (calls.map .call)) :
    l.Turns (calls.map GuestTurn.call) where
  makes := by
    rw [GuestTurn.step?_calls]
    exact hmakes
  resume hmem := by
    obtain ⟨_, heq⟩ := GuestTurn.mem_calls hmem
    cases heq
  pause hmem := by
    obtain ⟨_, heq⟩ := GuestTurn.mem_calls hmem
    cases heq

/-- The turns of a start. -/
theorem turns_start (calls : List SvcCall) {turn : GuestTurn}
    (hturn : turn = .resume ∨ turn = .store) :
    (MachineStep.start : MachineStep C).Turns
      (calls.map GuestTurn.call ++ [turn, .kernel .runNext]) where
  makes := by
    rw [List.filterMap_append, GuestTurn.step?_calls]
    rcases hturn with rfl | rfl <;> exact ⟨calls, rfl⟩
  resume _ := rfl
  pause hmem := by
    rcases List.mem_append.mp hmem with hmem | hmem
    · obtain ⟨_, heq⟩ := GuestTurn.mem_calls hmem
      cases heq
    · rcases hturn with rfl | rfl <;> simp at hmem

/-! ### Threads -/

theorem Hosts.setThread (h : s.Hosts tls tid) (hne : t ≠ tid) (code : ThreadCode C) :
    (s.setThread t code).Hosts tls tid := by
  obtain ⟨thread, hthread, htls⟩ := h.thread
  refine ⟨⟨thread, ?_, htls⟩, h.inside⟩
  show Function.update s.threads t (some code) tid = _
  rw [Function.update_of_ne hne.symm]
  exact hthread

theorem Hosts.tls_eq (h : s.Hosts tls tid) (hthread : s.threads tid = some (.guest thread)) :
    thread.tls = tls := by
  obtain ⟨other, hother, rfl⟩ := h.thread
  have hsame := hthread.symm.trans hother
  cases hsame
  rfl

theorem Hosts.ne_of_hle {future : ThreadHLE C} (h : s.Hosts tls tid)
    (hthread : s.threads t = some (.hle future)) : t ≠ tid := by
  obtain ⟨other, hother, _⟩ := h.thread
  rintro rfl
  rw [hother] at hthread
  cases hthread

/-- The thread that leaves is this one, and pauses, or is another. -/
theorem answers_leave (hmem : ReadsBack mem)
    (hmapped : ∀ c, ∃ buffer, readBuffer mem tls c = .ret buffer) (h : s.Hosts tls tid)
    (hinside : s.inside = some t) (hthread : s.threads t = some (.guest thread))
    {guest : DynarmicGuest} (hturned : Turned rng mem tls tid g turns guest.kernel guest.cells
      (decide (s.inside = some tid)))
    (hturns : l.Turns turns) (hl : l.isStart = false) :
    Answers rng mem tls tid l g (s.leave t thread guest) := by
  by_cases heq : t = tid
  · subst heq
    have htls : thread.tls = tls := h.tls_eq hthread
    obtain ⟨buffer, hread⟩ := hmapped guest.cells
    rw [hinside, decide_eq_true rfl] at hturned
    refine ⟨⟨⟨{ thread with ctx := guest.exec }, Function.update_self .., htls⟩,
      fun hin => (by cases hin)⟩, .pause :: turns, turns_pause hturns hl, ?_⟩
    exact hturned.pause hmem hread
  · have hout : decide (s.inside = some tid) = false := by
      rw [hinside]
      simpa using heq
    rw [hout] at hturned
    have hhosts := h.setThread heq (.guest { thread with ctx := guest.exec })
    exact ⟨⟨hhosts.thread, fun hin => (by cases hin)⟩, turns, hturns, hturned⟩

/-- The machine before the step: the guest thread is in it, and its run begins here. -/
structure Before (rng : Nat → UInt32) (mem : M) (tls : Nat) (tid : ThreadIndex) (s : Machine C)
    (g : GuestState) : Prop where
  hosts : s.Hosts tls tid
  turned : Turned rng mem tls tid g [] s.guest.kernel s.guest.cells (decide (s.inside = some tid))
  left : s.guest.kernel.KeysLeft
  tidy : s.guest.kernel.view.Tidy
  runs : ∀ t, s.inside = some t → ∃ pid self, s.guest.kernel.Runs pid t self

namespace Before

/-! ### The main loop -/

/-- A thread gets its code, which is not this one. -/
theorem create (h : s.Before rng mem tls tid g) (hnew : (s.threads t).isNone = true)
    (code : ThreadCode C) (hmakes : l.Makes []) :
    Answers rng mem tls tid l g (s.setThread t code) := by
  obtain ⟨thread, hthread, _⟩ := h.hosts.thread
  have hne : t ≠ tid := fun heq => by
    rw [heq, hthread] at hnew
    cases hnew
  exact ⟨h.hosts.setThread hne code, [], turns_nil hmakes, h.turned⟩

theorem kernel (hmem : ReadsBack mem) (h : s.Before rng mem tls tid g) {step : SvcStep}
    (henabled : (MachineStep.kernel step : MachineStep C).enabled s = true) {k : Kernel}
    (hexec : step.exec rng fuel s.guest.kernel = .ret k) :
    Answers rng mem tls tid (.kernel step) g { s with guest := { s.guest with kernel := k } } := by
  have hcall : ∀ call, step ≠ .call call := by
    rintro call rfl
    cases henabled
  have hcan : step.enabled s.guest.kernel = true := by
    cases step with
    | call call => exact absurd rfl (hcall call)
    | drop o => exact (Bool.and_eq_true_iff.mp henabled).1
    | _ => rfl
  have hstep : (svcSystem rng).step s.guest.kernel step k := ⟨hcan, fuel, hexec⟩
  have hturned := h.turned.kernel hmem h.tidy hstep fun data heq _ => absurd heq (hcall _)
  refine ⟨⟨h.hosts.thread, h.hosts.inside⟩, [.kernel step], ⟨rfl, fun hmem => ?_, fun hmem => ?_⟩,
    hturned⟩
  · simp at hmem
  · simp at hmem

/-- The thread that is started is resumed, if it is this one. -/
theorem start_guest (hmem : ReadsBack mem)
    (hmapped : ∀ c, ∃ buffer, readBuffer mem tls c = .ret buffer) {k k' : Kernel} {c c' : Cells}
    (hhosts : s.Hosts tls tid) (hthread : s.threads t = some (.guest thread))
    (hturned : Turned rng mem tls tid g [.kernel .runNext] k c false) (ht : k.view.Tidy)
    (hleft : k.KeysLeft) {pid : ProcessId} (hcurrent : k.current = some (pid, t))
    (hcopy : resumeCopy mem thread.tls k c = .ret c')
    (hcalled : Called rng (fun _ => False) True k k') :
    ∃ turns, (MachineStep.start : MachineStep C).Turns turns ∧
      Turned rng mem tls tid g turns k' c' (decide (t = tid)) := by
  have hbegin : ∃ turn, (turn = .resume ∨ turn = .store) ∧
      Turned rng mem tls tid g [turn, .kernel .runNext] k c' (decide (t = tid)) := by
    by_cases heq : t = tid
    · subst heq
      obtain rfl := hhosts.tls_eq hthread
      obtain ⟨buffer, hread⟩ := hmapped c'
      rw [decide_eq_true rfl]
      exact ⟨_, Or.inl rfl, hturned.resume hmem hcurrent hcopy hread⟩
    · rw [decide_eq_false heq]
      exact ⟨_, Or.inr rfl, hturned.store c'⟩
  obtain ⟨turn, hturn, hbegin⟩ := hbegin
  obtain ⟨calls, hcalls⟩ :=
    hbegin.called hmem hcalled ht hleft hcurrent fun _ _ hnone => hnone.elim
  exact ⟨_, turns_start calls hturn, hcalls⟩

theorem start (hmem : ReadsBack mem)
    (hmapped : ∀ c, ∃ buffer, readBuffer mem tls c = .ret buffer) [HLECode C]
    (h : s.Before rng mem tls tid g) (henabled : MachineStep.start.enabled s = true)
    (hexec : MachineStep.start.exec rng fuel ticks mem s = .ret s') :
    Answers rng mem tls tid .start g s' := by
  have hout : s.inside = none := Option.isNone_iff_eq_none.mp (Bool.and_eq_true_iff.mp henabled).1
  obtain ⟨⟨started, k⟩, hrun, hexec⟩ := bind_eq_ret.mp hexec
  have hstep : (svcSystem rng).step s.guest.kernel .runNext k :=
    ⟨rfl, 0, liftCall_eq_ret.mpr ⟨_, hrun⟩⟩
  have hidle : decide (s.inside = some tid) = false := by simp [hout]
  have hturned := h.turned.kernel hmem h.tidy hstep fun _ heq _ => by cases heq
  rw [hidle] at hturned
  have hnone : (MachineStep.start : MachineStep C).Turns [.kernel .runNext] :=
    ⟨⟨[], rfl⟩, fun _ => rfl, fun hmem => by simp at hmem⟩
  cases started with
  | none =>
    cases hexec
    refine ⟨⟨h.hosts.thread, h.hosts.inside⟩, _, hnone, ?_⟩
    show Turned rng mem tls tid g _ k _ (decide (s.inside = some tid))
    rw [hidle]
    exact hturned
  | some started =>
    obtain ⟨t, payload⟩ := started
    obtain ⟨pid, self, hruns⟩ := runs_of_runNext hrun
    have hcalling : k.calling = true := Kernel.calling_iff.mpr ⟨pid, t, self, hruns⟩
    have ht : k.view.Tidy := tidy_of_step h.tidy hstep
    unfold Machine.enter at hexec
    dsimp only at hexec
    split at hexec
    · rename_i thread hthread
      obtain ⟨c, hcopy, hexec⟩ := bind_eq_ret.mp hexec
      obtain ⟨guest, hresume, hexec⟩ := bind_eq_ret.mp hexec
      cases hexec
      obtain ⟨turns, hturns, hlast⟩ := start_guest hmem hmapped h.hosts hthread hturned ht
        (keysLeft_of_runNext h.left h.tidy hrun) hruns.1 hcopy
        (resumeSvc_called hcalling ht hresume)
      refine ⟨⟨h.hosts.thread, fun hin => ?_⟩, _, turns_store hturns, ?_⟩
      · cases hin
        exact (resumeSvc_tls hresume).trans (h.hosts.tls_eq hthread)
      · have hsome : decide (some t = some tid) = decide (t = tid) := by simp
        show Turned rng mem tls tid g _ _ _ (decide (some t = some tid))
        rw [hsome]
        exact hlast.store guest.cells
    · rename_i future hthread
      cases hexec
      have hne : t ≠ tid := h.hosts.ne_of_hle hthread
      have hhosts := h.hosts.setThread hne (.hle (future.resumed payload))
      refine ⟨⟨hhosts.thread, fun hin => absurd (Option.some.inj hin) hne⟩, _, hnone, ?_⟩
      show Turned rng mem tls tid g _ k _ (decide (some t = some tid))
      rw [decide_eq_false fun heq => hne (Option.some.inj heq)]
      exact hturned
    · cases hexec

/-! ### Code -/

/-- A supervisor call of a guest thread: if it is this one, a buffer that is copied is its own. -/
theorem svc (hmem : ReadsBack mem)
    (hmapped : ∀ c, ∃ buffer, readBuffer mem tls c = .ret buffer) [HLECode C]
    (h : s.Before rng mem tls tid g) {code : GuestCode} {time : UInt64}
    (hexec : (MachineStep.svc code time).exec rng fuel ticks mem s = .ret s') :
    Answers rng mem tls tid (.svc code time) g s' := by
  obtain ⟨t, hinside, hexec⟩ := bind_eq_ret.mp hexec
  have hinside : s.inside = some t := expect_eq_ret.mp hinside
  split at hexec
  · rename_i thread hthread
    obtain ⟨⟨result, guest⟩, hsvc, hexec⟩ := bind_eq_ret.mp hexec
    obtain ⟨⟨result', regs, cells, k'⟩, hhandle, hsvc⟩ := bind_eq_ret.mp hsvc
    cases hsvc
    obtain ⟨pid, self, hruns⟩ := h.runs t hinside
    have hcalling : s.guest.kernel.calling = true :=
      Kernel.calling_iff.mpr ⟨pid, t, self, hruns⟩
    have hcalled := (HandleSvc.handleSvc_spec hcalling h.tidy hhandle).called
    have hexecuted := h.turned.store (s.guest.execute code).cells
    obtain ⟨calls, hcalls⟩ := hexecuted.called hmem hcalled h.tidy h.left hruns.1
      fun heq data hread => by
        subst heq
        have htls : s.guest.tls = tls := h.hosts.inside hinside
        exact ⟨decide_eq_true hinside, htls ▸ hread⟩
    have hturns : (MachineStep.svc code time : MachineStep C).Turns
        (.store :: (calls.map GuestTurn.call ++ [.store])) := by
      refine turns_store ⟨?_, fun hmem => ?_, fun _ => rfl⟩
      · rw [List.filterMap_append, GuestTurn.step?_calls]
        exact ⟨calls, List.append_nil _⟩
      · rcases List.mem_append.mp hmem with hmem | hmem
        · obtain ⟨_, heq⟩ := GuestTurn.mem_calls hmem
          cases heq
        · simp at hmem
    have hlast := hcalls.store cells
    cases result with
    | continues =>
      cases hexec
      exact ⟨⟨h.hosts.thread, h.hosts.inside⟩, _, hturns, hlast⟩
    | reschedule =>
      cases hexec
      exact answers_leave hmem hmapped h.hosts hinside hthread hlast hturns rfl
  · cases hexec

theorem halt (hmem : ReadsBack mem)
    (hmapped : ∀ c, ∃ buffer, readBuffer mem tls c = .ret buffer) [HLECode C]
    (h : s.Before rng mem tls tid g) {code : GuestCode}
    (hexec : (MachineStep.halt code).exec rng fuel ticks mem s = .ret s') :
    Answers rng mem tls tid (.halt code) g s' := by
  obtain ⟨t, hinside, hexec⟩ := bind_eq_ret.mp hexec
  have hinside : s.inside = some t := expect_eq_ret.mp hinside
  have hturns : (MachineStep.halt code : MachineStep C).Turns [.store] :=
    turns_store (turns_nil rfl)
  have hexecuted := h.turned.store (s.guest.execute code).cells
  split at hexec
  · rename_i thread hthread
    dsimp only at hexec
    split at hexec
    · cases hexec
      exact answers_leave hmem hmapped h.hosts hinside hthread hexecuted hturns rfl
    · cases hexec
      exact ⟨⟨h.hosts.thread, h.hosts.inside⟩, _, hturns, hexecuted⟩
  · cases hexec

/-- A stretch of a poll, of another thread. -/
theorem poll (hmem : ReadsBack mem) [HLECode C] (h : s.Before rng mem tls tid g) {time : UInt64}
    (hexec : (MachineStep.poll time).exec rng fuel ticks mem s = .ret s') :
    Answers rng mem tls tid (.poll time) g s' := by
  obtain ⟨t, hinside, hexec⟩ := bind_eq_ret.mp hexec
  have hinside : s.inside = some t := expect_eq_ret.mp hinside
  split at hexec
  · rename_i future hthread
    obtain ⟨⟨⟨polled, future'⟩, k'⟩, hadvance, hexec⟩ := bind_eq_ret.mp hexec
    cases hexec
    have hne : t ≠ tid := h.hosts.ne_of_hle hthread
    obtain ⟨pid, self, hruns⟩ := h.runs t hinside
    have hcalling : s.guest.kernel.calling = true :=
      Kernel.calling_iff.mpr ⟨pid, t, self, hruns⟩
    have hcalled := (ThreadHLE.advance_stretch hcalling h.tidy (mapPanic_eq_ret.mp hadvance)).called
    obtain ⟨calls, hcalls⟩ := h.turned.called hmem hcalled h.tidy h.left hruns.1
      fun heq => absurd heq hne
    rw [List.append_nil] at hcalls
    have hhosts := h.hosts.setThread hne (.hle future')
    have hout : (if polled = .goesOn then some t else none) ≠ some tid := by
      split
      · exact fun heq => hne (Option.some.inj heq)
      · simp
    refine ⟨⟨hhosts.thread, fun hin => absurd hin hout⟩, _, turns_calls calls ⟨calls, rfl⟩, ?_⟩
    show Turned rng mem tls tid g _ k' _
      (decide ((if polled = .goesOn then some t else none) = some tid))
    rw [decide_eq_false hout]
    rw [hinside, decide_eq_false fun heq => hne (Option.some.inj heq)] at hcalls
    exact hcalls
  · cases hexec

/-- **A step of the machine is turns of the guest thread.** -/
theorem step (hmem : ReadsBack mem)
    (hmapped : ∀ c, ∃ buffer, readBuffer mem tls c = .ret buffer) [HLECode C]
    (h : s.Before rng mem tls tid g) (hstep : (machine rng ticks mem C).step s l s') :
    Answers rng mem tls tid l g s' := by
  obtain ⟨henabled, fuel, hexec⟩ := hstep
  cases l with
  | start => exact h.start hmem hmapped henabled hexec
  | kernel step =>
    obtain ⟨k, hkernel, hexec⟩ := bind_eq_ret.mp hexec
    cases hexec
    exact h.kernel hmem henabled (mapPanic_eq_ret.mp hkernel)
  | createGuest t thread =>
    cases hexec
    exact h.create henabled (.guest thread) rfl
  | createHLE t code =>
    cases hexec
    exact h.create henabled (.hle (.new code)) rfl
  | load cells =>
    cases hexec
    exact ⟨⟨h.hosts.thread, h.hosts.inside⟩, _, turns_store (turns_nil rfl), h.turned.store cells⟩
  | svc code time => exact h.svc hmem hmapped hexec
  | halt code => exact h.halt hmem hmapped hexec
  | poll time => exact h.poll hmem hexec

end Before

end Steps

end Machine

/-! ## Runs -/

/-- **A guest thread in the machine is one of `guestRuns`.** From a point of any run of the machine
    at which a guest thread is not inside, every later step is turns of this thread: its kernel is
    the machine's and makes the steps that it makes there, as long as no thread has been woken 2^64
    times; guest memory is the machine's; and the thread is resumed when its code is entered and
    pauses when it is left. -/
theorem guest_followed {rng : Nat → UInt32} {ticks : UInt64 → UInt64} {M : Type} [MemoryMap M]
    {mem : M} {C : Type} [HLECode C] {tr tr' : List (Machine C × MachineStep C)}
    {s s' : Machine C} {tid : ThreadIndex} {thread : GuestThread} (hmem : ReadsBack mem)
    (hmapped : ∀ c, ∃ buffer, readBuffer mem thread.tls c = .ret buffer)
    (h : Run (machine rng ticks mem C) tr s) (hthread : s.threads tid = some (.guest thread))
    (hout : s.inside ≠ some tid)
    (hslot : ∃ slot, s.guest.kernel.slot tid = some slot ∧ slot.length = 0x100)
    (hpath : Path (machine rng ticks mem C) s tr' s')
    (hleft : EveryStep (fun s _ => s.guest.kernel.KeysLeft) (tr' ++ tr)) :
    ∃ turns g, InPieces (guestTurns rng mem thread.tls tid) (Machine.Sees tid) MachineStep.Turns
        tr' s' turns g ∧
      Run (guestRuns mem thread.tls tid)
        (turns.map fun x => (x.1, x.2.label tid x.1.kernel)) g := by
  have hall : ∃ turns g, InPieces (guestTurns rng mem thread.tls tid) (Machine.Sees tid)
      MachineStep.Turns tr' s' turns g ∧ SlotHeld tid g ∧ s'.Hosts thread.tls tid := by
    induction hpath with
    | refl =>
      let g : GuestState := ⟨s.guest.kernel, s.guest.cells, false, none, none⟩
      have hsees : s.Sees tid g :=
        ⟨rfl, rfl, fun hrun => (by cases hrun), fun hin => absurd hin hout⟩
      exact ⟨[], g, .start ⟨hslot, rfl, rfl, rfl⟩ hsees,
        ⟨hslot, fun p hp => (by cases hp), fun _ => rfl⟩, ⟨thread, hthread, rfl⟩,
        fun hin => absurd hin hout⟩
    | @next tr1 s1 s2 l hpath hstep ih =>
      obtain ⟨hnow, hbefore⟩ := everyStep_cons.mp hleft
      obtain ⟨turns, g, hpieces, hheld, hhosts⟩ := ih hbefore
      obtain ⟨done, hfollows⟩ := Machine.follows_of_run (h.append hpath) hbefore
      have hanswers := Machine.Before.step hmem hmapped
        ⟨hhosts, hpieces.seen.turned hheld, hnow, hfollows.keyed.2, hfollows.inside⟩ hstep
      obtain ⟨labels, hlabels, hturned⟩ := hanswers.turned
      obtain ⟨path, g', hgpath, rfl, hheld', hkernel, hcells, hrun⟩ := hturned.taken
      have hsees : s2.Sees tid g' := ⟨hkernel, hcells, by rw [hrun, decide_eq_true_eq]⟩
      exact ⟨_, g', hpieces.next hgpath hlabels hsees, hheld', hanswers.hosts⟩
  obtain ⟨turns, g, hpieces, _, _⟩ := hall
  exact ⟨turns, g, hpieces, guestRuns_of_guestTurns hpieces.run⟩

end Pomelo
