/-
  The command buffer of a guest thread (`guest/src/lib.rs`).

  The 0x100 bytes at `tls + 0x80` of guest memory have a copy in the thread's `ipc_data` slot of
  the kernel. `SendSyncRequest` and `ReplyAndReceive` copy the buffer into the slot, and every
  resume copies the slot into the buffer, whatever the thread was paused for. So a thread finds
  its buffer as it left it exactly when the slot held the same bytes (`bufferKept_iff`).

  A run of one guest thread is made of its resumes, of stores into guest memory (its own, those
  of a supervisor call and those of other threads), of the copies into the slot, of pauses, of
  messages translated into the slot, and of anything else that happens in the kernel, which
  leaves the slot alone: only `set_thread_ipc_data` and `translate_ipc` write to it
  (`Kernel.delivers_of_step`). A guest thread in the whole machine goes through such runs
  (`guest_followed`). The memory is a parameter, and what is relied on is that it gives back what
  was written (`ReadsBack`).
-/
import Pomelo.Kernel.Calls
import Pomelo.Memory.Basic
import Pomelo.Lib.Run

namespace Pomelo

open Lib

namespace Kernel

/-- The `ipc_data` slot of a thread. -/
def slot (k : Kernel) (tid : ThreadIndex) : Option (List UInt8) :=
  (k.thread? tid).map CommonThread.ipcData

end Kernel

section Copies

variable {M : Type} [Memory M]

/-- The 0x100 bytes of the command buffer. -/
def readBuffer (mem : M) (tls : Nat) (c : Cells) : Exec (List UInt8) := do
  let addr ← addU32 tls 0x80
  Memory.read mem c addr 0x100

/-- `ThreadContext::resume`, before it runs the guest: the slot goes into the buffer. -/
def resumeCopy (mem : M) (tls : Nat) (k : Kernel) (c : Cells) : Exec Cells := do
  let ipcData ← k.getThreadIpcData
  let addr ← addU32 tls 0x80
  Memory.write mem c addr ipcData

/-- `handle_svc`, at the start of `SendSyncRequest` and of `ReplyAndReceive`: the buffer goes
    into the slot. -/
def commandCopy (mem : M) (tls : Nat) (k : Kernel) (c : Cells) : Exec Kernel := do
  let ipcCommand ← readBuffer mem tls c
  k.setThreadIpcData ipcCommand

/-- A memory that gives back what was just written, and as many bytes as are asked for. -/
structure ReadsBack (mem : M) : Prop where
  length : ∀ c addr n bytes, Memory.read mem c addr n = .ret bytes → bytes.length = n
  back : ∀ c addr bytes c', Memory.write mem c addr bytes = .ret c' →
    Memory.read mem c' addr bytes.length = .ret bytes

end Copies

theorem flat_readsBack (mem : FlatMemory) : ReadsBack mem where
  length := by
    intro c addr n bytes h
    injection h with h
    rw [← h, readCells_length]
  back := by
    intro c addr bytes c' h
    injection h with h
    rw [flat_read, ← h, readCells_writeCells]

/-! ## Runs -/

/-- What a pause found: the buffer, the slot, and whether a message was translated into the
    slot since. -/
structure Pause where
  buffer : List UInt8
  slot : List UInt8
  translated : Bool
deriving DecidableEq

/-- A guest thread: the kernel, guest memory, whether the thread runs, its last pause while it
    does not, and the bytes it left and found at its last resume from a pause without a
    message. -/
structure GuestState where
  kernel : Kernel
  cells : Cells
  running : Bool
  pause : Option Pause
  found : Option (List UInt8 × List UInt8)

inductive GuestLabel where
  | resume
  | store
  | commandCopy
  | pause
  | translate
  | other
deriving DecidableEq, Repr

/-- The bytes left at the pause, with those found after it, unless a message came. -/
def foundAfter (pause : Option Pause) (buffer : List UInt8)
    (found : Option (List UInt8 × List UInt8)) : Option (List UInt8 × List UInt8) :=
  match pause with
  | some p => if p.translated then found else some (p.buffer, buffer)
  | none => found

/-- The runs of the guest thread `tid`, whose local storage is at `tls`. -/
def guestRuns {M : Type} [Memory M] (mem : M) (tls : Nat) (tid : ThreadIndex) :
    System GuestState GuestLabel where
  init s := (∃ slot, s.kernel.slot tid = some slot ∧ slot.length = 0x100) ∧
    s.running = false ∧ s.pause = none ∧ s.found = none
  step s l s' :=
    match l with
    | .resume => s.running = false ∧ (∃ pid, s.kernel.current = some (pid, tid)) ∧
        ∃ c buffer, resumeCopy mem tls s.kernel s.cells = .ret c ∧
          readBuffer mem tls c = .ret buffer ∧
          s' = { s with
            cells := c
            running := true
            pause := none
            found := foundAfter s.pause buffer s.found }
    | .store => ∃ c, s' = { s with cells := c }
    | .commandCopy => s.running = true ∧ (∃ pid, s.kernel.current = some (pid, tid)) ∧
        ∃ k, commandCopy mem tls s.kernel s.cells = .ret k ∧ s' = { s with kernel := k }
    | .pause => s.running = true ∧ ∃ buffer slot, readBuffer mem tls s.cells = .ret buffer ∧
        s.kernel.slot tid = some slot ∧
        s' = { s with
          running := false
          pause := some { buffer := buffer, slot := slot, translated := false } }
    | .translate => ∃ k slot, k.slot tid = some slot ∧ slot.length = 0x100 ∧
        s' = { s with
          kernel := k
          pause := s.pause.map fun p => { p with translated := true } }
    | .other => ∃ k, k.slot tid = s.kernel.slot tid ∧ s' = { s with kernel := k }

/-- At the last resume from a pause without a message the thread found what it had left. -/
def BufferKept (s : GuestState) : Prop :=
  ∀ left right, s.found = some (left, right) → right = left

/-- A resume from a pause without a message, at which slot and buffer held the same bytes. -/
def SlotInStep (s : GuestState) : GuestLabel → Prop
  | .resume => ∀ p, s.pause = some p → p.translated = false → p.slot = p.buffer
  | _ => True

/-- The slot has its 0x100 bytes, and since a pause without a message it is what it was. -/
structure SlotHeld (tid : ThreadIndex) (s : GuestState) : Prop where
  length : ∃ slot, s.kernel.slot tid = some slot ∧ slot.length = 0x100
  held : ∀ p, s.pause = some p → p.translated = false → s.kernel.slot tid = some p.slot
  idle : s.running = true → s.pause = none

section Run

variable {M : Type} [Memory M] {mem : M} {tls : Nat} {tid : ThreadIndex} {s s' : GuestState}

/-- What goes on with the current thread goes on with this one. -/
theorem of_currentPidTid {α : Type} {k : Kernel} {pid : ProcessId} {r : α}
    {f : ProcessId × ThreadIndex → Exec α} (hc : k.current = some (pid, tid))
    (h : k.currentPidTid >>= f = .ret r) : f (pid, tid) = .ret r := by
  rw [Kernel.currentPidTid_eq_ret.mpr hc, Outcome.ret_bind] at h
  exact h

theorem getThreadIpcData_eq_ret {k : Kernel} {pid : ProcessId} {data : List UInt8}
    (hc : k.current = some (pid, tid)) (h : k.getThreadIpcData = .ret data) :
    k.slot tid = some data := by
  obtain ⟨thread, hthread, hret⟩ := Outcome.bind_eq_ret.mp (of_currentPidTid hc h)
  injection hret with hret
  unfold Kernel.slot
  rw [Outcome.expect_eq_ret.mp hthread, ← hret]
  rfl

theorem setThreadIpcData_slot {k k' : Kernel} {pid : ProcessId} {data : List UInt8}
    (hc : k.current = some (pid, tid)) (h : k.setThreadIpcData data = .ret k') :
    k'.slot tid = some data := by
  obtain ⟨thread, hthread, hret⟩ := Outcome.bind_eq_ret.mp (of_currentPidTid hc h)
  injection hret with hret
  have hfind := Outcome.expect_eq_ret.mp hthread
  have hindex : thread.index = tid := key_of_findKey hfind
  unfold Kernel.slot
  rw [← hret, Kernel.thread?_setThread, if_pos hindex.symm, hfind]
  rfl

/-- What a resume makes of the buffer: the slot. -/
theorem readBuffer_resumeCopy (hmem : ReadsBack mem) {k : Kernel} {c c' : Cells}
    {slot buffer : List UInt8} {pid : ProcessId} (hc : k.current = some (pid, tid))
    (hs : k.slot tid = some slot) (hlen : slot.length = 0x100)
    (hcopy : resumeCopy mem tls k c = .ret c') (hread : readBuffer mem tls c' = .ret buffer) :
    buffer = slot := by
  unfold resumeCopy at hcopy
  obtain ⟨data, hdata, hcopy⟩ := Outcome.bind_eq_ret.mp hcopy
  obtain ⟨addr, haddr, hwrite⟩ := Outcome.bind_eq_ret.mp hcopy
  have hslot := getThreadIpcData_eq_ret hc hdata
  rw [hs] at hslot
  injection hslot with hslot
  subst hslot
  have hback := hmem.back c addr slot c' hwrite
  unfold readBuffer at hread
  rw [haddr, Outcome.ret_bind, ← hlen, hback] at hread
  injection hread with hread
  exact hread.symm

theorem SlotHeld.step (hmem : ReadsBack mem) {l : GuestLabel} (h : SlotHeld tid s)
    (hstep : (guestRuns mem tls tid).step s l s') : SlotHeld tid s' := by
  cases l with
  | resume =>
    obtain ⟨_, _, c, buffer, _, _, rfl⟩ := hstep
    exact ⟨h.length, fun p hp => (by cases hp), fun _ => rfl⟩
  | store =>
    obtain ⟨c, rfl⟩ := hstep
    exact ⟨h.length, h.held, h.idle⟩
  | commandCopy =>
    obtain ⟨hrun, ⟨pid, hc⟩, k, hcopy, rfl⟩ := hstep
    unfold commandCopy at hcopy
    obtain ⟨data, hread, hset⟩ := Outcome.bind_eq_ret.mp hcopy
    unfold readBuffer at hread
    obtain ⟨addr, _, hread⟩ := Outcome.bind_eq_ret.mp hread
    refine ⟨⟨data, setThreadIpcData_slot hc hset, hmem.length _ _ _ _ hread⟩, ?_, h.idle⟩
    intro p hp
    have hnone := h.idle hrun
    exact absurd (hp.symm.trans hnone) (by simp)
  | pause =>
    obtain ⟨_, buffer, slot, _, hslot, rfl⟩ := hstep
    refine ⟨h.length, fun p hp _ => ?_, fun hrun => (by cases hrun)⟩
    injection hp with hp
    rw [← hp]
    exact hslot
  | translate =>
    obtain ⟨k, slot, hslot, hlen, rfl⟩ := hstep
    refine ⟨⟨slot, hslot, hlen⟩, fun p hp hno => ?_, fun hrun => ?_⟩
    · obtain ⟨q, _, rfl⟩ := Option.map_eq_some_iff.mp hp
      cases hno
    · exact Option.map_eq_none_iff.mpr (h.idle hrun)
  | other =>
    obtain ⟨k, hslot, rfl⟩ := hstep
    refine ⟨?_, fun p hp hno => ?_, h.idle⟩
    · show ∃ slot, k.slot tid = some slot ∧ slot.length = 0x100
      rw [hslot]
      exact h.length
    · show k.slot tid = some p.slot
      rw [hslot]
      exact h.held p hp hno

/-- A resume from a pause without a message puts what the slot held at the pause into the
    buffer. -/
theorem SlotHeld.resume_found (hmem : ReadsBack mem) (h : SlotHeld tid s) {p : Pause}
    (hp : s.pause = some p) (hno : p.translated = false)
    (hstep : (guestRuns mem tls tid).step s .resume s') :
    s'.found = some (p.buffer, p.slot) := by
  obtain ⟨_, ⟨pid, hc⟩, c, buffer, hcopy, hread, rfl⟩ := hstep
  obtain ⟨slot, hslot, hlen⟩ := h.length
  have hheld := h.held p hp hno
  rw [hslot] at hheld
  injection hheld with hheld
  have hbuffer : buffer = slot := readBuffer_resumeCopy hmem hc hslot hlen hcopy hread
  show foundAfter s.pause buffer s.found = _
  rw [hp, foundAfter, if_neg (by rw [hno]; simp), hbuffer, hheld]

/-- Only a resume from a pause without a message changes what was found. -/
theorem found_of_step {l : GuestLabel} (hstep : (guestRuns mem tls tid).step s l s')
    (hl : l = .resume → ∀ p, s.pause = some p → p.translated = true) : s'.found = s.found := by
  cases l with
  | resume =>
    obtain ⟨_, _, c, buffer, _, _, rfl⟩ := hstep
    show foundAfter s.pause buffer s.found = s.found
    unfold foundAfter
    cases hp : s.pause with
    | none => rfl
    | some p =>
      dsimp only
      rw [if_pos (hl rfl p hp)]
  | store =>
    obtain ⟨c, rfl⟩ := hstep
    rfl
  | commandCopy =>
    obtain ⟨_, _, k, _, rfl⟩ := hstep
    rfl
  | pause =>
    obtain ⟨_, buffer, slot, _, _, rfl⟩ := hstep
    rfl
  | translate =>
    obtain ⟨k, slot, _, _, rfl⟩ := hstep
    rfl
  | other =>
    obtain ⟨k, _, rfl⟩ := hstep
    rfl

end Run

/-- **The command buffer across a pause.** In a run of a guest thread, every resume from a pause
    without a message leaves the buffer as the thread left it, exactly when at every such pause
    the kernel's slot held the bytes of the buffer. -/
theorem bufferKept_iff {M : Type} [Memory M] {mem : M} (hmem : ReadsBack mem) (tls : Nat)
    (tid : ThreadIndex) {tr : List (GuestState × GuestLabel)} {s : GuestState}
    (h : Run (guestRuns mem tls tid) tr s) :
    EveryState BufferKept tr s ↔ EveryStep SlotInStep tr := by
  refine h.all_iff (I := fun s => SlotHeld tid s ∧ BufferKept s) ?_ ?_ (fun s hi => hi.2) ?_
  · rintro s ⟨hslot, hrun, hpause, hfound⟩
    refine ⟨⟨hslot, fun p hp => ?_, fun _ => hpause⟩, fun left right hf => ?_⟩
    · rw [hpause] at hp
      cases hp
    · rw [hfound] at hf
      cases hf
  · intro s l s' hi hc hstep
    refine ⟨hi.1.step hmem hstep, ?_⟩
    by_cases hmsg : ∃ p, l = .resume ∧ s.pause = some p ∧ p.translated = false
    · obtain ⟨p, rfl, hp, hno⟩ := hmsg
      intro left right hf
      rw [hi.1.resume_found hmem hp hno hstep] at hf
      injection hf with hf
      obtain ⟨rfl, rfl⟩ := Prod.mk.inj hf
      exact hc p hp hno
    · have hsame : s'.found = s.found := by
        refine found_of_step hstep fun hl p hp => ?_
        by_contra hno
        exact hmsg ⟨p, hl, hp, by simpa using hno⟩
      intro left right hf
      rw [hsame] at hf
      exact hi.2 left right hf
  · intro s l s' hi hc hstep hkept
    cases l with
    | resume =>
      refine hc fun p hp hno => ?_
      exact hkept _ _ (hi.1.resume_found hmem hp hno hstep)
    | store => exact hc trivial
    | commandCopy => exact hc trivial
    | pause => exact hc trivial
    | translate => exact hc trivial
    | other => exact hc trivial

/-! ## A sleep -/

/-- One guest thread, whose slot holds zeros. -/
def guestAt (running : Bool) (c : Cells) (pause : Option Pause)
    (found : Option (List UInt8 × List UInt8)) : GuestState where
  kernel := { Kernel.new with threads := [CommonThread.new 0 0 0], current := some (0, 0) }
  cells := c
  running := running
  pause := pause
  found := found

/-- The cells with the buffer cleared. -/
def cleared (c : Cells) : Cells := writeCells c 0x1080 (List.replicate 256 0)

theorem guestAt_resume (c : Cells) (pause : Option Pause)
    (found : Option (List UInt8 × List UInt8)) :
    (guestRuns (⟨16⟩ : FlatMemory) 0x1000 0).step (guestAt false c pause found) .resume
      (guestAt true (cleared c) none
        (foundAfter pause (readCells (cleared c) 0x1080 256) found)) :=
  ⟨rfl, ⟨0, rfl⟩, _, _, rfl, rfl, rfl⟩

theorem guestAt_pause (c : Cells) (found : Option (List UInt8 × List UInt8)) :
    (guestRuns (⟨16⟩ : FlatMemory) 0x1000 0).step (guestAt true c none found) .pause
      (guestAt false c (some ⟨readCells c 0x1080 256, List.replicate 256 0, false⟩) found) :=
  ⟨rfl, _, _, rfl, rfl, rfl⟩

/-- The thread runs, leaves the buffer of the cells `c`, sleeps and resumes. -/
theorem sleepRun (c : Cells) : ∃ tr s, Run (guestRuns (⟨16⟩ : FlatMemory) 0x1000 0) tr s ∧
    s.found = some (readCells c 0x1080 256, List.replicate 256 0) := by
  have hstart : Run (guestRuns (⟨16⟩ : FlatMemory) 0x1000 0) []
      (guestAt false (fun _ => 0) none none) :=
    .start ⟨⟨List.replicate 256 0, rfl, List.length_replicate⟩, rfl, rfl, rfl⟩
  have hfirst := hstart.next (guestAt_resume _ none none)
  have hstore : (guestRuns (⟨16⟩ : FlatMemory) 0x1000 0).step
      (guestAt true (cleared fun _ => 0) none none) .store (guestAt true c none none) := ⟨c, rfl⟩
  have hlast := ((hfirst.next hstore).next (guestAt_pause c none)).next (guestAt_resume _ _ _)
  refine ⟨_, _, hlast, ?_⟩
  have hback : readCells (cleared c) 0x1080 256 = List.replicate 256 0 := by
    have h := readCells_writeCells c 0x1080 (List.replicate 256 0)
    rw [List.length_replicate] at h
    exact h
  show some (readCells c 0x1080 256, readCells (cleared c) 0x1080 256) = _
  rw [hback]

theorem bufferKept_iff_sleep : ∃ tr s, Run (guestRuns (⟨16⟩ : FlatMemory) 0x1000 0) tr s ∧
    s.found.isSome ∧ (EveryState BufferKept tr s ↔ EveryStep SlotInStep tr) := by
  obtain ⟨tr, s, hrun, hfound⟩ := sleepRun fun _ => 0
  exact ⟨tr, s, hrun, by rw [hfound]; rfl, bufferKept_iff (flat_readsBack ⟨16⟩) 0x1000 0 hrun⟩

/-- The thread leaves ones in its buffer, sleeps, and finds zeros when it resumes. -/
theorem bufferKept_fails :
    ¬ ∀ (mem : FlatMemory) (tls : Nat) (tid : ThreadIndex) (tr : List (GuestState × GuestLabel))
      (s : GuestState), Run (guestRuns mem tls tid) tr s → BufferKept s := by
  intro hall
  obtain ⟨tr, s, hrun, hfound⟩ := sleepRun fun _ => 1
  have hkept := hall _ _ _ _ _ hrun _ _ hfound
  have hhead := congrArg List.head? hkept
  cases hhead

end Pomelo
