/-
  What a thread waits for is what it resumes with.

  A call that puts its thread to sleep leaves a wait behind: its type, the number of objects, and
  whether there is a timeout. Objects that signal and ticks end the wait, whichever comes first,
  and each has its payload (`Wait.endsWith`). A thread that sleeps in a wait has it, or a payload
  that the wait can end with, until it is started (`Kernel.threadIs_of_step`); hence it resumes
  with no other (`GoesToSleep.awaits`, `Kernel.runNext_endsWith`). A thread that is done is never
  started again (`Kernel.runNext_notDone`).
-/
import Pomelo.Hle.Scheduler

namespace Pomelo

open Lib Outcome

/-- The payloads that a wait can end with. -/
def Wait.endsWith (self : Wait) : ThreadResume → Bool
  | .normal => decide (self.waitType ≠ .waitSyncN)
  | .timeoutReached => self.timed && decide (self.waitType ≠ .sleep)
  | .waitSyncN index => decide (self.waitType = .waitSyncN) && decide (index < self.count)

namespace CommonThread

/-- The thread is in the wait, or ready to resume with what the wait has ended with. -/
def Awaits (wait : Wait) (self : CommonThread) : Prop :=
  self.state = .waiting ∧ self.waitType = some wait.waitType ∧
      self.waitObjects.length = wait.count ∧ self.waitTimeout.isSome = wait.timed ∨
    self.state = .ready ∧ wait.endsWith self.resume = true

theorem endsWith_resumeFor {self : CommonThread} {wait : Wait} {reason : ThreadWakeReason}
    {resume : ThreadResume} (htype : self.waitType = some wait.waitType)
    (hcount : self.waitObjects.length = wait.count) (htimed : self.waitTimeout.isSome = wait.timed)
    (hreason : reason = .timeout → self.waitTimeout.isSome)
    (h : self.resumeFor reason = .ret resume) : wait.endsWith resume = true := by
  obtain ⟨waitType, count, timed⟩ := wait
  unfold resumeFor at h
  rw [htype, expect_some, ret_bind] at h
  cases reason with
  | timeout =>
    have htimed : timed = true := htimed.symm.trans (hreason rfl)
    subst htimed
    cases waitType <;> cases h <;> rfl
  | object object =>
    cases waitType with
    | waitSync1 =>
      cases h
      rfl
    | waitSyncN =>
      obtain ⟨index, hindex, h⟩ := bind_eq_ret.mp h
      cases h
      have hlt : index < self.waitObjects.length :=
        (List.findIdx?_eq_some_iff_findIdx_eq.mp (expect_eq_ret.mp hindex)).1
      exact decide_eq_true (hcount ▸ hlt)
    | arbiter =>
      cases h
      rfl
    | sleep => cases h

theorem resting_awaits (wait : Wait) : Resting (Awaits wait) where
  still h hrun := by
    rcases h with ⟨hstate, _⟩ | ⟨hstate, _⟩ <;>
      · rw [hstate] at hrun
        cases hrun
  message _ h := h
  woken h hwaiting hreason hresume := by
    rcases h with ⟨_, htype, hcount, htimed⟩ | ⟨hready, _⟩
    · exact Or.inr ⟨rfl, endsWith_resumeFor htype hcount htimed hreason hresume⟩
    · rw [hready] at hwaiting
      cases hwaiting

def Done (self : CommonThread) : Prop := self.state = .done

theorem resting_done : Resting Done where
  still h hrun := by
    rw [show _ = ThreadState.done from h] at hrun
    cases hrun
  message _ h := h
  woken h hwaiting := by
    rw [show _ = ThreadState.done from h] at hwaiting
    cases hwaiting

end CommonThread

namespace Kernel

variable {k k' : Kernel} {pid : ProcessId} {t : ThreadIndex} {may : Effects}

/-- A thread that exits is done. -/
theorem exitThread_done (h : k.exitThread = .ret k') (hsound : InCall.Sound ⟨k, []⟩)
    (ht : k.view.Tidy) (hcalling : k.calling = true) (hcurrent : k.current = some (pid, t)) :
    k'.ThreadIs t CommonThread.Done := by
  obtain ⟨⟨kobj, k1⟩, hfinish, h⟩ := bind_eq_ret.mp h
  have hstep : Primitive .any ⟨k, []⟩ ⟨k1, []⟩ := .finish trivial hcalling hfinish
  have hsound1 := hsound.primitive ht hstep
  have ht1 := InCall.tidy_primitive ht hstep
  obtain ⟨pid', t', thread, hcurrent', hthread, _, rfl⟩ := finishThread_eq_ret hfinish
  rw [hcurrent] at hcurrent'
  cases hcurrent'
  dsimp only at h
  split at h
  · rename_i self hx
    have hdone : (k.setThread { thread with state := .done }).ThreadIs t CommonThread.Done := by
      refine ⟨{ thread with state := .done }, ?_, rfl⟩
      rw [thread?_setThread, if_pos (thread?_index hthread).symm, hthread]
      rfl
    have hmade : Made .any [] (k.setThread { thread with state := .done }) k' := .of_exit hx h
    exact threadIs_made hdone CommonThread.resting_done hsound1 ht1 hmade
  · cases h

end Kernel

open Kernel in
/-- **A thread that goes to sleep in a wait awaits what the wait can end with**, whether or not
    it is woken in the same call. -/
theorem GoesToSleep.awaits {may : Effects} {wait : Wait} {k k' : Kernel} {pid : ProcessId}
    {t : ThreadIndex} (h : GoesToSleep may [] wait k k')
    (hs : may.sleeps) (hsound : InCall.Sound ⟨k, []⟩) (ht : k.view.Tidy)
    (hcurrent : k.current = some (pid, t)) : k'.ThreadIs t (CommonThread.Awaits wait) := by
  obtain @⟨k1, k2, objects, timeout, w, before, hsleep, hcount, htimed, hsuspend, after⟩ := h
  obtain ⟨hsound1, ht1⟩ := InCall.sound_made hsound ht before
  have hstep : Primitive may ⟨k1, []⟩ ⟨k2, objects.map (w, ·) ++ []⟩ :=
    .suspend hs hsleep hsuspend
  have hsound2 := hsound1.primitive ht1 hstep
  have ht2 := InCall.tidy_primitive ht1 hstep
  obtain ⟨pid', t', thread, hcurrent', hthread, _, _, rfl⟩ := suspendThread_eq_ret hsuspend
  rw [current_made before, hcurrent] at hcurrent'
  cases hcurrent'
  refine threadIs_made ?_ (CommonThread.resting_awaits wait) hsound2 ht2 after
  let slept : CommonThread :=
    { thread with
      waitObjects := objects
      state := .waiting
      waitTimeout := timeout
      waitType := some wait.waitType }
  refine ⟨slept, ?_, Or.inl ⟨rfl, rfl, hcount, htimed⟩⟩
  rw [thread?_setThread, if_pos (thread?_index hthread).symm, hthread]
  rfl

namespace Kernel

variable {k k' : Kernel} {t : ThreadIndex}

/-! ## Threads that are started -/

/-- The thread that `run_next` starts was ready, and resumes with what it has. -/
theorem runNext_ready {payload : ThreadResume} (h : k.runNext = .ret (some (t, payload), k')) :
    k.next.or k.nextThread = some t ∧
      k.ThreadIs t fun thread => thread.state = .ready ∧ thread.resume = payload := by
  unfold runNext at h
  split at h
  · rename_i index hindex
    obtain ⟨⟨resume, k1⟩, hstart, h⟩ := bind_eq_ret.mp h
    cases h
    obtain ⟨thread, hthread, hready, rfl, _⟩ := startThread_eq_ret hstart
    exact ⟨hindex, thread, hthread, hready, rfl⟩
  · cases h

theorem runNext_endsWith {payload : ThreadResume} {wait : Wait}
    (h : k.runNext = .ret (some (t, payload), k'))
    (hawaits : k.ThreadIs t (CommonThread.Awaits wait)) : wait.endsWith payload = true := by
  obtain ⟨_, thread, hthread, hready, rfl⟩ := runNext_ready h
  obtain ⟨other, hother, hcase⟩ := hawaits
  rw [hthread] at hother
  cases hother
  rcases hcase with ⟨hwaiting, _⟩ | ⟨_, hends⟩
  · rw [hready] at hwaiting
    cases hwaiting
  · exact hends

theorem runNext_notDone {payload : ThreadResume} (h : k.runNext = .ret (some (t, payload), k')) :
    ¬ k.ThreadIs t CommonThread.Done := by
  rintro ⟨other, hother, hdone⟩
  obtain ⟨_, thread, hthread, hready, _⟩ := runNext_ready h
  rw [hthread] at hother
  cases hother
  rw [show _ = ThreadState.done from hdone] at hready
  cases hready

end Kernel

end Pomelo
