/-
  Runs of the kernel with their history.

  `wakeSystem` is the kernel with the history that the code does not keep: who went to sleep
  when, and what woke whom. Its `wake` step uses the waker of any suspension at any time, and its
  other steps know nothing of objects and their queues. Here the runs of the whole kernel are
  found among its runs: every primitive is a step of `wakeSystem` (`Traced.Follows.primitive`),
  for the wakers in queues and at hand are those of suspensions that were made, on objects they
  were made for. What holds of all suspensions then holds of those of the kernel
  (`run_isTraced`).
-/
import Pomelo.Hle.WakeKeys
import Pomelo.Kernel.WakeOnce

namespace Pomelo

open Lib Outcome

namespace Traced

/-- The waker is that of a suspension that was made, on an object that it waited on. -/
def Issued (s : Traced) (w : Waker) (o : ObjId) : Prop :=
  ∃ (i : Nat) (suspension : Suspension), s.suspensions[i]? = some suspension ∧
    suspension.waker = w ∧ o ∈ suspension.objects

/-- The history is that of the kernel inside a call. -/
structure Follows (s : Traced) (c : InCall) : Prop where
  kernel : s.kernel = c.kernel
  queued : ∀ o, ∀ w ∈ c.kernel.wakers o, s.Issued w o
  held : ∀ x ∈ c.held, s.Issued x.1 x.2
  sleeps : ∀ suspension ∈ s.suspensions, suspension.SleepsOnNothing

variable {s : Traced} {may : Effects}

section Follows

variable {k k' : Kernel} {held held' : List (Waker × ObjId)}

/-- The history goes on by a step that makes no suspension. -/
theorem Follows.after (h : s.Follows ⟨k, held⟩)
    (hwakers : ∀ o, ∀ w ∈ k'.wakers o, w ∈ k.wakers o ∨ (w, o) ∈ held)
    (hheld : ∀ x ∈ held', x ∈ held ∨ x.1 ∈ k.wakers x.2) :
    (s.after k').Follows ⟨k', held'⟩ where
  kernel := rfl
  queued o w hw := by
    rcases hwakers o w hw with hw | hw
    · exact h.queued o w hw
    · exact h.held _ hw
  held x hx := by
    rcases hheld x hx with hx | hx
    · exact h.held x hx
    · exact h.queued _ _ hx
  sleeps := h.sleeps

/-- A step that adds no waker. -/
theorem Follows.loses (h : s.Follows ⟨k, held⟩) (hwakers : ∀ o, ∀ w ∈ k'.wakers o, w ∈ k.wakers o) :
    (s.after k').Follows ⟨k', held⟩ :=
  h.after (fun o w hw => Or.inl (hwakers o w hw)) fun _ hx => Or.inl hx

/-- A step that leaves the threads as they are. -/
theorem Follows.other (h : s.Follows ⟨k, held⟩) (hindices : k'.indices = k.indices)
    (hsleepers : k'.sleepers = k.sleepers) (hnext : k'.nextTid = k.nextTid)
    (hwakers : ∀ o, ∀ w ∈ k'.wakers o, w ∈ k.wakers o ∨ (w, o) ∈ held)
    (hheld : ∀ x ∈ held', x ∈ held ∨ x.1 ∈ k.wakers x.2) :
    ∃ l s', Step s l s' ∧ s'.wakes = (s.after k').wakes ∧ s'.Follows ⟨k', held'⟩ := by
  have hkernel : s.kernel = k := h.kernel
  refine ⟨.other, s.after k', .other ?_ ?_ ?_, rfl, h.after hwakers hheld⟩
  · rw [hkernel, hindices]
  · rw [hkernel, hsleepers]
  · rw [hkernel, hnext]

end Follows

theorem Issued.suspend {w : Waker} {o : ObjId} (h : s.Issued w o) (k' : Kernel)
    (suspension : Suspension) : ((s.after k').suspend suspension).Issued w o := by
  obtain ⟨i, made, hi, hmade⟩ := h
  refine ⟨i, made, ?_, hmade⟩
  show (s.suspensions ++ [suspension])[i]? = some made
  rw [List.getElem?_append_left (List.getElem?_eq_some_iff.mp hi).1, hi]

/-- **Every primitive is a step of the kernel with its history.** -/
theorem Follows.primitive {c c' : InCall} (h : s.Follows c) (hp : Primitive may c c') :
    ∃ l s', Step s l s' ∧ s'.wakes = (s.after c'.kernel).wakes ∧ s'.Follows c' := by
  have hsame : ∀ o, ∀ w ∈ c.kernel.wakers o, w ∈ c.kernel.wakers o ∨ (w, o) ∈ c.held :=
    fun _ _ hw => Or.inl hw
  have hhas : ∀ x ∈ c.held, x ∈ c.held ∨ x.1 ∈ c.kernel.wakers x.2 := fun _ hx => Or.inl hx
  have hkernel := h.kernel
  cases hp with
  | @change k held o f hf =>
    refine h.other rfl rfl rfl (fun p w hw => ?_) hhas
    obtain ⟨y, hy, hw⟩ := Kernel.mem_wakers.mp hw
    rw [Kernel.object?_modifyObject] at hy
    split at hy
    · rename_i hp
      subst hp
      obtain ⟨x, hx, rfl⟩ := Option.map_eq_some_iff.mp hy
      rcases hf x w hw with hw | hw
      · exact Or.inl (Kernel.mem_wakers.mpr ⟨x, hx, hw⟩)
      · exact Or.inr hw
    · exact Or.inl (Kernel.mem_wakers.mpr ⟨y, hy, hw⟩)
  | make hdata =>
    exact h.other rfl rfl rfl
      (fun _ _ hw => Or.inl (Kernel.mem_wakers_of_append hdata hw)) hhas
  | @pick k held o =>
    refine h.other rfl rfl rfl hsame fun x hx => ?_
    rcases List.mem_append.mp hx with hx | hx
    · obtain ⟨w, hw, rfl⟩ := List.mem_map.mp hx
      exact Or.inr hw
    · exact Or.inl hx
  | forget hsub => exact h.other rfl rfl rfl hsame fun x hx => Or.inl (hsub hx)
  | @wake k k' held w o ok hw hwake =>
    obtain ⟨i, suspension, hi, rfl, _⟩ := h.held _ hw
    have hkernel : s.kernel = k := hkernel
    rw [← hkernel] at hwake
    exact ⟨.wake i o, s.after k', .wake hi hwake, rfl,
      h.loses fun _ _ hw => Kernel.mem_wakers_of_wake (hkernel ▸ hwake) hw⟩
  | @suspend k k' held objects timeout waitType w hs hsleep hsuspend =>
    have hkernel : s.kernel = k := hkernel
    refine ⟨.suspend objects timeout waitType, (s.after k').suspend ⟨w, objects, waitType⟩,
      .suspend (hkernel ▸ hsuspend), rfl, rfl, fun o w' hw' => ?_, fun x hx => ?_,
      fun suspension hsuspension => ?_⟩
    · have hobjects := (suspendThread_view hsuspend).2.2.2
      exact (h.queued o w' (Kernel.mem_wakers_of_view hobjects hw')).suspend _ _
    · rcases List.mem_append.mp hx with hx | hx
      · obtain ⟨o, ho, rfl⟩ := List.mem_map.mp hx
        refine ⟨s.suspensions.length, ⟨w, objects, waitType⟩, ?_, rfl, ho⟩
        show (s.suspensions ++ [_])[s.suspensions.length]? = _
        rw [List.getElem?_append_right (Nat.le_refl _), Nat.sub_self]
        rfl
      · exact (h.held x hx).suspend _ _
    · rcases List.mem_append.mp hsuspension with hold | hnew
      · exact h.sleeps suspension hold
      · rw [List.mem_singleton.mp hnew]
        exact hsleep
  | handles process => exact h.other rfl rfl rfl hsame hhas
  | message _ data hthread =>
    have hview := Kernel.view_setIpcData data hthread
    exact h.other (Kernel.indices_setThread _ _) (congrArg View.sleepers hview) rfl
      (fun _ _ hw => Or.inl (Kernel.mem_wakers_of_view (congrArg View.objects hview) hw)) hhas
  | publish ports interrupts => exact h.other rfl rfl rfl hsame hhas
  | @finish k k' held kobj hs hcalling hfinish =>
    obtain ⟨pid, t, self, hcurrent, hself, hrun⟩ := Kernel.calling_iff.mp hcalling
    have hkernel : s.kernel = k := hkernel
    rw [← hkernel] at hcurrent hself
    refine ⟨.exit, s.after k', .exit hcurrent hself hrun (hkernel ▸ hfinish), rfl,
      h.loses fun _ _ hw => ?_⟩
    obtain ⟨_, _, thread, _, _, _, rfl⟩ := Kernel.finishThread_eq_ret hfinish
    exact hw
  | @timeouts k k' held time htick =>
    have hkernel : s.kernel = k := hkernel
    exact ⟨.tick time, s.after k', .tick (hkernel ▸ htick), rfl,
      h.loses fun _ _ hw => Kernel.mem_wakers_of_timeouts htick hw⟩
  | @born k k' held pid tid kobj hpid hthread =>
    have hkernel : s.kernel = k := hkernel
    exact ⟨.newThread pid, s.after k', .newThread (hkernel ▸ hthread), rfl,
      h.loses fun _ _ hw => Kernel.mem_wakers_of_newThread hthread hw⟩
  | schedule hthread hready => exact h.other rfl rfl rfl hsame hhas

/-- What a history says is as it says, for no thread was woken more than 2^64 - 1 times. -/
structure Counts (s : Traced) : Prop where
  inv : s.Inv
  few : s.FewWakes

/-- A step that wakes only threads with a key left. -/
theorem Counts.step {s s' : Traced} {l : WakeCall} {k' : Kernel} (h : s.Counts)
    (hstep : Step s l s') (hwakes : s'.wakes = (s.after k').wakes)
    (hkeys : ∀ t self, s.kernel.sleepers t = some self →
      self.wakeKey ≠ 0xFFFFFFFFFFFFFFFF ∨
        ∃ self', k'.sleepers t = some self' ∧ self'.wakeKey = self.wakeKey) : s'.Counts where
  inv := h.inv.step h.few hstep
  few t := by
    rw [hwakes]
    show (if t ∈ wokenThreads s.kernel k' then s.wakes t + 1 else s.wakes t) < _
    split
    · rename_i hwoken
      obtain ⟨hmem, hne⟩ := mem_wokenThreads.mp hwoken
      obtain ⟨thread, hthread⟩ := Option.isSome_iff_exists.mp (Kernel.mem_indices.mp hmem)
      have hself : s.kernel.sleepers t = some thread.sleeper := by
        unfold Kernel.sleepers
        rw [hthread]
        rfl
      rcases hkeys t _ hself with hleft | ⟨self', hself', hkey⟩
      · -- the key is the number of wakes so far, and is not the last
        have hlt : s.wakes t < 18446744073709551616 := h.few t
        rw [h.inv.key t _ hself] at hleft
        by_contra hge
        have hlast : s.wakes t = 18446744073709551615 := by omega
        rw [hlast] at hleft
        exact hleft rfl
      · rw [hself, hself', Option.map_some, Option.map_some, hkey] at hne
        exact absurd rfl hne
    · exact h.few t

theorem Counts.primitive {s s' : Traced} {l : WakeCall} {c c' : InCall} (h : s.Counts)
    (hsound : c.Sound) (ht : c.kernel.view.Tidy) (hkernel : s.kernel = c.kernel)
    (hp : Primitive may c c') (hstep : Step s l s')
    (hwakes : s'.wakes = (s.after c'.kernel).wakes) : s'.Counts := by
  refine h.step hstep hwakes fun t self hself => ?_
  rw [hkernel] at hself
  obtain ⟨self', hself', hbecomes⟩ := hsound.becomes ht hp hself
  cases hbecomes with
  | woken hwaiting => exact Or.inl (hsound.waitersRoom t self hself hwaiting)
  | same => exact Or.inr ⟨self, hself', rfl⟩
  | suspended _ _ => exact Or.inr ⟨_, hself', rfl⟩
  | done _ _ => exact Or.inr ⟨_, hself', rfl⟩

theorem Follows.made {k k' : Kernel} {held : List (Waker × ObjId)} (h : s.Follows ⟨k, held⟩)
    (hmade : Made may held k k') : ∃ s', Moves Step (fun _ => True) s s' ∧
      s'.Follows ⟨k', held⟩ ∧
      (InCall.Sound ⟨k, held⟩ → k.view.Tidy → s.Counts → s'.Counts) := by
  have hall : ∀ c c' : InCall, Relation.ReflTransGen (Primitive may) c c' → s.Follows c →
      ∃ s', Moves Step (fun _ => True) s s' ∧ s'.Follows c' ∧
        (c.Sound → c.kernel.view.Tidy → s.Counts → c'.Sound ∧ c'.kernel.view.Tidy ∧ s'.Counts) := by
    intro c c' hsteps hc
    induction hsteps with
    | refl => exact ⟨s, .refl s, hc, fun hsound ht hcounts => ⟨hsound, ht, hcounts⟩⟩
    | tail _ hp ih =>
      obtain ⟨s1, hmoves, hc1, hcounts1⟩ := ih
      obtain ⟨l, s2, hstep, hwakes, hc2⟩ := hc1.primitive hp
      refine ⟨s2, .tail hmoves trivial hstep, hc2, fun hsound ht hcounts => ?_⟩
      obtain ⟨hsound1, ht1, hcounts1⟩ := hcounts1 hsound ht hcounts
      exact ⟨hsound1.primitive ht1 hp, InCall.tidy_primitive ht1 hp,
        hcounts1.primitive hsound1 ht1 hc1.kernel hp hstep hwakes⟩
  obtain ⟨s', hmoves, hfollows, hcounts⟩ := hall _ _ hmade h
  exact ⟨s', hmoves, hfollows, fun hsound ht hs => (hcounts hsound ht hs).2.2⟩

/-! ## Runs -/

variable {rng : Nat → UInt32} {k k' : Kernel} {l : SvcStep}

/-- A step that keeps all keys. -/
theorem Follows.moves_of_keys {l : WakeCall} {s' : Traced} (hstep : Step s l s')
    (hwakes : s'.wakes = (s.after k').wakes) (hfollows : s'.Follows ⟨k', []⟩)
    (hkeys : ∀ t self, s.kernel.sleepers t = some self →
      ∃ self', k'.sleepers t = some self' ∧ self'.wakeKey = self.wakeKey) :
    ∃ s', Moves Step (fun _ => True) s s' ∧ s'.Follows ⟨k', []⟩ ∧ (s.Counts → s'.Counts) :=
  ⟨s', .single trivial hstep, hfollows, fun hcounts =>
    hcounts.step hstep hwakes fun t self hself => Or.inr (hkeys t self hself)⟩

theorem Follows.moves_of_other (h : s.Follows ⟨k, []⟩) (hindices : k'.indices = k.indices)
    (hsleepers : k'.sleepers = k.sleepers) (hnext : k'.nextTid = k.nextTid)
    (hwakers : ∀ o, ∀ w ∈ k'.wakers o, w ∈ k.wakers o) :
    ∃ s', Moves Step (fun _ => True) s s' ∧ s'.Follows ⟨k', []⟩ ∧ (s.Counts → s'.Counts) := by
  have hkernel : s.kernel = k := h.kernel
  obtain ⟨l, s', hstep, hwakes, hs'⟩ := h.other hindices hsleepers hnext
    (fun o w hw => Or.inl (hwakers o w hw)) fun _ hx => Or.inl hx
  exact moves_of_keys hstep hwakes hs' fun t self hself =>
    ⟨self, (congrFun hsleepers t).trans (hkernel ▸ hself), rfl⟩

/-- One thread that keeps its key. -/
theorem keys_of_update {k k' : Kernel} {t : ThreadIndex} {x x' : Sleeper}
    (hx : k.sleepers t = some x) (hkey : x'.wakeKey = x.wakeKey)
    (h : k'.sleepers = Function.update k.sleepers t (some x')) (t' : ThreadIndex) (self : Sleeper)
    (hself : k.sleepers t' = some self) :
    ∃ self', k'.sleepers t' = some self' ∧ self'.wakeKey = self.wakeKey := by
  rw [h]
  by_cases ht : t' = t
  · subst ht
    rw [hx] at hself
    cases hself
    exact ⟨x', Function.update_self .., hkey⟩
  · exact ⟨self, (Function.update_of_ne ht ..).trans hself, rfl⟩

/-- **Every step of the kernel is made of steps of the kernel with its history.** With keys left
    the history still says as it says after it. -/
theorem Follows.step (h : s.Follows ⟨k, []⟩) (ht : k.view.Tidy)
    (hstep : (svcSystem rng).step k l k') :
    ∃ s', Moves Step (fun _ => True) s s' ∧ s'.Follows ⟨k', []⟩ ∧
      (k.Keyed → k.KeysLeft → s.Counts → s'.Counts) := by
  have hkernel : s.kernel = k := h.kernel
  obtain ⟨henabled, fuel, hexec⟩ := hstep
  have hofMade : Made .any [] k k' → ∃ s', Moves Step (fun _ => True) s s' ∧
      s'.Follows ⟨k', []⟩ ∧ (k.Keyed → k.KeysLeft → s.Counts → s'.Counts) := by
    intro hmade
    obtain ⟨s', hmoves, hfollows, hcounts⟩ := h.made hmade
    exact ⟨s', hmoves, hfollows, fun hkeyed hleft =>
      hcounts (InCall.sound_of_keyed hkeyed hleft) ht⟩
  have hofKeys : (∃ s', Moves Step (fun _ => True) s s' ∧ s'.Follows ⟨k', []⟩ ∧
      (s.Counts → s'.Counts)) → ∃ s', Moves Step (fun _ => True) s s' ∧
      s'.Follows ⟨k', []⟩ ∧ (k.Keyed → k.KeysLeft → s.Counts → s'.Counts) := by
    rintro ⟨s', hmoves, hfollows, hcounts⟩
    exact ⟨s', hmoves, hfollows, fun _ _ => hcounts⟩
  cases l with
  | call c => exact hofMade (svcCall_made (fun _ => trivial) (fun _ => trivial) ht henabled hexec)
  | tick time interrupts => exact hofMade (tick_made hexec)
  | runNext =>
    obtain ⟨started, hexec⟩ := liftCall_eq_ret.mp hexec
    have hobjects := Kernel.runNext_objects hexec
    refine hofKeys (Follows.moves_of_keys (.runNext (hkernel ▸ hexec)) rfl
      (h.loses fun _ _ hw => Kernel.mem_wakers_of_view hobjects hw) ?_)
    rw [hkernel]
    rcases (Kernel.runNext_sleepers hexec).2 with hsame | ⟨index, x, hx, _, hupdate⟩
    · exact fun t self hself => ⟨self, (congrFun hsame t).trans hself, rfl⟩
    · refine keys_of_update hx ?_ hupdate
      rfl
  | stop index =>
    have hexec := mapPanic_eq_ret.mp hexec
    have hobjects := Kernel.stopThread_objects hexec
    refine hofKeys (Follows.moves_of_keys (.stop (hkernel ▸ hexec)) rfl
      (h.loses fun _ _ hw => Kernel.mem_wakers_of_view hobjects hw) ?_)
    rw [hkernel]
    obtain ⟨_, pid, tid, x, _, hx, hupdate⟩ := Kernel.stopThread_sleepers hexec
    refine keys_of_update hx ?_ hupdate
    split <;> rfl
  | newProcess process =>
    obtain ⟨pid, hexec⟩ := liftCall_eq_ret.mp hexec
    obtain ⟨nextPid, _, hexec⟩ := bind_eq_ret.mp hexec
    cases hexec
    exact hofKeys (h.moves_of_other rfl rfl rfl fun _ _ hw => hw)
  | newThread pid =>
    obtain ⟨⟨tid, kobj, k1⟩, hnew, hexec⟩ := bind_eq_ret.mp hexec
    cases hexec
    have hnew := mapPanic_eq_ret.mp hnew
    refine hofKeys (Follows.moves_of_keys (.newThread (hkernel ▸ hnew)) rfl
      (h.loses fun _ _ hw => Kernel.mem_wakers_of_newThread hnew hw) fun t self hself => ?_)
    rw [hkernel] at hself
    have hfresh : k.nextTid ∉ k.indices := fun hmem => Nat.lt_irrefl _ (ht.below _ hmem)
    obtain ⟨_, _, _, hnone, hupdate⟩ := Kernel.newThread_sleepers hnew hfresh
    have hne : t ≠ tid := fun heq => by
      rw [heq, hnone] at hself
      cases hself
    exact ⟨self, by rw [hupdate, Function.update_of_ne hne, hself], rfl⟩
  | drop o =>
    cases hexec
    exact hofKeys (h.moves_of_other rfl rfl rfl fun _ _ hw => Kernel.mem_wakers_of_drop hw)

/-- A run of the kernel, and the run with its history that goes through the same kernels. -/
theorem follows_of_run {tr : List (Kernel × SvcStep)} (h : Run (svcSystem rng) tr k) :
    k.view.Tidy ∧ ∃ tr' s, Run wakeSystem tr' s ∧ s.Follows ⟨k, []⟩ ∧
      (tr.map Prod.fst).Sublist (tr'.map fun x => x.1.kernel) ∧
      (EveryStep (fun k _ => k.KeysLeft) tr → s.Counts) := by
  induction h with
  | start hk =>
    have hk : _ = Kernel.new := hk
    subst hk
    have hinit : wakeSystem.init ⟨Kernel.new, [], fun _ => none, fun _ => 0, []⟩ :=
      ⟨rfl, rfl, rfl, rfl, rfl⟩
    refine ⟨View.tidy_new, [], ⟨Kernel.new, [], fun _ => none, fun _ => 0, []⟩,
      .start hinit, ⟨rfl, fun o w hw => ?_, fun x hx => ?_, fun x hx => ?_⟩,
      List.Sublist.refl _, fun _ => ⟨.start hinit, fun _ => Nat.zero_lt_succ _⟩⟩
    · obtain ⟨x, hx, _⟩ := Kernel.mem_wakers.mp hw
      have hx : Objects.at? [] o = some x := hx
      simp [Objects.at?] at hx
    · cases hx
    · cases hx
  | @next tr k k' l hbefore hstep ih =>
    obtain ⟨htidy, tr', s, hrun, hfollows, hsub, hcounts⟩ := ih
    have htidy' := tidy_of_step htidy hstep
    have hkernel : s.kernel = k := hfollows.kernel
    -- a step that does nothing marks the kernel before the step
    obtain ⟨l0, s0, hstep0, hwakes0, hfollows0⟩ := hfollows.other rfl rfl rfl
      (fun _ _ hw => Or.inl hw) fun _ hx => Or.inl hx
    obtain ⟨s', hmoves, hfollows', hcounts'⟩ := hfollows0.step htidy hstep
    obtain ⟨path, hpath⟩ := Path.of_moves (M := wakeSystem) hmoves
    refine ⟨htidy', path ++ (s, l0) :: tr', s', (hrun.next hstep0).append hpath, hfollows', ?_,
      fun hleft => ?_⟩
    · rw [List.map_cons, List.map_append, List.map_cons, hkernel]
      exact (hsub.cons_cons k).trans (List.sublist_append_right _ _)
    · obtain ⟨hnow, hleft⟩ := everyStep_cons.mp hleft
      have hcounts0 : s0.Counts := (hcounts hleft).step hstep0 hwakes0 fun t self hself =>
        Or.inr ⟨self, hkernel ▸ hself, rfl⟩
      exact hcounts' (Kernel.keyed_of_run hbefore hleft).1 hnow hcounts0

end Traced

/-- **The kernel refines the kernel with its history.** Every run of the kernel, whatever its
    calls, goes through the kernels of a run of `wakeSystem`, in this order, such that each waker
    in a queue is that of a suspension made on the object of the queue. If no thread had the last
    key in the run, no thread was woken 2^64 times; then no suspension has been ended twice, and
    a waker in a queue wakes its thread only out of the very suspension that it is of. -/
theorem run_isTraced {rng : Nat → UInt32} {tr : List (Kernel × SvcStep)} {k : Kernel}
    (h : Run (svcSystem rng) tr k) : ∃ tr' s, Run wakeSystem tr' s ∧ s.kernel = k ∧
      (tr.map Prod.fst).Sublist (tr'.map fun x => x.1.kernel) ∧
      (∀ o, ∀ w ∈ k.wakers o, ∃ (i : Nat) (suspension : Suspension),
        s.suspensions[i]? = some suspension ∧ suspension.waker = w ∧ o ∈ suspension.objects) ∧
      (EveryStep (fun k _ => k.KeysLeft) tr → s.FewWakes ∧ s.ended.Nodup ∧
        ∀ o, ∀ w ∈ k.wakers o, ∀ k', w.wake o k = .ret (true, k') →
          ∃ (i : Nat) (suspension : Suspension), s.suspensions[i]? = some suspension ∧
            suspension.waker = w ∧ o ∈ suspension.objects ∧ s.StillIn i suspension) := by
  obtain ⟨_, tr', s, hrun, hfollows, hsub, hcounts⟩ := Traced.follows_of_run h
  have hkernel : s.kernel = k := hfollows.kernel
  refine ⟨tr', s, hrun, hkernel, hsub, hfollows.queued, fun hleft => ?_⟩
  obtain ⟨hinv, hfew⟩ := hcounts hleft
  refine ⟨hfew, hinv.endedOnce, fun o w hw k' hwake => ?_⟩
  obtain ⟨i, suspension, hi, rfl, ho⟩ := hfollows.queued o w hw
  refine ⟨i, suspension, hi, rfl, ho, ?_⟩
  have hwake : suspension.waker.wake o s.kernel = .ret (true, k') := hkernel ▸ hwake
  obtain ⟨_, self, hself, hcase⟩ := Kernel.wake_sleepers hwake
  rcases hcase with ⟨_, hkey, _⟩ | ⟨hfalse, _⟩
  · obtain ⟨self', hself', _, hcur⟩ := hinv.made i suspension hi
    rw [hself] at hself'
    cases hself'
    obtain ⟨hwaiting, _, _, hlast⟩ := hcur (hinv.key_eq hfew hself hkey)
    exact ⟨self, hself, hwaiting, hlast⟩
  · cases hfalse

/-- A thread waits a second time on an object that has a stale waker of it: the one waker wakes
    it, out of the suspension of its own, and the other does not. -/
theorem run_isTraced_stale : ∃ (tr : List (Kernel × SvcStep)) (k : Kernel) (s : Traced),
    Run (svcSystem UInt32.ofNat) tr k ∧ s.kernel = k ∧ k.wakers 2 = [⟨0, 0⟩, ⟨0, 1⟩] ∧
      (∃ k', (⟨0, 0⟩ : Waker).wake 2 k = .ret (false, k')) ∧ s.ended.Nodup ∧
      ∃ (i : Nat) (suspension : Suspension), s.suspensions[i]? = some suspension ∧
        suspension.waker = ⟨0, 1⟩ ∧ s.StillIn i suspension := by
  have hrun : (runAll (keyedStep? UInt32.ofNat 4) Kernel.new
      (twoEvents ++ [.call (.waitSync1 0 (Handle.fromRaw 2) (-1))])).map (fun k =>
      (k.wakers 2, ((⟨0, 0⟩ : Waker).wake 2 k).value?.map Prod.fst,
        ((⟨0, 1⟩ : Waker).wake 2 k).value?.map Prod.fst)) =
      some ([⟨0, 0⟩, ⟨0, 1⟩], some false, some true) := by
    decide +kernel
  obtain ⟨k, hk, hview⟩ := Option.map_eq_some_iff.mp hrun
  obtain ⟨hwakers, hview⟩ := Prod.mk.inj hview
  obtain ⟨hstale, hwakes⟩ := Prod.mk.inj hview
  obtain ⟨⟨_, k1⟩, hstale, rfl⟩ := Option.map_eq_some_iff.mp hstale
  obtain ⟨⟨_, k2⟩, hwakes, rfl⟩ := Option.map_eq_some_iff.mp hwakes
  obtain ⟨tr, htr, hleft⟩ := Run.every_of_runAll (fun _ _ _ hst => step_of_keyedStep? hst)
    (.start (M := svcSystem UInt32.ofNat) rfl) (everyStep_nil _) hk
  obtain ⟨_, s, _, hkernel, _, _, hcounts⟩ := run_isTraced htr
  obtain ⟨_, hnodup, hown⟩ := hcounts hleft
  have hmem : (⟨0, 1⟩ : Waker) ∈ k.wakers 2 := by
    rw [hwakers]
    exact List.mem_cons_of_mem _ List.mem_cons_self
  obtain ⟨i, suspension, hi, hwaker, _, hstill⟩ := hown 2 _ hmem k2 (value?_eq_some.mp hwakes)
  exact ⟨tr, k, s, htr, hkernel, hwakers, ⟨k1, value?_eq_some.mp hstale⟩, hnodup, i, suspension,
    hi, hwaker, hstill⟩

end Pomelo
