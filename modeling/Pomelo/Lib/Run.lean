/-
  Runs of a labelled transition system.

  A run is the list of its steps, each given by the state before it and its label, newest
  first, together with the state it ends in. The rules:

  * `Run.invariant`: what holds at the start and is kept by every step holds at the end.
  * `Run.invariant_of`, `Run.every_of`: the same when only the steps that meet a condition
    keep it.
  * `Run.simulates`: a view that takes steps to steps takes runs to runs.
  * `Run.everyStep_iff`: conditions that agree in the states with an invariant agree on runs.
  * `Run.stable`: what no step undoes holds from then on.
  * `Path.keeps`: what no step of a part of a run undoes holds at its end, if it holds where
    the part begins.
  * `Run.all_iff`: if the steps that meet the condition keep an invariant that implies `P`,
    and a step that does not meet it leads out of `P`, then `P` holds in every state of a
    run exactly when every step of the run meets the condition.
-/

namespace Pomelo.Lib

/-- A labelled transition system: where runs start, and the steps. -/
structure System (σ ℓ : Type) where
  init : σ → Prop
  step : σ → ℓ → σ → Prop

variable {σ ℓ : Type}

/-- `Run M tr s`: a run of `M` with steps `tr` (newest first) that ends in `s`. -/
inductive Run (M : System σ ℓ) : List (σ × ℓ) → σ → Prop where
  | start {s : σ} : M.init s → Run M [] s
  | next {tr : List (σ × ℓ)} {s s' : σ} {l : ℓ} :
      Run M tr s → M.step s l s' → Run M ((s, l) :: tr) s'

variable {M : System σ ℓ}

/-- `C` holds of every step of the run, as a condition on the state before and the label. -/
def EveryStep (C : σ → ℓ → Prop) (tr : List (σ × ℓ)) : Prop :=
  ∀ x ∈ tr, C x.1 x.2

/-- `P` holds in every state the run went through, the last one included. -/
def EveryState (P : σ → Prop) (tr : List (σ × ℓ)) (s : σ) : Prop :=
  P s ∧ ∀ x ∈ tr, P x.1

theorem everyStep_nil (C : σ → ℓ → Prop) : EveryStep C [] := by
  simp [EveryStep]

theorem everyStep_cons {C : σ → ℓ → Prop} {s : σ} {l : ℓ} {tr : List (σ × ℓ)} :
    EveryStep C ((s, l) :: tr) ↔ C s l ∧ EveryStep C tr := by
  simp [EveryStep]

theorem everyState_cons {P : σ → Prop} {s s' : σ} {l : ℓ} {tr : List (σ × ℓ)} :
    EveryState P ((s, l) :: tr) s' ↔ P s' ∧ EveryState P tr s := by
  simp [EveryState]

/-- An invariant kept by the steps that meet `C` holds at the end of a run all of whose
    steps do. -/
theorem Run.invariant_of {I : σ → Prop} {C : σ → ℓ → Prop} (h0 : ∀ s, M.init s → I s)
    (hs : ∀ s l s', I s → C s l → M.step s l s' → I s')
    {tr : List (σ × ℓ)} {s : σ} (h : Run M tr s) (hc : EveryStep C tr) : I s := by
  induction h with
  | start hi => exact h0 _ hi
  | next _ hst ih =>
    obtain ⟨hc1, hc2⟩ := everyStep_cons.mp hc
    exact hs _ _ _ (ih hc2) hc1 hst

/-- When the steps that meet `C` keep an invariant that implies `P`, a run all of whose steps
    do goes through states with `P` only. -/
theorem Run.every_of {I P : σ → Prop} {C : σ → ℓ → Prop} (h0 : ∀ s, M.init s → I s)
    (hs : ∀ s l s', I s → C s l → M.step s l s' → I s') (hP : ∀ s, I s → P s)
    {tr : List (σ × ℓ)} {s : σ} (h : Run M tr s) (hc : EveryStep C tr) :
    EveryState P tr s := by
  induction h with
  | start hi => exact ⟨hP _ (h0 _ hi), by simp⟩
  | @next tr s s' l hr hst ih =>
    have hc' := (everyStep_cons.mp hc).2
    exact everyState_cons.mpr ⟨hP _ ((hr.next hst).invariant_of h0 hs hc), ih hc'⟩

/-- What the steps of a run never undo, once it holds, still holds at the end. -/
theorem Run.stable {I P : σ → Prop} {C : σ → ℓ → Prop} (h0 : ∀ s, M.init s → I s)
    (hs : ∀ s l s', I s → C s l → M.step s l s' → I s')
    (hP : ∀ s l s', I s → C s l → M.step s l s' → P s → P s')
    {tr : List (σ × ℓ)} {s : σ} (h : Run M tr s) (hc : EveryStep C tr) :
    ∀ x ∈ tr, P x.1 → P s := by
  induction h with
  | start _ => simp
  | @next tr s s' l hr hst ih =>
    obtain ⟨hc1, hc2⟩ := everyStep_cons.mp hc
    have hstep := hP s l s' (hr.invariant_of h0 hs hc2) hc1 hst
    intro x hx hp
    rcases List.mem_cons.mp hx with rfl | hx
    · exact hstep hp
    · exact hstep (ih hc2 x hx hp)

/-- An invariant kept by every step holds at the end of every run. -/
theorem Run.invariant {I : σ → Prop} (h0 : ∀ s, M.init s → I s)
    (hs : ∀ s l s', I s → M.step s l s' → I s')
    {tr : List (σ × ℓ)} {s : σ} (h : Run M tr s) : I s :=
  h.invariant_of (C := fun _ _ => True) h0 (fun s l s' hi _ => hs s l s' hi)
    (fun _ _ => trivial)

/-- **Simulation.** When a view takes starts to starts and steps to steps of another system, it
    takes runs to runs. -/
theorem Run.simulates {τ ℓ' : Type} {N : System τ ℓ'} {view : σ → τ} {label : ℓ → ℓ'}
    (h0 : ∀ s, M.init s → N.init (view s))
    (hs : ∀ s l s', M.step s l s' → N.step (view s) (label l) (view s'))
    {tr : List (σ × ℓ)} {s : σ} (h : Run M tr s) :
    Run N (tr.map fun x => (view x.1, label x.2)) (view s) := by
  induction h with
  | start hi => exact .start (h0 _ hi)
  | next _ hst ih => exact ih.next (hs _ _ _ hst)

/-- Conditions on steps that agree in the states with an invariant agree on runs. -/
theorem Run.everyStep_iff {I : σ → Prop} {C D : σ → ℓ → Prop} (h0 : ∀ s, M.init s → I s)
    (hs : ∀ s l s', I s → M.step s l s' → I s') (hCD : ∀ s l, I s → (C s l ↔ D s l))
    {tr : List (σ × ℓ)} {s : σ} (h : Run M tr s) : EveryStep C tr ↔ EveryStep D tr := by
  induction h with
  | start _ => simp [everyStep_nil]
  | @next tr s s' l hr _ ih => rw [everyStep_cons, everyStep_cons, hCD s l (hr.invariant h0 hs), ih]

/-- **Exactness.** When the steps that meet `C` keep an invariant that implies `P`, and a
    step that does not meet `C` ends outside `P`, the runs that stay in `P` are exactly
    those whose steps all meet `C`. -/
theorem Run.all_iff {I P : σ → Prop} {C : σ → ℓ → Prop} (h0 : ∀ s, M.init s → I s)
    (hs : ∀ s l s', I s → C s l → M.step s l s' → I s') (hP : ∀ s, I s → P s)
    (hbad : ∀ s l s', I s → ¬ C s l → M.step s l s' → ¬ P s')
    {tr : List (σ × ℓ)} {s : σ} (h : Run M tr s) :
    EveryState P tr s ↔ EveryStep C tr := by
  induction h with
  | start hi => simp [EveryState, EveryStep, hP _ (h0 _ hi)]
  | @next tr s s' l hr hst ih =>
    rw [everyState_cons, everyStep_cons, ih]
    constructor
    · rintro ⟨hp, hc⟩
      have hi : I s := hr.invariant_of h0 hs hc
      exact ⟨Classical.byContradiction fun hn => hbad _ _ _ hi hn hst hp, hc⟩
    · rintro ⟨hc1, hc⟩
      have hi : I s := hr.invariant_of h0 hs hc
      exact ⟨hP _ (hs _ _ _ hi hc1 hst), hc⟩

/-! ## Parts of runs -/

/-- `Path M s tr s'`: steps `tr` (newest first) that lead from `s` to `s'`. -/
inductive Path (M : System σ ℓ) (s : σ) : List (σ × ℓ) → σ → Prop where
  | refl : Path M s [] s
  | next {tr : List (σ × ℓ)} {s' s'' : σ} {l : ℓ} :
      Path M s tr s' → M.step s' l s'' → Path M s ((s', l) :: tr) s''

theorem everyStep_append {C : σ → ℓ → Prop} {tr tr' : List (σ × ℓ)} :
    EveryStep C (tr ++ tr') ↔ EveryStep C tr ∧ EveryStep C tr' := by
  unfold EveryStep
  rw [List.forall_mem_append]

/-- A step, and then a path. -/
theorem Path.head {tr : List (σ × ℓ)} {s s' s'' : σ} {l : ℓ} (hst : M.step s l s')
    (h : Path M s' tr s'') : Path M s (tr ++ [(s, l)]) s'' := by
  induction h with
  | refl => exact Path.refl.next hst
  | next _ hst' ih => exact ih.next hst'

theorem Path.trans {tr tr' : List (σ × ℓ)} {s s' s'' : σ} (h : Path M s tr s')
    (h' : Path M s' tr' s'') : Path M s (tr' ++ tr) s'' := by
  induction h' with
  | refl => exact h
  | next _ hst ih => exact ih.next hst

/-- A run goes on by a path. -/
theorem Run.append {tr tr' : List (σ × ℓ)} {s s' : σ} (h : Run M tr s) (h' : Path M s tr' s') :
    Run M (tr' ++ tr) s' := by
  induction h' with
  | refl => exact h
  | next _ hst ih => exact ih.next hst

/-- What the steps of a path never undo, where they meet a condition, holds at its end. -/
theorem Path.keeps {I P : σ → Prop} {C : σ → ℓ → Prop}
    (hP : ∀ s l s', I s → C s l → M.step s l s' → P s → P s')
    (hs : ∀ s l s', I s → C s l → M.step s l s' → I s')
    {tr : List (σ × ℓ)} {s s' : σ} (h : Path M s tr s') (hc : EveryStep C tr) (hi : I s)
    (hp : P s) : I s' ∧ P s' := by
  induction h with
  | refl => exact ⟨hi, hp⟩
  | next _ hst ih =>
    obtain ⟨hc1, hc2⟩ := everyStep_cons.mp hc
    obtain ⟨hi', hp'⟩ := ih hc2
    exact ⟨hs _ _ _ hi' hc1 hst, hP _ _ _ hi' hc1 hst hp'⟩

/-- Run a list of labels by a partial step function, oldest first. -/
def runAll (f : σ → ℓ → Option σ) : σ → List ℓ → Option σ
  | s, [] => some s
  | s, l :: ls => (f s l).bind fun s' => runAll f s' ls

theorem runAll_cons {f : σ → ℓ → Option σ} {s s' : σ} {l : ℓ} {ls : List ℓ} :
    runAll f s (l :: ls) = some s' ↔ ∃ t, f s l = some t ∧ runAll f t ls = some s' :=
  Option.bind_eq_some_iff

theorem runAll_nil {f : σ → ℓ → Option σ} {s s' : σ} : runAll f s [] = some s' ↔ s = s' :=
  Option.some_inj

/-- A list of labels that a step function executes is a run of any system whose steps
    include that function's. -/
theorem Run.of_runAll {f : σ → ℓ → Option σ}
    (hf : ∀ s l s', f s l = some s' → M.step s l s') :
    ∀ {ls : List ℓ} {tr : List (σ × ℓ)} {s s' : σ}, Run M tr s → runAll f s ls = some s' →
      ∃ tr', Run M tr' s'
  | [], tr, s, s', h, he => by
    cases he
    exact ⟨tr, h⟩
  | l :: ls, tr, s, s', h, he => by
    obtain ⟨t, ht, he⟩ := Option.bind_eq_some_iff.mp he
    exact Run.of_runAll hf (h.next (hf _ _ _ ht)) he

/-- The same for a step function whose steps meet a condition. -/
theorem Run.every_of_runAll {f : σ → ℓ → Option σ} {C : σ → ℓ → Prop}
    (hf : ∀ s l s', f s l = some s' → M.step s l s' ∧ C s l) :
    ∀ {ls : List ℓ} {tr : List (σ × ℓ)} {s s' : σ}, Run M tr s → EveryStep C tr →
      runAll f s ls = some s' → ∃ tr', Run M tr' s' ∧ EveryStep C tr'
  | [], tr, s, s', h, hc, he => by
    cases he
    exact ⟨tr, h, hc⟩
  | l :: ls, tr, s, s', h, hc, he => by
    obtain ⟨t, ht, he⟩ := Option.bind_eq_some_iff.mp he
    obtain ⟨hstep, hone⟩ := hf _ _ _ ht
    exact Run.every_of_runAll hf (h.next hstep) (everyStep_cons.mpr ⟨hone, hc⟩) he

/-- A list of labels that a step function executes is a path, if its steps are the system's. -/
theorem Path.every_of_runAll {f : σ → ℓ → Option σ} {C : σ → ℓ → Prop}
    (hf : ∀ s l s', f s l = some s' → M.step s l s' ∧ C s l) {s₀ : σ} :
    ∀ {ls : List ℓ} {tr : List (σ × ℓ)} {s s' : σ}, Path M s₀ tr s → EveryStep C tr →
      runAll f s ls = some s' → ∃ tr', Path M s₀ tr' s' ∧ EveryStep C tr'
  | [], tr, s, s', h, hc, he => by
    cases he
    exact ⟨tr, h, hc⟩
  | l :: ls, tr, s, s', h, hc, he => by
    obtain ⟨t, ht, he⟩ := Option.bind_eq_some_iff.mp he
    obtain ⟨hstep, hone⟩ := hf _ _ _ ht
    exact Path.every_of_runAll hf (h.next hstep) (everyStep_cons.mpr ⟨hone, hc⟩) he

end Pomelo.Lib
