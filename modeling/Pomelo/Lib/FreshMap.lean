/-
  Finite maps with fresh keys.

  A map starts empty. `insert` puts a value under a key that is not in use, and returns the key;
  `remove` returns what is under a key, and takes it out. An insertion of a run is live when no
  later call removes its key (`LiveAt`). At every moment the keys in use and the live insertions
  correspond one to one, each key to its value (`freshMap_live`).
-/
import Pomelo.Lib.Run
import Mathlib.Logic.Function.Basic
import Mathlib.Data.Set.Finite.Basic

namespace Pomelo.Lib

variable {κ V : Type}

/-- A call, with what it returns. -/
inductive MapCall (κ V : Type) where
  | insert (v : V) (k : κ)
  | lookup (k : κ) (found : Option V)
  | remove (k : κ) (found : Option V)

def freshMap (κ V : Type) [DecidableEq κ] : System (κ → Option V) (MapCall κ V) where
  init m := m = fun _ => none
  step m call m' := match call with
    | .insert v k => m k = none ∧ m' = Function.update m k (some v)
    | .lookup k found => found = m k ∧ m' = m
    | .remove k found => found = m k ∧ m' = Function.update m k none

/-- The call at time `t` put `v` under `k`, and no later one has removed `k`. The calls are
    newest first. -/
def LiveAt (calls : List (MapCall κ V)) (t : Nat) (v : V) (k : κ) : Prop :=
  ∃ later earlier, calls = later ++ .insert v k :: earlier ∧ earlier.length = t ∧
    ∀ found, .remove k found ∉ later

section LiveAt

variable {calls : List (MapCall κ V)} {c : MapCall κ V} {t : Nat} {v v' : V} {k k' : κ}

theorem liveAt_cons : LiveAt (c :: calls) t v k ↔
    c = .insert v k ∧ t = calls.length ∨
      LiveAt calls t v k ∧ ∀ found, c ≠ .remove k found := by
  constructor
  · rintro ⟨later, earlier, hcalls, hlength, hnot⟩
    cases later with
    | nil =>
      obtain ⟨rfl, rfl⟩ := List.cons.inj hcalls
      exact Or.inl ⟨rfl, hlength.symm⟩
    | cons d later =>
      obtain ⟨rfl, hrest⟩ := List.cons.inj hcalls
      refine Or.inr ⟨⟨later, earlier, hrest, hlength, fun found hmem => ?_⟩, fun found hc => ?_⟩
      · exact hnot found (List.mem_cons_of_mem _ hmem)
      · exact hnot found (by rw [hc]; exact List.mem_cons_self)
  · rintro (⟨rfl, rfl⟩ | ⟨⟨later, earlier, rfl, hlength, hnot⟩, hc⟩)
    · exact ⟨[], calls, rfl, rfl, fun _ => List.not_mem_nil⟩
    · refine ⟨c :: later, earlier, rfl, hlength, fun found hmem => ?_⟩
      rcases List.mem_cons.mp hmem with heq | hmem
      · exact hc found heq.symm
      · exact hnot found hmem

theorem LiveAt.lt_length (h : LiveAt calls t v k) : t < calls.length := by
  obtain ⟨later, earlier, rfl, rfl, -⟩ := h
  rw [List.length_append, List.length_cons]
  omega

/-- The call at one time is one call. -/
theorem liveAt_unique (h : LiveAt calls t v k) (h' : LiveAt calls t v' k') : k = k' ∧ v = v' := by
  induction calls with
  | nil =>
    obtain ⟨later, earlier, hcalls, -⟩ := h
    simp at hcalls
  | cons c calls ih =>
    rcases liveAt_cons.mp h with ⟨hc, ht⟩ | ⟨h, -⟩ <;>
      rcases liveAt_cons.mp h' with ⟨hc', ht'⟩ | ⟨h', -⟩
    · rw [hc] at hc'
      injection hc' with hv hk
      exact ⟨hk, hv⟩
    · exact absurd h'.lt_length (by omega)
    · exact absurd h.lt_length (by omega)
    · exact ih h h'

end LiveAt

/-- The keys in use and the live insertions correspond one to one. -/
structure OneToOne (calls : List (MapCall κ V)) (m : κ → Option V) : Prop where
  /-- A key has the value of the live insertion under it. -/
  value_iff : ∀ k v, m k = some v ↔ ∃ t, LiveAt calls t v k
  /-- Two live insertions have two keys, -/
  time_unique : ∀ k t t' v v', LiveAt calls t v k → LiveAt calls t' v' k → t = t'
  /-- and an insertion has one key. -/
  key_unique : ∀ t k k' v v', LiveAt calls t v k → LiveAt calls t v' k' → k = k' ∧ v = v'

variable [DecidableEq κ]

/-- One call keeps the correspondence. -/
theorem OneToOne.step {calls : List (MapCall κ V)} {m m' : κ → Option V} {c : MapCall κ V}
    (h : OneToOne calls m) (hstep : (freshMap κ V).step m c m') : OneToOne (c :: calls) m' := by
  have hdead : ∀ {k}, m k = none → ∀ {t v}, ¬ LiveAt calls t v k := by
    intro k hk t v hlive
    rw [(h.value_iff k v).mpr ⟨t, hlive⟩] at hk
    cases hk
  refine ⟨fun k w => ?_, fun k t t' v v' hl hl' => ?_, fun t k k' v v' => liveAt_unique⟩
  · cases c with
    | insert v k₀ =>
      obtain ⟨hfree, rfl⟩ := hstep
      by_cases hk : k = k₀
      · rw [hk, Function.update_self]
        constructor
        · intro hv
          rw [← Option.some.inj hv]
          exact ⟨calls.length, liveAt_cons.mpr (Or.inl ⟨rfl, rfl⟩)⟩
        · rintro ⟨t, hlive⟩
          rcases liveAt_cons.mp hlive with ⟨heq, -⟩ | ⟨hlive, -⟩
          · injection heq with hv
            rw [hv]
          · exact absurd hlive (hdead hfree)
      · rw [Function.update_of_ne hk, h.value_iff]
        refine exists_congr fun t => ?_
        rw [liveAt_cons]
        constructor
        · exact fun hlive => Or.inr ⟨hlive, fun _ hc => by cases hc⟩
        · rintro (⟨heq, -⟩ | ⟨hlive, -⟩)
          · injection heq with _ hk'
            exact absurd hk'.symm hk
          · exact hlive
    | lookup k₀ found =>
      obtain ⟨-, rfl⟩ := hstep
      rw [h.value_iff]
      refine exists_congr fun t => ?_
      rw [liveAt_cons]
      simp
    | remove k₀ found =>
      obtain ⟨-, rfl⟩ := hstep
      by_cases hk : k = k₀
      · rw [hk, Function.update_self]
        refine ⟨(fun hv => by cases hv), ?_⟩
        rintro ⟨t, hlive⟩
        rcases liveAt_cons.mp hlive with ⟨hc, -⟩ | ⟨-, hc⟩
        · cases hc
        · exact absurd rfl (hc found)
      · rw [Function.update_of_ne hk, h.value_iff]
        refine exists_congr fun t => ?_
        rw [liveAt_cons]
        have hne : ∀ g, MapCall.remove k₀ found ≠ .remove k g := by
          intro g hg
          injection hg with hk'
          exact hk hk'.symm
        simp [hne]
  · rcases liveAt_cons.mp hl with ⟨hc, ht⟩ | ⟨hl, -⟩ <;>
      rcases liveAt_cons.mp hl' with ⟨hc', ht'⟩ | ⟨hl', -⟩
    · rw [ht, ht']
    · rw [hc] at hstep
      exact absurd hl' (hdead hstep.1)
    · rw [hc'] at hstep
      exact absurd hl (hdead hstep.1)
    · exact h.time_unique k t t' v v' hl hl'

/-- **At every moment of a run, the keys in use and the live insertions correspond one to
    one.** -/
theorem freshMap_live {tr : List ((κ → Option V) × MapCall κ V)} {m : κ → Option V}
    (h : Run (freshMap κ V) tr m) : OneToOne (tr.map Prod.snd) m := by
  induction h with
  | start hi =>
    have hnone : ∀ t v k, ¬ LiveAt ([] : List (MapCall κ V)) t v k := fun t v k hlive =>
      absurd hlive.lt_length (Nat.not_lt_zero t)
    refine ⟨fun k v => ?_, fun k t t' v v' hl => absurd hl (hnone t v k),
      fun t k k' v v' => liveAt_unique⟩
    rw [hi]
    exact ⟨fun hv => by (cases hv), fun ⟨t, hlive⟩ => absurd hlive (hnone t v k)⟩
  | next _ hst ih => exact ih.step hst

/-- Finitely many keys are in use. -/
theorem freshMap_finite {tr : List ((κ → Option V) × MapCall κ V)} {m : κ → Option V}
    (h : Run (freshMap κ V) tr m) : {k | (m k).isSome}.Finite := by
  induction h with
  | start hi =>
    rw [hi]
    simp
  | @next tr m m' c _ hst ih =>
    cases c with
    | insert v k =>
      obtain ⟨-, rfl⟩ := hst
      refine (ih.insert k).subset fun k' hk' => ?_
      by_cases hk : k' = k
      · exact Or.inl hk
      · rw [Set.mem_ofPred_eq, Function.update_of_ne hk] at hk'
        exact Or.inr hk'
    | lookup k found =>
      obtain ⟨-, rfl⟩ := hst
      exact ih
    | remove k found =>
      obtain ⟨-, rfl⟩ := hst
      refine ih.subset fun k' hk' => ?_
      by_cases hk : k' = k
      · rw [Set.mem_ofPred_eq, hk, Function.update_self] at hk'
        cases hk'
      · rw [Set.mem_ofPred_eq, Function.update_of_ne hk] at hk'
        exact hk'

end Pomelo.Lib
