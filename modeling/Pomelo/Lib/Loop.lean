/-
  While loops in `Outcome`, on fuel.

  `whileLoop guard body` runs the body as long as the guard holds. `LoopVisits guard body s t`
  says that the loop from `s` comes to test its guard in `t`, so a fact about every iteration
  is a fact about the visited states whose guard holds. The rules are those of any loop: an
  invariant holds in each visited state (`LoopVisits.invariant`), and a rank that each
  iteration lowers makes the loop end (`whileLoop_ne_diverge`).
-/
import Pomelo.Lib.Outcome

namespace Pomelo.Lib

variable {ε σ : Type}

/-- `while guard s { body }`, for at most `fuel` tests of the guard. -/
def whileLoop (guard : σ → Bool) (body : σ → Outcome ε σ) : Nat → σ → Outcome ε σ
  | 0, _ => .diverge
  | fuel + 1, s => if guard s then body s >>= whileLoop guard body fuel else .ret s

/-- The loop from `s` comes to test its guard in a state. -/
inductive LoopVisits (guard : σ → Bool) (body : σ → Outcome ε σ) (s : σ) : σ → Prop where
  | start : LoopVisits guard body s s
  | next {t t' : σ} (h : LoopVisits guard body s t) (hg : guard t = true)
      (hb : body t = .ret t') : LoopVisits guard body s t'

variable {guard : σ → Bool} {body : σ → Outcome ε σ} {s t : σ}

theorem whileLoop_of_guard (fuel : Nat) (hg : guard s = true) :
    whileLoop guard body (fuel + 1) s = body s >>= whileLoop guard body fuel := by
  rw [whileLoop, if_pos hg]

theorem whileLoop_of_not_guard (fuel : Nat) (hg : guard s = false) :
    whileLoop guard body (fuel + 1) s = .ret s := by
  rw [whileLoop, hg, if_neg Bool.false_ne_true]

/-- What the state after one iteration visits, the loop visits. -/
theorem LoopVisits.of_next {s' : σ} (hg : guard s = true) (hb : body s = .ret s')
    (h : LoopVisits guard body s' t) : LoopVisits guard body s t := by
  induction h with
  | start => exact .next .start hg hb
  | next _ hg' hb' ih => exact .next ih hg' hb'

theorem LoopVisits.invariant {I : σ → Prop} (h0 : I s)
    (hstep : ∀ t t', I t → guard t = true → body t = .ret t' → I t')
    (h : LoopVisits guard body s t) : I t := by
  induction h with
  | start => exact h0
  | next _ hg hb ih => exact hstep _ _ ih hg hb

/-- A loop ends when every iteration ends and lowers a rank. -/
theorem whileLoop_ne_diverge (rank : σ → Nat) {fuel : Nat} (hfuel : rank s < fuel)
    (hbody : ∀ t, LoopVisits guard body s t → guard t = true → body t ≠ .diverge)
    (hrank : ∀ t t', LoopVisits guard body s t → guard t = true → body t = .ret t' →
      rank t' < rank t) :
    whileLoop guard body fuel s ≠ .diverge := by
  induction fuel generalizing s with
  | zero => exact absurd hfuel (Nat.not_lt_zero _)
  | succ fuel ih =>
    cases hg : guard s with
    | false =>
      rw [whileLoop_of_not_guard fuel hg]
      exact Outcome.ret_ne_diverge s
    | true =>
      rw [whileLoop_of_guard fuel hg]
      cases hb : body s with
      | panic e => simp
      | diverge => exact absurd hb (hbody s .start hg)
      | ret s' =>
        have hlt := hrank s s' .start hg hb
        exact ih (by omega) (fun t ht => hbody t (ht.of_next hg hb))
          (fun t t' ht => hrank t t' (ht.of_next hg hb))

/-- A loop whose every iteration leads on to another one and lowers a rank has none. -/
theorem LoopVisits.not_guard (rank : σ → Nat) {P : σ → Prop}
    (hstep : ∀ t, LoopVisits guard body s t → P t → guard t = true →
      ∃ t', body t = .ret t' ∧ P t' ∧ guard t' = true ∧ rank t' < rank t) (hs : P s) :
    guard s = false := by
  have hall : ∀ n t, rank t = n → LoopVisits guard body s t → P t → guard t = false := by
    intro n
    induction n using Nat.strongRecOn with
    | ind n ih =>
      intro t hn ht hP
      cases hg : guard t with
      | false => rfl
      | true =>
        obtain ⟨t', hb, hP', hg', hlt⟩ := hstep t ht hP hg
        rw [ih (rank t') (by omega) t' rfl (ht.next hg hb) hP'] at hg'
        exact hg'.symm
  exact hall (rank s) s rfl .start hs

end Pomelo.Lib
