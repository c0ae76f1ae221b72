/-
  Calls that refine an abstract system step by step.

  A call changes a concrete state; a view of that state is the state of an abstract system,
  whose labelled steps are called moves. `Moves` is a sequence of moves whose labels are all
  allowed. A call refines the system (`Refines`) if, when it returns, the view has made such
  moves, and if, when it panics, it had made such moves to a state that accounts for the panic.

  A run of one system may be made up of the pieces that another makes (`InPieces`), and of the
  steps of a system some may be on record and the others quiet (`Recorded`).

  The rules are `Refines.ret`, `Refines.bind`, `Refines.bind_of` and `Refines.after`. What
  every allowed move keeps then holds of the view after the call (`Refines.keeps`), and a panic
  that no state with it accounts for does not occur (`Refines.no_panic`).
-/
import Pomelo.Lib.Outcome
import Pomelo.Lib.Run

namespace Pomelo.Lib

variable {ν μ : Type} {step : ν → μ → ν → Prop}

/-- Moves with allowed labels, one after the other. -/
inductive Moves (step : ν → μ → ν → Prop) (allowed : μ → Prop) : ν → ν → Prop where
  | refl (v : ν) : Moves step allowed v v
  | tail {v v' v'' : ν} {m : μ} : Moves step allowed v v' → allowed m → step v' m v'' →
      Moves step allowed v v''

namespace Moves

variable {allowed : μ → Prop} {v v' v'' : ν}

theorem of_eq (h : v = v') : Moves step allowed v v' := by
  rw [h]
  exact .refl v'

theorem single {m : μ} (ha : allowed m) (hs : step v m v') : Moves step allowed v v' :=
  .tail (.refl v) ha hs

theorem trans (h : Moves step allowed v v') (h' : Moves step allowed v' v'') :
    Moves step allowed v v'' := by
  induction h' with
  | refl => exact h
  | tail _ ha hs ih => exact .tail ih ha hs

/-- What every allowed move keeps is kept. -/
theorem keeps {I : ν → Prop} (hI : ∀ v m v', I v → allowed m → step v m v' → I v')
    (h : Moves step allowed v v') (hv : I v) : I v' := by
  induction h with
  | refl => exact hv
  | tail _ ha hs ih => exact hI _ _ _ ih ha hs

end Moves

/-- Moves that are steps of a system are a path of it. -/
theorem Path.of_moves {M : System ν μ} {allowed : μ → Prop} {s s' : ν}
    (h : Moves M.step allowed s s') : ∃ tr, Path M s tr s' := by
  induction h with
  | refl => exact ⟨[], .refl⟩
  | tail _ _ hs ih =>
    obtain ⟨tr, h⟩ := ih
    exact ⟨_, h.next hs⟩

/-- A run in pieces: for each step of a run of another system it has a path, with labels that such
    a step makes, from a state seen before the step to one seen after it. -/
inductive InPieces {σ ℓ : Type} (N : System ν μ) (sees : σ → ν → Prop)
    (makes : ℓ → List μ → Prop) : List (σ × ℓ) → σ → List (ν × μ) → ν → Prop where
  | start {s : σ} {v : ν} (h : N.init v) (hsees : sees s v) : InPieces N sees makes [] s [] v
  | next {tr : List (σ × ℓ)} {s s' : σ} {l : ℓ} {tr' path : List (ν × μ)} {v v' : ν}
      (h : InPieces N sees makes tr s tr' v) (hpath : Path N v path v')
      (hmakes : makes l (path.map Prod.snd)) (hsees : sees s' v') :
      InPieces N sees makes ((s, l) :: tr) s' (path ++ tr') v'

/-- The pieces make up a run. -/
theorem InPieces.run {σ ℓ : Type} {N : System ν μ} {sees : σ → ν → Prop}
    {makes : ℓ → List μ → Prop} {tr : List (σ × ℓ)} {s : σ} {tr' : List (ν × μ)} {v : ν}
    (h : InPieces N sees makes tr s tr' v) : Run N tr' v := by
  induction h with
  | start h => exact .start h
  | next _ hpath _ _ ih => exact ih.append hpath

theorem InPieces.seen {σ ℓ : Type} {N : System ν μ} {sees : σ → ν → Prop}
    {makes : ℓ → List μ → Prop} {tr : List (σ × ℓ)} {s : σ} {tr' : List (ν × μ)} {v : ν}
    (h : InPieces N sees makes tr s tr' v) : sees s v := by
  cases h with
  | start _ hsees => exact hsees
  | next _ _ _ hsees => exact hsees

/-- A step, with the states before and after it. -/
structure Record (ν μ : Type) where
  before : ν
  label : μ
  after : ν

/-- Steps one after the other, of which those that are not quiet are on record. -/
inductive Recorded (step : ν → μ → ν → Prop) (quiet : μ → Prop) :
    ν → List (Record ν μ) → ν → Prop where
  | nil {v v' : ν} (h : Moves step quiet v v') : Recorded step quiet v [] v'
  | cons {v v' : ν} {r : Record ν μ} {rs : List (Record ν μ)} (h : Moves step quiet v r.before)
      (hstep : step r.before r.label r.after) (hrest : Recorded step quiet r.after rs v') :
      Recorded step quiet v (r :: rs) v'

namespace Recorded

variable {quiet : μ → Prop} {v v' v'' : ν} {rs rs' : List (Record ν μ)}

theorem single {m : μ} (h : step v m v') : Recorded step quiet v [⟨v, m, v'⟩] v' :=
  .cons (.refl v) h (.nil (.refl v'))

/-- Quiet moves, and then more. -/
theorem after (hmoves : Moves step quiet v v') (h : Recorded step quiet v' rs v'') :
    Recorded step quiet v rs v'' := by
  cases h with
  | nil h => exact .nil (hmoves.trans h)
  | cons h hstep hrest => exact .cons (hmoves.trans h) hstep hrest

theorem trans (h : Recorded step quiet v rs v') (h' : Recorded step quiet v' rs' v'') :
    Recorded step quiet v (rs ++ rs') v'' := by
  induction h with
  | nil h => exact .after h h'
  | cons h hstep _ ih => exact .cons h hstep (ih h')

/-- What every step keeps is kept, on record or not. -/
theorem keeps {I : ν → Prop} (hI : ∀ v m v', I v → step v m v' → I v')
    (h : Recorded step quiet v rs v') (hv : I v) : I v' := by
  induction h with
  | nil h => exact h.keeps (fun v m v' hv _ hs => hI v m v' hv hs) hv
  | cons h hstep _ ih =>
    exact ih (hI _ _ _ (h.keeps (fun v m v' hv _ hs => hI v m v' hv hs) hv) hstep)

end Recorded

/-- A call that starts in view `v`, and ends in the view of what it returns. -/
structure Refines {ε α : Type} (step : ν → μ → ν → Prop) (blame : ε → ν → Prop)
    (allowed : μ → Prop) (view : α → ν) (v : ν) (x : Outcome ε α) : Prop where
  returns : ∀ a, x = .ret a → Moves step allowed v (view a)
  panics : ∀ e, x = .panic e → ∃ v', Moves step allowed v v' ∧ blame e v'

namespace Refines

open Outcome

variable {ε α β : Type} {blame : ε → ν → Prop} {allowed : μ → Prop} {view : α → ν} {v : ν}

theorem ret {a : α} (h : Moves step allowed v (view a)) :
    Refines step blame allowed view v (Outcome.ret a) :=
  ⟨fun _ ha => by injection ha with ha; rw [← ha]; exact h, fun _ he => by cases he⟩

theorem panic {e : ε} (h : blame e v) : Refines step blame allowed view v (Outcome.panic e) :=
  ⟨fun _ ha => (by cases ha), fun _ he => ⟨v, .refl v, by injection he with he; rw [← he]; exact h⟩⟩

/-- One call after the other. -/
theorem bind {viewβ : β → ν} {x : Outcome ε α} {f : α → Outcome ε β}
    (hx : Refines step blame allowed view v x)
    (hf : ∀ a, x = .ret a → Refines step blame allowed viewβ (view a) (f a)) :
    Refines step blame allowed viewβ v (x >>= f) := by
  refine ⟨fun b hb => ?_, fun e he => ?_⟩
  · obtain ⟨a, ha, hb⟩ := bind_eq_ret.mp hb
    exact (hx.returns a ha).trans ((hf a ha).returns b hb)
  · rcases bind_eq_panic.mp he with he | ⟨a, ha, he⟩
    · exact hx.panics e he
    · obtain ⟨v', hv', hb⟩ := (hf a ha).panics e he
      exact ⟨v', (hx.returns a ha).trans hv', hb⟩

/-- A call that itself makes no move, and whose panics need no account. -/
theorem bind_of {viewβ : β → ν} {x : Outcome ε α} {f : α → Outcome ε β}
    (hx : ∀ e, x = .panic e → blame e v)
    (hf : ∀ a, x = .ret a → Refines step blame allowed viewβ v (f a)) :
    Refines step blame allowed viewβ v (x >>= f) := by
  have hx' : Refines step blame allowed (fun _ => v) v x :=
    ⟨fun _ _ => .refl v, fun e he => ⟨v, .refl v, hx e he⟩⟩
  exact hx'.bind hf

/-- Moves, and then a call. -/
theorem after {v' : ν} {x : Outcome ε α} (h : Moves step allowed v v')
    (hx : Refines step blame allowed view v' x) : Refines step blame allowed view v x :=
  ⟨fun a ha => h.trans (hx.returns a ha), fun e he => by
    obtain ⟨v'', hv, hb⟩ := hx.panics e he
    exact ⟨v'', h.trans hv, hb⟩⟩

theorem keeps {I : ν → Prop} {x : Outcome ε α} {a : α}
    (hx : Refines step blame allowed view v x)
    (hI : ∀ v m v', I v → allowed m → step v m v' → I v') (hv : I v) (h : x = .ret a) :
    I (view a) :=
  (hx.returns a h).keeps hI hv

theorem no_panic {I : ν → Prop} {x : Outcome ε α} {e : ε}
    (hx : Refines step blame allowed view v x)
    (hI : ∀ v m v', I v → allowed m → step v m v' → I v') (hv : I v)
    (hb : ∀ v', I v' → ¬ blame e v') : x ≠ .panic e := by
  intro h
  obtain ⟨v', hm, hblame⟩ := hx.panics e h
  exact hb v' (hm.keeps hI hv) hblame

end Refines

end Pomelo.Lib
