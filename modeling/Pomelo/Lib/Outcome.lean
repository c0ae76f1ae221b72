/-
  Outcomes of a call: it returns, it panics, or it has not returned within the given fuel.

  A loop without a bound of its own is modelled by recursion on a fuel argument; `diverge`
  is the outcome of running out. That a call returns means that some fuel gives
  `ret`. `bind_eq_ret` is the rule by which the proofs take a returning call apart, one
  sub-call at a time, without unfolding `bind`.
-/

namespace Pomelo.Lib

/-- What a call does: `ret a` returns `a`, `panic e` unwinds with `e`, `diverge` has not
    returned within the fuel. -/
inductive Outcome (ε α : Type) where
  | ret (a : α)
  | panic (e : ε)
  | diverge
deriving DecidableEq, Repr

namespace Outcome

variable {ε α β : Type}

/-- Run `f` on the value of a returning call; a panic or a divergence stays. -/
def bind : Outcome ε α → (α → Outcome ε β) → Outcome ε β
  | ret a, f => f a
  | panic e, _ => panic e
  | diverge, _ => diverge

instance : Monad (Outcome ε) where
  pure := ret
  bind := bind

@[simp] theorem pure_eq (a : α) : (pure a : Outcome ε α) = ret a := rfl

@[simp] theorem ret_bind (a : α) (f : α → Outcome ε β) : (ret a >>= f) = f a := rfl

@[simp] theorem panic_bind (e : ε) (f : α → Outcome ε β) :
    (panic e >>= f) = panic e := rfl

@[simp] theorem diverge_bind (f : α → Outcome ε β) :
    ((diverge : Outcome ε α) >>= f) = diverge := rfl

theorem bind_assoc {γ : Type} (x : Outcome ε α) (f : α → Outcome ε β) (g : β → Outcome ε γ) :
    (x >>= f >>= g) = x >>= fun a => f a >>= g := by
  cases x <;> rfl

/-- A sequence returns exactly when both parts return. -/
theorem bind_eq_ret {x : Outcome ε α} {f : α → Outcome ε β} {b : β} :
    (x >>= f) = ret b ↔ ∃ a, x = ret a ∧ f a = ret b := by
  cases x with
  | ret a => simp
  | panic e => simp
  | diverge => simp

/-- A sequence panics when the first part does, or returns into a part that does. -/
theorem bind_eq_panic {x : Outcome ε α} {f : α → Outcome ε β} {e : ε} :
    (x >>= f) = panic e ↔ x = panic e ∨ ∃ a, x = ret a ∧ f a = panic e := by
  cases x with
  | ret a => simp
  | panic e => simp
  | diverge => simp

/-- A sequence of parts that return or panic returns or panics. -/
theorem bind_ne_diverge {x : Outcome ε α} {f : α → Outcome ε β} (hx : x ≠ diverge)
    (hf : ∀ a, f a ≠ diverge) : (x >>= f) ≠ diverge := by
  cases x with
  | ret a => exact hf a
  | panic e => simp
  | diverge => exact absurd rfl hx

theorem ret_ne_diverge (a : α) : (ret a : Outcome ε α) ≠ diverge := by
  simp

/-- `Option::expect`: the value, or the panic `e`. -/
def expect (o : Option α) (e : ε) : Outcome ε α :=
  match o with
  | some a => ret a
  | none => panic e

@[simp] theorem expect_some (a : α) (e : ε) : expect (some a) e = ret a := rfl

@[simp] theorem expect_none (e : ε) : expect (none : Option α) e = panic e := rfl

theorem expect_eq_ret {o : Option α} {e : ε} {a : α} :
    expect o e = ret a ↔ o = some a := by
  cases o with
  | none => simp
  | some b => simp

theorem expect_eq_panic {o : Option α} {e e' : ε} :
    expect o e = panic e' ↔ o = none ∧ e = e' := by
  cases o with
  | none => simp
  | some b => simp

/-- `assert!`: panics with `e` unless the condition holds. -/
def assert (b : Bool) (e : ε) : Outcome ε Unit :=
  if b then ret () else panic e

@[simp] theorem assert_true (e : ε) : assert true e = ret () := rfl

@[simp] theorem assert_false (e : ε) : assert false e = panic e := rfl

theorem assert_eq_ret {b : Bool} {e : ε} {u : Unit} :
    assert b e = ret u ↔ b = true := by
  cases b with
  | false => simp
  | true => simp

theorem assert_ne_diverge (b : Bool) (e : ε) : assert b e ≠ diverge := by
  cases b with
  | false => simp
  | true => simp

theorem assert_eq_panic {b : Bool} {e e' : ε} :
    assert b e = panic e' ↔ b = false ∧ e = e' := by
  cases b with
  | false => simp
  | true => simp

/-- With enough fuel, the call returns `a`. -/
def Settles (x : Nat → Outcome ε α) (a : α) : Prop := ∃ n, ∀ fuel, n ≤ fuel → x fuel = ret a

/-- With enough fuel, the call ends: it returns or panics. -/
def Ends (x : Nat → Outcome ε α) : Prop := ∃ n, ∀ fuel, n ≤ fuel → x fuel ≠ diverge

theorem Settles.ends {x : Nat → Outcome ε α} {a : α} (h : Settles x a) : Ends x := by
  obtain ⟨n, hn⟩ := h
  refine ⟨n, fun fuel hle => ?_⟩
  rw [hn fuel hle]
  exact ret_ne_diverge a

theorem settles_ret (a : α) : Settles (fun _ => (ret a : Outcome ε α)) a :=
  ⟨0, fun _ _ => rfl⟩

/-- A sequence returns with enough fuel for both parts. -/
theorem Settles.bind {x : Nat → Outcome ε α} {f : Nat → α → Outcome ε β} {a : α} {b : β}
    (hx : Settles x a) (hf : Settles (fun fuel => f fuel a) b) :
    Settles (fun fuel => x fuel >>= f fuel) b := by
  obtain ⟨n, hn⟩ := hx
  obtain ⟨m, hm⟩ := hf
  refine ⟨n + m, fun fuel hfuel => ?_⟩
  show x fuel >>= f fuel = ret b
  rw [hn fuel (by omega), ret_bind]
  exact hm fuel (by omega)

/-- A call returns one value. -/
theorem Settles.unique {x : Nat → Outcome ε α} {a b : α} (ha : Settles x a)
    (hb : Settles x b) : a = b := by
  obtain ⟨n, hn⟩ := ha
  obtain ⟨m, hm⟩ := hb
  have h := (hn (max n m) (Nat.le_max_left n m)).symm.trans (hm (max n m) (Nat.le_max_right n m))
  injection h

/-- The call does not panic, and a value it returns satisfies `Q`. -/
def Meets (x : Outcome ε α) (Q : α → Prop) : Prop :=
  match x with
  | ret a => Q a
  | panic _ => False
  | diverge => True

theorem meets_iff {x : Outcome ε α} {Q : α → Prop} :
    x.Meets Q ↔ (∀ e, x ≠ panic e) ∧ ∀ a, x = ret a → Q a := by
  cases x with
  | ret a => simp [Meets]
  | panic e => simp [Meets]
  | diverge => simp [Meets]

theorem Meets.mono {x : Outcome ε α} {P Q : α → Prop} (h : x.Meets P) (hpq : ∀ a, P a → Q a) :
    x.Meets Q := by
  rw [meets_iff] at h ⊢
  exact ⟨h.1, fun a ha => hpq a (h.2 a ha)⟩

/-- A sequence meets what its second part meets on every value of the first. -/
theorem Meets.bind {x : Outcome ε α} {f : α → Outcome ε β} {P : α → Prop} {Q : β → Prop}
    (h : x.Meets P) (hf : ∀ a, P a → (f a).Meets Q) : (x >>= f).Meets Q := by
  cases x with
  | ret a => exact hf a h
  | panic e => exact h.elim
  | diverge => trivial

/-- The call with its panics translated: how a call is made from code with more panics. -/
def mapPanic {ε' : Type} (f : ε → ε') : Outcome ε α → Outcome ε' α
  | ret a => ret a
  | panic e => panic (f e)
  | diverge => diverge

theorem mapPanic_eq_ret {ε' : Type} {f : ε → ε'} {x : Outcome ε α} {a : α} :
    x.mapPanic f = ret a ↔ x = ret a := by
  cases x with
  | ret b => simp [mapPanic]
  | panic e => simp [mapPanic]
  | diverge => simp [mapPanic]

theorem mapPanic_eq_panic {ε' : Type} {f : ε → ε'} {x : Outcome ε α} {e' : ε'} :
    x.mapPanic f = panic e' ↔ ∃ e, x = panic e ∧ f e = e' := by
  cases x with
  | ret b => simp [mapPanic]
  | panic e => simp [mapPanic]
  | diverge => simp [mapPanic]

/-- The value of a returning call. -/
def value? : Outcome ε α → Option α
  | ret a => some a
  | _ => none

theorem value?_eq_some {x : Outcome ε α} {a : α} : x.value? = some a ↔ x = ret a := by
  cases x with
  | ret b => simp [value?]
  | panic e => simp [value?]
  | diverge => simp [value?]

/-- What a panicking call unwinds with. -/
def panic? : Outcome ε α → Option ε
  | panic e => some e
  | _ => none

theorem panic?_eq_some {x : Outcome ε α} {e : ε} : x.panic? = some e ↔ x = panic e := by
  cases x with
  | ret a => simp [panic?]
  | panic e' => simp [panic?]
  | diverge => simp [panic?]

end Outcome

end Pomelo.Lib
