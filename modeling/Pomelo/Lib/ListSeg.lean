/-
  Singly linked lists in a store.

  `node k` is what the store holds at key `k`: a value and the link to the next node, or
  nothing when the link there is not one. `Seg node a xs b` says that the links lead from
  pointer `a` through the nodes `xs` to pointer `b`. Segments compose (`seg_append`), read
  only their own nodes (`Seg.congr`), and a list that ends in a null pointer is determined by
  its first pointer (`Seg.unique`) and holds exactly the reachable nodes
  (`Seg.reachable_iff`).
-/

namespace Pomelo.Lib

variable {κ β : Type} {node node' : κ → Option (β × Option κ)}

/-- The links lead from `a` through the nodes `xs` to `b`. -/
def Seg (node : κ → Option (β × Option κ)) : Option κ → List (κ × β) → Option κ → Prop
  | a, [], b => a = b
  | a, x :: xs, b => a = some x.1 ∧ ∃ q, node x.1 = some (x.2, q) ∧ Seg node q xs b

/-- The keys that the links lead to from pointer `a`. -/
inductive Reachable (node : κ → Option (β × Option κ)) (a : Option κ) : κ → Prop where
  | first {k : κ} : a = some k → Reachable node a k
  | next {k k' : κ} {v : β} : Reachable node a k → node k = some (v, some k') →
      Reachable node a k'

@[simp] theorem seg_nil {a b : Option κ} : Seg node a [] b ↔ a = b := Iff.rfl

theorem seg_cons {a b : Option κ} {x : κ × β} {xs : List (κ × β)} :
    Seg node a (x :: xs) b ↔ a = some x.1 ∧ ∃ q, node x.1 = some (x.2, q) ∧ Seg node q xs b :=
  Iff.rfl

theorem seg_append {a c : Option κ} {xs ys : List (κ × β)} :
    Seg node a (xs ++ ys) c ↔ ∃ b, Seg node a xs b ∧ Seg node b ys c := by
  induction xs generalizing a with
  | nil => simp
  | cons x xs ih =>
    simp only [List.cons_append, seg_cons, ih]
    constructor
    · rintro ⟨ha, q, hq, b, h1, h2⟩
      exact ⟨b, ⟨ha, q, hq, h1⟩, h2⟩
    · rintro ⟨b, ⟨ha, q, hq, h1⟩, h2⟩
      exact ⟨ha, q, hq, b, h1, h2⟩

/-- A segment reads only its own nodes. -/
theorem Seg.congr {a b : Option κ} {xs : List (κ × β)} (h : Seg node a xs b)
    (hn : ∀ x ∈ xs, node' x.1 = node x.1) : Seg node' a xs b := by
  induction xs generalizing a with
  | nil => exact h
  | cons x xs ih =>
    obtain ⟨ha, q, hq, hs⟩ := h
    exact ⟨ha, q, by rw [hn x (by simp), hq], ih hs fun y hy => hn y (by simp [hy])⟩

/-- What the store holds at a node of a segment. -/
theorem Seg.node_of_mem {a b : Option κ} {xs : List (κ × β)} (h : Seg node a xs b)
    {x : κ × β} (hx : x ∈ xs) : ∃ q, node x.1 = some (x.2, q) := by
  induction xs generalizing a with
  | nil => simp at hx
  | cons y ys ih =>
    obtain ⟨_, q, hq, hs⟩ := h
    rcases List.mem_cons.mp hx with rfl | hx
    · exact ⟨q, hq⟩
    · exact ih hs hx

/-- The first pointer of a segment that ends in null is its first node's key. -/
theorem Seg.head_eq {a : Option κ} {xs : List (κ × β)} (h : Seg node a xs none) :
    a = xs.head?.map Prod.fst := by
  cases xs with
  | nil => exact h
  | cons x xs => exact h.1

/-- The first pointer determines a list that ends in null. -/
theorem Seg.unique {a : Option κ} {xs ys : List (κ × β)} (hx : Seg node a xs none)
    (hy : Seg node a ys none) : xs = ys := by
  induction xs generalizing a ys with
  | nil =>
    cases ys with
    | nil => rfl
    | cons y ys =>
      rw [seg_nil] at hx
      rw [hx] at hy
      exact absurd hy.1 (by simp)
  | cons x xs ih =>
    obtain ⟨ha, q, hq, hs⟩ := hx
    cases ys with
    | nil =>
      rw [seg_nil] at hy
      rw [hy] at ha
      exact absurd ha (by simp)
    | cons y ys =>
      obtain ⟨ha', q', hq', hs'⟩ := hy
      have hk : x.1 = y.1 := Option.some.inj (ha.symm.trans ha')
      rw [← hk, hq] at hq'
      simp only [Option.some.injEq, Prod.mk.injEq] at hq'
      obtain ⟨hv, rfl⟩ := hq'
      rw [ih hs hs', Prod.ext hk hv]

/-- Every node of a segment is reachable from its first pointer. -/
theorem Seg.reachable {a b : Option κ} {xs : List (κ × β)} (h : Seg node a xs b)
    {x : κ × β} (hx : x ∈ xs) : Reachable node a x.1 := by
  -- the links already followed are carried by the pointer the rest starts from
  have key : ∀ (xs : List (κ × β)) (p : Option κ), Seg node p xs b →
      (∀ k, p = some k → Reachable node a k) → ∀ x ∈ xs, Reachable node a x.1 := by
    intro xs
    induction xs with
    | nil => intro p _ _ x hx; simp at hx
    | cons y ys ih =>
      intro p hs hp x hx
      obtain ⟨hpy, q, hq, hs⟩ := hs
      have hy : Reachable node a y.1 := hp _ hpy
      rcases List.mem_cons.mp hx with rfl | hx
      · exact hy
      · refine ih q hs (fun k hk => ?_) x hx
        subst hk
        exact hy.next hq
  exact key xs a h (fun k hk => .first hk) x hx

/-- The links of a segment lead to its end. -/
theorem Seg.reachable_end {a : Option κ} {xs : List (κ × β)} {k : κ}
    (h : Seg node a xs (some k)) : Reachable node a k := by
  rcases List.eq_nil_or_concat xs with rfl | ⟨xs, x, rfl⟩
  · exact .first h
  · rw [List.concat_eq_append] at h
    have hx : Reachable node a x.1 := h.reachable (by simp)
    obtain ⟨_, _, _, q, hq, hend⟩ := seg_append.mp h
    rw [seg_nil] at hend
    subst hend
    exact hx.next hq

/-- The reachable keys of a list that ends in null are the keys of its nodes. -/
theorem Seg.reachable_iff {a : Option κ} {xs : List (κ × β)} (h : Seg node a xs none) (k : κ) :
    Reachable node a k ↔ ∃ v, (k, v) ∈ xs := by
  constructor
  · intro hr
    induction hr with
    | @first k ha =>
      cases xs with
      | nil => rw [h] at ha; cases ha
      | cons x xs =>
        obtain ⟨hx, _⟩ := h
        rw [ha] at hx
        exact ⟨x.2, by rw [Option.some.inj hx]; simp⟩
    | @next k k' v _ hn ih =>
      obtain ⟨w, hw⟩ := ih
      -- split the list at `k`; its link leads to the head of the rest
      obtain ⟨as, bs, rfl⟩ := List.append_of_mem hw
      obtain ⟨b, _, _, q, hq, hs⟩ := seg_append.mp h
      rw [hn] at hq
      simp only [Option.some.injEq, Prod.mk.injEq] at hq
      obtain ⟨rfl, rfl⟩ := hq
      cases bs with
      | nil => cases hs
      | cons y ys =>
        obtain ⟨hy, _⟩ := hs
        exact ⟨y.2, by rw [Option.some.inj hy]; simp⟩
  · rintro ⟨v, hv⟩
    exact h.reachable hv

end Pomelo.Lib
