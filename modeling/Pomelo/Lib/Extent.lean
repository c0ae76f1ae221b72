/-
  Extents: runs of consecutive numbers, given by their start and length.

  `Ascending es` is a list of extents in order with a gap after each. `insertExtent e es`
  puts `e` in its place and joins it with the extents it touches; when `e` is apart from the
  list the result is ascending again and covers one extent more
  (`insertExtent_ascending`, `covered_insertExtent`). In an ascending list a run of
  consecutive covered numbers lies in one extent (`exists_extent_of_run`): that is what the
  gaps are for.
-/
import Mathlib.Tactic.Tauto
import Mathlib.Tactic.ByContra

namespace Pomelo.Lib

/-- A run of numbers: its start and its length. -/
abbrev Extent := Nat × Nat

instance : LawfulBEq Extent := inferInstanceAs (LawfulBEq (Nat × Nat))

/-- The numbers of an extent. -/
def Extent.Mem (e : Extent) (x : Nat) : Prop := e.1 ≤ x ∧ x < e.1 + e.2

/-- Two extents with no number in common, by their ends. -/
def Extent.Apart (e f : Extent) : Prop := e.1 + e.2 ≤ f.1 ∨ f.1 + f.2 ≤ e.1

/-- Two extents with no number in common. -/
def Extent.Disjoint (e f : Extent) : Prop := ∀ x, e.Mem x → ¬ f.Mem x

/-- The numbers in some extent of the list. -/
def Covered (es : List Extent) (x : Nat) : Prop := ∃ e ∈ es, Extent.Mem e x

/-- In order, with a gap after each extent. -/
def Ascending (es : List Extent) : Prop := es.Pairwise fun e f => e.1 + e.2 < f.1

/-- Every extent has a number in it. -/
def NonEmpty (es : List Extent) : Prop := ∀ e ∈ es, 0 < e.2

theorem Extent.Apart.symm {e f : Extent} (h : e.Apart f) : f.Apart e := Or.symm h

theorem Extent.Apart.not_mem {e f : Extent} (h : e.Apart f) {x : Nat} (he : e.Mem x) :
    ¬ f.Mem x := by
  rintro ⟨h1, h2⟩
  obtain ⟨h3, h4⟩ := he
  rcases h with h | h <;> omega

theorem Extent.Apart.le_of_lt {e f : Extent} (h : e.Apart f) (hlt : e.1 < f.1) :
    e.1 + e.2 ≤ f.1 := by
  rcases h with h | h <;> omega

theorem Extent.Apart.disjoint {e f : Extent} (h : e.Apart f) : e.Disjoint f :=
  fun _ he => h.not_mem he

/-- Non-empty extents with no number in common are apart. -/
theorem Extent.Disjoint.apart {e f : Extent} (h : e.Disjoint f) (he : 0 < e.2)
    (hf : 0 < f.2) : e.Apart f := by
  unfold Extent.Apart
  by_contra hn
  -- the later of the two starts is in both
  have h1 := h (max e.1 f.1)
  simp only [Extent.Mem] at h1
  omega

theorem covered_nil (x : Nat) : ¬ Covered [] x := by
  simp [Covered]

theorem covered_cons {e : Extent} {es : List Extent} {x : Nat} :
    Covered (e :: es) x ↔ e.Mem x ∨ Covered es x := by
  simp [Covered]

theorem ascending_cons {e : Extent} {es : List Extent} :
    Ascending (e :: es) ↔ (∀ f ∈ es, e.1 + e.2 < f.1) ∧ Ascending es :=
  List.pairwise_cons

theorem nonEmpty_cons {e : Extent} {es : List Extent} :
    NonEmpty (e :: es) ↔ 0 < e.2 ∧ NonEmpty es := by
  simp [NonEmpty]

/-! ## Joining -/

/-- `e` in front of the list, as one extent with the first when they touch. -/
def joinRight (e : Extent) : List Extent → List Extent
  | [] => [e]
  | f :: fs => if e.1 + e.2 = f.1 then (e.1, e.2 + f.2) :: fs else e :: f :: fs

/-- `e` put in its place in the list and joined with the extents it touches. -/
def insertExtent (e : Extent) : List Extent → List Extent
  | [] => [e]
  | f :: fs => if f.1 > e.1 then joinRight e (f :: fs) else joinRight f (insertExtent e fs)

theorem joinRight_of_lt {e : Extent} {es : List Extent} (h : ∀ f ∈ es, e.1 + e.2 < f.1) :
    joinRight e es = e :: es := by
  cases es with
  | nil => rfl
  | cons f fs =>
    have hf := h f (by simp)
    rw [joinRight, if_neg (by omega)]

theorem covered_joinRight {e : Extent} {es : List Extent} {x : Nat} :
    Covered (joinRight e es) x ↔ e.Mem x ∨ Covered es x := by
  cases es with
  | nil => simp [joinRight, covered_cons]
  | cons f fs =>
    rw [joinRight]
    split
    · rename_i h
      simp only [covered_cons, Extent.Mem]
      rw [← or_assoc]
      refine or_congr ?_ Iff.rfl
      omega
    · rw [covered_cons]

/-- The start of a joined list is the start of what was put in front. -/
theorem joinRight_cons_start (e : Extent) (es : List Extent) :
    ∃ n fs, joinRight e es = (e.1, n) :: fs := by
  cases es with
  | nil => exact ⟨e.2, [], rfl⟩
  | cons f fs =>
    rw [joinRight]
    split
    · exact ⟨e.2 + f.2, fs, rfl⟩
    · exact ⟨e.2, f :: fs, rfl⟩

theorem joinRight_ascending {e : Extent} {es : List Extent} (h : ∀ f ∈ es, e.1 + e.2 ≤ f.1)
    (hne : NonEmpty es) (ha : Ascending es) : Ascending (joinRight e es) := by
  cases es with
  | nil => simp [joinRight, Ascending]
  | cons f fs =>
    rw [ascending_cons] at ha
    have hf := h f (by simp)
    have hf2 := hne f (by simp)
    rw [joinRight]
    split
    · rw [ascending_cons]
      refine ⟨fun g hg => ?_, ha.2⟩
      have := ha.1 g hg
      dsimp only
      omega
    · rw [ascending_cons]
      refine ⟨fun g hg => ?_, ascending_cons.mpr ha⟩
      rcases List.mem_cons.mp hg with rfl | hg
      · omega
      · have := ha.1 g hg
        omega

theorem joinRight_nonEmpty {e : Extent} {es : List Extent} (he : 0 < e.2)
    (hne : NonEmpty es) : NonEmpty (joinRight e es) := by
  cases es with
  | nil => simpa [joinRight, NonEmpty] using he
  | cons f fs =>
    rw [nonEmpty_cons] at hne
    rw [joinRight]
    split
    · exact nonEmpty_cons.mpr ⟨by dsimp only; omega, hne.2⟩
    · exact nonEmpty_cons.mpr ⟨he, nonEmpty_cons.mpr hne⟩

theorem covered_insertExtent {e : Extent} {es : List Extent} {x : Nat} :
    Covered (insertExtent e es) x ↔ e.Mem x ∨ Covered es x := by
  induction es with
  | nil => simp [insertExtent, covered_cons]
  | cons f fs ih =>
    rw [insertExtent]
    split
    · exact covered_joinRight
    · rw [covered_joinRight, ih, covered_cons]
      tauto

theorem insertExtent_nonEmpty {e : Extent} {es : List Extent} (he : 0 < e.2)
    (hne : NonEmpty es) : NonEmpty (insertExtent e es) := by
  induction es with
  | nil => simpa [insertExtent, NonEmpty] using he
  | cons f fs ih =>
    rw [insertExtent]
    split
    · exact joinRight_nonEmpty he hne
    · rw [nonEmpty_cons] at hne
      exact joinRight_nonEmpty hne.1 (ih hne.2)

/-- Every extent of a joined list starts where one of its parts does. -/
theorem joinRight_start {e g : Extent} {es : List Extent} (hg : g ∈ joinRight e es) :
    g.1 = e.1 ∨ ∃ f ∈ es, g.1 = f.1 := by
  cases es with
  | nil => exact Or.inl (by rw [List.mem_singleton.mp hg])
  | cons f fs =>
    rw [joinRight] at hg
    split at hg
    · rcases List.mem_cons.mp hg with rfl | hg
      · exact Or.inl rfl
      · exact Or.inr ⟨g, by simp [hg], rfl⟩
    · rcases List.mem_cons.mp hg with rfl | hg
      · exact Or.inl rfl
      · exact Or.inr ⟨g, hg, rfl⟩

/-- Every extent of the list starts where an old one or the new one does. -/
theorem insertExtent_start {e g : Extent} {es : List Extent} (hg : g ∈ insertExtent e es) :
    g.1 = e.1 ∨ ∃ f ∈ es, g.1 = f.1 := by
  induction es generalizing g with
  | nil => exact Or.inl (by rw [List.mem_singleton.mp hg])
  | cons f fs ih =>
    rw [insertExtent] at hg
    split at hg
    · exact joinRight_start hg
    · rcases joinRight_start hg with h | ⟨g', hg', h⟩
      · exact Or.inr ⟨f, by simp, h⟩
      · rcases ih hg' with h' | ⟨f', hf', h'⟩
        · exact Or.inl (h.trans h')
        · exact Or.inr ⟨f', by simp [hf'], h.trans h'⟩

theorem insertExtent_ascending {e : Extent} {es : List Extent} (he : 0 < e.2)
    (hap : ∀ f ∈ es, e.Apart f) (hne : NonEmpty es) (ha : Ascending es) :
    Ascending (insertExtent e es) := by
  induction es with
  | nil => simp [insertExtent, Ascending]
  | cons f fs ih =>
    rw [ascending_cons] at ha
    rw [nonEmpty_cons] at hne
    have hf : e.Apart f := hap f (by simp)
    rw [insertExtent]
    split
    · refine joinRight_ascending (fun g hg => ?_) (nonEmpty_cons.mpr hne)
        (ascending_cons.mpr ha)
      unfold Extent.Apart at hf
      rcases List.mem_cons.mp hg with rfl | hg
      · omega
      · have := ha.1 g hg
        omega
    · refine joinRight_ascending (fun g hg => ?_) (insertExtent_nonEmpty he hne.2)
        (ih (fun g hg => hap g (by simp [hg])) hne.2 ha.2)
      unfold Extent.Apart at hf
      rcases insertExtent_start hg with h | ⟨g', hg', h⟩
      · omega
      · have := ha.1 g' hg'
        omega

/-- Where the place of `e` is in front of the list. -/
theorem insertExtent_front {e : Extent} {es : List Extent} (h : ∀ f ∈ es, e.1 < f.1) :
    insertExtent e es = joinRight e es := by
  cases es with
  | nil => rfl
  | cons f fs => rw [insertExtent, if_pos (h f (by simp))]

/-- Where the place of `e` is behind the last extent `r` of `xs`: the extents before `r` do
    not touch `e`, so they stay. -/
theorem insertExtent_between {e r : Extent} {xs ys : List Extent}
    (ha : Ascending (xs ++ r :: ys)) (hr : r.1 + r.2 ≤ e.1)
    (hy : ∀ f ∈ ys, e.1 < f.1) :
    insertExtent e (xs ++ r :: ys) = xs ++ joinRight r (joinRight e ys) := by
  have hjoin : insertExtent e ys = joinRight e ys := insertExtent_front hy
  induction xs with
  | nil => rw [List.nil_append, List.nil_append, insertExtent, if_neg (by omega), hjoin]
  | cons x xs ih =>
    rw [List.cons_append, ascending_cons] at ha
    have hxr : x.1 + x.2 < r.1 := ha.1 r (by simp)
    rw [List.cons_append, insertExtent, if_neg (by omega), ih ha.2, List.cons_append]
    refine joinRight_of_lt fun g hg => ?_
    rw [← ih ha.2] at hg
    rcases insertExtent_start hg with h | ⟨g', hg', h⟩
    · omega
    · have := ha.1 g' hg'
      omega

/-- An ascending list splits at any number: the extents that start at or below it come
    first. -/
theorem Ascending.split {es : List Extent} (ha : Ascending es) (x : Nat) :
    ∃ as bs, es = as ++ bs ∧ (∀ e ∈ as, e.1 ≤ x) ∧ ∀ e ∈ bs, x < e.1 := by
  induction es with
  | nil => exact ⟨[], [], rfl, by simp, by simp⟩
  | cons f fs ih =>
    rw [ascending_cons] at ha
    by_cases hf : f.1 ≤ x
    · obtain ⟨as, bs, rfl, h1, h2⟩ := ih ha.2
      refine ⟨f :: as, bs, rfl, ?_, h2⟩
      intro e he
      rcases List.mem_cons.mp he with rfl | he
      · exact hf
      · exact h1 e he
    · refine ⟨[], f :: fs, rfl, by simp, ?_⟩
      intro e he
      rcases List.mem_cons.mp he with rfl | he
      · omega
      · have := ha.1 e he
        omega

/-! ## Runs of covered numbers -/

/-- Of two extents of an ascending list one lies before the other. -/
theorem Ascending.before_or_after {es : List Extent} (ha : Ascending es) {e f : Extent}
    (he : e ∈ es) (hf : f ∈ es) (hne : e ≠ f) : e.1 + e.2 < f.1 ∨ f.1 + f.2 < e.1 := by
  induction es with
  | nil => simp at he
  | cons g gs ih =>
    rw [ascending_cons] at ha
    rcases List.mem_cons.mp he with rfl | he'
    · rcases List.mem_cons.mp hf with rfl | hf'
      · exact absurd rfl hne
      · exact Or.inl (ha.1 f hf')
    · rcases List.mem_cons.mp hf with rfl | hf'
      · exact Or.inr (ha.1 e he')
      · exact ih ha.2 he' hf'

/-- In an ascending list a run of consecutive covered numbers lies in one extent. -/
theorem exists_extent_of_run {es : List Extent} (ha : Ascending es) {x n : Nat}
    (hn : 0 < n) (hx : ∀ i < n, Covered es (x + i)) :
    ∃ e ∈ es, e.1 ≤ x ∧ x + n ≤ e.1 + e.2 := by
  induction n with
  | zero => omega
  | succ n ih =>
    obtain ⟨f, hf, hf1, hf2⟩ := hx n (by omega)
    rcases Nat.eq_zero_or_pos n with rfl | hpos
    · exact ⟨f, hf, hf1, by omega⟩
    · obtain ⟨e, he, he1, he2⟩ := ih hpos fun i hi => hx i (by omega)
      refine ⟨e, he, he1, ?_⟩
      -- the next number is in `f`; with a gap behind `e`, `f` can only be `e`
      by_contra hlt
      have hne : e ≠ f := by
        rintro rfl
        omega
      rcases ha.before_or_after he hf hne with h | h <;> omega

end Pomelo.Lib
