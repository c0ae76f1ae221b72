/-
  Ordered maps: entries in strictly ascending order of their keys.

  The order is a field, so a map that is not sorted cannot be built. `insert` replaces the
  entry of an equal key; `floor k` is the entry with the greatest key at or below `k`; `get`
  and `erase` look an entry up and take it out. All are characterised by membership alone
  (`mem_insert`, `mem_erase`, `get_eq_some`, `floor_eq_some`, `floor_eq_none`), so the laws of
  a finite map follow (`get_insert`, `get_erase`), and so does how often a value occurs
  (`occurrences_insert`, `occurrences_erase`).
-/
import Mathlib.Order.Lattice
import Mathlib.Data.List.Perm.Basic
import Mathlib.Data.List.Nodup

namespace Pomelo.Lib

variable {κ V : Type} [LinearOrder κ]

/-- Put an entry in its place in a sorted list, replacing the one with its key. -/
def insertEntry (k : κ) (v : V) : List (κ × V) → List (κ × V)
  | [] => [(k, v)]
  | e :: es =>
    if k < e.1 then (k, v) :: e :: es
    else if k = e.1 then (k, v) :: es
    else e :: insertEntry k v es

/-- The last entry of a sorted list with a key at or below `k`. -/
def floorEntry (k : κ) : List (κ × V) → Option (κ × V)
  | [] => none
  | e :: es => if e.1 ≤ k then (floorEntry k es).or (some e) else none

theorem mem_insertEntry {k : κ} {v : V} {es : List (κ × V)}
    (hs : es.Pairwise fun x y => x.1 < y.1) {x : κ × V} :
    x ∈ insertEntry k v es ↔ x = (k, v) ∨ x ∈ es ∧ x.1 ≠ k := by
  induction es with
  | nil => simp [insertEntry]
  | cons e es ih =>
    rw [List.pairwise_cons] at hs
    rw [insertEntry]
    split
    · rename_i hlt
      have hne : ∀ y ∈ e :: es, y.1 ≠ k := by
        intro y hy
        rcases List.mem_cons.mp hy with rfl | hy
        · exact ne_of_gt hlt
        · exact ne_of_gt (lt_trans hlt (hs.1 y hy))
      rw [List.mem_cons]
      exact or_congr_right ⟨fun h => ⟨h, hne x h⟩, fun h => h.1⟩
    · rename_i hlt
      split
      · rename_i heq
        have hne : ∀ y ∈ es, y.1 ≠ k := fun y hy => by
          rw [heq]
          exact ne_of_gt (hs.1 y hy)
        rw [List.mem_cons, List.mem_cons]
        refine or_congr_right ⟨fun h => ⟨Or.inr h, hne x h⟩, ?_⟩
        rintro ⟨rfl | h, hx⟩
        · exact absurd heq.symm hx
        · exact h
      · rename_i heq
        rw [List.mem_cons, ih hs.2, List.mem_cons]
        constructor
        · rintro (rfl | rfl | ⟨h, hx⟩)
          · exact Or.inr ⟨Or.inl rfl, Ne.symm heq⟩
          · exact Or.inl rfl
          · exact Or.inr ⟨Or.inr h, hx⟩
        · rintro (rfl | ⟨rfl | h, hx⟩)
          · exact Or.inr (Or.inl rfl)
          · exact Or.inl rfl
          · exact Or.inr (Or.inr ⟨h, hx⟩)

theorem insertEntry_length_le (k : κ) (v : V) (es : List (κ × V)) :
    (insertEntry k v es).length ≤ es.length + 1 := by
  induction es with
  | nil => exact Nat.le_refl _
  | cons e es ih =>
    rw [insertEntry]
    split
    · exact Nat.le_refl _
    · split
      · exact Nat.le_succ _
      · exact Nat.succ_le_succ ih

theorem insertEntry_sorted {k : κ} {v : V} {es : List (κ × V)}
    (hs : es.Pairwise fun x y => x.1 < y.1) :
    (insertEntry k v es).Pairwise fun x y => x.1 < y.1 := by
  induction es with
  | nil => simp [insertEntry]
  | cons e es ih =>
    have hs' := List.pairwise_cons.mp hs
    rw [insertEntry]
    split
    · rename_i hlt
      refine List.pairwise_cons.mpr ⟨fun y hy => ?_, hs⟩
      rcases List.mem_cons.mp hy with rfl | hy
      · exact hlt
      · exact lt_trans hlt (hs'.1 y hy)
    · rename_i hlt
      split
      · rename_i heq
        refine List.pairwise_cons.mpr ⟨fun y hy => ?_, hs'.2⟩
        rw [heq]
        exact hs'.1 y hy
      · rename_i heq
        refine List.pairwise_cons.mpr ⟨fun y hy => ?_, ih hs'.2⟩
        rcases (mem_insertEntry hs'.2).mp hy with rfl | ⟨hy, _⟩
        · exact lt_of_le_of_ne (not_lt.mp hlt) (Ne.symm heq)
        · exact hs'.1 y hy

theorem floorEntry_eq_none {k : κ} {es : List (κ × V)}
    (hs : es.Pairwise fun x y => x.1 < y.1) :
    floorEntry k es = none ↔ ∀ e ∈ es, k < e.1 := by
  cases es with
  | nil => simp [floorEntry]
  | cons g es =>
    rw [List.pairwise_cons] at hs
    rw [floorEntry]
    split
    · rename_i hg
      refine ⟨fun h => ?_, fun h => absurd hg (not_le.mpr (h g List.mem_cons_self))⟩
      cases hfl : floorEntry k es <;> rw [hfl] at h <;> simp at h
    · rename_i hg
      refine ⟨fun _ e he => ?_, fun _ => rfl⟩
      rcases List.mem_cons.mp he with rfl | he
      · exact not_le.mp hg
      · exact lt_trans (not_le.mp hg) (hs.1 e he)

theorem floorEntry_eq_some {k : κ} {es : List (κ × V)}
    (hs : es.Pairwise fun x y => x.1 < y.1) {e : κ × V} :
    floorEntry k es = some e ↔
      e ∈ es ∧ e.1 ≤ k ∧ ∀ f ∈ es, f.1 ≤ k → f.1 ≤ e.1 := by
  induction es generalizing e with
  | nil => simp [floorEntry]
  | cons g es ih =>
    rw [List.pairwise_cons] at hs
    rw [floorEntry]
    split
    · rename_i hg
      cases hfl : floorEntry k es with
      | some f =>
        -- an entry behind `g` is at or below `k`, so `g` is not the last
        obtain ⟨hf, hfk, _⟩ := (ih hs.2).mp hfl
        have hgf : g.1 < f.1 := hs.1 f hf
        rw [Option.some_or, ← hfl, ih hs.2]
        constructor
        · rintro ⟨he, hek, hmax⟩
          refine ⟨List.mem_cons_of_mem _ he, hek, fun x hx hxk => ?_⟩
          rcases List.mem_cons.mp hx with rfl | hx
          · exact le_of_lt (hs.1 e he)
          · exact hmax x hx hxk
        · rintro ⟨he, hek, hmax⟩
          rcases List.mem_cons.mp he with rfl | he
          · exact absurd (hmax f (List.mem_cons_of_mem _ hf) hfk) (not_le.mpr hgf)
          · exact ⟨he, hek, fun x hx hxk => hmax x (List.mem_cons_of_mem _ hx) hxk⟩
      | none =>
        have hnone := (floorEntry_eq_none hs.2).mp hfl
        rw [Option.none_or, Option.some.injEq]
        constructor
        · rintro rfl
          refine ⟨List.mem_cons_self, hg, fun x hx hxk => ?_⟩
          rcases List.mem_cons.mp hx with rfl | hx
          · exact le_refl _
          · exact absurd hxk (not_le.mpr (hnone x hx))
        · rintro ⟨he, hek, _⟩
          rcases List.mem_cons.mp he with rfl | he
          · rfl
          · exact absurd hek (not_le.mpr (hnone e he))
    · rename_i hg
      refine ⟨fun h => by simp at h, ?_⟩
      rintro ⟨he, hek, _⟩
      rcases List.mem_cons.mp he with rfl | he
      · exact absurd hek hg
      · exact absurd (le_trans (le_of_lt (hs.1 e he)) hek) hg

/-- The value of a key. -/
def getEntry (k : κ) : List (κ × V) → Option V
  | [] => none
  | e :: es => if e.1 = k then some e.2 else getEntry k es

theorem getEntry_eq_some {k : κ} {v : V} {es : List (κ × V)}
    (hs : es.Pairwise fun x y => x.1 < y.1) : getEntry k es = some v ↔ (k, v) ∈ es := by
  induction es with
  | nil => simp [getEntry]
  | cons e es ih =>
    obtain ⟨a, b⟩ := e
    rw [List.pairwise_cons] at hs
    rw [getEntry, List.mem_cons]
    split
    · rename_i hk
      have hnot : (k, v) ∉ es := fun hmem => ne_of_lt (hs.1 (k, v) hmem) hk
      simp only [hnot, or_false, Option.some.injEq, Prod.mk.injEq]
      exact ⟨fun h => ⟨hk.symm, h.symm⟩, fun h => h.2.symm⟩
    · rename_i hk
      rw [ih hs.2]
      exact ⟨Or.inr, fun h => h.resolve_left fun he => hk (Prod.mk.inj he).1.symm⟩

/-- A map whose entries are in strictly ascending order of their keys. -/
structure OrderedMap (κ V : Type) [LinearOrder κ] where
  entries : List (κ × V)
  sorted : entries.Pairwise fun x y => x.1 < y.1

namespace OrderedMap

def empty : OrderedMap κ V := ⟨[], List.Pairwise.nil⟩

def insert (m : OrderedMap κ V) (k : κ) (v : V) : OrderedMap κ V :=
  ⟨insertEntry k v m.entries, insertEntry_sorted m.sorted⟩

/-- The entry with the greatest key at or below `k`. -/
def floor (m : OrderedMap κ V) (k : κ) : Option (κ × V) := floorEntry k m.entries

def get (m : OrderedMap κ V) (k : κ) : Option V := getEntry k m.entries

def erase (m : OrderedMap κ V) (k : κ) : OrderedMap κ V :=
  ⟨m.entries.filter fun e => e.1 ≠ k, m.sorted.filter _⟩

@[simp] theorem entries_empty : (empty : OrderedMap κ V).entries = [] := rfl

theorem mem_insert {m : OrderedMap κ V} {k : κ} {v : V} {x : κ × V} :
    x ∈ (m.insert k v).entries ↔ x = (k, v) ∨ x ∈ m.entries ∧ x.1 ≠ k :=
  mem_insertEntry m.sorted

theorem mem_erase {m : OrderedMap κ V} {k : κ} {x : κ × V} :
    x ∈ (m.erase k).entries ↔ x ∈ m.entries ∧ x.1 ≠ k := by
  unfold erase
  simp

theorem get_eq_some {m : OrderedMap κ V} {k : κ} {v : V} :
    m.get k = some v ↔ (k, v) ∈ m.entries :=
  getEntry_eq_some m.sorted

theorem get_insert (m : OrderedMap κ V) (k k' : κ) (v : V) :
    (m.insert k v).get k' = if k' = k then some v else m.get k' := by
  apply Option.ext
  intro w
  rw [get_eq_some, mem_insert]
  split
  · rename_i h
    simp [h, eq_comm]
  · rename_i h
    simp [h, get_eq_some]

theorem get_erase (m : OrderedMap κ V) (k k' : κ) :
    (m.erase k).get k' = if k' = k then none else m.get k' := by
  apply Option.ext
  intro w
  rw [get_eq_some, mem_erase]
  split
  · rename_i h
    simp [h]
  · rename_i h
    simp [h, get_eq_some]

theorem floor_eq_some {m : OrderedMap κ V} {k : κ} {e : κ × V} :
    m.floor k = some e ↔
      e ∈ m.entries ∧ e.1 ≤ k ∧ ∀ f ∈ m.entries, f.1 ≤ k → f.1 ≤ e.1 :=
  floorEntry_eq_some m.sorted

theorem floor_eq_none {m : OrderedMap κ V} {k : κ} :
    m.floor k = none ↔ ∀ e ∈ m.entries, k < e.1 :=
  floorEntry_eq_none m.sorted

theorem get_eq_none {m : OrderedMap κ V} {k : κ} :
    m.get k = none ↔ ∀ e ∈ m.entries, e.1 ≠ k := by
  constructor
  · intro h e he hk
    have hs : m.get k = some e.2 := by
      rw [get_eq_some, ← hk]
      exact he
    rw [h] at hs
    cases hs
  · intro h
    cases hg : m.get k with
    | none => rfl
    | some v => exact absurd rfl (h _ (get_eq_some.mp hg))

theorem erase_of_get_none {m : OrderedMap κ V} {k : κ} (h : m.get k = none) : m.erase k = m := by
  obtain ⟨es, hs⟩ := m
  unfold erase
  congr 1
  rw [List.filter_eq_self]
  intro e he
  exact decide_eq_true (get_eq_none.mp h e he)

theorem entries_nodup (m : OrderedMap κ V) : m.entries.Nodup := by
  refine List.Pairwise.imp ?_ m.sorted
  intro a b hlt heq
  rw [heq] at hlt
  exact lt_irrefl _ hlt

/-- A new key adds one entry. -/
theorem insert_entries_perm {m : OrderedMap κ V} {k : κ} (v : V) (h : m.get k = none) :
    (m.insert k v).entries.Perm ((k, v) :: m.entries) := by
  have hnone := get_eq_none.mp h
  have hnew : (k, v) ∉ m.entries := fun hmem => hnone _ hmem rfl
  rw [List.perm_ext_iff_of_nodup (m.insert k v).entries_nodup
    (List.nodup_cons.mpr ⟨hnew, m.entries_nodup⟩)]
  intro e
  rw [mem_insert, List.mem_cons]
  exact or_congr_right ⟨fun he => he.1, fun he => ⟨he, hnone e he⟩⟩

/-- A key taken out takes one entry with it. -/
theorem erase_entries_perm {m : OrderedMap κ V} {k : κ} {v : V} (h : m.get k = some v) :
    m.entries.Perm ((k, v) :: (m.erase k).entries) := by
  have hmem := get_eq_some.mp h
  have hout : (k, v) ∉ (m.erase k).entries := fun he => (mem_erase.mp he).2 rfl
  rw [List.perm_ext_iff_of_nodup m.entries_nodup
    (List.nodup_cons.mpr ⟨hout, (m.erase k).entries_nodup⟩)]
  intro e
  rw [List.mem_cons, mem_erase]
  constructor
  · intro he
    by_cases hk : e.1 = k
    · have hv : m.get k = some e.2 := by
        rw [get_eq_some, ← hk]
        exact he
      rw [h, Option.some.injEq] at hv
      exact Or.inl (Prod.ext hk hv.symm)
    · exact Or.inr ⟨he, hk⟩
  · rintro (rfl | he)
    · exact hmem
    · exact he.1

section Occurrences

variable [DecidableEq V]

/-- How many keys have the value. -/
def occurrences (m : OrderedMap κ V) (v : V) : Nat := m.entries.countP fun e => e.2 = v

theorem occurrences_insert {m : OrderedMap κ V} {k : κ} {v w : V} (h : m.get k = none) :
    (m.insert k v).occurrences w = m.occurrences w + if v = w then 1 else 0 := by
  unfold occurrences
  rw [(insert_entries_perm v h).countP_eq, List.countP_cons]
  simp

theorem occurrences_erase {m : OrderedMap κ V} {k : κ} {v w : V} (h : m.get k = some v) :
    m.occurrences w = (m.erase k).occurrences w + if v = w then 1 else 0 := by
  unfold occurrences
  rw [(erase_entries_perm h).countP_eq, List.countP_cons]
  simp

end Occurrences

end OrderedMap

end Pomelo.Lib
