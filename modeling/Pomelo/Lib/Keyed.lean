/-
  Lists of records that are found by a key.

  `findKey` is the first record with a key, `modifyKey` changes that record in place. A change
  that keeps keys moves no record, so lookups of other keys do not see it
  (`findKey_modifyKey`).

  The first record that passes a test meets a condition exactly when every other record that
  passes the test comes behind one that meets the condition (`first_iff`).
-/

namespace Pomelo.Lib

variable {α κ : Type} [DecidableEq κ] {key : α → κ} {k : κ}

/-- The first record with key `k`. -/
def findKey (key : α → κ) (k : κ) : List α → Option α
  | [] => none
  | x :: xs => if key x = k then some x else findKey key k xs

/-- Change the first record with key `k`. -/
def modifyKey (key : α → κ) (k : κ) (f : α → α) : List α → List α
  | [] => []
  | x :: xs => if key x = k then f x :: xs else x :: modifyKey key k f xs

theorem key_of_findKey {xs : List α} {x : α} (h : findKey key k xs = some x) : key x = k := by
  induction xs with
  | nil => cases h
  | cons y ys ih =>
    rw [findKey] at h
    split at h
    · rename_i hy
      injection h with h
      rw [← h]
      exact hy
    · exact ih h

theorem mem_of_findKey {xs : List α} {x : α} (h : findKey key k xs = some x) : x ∈ xs := by
  induction xs with
  | nil => cases h
  | cons y ys ih =>
    rw [findKey] at h
    split at h
    · injection h with h
      rw [← h]
      exact List.mem_cons_self
    · exact List.mem_cons_of_mem _ (ih h)

theorem findKey_eq_none {xs : List α} : findKey key k xs = none ↔ ∀ x ∈ xs, key x ≠ k := by
  induction xs with
  | nil => simp [findKey]
  | cons y ys ih =>
    rw [findKey]
    split
    · rename_i hy
      simp [hy]
    · rename_i hy
      simp [ih, hy]

/-- Where keys are distinct, every record is found under its key. -/
theorem findKey_of_mem {xs : List α} (hn : (xs.map key).Nodup) {x : α} (hx : x ∈ xs) :
    findKey key (key x) xs = some x := by
  induction xs with
  | nil => cases hx
  | cons y ys ih =>
    rw [List.map_cons, List.nodup_cons] at hn
    rw [findKey]
    rcases List.mem_cons.mp hx with rfl | hx
    · rw [if_pos rfl]
    · have hne : key y ≠ key x := fun he => hn.1 (he ▸ List.mem_map_of_mem hx)
      rw [if_neg hne]
      exact ih hn.2 hx

theorem findKey_append {xs ys : List α} :
    findKey key k (xs ++ ys) = (findKey key k xs).or (findKey key k ys) := by
  induction xs with
  | nil => rfl
  | cons x xs ih =>
    rw [List.cons_append, findKey, findKey]
    split
    · rfl
    · exact ih

/-- Where keys are distinct, one record has a given key. -/
theorem filter_key {xs : List α} (hn : (xs.map key).Nodup) {x : α}
    (h : findKey key k xs = some x) : xs.filter (fun y => key y = k) = [x] := by
  induction xs with
  | nil => cases h
  | cons y ys ih =>
    rw [List.map_cons, List.nodup_cons] at hn
    rw [findKey] at h
    by_cases hy : key y = k
    · rw [if_pos hy] at h
      injection h with h
      have hnone : ys.filter (fun y => key y = k) = [] := by
        rw [List.filter_eq_nil_iff]
        intro z hz hk
        have hzk : key z = k := of_decide_eq_true hk
        exact hn.1 (by rw [hy, ← hzk]; exact List.mem_map_of_mem hz)
      rw [List.filter_cons_of_pos (by simpa using hy), hnone, h]
    · rw [if_neg hy] at h
      rw [List.filter_cons_of_neg (by simpa using hy), ih hn.2 h]

/-- Where keys are distinct, two records have one of two keys, in the one or the other order. -/
theorem filter_two_keys {a b : κ} (hab : a ≠ b) {xs : List α} (hn : (xs.map key).Nodup)
    {x y : α} (hx : findKey key a xs = some x) (hy : findKey key b xs = some y) :
    xs.filter (fun z => key z = a || key z = b) = [x, y] ∨
      xs.filter (fun z => key z = a || key z = b) = [y, x] := by
  induction xs with
  | nil => cases hx
  | cons z zs ih =>
    rw [List.map_cons, List.nodup_cons] at hn
    rw [findKey] at hx hy
    -- once one of the two is found, only the other key is left
    have hother : ∀ c d : κ, key z = c → zs.filter (fun w => key w = c || key w = d) =
        zs.filter (fun w => key w = d) := by
      intro c d hc
      apply List.filter_congr
      intro w hw
      have hne : key w ≠ c := fun he => hn.1 (by rw [hc, ← he]; exact List.mem_map_of_mem hw)
      simp [hne]
    by_cases hza : key z = a
    · rw [if_pos hza] at hx
      rw [if_neg fun hzb => hab (hza.symm.trans hzb)] at hy
      injection hx with hx
      left
      rw [List.filter_cons_of_pos (by simp [hza]), hother a b hza, filter_key hn.2 hy, hx]
    · rw [if_neg hza] at hx
      by_cases hzb : key z = b
      · rw [if_pos hzb] at hy
        injection hy with hy
        have hswap : zs.filter (fun w => key w = a || key w = b) =
            zs.filter (fun w => key w = b || key w = a) := by
          apply List.filter_congr
          intro w _
          exact Bool.or_comm _ _
        right
        rw [List.filter_cons_of_pos (by simp [hzb]), hswap, hother b a hzb, filter_key hn.2 hx, hy]
      · rw [if_neg hzb] at hy
        rw [List.filter_cons_of_neg (by simp [hza, hzb])]
        exact ih hn.2 hx hy

/-- The record with the key is changed, where nothing before it has the key. -/
theorem modifyKey_append_cons {xs ys : List α} {x : α} (f : α → α)
    (hxs : ∀ y ∈ xs, key y ≠ key x) :
    modifyKey key (key x) f (xs ++ x :: ys) = xs ++ f x :: ys := by
  induction xs with
  | nil => exact if_pos rfl
  | cons y xs ih =>
    rw [List.cons_append, modifyKey, if_neg (hxs y List.mem_cons_self),
      ih fun z hz => hxs z (List.mem_cons_of_mem y hz)]
    rfl

/-! ### Tables -/

section Table

variable {β : Type} {g : κ → β} {ks : List κ}

/-- In a table that lists keys with their values, the value of a key is found. -/
theorem findKey_table (h : k ∈ ks) :
    findKey Prod.fst k (ks.map fun x => (x, g x)) = some (k, g k) := by
  induction ks with
  | nil => cases h
  | cons x ks ih =>
    rw [List.map_cons, findKey]
    by_cases hx : x = k
    · rw [if_pos hx, hx]
    · rw [if_neg hx]
      rcases List.mem_cons.mp h with rfl | h
      · exact absurd rfl hx
      · exact ih h

/-- Where keys are distinct, the value of one is changed. -/
theorem modifyKey_table (b : β) (hn : ks.Nodup) :
    modifyKey Prod.fst k (fun _ => (k, b)) (ks.map fun x => (x, g x)) =
      ks.map fun x => (x, if x = k then b else g x) := by
  induction ks with
  | nil => rfl
  | cons x ks ih =>
    rw [List.nodup_cons] at hn
    rw [List.map_cons, modifyKey]
    by_cases hx : x = k
    · rw [if_pos hx, List.map_cons, if_pos hx, hx]
      congr 1
      refine List.map_congr_left fun y hy => ?_
      have hne : y ≠ k := fun he => hn.1 (by rw [hx, ← he]; exact hy)
      rw [if_neg hne]
    · rw [if_neg hx, ih hn.2, List.map_cons, if_neg hx]

end Table

section Modify

variable {f : α → α} (hf : ∀ x, key x = k → key (f x) = k)

include hf

theorem findKey_modifyKey (xs : List α) (k' : κ) :
    findKey key k' (modifyKey key k f xs) =
      if k' = k then (findKey key k' xs).map f else findKey key k' xs := by
  induction xs with
  | nil => simp [modifyKey, findKey]
  | cons x xs ih =>
    rw [modifyKey]
    by_cases hx : key x = k
    · rw [if_pos hx, findKey, hf x hx, findKey, hx]
      by_cases hk : k' = k
      · simp [hk]
      · simp [hk, Ne.symm hk]
    · rw [if_neg hx, findKey, ih, findKey]
      by_cases hk : k' = k
      · rw [if_pos hk, hk, if_neg hx, if_neg hx, if_pos rfl]
      · rw [if_neg hk, if_neg hk]

theorem map_modifyKey (xs : List α) : (modifyKey key k f xs).map key = xs.map key := by
  induction xs with
  | nil => rfl
  | cons x xs ih =>
    rw [modifyKey]
    split
    · rename_i hx
      rw [List.map_cons, List.map_cons, hf x hx, hx]
    · rw [List.map_cons, List.map_cons, ih]

end Modify

theorem first_iff {p : α → Bool} {Q : α → Prop} {xs : List α} :
    (∀ i, xs.findIdx? p = some i → ∃ x, xs[i]? = some x ∧ Q x) ↔
      ∀ (i : Nat) (x : α), xs[i]? = some x → p x → ¬ Q x →
        ∃ j < i, ∃ y, xs[j]? = some y ∧ p y ∧ Q y := by
  constructor
  · intro h i x hx hp hq
    obtain ⟨hi, rfl⟩ := List.getElem?_eq_some_iff.mp hx
    cases hfind : xs.findIdx? p with
    | none =>
      rw [List.findIdx?_eq_none_iff.mp hfind _ (List.getElem_mem hi)] at hp
      cases hp
    | some j =>
      obtain ⟨y, hy, hQ⟩ := h j hfind
      obtain ⟨hj, hpy, hmin⟩ := List.findIdx?_eq_some_iff_getElem.mp hfind
      obtain ⟨_, rfl⟩ := List.getElem?_eq_some_iff.mp hy
      rcases Nat.lt_trichotomy j i with hlt | rfl | hgt
      · exact ⟨j, hlt, _, hy, hpy, hQ⟩
      · exact absurd hQ hq
      · exact absurd hp (hmin i hgt)
  · intro h i hfind
    obtain ⟨hi, hp, hmin⟩ := List.findIdx?_eq_some_iff_getElem.mp hfind
    refine ⟨xs[i], List.getElem?_eq_getElem hi, Classical.byContradiction fun hq => ?_⟩
    obtain ⟨j, hlt, y, hy, hpy, -⟩ := h i _ (List.getElem?_eq_getElem hi) hp hq
    obtain ⟨_, rfl⟩ := List.getElem?_eq_some_iff.mp hy
    exact hmin j hlt hpy

end Pomelo.Lib
