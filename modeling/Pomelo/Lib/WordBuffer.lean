/-
  A byte buffer seen as 32-bit little-endian words.

  `wordAt data i` is word `i` of the buffer and `setWord data i w` replaces it. The word read is
  the one last set there, and setting one keeps every other (`wordAt_setWord`).
  `Holds data i ws` says that the buffer has the words `ws` from word `i` on.
-/
import Pomelo.Lib.Bytes

namespace Pomelo.Lib

/-- Word `i` of the buffer. -/
def wordAt (data : List UInt8) (i : Nat) : UInt32 :=
  UInt32.ofNat (leValue ((data.drop (4 * i)).take 4))

/-- The buffer with word `i` replaced. -/
def setWord (data : List UInt8) (i : Nat) (w : UInt32) : List UInt8 :=
  data.take (4 * i) ++ leBytes 4 w.toNat ++ data.drop (4 * i + 4)

theorem setWord_length {data : List UInt8} {i : Nat} (w : UInt32)
    (h : 4 * i + 4 ≤ data.length) : (setWord data i w).length = data.length := by
  simp [setWord]
  omega

theorem setWord_getElem? {data : List UInt8} {i : Nat} (w : UInt32)
    (h : 4 * i + 4 ≤ data.length) (k : Nat) :
    (setWord data i w)[k]? =
      if 4 * i ≤ k ∧ k < 4 * i + 4 then (leBytes 4 w.toNat)[k - 4 * i]? else data[k]? := by
  have hl : (data.take (4 * i)).length = 4 * i := by
    rw [List.length_take]
    omega
  unfold setWord
  rw [List.append_assoc]
  by_cases h1 : k < 4 * i
  · rw [if_neg (by omega), List.getElem?_append_left (by omega), List.getElem?_take_of_lt h1]
  · rw [List.getElem?_append_right (by omega), hl]
    by_cases h2 : k < 4 * i + 4
    · rw [if_pos (by omega), List.getElem?_append_left (by rw [leBytes_length]; omega)]
    · rw [if_neg (by omega), List.getElem?_append_right (by rw [leBytes_length]; omega),
        leBytes_length, List.getElem?_drop]
      congr 1
      omega

/-- The word read is the one last set there. -/
theorem wordAt_setWord {data : List UInt8} {i : Nat} (w : UInt32)
    (h : 4 * i + 4 ≤ data.length) (j : Nat) :
    wordAt (setWord data i w) j = if j = i then w else wordAt data j := by
  have hbytes : ((setWord data i w).drop (4 * j)).take 4 =
      if j = i then leBytes 4 w.toNat else (data.drop (4 * j)).take 4 := by
    apply List.ext_getElem?
    intro k
    rw [List.getElem?_take]
    by_cases hk : k < 4
    · rw [if_pos hk, List.getElem?_drop, setWord_getElem? w h]
      by_cases hj : j = i
      · subst hj
        rw [if_pos (by omega), if_pos rfl, Nat.add_sub_cancel_left]
      · rw [if_neg (by omega), if_neg hj, List.getElem?_take_of_lt hk, List.getElem?_drop]
    · rw [if_neg hk]
      split
      · rw [List.getElem?_eq_none (by rw [leBytes_length]; omega)]
      · rw [List.getElem?_take, if_neg hk]
  unfold wordAt
  rw [hbytes]
  split
  · have hw : w.toNat < 256 ^ 4 := w.toNat_lt
    rw [leValue_leBytes, Nat.mod_eq_of_lt hw, UInt32.ofNat_toNat]
  · rfl

/-- The buffer has the words `ws` from word `i` on. -/
def Holds (data : List UInt8) : Nat → List UInt32 → Prop
  | _, [] => True
  | i, w :: ws => 4 * i + 4 ≤ data.length ∧ wordAt data i = w ∧ Holds data (i + 1) ws

theorem holds_append {data : List UInt8} {i : Nat} {ws ws' : List UInt32} :
    Holds data i (ws ++ ws') ↔ Holds data i ws ∧ Holds data (i + ws.length) ws' := by
  induction ws generalizing i with
  | nil => simp [Holds]
  | cons w ws ih =>
    have hi : i + 1 + ws.length = i + (ws.length + 1) := by omega
    simp only [List.cons_append, Holds, ih, List.length_cons, hi, and_assoc]

/-- A buffer that agrees on the words holds them too. -/
theorem Holds.congr {data data' : List UInt8} {i : Nat} {ws : List UInt32}
    (h : Holds data i ws) (hlen : data'.length = data.length)
    (hw : ∀ j, i ≤ j → j < i + ws.length → wordAt data' j = wordAt data j) :
    Holds data' i ws := by
  induction ws generalizing i with
  | nil => trivial
  | cons w ws ih =>
    obtain ⟨hle, hword, hrest⟩ := h
    simp only [List.length_cons] at hw
    refine ⟨by omega, by rw [hw i (Nat.le_refl _) (by omega)]; exact hword,
      ih hrest fun j h1 h2 => hw j (by omega) (by omega)⟩

/-- The buffer with the words from `i` on replaced by `ws`. -/
def setWords (data : List UInt8) : Nat → List UInt32 → List UInt8
  | _, [] => data
  | i, w :: ws => setWords (setWord data i w) (i + 1) ws

theorem setWords_append (data : List UInt8) (i : Nat) (ws ws' : List UInt32) :
    setWords data i (ws ++ ws') = setWords (setWords data i ws) (i + ws.length) ws' := by
  induction ws generalizing data i with
  | nil => rfl
  | cons w ws ih =>
    have hi : i + 1 + ws.length = i + (ws.length + 1) := by omega
    rw [List.cons_append, setWords, ih, List.length_cons, hi, setWords]

theorem setWords_length {data : List UInt8} {i : Nat} {ws : List UInt32}
    (h : 4 * (i + ws.length) ≤ data.length) : (setWords data i ws).length = data.length := by
  induction ws generalizing data i with
  | nil => rfl
  | cons w ws ih =>
    rw [List.length_cons] at h
    have hlen := setWord_length w (show 4 * i + 4 ≤ data.length by omega)
    rw [setWords, ih (by omega), hlen]

/-- Words outside the range stay. -/
theorem wordAt_setWords_of_outside {data : List UInt8} {i : Nat} {ws : List UInt32}
    (h : 4 * (i + ws.length) ≤ data.length) {j : Nat} (hj : j < i ∨ i + ws.length ≤ j) :
    wordAt (setWords data i ws) j = wordAt data j := by
  induction ws generalizing data i with
  | nil => rfl
  | cons w ws ih =>
    rw [List.length_cons] at h hj
    have hle : 4 * i + 4 ≤ data.length := by omega
    rw [setWords, ih (by rw [setWord_length w hle]; omega) (by omega), wordAt_setWord w hle,
      if_neg (by omega)]

theorem holds_setWords {data : List UInt8} {i : Nat} {ws : List UInt32}
    (h : 4 * (i + ws.length) ≤ data.length) : Holds (setWords data i ws) i ws := by
  induction ws generalizing data i with
  | nil => trivial
  | cons w ws ih =>
    rw [List.length_cons] at h
    have hle : 4 * i + 4 ≤ data.length := by omega
    have hlen := setWord_length w hle
    have hall : 4 * (i + 1 + ws.length) ≤ (setWord data i w).length := by omega
    rw [setWords]
    refine ⟨by rw [setWords_length hall]; omega, ?_, ih hall⟩
    rw [wordAt_setWords_of_outside hall (Or.inl (by omega)), wordAt_setWord w hle, if_pos rfl]

/-- The words of the buffer from word `i` on, `n` of them. -/
def wordsFrom (data : List UInt8) (i n : Nat) : List UInt32 :=
  (List.range n).map fun k => wordAt data (i + k)

@[simp] theorem wordsFrom_length (data : List UInt8) (i n : Nat) :
    (wordsFrom data i n).length = n := by
  simp [wordsFrom]

theorem wordsFrom_succ (data : List UInt8) (i n : Nat) :
    wordsFrom data i (n + 1) = wordAt data i :: wordsFrom data (i + 1) n := by
  unfold wordsFrom
  rw [List.range_succ_eq_map, List.map_cons, List.map_map]
  congr 1
  apply List.map_congr_left
  intro k _
  show wordAt data (i + (k + 1)) = wordAt data (i + 1 + k)
  congr 1
  omega

theorem wordsFrom_of_holds {data : List UInt8} {i : Nat} {ws : List UInt32}
    (h : Holds data i ws) : wordsFrom data i ws.length = ws := by
  induction ws generalizing i with
  | nil => rfl
  | cons w ws ih =>
    obtain ⟨-, hw, hrest⟩ := h
    rw [List.length_cons, wordsFrom_succ, hw, ih hrest]

theorem holds_wordsFrom {data : List UInt8} {i n : Nat} (h : 4 * (i + n) ≤ data.length) :
    Holds data i (wordsFrom data i n) := by
  induction n generalizing i with
  | zero => trivial
  | succ n ih =>
    rw [wordsFrom_succ]
    exact ⟨by omega, rfl, ih (by omega)⟩

end Pomelo.Lib
