/-
  Little-endian words and byte stores.

  * `leBytes k v` / `leValue`: the `k` low bytes of `v`, lowest first, and back
    (`leValue_leBytes`, `leBytes_leValue`).
  * `Cells`: a byte at every address. `readCells` and `writeCells` move runs of bytes;
    `readCells_writeCells` and `readCells_writeCells_of_disjoint` say what a read sees
    after a write, and `readWord` is the little-endian value of a run.
-/
import Mathlib.Algebra.Group.Nat.Defs

namespace Pomelo.Lib

/-! ## Little-endian words -/

/-- The `k` low bytes of `v`, lowest first. -/
def leBytes : Nat → Nat → List UInt8
  | 0, _ => []
  | k + 1, v => UInt8.ofNat (v % 256) :: leBytes k (v / 256)

/-- The value of a byte list, lowest byte first. -/
def leValue : List UInt8 → Nat
  | [] => 0
  | b :: bs => b.toNat + 256 * leValue bs

@[simp] theorem leBytes_length (k v : Nat) : (leBytes k v).length = k := by
  induction k generalizing v with
  | zero => rfl
  | succ k ih => simp [leBytes, ih]

theorem leValue_leBytes (k v : Nat) : leValue (leBytes k v) = v % 256 ^ k := by
  induction k generalizing v with
  | zero => simp [leBytes, leValue, Nat.mod_one]
  | succ k ih =>
    have hb : (UInt8.ofNat (v % 256)).toNat = v % 256 := by
      rw [UInt8.toNat_ofNat']
      omega
    rw [leBytes, leValue, ih, hb, Nat.pow_succ, Nat.mul_comm _ 256, Nat.mod_mul]

theorem leValue_lt (bs : List UInt8) : leValue bs < 256 ^ bs.length := by
  induction bs with
  | nil => simp [leValue]
  | cons b bs ih =>
    have hb := b.toNat_lt
    rw [leValue, List.length_cons, Nat.pow_succ]
    omega

theorem leBytes_leValue (bs : List UInt8) : leBytes bs.length (leValue bs) = bs := by
  induction bs with
  | nil => rfl
  | cons b bs ih =>
    have hb := b.toNat_lt
    have h1 : (b.toNat + 256 * leValue bs) % 256 = b.toNat := by omega
    have h2 : (b.toNat + 256 * leValue bs) / 256 = leValue bs := by omega
    rw [List.length_cons, leBytes, leValue, h1, h2, ih, UInt8.ofNat_toNat]

/-! ## Byte stores -/

/-- A byte at every address. -/
abbrev Cells := Nat → UInt8

/-- The `n` bytes from address `a`. -/
def readCells (c : Cells) (a n : Nat) : List UInt8 :=
  (List.range n).map fun i => c (a + i)

/-- Store `bs` from address `a`; every other byte stays. -/
def writeCells (c : Cells) (a : Nat) (bs : List UInt8) : Cells :=
  fun x => if a ≤ x then (bs[x - a]?).getD (c x) else c x

/-- The little-endian value of the `n` bytes from address `a`. -/
def readWord (c : Cells) (a n : Nat) : Nat := leValue (readCells c a n)

@[simp] theorem readCells_length (c : Cells) (a n : Nat) : (readCells c a n).length = n := by
  simp [readCells]

theorem readCells_getElem (c : Cells) (a n i : Nat) (h : i < (readCells c a n).length) :
    (readCells c a n)[i] = c (a + i) := by
  simp [readCells]

theorem readCells_congr {c c' : Cells} {a a' n : Nat} (h : ∀ i < n, c (a + i) = c' (a' + i)) :
    readCells c a n = readCells c' a' n :=
  List.map_congr_left fun i hi => h i (List.mem_range.mp hi)

/-- A run of bytes is the run of its first part and the run after it. -/
theorem readCells_add (c : Cells) (a m n : Nat) :
    readCells c a (m + n) = readCells c a m ++ readCells c (a + m) n := by
  simp [readCells, List.range_add, Function.comp_def, Nat.add_assoc]

/-- A part of a run is the run from where the part starts. -/
theorem readCells_sub (c : Cells) (a : Nat) {k m n : Nat} (h : k + m ≤ n) :
    ((readCells c a n).drop k).take m = readCells c (a + k) m := by
  apply List.ext_getElem
  · simp
    omega
  · intro i h1 h2
    simp [readCells, Nat.add_assoc]

theorem readWord_lt (c : Cells) (a n : Nat) : readWord c a n < 256 ^ n := by
  have h := leValue_lt (readCells c a n)
  rwa [readCells_length] at h

theorem writeCells_of_lt {c : Cells} {a : Nat} {bs : List UInt8} {x : Nat} (h : x < a) :
    writeCells c a bs x = c x := by
  simp [writeCells, Nat.not_le.mpr h]

theorem writeCells_of_ge {c : Cells} {a : Nat} {bs : List UInt8} {x : Nat}
    (h : a + bs.length ≤ x) : writeCells c a bs x = c x := by
  rw [writeCells, if_pos (by omega), List.getElem?_eq_none (by omega), Option.getD_none]

theorem writeCells_in {c : Cells} {a : Nat} {bs : List UInt8} {i : Nat} (h : i < bs.length) :
    writeCells c a bs (a + i) = bs[i] := by
  rw [writeCells, if_pos (by omega), Nat.add_sub_cancel_left, List.getElem?_eq_getElem h,
    Option.getD_some]

/-- Bytes are stored in two parts as they are at once. -/
theorem writeCells_append (c : Cells) (a : Nat) (xs ys : List UInt8) :
    writeCells c a (xs ++ ys) = writeCells (writeCells c a xs) (a + xs.length) ys := by
  funext x
  by_cases hfirst : x < a + xs.length
  · rw [writeCells_of_lt hfirst]
    unfold writeCells
    by_cases hle : a ≤ x
    · rw [if_pos hle, if_pos hle, List.getElem?_append_left (by omega)]
    · rw [if_neg hle, if_neg hle]
  · by_cases hlast : x < a + xs.length + ys.length
    · have hin : ∃ i, x = a + xs.length + i ∧ i < ys.length :=
        ⟨x - (a + xs.length), by omega, by omega⟩
      obtain ⟨i, rfl, hi⟩ := hin
      have hpos : a + xs.length + i = a + (xs.length + i) := by omega
      rw [writeCells_in hi, hpos, writeCells_in (by rw [List.length_append]; omega),
        List.getElem_append_right (by omega)]
      congr 1
      omega
    · have hlen : (xs ++ ys).length = xs.length + ys.length := List.length_append
      rw [writeCells_of_ge (by omega), writeCells_of_ge (by omega), writeCells_of_ge (by omega)]

/-- What a write leaves at an address depends on what was there. -/
theorem writeCells_congr {c c' : Cells} {x : Nat} (h : c x = c' x) (a : Nat) (bs : List UInt8) :
    writeCells c a bs x = writeCells c' a bs x := by
  unfold writeCells
  rw [h]

/-- A read of the range just written returns what was written. -/
theorem readCells_writeCells (c : Cells) (a : Nat) (bs : List UInt8) :
    readCells (writeCells c a bs) a bs.length = bs := by
  apply List.ext_getElem
  · simp
  · intro i h1 h2
    rw [readCells_getElem, writeCells_in h2]

/-- A read inside the range just written returns that part of what was written. -/
theorem readCells_writeCells_sub (c : Cells) (a k n : Nat) (bs : List UInt8)
    (h : k + n ≤ bs.length) :
    readCells (writeCells c a bs) (a + k) n = (bs.drop k).take n := by
  apply List.ext_getElem
  · simp
    omega
  · intro i h1 h2
    rw [readCells_length] at h1
    rw [readCells_getElem, Nat.add_assoc, writeCells_in (by omega)]
    simp

/-- A write elsewhere does not change what a read returns. -/
theorem readCells_writeCells_of_disjoint (c : Cells) {a b n : Nat} {bs : List UInt8}
    (h : b + n ≤ a ∨ a + bs.length ≤ b) :
    readCells (writeCells c a bs) b n = readCells c b n := by
  apply readCells_congr
  intro i hi
  rcases h with h | h
  · exact writeCells_of_lt (by omega)
  · exact writeCells_of_ge (by omega)

end Pomelo.Lib
