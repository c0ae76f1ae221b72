/-
  What every part of the model shares: panics, calls, and checked arithmetic.

  A panic keeps the text the source gives it. The operations are those of a build with
  overflow checks: a result that does not fit panics.
-/
import Pomelo.Lib.Outcome

namespace Pomelo

open Lib

/-- Why a call unwinds, with the text of the source. -/
inductive Panic where
  | expect (msg : String)
  | assertion (cond : String)
  | unwrap
  | unreachable (msg : String)
  | unimplemented (msg : String)
  | panic (msg : String)
  | overflow
  | sliceIndex
deriving DecidableEq, Repr

/-- A call of the modelled program. -/
abbrev Exec := Outcome Panic

/-- The numbers of a `u32`. -/
def u32Size : Nat := 4294967296

/-- `a + b` on `u32`. -/
def addU32 (a b : Nat) : Exec Nat :=
  if a + b < u32Size then .ret (a + b) else .panic .overflow

/-- `a + b` on `u64`. -/
def addU64 (a b : UInt64) : Exec UInt64 :=
  if a.toNat + b.toNat < 18446744073709551616 then .ret (a + b) else .panic .overflow

/-- `a * b` on `u32`. -/
def mulU32 (a b : Nat) : Exec Nat :=
  if a * b < u32Size then .ret (a * b) else .panic .overflow

/-- `a - b` on `u32`. -/
def subU32 (a b : Nat) : Exec Nat :=
  if b ≤ a then .ret (a - b) else .panic .overflow

/-- `a - b` on `usize`. -/
def subUsize (a b : Nat) : Exec Nat :=
  if b ≤ a then .ret (a - b) else .panic .overflow

/-- `+= 1` on a `u8`. -/
def incU8 (n : UInt8) : Exec UInt8 :=
  if n.toNat + 1 < 256 then .ret (n + 1) else .panic .overflow

/-- `a << n` on `u32` (`n < 32`): the bits shifted out are lost. -/
def shlU32 (a n : Nat) : Nat := (a <<< n) % u32Size

theorem addU32_of_lt {a b : Nat} (h : a + b < u32Size) : addU32 a b = .ret (a + b) :=
  if_pos h

theorem addU32_eq_ret {a b n : Nat} : addU32 a b = .ret n ↔ a + b < u32Size ∧ a + b = n := by
  unfold addU32
  split
  · rename_i h
    simp [h]
  · rename_i h
    simp [h]

theorem mulU32_of_lt {a b : Nat} (h : a * b < u32Size) : mulU32 a b = .ret (a * b) :=
  if_pos h

theorem subU32_of_le {a b : Nat} (h : b ≤ a) : subU32 a b = .ret (a - b) :=
  if_pos h

/-- Shifting a page number of the 20 bits by the page size loses no bit. -/
theorem shlU32_page {p : Nat} (h : p < 1048576) : shlU32 p 12 = p * 4096 := by
  rw [shlU32, Nat.shiftLeft_eq, u32Size]
  omega

theorem ofNat_toNat_of_lt {n : Nat} (h : n < 256) : (UInt8.ofNat n).toNat = n := by
  rw [UInt8.toNat_ofNat']
  exact Nat.mod_eq_of_lt h

theorem incU8_ofNat {n : Nat} (h : n + 1 < 256) :
    incU8 (UInt8.ofNat n) = .ret (UInt8.ofNat (n + 1)) := by
  unfold incU8
  rw [ofNat_toNat_of_lt (by omega), if_pos h, UInt8.ofNat_add]
  rfl

end Pomelo
