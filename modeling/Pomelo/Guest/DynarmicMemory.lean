/-
  Guest memory behind the emulator (`DynarmicMemory` of `guest_dynarmic/src/lib.rs`).

  `read` and `write` go through the memory of the emulator, which is a parameter: they move
  words when address and length are multiples of four, and bytes else. What is relied on is that
  a byte access is one of that byte, and an aligned word access one of the four bytes at its
  address, lowest first (`ByteWise`). Then both ways move the same bytes
  (`readWords_eq`, `readBytes_eq`, `writeWords_stores`, `writeBytes_stores`), so that which of
  them is taken makes no difference (`pathsAgree`).
-/
import Pomelo.Basic
import Pomelo.Lib.WordBuffer

namespace Pomelo

open Lib

/-- The memory of the emulator, with the accesses that the source makes of it. -/
class MemoryImpl (M : Type) where
  readU8 : M → Nat → Exec UInt8
  readU32 : M → Nat → Exec UInt32
  writeU8 : M → Nat → UInt8 → Exec M
  writeU32 : M → Nat → UInt32 → Exec M

section Assumptions

variable {M : Type} (mapped : M → Nat → Prop) (content : M → Cells)

/-- The bytes from `addr` are stored in the mapped memory, and no other changes. -/
structure StoresAt (mem mem' : M) (addr : Nat) (bytes : List UInt8) : Prop where
  keeps : ∀ x, mapped mem' x ↔ mapped mem x
  stores : ∀ x, mapped mem x → content mem' x = writeCells (content mem) addr bytes x

/-- What is assumed of the memory: its accesses to mapped memory return, and they are those of
    the bytes at their addresses. -/
structure ByteWise [MemoryImpl M] : Prop where
  readU8 : ∀ (mem : M) addr, mapped mem addr → MemoryImpl.readU8 mem addr = .ret (content mem addr)
  readU32 : ∀ (mem : M) addr, addr % 4 = 0 → (∀ i < 4, mapped mem (addr + i)) →
    MemoryImpl.readU32 mem addr = .ret (UInt32.ofNat (readWord (content mem) addr 4))
  writeU8 : ∀ (mem : M) addr byte, mapped mem addr →
    ∃ mem', MemoryImpl.writeU8 mem addr byte = .ret mem' ∧
      StoresAt mapped content mem mem' addr [byte]
  writeU32 : ∀ (mem : M) addr word, addr % 4 = 0 → (∀ i < 4, mapped mem (addr + i)) →
    ∃ mem', MemoryImpl.writeU32 mem addr word = .ret mem' ∧
      StoresAt mapped content mem mem' addr (leBytes 4 word.toNat)

end Assumptions

section Stores

variable {M : Type} {mapped : M → Nat → Prop} {content : M → Cells} {mem mem' mem'' : M}
  {addr : Nat}

theorem storesAt_nil (mem : M) (addr : Nat) : StoresAt mapped content mem mem addr [] where
  keeps _ := Iff.rfl
  stores x _ := by
    unfold writeCells
    split <;> rfl

/-- Bytes stored in two parts. -/
theorem StoresAt.append {xs ys : List UInt8} (h : StoresAt mapped content mem mem' addr xs)
    (h' : StoresAt mapped content mem' mem'' (addr + xs.length) ys) :
    StoresAt mapped content mem mem'' addr (xs ++ ys) where
  keeps x := (h'.keeps x).trans (h.keeps x)
  stores x hx := by
    rw [h'.stores x ((h.keeps x).mpr hx), writeCells_append]
    exact writeCells_congr (h.stores x hx) _ ys

end Stores

/-! ## The two ways -/

namespace DynarmicMemory

variable {M : Type} [MemoryImpl M]

/-- `LittleEndian::write_u32(&mut bytes[(i * 4)..], v)`. -/
def storeWord (bytes : List UInt8) (i : Nat) (v : UInt32) : Exec (List UInt8) :=
  if i * 4 + 4 ≤ bytes.length then .ret (setWord bytes i v) else .panic .sliceIndex

/-- `LittleEndian::read_u32(&bytes[(i * 4)..])`. -/
def loadWord (bytes : List UInt8) (i : Nat) : Exec UInt32 :=
  if i * 4 + 4 ≤ bytes.length then .ret (wordAt bytes i) else .panic .sliceIndex

/-- `addr + (i as u32 * 4)`. -/
def wordAddr (addr i : Nat) : Exec Nat := do
  let offset ← mulU32 (i % u32Size) 4
  addU32 addr offset

/-- `addr + i as u32`. -/
def byteAddr (addr i : Nat) : Exec Nat := addU32 addr (i % u32Size)

/-- The fast path of `read`: `n` words from the word `i` on. -/
def readWords (mem : M) (addr : Nat) : Nat → Nat → List UInt8 → Exec (List UInt8)
  | 0, _, bytes => return bytes
  | n + 1, i, bytes => do
    let a ← wordAddr addr i
    let v ← MemoryImpl.readU32 mem a
    let bytes ← storeWord bytes i v
    readWords mem addr n (i + 1) bytes

/-- The slow path of `read`: the bytes from the byte `i` on. -/
def readBytes (mem : M) (addr : Nat) : Nat → List UInt8 → Exec (List UInt8)
  | _, [] => return []
  | i, _ :: bytes => do
    let a ← byteAddr addr i
    let byte ← MemoryImpl.readU8 mem a
    let bytes ← readBytes mem addr (i + 1) bytes
    return byte :: bytes

/-- Address and length are multiples of four. -/
def aligned (addr length : Nat) : Bool := decide (addr &&& 3 = 0) && decide (length &&& 3 = 0)

/-- `read`: what is in `bytes` afterwards. -/
def read (mem : M) (addr : Nat) (bytes : List UInt8) : Exec (List UInt8) :=
  if aligned addr bytes.length then readWords mem addr (bytes.length >>> 2) 0 bytes
  else readBytes mem addr 0 bytes

/-- The fast path of `write`: `n` words from the word `i` on. -/
def writeWords (addr : Nat) (bytes : List UInt8) : Nat → Nat → M → Exec M
  | 0, _, mem => return mem
  | n + 1, i, mem => do
    let v ← loadWord bytes i
    let a ← wordAddr addr i
    let mem ← MemoryImpl.writeU32 mem a v
    writeWords addr bytes n (i + 1) mem

/-- The slow path of `write`: the bytes from the byte `i` on. -/
def writeBytes (addr : Nat) : Nat → List UInt8 → M → Exec M
  | _, [], mem => return mem
  | i, byte :: bytes, mem => do
    let a ← byteAddr addr i
    let mem ← MemoryImpl.writeU8 mem a byte
    writeBytes addr (i + 1) bytes mem

def write (mem : M) (addr : Nat) (bytes : List UInt8) : Exec M :=
  if aligned addr bytes.length then writeWords addr bytes (bytes.length >>> 2) 0 mem
  else writeBytes addr 0 bytes mem

/-! ## What they read and write -/

section Paths

variable {mapped : M → Nat → Prop} {content : M → Cells} {mem : M} {addr i n : Nat} {bytes : List UInt8}

theorem aligned_iff {length : Nat} :
    aligned addr length = true ↔ addr % 4 = 0 ∧ length % 4 = 0 := by
  have hmask : ∀ x : Nat, x &&& 3 = x % 4 := fun x => Nat.and_two_pow_sub_one_eq_mod x 2
  unfold aligned
  rw [Bool.and_eq_true, decide_eq_true_eq, decide_eq_true_eq, hmask, hmask]

theorem wordAddr_of_lt (h : addr + 4 * i < u32Size) : wordAddr addr i = .ret (addr + 4 * i) := by
  have hi : i % u32Size = i := Nat.mod_eq_of_lt (by omega)
  unfold wordAddr
  rw [hi, mulU32_of_lt (by omega), Outcome.ret_bind, Nat.mul_comm i 4, addU32_of_lt h]

theorem byteAddr_of_lt (h : addr + i < u32Size) : byteAddr addr i = .ret (addr + i) := by
  have hi : i % u32Size = i := Nat.mod_eq_of_lt (by omega)
  unfold byteAddr
  rw [hi, addU32_of_lt h]

theorem leBytes_ofNat_leValue (h : bytes.length = 4) :
    leBytes 4 (UInt32.ofNat (leValue bytes)).toNat = bytes := by
  have hlt := leValue_lt bytes
  rw [h] at hlt
  have hword : (UInt32.ofNat (leValue bytes)).toNat = leValue bytes := by
    rw [UInt32.toNat_ofNat']
    exact Nat.mod_eq_of_lt hlt
  rw [hword, ← h]
  exact leBytes_leValue bytes

/-- Reading words fills the bytes behind the first `4 * i` with those of the memory. -/
theorem readWords_eq (hmem : ByteWise mapped content) (h4 : addr % 4 = 0)
    (hlen : 4 * (i + n) = bytes.length) (hle : addr + bytes.length ≤ u32Size)
    (hmapped : ∀ j < bytes.length, mapped mem (addr + j)) :
    readWords mem addr n i bytes =
      .ret (bytes.take (4 * i) ++ readCells (content mem) (addr + 4 * i) (4 * n)) := by
  induction n generalizing i bytes with
  | zero =>
    have hall : 4 * i = bytes.length := by omega
    rw [readWords, Outcome.pure_eq, hall, List.take_length, Nat.mul_zero]
    rw [show readCells (content mem) (addr + bytes.length) 0 = [] from rfl, List.append_nil]
  | succ n ih =>
    have hin : 4 * i + 4 ≤ bytes.length := by omega
    have hword : MemoryImpl.readU32 mem (addr + 4 * i) =
        .ret (UInt32.ofNat (readWord (content mem) (addr + 4 * i) 4)) := by
      refine hmem.readU32 mem _ (by omega) fun j hj => ?_
      rw [Nat.add_assoc]
      exact hmapped (4 * i + j) (by omega)
    have hstored : leBytes 4 (UInt32.ofNat (readWord (content mem) (addr + 4 * i) 4)).toNat =
        readCells (content mem) (addr + 4 * i) 4 :=
      leBytes_ofNat_leValue (readCells_length _ _ _)
    have hlen' : (setWord bytes i (UInt32.ofNat (readWord (content mem) (addr + 4 * i) 4))).length =
        bytes.length := setWord_length _ hin
    have htake : (setWord bytes i (UInt32.ofNat (readWord (content mem) (addr + 4 * i) 4))).take
        (4 * (i + 1)) = bytes.take (4 * i) ++ readCells (content mem) (addr + 4 * i) 4 := by
      unfold setWord
      rw [hstored]
      refine List.take_left' ?_
      rw [List.length_append, List.length_take, readCells_length]
      omega
    unfold readWords
    rw [wordAddr_of_lt (by omega), Outcome.ret_bind, hword, Outcome.ret_bind, storeWord,
      if_pos (by omega), Outcome.ret_bind, ih (by omega) (by omega)
        (fun j hj => hmapped j (by omega)), htake, List.append_assoc]
    have hcount : 4 * (n + 1) = 4 + 4 * n := by omega
    have hpos : addr + 4 * (i + 1) = addr + 4 * i + 4 := by omega
    rw [hcount, hpos, ← readCells_add]

/-- Reading bytes gives those of the memory. -/
theorem readBytes_eq (hmem : ByteWise mapped content) (hle : addr + i + bytes.length ≤ u32Size)
    (hmapped : ∀ j < bytes.length, mapped mem (addr + i + j)) :
    readBytes mem addr i bytes = .ret (readCells (content mem) (addr + i) bytes.length) := by
  induction bytes generalizing i with
  | nil => rfl
  | cons byte bytes ih =>
    rw [List.length_cons] at hle hmapped ⊢
    have hbyte : MemoryImpl.readU8 mem (addr + i) = .ret (content mem (addr + i)) :=
      hmem.readU8 mem _ (hmapped 0 (by omega))
    have hrest : readBytes mem addr (i + 1) bytes =
        .ret (readCells (content mem) (addr + (i + 1)) bytes.length) := by
      refine ih (by omega) fun j hj => ?_
      have hj := hmapped (1 + j) (by omega)
      rwa [← Nat.add_assoc] at hj
    unfold readBytes
    rw [byteAddr_of_lt (by omega), Outcome.ret_bind, hbyte, Outcome.ret_bind, hrest,
      Outcome.ret_bind, Outcome.pure_eq, Nat.add_comm bytes.length 1, readCells_add]
    rfl

/-- Writing words stores the bytes behind the first `4 * i`. -/
theorem writeWords_stores (hmem : ByteWise mapped content) (h4 : addr % 4 = 0)
    (hlen : 4 * (i + n) = bytes.length) (hle : addr + bytes.length ≤ u32Size)
    (hmapped : ∀ j < bytes.length, mapped mem (addr + j)) :
    ∃ mem', writeWords addr bytes n i mem = .ret mem' ∧
      StoresAt mapped content mem mem' (addr + 4 * i) (bytes.drop (4 * i)) := by
  induction n generalizing i mem with
  | zero =>
    have hall : 4 * i = bytes.length := by omega
    refine ⟨mem, rfl, ?_⟩
    rw [hall, List.drop_length]
    exact storesAt_nil mem _
  | succ n ih =>
    have hfour : ((bytes.drop (4 * i)).take 4).length = 4 := by
      rw [List.length_take, List.length_drop]
      omega
    have hword : leBytes 4 (wordAt bytes i).toNat = (bytes.drop (4 * i)).take 4 :=
      leBytes_ofNat_leValue hfour
    have hrange : ∀ j < 4, mapped mem (addr + 4 * i + j) := by
      intro j hj
      rw [Nat.add_assoc]
      exact hmapped (4 * i + j) (by omega)
    obtain ⟨mem1, hwrite, hstores⟩ :=
      hmem.writeU32 mem (addr + 4 * i) (wordAt bytes i) (by omega) hrange
    have hmapped' : ∀ j < bytes.length, mapped mem1 (addr + j) := fun j hj =>
      (hstores.keeps _).mpr (hmapped j hj)
    obtain ⟨mem2, hrest, hstores'⟩ := ih (show 4 * (i + 1 + n) = bytes.length by omega) hmapped'
    refine ⟨mem2, ?_, ?_⟩
    · unfold writeWords
      rw [loadWord, if_pos (by omega), Outcome.ret_bind, wordAddr_of_lt (by omega),
        Outcome.ret_bind, hwrite, Outcome.ret_bind, hrest]
    · rw [hword] at hstores
      have hpos : addr + 4 * (i + 1) = addr + 4 * i + ((bytes.drop (4 * i)).take 4).length := by
        omega
      have hsplit : bytes.drop (4 * i) = (bytes.drop (4 * i)).take 4 ++ bytes.drop (4 * (i + 1)) := by
        have hdrop : bytes.drop (4 * (i + 1)) = (bytes.drop (4 * i)).drop 4 := by
          rw [List.drop_drop]
          congr 1
        rw [hdrop, List.take_append_drop]
      rw [hpos] at hstores'
      rw [hsplit]
      exact hstores.append hstores'

/-- Writing bytes stores them. -/
theorem writeBytes_stores (hmem : ByteWise mapped content) (hle : addr + i + bytes.length ≤ u32Size)
    (hmapped : ∀ j < bytes.length, mapped mem (addr + i + j)) :
    ∃ mem', writeBytes addr i bytes mem = .ret mem' ∧
      StoresAt mapped content mem mem' (addr + i) bytes := by
  induction bytes generalizing i mem with
  | nil => exact ⟨mem, rfl, storesAt_nil mem _⟩
  | cons byte bytes ih =>
    rw [List.length_cons] at hle hmapped
    obtain ⟨mem1, hwrite, hstores⟩ := hmem.writeU8 mem (addr + i) byte (hmapped 0 (by omega))
    have hmapped' : ∀ j < bytes.length, mapped mem1 (addr + (i + 1) + j) := by
      intro j hj
      have hj := hmapped (1 + j) (by omega)
      rw [← Nat.add_assoc] at hj
      exact (hstores.keeps _).mpr hj
    obtain ⟨mem2, hrest, hstores'⟩ := ih (by omega) hmapped'
    refine ⟨mem2, ?_, hstores.append hstores'⟩
    unfold writeBytes
    rw [byteAddr_of_lt (by omega), Outcome.ret_bind, hwrite, Outcome.ret_bind, hrest]

end Paths

end DynarmicMemory

/-- `read` and `write` move the bytes at the addresses, and so does the slow path alone. -/
structure PathsAgree {M : Type} [MemoryImpl M] (mapped : M → Nat → Prop) (content : M → Cells)
    (mem : M) (addr : Nat) (bytes : List UInt8) : Prop where
  reads : DynarmicMemory.read mem addr bytes =
    .ret (readCells (content mem) addr bytes.length)
  readsSlow : DynarmicMemory.readBytes mem addr 0 bytes =
    .ret (readCells (content mem) addr bytes.length)
  writes : ∃ mem', DynarmicMemory.write mem addr bytes = .ret mem' ∧
    StoresAt mapped content mem mem' addr bytes
  writesSlow : ∃ mem', DynarmicMemory.writeBytes addr 0 bytes mem = .ret mem' ∧
    StoresAt mapped content mem mem' addr bytes

section Agree

variable {M : Type} [MemoryImpl M] {mapped : M → Nat → Prop} {content : M → Cells}

/-- **The two paths agree.** On mapped memory within the 32 bits, `read` fills the buffer with the
    bytes at the addresses, and `write` stores the bytes there and changes no other, whether
    words or bytes are moved; no address overflows. -/
theorem pathsAgree (hmem : ByteWise mapped content) (mem : M) (addr : Nat) (bytes : List UInt8)
    (hle : addr + bytes.length ≤ u32Size) (hmapped : ∀ j < bytes.length, mapped mem (addr + j)) :
    PathsAgree mapped content mem addr bytes := by
  have hread : DynarmicMemory.readBytes mem addr 0 bytes =
      .ret (readCells (content mem) addr bytes.length) :=
    DynarmicMemory.readBytes_eq hmem hle hmapped
  have hwrite : ∃ mem', DynarmicMemory.writeBytes addr 0 bytes mem = .ret mem' ∧
      StoresAt mapped content mem mem' addr bytes :=
    DynarmicMemory.writeBytes_stores hmem hle hmapped
  have hcount : DynarmicMemory.aligned addr bytes.length = true →
      addr % 4 = 0 ∧ 4 * (0 + bytes.length >>> 2) = bytes.length := by
    intro haligned
    obtain ⟨haddr, hlen⟩ := DynarmicMemory.aligned_iff.mp haligned
    rw [Nat.shiftRight_eq_div_pow]
    exact ⟨haddr, by omega⟩
  refine ⟨?_, hread, ?_, hwrite⟩
  · unfold DynarmicMemory.read
    by_cases haligned : DynarmicMemory.aligned addr bytes.length = true
    · obtain ⟨haddr, hlen⟩ := hcount haligned
      have hwords := DynarmicMemory.readWords_eq hmem haddr hlen hle hmapped
      rw [Nat.zero_add] at hlen
      rw [Nat.mul_zero, List.take_zero, List.nil_append, Nat.add_zero, hlen] at hwords
      rw [if_pos haligned]
      exact hwords
    · rw [if_neg haligned]
      exact hread
  · unfold DynarmicMemory.write
    by_cases haligned : DynarmicMemory.aligned addr bytes.length = true
    · obtain ⟨haddr, hlen⟩ := hcount haligned
      rw [if_pos haligned]
      exact DynarmicMemory.writeWords_stores hmem haddr hlen hle hmapped
    · rw [if_neg haligned]
      exact hwrite

end Agree

/-- A memory in which every address is mapped. -/
structure WholeSpace where
  cells : Cells

instance : MemoryImpl WholeSpace where
  readU8 mem addr := .ret (mem.cells addr)
  readU32 mem addr := .ret (UInt32.ofNat (readWord mem.cells addr 4))
  writeU8 mem addr byte := .ret ⟨writeCells mem.cells addr [byte]⟩
  writeU32 mem addr word := .ret ⟨writeCells mem.cells addr (leBytes 4 word.toNat)⟩

theorem wholeSpace_byteWise : ByteWise (fun (_ : WholeSpace) addr => addr < u32Size)
    WholeSpace.cells where
  readU8 _ _ _ := rfl
  readU32 _ _ _ _ := rfl
  writeU8 _ _ _ _ := ⟨_, rfl, fun _ => Iff.rfl, fun _ _ => rfl⟩
  writeU32 _ _ _ _ _ := ⟨_, rfl, fun _ => Iff.rfl, fun _ _ => rfl⟩

/-- The last word of the address space. -/
theorem pathsAgree_lastWord : PathsAgree (fun (_ : WholeSpace) addr => addr < u32Size)
    WholeSpace.cells ⟨fun _ => 0⟩ 0xFFFFFFFC [1, 2, 3, 4] :=
  pathsAgree wholeSpace_byteWise ⟨fun _ => 0⟩ 0xFFFFFFFC [1, 2, 3, 4] (by decide) (by decide)

end Pomelo
