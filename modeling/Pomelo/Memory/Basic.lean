/-
  The `Memory` trait, and the flat byte store.

  `read` and `write` take `&self` in the source and move bytes through cells, so a memory here
  is a reference into the host's cells: an operation gets the cells and a write returns them
  changed. The provided methods `read_u8 .. write_u64` are one definition each way, at the
  width of the member. `FlatMemory` is the memory whose byte at an address is the cell of that
  address; it is what the allocator's results assume behind it.
-/
import Pomelo.Basic
import Pomelo.Lib.Bytes

namespace Pomelo

open Lib

/-- The `Memory` trait over the host's cells. -/
class Memory (M : Type) where
  sizeInPages : M → Nat
  read : M → Cells → Nat → Nat → Exec (List UInt8)
  write : M → Cells → Nat → List UInt8 → Exec Cells

namespace Memory

variable {M : Type} [Memory M]

/-- `read_u8 .. read_u64`: read `k` bytes and decode them little-endian. -/
def readUInt (k : Nat) (mem : M) (c : Cells) (addr : Nat) : Exec Nat := do
  let data ← read mem c addr k
  return leValue data

/-- `write_u8 .. write_u64`: write the `k` little-endian bytes of the value. -/
def writeUInt (k : Nat) (mem : M) (c : Cells) (addr value : Nat) : Exec Cells :=
  write mem c addr (leBytes k value)

def readU8 (mem : M) (c : Cells) (addr : Nat) : Exec Nat := readUInt 1 mem c addr
def readU16 (mem : M) (c : Cells) (addr : Nat) : Exec Nat := readUInt 2 mem c addr
def readU32 (mem : M) (c : Cells) (addr : Nat) : Exec Nat := readUInt 4 mem c addr
def readU64 (mem : M) (c : Cells) (addr : Nat) : Exec Nat := readUInt 8 mem c addr

def writeU8 (mem : M) (c : Cells) (addr value : Nat) : Exec Cells := writeUInt 1 mem c addr value
def writeU16 (mem : M) (c : Cells) (addr value : Nat) : Exec Cells := writeUInt 2 mem c addr value
def writeU32 (mem : M) (c : Cells) (addr value : Nat) : Exec Cells := writeUInt 4 mem c addr value
def writeU64 (mem : M) (c : Cells) (addr value : Nat) : Exec Cells := writeUInt 8 mem c addr value

end Memory

/-- A flat byte store of `pages` pages: the byte at an address is the cell of that address. -/
structure FlatMemory where
  pages : Nat

instance : Memory FlatMemory where
  sizeInPages m := m.pages
  read _ c addr n := .ret (readCells c addr n)
  write _ c addr bytes := .ret (writeCells c addr bytes)

@[simp] theorem flat_read (m : FlatMemory) (c : Cells) (addr n : Nat) :
    Memory.read m c addr n = .ret (readCells c addr n) := rfl

@[simp] theorem flat_write (m : FlatMemory) (c : Cells) (addr : Nat) (bytes : List UInt8) :
    Memory.write m c addr bytes = .ret (writeCells c addr bytes) := rfl

end Pomelo
