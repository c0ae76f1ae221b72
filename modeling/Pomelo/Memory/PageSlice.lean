/-
  `PageSlice`: a run of host pages as a `Memory` (`kernel/src/memory/page_slice.rs`).

  A slice is a reference, so here it is where its pages lie in the host's cells and how many
  there are. Two slices may lie on the same cells. An access outside the slice is an
  out-of-range slice index in the source.
-/
import Pomelo.Memory.Basic

namespace Pomelo

open Lib

/-- A slice of `pages` pages whose first byte is the host cell `base`. -/
structure PageSlice where
  base : Nat
  pages : Nat
deriving DecidableEq, Repr

instance : Memory PageSlice where
  -- `len() as u32`
  sizeInPages self := self.pages % u32Size
  read self c addr n :=
    if addr + n ≤ self.pages * 4096 then .ret (readCells c (self.base + addr) n)
    else .panic .sliceIndex
  write self c addr bytes :=
    if addr + bytes.length ≤ self.pages * 4096 then
      .ret (writeCells c (self.base + addr) bytes)
    else .panic .sliceIndex

theorem PageSlice.sizeInPages_of_lt {s : PageSlice} (h : s.pages < u32Size) :
    Memory.sizeInPages s = s.pages :=
  Nat.mod_eq_of_lt h

theorem PageSlice.read_of_le {s : PageSlice} {addr n : Nat} (c : Cells)
    (h : addr + n ≤ s.pages * 4096) :
    Memory.read s c addr n = .ret (readCells c (s.base + addr) n) :=
  if_pos h

theorem PageSlice.read_of_gt {s : PageSlice} {addr n : Nat} (c : Cells)
    (h : s.pages * 4096 < addr + n) : Memory.read s c addr n = .panic .sliceIndex :=
  if_neg (Nat.not_le.mpr h)

theorem PageSlice.write_of_le {s : PageSlice} {addr : Nat} {bytes : List UInt8} (c : Cells)
    (h : addr + bytes.length ≤ s.pages * 4096) :
    Memory.write s c addr bytes = .ret (writeCells c (s.base + addr) bytes) :=
  if_pos h

end Pomelo
