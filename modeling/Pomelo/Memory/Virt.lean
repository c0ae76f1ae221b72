/-
  `VirtualMemory` (`kernel/src/memory/virt.rs`): spans of pages mapped at page numbers.

  An access is a loop over the spans it crosses: look up the span of the current page, take as
  much of the access as the span can serve, and go on behind it. `nextChunk` is the part that
  `read` and `write` share. `write` turns the address into an offset within the span before it
  hands it to the span's backing; `read` hands over the address itself.

  The loops run on fuel: each iteration that serves a byte shortens the rest, and one that
  serves none leaves every variable as it was, so one iteration more than there are bytes
  decides the outcome.
-/
import Pomelo.Memory.PageSlice
import Pomelo.Lib.Extent
import Pomelo.Lib.OrderedMap
import Mathlib.Data.Nat.Basic

namespace Pomelo

open Lib

inductive PageSpanKind (M : Type) where
  | normal (backing : M)

structure PageSpan (M T : Type) where
  size : Nat
  kind : PageSpanKind M
  tag : T

structure VirtualMemory (M T : Type) where
  pages : OrderedMap Nat (PageSpan M T)

/-- What `lookup` finds: the span, and the page's offset from the span's start, in pages. -/
structure MemoryLookup (α : Type) where
  item : α
  offset : Nat

namespace VirtualMemory

variable {M T : Type} [Memory M]

def new : VirtualMemory M T := ⟨OrderedMap.empty⟩

omit [Memory M] in
/-- The stored spans, each by its first page and its number of pages. -/
def extents (self : VirtualMemory M T) : List Extent :=
  self.pages.entries.map fun e => (e.1, e.2.size)

omit [Memory M] in
/-- `VirtualMemory::lookup`: only the last span that starts at or below the page is looked
    at. -/
def lookup (self : VirtualMemory M T) (page : Nat) :
    Exec (Option (MemoryLookup (PageSpan M T))) :=
  match self.pages.floor page with
  | none => return none
  | some (foundPage, foundItem) => do
    let fin ← addU32 foundPage foundItem.size
    if fin > page then return some { item := foundItem, offset := page - foundPage }
    else return none

/-- `VirtualMemory::map_memory`. -/
def mapMemory (self : VirtualMemory M T) (addr : Nat) (mem : M) (tag : T) : VirtualMemory M T :=
  let pageSpan := { size := Memory.sizeInPages mem, kind := .normal mem, tag := tag }
  { self with pages := self.pages.insert (addr >>> 12) pageSpan }

omit [Memory M] in
/-- The head of both loops: the span at `addr`, and how many of the `rem` bytes it serves. -/
def nextChunk (self : VirtualMemory M T) (addr rem pageOffset : Nat) :
    Exec (MemoryLookup (PageSpan M T) × Nat) := do
  let found ← self.lookup (addr >>> 12)
  let found ← Outcome.expect found (.expect "Unmapped memory read")
  let itemPages ← subU32 found.item.size found.offset
  let itemBytes ← subU32 (shlU32 itemPages 12) pageOffset
  return (found, if itemBytes > rem then rem else itemBytes)

/-- The loop of `read` into a buffer of `len` bytes; `out` is what it has filled so far. -/
def readLoop (self : VirtualMemory M T) (c : Cells) (len : Nat) :
    Nat → Nat → Nat → Nat → Nat → List UInt8 → Exec (List UInt8)
  | 0, _, _, _, _, _ => .diverge
  | fuel + 1, addr, rem, pageOffset, sliceOffset, out =>
    if rem > 0 then do
      let (found, max) ← self.nextChunk addr rem pageOffset
      let sliceEnd ← addU32 sliceOffset max
      -- `&mut bytes[slice_offset .. slice_offset + max]`
      Outcome.assert (decide (sliceEnd ≤ len)) .sliceIndex
      let chunk ← match found.item.kind with
        | .normal backing => Memory.read backing c addr max
      let addr ← addU32 addr max
      let sliceOffset ← addU32 sliceOffset max
      let rem ← subU32 rem max
      self.readLoop c len fuel addr rem 0 sliceOffset (out ++ chunk)
    else return out

/-- The loop of `write` from the buffer `bytes`. -/
def writeLoop (self : VirtualMemory M T) (bytes : List UInt8) :
    Nat → Nat → Nat → Nat → Nat → Cells → Exec Cells
  | 0, _, _, _, _, _ => .diverge
  | fuel + 1, addr, rem, pageOffset, sliceOffset, c =>
    if rem > 0 then do
      let (found, max) ← self.nextChunk addr rem pageOffset
      let sliceEnd ← addU32 sliceOffset max
      Outcome.assert (decide (sliceEnd ≤ bytes.length)) .sliceIndex
      let chunk := (bytes.drop sliceOffset).take max
      let c ← match found.item.kind with
        | .normal backing =>
          Memory.write backing c (shlU32 found.offset 12 ||| (addr &&& 0xFFF)) chunk
      let addr ← addU32 addr max
      let sliceOffset ← addU32 sliceOffset max
      let rem ← subU32 rem max
      self.writeLoop bytes fuel addr rem 0 sliceOffset c
    else return c

instance : Memory (VirtualMemory M T) where
  sizeInPages _ := 0 -- Unsized
  read self c addr n :=
    self.readLoop c n (n + 1) addr (n % u32Size) (addr &&& 0xFFF) 0 []
  write self c addr bytes :=
    self.writeLoop bytes (bytes.length + 1) addr (bytes.length % u32Size) (addr &&& 0xFFF) 0 c

end VirtualMemory

end Pomelo
