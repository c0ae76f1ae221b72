/-
  KMM, the physical page allocator (`kernel/src/memory/kmm.rs`).

  A region keeps its free blocks in a list threaded through the free pages themselves: the
  first 12 bytes of a free block's first page hold its size in pages and the addresses of the
  next and the previous block. Everything here is the source's, over any `Memory`:
  `allocateLinear` walks the list from `first`, `free` finds the place by address, links the
  block in and merges it with what it touches. The two loops have no bound of their own and
  run on fuel.

  A `u32` is a natural number here, and the arithmetic checks are those of `Pomelo.Basic`.
-/
import Pomelo.Memory.Basic

namespace Pomelo

open Lib

/-! ## Block header pointers

  A `MemoryBlockHeaderPtr` is a page number in `1 ..= 0xFFFFF`. -/

namespace MemoryBlockHeaderPtr

def fromPtr (ptr : Nat) : Option Nat :=
  if ptr &&& 0xFFF ≠ 0 then none
  else if ptr &&& 0xFFFFF000 = 0 then none
  else some (ptr >>> 12)

def offset (self pages : Nat) : Option Nat :=
  -- `checked_add` on `u32`
  if self + pages < u32Size then
    let newPtr := self + pages
    if newPtr &&& 0x000FFFFF ≠ newPtr then none else some newPtr
  else none

/-- `FromUnsafeData for Option<MemoryBlockHeaderPtr>`: `none` is fatal, `some none` the null
    pointer. -/
def fromUnsafeData (ptr : Nat) : Option (Option Nat) :=
  if ptr &&& 0xFFF ≠ 0 then none
  else if ptr &&& 0xFFFFF000 = 0 then some none
  else some (some (ptr >>> 12))

def intoUnsafe (ptr : Option Nat) : Nat :=
  (ptr.map fun p => shlU32 p 12).getD 0

end MemoryBlockHeaderPtr

/-- `UnsafeData::assert_safe` on a link word. -/
def assertSafe (raw : Nat) : Exec (Option Nat) :=
  Outcome.expect (MemoryBlockHeaderPtr.fromUnsafeData raw) (.expect "Unsafe data detected")

/-- A block header: the size in pages and the two raw link words. -/
structure MemoryBlockHeader where
  size : Nat
  next : Nat
  prev : Nat
deriving DecidableEq, Repr

/-- A region: its free list, its first address and its size in pages. -/
structure RegionDesc where
  first : Option Nat := none
  last : Option Nat := none
  start : Nat := 0
  size : Nat := 0
deriving DecidableEq, Repr

inductive MemoryRegion where
  | app
  | system
  | base
deriving DecidableEq, Repr

/-- The three regions (the source keeps each behind a mutex held for the whole call). -/
structure KMM where
  regionApp : RegionDesc := {}
  regionSystem : RegionDesc := {}
  regionBase : RegionDesc := {}
deriving DecidableEq, Repr

/-- `select_region!`. -/
def KMM.region (kmm : KMM) : MemoryRegion → RegionDesc
  | .app => kmm.regionApp
  | .system => kmm.regionSystem
  | .base => kmm.regionBase

/-- `select_region_mut!`: replace the selected region. -/
def KMM.setRegion (kmm : KMM) (region : MemoryRegion) (desc : RegionDesc) : KMM :=
  match region with
  | .app => { kmm with regionApp := desc }
  | .system => { kmm with regionSystem := desc }
  | .base => { kmm with regionBase := desc }

@[simp] theorem KMM.region_setRegion (kmm : KMM) (r : MemoryRegion) (desc : RegionDesc) :
    (kmm.setRegion r desc).region r = desc := by
  cases r <;> rfl

theorem KMM.region_setRegion_of_ne (kmm : KMM) {r r' : MemoryRegion} (h : r' ≠ r)
    (desc : RegionDesc) : (kmm.setRegion r desc).region r' = kmm.region r' := by
  cases r <;> cases r' <;> first | rfl | exact absurd rfl h

section Calls

variable {M : Type} [Memory M]

/-- `MemoryBlockHeaderPtr::read`. -/
def readHeader (mem : M) (c : Cells) (ptr : Nat) : Exec MemoryBlockHeader := do
  let data ← Memory.read mem c (shlU32 ptr 12) 12
  return {
    size := leValue (data.take 4)
    next := leValue ((data.drop 4).take 4)
    prev := leValue ((data.drop 8).take 4) }

/-- `MemoryBlockHeaderPtr::write`. -/
def writeHeader (mem : M) (c : Cells) (ptr : Nat) (header : MemoryBlockHeader) : Exec Cells :=
  Memory.write mem c (shlU32 ptr 12)
    (leBytes 4 header.size ++ leBytes 4 header.next ++ leBytes 4 header.prev)

/-- `KMM::init_region`. -/
def initRegion (mem : M) (kmm : KMM) (region : MemoryRegion) (addr pages : Nat) (c : Cells) :
    Exec (KMM × Cells) := do
  let ptr ← Outcome.expect (MemoryBlockHeaderPtr.fromPtr addr)
    (.expect "Invalid pointer passed into init_region")
  let c ← writeHeader mem c ptr
    { size := pages, next := MemoryBlockHeaderPtr.intoUnsafe none,
      prev := MemoryBlockHeaderPtr.intoUnsafe none }
  return (kmm.setRegion region
    { first := some ptr, last := some ptr, start := addr, size := pages }, c)

/-- What `allocate_linear` does with the block `ptr` that is large enough: the first `pages`
    pages are handed out, and a remainder becomes a block in its place. -/
def takeBlock (mem : M) (region : RegionDesc) (ptr : Nat) (memoryBlock : MemoryBlockHeader)
    (pages : Nat) (c : Cells) : Exec (RegionDesc × Cells) := do
  let rem := memoryBlock.size - pages
  let (newBlockPtr, c) ←
    if rem > 0 then do
      let newBlockPtr ← Outcome.expect (MemoryBlockHeaderPtr.offset ptr pages)
        (.expect "Bad free page length")
      let c ← writeHeader mem c newBlockPtr
        { size := rem, next := memoryBlock.next, prev := memoryBlock.prev }
      pure (some newBlockPtr, c)
    else pure (none, c)
  let region := if region.first = some ptr then { region with first := newBlockPtr } else region
  let region := if region.last = some ptr then { region with last := newBlockPtr } else region
  return (region, c)

/-- The loop of `allocate_linear`, from the block `memoryBlockPtr`. -/
def allocateLoop (mem : M) (pages : Nat) :
    Nat → RegionDesc → Option Nat → Cells → Exec (Option Nat × RegionDesc × Cells)
  | 0, _, _, _ => .diverge
  | _ + 1, region, none, c => return (none, region, c)
  | fuel + 1, region, some ptr, c => do
    let memoryBlock ← readHeader mem c ptr
    if memoryBlock.size ≥ pages then
      let (region, c) ← takeBlock mem region ptr memoryBlock pages c
      return (some ptr, region, c)
    else
      let next ← assertSafe memoryBlock.next
      allocateLoop mem pages fuel region next c

/-- `KMM::allocate_linear`: the page number of the block handed out. -/
def allocateLinear (mem : M) (fuel : Nat) (kmm : KMM) (region : MemoryRegion) (pages : Nat)
    (c : Cells) : Exec (Option Nat × KMM × Cells) := do
  let (res, desc, c) ← allocateLoop mem pages fuel (kmm.region region)
    (kmm.region region).first c
  return (res, kmm.setRegion region desc, c)

inductive BlockInsertionPoint where
  | first
  | between (prev : Nat) (next : Option Nat)
deriving DecidableEq, Repr

/-- The loop of `find_insertion_point`. -/
def findInsertionLoop (mem : M) (c : Cells) (addr : Nat) :
    Nat → Option Nat → Option Nat → Exec BlockInsertionPoint
  | 0, _, _ => .diverge
  | _ + 1, prevBlockPtr, none =>
    match prevBlockPtr with
    | some prev => return .between prev none
    | none => return .first
  | fuel + 1, prevBlockPtr, some ptr =>
    if ptr > addr then
      match prevBlockPtr with
      | some prev => return .between prev (some ptr)
      | none => return .first
    else do
      let header ← readHeader mem c ptr
      let next ← assertSafe header.next
      findInsertionLoop mem c addr fuel (some ptr) next

/-- `KMM::find_insertion_point`. -/
def findInsertionPoint (mem : M) (fuel : Nat) (region : RegionDesc) (c : Cells) (addr : Nat) :
    Exec BlockInsertionPoint :=
  findInsertionLoop mem c addr fuel none region.first

/-- `KMM::merge_right`: the flag, the header `cur` and the region afterwards. -/
def mergeRight (mem : M) (region : RegionDesc) (ptr : Nat) (cur : MemoryBlockHeader)
    (c : Cells) : Exec (Bool × MemoryBlockHeader × RegionDesc × Cells) := do
  let fin := MemoryBlockHeaderPtr.offset ptr cur.size
  let curNext ← assertSafe cur.next
  match fin, curNext with
  | some fin, some curNext =>
    if curNext = fin then do
      let next ← readHeader mem c curNext
      let size ← addU32 cur.size next.size
      let cur := { cur with size := size, next := next.next }
      match ← assertSafe cur.next with
      | some nextNextPtr => do
        let nextNext ← readHeader mem c nextNextPtr
        let c ← writeHeader mem c nextNextPtr
          { nextNext with prev := MemoryBlockHeaderPtr.intoUnsafe (some ptr) }
        return (true, cur, region, c)
      | none => return (true, cur, { region with last := some ptr }, c)
    else return (false, cur, region, c)
  | _, _ => return (false, cur, region, c)

/-- `if Self::merge_right(..) { ptr.write(..) }`: the write that follows each merge. -/
def writeMerged (mem : M) (merged : Bool) (ptr : Nat) (cur : MemoryBlockHeader) (c : Cells) :
    Exec Cells :=
  if merged then writeHeader mem c ptr cur else .ret c

/-- `KMM::coalesce`. -/
def coalesce (mem : M) (region : RegionDesc) (ptr : Nat) (c : Cells) :
    Exec (RegionDesc × Cells) := do
  let cur ← readHeader mem c ptr
  let (merged, cur, region, c) ← mergeRight mem region ptr cur c
  let c ← writeMerged mem merged ptr cur c
  match ← assertSafe cur.prev with
  | some curPrev => do
    let prev ← readHeader mem c curPrev
    let (merged, prev, region, c) ← mergeRight mem region curPrev prev c
    let c ← writeMerged mem merged curPrev prev c
    return (region, c)
  | none => return (region, c)

/-- What `free` does before `coalesce`: link the block `ptr` in at `point`. -/
def linkBlock (mem : M) (region : RegionDesc) (ptr pages : Nat) (point : BlockInsertionPoint)
    (c : Cells) : Exec (RegionDesc × Cells) := do
  let none' := MemoryBlockHeaderPtr.intoUnsafe none
  match point with
  | .first => do
    let memoryBlock : MemoryBlockHeader :=
      { size := pages, next := MemoryBlockHeaderPtr.intoUnsafe region.first, prev := none' }
    let region := { region with first := some ptr }
    let region := if region.last.isNone then { region with last := some ptr } else region
    let c ← writeHeader mem c ptr memoryBlock
    return (region, c)
  | .between prev next => do
    let prevBlock ← readHeader mem c prev
    let c ← writeHeader mem c prev
      { prevBlock with next := MemoryBlockHeaderPtr.intoUnsafe (some ptr) }
    let (memoryBlock, region, c) ←
      match next with
      | some next => do
        let nextBlock ← readHeader mem c next
        let c ← writeHeader mem c next
          { nextBlock with prev := MemoryBlockHeaderPtr.intoUnsafe (some ptr) }
        pure (({ size := pages, next := MemoryBlockHeaderPtr.intoUnsafe (some next),
                 prev := MemoryBlockHeaderPtr.intoUnsafe (some prev) } : MemoryBlockHeader),
          region, c)
      | none =>
        pure (({ size := pages, next := none',
                 prev := MemoryBlockHeaderPtr.intoUnsafe (some prev) } : MemoryBlockHeader),
          { region with last := some ptr }, c)
    let c ← writeHeader mem c ptr memoryBlock
    return (region, c)

/-- `KMM::free` of the `pages` pages from the byte address `addr`. -/
def free (mem : M) (fuel : Nat) (kmm : KMM) (region : MemoryRegion) (addr pages : Nat)
    (c : Cells) : Exec (KMM × Cells) := do
  let ptr ← Outcome.expect (MemoryBlockHeaderPtr.fromPtr addr)
    (.expect "Invalid pointer given to free")
  let desc := kmm.region region
  let point ← findInsertionPoint mem fuel desc c ptr
  let (desc, c) ← linkBlock mem desc ptr pages point c
  let (desc, c) ← coalesce mem desc ptr c
  return (kmm.setRegion region desc, c)

end Calls

end Pomelo
