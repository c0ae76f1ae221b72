/-
  KMM over a flat byte store: the free list and the walks along it.

  `FreeList c a bs`: the links from pointer `a` lead through exactly the blocks `bs`, which are
  in ascending order with a gap after each, non-empty and inside the address space. Nothing is
  said about previous links.

  * `allocateLinear_of_small`, `allocateLinear_of_fit`: the walk finds the first block that is
    large enough, and says what the call does to it.
  * `findInsertionLoop_eq`: the search stops between the blocks below the address and the rest.
-/
import Pomelo.Memory.KmmHeader
import Pomelo.Lib.Extent

namespace Pomelo

open Lib MemoryBlockHeaderPtr

/-- The page number of the first block of a list. -/
def headPtr (bs : List Extent) : Option Nat := bs.head?.map Prod.fst

/-- The page number of the last block of a list. -/
def lastPtr (bs : List Extent) : Option Nat := bs.getLast?.map Prod.fst

/-- The block lies in the address space and its page number is a block pointer. -/
structure InSpace (b : Extent) : Prop where
  page : 0 < b.1
  size : 0 < b.2
  fin : b.1 + b.2 ≤ pageCount

theorem InSpace.lt {b : Extent} (h : InSpace b) : b.1 < pageCount := by
  have := h.size
  have := h.fin
  omega

/-- The free list of a region in the cells `c`, from the pointer `a`. -/
structure FreeList (c : Cells) (a : Option Nat) (bs : List Extent) : Prop where
  links : Seg (linkNode c) a bs none
  ascending : Ascending bs
  inSpace : ∀ b ∈ bs, InSpace b

theorem FreeList.nonEmpty {c : Cells} {a : Option Nat} {bs : List Extent}
    (h : FreeList c a bs) : NonEmpty bs :=
  fun b hb => (h.inSpace b hb).size

theorem headPtr_valid {bs : List Extent} (h : ∀ b ∈ bs, InSpace b) : ValidPtr (headPtr bs) := by
  intro p hp
  cases bs with
  | nil => cases hp
  | cons b bs =>
    cases hp
    exact ⟨(h b (by simp)).page, (h b (by simp)).lt⟩

theorem lastPtr_append (bs : List Extent) (b : Extent) : lastPtr (bs ++ [b]) = some b.1 := by
  simp [lastPtr]

theorem lastPtr_append_cons (as : List Extent) (b : Extent) (bs : List Extent) :
    lastPtr (as ++ b :: bs) = lastPtr (b :: bs) := by
  simp [lastPtr, List.getLast?_append, List.getLast?_cons]

/-! ## `allocate_linear` -/

/-- The region after block `p` gave way to `q`. -/
def RegionDesc.replace (region : RegionDesc) (p : Nat) (q : Option Nat) : RegionDesc :=
  { region with
    first := if region.first = some p then q else region.first
    last := if region.last = some p then q else region.last }

theorem takeBlock_of_lt (mem : FlatMemory) (region : RegionDesc) {p pages : Nat}
    (hd : MemoryBlockHeader) (c : Cells) (h : pages < hd.size) (hp : p + pages < pageCount) :
    takeBlock mem region p hd pages c =
      .ret (region.replace p (some (p + pages)),
        setHeader c (p + pages)
          { size := hd.size - pages, next := hd.next, prev := hd.prev }) := by
  have hr : hd.size - pages > 0 := by omega
  unfold takeBlock
  simp only [if_pos hr, offset_of_lt hp, Outcome.expect_some, Outcome.ret_bind,
    writeHeader_flat mem c hp, Outcome.pure_eq, RegionDesc.replace]
  split <;> split <;> simp_all

theorem takeBlock_of_eq (mem : FlatMemory) (region : RegionDesc) {p pages : Nat}
    (hd : MemoryBlockHeader) (c : Cells) (h : hd.size = pages) :
    takeBlock mem region p hd pages c = .ret (region.replace p none, c) := by
  have hr : ¬ hd.size - pages > 0 := by omega
  unfold takeBlock
  simp only [if_neg hr, Outcome.ret_bind, Outcome.pure_eq, RegionDesc.replace]
  split <;> split <;> simp_all

/-- The walk of `allocate_linear` takes the first block that is large enough. -/
theorem allocateLoop_eq (mem : FlatMemory) {pages : Nat} {c : Cells} {bs : List Extent}
    (region : RegionDesc) {a : Option Nat} (h : Seg (linkNode c) a bs none)
    (hp : ∀ b ∈ bs, b.1 < pageCount) {fuel : Nat} (hf : bs.length < fuel) :
    allocateLoop mem pages fuel region a c =
      match bs.find? fun b => decide (pages ≤ b.2) with
      | none => .ret (none, region, c)
      | some b => do
        let (region, c) ← takeBlock mem region b.1 (headerAt c b.1) pages c
        return (some b.1, region, c) := by
  induction bs generalizing a fuel with
  | nil =>
    obtain ⟨f, rfl⟩ : ∃ f, fuel = f + 1 := ⟨fuel - 1, by simp at hf; omega⟩
    rw [seg_nil] at h
    subst h
    rfl
  | cons b bs ih =>
    obtain ⟨f, rfl⟩ : ∃ f, fuel = f + 1 := ⟨fuel - 1, by simp at hf; omega⟩
    obtain ⟨ha, q, hq, hs⟩ := h
    subst ha
    obtain ⟨hsize, hnext⟩ := linkNode_eq_some.mp hq
    have hb : b.1 < pageCount := hp b (by simp)
    unfold allocateLoop
    rw [readHeader_flat mem c hb, Outcome.ret_bind]
    by_cases hfit : pages ≤ b.2
    · rw [if_pos (by rw [hsize]; exact hfit), List.find?_cons_of_pos (by simpa using hfit)]
    · rw [if_neg (by rw [hsize]; exact hfit), List.find?_cons_of_neg (by simpa using hfit),
        assertSafe_of_decodes hnext, Outcome.ret_bind]
      exact ih hs (fun x hx => hp x (by simp [hx])) (by simp at hf; omega)

/-- A walk that returned returns the same on any larger fuel. -/
theorem allocateLoop_mono {M : Type} [Memory M] (mem : M) {pages : Nat} {region : RegionDesc}
    {c : Cells} {r : Option Nat × RegionDesc × Cells} {fuel fuel' : Nat} {a : Option Nat}
    (h : allocateLoop mem pages fuel region a c = .ret r) (hle : fuel ≤ fuel') :
    allocateLoop mem pages fuel' region a c = .ret r := by
  induction fuel generalizing a fuel' with
  | zero => unfold allocateLoop at h; cases h
  | succ f ih =>
    obtain ⟨f', rfl⟩ : ∃ f', fuel' = f' + 1 := ⟨fuel' - 1, by omega⟩
    cases a with
    | none => exact h
    | some p =>
      unfold allocateLoop at h ⊢
      obtain ⟨hd, hread, h⟩ := Outcome.bind_eq_ret.mp h
      rw [hread, Outcome.ret_bind]
      split at h
      · rename_i hs
        rw [if_pos hs]
        exact h
      · rename_i hs
        rw [if_neg hs]
        obtain ⟨q, hq, h⟩ := Outcome.bind_eq_ret.mp h
        rw [hq, Outcome.ret_bind]
        exact ih h (by omega)

/-- What is left of block `b` when its first `n` pages are taken. -/
def remainder (b : Extent) (n : Nat) : List Extent :=
  if n < b.2 then [(b.1 + n, b.2 - n)] else []

/-- The cells after the first `n` pages of block `b` were taken: a remainder inherits the
    links. -/
def splitCells (c : Cells) (b : Extent) (n : Nat) : Cells :=
  if n < b.2 then setHeader c (b.1 + n) { headerAt c b.1 with size := b.2 - n } else c

theorem linkNode_splitCells (c : Cells) (b : Extent) (n : Nat) {x : Nat} (h : x ≠ b.1 + n) :
    linkNode (splitCells c b n) x = linkNode c x := by
  unfold splitCells
  split
  · exact linkNode_setHeader_of_ne c h _
  · rfl

theorem KMM.setRegion_region (kmm : KMM) (r : MemoryRegion) :
    kmm.setRegion r (kmm.region r) = kmm := by
  cases r <;> rfl

/-- Without a block that is large enough the call returns nothing and changes nothing. -/
theorem allocateLinear_of_small (mem : FlatMemory) {kmm : KMM} {r : MemoryRegion} {n : Nat}
    {c : Cells} {bs : List Extent} (h : FreeList c (kmm.region r).first bs)
    (hs : ∀ b ∈ bs, b.2 < n) {fuel : Nat} (hf : bs.length < fuel) :
    allocateLinear mem fuel kmm r n c = .ret (none, kmm, c) := by
  have hfind : bs.find? (fun b => decide (n ≤ b.2)) = none := by
    rw [List.find?_eq_none]
    intro b hb
    simpa using hs b hb
  unfold allocateLinear
  rw [allocateLoop_eq mem _ h.links (fun b hb => (h.inSpace b hb).lt) hf, hfind, Outcome.ret_bind]
  dsimp only
  rw [KMM.setRegion_region, Outcome.pure_eq]

/-- The call takes the first block that is large enough, wherever it is in the list. -/
theorem allocateLinear_of_fit (mem : FlatMemory) {kmm : KMM} {r : MemoryRegion} {n : Nat}
    {c : Cells} {xs ys : List Extent} {b : Extent}
    (h : FreeList c (kmm.region r).first (xs ++ b :: ys)) (hs : ∀ x ∈ xs, x.2 < n)
    (hb : n ≤ b.2) {fuel : Nat} (hf : (xs ++ b :: ys).length < fuel) :
    allocateLinear mem fuel kmm r n c =
      .ret (some b.1,
        kmm.setRegion r ((kmm.region r).replace b.1 (headPtr (remainder b n))),
        splitCells c b n) := by
  have hin : InSpace b := h.inSpace b (by simp)
  have hfind : (xs ++ b :: ys).find? (fun b => decide (n ≤ b.2)) = some b := by
    have hxs : xs.find? (fun b => decide (n ≤ b.2)) = none := by
      rw [List.find?_eq_none]
      intro x hx
      simpa using hs x hx
    rw [List.find?_append, hxs, Option.none_or, List.find?_cons_of_pos (by simpa using hb)]
  obtain ⟨_, _, rfl, q, hq, _⟩ := seg_append.mp h.links
  have hsize : (headerAt c b.1).size = b.2 := (linkNode_eq_some.mp hq).1
  unfold allocateLinear
  rw [allocateLoop_eq mem _ h.links (fun b hb => (h.inSpace b hb).lt) hf, hfind]
  dsimp only
  by_cases hlt : n < b.2
  · have hfin := hin.fin
    rw [takeBlock_of_lt mem _ _ c (by rw [hsize]; exact hlt) (by omega)]
    simp only [remainder, splitCells, if_pos hlt, headPtr, List.head?_cons, Option.map_some,
      Outcome.ret_bind, Outcome.pure_eq, hsize]
  · have heq : (headerAt c b.1).size = n := by omega
    rw [takeBlock_of_eq mem _ _ c heq]
    simp only [remainder, splitCells, if_neg hlt, headPtr, List.head?_nil, Option.map_none,
      Outcome.ret_bind, Outcome.pure_eq]

/-- Without a block that is large enough the call returns nothing. -/
theorem settles_of_small (mem : FlatMemory) {kmm : KMM} {r : MemoryRegion} {n : Nat} {c : Cells}
    {bs : List Extent} (h : FreeList c (kmm.region r).first bs) (hs : ∀ b ∈ bs, b.2 < n) :
    Outcome.Settles (fun fuel => allocateLinear mem fuel kmm r n c) (none, kmm, c) :=
  ⟨bs.length + 1, fun _ hf => allocateLinear_of_small mem h hs (Nat.lt_of_succ_le hf)⟩

/-- With one, it returns the page number of the first that is. -/
theorem settles_of_fit (mem : FlatMemory) {kmm : KMM} {r : MemoryRegion} {n : Nat} {c : Cells}
    {xs ys : List Extent} {b : Extent} (h : FreeList c (kmm.region r).first (xs ++ b :: ys))
    (hs : ∀ x ∈ xs, x.2 < n) (hb : n ≤ b.2) :
    Outcome.Settles (fun fuel => allocateLinear mem fuel kmm r n c)
      (some b.1, kmm.setRegion r ((kmm.region r).replace b.1 (headPtr (remainder b n))),
        splitCells c b n) :=
  ⟨(xs ++ b :: ys).length + 1, fun _ hf => allocateLinear_of_fit mem h hs hb (Nat.lt_of_succ_le hf)⟩

theorem allocateLinear_mono {M : Type} [Memory M] (mem : M) {kmm : KMM} {r : MemoryRegion}
    {pages : Nat} {c : Cells} {x : Option Nat × KMM × Cells} {fuel fuel' : Nat}
    (h : allocateLinear mem fuel kmm r pages c = .ret x) (hle : fuel ≤ fuel') :
    allocateLinear mem fuel' kmm r pages c = .ret x := by
  unfold allocateLinear at h ⊢
  obtain ⟨y, hy, h⟩ := Outcome.bind_eq_ret.mp h
  rw [allocateLoop_mono mem hy hle, Outcome.ret_bind]
  exact h

/-! ## `find_insertion_point` -/

/-- The insertion point after block `prev`, or at the front. -/
def pointAt : Option Nat → Option Nat → BlockInsertionPoint
  | none, _ => .first
  | some prev, next => .between prev next

/-- The search stops between the blocks that start at or below the address and the rest. -/
theorem findInsertionLoop_eq (mem : FlatMemory) {c : Cells} {addr : Nat} {xs ys : List Extent}
    {a prev : Option Nat} (h : Seg (linkNode c) a (xs ++ ys) none)
    (hp : ∀ x ∈ xs, x.1 < pageCount) (hx : ∀ x ∈ xs, x.1 ≤ addr)
    (hy : ∀ y ∈ ys, addr < y.1) {fuel : Nat} (hf : xs.length < fuel) :
    findInsertionLoop mem c addr fuel prev a =
      .ret (pointAt ((lastPtr xs).or prev) (headPtr ys)) := by
  induction xs generalizing a prev fuel with
  | nil =>
    obtain ⟨f, rfl⟩ : ∃ f, fuel = f + 1 := ⟨fuel - 1, by simp at hf; omega⟩
    have ha : a = headPtr ys := h.head_eq
    cases ys with
    | nil =>
      subst ha
      cases prev <;> rfl
    | cons y ys =>
      subst ha
      have hgt : y.1 > addr := hy y (by simp)
      unfold findInsertionLoop
      simp only [headPtr, List.head?_cons, Option.map_some, if_pos hgt]
      cases prev <;> rfl
  | cons x xs ih =>
    obtain ⟨f, rfl⟩ : ∃ f, fuel = f + 1 := ⟨fuel - 1, by simp at hf; omega⟩
    rw [List.cons_append] at h
    obtain ⟨ha, q, hq, hs⟩ := h
    subst ha
    obtain ⟨_, hnext⟩ := linkNode_eq_some.mp hq
    have hle : ¬ x.1 > addr := Nat.not_lt.mpr (hx x (by simp))
    unfold findInsertionLoop
    rw [if_neg hle, readHeader_flat mem c (hp x (by simp)), Outcome.ret_bind,
      assertSafe_of_decodes hnext, Outcome.ret_bind,
      ih hs (fun z hz => hp z (by simp [hz])) (fun z hz => hx z (by simp [hz]))
        (by simp at hf; omega)]
    have hlast : (lastPtr xs).or (some x.1) = (lastPtr (x :: xs)).or prev := by
      unfold lastPtr
      rw [List.getLast?_cons]
      cases xs.getLast? with
      | none => rfl
      | some z => rfl
    rw [hlast]

theorem findInsertionLoop_mono {M : Type} [Memory M] (mem : M) {c : Cells} {addr : Nat}
    {r : BlockInsertionPoint} {fuel fuel' : Nat} {prev a : Option Nat}
    (h : findInsertionLoop mem c addr fuel prev a = .ret r) (hle : fuel ≤ fuel') :
    findInsertionLoop mem c addr fuel' prev a = .ret r := by
  induction fuel generalizing prev a fuel' with
  | zero => unfold findInsertionLoop at h; cases h
  | succ f ih =>
    obtain ⟨f', rfl⟩ : ∃ f', fuel' = f' + 1 := ⟨fuel' - 1, by omega⟩
    cases a with
    | none => exact h
    | some p =>
      unfold findInsertionLoop at h ⊢
      split at h
      · rename_i hs
        rw [if_pos hs]
        exact h
      · rename_i hs
        rw [if_neg hs]
        obtain ⟨hd, hread, h⟩ := Outcome.bind_eq_ret.mp h
        rw [hread, Outcome.ret_bind]
        obtain ⟨q, hq, h⟩ := Outcome.bind_eq_ret.mp h
        rw [hq, Outcome.ret_bind]
        exact ih h (by omega)

end Pomelo
