/-
  KMM over a flat byte store: block headers as values.

  On a flat store `readHeader` returns `headerAt` and `writeHeader` makes `setHeader`, and the
  header of a page is the one last set there (`headerAt_setHeader`). `linkNode` is what the
  free list sees of a page: its size and its decoded next link. The previous link is not part
  of it, so a write that only changes a previous link is invisible to the list
  (`linkNode_setPrev`).
-/
import Pomelo.Memory.Kmm
import Pomelo.Lib.ListSeg

namespace Pomelo

open Lib MemoryBlockHeaderPtr

/-- The pages of the address space: page numbers are below it. -/
def pageCount : Nat := 1048576

/-! ## Link words -/

theorem and_fff (x : Nat) : x &&& 0xFFF = x % 4096 :=
  Nat.and_two_pow_sub_one_eq_mod x 12

theorem and_fffff (x : Nat) : x &&& 0xFFFFF = x % 1048576 :=
  Nat.and_two_pow_sub_one_eq_mod x 20

theorem page_and_high {p : Nat} (h : p < pageCount) : p <<< 12 &&& 0xFFFFF000 = p <<< 12 := by
  have h1 : (0xFFFFF000 : Nat) = 0xFFFFF <<< 12 := by decide
  rw [h1, ← Nat.shiftLeft_and_distrib, and_fffff]
  rw [Nat.mod_eq_of_lt (show p < 1048576 from h)]

theorem page_shift_ne_zero {p : Nat} (h : 0 < p) : p <<< 12 ≠ 0 := by
  rw [Nat.shiftLeft_eq]
  omega

theorem page_and_low (p : Nat) : p <<< 12 &&& 0xFFF = 0 := by
  rw [and_fff, Nat.shiftLeft_eq]
  omega

theorem fromPtr_page {p : Nat} (h0 : 0 < p) (h : p < pageCount) :
    fromPtr (p <<< 12) = some p := by
  rw [fromPtr, page_and_low, page_and_high h, if_neg (by simp),
    if_neg (page_shift_ne_zero h0), Nat.shiftLeft_shiftRight]

theorem offset_of_lt {p n : Nat} (h : p + n < pageCount) : offset p n = some (p + n) := by
  unfold pageCount at h
  have h1 : p + n < u32Size := by unfold u32Size; omega
  rw [offset, if_pos h1]
  dsimp only
  rw [if_neg (by rw [and_fffff]; omega)]

theorem offset_eq_some {p n q : Nat} (h : offset p n = some q) : q = p + n := by
  unfold offset at h
  dsimp only at h
  split at h
  · split at h
    · cases h
    · injection h with h
      exact h.symm
  · cases h

/-- A page number other than null, or no page. -/
def ValidPtr (o : Option Nat) : Prop := ∀ p, o = some p → 0 < p ∧ p < pageCount

theorem validPtr_none : ValidPtr none := by
  intro p h
  cases h

theorem validPtr_some {p : Nat} (h0 : 0 < p) (h : p < pageCount) : ValidPtr (some p) := by
  intro q hq
  cases hq
  exact ⟨h0, h⟩

theorem intoUnsafe_some {p : Nat} (h : p < pageCount) : intoUnsafe (some p) = p <<< 12 := by
  simp only [intoUnsafe, Option.map_some, Option.getD_some]
  rw [shlU32_page h, Nat.shiftLeft_eq]

theorem intoUnsafe_lt {o : Option Nat} (h : ValidPtr o) : intoUnsafe o < u32Size := by
  cases o with
  | none => decide
  | some p =>
    have hp := (h p rfl).2
    unfold pageCount at hp
    rw [intoUnsafe_some (h p rfl).2, Nat.shiftLeft_eq]
    unfold u32Size
    omega

/-- A link word decodes to the pointer it was made from. -/
theorem fromUnsafeData_intoUnsafe {o : Option Nat} (h : ValidPtr o) :
    fromUnsafeData (intoUnsafe o) = some o := by
  cases o with
  | none => rfl
  | some p =>
    obtain ⟨h0, h1⟩ := h p rfl
    rw [intoUnsafe_some h1, fromUnsafeData, page_and_low, page_and_high h1, if_neg (by simp),
      if_neg (page_shift_ne_zero h0), Nat.shiftLeft_shiftRight]

theorem assertSafe_of_decodes {raw : Nat} {o : Option Nat} (h : fromUnsafeData raw = some o) :
    assertSafe raw = .ret o := by
  rw [assertSafe, h, Outcome.expect_some]

theorem assertSafe_intoUnsafe {o : Option Nat} (h : ValidPtr o) :
    assertSafe (intoUnsafe o) = .ret o :=
  assertSafe_of_decodes (fromUnsafeData_intoUnsafe h)

/-! ## Headers in a flat store -/

/-- The header in the first 12 bytes of page `p`. -/
def headerAt (c : Cells) (p : Nat) : MemoryBlockHeader where
  size := readWord c (p * 4096) 4
  next := readWord c (p * 4096 + 4) 4
  prev := readWord c (p * 4096 + 8) 4

/-- The cells with the header of page `p` replaced. -/
def setHeader (c : Cells) (p : Nat) (h : MemoryBlockHeader) : Cells :=
  writeCells c (p * 4096) (leBytes 4 h.size ++ leBytes 4 h.next ++ leBytes 4 h.prev)

/-- The fields of a header fit their words. -/
structure MemoryBlockHeader.Fits (h : MemoryBlockHeader) : Prop where
  size : h.size < u32Size
  next : h.next < u32Size
  prev : h.prev < u32Size

theorem headerAt_fits (c : Cells) (p : Nat) : (headerAt c p).Fits where
  size := readWord_lt c _ 4
  next := readWord_lt c _ 4
  prev := readWord_lt c _ 4

theorem headerAt_congr {c c' : Cells} {p : Nat}
    (h : ∀ k, k < 12 → c' (p * 4096 + k) = c (p * 4096 + k)) : headerAt c' p = headerAt c p := by
  have hword : ∀ k, k + 4 ≤ 12 →
      readWord c' (p * 4096 + k) 4 = readWord c (p * 4096 + k) 4 := by
    intro k hk
    unfold readWord
    refine congrArg leValue (readCells_congr fun j hj => ?_)
    rw [Nat.add_assoc]
    exact h (k + j) (by omega)
  have h0 := hword 0 (by omega)
  rw [Nat.add_zero] at h0
  rw [headerAt, h0, hword 4 (by omega), hword 8 (by omega), headerAt]

theorem readHeader_flat (mem : FlatMemory) (c : Cells) {p : Nat} (h : p < pageCount) :
    readHeader mem c p = .ret (headerAt c p) := by
  have h0 : (readCells c (p * 4096) 12).take 4 = readCells c (p * 4096) 4 :=
    by simpa using readCells_sub c (p * 4096) (k := 0) (m := 4) (n := 12) (by omega)
  have h1 := readCells_sub c (p * 4096) (k := 4) (m := 4) (n := 12) (by omega)
  have h2 := readCells_sub c (p * 4096) (k := 8) (m := 4) (n := 12) (by omega)
  rw [readHeader, shlU32_page h, flat_read, Outcome.ret_bind, h0, h1, h2, Outcome.pure_eq]
  simp only [headerAt, readWord]

theorem writeHeader_flat (mem : FlatMemory) (c : Cells) {p : Nat} (h : p < pageCount)
    (hd : MemoryBlockHeader) : writeHeader mem c p hd = .ret (setHeader c p hd) := by
  rw [writeHeader, shlU32_page h, flat_write, setHeader]

theorem readWord_setHeader (c : Cells) (p k : Nat) (hd : MemoryBlockHeader)
    (h : k + 4 ≤ 12) :
    readWord (setHeader c p hd) (p * 4096 + k) 4 =
      leValue (((leBytes 4 hd.size ++ leBytes 4 hd.next ++ leBytes 4 hd.prev).drop k).take 4) := by
  rw [readWord, setHeader, readCells_writeCells_sub]
  simpa using h

theorem leValue_leBytes_u32 {v : Nat} (h : v < u32Size) : leValue (leBytes 4 v) = v := by
  rw [leValue_leBytes]
  exact Nat.mod_eq_of_lt h

theorem headerAt_setHeader_self (c : Cells) (p : Nat) {hd : MemoryBlockHeader} (h : hd.Fits) :
    headerAt (setHeader c p hd) p = hd := by
  have h0 := readWord_setHeader c p 0 hd (by omega)
  have h1 := readWord_setHeader c p 4 hd (by omega)
  have h2 := readWord_setHeader c p 8 hd (by omega)
  have hl : ∀ v, (leBytes 4 v).length = 4 := leBytes_length 4
  simp only [List.append_assoc, List.drop_append, List.take_append, hl, Nat.add_zero,
    List.drop_zero] at h0 h1 h2
  simp [List.take_of_length_le, List.drop_of_length_le, hl, leValue_leBytes_u32, h.size, h.next,
    h.prev] at h0 h1 h2
  rw [headerAt, h0, h1, h2]

theorem headerAt_setHeader_of_ne (c : Cells) {p q : Nat} (h : q ≠ p) (hd : MemoryBlockHeader) :
    headerAt (setHeader c p hd) q = headerAt c q := by
  have hl : (leBytes 4 hd.size ++ leBytes 4 hd.next ++ leBytes 4 hd.prev).length = 12 := by simp
  have hw : ∀ k, k + 4 ≤ 12 → readWord (setHeader c p hd) (q * 4096 + k) 4 =
      readWord c (q * 4096 + k) 4 := by
    intro k hk
    rw [readWord, setHeader, readCells_writeCells_of_disjoint, readWord]
    rw [hl]
    omega
  have h0 := hw 0 (by omega)
  rw [Nat.add_zero] at h0
  rw [headerAt, h0, hw 4 (by omega), hw 8 (by omega), headerAt]

/-- The header of a page is the one last set there. -/
theorem headerAt_setHeader (c : Cells) (p q : Nat) {hd : MemoryBlockHeader} (h : hd.Fits) :
    headerAt (setHeader c p hd) q = if q = p then hd else headerAt c q := by
  split
  · rename_i hq
    rw [hq, headerAt_setHeader_self c p h]
  · rename_i hq
    exact headerAt_setHeader_of_ne c hq hd

/-! ## What the free list sees -/

/-- The size of the block at page `p` and its decoded next link, if the link decodes. -/
def linkNode (c : Cells) (p : Nat) : Option (Nat × Option Nat) :=
  (fromUnsafeData (headerAt c p).next).map fun q => ((headerAt c p).size, q)

theorem linkNode_eq_some {c : Cells} {p n : Nat} {q : Option Nat} :
    linkNode c p = some (n, q) ↔
      (headerAt c p).size = n ∧ fromUnsafeData (headerAt c p).next = some q := by
  unfold linkNode
  cases fromUnsafeData (headerAt c p).next with
  | none => simp
  | some r => simp

theorem linkNode_setHeader_of_ne (c : Cells) {p q : Nat} (h : q ≠ p) (hd : MemoryBlockHeader) :
    linkNode (setHeader c p hd) q = linkNode c q := by
  rw [linkNode, headerAt_setHeader_of_ne c h, linkNode]

theorem linkNode_setHeader_self (c : Cells) (p : Nat) {hd : MemoryBlockHeader} (h : hd.Fits)
    {q : Option Nat} (hq : fromUnsafeData hd.next = some q) :
    linkNode (setHeader c p hd) p = some (hd.size, q) := by
  rw [linkNode_eq_some, headerAt_setHeader_self c p h]
  exact ⟨rfl, hq⟩

/-- A write that changes only the previous link of a block is invisible to the list. -/
theorem linkNode_setPrev (c : Cells) (p x : Nat) {prev : Nat} (h : prev < u32Size) :
    linkNode (setHeader c p { headerAt c p with prev := prev }) x = linkNode c x := by
  by_cases hx : x = p
  · subst hx
    have hf : ({ headerAt c x with prev := prev } : MemoryBlockHeader).Fits :=
      ⟨(headerAt_fits c x).size, (headerAt_fits c x).next, h⟩
    rw [linkNode, headerAt_setHeader_self c x hf, linkNode]
  · exact linkNode_setHeader_of_ne c hx _

/-- A write that changes only the next link of a block leads the block there. -/
theorem linkNode_setNext (c : Cells) (p : Nat) {o : Option Nat} (h : ValidPtr o) :
    linkNode (setHeader c p { headerAt c p with next := intoUnsafe o }) p =
      some ((headerAt c p).size, o) := by
  have hf : ({ headerAt c p with next := intoUnsafe o } : MemoryBlockHeader).Fits :=
    ⟨(headerAt_fits c p).size, intoUnsafe_lt h, (headerAt_fits c p).prev⟩
  rw [linkNode_eq_some, headerAt_setHeader_self c p hf]
  exact ⟨rfl, fromUnsafeData_intoUnsafe h⟩

/-! ## Which bytes a call writes -/

/-- The cells agree outside the headers of the pages `ks`. -/
def SameOutside (ks : List Nat) (c c' : Cells) : Prop :=
  ∀ x, (∀ k ∈ ks, x < k * 4096 ∨ k * 4096 + 12 ≤ x) → c' x = c x

theorem SameOutside.refl (ks : List Nat) (c : Cells) : SameOutside ks c c :=
  fun _ _ => rfl

theorem SameOutside.trans {ks : List Nat} {c c' c'' : Cells} (h : SameOutside ks c c')
    (h' : SameOutside ks c' c'') : SameOutside ks c c'' :=
  fun x hx => (h' x hx).trans (h x hx)

theorem SameOutside.mono {ks ks' : List Nat} {c c' : Cells} (h : SameOutside ks c c')
    (hk : ∀ k ∈ ks, k ∈ ks') : SameOutside ks' c c' :=
  fun x hx => h x fun k hm => hx k (hk k hm)

/-- The header of another page is the same. -/
theorem SameOutside.headerAt {ks : List Nat} {c c' : Cells} {p : Nat} (h : SameOutside ks c c')
    (hp : p ∉ ks) : Pomelo.headerAt c' p = Pomelo.headerAt c p := by
  refine headerAt_congr fun j hj => h _ fun k hk => ?_
  have hne : k ≠ p := fun heq => hp (heq ▸ hk)
  omega

theorem SameOutside.linkNode {ks : List Nat} {c c' : Cells} {p : Nat} (h : SameOutside ks c c')
    (hp : p ∉ ks) : Pomelo.linkNode c' p = Pomelo.linkNode c p := by
  unfold Pomelo.linkNode
  rw [h.headerAt hp]

theorem sameOutside_setHeader {ks : List Nat} {p : Nat} (hp : p ∈ ks) (c : Cells)
    (hd : MemoryBlockHeader) : SameOutside ks c (setHeader c p hd) := by
  intro x hx
  have hl : (leBytes 4 hd.size ++ leBytes 4 hd.next ++ leBytes 4 hd.prev).length = 12 := by simp
  rcases hx p hp with h | h
  · exact writeCells_of_lt h
  · exact writeCells_of_ge (by rw [hl]; exact h)

end Pomelo
