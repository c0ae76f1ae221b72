/-
  `VirtualMemory::write`: which bytes a write hits.

  `Stores ms addr data c c'`: each byte of `data` is in the backing of the span that covers its
  address, at the address's offset in the span, unless a later byte went to the same cell; and
  no other cell has changed. One iteration of the loop stores what one span serves, and the
  rest is stored behind it (`Stores.behind`). When no two spans share a host page, no byte
  goes where another went (`Stores.all`). `write_hits` is about mapped ranges and all others.
-/
import Pomelo.Memory.VirtFlat

namespace Pomelo

open Lib

variable {T : Type} {ms : List (Mapping T)}

/-- The bytes of `data` are stored at the addresses from `addr`, in order, and nowhere else. -/
structure Stores (ms : List (Mapping T)) (addr : Nat) (data : List UInt8) (c c' : Cells) :
    Prop where
  hits : ∀ i b, data[i]? = some b → ∀ m ∈ ms, m.Covers (addr + i) →
    (∀ j, i < j → j < data.length → ∀ m' ∈ ms, m'.Covers (addr + j) →
      m'.cell (addr + j) ≠ m.cell (addr + i)) → c' (m.cell (addr + i)) = b
  keeps : ∀ x, (∀ i < data.length, ∀ m ∈ ms, m.Covers (addr + i) → m.cell (addr + i) ≠ x) →
    c' x = c x

theorem stores_nil (ms : List (Mapping T)) (addr : Nat) (c : Cells) : Stores ms addr [] c c where
  hits i b hb := by simp at hb
  keeps _ _ := rfl

/-- Bytes stored within one span, and the rest stored behind them. -/
theorem Stores.behind (h : ValidMappings ms) {m : Mapping T} (hm : m ∈ ms) {addr : Nat}
    {xs ys : List UInt8} {c c' : Cells} (hcov : ∀ i < xs.length, m.Covers (addr + i))
    (hrest : Stores ms (addr + xs.length) ys (writeCells c (m.cell addr) xs) c') :
    Stores ms addr (xs ++ ys) c c' := by
  have hcell : ∀ i < xs.length, m.cell (addr + i) = m.cell addr + i := by
    intro i hi
    have h0 := (hcov 0 (by omega)).1
    unfold Mapping.cell
    omega
  constructor
  · intro i b hb m' hm' hcov' hlast
    by_cases hi : i < xs.length
    · have hmm : m' = m := h.eq_of_covers hm' hm hcov' (hcov i hi)
      subst hmm
      rw [List.getElem?_append_left hi, List.getElem?_eq_getElem hi] at hb
      injection hb with hb
      -- nothing of the rest went to this cell
      have hkept : c' (m'.cell (addr + i)) = writeCells c (m'.cell addr) xs (m'.cell (addr + i)) := by
        refine hrest.keeps _ fun j hj m2 hm2 hcov2 => ?_
        rw [Nat.add_assoc] at hcov2 ⊢
        exact hlast (xs.length + j) (by omega) (by rw [List.length_append]; omega) m2 hm2 hcov2
      rw [hkept, hcell i hi, writeCells_in hi, hb]
    · have hsplit : addr + i = addr + xs.length + (i - xs.length) := by omega
      rw [List.getElem?_append_right (by omega)] at hb
      rw [hsplit] at hcov' ⊢
      refine hrest.hits (i - xs.length) b hb m' hm' hcov' fun j hj hlen m2 hm2 hcov2 => ?_
      rw [Nat.add_assoc] at hcov2 ⊢
      rw [← hsplit]
      exact hlast (xs.length + j) (by omega) (by rw [List.length_append]; omega) m2 hm2 hcov2
  · intro x hx
    have hkept : c' x = writeCells c (m.cell addr) xs x := by
      refine hrest.keeps x fun j hj m2 hm2 hcov2 => ?_
      rw [Nat.add_assoc] at hcov2 ⊢
      exact hx (xs.length + j) (by rw [List.length_append]; omega) m2 hm2 hcov2
    rw [hkept]
    by_cases hlow : x < m.cell addr
    · exact writeCells_of_lt hlow
    · by_cases hhigh : m.cell addr + xs.length ≤ x
      · exact writeCells_of_ge hhigh
      · have hin : x - m.cell addr < xs.length := by omega
        have hne := hx (x - m.cell addr) (by rw [List.length_append]; omega) m hm (hcov _ hin)
        rw [hcell _ hin] at hne
        omega

/-! ## The loop -/

/-- The loop stores the rest of the data, however many spans it crosses. -/
theorem writeLoop_stores (h : ValidMappings ms) (hs : SmallSpans ms) {data : List UInt8}
    (hlen : data.length < u32Size) {fuel addr rem po so : Nat} {c : Cells}
    (hmap : Mapped ms addr rem) (hpo : 0 < rem → po = addr % 4096)
    (hlt : addr + rem < u32Size) (hso : so + rem = data.length) (hf : rem < fuel) :
    ∃ c', (mapAll ms).writeLoop data fuel addr rem po so c = .ret c' ∧
      Stores ms addr (data.drop so) c c' := by
  induction fuel generalizing addr rem po so c with
  | zero => omega
  | succ fuel ih =>
    by_cases hrem : 0 < rem
    · obtain ⟨m, hm, ha⟩ := hmap 0 hrem
      rw [Nat.add_zero] at ha
      have hkpos := m.serves_pos ha hrem
      have hkle : m.serves addr rem ≤ rem := Nat.min_le_left _ _
      have hchunk : ((data.drop so).take (m.serves addr rem)).length = m.serves addr rem := by
        rw [List.length_take, List.length_drop]
        omega
      have hnext : ∃ c', (mapAll ms).writeLoop data fuel (addr + m.serves addr rem)
          (rem - m.serves addr rem) 0 (so + m.serves addr rem)
          (writeCells c (m.cell addr) ((data.drop so).take (m.serves addr rem))) = .ret c' ∧
          Stores ms (addr + m.serves addr rem) (data.drop (so + m.serves addr rem))
            (writeCells c (m.cell addr) ((data.drop so).take (m.serves addr rem))) c' :=
        ih hmap.tail (fun hr => (m.serves_end (h.aligned m hm) ha (by omega)).symm) (by omega)
          (by omega) (by omega)
      obtain ⟨c', hret, hrest⟩ := hnext
      refine ⟨c', ?_, ?_⟩
      · rw [hpo hrem, writeLoop_step h hs hm ha hrem hlt (by omega) hlen]
        exact hret
      · rw [← List.take_append_drop (m.serves addr rem) (data.drop so)]
        refine Stores.behind h hm (fun i hi => ?_) ?_
        · rw [hchunk] at hi
          exact m.covers_of_lt_serves ha hi
        · rw [hchunk, List.drop_drop]
          exact hrest
    · have hnil : data.drop so = [] := List.drop_eq_nil_of_le (by omega)
      refine ⟨c, ?_, ?_⟩
      · rw [VirtualMemory.writeLoop, if_neg hrem, Outcome.pure_eq]
      · rw [hnil]
        exact stores_nil ms addr c

/-- At an address without a span the loops find nothing. -/
theorem nextChunk_of_not_covers (h : ValidMappings ms) {addr : Nat}
    (ha : ∀ m ∈ ms, ¬ m.Covers addr) (rem po : Nat) :
    (mapAll ms).nextChunk addr rem po = .panic (.expect "Unmapped memory read") := by
  have hpage : addr >>> 12 = addr / 4096 := Nat.shiftRight_eq_div_pow addr 12
  have hnone : ∀ m ∈ ms, ¬ m.pages.Mem (addr / 4096) := by
    intro m hm hmem
    exact ha m hm ((h.covers_iff hm addr).mpr hmem)
  unfold VirtualMemory.nextChunk
  rw [hpage, lookup_of_not_mem h hnone]
  rfl

/-- With an unmapped address in the range, the loop comes to one. -/
theorem writeLoop_panics (h : ValidMappings ms) (hs : SmallSpans ms) {data : List UInt8}
    (hlen : data.length < u32Size) {fuel addr rem po so : Nat} {c : Cells}
    (hmap : ¬ Mapped ms addr rem) (hpo : 0 < rem → po = addr % 4096)
    (hlt : addr + rem < u32Size) (hso : so + rem = data.length) (hf : rem < fuel) :
    (mapAll ms).writeLoop data fuel addr rem po so c =
      .panic (.expect "Unmapped memory read") := by
  induction fuel generalizing addr rem po so c with
  | zero => omega
  | succ fuel ih =>
    have hrem : 0 < rem := by
      by_contra hzero
      exact hmap fun i hi => by omega
    by_cases ha : ∃ m ∈ ms, m.Covers addr
    · obtain ⟨m, hm, ha⟩ := ha
      have hkpos := m.serves_pos ha hrem
      have hkle : m.serves addr rem ≤ rem := Nat.min_le_left _ _
      rw [hpo hrem, writeLoop_step h hs hm ha hrem hlt (by omega) hlen]
      refine ih ?_ (fun hr => (m.serves_end (h.aligned m hm) ha (by omega)).symm) (by omega)
        (by omega) (by omega)
      -- the part served is mapped, so an unmapped address lies behind it
      intro hrest
      refine hmap fun i hi => ?_
      by_cases hik : i < m.serves addr rem
      · exact ⟨m, hm, m.covers_of_lt_serves ha hik⟩
      · obtain ⟨m', hm', hcov⟩ := hrest (i - m.serves addr rem) (by omega)
        refine ⟨m', hm', ?_⟩
        rw [Nat.add_assoc, Nat.add_sub_cancel' (by omega)] at hcov
        exact hcov
    · have hnone : ∀ m ∈ ms, ¬ m.Covers addr := fun m hm hcov => ha ⟨m, hm, hcov⟩
      rw [VirtualMemory.writeLoop, if_pos hrem, nextChunk_of_not_covers h hnone,
        Outcome.panic_bind]

/-! ## Writes -/

/-- No two spans have a host byte in common. -/
def SeparateBackings (ms : List (Mapping T)) : Prop :=
  ms.Pairwise fun m m' =>
    Extent.Disjoint (m.mem.base, m.mem.pages * 4096) (m'.mem.base, m'.mem.pages * 4096)

/-- With separate backings, two mapped addresses have two cells. -/
theorem SeparateBackings.cell_ne (h : SeparateBackings ms) {m m' : Mapping T} (hm : m ∈ ms)
    (hm' : m' ∈ ms) {a a' : Nat} (ha : m.Covers a) (ha' : m'.Covers a') (hne : a ≠ a') :
    m.cell a ≠ m'.cell a' := by
  unfold Mapping.Covers at ha ha'
  unfold Mapping.cell
  by_cases heq : m = m'
  · subst heq
    omega
  · have hsymm : Std.Symm fun m m' : Mapping T =>
        Extent.Disjoint (m.mem.base, m.mem.pages * 4096) (m'.mem.base, m'.mem.pages * 4096) :=
      ⟨fun _ _ hd x hx hx' => hd x hx' hx⟩
    intro hcell
    refine h.forall hm hm' heq (m.mem.base + (a - m.addr)) ?_ ?_
    · unfold Extent.Mem
      dsimp only
      omega
    · unfold Extent.Mem
      dsimp only
      omega

/-- With separate backings, every byte of the data is stored. -/
theorem Stores.all {addr : Nat} {data : List UInt8} {c c' : Cells} (h : Stores ms addr data c c')
    (hb : SeparateBackings ms) : ∀ i b, data[i]? = some b → ∀ m ∈ ms, m.Covers (addr + i) →
      c' (m.cell (addr + i)) = b := by
  intro i b hib m hm hcov
  refine h.hits i b hib m hm hcov fun j hj _ m' hm' hcov' => ?_
  exact hb.cell_ne hm' hm hcov' hcov (by omega)

/-- **Writes.** On a mapped range of valid spans a write returns and stores each byte at its
    address's offset in the backing of the span that covers the address, and nothing else. Two
    bytes can only go to one cell when spans share host pages, and then the later one stays. With
    an unmapped address in the range the write panics. -/
theorem write_hits (ms : List (Mapping T)) (h : ValidMappings ms) (hs : SmallSpans ms) (addr : Nat)
    (data : List UInt8) (hlt : addr + data.length < u32Size) (c : Cells) :
    (Mapped ms addr data.length → ∃ c', Memory.write (mapAll ms) c addr data = .ret c' ∧
      Stores ms addr data c c' ∧
      (SeparateBackings ms → ∀ i b, data[i]? = some b → ∀ m ∈ ms, m.Covers (addr + i) →
        c' (m.mem.base + (addr + i - m.addr)) = b)) ∧
      (¬ Mapped ms addr data.length →
        Memory.write (mapAll ms) c addr data = .panic (.expect "Unmapped memory read")) := by
  have hlen : data.length < u32Size := by omega
  rw [write_eq_writeLoop hlen]
  constructor
  · intro hmap
    obtain ⟨c', hret, hstores⟩ := writeLoop_stores h hs hlen hmap (fun _ => rfl) hlt
      (Nat.zero_add _) (Nat.lt_succ_self _)
    exact ⟨c', hret, hstores, hstores.all⟩
  · intro hmap
    exact writeLoop_panics h hs hlen hmap (fun _ => rfl) hlt (by omega) (Nat.lt_succ_self _)

theorem write_hits_twoPages : ∃ c', Memory.write (mapAll twoPages) (fun _ => 0) 0x1FFC
      [1, 2, 3, 4, 5, 6, 7, 8] = .ret c' ∧
    Stores twoPages 0x1FFC [1, 2, 3, 4, 5, 6, 7, 8] (fun _ => 0) c' ∧
    ∀ i b, [1, 2, 3, 4, 5, 6, 7, 8][i]? = some b → ∀ m ∈ twoPages, m.Covers (0x1FFC + i) →
      c' (m.mem.base + (0x1FFC + i - m.addr)) = b := by
  have hseparate : SeparateBackings twoPages :=
    List.pairwise_pair.mpr (Extent.Apart.disjoint (Or.inl (by decide)))
  obtain ⟨c', hret, hstores, hall⟩ := (write_hits twoPages twoPages_valid twoPages_small 0x1FFC
    [1, 2, 3, 4, 5, 6, 7, 8] (by decide) fun _ => 0).1 twoPages_mapped
  exact ⟨c', hret, hstores, hall hseparate⟩

end Pomelo
