/-
  No page is handed out twice: when it holds, and when it does not.

  An allocation served by the first block of the list takes the block out of the list or leaves
  its remainder in its place. An allocation served further down leaves the block linked, so
  the block is held and free at once (`Owned.alloc_behind`). `noOverlap_iff_servedByFirst`:
  the runs in which held blocks never share a page with each other or with a free block are
  exactly those without such an allocation.
-/
import Pomelo.Memory.KmmRun

namespace Pomelo

open Lib MemoryBlockHeaderPtr

variable {mem : FlatMemory} {region : MemoryRegion} {s s' : KmmState} {bs : List Extent}

/-- No two held blocks share a page, and no held block shares one with a free block. -/
def NoOverlap (region : MemoryRegion) (s : KmmState) : Prop :=
  s.held.Pairwise Extent.Disjoint ∧
    ∀ p, FreeBlock region s p → ∀ h ∈ s.held, Extent.Disjoint h (p, s.blockSize p)

/-- The call is not an allocation that walks past the first block to a larger one. -/
def ServedByFirst (region : MemoryRegion) (s : KmmState) : KmmCall → Prop
  | .alloc n => ∀ q, (s.kmm.region region).first = some q →
      ∀ p, FreeBlock region s p → n ≤ s.blockSize p → n ≤ s.blockSize q
  | .free _ => True

theorem Owned.noOverlap (h : Owned region s bs) : NoOverlap region s := by
  refine ⟨h.heldApart.imp fun hef => hef.disjoint, fun p hp e he => ?_⟩
  exact (h.apart e he _ (h.mem_of_freeBlock hp)).disjoint

/-- An allocation served behind the first block leaves its block linked: it is held and
    free. -/
theorem Owned.alloc_behind {a b : Extent} {xs ys : List Extent} {n : Nat}
    (h : Owned region s (a :: xs ++ b :: ys)) (hs : ∀ x ∈ a :: xs, x.2 < n) (hb : n ≤ b.2)
    (hstep : (regionRuns mem region).step s (.alloc n) s') : ¬ NoOverlap region s' := by
  have hn : 1 ≤ n := hstep.1
  obtain ⟨hkmm, hcells, _, hheld⟩ := h.alloc_fit hs hb hstep
  have hbefore : ∀ x ∈ a :: xs, x.1 + x.2 < b.1 := fun x hx =>
    (List.pairwise_append.mp h.list.ascending).2.2 x hx b (by simp)
  obtain ⟨t, hs1, rfl, q, hq, _⟩ := seg_append.mp h.list.links
  have hkeep : ∀ x ∈ a :: xs ++ [b], linkNode s'.cells x.1 = linkNode s.cells x.1 := by
    intro x hx
    rw [hcells]
    refine linkNode_splitCells s.cells b n ?_
    rcases List.mem_append.mp hx with hx | hx
    · have := hbefore x hx
      omega
    · rw [List.mem_singleton.mp hx]
      omega
  have hfirst : (s'.kmm.region region).first = (s.kmm.region region).first := by
    rw [hkmm, KMM.region_setRegion]
    have ha : (s.kmm.region region).first = some a.1 := hs1.1
    have hab := hbefore a (by simp)
    refine if_neg ?_
    rw [ha, Option.some.injEq]
    omega
  have hfree : FreeBlock region s' b.1 := by
    unfold FreeBlock
    rw [hfirst]
    have hseg : Seg (linkNode s.cells) (s.kmm.region region).first (a :: xs ++ [b]) q :=
      seg_append.mpr ⟨some b.1, hs1, rfl, q, hq, rfl⟩
    exact (hseg.congr hkeep).reachable (by simp)
  have hsize : s'.blockSize b.1 = b.2 := by
    have hnode := hkeep b (by simp)
    rw [hq] at hnode
    exact (linkNode_eq_some.mp hnode).1
  intro hno
  have hd := hno.2 b.1 hfree (b.1, n) (by rw [hheld]; simp) b.1
  rw [hsize] at hd
  unfold Extent.Mem at hd
  dsimp only at hd
  omega

/-- A call that is served by the first block, or by none: which of the two. -/
theorem Owned.first_or_none {n : Nat} (h : Owned region s bs)
    (hc : ServedByFirst region s (.alloc n)) :
    (∀ b ∈ bs, b.2 < n) ∨ ∃ a as, bs = a :: as ∧ n ≤ a.2 := by
  by_cases hs : ∀ b ∈ bs, b.2 < n
  · exact Or.inl hs
  · right
    cases bs with
    | nil => simp at hs
    | cons a as =>
      obtain ⟨xs, b, ys, heq, hxs, hb⟩ := exists_first_fit hs
      have hmem : b ∈ a :: as := by rw [heq]; simp
      have hbig := hc a.1 h.list.links.1 b.1 (h.list.links.reachable hmem)
        (by rw [h.blockSize hmem]; exact hb)
      rw [h.blockSize (by simp)] at hbig
      exact ⟨a, as, rfl, hbig⟩

theorem Owned.step_served {l : KmmCall} (h : Owned region s bs)
    (hc : ServedByFirst region s l) (hstep : (regionRuns mem region).step s l s') :
    ∃ bs', Owned region s' bs' := by
  cases l with
  | free b => exact ⟨_, h.free hstep⟩
  | alloc n =>
    rcases h.first_or_none hc with hnone | ⟨a, as, rfl, ha⟩
    · rw [h.alloc_none hnone hstep]
      exact ⟨bs, h⟩
    · exact ⟨_, h.alloc_first ha hstep⟩

theorem Owned.step_not_served {l : KmmCall} (h : Owned region s bs)
    (hc : ¬ ServedByFirst region s l) (hstep : (regionRuns mem region).step s l s') :
    ¬ NoOverlap region s' := by
  cases l with
  | free b => exact absurd trivial hc
  | alloc n =>
    unfold ServedByFirst at hc
    push Not at hc
    obtain ⟨q, hq, p, hp, hnp, hnq⟩ := hc
    have hmem := h.mem_of_freeBlock hp
    have hnot : ¬ ∀ b ∈ bs, b.2 < n := by
      intro hall
      have := hall _ hmem
      dsimp only at this
      omega
    obtain ⟨xs, b, ys, rfl, hxs, hb⟩ := exists_first_fit hnot
    cases xs with
    | nil =>
      have hqb : some q = some b.1 := hq.symm.trans h.list.links.1
      have hsize : s.blockSize b.1 = b.2 := h.blockSize (by simp)
      rw [Option.some.inj hqb, hsize] at hnq
      omega
    | cons a xs => exact h.alloc_behind hxs hb hstep

/-- **Held blocks and the free list.** A run of `init_region`, `allocate_linear` and `free`
    never lets a held block share a page with another held block or with a free one, exactly
    when every allocation in it is served by the first block of the list or by none. -/
theorem noOverlap_iff_servedByFirst (mem : FlatMemory) (region : MemoryRegion)
    (tr : List (KmmState × KmmCall)) (s : KmmState) (h : Run (regionRuns mem region) tr s) :
    EveryState (NoOverlap region) tr s ↔ EveryStep (ServedByFirst region) tr := by
  refine h.all_iff (I := fun s => ∃ bs, Owned region s bs) ?_ ?_ ?_ ?_
  · intro s hs
    exact ⟨_, (init_owned hs).1⟩
  · rintro s l s' ⟨bs, hbs⟩ hc hstep
    exact hbs.step_served hc hstep
  · rintro s ⟨bs, hbs⟩
    exact hbs.noOverlap
  · rintro s l s' ⟨bs, hbs⟩ hc hstep
    exact hbs.step_not_served hc hstep

theorem noOverlap_iff_servedByFirst_two : ∃ tr s, Run (regionRuns ⟨16⟩ .app) tr s ∧
    s.held = [(2, 1), (1, 1)] ∧
    (EveryState (NoOverlap .app) tr s ↔ EveryStep (ServedByFirst .app) tr) := by
  have hrun : (stateAfter ⟨16⟩ .app 8 0x1000 4 [.alloc 1, .alloc 1]).map KmmState.held =
      some [(2, 1), (1, 1)] := by
    decide +kernel
  obtain ⟨s, hs, hheld⟩ := Option.map_eq_some_iff.mp hrun
  obtain ⟨tr, htr⟩ := run_of_stateAfter hs (by decide) (by decide) (by decide)
  exact ⟨tr, s, htr, hheld, noOverlap_iff_servedByFirst ⟨16⟩ .app tr s htr⟩

/-- Four pages from page 1: two one-page blocks are handed out, the first is given back, and
    two pages are served by the block behind it. Pages 3 and 4 are held and free. -/
theorem noOverlap_fails :
    ¬ ∀ (mem : FlatMemory) (region : MemoryRegion) (tr : List (KmmState × KmmCall))
      (s : KmmState), Run (regionRuns mem region) tr s → NoOverlap region s := by
  intro hall
  have hrun : (stateAfter ⟨16⟩ .app 8 0x1000 4
      [.alloc 1, .alloc 1, .free (1, 1), .alloc 2]).map (KmmState.view .app [1, 3]) =
      some ([(3, 2), (2, 1)], some 1, [some (1, some 3), some (2, none)]) := by
    decide +kernel
  obtain ⟨s, hs, hview⟩ := Option.map_eq_some_iff.mp hrun
  simp only [KmmState.view, List.map_cons, List.map_nil, Prod.mk.injEq, List.cons.injEq,
    and_true] at hview
  obtain ⟨hheld, hfirst, h1, h3⟩ := hview
  obtain ⟨tr, htr⟩ := run_of_stateAfter hs (by decide) (by decide) (by decide)
  have hfree : FreeBlock .app s 3 := (Reachable.first hfirst).next h1
  have hd := (hall _ _ tr s htr).2 3 hfree (3, 2) (by rw [hheld]; simp) 3
  have hsize : s.blockSize 3 = 2 := (linkNode_eq_some.mp h3).1
  rw [hsize] at hd
  unfold Extent.Mem at hd
  dsimp only at hd
  omega

end Pomelo
