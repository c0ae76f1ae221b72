/-
  KMM over a flat byte store: when the walks along the free list end.

  Neither loop has a bound of its own. On a free list both end (`FreeList.walksEnd`). Taking
  pages keeps a free list, whichever block serves; giving a block back does if the block lies
  apart from the free ones. A block handed out behind the first one stays in the list, so
  giving it back can lay one block over another, and a split of the lower one then writes a
  header that leads to itself (`walksEnd_fails`).
-/
import Pomelo.Memory.KmmUndo
import Pomelo.Memory.KmmCoverage

namespace Pomelo

open Lib MemoryBlockHeaderPtr

/-- Both walks end: that of `allocate_linear` for every number of pages, and that of
    `find_insertion_point` for every address that `free` accepts. -/
def WalksEnd (mem : FlatMemory) (region : MemoryRegion) (s : KmmState) : Prop :=
  (∀ n, Outcome.Ends fun fuel => allocateLinear mem fuel s.kmm region n s.cells) ∧
    ∀ addr p, fromPtr addr = some p →
      Outcome.Ends fun fuel => findInsertionPoint mem fuel (s.kmm.region region) s.cells p

/-- The block given back has no page in common with a free block. -/
def FreesApart (region : MemoryRegion) (s : KmmState) : KmmCall → Prop
  | .alloc _ => True
  | .free b => ∀ p, FreeBlock region s p → Extent.Disjoint b (p, s.blockSize p)

/-- The walks of `allocate_linear` along a free list end. -/
theorem FreeList.allocateLinear_ends {mem : FlatMemory} {kmm : KMM} {r : MemoryRegion}
    {c : Cells} {bs : List Extent} (h : FreeList c (kmm.region r).first bs) (n : Nat) :
    Outcome.Ends fun fuel => allocateLinear mem fuel kmm r n c := by
  by_cases hsmall : ∀ b ∈ bs, b.2 < n
  · exact (settles_of_small mem h hsmall).ends
  · obtain ⟨xs, b, ys, rfl, hxs, hb⟩ := exists_first_fit hsmall
    exact (settles_of_fit mem h hxs hb).ends

/-- The search for the place of a block in a free list ends. -/
theorem FreeList.findInsertionPoint_ends {mem : FlatMemory} {desc : RegionDesc} {c : Cells}
    {bs : List Extent} (h : FreeList c desc.first bs) (p : Nat) :
    Outcome.Ends fun fuel => findInsertionPoint mem fuel desc c p := by
  obtain ⟨xs, ys, rfl, hx, hy⟩ := h.ascending.split p
  have hsettles : Outcome.Settles (fun fuel => findInsertionPoint mem fuel desc c p) _ :=
    ⟨xs.length + 1, fun _ hf => findInsertionLoop_eq mem h.links
      (fun x hxm => (h.inSpace x (by simp [hxm])).lt) hx hy (Nat.lt_of_succ_le hf)⟩
  exact hsettles.ends

theorem FreeList.walksEnd {mem : FlatMemory} {region : MemoryRegion} {s : KmmState}
    {bs : List Extent} (h : FreeList s.cells (s.kmm.region region).first bs) :
    WalksEnd mem region s :=
  ⟨h.allocateLinear_ends, fun _ p _ => h.findInsertionPoint_ends p⟩

/-! ## Runs -/

/-- The region has a free list, and the blocks handed out lie in the address space. -/
def Listed (region : MemoryRegion) (s : KmmState) : Prop :=
  (∃ bs, FreeList s.cells (s.kmm.region region).first bs) ∧ ∀ b ∈ s.held, InSpace b

variable {mem : FlatMemory} {region : MemoryRegion} {s s' : KmmState}

/-- An allocation keeps a free list, whichever block serves it. -/
theorem Listed.alloc {n : Nat} (h : Listed region s)
    (hstep : (regionRuns mem region).step s (.alloc n) s') : Listed region s' := by
  obtain ⟨⟨bs, hlist⟩, hheld⟩ := h
  obtain ⟨hn, _, fuel, res, hcall, _, hheld'⟩ := hstep
  by_cases hsmall : ∀ b ∈ bs, b.2 < n
  · have hres := alloc_result hcall fun f hf => allocateLinear_of_small mem hlist hsmall hf
    simp only [Prod.mk.injEq] at hres
    obtain ⟨rfl, hkmm, hcells⟩ := hres
    refine ⟨⟨bs, ?_⟩, ?_⟩
    · rw [hkmm, hcells]
      exact hlist
    · rw [hheld']
      exact hheld
  · obtain ⟨xs, b, ys, rfl, hxs, hb⟩ := exists_first_fit hsmall
    have hres := alloc_result hcall fun f hf => allocateLinear_of_fit mem hlist hxs hb hf
    simp only [Prod.mk.injEq] at hres
    obtain ⟨rfl, hkmm, hcells⟩ := hres
    have hbin : InSpace b := hlist.inSpace b (by simp)
    refine ⟨?_, ?_⟩
    · rw [hkmm, hcells, KMM.region_setRegion]
      exact hlist.alloc_fit hn hb
    · rw [hheld']
      intro e he
      rcases List.mem_cons.mp he with rfl | he
      · have hfin := hbin.fin
        exact ⟨hbin.page, hn, by dsimp only; omega⟩
      · exact hheld e he

/-- A free of a block apart from the free ones keeps a free list. -/
theorem Listed.free {b : Extent} (h : Listed region s) (hap : FreesApart region s (.free b))
    (hstep : (regionRuns mem region).step s (.free b) s') : Listed region s' := by
  obtain ⟨⟨bs, hlist⟩, hheld⟩ := h
  obtain ⟨hb, fuel, hcall, _, hheld'⟩ := hstep
  have hbin : InSpace b := hheld b hb
  have hapart : ∀ e ∈ bs, Extent.Apart (b.1, b.2) e := by
    intro e he
    have hreach : FreeBlock region s e.1 := hlist.links.reachable he
    obtain ⟨q, hq⟩ := hlist.links.node_of_mem he
    have hsize : s.blockSize e.1 = e.2 := (linkNode_eq_some.mp hq).1
    have hdisjoint := hap e.1 hreach
    rw [hsize] at hdisjoint
    exact hdisjoint.apart hbin.size (hlist.inSpace e he).size
  obtain ⟨desc, c', hfree, hfr⟩ := free_spec mem hlist hbin hapart
    (Nat.lt_of_lt_of_le (Nat.lt_succ_self _) (Nat.le_max_right fuel (bs.length + 1)))
  rw [free_mono mem hcall (Nat.le_max_left fuel (bs.length + 1))] at hfree
  injection hfree with hres
  obtain ⟨hkmm, hcells⟩ := Prod.mk.inj hres
  refine ⟨⟨insertExtent (b.1, b.2) bs, ?_⟩, ?_⟩
  · rw [hkmm, hcells, KMM.region_setRegion]
    exact hfr.freeList hlist hbin hapart
  · rw [hheld']
    intro e he
    exact hheld e (List.mem_of_mem_erase he)

/-- **The walks end** in every state of a run in which no block is given back that overlaps a
    free one. -/
theorem walksEnd_of_freesApart (mem : FlatMemory) (region : MemoryRegion)
    (tr : List (KmmState × KmmCall)) (s : KmmState) (h : Run (regionRuns mem region) tr s)
    (hc : EveryStep (FreesApart region) tr) : EveryState (WalksEnd mem region) tr s := by
  refine h.every_of (I := Listed region) ?_ ?_ ?_ hc
  · intro s hs
    have hown := (init_owned hs).1
    exact ⟨⟨_, hown.list⟩, hown.inSpace⟩
  · intro s l s' hlisted hap hstep
    cases l with
    | alloc n => exact hlisted.alloc hstep
    | free b => exact hlisted.free hap hstep
  · intro s hlisted
    obtain ⟨⟨bs, hlist⟩, _⟩ := hlisted
    exact hlist.walksEnd

/-- A held block is apart from the free list that the region owns. -/
theorem Owned.freesApart {bs : List Extent} {l : KmmCall} (h : Owned region s bs)
    (hstep : (regionRuns mem region).step s l s') : FreesApart region s l := by
  cases l with
  | alloc n => trivial
  | free b =>
    intro p hp
    exact (h.apart b hstep.1 _ (h.mem_of_freeBlock hp)).disjoint

/-- Calls that keep the list give back only blocks apart from the free ones. -/
theorem freesApart_of_keepsList {tr : List (KmmState × KmmCall)}
    (h : Run (regionRuns mem region) tr s) (hc : EveryStep (KeepsList region) tr) :
    EveryStep (FreesApart region) tr := by
  induction h with
  | start _ => exact everyStep_nil _
  | @next tr s s' l hr hstep ih =>
    have hc' := (everyStep_cons.mp hc).2
    obtain ⟨bs, hown, _⟩ := hr.invariant_of (I := fun s => ∃ bs, Owned region s bs ∧ Covers s bs)
      (fun s hs => ⟨_, init_owned hs⟩)
      (fun s l s' ⟨_, hown, hcov⟩ hc hstep => hown.step_keeps hcov hc hstep) hc'
    exact everyStep_cons.mpr ⟨hown.freesApart hstep, ih hc'⟩

theorem walksEnd_of_freesApart_merging : ∃ tr s, Run (regionRuns ⟨16⟩ .app) tr s ∧
    tr.map Prod.snd =
      [.free (2, 2), .free (1, 1), .alloc 2, .free (2, 1), .alloc 1, .alloc 1] ∧
    EveryState (WalksEnd ⟨16⟩ .app) tr s := by
  obtain ⟨tr, s, hr, _, hcalls, _, hkeeps⟩ := exists_mergingRun
  exact ⟨tr, s, hr, hcalls,
    walksEnd_of_freesApart ⟨16⟩ .app tr s hr (freesApart_of_keepsList hr hkeeps)⟩

/-- From a block that leads to itself and is too small, the walk goes on forever. -/
theorem allocateLoop_of_cycle (mem : FlatMemory) {c : Cells} {p v n : Nat} (desc : RegionDesc)
    (hp : p < pageCount) (hnode : linkNode c p = some (v, some p)) (hsmall : v < n)
    (fuel : Nat) : allocateLoop mem n fuel desc (some p) c = .diverge := by
  obtain ⟨hsize, hnext⟩ := linkNode_eq_some.mp hnode
  induction fuel with
  | zero => rfl
  | succ fuel ih =>
    unfold allocateLoop
    rw [readHeader_flat mem c hp, Outcome.ret_bind, if_neg (by rw [hsize]; omega),
      assertSafe_of_decodes hnext, Outcome.ret_bind]
    exact ih

/-- Six pages from page 1. Page 1 is free when two pages are taken behind it, and page 2 is given
    back before these are. So pages 3 and 4 are free twice, and the next split leaves page 3
    leading to itself. -/
theorem walksEnd_fails :
    ¬ ∀ (mem : FlatMemory) (region : MemoryRegion) (tr : List (KmmState × KmmCall))
      (s : KmmState), Run (regionRuns mem region) tr s → WalksEnd mem region s := by
  intro hall
  have hrun : (stateAfter ⟨16⟩ .app 8 0x1000 6
      [.alloc 1, .alloc 1, .free (1, 1), .alloc 2, .free (2, 1), .free (3, 2), .alloc 2]).map
        (fun s => ((s.kmm.region .app).first, linkNode s.cells 3)) =
      some (some 3, some (4, some 3)) := by
    decide +kernel
  obtain ⟨s, hs, hview⟩ := Option.map_eq_some_iff.mp hrun
  obtain ⟨hfirst, hnode⟩ := Prod.mk.inj hview
  obtain ⟨tr, htr⟩ := run_of_stateAfter hs (by decide) (by decide) (by decide)
  obtain ⟨m, hm⟩ := (hall _ _ tr s htr).1 5
  refine hm m (Nat.le_refl m) ?_
  show allocateLinear _ m s.kmm .app 5 s.cells = .diverge
  unfold allocateLinear
  rw [hfirst, allocateLoop_of_cycle _ _ (by decide) hnode (by decide), Outcome.diverge_bind]

end Pomelo
