/-
  No page is lost: a condition on the calls that is enough, and a run that loses a page.

  When an allocation takes the first block exactly, the region is left without a first block,
  and every block behind it is lost. `KeepsList` rules that out, and with it the allocations
  that are not served by the first block. While every call meets it, every page of the region
  is held or free (`Covers`), and the blocks of the free list have gaps between them, so a run
  of pages that nobody holds lies in one block and the next allocation finds it
  (`noPageLost_of_keepsList`).
-/
import Pomelo.Memory.KmmOverlap

namespace Pomelo

open Lib MemoryBlockHeaderPtr

variable {mem : FlatMemory} {region : MemoryRegion} {s s' : KmmState} {bs : List Extent}

/-- The `n` pages from page `x` are pages of the region that nobody holds. -/
def Unheld (s : KmmState) (x n : Nat) : Prop :=
  ∀ i < n, s.extent.Mem (x + i) ∧ ¬ Covered s.held (x + i)

/-- The next `allocate_linear` returns `None` only for want of unheld pages in a row, and once
    everything is given back the whole region can be allocated. -/
def NoPageLost (mem : FlatMemory) (region : MemoryRegion) (s : KmmState) : Prop :=
  (∀ n, 1 ≤ n → (∃ fuel kmm c,
      allocateLinear mem fuel s.kmm region n s.cells = .ret (none, kmm, c)) →
    ∀ x, ¬ Unheld s x n) ∧
  (s.held = [] → ∃ fuel p kmm c,
    allocateLinear mem fuel s.kmm region s.extent.2 s.cells = .ret (some p, kmm, c))

/-- The call is not an allocation that walks past the first block to a larger one, or that
    takes the first block exactly while there is another. -/
def KeepsList (region : MemoryRegion) (s : KmmState) : KmmCall → Prop
  | .alloc n => ServedByFirst region s (.alloc n) ∧
      ∀ q, (s.kmm.region region).first = some q → n = s.blockSize q →
        ∀ p, FreeBlock region s p → p = q
  | .free _ => True

/-- What is covered when `n` pages of the first block are taken. -/
theorem covered_afterFirst {b : Extent} {n x : Nat} (hn : n ≤ b.2)
    (hlast : n = b.2 → bs = []) :
    Covered (afterFirst b n bs) x ∨ Extent.Mem (b.1, n) x ↔ Covered (b :: bs) x := by
  unfold afterFirst
  split
  · rw [covered_cons, covered_cons]
    have hsplit : Extent.Mem (b.1 + n, b.2 - n) x ∨ Extent.Mem (b.1, n) x ↔ b.Mem x := by
      unfold Extent.Mem
      dsimp only
      omega
    rw [← hsplit]
    tauto
  · have heq : n = b.2 := by omega
    subst heq
    rw [hlast rfl, covered_cons]
    simp [covered_nil]

theorem covered_erase {held : List Extent} {b : Extent} (hb : b ∈ held) (x : Nat) :
    Covered held x ↔ b.Mem x ∨ Covered (held.erase b) x := by
  rw [← covered_cons]
  unfold Covered
  have hperm := List.perm_cons_erase hb
  constructor
  · rintro ⟨e, he, hx⟩
    exact ⟨e, hperm.mem_iff.mp he, hx⟩
  · rintro ⟨e, he, hx⟩
    exact ⟨e, hperm.mem_iff.mpr he, hx⟩

theorem Owned.covers_alloc_first {b : Extent} {n : Nat} (h : Owned region s (b :: bs))
    (hcov : Covers s (b :: bs)) (hb : n ≤ b.2) (hlast : n = b.2 → bs = [])
    (hstep : (regionRuns mem region).step s (.alloc n) s') :
    Covers s' (afterFirst b n bs) := by
  have h' : Owned region s ([] ++ b :: bs) := h
  obtain ⟨_, _, hext, hheld⟩ := h'.alloc_fit (by simp) hb hstep
  intro x
  rw [hext, hheld, hcov x, covered_cons (e := (b.1, n)), ← covered_afterFirst hb hlast]
  tauto

theorem covers_free {b : Extent} (hcov : Covers s bs)
    (hstep : (regionRuns mem region).step s (.free b) s') :
    Covers s' (insertExtent b bs) := by
  obtain ⟨hb, _, _, hext, hheld⟩ := hstep
  intro x
  rw [hext, hheld, hcov x, covered_insertExtent, covered_erase hb x]
  tauto

/-- A call that keeps the list keeps the ownership and the coverage. -/
theorem Owned.step_keeps {l : KmmCall} (h : Owned region s bs) (hcov : Covers s bs)
    (hc : KeepsList region s l) (hstep : (regionRuns mem region).step s l s') :
    ∃ bs', Owned region s' bs' ∧ Covers s' bs' := by
  cases l with
  | free b => exact ⟨_, h.free hstep, covers_free hcov hstep⟩
  | alloc n =>
    obtain ⟨hserved, hexact⟩ := hc
    rcases h.first_or_none hserved with hnone | ⟨a, as, rfl, ha⟩
    · rw [h.alloc_none hnone hstep]
      exact ⟨bs, h, hcov⟩
    · have hasize : s.blockSize a.1 = a.2 := h.blockSize (by simp)
      have hlast : n = a.2 → as = [] := by
        intro heq
        cases as with
        | nil => rfl
        | cons b as =>
          have hfirst : (s.kmm.region region).first = some a.1 := h.list.links.1
          have hsame := hexact a.1 hfirst (by rw [hasize]; exact heq) b.1
            (h.list.links.reachable (by simp))
          have hlt := (ascending_cons.mp h.list.ascending).1 b (by simp)
          omega
      exact ⟨_, h.alloc_first ha hstep, h.covers_alloc_first hcov ha hlast hstep⟩

/-- With every page held or free, an allocation fails only for want of unheld pages. -/
theorem Owned.noPageLost (h : Owned region s bs) (hcov : Covers s bs)
    (hpos : 1 ≤ s.extent.2) : NoPageLost mem region s := by
  -- a run of unheld pages lies in one free block
  have hrun : ∀ x n, 1 ≤ n → Unheld s x n → ∃ b ∈ bs, n ≤ b.2 := by
    intro x n hn hx
    have hfree : ∀ i < n, Covered bs (x + i) := by
      intro i hi
      obtain ⟨hmem, hheld⟩ := hx i hi
      exact ((hcov (x + i)).mp hmem).resolve_right hheld
    obtain ⟨b, hb, h1, h2⟩ := exists_extent_of_run h.list.ascending hn hfree
    exact ⟨b, hb, by omega⟩
  have hfit : ∀ n, (∃ b ∈ bs, n ≤ b.2) → ∃ p kmm c, ∀ fuel, bs.length < fuel →
      allocateLinear mem fuel s.kmm region n s.cells = .ret (some p, kmm, c) := by
    rintro n ⟨b, hb, hnb⟩
    have hnot : ¬ ∀ b ∈ bs, b.2 < n := fun hall => absurd (hall b hb) (by omega)
    obtain ⟨xs, b, ys, rfl, hxs, hb⟩ := exists_first_fit hnot
    exact ⟨_, _, _, fun fuel hf => allocateLinear_of_fit mem h.list hxs hb hf⟩
  constructor
  · rintro n hn ⟨fuel, kmm, c, hcall⟩ x hx
    obtain ⟨p, kmm', c', hall⟩ := hfit n (hrun x n hn hx)
    have hres := alloc_result hcall hall
    cases hres
  · intro hheld
    have hwhole : Unheld s s.extent.1 s.extent.2 := by
      intro i hi
      rw [hheld]
      refine ⟨?_, covered_nil _⟩
      unfold Extent.Mem
      omega
    obtain ⟨p, kmm, c, hall⟩ := hfit _ (hrun _ _ hpos hwhole)
    exact ⟨_, p, kmm, c, hall _ (Nat.lt_succ_self _)⟩

/-- **No page is lost.** In a run whose calls all keep the list, every state's next
    `allocate_linear(n)` returns `None` only if no `n` pages of the region in a row are
    unheld, and with everything given back the whole region can be allocated. -/
theorem noPageLost_of_keepsList (mem : FlatMemory) (region : MemoryRegion)
    (tr : List (KmmState × KmmCall)) (s : KmmState) (h : Run (regionRuns mem region) tr s)
    (hc : EveryStep (KeepsList region) tr) : EveryState (NoPageLost mem region) tr s := by
  refine h.every_of (I := fun s => (∃ bs, Owned region s bs ∧ Covers s bs) ∧ 1 ≤ s.extent.2)
    ?_ ?_ ?_ hc
  · intro s hs
    have hown := init_owned hs
    obtain ⟨_, _, pages, _, _, _, hpages, _, hext, _⟩ := hs
    exact ⟨⟨_, hown⟩, by rw [hext]; exact hpages⟩
  · rintro s l s' ⟨⟨bs, hbs, hcov⟩, hpos⟩ hcl hstep
    refine ⟨hbs.step_keeps hcov hcl hstep, ?_⟩
    rw [step_extent hstep]
    exact hpos
  · rintro s ⟨⟨bs, hbs, hcov⟩, hpos⟩
    exact hbs.noPageLost hcov hpos

/-- While the list is one block, every call keeps it. -/
theorem Owned.keepsList_single {b : Extent} (h : Owned region s [b]) (l : KmmCall) :
    KeepsList region s l := by
  have honly : ∀ p, FreeBlock region s p → p = b.1 := by
    intro p hp
    have hmem := h.mem_of_freeBlock hp
    rw [List.mem_singleton] at hmem
    exact congrArg Prod.fst hmem
  have hfirst : ∀ q, (s.kmm.region region).first = some q → q = b.1 :=
    fun q hq => honly q (.first hq)
  cases l with
  | free e => trivial
  | alloc n =>
    refine ⟨fun q hq p hp hn => ?_, fun q hq _ p hp => ?_⟩
    · rw [hfirst q hq, ← honly p hp]
      exact hn
    · rw [honly p hp, hfirst q hq]

/-- Four pages from page 1. Two one-page blocks are handed out and the second is given back, which
    joins it to the pages behind; two pages are handed out, page 1 is given back, and then the
    two pages between two free ones. -/
theorem exists_mergingRun : ∃ tr s, Run (regionRuns ⟨16⟩ .app) tr s ∧ s.held = [] ∧
    tr.map Prod.snd =
      [.free (2, 2), .free (1, 1), .alloc 2, .free (2, 1), .alloc 1, .alloc 1] ∧
    linkNode s.cells 1 = some (4, none) ∧ EveryStep (KeepsList .app) tr := by
  have hrun : (stateAfter ⟨16⟩ .app 8 0x1000 4
      [.alloc 1, .alloc 1, .free (2, 1), .alloc 2, .free (1, 1), .free (2, 2)]).map
        (fun s => (s.held, linkNode s.cells 1)) = some ([], some (4, none)) := by
    decide +kernel
  obtain ⟨s, hs, hview⟩ := Option.map_eq_some_iff.mp hrun
  obtain ⟨hheld, hnode⟩ := Prod.mk.inj hview
  obtain ⟨s0, hinit, hext, hs⟩ := stateAfter_start hs (by decide) (by decide) (by decide)
  obtain ⟨s1, h1, hs⟩ := runAll_cons.mp hs
  obtain ⟨s2, h2, hs⟩ := runAll_cons.mp hs
  obtain ⟨s3, h3, hs⟩ := runAll_cons.mp hs
  obtain ⟨s4, h4, hs⟩ := runAll_cons.mp hs
  obtain ⟨s5, h5, hs⟩ := runAll_cons.mp hs
  obtain ⟨s6, h6, hs⟩ := runAll_cons.mp hs
  obtain rfl := runAll_nil.mp hs
  -- the free list of each state, a single block whenever pages are taken
  have own0 : Owned .app s0 [(1, 4)] := hext ▸ (init_owned hinit).1
  have own1 : Owned .app s1 [(2, 3)] :=
    own0.alloc_first (n := 1) (by decide) (KmmState.step_of_call? h1)
  have own2 : Owned .app s2 [(3, 2)] :=
    own1.alloc_first (n := 1) (by decide) (KmmState.step_of_call? h2)
  have own3 : Owned .app s3 [(2, 3)] := own2.free (KmmState.step_of_call? h3)
  have hr := ((((((Run.start hinit).next (KmmState.step_of_call? h1)).next
    (KmmState.step_of_call? h2)).next (KmmState.step_of_call? h3)).next
    (KmmState.step_of_call? h4)).next (KmmState.step_of_call? h5)).next
    (KmmState.step_of_call? h6)
  refine ⟨_, s6, hr, hheld, rfl, hnode, ?_⟩
  simp only [everyStep_cons]
  exact ⟨trivial, trivial, own3.keepsList_single _, trivial, own1.keepsList_single _,
    own0.keepsList_single _, everyStep_nil _⟩

theorem noPageLost_of_keepsList_merging : ∃ tr s, Run (regionRuns ⟨16⟩ .app) tr s ∧
    tr.map Prod.snd =
      [.free (2, 2), .free (1, 1), .alloc 2, .free (2, 1), .alloc 1, .alloc 1] ∧
    EveryState (NoPageLost ⟨16⟩ .app) tr s := by
  obtain ⟨tr, s, hr, _, hcalls, _, hkeeps⟩ := exists_mergingRun
  exact ⟨tr, s, hr, hcalls, noPageLost_of_keepsList ⟨16⟩ .app tr s hr hkeeps⟩

/-- Three pages from page 1: two one-page blocks are handed out, the first is given back and
    handed out again. The exact fit leaves no first block, and page 3 is lost. -/
theorem noPageLost_fails :
    ¬ ∀ (mem : FlatMemory) (region : MemoryRegion) (tr : List (KmmState × KmmCall))
      (s : KmmState), Run (regionRuns mem region) tr s → NoPageLost mem region s := by
  intro hall
  have hrun : (stateAfter ⟨16⟩ .app 8 0x1000 3
      [.alloc 1, .alloc 1, .free (1, 1), .alloc 1]).map
        (fun s => (s.held, s.extent, (s.kmm.region .app).first)) =
      some ([(1, 1), (2, 1)], (1, 3), none) := by
    decide +kernel
  obtain ⟨s, hs, hview⟩ := Option.map_eq_some_iff.mp hrun
  simp only [Prod.mk.injEq] at hview
  obtain ⟨hheld, hext, hfirst⟩ := hview
  obtain ⟨tr, htr⟩ := run_of_stateAfter hs (by decide) (by decide) (by decide)
  refine (hall _ _ tr s htr).1 1 (by decide) ⟨1, s.kmm, s.cells, ?_⟩ 3 ?_
  · unfold allocateLinear
    rw [hfirst]
    dsimp only
    rw [allocateLoop, Outcome.pure_eq, Outcome.ret_bind]
    dsimp only
    rw [KMM.setRegion_region, Outcome.pure_eq]
  · intro i hi
    have hi0 : i = 0 := by omega
    subst hi0
    rw [hheld]
    simp [Extent.Mem, Covered, hext]

end Pomelo
