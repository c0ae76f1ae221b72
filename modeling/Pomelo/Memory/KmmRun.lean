/-
  Runs of the allocator on one region: who owns which page.

  A run starts with `init_region` and goes on with `allocate_linear` calls and frees of held
  blocks, over a flat byte store that nothing else writes. `held` is the list of blocks handed
  out and not yet given back.

  `Owned region s bs`: the free list of the region is `bs`, and the held blocks are apart from
  each other and from `bs`. An allocation served by the first block of the list keeps it
  (`Owned.alloc_first`), a free always does (`Owned.free`).
-/
import Pomelo.Memory.KmmFree
import Pomelo.Lib.Run

namespace Pomelo

open Lib MemoryBlockHeaderPtr

/-- A region in use: the allocator, the cells behind it, the pages the region was given, and
    the blocks handed out. -/
structure KmmState where
  kmm : KMM
  cells : Cells
  extent : Extent
  held : List Extent

/-- A call on the region: `allocate_linear(pages)`, or `free` of a held block. -/
inductive KmmCall where
  | alloc (pages : Nat)
  | free (block : Extent)
deriving DecidableEq, Repr

/-- The blocks held after `allocate_linear(n)` returned `res`. -/
def heldAfter (held : List Extent) (n : Nat) : Option Nat → List Extent
  | none => held
  | some p => (p, n) :: held

/-- The runs on one region. -/
def regionRuns (mem : FlatMemory) (region : MemoryRegion) : System KmmState KmmCall where
  init s := ∃ kmm addr pages c,
    initRegion mem kmm region addr pages c = .ret (s.kmm, s.cells) ∧ addr < u32Size ∧
      1 ≤ pages ∧ addr / 4096 + pages ≤ pageCount ∧ s.extent = (addr / 4096, pages) ∧
      s.held = []
  step s l s' :=
    match l with
    | .alloc n => 1 ≤ n ∧ n < u32Size ∧ ∃ fuel res,
        allocateLinear mem fuel s.kmm region n s.cells = .ret (res, s'.kmm, s'.cells) ∧
          s'.extent = s.extent ∧ s'.held = heldAfter s.held n res
    | .free b => b ∈ s.held ∧ ∃ fuel,
        free mem fuel s.kmm region (b.1 <<< 12) b.2 s.cells = .ret (s'.kmm, s'.cells) ∧
          s'.extent = s.extent ∧ s'.held = s.held.erase b

/-- The step, executed with the given fuel. -/
def KmmState.call? (mem : FlatMemory) (region : MemoryRegion) (fuel : Nat) (s : KmmState) :
    KmmCall → Option KmmState
  | .alloc n =>
    if 1 ≤ n ∧ n < u32Size then
      (allocateLinear mem fuel s.kmm region n s.cells).value?.map fun (res, kmm, c) =>
        { s with kmm := kmm, cells := c, held := heldAfter s.held n res }
    else none
  | .free b =>
    if b ∈ s.held then
      (free mem fuel s.kmm region (b.1 <<< 12) b.2 s.cells).value?.map fun (kmm, c) =>
        { s with kmm := kmm, cells := c, held := s.held.erase b }
    else none

theorem KmmState.step_of_call? {mem : FlatMemory} {region : MemoryRegion} {fuel : Nat}
    {s s' : KmmState} {l : KmmCall} (h : s.call? mem region fuel l = some s') :
    (regionRuns mem region).step s l s' := by
  cases l with
  | alloc n =>
    unfold KmmState.call? at h
    dsimp only at h
    split at h
    · rename_i hn
      obtain ⟨⟨res, kmm, c⟩, hr, rfl⟩ := Option.map_eq_some_iff.mp h
      exact ⟨hn.1, hn.2, fuel, res, Outcome.value?_eq_some.mp hr, rfl, rfl⟩
    · cases h
  | free b =>
    unfold KmmState.call? at h
    dsimp only at h
    split at h
    · rename_i hb
      obtain ⟨⟨kmm, c⟩, hr, rfl⟩ := Option.map_eq_some_iff.mp h
      exact ⟨hb, fuel, Outcome.value?_eq_some.mp hr, rfl, rfl⟩
    · cases h

/-! ## Ownership -/

/-- The free list is `bs`; held blocks are apart from each other and from it. -/
structure Owned (region : MemoryRegion) (s : KmmState) (bs : List Extent) : Prop where
  list : FreeList s.cells (s.kmm.region region).first bs
  inSpace : ∀ h ∈ s.held, InSpace h
  heldApart : s.held.Pairwise Extent.Apart
  apart : ∀ h ∈ s.held, ∀ b ∈ bs, Extent.Apart h b

/-- Every page of the region is free or held, and no other page is. -/
def Covers (s : KmmState) (bs : List Extent) : Prop :=
  ∀ x, s.extent.Mem x ↔ Covered bs x ∨ Covered s.held x

/-- The blocks left when `n` pages of the first block `b` are taken: after an exact fit the
    region has no first block. -/
def afterFirst (b : Extent) (n : Nat) (bs : List Extent) : List Extent :=
  if n < b.2 then (b.1 + n, b.2 - n) :: bs else []

theorem fromPtr_eq_some {addr p : Nat} (h : fromPtr addr = some p) :
    addr % 4096 = 0 ∧ p = addr / 4096 ∧ 0 < p := by
  unfold fromPtr at h
  rw [and_fff] at h
  split at h
  · cases h
  · rename_i h0
    split at h
    · cases h
    · rename_i h1
      have hp : addr >>> 12 = addr / 4096 := Nat.shiftRight_eq_div_pow addr 12
      rw [Option.some.injEq, hp] at h
      refine ⟨by omega, h.symm, ?_⟩
      by_contra hz
      have hzero : addr = 0 := by omega
      rw [hzero] at h1
      exact h1 (by decide)

/-- `init_region` makes the whole region one free block. -/
theorem init_owned {mem : FlatMemory} {region : MemoryRegion} {s : KmmState}
    (h : (regionRuns mem region).init s) :
    Owned region s [s.extent] ∧ Covers s [s.extent] := by
  obtain ⟨kmm, addr, pages, c, hinit, _, hpages, hfin, hext, hheld⟩ := h
  unfold initRegion at hinit
  obtain ⟨p, hp, hinit⟩ := Outcome.bind_eq_ret.mp hinit
  obtain ⟨_, rfl, hp0⟩ := fromPtr_eq_some (Outcome.expect_eq_ret.mp hp)
  have hlt : addr / 4096 < pageCount := by omega
  rw [writeHeader_flat mem c hlt, Outcome.ret_bind, Outcome.pure_eq] at hinit
  injection hinit with hinit
  obtain ⟨hkmm, hcells⟩ := Prod.mk.inj hinit
  have hfits : MemoryBlockHeader.Fits
      { size := pages, next := intoUnsafe none, prev := intoUnsafe none } := by
    unfold pageCount at hfin
    refine ⟨?_, intoUnsafe_lt validPtr_none, intoUnsafe_lt validPtr_none⟩
    show pages < u32Size
    unfold u32Size
    omega
  rw [hext]
  refine ⟨⟨⟨?_, ?_, ?_⟩, ?_, ?_, ?_⟩, ?_⟩
  · rw [← hkmm, ← hcells, KMM.region_setRegion]
    exact ⟨rfl, none, linkNode_setHeader_self c _ hfits
      (fromUnsafeData_intoUnsafe validPtr_none), rfl⟩
  · simp [Ascending]
  · intro b hb
    rw [List.mem_singleton.mp hb]
    exact ⟨hp0, hpages, hfin⟩
  · simp [hheld]
  · simp [hheld]
  · simp [hheld]
  · intro x
    rw [hext, hheld]
    simp [covered_cons, covered_nil]

variable {mem : FlatMemory} {region : MemoryRegion} {s s' : KmmState} {bs : List Extent}

/-- A call that returned on some fuel returned what it returns on a large one. -/
theorem alloc_result {n fuel : Nat} {x y : Option Nat × KMM × Cells}
    (hx : allocateLinear mem fuel s.kmm region n s.cells = .ret x)
    (hy : ∀ f, bs.length < f → allocateLinear mem f s.kmm region n s.cells = .ret y) :
    x = y := by
  have h1 := allocateLinear_mono mem hx (Nat.le_max_left fuel (bs.length + 1))
  have h2 := hy (max fuel (bs.length + 1)) (by omega)
  rw [h1] at h2
  injection h2

theorem step_extent {l : KmmCall} (h : (regionRuns mem region).step s l s') :
    s'.extent = s.extent := by
  cases l with
  | alloc n =>
    obtain ⟨_, _, _, _, _, hext, _⟩ := h
    exact hext
  | free b =>
    obtain ⟨_, _, _, hext, _⟩ := h
    exact hext

/-- Without a block that is large enough nothing changes. -/
theorem Owned.alloc_none (h : Owned region s bs) {n : Nat} (hs : ∀ b ∈ bs, b.2 < n)
    (hstep : (regionRuns mem region).step s (.alloc n) s') : s' = s := by
  obtain ⟨_, _, fuel, res, hcall, hext, hheld⟩ := hstep
  have hres := alloc_result hcall fun f hf => allocateLinear_of_small mem h.list hs hf
  obtain ⟨rfl, hkmm, hcells⟩ := by simpa only [Prod.mk.injEq] using hres
  cases s
  cases s'
  simp_all [heldAfter]

/-- An allocation served by the block `b` of the list, as a change of the state. -/
theorem Owned.alloc_fit {xs ys : List Extent} {b : Extent} {n : Nat}
    (h : Owned region s (xs ++ b :: ys)) (hs : ∀ x ∈ xs, x.2 < n) (hb : n ≤ b.2)
    (hstep : (regionRuns mem region).step s (.alloc n) s') :
    s'.kmm = s.kmm.setRegion region
        ((s.kmm.region region).replace b.1 (headPtr (remainder b n))) ∧
      s'.cells = splitCells s.cells b n ∧ s'.extent = s.extent ∧
      s'.held = (b.1, n) :: s.held := by
  obtain ⟨_, _, fuel, res, hcall, hext, hheld⟩ := hstep
  have hres := alloc_result hcall fun f hf => allocateLinear_of_fit mem h.list hs hb hf
  obtain ⟨rfl, hkmm, hcells⟩ := by simpa only [Prod.mk.injEq] using hres
  exact ⟨hkmm, hcells, hext, hheld⟩

/-- A remainder's header holds its size, and the next link of the block it is left of. -/
theorem linkNode_splitCells_remainder {c : Cells} {b : Extent} {n : Nat} {q : Option Nat}
    (hq : linkNode c b.1 = some (b.2, q)) (hlt : n < b.2) :
    linkNode (splitCells c b n) (b.1 + n) = some (b.2 - n, q) := by
  obtain ⟨hsize, hnext⟩ := linkNode_eq_some.mp hq
  have hfits : MemoryBlockHeader.Fits { headerAt c b.1 with size := b.2 - n } := by
    refine ⟨?_, (headerAt_fits c b.1).next, (headerAt_fits c b.1).prev⟩
    have h1 := (headerAt_fits c b.1).size
    show b.2 - n < u32Size
    omega
  rw [splitCells, if_pos hlt]
  exact linkNode_setHeader_self _ _ hfits hnext

/-- The list after pages of its first block were taken. -/
theorem FreeList.alloc_first {c : Cells} {desc : RegionDesc} {b : Extent} {n : Nat}
    (h : FreeList c desc.first (b :: bs)) :
    FreeList (splitCells c b n) (desc.replace b.1 (headPtr (remainder b n))).first
      (afterFirst b n bs) := by
  have hbin : InSpace b := h.inSpace b (by simp)
  have hbpage := hbin.page
  have hbfin := hbin.fin
  have hasc := ascending_cons.mp h.ascending
  obtain ⟨hfirst, q, hq, hs⟩ := h.links
  have hfirst' : (desc.replace b.1 (headPtr (remainder b n))).first = headPtr (remainder b n) :=
    if_pos hfirst
  rw [hfirst']
  unfold afterFirst remainder
  split
  · rename_i hlt
    have hne : ∀ x ∈ bs, x.1 ≠ b.1 + n := by
      intro x hx
      have h1 := hasc.1 x hx
      omega
    refine ⟨?_, ?_, ?_⟩
    · exact ⟨rfl, q, linkNode_splitCells_remainder hq hlt,
        hs.congr fun x hx => linkNode_splitCells c b n (hne x hx)⟩
    · rw [ascending_cons]
      refine ⟨fun f hf => ?_, hasc.2⟩
      have h1 := hasc.1 f hf
      dsimp only
      omega
    · intro g hg
      rcases List.mem_cons.mp hg with rfl | hg
      · exact ⟨by dsimp only; omega, by dsimp only; omega, by dsimp only; omega⟩
      · exact h.inSpace g (by simp [hg])
  · exact ⟨rfl, List.Pairwise.nil, fun g hg => by cases hg⟩

/-- Taking pages of a later block leaves the list from the first block as it was. -/
theorem FreeList.alloc_behind {c : Cells} {desc : RegionDesc} {a b : Extent}
    {xs ys : List Extent} {n : Nat} (h : FreeList c desc.first (a :: xs ++ b :: ys))
    (hn : 1 ≤ n) (hb : n ≤ b.2) :
    (desc.replace b.1 (headPtr (remainder b n))).first = desc.first ∧
      FreeList (splitCells c b n) desc.first (a :: xs ++ b :: ys) := by
  have happ := List.pairwise_append.mp h.ascending
  have hab : a.1 + a.2 < b.1 := happ.2.2 a (by simp) b (by simp)
  have hfirst : desc.first = some a.1 := h.links.1
  -- the page that a split writes is not the start of a block of the list
  have hne : ∀ x ∈ a :: xs ++ b :: ys, x.1 ≠ b.1 + n := by
    intro x hx heq
    rcases List.mem_append.mp hx with hx | hx
    · have h1 := happ.2.2 x hx b (by simp)
      omega
    · rcases List.mem_cons.mp hx with rfl | hx
      · omega
      · have h1 := (ascending_cons.mp happ.2.1).1 x hx
        omega
  refine ⟨if_neg ?_, h.links.congr fun x hx => linkNode_splitCells c b n (hne x hx),
    h.ascending, h.inSpace⟩
  rw [hfirst]
  intro heq
  injection heq with heq
  omega

/-- Taking pages of the first block keeps the ownership, with what is left of the list. -/
theorem Owned.alloc_first {b : Extent} {n : Nat} (h : Owned region s (b :: bs)) (hb : n ≤ b.2)
    (hstep : (regionRuns mem region).step s (.alloc n) s') :
    Owned region s' (afterFirst b n bs) := by
  have hn : 1 ≤ n := hstep.1
  have h' : Owned region s ([] ++ b :: bs) := h
  obtain ⟨hkmm, hcells, _, hheld⟩ := h'.alloc_fit (by simp) hb hstep
  have hbin : InSpace b := h.list.inSpace b (by simp)
  have hbpage := hbin.page
  have hbfin := hbin.fin
  have hasc := ascending_cons.mp h.list.ascending
  -- what is left lies inside the old blocks
  have hleft : ∀ g ∈ afterFirst b n bs, ∃ f ∈ b :: bs, f.1 ≤ g.1 ∧ g.1 + g.2 = f.1 + f.2 ∧
      (f = b → b.1 + n ≤ g.1) := by
    intro g hg
    unfold afterFirst at hg
    split at hg
    · rcases List.mem_cons.mp hg with rfl | hg
      · exact ⟨b, by simp, by dsimp only; omega, by dsimp only; omega, fun _ => Nat.le_refl _⟩
      · have h1 := hasc.1 g hg
        exact ⟨g, by simp [hg], Nat.le_refl _, rfl, fun _ => by omega⟩
    · simp at hg
  refine ⟨?_, ?_, ?_, ?_⟩
  · rw [hkmm, hcells, KMM.region_setRegion]
    exact h.list.alloc_first
  · intro e he
    rw [hheld] at he
    rcases List.mem_cons.mp he with rfl | he
    · exact ⟨hbpage, hn, by dsimp only; omega⟩
    · exact h.inSpace e he
  · rw [hheld, List.pairwise_cons]
    refine ⟨fun e he => ?_, h.heldApart⟩
    have h1 := h.apart e he b (by simp)
    unfold Extent.Apart at h1 ⊢
    dsimp only
    omega
  · intro e he g hg
    obtain ⟨f, hf, hfg, hend, hfb⟩ := hleft g hg
    rw [hheld] at he
    unfold Extent.Apart
    rcases List.mem_cons.mp he with rfl | he
    · left
      dsimp only
      rcases List.mem_cons.mp hf with rfl | hf
      · exact hfb rfl
      · have h1 := hasc.1 f hf
        omega
    · have h1 := h.apart e he f hf
      unfold Extent.Apart at h1
      omega

/-- A free gives the block back to the list. -/
theorem Owned.free {b : Extent} (h : Owned region s bs)
    (hstep : (regionRuns mem region).step s (.free b) s') :
    Owned region s' (insertExtent b bs) := by
  obtain ⟨hb, fuel, hcall, _, hheld⟩ := hstep
  have hbin : InSpace b := h.inSpace b hb
  have hap : ∀ e ∈ bs, Extent.Apart b e := h.apart b hb
  obtain ⟨desc, c', hfree, hfr⟩ := free_spec mem (n := b.2) h.list hbin hap
    (Nat.lt_of_lt_of_le (Nat.lt_succ_self _) (Nat.le_max_right fuel (bs.length + 1)))
  rw [free_mono mem hcall (Nat.le_max_left fuel (bs.length + 1))] at hfree
  injection hfree with hres
  obtain ⟨hkmm, hcells⟩ := Prod.mk.inj hres
  -- the other held blocks are those apart from `b`
  have hperm := List.perm_cons_erase hb
  have hpw : (b :: s.held.erase b).Pairwise Extent.Apart :=
    (hperm.pairwise_iff fun hef => Extent.Apart.symm hef).mp h.heldApart
  have hrest : ∀ e ∈ s.held.erase b, e ∈ s.held := fun e he => List.mem_of_mem_erase he
  refine ⟨?_, ?_, ?_, ?_⟩
  · rw [hkmm, hcells, KMM.region_setRegion]
    exact hfr.freeList h.list hbin hap
  · intro e he
    rw [hheld] at he
    exact h.inSpace e (hrest e he)
  · rw [hheld]
    exact (List.pairwise_cons.mp hpw).2
  · intro e he g hg
    rw [hheld] at he
    refine Extent.Disjoint.apart (fun x hx hgx => ?_) (h.inSpace e (hrest e he)).size
      (insertExtent_nonEmpty hbin.size h.list.nonEmpty g hg)
    rcases covered_insertExtent.mp ⟨g, hg, hgx⟩ with hbx | ⟨f, hf, hfx⟩
    · exact ((List.pairwise_cons.mp hpw).1 e he).not_mem hbx hx
    · exact (h.apart e (hrest e he) f hf).not_mem hx hfx

/-! ## Free blocks -/

/-- The page numbers reachable from `region.first` through the next links. -/
def FreeBlock (region : MemoryRegion) (s : KmmState) (p : Nat) : Prop :=
  Reachable (linkNode s.cells) (s.kmm.region region).first p

/-- The size in pages that the header of page `p` states. -/
def KmmState.blockSize (s : KmmState) (p : Nat) : Nat := (headerAt s.cells p).size

theorem Owned.blockSize (h : Owned region s bs) {b : Extent} (hb : b ∈ bs) :
    s.blockSize b.1 = b.2 := by
  obtain ⟨q, hq⟩ := h.list.links.node_of_mem hb
  exact (linkNode_eq_some.mp hq).1

theorem Owned.mem_of_freeBlock (h : Owned region s bs) {p : Nat} (hp : FreeBlock region s p) :
    (p, s.blockSize p) ∈ bs := by
  unfold FreeBlock at hp
  rw [h.list.links.reachable_iff] at hp
  obtain ⟨v, hv⟩ := hp
  have hsize : s.blockSize p = v := h.blockSize (b := (p, v)) hv
  rw [hsize]
  exact hv

/-- The first block that is large enough, when there is one. -/
theorem exists_first_fit {bs : List Extent} {n : Nat} (h : ¬ ∀ b ∈ bs, b.2 < n) :
    ∃ xs b ys, bs = xs ++ b :: ys ∧ (∀ x ∈ xs, x.2 < n) ∧ n ≤ b.2 := by
  induction bs with
  | nil => simp at h
  | cons b bs ih =>
    by_cases hb : n ≤ b.2
    · exact ⟨[], b, bs, rfl, by simp, hb⟩
    · have hrest : ¬ ∀ x ∈ bs, x.2 < n := by
        intro hall
        refine h fun x hx => ?_
        rcases List.mem_cons.mp hx with rfl | hx
        · omega
        · exact hall x hx
      obtain ⟨xs, c, ys, rfl, hxs, hc⟩ := ih hrest
      refine ⟨b :: xs, c, ys, rfl, ?_, hc⟩
      intro x hx
      rcases List.mem_cons.mp hx with rfl | hx
      · omega
      · exact hxs x hx

/-! ## Runs on fixed calls -/

/-- The state after `init_region(addr, pages)` on cleared cells and then the calls. -/
def stateAfter (mem : FlatMemory) (region : MemoryRegion) (fuel addr pages : Nat)
    (calls : List KmmCall) : Option KmmState :=
  (initRegion mem {} region addr pages (fun _ => 0)).value?.bind fun (kmm, c) =>
    runAll (KmmState.call? mem region fuel)
      { kmm := kmm, cells := c, extent := (addr / 4096, pages), held := [] } calls

theorem init_of_initRegion {addr pages : Nat} {kmm : KMM} {c : Cells}
    (h : (initRegion mem {} region addr pages (fun _ => 0)).value? = some (kmm, c))
    (ha : addr < u32Size) (hp : 1 ≤ pages) (hfin : addr / 4096 + pages ≤ pageCount) :
    (regionRuns mem region).init
      { kmm := kmm, cells := c, extent := (addr / 4096, pages), held := [] } :=
  ⟨{}, addr, pages, _, Outcome.value?_eq_some.mp h, ha, hp, hfin, rfl, rfl⟩

theorem run_of_stateAfter {fuel addr pages : Nat} {calls : List KmmCall}
    (h : stateAfter mem region fuel addr pages calls = some s) (ha : addr < u32Size)
    (hp : 1 ≤ pages) (hfin : addr / 4096 + pages ≤ pageCount) :
    ∃ tr, Run (regionRuns mem region) tr s := by
  obtain ⟨⟨kmm, c⟩, hinit, hrun⟩ := Option.bind_eq_some_iff.mp h
  exact Run.of_runAll (fun _ _ _ hst => KmmState.step_of_call? hst)
    (.start (init_of_initRegion hinit ha hp hfin)) hrun

theorem stateAfter_start {fuel addr pages : Nat} {calls : List KmmCall}
    (h : stateAfter mem region fuel addr pages calls = some s) (ha : addr < u32Size)
    (hp : 1 ≤ pages) (hfin : addr / 4096 + pages ≤ pageCount) :
    ∃ s0, (regionRuns mem region).init s0 ∧ s0.extent = (addr / 4096, pages) ∧
      runAll (KmmState.call? mem region fuel) s0 calls = some s := by
  obtain ⟨⟨kmm, c⟩, hinit, hrun⟩ := Option.bind_eq_some_iff.mp h
  exact ⟨_, init_of_initRegion hinit ha hp hfin, rfl, hrun⟩

/-- The held blocks, the first block, and the nodes of the pages `ps`. -/
def KmmState.view (region : MemoryRegion) (ps : List Nat) (s : KmmState) :
    List Extent × Option Nat × List (Option (Nat × Option Nat)) :=
  (s.held, (s.kmm.region region).first, ps.map (linkNode s.cells))

end Pomelo
