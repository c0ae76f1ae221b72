/-
  KMM over a flat byte store: when `free` keeps the free list doubly linked.

  The cells that a merge leaves are `mergedCells`, and a merge leads the block behind back to
  the joined block (`PrevLinks.merged`). In front of the list `free` leaves the old first
  block's previous link as it is, so the links hold only if that block is joined
  (`freeLinks_front_iff`); behind a block all three neighbours are patched
  (`freeLinks_behind`). `keepsLinks_iff` is the condition for both calls.
-/
import Pomelo.Memory.KmmLinks

namespace Pomelo

open Lib MemoryBlockHeaderPtr

/-! ## Merging -/

/-- The cells after block `(p, n)` was merged with what follows in front of `ys`. -/
def mergedCells (c : Cells) (p n : Nat) : List Extent → Cells
  | [] => c
  | y :: zs =>
    if p + n = y.1 then
      setHeader (linkedPrev c p zs) p
        { headerAt c p with size := n + y.2, next := (headerAt c y.1).next }
    else c

/-- The region after the same merge: block `p` is the last one if it swallowed the last. -/
def mergedDesc (region : RegionDesc) (p n : Nat) : List Extent → RegionDesc
  | [] => region
  | y :: zs =>
    if p + n = y.1 then { region with last := if zs = [] then some p else region.last }
    else region

/-- One merge of `coalesce`, with the region and the cells it leaves. -/
theorem merge_cells (mem : FlatMemory) (region : RegionDesc) {c : Cells} {p n : Nat}
    {ys : List Extent} (h : Seg (linkNode c) (some p) ((p, n) :: ys) none)
    (hp : InSpace (p, n)) (hin : ∀ y ∈ ys, InSpace y) (hle : ∀ y ∈ ys, p + n ≤ y.1)
    (hasc : Ascending ys) :
    ∃ merged cur c1,
      mergeRight mem region p (headerAt c p) c =
        .ret (merged, cur, mergedDesc region p n ys, c1) ∧
      writeMerged mem merged p cur c1 = .ret (mergedCells c p n ys) ∧
      cur.prev = (headerAt c p).prev ∧
      Merged region (mergedDesc region p n ys) c (mergedCells c p n ys) p n ys := by
  obtain ⟨merged, cur, region', c1, c2, hmerge, hwrite, hprev, hm⟩ :=
    merge_spec mem region h hp hin hle hasc
  have heq : region' = mergedDesc region p n ys ∧ c2 = mergedCells c p n ys := by
    obtain ⟨_, q, hq, hs⟩ := h
    obtain ⟨hsize, hnext⟩ := linkNode_eq_some.mp hq
    have hhead : q = headPtr ys := hs.head_eq
    subst hhead
    by_cases htouch : ∃ m zs, ys = (p + n, m) :: zs
    · obtain ⟨m, zs, rfl⟩ := htouch
      obtain ⟨_, q, hqm, hs⟩ := hs
      have hhead : q = headPtr zs := hs.head_eq
      subst hhead
      rw [mergeRight_of_touch mem region c hsize hnext (hin _ (by simp)) hqm
        fun z hz => hin z (by simp [hz])] at hmerge
      injection hmerge with hmerge
      simp only [Prod.mk.injEq] at hmerge
      obtain ⟨rfl, rfl, rfl, rfl⟩ := hmerge
      rw [writeMerged, if_pos rfl, writeHeader_flat mem _ hp.lt] at hwrite
      injection hwrite with hwrite
      rw [← hwrite, mergedCells, mergedDesc, if_pos rfl, if_pos rfl]
      exact ⟨rfl, rfl⟩
    · have hgap : ∀ y ∈ ys, p + n < y.1 := gap_of_not_touch hin hle hasc htouch
      rw [mergeRight_of_gap mem region c hsize hnext hin hgap] at hmerge
      injection hmerge with hmerge
      simp only [Prod.mk.injEq] at hmerge
      obtain ⟨rfl, rfl, rfl, rfl⟩ := hmerge
      rw [writeMerged, if_neg (by simp)] at hwrite
      injection hwrite with hwrite
      subst hwrite
      cases ys with
      | nil => exact ⟨rfl, rfl⟩
      | cons y ys =>
        have hne : ¬ p + n = y.1 := by
          have := hgap y (by simp)
          omega
        rw [mergedCells, mergedDesc, if_neg hne, if_neg hne]
        exact ⟨rfl, rfl⟩
  obtain ⟨rfl, rfl⟩ := heq
  exact ⟨merged, cur, c1, hmerge, hwrite, hprev, hm⟩

/-- The sizes of two blocks, one behind the other, add up within a `u32`. -/
theorem sum_lt_u32Size {p n : Nat} {y : Extent} (hin : InSpace y) (hle : p + n ≤ y.1) :
    n + y.2 < u32Size := by
  have h1 := hin.fin
  unfold pageCount at h1
  unfold u32Size
  omega

theorem prevLink_mergedCells (c : Cells) {p n : Nat} {ys : List Extent} {x : Nat}
    (hn : ∀ y ∈ ys, n + y.2 < u32Size) (hx : ∀ y ∈ ys, x ≠ y.1) :
    prevLink (mergedCells c p n ys) x = prevLink c x := by
  cases ys with
  | nil => rfl
  | cons y zs =>
    rw [mergedCells]
    split
    · by_cases hxp : x = p
      · have hfits : MemoryBlockHeader.Fits
            { headerAt c p with size := n + y.2, next := (headerAt c y.1).next } :=
          ⟨hn y (by simp), (headerAt_fits c y.1).next, (headerAt_fits c p).prev⟩
        rw [hxp, prevLink, headerAt_setHeader_self _ p hfits, prevLink]
      · have hz : ∀ z ∈ zs, x ≠ z.1 := fun z hz => hx z (by simp [hz])
        rw [prevLink_setHeader_of_ne _ hxp]
        exact prevLink_linkedPrev_of_ne _ hz
    · rfl

/-- A merge keeps the links: where it joins two blocks, it leads the one behind back to the
    joined block, wherever the second one led. -/
theorem PrevLinks.merged {c : Cells} {p n : Nat} {a b : Option Nat} {ys : List Extent}
    (hp : InSpace (p, n)) (hin : ∀ y ∈ ys, InSpace y) (hle : ∀ y ∈ ys, p + n ≤ y.1)
    (hasc : Ascending ys) (hprev : prevLink c p = some a) (hys : PrevLinks c b ys)
    (hb : (∀ y ∈ ys, p + n < y.1) → ys ≠ [] → b = some p) :
    PrevLinks (mergedCells c p n ys) a (joinRight (p, n) ys) := by
  have hn : ∀ y ∈ ys, n + y.2 < u32Size := fun y hy => sum_lt_u32Size (hin y hy) (hle y hy)
  have hself : prevLink (mergedCells c p n ys) p = some a := by
    rw [prevLink_mergedCells c hn, hprev]
    intro y hy
    have h1 := hle y hy
    have h2 := hp.size
    dsimp only at h2
    omega
  cases ys with
  | nil => exact ⟨hself, trivial⟩
  | cons y zs =>
    have hasc' := ascending_cons.mp hasc
    rw [joinRight]
    by_cases htouch : p + n = y.1
    · rw [if_pos htouch]
      refine ⟨hself, ?_⟩
      rw [mergedCells, if_pos htouch]
      have hz : PrevLinks (linkedPrev c p zs) (some p) zs :=
        hys.2.ledBack (validPtr_some hp.page hp.lt) hasc'.2
      refine hz.congr fun z hzm => prevLink_setHeader_of_ne _ ?_ _
      have h1 := hasc'.1 z hzm
      have h2 := hp.size
      dsimp only at h2
      omega
    · rw [if_neg htouch]
      have hlt : p + n < y.1 := by
        have := hle y (by simp)
        omega
      have hgap : ∀ z ∈ y :: zs, p + n < z.1 := by
        intro z hz
        rcases List.mem_cons.mp hz with rfl | hz
        · exact hlt
        · have := hasc'.1 z hz
          omega
      have hbp : b = some p := hb hgap (by simp)
      subst hbp
      refine ⟨hself, ?_⟩
      rw [mergedCells, if_neg htouch]
      exact hys

/-! ## `coalesce` and `free` -/

section Free

variable {mem : FlatMemory} {kmm : KMM} {r : MemoryRegion} {c : Cells} {p n : Nat}

/-- `coalesce` on a block with no previous link. -/
theorem coalesce_cells_front (mem : FlatMemory) (region : RegionDesc) {ys : List Extent}
    (h : Seg (linkNode c) (some p) ((p, n) :: ys) none) (hp : InSpace (p, n))
    (hin : ∀ y ∈ ys, InSpace y) (hle : ∀ y ∈ ys, p + n ≤ y.1) (hasc : Ascending ys)
    (hprev : prevLink c p = some none) :
    coalesce mem region p c = .ret (mergedDesc region p n ys, mergedCells c p n ys) := by
  obtain ⟨merged, cur, c1, hmerge, hwrite, hcur, _⟩ :=
    merge_cells mem region h hp hin hle hasc
  have hnull : assertSafe cur.prev = .ret none := by
    rw [hcur]
    exact assertSafe_of_decodes hprev
  unfold coalesce
  rw [readHeader_flat mem c hp.lt, Outcome.ret_bind, hmerge, Outcome.ret_bind]
  dsimp only
  rw [hwrite, Outcome.ret_bind, hnull, Outcome.ret_bind, Outcome.pure_eq]

/-- `coalesce` on a block that leads back to the block `b`. -/
theorem coalesce_cells_behind (mem : FlatMemory) (region : RegionDesc) {b : Extent}
    {ys : List Extent} (h : Seg (linkNode c) (some b.1) (b :: (p, n) :: ys) none)
    (hb : InSpace b) (hp : InSpace (p, n)) (hin : ∀ y ∈ ys, InSpace y) (hbp : b.1 + b.2 ≤ p)
    (hle : ∀ y ∈ ys, p + n ≤ y.1) (hasc : Ascending ys)
    (hprev : prevLink c p = some (some b.1)) :
    coalesce mem region p c =
      .ret (mergedDesc (mergedDesc region p n ys) b.1 b.2 (joinRight (p, n) ys),
        mergedCells (mergedCells c p n ys) b.1 b.2 (joinRight (p, n) ys)) := by
  obtain ⟨_, q, hq, hs⟩ := h
  have hqp : q = some p := hs.head_eq
  subst hqp
  obtain ⟨merged, cur, c1, hmerge, hwrite, hcur, hm⟩ :=
    merge_cells mem region hs hp hin hle hasc
  have hne : b.1 ≠ p := by
    have := hb.size
    omega
  have hblinks : Seg (linkNode (mergedCells c p n ys)) (some b.1)
      ((b.1, b.2) :: joinRight (p, n) ys) none :=
    ⟨rfl, some p, by rw [hm.others _ hne]; exact hq, hm.links⟩
  have hjle : ∀ y ∈ joinRight (p, n) ys, b.1 + b.2 ≤ y.1 := by
    intro y hy
    rcases joinRight_start hy with h1 | ⟨f, hf, h1⟩
    · rw [h1]
      exact hbp
    · have := hle f hf
      omega
  have hjasc : Ascending (joinRight (p, n) ys) :=
    joinRight_ascending hle (fun y hy => (hin y hy).size) hasc
  obtain ⟨merged', cur', c3, hmerge', hwrite', _, _⟩ :=
    merge_cells mem (mergedDesc region p n ys) hblinks hb (joinRight_inSpace hp hin) hjle hjasc
  have hback : assertSafe cur.prev = .ret (some b.1) := by
    rw [hcur]
    exact assertSafe_of_decodes hprev
  unfold coalesce
  rw [readHeader_flat mem c hp.lt, Outcome.ret_bind, hmerge, Outcome.ret_bind]
  dsimp only
  rw [hwrite, Outcome.ret_bind, hback, Outcome.ret_bind]
  dsimp only
  rw [readHeader_flat mem _ hb.lt, Outcome.ret_bind, hmerge', Outcome.ret_bind]
  dsimp only
  rw [hwrite', Outcome.ret_bind, Outcome.pure_eq]

/-- The region after block `(p, n)` was linked in at the front. -/
def frontDesc (region : RegionDesc) (p : Nat) : RegionDesc :=
  { region with first := some p, last := region.last.or (some p) }

/-- The region after block `p` was linked in behind a block and in front of `ys`. -/
def behindDesc (region : RegionDesc) (p : Nat) (ys : List Extent) : RegionDesc :=
  { region with last := if ys = [] then some p else region.last }

/-- `free` in front of the list, with what it leaves. -/
theorem free_front_eq (mem : FlatMemory) {bs : List Extent}
    (h : FreeList c (kmm.region r).first bs) (hp : InSpace (p, n)) (hn : n < u32Size)
    (hap : ∀ b ∈ bs, Extent.Apart (p, n) b) (hy : ∀ b ∈ bs, p < b.1) :
    ∃ c1, c1 = setHeader c p
        { size := n, next := intoUnsafe (kmm.region r).first, prev := intoUnsafe none } ∧
      prevLink c1 p = some none ∧
      free mem (bs.length + 1) kmm r (p <<< 12) n c =
        .ret (kmm.setRegion r (mergedDesc (frontDesc (kmm.region r) p) p n bs),
          mergedCells c1 p n bs) := by
  have hle : ∀ y ∈ bs, p + n ≤ y.1 := fun y hym => (hap y hym).le_of_lt (hy y hym)
  have hne : ∀ b ∈ bs, b.1 ≠ p := fun b hb heq => by
    have := hy b hb
    omega
  obtain ⟨desc1, c1, hlink, hl⟩ := linkBlock_front mem h.links h.inSpace hne hp hn
  have hdesc := linkBlock_first (n := n) mem (kmm.region r) c hp.lt
  rw [hlink] at hdesc
  injection hdesc with hdesc
  obtain ⟨rfl, hc1⟩ := Prod.mk.inj hdesc
  have hlinks := hl.links
  rw [List.nil_append] at hlinks
  have hnone : prevLink c1 p = some none := by
    rw [prevLink, hl.header]
    exact fromUnsafeData_intoUnsafe validPtr_none
  have hco := coalesce_cells_front mem (frontDesc (kmm.region r) p) hlinks hp h.inSpace hle
    h.ascending hnone
  exact ⟨c1, hc1, hnone,
    free_eq_of_steps mem [] bs h hp (by simp) hy (Nat.lt_succ_self bs.length) hlink hco⟩

/-- `free` behind the block `b`, with what it leaves. -/
theorem free_behind_eq (mem : FlatMemory) {xs ys : List Extent} {b : Extent}
    (h : FreeList c (kmm.region r).first (xs ++ b :: ys)) (hp : InSpace (p, n))
    (hn : n < u32Size) (hap : ∀ e ∈ xs ++ b :: ys, Extent.Apart (p, n) e) (hb : b.1 < p)
    (hy : ∀ y ∈ ys, p < y.1) :
    ∃ c1, c1 = setHeader
        (linkedPrev (setHeader c b.1 { headerAt c b.1 with next := intoUnsafe (some p) }) p ys) p
        { size := n, next := intoUnsafe (headPtr ys), prev := intoUnsafe (some b.1) } ∧
      prevLink c1 p = some (some b.1) ∧
      free mem ((xs ++ b :: ys).length + 1) kmm r (p <<< 12) n c =
        .ret (kmm.setRegion r (mergedDesc (mergedDesc (behindDesc (kmm.region r) p ys) p n ys)
            b.1 b.2 (joinRight (p, n) ys)),
          mergedCells (mergedCells c1 p n ys) b.1 b.2 (joinRight (p, n) ys)) := by
  have hbin : InSpace b := h.inSpace b (by simp)
  have hyin : ∀ y ∈ ys, InSpace y := fun y hym => h.inSpace y (by simp [hym])
  have happ := List.pairwise_append.mp h.ascending
  have hbp : b.1 + b.2 ≤ p := (hap b (by simp)).symm.le_of_lt hb
  have hle : ∀ y ∈ ys, p + n ≤ y.1 := fun y hym => (hap y (by simp [hym])).le_of_lt (hy y hym)
  have hne : ∀ e ∈ xs ++ b :: ys, e.1 ≠ p := by
    intro e he heq
    have h1 := (h.inSpace e he).size
    have h2 := hp.size
    rcases hap e he with h3 | h3 <;> dsimp only at h2 h3 <;> omega
  obtain ⟨desc1, c1, hlink, hl⟩ :=
    linkBlock_behind mem h.links h.ascending h.inSpace hne hp hn
  have hdesc := linkBlock_between (n := n) mem (kmm.region r) c hp.lt hbin.lt
    fun y hym => (hyin y hym).lt
  rw [hlink] at hdesc
  injection hdesc with hdesc
  obtain ⟨rfl, hc1⟩ := Prod.mk.inj hdesc
  have hback : prevLink c1 p = some (some b.1) := by
    rw [prevLink, hl.header, lastPtr_append]
    exact fromUnsafeData_intoUnsafe (validPtr_some hbin.page hbin.lt)
  have hlinks := hl.links
  rw [List.append_assoc, List.singleton_append] at hlinks
  obtain ⟨_, _, rfl, hs⟩ := seg_append.mp hlinks
  have hco := coalesce_cells_behind mem (behindDesc (kmm.region r) p ys) ⟨rfl, hs⟩ hbin hp hyin hbp
    hle (ascending_cons.mp happ.2.1).2 hback
  have hx : ∀ x ∈ xs ++ [b], x.1 ≤ p := by
    intro x hx
    rcases List.mem_append.mp hx with hx | hx
    · have := happ.2.2 x hx b (by simp)
      omega
    · rw [List.mem_singleton.mp hx]
      omega
  have happend : xs ++ [b] ++ ys = xs ++ b :: ys := by simp
  refine ⟨c1, hc1, hback, free_eq_of_steps mem (xs ++ [b]) ys ?_ hp hx hy ?_ ?_ hco⟩
  · rw [happend]
    exact h
  · rw [happend]
    exact Nat.lt_succ_self _
  · rw [lastPtr_append]
    exact hlink

/-- `free(p, n)` returns and leaves the list linked both ways. -/
def FreeLinks (mem : FlatMemory) (kmm : KMM) (r : MemoryRegion) (c : Cells) (p n : Nat) : Prop :=
  ∃ kmm' c', Outcome.Settles (fun fuel => free mem fuel kmm r (p <<< 12) n c) (kmm', c') ∧
    LinkedBothWays c' (kmm'.region r)

/-- The calls of `free(p, n)` that keep the list linked both ways. -/
def FreeKeepsLinks (bs : List Extent) (p n : Nat) : Prop :=
  0 < p ∧ ∀ b ys, bs = b :: ys → b.1 < p ∨ p + n = b.1

theorem mergedCells_of_gap (c : Cells) {p n : Nat} {ys : List Extent}
    (h : ∀ y ∈ ys, p + n < y.1) : mergedCells c p n ys = c := by
  cases ys with
  | nil => rfl
  | cons y ys =>
    have := h y (by simp)
    rw [mergedCells, if_neg (by omega)]

/-- With the cells that `free` leaves known, the links are a matter of these cells. -/
theorem freeLinks_iff {bs : List Extent} {kmm' : KMM} {c' : Cells}
    (h : FreeList c (kmm.region r).first bs) (hlast : (kmm.region r).last = lastPtr bs)
    (hp : InSpace (p, n)) (hap : ∀ b ∈ bs, Extent.Apart (p, n) b)
    (hfree : free mem (bs.length + 1) kmm r (p <<< 12) n c = .ret (kmm', c')) :
    FreeLinks mem kmm r c p n ↔ PrevLinks c' none (insertExtent (p, n) bs) := by
  obtain ⟨desc, c2, hspec, hfr⟩ := free_spec mem h hp hap (Nat.lt_succ_self bs.length)
  have heq := hfree.symm.trans hspec
  injection heq with heq
  obtain ⟨rfl, rfl⟩ := Prod.mk.inj heq
  have hset : Outcome.Settles (fun fuel => free mem fuel kmm r (p <<< 12) n c)
      (kmm.setRegion r desc, c') :=
    ⟨bs.length + 1, fun fuel hf => free_mono mem hfree hf⟩
  constructor
  · rintro ⟨kmm1, c1, hset1, bs1, hseg, hprev, _⟩
    obtain ⟨rfl, rfl⟩ := Prod.mk.inj (hset1.unique hset)
    rw [KMM.region_setRegion] at hseg
    rw [hfr.links.unique hseg]
    exact hprev
  · intro hprev
    refine ⟨_, _, hset, insertExtent (p, n) bs, ?_, hprev, ?_⟩
    · rw [KMM.region_setRegion]
      exact hfr.links
    · rw [KMM.region_setRegion]
      exact hfr.last hlast

/-- The links after `free` in front of the list. -/
theorem freeLinks_front_iff {bs : List Extent} (h : FreeList c (kmm.region r).first bs)
    (hprev : PrevLinks c none bs) (hlast : (kmm.region r).last = lastPtr bs)
    (hp : InSpace (p, n)) (hn : n < u32Size) (hap : ∀ b ∈ bs, Extent.Apart (p, n) b)
    (hy : ∀ b ∈ bs, p < b.1) :
    FreeLinks mem kmm r c p n ↔ ∀ b ys, bs = b :: ys → p + n = b.1 := by
  have hle : ∀ y ∈ bs, p + n ≤ y.1 := fun y hym => (hap y hym).le_of_lt (hy y hym)
  have hne : ∀ b ∈ bs, b.1 ≠ p := fun b hb heq => by
    have := hy b hb
    omega
  obtain ⟨c1, hc1, hnone, hfree⟩ := free_front_eq mem h hp hn hap hy
  have hprev1 : PrevLinks c1 none bs := by
    rw [hc1]
    exact hprev.congr fun b hb => prevLink_setHeader_of_ne c (hne b hb) _
  rw [freeLinks_iff h hlast hp hap hfree]
  have hins : insertExtent (p, n) bs = joinRight (p, n) bs := insertExtent_front hy
  rw [hins]
  constructor
  · -- without a join the old first block still leads to nothing
    intro hback b ys hbs
    subst hbs
    by_contra htouch
    have hgap : ∀ y ∈ b :: ys, p + n < y.1 := by
      intro y hym
      rcases List.mem_cons.mp hym with rfl | hym
      · have := hle y (by simp)
        omega
      · have h1 := (ascending_cons.mp h.ascending).1 y hym
        have h2 := hle b (by simp)
        omega
    rw [joinRight_of_lt hgap, mergedCells_of_gap c1 hgap] at hback
    have h1 : prevLink c1 b.1 = some (some p) := hback.2.1
    rw [hprev1.1] at h1
    cases h1
  · intro htouch
    refine PrevLinks.merged hp h.inSpace hle h.ascending hnone hprev1 ?_
    intro hgap hbs
    obtain ⟨b, ys, rfl⟩ := List.exists_cons_of_ne_nil hbs
    have h1 := htouch b ys rfl
    have h2 := hgap b (by simp)
    omega

/-- `free` behind the block `b` keeps the list linked both ways. -/
theorem freeLinks_behind {xs ys : List Extent} {b : Extent}
    (h : FreeList c (kmm.region r).first (xs ++ b :: ys))
    (hprev : PrevLinks c none (xs ++ b :: ys))
    (hlast : (kmm.region r).last = lastPtr (xs ++ b :: ys)) (hp : InSpace (p, n))
    (hn : n < u32Size) (hap : ∀ e ∈ xs ++ b :: ys, Extent.Apart (p, n) e) (hb : b.1 < p)
    (hy : ∀ y ∈ ys, p < y.1) : FreeLinks mem kmm r c p n := by
  have hbin : InSpace b := h.inSpace b (by simp)
  have hyin : ∀ y ∈ ys, InSpace y := fun y hym => h.inSpace y (by simp [hym])
  have happ := List.pairwise_append.mp h.ascending
  have hbys := ascending_cons.mp happ.2.1
  have hbp : b.1 + b.2 ≤ p := (hap b (by simp)).symm.le_of_lt hb
  have hle : ∀ y ∈ ys, p + n ≤ y.1 := fun y hym => (hap y (by simp [hym])).le_of_lt (hy y hym)
  have hxb : ∀ x ∈ xs, x.1 + x.2 < b.1 := fun x hx => happ.2.2 x hx b (by simp)
  have hne : ∀ e ∈ xs ++ b :: ys, e.1 ≠ p := by
    intro e he heq
    have h1 := (h.inSpace e he).size
    have h2 := hp.size
    rcases hap e he with h3 | h3 <;> dsimp only at h2 h3 <;> omega
  have hvp : ValidPtr (some p) := validPtr_some hp.page hp.lt
  have hvb : ValidPtr (some b.1) := validPtr_some hbin.page hbin.lt
  obtain ⟨c1, hc1, hback, hfree⟩ := free_behind_eq mem h hp hn hap hb hy
  have hnext : MemoryBlockHeader.Fits { headerAt c b.1 with next := intoUnsafe (some p) } :=
    ⟨(headerAt_fits c b.1).size, intoUnsafe_lt hvp, (headerAt_fits c b.1).prev⟩
  have hkeep : ∀ x, x ≠ p → (∀ y ∈ ys, x ≠ y.1) → prevLink c1 x = prevLink c x := by
    intro x hxp hxy
    rw [hc1, prevLink_setHeader_of_ne _ hxp, prevLink_linkedPrev_of_ne _ hxy]
    exact prevLink_setHeader_same c hnext rfl x
  have hsplit := prevLinks_append.mp hprev
  have hys1 : PrevLinks c1 (some p) ys := by
    rw [hc1]
    have h1 : PrevLinks (setHeader c b.1 { headerAt c b.1 with next := intoUnsafe (some p) })
        (some b.1) ys :=
      hsplit.2.2.congr fun y _ => prevLink_setHeader_same c hnext rfl y.1
    exact (h1.ledBack hvp hbys.2).congr fun y hym =>
      prevLink_setHeader_of_ne _ (hne y (by simp [hym])) _
  rw [freeLinks_iff h hlast hp hap hfree, insertExtent_between h.ascending hbp hy,
    prevLinks_append]
  have hjin := joinRight_inSpace hp hyin
  have hjle : ∀ y ∈ joinRight (p, n) ys, b.1 + b.2 ≤ y.1 := by
    intro y hym
    rcases joinRight_start hym with h1 | ⟨f, hf, h1⟩
    · rw [h1]
      exact hbp
    · have := hle f hf
      omega
  have hjasc : Ascending (joinRight (p, n) ys) :=
    joinRight_ascending hle (fun y hym => (hyin y hym).size) hbys.2
  have hfits : ∀ y ∈ ys, n + y.2 < u32Size := fun y hym => sum_lt_u32Size (hyin y hym) (hle y hym)
  have hjfits : ∀ y ∈ joinRight (p, n) ys, b.2 + y.2 < u32Size := fun y hym =>
    sum_lt_u32Size (hjin y hym) (hjle y hym)
  -- blocks before the merged ones keep their links
  have hbefore : ∀ x, x < p → (∀ y ∈ ys, x ≠ y.1) →
      (∀ y ∈ joinRight (p, n) ys, x ≠ y.1) →
      prevLink (mergedCells (mergedCells c1 p n ys) b.1 b.2 (joinRight (p, n) ys)) x =
        prevLink c x := by
    intro x hxp hxy hxj
    rw [prevLink_mergedCells _ hjfits hxj, prevLink_mergedCells _ hfits hxy]
    exact hkeep x (by omega) hxy
  have hys2 : PrevLinks (mergedCells c1 p n ys) (some b.1) (joinRight (p, n) ys) :=
    PrevLinks.merged hp hyin hle hbys.2 hback hys1 fun _ _ => rfl
  have hb2 : prevLink (mergedCells c1 p n ys) b.1 = some ((lastPtr xs).or none) := by
    rw [prevLink_mergedCells _ hfits, hkeep b.1 (by omega)]
    · exact hsplit.2.1
    · intro y hym
      have := hbys.1 y hym
      omega
    · intro y hym
      have := hbys.1 y hym
      omega
  constructor
  · refine hsplit.1.congr fun x hx => hbefore x.1 ?_ ?_ ?_
    · have := hxb x hx
      omega
    · intro y hym
      have h1 := hxb x hx
      have h2 := hbys.1 y hym
      omega
    · intro y hym
      have h1 := hxb x hx
      have h2 := hjle y hym
      omega
  · exact PrevLinks.merged hbin hjin hjle hjasc hb2 hys2 fun _ _ => rfl

theorem free_keepsLinks_iff (mem : FlatMemory) {bs : List Extent}
    (h : FreeList c (kmm.region r).first bs) (hprev : PrevLinks c none bs)
    (hlast : (kmm.region r).last = lastPtr bs) (hn : 1 ≤ n) (hfin : p + n ≤ pageCount)
    (hdis : ∀ b ∈ bs, Extent.Disjoint (p, n) b) :
    FreeLinks mem kmm r c p n ↔ FreeKeepsLinks bs p n := by
  by_cases hp0 : 0 < p
  · have hp : InSpace (p, n) := ⟨hp0, hn, hfin⟩
    have hap : ∀ b ∈ bs, Extent.Apart (p, n) b := fun b hb =>
      (hdis b hb).apart hn (h.inSpace b hb).size
    have hn32 : n < u32Size := by
      unfold pageCount at hfin
      unfold u32Size
      omega
    obtain ⟨xs, ys, rfl, hx, hy⟩ := h.ascending.split p
    rcases List.eq_nil_or_concat xs with rfl | ⟨xs', b, rfl⟩
    · rw [freeLinks_front_iff h hprev hlast hp hn32 hap hy]
      unfold FreeKeepsLinks
      constructor
      · intro htouch
        exact ⟨hp0, fun b zs hbs => Or.inr (htouch b zs hbs)⟩
      · intro hkeep b zs hbs
        rcases hkeep.2 b zs hbs with hlt | htouch
        · have := hy b (by rw [List.nil_append] at hbs; rw [hbs]; simp)
          omega
        · exact htouch
    · rw [List.concat_eq_append] at *
      have hlt : ∀ x ∈ xs' ++ [b], x.1 < p := by
        intro x hxm
        have h1 := hx x hxm
        have h2 := (h.inSpace x (by simp at hxm ⊢; tauto)).size
        rcases hap x (by simp at hxm ⊢; tauto) with h3 | h3 <;> dsimp only at h3 <;> omega
      have happend : xs' ++ [b] ++ ys = xs' ++ b :: ys := by simp
      rw [happend] at h hprev hlast hap
      have hlinks : FreeLinks mem kmm r c p n :=
        freeLinks_behind h hprev hlast hp hn32 hap (hlt b (by simp)) hy
      refine ⟨fun _ => ⟨hp0, fun a zs hbs => Or.inl ?_⟩, fun _ => hlinks⟩
      refine hlt a ?_
      cases xs' with
      | nil =>
        injection hbs with h1 _
        rw [← h1]
        simp
      | cons x xs' =>
        injection hbs with h1 _
        rw [← h1]
        simp
  · have hzero : p = 0 := by omega
    subst hzero
    constructor
    · -- page 0 is no block pointer
      rintro ⟨kmm', c', ⟨m, hm⟩, _⟩
      have hret : free mem m kmm r (0 <<< 12) n c = .ret (kmm', c') := hm m (Nat.le_refl m)
      have hpanic : free mem m kmm r (0 <<< 12) n c =
          .panic (.expect "Invalid pointer given to free") := rfl
      cases hpanic.symm.trans hret
    · intro hkeep
      exact absurd hkeep.1 hp0

end Free

/-- **When the list stays doubly linked.** From a list linked both ways, `allocate_linear`
    leaves one exactly when it serves no block, the only block, or one that is neither first
    nor last; `free` does exactly when the pages do not start at page 0 and have a block in
    front, or end where the first block starts, or the list is empty. -/
theorem keepsLinks_iff (mem : FlatMemory) {kmm : KMM} {r : MemoryRegion} {c : Cells}
    {bs : List Extent} (h : FreeList c (kmm.region r).first bs) (hprev : PrevLinks c none bs)
    (hlast : (kmm.region r).last = lastPtr bs) :
    (∀ n, 1 ≤ n → (AllocateLinks mem kmm r c n ↔ AllocateKeepsLinks bs n)) ∧
      ∀ p n, 1 ≤ n → p + n ≤ pageCount → (∀ b ∈ bs, Extent.Disjoint (p, n) b) →
        (FreeLinks mem kmm r c p n ↔ FreeKeepsLinks bs p n) :=
  ⟨fun _ hn => allocate_keepsLinks_iff mem h hprev hlast hn,
    fun _ _ hn hfin hdis => free_keepsLinks_iff mem h hprev hlast hn hfin hdis⟩

theorem pagesOneThree_prevLinks : PrevLinks pagesOneThreeCells none [(1, 1), (3, 1)] :=
  ⟨by decide +kernel, by decide +kernel, trivial⟩

theorem keepsLinks_iff_pagesOneThree :
    (AllocateLinks ⟨16⟩ pagesOneThree .app pagesOneThreeCells 1 ↔
        AllocateKeepsLinks [(1, 1), (3, 1)] 1) ∧
      (FreeLinks ⟨16⟩ pagesOneThree .app pagesOneThreeCells 2 1 ↔
        FreeKeepsLinks [(1, 1), (3, 1)] 2 1) := by
  have h := keepsLinks_iff ⟨16⟩ pagesOneThree_freeList pagesOneThree_prevLinks rfl
  exact ⟨h.1 1 (by decide), h.2 2 1 (by decide) (by decide) pagesOneThree_gap⟩

/-- One free block: page 5. -/
def pageFive : KMM := { regionApp := { first := some 5, last := some 5, start := 4096, size := 8 } }

def pageFiveCells : Cells := setHeader (fun _ => 0) 5 { size := 1, next := 0, prev := 0 }

theorem pageFive_freeList : FreeList pageFiveCells (pageFive.region .app).first [(5, 1)] := by
  refine ⟨⟨rfl, none, linkNode_setHeader_self _ 5 ⟨by decide, by decide, by decide⟩ rfl, rfl⟩,
    by simp [Ascending], fun b hb => ?_⟩
  rw [List.mem_singleton.mp hb]
  exact ⟨by decide, by decide, by decide⟩

theorem pageFive_prevLinks : PrevLinks pageFiveCells none [(5, 1)] :=
  ⟨prevLink_setHeader_self _ 5 ⟨by decide, by decide, by decide⟩ rfl, trivial⟩

/-- Page 1 is given back in front of the free page 5, and page 5 still leads back to nothing. -/
theorem keepsLinks_fails :
    ¬ ∀ (mem : FlatMemory) (kmm : KMM) (r : MemoryRegion) (c : Cells) (bs : List Extent),
      FreeList c (kmm.region r).first bs → PrevLinks c none bs →
      (kmm.region r).last = lastPtr bs →
      (∀ n, 1 ≤ n → AllocateLinks mem kmm r c n) ∧
        ∀ p n, 1 ≤ n → p + n ≤ pageCount → (∀ b ∈ bs, Extent.Disjoint (p, n) b) →
          FreeLinks mem kmm r c p n := by
  intro hall
  have hdis : ∀ b ∈ [((5, 1) : Extent)], Extent.Disjoint (1, 1) b := by
    intro b hb
    rw [List.mem_singleton.mp hb]
    exact Extent.Apart.disjoint (Or.inl (by decide))
  have hlinks := (hall ⟨16⟩ pageFive .app pageFiveCells [(5, 1)] pageFive_freeList
    pageFive_prevLinks rfl).2 1 1 (by decide) (by decide) hdis
  have hkeep := (free_keepsLinks_iff ⟨16⟩ pageFive_freeList pageFive_prevLinks rfl (by decide)
    (by decide) hdis).mp hlinks
  rcases hkeep.2 (5, 1) [] rfl with h | h
  · exact absurd h (by decide)
  · exact absurd h (by decide)

end Pomelo
