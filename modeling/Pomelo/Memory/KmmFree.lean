/-
  KMM over a flat byte store: what `free` does to the free list.

  `free` finds the place by address, links the block in (`linkBlock_front`,
  `linkBlock_behind`) and lets `coalesce` merge it with its right neighbour and then its left
  one (`merge_spec`, `coalesce_front`, `coalesce_behind`). `free_spec`: the list `bs` becomes
  `insertExtent (p, n) bs`, and only the headers of `p` and of the blocks of `bs` are written.
-/
import Pomelo.Memory.KmmList

namespace Pomelo

open Lib MemoryBlockHeaderPtr

/-! ## Linking a block in -/

/-- The cells after the previous link of the first block of `ys` was led to `p`. -/
def linkedPrev (c : Cells) (p : Nat) : List Extent → Cells
  | [] => c
  | y :: _ => setHeader c y.1 { headerAt c y.1 with prev := intoUnsafe (some p) }

theorem linkNode_linkedPrev (c : Cells) {p : Nat} (hp : ValidPtr (some p)) (ys : List Extent)
    (x : Nat) : linkNode (linkedPrev c p ys) x = linkNode c x := by
  cases ys with
  | nil => rfl
  | cons y ys => exact linkNode_setPrev c y.1 x (intoUnsafe_lt hp)

theorem sameOutside_linkedPrev (c : Cells) (p : Nat) (ys : List Extent) :
    SameOutside (ys.map Prod.fst) c (linkedPrev c p ys) := by
  cases ys with
  | nil => exact SameOutside.refl _ _
  | cons y ys => exact sameOutside_setHeader (by simp) c _

theorem linkBlock_first (mem : FlatMemory) (region : RegionDesc) (c : Cells) {p n : Nat}
    (hp : p < pageCount) :
    linkBlock mem region p n .first c =
      .ret ({ region with first := some p, last := region.last.or (some p) },
        setHeader c p { size := n, next := intoUnsafe region.first, prev := intoUnsafe none }) := by
  unfold linkBlock
  simp only [writeHeader_flat mem c hp, Outcome.ret_bind, Outcome.pure_eq]
  cases region.last <;> rfl

theorem linkBlock_between (mem : FlatMemory) (region : RegionDesc) (c : Cells) {p n r : Nat}
    {ys : List Extent} (hp : p < pageCount) (hr : r < pageCount)
    (hy : ∀ y ∈ ys, y.1 < pageCount) :
    linkBlock mem region p n (.between r (headPtr ys)) c =
      .ret ({ region with last := if ys = [] then some p else region.last },
        setHeader
          (linkedPrev (setHeader c r { headerAt c r with next := intoUnsafe (some p) }) p ys) p
          { size := n, next := intoUnsafe (headPtr ys), prev := intoUnsafe (some r) }) := by
  unfold linkBlock
  simp only [readHeader_flat mem c hr, Outcome.ret_bind, writeHeader_flat mem c hr]
  cases ys with
  | nil =>
    simp only [headPtr, List.head?_nil, Option.map_none, Outcome.pure_eq, Outcome.ret_bind,
      writeHeader_flat mem _ hp, linkedPrev, if_true]
  | cons y ys =>
    have hy1 : y.1 < pageCount := hy y (by simp)
    simp only [headPtr, List.head?_cons, Option.map_some, readHeader_flat mem _ hy1,
      writeHeader_flat mem _ hy1, Outcome.pure_eq, Outcome.ret_bind, writeHeader_flat mem _ hp,
      linkedPrev, reduceCtorEq, if_false]

/-- What linking block `(p, n)` in between `xs` and `ys` leaves. -/
structure Linked (region region' : RegionDesc) (c c' : Cells) (p n : Nat)
    (xs ys : List Extent) : Prop where
  links : Seg (linkNode c') region'.first (xs ++ (p, n) :: ys) none
  header : headerAt c' p =
    { size := n, next := intoUnsafe (headPtr ys), prev := intoUnsafe (lastPtr xs) }
  last : region.last = lastPtr (xs ++ ys) → region'.last = lastPtr (xs ++ (p, n) :: ys)
  start : region'.start = region.start
  size : region'.size = region.size
  frame : SameOutside (p :: (xs ++ ys).map Prod.fst) c c'

/-- `linkBlock` in front of the list. -/
theorem linkBlock_front (mem : FlatMemory) {region : RegionDesc} {c : Cells} {p n : Nat}
    {ys : List Extent} (h : Seg (linkNode c) region.first ys none)
    (hin : ∀ b ∈ ys, InSpace b) (hne : ∀ b ∈ ys, b.1 ≠ p) (hp : InSpace (p, n))
    (hn : n < u32Size) :
    ∃ region' c', linkBlock mem region p n .first c = .ret (region', c') ∧
      Linked region region' c c' p n [] ys := by
  have hvy : ValidPtr (headPtr ys) := headPtr_valid hin
  have hfirst : region.first = headPtr ys := h.head_eq
  have hfits : MemoryBlockHeader.Fits
      { size := n, next := intoUnsafe (headPtr ys), prev := intoUnsafe none } :=
    ⟨hn, intoUnsafe_lt hvy, intoUnsafe_lt validPtr_none⟩
  refine ⟨_, _, linkBlock_first mem region c hp.lt, ?_, ?_, ?_, rfl, rfl,
    sameOutside_setHeader (by simp) c _⟩
  · rw [hfirst, List.nil_append, seg_cons]
    refine ⟨rfl, headPtr ys,
      linkNode_setHeader_self c p hfits (fromUnsafeData_intoUnsafe hvy), ?_⟩
    rw [hfirst] at h
    exact h.congr fun y hy => linkNode_setHeader_of_ne c (hne y hy) _
  · rw [hfirst]
    exact headerAt_setHeader_self c p hfits
  · intro hlast
    rw [List.nil_append] at hlast
    rw [hlast]
    cases ys with
    | nil => rfl
    | cons y ys => simp [lastPtr, List.getLast?_cons]

/-- `linkBlock` behind block `r`. -/
theorem linkBlock_behind (mem : FlatMemory) {region : RegionDesc} {c : Cells} {p n : Nat}
    {xs ys : List Extent} {r : Extent}
    (h : Seg (linkNode c) region.first (xs ++ r :: ys) none)
    (hasc : Ascending (xs ++ r :: ys))
    (hin : ∀ b ∈ xs ++ r :: ys, InSpace b) (hne : ∀ b ∈ xs ++ r :: ys, b.1 ≠ p)
    (hp : InSpace (p, n)) (hn : n < u32Size) :
    ∃ region' c', linkBlock mem region p n (.between r.1 (headPtr ys)) c = .ret (region', c') ∧
      Linked region region' c c' p n (xs ++ [r]) ys := by
  have hvp : ValidPtr (some p) := validPtr_some hp.page hp.lt
  have hvy : ValidPtr (headPtr ys) := headPtr_valid fun b hb => hin b (by simp [hb])
  have hr : InSpace r := hin r (by simp)
  have hrp : r.1 ≠ p := hne r (by simp)
  obtain ⟨b, hs1, rfl, q, hq, hs2⟩ := seg_append.mp h
  obtain ⟨hsize, hnext⟩ := linkNode_eq_some.mp hq
  -- the other blocks are not `r`: the list is ascending
  have hxr : ∀ x ∈ xs, x.1 ≠ r.1 := by
    intro x hx
    have h1 := (List.pairwise_append.mp hasc).2.2 x hx r (by simp)
    omega
  have hyr : ∀ y ∈ ys, y.1 ≠ r.1 := by
    intro y hy
    have h1 := (List.pairwise_cons.mp (List.pairwise_append.mp hasc).2.1).1 y hy
    omega
  have hfits : MemoryBlockHeader.Fits
      { size := n, next := intoUnsafe (headPtr ys), prev := intoUnsafe (some r.1) } :=
    ⟨hn, intoUnsafe_lt hvy, intoUnsafe_lt (validPtr_some hr.page hr.lt)⟩
  have hqy : q = headPtr ys := hs2.head_eq
  refine ⟨_, _, linkBlock_between mem region c hp.lt hr.lt
    (fun y hy => (hin y (by simp [hy])).lt), ?_, ?_, ?_, rfl, rfl, ?_⟩
  · -- every block but `r` and `p` keeps its node
    have hkeep : ∀ x, x ≠ p → x ≠ r.1 → linkNode (setHeader (linkedPrev (setHeader c r.1
        { headerAt c r.1 with next := intoUnsafe (some p) }) p ys) p
        { size := n, next := intoUnsafe (headPtr ys), prev := intoUnsafe (some r.1) }) x =
        linkNode c x := by
      intro x hx hxr
      rw [linkNode_setHeader_of_ne _ hx, linkNode_linkedPrev _ hvp,
        linkNode_setHeader_of_ne _ hxr]
    rw [List.append_assoc, List.singleton_append, seg_append]
    refine ⟨some r.1, hs1.congr fun x hx => hkeep _ (hne x (by simp [hx])) (hxr x hx), ?_⟩
    rw [seg_cons]
    refine ⟨rfl, some p, ?_, ?_⟩
    · rw [linkNode_setHeader_of_ne _ hrp, linkNode_linkedPrev _ hvp,
        linkNode_setNext c r.1 hvp, hsize]
    · rw [seg_cons]
      refine ⟨rfl, headPtr ys,
        linkNode_setHeader_self _ p hfits (fromUnsafeData_intoUnsafe hvy), ?_⟩
      rw [hqy] at hs2
      exact hs2.congr fun y hy => hkeep _ (hne y (by simp [hy])) (hyr y hy)
  · rw [lastPtr_append]
    exact headerAt_setHeader_self _ p hfits
  · intro hlast
    rw [List.append_assoc, List.singleton_append] at hlast
    cases ys with
    | nil => rw [if_pos rfl, lastPtr_append]
    | cons y ys =>
      rw [if_neg (by simp), hlast, lastPtr_append_cons]
      simp [lastPtr, List.getLast?_append, List.getLast?_cons]
  · have h1 : SameOutside (p :: (xs ++ [r] ++ ys).map Prod.fst) c
        (setHeader c r.1 { headerAt c r.1 with next := intoUnsafe (some p) }) :=
      sameOutside_setHeader (by simp) c _
    have h2 : SameOutside (p :: (xs ++ [r] ++ ys).map Prod.fst) _ _ :=
      (sameOutside_linkedPrev (setHeader c r.1
        { headerAt c r.1 with next := intoUnsafe (some p) }) p ys).mono fun k hk => by simp_all
    exact (h1.trans h2).trans (sameOutside_setHeader (by simp) _ _)

/-! ## Merging -/

/-- Without a block right behind it, a block stays as it is. -/
theorem mergeRight_of_gap (mem : FlatMemory) (region : RegionDesc) (c : Cells) {p n : Nat}
    {cur : MemoryBlockHeader} {ys : List Extent} (hsize : cur.size = n)
    (hnext : fromUnsafeData cur.next = some (headPtr ys)) (hin : ∀ y ∈ ys, InSpace y)
    (hgap : ∀ y ∈ ys, p + n < y.1) :
    mergeRight mem region p cur c = .ret (false, cur, region, c) := by
  unfold mergeRight
  rw [assertSafe_of_decodes hnext, Outcome.ret_bind, hsize]
  cases ys with
  | nil =>
    simp only [headPtr, List.head?_nil, Option.map_none]
    cases offset p n <;> rfl
  | cons y ys =>
    have hlt : p + n < y.1 := hgap y (by simp)
    have hy : y.1 < pageCount := (hin y (by simp)).lt
    rw [offset_of_lt (by omega)]
    simp only [headPtr, List.head?_cons, Option.map_some]
    rw [if_neg (by omega), Outcome.pure_eq]

/-- A block right behind is joined, and the block after it led back to the joined one. -/
theorem mergeRight_of_touch (mem : FlatMemory) (region : RegionDesc) (c : Cells) {p n m : Nat}
    {cur : MemoryBlockHeader} {zs : List Extent} (hsize : cur.size = n)
    (hnext : fromUnsafeData cur.next = some (some (p + n))) (hm : InSpace (p + n, m))
    (hnode : linkNode c (p + n) = some (m, headPtr zs)) (hin : ∀ z ∈ zs, InSpace z) :
    mergeRight mem region p cur c =
      .ret (true, { cur with size := n + m, next := (headerAt c (p + n)).next },
        { region with last := if zs = [] then some p else region.last },
        linkedPrev c p zs) := by
  obtain ⟨hmsize, hmnext⟩ := linkNode_eq_some.mp hnode
  have hadd : addU32 n m = .ret (n + m) := by
    have hfin := hm.fin
    unfold pageCount at hfin
    exact addU32_of_lt (by unfold u32Size; dsimp only at hfin; omega)
  unfold mergeRight
  rw [assertSafe_of_decodes hnext, Outcome.ret_bind, hsize, offset_of_lt hm.lt]
  dsimp only
  rw [if_pos rfl, readHeader_flat mem c hm.lt, Outcome.ret_bind, hmsize, hadd, Outcome.ret_bind]
  dsimp only
  rw [assertSafe_of_decodes hmnext, Outcome.ret_bind]
  cases zs with
  | nil =>
    simp only [headPtr, List.head?_nil, Option.map_none, Outcome.pure_eq, linkedPrev, if_true]
  | cons z zs =>
    have hz : z.1 < pageCount := (hin z (by simp)).lt
    simp only [headPtr, List.head?_cons, Option.map_some, readHeader_flat mem _ hz,
      writeHeader_flat mem _ hz, Outcome.pure_eq, Outcome.ret_bind, linkedPrev, reduceCtorEq,
      if_false]

/-- What merging block `(p, n)` with what follows in front of `ys` leaves. -/
structure Merged (region region' : RegionDesc) (c c' : Cells) (p n : Nat)
    (ys : List Extent) : Prop where
  links : Seg (linkNode c') (some p) (joinRight (p, n) ys) none
  prev : (headerAt c' p).prev = (headerAt c p).prev
  others : ∀ x, x ≠ p → linkNode c' x = linkNode c x
  first : region'.first = region.first
  last : region.last = lastPtr ((p, n) :: ys) → region'.last = lastPtr (joinRight (p, n) ys)
  start : region'.start = region.start
  size : region'.size = region.size
  frame : SameOutside (p :: ys.map Prod.fst) c c'

/-- When no block starts where `(p, n)` ends, the gap behind it is strict. -/
theorem gap_of_not_touch {p n : Nat} {ys : List Extent} (hin : ∀ y ∈ ys, InSpace y)
    (hle : ∀ y ∈ ys, p + n ≤ y.1) (hasc : Ascending ys)
    (htouch : ¬ ∃ m zs, ys = (p + n, m) :: zs) : ∀ y ∈ ys, p + n < y.1 := by
  intro y hy
  cases ys with
  | nil => simp at hy
  | cons z zs =>
    have hz : p + n ≠ z.1 := by
      intro hz
      exact htouch ⟨z.2, zs, by rw [hz]⟩
    have hzle := hle z (by simp)
    have hzsize := (hin z (by simp)).size
    rcases List.mem_cons.mp hy with rfl | hy
    · omega
    · have := (ascending_cons.mp hasc).1 y hy
      omega

/-- One merge of `coalesce`: `merge_right` on the header of `p`, then the write of it when it
    changed. -/
theorem merge_spec (mem : FlatMemory) (region : RegionDesc) {c : Cells} {p n : Nat}
    {ys : List Extent} (h : Seg (linkNode c) (some p) ((p, n) :: ys) none)
    (hp : InSpace (p, n)) (hin : ∀ y ∈ ys, InSpace y) (hle : ∀ y ∈ ys, p + n ≤ y.1)
    (hasc : Ascending ys) :
    ∃ merged cur region' c1 c2,
      mergeRight mem region p (headerAt c p) c = .ret (merged, cur, region', c1) ∧
      writeMerged mem merged p cur c1 = .ret c2 ∧
      cur.prev = (headerAt c p).prev ∧ Merged region region' c c2 p n ys := by
  obtain ⟨_, q, hq, hs⟩ := h
  obtain ⟨hsize, hnext⟩ := linkNode_eq_some.mp hq
  have hhead : q = headPtr ys := hs.head_eq
  subst hhead
  by_cases htouch : ∃ m zs, ys = (p + n, m) :: zs
  · obtain ⟨m, zs, rfl⟩ := htouch
    obtain ⟨_, q, hqm, hs⟩ := hs
    have hhead : q = headPtr zs := hs.head_eq
    subst hhead
    have hm : InSpace (p + n, m) := hin _ (by simp)
    have hzin : ∀ z ∈ zs, InSpace z := fun z hz => hin z (by simp [hz])
    have hvp : ValidPtr (some p) := validPtr_some hp.page hp.lt
    have hjoin : joinRight (p, n) ((p + n, m) :: zs) = (p, n + m) :: zs := by
      rw [joinRight, if_pos rfl]
    obtain ⟨_, hmnext⟩ := linkNode_eq_some.mp hqm
    have hnm : n + m < u32Size := by
      have hfin := hm.fin
      unfold pageCount at hfin
      unfold u32Size
      dsimp only at hfin
      omega
    have hfits : MemoryBlockHeader.Fits
        { headerAt c p with size := n + m, next := (headerAt c (p + n)).next } :=
      ⟨hnm, (headerAt_fits c (p + n)).next, (headerAt_fits c p).prev⟩
    have hzp : ∀ z ∈ zs, z.1 ≠ p := by
      intro z hz
      have h1 := hle z (by simp [hz])
      have h2 := hp.size
      dsimp only at h2
      omega
    refine ⟨_, _, _, _, _, mergeRight_of_touch mem region c hsize hnext hm hqm hzin,
      (if_pos rfl).trans (writeHeader_flat mem _ hp.lt _), rfl, ?_⟩
    refine ⟨?_, ?_, ?_, rfl, ?_, rfl, rfl, ?_⟩
    · rw [hjoin, seg_cons]
      refine ⟨rfl, headPtr zs, linkNode_setHeader_self _ p hfits hmnext, ?_⟩
      refine hs.congr fun z hz => ?_
      rw [linkNode_setHeader_of_ne _ (hzp z hz), linkNode_linkedPrev c hvp]
    · rw [headerAt_setHeader_self _ p hfits]
    · intro x hx
      rw [linkNode_setHeader_of_ne _ hx, linkNode_linkedPrev c hvp]
    · intro hlast
      rw [hjoin]
      cases zs with
      | nil => rfl
      | cons z zs =>
        rw [if_neg (by simp), hlast]
        simp [lastPtr, List.getLast?_cons]
    · have h1 : SameOutside (p :: ((p + n, m) :: zs).map Prod.fst) c (linkedPrev c p zs) :=
        (sameOutside_linkedPrev c p zs).mono fun k hk => by simp_all
      exact h1.trans (sameOutside_setHeader (by simp) _ _)
  · -- nothing right behind
    have hgap : ∀ y ∈ ys, p + n < y.1 := gap_of_not_touch hin hle hasc htouch
    have hjoin : joinRight (p, n) ys = (p, n) :: ys := joinRight_of_lt hgap
    refine ⟨_, _, _, _, c, mergeRight_of_gap mem region c hsize hnext hin hgap,
      if_neg (by simp), rfl, ?_⟩
    refine ⟨?_, rfl, fun _ _ => rfl, rfl, ?_, rfl, rfl, SameOutside.refl _ _⟩
    · rw [hjoin]
      exact ⟨rfl, headPtr ys, hq, hs⟩
    · rw [hjoin]
      exact id

theorem joinRight_inSpace {e : Extent} {es : List Extent} (he : InSpace e)
    (hin : ∀ f ∈ es, InSpace f) : ∀ g ∈ joinRight e es, InSpace g := by
  cases es with
  | nil => simpa [joinRight] using he
  | cons f fs =>
    have hf : InSpace f := hin f (by simp)
    have h1 := he.size
    have h2 := hf.fin
    rw [joinRight]
    split
    · intro g hg
      rcases List.mem_cons.mp hg with rfl | hg
      · exact ⟨he.page, by dsimp only; omega, by dsimp only; omega⟩
      · exact hin g (by simp [hg])
    · intro g hg
      rcases List.mem_cons.mp hg with rfl | hg
      · exact he
      · exact hin g hg

theorem insertExtent_inSpace {e : Extent} {es : List Extent} (he : InSpace e)
    (hin : ∀ f ∈ es, InSpace f) : ∀ g ∈ insertExtent e es, InSpace g := by
  induction es with
  | nil => simpa [insertExtent] using he
  | cons f fs ih =>
    rw [insertExtent]
    split
    · exact joinRight_inSpace he hin
    · exact joinRight_inSpace (hin f (by simp)) (ih fun g hg => hin g (by simp [hg]))

theorem lastPtr_append_joinRight (as : List Extent) (e : Extent) (es : List Extent) :
    lastPtr (as ++ joinRight e es) = lastPtr (joinRight e es) := by
  obtain ⟨n, fs, h⟩ := joinRight_cons_start e es
  rw [h, lastPtr_append_cons]

/-! ## `coalesce` -/

/-- What the call `free` of block `(p, n)` leaves of a region whose free list is `bs`. -/
structure Freed (region region' : RegionDesc) (c c' : Cells) (p n : Nat)
    (bs : List Extent) : Prop where
  links : Seg (linkNode c') region'.first (insertExtent (p, n) bs) none
  last : region.last = lastPtr bs → region'.last = lastPtr (insertExtent (p, n) bs)
  start : region'.start = region.start
  size : region'.size = region.size
  frame : SameOutside (p :: bs.map Prod.fst) c c'

/-- `coalesce` on a block at the front of the list. -/
theorem coalesce_front (mem : FlatMemory) {region desc : RegionDesc} {c c0 : Cells} {p n : Nat}
    {ys : List Extent} (h : Linked desc region c0 c p n [] ys) (hp : InSpace (p, n))
    (hin : ∀ y ∈ ys, InSpace y) (hle : ∀ y ∈ ys, p + n ≤ y.1) (hasc : Ascending ys) :
    ∃ region' c', coalesce mem region p c = .ret (region', c') ∧
      Freed desc region' c0 c' p n ys := by
  have hfirst : region.first = some p := h.links.head_eq
  have hlinks := h.links
  rw [List.nil_append, hfirst] at hlinks
  obtain ⟨merged, cur, region1, c1, c2, hmerge, hwrite, hprev, hm⟩ :=
    merge_spec mem region hlinks hp hin hle hasc
  have hins : insertExtent (p, n) ys = joinRight (p, n) ys := by
    refine insertExtent_front fun y hy => ?_
    have h1 := hle y hy
    have h2 := hp.size
    dsimp only at h2 ⊢
    omega
  have hnull : assertSafe cur.prev = .ret none := by
    rw [hprev, h.header]
    exact assertSafe_intoUnsafe validPtr_none
  refine ⟨region1, c2, ?_, ?_, ?_, hm.start.trans h.start, hm.size.trans h.size,
    h.frame.trans hm.frame⟩
  · unfold coalesce
    rw [readHeader_flat mem c hp.lt, Outcome.ret_bind, hmerge, Outcome.ret_bind]
    dsimp only
    rw [hwrite, Outcome.ret_bind, hnull, Outcome.ret_bind, Outcome.pure_eq]
  · rw [hm.first, hfirst, hins]
    exact hm.links
  · intro hlast
    rw [hins]
    exact hm.last (h.last hlast)

/-- `coalesce` on a block behind block `r`. -/
theorem coalesce_behind (mem : FlatMemory) {region desc : RegionDesc} {c c0 : Cells}
    {p n : Nat} {xs ys : List Extent} {r : Extent}
    (h : Linked desc region c0 c p n (xs ++ [r]) ys) (hasc : Ascending (xs ++ r :: ys))
    (hp : InSpace (p, n)) (hin : ∀ b ∈ xs ++ r :: ys, InSpace b) (hrp : r.1 + r.2 ≤ p)
    (hle : ∀ y ∈ ys, p + n ≤ y.1) :
    ∃ region' c', coalesce mem region p c = .ret (region', c') ∧
      Freed desc region' c0 c' p n (xs ++ r :: ys) := by
  have hr : InSpace r := hin r (by simp)
  have hyin : ∀ y ∈ ys, InSpace y := fun y hy => hin y (by simp [hy])
  have hyasc : Ascending ys :=
    (ascending_cons.mp (List.pairwise_append.mp hasc).2.1).2
  have hxs := (List.pairwise_append.mp hasc).2.2
  have hlinks := h.links
  rw [List.append_assoc, List.singleton_append] at hlinks
  obtain ⟨_, hs1, rfl, q, hq, hs2⟩ := seg_append.mp hlinks
  have hqp : q = some p := hs2.head_eq
  subst hqp
  -- the merge with the right neighbour
  obtain ⟨merged, cur, region1, c1, c2, hmerge, hwrite, hprev, hm⟩ :=
    merge_spec mem region hs2 hp hyin hle hyasc
  obtain ⟨k, zs, hzs⟩ := joinRight_cons_start (p, n) ys
  have hpr : r.1 ≠ p := by
    have := hr.size
    omega
  have hrlinks : Seg (linkNode c2) (some r.1) ((r.1, r.2) :: joinRight (p, n) ys) none :=
    ⟨rfl, some p, by rw [hm.others _ hpr]; exact hq, hm.links⟩
  have hjle : ∀ y ∈ joinRight (p, n) ys, r.1 + r.2 ≤ y.1 := by
    intro y hy
    rcases joinRight_start hy with h1 | ⟨f, hf, h1⟩
    · rw [h1]
      exact hrp
    · have := hle f hf
      omega
  have hjasc : Ascending (joinRight (p, n) ys) :=
    joinRight_ascending hle (fun y hy => (hyin y hy).size) hyasc
  -- the merge of the left neighbour
  obtain ⟨merged', cur', region2, c3, c4, hmerge', hwrite', _, hm'⟩ :=
    merge_spec mem region1 (p := r.1) (n := r.2) hrlinks hr (joinRight_inSpace hp hyin) hjle hjasc
  have hlt : ∀ y ∈ ys, p < y.1 := by
    intro y hy
    have h1 := hle y hy
    have h2 := hp.size
    dsimp only at h2
    omega
  have hins : insertExtent (p, n) (xs ++ r :: ys) =
      xs ++ joinRight r (joinRight (p, n) ys) := insertExtent_between hasc hrp hlt
  have hsafe := assertSafe_intoUnsafe (validPtr_some hr.page hr.lt)
  have hprevr : assertSafe cur.prev = .ret (some r.1) := by
    rw [hprev, h.header, lastPtr_append]
    exact hsafe
  refine ⟨region2, c4, ?_, ?_, ?_, (hm'.start.trans hm.start).trans h.start,
    (hm'.size.trans hm.size).trans h.size, ?_⟩
  · unfold coalesce
    rw [readHeader_flat mem c hp.lt, Outcome.ret_bind, hmerge, Outcome.ret_bind]
    dsimp only
    rw [hwrite, Outcome.ret_bind, hprevr, Outcome.ret_bind]
    dsimp only
    rw [readHeader_flat mem c2 hr.lt, Outcome.ret_bind, hmerge', Outcome.ret_bind]
    dsimp only
    rw [hwrite', Outcome.ret_bind, Outcome.pure_eq]
  · rw [hins, hm'.first, hm.first, seg_append]
    refine ⟨some r.1, hs1.congr fun x hx => ?_, hm'.links⟩
    have hxr := hxs x hx r (by simp)
    rw [hm'.others _ (by omega), hm.others _ (by omega)]
  · intro hlast
    rw [hins, lastPtr_append_joinRight]
    refine hm'.last ?_
    have h1 := h.last (by simpa using hlast)
    rw [lastPtr_append_cons] at h1
    rw [hm.last h1, hzs]
    simp [lastPtr, List.getLast?_cons]
  · have hsub : ∀ k ∈ r.1 :: (joinRight (p, n) ys).map Prod.fst,
        k ∈ p :: (xs ++ r :: ys).map Prod.fst := by
      intro k hk
      rcases List.mem_cons.mp hk with rfl | hk
      · simp
      · obtain ⟨g, hg, rfl⟩ := List.mem_map.mp hk
        rcases joinRight_start hg with h1 | ⟨f, hf, h1⟩
        · rw [h1]
          simp
        · rw [h1]
          simp only [List.mem_cons, List.mem_map, List.mem_append]
          exact Or.inr ⟨f, Or.inr (Or.inr hf), rfl⟩
    have h1 : SameOutside (p :: (xs ++ r :: ys).map Prod.fst) c0 c :=
      h.frame.mono fun k hk => by simpa using hk
    have h2 : SameOutside (p :: (xs ++ r :: ys).map Prod.fst) c c2 :=
      hm.frame.mono fun k hk => by
        simp only [List.mem_cons, List.map_append, List.map_cons, List.mem_append] at hk ⊢
        tauto
    exact (h1.trans h2).trans (hm'.frame.mono hsub)

/-! ## `free` -/

/-- A call that found its place: what is left is linking and merging. -/
theorem free_eq_of_steps (mem : FlatMemory) {kmm : KMM} {r : MemoryRegion} {c : Cells} {p n : Nat}
    (xs ys : List Extent) (h : FreeList c (kmm.region r).first (xs ++ ys)) (hp : InSpace (p, n))
    (hx : ∀ x ∈ xs, x.1 ≤ p) (hy : ∀ y ∈ ys, p < y.1) {fuel : Nat}
    (hf : (xs ++ ys).length < fuel) {desc1 desc2 : RegionDesc} {c1 c2 : Cells}
    (hlink : linkBlock mem (kmm.region r) p n (pointAt (lastPtr xs) (headPtr ys)) c =
      .ret (desc1, c1))
    (hco : coalesce mem desc1 p c1 = .ret (desc2, c2)) :
    free mem fuel kmm r (p <<< 12) n c = .ret (kmm.setRegion r desc2, c2) := by
  have hfind : findInsertionPoint mem fuel (kmm.region r) c p =
      .ret (pointAt (lastPtr xs) (headPtr ys)) := by
    rw [findInsertionPoint, findInsertionLoop_eq mem h.links
      (fun x hxm => (h.inSpace x (by simp [hxm])).lt) hx hy (by simp at hf; omega), Option.or_none]
  unfold free
  rw [fromPtr_page hp.page hp.lt, Outcome.expect_some, Outcome.ret_bind]
  dsimp only
  rw [hfind, Outcome.ret_bind, hlink, Outcome.ret_bind]
  dsimp only
  rw [hco, Outcome.ret_bind, Outcome.pure_eq]

/-- `free` of a block apart from the list puts the block into the list, joined with its
    neighbours, and writes block headers only. -/
theorem free_spec (mem : FlatMemory) {kmm : KMM} {r : MemoryRegion} {c : Cells} {p n : Nat}
    {bs : List Extent} (h : FreeList c (kmm.region r).first bs) (hp : InSpace (p, n))
    (hap : ∀ b ∈ bs, Extent.Apart (p, n) b) {fuel : Nat} (hf : bs.length < fuel) :
    ∃ desc c', free mem fuel kmm r (p <<< 12) n c = .ret (kmm.setRegion r desc, c') ∧
      Freed (kmm.region r) desc c c' p n bs := by
  obtain ⟨xs, ys, rfl, hx, hy⟩ := h.ascending.split p
  have hpos : 0 < n := hp.size
  have hn : n < u32Size := by
    have hfin := hp.fin
    unfold pageCount at hfin
    unfold u32Size
    dsimp only at hfin
    omega
  have hne : ∀ b ∈ xs ++ ys, b.1 ≠ p := by
    intro b hb
    have h1 := (h.inSpace b hb).size
    rcases hap b hb with h2 | h2 <;> dsimp only at h2 <;> omega
  have hle : ∀ y ∈ ys, p + n ≤ y.1 := by
    intro y hym
    have h1 := hy y hym
    rcases hap y (by simp [hym]) with h2 | h2
    · exact h2
    · dsimp only at h2
      omega
  -- link the block in, then merge
  have hlc : ∃ region1 c1 region2 c2,
      linkBlock mem (kmm.region r) p n (pointAt (lastPtr xs) (headPtr ys)) c =
        .ret (region1, c1) ∧
      coalesce mem region1 p c1 = .ret (region2, c2) ∧
      Freed (kmm.region r) region2 c c2 p n (xs ++ ys) := by
    rcases List.eq_nil_or_concat xs with rfl | ⟨xs', b, rfl⟩
    · obtain ⟨region1, c1, hlink, hl⟩ :=
        linkBlock_front mem h.links h.inSpace hne hp hn
      obtain ⟨region2, c2, hco, hfr⟩ := coalesce_front mem hl hp h.inSpace hle h.ascending
      exact ⟨region1, c1, region2, c2, hlink, hco, hfr⟩
    · rw [List.concat_eq_append] at *
      have hsplit : xs' ++ [b] ++ ys = xs' ++ b :: ys := by simp
      rw [hsplit] at h hne hap
      have hb : b.1 + b.2 ≤ p := by
        have h1 := hx b (by simp)
        rcases hap b (by simp) with h2 | h2
        · dsimp only at h2
          omega
        · exact h2
      obtain ⟨region1, c1, hlink, hl⟩ :=
        linkBlock_behind mem h.links h.ascending h.inSpace hne hp hn
      obtain ⟨region2, c2, hco, hfr⟩ :=
        coalesce_behind mem hl h.ascending hp h.inSpace hb hle
      rw [lastPtr_append, hsplit]
      exact ⟨region1, c1, region2, c2, hlink, hco, hfr⟩
  obtain ⟨region1, c1, region2, c2, hlink, hco, hfr⟩ := hlc
  exact ⟨region2, c2, free_eq_of_steps mem xs ys h hp hx hy hf hlink hco, hfr⟩

theorem Freed.freeList {region region' : RegionDesc} {c c' : Cells} {p n : Nat}
    {bs : List Extent} (h : Freed region region' c c' p n bs) (hl : FreeList c region.first bs)
    (hp : InSpace (p, n)) (hap : ∀ b ∈ bs, Extent.Apart (p, n) b) :
    FreeList c' region'.first (insertExtent (p, n) bs) where
  links := h.links
  ascending := insertExtent_ascending hp.size hap hl.nonEmpty hl.ascending
  inSpace := insertExtent_inSpace hp hl.inSpace

/-- A `free` that returned returns the same on any larger fuel. -/
theorem free_mono {M : Type} [Memory M] (mem : M) {kmm : KMM} {r : MemoryRegion}
    {addr pages : Nat} {c : Cells} {x : KMM × Cells} {fuel fuel' : Nat}
    (h : free mem fuel kmm r addr pages c = .ret x) (hle : fuel ≤ fuel') :
    free mem fuel' kmm r addr pages c = .ret x := by
  unfold free at h ⊢
  obtain ⟨ptr, hptr, h⟩ := Outcome.bind_eq_ret.mp h
  obtain ⟨point, hpoint, h⟩ := Outcome.bind_eq_ret.mp h
  rw [hptr, Outcome.ret_bind]
  dsimp only
  have hmono : findInsertionPoint mem fuel' (kmm.region r) c ptr = .ret point :=
    findInsertionLoop_mono mem hpoint hle
  rw [hmono, Outcome.ret_bind]
  exact h

/-! ## `free` as insertion into a set of pages -/

/-- What `free` of the pages `(p, n)` is for on a region whose free list is `bs`: it returns,
    the list has these pages more, and nothing but headers of blocks was written. -/
def FreeInserts (mem : FlatMemory) (kmm : KMM) (r : MemoryRegion) (c : Cells)
    (bs : List Extent) (p n : Nat) : Prop :=
  ∃ desc c' bs',
    Outcome.Settles (fun fuel => free mem fuel kmm r (p <<< 12) n c) (kmm.setRegion r desc, c') ∧
      FreeList c' desc.first bs' ∧ desc.last = lastPtr bs' ∧
      desc.start = (kmm.region r).start ∧ desc.size = (kmm.region r).size ∧
      (∀ x, Covered bs' x ↔ Covered bs x ∨ Extent.Mem (p, n) x) ∧
      SameOutside (p :: bs.map Prod.fst) c c'

/-- **`free` inserts and joins.** The previous links may be anything. -/
theorem freeInserts (mem : FlatMemory) {kmm : KMM} {r : MemoryRegion} {c : Cells}
    {bs : List Extent} {p n : Nat} (h : FreeList c (kmm.region r).first bs)
    (hlast : (kmm.region r).last = lastPtr bs) (hp : 0 < p) (hn : 1 ≤ n)
    (hfin : p + n ≤ pageCount) (hap : ∀ b ∈ bs, Extent.Disjoint (p, n) b) :
    FreeInserts mem kmm r c bs p n := by
  have hin : InSpace (p, n) := ⟨hp, hn, hfin⟩
  have hapart : ∀ b ∈ bs, Extent.Apart (p, n) b := fun b hb =>
    (hap b hb).apart hn (h.inSpace b hb).size
  obtain ⟨desc, c', hfree, hfr⟩ := free_spec mem h hin hapart (Nat.lt_succ_self bs.length)
  refine ⟨desc, c', insertExtent (p, n) bs, ⟨bs.length + 1, fun fuel hle => ?_⟩,
    hfr.freeList h hin hapart, hfr.last hlast, hfr.start, hfr.size, fun x => ?_, hfr.frame⟩
  · exact free_mono mem hfree hle
  · rw [covered_insertExtent]
    exact Or.comm

/-- Two free blocks with a gap of one page: pages 1 and 3. -/
def pagesOneThree : KMM :=
  { regionApp := { first := some 1, last := some 3, start := 4096, size := 8 } }

def pagesOneThreeCells : Cells :=
  setHeader (setHeader (fun _ => 0) 3
      { size := 1, next := intoUnsafe none, prev := intoUnsafe (some 1) })
    1 { size := 1, next := intoUnsafe (some 3), prev := intoUnsafe none }

theorem pagesOneThree_freeList :
    FreeList pagesOneThreeCells (pagesOneThree.region .app).first [(1, 1), (3, 1)] := by
  have hone : linkNode pagesOneThreeCells 1 = some (1, some 3) := by decide +kernel
  have hthree : linkNode pagesOneThreeCells 3 = some (1, none) := by decide +kernel
  refine ⟨⟨rfl, some 3, hone, rfl, none, hthree, rfl⟩, by simp [Ascending], fun b hb => ?_⟩
  rcases List.mem_cons.mp hb with rfl | hb
  · exact ⟨by decide, by decide, by decide⟩
  · rw [List.mem_singleton.mp hb]
    exact ⟨by decide, by decide, by decide⟩

/-- Page 2 is no page of the two blocks. -/
theorem pagesOneThree_gap : ∀ b ∈ [((1, 1) : Extent), (3, 1)], Extent.Disjoint (2, 1) b := by
  intro b hb
  rcases List.mem_cons.mp hb with rfl | hb
  · exact Extent.Apart.disjoint (Or.inr (by decide))
  · rw [List.mem_singleton.mp hb]
    exact Extent.Apart.disjoint (Or.inl (by decide))

/-- Page 2 closes the gap between two free blocks. -/
theorem freeInserts_between :
    FreeInserts ⟨16⟩ pagesOneThree .app pagesOneThreeCells [(1, 1), (3, 1)] 2 1 :=
  freeInserts ⟨16⟩ pagesOneThree_freeList rfl (by decide) (by decide) (by decide)
    pagesOneThree_gap

/-- Page 0 is no block pointer: `free` of pages from there panics. -/
theorem freeInserts_fails :
    ¬ ∀ (mem : FlatMemory) (kmm : KMM) (r : MemoryRegion) (c : Cells) (bs : List Extent)
      (p n : Nat), FreeList c (kmm.region r).first bs → (kmm.region r).last = lastPtr bs →
      1 ≤ n → p + n ≤ pageCount → (∀ b ∈ bs, Extent.Disjoint (p, n) b) →
      FreeInserts mem kmm r c bs p n := by
  intro hall
  obtain ⟨desc, c', bs', ⟨m, hm⟩, _⟩ := hall ⟨16⟩ {} .app (fun _ => 0) [] 0 1
    ⟨rfl, List.Pairwise.nil, fun b hb => (by cases hb)⟩ rfl (by decide) (by decide)
    (fun b hb => by cases hb)
  have hret := hm m (Nat.le_refl _)
  have hpanic : free (⟨16⟩ : FlatMemory) m {} .app (0 <<< 12) 1 (fun _ => 0) =
      .panic (.expect "Invalid pointer given to free") := rfl
  have heq := hpanic.symm.trans hret
  cases heq

end Pomelo
