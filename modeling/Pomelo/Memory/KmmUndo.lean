/-
  KMM over a flat byte store: what `free` does to a block that is not apart from the list, and
  why it never undoes `allocate_linear`.

  `free` looks at no size when it finds the place, so nothing keeps it from linking in a block
  that lies on top of free ones. `free_covers`: if it returns, the list has a block that
  contains all pages it was given, wherever they are. `allocate_linear` returns the page number
  of the block it hands out, and `free` takes the byte address; given the page number, it links
  in a block of the same size far below (`not_givesBack`).
-/
import Pomelo.Memory.KmmLinks

namespace Pomelo

open Lib MemoryBlockHeaderPtr

/-! ## One merge, whatever follows the block -/

theorem fromUnsafeData_lt {raw p : Nat} (hraw : raw < u32Size)
    (h : fromUnsafeData raw = some (some p)) : p < pageCount := by
  unfold fromUnsafeData at h
  split at h
  · cases h
  · split at h
    · cases h
    · injection h with h
      injection h with h
      rw [Nat.shiftRight_eq_div_pow] at h
      unfold u32Size at hraw
      unfold pageCount
      omega

theorem assertSafe_eq_ret {raw : Nat} {o : Option Nat} :
    assertSafe raw = .ret o ↔ fromUnsafeData raw = some o :=
  Outcome.expect_eq_ret

/-- The cells agree on the size and the next link of the header of page `x`. -/
def SameNode (c c' : Cells) (x : Nat) : Prop :=
  (headerAt c' x).size = (headerAt c x).size ∧ (headerAt c' x).next = (headerAt c x).next

theorem SameNode.linkNode {c c' : Cells} {x : Nat} (h : SameNode c c' x) :
    Pomelo.linkNode c' x = Pomelo.linkNode c x := by
  unfold Pomelo.linkNode
  rw [h.1, h.2]

theorem sameNode_setHeader_of_ne (c : Cells) {p x : Nat} (h : x ≠ p) (hd : MemoryBlockHeader) :
    SameNode c (setHeader c p hd) x := by
  unfold SameNode
  rw [headerAt_setHeader_of_ne c h]
  exact ⟨rfl, rfl⟩

theorem sameNode_setPrev (c : Cells) (p x : Nat) {prev : Nat} (h : prev < u32Size) :
    SameNode c (setHeader c p { headerAt c p with prev := prev }) x := by
  have hf : ({ headerAt c p with prev := prev } : MemoryBlockHeader).Fits :=
    ⟨(headerAt_fits c p).size, (headerAt_fits c p).next, h⟩
  unfold SameNode
  rw [headerAt_setHeader c p x hf]
  split
  · rename_i hx
    rw [hx]
    exact ⟨rfl, rfl⟩
  · exact ⟨rfl, rfl⟩

/-- A `merge_right` that returns changes no size and no next link in memory. It joins the block
    right behind, if that is the next one, or leaves the header as it was. -/
structure MergesRight (region region' : RegionDesc) (p : Nat) (cur cur' : MemoryBlockHeader)
    (c c' : Cells) (merged : Bool) : Prop where
  first : region'.first = region.first
  fits : cur'.Fits
  prev : cur'.prev = cur.prev
  nodes : ∀ x, SameNode c c' x
  joined : merged = true → fromUnsafeData cur.next = some (some (p + cur.size)) ∧
    cur'.size = cur.size + (headerAt c (p + cur.size)).size
  kept : merged = false → cur' = cur

theorem mergesRight_refl {region : RegionDesc} {p : Nat} {cur : MemoryBlockHeader} {c : Cells}
    (hcur : cur.Fits) : MergesRight region region p cur cur c c false where
  first := rfl
  fits := hcur
  prev := rfl
  nodes _ := ⟨rfl, rfl⟩
  joined h := by cases h
  kept _ := rfl

theorem mergesRight_of_ret {mem : FlatMemory} {region region' : RegionDesc} {p : Nat}
    {cur cur' : MemoryBlockHeader} {c c' : Cells} {merged : Bool} (hp : p < pageCount)
    (hcur : cur.Fits)
    (h : mergeRight mem region p cur c = .ret (merged, cur', region', c')) :
    MergesRight region region' p cur cur' c c' merged := by
  unfold mergeRight at h
  obtain ⟨next, hnext, h⟩ := Outcome.bind_eq_ret.mp h
  rw [assertSafe_eq_ret] at hnext
  dsimp only at h
  split at h
  · rename_i fin curNext hfin
    obtain rfl := offset_eq_some hfin
    have hlt : curNext < pageCount := fromUnsafeData_lt hcur.next hnext
    split at h
    · rename_i heq
      subst heq
      rw [readHeader_flat mem c hlt, Outcome.ret_bind] at h
      obtain ⟨size, hsize, h⟩ := Outcome.bind_eq_ret.mp h
      obtain ⟨hfit, rfl⟩ := addU32_eq_ret.mp hsize
      obtain ⟨nextNext, hnn, h⟩ := Outcome.bind_eq_ret.mp h
      rw [assertSafe_eq_ret] at hnn
      have hfits : MemoryBlockHeader.Fits
          { cur with
            size := cur.size + (headerAt c (p + cur.size)).size
            next := (headerAt c (p + cur.size)).next } :=
        ⟨hfit, (headerAt_fits c _).next, hcur.prev⟩
      split at h
      · rename_i q
        have hq : q < pageCount := fromUnsafeData_lt (headerAt_fits c _).next hnn
        rw [readHeader_flat mem c hq, Outcome.ret_bind, writeHeader_flat mem c hq,
          Outcome.ret_bind, Outcome.pure_eq] at h
        injection h with h
        simp only [Prod.mk.injEq] at h
        obtain ⟨rfl, rfl, rfl, rfl⟩ := h
        have hv : intoUnsafe (some p) < u32Size := by
          rw [intoUnsafe_some hp, Nat.shiftLeft_eq]
          unfold pageCount at hp
          unfold u32Size
          omega
        exact ⟨rfl, hfits, rfl, fun x => sameNode_setPrev c q x hv, fun _ => ⟨hnext, rfl⟩,
          fun hm => by cases hm⟩
      · rw [Outcome.pure_eq] at h
        injection h with h
        simp only [Prod.mk.injEq] at h
        obtain ⟨rfl, rfl, rfl, rfl⟩ := h
        exact ⟨rfl, hfits, rfl, fun _ => ⟨rfl, rfl⟩, fun _ => ⟨hnext, rfl⟩, fun hm => by cases hm⟩
    · rw [Outcome.pure_eq] at h
      injection h with h
      simp only [Prod.mk.injEq] at h
      obtain ⟨rfl, rfl, rfl, rfl⟩ := h
      exact mergesRight_refl hcur
  · rw [Outcome.pure_eq] at h
    injection h with h
    simp only [Prod.mk.injEq] at h
    obtain ⟨rfl, rfl, rfl, rfl⟩ := h
    exact mergesRight_refl hcur

/-- One merge with the write that follows it, as `coalesce` makes it on the block `p` whose
    header it has read. -/
structure Grows (region region' : RegionDesc) (p : Nat) (c c' : Cells) : Prop where
  first : region'.first = region.first
  others : ∀ x, x ≠ p → SameNode c c' x
  node : linkNode c' p = linkNode c p ∧ (headerAt c' p).size = (headerAt c p).size ∨
    linkNode c p = some ((headerAt c p).size, some (p + (headerAt c p).size)) ∧
      (headerAt c' p).size =
        (headerAt c p).size + (headerAt c (p + (headerAt c p).size)).size

theorem Grows.size_le {region region' : RegionDesc} {p : Nat} {c c' : Cells}
    (h : Grows region region' p c c') : (headerAt c p).size ≤ (headerAt c' p).size := by
  rcases h.node with ⟨_, hsize⟩ | ⟨_, hsize⟩
  · exact Nat.le_of_eq hsize.symm
  · rw [hsize]
    exact Nat.le_add_right _ _

theorem grows_of_ret {mem : FlatMemory} {region region' : RegionDesc} {p : Nat}
    {cur : MemoryBlockHeader} {c c1 c2 : Cells} {merged : Bool} (hp : p < pageCount)
    (h : mergeRight mem region p (headerAt c p) c = .ret (merged, cur, region', c1))
    (hw : writeMerged mem merged p cur c1 = .ret c2) :
    Grows region region' p c c2 ∧ cur.prev = (headerAt c p).prev := by
  have hm := mergesRight_of_ret hp (headerAt_fits c p) h
  refine ⟨?_, hm.prev⟩
  unfold writeMerged at hw
  cases merged with
  | false =>
    injection hw with hw
    subst hw
    exact ⟨hm.first, fun x _ => hm.nodes x, Or.inl ⟨(hm.nodes p).linkNode, (hm.nodes p).1⟩⟩
  | true =>
    rw [if_pos rfl, writeHeader_flat mem c1 hp] at hw
    injection hw with hw
    subst hw
    obtain ⟨hnext, hsize⟩ := hm.joined rfl
    refine ⟨hm.first, fun x hx => ?_, Or.inr ⟨linkNode_eq_some.mpr ⟨rfl, hnext⟩, ?_⟩⟩
    · have hset := sameNode_setHeader_of_ne c1 hx cur
      exact ⟨hset.1.trans (hm.nodes x).1, hset.2.trans (hm.nodes x).2⟩
    · rw [headerAt_setHeader_self c1 p hm.fits, hsize]

/-- `coalesce` merges the block, and then the block it leads back to. -/
theorem coalesce_grows {mem : FlatMemory} {region region' : RegionDesc} {p : Nat}
    {c c' : Cells} (hp : p < pageCount) (h : coalesce mem region p c = .ret (region', c')) :
    ∃ region1 c1, Grows region region1 p c c1 ∧
      (fromUnsafeData (headerAt c p).prev = some none ∧ region' = region1 ∧ c' = c1 ∨
        ∃ b, fromUnsafeData (headerAt c p).prev = some (some b) ∧
          Grows region1 region' b c1 c') := by
  unfold coalesce at h
  rw [readHeader_flat mem c hp, Outcome.ret_bind] at h
  obtain ⟨⟨merged, cur, region1, c1⟩, hmerge, h⟩ := Outcome.bind_eq_ret.mp h
  dsimp only at h
  obtain ⟨c2, hwrite, h⟩ := Outcome.bind_eq_ret.mp h
  obtain ⟨hgrows, hprev⟩ := grows_of_ret hp hmerge hwrite
  obtain ⟨back, hback, h⟩ := Outcome.bind_eq_ret.mp h
  rw [assertSafe_eq_ret, hprev] at hback
  refine ⟨region1, c2, hgrows, ?_⟩
  cases back with
  | none =>
    injection h with h
    obtain ⟨rfl, rfl⟩ := Prod.mk.inj h
    exact Or.inl ⟨hback, rfl, rfl⟩
  | some b =>
    have hb : b < pageCount := fromUnsafeData_lt (headerAt_fits c p).prev hback
    dsimp only at h
    rw [readHeader_flat mem c2 hb, Outcome.ret_bind] at h
    obtain ⟨⟨merged', prev, region2, c3⟩, hmerge', h⟩ := Outcome.bind_eq_ret.mp h
    dsimp only at h
    obtain ⟨c4, hwrite', h⟩ := Outcome.bind_eq_ret.mp h
    injection h with h
    obtain ⟨rfl, rfl⟩ := Prod.mk.inj h
    exact Or.inr ⟨b, hback, (grows_of_ret hb hmerge' hwrite').1⟩

/-! ## `free` of any block -/

/-- A page number that the links of the list lead to is that of a block of the list. -/
theorem block_of_reachable {c : Cells} {a : Option Nat} {bs : List Extent} {p : Nat}
    (h : Seg (linkNode c) a bs none) (hr : Reachable (linkNode c) a p) :
    (p, (headerAt c p).size) ∈ bs := by
  obtain ⟨v, hv⟩ := (h.reachable_iff p).mp hr
  obtain ⟨q, hq⟩ := h.node_of_mem hv
  rw [(linkNode_eq_some.mp hq).1]
  exact hv

/-- Linked in at the front, the block is the first of the list. -/
theorem covers_front {mem : FlatMemory} {desc desc1 desc' : RegionDesc} {c c1 c' : Cells}
    {p n : Nat} {bs bs' : List Extent} (h : FreeList c desc.first bs) (hp : p < pageCount)
    (hn : n < u32Size) (hlink : linkBlock mem desc p n .first c = .ret (desc1, c1))
    (hco : coalesce mem desc1 p c1 = .ret (desc', c'))
    (hbs : Seg (linkNode c') desc'.first bs' none) :
    ∃ g ∈ bs', g.1 ≤ p ∧ p + n ≤ g.1 + g.2 := by
  rw [linkBlock_first mem desc c hp] at hlink
  injection hlink with hlink
  obtain ⟨rfl, rfl⟩ := Prod.mk.inj hlink
  have hvalid : ValidPtr desc.first := by
    have hhead : desc.first = headPtr bs := h.links.head_eq
    rw [hhead]
    exact headPtr_valid h.inSpace
  have hfits : MemoryBlockHeader.Fits
      { size := n, next := intoUnsafe desc.first, prev := intoUnsafe none } :=
    ⟨hn, intoUnsafe_lt hvalid, intoUnsafe_lt validPtr_none⟩
  have hself := headerAt_setHeader_self c p hfits
  obtain ⟨region1, c2, hgrows, hback⟩ := coalesce_grows hp hco
  rw [hself, fromUnsafeData_intoUnsafe validPtr_none] at hback
  rcases hback with ⟨_, rfl, rfl⟩ | ⟨b, hb, _⟩
  · have hfirst : desc'.first = some p := hgrows.first
    have hsize := hgrows.size_le
    rw [hself] at hsize
    exact ⟨_, block_of_reachable hbs (.first hfirst), Nat.le_refl _, Nat.add_le_add_left hsize p⟩
  · cases hb

/-- Linked in behind block `y`, the block follows `y` in the list, or takes its place, or is
    joined to it. -/
theorem covers_behind {mem : FlatMemory} {desc desc1 desc' : RegionDesc} {c c1 c' : Cells}
    {p n : Nat} {xs ys bs' : List Extent} {y : Extent}
    (h : FreeList c desc.first (xs ++ y :: ys)) (hy : y.1 ≤ p) (hp : p < pageCount)
    (hn : n < u32Size)
    (hlink : linkBlock mem desc p n (.between y.1 (headPtr ys)) c = .ret (desc1, c1))
    (hco : coalesce mem desc1 p c1 = .ret (desc', c'))
    (hbs : Seg (linkNode c') desc'.first bs' none) :
    ∃ g ∈ bs', g.1 ≤ p ∧ p + n ≤ g.1 + g.2 := by
  have hyin : InSpace y := h.inSpace y (by simp)
  have hysin : ∀ z ∈ ys, InSpace z := fun z hz => h.inSpace z (by simp [hz])
  have hvalid : ValidPtr (headPtr ys) := headPtr_valid hysin
  have hvp : ValidPtr (some p) := validPtr_some (Nat.lt_of_lt_of_le hyin.page hy) hp
  have hvy : ValidPtr (some y.1) := validPtr_some hyin.page hyin.lt
  rw [linkBlock_between mem desc c hp hyin.lt fun z hz => (hysin z hz).lt] at hlink
  injection hlink with hlink
  obtain ⟨rfl, rfl⟩ := Prod.mk.inj hlink
  have hfits : MemoryBlockHeader.Fits
      { size := n, next := intoUnsafe (headPtr ys), prev := intoUnsafe (some y.1) } :=
    ⟨hn, intoUnsafe_lt hvalid, intoUnsafe_lt hvy⟩
  have hself := headerAt_setHeader_self (linkedPrev (setHeader c y.1
    { headerAt c y.1 with next := intoUnsafe (some p) }) p ys) p hfits
  obtain ⟨_, hxs, rfl, q, hq, _⟩ := seg_append.mp h.links
  obtain ⟨region1, c2, hgrows, hback⟩ := coalesce_grows hp hco
  rw [hself, fromUnsafeData_intoUnsafe hvy] at hback
  rcases hback with ⟨hnull, _⟩ | ⟨b, hb, hgrows'⟩
  · cases hnull
  injection hb with hb
  injection hb with hb
  subst hb
  have hfirst : desc'.first = desc.first := hgrows'.first.trans hgrows.first
  have hsize := hgrows.size_le
  rw [hself] at hsize
  -- the blocks in front of `y` keep their links, so these still lead to `y`
  have hbefore : ∀ x ∈ xs, x.1 < y.1 := by
    intro x hx
    have h1 := (List.pairwise_append.mp h.ascending).2.2 x hx y (by simp)
    omega
  have hreach : Reachable (linkNode c') desc'.first y.1 := by
    rw [hfirst]
    refine Seg.reachable_end (hxs.congr fun x hx => ?_)
    have hlt := hbefore x hx
    rw [(hgrows'.others x.1 (by omega)).linkNode, (hgrows.others x.1 (by omega)).linkNode,
      linkNode_setHeader_of_ne _ (by omega), linkNode_linkedPrev _ hvp,
      linkNode_setHeader_of_ne _ (by omega)]
  by_cases hyp : y.1 = p
  · rw [hyp] at hreach hgrows'
    have hsize' : n ≤ (headerAt c' p).size := Nat.le_trans hsize hgrows'.size_le
    exact ⟨_, block_of_reachable hbs hreach, Nat.le_refl _, Nat.add_le_add_left hsize' p⟩
  · have hynode : linkNode c2 y.1 = some (y.2, some p) := by
      rw [(hgrows.others y.1 hyp).linkNode, linkNode_setHeader_of_ne _ hyp,
        linkNode_linkedPrev _ hvp, linkNode_setNext c y.1 hvp, (linkNode_eq_some.mp hq).1]
    have hysize : (headerAt c2 y.1).size = y.2 := (linkNode_eq_some.mp hynode).1
    rcases hgrows'.node with ⟨hsame, _⟩ | ⟨hjoin, hsum⟩
    · -- `y` leads to the block
      have hpsize : (headerAt c' p).size = (headerAt c2 p).size :=
        (hgrows'.others p (Ne.symm hyp)).1
      have hlast : Reachable (linkNode c') desc'.first p := hreach.next (hsame.trans hynode)
      refine ⟨_, block_of_reachable hbs hlast, Nat.le_refl _, ?_⟩
      rw [hpsize]
      exact Nat.add_le_add_left hsize p
    · -- the block was joined to `y`
      rw [hynode, hysize] at hjoin
      injection hjoin with hjoin
      have hend : p = y.1 + y.2 := Option.some.inj (Prod.mk.inj hjoin).2
      rw [hysize, ← hend] at hsum
      refine ⟨_, block_of_reachable hbs hreach, hy, ?_⟩
      dsimp only
      rw [hsum]
      dsimp only at hsize
      omega

/-- **`free` covers what it is given.** Whether or not the block lies apart from the free ones,
    a call that returns leaves a block that contains it in the list. -/
theorem free_covers {mem : FlatMemory} {kmm kmm' : KMM} {r : MemoryRegion} {c c' : Cells}
    {p n fuel : Nat} {bs bs' : List Extent} (h : FreeList c (kmm.region r).first bs) (h0 : 0 < p)
    (hp : p < pageCount) (hn : n < u32Size)
    (hfree : free mem fuel kmm r (p <<< 12) n c = .ret (kmm', c'))
    (hbs : Seg (linkNode c') (kmm'.region r).first bs' none) :
    ∃ g ∈ bs', g.1 ≤ p ∧ p + n ≤ g.1 + g.2 := by
  obtain ⟨xs, ys, rfl, hx, hy⟩ := h.ascending.split p
  have hfree' := free_mono mem hfree (Nat.le_max_left fuel ((xs ++ ys).length + 1))
  have hfuel : xs.length < max fuel ((xs ++ ys).length + 1) := by
    have hle : xs.length ≤ (xs ++ ys).length := (List.sublist_append_left xs ys).length_le
    omega
  have hfind : findInsertionPoint mem (max fuel ((xs ++ ys).length + 1)) (kmm.region r) c p =
      .ret (pointAt (lastPtr xs) (headPtr ys)) := by
    rw [findInsertionPoint, findInsertionLoop_eq mem h.links
      (fun x hxm => (h.inSpace x (by simp [hxm])).lt) hx hy hfuel, Option.or_none]
  unfold free at hfree'
  rw [fromPtr_page h0 hp, Outcome.expect_some, Outcome.ret_bind] at hfree'
  dsimp only at hfree'
  rw [hfind, Outcome.ret_bind] at hfree'
  obtain ⟨⟨desc1, c1⟩, hlink, hfree'⟩ := Outcome.bind_eq_ret.mp hfree'
  obtain ⟨⟨desc2, c2⟩, hco, hfree'⟩ := Outcome.bind_eq_ret.mp hfree'
  injection hfree' with hfree'
  obtain ⟨rfl, rfl⟩ := Prod.mk.inj hfree'
  rw [KMM.region_setRegion] at hbs
  rcases List.eq_nil_or_concat xs with rfl | ⟨xs, y, rfl⟩
  · exact covers_front h hp hn hlink hco hbs
  · rw [List.concat_eq_append] at h hx hlink
    rw [lastPtr_append] at hlink
    rw [List.append_assoc, List.singleton_append] at h
    exact covers_behind h (hx y (by simp)) hp hn hlink hco hbs

/-! ## `free` of what `allocate_linear` returned -/

/-- `free` of `n` pages at `addr` gives back what was taken from the free blocks `bs`: it
    returns, and the list covers exactly their pages again. -/
def GivesBack (mem : FlatMemory) (kmm : KMM) (r : MemoryRegion) (c : Cells) (bs : List Extent)
    (addr n : Nat) : Prop :=
  ∃ kmm' c' bs',
    Outcome.Settles (fun fuel => free mem fuel kmm r addr n c) (kmm', c') ∧
      Seg (linkNode c') (kmm'.region r).first bs' none ∧ ∀ x, Covered bs' x ↔ Covered bs x

/-- What an allocation that serves block `b` leaves is a free list. -/
theorem FreeList.alloc_fit {c : Cells} {desc : RegionDesc} {b : Extent} {xs ys : List Extent}
    {n : Nat} (h : FreeList c desc.first (xs ++ b :: ys)) (hn : 1 ≤ n) (hb : n ≤ b.2) :
    ∃ bs', FreeList (splitCells c b n) (desc.replace b.1 (headPtr (remainder b n))).first bs' := by
  cases xs with
  | nil => exact ⟨_, h.alloc_first⟩
  | cons a xs =>
    obtain ⟨hfirst, hlist⟩ := h.alloc_behind hn hb
    rw [hfirst]
    exact ⟨_, hlist⟩

/-- **`free` never undoes `allocate_linear`.** The value returned is a page number; as a byte
    address it is not aligned, or it is that of a page far below. No block from there on is
    large enough to contain the `n` pages, because the first that is was the one served. -/
theorem not_givesBack {mem : FlatMemory} {kmm kmm' : KMM} {r : MemoryRegion} {c c' : Cells}
    {bs : List Extent} {n a : Nat} (h : FreeList c (kmm.region r).first bs) (hn : 1 ≤ n)
    (halloc : Outcome.Settles (fun fuel => allocateLinear mem fuel kmm r n c)
      (some a, kmm', c')) : ¬ GivesBack mem kmm' r c' bs a n := by
  have hfit : ¬ ∀ b ∈ bs, b.2 < n := by
    intro hsmall
    have heq := halloc.unique (settles_of_small mem h hsmall)
    cases heq
  obtain ⟨xs, b, ys, rfl, hxs, hb⟩ := exists_first_fit hfit
  have heq := halloc.unique (settles_of_fit mem h hxs hb)
  simp only [Prod.mk.injEq, Option.some.injEq] at heq
  obtain ⟨rfl, rfl, rfl⟩ := heq
  obtain ⟨bs1, hlist⟩ := h.alloc_fit hn hb
  have hbin : InSpace b := h.inSpace b (by simp)
  have hblt := hbin.lt
  have hbfin := hbin.fin
  rintro ⟨kmm2, c2, bs2, ⟨m, hm⟩, hseg, hcov⟩
  have hfree := hm m (Nat.le_refl m)
  dsimp only at hfree
  -- the address that `free` understands
  obtain ⟨p, hp, _⟩ := Outcome.bind_eq_ret.mp hfree
  obtain ⟨halign, hpage, hp0⟩ := fromPtr_eq_some (Outcome.expect_eq_ret.mp hp)
  have haddr : b.1 = p <<< 12 := by
    rw [Nat.shiftLeft_eq]
    omega
  have hpb : p < b.1 := by omega
  have hfree' : free mem m
      (kmm.setRegion r ((kmm.region r).replace b.1 (headPtr (remainder b n)))) r (p <<< 12) n
      (splitCells c b n) = .ret (kmm2, c2) := by
    rw [← haddr]
    exact hfree
  have hu32 : n < u32Size := by
    unfold pageCount at hbfin
    unfold u32Size
    omega
  rw [← KMM.region_setRegion kmm r ((kmm.region r).replace b.1 (headPtr (remainder b n)))] at hlist
  obtain ⟨g, hg, hgp, hgend⟩ := free_covers hlist hp0 (Nat.lt_trans hpb hblt) hu32 hfree' hseg
  -- so all of these pages were free, in one block
  have hrun : ∀ i < n, Covered (xs ++ b :: ys) (p + i) := by
    intro i hi
    refine (hcov (p + i)).mp ⟨g, hg, ?_⟩
    unfold Extent.Mem
    omega
  obtain ⟨f, hf, hfp, hfend⟩ := exists_extent_of_run h.ascending hn hrun
  have hpw := List.pairwise_append.mp h.ascending
  rcases List.mem_append.mp hf with hf | hf
  · have hsmall := hxs f hf
    omega
  · rcases List.mem_cons.mp hf with rfl | hf
    · omega
    · have hafter := (ascending_cons.mp hpw.2.1).1 f hf
      omega

/-- A region whose free list is one block of three pages from page 1. -/
def threePages : KMM :=
  { regionApp := { first := some 1, last := some 1, start := 4096, size := 3 } }

def threePagesCells : Cells := setHeader (fun _ => 0) 1 { size := 3, next := 0, prev := 0 }

theorem headerAt_threePagesCells : headerAt threePagesCells 1 = { size := 3, next := 0, prev := 0 } :=
  headerAt_setHeader_self _ 1 ⟨by decide, by decide, by decide⟩

theorem freeList_threePages : FreeList threePagesCells (threePages.region .app).first [(1, 3)] := by
  refine ⟨⟨rfl, none, ?_, rfl⟩, by simp [Ascending], ?_⟩
  · rw [linkNode_eq_some, headerAt_threePagesCells]
    exact ⟨rfl, rfl⟩
  · intro b hb
    rw [List.mem_singleton.mp hb]
    exact ⟨by decide, by decide, by decide⟩

/-- The first page is handed out. -/
theorem allocate_threePages : ∃ kmm c,
    Outcome.Settles (fun fuel => allocateLinear (⟨16⟩ : FlatMemory) fuel threePages .app 1
      threePagesCells) (some 1, kmm, c) := by
  have hlist : FreeList threePagesCells (threePages.region .app).first ([] ++ (1, 3) :: []) :=
    freeList_threePages
  exact ⟨_, _, settles_of_fit ⟨16⟩ hlist (by simp) (by decide)⟩

theorem not_givesBack_threePages : ∃ kmm c,
    Outcome.Settles (fun fuel => allocateLinear (⟨16⟩ : FlatMemory) fuel threePages .app 1
      threePagesCells) (some 1, kmm, c) ∧ ¬ GivesBack ⟨16⟩ kmm .app c [(1, 3)] 1 1 := by
  obtain ⟨kmm, c, halloc⟩ := allocate_threePages
  exact ⟨kmm, c, halloc, not_givesBack freeList_threePages (by decide) halloc⟩

/-- The page number 1 is not a page-aligned address: `free` panics. -/
theorem givesBack_fails :
    ¬ ∀ (mem : FlatMemory) (kmm kmm' : KMM) (r : MemoryRegion) (c c' : Cells) (bs : List Extent)
      (n a : Nat), FreeList c (kmm.region r).first bs → PrevLinks c none bs →
      (kmm.region r).last = lastPtr bs → 1 ≤ n →
      Outcome.Settles (fun fuel => allocateLinear mem fuel kmm r n c) (some a, kmm', c') →
      GivesBack mem kmm' r c' bs a n := by
  intro hall
  obtain ⟨kmm, c, halloc⟩ := allocate_threePages
  have hprev : PrevLinks threePagesCells none [(1, 3)] := by
    refine ⟨?_, trivial⟩
    show fromUnsafeData (headerAt threePagesCells 1).prev = some none
    rw [headerAt_threePagesCells]
    rfl
  obtain ⟨kmm', c', bs', ⟨m, hm⟩, _⟩ := hall ⟨16⟩ threePages kmm .app threePagesCells c [(1, 3)] 1 1
    freeList_threePages hprev rfl (by decide) halloc
  have hret := hm m (Nat.le_refl m)
  have hpanic : free (⟨16⟩ : FlatMemory) m kmm .app 1 1 c =
      .panic (.expect "Invalid pointer given to free") := rfl
  have heq := hpanic.symm.trans hret
  cases heq

end Pomelo
