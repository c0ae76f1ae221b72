/-
  KMM: every region keeps to its own pages.

  A run here is over all regions at once: each is given its pages by one `init_region`, and
  `allocate_linear` calls and frees of held blocks go on in any order. The free list of a region
  need not be a list any more: a block served behind the first stays linked while it is held,
  so links can lead to stale headers, to overwritten ones and in a circle.

  What survives is a fact about every header ever written (`RegionOk`): there is a set of pages
  of the region such that the header in each of them states a block that ends inside the
  region, with links to pages of the set. Every header the allocator reads is one of these, and
  every header it writes is one again, so no read link fails to decode and no sum of two sizes
  leaves the region. `regionsIsolated` says so of every call of every run.
-/
import Pomelo.Memory.KmmRun
import Mathlib.Data.Set.Insert
import Mathlib.Logic.Function.Basic

namespace Pomelo

open Lib MemoryBlockHeaderPtr

/-- The pages a region was given. -/
def RegionDesc.pages (desc : RegionDesc) : Extent := (desc.start / 4096, desc.size)

/-! ## Headers of a region -/

/-- A link word that decodes to a page of `T`, or to none. -/
def LinksTo (T : Set Nat) (raw : Nat) : Prop :=
  ∃ o, fromUnsafeData raw = some o ∧ ∀ q, o = some q → q ∈ T

/-- The header of page `p` states a block inside `e`, and its links lead to pages of `T`. -/
structure HeaderIn (e : Extent) (T : Set Nat) (p : Nat) (hd : MemoryBlockHeader) : Prop where
  fits : hd.Fits
  fin : p + hd.size ≤ e.1 + e.2
  next : LinksTo T hd.next
  prev : LinksTo T hd.prev

/-- The pages of `W` lie in `e`, and each has such a header. -/
def HeadersIn (e : Extent) (W T : Set Nat) (c : Cells) : Prop :=
  ∀ p ∈ W, e.Mem p ∧ HeaderIn e T p (headerAt c p)

/-- The cells agree outside the headers of the pages of `e`. -/
def SameOutsideHeaders (e : Extent) (c c' : Cells) : Prop :=
  ∀ x, ¬ (e.Mem (x / 4096) ∧ x % 4096 < 12) → c' x = c x

/-- Page numbers from 1 on, below the end of the address space. -/
structure PagesInSpace (e : Extent) : Prop where
  page : ∀ p, e.Mem p → 0 < p
  fin : e.1 + e.2 ≤ pageCount

section Headers

variable {mem : FlatMemory} {e : Extent} {W T T' : Set Nat} {c c' c'' : Cells} {p : Nat}
  {hd : MemoryBlockHeader}

theorem PagesInSpace.lt (h : PagesInSpace e) (hp : e.Mem p) : p < pageCount :=
  Nat.lt_of_lt_of_le hp.2 h.fin

theorem PagesInSpace.validPtr (h : PagesInSpace e) {o : Option Nat}
    (ho : ∀ q, o = some q → e.Mem q) : ValidPtr o :=
  fun q hq => ⟨h.page q (ho q hq), h.lt (ho q hq)⟩

theorem LinksTo.mono {raw : Nat} (h : LinksTo T raw) (ht : T ⊆ T') : LinksTo T' raw := by
  obtain ⟨o, ho, hq⟩ := h
  exact ⟨o, ho, fun q hoq => ht (hq q hoq)⟩

/-- A link word made from a pointer leads there. -/
theorem linksTo_intoUnsafe {o : Option Nat} (hv : ValidPtr o) (h : ∀ q, o = some q → q ∈ T) :
    LinksTo T (intoUnsafe o) :=
  ⟨o, fromUnsafeData_intoUnsafe hv, h⟩

theorem linksTo_none : LinksTo T (intoUnsafe none) :=
  linksTo_intoUnsafe validPtr_none fun _ h => by cases h

theorem LinksTo.assertSafe {raw : Nat} (h : LinksTo T raw) :
    (Pomelo.assertSafe raw).Meets fun o => ∀ q, o = some q → q ∈ T := by
  obtain ⟨o, ho, hq⟩ := h
  rw [assertSafe_of_decodes ho]
  exact hq

theorem HeadersIn.mono (h : HeadersIn e W T c) (ht : T ⊆ T') : HeadersIn e W T' c := by
  intro p hp
  obtain ⟨hm, hh⟩ := h p hp
  exact ⟨hm, hh.fits, hh.fin, hh.next.mono ht, hh.prev.mono ht⟩

theorem SameOutsideHeaders.refl (e : Extent) (c : Cells) : SameOutsideHeaders e c c :=
  fun _ _ => rfl

theorem SameOutsideHeaders.trans (h : SameOutsideHeaders e c c')
    (h' : SameOutsideHeaders e c' c'') : SameOutsideHeaders e c c'' :=
  fun x hx => (h' x hx).trans (h x hx)

theorem sameOutsideHeaders_setHeader (hp : e.Mem p) (c : Cells) (hd : MemoryBlockHeader) :
    SameOutsideHeaders e c (setHeader c p hd) := by
  intro x hx
  refine sameOutside_setHeader (List.mem_singleton.mpr rfl) c hd x ?_
  intro k hk
  rw [List.mem_singleton.mp hk]
  by_contra hn
  have hdiv : x / 4096 = p := by omega
  exact hx ⟨hdiv ▸ hp, by omega⟩

/-- A header read from a page of the set is one of the region's. -/
theorem HeadersIn.read (h : HeadersIn e W T c) (he : PagesInSpace e) (hp : p ∈ W) :
    (readHeader mem c p).Meets fun hd => HeaderIn e T p hd := by
  rw [readHeader_flat mem c (he.lt (h p hp).1)]
  exact (h p hp).2

/-- A header of the region's set on a page of it: one page more, or the same pages. -/
theorem HeadersIn.setHeader (h : HeadersIn e W T c) (hp : e.Mem p) (hh : HeaderIn e T p hd) :
    HeadersIn e (insert p W) T (setHeader c p hd) := by
  intro q hq
  by_cases hqp : q = p
  · subst hqp
    rw [headerAt_setHeader_self c q hh.fits]
    exact ⟨hp, hh⟩
  · rw [headerAt_setHeader_of_ne c hqp hd]
    exact h q (Set.mem_of_mem_insert_of_ne hq hqp)

theorem HeadersIn.write (h : HeadersIn e W T c) (he : PagesInSpace e) (hp : e.Mem p)
    (hh : HeaderIn e T p hd) :
    (writeHeader mem c p hd).Meets fun c' =>
      HeadersIn e (insert p W) T c' ∧ SameOutsideHeaders e c c' := by
  rw [writeHeader_flat mem c (he.lt hp)]
  exact ⟨h.setHeader hp hh, sameOutsideHeaders_setHeader hp c hd⟩

theorem HeadersIn.rewrite (h : HeadersIn e W T c) (he : PagesInSpace e) (hp : p ∈ W)
    (hh : HeaderIn e T p hd) :
    (writeHeader mem c p hd).Meets fun c' =>
      HeadersIn e W T c' ∧ SameOutsideHeaders e c c' := by
  have hw : (writeHeader mem c p hd).Meets fun c' =>
      HeadersIn e (insert p W) T c' ∧ SameOutsideHeaders e c c' := h.write he (h p hp).1 hh
  rw [Set.insert_eq_of_mem hp] at hw
  exact hw

/-- The headers of a region are not touched by writes to the headers of another. -/
theorem HeadersIn.of_sameOutside {e' : Extent} (h : HeadersIn e W T c)
    (hs : SameOutsideHeaders e' c c') (hd : e.Disjoint e') : HeadersIn e W T c' := by
  intro p hp
  obtain ⟨hm, hh⟩ := h p hp
  have hsame : headerAt c' p = headerAt c p := by
    refine headerAt_congr fun k hk => hs _ fun hx => ?_
    have hdiv : (p * 4096 + k) / 4096 = p := by omega
    rw [hdiv] at hx
    exact hd p hm hx.1
  rw [hsame]
  exact ⟨hm, hh⟩

end Headers

/-! ## One region through a call -/

/-- The headers of the pages `W` are those of the region `e`, and its list starts in `W`. -/
structure RegionOk (e : Extent) (W : Set Nat) (desc : RegionDesc) (c : Cells) : Prop where
  headers : HeadersIn e W W c
  first : ∀ p, desc.first = some p → p ∈ W

/-- Only headers of `e` were written, and the region still has its pages. -/
structure SameRegion (e : Extent) (desc : RegionDesc) (c : Cells) (desc' : RegionDesc)
    (c' : Cells) : Prop where
  frame : SameOutsideHeaders e c c'
  start : desc'.start = desc.start
  size : desc'.size = desc.size

section Region

variable {mem : FlatMemory} {e : Extent} {W : Set Nat} {desc desc' desc'' : RegionDesc}
  {c c' c'' : Cells} {p n : Nat} {hd cur : MemoryBlockHeader}

theorem SameRegion.refl (e : Extent) (desc : RegionDesc) (c : Cells) :
    SameRegion e desc c desc c :=
  ⟨.refl e c, rfl, rfl⟩

theorem SameRegion.trans (h : SameRegion e desc c desc' c')
    (h' : SameRegion e desc' c' desc'' c'') : SameRegion e desc c desc'' c'' :=
  ⟨h.frame.trans h'.frame, h'.start.trans h.start, h'.size.trans h.size⟩

theorem SameRegion.of_frame (h : SameOutsideHeaders e c c') : SameRegion e desc c desc c' :=
  ⟨h, rfl, rfl⟩

/-- What a call leaves of the region: its headers are still the region's, on some pages. -/
def StaysOk (e : Extent) (desc : RegionDesc) (c : Cells) (desc' : RegionDesc) (c' : Cells) :
    Prop :=
  (∃ W', RegionOk e W' desc' c') ∧ SameRegion e desc c desc' c'

/-- Taking `n` pages of a block keeps the remainder in the region. -/
theorem takeBlock_meets (he : PagesInSpace e) (h : RegionOk e W desc c) (hp : p ∈ W)
    (hn : n ≤ (headerAt c p).size) :
    (takeBlock mem desc p (headerAt c p) n c).Meets fun r => StaysOk e desc c r.1 r.2 := by
  obtain ⟨hm, hh⟩ := h.headers p hp
  have hfin := hh.fin
  have hspace := he.fin
  by_cases hlt : n < (headerAt c p).size
  · rw [takeBlock_of_lt mem desc _ c hlt (by omega)]
    have hm' : e.Mem (p + n) := ⟨Nat.le_trans hm.1 (Nat.le_add_right p n), by omega⟩
    have hrem : HeaderIn e W (p + n)
        { size := (headerAt c p).size - n, next := (headerAt c p).next,
          prev := (headerAt c p).prev } := by
      refine ⟨⟨?_, hh.fits.next, hh.fits.prev⟩, ?_, hh.next, hh.prev⟩
      · exact Nat.lt_of_le_of_lt (Nat.sub_le _ n) hh.fits.size
      · show p + n + ((headerAt c p).size - n) ≤ e.1 + e.2
        omega
    refine ⟨⟨insert (p + n) W, ?_, ?_⟩, sameOutsideHeaders_setHeader hm' c _, rfl, rfl⟩
    · exact (h.headers.setHeader hm' hrem).mono (Set.subset_insert _ _)
    · intro q hq
      unfold RegionDesc.replace at hq
      dsimp only at hq
      split at hq
      · injection hq with hq
        exact hq ▸ Set.mem_insert _ _
      · exact Set.mem_insert_of_mem _ (h.first q hq)
  · rw [takeBlock_of_eq mem desc _ c (by omega)]
    refine ⟨⟨W, h.headers, ?_⟩, .refl e c, rfl, rfl⟩
    intro q hq
    unfold RegionDesc.replace at hq
    dsimp only at hq
    split at hq
    · cases hq
    · exact h.first q hq

/-- The walk of `allocate_linear` stays in the set, and so does the block it takes. -/
theorem allocateLoop_meets (he : PagesInSpace e) (h : RegionOk e W desc c) (fuel : Nat)
    {a : Option Nat} (ha : ∀ p, a = some p → p ∈ W) :
    (allocateLoop mem n fuel desc a c).Meets fun r =>
      StaysOk e desc c r.2.1 r.2.2 ∧ ∀ p, r.1 = some p → e.1 ≤ p ∧ p + n ≤ e.1 + e.2 := by
  induction fuel generalizing a with
  | zero => trivial
  | succ fuel ih =>
    cases a with
    | none =>
      exact ⟨⟨⟨W, h⟩, .refl e desc c⟩, fun p hp => by cases hp⟩
    | some p =>
      have hp : p ∈ W := ha p rfl
      obtain ⟨hm, hh⟩ := h.headers p hp
      unfold allocateLoop
      rw [readHeader_flat mem c (he.lt hm), Outcome.ret_bind]
      split
      · rename_i hfit
        refine (takeBlock_meets he h hp hfit).bind fun r hr => ⟨hr, fun q hq => ?_⟩
        injection hq with hq
        have hfin := hh.fin
        have hstart := hm.1
        omega
      · exact hh.next.assertSafe.bind fun next hnext => ih hnext

/-- The search of `find_insertion_point` stops between pages of the set. -/
theorem findInsertionLoop_meets (he : PagesInSpace e) (h : HeadersIn e W W c) (addr fuel : Nat)
    {prev a : Option Nat} (hprev : ∀ p, prev = some p → p ∈ W) (ha : ∀ p, a = some p → p ∈ W) :
    (findInsertionLoop mem c addr fuel prev a).Meets fun point =>
      ∀ q next, point = .between q next → q ∈ W ∧ ∀ p, next = some p → p ∈ W := by
  induction fuel generalizing prev a with
  | zero => trivial
  | succ fuel ih =>
    have hstop : ∀ next, (∀ p, next = some p → p ∈ W) →
        ∀ q next', pointAt prev next = .between q next' → q ∈ W ∧ ∀ p, next' = some p → p ∈ W := by
      intro next hnext q next' hpoint
      cases prev with
      | none => cases hpoint
      | some r =>
        injection hpoint with hq hn
        subst hq hn
        exact ⟨hprev r rfl, hnext⟩
    cases a with
    | none =>
      have hpoint := hstop none fun _ hn => by cases hn
      cases prev with
      | none => exact hpoint
      | some r => exact hpoint
    | some p =>
      have hp : p ∈ W := ha p rfl
      obtain ⟨hm, hh⟩ := h p hp
      unfold findInsertionLoop
      split
      · have hpoint := hstop (some p) fun q hq => ha q hq
        cases prev with
        | none => exact hpoint
        | some r => exact hpoint
      · rw [readHeader_flat mem c (he.lt hm), Outcome.ret_bind]
        refine hh.next.assertSafe.bind fun next hnext => ih ?_ hnext
        intro q hq
        injection hq with hq
        exact hq ▸ hp

/-- A merge keeps the joined block in the region: the block to the right starts where the first
    one ends, and ends in the region itself. -/
theorem mergeRight_meets (he : PagesInSpace e) (h : RegionOk e W desc c) (hp : p ∈ W)
    (hcur : HeaderIn e W p cur) :
    (mergeRight mem desc p cur c).Meets fun r =>
      HeaderIn e W p r.2.1 ∧ RegionOk e W r.2.2.1 r.2.2.2 ∧
        SameRegion e desc c r.2.2.1 r.2.2.2 := by
  have hsame : HeaderIn e W p cur ∧ RegionOk e W desc c ∧ SameRegion e desc c desc c :=
    ⟨hcur, h, .refl e desc c⟩
  unfold mergeRight
  dsimp only
  refine hcur.next.assertSafe.bind fun curNext hnext => ?_
  split
  · rename_i _ _ fin q hoff
    split
    · rename_i hq
      have hqW : q ∈ W := hnext q rfl
      have hfinEq : fin = p + cur.size := offset_eq_some hoff
      refine (h.headers.read he hqW).bind fun next hh => ?_
      have hfin := hh.fin
      have hspace := he.fin
      have hsum : cur.size + next.size < u32Size := by
        unfold pageCount at hspace
        unfold u32Size
        omega
      rw [addU32_of_lt hsum, Outcome.ret_bind]
      have hjoined : HeaderIn e W p
          { cur with size := cur.size + next.size, next := next.next } := by
        refine ⟨⟨hsum, hh.fits.next, hcur.fits.prev⟩, ?_, hh.next, hcur.prev⟩
        show p + (cur.size + next.size) ≤ e.1 + e.2
        omega
      refine hh.next.assertSafe.bind fun nextNext hnn => ?_
      cases nextNext with
      | none => exact ⟨hjoined, ⟨h.headers, h.first⟩, .refl e c, rfl, rfl⟩
      | some r =>
        have hr : r ∈ W := hnn r rfl
        have hpm : e.Mem p := (h.headers p hp).1
        refine (h.headers.read he hr).bind fun old hold => ?_
        have hlink : LinksTo W (intoUnsafe (some p)) :=
          linksTo_intoUnsafe (validPtr_some (he.page p hpm) (he.lt hpm))
            fun q hq => (Option.some.inj hq) ▸ hp
        have hnew : HeaderIn e W r { old with prev := intoUnsafe (some p) } :=
          ⟨⟨hold.fits.size, hold.fits.next,
            intoUnsafe_lt (validPtr_some (he.page p hpm) (he.lt hpm))⟩,
            hold.fin, hold.next, hlink⟩
        refine (h.headers.rewrite he hr hnew).bind fun c' hc' => ?_
        exact ⟨hjoined, ⟨hc'.1, h.first⟩, .of_frame hc'.2⟩
    · exact hsame
  · exact hsame

theorem writeMerged_meets (he : PagesInSpace e) (h : RegionOk e W desc c) (hp : p ∈ W)
    (hcur : HeaderIn e W p cur) (merged : Bool) :
    (writeMerged mem merged p cur c).Meets fun c' =>
      RegionOk e W desc c' ∧ SameRegion e desc c desc c' := by
  unfold writeMerged
  split
  · refine (h.headers.rewrite he hp hcur).mono fun c' hc' => ?_
    exact ⟨⟨hc'.1, h.first⟩, .of_frame hc'.2⟩
  · exact ⟨h, .refl e desc c⟩

theorem coalesce_meets (he : PagesInSpace e) (h : RegionOk e W desc c) (hp : p ∈ W) :
    (coalesce mem desc p c).Meets fun r =>
      RegionOk e W r.1 r.2 ∧ SameRegion e desc c r.1 r.2 := by
  unfold coalesce
  refine (h.headers.read he hp).bind fun cur hcur => ?_
  refine (mergeRight_meets he h hp hcur).bind fun ⟨merged, cur1, desc1, c1⟩ ⟨hcur1, h1, hs1⟩ => ?_
  refine (writeMerged_meets he h1 hp hcur1 merged).bind fun c2 ⟨h2, hs2⟩ => ?_
  refine hcur1.prev.assertSafe.bind fun prev hprev => ?_
  cases prev with
  | none => exact ⟨h2, hs1.trans hs2⟩
  | some q =>
    have hq : q ∈ W := hprev q rfl
    refine (h2.headers.read he hq).bind fun old hold => ?_
    refine (mergeRight_meets he h2 hq hold).bind fun ⟨merged', hd3, desc3, c3⟩ ⟨hhd3, h3, hs3⟩ => ?_
    refine (writeMerged_meets he h3 hq hhd3 merged').bind fun c4 ⟨h4, hs4⟩ => ?_
    exact ⟨h4, ((hs1.trans hs2).trans hs3).trans hs4⟩

/-- Linking a block in adds its page to the set. -/
theorem linkBlock_meets (he : PagesInSpace e) (h : RegionOk e W desc c) (hp : e.Mem p)
    (hfin : p + n ≤ e.1 + e.2) {point : BlockInsertionPoint}
    (hpoint : ∀ q next, point = .between q next → q ∈ W ∧ ∀ r, next = some r → r ∈ W) :
    (linkBlock mem desc p n point c).Meets fun r =>
      RegionOk e (insert p W) r.1 r.2 ∧ SameRegion e desc c r.1 r.2 := by
  have hspace := he.fin
  have hsize : n < u32Size := by
    unfold pageCount at hspace
    unfold u32Size
    omega
  have hsub : W ⊆ insert p W := Set.subset_insert p W
  have hvalid : ∀ {o : Option Nat}, (∀ q, o = some q → q ∈ W) → ValidPtr o := fun ho =>
    he.validPtr fun q hq => (h.headers q (ho q hq)).1
  have hpv : ValidPtr (some p) := validPtr_some (he.page p hp) (he.lt hp)
  have hplink : LinksTo (insert p W) (intoUnsafe (some p)) :=
    linksTo_intoUnsafe hpv fun q hq => (Option.some.inj hq) ▸ Set.mem_insert p W
  have hlink : ∀ {o : Option Nat}, (∀ q, o = some q → q ∈ W) →
      LinksTo (insert p W) (intoUnsafe o) := fun ho =>
    linksTo_intoUnsafe (hvalid ho) fun q hq => hsub (ho q hq)
  have hnone : ∀ q, (none : Option Nat) = some q → q ∈ W := fun _ hq => by cases hq
  -- the header of the new block, whatever it leads to
  have hblock : ∀ {next prev : Option Nat}, (∀ q, next = some q → q ∈ W) →
      (∀ q, prev = some q → q ∈ W) → HeaderIn e (insert p W) p
        { size := n, next := intoUnsafe next, prev := intoUnsafe prev } := fun hn hq =>
    ⟨⟨hsize, intoUnsafe_lt (hvalid hn), intoUnsafe_lt (hvalid hq)⟩, hfin, hlink hn, hlink hq⟩
  have hmono := h.headers.mono hsub
  unfold linkBlock
  dsimp only
  cases point with
  | first =>
    refine (hmono.write he hp (hblock h.first hnone)).bind fun c1 ⟨h1, hs1⟩ => ?_
    split
    · exact ⟨⟨h1, fun q hq => (Option.some.inj hq) ▸ Set.mem_insert p W⟩, hs1, rfl, rfl⟩
    · exact ⟨⟨h1, fun q hq => (Option.some.inj hq) ▸ Set.mem_insert p W⟩, hs1, rfl, rfl⟩
  | between prev next =>
    obtain ⟨hprev, hnext⟩ := hpoint prev next rfl
    have hprevs : ∀ q, some prev = some q → q ∈ W := fun q hq => (Option.some.inj hq) ▸ hprev
    refine (hmono.read he hprev).bind fun old hold => ?_
    have hold' : HeaderIn e (insert p W) prev { old with next := intoUnsafe (some p) } :=
      ⟨⟨hold.fits.size, intoUnsafe_lt hpv, hold.fits.prev⟩, hold.fin, hplink, hold.prev⟩
    refine (hmono.rewrite he hprev hold').bind fun c1 ⟨h1, hs1⟩ => ?_
    have hfirst : ∀ q, desc.first = some q → q ∈ insert p W := fun q hq => hsub (h.first q hq)
    cases next with
    | none =>
      dsimp only
      rw [Outcome.pure_eq, Outcome.ret_bind]
      refine (h1.write he hp (hblock hnone hprevs)).bind fun c2 ⟨h2, hs2⟩ => ?_
      exact ⟨⟨h2, hfirst⟩, hs1.trans hs2, rfl, rfl⟩
    | some next =>
      have hnextW : next ∈ W := hnext next rfl
      dsimp only
      refine (h1.read he hnextW).bind fun after hafter => ?_
      have hafter' : HeaderIn e (insert p W) next { after with prev := intoUnsafe (some p) } :=
        ⟨⟨hafter.fits.size, hafter.fits.next, intoUnsafe_lt hpv⟩, hafter.fin, hafter.next, hplink⟩
      refine (h1.rewrite he hnextW hafter').bind fun c2 ⟨h2, hs2⟩ => ?_
      rw [Outcome.pure_eq, Outcome.ret_bind]
      refine (h2.write he hp (hblock hnext hprevs)).bind fun c3 ⟨h3, hs3⟩ => ?_
      exact ⟨⟨h3, hfirst⟩, (hs1.trans hs2).trans hs3, rfl, rfl⟩

theorem allocateLinear_meets (he : PagesInSpace e) {kmm : KMM} {r : MemoryRegion}
    (h : RegionOk e W (kmm.region r) c) (fuel : Nat) :
    (allocateLinear mem fuel kmm r n c).Meets fun x =>
      (∃ desc', x.2.1 = kmm.setRegion r desc' ∧ StaysOk e (kmm.region r) c desc' x.2.2) ∧
        ∀ p, x.1 = some p → e.1 ≤ p ∧ p + n ≤ e.1 + e.2 := by
  unfold allocateLinear
  refine (allocateLoop_meets he h fuel h.first).bind fun ⟨res, desc', c'⟩ ⟨hstays, hres⟩ => ?_
  exact ⟨⟨desc', rfl, hstays⟩, hres⟩

theorem free_meets (he : PagesInSpace e) {kmm : KMM} {r : MemoryRegion}
    (h : RegionOk e W (kmm.region r) c) (hp : e.Mem p) (hfin : p + n ≤ e.1 + e.2) (fuel : Nat) :
    (free mem fuel kmm r (p <<< 12) n c).Meets fun x =>
      ∃ desc', x.1 = kmm.setRegion r desc' ∧ StaysOk e (kmm.region r) c desc' x.2 := by
  unfold free findInsertionPoint
  rw [fromPtr_page (he.page p hp) (he.lt hp), Outcome.expect_some, Outcome.ret_bind]
  refine (findInsertionLoop_meets he h.headers p fuel (fun _ hq => by cases hq) h.first).bind
    fun point hpoint => ?_
  refine (linkBlock_meets he h hp hfin hpoint).bind fun ⟨desc1, c1⟩ ⟨h1, hs1⟩ => ?_
  refine (coalesce_meets he h1 (Set.mem_insert p W)).bind fun ⟨desc2, c2⟩ ⟨h2, hs2⟩ => ?_
  exact ⟨desc2, rfl, ⟨insert p W, h2⟩, hs1.trans hs2⟩

/-- `init_region` gives the region one block, its whole range. -/
theorem initRegion_meets {kmm : KMM} {r : MemoryRegion} {addr pages : Nat}
    (haddr : addr % 4096 = 0) (hin : InSpace (addr / 4096, pages)) :
    (initRegion mem kmm r addr pages c).Meets fun x =>
      ∃ desc', x.1 = kmm.setRegion r desc' ∧ desc'.pages = (addr / 4096, pages) ∧
        RegionOk desc'.pages (insert (addr / 4096) ∅) desc' x.2 ∧
        SameOutsideHeaders desc'.pages c x.2 := by
  have hpage : addr = (addr / 4096) <<< 12 := by
    rw [Nat.shiftLeft_eq]
    omega
  have hsize := hin.size
  have hfin := hin.fin
  have hm : Extent.Mem (addr / 4096, pages) (addr / 4096) :=
    ⟨Nat.le_refl _, Nat.lt_add_of_pos_right hsize⟩
  have hblock : HeaderIn (addr / 4096, pages) (insert (addr / 4096) ∅) (addr / 4096)
      { size := pages, next := intoUnsafe none, prev := intoUnsafe none } := by
    refine ⟨⟨?_, intoUnsafe_lt validPtr_none, intoUnsafe_lt validPtr_none⟩, Nat.le_refl _,
      linksTo_none, linksTo_none⟩
    show pages < u32Size
    unfold pageCount at hfin
    unfold u32Size
    dsimp only at hfin
    omega
  have hempty : HeadersIn (addr / 4096, pages) ∅ (insert (addr / 4096) ∅) c :=
    fun p hp => hp.elim
  have hptr : fromPtr addr = some (addr / 4096) := by
    conv_lhs => rw [hpage]
    exact fromPtr_page hin.page hin.lt
  unfold initRegion
  rw [hptr, Outcome.expect_some, Outcome.ret_bind, writeHeader_flat mem c hin.lt,
    Outcome.ret_bind]
  refine ⟨_, rfl, rfl, ⟨hempty.setHeader hm hblock, ?_⟩, sameOutsideHeaders_setHeader hm c _⟩
  intro q hq
  injection hq with hq
  exact hq ▸ Set.mem_insert _ _

end Region

/-! ## Runs on all regions -/

/-- The allocator, the cells behind it, and the blocks handed out by each region. -/
structure RegionsState where
  kmm : KMM
  cells : Cells
  held : MemoryRegion → List Extent

/-- A call: `init_region`, `allocate_linear`, or `free` of a held block of the region. -/
inductive RegionsCall where
  | init (region : MemoryRegion) (addr pages : Nat)
  | alloc (region : MemoryRegion) (pages : Nat)
  | free (region : MemoryRegion) (block : Extent)
deriving DecidableEq, Repr

/-- The region a call is made on. -/
def RegionsCall.region : RegionsCall → MemoryRegion
  | .init region _ _ => region
  | .alloc region _ => region
  | .free region _ => region

/-- The call, executed with the given fuel. -/
def RegionsState.call (mem : FlatMemory) (fuel : Nat) (s : RegionsState) :
    RegionsCall → Exec RegionsState
  | .init region addr pages => do
    let (kmm, c) ← initRegion mem s.kmm region addr pages s.cells
    return { s with kmm := kmm, cells := c }
  | .alloc region n => do
    let (res, kmm, c) ← allocateLinear mem fuel s.kmm region n s.cells
    return {
      kmm := kmm
      cells := c
      held := Function.update s.held region (heldAfter (s.held region) n res) }
  | .free region b => do
    let (kmm, c) ← free mem fuel s.kmm region (b.1 <<< 12) b.2 s.cells
    return {
      kmm := kmm
      cells := c
      held := Function.update s.held region ((s.held region).erase b) }

/-- Each region is given its pages once, apart from those of the others; an allocation asks for
    at least one page; a free gives back a held block of its region. -/
def RegionsState.Permits (s : RegionsState) : RegionsCall → Prop
  | .init region addr pages => s.kmm.region region = {} ∧ addr < u32Size ∧ addr % 4096 = 0 ∧
      InSpace (addr / 4096, pages) ∧
      ∀ r, r ≠ region → Extent.Disjoint (s.kmm.region r).pages (addr / 4096, pages)
  | .alloc _ n => 1 ≤ n ∧ n < u32Size
  | .free region b => b ∈ s.held region

/-- The runs on all regions. -/
def regionsRuns (mem : FlatMemory) : System RegionsState RegionsCall where
  init s := s.kmm = {} ∧ s.held = fun _ => []
  step s l s' := s.Permits l ∧ ∃ fuel, s.call mem fuel l = .ret s'

/-- A call on `region` writes only the first 12 bytes of pages of the region, and nothing of the
    other regions and their descriptors. -/
structure Isolated (region : MemoryRegion) (s s' : RegionsState) : Prop where
  desc : ∀ r, r ≠ region → s'.kmm.region r = s.kmm.region r
  memory : ∀ r, r ≠ region → ∀ x, (s.kmm.region r).pages.Mem (x / 4096) →
    s'.cells x = s.cells x
  headers : SameOutsideHeaders (s'.kmm.region region).pages s.cells s'.cells

/-- Every region is in order, the regions share no page, and held blocks are inside theirs. -/
structure RegionsOk (s : RegionsState) : Prop where
  region : ∀ r, ∃ W, RegionOk (s.kmm.region r).pages W (s.kmm.region r) s.cells
  space : ∀ r, PagesInSpace (s.kmm.region r).pages
  apart : ∀ r r', r ≠ r' →
    Extent.Disjoint (s.kmm.region r).pages (s.kmm.region r').pages
  held : ∀ r, ∀ b ∈ s.held r, 1 ≤ b.2 ∧ (s.kmm.region r).pages.1 ≤ b.1 ∧
    b.1 + b.2 ≤ (s.kmm.region r).pages.1 + (s.kmm.region r).pages.2

section Regions

variable {mem : FlatMemory} {s s' : RegionsState} {region : MemoryRegion}

theorem not_mem_empty (r : Nat) : ¬ ({} : RegionDesc).pages.Mem r := fun h => by
  have h1 := h.1
  have h2 := h.2
  unfold RegionDesc.pages at h1 h2
  dsimp only at h1 h2
  omega

theorem regionsOk_start (h : (regionsRuns mem).init s) : RegionsOk s := by
  obtain ⟨hkmm, hheld⟩ := h
  have hempty : ∀ r, s.kmm.region r = {} := by
    intro r
    rw [hkmm]
    cases r with
    | app => rfl
    | system => rfl
    | base => rfl
  refine ⟨fun r => ⟨∅, fun p hp => hp.elim, fun p hp => ?_⟩, fun r => ⟨fun p hp => ?_, ?_⟩,
    fun r r' _ x hx => ?_, fun r b hb => ?_⟩
  · rw [hempty r] at hp
    cases hp
  · rw [hempty r] at hp
    exact (not_mem_empty p hp).elim
  · rw [hempty r]
    exact Nat.zero_le _
  · rw [hempty r] at hx
    exact (not_mem_empty x hx).elim
  · rw [hheld] at hb
    cases hb

/-- A change of one region that keeps it in order and writes its headers only keeps the others
    as they were. -/
theorem RegionsOk.change (h : RegionsOk s) {desc : RegionDesc} {c : Cells}
    {held : List Extent} (hok : ∃ W, RegionOk desc.pages W desc c)
    (hframe : SameOutsideHeaders desc.pages s.cells c) (hspace : PagesInSpace desc.pages)
    (hapart : ∀ r, r ≠ region → Extent.Disjoint (s.kmm.region r).pages desc.pages)
    (hheld : ∀ b ∈ held, 1 ≤ b.2 ∧ desc.pages.1 ≤ b.1 ∧
      b.1 + b.2 ≤ desc.pages.1 + desc.pages.2)
    (hs' : s' = { kmm := s.kmm.setRegion region desc, cells := c,
                  held := Function.update s.held region held }) :
    RegionsOk s' ∧ Isolated region s s' := by
  subst hs'
  have hself : (s.kmm.setRegion region desc).region region = desc :=
    KMM.region_setRegion _ _ _
  have hother : ∀ r, r ≠ region → (s.kmm.setRegion region desc).region r = s.kmm.region r :=
    fun r hr => KMM.region_setRegion_of_ne _ hr _
  refine ⟨⟨fun r => ?_, fun r => ?_, fun r r' hne => ?_, fun r b hb => ?_⟩,
    hother, fun r hr x hx => ?_, ?_⟩
  · by_cases hr : r = region
    · subst hr
      rw [hself]
      exact hok
    · obtain ⟨W, hW⟩ := h.region r
      dsimp only
      rw [hother r hr]
      exact ⟨W, hW.headers.of_sameOutside hframe (hapart r hr), hW.first⟩
  · by_cases hr : r = region
    · subst hr
      rw [hself]
      exact hspace
    · dsimp only
      rw [hother r hr]
      exact h.space r
  · dsimp only
    by_cases hr : r = region
    · subst hr
      rw [hself, hother r' hne.symm]
      exact fun x hx hx' => hapart r' hne.symm x hx' hx
    · by_cases hr' : r' = region
      · subst hr'
        rw [hself, hother r hr]
        exact hapart r hr
      · rw [hother r hr, hother r' hr']
        exact h.apart r r' hne
  · dsimp only at hb ⊢
    by_cases hr : r = region
    · subst hr
      rw [Function.update_self] at hb
      rw [hself]
      exact hheld b hb
    · rw [Function.update_of_ne hr] at hb
      rw [hother r hr]
      exact h.held r b hb
  · exact hframe x fun hm => hapart r hr _ hx hm.1
  · dsimp only
    rw [hself]
    exact hframe

theorem pages_of_sameRegion {e : Extent} {desc desc' : RegionDesc} {c c' : Cells}
    (h : SameRegion e desc c desc' c') : desc'.pages = desc.pages := by
  unfold RegionDesc.pages
  rw [h.start, h.size]

/-- The same for a call that leaves the region its pages. -/
theorem RegionsOk.stays (h : RegionsOk s) {desc : RegionDesc} {c : Cells} {held : List Extent}
    (hstays : StaysOk (s.kmm.region region).pages (s.kmm.region region) s.cells desc c)
    (hheld : ∀ b ∈ held, 1 ≤ b.2 ∧ (s.kmm.region region).pages.1 ≤ b.1 ∧
      b.1 + b.2 ≤ (s.kmm.region region).pages.1 + (s.kmm.region region).pages.2)
    (hs' : s' = { kmm := s.kmm.setRegion region desc, cells := c,
                  held := Function.update s.held region held }) :
    RegionsOk s' ∧ Isolated region s s' := by
  obtain ⟨hok, hsame⟩ := hstays
  have hpages := pages_of_sameRegion hsame
  refine h.change ?_ ?_ ?_ (fun r hr => ?_) ?_ hs'
  · rw [hpages]
    exact hok
  · rw [hpages]
    exact hsame.frame
  · rw [hpages]
    exact h.space region
  · rw [hpages]
    exact h.apart r region hr
  · rw [hpages]
    exact hheld

/-- **One call.** It does not panic, keeps the regions in order, and keeps to its region. -/
theorem RegionsOk.call (h : RegionsOk s) {l : RegionsCall} (hl : s.Permits l) (fuel : Nat) :
    (s.call mem fuel l).Meets fun s' => RegionsOk s' ∧ Isolated l.region s s' := by
  cases l with
  | init region addr pages =>
    obtain ⟨hfresh, _, haddr, hin, hapart⟩ := hl
    refine (initRegion_meets haddr hin).bind ?_
    rintro ⟨kmm, c⟩ ⟨desc, rfl, hpages, hok, hframe⟩
    have hspace : PagesInSpace desc.pages := by
      rw [hpages]
      exact ⟨fun p hp => Nat.lt_of_lt_of_le hin.page hp.1, hin.fin⟩
    have hheld : ∀ b ∈ s.held region, 1 ≤ b.2 ∧ desc.pages.1 ≤ b.1 ∧
        b.1 + b.2 ≤ desc.pages.1 + desc.pages.2 := by
      intro b hb
      -- a region without pages holds no block
      have hb' := h.held region b hb
      rw [hfresh] at hb'
      unfold RegionDesc.pages at hb'
      dsimp only at hb'
      omega
    refine h.change ⟨_, hok⟩ hframe hspace (by rw [hpages]; exact hapart) hheld ?_
    exact congrArg (RegionsState.mk _ _) (Function.update_eq_self region s.held).symm
  | alloc region n =>
    obtain ⟨W, hW⟩ := h.region region
    refine (allocateLinear_meets (h.space region) hW fuel).bind ?_
    rintro ⟨res, kmm, c⟩ ⟨⟨desc, rfl, hstays⟩, hres⟩
    refine h.stays hstays ?_ rfl
    intro b hb
    cases res with
    | none => exact h.held region b hb
    | some p =>
      rcases List.mem_cons.mp hb with rfl | hb
      · exact ⟨hl.1, hres p rfl⟩
      · exact h.held region b hb
  | free region b =>
    obtain ⟨W, hW⟩ := h.region region
    obtain ⟨hsize, hstart, hfin⟩ := h.held region b hl
    have hm : (s.kmm.region region).pages.Mem b.1 := ⟨hstart, by omega⟩
    refine (free_meets (h.space region) hW hm hfin fuel).bind ?_
    rintro ⟨kmm, c⟩ ⟨desc, rfl, hstays⟩
    refine h.stays hstays ?_ rfl
    exact fun f hf => h.held region f (List.mem_of_mem_erase hf)

end Regions

/-- **Regions are isolated.** In every state of a run, a call on a region does not panic, writes
    only headers of pages of the region, and leaves the other regions alone; and a block
    handed out lies inside its region. -/
theorem regionsIsolated (mem : FlatMemory) {tr : List (RegionsState × RegionsCall)}
    {s : RegionsState} (h : Run (regionsRuns mem) tr s) {l : RegionsCall} (hl : s.Permits l)
    (fuel : Nat) :
    (∀ e, s.call mem fuel l ≠ .panic e) ∧
      (∀ s', s.call mem fuel l = .ret s' → Isolated l.region s s') ∧
      ∀ region n p kmm c, l = .alloc region n →
        allocateLinear mem fuel s.kmm region n s.cells = .ret (some p, kmm, c) →
        (s.kmm.region region).start / 4096 ≤ p ∧
          p + n ≤ (s.kmm.region region).start / 4096 + (s.kmm.region region).size := by
  have hok : RegionsOk s := h.invariant (fun s hs => regionsOk_start hs) fun s l s' hi hstep => by
    obtain ⟨hperm, fuel, hcall⟩ := hstep
    exact ((Outcome.meets_iff.mp (hi.call hperm fuel)).2 s' hcall).1
  obtain ⟨hpanic, hret⟩ := Outcome.meets_iff.mp (hok.call hl fuel)
  refine ⟨hpanic, fun s' hs' => (hret s' hs').2, ?_⟩
  intro region n p kmm c _ hcall
  obtain ⟨W, hW⟩ := hok.region region
  have hmeets : (allocateLinear mem fuel s.kmm region n s.cells).Meets _ :=
    allocateLinear_meets (hok.space region) hW fuel
  exact ((Outcome.meets_iff.mp hmeets).2 _ hcall).2 p rfl

/-- No region has pages yet. -/
def noRegions : RegionsState := { kmm := {}, cells := fun _ => 0, held := fun _ => [] }

/-- Two neighbouring regions are given four pages each, and each hands out two. -/
theorem handsOutTwo : ∃ s tr, Run (regionsRuns ⟨16⟩) tr s ∧ s.held .app = [(1, 2)] ∧
    s.held .system = [(5, 2)] := by
  have hstart : Run (regionsRuns ⟨16⟩) [] noRegions := .start ⟨rfl, rfl⟩
  have hspace : InSpace (0x1000 / 4096, 4) := ⟨by decide, by decide, by decide⟩
  have hspace' : InSpace (0x5000 / 4096, 4) := ⟨by decide, by decide, by decide⟩
  have happ : noRegions.Permits (.init .app 0x1000 4) := by
    refine ⟨rfl, by decide, by decide, hspace, fun r _ x hx => ?_⟩
    cases r with
    | app => exact (not_mem_empty x hx).elim
    | system => exact (not_mem_empty x hx).elim
    | base => exact (not_mem_empty x hx).elim
  have hinit := hstart.next ⟨happ, 0, rfl⟩
  have hinit' := hinit.next (l := RegionsCall.init .system 0x5000 4)
    ⟨⟨rfl, by decide, by decide, hspace', fun r _ x hx hx' => by
      cases r with
      | app =>
        obtain ⟨_, h2⟩ : Extent.Mem (1, 4) x := hx
        obtain ⟨h3, _⟩ : Extent.Mem (5, 4) x := hx'
        dsimp only at h2 h3
        omega
      | system => exact (not_mem_empty x hx).elim
      | base => exact (not_mem_empty x hx).elim⟩, 0, rfl⟩
  have halloc := hinit'.next (l := RegionsCall.alloc .app 2) ⟨⟨by decide, by decide⟩, 5, rfl⟩
  have halloc' := halloc.next (l := RegionsCall.alloc .system 2) ⟨⟨by decide, by decide⟩, 5, rfl⟩
  exact ⟨_, _, halloc', rfl, rfl⟩

theorem regionsIsolated_two : ∃ s tr, Run (regionsRuns ⟨16⟩) tr s ∧ s.held .app = [(1, 2)] ∧
    s.held .system = [(5, 2)] ∧ (∀ e, s.call ⟨16⟩ 5 (.free .system (5, 2)) ≠ .panic e) ∧
    ∀ s', s.call ⟨16⟩ 5 (.free .system (5, 2)) = .ret s' → Isolated .system s s' := by
  obtain ⟨s, tr, hrun, happ, hsystem⟩ := handsOutTwo
  have hmem : s.Permits (.free .system (5, 2)) := by
    show (5, 2) ∈ s.held .system
    rw [hsystem]
    exact List.mem_singleton.mpr rfl
  obtain ⟨hpanic, hisolated, _⟩ := regionsIsolated ⟨16⟩ hrun hmem 5
  exact ⟨s, tr, hrun, happ, hsystem, hpanic, hisolated⟩

end Pomelo
