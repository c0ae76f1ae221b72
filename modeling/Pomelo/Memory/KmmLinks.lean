/-
  KMM over a flat byte store: when the free list stays doubly linked.

  `PrevLinks c a bs`: the previous link of each block of `bs` leads to the block before it, and
  that of the first one to `a`. `allocate_linear` rewrites no neighbour of the block it serves.
  So it keeps the list linked both ways in some cases only, and `allocate_keepsLinks_iff` says
  in which.
-/
import Pomelo.Memory.KmmRun

namespace Pomelo

open Lib MemoryBlockHeaderPtr

/-- The previous link of page `p`, decoded. -/
def prevLink (c : Cells) (p : Nat) : Option (Option Nat) := fromUnsafeData (headerAt c p).prev

/-- Each block of the list leads back to the one before it, the first one to `a`. -/
def PrevLinks (c : Cells) : Option Nat → List Extent → Prop
  | _, [] => True
  | a, b :: bs => prevLink c b.1 = some a ∧ PrevLinks c (some b.1) bs

/-- The list from `region.first` leads back block by block, and `region.last` is its end. -/
def LinkedBothWays (c : Cells) (region : RegionDesc) : Prop :=
  ∃ bs, Seg (linkNode c) region.first bs none ∧ PrevLinks c none bs ∧ region.last = lastPtr bs

theorem PrevLinks.congr {c c' : Cells} {a : Option Nat} {bs : List Extent}
    (h : PrevLinks c a bs) (hb : ∀ b ∈ bs, prevLink c' b.1 = prevLink c b.1) :
    PrevLinks c' a bs := by
  induction bs generalizing a with
  | nil => trivial
  | cons b bs ih =>
    obtain ⟨h1, h2⟩ := h
    exact ⟨by rw [hb b (by simp)]; exact h1, ih h2 fun x hx => hb x (by simp [hx])⟩

theorem lastPtr_cons (b : Extent) (bs : List Extent) :
    lastPtr (b :: bs) = (lastPtr bs).or (some b.1) := by
  unfold lastPtr
  rw [List.getLast?_cons]
  cases bs.getLast? with
  | none => rfl
  | some z => rfl

theorem prevLinks_append {c : Cells} {a : Option Nat} {xs ys : List Extent} :
    PrevLinks c a (xs ++ ys) ↔ PrevLinks c a xs ∧ PrevLinks c ((lastPtr xs).or a) ys := by
  induction xs generalizing a with
  | nil => simp [PrevLinks, lastPtr]
  | cons x xs ih =>
    rw [List.cons_append, PrevLinks, PrevLinks, ih, lastPtr_cons, Option.or_assoc,
      Option.some_or, and_assoc]

/-! ## Previous links and writes -/

theorem prevLink_setHeader_of_ne (c : Cells) {p x : Nat} (h : x ≠ p) (hd : MemoryBlockHeader) :
    prevLink (setHeader c p hd) x = prevLink c x := by
  rw [prevLink, headerAt_setHeader_of_ne c h, prevLink]

theorem prevLink_setHeader_self (c : Cells) (p : Nat) {hd : MemoryBlockHeader} (h : hd.Fits)
    {q : Option Nat} (hq : fromUnsafeData hd.prev = some q) :
    prevLink (setHeader c p hd) p = some q := by
  rw [prevLink, headerAt_setHeader_self c p h]
  exact hq

/-- A write that keeps the previous link of a block keeps all previous links. -/
theorem prevLink_setHeader_same (c : Cells) {p : Nat} {hd : MemoryBlockHeader} (h : hd.Fits)
    (hp : hd.prev = (headerAt c p).prev) (x : Nat) :
    prevLink (setHeader c p hd) x = prevLink c x := by
  by_cases hx : x = p
  · rw [hx, prevLink, headerAt_setHeader_self c p h, hp, prevLink]
  · exact prevLink_setHeader_of_ne c hx hd

theorem prevLink_linkedPrev_self (c : Cells) {p : Nat} (hp : ValidPtr (some p)) (y : Extent)
    (ys : List Extent) : prevLink (linkedPrev c p (y :: ys)) y.1 = some (some p) := by
  have hfits : MemoryBlockHeader.Fits { headerAt c y.1 with prev := intoUnsafe (some p) } :=
    ⟨(headerAt_fits c y.1).size, (headerAt_fits c y.1).next, intoUnsafe_lt hp⟩
  unfold linkedPrev
  exact prevLink_setHeader_self c y.1 hfits (fromUnsafeData_intoUnsafe hp)

theorem prevLink_linkedPrev_of_ne (c : Cells) {p x : Nat} {ys : List Extent}
    (h : ∀ y ∈ ys, x ≠ y.1) : prevLink (linkedPrev c p ys) x = prevLink c x := by
  cases ys with
  | nil => rfl
  | cons y ys => exact prevLink_setHeader_of_ne c (h y (by simp)) _

/-- Leading the first block of a list back to `p` leaves the links inside the list. -/
theorem PrevLinks.ledBack {c : Cells} {p : Nat} {a : Option Nat} {ys : List Extent}
    (hp : ValidPtr (some p)) (h : PrevLinks c a ys) (hasc : Ascending ys) :
    PrevLinks (linkedPrev c p ys) (some p) ys := by
  cases ys with
  | nil => trivial
  | cons y ys =>
    refine ⟨prevLink_linkedPrev_self c hp y ys, h.2.congr fun b hb => ?_⟩
    have hne := (ascending_cons.mp hasc).1 b hb
    exact prevLink_setHeader_of_ne c (by omega) _

/-! ## `allocate_linear` -/

section Allocate

variable {mem : FlatMemory} {kmm : KMM} {r : MemoryRegion} {n : Nat} {c : Cells}

theorem lastPtr_of_mem {bs : List Extent} {p : Nat} (h : lastPtr bs = some p) :
    ∃ b ∈ bs, b.1 = p := by
  unfold lastPtr at h
  obtain ⟨b, hb, rfl⟩ := Option.map_eq_some_iff.mp h
  exact ⟨b, List.mem_of_getLast? hb, rfl⟩

/-- What a split writes lies behind the start of the block served, and leaves the others. -/
theorem prevLink_splitCells (c : Cells) (b : Extent) (n : Nat) {x : Nat} (h : x ≠ b.1 + n) :
    prevLink (splitCells c b n) x = prevLink c x := by
  unfold splitCells
  split
  · exact prevLink_setHeader_of_ne c h _
  · rfl

/-- The first block that is large enough is found at one place. -/
theorem first_fit_unique {xs xs' ys ys' : List Extent} {b b' : Extent}
    (heq : xs ++ b :: ys = xs' ++ b' :: ys') (hxs : ∀ x ∈ xs, x.2 < n) (hb : n ≤ b.2)
    (hxs' : ∀ x ∈ xs', x.2 < n) (hb' : n ≤ b'.2) : xs = xs' ∧ b :: ys = b' :: ys' := by
  induction xs generalizing xs' with
  | nil =>
    cases xs' with
    | nil => exact ⟨rfl, heq⟩
    | cons x xs' =>
      injection heq with h1 _
      have := hxs' x (by simp)
      rw [← h1] at this
      omega
  | cons x xs ih =>
    cases xs' with
    | nil =>
      injection heq with h1 _
      have := hxs x (by simp)
      rw [h1] at this
      omega
    | cons x' xs' =>
      injection heq with h1 h2
      obtain ⟨h3, h4⟩ := ih h2 (fun z hz => hxs z (by simp [hz])) fun z hz => hxs' z (by simp [hz])
      exact ⟨by rw [h1, h3], h4⟩

/-- The calls of `allocate_linear(n)` that keep the list linked both ways. -/
def AllocateKeepsLinks (bs : List Extent) (n : Nat) : Prop :=
  ∀ xs b ys, bs = xs ++ b :: ys → (∀ x ∈ xs, x.2 < n) → n ≤ b.2 → (xs = [] ↔ ys = [])

/-- The only block of the list is taken: what is left is linked both ways. -/
theorem linkedBothWays_take_only {b : Extent} (h : FreeList c (kmm.region r).first [b])
    (hprev : PrevLinks c none [b]) (hlast : (kmm.region r).last = lastPtr [b]) :
    LinkedBothWays (splitCells c b n) ((kmm.region r).replace b.1 (headPtr (remainder b n))) := by
  obtain ⟨hfirst, q, hq, hnull⟩ := h.links
  rw [seg_nil] at hnull
  subst hnull
  obtain ⟨hsize, hnext⟩ := linkNode_eq_some.mp hq
  have hl : (kmm.region r).last = some b.1 := hlast
  have hreplace : (kmm.region r).replace b.1 (headPtr (remainder b n)) =
      { (kmm.region r) with first := headPtr (remainder b n), last := headPtr (remainder b n) } := by
    unfold RegionDesc.replace
    rw [if_pos hfirst, if_pos hl]
  rw [hreplace]
  refine ⟨remainder b n, ?_, ?_, ?_⟩
  · unfold remainder splitCells
    split
    · have hfits : MemoryBlockHeader.Fits { headerAt c b.1 with size := b.2 - n } := by
        refine ⟨?_, (headerAt_fits c b.1).next, (headerAt_fits c b.1).prev⟩
        have h1 := (headerAt_fits c b.1).size
        show b.2 - n < u32Size
        omega
      exact ⟨rfl, none, linkNode_setHeader_self c _ hfits hnext, rfl⟩
    · rfl
  · unfold remainder splitCells
    split
    · have hfits : MemoryBlockHeader.Fits { headerAt c b.1 with size := b.2 - n } := by
        refine ⟨?_, (headerAt_fits c b.1).next, (headerAt_fits c b.1).prev⟩
        have h1 := (headerAt_fits c b.1).size
        show b.2 - n < u32Size
        omega
      exact ⟨prevLink_setHeader_self c _ hfits hprev.1, trivial⟩
    · trivial
  · unfold remainder
    split
    · rfl
    · rfl

/-- The first of several blocks is taken: the second leads back to where it was, or the region
    has a last block and no first one. -/
theorem not_linkedBothWays_take_first {b y : Extent} {ys : List Extent}
    (h : FreeList c (kmm.region r).first (b :: y :: ys)) (hprev : PrevLinks c none (b :: y :: ys))
    (hlast : (kmm.region r).last = lastPtr (b :: y :: ys)) (hn : 1 ≤ n) :
    ¬ LinkedBothWays (splitCells c b n)
      ((kmm.region r).replace b.1 (headPtr (remainder b n))) := by
  rintro ⟨bs', hseg, hprev', hlast'⟩
  obtain ⟨hfirst, q, hq, hs⟩ := h.links
  obtain ⟨hsize, hnext⟩ := linkNode_eq_some.mp hq
  have hasc := ascending_cons.mp h.ascending
  have hby : b.1 + b.2 < y.1 := hasc.1 y (by simp)
  have hf : ((kmm.region r).replace b.1 (headPtr (remainder b n))).first =
      headPtr (remainder b n) := if_pos hfirst
  rw [hf] at hseg
  unfold remainder splitCells at hseg
  by_cases hlt : n < b.2
  · simp only [if_pos hlt, headPtr, List.head?_cons, Option.map_some] at hseg
    have hfits : MemoryBlockHeader.Fits { headerAt c b.1 with size := b.2 - n } := by
      refine ⟨?_, (headerAt_fits c b.1).next, (headerAt_fits c b.1).prev⟩
      have h1 := (headerAt_fits c b.1).size
      show b.2 - n < u32Size
      omega
    have hne : ∀ x ∈ y :: ys, x.1 ≠ b.1 + n := by
      intro x hx
      have := hasc.1 x hx
      omega
    have hseg2 : Seg (linkNode (setHeader c (b.1 + n) { headerAt c b.1 with size := b.2 - n }))
        (some (b.1 + n)) ((b.1 + n, b.2 - n) :: y :: ys) none :=
      ⟨rfl, q, linkNode_setHeader_self c _ hfits hnext,
        hs.congr fun x hx => linkNode_setHeader_of_ne c (hne x hx) _⟩
    have heq := hseg.unique hseg2
    subst heq
    have hy : prevLink (splitCells c b n) y.1 = some (some (b.1 + n)) := hprev'.2.1
    rw [prevLink_splitCells c b n (hne y (by simp)), hprev.2.1] at hy
    injection hy with hy
    injection hy with hy
    omega
  · simp only [if_neg hlt, headPtr, List.head?_nil, Option.map_none] at hseg
    have hnil : bs' = [] := hseg.unique rfl
    subst hnil
    have hl : ((kmm.region r).replace b.1 (headPtr (remainder b n))).last =
        (kmm.region r).last := by
      refine if_neg ?_
      rw [hlast, lastPtr_cons, lastPtr_cons]
      intro heq
      obtain ⟨z, hz, hzb⟩ : ∃ z ∈ y :: ys, z.1 = b.1 := by
        rw [← lastPtr_cons] at heq
        refine lastPtr_of_mem ?_
        rw [lastPtr_cons] at heq ⊢
        rw [Option.or_assoc, Option.some_or] at heq
        exact heq
      have h1 := hasc.1 z hz
      omega
    rw [hl, hlast, lastPtr_cons] at hlast'
    have hsome : (lastPtr (y :: ys)).or (some b.1) ≠ none := by
      rw [lastPtr_cons, Option.or_assoc, Option.some_or]
      cases lastPtr ys <;> simp
    exact hsome hlast'

/-- A block behind the first one is taken: the list from the first block stays what it was. -/
theorem linkedBothWays_take_behind_iff {a b : Extent} {xs ys : List Extent}
    (h : FreeList c (kmm.region r).first (a :: xs ++ b :: ys))
    (hprev : PrevLinks c none (a :: xs ++ b :: ys))
    (hlast : (kmm.region r).last = lastPtr (a :: xs ++ b :: ys)) (hn : 1 ≤ n) (hb : n ≤ b.2) :
    LinkedBothWays (splitCells c b n)
      ((kmm.region r).replace b.1 (headPtr (remainder b n))) ↔ ys ≠ [] := by
  have hfirst : (kmm.region r).first = some a.1 := h.links.1
  have happ := List.pairwise_append.mp h.ascending
  have hab : a.1 + a.2 < b.1 := happ.2.2 a (by simp) b (by simp)
  have hf : ((kmm.region r).replace b.1 (headPtr (remainder b n))).first =
      (kmm.region r).first := by
    refine if_neg ?_
    rw [hfirst]
    intro heq
    injection heq with heq
    omega
  -- the page that a split writes is not the start of a block of the list
  have hne : ∀ x ∈ a :: xs ++ b :: ys, x.1 ≠ b.1 + n := by
    intro x hx heq
    rcases List.mem_append.mp hx with hx | hx
    · have := happ.2.2 x hx b (by simp)
      omega
    · rcases List.mem_cons.mp hx with rfl | hx
      · omega
      · have := (ascending_cons.mp happ.2.1).1 x hx
        omega
  have hseg : Seg (linkNode (splitCells c b n)) (kmm.region r).first (a :: xs ++ b :: ys) none :=
    h.links.congr fun x hx => linkNode_splitCells c b n (hne x hx)
  have hprev' : PrevLinks (splitCells c b n) none (a :: xs ++ b :: ys) :=
    hprev.congr fun x hx => prevLink_splitCells c b n (hne x hx)
  constructor
  · rintro ⟨bs', hseg', _, hlast'⟩ rfl
    rw [hf] at hseg'
    have heq := hseg'.unique hseg
    subst heq
    have hlb : lastPtr (a :: xs ++ [b]) = some b.1 := lastPtr_append _ _
    have hl : ((kmm.region r).replace b.1 (headPtr (remainder b n))).last =
        headPtr (remainder b n) := if_pos (hlast.trans hlb)
    rw [hl, hlb] at hlast'
    unfold remainder at hlast'
    split at hlast'
    · have heq : b.1 + n = b.1 := Option.some.inj hlast'
      omega
    · cases hlast'
  · intro hys
    refine ⟨a :: xs ++ b :: ys, by rw [hf]; exact hseg, hprev', ?_⟩
    rw [← hlast]
    refine if_neg ?_
    rw [hlast, lastPtr_append_cons, lastPtr_cons]
    intro heq
    obtain ⟨z, hz, hzb⟩ : ∃ z ∈ ys, z.1 = b.1 := by
      refine lastPtr_of_mem ?_
      cases hl : lastPtr ys with
      | none =>
        cases ys with
        | nil => exact absurd rfl hys
        | cons y ys =>
          rw [lastPtr_cons] at hl
          cases hl2 : lastPtr ys <;> rw [hl2] at hl <;> cases hl
      | some z =>
        rw [hl] at heq
        exact heq
    have h1 := (ascending_cons.mp happ.2.1).1 z hz
    omega

/-- `allocate_linear(n)` returns and leaves the list linked both ways. -/
def AllocateLinks (mem : FlatMemory) (kmm : KMM) (r : MemoryRegion) (c : Cells) (n : Nat) : Prop :=
  ∃ res kmm' c',
    Outcome.Settles (fun fuel => allocateLinear mem fuel kmm r n c) (res, kmm', c') ∧
      LinkedBothWays c' (kmm'.region r)

theorem allocateLinks_iff_of_settles {mem : FlatMemory} {kmm' : KMM} {c' : Cells}
    {res : Option Nat}
    (h : Outcome.Settles (fun fuel => allocateLinear mem fuel kmm r n c) (res, kmm', c')) :
    AllocateLinks mem kmm r c n ↔ LinkedBothWays c' (kmm'.region r) := by
  constructor
  · rintro ⟨res1, kmm1, c1, h1, hl⟩
    have heq := h.unique h1
    simp only [Prod.mk.injEq] at heq
    obtain ⟨_, rfl, rfl⟩ := heq
    exact hl
  · intro hl
    exact ⟨res, kmm', c', h, hl⟩

theorem allocate_keepsLinks_iff (mem : FlatMemory) {bs : List Extent}
    (h : FreeList c (kmm.region r).first bs) (hprev : PrevLinks c none bs)
    (hlast : (kmm.region r).last = lastPtr bs) (hn : 1 ≤ n) :
    AllocateLinks mem kmm r c n ↔ AllocateKeepsLinks bs n := by
  by_cases hsmall : ∀ b ∈ bs, b.2 < n
  · rw [allocateLinks_iff_of_settles (settles_of_small mem h hsmall)]
    constructor
    · intro _ xs b ys hbs _ hb
      have := hsmall b (by rw [hbs]; simp)
      omega
    · intro _
      exact ⟨bs, h.links, hprev, hlast⟩
  · obtain ⟨xs, b, ys, rfl, hxs, hb⟩ := exists_first_fit hsmall
    rw [allocateLinks_iff_of_settles (settles_of_fit mem h hxs hb), KMM.region_setRegion]
    -- the block served is the first one that is large enough
    have hcond : AllocateKeepsLinks (xs ++ b :: ys) n ↔ (xs = [] ↔ ys = []) := by
      constructor
      · intro hk
        exact hk xs b ys rfl hxs hb
      · intro hk xs' b' ys' heq hxs' hb'
        obtain ⟨rfl, h2⟩ := first_fit_unique heq hxs hb hxs' hb'
        injection h2 with _ h2
        rw [← h2]
        exact hk
    rw [hcond]
    cases xs with
    | nil =>
      cases ys with
      | nil =>
        have hkeep : LinkedBothWays (splitCells c b n)
            ((kmm.region r).replace b.1 (headPtr (remainder b n))) :=
          linkedBothWays_take_only h hprev hlast
        simp [hkeep]
      | cons y ys =>
        have hlose := not_linkedBothWays_take_first h hprev hlast hn
        simp [hlose]
    | cons a xs =>
      rw [linkedBothWays_take_behind_iff h hprev hlast hn hb]
      simp

end Allocate

end Pomelo
