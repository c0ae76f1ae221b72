/-
  KMM: what a holder can do to the allocator.

  The free list lives in the free pages, so a holder that writes into its own pages does not
  reach it, as long as no held page is on the list. Here two runs make the same calls while the
  holders write different bytes into the pages held at that moment (`twinRuns`). When every
  allocation is served by the first block of the list or by none, and no region is given pages
  that are in use, both runs have the same free blocks (`Twin.step`), every call returns in
  both (`Twin.bothReturn`), and it answers the same. A block served further down stays linked
  while it is held, and what its holder writes over its header decides the next allocation
  (`noInfluence_fails`).
-/
import Pomelo.Memory.KmmRelink
import Pomelo.Memory.KmmCoverage
import Mathlib.Logic.Function.Basic

namespace Pomelo

open Lib MemoryBlockHeaderPtr

/-! ## `free` depends on the free list alone -/

section Free

variable {mem : FlatMemory} {kmm : KMM} {r : MemoryRegion} {p n : Nat} {bs : List Extent}

/-- What `free` does to the region is the same over all cells with this free list. -/
theorem free_desc (mem : FlatMemory) (kmm : KMM) (r : MemoryRegion) (hasc : Ascending bs)
    (hin : ∀ b ∈ bs, InSpace b) (hp : InSpace (p, n)) (hap : ∀ b ∈ bs, Extent.Apart (p, n) b) :
    ∃ desc, ∀ c, FreeList c (kmm.region r).first bs →
      ∃ c', free mem (bs.length + 1) kmm r (p <<< 12) n c = .ret (kmm.setRegion r desc, c') := by
  have hn : n < u32Size := by
    have hfin := hp.fin
    unfold pageCount at hfin
    unfold u32Size
    dsimp only at hfin
    omega
  obtain ⟨xs, ys, rfl, hx, hy⟩ := hasc.split p
  rcases List.eq_nil_or_concat xs with rfl | ⟨xs, b, rfl⟩
  · refine ⟨mergedDesc (frontDesc (kmm.region r) p) p n ys, fun c h => ?_⟩
    obtain ⟨c1, _, _, hfree⟩ := free_front_eq mem h hp hn hap hy
    exact ⟨_, hfree⟩
  · rw [List.concat_eq_append] at *
    have hsplit : xs ++ [b] ++ ys = xs ++ b :: ys := by simp
    rw [hsplit] at hin hap ⊢
    have hb : b.1 < p := by
      have h1 := hx b (by simp)
      have h2 := (hin b (by simp)).size
      have h3 := hp.size
      have h4 := hap b (by simp)
      unfold Extent.Apart at h4
      dsimp only at h3 h4
      omega
    refine ⟨mergedDesc (mergedDesc (behindDesc (kmm.region r) p ys) p n ys) b.1 b.2
      (joinRight (p, n) ys), fun c h => ?_⟩
    obtain ⟨c1, _, _, hfree⟩ := free_behind_eq mem h hp hn hap hb hy
    exact ⟨_, hfree⟩

/-- Two frees of one block, over cells with one free list, leave the same descriptors. -/
theorem free_same {c c' c1 c2 : Cells} {fuel fuel' : Nat} {kmm1 kmm2 : KMM}
    (h : FreeList c (kmm.region r).first bs) (h' : FreeList c' (kmm.region r).first bs)
    (hp : InSpace (p, n)) (hap : ∀ b ∈ bs, Extent.Apart (p, n) b)
    (hfree : free mem fuel kmm r (p <<< 12) n c = .ret (kmm1, c1))
    (hfree' : free mem fuel' kmm r (p <<< 12) n c' = .ret (kmm2, c2)) : kmm1 = kmm2 := by
  obtain ⟨desc, hdesc⟩ := free_desc mem kmm r h.ascending h.inSpace hp hap
  have hsame : ∀ {c c1 : Cells} {fuel : Nat} {kmm1 : KMM},
      FreeList c (kmm.region r).first bs →
      free mem fuel kmm r (p <<< 12) n c = .ret (kmm1, c1) → kmm1 = kmm.setRegion r desc := by
    intro c c1 fuel kmm1 h hfree
    obtain ⟨c2, hfree2⟩ := hdesc c h
    have h1 := free_mono mem hfree (Nat.le_max_left fuel (bs.length + 1))
    have h2 := free_mono mem hfree2 (Nat.le_max_right fuel (bs.length + 1))
    rw [h1] at h2
    injection h2 with h2
    exact (Prod.mk.inj h2).1
  rw [hsame h hfree, hsame h' hfree']

end Free

/-! ## All regions at once -/

/-- Every region owns its free list, and no two lists share a page. -/
structure AllOwned (s : KmmState) (bs : MemoryRegion → List Extent) : Prop where
  owned : ∀ r, Owned r s (bs r)
  apart : ∀ r r', r ≠ r' → ∀ x, Covered (bs r) x → ¬ Covered (bs r') x

section AllOwned

variable {mem : FlatMemory} {s s' : KmmState} {bs : MemoryRegion → List Extent}
  {region : MemoryRegion}

theorem covered_start {es : List Extent} {e : Extent} (he : e ∈ es) (hsize : 0 < e.2) :
    Covered es e.1 :=
  ⟨e, he, Nat.le_refl _, Nat.lt_add_of_pos_right hsize⟩

/-- A change of one region inside the pages `Z`, which no other list touches, keeps the
    others. -/
theorem AllOwned.change (h : AllOwned s bs) {bs' : List Extent} (ks : List Nat) (Z : Nat → Prop)
    (hown : Owned region s' bs') (hkmm : ∀ r, r ≠ region → s'.kmm.region r = s.kmm.region r)
    (hframe : SameOutside ks s.cells s'.cells) (hks : ∀ k ∈ ks, Z k)
    (hZ : ∀ r, r ≠ region → ∀ x, Covered (bs r) x → ¬ Z x) (hbs' : ∀ x, Covered bs' x → Z x)
    (hheld : ∀ b ∈ s'.held, b ∈ s.held ∨ ∀ x, b.Mem x → Z x) :
    AllOwned s' (Function.update bs region bs') := by
  refine ⟨fun r => ?_, fun r r' hne x hx hx' => ?_⟩
  · by_cases hr : r = region
    · subst hr
      rw [Function.update_self]
      exact hown
    · rw [Function.update_of_ne hr]
      have hr' := h.owned r
      refine ⟨⟨?_, hr'.list.ascending, hr'.list.inSpace⟩, hown.inSpace, hown.heldApart, ?_⟩
      · rw [hkmm r hr]
        refine hr'.list.links.congr fun b hb => hframe.linkNode fun hk => ?_
        exact hZ r hr _ (covered_start hb (hr'.list.inSpace b hb).size) (hks _ hk)
      · intro e he b hb
        rcases hheld e he with he' | he'
        · exact hr'.apart e he' b hb
        · refine Extent.Disjoint.apart (fun x hxe hxb => ?_) (hown.inSpace e he).size
            (hr'.list.inSpace b hb).size
          exact hZ r hr x ⟨b, hb, hxb⟩ (he' x hxe)
  · by_cases hr : r = region
    · subst hr
      rw [Function.update_self] at hx
      rw [Function.update_of_ne hne.symm] at hx'
      exact hZ r' hne.symm x hx' (hbs' x hx)
    · rw [Function.update_of_ne hr] at hx
      by_cases hr' : r' = region
      · subst hr'
        rw [Function.update_self] at hx'
        exact hZ r hr x hx (hbs' x hx')
      · rw [Function.update_of_ne hr'] at hx'
        exact h.apart r r' hne x hx hx'

/-- The pages that are held or on the list of the region. -/
def InUse (s : KmmState) (bs : List Extent) (x : Nat) : Prop := Covered bs x ∨ Covered s.held x

theorem AllOwned.not_inUse (h : AllOwned s bs) {r : MemoryRegion} (hr : r ≠ region) {x : Nat}
    (hx : Covered (bs r) x) : ¬ InUse s (bs region) x := by
  rintro (hx' | ⟨e, he, hex⟩)
  · exact h.apart r region hr x hx hx'
  · obtain ⟨b, hb, hbx⟩ := hx
    exact ((h.owned r).apart e he b hb).not_mem hex hbx

end AllOwned

/-! ## Calls and holders -/

/-- A call on the allocator, or the holders writing into their pages. -/
inductive AllocatorCall where
  | init (region : MemoryRegion) (addr pages : Nat)
  | alloc (region : MemoryRegion) (pages : Nat)
  | free (region : MemoryRegion) (block : Extent)
  | holders
deriving DecidableEq, Repr

/-- The call takes `s` to `s'` and returns `res` (`none` if it returns nothing). The holders
    change nothing outside the pages held at that moment. -/
def AllocatorStep (mem : FlatMemory) (s : KmmState) (l : AllocatorCall) (res : Option Nat)
    (s' : KmmState) : Prop :=
  match l with
  | .init region addr pages => addr < u32Size ∧ pages < u32Size ∧ res = none ∧
      ∃ kmm c, initRegion mem s.kmm region addr pages s.cells = .ret (kmm, c) ∧
        s' = { s with kmm := kmm, cells := c }
  | .alloc region n => 1 ≤ n ∧ n < u32Size ∧
      ∃ fuel kmm c, allocateLinear mem fuel s.kmm region n s.cells = .ret (res, kmm, c) ∧
        s' = { s with kmm := kmm, cells := c, held := heldAfter s.held n res }
  | .free region b => b ∈ s.held ∧ res = none ∧
      ∃ fuel kmm c, free mem fuel s.kmm region (b.1 <<< 12) b.2 s.cells = .ret (kmm, c) ∧
        s' = { s with kmm := kmm, cells := c, held := s.held.erase b }
  | .holders => res = none ∧ ∃ c, (∀ x, ¬ Covered s.held (x / 4096) → c x = s.cells x) ∧
      s' = { s with cells := c }

section Side

variable {mem : FlatMemory} {s s' : KmmState} {bs : MemoryRegion → List Extent}
  {region : MemoryRegion} {n : Nat} {res : Option Nat}

theorem AllocatorStep.alloc_none (hown : Owned region s (bs region))
    (hs : ∀ b ∈ bs region, b.2 < n) (h : AllocatorStep mem s (.alloc region n) res s') :
    res = none ∧ s' = s := by
  obtain ⟨_, _, fuel, kmm, c, hcall, rfl⟩ := h
  have hres := alloc_result hcall fun f hf => allocateLinear_of_small mem hown.list hs hf
  simp only [Prod.mk.injEq] at hres
  obtain ⟨rfl, rfl, rfl⟩ := hres
  exact ⟨rfl, rfl⟩

theorem AllocatorStep.alloc_first {a : Extent} {as : List Extent}
    (hown : Owned region s (a :: as)) (ha : n ≤ a.2)
    (h : AllocatorStep mem s (.alloc region n) res s') :
    res = some a.1 ∧ s' = { s with
      kmm := s.kmm.setRegion region
        ((s.kmm.region region).replace a.1 (headPtr (remainder a n)))
      cells := splitCells s.cells a n
      held := (a.1, n) :: s.held } := by
  obtain ⟨_, _, fuel, kmm, c, hcall, rfl⟩ := h
  have hlist : FreeList s.cells (s.kmm.region region).first ([] ++ a :: as) := hown.list
  have hres := alloc_result hcall fun f hf => allocateLinear_of_fit mem hlist (by simp) ha hf
  simp only [Prod.mk.injEq] at hres
  obtain ⟨rfl, rfl, rfl⟩ := hres
  exact ⟨rfl, rfl⟩

theorem sameOutside_splitCells (c : Cells) (b : Extent) (n : Nat) :
    SameOutside ((remainder b n).map Prod.fst) c (splitCells c b n) := by
  unfold remainder splitCells
  split
  · exact sameOutside_setHeader (by simp) c _
  · exact SameOutside.refl _ c

/-- An allocation served by the first block of the list. -/
theorem AllOwned.alloc_first (h : AllOwned s bs) {a : Extent} {as : List Extent}
    (hbs : bs region = a :: as) (ha : n ≤ a.2)
    (hstep : AllocatorStep mem s (.alloc region n) res s') :
    AllOwned s' (Function.update bs region (afterFirst a n as)) := by
  have hown : Owned region s (a :: as) := hbs ▸ h.owned region
  obtain ⟨hn, hlt, fuel, kmm, c, hcall, hs'⟩ := hstep
  have hrun : (regionRuns mem region).step s (.alloc n) s' :=
    ⟨hn, hlt, fuel, res, by rw [hs']; exact hcall, by rw [hs'], by rw [hs']⟩
  obtain ⟨_, heq⟩ := AllocatorStep.alloc_first hown ha ⟨hn, hlt, fuel, kmm, c, hcall, hs'⟩
  have hfirst : ∀ x, a.Mem x → InUse s (bs region) x := fun x hx => by
    rw [hbs]
    exact Or.inl ⟨a, by simp, hx⟩
  refine h.change ((remainder a n).map Prod.fst) (InUse s (bs region))
    (hown.alloc_first ha hrun) (fun r hr => ?_) ?_ ?_ (fun r hr x hx => h.not_inUse hr hx)
    (fun x hx => ?_) (fun b hb => ?_)
  · rw [heq]
    exact KMM.region_setRegion_of_ne _ hr _
  · rw [heq]
    exact sameOutside_splitCells s.cells a n
  · intro k hk
    unfold remainder at hk
    split at hk
    · rename_i hlt
      simp only [List.map_cons, List.map_nil, List.mem_singleton] at hk
      exact hfirst k ⟨by omega, by omega⟩
    · simp at hk
  · obtain ⟨g, hg, hgx⟩ := hx
    unfold afterFirst at hg
    split at hg
    · rename_i hlt
      rcases List.mem_cons.mp hg with rfl | hg
      · obtain ⟨h1, h2⟩ := hgx
        exact hfirst x ⟨by dsimp only at h1; omega, by dsimp only at h1 h2; omega⟩
      · rw [hbs]
        exact Or.inl ⟨g, by simp [hg], hgx⟩
    · simp at hg
  · rw [heq] at hb
    rcases List.mem_cons.mp hb with rfl | hb
    · refine Or.inr fun x hx => hfirst x ⟨hx.1, ?_⟩
      have h2 := hx.2
      dsimp only at h2
      omega
    · exact Or.inl hb

/-- A free of a held block. -/
theorem AllOwned.free (h : AllOwned s bs) {b : Extent}
    (hstep : AllocatorStep mem s (.free region b) res s') :
    AllOwned s' (Function.update bs region (insertExtent b (bs region))) := by
  have hown := h.owned region
  obtain ⟨hb, _, fuel, kmm, c, hcall, hs'⟩ := hstep
  have hrun : (regionRuns mem region).step s (.free b) s' :=
    ⟨hb, fuel, by rw [hs']; exact hcall, by rw [hs'], by rw [hs']⟩
  have hin : InSpace b := hown.inSpace b hb
  have hap : ∀ e ∈ bs region, Extent.Apart b e := hown.apart b hb
  obtain ⟨desc, c', hspec, hfr⟩ := free_spec mem (n := b.2) hown.list hin hap
    (Nat.lt_of_lt_of_le (Nat.lt_succ_self _) (Nat.le_max_right fuel ((bs region).length + 1)))
  rw [free_mono mem hcall (Nat.le_max_left fuel ((bs region).length + 1))] at hspec
  injection hspec with hspec
  obtain ⟨rfl, rfl⟩ := Prod.mk.inj hspec
  refine h.change (b.1 :: (bs region).map Prod.fst) (InUse s (bs region))
    (hown.free hrun) (fun r hr => ?_) ?_ ?_ (fun r hr x hx => h.not_inUse hr hx)
    (fun x hx => ?_) (fun e he => ?_)
  · rw [hs']
    exact KMM.region_setRegion_of_ne _ hr _
  · rw [hs']
    exact hfr.frame
  · intro k hk
    rcases List.mem_cons.mp hk with rfl | hk
    · exact Or.inr (covered_start hb hin.size)
    · obtain ⟨e, he, rfl⟩ := List.mem_map.mp hk
      exact Or.inl (covered_start he (hown.list.inSpace e he).size)
  · rcases covered_insertExtent.mp hx with hbx | hx
    · exact Or.inr ⟨b, hb, hbx⟩
    · exact Or.inl hx
  · rw [hs'] at he
    exact Or.inl (List.mem_of_mem_erase he)

/-- The holders do not reach a free list. -/
theorem AllOwned.holders (h : AllOwned s bs) {c : Cells}
    (hc : ∀ x, ¬ Covered s.held (x / 4096) → c x = s.cells x) :
    AllOwned { s with cells := c } bs := by
  refine ⟨fun r => ?_, h.apart⟩
  have hown := h.owned r
  refine ⟨⟨hown.list.links.congr fun b hb => ?_, hown.list.ascending, hown.list.inSpace⟩,
    hown.inSpace, hown.heldApart, hown.apart⟩
  have hsame : headerAt c b.1 = headerAt s.cells b.1 := by
    refine headerAt_congr fun k hk => hc _ ?_
    have hdiv : (b.1 * 4096 + k) / 4096 = b.1 := by omega
    rw [hdiv]
    rintro ⟨e, he, hex⟩
    have hbm : Extent.Mem b b.1 :=
      ⟨Nat.le_refl _, Nat.lt_add_of_pos_right (hown.list.inSpace b hb).size⟩
    exact (hown.apart e he b hb).not_mem hex hbm
  unfold linkNode
  rw [hsame]

/-- A header at the first page of a range, the only free block. -/
theorem AllocatorStep.init {addr pages : Nat} (hin : InSpace (addr / 4096, pages))
    (h : AllocatorStep mem s (.init region addr pages) res s') :
    s' = { s with
      kmm := s.kmm.setRegion region
        { first := some (addr / 4096), last := some (addr / 4096), start := addr, size := pages }
      cells := setHeader s.cells (addr / 4096)
        { size := pages, next := intoUnsafe none, prev := intoUnsafe none } } := by
  obtain ⟨_, _, _, kmm, c, hcall, rfl⟩ := h
  unfold initRegion at hcall
  obtain ⟨p, hp, hcall⟩ := Outcome.bind_eq_ret.mp hcall
  obtain ⟨_, rfl, _⟩ := fromPtr_eq_some (Outcome.expect_eq_ret.mp hp)
  rw [writeHeader_flat mem _ hin.lt, Outcome.ret_bind, Outcome.pure_eq] at hcall
  injection hcall with hcall
  obtain ⟨rfl, rfl⟩ := Prod.mk.inj hcall
  rfl

/-- A region is given pages that no other list has and nobody holds. -/
theorem AllOwned.init (h : AllOwned s bs) {addr pages : Nat}
    (hin : InSpace (addr / 4096, pages))
    (hheld : ∀ b ∈ s.held, Extent.Disjoint b (addr / 4096, pages))
    (hfree : ∀ r, r ≠ region → ∀ b ∈ bs r, Extent.Disjoint b (addr / 4096, pages))
    (hstep : AllocatorStep mem s (.init region addr pages) res s') :
    AllOwned s' (Function.update bs region [(addr / 4096, pages)]) := by
  have heq := hstep.init hin
  have hown := h.owned region
  have hfits : MemoryBlockHeader.Fits
      { size := pages, next := intoUnsafe none, prev := intoUnsafe none } := by
    refine ⟨?_, intoUnsafe_lt validPtr_none, intoUnsafe_lt validPtr_none⟩
    have hfin := hin.fin
    unfold pageCount at hfin
    show pages < u32Size
    unfold u32Size
    dsimp only at hfin
    omega
  have hnew : Owned region s' [(addr / 4096, pages)] := by
    subst heq
    refine ⟨⟨?_, ?_, ?_⟩, hown.inSpace, hown.heldApart, fun e he b hb => ?_⟩
    · rw [KMM.region_setRegion]
      exact ⟨rfl, none, linkNode_setHeader_self _ _ hfits
        (fromUnsafeData_intoUnsafe validPtr_none), rfl⟩
    · simp [Ascending]
    · intro b hb
      rw [List.mem_singleton.mp hb]
      exact hin
    · rw [List.mem_singleton.mp hb]
      exact (hheld e he).apart (hown.inSpace e he).size hin.size
  refine h.change [addr / 4096] (Extent.Mem (addr / 4096, pages)) hnew (fun r hr => ?_) ?_ ?_
    (fun r hr x hx hm => ?_) (fun x hx => ?_) (fun b hb => ?_)
  · rw [heq]
    exact KMM.region_setRegion_of_ne _ hr _
  · rw [heq]
    exact sameOutside_setHeader (by simp) s.cells _
  · intro k hk
    rw [List.mem_singleton.mp hk]
    exact ⟨Nat.le_refl _, Nat.lt_add_of_pos_right hin.size⟩
  · obtain ⟨b, hb, hbx⟩ := hx
    exact hfree r hr b hb x hbx hm
  · obtain ⟨b, hb, hbx⟩ := hx
    rw [List.mem_singleton.mp hb] at hbx
    exact hbx
  · rw [heq] at hb
    exact Or.inl hb

end Side

/-! ## Two runs -/

/-- Two runs side by side, with what their calls returned, latest first. -/
structure TwinState where
  left : KmmState
  right : KmmState
  results : List (Option Nat × Option Nat)

/-- The two runs make the same calls; their holders write what they like. -/
def twinRuns (mem : FlatMemory) : System TwinState AllocatorCall where
  init s := s.left = s.right ∧ s.left.kmm = {} ∧ s.left.held = [] ∧ s.results = []
  step s l s' := ∃ res res', AllocatorStep mem s.left l res s'.left ∧
    AllocatorStep mem s.right l res' s'.right ∧ s'.results = (res, res') :: s.results

/-- The two runs agree: on the descriptors, and on what every call returned. -/
def SameAnswers (s : TwinState) : Prop :=
  s.left.kmm = s.right.kmm ∧ ∀ x ∈ s.results, x.1 = x.2

/-- An allocation is served by the first block or by none; a region is given a non-empty range
    of the address space that no other list has and nobody holds. -/
def NoPageShared (s : TwinState) : AllocatorCall → Prop
  | .init region addr pages => InSpace (addr / 4096, pages) ∧
      (∀ b ∈ s.left.held, Extent.Disjoint b (addr / 4096, pages)) ∧
      ∀ r, r ≠ region → ∀ p, FreeBlock r s.left p →
        Extent.Disjoint (p, s.left.blockSize p) (addr / 4096, pages)
  | .alloc region n => ServedByFirst region s.left (.alloc n)
  | .free _ _ => True
  | .holders => True

/-- The call may be made: a region starts at a page, an allocation asks for at least one page,
    and a block given back is held. -/
def KmmState.Permits (s : KmmState) : AllocatorCall → Prop
  | .init _ addr pages => addr < u32Size ∧ pages < u32Size ∧ addr % 4096 = 0
  | .alloc _ n => 1 ≤ n ∧ n < u32Size
  | .free _ b => b ∈ s.held
  | .holders => True

/-- The call comes to an end without a panic. -/
def Returns (mem : FlatMemory) (s : KmmState) (l : AllocatorCall) : Prop :=
  ∃ res s', AllocatorStep mem s l res s'

/-- Whatever is called next, it returns in one run if it returns in the other, and it returns if
    it may be called. -/
def BothReturn (mem : FlatMemory) (s : TwinState) : Prop :=
  ∀ l, NoPageShared s l → (Returns mem s.left l ↔ Returns mem s.right l) ∧
    (s.left.Permits l → Returns mem s.left l)

/-- The two runs have the same free lists, and agree so far. -/
structure Twin (s : TwinState) (bs : MemoryRegion → List Extent) : Prop where
  left : AllOwned s.left bs
  right : AllOwned s.right bs
  kmm : s.left.kmm = s.right.kmm
  held : s.left.held = s.right.held
  results : ∀ x ∈ s.results, x.1 = x.2

section Returns

variable {mem : FlatMemory} {s : KmmState} {bs : MemoryRegion → List Extent} {l : AllocatorCall}

theorem Returns.permits (h : Returns mem s l) : s.Permits l := by
  obtain ⟨res, s', h⟩ := h
  cases l with
  | init region addr pages =>
    obtain ⟨haddr, hpages, _, kmm, c, hcall, _⟩ := h
    unfold initRegion at hcall
    obtain ⟨p, hp, _⟩ := Outcome.bind_eq_ret.mp hcall
    exact ⟨haddr, hpages, (fromPtr_eq_some (Outcome.expect_eq_ret.mp hp)).1⟩
  | alloc region n =>
    obtain ⟨hn, hlt, _⟩ := h
    exact ⟨hn, hlt⟩
  | free region b => exact h.1
  | holders => trivial

/-- A region starts off with pages of the address space: a header is written and that is it. -/
theorem KmmState.init_returns {region : MemoryRegion} {addr pages : Nat}
    (hp : s.Permits (.init region addr pages)) (hin : InSpace (addr / 4096, pages)) :
    Returns mem s (.init region addr pages) := by
  obtain ⟨haddr, hpages, hpage⟩ := hp
  have hptr : fromPtr addr = some (addr / 4096) := by
    have heq : (addr / 4096) <<< 12 = addr := by
      rw [Nat.shiftLeft_eq]
      omega
    have hptr := fromPtr_page hin.page hin.lt
    rwa [heq] at hptr
  have hcall : initRegion mem s.kmm region addr pages s.cells =
      .ret (s.kmm.setRegion region
        { first := some (addr / 4096), last := some (addr / 4096), start := addr, size := pages },
        setHeader s.cells (addr / 4096)
          { size := pages, next := intoUnsafe none, prev := intoUnsafe none }) := by
    unfold initRegion
    rw [hptr, Outcome.expect_some, Outcome.ret_bind, writeHeader_flat mem _ hin.lt,
      Outcome.ret_bind, Outcome.pure_eq]
  exact ⟨none, _, haddr, hpages, rfl, _, _, hcall, rfl⟩

/-- **A call that may be made returns**, when every region owns its free list. -/
theorem AllOwned.returns (h : AllOwned s bs) (hp : s.Permits l)
    (hin : ∀ region addr pages, l = .init region addr pages → InSpace (addr / 4096, pages)) :
    Returns mem s l := by
  cases l with
  | init region addr pages => exact s.init_returns hp (hin region addr pages rfl)
  | alloc region n =>
    have hlist := (h.owned region).list
    by_cases hsmall : ∀ b ∈ bs region, b.2 < n
    · exact ⟨_, _, hp.1, hp.2, _, _, _,
        allocateLinear_of_small mem hlist hsmall (Nat.lt_succ_self _), rfl⟩
    · obtain ⟨xs, b, ys, heq, hxs, hb⟩ := exists_first_fit hsmall
      rw [heq] at hlist
      exact ⟨_, _, hp.1, hp.2, _, _, _,
        allocateLinear_of_fit mem hlist hxs hb (Nat.lt_succ_self _), rfl⟩
  | free region b =>
    have hown := h.owned region
    obtain ⟨desc, c, hfree, _⟩ := free_spec mem (n := b.2) hown.list (hown.inSpace b hp)
      (hown.apart b hp) (Nat.lt_succ_self _)
    exact ⟨none, _, hp, rfl, _, _, _, hfree, rfl⟩
  | holders => exact ⟨none, _, rfl, s.cells, fun _ _ => rfl, rfl⟩

end Returns

section Twin

variable {mem : FlatMemory} {s s' : TwinState} {bs : MemoryRegion → List Extent}

theorem twin_start (h : (twinRuns mem).init s) : Twin s fun _ => [] := by
  obtain ⟨heq, hkmm, hheld, hresults⟩ := h
  have hown : AllOwned s.left fun _ => [] := by
    refine ⟨fun r => ⟨⟨?_, by simp [Ascending], by simp⟩, ?_, ?_, ?_⟩, fun _ _ _ x hx => ?_⟩
    · rw [hkmm]
      cases r with
      | app => rfl
      | system => rfl
      | base => rfl
    · simp [hheld]
    · simp [hheld]
    · simp [hheld]
    · exact absurd hx (covered_nil x)
  exact ⟨hown, heq ▸ hown, by rw [heq], by rw [heq], by simp [hresults]⟩

theorem Twin.results_cons {results : List (Option Nat × Option Nat)} {res res' : Option Nat}
    (h : Twin s bs) (hres : res = res') (hr : results = (res, res') :: s.results) :
    ∀ x ∈ results, x.1 = x.2 := by
  intro x hx
  rw [hr] at hx
  rcases List.mem_cons.mp hx with rfl | hx
  · exact hres
  · exact h.results x hx

/-- **One step of both runs.** -/
theorem Twin.step (h : Twin s bs) {l : AllocatorCall} (hc : NoPageShared s l)
    (hstep : (twinRuns mem).step s l s') : ∃ bs', Twin s' bs' := by
  obtain ⟨res, res', hl, hr, hresults⟩ := hstep
  cases l with
  | init region addr pages =>
    obtain ⟨hin, hheld, hfree⟩ := hc
    have hfree' : ∀ r, r ≠ region → ∀ b ∈ bs r, Extent.Disjoint b (addr / 4096, pages) := by
      intro r hr b hb
      have hown := h.left.owned r
      have hblock := hfree r hr b.1 (hown.list.links.reachable hb)
      rw [hown.blockSize hb] at hblock
      exact hblock
    refine ⟨_, h.left.init hin hheld hfree' hl, h.right.init hin (h.held ▸ hheld) hfree' hr, ?_, ?_,
      h.results_cons (hl.2.2.1.trans hr.2.2.1.symm) hresults⟩
    · rw [hl.init hin, hr.init hin, h.kmm]
    · rw [hl.init hin, hr.init hin]
      exact h.held
  | alloc region n =>
    rcases (h.left.owned region).first_or_none hc with hnone | ⟨a, as, hbs, ha⟩
    · obtain ⟨hres, heq⟩ := hl.alloc_none (h.left.owned region) hnone
      obtain ⟨hres', heq'⟩ := hr.alloc_none (h.right.owned region) hnone
      exact ⟨bs, heq ▸ h.left, heq' ▸ h.right, by rw [heq, heq', h.kmm], by rw [heq, heq', h.held],
        h.results_cons (hres.trans hres'.symm) hresults⟩
    · obtain ⟨hres, heq⟩ := hl.alloc_first (hbs ▸ h.left.owned region) ha
      obtain ⟨hres', heq'⟩ := hr.alloc_first (hbs ▸ h.right.owned region) ha
      refine ⟨_, h.left.alloc_first hbs ha hl, h.right.alloc_first hbs ha hr, ?_, ?_,
        h.results_cons (hres.trans hres'.symm) hresults⟩
      · rw [heq, heq', h.kmm]
      · rw [heq, heq', h.held]
  | free region b =>
    have hown := h.left.owned region
    have hown' := h.right.owned region
    have hkmm : s'.left.kmm = s'.right.kmm := by
      obtain ⟨hb, _, fuel, kmm, c, hcall, heq⟩ := hl
      obtain ⟨_, _, fuel', kmm', c', hcall', heq'⟩ := hr
      rw [← h.kmm] at hcall'
      have hlist' := hown'.list
      rw [← h.kmm] at hlist'
      rw [heq, heq']
      exact free_same hown.list hlist' (hown.inSpace b hb) (hown.apart b hb) hcall hcall'
    refine ⟨_, h.left.free hl, h.right.free hr, hkmm, ?_,
      h.results_cons (hl.2.1.trans hr.2.1.symm) hresults⟩
    obtain ⟨_, _, _, _, _, _, heq⟩ := hl
    obtain ⟨_, _, _, _, _, _, heq'⟩ := hr
    rw [heq, heq']
    exact congrArg (·.erase b) h.held
  | holders =>
    obtain ⟨hres, c, hcells, heq⟩ := hl
    obtain ⟨hres', c', hcells', heq'⟩ := hr
    refine ⟨bs, heq ▸ h.left.holders hcells, heq' ▸ h.right.holders hcells', ?_, ?_,
      h.results_cons (hres.trans hres'.symm) hresults⟩
    · rw [heq, heq']
      exact h.kmm
    · rw [heq, heq']
      exact h.held

/-- Whatever the holders wrote, no call hangs or panics in one of the runs only. -/
theorem Twin.bothReturn (h : Twin s bs) : BothReturn mem s := by
  intro l hc
  have hin : ∀ region addr pages, l = .init region addr pages →
      InSpace (addr / 4096, pages) := by
    rintro region addr pages rfl
    exact hc.1
  have hpermits : s.left.Permits l ↔ s.right.Permits l := by
    cases l with
    | free region b =>
      show b ∈ s.left.held ↔ b ∈ s.right.held
      rw [h.held]
    | init _ _ _ => exact Iff.rfl
    | alloc _ _ => exact Iff.rfl
    | holders => exact Iff.rfl
  exact ⟨⟨fun hl => h.right.returns (hpermits.mp hl.permits) hin,
    fun hr => h.left.returns (hpermits.mpr hr.permits) hin⟩, fun hp => h.left.returns hp hin⟩

end Twin

/-- **Holders do not influence the allocator** when no page is shared: in two runs of one
    sequence of calls in which every allocation is served by the first block or by none, and
    regions are given unused pages only, every call returns in both or in neither and answers
    the same, and the descriptors stay equal, whatever the holders write. -/
theorem noInfluence (mem : FlatMemory) {tr : List (TwinState × AllocatorCall)} {s : TwinState}
    (h : Run (twinRuns mem) tr s) (hc : EveryStep NoPageShared tr) :
    EveryState (fun s => SameAnswers s ∧ BothReturn mem s) tr s :=
  h.every_of (I := fun s => ∃ bs, Twin s bs) (fun _ hs => ⟨_, twin_start hs⟩)
    (fun _ _ _ ⟨_, hi⟩ hc hstep => hi.step hc hstep)
    (fun _ ⟨_, hi⟩ => ⟨⟨hi.kmm, hi.results⟩, hi.bothReturn⟩) hc

/-! ## Runs on fixed calls -/

/-- The call, executed with the given fuel. -/
def KmmState.answer? (mem : FlatMemory) (fuel : Nat) (s : KmmState) :
    AllocatorCall → Option (Option Nat × KmmState)
  | .init region addr pages =>
    if addr < u32Size ∧ pages < u32Size then
      (initRegion mem s.kmm region addr pages s.cells).value?.map fun (kmm, c) =>
        (none, { s with kmm := kmm, cells := c })
    else none
  | .alloc region n =>
    if 1 ≤ n ∧ n < u32Size then
      (allocateLinear mem fuel s.kmm region n s.cells).value?.map fun (res, kmm, c) =>
        (res, { s with kmm := kmm, cells := c, held := heldAfter s.held n res })
    else none
  | .free region b =>
    if b ∈ s.held then
      (free mem fuel s.kmm region (b.1 <<< 12) b.2 s.cells).value?.map fun (kmm, c) =>
        (none, { s with kmm := kmm, cells := c, held := s.held.erase b })
    else none
  | .holders => none

theorem KmmState.step_of_answer? {mem : FlatMemory} {fuel : Nat} {s s' : KmmState}
    {l : AllocatorCall} {res : Option Nat} (h : s.answer? mem fuel l = some (res, s')) :
    AllocatorStep mem s l res s' := by
  cases l with
  | init region addr pages =>
    unfold KmmState.answer? at h
    dsimp only at h
    split at h
    · rename_i hn
      obtain ⟨⟨kmm, c⟩, hr, heq⟩ := Option.map_eq_some_iff.mp h
      obtain ⟨rfl, rfl⟩ := Prod.mk.inj heq
      exact ⟨hn.1, hn.2, rfl, kmm, c, Outcome.value?_eq_some.mp hr, rfl⟩
    · cases h
  | alloc region n =>
    unfold KmmState.answer? at h
    dsimp only at h
    split at h
    · rename_i hn
      obtain ⟨⟨res, kmm, c⟩, hr, heq⟩ := Option.map_eq_some_iff.mp h
      obtain ⟨rfl, rfl⟩ := Prod.mk.inj heq
      exact ⟨hn.1, hn.2, fuel, kmm, c, Outcome.value?_eq_some.mp hr, rfl⟩
    · cases h
  | free region b =>
    unfold KmmState.answer? at h
    dsimp only at h
    split at h
    · rename_i hb
      obtain ⟨⟨kmm, c⟩, hr, heq⟩ := Option.map_eq_some_iff.mp h
      obtain ⟨rfl, rfl⟩ := Prod.mk.inj heq
      exact ⟨hb, rfl, fuel, kmm, c, Outcome.value?_eq_some.mp hr, rfl⟩
    · cases h
  | holders => cases h

/-- The call in both runs. -/
def TwinState.call? (mem : FlatMemory) (fuel : Nat) (s : TwinState) (l : AllocatorCall) :
    Option TwinState :=
  (s.left.answer? mem fuel l).bind fun (res, left) =>
    (s.right.answer? mem fuel l).map fun (res', right) =>
      { left := left, right := right, results := (res, res') :: s.results }

theorem TwinState.step_of_call? {mem : FlatMemory} {fuel : Nat} {s s' : TwinState}
    {l : AllocatorCall} (h : s.call? mem fuel l = some s') : (twinRuns mem).step s l s' := by
  obtain ⟨⟨res, left⟩, hl, h⟩ := Option.bind_eq_some_iff.mp h
  obtain ⟨⟨res', right⟩, hr, rfl⟩ := Option.map_eq_some_iff.mp h
  exact ⟨res, res', KmmState.step_of_answer? hl, KmmState.step_of_answer? hr, rfl⟩

/-- Two runs before their first call. -/
def twinAtStart : TwinState :=
  let s : KmmState := { kmm := {}, cells := fun _ => 0, extent := (0, 0), held := [] }
  { left := s, right := s, results := [] }

theorem twinAtStart_init (mem : FlatMemory) : (twinRuns mem).init twinAtStart :=
  ⟨rfl, rfl, rfl, rfl⟩

/-- The holder in the right run clears the header of page `p`. -/
def TwinState.overwritten (s : TwinState) (p : Nat) : TwinState :=
  { left := s.left
    right := { s.right with cells := setHeader s.right.cells p { size := 0, next := 0, prev := 0 } }
    results := (none, none) :: s.results }

theorem overwritten_step {mem : FlatMemory} {s : TwinState} {b : Extent} (h : b ∈ s.right.held)
    (hsize : 0 < b.2) : (twinRuns mem).step s .holders (s.overwritten b.1) := by
  refine ⟨none, none, ⟨rfl, s.left.cells, fun _ _ => rfl, rfl⟩, ⟨rfl, _, fun x hx => ?_, rfl⟩, rfl⟩
  have hsame : SameOutside [b.1] s.right.cells
      (setHeader s.right.cells b.1 { size := 0, next := 0, prev := 0 }) :=
    sameOutside_setHeader (by simp) _ _
  refine hsame x fun k hk => ?_
  rw [List.mem_singleton.mp hk]
  by_contra hn
  have hdiv : x / 4096 = b.1 := by omega
  exact hx (hdiv ▸ covered_start h hsize)

/-- A region is given four pages and hands out two. In one run the holder of page 1 clears its
    header; then page 2 is given back, which joins it to the pages behind, two pages are handed
    out there, and page 1 is given back. -/
theorem noInfluence_written : ∃ tr s, Run (twinRuns ⟨16⟩) tr s ∧
    tr.map Prod.snd = [.free .app (1, 1), .alloc .app 2, .free .app (2, 1), .holders,
      .alloc .app 1, .alloc .app 1, .init .app 0x1000 4] ∧
    EveryState (fun s => SameAnswers s ∧ BothReturn ⟨16⟩ s) tr s := by
  have hin : InSpace (0x1000 / 4096, 4) := ⟨by decide, by decide, by decide⟩
  have hheld : ∀ b ∈ twinAtStart.left.held, Extent.Disjoint b (0x1000 / 4096, 4) := by
    intro b hb
    cases hb
  have hstart := twin_start (twinAtStart_init ⟨16⟩)
  have hfree : NoPageShared twinAtStart (.init .app 0x1000 4) := by
    refine ⟨hin, hheld, fun r _ p hp => ?_⟩
    have hmem := (hstart.left.owned r).mem_of_freeBlock hp
    cases hmem
  have hruns : ((runAll (TwinState.call? ⟨16⟩ 8) twinAtStart
      [.init .app 0x1000 4, .alloc .app 1, .alloc .app 1]).bind fun s =>
        (runAll (TwinState.call? ⟨16⟩ 8) (s.overwritten 1)
          [.free .app (2, 1), .alloc .app 2, .free .app (1, 1)]).map fun _ => s.right.held) =
      some [(2, 1), (1, 1)] := by
    decide +kernel
  obtain ⟨s3, hs, hruns⟩ := Option.bind_eq_some_iff.mp hruns
  obtain ⟨s6, hs', hright⟩ := Option.map_eq_some_iff.mp hruns
  obtain ⟨s1, h1, hs⟩ := runAll_cons.mp hs
  obtain ⟨s2, h2, hs⟩ := runAll_cons.mp hs
  obtain ⟨t3, h3, hs⟩ := runAll_cons.mp hs
  obtain rfl := runAll_nil.mp hs
  obtain ⟨s4, h4, hs'⟩ := runAll_cons.mp hs'
  obtain ⟨s5, h5, hs'⟩ := runAll_cons.mp hs'
  obtain ⟨t6, h6, hs'⟩ := runAll_cons.mp hs'
  obtain rfl := runAll_nil.mp hs'
  have hr := (((Run.start (twinAtStart_init ⟨16⟩)).next (TwinState.step_of_call? h1)).next
    (TwinState.step_of_call? h2)).next (TwinState.step_of_call? h3)
  have hr' := (((hr.next (overwritten_step (b := (1, 1)) (by rw [hright]; simp) (by decide))).next
    (TwinState.step_of_call? h4)).next (TwinState.step_of_call? h5)).next
    (TwinState.step_of_call? h6)
  -- whenever pages are taken the list is a single block
  obtain ⟨_, _, hl1, _⟩ := TwinState.step_of_call? h1
  obtain ⟨_, _, hl2, _⟩ := TwinState.step_of_call? h2
  obtain ⟨_, _, hl3, _⟩ := TwinState.step_of_call? h3
  obtain ⟨_, _, hl4, _⟩ := TwinState.step_of_call? h4
  have own1 := hstart.left.init hin hheld (by simp) hl1
  have own2 := own1.alloc_first (Function.update_self ..) (by decide) hl2
  have own3 := own2.alloc_first (Function.update_self ..) (by decide) hl3
  have own4 := own3.free (s := (t3.overwritten 1).left) hl4
  have list1 : Owned .app s1.left [(1, 4)] := own1.owned .app
  have list2 : Owned .app s2.left [(2, 3)] := own2.owned .app
  have list4 : Owned .app s4.left [(2, 3)] := own4.owned .app
  refine ⟨_, t6, hr', rfl, noInfluence ⟨16⟩ hr' ?_⟩
  simp only [everyStep_cons]
  exact ⟨trivial, (list4.keepsList_single (.alloc 2)).1, trivial, trivial,
    (list2.keepsList_single (.alloc 1)).1, (list1.keepsList_single (.alloc 1)).1, hfree,
    everyStep_nil _⟩

/-- Of four pages from page 1, two one-page blocks are handed out, the first is given back, and
    two pages are served by the block behind it. In one run its holder clears the header, and
    the next allocation of two pages finds nothing there; in the other it is served. -/
theorem noInfluence_fails :
    ¬ ∀ (mem : FlatMemory) (tr : List (TwinState × AllocatorCall)) (s : TwinState),
      Run (twinRuns mem) tr s → SameAnswers s := by
  intro hall
  have hrun : (runAll (TwinState.call? ⟨16⟩ 8) twinAtStart [.init .app 0x1000 4, .alloc .app 1,
      .alloc .app 1, .free .app (1, 1), .alloc .app 2]).map (fun s => (s.right.held,
        ((s.overwritten 3).call? ⟨16⟩ 8 (.alloc .app 2)).map fun s => s.results.head?)) =
      some ([(3, 2), (2, 1)], some (some (some 3, none))) := by
    decide +kernel
  obtain ⟨s, hs, hview⟩ := Option.map_eq_some_iff.mp hrun
  obtain ⟨hheld, hlast⟩ := Prod.mk.inj hview
  obtain ⟨s', hs', hhead⟩ := Option.map_eq_some_iff.mp hlast
  obtain ⟨tr, htr⟩ := Run.of_runAll (fun _ _ _ hst => TwinState.step_of_call? hst)
    (.start (twinAtStart_init ⟨16⟩)) hs
  have hlater := (htr.next (overwritten_step (b := (3, 2)) (by rw [hheld]; simp)
    (by decide))).next (TwinState.step_of_call? hs')
  have hsame := (hall _ _ s' hlater).2 (some 3, none) (List.mem_of_mem_head? hhead)
  cases hsame

end Pomelo
