/-
  The arithmetic of `VirtualMemory::read` and `write` up to the end of the address space.

  Both loops keep the same variables and differ in what they hand to the backing, so they are
  one `while` loop over `Access` (`readLoop_eq_whileLoop`, `writeLoop_eq_whileLoop`), and the
  arithmetic of an iteration is a matter of the spans alone (`SafeChunk`). An iteration goes
  wrong in two places, both at the wrap-around: the first page of a span of 2^20 pages, where
  `item_pages << 12` loses its only bit, and an access that ends at 2^32, where `addr + max` is
  too large by one although nothing uses it. Everywhere else every iteration is safe
  (`loopsSafe_iff`).
-/
import Pomelo.Memory.VirtLayout
import Pomelo.Lib.Loop

namespace Pomelo

open Lib

/-- The variables of the loops: `done` is what has been read, or the cells as written. -/
structure Access (δ : Type) where
  addr : Nat
  rem : Nat
  pageOffset : Nat
  sliceOffset : Nat
  done : δ

namespace Access

variable {δ : Type}

/-- `while rem > 0`. -/
def pending (s : Access δ) : Bool := decide (s.rem > 0)

theorem pending_iff {s : Access δ} : s.pending = true ↔ 0 < s.rem := by
  simp [pending]

/-- The variables before the loop for a buffer of `n` bytes: its length is taken as a `u32`. -/
def start (addr n : Nat) (done : δ) : Access δ :=
  { addr := addr, rem := n % u32Size, pageOffset := addr &&& 0xFFF, sliceOffset := 0,
    done := done }

/-- The variables after an iteration that served `max` bytes. -/
def behind (s : Access δ) (max : Nat) (done : δ) : Access δ :=
  { addr := s.addr + max, rem := s.rem - max, pageOffset := 0,
    sliceOffset := s.sliceOffset + max, done := done }

end Access

/-! ## The two loops as one -/

namespace VirtualMemory

variable {M T δ : Type} [Memory M]

omit [Memory M] in
/-- The body of the loops: what `read` and `write` do with a chunk is `transfer`. -/
def accessStep (self : VirtualMemory M T) (len : Nat)
    (transfer : MemoryLookup (PageSpan M T) → Nat → Nat → Nat → δ → Exec δ) (s : Access δ) :
    Exec (Access δ) := do
  let (found, max) ← self.nextChunk s.addr s.rem s.pageOffset
  let sliceEnd ← addU32 s.sliceOffset max
  Outcome.assert (decide (sliceEnd ≤ len)) .sliceIndex
  let done ← transfer found s.addr s.sliceOffset max s.done
  let addr ← addU32 s.addr max
  let sliceOffset ← addU32 s.sliceOffset max
  let rem ← subU32 s.rem max
  return { addr := addr, rem := rem, pageOffset := 0, sliceOffset := sliceOffset, done := done }

/-- `read` appends what the backing returns. -/
def readChunk (c : Cells) (found : MemoryLookup (PageSpan M T)) (addr _sliceOffset max : Nat)
    (out : List UInt8) : Exec (List UInt8) := do
  let chunk ← match found.item.kind with
    | .normal backing => Memory.read backing c addr max
  return out ++ chunk

/-- `write` hands the backing its part of the buffer. -/
def writeChunk (bytes : List UInt8) (found : MemoryLookup (PageSpan M T))
    (addr sliceOffset max : Nat) (c : Cells) : Exec Cells :=
  match found.item.kind with
  | .normal backing =>
    Memory.write backing c (shlU32 found.offset 12 ||| (addr &&& 0xFFF))
      ((bytes.drop sliceOffset).take max)

/-- The loop of `read` is the `while` loop over its variables. -/
theorem readLoop_eq_whileLoop (vm : VirtualMemory M T) (c : Cells) (len fuel : Nat)
    (s : Access (List UInt8)) :
    vm.readLoop c len fuel s.addr s.rem s.pageOffset s.sliceOffset s.done =
      whileLoop Access.pending (vm.accessStep len (readChunk c)) fuel s >>=
        fun t => .ret t.done := by
  induction fuel generalizing s with
  | zero => rfl
  | succ fuel ih =>
    by_cases hrem : s.rem > 0
    · have hnext : ∀ addr rem sliceOffset out, vm.readLoop c len fuel addr rem 0 sliceOffset out =
          whileLoop Access.pending (vm.accessStep len (readChunk c)) fuel
            ⟨addr, rem, 0, sliceOffset, out⟩ >>= fun t => .ret t.done :=
        fun addr rem sliceOffset out => ih ⟨addr, rem, 0, sliceOffset, out⟩
      rw [whileLoop_of_guard fuel (Access.pending_iff.mpr hrem), readLoop, if_pos hrem]
      simp only [hnext]
      unfold accessStep readChunk
      simp only [Outcome.bind_assoc, Outcome.pure_eq, Outcome.ret_bind]
    · rw [whileLoop_of_not_guard fuel (by simpa [Access.pending] using hrem), readLoop,
        if_neg hrem]
      rfl

/-- The loop of `write` is the `while` loop over its variables. -/
theorem writeLoop_eq_whileLoop (vm : VirtualMemory M T) (bytes : List UInt8) (fuel : Nat)
    (s : Access Cells) :
    vm.writeLoop bytes fuel s.addr s.rem s.pageOffset s.sliceOffset s.done =
      whileLoop Access.pending (vm.accessStep bytes.length (writeChunk bytes)) fuel s >>=
        fun t => .ret t.done := by
  induction fuel generalizing s with
  | zero => rfl
  | succ fuel ih =>
    by_cases hrem : s.rem > 0
    · have hnext : ∀ addr rem sliceOffset c, vm.writeLoop bytes fuel addr rem 0 sliceOffset c =
          whileLoop Access.pending (vm.accessStep bytes.length (writeChunk bytes)) fuel
            ⟨addr, rem, 0, sliceOffset, c⟩ >>= fun t => .ret t.done :=
        fun addr rem sliceOffset c => ih ⟨addr, rem, 0, sliceOffset, c⟩
      rw [whileLoop_of_guard fuel (Access.pending_iff.mpr hrem), writeLoop, if_pos hrem]
      simp only [hnext]
      unfold accessStep writeChunk
      simp only [Outcome.bind_assoc, Outcome.pure_eq, Outcome.ret_bind]
    · rw [whileLoop_of_not_guard fuel (by simpa [Access.pending] using hrem), writeLoop,
        if_neg hrem]
      rfl

/-! ## The arithmetic of an iteration -/

/-- The iteration from `s` finds the span `item` that starts at page `foundPage` and serves
    `max` bytes of it, with no sum or difference outside `u32` and no bit lost in the shift. -/
structure SafeChunk (vm : VirtualMemory M T) (s : Access δ) (foundPage : Nat)
    (item : PageSpan M T) (max : Nat) : Prop where
  floor : vm.pages.floor (s.addr >>> 12) = some (foundPage, item)
  spanEnd : foundPage + item.size < u32Size
  chunk : vm.nextChunk s.addr s.rem s.pageOffset =
    .ret ({ item := item, offset := (s.addr >>> 12) - foundPage }, max)
  shift : (item.size - ((s.addr >>> 12) - foundPage)) * 4096 < u32Size
  inPage : s.pageOffset ≤ (item.size - ((s.addr >>> 12) - foundPage)) * 4096
  pos : 0 < max
  le : max ≤ s.rem
  addrEnd : s.addr + max < u32Size
  sliceEnd : s.sliceOffset + max < u32Size

omit [Memory M] in
/-- A safe iteration does the transfer and goes on behind the chunk. -/
theorem SafeChunk.accessStep {vm : VirtualMemory M T} {s : Access δ} {foundPage max len : Nat}
    {item : PageSpan M T} (h : SafeChunk vm s foundPage item max)
    (transfer : MemoryLookup (PageSpan M T) → Nat → Nat → Nat → δ → Exec δ)
    (hlen : s.sliceOffset + max ≤ len) :
    vm.accessStep len transfer s =
      transfer { item := item, offset := (s.addr >>> 12) - foundPage } s.addr s.sliceOffset max
        s.done >>= fun done => .ret (s.behind max done) := by
  unfold VirtualMemory.accessStep
  rw [h.chunk, Outcome.ret_bind]
  dsimp only
  rw [addU32_of_lt h.sliceEnd, Outcome.ret_bind, decide_eq_true hlen, Outcome.assert_true,
    Outcome.ret_bind]
  congr 1
  funext done
  rw [addU32_of_lt h.addrEnd, Outcome.ret_bind, Outcome.ret_bind, subU32_of_le h.le,
    Outcome.ret_bind, Outcome.pure_eq]
  rfl

end VirtualMemory

/-- The spans of a page map: in the order of their starts, non-empty, inside the 2^20 pages,
    and with no page in common. -/
structure DisjointSpans (es : List Extent) : Prop where
  nonEmpty : NonEmpty es
  inSpace : ∀ e ∈ es, e.1 + e.2 ≤ 1048576
  disjoint : es.Pairwise fun e f => e.1 + e.2 ≤ f.1

theorem DisjointSpans.eq_of_start {es : List Extent} (h : DisjointSpans es) {e f : Extent}
    (he : e ∈ es) (hf : f ∈ es) (heq : e.1 = f.1) : e = f := by
  have hsymm : Std.Symm Extent.Apart := ⟨fun _ _ => Extent.Apart.symm⟩
  have hpair : es.Pairwise Extent.Apart := h.disjoint.imp Or.inl
  by_contra hne
  have h1 := h.nonEmpty e he
  have h2 := h.nonEmpty f hf
  rcases hpair.forall he hf hne with hle | hle <;> omega

/-- Each of the `n` bytes from `addr` lies in a span. -/
def SpansCover (es : List Extent) (addr n : Nat) : Prop := ∀ i < n, Covered es ((addr + i) / 4096)

theorem SpansCover.tail {es : List Extent} {addr n : Nat} (h : SpansCover es addr n) (k : Nat) :
    SpansCover es (addr + k) (n - k) := by
  intro i hi
  rw [Nat.add_assoc]
  exact h (k + i) (by omega)

namespace VirtualMemory

variable {M T δ : Type} {vm : VirtualMemory M T}

/-- The span that covers a page is the last one that starts at or below it. -/
theorem floor_of_covered (h : DisjointSpans vm.extents) {p : Nat} (hp : Covered vm.extents p) :
    ∃ foundPage item, vm.pages.floor p = some (foundPage, item) ∧
      (foundPage, item.size) ∈ vm.extents ∧ foundPage ≤ p ∧ p < foundPage + item.size := by
  obtain ⟨e, he, hlo, hhi⟩ := hp
  obtain ⟨entry, hentry, rfl⟩ := List.mem_map.mp he
  refine ⟨entry.1, entry.2, ?_, he, hlo, hhi⟩
  rw [OrderedMap.floor_eq_some]
  refine ⟨hentry, hlo, fun f hf hfp => ?_⟩
  have hpair : vm.pages.entries.Pairwise fun e f => Extent.Apart (e.1, e.2.size) (f.1, f.2.size) :=
    (List.pairwise_map.mp h.disjoint).imp Or.inl
  have hsymm : Std.Symm fun e f : Nat × PageSpan M T =>
      Extent.Apart (e.1, e.2.size) (f.1, f.2.size) := ⟨fun _ _ => Extent.Apart.symm⟩
  by_contra hlt
  have hne : entry ≠ f := fun heq => hlt (by rw [heq])
  have hapart := (hpair.forall hentry hf hne).le_of_lt (by omega)
  dsimp only at hapart hhi
  omega

/-- What an iteration in the midst of an access may rely on. -/
structure Ahead (es : List Extent) (n : Nat) (s : Access δ) : Prop where
  cover : SpansCover es s.addr s.rem
  aligned : 0 < s.rem → s.pageOffset = s.addr % 4096
  total : s.sliceOffset + s.rem = n % u32Size
  fits : s.addr + s.rem < u32Size
  small : 4096 ≤ s.addr ∨ ∀ e ∈ es, e.2 < 1048576

/-- Every iteration of such an access is safe, and serves the rest of its span. -/
theorem Ahead.safeChunk (h : DisjointSpans vm.extents) {n : Nat} {s : Access δ}
    (hs : Ahead vm.extents n s) (hrem : 0 < s.rem) : ∃ foundPage item,
      SafeChunk vm s foundPage item (min s.rem ((foundPage + item.size) * 4096 - s.addr)) := by
  have hpage : s.addr >>> 12 = s.addr / 4096 := Nat.shiftRight_eq_div_pow s.addr 12
  obtain ⟨foundPage, item, hfloor, hmem, hlo, hhi⟩ := floor_of_covered h (hs.cover 0 hrem)
  rw [Nat.add_zero] at hfloor hlo hhi
  have hspace := h.inSpace _ hmem
  have htotal := hs.total
  have hfits := hs.fits
  have hmod : n % u32Size < u32Size := Nat.mod_lt n (by decide)
  dsimp only at hspace
  -- fewer than 2^20 pages are left of the span: the access is behind its first page, or it is
  -- a smaller span
  have hleft : item.size - (s.addr / 4096 - foundPage) < 1048576 := by
    rcases hs.small with hbehind | hsmall
    · omega
    · have := hsmall _ hmem
      dsimp only at this
      omega
  have hchunk : vm.nextChunk s.addr s.rem s.pageOffset =
      .ret ({ item := item, offset := s.addr / 4096 - foundPage },
        min s.rem ((foundPage + item.size) * 4096 - s.addr)) := by
    unfold nextChunk lookup
    rw [hpage, hfloor]
    dsimp only
    rw [addU32_of_lt (by unfold u32Size; omega), Outcome.ret_bind, if_pos hhi, Outcome.pure_eq,
      Outcome.ret_bind, Outcome.expect_some, Outcome.ret_bind]
    dsimp only
    rw [subU32_of_le (by omega), Outcome.ret_bind, shlU32_page hleft, hs.aligned hrem,
      subU32_of_le (by omega), Outcome.ret_bind, Outcome.pure_eq]
    congr 2
    split <;> omega
  refine ⟨foundPage, item, ?_⟩
  rw [← hpage] at hfloor hchunk hleft
  unfold u32Size at hfits htotal hmod
  exact
    { floor := hfloor
      spanEnd := by unfold u32Size; omega
      chunk := hchunk
      shift := by unfold u32Size; omega
      inPage := by rw [hs.aligned hrem]; omega
      pos := by omega
      le := Nat.min_le_left _ _
      addrEnd := by unfold u32Size; omega
      sliceEnd := by unfold u32Size; omega }

/-- Behind a chunk the rest of the access is as its start was. -/
theorem Ahead.behind {n : Nat} {s : Access δ}
    (hs : Ahead vm.extents n s) {foundPage : Nat} {item : PageSpan M T}
    (hc : SafeChunk vm s foundPage item (min s.rem ((foundPage + item.size) * 4096 - s.addr)))
    (done : δ) :
    Ahead vm.extents n
      (s.behind (min s.rem ((foundPage + item.size) * 4096 - s.addr)) done) := by
  have htotal := hs.total
  have hfits := hs.fits
  have hpos := hc.pos
  unfold Access.behind
  exact
    { cover := hs.cover.tail _
      aligned := fun hrem => by dsimp only at hrem ⊢; omega
      total := by dsimp only; omega
      fits := by dsimp only; omega
      small := hs.small.imp_left (fun hle => by dsimp only; omega) }

variable [Memory M]

omit [Memory M] in
/-- The loop stays in the midst of its access. -/
theorem Ahead.of_visits (h : DisjointSpans vm.extents) {n : Nat}
    {transfer : MemoryLookup (PageSpan M T) → Nat → Nat → Nat → δ → Exec δ} {s t : Access δ}
    (hs : Ahead vm.extents n s)
    (ht : LoopVisits Access.pending (vm.accessStep n transfer) s t) : Ahead vm.extents n t := by
  apply ht.invariant hs
  intro t t' ha hrem hstep
  obtain ⟨foundPage, item, hc⟩ := ha.safeChunk h (Access.pending_iff.mp hrem)
  have hlen : t.sliceOffset + min t.rem ((foundPage + item.size) * 4096 - t.addr) ≤ n := by
    have h1 := ha.total
    have h2 := Nat.mod_le n u32Size
    omega
  rw [hc.accessStep transfer hlen] at hstep
  obtain ⟨done, -, hnext⟩ := Outcome.bind_eq_ret.mp hstep
  rw [← Outcome.ret.inj hnext]
  exact ha.behind hc done

/-- Every iteration of the loop from `s` is safe. -/
def EveryChunkSafe (vm : VirtualMemory M T) (body : Access δ → Exec (Access δ)) (s : Access δ) :
    Prop :=
  ∀ t, LoopVisits Access.pending body s t → 0 < t.rem →
    ∃ foundPage item max, SafeChunk vm t foundPage item max

/-- The loops of `read` and `write` for the `n` bytes from `addr` have safe iterations only,
    and end if the backings' own accesses do. -/
structure LoopsSafe (vm : VirtualMemory M T) (addr n : Nat) : Prop where
  read : ∀ c, EveryChunkSafe vm (vm.accessStep n (readChunk c)) (Access.start addr n [])
  write : ∀ bytes : List UInt8, bytes.length = n → ∀ c,
    EveryChunkSafe vm (vm.accessStep n (writeChunk bytes)) (Access.start addr n c)
  readEnds : (∀ (mem : M) c a k, Memory.read mem c a k ≠ .diverge) →
    ∀ c, Memory.read vm c addr n ≠ .diverge
  writeEnds : (∀ (mem : M) c a bs, Memory.write mem c a bs ≠ .diverge) →
    ∀ bytes : List UInt8, bytes.length = n → ∀ c, Memory.write vm c addr bytes ≠ .diverge

theorem read_eq_whileLoop (vm : VirtualMemory M T) (c : Cells) (addr n : Nat) :
    Memory.read vm c addr n =
      whileLoop Access.pending (vm.accessStep n (readChunk c)) (n + 1) (.start addr n []) >>=
        fun t => .ret t.done :=
  readLoop_eq_whileLoop vm c n (n + 1) (.start addr n [])

theorem write_eq_whileLoop (vm : VirtualMemory M T) (bytes : List UInt8) (c : Cells)
    (addr : Nat) :
    Memory.write vm c addr bytes =
      whileLoop Access.pending (vm.accessStep bytes.length (writeChunk bytes)) (bytes.length + 1)
        (.start addr bytes.length c) >>= fun t => .ret t.done :=
  writeLoop_eq_whileLoop vm bytes (bytes.length + 1) (.start addr bytes.length c)

/-- An access below 2^32 and off the first page of a span of 2^20 pages starts out right. -/
theorem ahead_start {es : List Extent} {addr n : Nat} (hcover : SpansCover es addr n)
    (hcond : addr + n < u32Size ∧ (4096 ≤ addr ∨ ∀ e ∈ es, e.2 < 1048576)) (done : δ) :
    Ahead es n (Access.start addr n done) := by
  have hmod : n % u32Size = n := Nat.mod_eq_of_lt (by omega)
  exact
    { cover := by
        unfold Access.start
        rw [hmod]
        exact hcover
      aligned := fun _ => Nat.and_two_pow_sub_one_eq_mod addr 12
      total := by simp [Access.start]
      fits := by
        unfold Access.start
        rw [hmod]
        exact hcond.1
      small := hcond.2 }

/-- A loop without a pending byte visits nothing but its start. -/
theorem eq_start_of_visits {body : Access δ → Exec (Access δ)} {s t : Access δ}
    (hs : s.rem = 0) (ht : LoopVisits Access.pending body s t) : t = s := by
  refine ht.invariant (I := fun t => t = s) rfl ?_
  rintro t t' rfl hrem _
  rw [Access.pending_iff, hs] at hrem
  exact absurd hrem (Nat.lt_irrefl 0)

omit [Memory M] in
/-- When an access stays below 2^32 and off the first page of a span of 2^20 pages, every
    iteration of the loop is safe, whatever is done with the chunks. -/
theorem everyChunkSafe (h : DisjointSpans vm.extents) {addr n : Nat}
    (hcover : SpansCover vm.extents addr n)
    (hcond : n % u32Size = 0 ∨
      addr + n < u32Size ∧ (4096 ≤ addr ∨ ∀ e ∈ vm.extents, e.2 < 1048576))
    (transfer : MemoryLookup (PageSpan M T) → Nat → Nat → Nat → δ → Exec δ) (done : δ) :
    EveryChunkSafe vm (vm.accessStep n transfer) (Access.start addr n done) := by
  intro t ht hrem
  by_cases hn : n % u32Size = 0
  · rw [eq_start_of_visits hn ht] at hrem
    exact absurd hn (Nat.ne_of_gt hrem)
  · have hahead := ahead_start hcover (hcond.resolve_left hn) done
    obtain ⟨foundPage, item, hc⟩ := (hahead.of_visits h ht).safeChunk h hrem
    exact ⟨foundPage, item, _, hc⟩

omit [Memory M] in
/-- A loop whose iterations are safe ends if its transfers do: each iteration lowers `rem`. -/
theorem EveryChunkSafe.ends {n fuel : Nat}
    {transfer : MemoryLookup (PageSpan M T) → Nat → Nat → Nat → δ → Exec δ} {s : Access δ}
    (hsafe : EveryChunkSafe vm (vm.accessStep n transfer) s)
    (htransfer : ∀ found a so k d, transfer found a so k d ≠ .diverge) (hfuel : s.rem < fuel) :
    whileLoop Access.pending (vm.accessStep n transfer) fuel s ≠ .diverge := by
  apply whileLoop_ne_diverge Access.rem hfuel
  · intro t ht hrem
    obtain ⟨foundPage, item, max, hc⟩ := hsafe t ht (Access.pending_iff.mp hrem)
    unfold accessStep
    rw [hc.chunk, Outcome.ret_bind]
    dsimp only
    rw [addU32_of_lt hc.sliceEnd, Outcome.ret_bind]
    apply Outcome.bind_ne_diverge (Outcome.assert_ne_diverge _ _)
    intro _
    apply Outcome.bind_ne_diverge (htransfer _ _ _ _ _)
    intro done
    rw [addU32_of_lt hc.addrEnd, Outcome.ret_bind, Outcome.ret_bind, subU32_of_le hc.le,
      Outcome.ret_bind]
    exact Outcome.ret_ne_diverge _
  · intro t t' ht hrem hstep
    obtain ⟨foundPage, item, max, hc⟩ := hsafe t ht (Access.pending_iff.mp hrem)
    have hpos := hc.pos
    have hle := hc.le
    have hrem' : t'.rem = t.rem - max := by
      unfold accessStep at hstep
      rw [hc.chunk, Outcome.ret_bind] at hstep
      obtain ⟨_, -, hstep⟩ := Outcome.bind_eq_ret.mp hstep
      obtain ⟨_, -, hstep⟩ := Outcome.bind_eq_ret.mp hstep
      obtain ⟨_, -, hstep⟩ := Outcome.bind_eq_ret.mp hstep
      obtain ⟨_, -, hstep⟩ := Outcome.bind_eq_ret.mp hstep
      obtain ⟨_, -, hstep⟩ := Outcome.bind_eq_ret.mp hstep
      rw [subU32_of_le hle, Outcome.ret_bind, Outcome.pure_eq] at hstep
      rw [← Outcome.ret.inj hstep]
    omega

theorem loopsSafe (h : DisjointSpans vm.extents) {addr n : Nat}
    (hcover : SpansCover vm.extents addr n)
    (hcond : n % u32Size = 0 ∨
      addr + n < u32Size ∧ (4096 ≤ addr ∨ ∀ e ∈ vm.extents, e.2 < 1048576)) :
    LoopsSafe vm addr n where
  read c := everyChunkSafe h hcover hcond (readChunk c) []
  write bytes _ c := everyChunkSafe h hcover hcond (writeChunk bytes) c
  readEnds hread c := by
    rw [read_eq_whileLoop]
    refine Outcome.bind_ne_diverge ?_ (fun t => Outcome.ret_ne_diverge t.done)
    apply (everyChunkSafe h hcover hcond (readChunk c) []).ends
    · intro found a so k out
      unfold readChunk
      exact Outcome.bind_ne_diverge (hread _ _ _ _) (fun _ => Outcome.ret_ne_diverge _)
    · exact Nat.lt_succ_of_le (Nat.mod_le n u32Size)
  writeEnds hwrite bytes hbytes c := by
    subst hbytes
    rw [write_eq_whileLoop]
    refine Outcome.bind_ne_diverge ?_ (fun t => Outcome.ret_ne_diverge t.done)
    apply (everyChunkSafe h hcover hcond (writeChunk bytes) c).ends
    · intro found a so k d
      exact hwrite _ _ _ _
    · exact Nat.lt_succ_of_le (Nat.mod_le bytes.length u32Size)

/-! ## When it goes wrong -/

/-- A page map with the given spans, over backings whose accesses all return. -/
def ofExtents (es : List Extent) (h : DisjointSpans es) : VirtualMemory FlatMemory Unit :=
  { pages :=
      { entries := es.map fun e => (e.1, { size := e.2, kind := .normal ⟨e.2⟩, tag := () })
        sorted := by
          rw [List.pairwise_map]
          refine h.disjoint.imp_of_mem fun he _ hle => ?_
          have hpos := h.nonEmpty _ he
          dsimp only
          omega } }

theorem extents_ofExtents (es : List Extent) (h : DisjointSpans es) :
    (ofExtents es h).extents = es := by
  unfold extents ofExtents
  rw [List.map_map]
  exact List.map_id'' (fun _ => rfl) es

/-- If the bytes of an access end at 2^32, not every iteration is safe: the last one adds the
    rest to the address. -/
theorem not_safe_of_end {vm : VirtualMemory FlatMemory T} {c : Cells} {n : Nat}
    {s : Access (List UInt8)} (hrem : 0 < s.rem) (hend : s.addr + s.rem = u32Size)
    (hlen : s.sliceOffset + s.rem ≤ n) :
    ¬ EveryChunkSafe vm (vm.accessStep n (readChunk c)) s := by
  intro hsafe
  have hstop : s.pending = false := by
    refine @LoopVisits.not_guard _ _ _ (vm.accessStep n (readChunk c)) s Access.rem
      (fun t => t.addr + t.rem = u32Size ∧ t.sliceOffset + t.rem ≤ n) ?_ ⟨hend, hlen⟩
    rintro t ht ⟨hend, hlen⟩ hrem
    obtain ⟨foundPage, item, max, hc⟩ := hsafe t ht (Access.pending_iff.mp hrem)
    have hpos := hc.pos
    have hle := hc.le
    have haddr := hc.addrEnd
    refine ⟨t.behind max (t.done ++ readCells c t.addr max), ?_, ⟨?_, ?_⟩, ?_, ?_⟩
    · rw [hc.accessStep (readChunk c) (by omega)]
      rfl
    · change t.addr + max + (t.rem - max) = u32Size
      omega
    · change t.sliceOffset + max + (t.rem - max) ≤ n
      omega
    · rw [Access.pending_iff]
      change 0 < t.rem - max
      omega
    · change t.rem - max < t.rem
      omega
  rw [Access.pending_iff.mpr hrem] at hstop
  exact Bool.false_ne_true hstop.symm

omit [Memory M] in
/-- On the first page of a span of 2^20 pages the first iteration is not safe: the shift of
    `item_pages` leaves nothing. -/
theorem not_safe_of_whole (h : DisjointSpans vm.extents) {e : Extent} (he : e ∈ vm.extents)
    (hsize : 1048576 ≤ e.2) {body : Access δ → Exec (Access δ)} {s : Access δ}
    (haddr : s.addr < 4096) (hrem : 0 < s.rem) : ¬ EveryChunkSafe vm body s := by
  intro hsafe
  obtain ⟨foundPage, item, max, hc⟩ := hsafe s .start hrem
  have hpage : s.addr >>> 12 = 0 := by
    rw [Nat.shiftRight_eq_div_pow]
    exact Nat.div_eq_of_lt haddr
  have hfloor := hc.floor
  have hshift := hc.shift
  rw [hpage] at hfloor hshift
  obtain ⟨hmem, hle, -⟩ := OrderedMap.floor_eq_some.mp hfloor
  -- both start at page 0
  have hzero : foundPage = e.1 := by
    have := h.inSpace e he
    dsimp only at hle
    omega
  have hitem : (foundPage, item.size) ∈ vm.extents := List.mem_map.mpr ⟨_, hmem, rfl⟩
  have hsame := h.eq_of_start hitem he hzero
  rw [← hsame] at hsize
  unfold u32Size at hshift
  dsimp only at hsize
  omega

/-- The accesses to mapped bytes for which every iteration of both loops is safe, whatever the
    backings. -/
theorem loopsSafe_iff (es : List Extent) (h : DisjointSpans es) (addr n : Nat)
    (hcover : SpansCover es addr n) (hend : addr + n ≤ u32Size) :
    (∀ (M T : Type) [Memory M] (vm : VirtualMemory M T), vm.extents = es → LoopsSafe vm addr n) ↔
      n % u32Size = 0 ∨ addr + n < u32Size ∧ (4096 ≤ addr ∨ ∀ e ∈ es, e.2 < 1048576) := by
  constructor
  · intro hall
    have hread := (hall FlatMemory Unit (ofExtents es h) (extents_ofExtents es h)).read (fun _ => 0)
    by_cases hn : n % u32Size = 0
    · exact Or.inl hn
    have hrem : 0 < (Access.start addr n ([] : List UInt8)).rem := Nat.pos_of_ne_zero hn
    refine Or.inr ⟨Nat.lt_of_le_of_ne hend fun hlast => ?_, ?_⟩
    · -- the access ends at 2^32
      refine not_safe_of_end hrem ?_ ?_ hread
      · change addr + n % u32Size = u32Size
        have hmod : n % u32Size = n := by
          apply Nat.mod_eq_of_lt
          by_contra hge
          have hfull : n = u32Size := by omega
          rw [hfull, Nat.mod_self] at hn
          exact hn rfl
        omega
      · change 0 + n % u32Size ≤ n
        have := Nat.mod_le n u32Size
        omega
    · by_contra hcond
      push Not at hcond
      obtain ⟨haddr, e, he, hsize⟩ := hcond
      have hext := extents_ofExtents es h
      exact not_safe_of_whole (hext.symm ▸ h) (hext.symm ▸ he) hsize haddr hrem hread
  · rintro hcond M T _ vm rfl
    exact loopsSafe h hcover hcond

theorem twoSpans_disjoint : DisjointSpans [(1, 2), (3, 1)] where
  nonEmpty := by simp [NonEmpty]
  inSpace := by simp
  disjoint := List.pairwise_pair.mpr (by decide)

/-- Eight bytes from the middle of page 2 into the span that starts at page 3. -/
theorem loopsSafe_iff_twoSpans : SpansCover [(1, 2), (3, 1)] 0x2FFC 8 ∧
    ∀ (M T : Type) [Memory M] (vm : VirtualMemory M T), vm.extents = [(1, 2), (3, 1)] →
      LoopsSafe vm 0x2FFC 8 := by
  have hcover : SpansCover [(1, 2), (3, 1)] 0x2FFC 8 := by
    intro i hi
    by_cases hfirst : i < 4
    · refine ⟨(1, 2), by simp, ?_⟩
      unfold Extent.Mem
      dsimp only
      omega
    · refine ⟨(3, 1), by simp, ?_⟩
      unfold Extent.Mem
      dsimp only
      omega
  exact ⟨hcover, (loopsSafe_iff [(1, 2), (3, 1)] twoSpans_disjoint 0x2FFC 8 hcover
    (by decide)).mpr (Or.inr (by decide))⟩

/-- The last page of the address space, in a slice of one page. -/
def lastPage : VirtualMemory PageSlice Unit :=
  VirtualMemory.new.mapMemory 0xFFFFF000 (⟨0, 1⟩ : PageSlice) ()

/-- A write of the last byte panics behind the transfer, in `addr + max`. -/
example (c : Cells) : Memory.write lastPage c 0xFFFFFFFF [1] = .panic .overflow := rfl

theorem loopsSafe_fails : ¬ ∀ es : List Extent, DisjointSpans es → ∀ addr n : Nat,
    SpansCover es addr n → addr + n ≤ u32Size → ∀ (M T : Type) [Memory M]
      (vm : VirtualMemory M T), vm.extents = es → LoopsSafe vm addr n := by
  intro hall
  have hlast : DisjointSpans [(0xFFFFF, 1)] :=
    { nonEmpty := by simp [NonEmpty]
      inSpace := by simp
      disjoint := List.pairwise_singleton _ _ }
  have hcover : SpansCover [(0xFFFFF, 1)] 0xFFFFFFFF 1 := by
    intro i hi
    refine ⟨(0xFFFFF, 1), by simp, ?_⟩
    unfold Extent.Mem
    dsimp only
    omega
  have hsafe := hall _ hlast 0xFFFFFFFF 1 hcover (by decide) PageSlice Unit lastPage rfl
  obtain ⟨foundPage, item, max, hc⟩ :=
    hsafe.write [1] rfl (fun _ => 0) _ .start (by decide)
  -- the only byte is the last one of the address space
  have hpos := hc.pos
  have haddr := hc.addrEnd
  change 0xFFFFFFFF + max < u32Size at haddr
  unfold u32Size at haddr
  omega

end VirtualMemory

end Pomelo
