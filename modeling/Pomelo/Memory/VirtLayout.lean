/-
  Disjoint spans in a `VirtualMemory`: what `lookup` and one loop iteration find.

  `mapAll ms` maps the memories of `ms` one after the other. When the mappings are valid
  (page-aligned, non-empty, inside the address space, without a page in common) the page map
  holds exactly them (`mem_mapAll`), `lookup` finds the mapping that covers a page
  (`lookup_of_mem`), and one iteration of a loop serves the access up to the end of that
  mapping (`nextChunk_of_covers`).
-/
import Pomelo.Memory.Virt
import Pomelo.Lib.Extent
import Mathlib.Data.List.Pairwise

namespace Pomelo

open Lib

/-- The arguments of one `map_memory` call. -/
structure Mapping (T : Type) where
  addr : Nat
  mem : PageSlice
  tag : T

variable {T : Type}

/-- Map the memories in order into an empty `VirtualMemory`. -/
def mapAll (ms : List (Mapping T)) : VirtualMemory PageSlice T :=
  ms.foldl (fun vm m => vm.mapMemory m.addr m.mem m.tag) VirtualMemory.new

namespace Mapping

/-- The pages of a mapping. -/
def pages (m : Mapping T) : Extent := (m.addr / 4096, m.mem.pages)

/-- The mapping covers the address. -/
def Covers (m : Mapping T) (a : Nat) : Prop :=
  m.addr ≤ a ∧ a < m.addr + m.mem.pages * 4096

instance (m : Mapping T) (a : Nat) : Decidable (m.Covers a) :=
  inferInstanceAs (Decidable (_ ∧ _))

/-- The host cell that backs address `a` of the mapping. -/
def cell (m : Mapping T) (a : Nat) : Nat := m.mem.base + (a - m.addr)

def span (m : Mapping T) : PageSpan PageSlice T :=
  { size := m.mem.pages, kind := .normal m.mem, tag := m.tag }

end Mapping

/-- Non-empty, page-aligned spans inside the address space, pairwise disjoint. -/
structure ValidMappings (ms : List (Mapping T)) : Prop where
  aligned : ∀ m ∈ ms, m.addr % 4096 = 0
  nonEmpty : ∀ m ∈ ms, 0 < m.mem.pages
  inSpace : ∀ m ∈ ms, m.addr / 4096 + m.mem.pages ≤ 1048576
  disjoint : ms.Pairwise fun m m' => m.pages.Disjoint m'.pages

/-- Every span has fewer than 2^20 pages: none is the whole address space. -/
def SmallSpans (ms : List (Mapping T)) : Prop := ∀ m ∈ ms, m.mem.pages < 1048576

/-- Every address of the `n` from `addr` is mapped. -/
def Mapped (ms : List (Mapping T)) (addr n : Nat) : Prop :=
  ∀ i < n, ∃ m ∈ ms, m.Covers (addr + i)

theorem Mapped.tail {ms : List (Mapping T)} {addr n k : Nat} (h : Mapped ms addr n) :
    Mapped ms (addr + k) (n - k) := by
  intro i hi
  rw [Nat.add_assoc]
  exact h (k + i) (by omega)

variable {ms : List (Mapping T)}

theorem ValidMappings.covers_iff (h : ValidMappings ms) {m : Mapping T} (hm : m ∈ ms)
    (a : Nat) : m.Covers a ↔ m.pages.Mem (a / 4096) := by
  have ha := h.aligned m hm
  unfold Mapping.Covers Mapping.pages Extent.Mem
  dsimp only
  omega

theorem ValidMappings.of_cons {m : Mapping T} (h : ValidMappings (m :: ms)) :
    ValidMappings ms where
  aligned x hx := h.aligned x (by simp [hx])
  nonEmpty x hx := h.nonEmpty x (by simp [hx])
  inSpace x hx := h.inSpace x (by simp [hx])
  disjoint := (List.pairwise_cons.mp h.disjoint).2

/-- Two mappings with a page in common are the same. -/
theorem ValidMappings.eq_of_mem (h : ValidMappings ms) {m m' : Mapping T} (hm : m ∈ ms)
    (hm' : m' ∈ ms) {p : Nat} (hp : m.pages.Mem p) (hp' : m'.pages.Mem p) : m = m' := by
  have hsymm : Std.Symm fun m m' : Mapping T => m.pages.Disjoint m'.pages :=
    ⟨fun _ _ hd x hx hx' => hd x hx' hx⟩
  by_contra hne
  exact h.disjoint.forall hm hm' hne p hp hp'

/-- The mapping that covers an address is the only one that does. -/
theorem ValidMappings.eq_of_covers (h : ValidMappings ms) {m m' : Mapping T} (hm : m ∈ ms)
    (hm' : m' ∈ ms) {a : Nat} (ha : m.Covers a) (ha' : m'.Covers a) : m = m' :=
  h.eq_of_mem hm hm' ((h.covers_iff hm a).mp ha) ((h.covers_iff hm' a).mp ha')

/-! ## The page map -/

/-- What mapping more memories does to the entries of the page map. -/
theorem mem_foldl_mapMemory {vm : VirtualMemory PageSlice T} (h : ValidMappings ms)
    (hvm : ∀ m ∈ ms, ∀ e ∈ vm.pages.entries, e.1 ≠ m.addr / 4096)
    {e : Nat × PageSpan PageSlice T} :
    e ∈ (ms.foldl (fun vm m => vm.mapMemory m.addr m.mem m.tag) vm).pages.entries ↔
      e ∈ vm.pages.entries ∨ ∃ m ∈ ms, e = (m.addr / 4096, m.span) := by
  induction ms generalizing vm with
  | nil => simp
  | cons m ms ih =>
    have hkey : m.addr >>> 12 = m.addr / 4096 := Nat.shiftRight_eq_div_pow m.addr 12
    have hsize : Memory.sizeInPages m.mem = m.mem.pages := by
      have h1 := h.inSpace m (by simp)
      exact PageSlice.sizeInPages_of_lt (by unfold u32Size; omega)
    have hspan : (vm.mapMemory m.addr m.mem m.tag).pages =
        vm.pages.insert (m.addr / 4096) m.span := by
      unfold VirtualMemory.mapMemory
      rw [hkey, hsize]
      rfl
    have hmem : ∀ e, e ∈ (vm.mapMemory m.addr m.mem m.tag).pages.entries ↔
        e = (m.addr / 4096, m.span) ∨ e ∈ vm.pages.entries := by
      intro e
      rw [hspan, OrderedMap.mem_insert]
      refine or_congr_right ⟨fun he => he.1, fun he => ⟨he, hvm m (by simp) e he⟩⟩
    -- no later mapping starts where this one does
    have hrest : ∀ x ∈ ms, ∀ e ∈ (vm.mapMemory m.addr m.mem m.tag).pages.entries,
        e.1 ≠ x.addr / 4096 := by
      intro x hx e he
      rcases (hmem e).mp he with rfl | he
      · intro heq
        have hd := (List.pairwise_cons.mp h.disjoint).1 x hx
        have h1 := h.nonEmpty m (by simp)
        have h2 := h.nonEmpty x (by simp [hx])
        have h3 := hd (m.addr / 4096)
        unfold Extent.Mem Mapping.pages at h3
        dsimp only at h3 heq
        omega
      · exact hvm x (by simp [hx]) e he
    rw [List.foldl_cons, ih h.of_cons hrest, hmem e]
    simp only [List.mem_cons, exists_eq_or_imp]
    rw [or_comm (a := e = (m.addr / 4096, m.span)), or_assoc]

/-- The page map of valid mappings holds exactly them. -/
theorem mem_mapAll (h : ValidMappings ms) {e : Nat × PageSpan PageSlice T} :
    e ∈ (mapAll ms).pages.entries ↔ ∃ m ∈ ms, e = (m.addr / 4096, m.span) := by
  unfold mapAll
  rw [mem_foldl_mapMemory h (by simp [VirtualMemory.new])]
  simp [VirtualMemory.new]

/-- `lookup` finds the mapping that covers the page. -/
theorem lookup_of_mem (h : ValidMappings ms) {m : Mapping T} (hm : m ∈ ms) {p : Nat}
    (hp : m.pages.Mem p) :
    (mapAll ms).lookup p = .ret (some { item := m.span, offset := p - m.addr / 4096 }) := by
  have hfloor : (mapAll ms).pages.floor p = some (m.addr / 4096, m.span) := by
    rw [OrderedMap.floor_eq_some]
    refine ⟨(mem_mapAll h).mpr ⟨m, hm, rfl⟩, hp.1, fun f hf hfp => ?_⟩
    obtain ⟨m', hm', rfl⟩ := (mem_mapAll h).mp hf
    -- a later start at or below `p` would lie inside `m`
    dsimp only at hfp ⊢
    by_contra hlt
    have hin : m.pages.Mem (m'.addr / 4096) := by
      unfold Extent.Mem Mapping.pages at hp ⊢
      dsimp only at hp ⊢
      omega
    have hin' : m'.pages.Mem (m'.addr / 4096) := by
      have := h.nonEmpty m' hm'
      unfold Extent.Mem Mapping.pages
      dsimp only
      omega
    rw [h.eq_of_mem hm hm' hin hin'] at hlt
    exact hlt (Nat.le_refl _)
  unfold VirtualMemory.lookup
  rw [hfloor]
  have hsp := h.inSpace m hm
  have hend := hp.2
  unfold Mapping.pages at hend
  dsimp only [Mapping.span] at hend ⊢
  rw [addU32_of_lt (by unfold u32Size; omega), Outcome.ret_bind, if_pos hend, Outcome.pure_eq]

/-- `lookup` finds nothing at a page that no mapping covers. -/
theorem lookup_of_not_mem (h : ValidMappings ms) {p : Nat}
    (hp : ∀ m ∈ ms, ¬ m.pages.Mem p) : (mapAll ms).lookup p = .ret none := by
  unfold VirtualMemory.lookup
  cases hfl : (mapAll ms).pages.floor p with
  | none => rfl
  | some e =>
    obtain ⟨he, hek, _⟩ := OrderedMap.floor_eq_some.mp hfl
    obtain ⟨m, hm, rfl⟩ := (mem_mapAll h).mp he
    have hsp := h.inSpace m hm
    have hend := hp m hm
    unfold Mapping.pages Extent.Mem at hend
    dsimp only [Mapping.span] at hek hend ⊢
    rw [addU32_of_lt (by unfold u32Size; omega), Outcome.ret_bind, if_neg (by omega),
      Outcome.pure_eq]

/-- One iteration serves the access up to the end of the mapping that covers its address. -/
theorem nextChunk_of_covers (h : ValidMappings ms) (hs : SmallSpans ms) {m : Mapping T}
    (hm : m ∈ ms) {addr rem : Nat} (ha : m.Covers addr) :
    (mapAll ms).nextChunk addr rem (addr % 4096) =
      .ret ({ item := m.span, offset := addr / 4096 - m.addr / 4096 },
        min rem (m.addr + m.mem.pages * 4096 - addr)) := by
  have hpage : addr >>> 12 = addr / 4096 := Nat.shiftRight_eq_div_pow addr 12
  have hmem := (h.covers_iff hm addr).mp ha
  have hal := h.aligned m hm
  have hsm := hs m hm
  unfold VirtualMemory.nextChunk
  rw [hpage, lookup_of_mem h hm hmem, Outcome.ret_bind, Outcome.expect_some, Outcome.ret_bind]
  obtain ⟨h1, h2⟩ := hmem
  unfold Mapping.pages at h1 h2
  dsimp only [Mapping.span] at h1 h2 ⊢
  rw [subU32_of_le (by omega), Outcome.ret_bind, shlU32_page (by omega),
    subU32_of_le (by omega), Outcome.ret_bind, Outcome.pure_eq]
  -- both sides are the bytes from `addr` to the end of the mapping, or the rest
  have hbytes : (m.mem.pages - (addr / 4096 - m.addr / 4096)) * 4096 - addr % 4096 =
      m.addr + m.mem.pages * 4096 - addr := by
    omega
  rw [hbytes]
  congr 2
  split <;> omega

end Pomelo
