/-
  `VirtualMemory::lookup` after any `map_memory` calls, overlapping and nested ones included.

  `lookup` looks only at the last span that starts at or below the page. What it returns is a
  covering span with the page's offset in it (`lookup_sound`); but a span that lies inside
  another one hides the pages of the outer span behind its own end, up to the next start. So
  `lookup` is right at every page exactly when no stored span is hidden in this way and no span
  ends outside `u32` (`lookupsRight_iff`).
-/
import Pomelo.Memory.VirtLayout
import Mathlib.Data.List.Induction

namespace Pomelo

open Lib

/-- The arguments of one `map_memory` call, for any kind of memory. -/
structure MapCall (M T : Type) where
  addr : Nat
  mem : M
  tag : T

namespace VirtualMemory

variable {M T : Type} [Memory M]

/-- Run the `map_memory` calls in order on an empty `VirtualMemory`. -/
def mapCalls (calls : List (MapCall M T)) : VirtualMemory M T :=
  calls.foldl (fun vm call => vm.mapMemory call.addr call.mem call.tag) new

theorem mapCalls_append (calls : List (MapCall M T)) (call : MapCall M T) :
    mapCalls (calls ++ [call]) = (mapCalls calls).mapMemory call.addr call.mem call.tag := by
  unfold mapCalls
  rw [List.foldl_append]
  rfl

/-- A stored span covers the page. -/
def EntryCovers (e : Nat × PageSpan M T) (page : Nat) : Prop :=
  e.1 ≤ page ∧ page < e.1 + e.2.size

/-- `lookup` at the page returns, finds something exactly when a stored span covers the page,
    and then finds such a span and the page's offset from its start. -/
structure LookupRight (vm : VirtualMemory M T) (page : Nat) : Prop where
  returns : ∃ found, vm.lookup page = .ret found
  finds : (∃ m, vm.lookup page = .ret (some m)) ↔ ∃ e ∈ vm.pages.entries, EntryCovers e page
  found : ∀ m, vm.lookup page = .ret (some m) → ∃ e ∈ vm.pages.entries, EntryCovers e page ∧
    m = { item := e.2, offset := page - e.1 }

/-- Mapping a span that replaces none leaves no page outside its range unmapped. -/
def KeepsMapped (vm : VirtualMemory M T) (call : MapCall M T) : Prop :=
  (∀ e ∈ vm.pages.entries, e.1 ≠ call.addr >>> 12) → ∀ page < u32Size,
    ¬ (call.addr >>> 12 ≤ page ∧ page < call.addr >>> 12 + Memory.sizeInPages call.mem) →
      (∃ m, vm.lookup page = .ret (some m)) →
        ∃ m, (vm.mapMemory call.addr call.mem call.tag).lookup page = .ret (some m)

/-- Lookups are right in the page map that the calls leave: right answers for every page, and a last
    call that hides nothing. -/
structure LookupsRight (calls : List (MapCall M T)) : Prop where
  right : ∀ page < u32Size, LookupRight (mapCalls calls) page
  keeps : ∀ before call, calls = before ++ [call] → KeepsMapped (mapCalls before) call

/-- Every span ends inside `u32`, and a span that reaches beyond the end of one that starts
    later is met there: the next span starts at or before that end. -/
structure Unhidden (es : List Extent) : Prop where
  inU32 : ∀ e ∈ es, e.1 + e.2 < u32Size
  met : ∀ e ∈ es, ∀ f ∈ es, e.1 < f.1 → f.1 + f.2 < e.1 + e.2 →
    ∃ g ∈ es, f.1 < g.1 ∧ g.1 ≤ f.1 + f.2

/-! ## What a lookup finds -/

section
omit [Memory M]

theorem mem_extents {vm : VirtualMemory M T} {e : Extent} :
    e ∈ vm.extents ↔ ∃ f ∈ vm.pages.entries, (f.1, f.2.size) = e := by
  unfold extents
  rw [List.mem_map]

/-- `lookup` decides by the last span that starts at or below the page. -/
theorem lookup_of_floor {vm : VirtualMemory M T} {page : Nat} {e : Nat × PageSpan M T}
    (hfloor : vm.pages.floor page = some e) (hend : e.1 + e.2.size < u32Size) :
    vm.lookup page = .ret
      (if page < e.1 + e.2.size then some { item := e.2, offset := page - e.1 } else none) := by
  unfold lookup
  rw [hfloor]
  dsimp only
  rw [addU32_of_lt hend, Outcome.ret_bind]
  split <;> rfl

/-- What `lookup` finds covers the page, in any page map. -/
theorem lookup_sound {vm : VirtualMemory M T} {page : Nat} {m : MemoryLookup (PageSpan M T)}
    (h : vm.lookup page = .ret (some m)) : ∃ e ∈ vm.pages.entries, EntryCovers e page ∧
      m = { item := e.2, offset := page - e.1 } := by
  unfold lookup at h
  cases hfloor : vm.pages.floor page with
  | none =>
    rw [hfloor] at h
    cases h
  | some e =>
    obtain ⟨he, hle, -⟩ := OrderedMap.floor_eq_some.mp hfloor
    rw [hfloor] at h
    obtain ⟨fin, hfin, h⟩ := Outcome.bind_eq_ret.mp h
    obtain ⟨-, rfl⟩ := addU32_eq_ret.mp hfin
    split at h
    · rename_i hlt
      refine ⟨e, he, ⟨hle, hlt⟩, ?_⟩
      rw [Outcome.pure_eq] at h
      injection h with h
      injection h with h
      exact h.symm
    · cases h

/-- In a map without hidden pages, the last span that starts at or below a covered page covers
    it. -/
theorem Unhidden.floor_covers {vm : VirtualMemory M T} (h : Unhidden vm.extents) {page : Nat}
    {e f : Nat × PageSpan M T} (he : e ∈ vm.pages.entries) (hcov : EntryCovers e page)
    (hfloor : vm.pages.floor page = some f) : page < f.1 + f.2.size := by
  obtain ⟨hlo, hhi⟩ := hcov
  obtain ⟨hf, hfp, hmax⟩ := OrderedMap.floor_eq_some.mp hfloor
  by_contra hout
  -- `e` starts before `f` and reaches beyond its end
  have hstart : e.1 < f.1 := by
    refine lt_of_le_of_ne (hmax e he hlo) fun heq => ?_
    have hsame : e.2 = f.2 := by
      have h1 := OrderedMap.get_eq_some.mpr he
      have h2 := OrderedMap.get_eq_some.mpr hf
      rw [heq, h2] at h1
      exact (Option.some.inj h1).symm
    rw [heq, hsame] at hhi
    exact hout hhi
  obtain ⟨g, hg, hlt, hle⟩ := h.met _ (mem_extents.mpr ⟨e, he, rfl⟩) _
    (mem_extents.mpr ⟨f, hf, rfl⟩) hstart (by dsimp only; omega)
  obtain ⟨g, hg', rfl⟩ := mem_extents.mp hg
  dsimp only at hlt hle
  -- the span that meets the end of `f` would be a later start
  have := hmax g hg' (by omega)
  omega

theorem Unhidden.lookupRight {vm : VirtualMemory M T} (h : Unhidden vm.extents) (page : Nat) :
    LookupRight vm page := by
  cases hfloor : vm.pages.floor page with
  | none =>
    have hnone : vm.lookup page = .ret none := by
      unfold lookup
      rw [hfloor]
      rfl
    have hbelow := OrderedMap.floor_eq_none.mp hfloor
    refine ⟨⟨none, hnone⟩, ⟨?_, ?_⟩, fun m hm => lookup_sound hm⟩
    · rintro ⟨m, hm⟩
      rw [hnone] at hm
      cases hm
    · rintro ⟨e, he, hlo, -⟩
      exact absurd (hbelow e he) (Nat.not_lt.mpr hlo)
  | some f =>
    obtain ⟨hf, -, -⟩ := OrderedMap.floor_eq_some.mp hfloor
    have hret := lookup_of_floor hfloor (h.inU32 _ (mem_extents.mpr ⟨f, hf, rfl⟩))
    refine ⟨⟨_, hret⟩, ⟨?_, ?_⟩, fun m hm => lookup_sound hm⟩
    · rintro ⟨m, hm⟩
      obtain ⟨e, he, hcov, -⟩ := lookup_sound hm
      exact ⟨e, he, hcov⟩
    · rintro ⟨e, he, hcov⟩
      rw [if_pos (h.floor_covers he hcov hfloor)] at hret
      exact ⟨_, hret⟩

/-- Right answers leave no page hidden: the first page behind a span is one to ask about. -/
theorem unhidden_of_lookupRight {vm : VirtualMemory M T}
    (hstart : ∀ e ∈ vm.extents, e.1 < u32Size)
    (h : ∀ page < u32Size, LookupRight vm page) : Unhidden vm.extents := by
  have hin : ∀ e ∈ vm.extents, e.1 + e.2 < u32Size := by
    intro e he
    obtain ⟨e, he', rfl⟩ := mem_extents.mp he
    by_contra hover
    dsimp only at hover
    -- a lookup of the span's own first page would overflow
    have hfloor : vm.pages.floor e.1 = some e :=
      OrderedMap.floor_eq_some.mpr ⟨he', Nat.le_refl _, fun _ _ hle => hle⟩
    obtain ⟨found, hret⟩ := (h e.1 (hstart _ he)).returns
    unfold lookup at hret
    rw [hfloor] at hret
    obtain ⟨fin, hfin, -⟩ := Outcome.bind_eq_ret.mp hret
    exact hover (addU32_eq_ret.mp hfin).1
  refine ⟨hin, fun e he f hf hlt hend => ?_⟩
  obtain ⟨e, he', rfl⟩ := mem_extents.mp he
  obtain ⟨f, hf', rfl⟩ := mem_extents.mp hf
  dsimp only at hlt hend ⊢
  have hpage : f.1 + f.2.size < u32Size := by
    have := hin _ he
    dsimp only at this
    omega
  obtain ⟨m, hm⟩ := (h _ hpage).finds.mpr ⟨e, he', by omega, hend⟩
  by_contra hno
  have hfloor : vm.pages.floor (f.1 + f.2.size) = some f := by
    refine OrderedMap.floor_eq_some.mpr ⟨hf', Nat.le_add_right _ _, fun g hg hle => ?_⟩
    by_contra hlater
    exact hno ⟨(g.1, g.2.size), mem_extents.mpr ⟨g, hg, rfl⟩, Nat.lt_of_not_le hlater, hle⟩
  rw [lookup_of_floor hfloor hpage, if_neg (Nat.lt_irrefl _)] at hm
  cases hm

end

/-! ## After any calls -/

/-- A call that maps a non-empty memory at a page-aligned address. -/
structure ValidCall (call : MapCall M T) : Prop where
  aligned : call.addr % 4096 = 0
  inSpace : call.addr < u32Size
  nonEmpty : 0 < Memory.sizeInPages call.mem
  size : Memory.sizeInPages call.mem < u32Size

/-- Each stored span is that of a call. -/
theorem mem_mapCalls {calls : List (MapCall M T)} {e : Nat × PageSpan M T}
    (he : e ∈ (mapCalls calls).pages.entries) : ∃ call ∈ calls, e.1 = call.addr >>> 12 := by
  induction calls using List.reverseRecOn with
  | nil => simp [mapCalls, new] at he
  | append_singleton calls call ih =>
    rw [mapCalls_append] at he
    unfold mapMemory at he
    rcases OrderedMap.mem_insert.mp he with rfl | ⟨he, -⟩
    · exact ⟨call, by simp, rfl⟩
    · obtain ⟨call', hcall', hstart⟩ := ih he
      exact ⟨call', by simp [hcall'], hstart⟩

/-- In a map without hidden pages, mapping the span that led to it has hidden none. -/
theorem Unhidden.keepsMapped {vm : VirtualMemory M T} {call : MapCall M T}
    (h : Unhidden (vm.mapMemory call.addr call.mem call.tag).extents) : KeepsMapped vm call := by
  rintro hnew page _ _ ⟨m, hm⟩
  obtain ⟨e, he, hcov, -⟩ := lookup_sound hm
  apply (h.lookupRight page).finds.mpr
  exact ⟨e, OrderedMap.mem_insert.mpr (Or.inr ⟨he, hnew e he⟩), hcov⟩

/-- The `map_memory` calls after which page lookup finds the covering span at every page. -/
theorem lookupsRight_iff (calls : List (MapCall M T)) (h : ∀ call ∈ calls, ValidCall call) :
    LookupsRight calls ↔ Unhidden (mapCalls calls).extents := by
  constructor
  · intro hright
    apply unhidden_of_lookupRight _ hright.right
    intro e he
    obtain ⟨f, hf, rfl⟩ := mem_extents.mp he
    obtain ⟨call, hcall, hstart⟩ := mem_mapCalls hf
    have hspace := (h call hcall).inSpace
    dsimp only
    rw [hstart, Nat.shiftRight_eq_div_pow]
    omega
  · intro hun
    refine ⟨fun page _ => hun.lookupRight page, ?_⟩
    rintro before call rfl
    rw [mapCalls_append] at hun
    exact hun.keepsMapped

/-- Two spans side by side. -/
def sideBySide : List (MapCall PageSlice Unit) :=
  [{ addr := 0x2000, mem := ⟨0, 1⟩, tag := () }, { addr := 0, mem := ⟨0x1000, 2⟩, tag := () }]

theorem lookupsRight_iff_sideBySide : LookupsRight sideBySide := by
  refine (lookupsRight_iff sideBySide ?_).mpr ⟨by decide, by decide⟩
  intro call hcall
  simp only [sideBySide, List.mem_cons, List.not_mem_nil, or_false] at hcall
  rcases hcall with rfl | rfl <;> exact ⟨by decide, by decide, by decide, by decide⟩

/-- A span of ten pages, and one page mapped inside it. -/
def nested : List (MapCall PageSlice Unit) :=
  [{ addr := 0, mem := ⟨0, 10⟩, tag := () }, { addr := 0x2000, mem := ⟨0, 1⟩, tag := () }]

theorem lookupsRight_fails : ¬ ∀ calls : List (MapCall PageSlice Unit),
    (∀ call ∈ calls, ValidCall call) → LookupsRight calls := by
  intro hall
  have hvalid : ∀ call ∈ nested, ValidCall call := by
    intro call hcall
    simp only [nested, List.mem_cons, List.not_mem_nil, or_false] at hcall
    rcases hcall with rfl | rfl <;> exact ⟨by decide, by decide, by decide, by decide⟩
  -- page 5 lies in the outer span only, and the lookup meets the inner one
  have hright := (hall nested hvalid).right 5 (by decide)
  have hnone : (mapCalls nested).lookup 5 = .ret none := rfl
  obtain ⟨m, hm⟩ := hright.finds.mpr
    ⟨(0, { size := 10, kind := .normal ⟨0, 10⟩, tag := () }), by simp [nested, mapCalls, new,
      mapMemory, OrderedMap.insert, insertEntry, OrderedMap.empty, Memory.sizeInPages, u32Size],
      by decide, by decide⟩
  rw [hnone] at hm
  cases hm

end VirtualMemory

end Pomelo
