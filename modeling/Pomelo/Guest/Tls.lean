/-
  Thread-local storage of a guest process (`ProcessContext` of `guest/src/lib.rs`).

  A process maps a page for eight slots of 0x200 bytes whenever it has none left, and numbers the
  slots in a `u8`: the page in the upper five bits, the slot in the page in the lower three. The
  32 pages that fit give 256 slots, all apart (`Allocated.step`). The slots of the next page have
  the numbers of the first again, so that the tls of a process's threads is apart exactly for up
  to 256 threads (`tlsApart_iff`).

  Guest memory is a parameter of the source; what is kept of it are the ranges that were mapped.
-/
import Pomelo.Basic
import Mathlib.Data.List.Nodup

namespace Pomelo

open Lib

def userlandTlsBase : Nat := 0x1FF82000

/-- `ProcessTLS`: the slots that are left, the next one last, and the next page. -/
structure ProcessTLS where
  free : List UInt8
  nextOffset : UInt8
deriving DecidableEq, Repr

def ProcessTLS.new : ProcessTLS := { free := [], nextOffset := 0 }

/-- `ProcessContext`, with the ranges that `memory.map` got, as address and size. -/
structure ProcessContext where
  tls : ProcessTLS
  maps : List (Nat × Nat)
deriving DecidableEq, Repr

/-- The registers that a new thread sets. -/
structure SavedContext where
  arg : UInt32
  sp : UInt32
  pc : UInt32
  cpsr : UInt32
deriving DecidableEq, Repr

structure ThreadContext where
  tls : Nat
  ctx : SavedContext
deriving DecidableEq, Repr

/-- The arguments of `new_thread`. -/
structure NewThread where
  entrypoint : UInt32
  stackTop : UInt32
  arg : UInt32
deriving DecidableEq, Repr

/-- The numbers of the slots of a page, in the order in which they are pushed. -/
def slotsOf (page : UInt8) : List UInt8 :=
  ([7, 6, 5, 4, 3, 2, 1, 0] : List UInt8).map fun offset => page <<< 3 ||| offset

namespace ProcessContext

def new : ProcessContext := { tls := ProcessTLS.new, maps := [] }

/-- The first part of `allocate_tls`: another page, if no slot is left. -/
def refillTls (self : ProcessContext) : Exec ProcessContext :=
  if self.tls.free.isEmpty then do
    let addr ← addU32 userlandTlsBase (shlU32 self.tls.nextOffset.toNat 12)
    let nextOffset ← incU8 self.tls.nextOffset
    return {
      tls := { free := self.tls.free ++ slotsOf self.tls.nextOffset, nextOffset := nextOffset }
      maps := self.maps ++ [(addr, 0x1000)] }
  else return self

def allocateTls (self : ProcessContext) : Exec (Nat × ProcessContext) := do
  let self ← self.refillTls
  let slot ← Outcome.expect self.tls.free.getLast? (.expect "Failed to allocate TLS")
  let addr ← addU32 userlandTlsBase (shlU32 slot.toNat 9)
  return (addr, { self with tls := { self.tls with free := self.tls.free.dropLast } })

def newThread (self : ProcessContext) (call : NewThread) : Exec (ThreadContext × ProcessContext) := do
  let (tls, self) ← self.allocateTls
  return ({
    tls := tls
    ctx := {
      arg := call.arg
      sp := call.stackTop
      pc := call.entrypoint
      cpsr := 0b10000 ||| if call.entrypoint &&& 1 ≠ 0 then 0b100000 else 0 } }, self)

/-- One thread after the other. -/
def newThreads : List NewThread → ProcessContext → Exec (List ThreadContext × ProcessContext)
  | [], self => return ([], self)
  | call :: calls, self => do
    let (thread, self) ← self.newThread call
    let (threads, self) ← newThreads calls self
    return (thread :: threads, self)

end ProcessContext

/-- The slots of the threads are apart, each in a page that was mapped, and no page was mapped
    twice. -/
structure SlotsApart (threads : List ThreadContext) (context : ProcessContext) : Prop where
  distinct : (threads.map ThreadContext.tls).Nodup
  aligned : ∀ thread ∈ threads, thread.tls % 0x200 = 0
  mapped : ∀ thread ∈ threads, ∃ range ∈ context.maps,
    range.1 ≤ thread.tls ∧ thread.tls + 0x200 ≤ range.1 + range.2
  mapsOnce : (context.maps.map Prod.fst).Nodup

/-- The threads of a new process are made without a panic, with their slots apart. -/
def TlsApart (calls : List NewThread) : Prop :=
  ∃ threads self, ProcessContext.new.newThreads calls = .ret (threads, self) ∧
    SlotsApart threads self

/-! ## The first 256 slots -/

/-- The pages that `n` slots take. -/
def pagesFor (n : Nat) : Nat := (n + 7) / 8

/-- The numbers of `n` slots in the order of `free`, from the last to slot `i`. -/
def slotsFrom (i n : Nat) : List UInt8 := ((List.range' i n).map UInt8.ofNat).reverse

def pageAddr (page : Nat) : Nat := userlandTlsBase + page * 0x1000

def slotAddr (i : Nat) : Nat := userlandTlsBase + i * 0x200

/-- What is left after `n` slots have been given out, the slots up to then in order. -/
structure Allocated (n : Nat) (context : ProcessContext) : Prop where
  free : context.tls.free = slotsFrom n (8 * pagesFor n - n)
  nextOffset : context.tls.nextOffset = UInt8.ofNat (pagesFor n)
  maps : context.maps = (List.range (pagesFor n)).map fun page => (pageAddr page, 0x1000)

theorem slotsFrom_succ (i n : Nat) :
    slotsFrom i (n + 1) = slotsFrom (i + 1) n ++ [UInt8.ofNat i] := by
  unfold slotsFrom
  rw [List.range'_succ, List.map_cons, List.reverse_cons]

/-- The numbers of the slots of a page that fits. -/
theorem slotsOf_ofNat {page : Nat} (h : page < 32) :
    slotsOf (UInt8.ofNat page) = slotsFrom (8 * page) 8 := by
  have hall : ∀ p : Fin 32, slotsOf (UInt8.ofNat p) = slotsFrom (8 * p) 8 := by
    decide +kernel
  exact hall ⟨page, h⟩

theorem allocated_new : Allocated 0 ProcessContext.new := ⟨rfl, rfl, rfl⟩

namespace Allocated

variable {n : Nat} {self : ProcessContext}

/-- With a page refilled there is a slot to give out. -/
theorem refill (h : Allocated n self) (hn : n < 256) :
    ∃ self', self.refillTls = .ret self' ∧
      self'.tls.free = slotsFrom (n + 1) (8 * pagesFor (n + 1) - (n + 1)) ++ [UInt8.ofNat n] ∧
      self'.tls.nextOffset = UInt8.ofNat (pagesFor (n + 1)) ∧
      self'.maps = (List.range (pagesFor (n + 1))).map fun page => (pageAddr page, 0x1000) := by
  unfold ProcessContext.refillTls
  by_cases hlast : n % 8 = 0
  · -- all slots are given out
    have hpages : pagesFor (n + 1) = pagesFor n + 1 := by
      unfold pagesFor
      omega
    have hpage : pagesFor n < 32 := by
      unfold pagesFor
      omega
    have hslots : n = 8 * pagesFor n := by
      unfold pagesFor
      omega
    have hempty : self.tls.free = [] := by
      rw [h.free, ← hslots, Nat.sub_self]
      rfl
    have hshift : shlU32 (pagesFor n) 12 = pagesFor n * 4096 := shlU32_page (by omega)
    have hmap : addU32 userlandTlsBase (pagesFor n * 4096) = .ret (pageAddr (pagesFor n)) := by
      refine addU32_of_lt ?_
      unfold userlandTlsBase u32Size
      omega
    rw [hempty, h.nextOffset, ofNat_toNat_of_lt (by omega), hshift, hmap, incU8_ofNat (by omega),
      h.maps, List.isEmpty_nil, if_pos rfl, Outcome.ret_bind, Outcome.ret_bind]
    refine ⟨_, rfl, ?_, by rw [hpages], by rw [hpages, List.range_succ, List.map_append]; rfl⟩
    have hseven : 8 * pagesFor (n + 1) - (n + 1) = 7 := by omega
    dsimp only
    rw [slotsOf_ofNat hpage, ← hslots, hseven, ← slotsFrom_succ, List.nil_append]
  · have hpages : pagesFor (n + 1) = pagesFor n := by
      unfold pagesFor
      omega
    have hleft : 8 * pagesFor n - n = 8 * pagesFor n - (n + 1) + 1 := by
      unfold pagesFor
      omega
    have hfree := h.free
    rw [hleft, slotsFrom_succ] at hfree
    rw [if_neg (by rw [hfree]; simp), hpages]
    exact ⟨self, rfl, hfree, h.nextOffset, h.maps⟩

/-- The next slot is given out. -/
theorem step (h : Allocated n self) (hn : n < 256) :
    ∃ self', self.allocateTls = .ret (slotAddr n, self') ∧ Allocated (n + 1) self' := by
  obtain ⟨self', hrefill, hfree, hnext, hmaps⟩ := h.refill hn
  have hshift : shlU32 (UInt8.ofNat n).toNat 9 = n * 0x200 := by
    rw [ofNat_toNat_of_lt hn, shlU32, Nat.shiftLeft_eq, u32Size]
    omega
  have haddr : addU32 userlandTlsBase (n * 0x200) = .ret (slotAddr n) := by
    refine addU32_of_lt ?_
    unfold userlandTlsBase u32Size
    omega
  unfold ProcessContext.allocateTls
  rw [hrefill, Outcome.ret_bind, hfree, List.getLast?_concat, Outcome.expect_some,
    Outcome.ret_bind, hshift, haddr, Outcome.ret_bind, List.dropLast_concat]
  exact ⟨_, rfl, rfl, hnext, hmaps⟩

end Allocated

/-! ## Threads -/

section Threads

variable {n : Nat} {self self' : ProcessContext} {calls : List NewThread}
  {threads : List ThreadContext}

theorem Allocated.newThread (h : Allocated n self) (hn : n < 256) (call : NewThread) :
    ∃ thread self', self.newThread call = .ret (thread, self') ∧ thread.tls = slotAddr n ∧
      Allocated (n + 1) self' := by
  obtain ⟨self', hret, halloc⟩ := h.step hn
  unfold ProcessContext.newThread
  rw [hret, Outcome.ret_bind]
  exact ⟨_, self', rfl, rfl, halloc⟩

/-- Up to 256 threads get one slot after the other. -/
theorem Allocated.newThreads (h : Allocated n self) (hn : n + calls.length ≤ 256) :
    ∃ threads self', self.newThreads calls = .ret (threads, self') ∧
      threads.map ThreadContext.tls = (List.range' n calls.length).map slotAddr ∧
      Allocated (n + calls.length) self' := by
  induction calls generalizing n self with
  | nil => exact ⟨[], self, rfl, rfl, h⟩
  | cons call calls ih =>
    rw [List.length_cons] at hn ⊢
    obtain ⟨thread, self1, hone, htls, halloc⟩ := h.newThread (by omega) call
    obtain ⟨threads, self2, hrest, hmap, halloc'⟩ := ih halloc (by omega)
    refine ⟨thread :: threads, self2, ?_, ?_, ?_⟩
    · rw [ProcessContext.newThreads, hone, Outcome.ret_bind]
      dsimp only
      rw [hrest, Outcome.ret_bind, Outcome.pure_eq]
    · rw [List.map_cons, List.range'_succ, List.map_cons, htls, hmap]
    · have hcount : n + (calls.length + 1) = n + 1 + calls.length := by omega
      rw [hcount]
      exact halloc'

theorem slotAddr_injective {i j : Nat} (h : slotAddr i = slotAddr j) : i = j := by
  unfold slotAddr at h
  omega

theorem pageAddr_injective {i j : Nat} (h : pageAddr i = pageAddr j) : i = j := by
  unfold pageAddr at h
  omega

/-- Slots given out in order are apart. -/
theorem Allocated.slotsApart (h : Allocated n self)
    (htls : threads.map ThreadContext.tls = (List.range' 0 n).map slotAddr) :
    SlotsApart threads self := by
  have hslot : ∀ thread ∈ threads, ∃ i < n, thread.tls = slotAddr i := by
    intro thread hmem
    have htls' := List.mem_map_of_mem (f := ThreadContext.tls) hmem
    rw [htls] at htls'
    obtain ⟨i, hi, heq⟩ := List.mem_map.mp htls'
    obtain ⟨j, hj, rfl⟩ := List.mem_range'.mp hi
    exact ⟨_, by omega, heq.symm⟩
  constructor
  · rw [htls]
    exact List.Nodup.map (fun _ _ => slotAddr_injective) List.nodup_range'
  · intro thread hmem
    obtain ⟨i, _, hi⟩ := hslot thread hmem
    rw [hi]
    unfold slotAddr userlandTlsBase
    omega
  · intro thread hmem
    obtain ⟨i, hlt, hi⟩ := hslot thread hmem
    refine ⟨(pageAddr (i / 8), 0x1000), ?_, ?_⟩
    · rw [h.maps]
      refine List.mem_map_of_mem (f := fun page => (pageAddr page, 0x1000)) (List.mem_range.mpr ?_)
      unfold pagesFor
      omega
    · rw [hi]
      unfold slotAddr pageAddr
      omega
  · rw [h.maps, List.map_map]
    exact List.Nodup.map (fun _ _ => pageAddr_injective) List.nodup_range

theorem newThreads_append {as bs : List NewThread}
    (h : self.newThreads (as ++ bs) = .ret (threads, self')) :
    ∃ first self1 rest, self.newThreads as = .ret (first, self1) ∧
      self1.newThreads bs = .ret (rest, self') ∧ threads = first ++ rest := by
  induction as generalizing self threads with
  | nil => exact ⟨[], self, threads, rfl, h, rfl⟩
  | cons call as ih =>
    obtain ⟨⟨thread, self1⟩, hone, h⟩ := Outcome.bind_eq_ret.mp h
    obtain ⟨⟨threads1, self2⟩, hrest, h⟩ := Outcome.bind_eq_ret.mp h
    injection h with h
    obtain ⟨rfl, rfl⟩ := Prod.mk.inj h
    obtain ⟨first, self3, rest, hfirst, hlast, rfl⟩ := ih hrest
    refine ⟨thread :: first, self3, rest, ?_, hlast, rfl⟩
    rw [ProcessContext.newThreads, hone, Outcome.ret_bind]
    dsimp only
    rw [hfirst, Outcome.ret_bind, Outcome.pure_eq]

/-- The first slot of the 33rd page is that of the first page. -/
theorem Allocated.wraps (h : Allocated 256 self) :
    ∃ self', self.allocateTls = .ret (slotAddr 0, self') := by
  have hempty : self.tls.free = [] := h.free
  have hmap : addU32 userlandTlsBase (shlU32 (UInt8.ofNat (pagesFor 256)).toNat 12) =
      .ret (pageAddr 32) := rfl
  have hlast : (slotsOf (UInt8.ofNat (pagesFor 256))).getLast? = some 0 := by
    decide
  have haddr : addU32 userlandTlsBase (shlU32 (0 : UInt8).toNat 9) = .ret (slotAddr 0) := rfl
  unfold ProcessContext.allocateTls ProcessContext.refillTls
  rw [hempty, List.isEmpty_nil, if_pos rfl, h.nextOffset, hmap, incU8_ofNat (by decide),
    Outcome.ret_bind, Outcome.ret_bind, Outcome.pure_eq, Outcome.ret_bind]
  dsimp only
  rw [List.nil_append, hlast, Outcome.expect_some, Outcome.ret_bind, haddr, Outcome.ret_bind]
  exact ⟨_, rfl⟩

/-- Threads whose slots are apart are at most 256. -/
theorem length_le_of_tlsApart (h : TlsApart calls) : calls.length ≤ 256 := by
  obtain ⟨threads, self, hret, hapart⟩ := h
  by_contra hlong
  have hlen : (calls.take 256).length = 256 := by
    rw [List.length_take]
    omega
  rw [← List.take_append_drop 256 calls] at hret
  obtain ⟨first, self1, rest, hfirst, hlast, rfl⟩ := newThreads_append hret
  obtain ⟨threads', self', hret', hmap, halloc⟩ :=
    allocated_new.newThreads (show 0 + (calls.take 256).length ≤ 256 by omega)
  rw [hfirst] at hret'
  injection hret' with hret'
  obtain ⟨rfl, rfl⟩ := Prod.mk.inj hret'
  rw [hlen] at hmap halloc
  -- the next thread gets the slot of the first
  obtain ⟨call, calls', hdrop⟩ : ∃ call calls', calls.drop 256 = call :: calls' :=
    List.exists_cons_of_ne_nil fun hnil => hlong (List.drop_eq_nil_iff.mp hnil)
  obtain ⟨self2, hwraps⟩ := halloc.wraps
  rw [hdrop] at hlast
  obtain ⟨⟨thread, self3⟩, hone, hlast⟩ := Outcome.bind_eq_ret.mp hlast
  obtain ⟨⟨threads3, self4⟩, _, hlast⟩ := Outcome.bind_eq_ret.mp hlast
  injection hlast with hlast
  obtain ⟨rfl, _⟩ := Prod.mk.inj hlast
  unfold ProcessContext.newThread at hone
  rw [hwraps, Outcome.ret_bind] at hone
  injection hone with hone
  obtain ⟨rfl, _⟩ := Prod.mk.inj hone
  have hmem : slotAddr 0 ∈ first.map ThreadContext.tls := by
    rw [hmap]
    exact List.mem_map_of_mem (List.mem_range'.mpr ⟨0, by decide, rfl⟩)
  have hdistinct := hapart.distinct
  rw [List.map_append, List.map_cons] at hdistinct
  exact List.disjoint_of_nodup_append hdistinct hmem List.mem_cons_self

end Threads

/-- **Slots of thread-local storage are apart for up to 256 threads.** Any threads are made in a
    new process without a panic, with slots that are apart, aligned and in mapped pages, and no
    page mapped twice, exactly when there are at most 256 of them. -/
theorem tlsApart_iff (calls : List NewThread) : TlsApart calls ↔ calls.length ≤ 256 := by
  constructor
  · exact length_le_of_tlsApart
  · intro hlen
    obtain ⟨threads, self, hret, hmap, halloc⟩ :=
      allocated_new.newThreads (show 0 + calls.length ≤ 256 by omega)
    rw [Nat.zero_add] at halloc
    exact ⟨threads, self, hret, halloc.slotsApart hmap⟩

/-- The 257th thread shares the slot of the first. -/
theorem tlsApart_fails : ¬ ∀ calls : List NewThread, TlsApart calls := by
  intro h
  have hlen := length_le_of_tlsApart (h (List.replicate 257 ⟨0x100000, 0x10000000, 0⟩))
  rw [List.length_replicate] at hlen
  exact absurd hlen (by decide)

end Pomelo
