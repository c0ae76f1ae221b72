/-
  Handle tables (`kernel/src/object_manager.rs`, `CommonProcess` of `kernel/src/lib.rs`).

  A table draws its handles from a generator of the `xorshift` crate, which all tables start
  from the same seed: the words it yields are a parameter `rng` of the model, and a table
  counts the words it has drawn. `insert` draws until a word is no handle in use, so it runs
  on fuel; `insert_settles` says that it ends when such a word comes up.
-/
import Pomelo.Ipc.Message
import Pomelo.Lib.OrderedMap
import Mathlib.Data.Nat.Basic
import Mathlib.Data.Nat.Find
import Mathlib.Data.List.Nodup
import Mathlib.Data.List.Perm.Subperm

namespace Pomelo

open Lib

instance : LinearOrder Handle :=
  LinearOrder.lift' (fun handle => handle.value.toNat) fun a b h => by
    cases a
    cases b
    congr
    exact UInt32.toNat_inj.mp h

/-- A kernel object, by its place in the order of creation. -/
abbrev ObjId := Nat

/-- `ObjectTable<Handle, KObjectRef>`. -/
structure ObjectTable where
  objects : OrderedMap Handle ObjId
  drawn : Nat

namespace ObjectTable

def new : ObjectTable := ⟨OrderedMap.empty, 0⟩

/-- The number of handles in use. -/
def size (self : ObjectTable) : Nat := self.objects.entries.length

def insert (rng : Nat → UInt32) (value : ObjId) : Nat → ObjectTable → Exec (Handle × ObjectTable)
  | 0, _ => .diverge
  | fuel + 1, self =>
    let word := rng self.drawn
    let self := { self with drawn := self.drawn + 1 }
    match Handle.fromRaw word with
    | some handle =>
      if (self.objects.get handle).isNone then
        .ret (handle, { self with objects := self.objects.insert handle value })
      else insert rng value fuel self
    | none => insert rng value fuel self

def lookup (self : ObjectTable) (handle : Handle) : Option ObjId := self.objects.get handle

/-- `remove`: what the handle stood for, and the table without it. -/
def remove (self : ObjectTable) (handle : Handle) : Option ObjId × ObjectTable :=
  (self.objects.get handle, { self with objects := self.objects.erase handle })

section Words

variable {rng : Nat → UInt32} {self self' : ObjectTable} {m fuel : Nat} {handle : Handle}

/-- The word `m` words behind the next one is a handle that is not in use. -/
def Acceptable (rng : Nat → UInt32) (self : ObjectTable) (m : Nat) : Prop :=
  ∃ handle, Handle.fromRaw (rng (self.drawn + m)) = some handle ∧ self.lookup handle = none

/-- That word is the first acceptable one, and the handle is made of it. -/
structure FirstAcceptable (rng : Nat → UInt32) (table : ObjectTable) (m : Nat)
    (handle : Handle) : Prop where
  word : Handle.fromRaw (rng (table.drawn + m)) = some handle
  unused : table.lookup handle = none
  before : ∀ j < m, ¬ Acceptable rng table j

theorem acceptable_drawn : Acceptable rng { self with drawn := self.drawn + 1 } m ↔
    Acceptable rng self (m + 1) := by
  unfold Acceptable
  rw [show self.drawn + 1 + m = self.drawn + (m + 1) by omega]
  rfl

theorem insert_take (value : ObjId) (fuel : Nat) (h : FirstAcceptable rng self 0 handle) :
    insert rng value (fuel + 1) self =
      .ret (handle, ⟨self.objects.insert handle value, self.drawn + 1⟩) := by
  have hword : Handle.fromRaw (rng self.drawn) = some handle := h.word
  have hunused : self.objects.get handle = none := h.unused
  rw [insert]
  dsimp only
  rw [hword]
  dsimp only
  rw [hunused, Option.isNone_none, if_pos rfl]

theorem insert_skip (value : ObjId) (fuel : Nat) (h : ¬ Acceptable rng self 0) :
    insert rng value (fuel + 1) self =
      insert rng value fuel { self with drawn := self.drawn + 1 } := by
  rw [insert]
  dsimp only
  split
  · rename_i g hg
    refine if_neg fun hfree => h ⟨g, hg, Option.isNone_iff_eq_none.mp hfree⟩
  · rfl

/-- The loop ends at the first acceptable word. -/
theorem insert_of_first (value : ObjId) (h : FirstAcceptable rng self m handle) (hm : m < fuel) :
    insert rng value fuel self =
      .ret (handle, ⟨self.objects.insert handle value, self.drawn + m + 1⟩) := by
  obtain ⟨fuel, rfl⟩ := Nat.exists_eq_add_of_lt hm
  induction m generalizing self with
  | zero => exact insert_take value _ h
  | succ m ih =>
    have hnext : FirstAcceptable rng { self with drawn := self.drawn + 1 } m handle := by
      refine ⟨?_, h.unused, fun j hj hacceptable => ?_⟩
      · rw [show self.drawn + 1 + m = self.drawn + (m + 1) by omega]
        exact h.word
      · exact h.before (j + 1) (by omega) (acceptable_drawn.mp hacceptable)
    rw [insert_skip value _ (h.before 0 (by omega)),
      show m + 1 + fuel = m + fuel + 1 by omega, ih hnext (by omega)]
    dsimp only
    rw [show self.drawn + 1 + m + 1 = self.drawn + (m + 1) + 1 by omega]

/-- It returns at no other word. -/
theorem first_of_insert {value : ObjId} (h : insert rng value fuel self = .ret (handle, self')) :
    ∃ m, FirstAcceptable rng self m handle ∧
      self' = ⟨self.objects.insert handle value, self.drawn + m + 1⟩ := by
  induction fuel generalizing self with
  | zero => cases h
  | succ fuel ih =>
    by_cases hnow : Acceptable rng self 0
    · obtain ⟨g, hg, hfree⟩ := hnow
      have hfirst : FirstAcceptable rng self 0 g := ⟨hg, hfree, fun j hj => by omega⟩
      rw [insert_take value fuel hfirst] at h
      cases h
      exact ⟨0, hfirst, rfl⟩
    · rw [insert_skip value fuel hnow] at h
      obtain ⟨m, hfirst, hself⟩ := ih h
      refine ⟨m + 1, ⟨?_, hfirst.unused, fun j hj hacceptable => ?_⟩, ?_⟩
      · rw [← show self.drawn + 1 + m = self.drawn + (m + 1) by omega]
        exact hfirst.word
      · cases j with
        | zero => exact hnow hacceptable
        | succ j => exact hfirst.before j (by omega) (acceptable_drawn.mpr hacceptable)
      · rw [hself]
        dsimp only
        rw [show self.drawn + 1 + m + 1 = self.drawn + (m + 1) + 1 by omega]

/-- An insertion takes a word that no handle of the table uses, and adds one entry. -/
theorem insert_eq_ret {value : ObjId} (h : insert rng value fuel self = .ret (handle, self')) :
    self.objects.get handle = none ∧ self'.objects = self.objects.insert handle value ∧
      self.drawn < self'.drawn := by
  obtain ⟨m, hfirst, rfl⟩ := first_of_insert h
  exact ⟨hfirst.unused, rfl, show self.drawn < self.drawn + m + 1 by omega⟩

theorem exists_first (h : ∃ m, Acceptable rng self m) :
    ∃ m handle, FirstAcceptable rng self m handle := by
  classical
  obtain ⟨handle, hword, hunused⟩ := Nat.find_spec h
  exact ⟨Nat.find h, handle, hword, hunused, fun j hj => Nat.find_min h hj⟩

/-- The loop passes over zeros and handles in use only. -/
theorem not_acceptable : ¬ Acceptable rng self m ↔ rng (self.drawn + m) = 0 ∨
    ∃ handle, handle.value = rng (self.drawn + m) ∧ (self.lookup handle).isSome := by
  unfold Acceptable Handle.fromRaw
  by_cases hzero : rng (self.drawn + m) = 0
  · simp [hzero]
  · rw [dif_pos hzero]
    constructor
    · intro h
      refine Or.inr ⟨⟨_, hzero⟩, rfl, ?_⟩
      rw [Option.isSome_iff_ne_none]
      exact fun hnone => h ⟨_, rfl, hnone⟩
    · rintro (h | ⟨⟨_, hne⟩, rfl, hused⟩) ⟨g, hg, hunused⟩
      · exact hzero h
      · rw [Option.some.inj hg, hunused] at hused
        cases hused

end Words

/-- Whatever `size` handles are in use, the generator comes to another one, from any word on. -/
def Fresh (rng : Nat → UInt32) (size : Nat) : Prop :=
  ∀ used : List Handle, used.length ≤ size → ∀ n, ∃ m handle,
    Handle.fromRaw (rng (n + m)) = some handle ∧ handle ∉ used

/-- A generator that counts comes to every handle again. -/
theorem fresh_ofNat {size : Nat} (h : size + 2 ≤ u32Size) : Fresh UInt32.ofNat size := by
  intro used hused n
  -- of `size + 2` consecutive words, one is neither zero nor a handle in use
  have hexists : ∃ m, m < size + 2 ∧ UInt32.ofNat (n + m) ∉ 0 :: used.map Handle.value := by
    by_contra hnone
    push Not at hnone
    have hnodup : ((List.range (size + 2)).map fun m => UInt32.ofNat (n + m)).Nodup := by
      refine List.Nodup.map_on ?_ List.nodup_range
      intro a ha b hb hab
      have hmod := congrArg UInt32.toNat hab
      rw [UInt32.toNat_ofNat', UInt32.toNat_ofNat'] at hmod
      rw [List.mem_range] at ha hb
      unfold u32Size at h
      change (n + a) % 4294967296 = (n + b) % 4294967296 at hmod
      omega
    have hsub : ((List.range (size + 2)).map fun m => UInt32.ofNat (n + m)) ⊆
        0 :: used.map Handle.value := by
      intro w hw
      obtain ⟨m, hm, rfl⟩ := List.mem_map.mp hw
      exact hnone m (List.mem_range.mp hm)
    have hle := (hnodup.subperm hsub).length_le
    simp only [List.length_map, List.length_range, List.length_cons] at hle
    omega
  obtain ⟨m, _, hm⟩ := hexists
  rw [List.mem_cons, not_or] at hm
  refine ⟨m, ⟨UInt32.ofNat (n + m), hm.1⟩, dif_pos hm.1, fun hmem => hm.2 ?_⟩
  exact List.mem_map_of_mem hmem

theorem get_eq_none {self : ObjectTable} {handle : Handle}
    (h : handle ∉ self.objects.entries.map Prod.fst) : self.objects.get handle = none := by
  cases hg : self.objects.get handle with
  | none => rfl
  | some o => exact absurd (List.mem_map_of_mem (OrderedMap.get_eq_some.mp hg)) h

theorem size_insert_le (self : ObjectTable) (handle : Handle) (value : ObjId) (drawn : Nat) :
    size ⟨self.objects.insert handle value, drawn⟩ ≤ self.size + 1 :=
  insertEntry_length_le _ _ _

theorem size_remove_le (self : ObjectTable) (handle : Handle) :
    (self.remove handle).2.size ≤ self.size :=
  List.length_filter_le _ _

/-- An insertion ends: it needs as many words as it takes to come to one that is no handle in
    use, and then grows the table by one. -/
theorem insert_settles {rng : Nat → UInt32} {self : ObjectTable} (value : ObjId)
    (h : Fresh rng self.size) :
    ∃ handle table, Outcome.Settles (fun fuel => insert rng value fuel self) (handle, table) ∧
      table.size ≤ self.size + 1 := by
  obtain ⟨m, handle, hraw, hnew⟩ := h (self.objects.entries.map Prod.fst)
    (by rw [List.length_map]; exact Nat.le_refl _) self.drawn
  have hexists : ∃ m, Acceptable rng self m := ⟨m, handle, hraw, get_eq_none hnew⟩
  obtain ⟨m, handle, hfirst⟩ := exists_first hexists
  exact ⟨handle, _, ⟨m + 1, fun fuel hfuel => insert_of_first value hfirst (by omega)⟩,
    size_insert_le self handle value _⟩

end ObjectTable

/-- `ProcessId`. -/
abbrev ProcessId := Nat

/-- What implements `Process`: a process of the emulator itself, or one of guest code. -/
inductive Process where
  | hle
  | context
deriving DecidableEq, Repr

/-- `Process::init_thread`: only guest processes have it. -/
def Process.initThread : Process → Exec Unit
  | .hle => .panic (.unimplemented "Native threads not implemented for this process")
  | .context => .ret ()

/-- A `ProcessPair`: the id of the process, its handles, and what implements it. -/
structure CommonProcess where
  pid : ProcessId
  objects : ObjectTable
  process : Process

namespace CommonProcess

def newHandle (rng : Nat → UInt32) (fuel : Nat) (self : CommonProcess) (obj : ObjId) :
    Exec (Handle × CommonProcess) := do
  let (handle, objects) ← self.objects.insert rng obj fuel
  return (handle, { self with objects := objects })

def closeHandle (self : CommonProcess) (handle : Handle) : Bool × CommonProcess :=
  ((self.objects.remove handle).1.isSome, { self with objects := (self.objects.remove handle).2 })

def lookupCloseHandle (self : CommonProcess) (handle : Handle) : Option ObjId × CommonProcess :=
  ((self.objects.remove handle).1, { self with objects := (self.objects.remove handle).2 })

def lookupHandle (self : CommonProcess) (handle : Handle) : Option ObjId :=
  self.objects.lookup handle

end CommonProcess

end Pomelo
