/-
  Handle tables over whole runs.

  Whatever words the generator yields, a table is a finite map with fresh keys
  (`tableCalls_simulates`): an insertion that comes to an acceptable word takes the first one,
  which is no handle in use, and what a handle stands for changes with the insertion that
  returned it and with its own removal only.
-/
import Pomelo.Kernel.ObjectTable
import Pomelo.Lib.FreshMap

namespace Pomelo

open Lib

namespace ObjectTable

/-! ## One call -/

theorem lookup_insert (table : ObjectTable) (handle : Handle) (value : ObjId) (drawn : Nat) :
    lookup ⟨table.objects.insert handle value, drawn⟩ =
      Function.update table.lookup handle (some value) := by
  funext other
  refine (OrderedMap.get_insert table.objects handle other value).trans ?_
  split
  · rename_i heq
    rw [heq, Function.update_self]
  · rename_i hne
    rw [Function.update_of_ne hne]
    rfl

theorem lookup_remove (table : ObjectTable) (handle : Handle) :
    (table.remove handle).2.lookup = Function.update table.lookup handle none := by
  funext other
  refine (OrderedMap.get_erase table.objects handle other).trans ?_
  split
  · rename_i heq
    rw [heq, Function.update_self]
  · rename_i hne
    rw [Function.update_of_ne hne]
    rfl

/-- The calls of a table, in any order. An insertion is given with the handle it returns, a
    lookup and a removal with what they find. -/
def tableCalls (rng : Nat → UInt32) : System ObjectTable (MapCall Handle ObjId) where
  init table := table = ObjectTable.new
  step table call table' := match call with
    | .insert value handle => ∃ fuel, insert rng value fuel table = .ret (handle, table')
    | .lookup handle found => found = table.lookup handle ∧ table' = table
    | .remove handle found => table.remove handle = (found, table')

/-- Each call is one of a map with fresh keys. -/
theorem tableCalls_step {rng : Nat → UInt32} {table table' : ObjectTable}
    {call : MapCall Handle ObjId} (h : (tableCalls rng).step table call table') :
    (freshMap Handle ObjId).step table.lookup call table'.lookup := by
  cases call with
  | insert value handle =>
    obtain ⟨fuel, hret⟩ := h
    obtain ⟨m, hfirst, rfl⟩ := first_of_insert hret
    exact ⟨hfirst.unused, lookup_insert table handle value _⟩
  | lookup handle found =>
    obtain ⟨hfound, rfl⟩ := h
    exact ⟨hfound, rfl⟩
  | remove handle found =>
    obtain ⟨rfl, rfl⟩ := Prod.mk.inj h
    exact ⟨rfl, lookup_remove table handle⟩

/-! ## Any calls -/

variable {rng : Nat → UInt32} {tr : List (ObjectTable × MapCall Handle ObjId)}
  {table : ObjectTable}

/-- Runs of a table are runs of a map with fresh keys. -/
theorem tableCalls_simulates (h : Run (tableCalls rng) tr table) :
    Run (freshMap Handle ObjId) (tr.map fun x => (x.1.lookup, x.2)) table.lookup :=
  @Run.simulates _ _ _ _ _ (freshMap Handle ObjId) lookup id (fun _ hinit => by rw [hinit]; rfl)
    (fun _ _ _ => tableCalls_step) _ _ h

/-- What an insertion does with a table whose generator comes to an acceptable word: it ends,
    having passed over zeros and handles in use only; its handle is new, stands for the object
    then, and the other handles stand for what they did. -/
def Inserts (rng : Nat → UInt32) (table : ObjectTable) (value : ObjId) : Prop :=
  ∃ m handle table', Outcome.Settles (fun fuel => insert rng value fuel table) (handle, table') ∧
    (∀ j < m, rng (table.drawn + j) = 0 ∨
      ∃ used, used.value = rng (table.drawn + j) ∧ (table.lookup used).isSome) ∧
    handle.value = rng (table.drawn + m) ∧ table'.drawn = table.drawn + m + 1 ∧
    handle.value ≠ 0 ∧ table.lookup handle = none ∧ table'.lookup handle = some value ∧
    ∀ other, other ≠ handle → table'.lookup other = table.lookup other

theorem inserts_of_acceptable (value : ObjId) (h : ∃ m, Acceptable rng table m) :
    Inserts rng table value := by
  obtain ⟨m, handle, hfirst⟩ := exists_first h
  have hlookup := lookup_insert table handle value (table.drawn + m + 1)
  refine ⟨m, handle, _, ⟨m + 1, fun fuel hfuel => insert_of_first value hfirst (by omega)⟩,
    fun j hj => not_acceptable.mp (hfirst.before j hj), ?_, rfl, handle.nonzero, hfirst.unused,
    ?_, fun other hother => ?_⟩
  · have hword := hfirst.word
    unfold Handle.fromRaw at hword
    split at hword
    · rw [← Option.some.inj hword]
    · cases hword
  · rw [hlookup, Function.update_self]
  · rw [hlookup, Function.update_of_ne hother]

/-- What a removal does: it returns what the handle stood for, the handle stands for nothing
    then, and the other handles stand for what they did. -/
def Removes (table : ObjectTable) (handle : Handle) : Prop :=
  ∃ table', table.remove handle = (table.lookup handle, table') ∧ table'.lookup handle = none ∧
    (table'.remove handle).1 = none ∧
    ∀ other, other ≠ handle → table'.lookup other = table.lookup other

theorem removes (table : ObjectTable) (handle : Handle) : Removes table handle := by
  have hlookup := lookup_remove table handle
  have hnone : (table.remove handle).2.lookup handle = none := by
    rw [hlookup, Function.update_self]
  have hothers : ∀ other, other ≠ handle →
      (table.remove handle).2.lookup other = table.lookup other := by
    intro other hother
    rw [hlookup, Function.update_of_ne hother]
  exact ⟨_, rfl, hnone, hnone, hothers⟩

/-- A table as a finite map with fresh handles, after the calls (newest first). -/
structure FreshHandles (rng : Nat → UInt32) (calls : List (MapCall Handle ObjId))
    (table : ObjectTable) : Prop where
  inserts : ∀ value, (∃ m, Acceptable rng table m) → Inserts rng table value
  removes : ∀ handle, Removes table handle
  finite : {handle | (table.lookup handle).isSome}.Finite
  oneToOne : OneToOne calls table.lookup

/-- **A table refines a finite map with fresh handles**, in every run of insertions, lookups and
    removals. -/
theorem tableCalls_refine (h : Run (tableCalls rng) tr table) :
    Run (freshMap Handle ObjId) (tr.map fun x => (x.1.lookup, x.2)) table.lookup ∧
      FreshHandles rng (tr.map Prod.snd) table := by
  have hmap := tableCalls_simulates h
  have hlive := freshMap_live hmap
  rw [List.map_map] at hlive
  exact ⟨hmap, fun value => inserts_of_acceptable value, removes table, freshMap_finite hmap, hlive⟩

/-- A generator that yields each number twice: the first insertion passes over two zeros, the
    second one over the handle of the first. -/
theorem tableCalls_refine_twice :
    ∃ (tr : List (ObjectTable × MapCall Handle ObjId)) (table : ObjectTable), tr.map Prod.snd =
      [.remove ⟨1, by decide⟩ (some 7), .insert 8 ⟨2, by decide⟩, .insert 7 ⟨1, by decide⟩] ∧
    FreshHandles (fun n => UInt32.ofNat (n / 2)) (tr.map Prod.snd) table := by
  let one : Handle := ⟨1, by decide⟩
  let two : Handle := ⟨2, by decide⟩
  let rng : Nat → UInt32 := fun n => UInt32.ofNat (n / 2)
  let first := new.objects.insert one 7
  let second := first.insert two 8
  have hstart : Run (tableCalls rng) [] new := .start rfl
  have hfirst : (tableCalls rng).step new (.insert 7 one) ⟨first, 3⟩ := ⟨3, rfl⟩
  have hsecond : (tableCalls rng).step ⟨first, 3⟩ (.insert 8 two) ⟨second, 5⟩ :=
    ⟨2, by with_unfolding_all rfl⟩
  have hremoved : (tableCalls rng).step ⟨second, 5⟩ (.remove one (some 7))
      ⟨second.erase one, 5⟩ := rfl
  have hrun := ((hstart.next hfirst).next hsecond).next hremoved
  exact ⟨_, _, rfl, (tableCalls_refine hrun).2⟩

end ObjectTable

end Pomelo
