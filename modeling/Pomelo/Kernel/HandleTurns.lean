/-
  Handle translation conserves objects.

  `Tables` are the handle tables of all processes, and `HandleTurns` says what the handles of a
  message do to them one after the other: a handle that is found is given to the destination
  under a handle not in use there, and leaves the source when it is moved. What holds of every
  such sequence of turns (`HandleTurns.count`, `HandleTurns.kept`, `HandleTurns.fresh`)
  holds of `translate_ipc`, since a call that returns makes the turns of its message in order
  (`translateParams_turns`).
-/
import Pomelo.Kernel.TranslateMessage

namespace Pomelo

open Lib

/-! ## Turns -/

/-- The handle table of every process. -/
abbrev Tables := ProcessId → OrderedMap Handle ObjId

namespace Tables

/-- The handle is looked up in `src`, and taken out of the table when it is moved. -/
def taken (T : Tables) (src : ProcessId) (moved : Bool) (handle : Handle) : Tables :=
  if moved then Function.update T src ((T src).erase handle) else T

def put (T : Tables) (dest : ProcessId) (handle : Handle) (obj : ObjId) : Tables :=
  Function.update T dest ((T dest).insert handle obj)

/-- The number of entries of an object, counted over the tables of `src` and `dest`. -/
def entriesOf (T : Tables) (src dest : ProcessId) (obj : ObjId) : Nat :=
  (T src).occurrences obj + if src = dest then 0 else (T dest).occurrences obj

end Tables

/-- The turn of one handle: what it does to the tables, and what was given to `dest`. -/
inductive HandleTurn (src dest : ProcessId) (moved : Bool) :
    Option Handle → Tables → Option (ObjId × Handle) → Tables → Prop where
  | null {T : Tables} : HandleTurn src dest moved none T none T
  | missing {T : Tables} {handle : Handle} : (T src).get handle = none →
      HandleTurn src dest moved (some handle) T none T
  | given {T : Tables} {handle handle' : Handle} {obj : ObjId} :
      (T src).get handle = some obj → (T.taken src moved handle dest).get handle' = none →
      HandleTurn src dest moved (some handle) T (some (obj, handle'))
        ((T.taken src moved handle).put dest handle' obj)

/-- The turns of a list of handles, each with its flag, in order. -/
inductive HandleTurns (src dest : ProcessId) :
    List (Bool × Option Handle) → Tables → List (Option (ObjId × Handle)) → Tables → Prop where
  | nil {T : Tables} : HandleTurns src dest [] T [] T
  | cons {moved : Bool} {handle : Option Handle} {handles : List (Bool × Option Handle)}
      {T T' T'' : Tables} {r : Option (ObjId × Handle)} {rs : List (Option (ObjId × Handle))} :
      HandleTurn src dest moved handle T r T' → HandleTurns src dest handles T' rs T'' →
      HandleTurns src dest ((moved, handle) :: handles) T (r :: rs) T''

/-- How many copied handles were given as `obj`. -/
def copies (handles : List (Bool × Option Handle)) (given : List (Option (ObjId × Handle)))
    (obj : ObjId) : Nat :=
  (handles.zip given).countP fun x => !x.1.1 && decide (x.2.map Prod.fst = some obj)

section Turn

variable {src dest : ProcessId} {moved : Bool} {handle : Option Handle} {T T' T'' : Tables}
  {r : Option (ObjId × Handle)}

theorem Tables.put_self (T : Tables) (handle : Handle) (obj : ObjId) :
    T.put dest handle obj dest = (T dest).insert handle obj :=
  Function.update_self _ _ _

theorem Tables.put_of_ne (T : Tables) {pid : ProcessId} (h : pid ≠ dest) (handle : Handle)
    (obj : ObjId) : T.put dest handle obj pid = T pid :=
  Function.update_of_ne h _ _

theorem Tables.taken_of_ne (T : Tables) {pid : ProcessId} (h : pid ≠ src) (moved : Bool)
    (handle : Handle) : T.taken src moved handle pid = T pid := by
  unfold Tables.taken
  split
  · exact Function.update_of_ne h _ _
  · rfl

theorem Tables.taken_moved (T : Tables) (handle : Handle) :
    T.taken src true handle src = (T src).erase handle :=
  Function.update_self _ _ _

/-- Taking a handle out of the source lowers the count of its object by one when it moves. -/
theorem Tables.entriesOf_taken {handle : Handle} {obj o : ObjId} (h : (T src).get handle = some obj) :
    T.entriesOf src dest o = (T.taken src moved handle).entriesOf src dest o +
      if moved = true ∧ obj = o then 1 else 0 := by
  unfold Tables.entriesOf
  cases moved with
  | false => simp [Tables.taken]
  | true =>
    have hcount := OrderedMap.occurrences_erase (w := o) h
    rw [Tables.taken_moved]
    by_cases hd : src = dest
    · simp only [if_pos hd, true_and]
      omega
    · rw [Tables.taken_of_ne T (Ne.symm hd)]
      simp only [if_neg hd, true_and]
      omega

/-- Giving an object to the destination raises its count by one. -/
theorem Tables.entriesOf_put {handle : Handle} {obj o : ObjId} (h : (T dest).get handle = none) :
    (T.put dest handle obj).entriesOf src dest o =
      T.entriesOf src dest o + if obj = o then 1 else 0 := by
  have hcount := OrderedMap.occurrences_insert (v := obj) (w := o) h
  unfold Tables.entriesOf
  rw [Tables.put_self]
  by_cases hd : src = dest
  · subst hd
    rw [Tables.put_self, if_pos rfl, if_pos rfl]
    omega
  · rw [Tables.put_of_ne T hd, if_neg hd, if_neg hd]
    omega

theorem HandleTurn.count (h : HandleTurn src dest moved handle T r T') (o : ObjId) :
    T'.entriesOf src dest o = T.entriesOf src dest o +
      if (!moved && decide (r.map Prod.fst = some o)) = true then 1 else 0 := by
  cases h with
  | null => simp
  | missing _ => simp
  | @given _ handle handle' obj hobj hfree =>
    have htaken : T.entriesOf src dest o = (T.taken src moved handle).entriesOf src dest o +
        if moved = true ∧ obj = o then 1 else 0 := Tables.entriesOf_taken hobj
    rw [Tables.entriesOf_put hfree]
    cases moved with
    | false => simp_all
    | true =>
      simp only [true_and] at htaken
      simp
      omega

/-- An entry that a turn does not move out of the source stays. -/
theorem HandleTurn.kept (h : HandleTurn src dest moved handle T r T') {pid : ProcessId}
    {g : Handle} {o : ObjId} (hg : (T pid).get g = some o)
    (hne : ¬ (pid = src ∧ moved = true ∧ handle = some g)) : (T' pid).get g = some o := by
  cases h with
  | null => exact hg
  | missing _ => exact hg
  | @given _ handle handle' obj hobj hfree =>
    have htaken : (T.taken src moved handle pid).get g = some o := by
      by_cases hp : pid = src
      · cases moved with
        | false => exact hg
        | true =>
          subst hp
          rw [Tables.taken_moved, OrderedMap.get_erase, if_neg]
          · exact hg
          · intro heq
            exact hne ⟨rfl, rfl, by rw [heq]⟩
      · rw [Tables.taken_of_ne T hp]
        exact hg
    by_cases hp : pid = dest
    · subst hp
      rw [Tables.put_self, OrderedMap.get_insert, if_neg]
      · exact htaken
      · -- the handle given was not in use
        intro heq
        rw [heq, hfree] at htaken
        cases htaken
    · rw [Tables.put_of_ne _ hp]
      exact htaken

/-- What a turn adds, it gives to the destination. -/
theorem HandleTurn.fresh (h : HandleTurn src dest moved handle T r T') {pid : ProcessId}
    {g : Handle} {o : ObjId} (hg : (T' pid).get g = some o) :
    (T pid).get g = some o ∨ pid = dest ∧ r = some (o, g) := by
  cases h with
  | null => exact Or.inl hg
  | missing _ => exact Or.inl hg
  | @given _ handle handle' obj hobj hfree =>
    have hback : (T.taken src moved handle pid).get g = some o → (T pid).get g = some o := by
      intro htaken
      by_cases hp : pid = src
      · cases moved with
        | false => exact htaken
        | true =>
          subst hp
          rw [Tables.taken_moved, OrderedMap.get_erase] at htaken
          split at htaken
          · cases htaken
          · exact htaken
      · rw [Tables.taken_of_ne T hp] at htaken
        exact htaken
    by_cases hp : pid = dest
    · subst hp
      rw [Tables.put_self, OrderedMap.get_insert] at hg
      split at hg
      · rename_i heq
        rw [heq]
        injection hg with hg
        exact Or.inr ⟨rfl, by rw [hg]⟩
      · exact Or.inl (hback hg)
    · rw [Tables.put_of_ne _ hp] at hg
      exact Or.inl (hback hg)

theorem HandleTurn.others (h : HandleTurn src dest moved handle T r T') {pid : ProcessId}
    (hs : pid ≠ src) (hd : pid ≠ dest) : T' pid = T pid := by
  cases h with
  | null => rfl
  | missing _ => rfl
  | given _ _ => rw [Tables.put_of_ne _ hd, Tables.taken_of_ne _ hs]

end Turn

section Turns

variable {src dest : ProcessId} {handles : List (Bool × Option Handle)} {T T' : Tables}
  {rs : List (Option (ObjId × Handle))}

/-- Every object gains one entry for each copied handle given as it, and none for a moved
    one. -/
theorem HandleTurns.count (h : HandleTurns src dest handles T rs T') (o : ObjId) :
    T'.entriesOf src dest o = T.entriesOf src dest o + copies handles rs o := by
  induction h with
  | nil => rfl
  | cons hone _ ih =>
    have hcount := hone.count o
    rw [ih, hcount]
    unfold copies
    rw [List.zip_cons_cons, List.countP_cons]
    dsimp only
    omega

theorem HandleTurns.kept (h : HandleTurns src dest handles T rs T') {pid : ProcessId}
    {g : Handle} {o : ObjId} (hg : (T pid).get g = some o)
    (hne : pid = src → (true, some g) ∉ handles) : (T' pid).get g = some o := by
  induction h with
  | nil => exact hg
  | cons hone _ ih =>
    refine ih (hone.kept hg ?_) fun hp hmem => hne hp (List.mem_cons_of_mem _ hmem)
    rintro ⟨hp, rfl, rfl⟩
    exact hne hp List.mem_cons_self

theorem HandleTurns.fresh (h : HandleTurns src dest handles T rs T') {pid : ProcessId}
    {g : Handle} {o : ObjId} (hg : (T' pid).get g = some o) :
    (T pid).get g = some o ∨ pid = dest ∧ some (o, g) ∈ rs := by
  induction h with
  | nil => exact Or.inl hg
  | cons hone _ ih =>
    rcases ih hg with hT | ⟨hp, hmem⟩
    · rcases hone.fresh hT with hT | ⟨hp, rfl⟩
      · exact Or.inl hT
      · exact Or.inr ⟨hp, List.mem_cons_self⟩
    · exact Or.inr ⟨hp, List.mem_cons_of_mem _ hmem⟩

theorem HandleTurns.others (h : HandleTurns src dest handles T rs T') {pid : ProcessId}
    (hs : pid ≠ src) (hd : pid ≠ dest) : T' pid = T pid := by
  induction h with
  | nil => rfl
  | cons hone _ ih => rw [ih, hone.others hs hd]

theorem HandleTurns.append {handles' : List (Bool × Option Handle)} {T'' : Tables}
    {rs' : List (Option (ObjId × Handle))} (h : HandleTurns src dest handles T rs T')
    (h' : HandleTurns src dest handles' T' rs' T'') :
    HandleTurns src dest (handles ++ handles') T (rs ++ rs') T'' := by
  induction h with
  | nil => exact h'
  | cons hone _ ih => exact .cons hone (ih h')

end Turns

/-! ## The calls as turns -/

namespace Kernel

/-- The handle tables of a kernel; a process that is not there has none. -/
def tables (k : Kernel) : Tables := fun pid =>
  ((k.process? pid).map fun process => process.objects.objects).getD OrderedMap.empty

theorem tables_of_process {k : Kernel} {pid : ProcessId} {p : CommonProcess}
    (h : k.process? pid = some p) : k.tables pid = p.objects.objects := by
  unfold tables
  rw [h]
  rfl

theorem tables_setProcess {k : Kernel} {pid : ProcessId} {p q : CommonProcess}
    (h : k.process? pid = some q) (hp : p.pid = pid) :
    (k.setProcess p).tables = Function.update k.tables pid p.objects.objects := by
  funext x
  unfold tables
  rw [process?_setProcess, hp]
  by_cases hx : x = pid
  · rw [if_pos hx, hx, h, Function.update_self]
    rfl
  · rw [if_neg hx, Function.update_of_ne hx]

section Calls

variable {rng : Nat → UInt32} {fuel : Nat} {src dest : ProcessId} {moved : Bool} {k k' : Kernel}

theorem takeHandle_turn {handle : Handle} {kobj : Option ObjId}
    (h : k.takeHandle src moved handle = .ret (kobj, k')) :
    (k.tables src).get handle = kobj ∧ k'.tables = k.tables.taken src moved handle := by
  unfold takeHandle at h
  obtain ⟨p, hp, h⟩ := Outcome.bind_eq_ret.mp h
  have hproc := findCommonProcess_eq_ret.mp hp
  have htable := tables_of_process hproc
  cases moved with
  | false =>
    injection h with h
    obtain ⟨rfl, rfl⟩ := Prod.mk.inj h
    rw [htable]
    exact ⟨rfl, rfl⟩
  | true =>
    injection h with h
    obtain ⟨rfl, rfl⟩ := Prod.mk.inj h
    have hpid : p.pid = src := process?_pid hproc
    rw [htable, tables_setProcess (p := (p.lookupCloseHandle handle).2) hproc hpid]
    refine ⟨rfl, ?_⟩
    unfold Tables.taken
    rw [if_pos rfl, htable]
    rfl

theorem giveHandle_turn {handle : Handle} {obj : ObjId}
    (h : k.giveHandle rng fuel dest obj = .ret (handle, k')) :
    (k.tables dest).get handle = none ∧ k'.tables = k.tables.put dest handle obj := by
  unfold giveHandle at h
  obtain ⟨p, hp, h⟩ := Outcome.bind_eq_ret.mp h
  obtain ⟨⟨handle', p'⟩, hnew, h⟩ := Outcome.bind_eq_ret.mp h
  obtain ⟨⟨handle'', table⟩, hins, hnew⟩ := Outcome.bind_eq_ret.mp hnew
  injection hnew with hnew
  obtain ⟨rfl, rfl⟩ := Prod.mk.inj hnew
  injection h with h
  obtain ⟨rfl, rfl⟩ := Prod.mk.inj h
  obtain ⟨hfree, hobjects, _⟩ := ObjectTable.insert_eq_ret hins
  have hproc := findCommonProcess_eq_ret.mp hp
  have htable := tables_of_process hproc
  have hpid : p.pid = dest := process?_pid hproc
  refine ⟨by rw [htable]; exact hfree, ?_⟩
  rw [tables_setProcess hproc (p := { p with objects := table }) hpid]
  unfold Tables.put
  rw [htable]
  exact congrArg (Function.update k.tables dest) hobjects

/-- A call for one handle is its turn, and returns the handle given. -/
theorem translateHandle_turn {handle handle' : Option Handle}
    (h : translateHandle rng fuel src dest moved handle k = .ret (handle', k')) :
    ∃ r, HandleTurn src dest moved handle k.tables r k'.tables ∧ handle' = r.map Prod.snd := by
  cases handle with
  | none =>
    injection h with h
    obtain ⟨rfl, rfl⟩ := Prod.mk.inj h
    exact ⟨none, .null, rfl⟩
  | some handle =>
    unfold translateHandle at h
    dsimp only at h
    obtain ⟨⟨kobj, k1⟩, htake, h⟩ := Outcome.bind_eq_ret.mp h
    obtain ⟨hget, htaken⟩ := takeHandle_turn htake
    cases kobj with
    | none =>
      injection h with h
      obtain ⟨rfl, rfl⟩ := Prod.mk.inj h
      refine ⟨none, ?_, rfl⟩
      -- a handle that is not there leaves nothing behind
      have hsame : k.tables.taken src moved handle = k.tables := by
        unfold Tables.taken
        rw [OrderedMap.erase_of_get_none hget, Function.update_eq_self, ite_self]
      rw [htaken, hsame]
      exact .missing hget
    | some obj =>
      obtain ⟨⟨given, k2⟩, hgive, h⟩ := Outcome.bind_eq_ret.mp h
      injection h with h
      obtain ⟨rfl, rfl⟩ := Prod.mk.inj h
      obtain ⟨hfree, hput⟩ := giveHandle_turn hgive
      rw [htaken] at hfree hput
      refine ⟨some (obj, given), ?_, rfl⟩
      rw [hput]
      exact .given hget hfree

theorem translateHandles_turns {handles handles' : List (Option Handle)}
    (h : translateHandles rng fuel src dest moved handles k = .ret (handles', k')) :
    ∃ rs, HandleTurns src dest (handles.map fun handle => (moved, handle)) k.tables rs k'.tables := by
  induction handles generalizing k handles' with
  | nil =>
    injection h with h
    obtain ⟨_, rfl⟩ := Prod.mk.inj h
    exact ⟨[], .nil⟩
  | cons handle handles ih =>
    unfold translateHandles at h
    obtain ⟨⟨handle', k1⟩, hone, h⟩ := Outcome.bind_eq_ret.mp h
    obtain ⟨⟨rest, k2⟩, hrest, h⟩ := Outcome.bind_eq_ret.mp h
    injection h with h
    obtain ⟨_, rfl⟩ := Prod.mk.inj h
    obtain ⟨r, hturn, _⟩ := translateHandle_turn hone
    obtain ⟨rs, hturns⟩ := ih hrest
    exact ⟨r :: rs, .cons hturn hturns⟩

/-- The handles that a parameter names, each with the parameter's flag. -/
def namedBy : IPCTranslateParameter → List (Bool × Option Handle)
  | .handle moved _ handles => handles.asSlice.map fun handle => (moved, handle)
  | _ => []

theorem translateParam_turns {param : IPCTranslateParameter} {writer writer' : MessageWriter}
    (h : translateParam rng fuel src dest param writer k = .ret (writer', k')) :
    ∃ rs, HandleTurns src dest (namedBy param) k.tables rs k'.tables := by
  cases param with
  | staticBuffer _ _ _ =>
    injection h with h
    obtain ⟨_, rfl⟩ := Prod.mk.inj h
    exact ⟨[], .nil⟩
  | bufferMapping _ _ _ =>
    injection h with h
    obtain ⟨_, rfl⟩ := Prod.mk.inj h
    exact ⟨[], .nil⟩
  | handle moved callingProcess handles =>
    unfold translateParam at h
    dsimp only at h
    obtain ⟨⟨handles', k1⟩, htrans, h⟩ := Outcome.bind_eq_ret.mp h
    obtain ⟨writer1, _, h⟩ := Outcome.bind_eq_ret.mp h
    injection h with h
    obtain ⟨_, rfl⟩ := Prod.mk.inj h
    unfold translateIPCHandles at htrans
    cases handles with
    | single handle =>
      obtain ⟨⟨handle', k2⟩, hone, htrans⟩ := Outcome.bind_eq_ret.mp htrans
      injection htrans with htrans
      obtain ⟨_, rfl⟩ := Prod.mk.inj htrans
      obtain ⟨r, hturn, _⟩ := translateHandle_turn hone
      exact ⟨[r], .cons hturn .nil⟩
    | multiple handles =>
      obtain ⟨⟨rest, k2⟩, hall, htrans⟩ := Outcome.bind_eq_ret.mp htrans
      injection htrans with htrans
      obtain ⟨_, rfl⟩ := Prod.mk.inj htrans
      exact translateHandles_turns hall

/-- The loop makes the turns of the handles that the reader yields, in order. -/
theorem translateParams_turns {n : Nat} {reader : IPCReader} {writer writer' : MessageWriter}
    (h : translateParams rng fuel src dest n reader writer k = .ret (writer', k')) :
    ∃ params reader' rs, drainTranslate n reader = .ret (params, reader') ∧
      reader'.hasMoreTranslateParams = false ∧
      HandleTurns src dest (params.flatMap namedBy) k.tables rs k'.tables := by
  induction n generalizing reader writer k with
  | zero => cases h
  | succ n ih =>
    unfold translateParams at h
    rw [drainTranslate]
    cases hmore : reader.hasMoreTranslateParams with
    | false =>
      rw [hmore] at h
      injection h with h
      obtain ⟨_, rfl⟩ := Prod.mk.inj h
      exact ⟨[], reader, [], rfl, hmore, .nil⟩
    | true =>
      rw [hmore, if_pos rfl] at h
      obtain ⟨⟨param, reader1⟩, hread, h⟩ := Outcome.bind_eq_ret.mp h
      obtain ⟨⟨writer1, k1⟩, hparam, h⟩ := Outcome.bind_eq_ret.mp h
      obtain ⟨rs, hturns⟩ := translateParam_turns hparam
      obtain ⟨params, reader', rs', hdrain, hend, hturns'⟩ := ih h
      refine ⟨param :: params, reader', rs ++ rs', ?_, hend, ?_⟩
      · rw [if_pos rfl, hread, Outcome.ret_bind]
        dsimp only
        rw [hdrain, Outcome.ret_bind]
        rfl
      · rw [List.flatMap_cons]
        exact hturns.append hturns'

theorem translateNormals_drain {n : Nat} {reader reader' : IPCReader}
    {writer writer' : MessageWriter}
    (h : translateNormals n reader writer = .ret (reader', writer')) :
    ∃ words, drainNormal n reader = .ret (words, reader') := by
  induction n generalizing reader writer with
  | zero =>
    injection h with h
    obtain ⟨rfl, _⟩ := Prod.mk.inj h
    exact ⟨[], rfl⟩
  | succ n ih =>
    unfold translateNormals at h
    obtain ⟨⟨word, reader1⟩, hread, h⟩ := Outcome.bind_eq_ret.mp h
    obtain ⟨writer1, _, h⟩ := Outcome.bind_eq_ret.mp h
    obtain ⟨words, hwords⟩ := ih h
    refine ⟨word :: words, ?_⟩
    rw [drainNormal, hread, Outcome.ret_bind]
    dsimp only
    rw [hwords, Outcome.ret_bind]
    rfl

end Calls

/-- What the translation of a message that names `handles` conserves, from process `src` to
    process `dest`: handle by handle, `given` is what was given for it; then the count of each
    object, the entries that are not moved, what is added, and every other process. -/
structure Conserves (k k' : Kernel) (src dest : ProcessId) (handles : List (Bool × Option Handle))
    (given : List (Option (ObjId × Handle))) : Prop where
  turns : HandleTurns src dest handles k.tables given k'.tables
  count : ∀ obj, k'.tables.entriesOf src dest obj =
    k.tables.entriesOf src dest obj + copies handles given obj
  kept : ∀ pid handle obj, (k.tables pid).get handle = some obj →
    (pid = src → (true, some handle) ∉ handles) → (k'.tables pid).get handle = some obj
  added : ∀ pid handle obj, (k'.tables pid).get handle = some obj →
    (k.tables pid).get handle = some obj ∨ pid = dest ∧ some (obj, handle) ∈ given
  others : ∀ pid, pid ≠ src → pid ≠ dest → k'.tables pid = k.tables pid

/-- **Handle translation conserves objects**, for every message that is translated and every
    pair of handle tables, one table for both included. -/
theorem translateIpc_conserves {rng : Nat → UInt32} {fuel : Nat} {k k' : Kernel}
    {src dest : ThreadIndex} {reply : Bool}
    (h : k.translateIpc rng fuel src dest reply = .ret k') :
    ∃ s d header result normals params given, k.findThreadPair src dest = .ret (s, d) ∧
      Decodes (readerFor reply s.ipcData) header result normals params ∧
      Conserves k k' s.pid d.pid (params.flatMap namedBy) given := by
  unfold translateIpc at h
  obtain ⟨⟨s, d⟩, hpair, h⟩ := Outcome.bind_eq_ret.mp h
  obtain ⟨p, hp, h⟩ := Outcome.bind_eq_ret.mp h
  obtain ⟨q, hq, h⟩ := Outcome.bind_eq_ret.mp h
  obtain ⟨reader, hreader, h⟩ := Outcome.bind_eq_ret.mp h
  obtain ⟨writer, _, h⟩ := Outcome.bind_eq_ret.mp h
  obtain ⟨⟨reader1, writer1⟩, hnormals, h⟩ := Outcome.bind_eq_ret.mp h
  obtain ⟨⟨writer2, k1⟩, hparams, h⟩ := Outcome.bind_eq_ret.mp h
  obtain ⟨bytes, _, h⟩ := Outcome.bind_eq_ret.mp h
  injection h with h
  subst h
  obtain ⟨words, hwords⟩ := translateNormals_drain hnormals
  obtain ⟨params, reader2, given, hdrain, hend, hturns⟩ := translateParams_turns hparams
  have hps : p.pid = s.pid := process?_pid (findCommonProcess_eq_ret.mp hp)
  have hqd : q.pid = d.pid := process?_pid (findCommonProcess_eq_ret.mp hq)
  rw [hps, hqd] at hturns
  refine ⟨s, d, reader.header, reader.result, words, params, given, hpair,
    ⟨reader, reader1, reader2, fuel, hreader, rfl, rfl, hwords, hdrain, hend⟩, ?_⟩
  exact {
    turns := hturns
    count := hturns.count
    kept := fun _ _ _ hg hne => hturns.kept hg hne
    added := fun _ _ _ hg => hturns.fresh hg
    others := fun _ hs hd => hturns.others hs hd }

theorem translateIpc_conserves_sample :
    ∃ k', sampleKernel.translateIpc UInt32.ofNat 100 0 1 false = .ret k' ∧
      ∃ s d header result normals params given, sampleKernel.findThreadPair 0 1 = .ret (s, d) ∧
        Decodes (readerFor false s.ipcData) header result normals params ∧
        Conserves sampleKernel k' s.pid d.pid (params.flatMap namedBy) given := by
  have hret : (sampleKernel.translateIpc UInt32.ofNat 100 0 1 false).value?.isSome = true := by
    decide +kernel
  obtain ⟨k', hk⟩ := Option.isSome_iff_exists.mp hret
  have hcall := Outcome.value?_eq_some.mp hk
  exact ⟨k', hcall, translateIpc_conserves hcall⟩

end Kernel

end Pomelo
