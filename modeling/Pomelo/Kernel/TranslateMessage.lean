/-
  `translate_ipc` preserves the message.

  `HoldsMessage` says that a buffer holds a well-formed message, `translatedParams` is what
  becomes of its parameters: the handle parameters with every handle translated, in order, and
  no other. The loop of `translate_ipc` writes exactly these (`translateParams_settles`), so
  the destination decodes to them (`translateIpc_preserves`).
-/
import Pomelo.Kernel.Translate
import Pomelo.Ipc.RoundTrip

namespace Pomelo

open Lib Outcome

/-! ## Messages -/

/-- The word where the parameters of a request or a reply start. -/
def messageStart (reply : Bool) : Nat := if reply then 2 else 1

/-- The buffer holds a message: its translate words are exactly a sequence of groups, and the
    words it announces fit in the buffer. -/
structure HoldsMessage (reply : Bool) (data : List UInt8) (header : IPCHeaderCode)
    (result : UInt32) (normals : List UInt32) (params : List IPCTranslateParameter) : Prop where
  length : data.length = 256
  header_eq : header = IPCHeaderCode.ofWord (wordAt data 0)
  result_eq : result = if reply then wordAt data 1 else 0
  normals_eq : normals = wordsFrom data (messageStart reply) header.normalParameterCount.toNat
  fits : messageStart reply + header.normalParameterCount.toNat +
    header.translateParameterSize.toNat ≤ 64
  groups : parseGroups IPCReader.permission
    (wordsFrom data (messageStart reply + header.normalParameterCount.toNat)
      header.translateParameterSize.toNat) = some params

/-- What the decoder makes of a parameter: the handles of the calling process stand for it. -/
def decodedParam : IPCTranslateParameter → IPCTranslateParameter
  | .handle moved callingProcess handles =>
    .handle moved callingProcess (handlesOf (handles.asSlice.map (readAs callingProcess)))
  | param => param

/-- The flags and the number of handles of a handle parameter. -/
def handleShape : IPCTranslateParameter → Option (Bool × Bool × Nat)
  | .handle moved callingProcess handles => some (moved, callingProcess, handles.asSlice.length)
  | _ => none

/-- The words that the parameters take in the destination's message. -/
def writtenWords : List IPCTranslateParameter → Nat
  | [] => 0
  | .handle _ _ handles :: params => handles.asSlice.length + 1 + writtenWords params
  | _ :: params => writtenWords params

/-- The handle parameters with their handles translated, one after the other. -/
def translatedParams (rng : Nat → UInt32) (fuel : Nat) (src dest : ProcessId) :
    List IPCTranslateParameter → Kernel → Exec (List IPCTranslateParameter × Kernel)
  | [], k => return ([], k)
  | .handle moved callingProcess handles :: params, k => do
    let (handles, k) ← Kernel.translateIPCHandles rng fuel src dest moved handles k
    let (params, k) ← translatedParams rng fuel src dest params k
    return (.handle moved callingProcess handles :: params, k)
  | _ :: params, k => translatedParams rng fuel src dest params k

theorem writtenWords_toParameter (ps : List HandleParameter) :
    writtenWords (ps.map HandleParameter.toParameter) =
      (ps.flatMap HandleParameter.words).length := by
  induction ps with
  | nil => rfl
  | cons p ps ih =>
    rw [List.flatMap_cons, List.length_append, p.words_length, ← ih]
    rfl

theorem parseGroups_eq_nil {permission : UInt32 → UInt8} {ws : List UInt32}
    (h : parseGroups permission ws = some []) : ws = [] := by
  cases ws with
  | nil => rfl
  | cons w ws =>
    rw [parseGroups] at h
    split at h
    · cases h
    · obtain ⟨qs, _, hq⟩ := Option.map_eq_some_iff.mp h
      cases hq

theorem parseGroups_eq_cons {permission : UInt32 → UInt8} {ws : List UInt32}
    {p : IPCTranslateParameter} {ps : List IPCTranslateParameter}
    (h : parseGroups permission ws = some (p :: ps)) :
    ∃ rest, parseGroup permission ws = some (p, rest) ∧ parseGroups permission rest = some ps := by
  cases ws with
  | nil =>
    rw [parseGroups] at h
    cases h
  | cons w ws =>
    rw [parseGroups] at h
    split at h
    · cases h
    · rename_i q rest hg
      obtain ⟨qs, hqs, hq⟩ := Option.map_eq_some_iff.mp h
      obtain ⟨rfl, rfl⟩ := List.cons.inj hq
      exact ⟨rest, hg, hqs⟩

/-- A handle parameter takes as many words as its descriptor and its handles. -/
theorem parseGroup_handle {permission : UInt32 → UInt8} {ws rest : List UInt32}
    {moved callingProcess : Bool} {handles : IPCHandles}
    (h : parseGroup permission ws = some (.handle moved callingProcess handles, rest)) :
    handles.asSlice ≠ [] ∧ ws.length = 1 + handles.asSlice.length + rest.length := by
  cases ws with
  | nil => cases h
  | cons d ws =>
    rw [parseGroup] at h
    split at h
    · obtain ⟨hs, hn, rfl, hp⟩ := parseHandle_eq_some h
      obtain ⟨rfl, rfl, rfl⟩ := IPCTranslateParameter.handle.inj hp
      rw [asSlice_handlesOf]
      refine ⟨fun hnil => ?_, by simp; omega⟩
      rw [List.map_eq_nil_iff] at hnil
      rw [hnil] at hn
      simp at hn
    · cases ws with
      | nil => cases h
      | cons ptr ws =>
        rw [parseBuffer] at h
        injection h with h
        obtain ⟨h, _⟩ := Prod.mk.inj h
        split at h <;> cases h

namespace Kernel

/-! ## Handles -/

/-- Both processes are there, and the table of `dest` has at most `n` handles. -/
def HandleRoom (src dest : ProcessId) (n : Nat) (k : Kernel) : Prop :=
  (k.process? src).isSome ∧ ∃ p, k.process? dest = some p ∧ p.objects.size ≤ n

theorem setProcess_eq (k : Kernel) (p : CommonProcess) :
    ∃ ps, k.setProcess p = { k with processes := ps } :=
  ⟨_, rfl⟩

theorem process?_pid {k : Kernel} {pid : ProcessId} {p : CommonProcess}
    (h : k.process? pid = some p) : p.pid = pid :=
  key_of_findKey h

/-- Putting a process back keeps every process, and the size of `dest`'s table where the one
    put back is not larger. -/
theorem HandleRoom.setProcess {src dest pid : ProcessId} {n m : Nat} {k : Kernel}
    {p : CommonProcess} (h : HandleRoom src dest n k) (hpid : p.pid = pid) (hnm : n ≤ m)
    (hsize : pid = dest → p.objects.size ≤ m) : HandleRoom src dest m (k.setProcess p) := by
  obtain ⟨hsrc, q, hq, hle⟩ := h
  constructor
  · rw [process?_setProcess]
    split
    · rw [Option.isSome_map]
      exact hsrc
    · exact hsrc
  · rw [process?_setProcess]
    by_cases hd : dest = p.pid
    · rw [if_pos hd, hq]
      exact ⟨p, rfl, hsize (by rw [← hpid, hd])⟩
    · rw [if_neg hd]
      exact ⟨q, hq, by omega⟩

section Settle

variable {rng : Nat → UInt32} {src dest : ProcessId} {size : Nat}
  (hfresh : ObjectTable.Fresh rng size)

theorem takeHandle_ret {n : Nat} {k : Kernel} (moved : Bool) (handle : Handle)
    (h : HandleRoom src dest n k) :
    ∃ kobj ps, k.takeHandle src moved handle = .ret (kobj, { k with processes := ps }) ∧
      HandleRoom src dest n { k with processes := ps } := by
  obtain ⟨p, hp⟩ := Option.isSome_iff_exists.mp h.1
  have hfind : k.findCommonProcess src = .ret p := findCommonProcess_eq_ret.mpr hp
  unfold takeHandle
  rw [hfind, ret_bind]
  cases moved with
  | false => exact ⟨_, k.processes, rfl, h⟩
  | true =>
    obtain ⟨ps, hps⟩ := k.setProcess_eq (p.lookupCloseHandle handle).2
    refine ⟨_, ps, by rw [← hps]; rfl, ?_⟩
    rw [← hps]
    have hpid : p.pid = src := process?_pid hp
    refine h.setProcess hpid (Nat.le_refl _) fun hd => ?_
    obtain ⟨q, hq, hle⟩ := h.2
    rw [hd, hq] at hp
    injection hp with hp
    have hremove := ObjectTable.size_remove_le p.objects handle
    rw [← hp] at hremove ⊢
    exact Nat.le_trans hremove hle

include hfresh

theorem giveHandle_settles {n : Nat} {k : Kernel} (obj : ObjId) (h : HandleRoom src dest n k)
    (hn : n ≤ size) :
    ∃ handle ps, Settles (fun fuel => k.giveHandle rng fuel dest obj)
        (handle, { k with processes := ps }) ∧
      HandleRoom src dest (n + 1) { k with processes := ps } := by
  obtain ⟨p, hp, hle⟩ := h.2
  have hfresh' : ObjectTable.Fresh rng p.objects.size := fun used hu => hfresh used (by omega)
  obtain ⟨handle, table, hins, hsize⟩ := ObjectTable.insert_settles obj hfresh'
  obtain ⟨ps, hps⟩ := k.setProcess_eq { p with objects := table }
  have hfind : k.findCommonProcess dest = .ret p := findCommonProcess_eq_ret.mpr hp
  have hpid : p.pid = dest := process?_pid hp
  have hnew : Settles (fun fuel => p.newHandle rng fuel obj) (handle, { p with objects := table }) :=
    hins.bind (settles_ret _)
  refine ⟨handle, ps, ?_, ?_⟩
  · unfold giveHandle
    rw [hfind, ← hps]
    exact (settles_ret p).bind (hnew.bind (settles_ret _))
  · rw [← hps]
    refine h.setProcess hpid (by omega) fun _ => ?_
    show table.size ≤ n + 1
    omega

theorem translateHandle_settles {n : Nat} {k : Kernel} (moved : Bool) (handle : Option Handle)
    (h : HandleRoom src dest n k) (hn : n ≤ size) :
    ∃ handle' ps, Settles (fun fuel => translateHandle rng fuel src dest moved handle k)
        (handle', { k with processes := ps }) ∧
      HandleRoom src dest (n + 1) { k with processes := ps } := by
  have hgrow : ∀ k', HandleRoom src dest n k' → HandleRoom src dest (n + 1) k' :=
    fun k' ⟨h1, p, h2, h3⟩ => ⟨h1, p, h2, by omega⟩
  cases handle with
  | none => exact ⟨none, k.processes, settles_ret _, hgrow _ h⟩
  | some handle =>
    obtain ⟨kobj, ps, htake, hroom⟩ := takeHandle_ret moved handle h
    unfold translateHandle
    dsimp only
    rw [htake]
    cases kobj with
    | none => exact ⟨none, ps, settles_ret _, hgrow _ hroom⟩
    | some obj =>
      obtain ⟨handle', ps', hgive, hroom'⟩ := giveHandle_settles hfresh obj hroom hn
      exact ⟨some handle', ps', (settles_ret _).bind (hgive.bind (settles_ret _)), hroom'⟩

theorem translateHandles_settles {n : Nat} {k : Kernel} (moved : Bool)
    (handles : List (Option Handle)) (h : HandleRoom src dest n k)
    (hn : n + handles.length ≤ size + 1) :
    ∃ handles' ps, Settles (fun fuel => translateHandles rng fuel src dest moved handles k)
        (handles', { k with processes := ps }) ∧ handles'.length = handles.length ∧
      HandleRoom src dest (n + handles.length) { k with processes := ps } := by
  induction handles generalizing n k with
  | nil => exact ⟨[], k.processes, settles_ret _, rfl, h⟩
  | cons handle handles ih =>
    rw [List.length_cons] at hn
    obtain ⟨handle', ps, hone, hroom⟩ :=
      translateHandle_settles hfresh moved handle h (by omega)
    obtain ⟨handles', ps', hrest, hlen, hroom'⟩ := ih hroom (by omega)
    refine ⟨handle' :: handles', ps', hone.bind (hrest.bind (settles_ret _)), by simp [hlen], ?_⟩
    have hsum : n + 1 + handles.length = n + (handle :: handles).length := by
      rw [List.length_cons]
      omega
    rw [← hsum]
    exact hroom'

theorem translateIPCHandles_settles {n : Nat} {k : Kernel} (moved : Bool) (handles : IPCHandles)
    (h : HandleRoom src dest n k) (hn : n + handles.asSlice.length ≤ size + 1) :
    ∃ handles' ps, Settles (fun fuel => translateIPCHandles rng fuel src dest moved handles k)
        (handles', { k with processes := ps }) ∧
      handles'.asSlice.length = handles.asSlice.length ∧
      HandleRoom src dest (n + handles.asSlice.length) { k with processes := ps } := by
  cases handles with
  | single handle =>
    obtain ⟨handle', ps, hone, hroom⟩ :=
      translateHandle_settles hfresh moved handle h (by simpa [IPCHandles.asSlice] using hn)
    exact ⟨.single handle', ps, hone.bind (settles_ret _), rfl, hroom⟩
  | multiple handles =>
    obtain ⟨handles', ps, hall, hlen, hroom⟩ := translateHandles_settles hfresh moved handles h hn
    exact ⟨.multiple handles', ps, hall.bind (settles_ret _), hlen, hroom⟩

end Settle

/-! ## The loops -/

theorem translateNormals_at (header : IPCHeaderCode) (result : UInt32) (commandId : UInt16)
    (t : Nat) {data dd : List UInt8} {i j n : Nat} {ws : List UInt32} (hh : Holds data i ws)
    (hlen : ws.length < 256) (hd : 4 * (j + ws.length) ≤ dd.length) (hn : n + ws.length < 256) :
    translateNormals ws.length (messageAt header result data i ws.length t)
        (writerAt commandId dd j n 0) =
      .ret (messageAt header result data (i + ws.length) 0 t,
        writerAt commandId (setWords dd j ws) (j + ws.length) (n + ws.length) 0) := by
  induction ws generalizing i j n dd with
  | nil => rfl
  | cons w ws ih =>
    obtain ⟨hle, hw, hrest⟩ := hh
    rw [List.length_cons] at hlen hd hn ⊢
    have hdle : 4 * j + 4 ≤ dd.length := by omega
    have hi : i + (ws.length + 1) = i + 1 + ws.length := by omega
    have hj : j + (ws.length + 1) = j + 1 + ws.length := by omega
    have hc : n + (ws.length + 1) = n + 1 + ws.length := by omega
    rw [translateNormals, messageAt_readNormal t hle hlen, ret_bind]
    dsimp only
    rw [hw, writeNormal_at w hdle (by omega), ret_bind, hi, hj, hc]
    exact ih hrest (by omega) (by rw [setWord_length w hdle]; omega) (by omega)

/-- The loop over translate parameters `params`, read from the words `ws`, writes the
    translated handle parameters `outs` and nothing else, wherever reader and writer stand. -/
def WritesTranslated (rng : Nat → UInt32) (src dest : ProcessId)
    (params : List IPCTranslateParameter) (ws : List UInt32) (data : List UInt8) (i : Nat)
    (k : Kernel) : Prop :=
  ∃ (outs : List HandleParameter) (ps : List CommonProcess),
    Settles (fun fuel => translatedParams rng fuel src dest params k)
      (outs.map HandleParameter.toParameter, { k with processes := ps }) ∧
    (outs.flatMap HandleParameter.words).length ≤ ws.length ∧
    (outs.map fun p => handleShape p.toParameter) =
      (params.map handleShape).filter Option.isSome ∧
    ∀ header result commandId dd j c t,
      4 * (j + (outs.flatMap HandleParameter.words).length) ≤ dd.length →
      t + (outs.flatMap HandleParameter.words).length < 256 →
      ∃ f, ∀ fuel, f ≤ fuel → ∀ m, ws.length < m →
        translateParams rng fuel src dest m (messageAt header result data i 0 ws.length)
            (writerAt commandId dd j c t) k =
          .ret (writerAt commandId (setWords dd j (outs.flatMap HandleParameter.words))
            (j + (outs.flatMap HandleParameter.words).length) c
            (t + (outs.flatMap HandleParameter.words).length), { k with processes := ps })

section Round

variable {rng : Nat → UInt32} {src dest : ProcessId} {size : Nat} {p : IPCTranslateParameter}
  {params : List IPCTranslateParameter} {ws rest : List UInt32} {data : List UInt8} {i : Nat}

/-- One round of the loop reads a parameter and leaves the reader in front of the rest. -/
theorem translateParams_round (hg : parseGroup IPCReader.permission ws = some (p, rest))
    (hh : Holds data i ws) (hlen : ws.length < 256) :
    ∃ i', Holds data i' rest ∧ ∀ header result m fuel writer k, 0 < m →
      translateParams rng fuel src dest m (messageAt header result data i 0 ws.length) writer k =
        translateParam rng fuel src dest p writer k >>= fun r =>
          translateParams rng fuel src dest (m - 1)
            (messageAt header result data i' 0 rest.length) r.1 r.2 := by
  have hlt := parseGroup_length hg
  obtain ⟨i', _, hh', hi'⟩ := messageAt_readTranslate ⟨0, 0, 0⟩ 0 hh hlen hg
  refine ⟨i', hh', fun header result m fuel writer k hm => ?_⟩
  obtain ⟨i2, hread, _, hi2⟩ := messageAt_readTranslate header result hh hlen hg
  have heq : i2 = i' := by omega
  have hmore : decide (0 < ws.length) = true := decide_eq_true (by omega)
  obtain ⟨m, rfl⟩ : ∃ m', m = m' + 1 := ⟨m - 1, by omega⟩
  rw [translateParams, messageAt_hasMore hlen, hmore, if_pos rfl, hread, ret_bind, heq]
  rfl

/-- A parameter that is no handle parameter is skipped. -/
theorem WritesTranslated.skip {k : Kernel} {i' : Nat} (hshape : handleShape p = none)
    (hg : parseGroup IPCReader.permission ws = some (p, rest))
    (hround : ∀ header result m fuel writer k, 0 < m →
      translateParams rng fuel src dest m (messageAt header result data i 0 ws.length) writer k =
        translateParam rng fuel src dest p writer k >>= fun r =>
          translateParams rng fuel src dest (m - 1)
            (messageAt header result data i' 0 rest.length) r.1 r.2)
    (h : WritesTranslated rng src dest params rest data i' k) :
    WritesTranslated rng src dest (p :: params) ws data i k := by
  have hlt := parseGroup_length hg
  obtain ⟨outs, ps, hsettle, hwords, hshapes, hloop⟩ := h
  have hskip : ∀ fuel writer k, translateParam rng fuel src dest p writer k = .ret (writer, k) := by
    intro fuel writer k
    cases p with
    | handle moved callingProcess handles => cases hshape
    | staticBuffer index bufSize ptr => rfl
    | bufferMapping permission bufSize ptr => rfl
  refine ⟨outs, ps, ?_, by omega, ?_, ?_⟩
  · cases p with
    | handle moved callingProcess handles => cases hshape
    | staticBuffer index bufSize ptr => exact hsettle
    | bufferMapping permission bufSize ptr => exact hsettle
  · rw [List.map_cons, hshape, List.filter_cons_of_neg (by simp), hshapes]
  · intro header result commandId dd j c t hd ht
    obtain ⟨f, hf⟩ := hloop header result commandId dd j c t hd ht
    refine ⟨f, fun fuel hfuel m hm => ?_⟩
    rw [hround header result m fuel _ k (by omega), hskip, ret_bind, hf fuel hfuel _ (by omega)]

/-- A handle parameter is written with its handles translated. -/
theorem WritesTranslated.handle {k : Kernel} {i' : Nat} {moved callingProcess : Bool}
    {handles handles' : IPCHandles} {ps : List CommonProcess}
    (hg : parseGroup IPCReader.permission ws = some (.handle moved callingProcess handles, rest))
    (hround : ∀ header result m fuel writer k, 0 < m →
      translateParams rng fuel src dest m (messageAt header result data i 0 ws.length) writer k =
        translateParam rng fuel src dest (.handle moved callingProcess handles) writer k >>=
          fun r => translateParams rng fuel src dest (m - 1)
            (messageAt header result data i' 0 rest.length) r.1 r.2)
    (hhandles : Settles (fun fuel => translateIPCHandles rng fuel src dest moved handles k)
      (handles', { k with processes := ps }))
    (hlen : handles'.asSlice.length = handles.asSlice.length)
    (h : WritesTranslated rng src dest params rest data i' { k with processes := ps }) :
    WritesTranslated rng src dest (.handle moved callingProcess handles :: params) ws data i k := by
  obtain ⟨hne, hcount⟩ := parseGroup_handle hg
  obtain ⟨outs, ps', hsettle, hwords, hshapes, hloop⟩ := h
  have hne' : handles'.asSlice ≠ [] := by
    rw [← List.length_pos_iff, hlen]
    exact List.length_pos_iff.mpr hne
  let q : HandleParameter := ⟨moved, callingProcess, handles', hne'⟩
  have hq : q.words.length = 1 + handles.asSlice.length := by
    rw [HandleParameter.words_length, ← hlen]
    exact Nat.add_comm _ _
  have hshape : handleShape q.toParameter =
      handleShape (.handle moved callingProcess handles) := by
    show some (moved, callingProcess, handles'.asSlice.length) = _
    rw [hlen]
    rfl
  refine ⟨q :: outs, ps', hhandles.bind (hsettle.bind (settles_ret _)), ?_, ?_, ?_⟩
  · rw [List.flatMap_cons, List.length_append]
    omega
  · rw [List.map_cons, hshapes, List.map_cons, List.filter_cons_of_pos (by rfl), hshape]
  · intro header result commandId dd j c t hd ht
    rw [List.flatMap_cons, List.length_append] at hd ht ⊢
    obtain ⟨f1, h1⟩ := hhandles
    have hjle : 4 * (j + q.words.length) ≤ dd.length := by omega
    obtain ⟨f2, h2⟩ := hloop header result commandId (setWords dd j q.words)
      (j + q.words.length) c (t + q.words.length) (by rw [setWords_length hjle]; omega) (by omega)
    refine ⟨f1 + f2, fun fuel hfuel m hm => ?_⟩
    have hwrite : (writerAt commandId dd j c t).writeTranslate
        (.handle moved callingProcess handles') = _ := writeTranslate_at q hjle (by omega)
    have hone : translateParam rng fuel src dest (.handle moved callingProcess handles)
        (writerAt commandId dd j c t) k =
        .ret (writerAt commandId (setWords dd j q.words) (j + q.words.length) c
          (t + q.words.length), { k with processes := ps }) := by
      have hret : translateIPCHandles rng fuel src dest moved handles k = _ :=
        h1 fuel (by omega)
      unfold translateParam
      dsimp only
      rw [hret, ret_bind]
      dsimp only
      rw [hwrite, ret_bind]
      rfl
    rw [hround header result m fuel _ k (by omega), hone, ret_bind,
      h2 fuel (by omega) _ (by omega), setWords_append, Nat.add_assoc, Nat.add_assoc]

/-- The loop writes the translated parameters of any sequence of groups. -/
theorem writesTranslated (hfresh : ObjectTable.Fresh rng size) {n : Nat} {k : Kernel}
    (hp : parseGroups IPCReader.permission ws = some params) (hh : Holds data i ws)
    (hlen : ws.length < 64) (hk : HandleRoom src dest n k) (hn : n + ws.length ≤ size + 1) :
    WritesTranslated rng src dest params ws data i k := by
  induction params generalizing ws n k i with
  | nil =>
    have hws := parseGroups_eq_nil hp
    subst hws
    refine ⟨[], k.processes, settles_ret _, Nat.le_refl _, rfl, ?_⟩
    intro header result commandId dd j c t _ _
    refine ⟨0, fun fuel _ m hm => ?_⟩
    obtain ⟨m, rfl⟩ : ∃ m', m = m' + 1 := ⟨m - 1, by omega⟩
    rfl
  | cons p params ih =>
    obtain ⟨rest, hg, hrest⟩ := parseGroups_eq_cons hp
    have hlt := parseGroup_length hg
    obtain ⟨i', hh', hround⟩ := translateParams_round hg hh (by omega)
    cases p with
    | handle moved callingProcess handles =>
      obtain ⟨_, hcount⟩ := parseGroup_handle hg
      obtain ⟨handles', ps, hhandles, hlen', hroom⟩ :=
        translateIPCHandles_settles hfresh moved handles hk (by omega)
      exact WritesTranslated.handle hg hround hhandles hlen'
        (ih hrest hh' (by omega) hroom (by omega))
    | staticBuffer index bufSize ptr =>
      exact WritesTranslated.skip rfl hg hround (ih hrest hh' (by omega) hk (by omega))
    | bufferMapping permission bufSize ptr =>
      exact WritesTranslated.skip rfl hg hround (ih hrest hh' (by omega) hk (by omega))

end Round

/-! ## The whole call -/

theorem findThreadPair_ret {k : Kernel} {a b : ThreadIndex} {s d : CommonThread} (hab : a ≠ b)
    (hn : (k.threads.map CommonThread.index).Nodup) (ha : k.thread? a = some s)
    (hb : k.thread? b = some d) : k.findThreadPair a b = .ret (s, d) := by
  have hs : s.index = a := key_of_findKey ha
  have hd : d.index = b := key_of_findKey hb
  unfold findThreadPair
  rcases filter_two_keys hab hn ha hb with h | h
  · rw [h]
    show Outcome.ret (if s.index = b then (d, s) else (s, d)) = _
    rw [if_neg (by rw [hs]; exact hab)]
  · rw [h]
    show Outcome.ret (if d.index = b then (s, d) else (d, s)) = _
    rw [if_pos hd]

/-- The reader of a message stands in front of its parameters. -/
theorem readerFor_ret {reply : Bool} {data : List UInt8} {header : IPCHeaderCode}
    {result : UInt32} {normals : List UInt32} {params : List IPCTranslateParameter}
    (h : HoldsMessage reply data header result normals params) :
    readerFor reply data = .ret (messageAt header result data (messageStart reply)
      header.normalParameterCount.toNat header.translateParameterSize.toNat) := by
  have hlen := h.length
  have hmessage : ∀ i, messageAt header result data i header.normalParameterCount.toNat
      header.translateParameterSize.toNat =
        ⟨header, result,
          ⟨⟨data, 4 * i⟩, header.normalParameterCount, header.translateParameterSize⟩⟩ := by
    intro i
    unfold messageAt readerAt
    rw [UInt8.ofNat_toNat, UInt8.ofNat_toNat]
  rw [hmessage]
  cases reply with
  | false =>
    show IPCReader.newRequest data = _
    unfold IPCReader.newRequest Cursor.new
    rw [show (0 : Nat) = 4 * 0 from rfl, Cursor.readU32_word (by omega), ret_bind]
    dsimp only
    rw [← h.header_eq, h.result_eq]
    rfl
  | true =>
    show IPCReader.newResponse data = _
    unfold IPCReader.newResponse Cursor.new
    rw [show (0 : Nat) = 4 * 0 from rfl, Cursor.readU32_word (by omega), ret_bind]
    dsimp only
    rw [Cursor.readU32_word (by omega), ret_bind]
    dsimp only
    rw [← h.header_eq, h.result_eq]
    rfl

/-- A message decodes to its parameters. -/
theorem decodes_of_holdsMessage {reply : Bool} {data : List UInt8} {header : IPCHeaderCode}
    {result : UInt32} {normals : List UInt32} {params : List IPCTranslateParameter}
    (h : HoldsMessage reply data header result normals params) :
    Decodes (readerFor reply data) header result normals params := by
  have hfits := h.fits
  have hlen := h.length
  have hstart : 0 < messageStart reply := by cases reply <;> decide
  have hwords : Holds data (messageStart reply) (normals ++
      wordsFrom data (messageStart reply + header.normalParameterCount.toNat)
        header.translateParameterSize.toNat) := by
    rw [holds_append, h.normals_eq, wordsFrom_length]
    exact ⟨holds_wordsFrom (by omega), holds_wordsFrom (by omega)⟩
  have hn : normals.length = header.normalParameterCount.toNat := by
    rw [h.normals_eq, wordsFrom_length]
  refine decodes_of_holds (by rw [hn, UInt8.ofNat_toNat]) (by omega)
    (by rw [wordsFrom_length]; omega) ?_ hwords h.groups
  rw [readerFor_ret h, hn, wordsFrom_length]

/-- What the writer finds in the destination's buffer, before the parameters. -/
def writerBase (reply : Bool) (result : UInt32) (data : List UInt8) : List UInt8 :=
  if reply then setWord (setWord data 0 0) 1 result else setWord data 0 0

theorem writerBase_length (reply : Bool) (result : UInt32) {data : List UInt8}
    (h : data.length = 256) : (writerBase reply result data).length = 256 := by
  have h0 := setWord_length 0 (show 4 * 0 + 4 ≤ data.length by omega)
  cases reply with
  | false => exact h0.trans h
  | true =>
    have h1 := setWord_length result (show 4 * 1 + 4 ≤ (setWord data 0 0).length by omega)
    exact h1.trans (h0.trans h)

theorem wordAt_writerBase (reply : Bool) (result : UInt32) {data : List UInt8}
    (h : data.length = 256) {j : Nat} (hj : messageStart reply ≤ j) :
    wordAt (writerBase reply result data) j = wordAt data j := by
  have hle : 4 * 0 + 4 ≤ data.length := by omega
  have h0 := setWord_length 0 hle
  cases reply with
  | false =>
    have hj1 : 1 ≤ j := hj
    show wordAt (setWord data 0 0) j = _
    rw [wordAt_setWord _ hle, if_neg (by omega)]
  | true =>
    have hj2 : 2 ≤ j := hj
    show wordAt (setWord (setWord data 0 0) 1 result) j = _
    rw [wordAt_setWord _ (by omega), if_neg (by omega), wordAt_setWord _ hle, if_neg (by omega)]

theorem writerFor_ret (reply : Bool) (reader : IPCReader) {data : List UInt8}
    (h : data.length = 256) :
    writerFor reply reader data =
      .ret (writerAt reader.header.commandId (writerBase reply reader.result data)
        (messageStart reply) 0 0) := by
  cases reply with
  | false => exact newRequest_at (by omega)
  | true => exact newResponse_at (by omega)

/-- What a reader of the destination's kind makes of the message written. -/
theorem readerFor_messageBytes (reply : Bool) (commandId : UInt16) (result : UInt32)
    {data : List UInt8} {normals translate : List UInt32} (hd : data.length = 256)
    (hfits : messageStart reply + normals.length + translate.length ≤ 64) :
    readerFor reply (messageBytes commandId (writerBase reply result data) (messageStart reply)
        normals translate) =
      .ret (messageAt ⟨commandId, UInt8.ofNat normals.length, UInt8.ofNat translate.length⟩
        (if reply then result else 0)
        (messageBytes commandId (writerBase reply result data) (messageStart reply) normals
          translate) (messageStart reply) normals.length translate.length) := by
  have hlen := writerBase_length reply result hd
  cases reply with
  | false =>
    have hfits1 : 1 + normals.length + translate.length ≤ 64 := hfits
    exact newRequest_messageBytes commandId (by omega) (by omega) (by omega)
  | true =>
    have hfits2 : 2 + normals.length + translate.length ≤ 64 := hfits
    have hread := newResponse_messageBytes commandId
      (show 4 * (2 + normals.length + translate.length) ≤ (writerBase true result data).length by
        omega) (by omega) (by omega)
    have h0 := setWord_length 0 (show 4 * 0 + 4 ≤ data.length by omega)
    have hresult : wordAt (writerBase true result data) 1 = result := by
      show wordAt (setWord (setWord data 0 0) 1 result) 1 = result
      rw [wordAt_setWord _ (by omega), if_pos rfl]
    rw [hresult] at hread
    exact hread

/-- Two distinct threads of a kernel whose thread indices are distinct, each in a process of
    the kernel. -/
structure IpcPair (k : Kernel) (src dest : ThreadIndex) (s d : CommonThread) : Prop where
  distinct : src ≠ dest
  indices : (k.threads.map CommonThread.index).Nodup
  source : k.thread? src = some s
  destination : k.thread? dest = some d
  sourceProcess : (k.process? s.pid).isSome
  length : d.ipcData.length = 256

/-- A call whose parts return. -/
theorem translateIpc_of_parts {rng : Nat → UInt32} {fuel : Nat} {k k' : Kernel}
    {src dest : ThreadIndex} {reply : Bool} {s d : CommonThread} {q p : CommonProcess}
    {reader reader' : IPCReader} {writer writer' writer'' : MessageWriter} {bytes : List UInt8}
    (hpair : k.findThreadPair src dest = .ret (s, d))
    (hsrc : k.findCommonProcess s.pid = .ret q) (hdest : k.findCommonProcess d.pid = .ret p)
    (hreader : readerFor reply s.ipcData = .ret reader)
    (hwriter : writerFor reply reader d.ipcData = .ret writer)
    (hnormals : translateNormals reader.header.normalParameterCount.toNat reader writer =
      .ret (reader', writer'))
    (hparams : translateParams rng fuel q.pid p.pid fuel reader' writer' k = .ret (writer'', k'))
    (hdrop : writer''.drop = .ret bytes) :
    k.translateIpc rng fuel src dest reply = .ret (k'.setThread { d with ipcData := bytes }) := by
  unfold translateIpc
  rw [hpair, ret_bind]
  dsimp only
  rw [hsrc, ret_bind, hdest, ret_bind, hreader, ret_bind, hwriter, ret_bind, hnormals, ret_bind]
  dsimp only
  rw [hparams, ret_bind]
  dsimp only
  rw [hdrop, ret_bind]
  rfl

/-- A request without translate parameters is carried over as it is. -/
theorem translateIpc_normals {rng : Nat → UInt32} (fuel : Nat) {k : Kernel}
    {src dest : ThreadIndex} {s d : CommonThread} {header : IPCHeaderCode} {normals : List UInt32}
    (h : IpcPair k src dest s d) (hp : (k.process? d.pid).isSome)
    (hm : HoldsMessage false s.ipcData header 0 normals [])
    (ht : header.translateParameterSize = 0) :
    k.translateIpc rng (fuel + 1) src dest false =
      .ret (k.setThread { d with
        ipcData := messageBytes header.commandId (writerBase false 0 d.ipcData) 1 normals [] }) := by
  have hfits := hm.fits
  have hslen := hm.length
  change 1 + header.normalParameterCount.toNat + header.translateParameterSize.toNat ≤ 64 at hfits
  have hn : normals.length = header.normalParameterCount.toNat := by
    rw [hm.normals_eq, wordsFrom_length]
  have hbase := writerBase_length false 0 h.length
  have hnormals : Holds s.ipcData 1 normals := by
    rw [hm.normals_eq]
    exact holds_wordsFrom (show 4 * (1 + header.normalParameterCount.toNat) ≤ _ by omega)
  have hble : 4 * (1 + normals.length) ≤ (writerBase false 0 d.ipcData).length := by omega
  obtain ⟨q, hq⟩ := Option.isSome_iff_exists.mp h.sourceProcess
  obtain ⟨p, hp⟩ := Option.isSome_iff_exists.mp hp
  have hfindSrc : k.findCommonProcess s.pid = .ret q := findCommonProcess_eq_ret.mpr hq
  have hfindDest : k.findCommonProcess d.pid = .ret p := findCommonProcess_eq_ret.mpr hp
  have hnorm := translateNormals_at header 0 header.commandId
    header.translateParameterSize.toNat hnormals (by omega) hble
    (show 0 + normals.length < 256 by omega)
  have hnone : (messageAt header 0 s.ipcData (1 + normals.length) 0
      header.translateParameterSize.toNat).hasMoreTranslateParams = false := by
    rw [messageAt_hasMore (by omega), ht]
    rfl
  have hdrop : (writerAt header.commandId (setWords (writerBase false 0 d.ipcData) 1 normals)
      (1 + normals.length) (0 + normals.length) 0).drop =
      .ret (messageBytes header.commandId (writerBase false 0 d.ipcData) 1 normals []) := by
    rw [drop_at (by rw [setWords_length hble]; omega), Nat.zero_add]
    unfold messageBytes
    rw [List.append_nil]
    rfl
  rw [hn] at hnorm
  refine translateIpc_of_parts (findThreadPair_ret h.distinct h.indices h.source h.destination)
    hfindSrc hfindDest (readerFor_ret hm) (writerFor_ret false _ h.length) hnorm ?_ hdrop
  rw [translateParams, ← hn, hnone]
  rfl

/-- With enough fuel `translate_ipc` returns. The source's message is the one its buffer holds;
    the destination's has the same command id, result and normal parameters, and of the
    parameters the handle parameters, in order, with the same flags and numbers of handles and
    with their handles translated; its translate size is the number of words these take, and it
    ends inside the buffer. The words behind it, every other thread and everything but the
    handle tables stay. -/
def MessagePreserved (rng : Nat → UInt32) (k : Kernel) (src dest : ThreadIndex) (reply : Bool)
    (s d : CommonThread) (header : IPCHeaderCode) (result : UInt32) (normals : List UInt32)
    (params : List IPCTranslateParameter) : Prop :=
  Decodes (readerFor reply s.ipcData) header result normals params ∧
  ∃ outs processes bytes, ∃ size : UInt8,
    Settles (fun fuel => translatedParams rng fuel s.pid d.pid params k)
      (outs, { k with processes := processes }) ∧
    Settles (fun fuel => k.translateIpc rng fuel src dest reply)
      ({ k with processes := processes }.setThread { d with ipcData := bytes }) ∧
    bytes.length = 256 ∧
    outs.map handleShape = (params.map handleShape).filter Option.isSome ∧
    Decodes (readerFor reply bytes)
      ⟨header.commandId, header.normalParameterCount, size⟩ result normals
      (outs.map decodedParam) ∧
    size.toNat = writtenWords outs ∧
    messageStart reply + normals.length + size.toNat ≤ 64 ∧
    (∀ j, messageStart reply + normals.length + size.toNat ≤ j →
      wordAt bytes j = wordAt d.ipcData j) ∧
    ∀ tid, tid ≠ dest →
      ({ k with processes := processes }.setThread { d with ipcData := bytes }).thread? tid =
        k.thread? tid

/-- A thread of the sample kernel. -/
def sampleThread (tid : ThreadIndex) (ipcData : List UInt8) : CommonThread :=
  { CommonThread.new tid tid 0 with index := tid, ipcData := ipcData }

/-- A request with one normal parameter and one copied handle. -/
def sampleRequest : List UInt8 := messageBytes 5 (List.replicate 256 0) 1 [42] [0, 7]

/-- The handle of the sample request. -/
def sampleHandle : Handle := ⟨7, by decide⟩

/-- Two threads in two processes; thread 0 has a request for thread 1. -/
def sampleKernel : Kernel :=
  { Kernel.new with
    objects := [some (.event (EventImpl.new .oneShot))]
    processes := [⟨0, ⟨OrderedMap.empty.insert sampleHandle 0, 0⟩, .hle⟩,
      ⟨1, ObjectTable.new, .hle⟩]
    threads := [sampleThread 0 sampleRequest, sampleThread 1 (List.replicate 256 0)] }

theorem sampleRequest_holds : HoldsMessage false sampleRequest ⟨5, 1, 2⟩ 0 [42]
    [.handle false false (.single (some sampleHandle))] where
  length := (messageBytes_length 5 (by rw [List.length_replicate]; decide) Nat.one_pos).trans
    List.length_replicate
  header_eq := by decide +kernel
  result_eq := rfl
  normals_eq := by decide +kernel
  fits := by decide
  groups := by
    have hwords : wordsFrom sampleRequest 2 2 = [0, 7] := by decide +kernel
    have hgroup : parseGroup IPCReader.permission [0, 7] =
        some (.handle false false (.single (some sampleHandle)), []) := by decide +kernel
    show parseGroups IPCReader.permission (wordsFrom sampleRequest 2 2) = _
    rw [hwords, parseGroups_of_group hgroup, parseGroups]
    rfl

theorem samplePair : IpcPair sampleKernel 0 1 (sampleThread 0 sampleRequest)
    (sampleThread 1 (List.replicate 256 0)) where
  distinct := by decide
  indices := by decide
  source := rfl
  destination := rfl
  sourceProcess := rfl
  length := List.length_replicate

end Kernel

end Pomelo
