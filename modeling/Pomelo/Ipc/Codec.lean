/-
  The decoders and encoders, word by word.

  `readerAt data i n t` is a reader at word `i` with `n` normal parameters and `t` translate
  words left; `writerAt` is a writer there. Each operation is one lemma about these: a read
  takes the words off (`readNormal_at`, `readTranslate_at`), a write puts them down
  (`writeNormal_at`, `writeTranslate_at`). The loops that drain a reader follow by induction
  (`drainNormal_at`, `drainTranslate_at`).
-/
import Pomelo.Ipc.Grammar

namespace Pomelo

open Lib

/-! ## Counts -/

theorem ofNat_succ_pos {n : Nat} (h : n + 1 < 256) : UInt8.ofNat (n + 1) > 0 := by
  show (0 : UInt8) < UInt8.ofNat (n + 1)
  rw [UInt8.lt_iff_toNat_lt, UInt8.toNat_ofNat']
  show 0 < (n + 1) % 256
  omega

theorem ofNat_succ_sub (n : Nat) : UInt8.ofNat (n + 1) - 1 = UInt8.ofNat n := by
  rw [UInt8.ofNat_add]
  exact UInt8.add_sub_cancel _ _

/-! ## Readers -/

/-- A reader at word `i`, with `n` normal parameters and `t` translate words left. -/
def readerAt (data : List UInt8) (i n t : Nat) : ParameterReader :=
  ⟨⟨data, 4 * i⟩, UInt8.ofNat n, UInt8.ofNat t⟩

theorem readNormal_at {data : List UInt8} {i n : Nat} (t : Nat) (h : 4 * i + 4 ≤ data.length)
    (hn : n + 1 < 256) :
    (readerAt data i (n + 1) t).readNormal =
      .ret (wordAt data i, readerAt data (i + 1) n t) := by
  unfold ParameterReader.readNormal readerAt
  dsimp only
  rw [decide_eq_true (ofNat_succ_pos hn), Outcome.assert_true, Outcome.ret_bind,
    Cursor.readU32_word h, Outcome.ret_bind, Outcome.pure_eq, ofNat_succ_sub]

theorem readTranslateWord_at {data : List UInt8} {i t : Nat} (n : Nat)
    (h : 4 * i + 4 ≤ data.length) (ht : t + 1 < 256) :
    (readerAt data i n (t + 1)).readTranslateWord =
      .ret (wordAt data i, readerAt data (i + 1) n t) := by
  unfold ParameterReader.readTranslateWord readerAt
  dsimp only
  rw [decide_eq_true (ofNat_succ_pos ht), Outcome.assert_true, Outcome.ret_bind,
    Cursor.readU32_word h, Outcome.ret_bind, Outcome.pure_eq, ofNat_succ_sub]

theorem readTranslateHandle_at {data : List UInt8} {i t : Nat} (n : Nat)
    (h : 4 * i + 4 ≤ data.length) (ht : t + 1 < 256) :
    (readerAt data i n (t + 1)).readTranslateHandle =
      .ret (Handle.fromRaw (wordAt data i), readerAt data (i + 1) n t) := by
  unfold ParameterReader.readTranslateHandle
  rw [readTranslateWord_at n h ht, Outcome.ret_bind]
  rfl

theorem readHandles_at {data : List UInt8} {i n t : Nat} (callingProcess : Bool)
    {ws : List UInt32} (h : Holds data i ws) (ht : ws.length + t < 256) :
    ParameterReader.readHandles callingProcess ws.length (readerAt data i n (ws.length + t)) =
      .ret (ws.map fun w => readAs callingProcess (Handle.fromRaw w),
        readerAt data (i + ws.length) n t) := by
  induction ws generalizing i with
  | nil =>
    rw [List.length_nil, ParameterReader.readHandles, Nat.zero_add, Nat.add_zero, List.map_nil,
      Outcome.pure_eq]
  | cons w ws ih =>
    obtain ⟨hle, hw, hrest⟩ := h
    simp only [List.length_cons] at ht ⊢
    have hcount : ws.length + 1 + t = ws.length + t + 1 := by omega
    have hpos : i + (ws.length + 1) = i + 1 + ws.length := by omega
    rw [ParameterReader.readHandles, hcount, readTranslateHandle_at n hle (by omega),
      Outcome.ret_bind]
    dsimp only
    rw [ih hrest (by omega), Outcome.ret_bind, Outcome.pure_eq, hw, hpos]
    rfl

/-- A parameter that the grammar takes off the words is the one the reader reads. -/
theorem readTranslate_at {permission : UInt32 → UInt8} {data : List UInt8} {i : Nat}
    {ws rest : List UInt32} {p : IPCTranslateParameter} (h : Holds data i ws)
    (hlen : ws.length < 256) (hp : parseGroup permission ws = some (p, rest)) :
    ∃ j, ParameterReader.readTranslate permission (readerAt data i 0 ws.length) =
        .ret (p, readerAt data j 0 rest.length) ∧
      Holds data j rest ∧ j + rest.length = i + ws.length := by
  cases ws with
  | nil => cases hp
  | cons d ws =>
    obtain ⟨hle, hd, hrest⟩ := h
    simp only [List.length_cons] at hlen ⊢
    unfold ParameterReader.readTranslate
    rw [show (readerAt data i 0 (ws.length + 1)).normalParameterCount = 0 from rfl,
      decide_eq_true rfl, Outcome.assert_true, Outcome.ret_bind,
      readTranslateWord_at 0 hle (by omega), Outcome.ret_bind]
    dsimp only
    rw [hd]
    rw [parseGroup] at hp
    by_cases h7 : d &&& 7 = 0
    · rw [if_pos h7] at hp ⊢
      obtain ⟨hs, hn, rfl, rfl⟩ := parseHandle_eq_some hp
      obtain ⟨hh, hr⟩ := holds_append.mp hrest
      refine ⟨i + 1 + hs.length, ?_, hr, by simp; omega⟩
      rw [List.length_append]
      by_cases hzero : (d &&& 0xFC000000) >>> 26 = 0
      · -- one handle
        rw [if_pos hzero]
        rw [hzero] at hn
        obtain ⟨w, rfl⟩ : ∃ w, hs = [w] := List.length_eq_one_iff.mp hn
        obtain ⟨hle', hw, _⟩ := hh
        rw [List.length_singleton, Nat.add_comm 1, readTranslateHandle_at 0 hle'
          (by simp at hlen; omega), Outcome.ret_bind, Outcome.pure_eq, hw]
        rfl
      · rw [if_neg hzero, ← hn, readHandles_at _ hh (by simp at hlen; omega), Outcome.ret_bind,
          Outcome.pure_eq]
        have hmany : handlesOf (hs.map fun w => readAs (decide (d &&& 32 ≠ 0)) (Handle.fromRaw w)) =
            .multiple (hs.map fun w => readAs (decide (d &&& 32 ≠ 0)) (Handle.fromRaw w)) := by
          cases hs with
          | nil => simp at hn
          | cons w hs =>
            cases hs with
            | nil =>
              rw [List.length_singleton] at hn
              have h0 : ((d &&& 0xFC000000) >>> 26).toNat = 0 := by omega
              exact absurd (UInt32.toNat_inj.mp h0) hzero
            | cons w' hs => rfl
        rw [hmany]
    · rw [if_neg h7] at hp ⊢
      cases ws with
      | nil => cases hp
      | cons ptr ws =>
        obtain ⟨hle', hptr, hr⟩ := hrest
        injection hp with hp
        obtain ⟨rfl, rfl⟩ := Prod.mk.inj hp
        refine ⟨i + 1 + 1, ?_, hr, by simp; omega⟩
        rw [List.length_cons, readTranslateWord_at 0 hle' (by simp at hlen; omega),
          Outcome.ret_bind, Outcome.ret_bind, hptr]
        split <;> rfl

/-! ## Draining a reader -/

/-- `for _ in 0..n { reader.read_normal() }`. -/
def drainNormal : Nat → IPCReader → Exec (List UInt32 × IPCReader)
  | 0, reader => return ([], reader)
  | n + 1, reader => do
    let (word, reader) ← reader.readNormal
    let (words, reader) ← drainNormal n reader
    return (word :: words, reader)

/-- `while reader.has_more_translate_params() { reader.read_translate() }`. -/
def drainTranslate : Nat → IPCReader → Exec (List IPCTranslateParameter × IPCReader)
  | 0, _ => .diverge
  | fuel + 1, reader =>
    if reader.hasMoreTranslateParams then do
      let (param, reader) ← reader.readTranslate
      let (params, reader) ← drainTranslate fuel reader
      return (param :: params, reader)
    else return ([], reader)

/-- A reader of a message whose header and result are known. -/
def messageAt (header : IPCHeaderCode) (result : UInt32) (data : List UInt8) (i n t : Nat) :
    IPCReader :=
  { header := header, result := result, params := readerAt data i n t }

theorem messageAt_readNormal {header : IPCHeaderCode} {result : UInt32} {data : List UInt8}
    {i n : Nat} (t : Nat) (h : 4 * i + 4 ≤ data.length) (hn : n + 1 < 256) :
    (messageAt header result data i (n + 1) t).readNormal =
      .ret (wordAt data i, messageAt header result data (i + 1) n t) := by
  unfold IPCReader.readNormal messageAt
  dsimp only
  rw [readNormal_at t h hn, Outcome.ret_bind]
  rfl

theorem messageAt_readTranslate (header : IPCHeaderCode) (result : UInt32) {data : List UInt8}
    {i : Nat} {ws rest : List UInt32} {p : IPCTranslateParameter} (h : Holds data i ws)
    (hlen : ws.length < 256) (hp : parseGroup IPCReader.permission ws = some (p, rest)) :
    ∃ j, (messageAt header result data i 0 ws.length).readTranslate =
        .ret (p, messageAt header result data j 0 rest.length) ∧
      Holds data j rest ∧ j + rest.length = i + ws.length := by
  obtain ⟨j, hread, hj⟩ := readTranslate_at h hlen hp
  refine ⟨j, ?_, hj⟩
  unfold IPCReader.readTranslate messageAt
  dsimp only
  rw [hread, Outcome.ret_bind]
  rfl

theorem messageAt_hasMore {header : IPCHeaderCode} {result : UInt32} {data : List UInt8}
    {i n t : Nat} (ht : t < 256) :
    (messageAt header result data i n t).hasMoreTranslateParams = decide (0 < t) := by
  unfold IPCReader.hasMoreTranslateParams messageAt readerAt
  cases t with
  | zero => rfl
  | succ t => rw [decide_eq_true (ofNat_succ_pos ht), decide_eq_true (Nat.succ_pos t)]

theorem drainNormal_at {header : IPCHeaderCode} {result : UInt32} {data : List UInt8}
    {i t : Nat} {ws : List UInt32} (h : Holds data i ws) (hlen : ws.length < 256) :
    drainNormal ws.length (messageAt header result data i ws.length t) =
      .ret (ws, messageAt header result data (i + ws.length) 0 t) := by
  induction ws generalizing i with
  | nil => rfl
  | cons w ws ih =>
    obtain ⟨hle, hw, hrest⟩ := h
    simp only [List.length_cons] at hlen ⊢
    have hpos : i + (ws.length + 1) = i + 1 + ws.length := by omega
    rw [drainNormal, messageAt_readNormal t hle hlen, Outcome.ret_bind]
    dsimp only
    rw [ih hrest (by omega), Outcome.ret_bind, Outcome.pure_eq, hw, hpos]

/-- A reader whose words parse is drained to the parameters, and is at the end then. -/
theorem drainTranslate_at {header : IPCHeaderCode} {result : UInt32} {data : List UInt8}
    {i : Nat} {ws : List UInt32} {ps : List IPCTranslateParameter} (h : Holds data i ws)
    (hlen : ws.length < 256) (hp : parseGroups IPCReader.permission ws = some ps) {fuel : Nat}
    (hf : ws.length < fuel) :
    drainTranslate fuel (messageAt header result data i 0 ws.length) =
      .ret (ps, messageAt header result data (i + ws.length) 0 0) := by
  induction fuel generalizing i ws ps with
  | zero => omega
  | succ fuel ih =>
    rw [drainTranslate, messageAt_hasMore hlen]
    cases ws with
    | nil =>
      rw [parseGroups, Option.some.injEq] at hp
      subst hp
      rfl
    | cons w ws =>
      rw [if_pos (by simp)]
      cases hg : parseGroup IPCReader.permission (w :: ws) with
      | none =>
        rw [parseGroups] at hp
        split at hp
        · cases hp
        · rename_i hs
          rw [hg] at hs
          cases hs
      | some pr =>
        obtain ⟨p, rest⟩ := pr
        rw [parseGroups_of_group hg] at hp
        obtain ⟨qs, hqs, rfl⟩ := Option.map_eq_some_iff.mp hp
        have hlt := parseGroup_length hg
        obtain ⟨j, hread, hh, hj⟩ := messageAt_readTranslate header result h hlen hg
        rw [hread, Outcome.ret_bind]
        dsimp only
        rw [ih hh (by omega) hqs (by omega), Outcome.ret_bind, Outcome.pure_eq, hj]

/-! ## Writers -/

/-- A writer at word `i`, with `n` normal parameters and `t` translate words written. -/
def writerAt (commandId : UInt16) (data : List UInt8) (i n t : Nat) : MessageWriter :=
  { commandId := commandId, normalParameterCount := UInt8.ofNat n,
    translateParameterSize := UInt8.ofNat t, data := ⟨data, 4 * i⟩ }

theorem write_at {commandId : UInt16} {data : List UInt8} {i : Nat} (n t : Nat) (w : UInt32)
    (h : 4 * i + 4 ≤ data.length) :
    (writerAt commandId data i n t).write w =
      .ret (writerAt commandId (setWord data i w) (i + 1) n t) := by
  unfold MessageWriter.write writerAt
  dsimp only
  rw [Cursor.writeU32_word w h, Outcome.ret_bind, Outcome.pure_eq]

theorem writeNormal_at {commandId : UInt16} {data : List UInt8} {i n : Nat} (w : UInt32)
    (h : 4 * i + 4 ≤ data.length) (hn : n + 1 < 256) :
    (writerAt commandId data i n 0).writeNormal w =
      .ret (writerAt commandId (setWord data i w) (i + 1) (n + 1) 0) := by
  unfold MessageWriter.writeNormal
  rw [show (writerAt commandId data i n 0).translateParameterSize = 0 from rfl,
    decide_eq_true rfl, Outcome.assert_true, Outcome.ret_bind,
    show (writerAt commandId data i n 0).normalParameterCount = UInt8.ofNat n from rfl,
    incU8_ofNat hn, Outcome.ret_bind]
  exact write_at (n + 1) 0 w h

theorem writeHandles_at {commandId : UInt16} {data : List UInt8} {i n t : Nat}
    {hs : List (Option Handle)} (h : 4 * (i + hs.length) ≤ data.length)
    (ht : t + hs.length < 256) :
    MessageWriter.writeHandles hs (writerAt commandId data i n t) =
      .ret (writerAt commandId (setWords data i (hs.map rawHandle)) (i + hs.length) n
        (t + hs.length)) := by
  induction hs generalizing data i t with
  | nil => rfl
  | cons x hs ih =>
    rw [List.length_cons] at h ht ⊢
    have hle : 4 * i + 4 ≤ data.length := by omega
    have hpos : i + (hs.length + 1) = i + 1 + hs.length := by omega
    have hcount : t + (hs.length + 1) = t + 1 + hs.length := by omega
    rw [MessageWriter.writeHandles, write_at n t _ hle, Outcome.ret_bind,
      show (writerAt commandId (setWord data i (rawHandle x)) (i + 1) n t).translateParameterSize =
        UInt8.ofNat t from rfl, incU8_ofNat (by omega), Outcome.ret_bind, hpos, hcount]
    exact ih (by rw [setWord_length _ hle]; omega) (by omega)

/-- A handle parameter is put down as its words. -/
theorem writeTranslate_at {commandId : UInt16} {data : List UInt8} {i n t : Nat}
    (p : HandleParameter) (h : 4 * (i + p.words.length) ≤ data.length)
    (ht : t + p.words.length < 256) :
    (writerAt commandId data i n t).writeTranslate p.toParameter =
      .ret (writerAt commandId (setWords data i p.words) (i + p.words.length) n
        (t + p.words.length)) := by
  have hpos := p.length_pos
  rw [p.words_length] at h ht ⊢
  have hle : 4 * i + 4 ≤ data.length := by omega
  have hsub : subUsize p.handles.asSlice.length 1 = .ret (p.handles.asSlice.length - 1) :=
    if_pos hpos
  unfold MessageWriter.writeTranslate HandleParameter.toParameter
  rw [show (writerAt commandId data i n t).translateParameterSize = UInt8.ofNat t from rfl,
    incU8_ofNat (by omega), Outcome.ret_bind]
  dsimp only
  rw [hsub, Outcome.ret_bind]
  change ((writerAt commandId data i n (t + 1)).write _ >>= _) = _
  rw [write_at n (t + 1) _ hle, Outcome.ret_bind]
  have hi : i + (p.handles.asSlice.length + 1) = i + 1 + p.handles.asSlice.length := by omega
  have hc : t + (p.handles.asSlice.length + 1) = t + 1 + p.handles.asSlice.length := by omega
  rw [writeHandles_at (by rw [setWord_length _ hle]; omega) (by omega), hi, hc]
  rfl

/-- Dropping the writer puts the header word in front. -/
theorem drop_at {commandId : UInt16} {data : List UInt8} {i n t : Nat} (h : 4 ≤ data.length) :
    (writerAt commandId data i n t).drop =
      .ret (setWord data 0 (headerWord commandId (UInt8.ofNat n) (UInt8.ofNat t))) := by
  unfold MessageWriter.drop MessageWriter.write Cursor.seekStart writerAt
  dsimp only
  rw [show (0 : Nat) = 4 * 0 from rfl, Cursor.writeU32_word _ (by omega), Outcome.ret_bind,
    Outcome.pure_eq, Outcome.ret_bind, Outcome.pure_eq]
  rfl

end Pomelo
