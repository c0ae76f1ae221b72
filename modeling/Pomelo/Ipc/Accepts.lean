/-
  The decoder accepts exactly its grammar.

  A `Group` is one translate parameter in words: a descriptor and as many words behind it as the
  descriptor announces. `parseGroups` gives parameters exactly for the words that split into
  groups (`parseGroups_eq_some_iff`). Draining a reader returns or panics, and returns exactly
  when the message is in the buffer and its translate words split (`drainTranslate_returns_iff`).
  `acceptsExactly` puts both together for requests and responses.
-/
import Pomelo.Ipc.Decoders

namespace Pomelo

open Lib

/-! ## Groups -/

/-- How many words a descriptor announces behind itself: `c + 1` for a handle parameter, where
    `c` is its top six bits, and one for any other. -/
def announced (descriptor : UInt32) : Nat :=
  if descriptor &&& 7 = 0 then (descriptor >>> 26).toNat + 1 else 1

/-- A descriptor with all the words it announces. -/
structure Group where
  descriptor : UInt32
  args : List UInt32
  complete : args.length = announced descriptor

namespace Group

def words (g : Group) : List UInt32 := g.descriptor :: g.args

/-- What a decoder makes of the group. -/
def param (permission : UInt32 → UInt8) (g : Group) : IPCTranslateParameter :=
  if g.descriptor &&& 7 = 0 then
    .handle (decide (g.descriptor &&& 16 ≠ 0)) (decide (g.descriptor &&& 32 ≠ 0))
      (handlesOf (g.args.map fun w =>
        readAs (decide (g.descriptor &&& 32 ≠ 0)) (Handle.fromRaw w)))
  else if g.descriptor &&& 7 = 1 then
    .staticBuffer ((g.descriptor &&& 0x3C00) >>> 10).toUInt8 ((g.descriptor &&& 0xFFFFC000) >>> 14)
      (g.args.headD 0)
  else
    .bufferMapping (permission (g.descriptor &&& 7)) ((g.descriptor &&& 0xFFFFFFF0) >>> 4)
      (g.args.headD 0)

end Group

/-- The mask leaves the top six bits, and the shift takes no others. -/
theorem handleCount_eq (d : UInt32) : (d &&& 0xFC000000) >>> 26 = d >>> 26 := by
  apply UInt32.toNat_inj.mp
  have hf := field_eq d.toNat 26 6
  have hlt : d.toNat < 4294967296 := d.toNat_lt
  have htop : d.toNat / 67108864 % 64 = d.toNat / 67108864 := Nat.mod_eq_of_lt (by omega)
  rw [UInt32.toNat_shiftRight, UInt32.toNat_shiftRight, UInt32.toNat_and]
  show (d.toNat &&& ((2 ^ 6 - 1) <<< 26)) >>> 26 = d.toNat >>> 26
  rw [hf, Nat.shiftRight_eq_div_pow]
  exact htop

theorem announced_handle {d : UInt32} (h : d &&& 7 = 0) :
    announced d = ((d &&& 0xFC000000) >>> 26).toNat + 1 := by
  unfold announced
  rw [if_pos h, handleCount_eq]

theorem announced_buffer {d : UInt32} (h : d &&& 7 ≠ 0) : announced d = 1 := if_neg h

section Groups

variable {permission : UInt32 → UInt8} {ws rest : List UInt32} {p : IPCTranslateParameter}

theorem parseGroup_group (permission : UInt32 → UInt8) (g : Group) (rest : List UInt32) :
    parseGroup permission (g.words ++ rest) = some (g.param permission, rest) := by
  obtain ⟨d, args, hargs⟩ := g
  unfold Group.words Group.param
  dsimp only
  rw [List.cons_append, parseGroup]
  by_cases h0 : d &&& 7 = 0
  · rw [announced_handle h0] at hargs
    rw [if_pos h0, if_pos h0, parseHandle, ← hargs, if_pos (by simp), List.take_left' rfl,
      List.drop_left' rfl]
  · rw [announced_buffer h0] at hargs
    obtain ⟨ptr, rfl⟩ := List.length_eq_one_iff.mp hargs
    rw [if_neg h0, if_neg h0]
    rfl

/-- One parameter is taken off the words exactly when a group stands in front. -/
theorem parseGroup_eq_some_iff :
    parseGroup permission ws = some (p, rest) ↔
      ∃ g : Group, ws = g.words ++ rest ∧ p = g.param permission := by
  constructor
  · intro h
    cases ws with
    | nil => cases h
    | cons d ws =>
      rw [parseGroup] at h
      by_cases h0 : d &&& 7 = 0
      · rw [if_pos h0] at h
        obtain ⟨hs, hlen, rfl, rfl⟩ := parseHandle_eq_some h
        refine ⟨⟨d, hs, by rw [hlen, announced_handle h0]⟩, rfl, ?_⟩
        unfold Group.param
        rw [if_pos h0]
      · rw [if_neg h0] at h
        cases ws with
        | nil => cases h
        | cons ptr ws =>
          injection h with h
          obtain ⟨rfl, rfl⟩ := Prod.mk.inj h
          refine ⟨⟨d, [ptr], by rw [announced_buffer h0]; rfl⟩, rfl, ?_⟩
          unfold Group.param
          rw [if_neg h0]
          rfl
  · rintro ⟨g, rfl, rfl⟩
    exact parseGroup_group permission g rest

theorem parseGroups_groups (permission : UInt32 → UInt8) (gs : List Group) :
    parseGroups permission (gs.flatMap Group.words) =
      some (gs.map (Group.param permission)) := by
  induction gs with
  | nil => rw [List.flatMap_nil, parseGroups, List.map_nil]
  | cons g gs ih =>
    rw [List.flatMap_cons, parseGroups_of_group (parseGroup_group permission g _), ih]
    rfl

/-- The words give parameters exactly when they split into groups. -/
theorem parseGroups_eq_some_iff {ps : List IPCTranslateParameter} :
    parseGroups permission ws = some ps ↔
      ∃ gs : List Group, ws = gs.flatMap Group.words ∧ ps = gs.map (Group.param permission) := by
  constructor
  · intro h
    fun_induction parseGroups permission ws generalizing ps with
    | case1 =>
      injection h with h
      exact ⟨[], rfl, h.symm⟩
    | case2 => cases h
    | case3 w ws q rest hg ih =>
      obtain ⟨qs, hqs, rfl⟩ := Option.map_eq_some_iff.mp h
      obtain ⟨gs, rfl, rfl⟩ := ih hqs
      obtain ⟨g, hw, rfl⟩ := parseGroup_eq_some_iff.mp hg
      exact ⟨g :: gs, hw, rfl⟩
  · rintro ⟨gs, rfl, rfl⟩
    exact parseGroups_groups permission gs

end Groups

/-! ## Draining a reader -/

section Draining

variable {header : IPCHeaderCode} {result : UInt32} {data : List UInt8} {i n t : Nat}

/-- A reader that is to pass the end of the buffer panics there. -/
theorem drainNormal_past (hn : n < 256) (hi : 4 * i ≤ data.length)
    (h : data.length < 4 * (i + n)) :
    drainNormal n (messageAt header result data i n t) = .panic .unwrap := by
  induction n generalizing i with
  | zero => omega
  | succ n ih =>
    rw [drainNormal]
    by_cases hle : 4 * i + 4 ≤ data.length
    · rw [messageAt_readNormal t hle hn, Outcome.ret_bind]
      dsimp only
      rw [ih (by omega) (by omega) (by omega), Outcome.panic_bind]
    · have hread : (messageAt header result data i (n + 1) t).readNormal = .panic .unwrap := by
        unfold IPCReader.readNormal ParameterReader.readNormal messageAt readerAt
        dsimp only
        rw [decide_eq_true (ofNat_succ_pos hn), Outcome.assert_true, Outcome.ret_bind,
          Cursor.readU32_past (by omega), Outcome.panic_bind, Outcome.panic_bind]
      rw [hread, Outcome.panic_bind]

theorem drainNormal_words (hn : n < 256) (hle : 4 * (i + n) ≤ data.length) :
    drainNormal n (messageAt header result data i n t) =
      .ret (wordsFrom data i n, messageAt header result data (i + n) 0 t) := by
  have hlen := wordsFrom_length data i n
  have h : drainNormal (wordsFrom data i n).length
      (messageAt header result data i (wordsFrom data i n).length t) = _ :=
    drainNormal_at (holds_wordsFrom hle) (by omega)
  rw [hlen] at h
  exact h

theorem messageAt_readTranslate_eq (header : IPCHeaderCode) (result : UInt32)
    (data : List UInt8) (i n t : Nat) :
    (messageAt header result data i n t).readTranslate =
      (readerAt data i n t).readTranslate IPCReader.permission >>= fun x =>
        .ret (x.1, { header := header, result := result, params := x.2 }) := by
  unfold IPCReader.readTranslate messageAt
  cases (readerAt data i n t).readTranslate IPCReader.permission <;> rfl

/-- A translate read returns with a parameter of the grammar, or panics. -/
theorem messageAt_readTranslate_cases (header : IPCHeaderCode) (result : UInt32)
    (data : List UInt8) (i : Nat) (ht : t < 256) :
    (∃ e, (messageAt header result data i 0 t).readTranslate = .panic e) ∨
      ∃ p j t', (messageAt header result data i 0 t).readTranslate =
          .ret (p, messageAt header result data j 0 t') ∧
        t' < t ∧ j + t' = i + t ∧ 4 * j ≤ data.length ∧
        parseGroup IPCReader.permission (wordsFrom data i t) = some (p, wordsFrom data j t') := by
  rw [messageAt_readTranslate_eq]
  cases hread : (readerAt data i 0 t).readTranslate IPCReader.permission with
  | panic e => exact Or.inl ⟨e, rfl⟩
  | diverge => exact absurd hread (readTranslate_ne_diverge _ _)
  | ret x =>
    obtain ⟨p, r⟩ := x
    obtain ⟨j, t', rfl, hrest⟩ := readTranslate_eq_ret ht hread
    exact Or.inr ⟨p, j, t', rfl, hrest⟩

/-- Words that split into groups are drained to the end. -/
theorem drainTranslate_groups {gs : List Group} {fuel : Nat} (ht : t < 256) (hf : t < fuel)
    (hle : 4 * (i + t) ≤ data.length) (h : wordsFrom data i t = gs.flatMap Group.words) :
    drainTranslate fuel (messageAt header result data i 0 t) =
      .ret (gs.map (Group.param IPCReader.permission),
        messageAt header result data (i + t) 0 0) := by
  have hlen := wordsFrom_length data i t
  have hparse : parseGroups IPCReader.permission (wordsFrom data i t) =
      some (gs.map (Group.param IPCReader.permission)) :=
    parseGroups_eq_some_iff.mpr ⟨gs, h, rfl⟩
  have hdrain : drainTranslate fuel
      (messageAt header result data i 0 (wordsFrom data i t).length) = _ :=
    drainTranslate_at (holds_wordsFrom hle) (by omega) hparse (by omega)
  rw [hlen] at hdrain
  exact hdrain

/-- Draining panics unless the words are in the buffer and parse. -/
theorem drainTranslate_panics_or_parses {fuel : Nat} (ht : t < 256) (hf : t < fuel)
    (hle : 4 * i ≤ data.length) :
    (∃ e, drainTranslate fuel (messageAt header result data i 0 t) = .panic e) ∨
      4 * (i + t) ≤ data.length ∧
        ∃ ps, parseGroups IPCReader.permission (wordsFrom data i t) = some ps := by
  induction fuel generalizing i t with
  | zero => omega
  | succ fuel ih =>
    rw [drainTranslate, messageAt_hasMore ht]
    by_cases h0 : t = 0
    · subst h0
      exact Or.inr ⟨hle, [], by rw [wordsFrom, List.range_zero, List.map_nil, parseGroups]⟩
    · rw [if_pos (decide_eq_true (Nat.pos_of_ne_zero h0))]
      rcases messageAt_readTranslate_cases header result data i ht with
        ⟨e, he⟩ | ⟨p, j, t', hread, hlt, hsum, hjle, hg⟩
      · refine Or.inl ⟨e, ?_⟩
        rw [he, Outcome.panic_bind]
      · rw [hread, Outcome.ret_bind]
        dsimp only
        -- the rest panics or parses, and the parameter stands in front
        rcases ih (by omega : t' < 256) (by omega) hjle with ⟨e, he⟩ | ⟨hle', ps, hps⟩
        · refine Or.inl ⟨e, ?_⟩
          rw [he, Outcome.panic_bind]
        · refine Or.inr ⟨by omega, p :: ps, ?_⟩
          rw [parseGroups_of_group hg, hps]
          rfl

end Draining

/-! ## Messages -/

/-- All normal parameters are read, and then translate parameters while there are more. -/
def IPCReader.readAll (new : Exec IPCReader) (fuel : Nat) :
    Exec (List UInt32 × List IPCTranslateParameter × IPCReader) := do
  let reader ← new
  let (normals, reader) ← drainNormal reader.header.normalParameterCount.toNat reader
  let (params, reader) ← drainTranslate fuel reader
  return (normals, params, reader)

/-- The message, with `s` words in front of the parameters, is in the buffer, and its translate
    words split into `gs`. -/
structure Splits (data : List UInt8) (s : Nat) (gs : List Group) : Prop where
  fits : s + (headerOf data).normalParameterCount.toNat +
    (headerOf data).translateParameterSize.toNat ≤ 64
  groups : wordsFrom data (s + (headerOf data).normalParameterCount.toNat)
    (headerOf data).translateParameterSize.toNat = gs.flatMap Group.words

/-- Reading all of the message ends. It returns exactly when the message splits into groups,
    and then with these, at the end of the translate words. -/
structure AcceptsExactly (new : Exec IPCReader) (data : List UInt8) (s : Nat) : Prop where
  ends : Outcome.Ends (IPCReader.readAll new)
  accepts : (∃ x, Outcome.Settles (IPCReader.readAll new) x) ↔ ∃ gs, Splits data s gs
  returns : ∀ gs, Splits data s gs → ∃ reader,
    Outcome.Settles (IPCReader.readAll new)
      (wordsFrom data s (headerOf data).normalParameterCount.toNat,
        gs.map (Group.param IPCReader.permission), reader) ∧
    reader.hasMoreTranslateParams = false ∧
    reader.params.translateParameterWords = 0 ∧
    reader.params.data.position = 4 * (s + (headerOf data).normalParameterCount.toNat +
      (headerOf data).translateParameterSize.toNat)

section Messages

variable {data : List UInt8}

/-- The reader of a message, with `s` words in front of the parameters. -/
def readerOf (data : List UInt8) (result : UInt32) (s : Nat) : IPCReader :=
  messageAt (headerOf data) result data s (headerOf data).normalParameterCount.toNat
    (headerOf data).translateParameterSize.toNat

theorem newRequest_eq (hlen : data.length = 256) :
    IPCReader.newRequest data = .ret (readerOf data 0 1) := by
  have hread : (Cursor.new data).readU32 = .ret (wordAt data 0, ⟨data, 4 * 1⟩) :=
    Cursor.readU32_word (i := 0) (by omega)
  unfold IPCReader.newRequest
  rw [hread, Outcome.ret_bind, readerOf, messageAt, readerAt, UInt8.ofNat_toNat,
    UInt8.ofNat_toNat]
  rfl

theorem newResponse_eq (hlen : data.length = 256) :
    IPCReader.newResponse data = .ret (readerOf data (wordAt data 1) 2) := by
  have hread : (Cursor.new data).readU32 = .ret (wordAt data 0, ⟨data, 4 * 1⟩) :=
    Cursor.readU32_word (i := 0) (by omega)
  unfold IPCReader.newResponse
  rw [hread, Outcome.ret_bind]
  dsimp only
  rw [Cursor.readU32_word (by omega), Outcome.ret_bind, readerOf, messageAt, readerAt,
    UInt8.ofNat_toNat, UInt8.ofNat_toNat]
  rfl

/-- A message that splits into groups is read to its end. -/
theorem Splits.readAll {result : UInt32} {s fuel : Nat} {gs : List Group}
    (hlen : data.length = 256) (h : Splits data s gs)
    (hf : (headerOf data).translateParameterSize.toNat < fuel) :
    IPCReader.readAll (.ret (readerOf data result s)) fuel =
      .ret (wordsFrom data s (headerOf data).normalParameterCount.toNat,
        gs.map (Group.param IPCReader.permission),
        messageAt (headerOf data) result data
          (s + (headerOf data).normalParameterCount.toNat +
            (headerOf data).translateParameterSize.toNat) 0 0) := by
  obtain ⟨hn, ht⟩ := headerOf_lt data
  have hfits := h.fits
  unfold IPCReader.readAll
  rw [Outcome.ret_bind]
  change (drainNormal (headerOf data).normalParameterCount.toNat _ >>= _) = _
  rw [readerOf, drainNormal_words (by omega) (by omega), Outcome.ret_bind]
  dsimp only
  rw [drainTranslate_groups (by omega) hf (by omega) h.groups, Outcome.ret_bind, Outcome.pure_eq]

/-- Any other message makes the reader panic. -/
theorem readAll_panics_or_splits (result : UInt32) {s fuel : Nat} (hlen : data.length = 256)
    (hs : s ≤ 64) (hf : (headerOf data).translateParameterSize.toNat < fuel) :
    (∃ e, IPCReader.readAll (.ret (readerOf data result s)) fuel = .panic e) ∨
      ∃ gs, Splits data s gs := by
  obtain ⟨hn, ht⟩ := headerOf_lt data
  unfold IPCReader.readAll
  rw [Outcome.ret_bind]
  change (∃ e, (drainNormal (headerOf data).normalParameterCount.toNat _ >>= _) = _) ∨ _
  rw [readerOf]
  by_cases hle : s + (headerOf data).normalParameterCount.toNat ≤ 64
  · rw [drainNormal_words (by omega) (by omega), Outcome.ret_bind]
    dsimp only
    have hpos : 4 * (s + (headerOf data).normalParameterCount.toNat) ≤ data.length := by omega
    rcases drainTranslate_panics_or_parses (by omega) hf hpos with ⟨e, he⟩ | ⟨hfits, ps, hps⟩
    · refine Or.inl ⟨e, ?_⟩
      rw [he, Outcome.panic_bind]
    · obtain ⟨gs, hgs, _⟩ := parseGroups_eq_some_iff.mp hps
      exact Or.inr ⟨gs, by omega, hgs⟩
  · -- the normal parameters alone pass the end
    refine Or.inl ⟨.unwrap, ?_⟩
    rw [drainNormal_past (by omega) (by omega) (by omega), Outcome.panic_bind]

theorem acceptsExactly_of_new {new : Exec IPCReader} {result : UInt32} {s : Nat}
    (hlen : data.length = 256) (hs : s ≤ 64) (hnew : new = .ret (readerOf data result s)) :
    AcceptsExactly new data s := by
  subst hnew
  have hsettles : ∀ gs, Splits data s gs →
      Outcome.Settles (IPCReader.readAll (.ret (readerOf data result s))) _ := fun gs hgs =>
    ⟨(headerOf data).translateParameterSize.toNat + 1, fun fuel hf => hgs.readAll hlen hf⟩
  constructor
  · refine ⟨(headerOf data).translateParameterSize.toNat + 1, fun fuel hf => ?_⟩
    rcases readAll_panics_or_splits result hlen hs hf with ⟨e, he⟩ | ⟨gs, hgs⟩
    · rw [he]
      simp
    · rw [hgs.readAll hlen hf]
      exact Outcome.ret_ne_diverge _
  · constructor
    · rintro ⟨x, N, hx⟩
      have hret := hx (max N ((headerOf data).translateParameterSize.toNat + 1))
        (Nat.le_max_left _ _)
      rcases readAll_panics_or_splits result hlen hs (Nat.le_max_right N _) with ⟨e, he⟩ | hgs
      · rw [hret] at he
        cases he
      · exact hgs
    · rintro ⟨gs, hgs⟩
      exact ⟨_, hsettles gs hgs⟩
  · intro gs hgs
    exact ⟨_, hsettles gs hgs, rfl, rfl, rfl⟩

end Messages

/-- **The decoder accepts exactly its grammar.** Reading all parameters of a 256-byte message
    always ends. It returns if and only if the header word (for a response, and the result),
    the normal parameters and the translate words fit the 64 words of the buffer and the
    translate words split into groups. The parameters are those of the groups then, and all
    translate words are used up. -/
theorem acceptsExactly (data : List UInt8) (hlen : data.length = 256) :
    AcceptsExactly (IPCReader.newRequest data) data 1 ∧
      AcceptsExactly (IPCReader.newResponse data) data 2 :=
  ⟨acceptsExactly_of_new hlen (by decide) (newRequest_eq hlen),
    acceptsExactly_of_new hlen (by decide) (newResponse_eq hlen)⟩

theorem acceptsExactly_readMapping :
    AcceptsExactly (IPCReader.newRequest readMapping) readMapping 1 ∧
      AcceptsExactly (IPCReader.newResponse readMapping) readMapping 2 :=
  acceptsExactly readMapping readMapping_length

end Pomelo
