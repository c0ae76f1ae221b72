/-
  Decoding undoes encoding.

  `writeMessage` writes the parameters and drops the writer; `Decodes` drains a reader. While
  the message fits its 256 bytes, both counts stay below 64, so no count overflows and no
  header field spills, and a reader finds what was written (`decodes_writeMessage`).
-/
import Pomelo.Ipc.Codec

namespace Pomelo

open Lib

/-- Write the normal parameters in order. -/
def writeNormals : List UInt32 → MessageWriter → Exec MessageWriter
  | [], writer => return writer
  | w :: ws, writer => do
    let writer ← writer.writeNormal w
    writeNormals ws writer

/-- Write the handle parameters in order. -/
def writeTranslates : List HandleParameter → MessageWriter → Exec MessageWriter
  | [], writer => return writer
  | p :: ps, writer => do
    let writer ← writer.writeTranslate p.toParameter
    writeTranslates ps writer

/-- Write a message with a new writer, and drop the writer. -/
def writeMessage (new : Exec MessageWriter) (normals : List UInt32)
    (params : List HandleParameter) : Exec (List UInt8) := do
  let writer ← new
  let writer ← writeNormals normals writer
  let writer ← writeTranslates params writer
  writer.drop

/-- Drained, the reader yields the normal parameters and the parameters in order, and has no
    more of them then. -/
def Decodes (new : Exec IPCReader) (header : IPCHeaderCode) (result : UInt32)
    (normals : List UInt32) (params : List IPCTranslateParameter) : Prop :=
  ∃ reader reader' reader'' fuel, new = .ret reader ∧ reader.header = header ∧
    reader.result = result ∧
    drainNormal reader.header.normalParameterCount.toNat reader = .ret (normals, reader') ∧
    drainTranslate fuel reader' = .ret (params, reader'') ∧
    reader''.hasMoreTranslateParams = false

/-! ## Writing -/

theorem writeNormals_at {commandId : UInt16} {data : List UInt8} {i n : Nat}
    {ws : List UInt32} (h : 4 * (i + ws.length) ≤ data.length) (hn : n + ws.length < 256) :
    writeNormals ws (writerAt commandId data i n 0) =
      .ret (writerAt commandId (setWords data i ws) (i + ws.length) (n + ws.length) 0) := by
  induction ws generalizing data i n with
  | nil => rfl
  | cons w ws ih =>
    rw [List.length_cons] at h hn ⊢
    have hle : 4 * i + 4 ≤ data.length := by omega
    have hi : i + (ws.length + 1) = i + 1 + ws.length := by omega
    have hc : n + (ws.length + 1) = n + 1 + ws.length := by omega
    rw [writeNormals, writeNormal_at w hle (by omega), Outcome.ret_bind, hi, hc]
    exact ih (by rw [setWord_length w hle]; omega) (by omega)

theorem writeTranslates_at {commandId : UInt16} {data : List UInt8} {i n t : Nat}
    {ps : List HandleParameter}
    (h : 4 * (i + (ps.flatMap HandleParameter.words).length) ≤ data.length)
    (ht : t + (ps.flatMap HandleParameter.words).length < 256) :
    writeTranslates ps (writerAt commandId data i n t) =
      .ret (writerAt commandId (setWords data i (ps.flatMap HandleParameter.words))
        (i + (ps.flatMap HandleParameter.words).length) n
        (t + (ps.flatMap HandleParameter.words).length)) := by
  induction ps generalizing data i t with
  | nil => rfl
  | cons p ps ih =>
    rw [List.flatMap_cons, List.length_append] at h ht ⊢
    have hle : 4 * (i + p.words.length) ≤ data.length := by omega
    rw [writeTranslates, writeTranslate_at p hle (by omega), Outcome.ret_bind,
      ih (by rw [setWords_length hle]; omega) (by omega), setWords_append, Nat.add_assoc i,
      Nat.add_assoc t]

/-- The buffer that a writer at word `s` leaves. -/
def messageBytes (commandId : UInt16) (data : List UInt8) (s : Nat) (normals : List UInt32)
    (translate : List UInt32) : List UInt8 :=
  setWord (setWords data s (normals ++ translate)) 0
    (headerWord commandId (UInt8.ofNat normals.length) (UInt8.ofNat translate.length))

theorem writeMessage_at {commandId : UInt16} {data : List UInt8} {s : Nat}
    {normals : List UInt32} {params : List HandleParameter} (hs : 0 < s)
    (h : 4 * (s + normals.length + (params.flatMap HandleParameter.words).length) ≤ data.length)
    (hn : normals.length < 256) (ht : (params.flatMap HandleParameter.words).length < 256) :
    writeMessage (.ret (writerAt commandId data s 0 0)) normals params =
      .ret (messageBytes commandId data s normals (params.flatMap HandleParameter.words)) := by
  have hle : 4 * (s + normals.length) ≤ data.length := by omega
  have hlen := setWords_length hle
  unfold writeMessage
  rw [Outcome.ret_bind, writeNormals_at hle (by omega), Outcome.ret_bind,
    writeTranslates_at (by rw [hlen]; omega) (by omega), Outcome.ret_bind,
    drop_at (by rw [setWords_length (by rw [hlen]; omega), hlen]; omega)]
  unfold messageBytes
  rw [setWords_append, Nat.zero_add, Nat.zero_add]

/-! ## Reading it back -/

section Message

variable (commandId : UInt16) {data : List UInt8} {s : Nat} {normals translate : List UInt32}

theorem messageBytes_length
    (h : 4 * (s + normals.length + translate.length) ≤ data.length) (hs : 0 < s) :
    (messageBytes commandId data s normals translate).length = data.length := by
  have hlen : (setWords data s (normals ++ translate)).length = data.length :=
    setWords_length (by rw [List.length_append]; omega)
  unfold messageBytes
  rw [setWord_length _ (by omega), hlen]

/-- The header in front, the written words behind it, and the old words everywhere else. -/
theorem messageBytes_words (h : 4 * (s + normals.length + translate.length) ≤ data.length)
    (hs : 0 < s) :
    wordAt (messageBytes commandId data s normals translate) 0 =
        headerWord commandId (UInt8.ofNat normals.length) (UInt8.ofNat translate.length) ∧
      Holds (messageBytes commandId data s normals translate) s (normals ++ translate) ∧
      ∀ j, 0 < j → j < s ∨ s + normals.length + translate.length ≤ j →
        wordAt (messageBytes commandId data s normals translate) j = wordAt data j := by
  have hle : 4 * (s + (normals ++ translate).length) ≤ data.length := by
    rw [List.length_append]
    omega
  have hlen := setWords_length hle
  have h0 : 4 * 0 + 4 ≤ (setWords data s (normals ++ translate)).length := by omega
  unfold messageBytes
  refine ⟨by rw [wordAt_setWord _ h0, if_pos rfl], ?_, ?_⟩
  · refine (holds_setWords hle).congr (setWord_length _ h0) fun j h1 _ => ?_
    rw [wordAt_setWord _ h0, if_neg (by omega)]
  · intro j hj hout
    rw [wordAt_setWord _ h0, if_neg (by omega),
      wordAt_setWords_of_outside hle (by rw [List.length_append]; omega)]

end Message

/-- A reader at the first parameter word drains to what the words hold. -/
theorem decodes_of_holds {new : Exec IPCReader} {header : IPCHeaderCode} {result : UInt32}
    {bytes : List UInt8} {s : Nat} {normals translate : List UInt32}
    {params : List IPCTranslateParameter}
    (hn : header.normalParameterCount = UInt8.ofNat normals.length) (hnl : normals.length < 64)
    (htl : translate.length < 64)
    (hnew : new = .ret (messageAt header result bytes s normals.length translate.length))
    (hh : Holds bytes s (normals ++ translate))
    (hp : parseGroups IPCReader.permission translate = some params) :
    Decodes new header result normals params := by
  obtain ⟨hh1, hh2⟩ := holds_append.mp hh
  have hcount : header.normalParameterCount.toNat = normals.length := by
    rw [hn]
    exact ofNat_toNat_of_lt (by omega)
  have hdrain : drainNormal header.normalParameterCount.toNat
      (messageAt header result bytes s normals.length translate.length) =
      .ret (normals, messageAt header result bytes (s + normals.length) 0 translate.length) := by
    rw [hcount]
    exact drainNormal_at hh1 (by omega)
  have htranslate : drainTranslate (translate.length + 1)
      (messageAt header result bytes (s + normals.length) 0 translate.length) =
      .ret (params, messageAt header result bytes (s + normals.length + translate.length) 0 0) :=
    drainTranslate_at hh2 (by omega) hp (Nat.lt_succ_self _)
  exact ⟨_, _, _, _, hnew, rfl, rfl, hdrain, htranslate, messageAt_hasMore (by decide)⟩

/-- What the reader of a request makes of a message of `writeMessage`. -/
theorem newRequest_messageBytes (commandId : UInt16) {data : List UInt8}
    {normals translate : List UInt32}
    (h : 4 * (1 + normals.length + translate.length) ≤ data.length)
    (hn : normals.length < 64) (ht : translate.length < 64) :
    IPCReader.newRequest (messageBytes commandId data 1 normals translate) =
      .ret (messageAt ⟨commandId, UInt8.ofNat normals.length, UInt8.ofNat translate.length⟩ 0
        (messageBytes commandId data 1 normals translate) 1 normals.length
        translate.length) := by
  obtain ⟨hw, _, _⟩ := messageBytes_words commandId h Nat.one_pos
  have hlen := messageBytes_length commandId h Nat.one_pos
  unfold IPCReader.newRequest Cursor.new
  rw [show (0 : Nat) = 4 * 0 from rfl, Cursor.readU32_word (by omega), Outcome.ret_bind]
  dsimp only
  rw [hw, ofWord_headerWord _ (by rw [ofNat_toNat_of_lt] <;> omega)
    (by rw [ofNat_toNat_of_lt] <;> omega), Outcome.pure_eq]
  rfl

/-- The same for a response, whose result word stands in front of the parameters. -/
theorem newResponse_messageBytes (commandId : UInt16) {data : List UInt8}
    {normals translate : List UInt32}
    (h : 4 * (2 + normals.length + translate.length) ≤ data.length)
    (hn : normals.length < 64) (ht : translate.length < 64) :
    IPCReader.newResponse (messageBytes commandId data 2 normals translate) =
      .ret (messageAt ⟨commandId, UInt8.ofNat normals.length, UInt8.ofNat translate.length⟩
        (wordAt data 1) (messageBytes commandId data 2 normals translate) 2 normals.length
        translate.length) := by
  obtain ⟨hw, _, hother⟩ := messageBytes_words commandId h Nat.two_pos
  have hlen := messageBytes_length commandId h Nat.two_pos
  unfold IPCReader.newResponse Cursor.new
  rw [show (0 : Nat) = 4 * 0 from rfl, Cursor.readU32_word (by omega), Outcome.ret_bind]
  dsimp only
  rw [hw, ofWord_headerWord _ (by rw [ofNat_toNat_of_lt] <;> omega)
    (by rw [ofNat_toNat_of_lt] <;> omega), Cursor.readU32_word (by omega), Outcome.ret_bind]
  dsimp only
  rw [hother 1 (by decide) (Or.inl (by decide)), Outcome.pure_eq]
  rfl

/-! ## New writers -/

theorem newRequest_at {commandId : UInt16} {data : List UInt8} (h : 4 ≤ data.length) :
    IPCWriter.newRequest commandId data =
      .ret (writerAt commandId (setWord data 0 0) 1 0 0) := by
  have h0 : 4 * 0 + 4 ≤ data.length := by omega
  exact write_at 0 0 0 h0

theorem newResponse_at {commandId : UInt16} {result : UInt32} {data : List UInt8}
    (h : 8 ≤ data.length) :
    IPCWriter.newResponse commandId result data =
      .ret (writerAt commandId (setWord (setWord data 0 0) 1 result) 2 0 0) := by
  have h0 : 4 * 0 + 4 ≤ data.length := by omega
  unfold IPCWriter.newResponse
  rw [show MessageWriter.start commandId data = writerAt commandId data 0 0 0 from rfl,
    write_at 0 0 0 h0, Outcome.ret_bind]
  exact write_at 0 0 result (by rw [setWord_length _ h0]; omega)

theorem groups_le {ps : List HandleParameter} {p : HandleParameter} (hp : p ∈ ps) :
    p.words.length ≤ (ps.flatMap HandleParameter.words).length := by
  obtain ⟨as, bs, rfl⟩ := List.append_of_mem hp
  simp only [List.flatMap_append, List.flatMap_cons, List.length_append]
  omega

theorem parseGroups_of_fits {ps : List HandleParameter}
    (h : (ps.flatMap HandleParameter.words).length < 64) :
    parseGroups IPCReader.permission (ps.flatMap HandleParameter.words) =
      some (ps.map HandleParameter.decoded) := by
  refine parseGroups_words _ fun p hp => ?_
  have h1 := groups_le hp
  rw [p.words_length] at h1
  omega

/-- **Decoding undoes encoding.** A request or a response whose words fit the 256 bytes is
    written without a panic, and the reader of its kind yields the header with the exact
    counts, the result, the normal parameters and the handle parameters, in order, and is at
    the end then. `IPCResponse` writes the bytes that `IPCWriter::new_response` writes. -/
theorem decodes_writeMessage (commandId : UInt16) (result : UInt32) (normals : List UInt32)
    (params : List HandleParameter) (data : List UInt8) (hdata : data.length = 256) :
    (1 + normals.length + (params.flatMap HandleParameter.words).length ≤ 64 →
      ∃ bytes, writeMessage (IPCWriter.newRequest commandId data) normals params = .ret bytes ∧
        bytes.length = 256 ∧
        Decodes (IPCReader.newRequest bytes)
          ⟨commandId, UInt8.ofNat normals.length,
            UInt8.ofNat (params.flatMap HandleParameter.words).length⟩
          0 normals (params.map HandleParameter.decoded)) ∧
    (2 + normals.length + (params.flatMap HandleParameter.words).length ≤ 64 →
      ∃ bytes, writeMessage (IPCWriter.newResponse commandId result data) normals params =
          .ret bytes ∧
        (∀ header, header.commandId = commandId →
          writeMessage (IPCResponse.new header result data) normals params = .ret bytes) ∧
        bytes.length = 256 ∧
        Decodes (IPCReader.newResponse bytes)
          ⟨commandId, UInt8.ofNat normals.length,
            UInt8.ofNat (params.flatMap HandleParameter.words).length⟩
          result normals (params.map HandleParameter.decoded)) := by
  constructor
  · intro hfit
    have hlen : (setWord data 0 0).length = 256 := by
      rw [setWord_length _ (by omega), hdata]
    have hle : 4 * (1 + normals.length + (params.flatMap HandleParameter.words).length) ≤
        (setWord data 0 0).length := by omega
    refine ⟨_, ?_, (messageBytes_length commandId hle Nat.one_pos).trans hlen,
      decodes_of_holds rfl (by omega) (by omega)
        (newRequest_messageBytes commandId hle (by omega) (by omega))
        (messageBytes_words commandId hle Nat.one_pos).2.1 (parseGroups_of_fits (by omega))⟩
    rw [newRequest_at (by omega)]
    exact writeMessage_at Nat.one_pos hle (by omega) (by omega)
  · intro hfit
    have h0 : (setWord data 0 0).length = 256 := by
      rw [setWord_length _ (by omega), hdata]
    have hlen : (setWord (setWord data 0 0) 1 result).length = 256 := by
      rw [setWord_length _ (by omega), h0]
    have hle : 4 * (2 + normals.length + (params.flatMap HandleParameter.words).length) ≤
        (setWord (setWord data 0 0) 1 result).length := by omega
    have hresult : wordAt (setWord (setWord data 0 0) 1 result) 1 = result := by
      rw [wordAt_setWord _ (by omega), if_pos rfl]
    have hwrite : writeMessage (IPCWriter.newResponse commandId result data) normals params =
        .ret (messageBytes commandId (setWord (setWord data 0 0) 1 result) 2 normals
          (params.flatMap HandleParameter.words)) := by
      rw [newResponse_at (by omega)]
      exact writeMessage_at Nat.two_pos hle (by omega) (by omega)
    have hread := newResponse_messageBytes commandId hle (by omega) (by omega)
    rw [hresult] at hread
    refine ⟨_, hwrite, ?_, (messageBytes_length commandId hle Nat.two_pos).trans hlen,
      decodes_of_holds rfl (by omega) (by omega) hread
        (messageBytes_words commandId hle Nat.two_pos).2.1 (parseGroups_of_fits (by omega))⟩
    rintro header rfl
    exact hwrite

/-- A moved null handle and a handle of the calling process. -/
def sampleParams : List HandleParameter :=
  [{ moved := true, callingProcess := false, handles := .single none, nonEmpty := by decide },
   { moved := false, callingProcess := true,
     handles := .multiple [Handle.fromRaw 3, none], nonEmpty := by decide }]

theorem decodes_writeMessage_sample :
    ∃ bytes, writeMessage (IPCWriter.newRequest 5 (List.replicate 256 0)) [1, 2] sampleParams =
        .ret bytes ∧
      bytes.length = 256 ∧
      Decodes (IPCReader.newRequest bytes) ⟨5, 2, 5⟩ 0 [1, 2]
        (sampleParams.map HandleParameter.decoded) :=
  (decodes_writeMessage 5 7 [1, 2] sampleParams (List.replicate 256 0)
    List.length_replicate).1 (by decide)

end Pomelo
