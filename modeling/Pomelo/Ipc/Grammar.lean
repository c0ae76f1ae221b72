/-
  The grammar of IPC messages, on words.

  `HandleParameter.words` are the words of a handle parameter, and `parseGroup` takes one
  parameter off a list of words: what was written comes back as `HandleParameter.decoded`
  (`parseGroup_words`). The header word packs its three fields without overlap as long as both
  counts are below 64 (`ofWord_headerWord`).
-/
import Pomelo.Ipc.Message

namespace Pomelo

open Lib

/-! ## Bit fields -/

/-- Masking a field and shifting it down takes its bits out of the number. -/
theorem field_eq (x k m : Nat) :
    (x &&& ((2 ^ m - 1) <<< k)) >>> k = x / 2 ^ k % 2 ^ m := by
  rw [← Nat.shiftRight_eq_div_pow]
  apply Nat.eq_of_testBit_eq
  intro i
  simp only [Nat.testBit_shiftRight, Nat.testBit_and, Nat.testBit_shiftLeft,
    Nat.testBit_two_pow_sub_one, Nat.testBit_mod_two_pow, Nat.add_sub_cancel_left]
  by_cases hi : i < m
  · simp [hi]
  · simp [hi]

/-- The header word of a command id and two counts. -/
def headerWord (commandId : UInt16) (normal translate : UInt8) : UInt32 :=
  commandId.toUInt32 <<< 16 ||| normal.toUInt32 <<< 6 ||| translate.toUInt32

theorem headerWord_toNat (commandId : UInt16) {n t : UInt8} (hn : n.toNat < 64)
    (ht : t.toNat < 64) :
    (headerWord commandId n t).toNat = commandId.toNat * 65536 + n.toNat * 64 + t.toNat := by
  have hc : commandId.toNat < 65536 := commandId.toNat_lt
  have hor : n.toNat * 64 ||| t.toNat = n.toNat * 64 + t.toNat := by
    rw [show n.toNat * 64 = n.toNat <<< 6 from (Nat.shiftLeft_eq _ 6).symm,
      Nat.shiftLeft_add_eq_or_of_lt (show t.toNat < 2 ^ 6 by omega)]
  have hor2 : commandId.toNat * 65536 ||| (n.toNat * 64 + t.toNat) =
      commandId.toNat * 65536 + (n.toNat * 64 + t.toNat) := by
    rw [show commandId.toNat * 65536 = commandId.toNat <<< 16 from (Nat.shiftLeft_eq _ 16).symm,
      Nat.shiftLeft_add_eq_or_of_lt (show n.toNat * 64 + t.toNat < 2 ^ 16 by omega)]
  unfold headerWord
  simp only [UInt32.toNat_or, UInt32.toNat_shiftLeft, UInt16.toNat_toUInt32,
    UInt8.toNat_toUInt32, UInt32.reduceToNat, Nat.shiftLeft_eq]
  rw [Nat.or_assoc]
  show commandId.toNat * 65536 % 4294967296 ||| (n.toNat * 64 % 4294967296 ||| t.toNat) = _
  rw [Nat.mod_eq_of_lt (by omega), Nat.mod_eq_of_lt (by omega), hor, hor2]
  omega

/-- The header word decodes to its three fields. -/
theorem ofWord_headerWord (commandId : UInt16) {n t : UInt8} (hn : n.toNat < 64)
    (ht : t.toNat < 64) :
    IPCHeaderCode.ofWord (headerWord commandId n t) = ⟨commandId, n, t⟩ := by
  have hc : commandId.toNat < 65536 := commandId.toNat_lt
  have hw := headerWord_toNat commandId hn ht
  have f1 := field_eq (headerWord commandId n t).toNat 16 16
  have f2 := field_eq (headerWord commandId n t).toNat 6 6
  have f3 := field_eq (headerWord commandId n t).toNat 0 6
  rw [hw] at f1 f2 f3
  unfold IPCHeaderCode.ofWord
  congr 1
  · apply UInt16.toNat_inj.mp
    simp only [UInt32.toNat_toUInt16, UInt32.toNat_shiftRight, UInt32.toNat_and, hw]
    show ((_ &&& (2 ^ 16 - 1) <<< 16) >>> 16) % 65536 = _
    rw [f1]
    omega
  · apply UInt8.toNat_inj.mp
    simp only [UInt32.toNat_toUInt8, UInt32.toNat_shiftRight, UInt32.toNat_and, hw]
    show ((_ &&& (2 ^ 6 - 1) <<< 6) >>> 6) % 256 = _
    rw [f2]
    omega
  · apply UInt8.toNat_inj.mp
    simp only [UInt32.toNat_toUInt8, UInt32.toNat_and, hw]
    show ((_ &&& (2 ^ 6 - 1) <<< 0) >>> 0) % 256 = _
    rw [f3]
    omega

/-- The descriptor of a handle parameter: its kind, its flags and its count. -/
theorem handleDescriptor_fields (moved callingProcess : Bool) {n : Nat} (hn : n < 64) :
    MessageWriter.handleDescriptor moved callingProcess n &&& 7 = 0 ∧
      decide (MessageWriter.handleDescriptor moved callingProcess n &&& 16 ≠ 0) = moved ∧
      decide (MessageWriter.handleDescriptor moved callingProcess n &&& 32 ≠ 0) =
        callingProcess ∧
      ((MessageWriter.handleDescriptor moved callingProcess n &&& 0xFC000000) >>> 26).toNat =
        n := by
  have h : ∀ (m c : Bool) (n : Fin 64),
      MessageWriter.handleDescriptor m c n &&& 7 = 0 ∧
        decide (MessageWriter.handleDescriptor m c n &&& 16 ≠ 0) = m ∧
        decide (MessageWriter.handleDescriptor m c n &&& 32 ≠ 0) = c ∧
        ((MessageWriter.handleDescriptor m c n &&& 0xFC000000) >>> 26).toNat = n := by
    decide +kernel
  exact h moved callingProcess ⟨n, hn⟩

/-! ## Parameters -/

/-- A handle parameter: at least one handle. -/
structure HandleParameter where
  moved : Bool
  callingProcess : Bool
  handles : IPCHandles
  nonEmpty : handles.asSlice ≠ []

/-- One handle as `Single`, more as `Multiple`. -/
def handlesOf : List (Option Handle) → IPCHandles
  | [handle] => .single handle
  | handles => .multiple handles

theorem asSlice_handlesOf (handles : List (Option Handle)) :
    (handlesOf handles).asSlice = handles := by
  unfold handlesOf
  split <;> rfl

/-- What a handle word reads as. -/
def readAs (callingProcess : Bool) (handle : Option Handle) : Option Handle :=
  if callingProcess then callingProcessHandle else handle

namespace HandleParameter

def toParameter (p : HandleParameter) : IPCTranslateParameter :=
  .handle p.moved p.callingProcess p.handles

/-- The parameter as the decoder returns it. -/
def decoded (p : HandleParameter) : IPCTranslateParameter :=
  .handle p.moved p.callingProcess
    (handlesOf (p.handles.asSlice.map (readAs p.callingProcess)))

/-- The words of the parameter: its descriptor and its handles. -/
def words (p : HandleParameter) : List UInt32 :=
  MessageWriter.handleDescriptor p.moved p.callingProcess (p.handles.asSlice.length - 1) ::
    p.handles.asSlice.map rawHandle

theorem words_length (p : HandleParameter) :
    p.words.length = p.handles.asSlice.length + 1 := by
  simp [words]

theorem length_pos (p : HandleParameter) : 0 < p.handles.asSlice.length :=
  List.length_pos_iff.mpr p.nonEmpty

end HandleParameter

/-- The handle parameter with descriptor `d` in front of the words. -/
def parseHandle (d : UInt32) (ws : List UInt32) :
    Option (IPCTranslateParameter × List UInt32) :=
  let callingProcess := decide (d &&& 32 ≠ 0)
  let n := ((d &&& 0xFC000000) >>> 26).toNat + 1
  if n ≤ ws.length then
    some (.handle (decide (d &&& 16 ≠ 0)) callingProcess
      (handlesOf ((ws.take n).map fun w => readAs callingProcess (Handle.fromRaw w))),
      ws.drop n)
  else none

/-- The buffer parameter with descriptor `d` in front of the words. -/
def parseBuffer (permission : UInt32 → UInt8) (d : UInt32) :
    List UInt32 → Option (IPCTranslateParameter × List UInt32)
  | [] => none
  | ptr :: ws =>
    some (if d &&& 7 = 1 then
      .staticBuffer ((d &&& 0x3C00) >>> 10).toUInt8 ((d &&& 0xFFFFC000) >>> 14) ptr
    else .bufferMapping (permission (d &&& 7)) ((d &&& 0xFFFFFFF0) >>> 4) ptr, ws)

/-- Take one parameter off the words. -/
def parseGroup (permission : UInt32 → UInt8) :
    List UInt32 → Option (IPCTranslateParameter × List UInt32)
  | [] => none
  | d :: ws => if d &&& 7 = 0 then parseHandle d ws else parseBuffer permission d ws

theorem parseHandle_eq_some {d : UInt32} {ws rest : List UInt32} {p : IPCTranslateParameter}
    (h : parseHandle d ws = some (p, rest)) :
    ∃ hs, hs.length = ((d &&& 0xFC000000) >>> 26).toNat + 1 ∧ ws = hs ++ rest ∧
      p = .handle (decide (d &&& 16 ≠ 0)) (decide (d &&& 32 ≠ 0))
        (handlesOf (hs.map fun w => readAs (decide (d &&& 32 ≠ 0)) (Handle.fromRaw w))) := by
  unfold parseHandle at h
  dsimp only at h
  split at h
  · rename_i hle
    injection h with h
    obtain ⟨hp, hrest⟩ := Prod.mk.inj h
    exact ⟨_, List.length_take_of_le hle, by rw [← hrest, List.take_append_drop], hp.symm⟩
  · cases h

theorem parseGroup_length {permission : UInt32 → UInt8} {ws rest : List UInt32}
    {p : IPCTranslateParameter} (h : parseGroup permission ws = some (p, rest)) :
    rest.length < ws.length := by
  cases ws with
  | nil => cases h
  | cons d ws =>
    rw [parseGroup] at h
    split at h
    · obtain ⟨hs, _, rfl, _⟩ := parseHandle_eq_some h
      rw [List.length_cons, List.length_append]
      omega
    · cases ws with
      | nil => cases h
      | cons ptr ws =>
        injection h with h
        rw [← (Prod.mk.inj h).2, List.length_cons, List.length_cons]
        omega

/-- What was written comes back. -/
theorem parseGroup_words (permission : UInt32 → UInt8) (p : HandleParameter)
    (hlen : p.handles.asSlice.length ≤ 64) (rest : List UInt32) :
    parseGroup permission (p.words ++ rest) = some (p.decoded, rest) := by
  have hpos := p.length_pos
  obtain ⟨h7, h16, h32, hn⟩ := handleDescriptor_fields p.moved p.callingProcess
    (n := p.handles.asSlice.length - 1) (by omega)
  have hcount : p.handles.asSlice.length - 1 + 1 = p.handles.asSlice.length := by omega
  have hmap : (p.handles.asSlice.map rawHandle).length = p.handles.asSlice.length := by simp
  unfold HandleParameter.words
  rw [List.cons_append, parseGroup, if_pos h7, parseHandle, hn, hcount, h16, h32,
    if_pos (by simp), List.take_left' hmap, List.drop_left' hmap, List.map_map]
  congr 2
  unfold HandleParameter.decoded
  congr 2
  apply List.map_congr_left
  intro h _
  rw [Function.comp_apply, fromRaw_rawHandle]

/-- Take parameters off the words until none is left. -/
def parseGroups (permission : UInt32 → UInt8) (ws : List UInt32) :
    Option (List IPCTranslateParameter) :=
  match ws with
  | [] => some []
  | w :: ws =>
    match _h : parseGroup permission (w :: ws) with
    | none => none
    | some (p, rest) => (parseGroups permission rest).map fun ps => p :: ps
termination_by ws.length
decreasing_by exact parseGroup_length (by assumption)

theorem parseGroups_of_group {permission : UInt32 → UInt8} {ws rest : List UInt32}
    {p : IPCTranslateParameter} (h : parseGroup permission ws = some (p, rest)) :
    parseGroups permission ws = (parseGroups permission rest).map fun ps => p :: ps := by
  cases ws with
  | nil => cases h
  | cons w ws =>
    rw [parseGroups]
    split
    · rename_i hn
      rw [h] at hn
      cases hn
    · rename_i q r hs
      rw [h] at hs
      cases hs
      rfl

theorem parseGroups_words (permission : UInt32 → UInt8) {ps : List HandleParameter}
    (hlen : ∀ p ∈ ps, p.handles.asSlice.length ≤ 64) :
    parseGroups permission (ps.flatMap HandleParameter.words) =
      some (ps.map HandleParameter.decoded) := by
  induction ps with
  | nil => rw [List.flatMap_nil, parseGroups, List.map_nil]
  | cons p ps ih =>
    rw [List.flatMap_cons, parseGroups_of_group (parseGroup_words _ p (hlen p (by simp)) _),
      ih fun q hq => hlen q (by simp [hq])]
    rfl

end Pomelo
