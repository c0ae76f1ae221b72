/-
  IPC messages: handles, parameters, and the decoders and encoders
  (`kernel/src/ipc.rs`, `Handle` of `kernel/src/lib.rs`).

  A message lies in a byte buffer: a header word, for a response the result word, the normal
  parameters, and the translate parameters, each a descriptor word and the words it announces.

  `IPCRequest` and `IPCReader` are two copies of one decoder that differ in how they take the
  permission of a buffer mapping out of its descriptor; what they share is `ParameterReader`.
  `IPCWriter` and `IPCResponse` are two copies of one encoder, `MessageWriter`. An
  `unwrap` of a cursor operation panics when fewer than four bytes are left.
-/
import Pomelo.Basic
import Pomelo.Lib.WordBuffer

namespace Pomelo

open Lib

/-! ## Handles -/

/-- A handle: a `NonZeroU32`. -/
structure Handle where
  value : UInt32
  nonzero : value ≠ 0
deriving DecidableEq, Repr

def Handle.fromRaw (value : UInt32) : Option Handle :=
  if h : value ≠ 0 then some ⟨value, h⟩ else none

def Handle.raw (self : Handle) : UInt32 := self.value

/-- `HandleImpl for Option<Handle>`. -/
def rawHandle (handle : Option Handle) : UInt32 := (handle.map Handle.raw).getD 0

/-- What a handle of a calling-process parameter reads as. -/
def callingProcessHandle : Option Handle := Handle.fromRaw 0xFFFF8001

@[simp] theorem fromRaw_rawHandle (handle : Option Handle) :
    Handle.fromRaw (rawHandle handle) = handle := by
  cases handle with
  | none => rfl
  | some h => exact dif_pos h.nonzero

@[simp] theorem rawHandle_fromRaw (value : UInt32) :
    rawHandle (Handle.fromRaw value) = value := by
  unfold Handle.fromRaw
  split
  · rfl
  · rename_i h
    exact (Classical.not_not.mp h).symm

/-! ## Cursors -/

/-- A cursor in a byte buffer. -/
structure Cursor where
  data : List UInt8
  position : Nat
deriving DecidableEq, Repr

namespace Cursor

def new (data : List UInt8) : Cursor := { data := data, position := 0 }

/-- `read_u32::<LittleEndian>().unwrap()`. -/
def readU32 (self : Cursor) : Exec (UInt32 × Cursor) :=
  if self.position + 4 ≤ self.data.length then
    .ret (UInt32.ofNat (leValue ((self.data.drop self.position).take 4)),
      { self with position := self.position + 4 })
  else .panic .unwrap

/-- `write_u32::<LittleEndian>(word).unwrap()`. -/
def writeU32 (self : Cursor) (word : UInt32) : Exec Cursor :=
  if self.position + 4 ≤ self.data.length then
    .ret {
      data := self.data.take self.position ++ leBytes 4 word.toNat ++
        self.data.drop (self.position + 4)
      position := self.position + 4 }
  else .panic .unwrap

/-- `seek(SeekFrom::Start(0)).unwrap()`. -/
def seekStart (self : Cursor) : Cursor := { self with position := 0 }

theorem readU32_word {data : List UInt8} {i : Nat} (h : 4 * i + 4 ≤ data.length) :
    readU32 ⟨data, 4 * i⟩ = .ret (wordAt data i, ⟨data, 4 * (i + 1)⟩) :=
  if_pos h

theorem readU32_past {data : List UInt8} {i : Nat} (h : data.length < 4 * i + 4) :
    readU32 ⟨data, 4 * i⟩ = .panic .unwrap :=
  if_neg (Nat.not_le.mpr h)

theorem writeU32_word {data : List UInt8} {i : Nat} (w : UInt32)
    (h : 4 * i + 4 ≤ data.length) :
    writeU32 ⟨data, 4 * i⟩ w = .ret ⟨setWord data i w, 4 * (i + 1)⟩ :=
  if_pos h

end Cursor

/-! ## Headers and parameters -/

structure IPCHeaderCode where
  commandId : UInt16
  normalParameterCount : UInt8
  translateParameterSize : UInt8
deriving DecidableEq, Repr

/-- `From<u32> for IPCHeaderCode`. -/
def IPCHeaderCode.ofWord (value : UInt32) : IPCHeaderCode where
  commandId := ((value &&& 0xFFFF0000) >>> 16).toUInt16
  normalParameterCount := ((value &&& 0xFC0) >>> 6).toUInt8
  translateParameterSize := (value &&& 0x3F).toUInt8

inductive IPCHandles where
  | single (handle : Option Handle)
  | multiple (handles : List (Option Handle))
deriving DecidableEq, Repr

def IPCHandles.asSlice : IPCHandles → List (Option Handle)
  | .single handle => [handle]
  | .multiple handles => handles

inductive IPCTranslateParameter where
  | handle (moved callingProcess : Bool) (handles : IPCHandles)
  | staticBuffer (index : UInt8) (size ptr : UInt32)
  | bufferMapping (permission : UInt8) (size ptr : UInt32)
deriving DecidableEq, Repr

/-! ## Decoders -/

/-- What `IPCRequest` and `IPCReader` share: the cursor and the two counts of what is left. -/
structure ParameterReader where
  data : Cursor
  normalParameterCount : UInt8
  translateParameterWords : UInt8
deriving DecidableEq, Repr

namespace ParameterReader

def readNormal (self : ParameterReader) : Exec (UInt32 × ParameterReader) := do
  Outcome.assert (decide (self.normalParameterCount > 0))
    (.assertion "self.normal_parameter_count > 0")
  let (word, data) ← self.data.readU32
  return (word, { self with
    data := data, normalParameterCount := self.normalParameterCount - 1 })

def readTranslateWord (self : ParameterReader) : Exec (UInt32 × ParameterReader) := do
  Outcome.assert (decide (self.translateParameterWords > 0))
    (.assertion "self.translate_parameter_words > 0")
  let (word, data) ← self.data.readU32
  return (word, { self with
    data := data, translateParameterWords := self.translateParameterWords - 1 })

def readTranslateHandle (self : ParameterReader) : Exec (Option Handle × ParameterReader) := do
  let (word, self) ← self.readTranslateWord
  return (Handle.fromRaw word, self)

/-- The handles of a parameter, one by one. -/
def readHandles (callingProcess : Bool) :
    Nat → ParameterReader → Exec (List (Option Handle) × ParameterReader)
  | 0, self => return ([], self)
  | n + 1, self => do
    let (handle, self) ← self.readTranslateHandle
    let handle := if callingProcess then callingProcessHandle else handle
    let (handles, self) ← readHandles callingProcess n self
    return (handle :: handles, self)

/-- `read_translate`, with the decoder's own way to the permission of a buffer mapping. -/
def readTranslate (permission : UInt32 → UInt8) (self : ParameterReader) :
    Exec (IPCTranslateParameter × ParameterReader) := do
  Outcome.assert (decide (self.normalParameterCount = 0))
    (.assertion "self.normal_parameter_count == 0")
  let (descriptor, self) ← self.readTranslateWord
  if descriptor &&& 7 = 0 then do
    let moved := decide (descriptor &&& 16 ≠ 0)
    let callingProcess := decide (descriptor &&& 32 ≠ 0)
    let count := (descriptor &&& 0xFC000000) >>> 26
    if count = 0 then do
      let (handle, self) ← self.readTranslateHandle
      let handle := if callingProcess then callingProcessHandle else handle
      return (.handle moved callingProcess (.single handle), self)
    else do
      let (handles, self) ← self.readHandles callingProcess (count.toNat + 1)
      return (.handle moved callingProcess (.multiple handles), self)
  else if descriptor &&& 7 = 1 then do
    let index := ((descriptor &&& 0x3C00) >>> 10).toUInt8
    let size := (descriptor &&& 0xFFFFC000) >>> 14
    let (ptr, self) ← self.readTranslateWord
    return (.staticBuffer index size ptr, self)
  else do
    let size := (descriptor &&& 0xFFFFFFF0) >>> 4
    let (ptr, self) ← self.readTranslateWord
    return (.bufferMapping (permission (descriptor &&& 7)) size ptr, self)

end ParameterReader

/-- `IPCReader`: the decoder of the kernel. -/
structure IPCReader where
  header : IPCHeaderCode
  result : UInt32
  params : ParameterReader
deriving DecidableEq, Repr

namespace IPCReader

def newRequest (data : List UInt8) : Exec IPCReader := do
  let (word, data) ← (Cursor.new data).readU32
  let header := IPCHeaderCode.ofWord word
  return {
    header := header
    result := 0
    params := ⟨data, header.normalParameterCount, header.translateParameterSize⟩ }

def newResponse (data : List UInt8) : Exec IPCReader := do
  let (word, data) ← (Cursor.new data).readU32
  let header := IPCHeaderCode.ofWord word
  let (result, data) ← data.readU32
  return {
    header := header
    result := result
    params := ⟨data, header.normalParameterCount, header.translateParameterSize⟩ }

def readNormal (self : IPCReader) : Exec (UInt32 × IPCReader) := do
  let (word, params) ← self.params.readNormal
  return (word, { self with params := params })

def hasMoreTranslateParams (self : IPCReader) : Bool :=
  decide (self.params.translateParameterWords > 0)

/-- The permission of a buffer mapping, from the low three bits of its descriptor. -/
def permission (n : UInt32) : UInt8 := (n &&& 0b0110).toUInt8 >>> 1

def readTranslate (self : IPCReader) : Exec (IPCTranslateParameter × IPCReader) := do
  let (param, params) ← self.params.readTranslate permission
  return (param, { self with params := params })

end IPCReader

/-- `IPCRequest`: the decoder of the services. -/
structure IPCRequest where
  header : IPCHeaderCode
  params : ParameterReader
deriving DecidableEq, Repr

namespace IPCRequest

def new (data : List UInt8) : Exec IPCRequest := do
  let (word, data) ← (Cursor.new data).readU32
  let header := IPCHeaderCode.ofWord word
  return {
    header := header
    params := ⟨data, header.normalParameterCount, header.translateParameterSize⟩ }

def readNormal (self : IPCRequest) : Exec (UInt32 × IPCRequest) := do
  let (word, params) ← self.params.readNormal
  return (word, { self with params := params })

/-- The permission of a buffer mapping, from the low three bits of its descriptor. -/
def permission (n : UInt32) : UInt8 := (n &&& 3).toUInt8

def readTranslate (self : IPCRequest) : Exec (IPCTranslateParameter × IPCRequest) := do
  let (param, params) ← self.params.readTranslate permission
  return (param, { self with params := params })

end IPCRequest

/-! ## Encoders -/

/-- What `IPCWriter` and `IPCResponse` both are. The header word is written last, by `drop`. -/
structure MessageWriter where
  commandId : UInt16
  normalParameterCount : UInt8
  translateParameterSize : UInt8
  data : Cursor
deriving DecidableEq, Repr

namespace MessageWriter

/-- A writer at the start of the buffer. -/
def start (commandId : UInt16) (data : List UInt8) : MessageWriter :=
  { commandId := commandId, normalParameterCount := 0, translateParameterSize := 0,
    data := Cursor.new data }

def write (self : MessageWriter) (word : UInt32) : Exec MessageWriter := do
  let data ← self.data.writeU32 word
  return { self with data := data }

def writeNormal (self : MessageWriter) (param : UInt32) : Exec MessageWriter := do
  Outcome.assert (decide (self.translateParameterSize = 0))
    (.assertion "self.translate_parameter_size == 0")
  let count ← incU8 self.normalParameterCount
  { self with normalParameterCount := count }.write param

/-- The descriptor word of a handle parameter with `n + 1` handles. -/
def handleDescriptor (moved callingProcess : Bool) (n : Nat) : UInt32 :=
  (0 : UInt32) ||| (if moved then (16 : UInt32) else 0) |||
    (if callingProcess then (32 : UInt32) else 0) |||
    UInt32.ofNat n <<< 26

/-- The handles of a parameter, one by one, each counted after it is written. -/
def writeHandles : List (Option Handle) → MessageWriter → Exec MessageWriter
  | [], self => return self
  | handle :: handles, self => do
    let self ← self.write (rawHandle handle)
    let size ← incU8 self.translateParameterSize
    writeHandles handles { self with translateParameterSize := size }

def writeTranslate (self : MessageWriter) (param : IPCTranslateParameter) :
    Exec MessageWriter := do
  let size ← incU8 self.translateParameterSize
  let self := { self with translateParameterSize := size }
  match param with
  | .handle moved callingProcess handles => do
    let n ← subUsize handles.asSlice.length 1
    let self ← self.write (handleDescriptor moved callingProcess n)
    self.writeHandles handles.asSlice
  | _ => .panic (.unimplemented "Unimplemented write_translate")

/-- The header word of the counts. -/
def header (self : MessageWriter) : UInt32 :=
  self.commandId.toUInt32 <<< 16 ||| self.normalParameterCount.toUInt32 <<< 6 |||
    self.translateParameterSize.toUInt32

/-- `Drop`: the header goes to the front. What is left is the buffer. -/
def drop (self : MessageWriter) : Exec (List UInt8) := do
  let self ← { self with data := self.data.seekStart }.write self.header
  return self.data.data

end MessageWriter

namespace IPCWriter

def newRequest (commandId : UInt16) (data : List UInt8) : Exec MessageWriter :=
  (MessageWriter.start commandId data).write 0

def newResponse (commandId : UInt16) (result : UInt32) (data : List UInt8) :
    Exec MessageWriter := do
  let response ← (MessageWriter.start commandId data).write 0
  response.write result

end IPCWriter

/-- `IPCResponse::new`. -/
def IPCResponse.new (header : IPCHeaderCode) (result : UInt32) (data : List UInt8) :
    Exec MessageWriter := do
  let response ← (MessageWriter.start header.commandId data).write 0
  response.write result

end Pomelo
