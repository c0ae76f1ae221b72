/-
  `translate_ipc` (`kernel/src/lib.rs`).

  The message in the source thread's `ipc_data` is read parameter by parameter and written to
  the destination thread's. Handles go from the table of the one process to the table of the
  other, which may be the same table.
-/
import Pomelo.Kernel.Calls

namespace Pomelo

open Lib

namespace Kernel

/-- `find_thread_pair_mut`: the threads `a` and `b`, in this order. -/
def findThreadPair (k : Kernel) (a b : ThreadIndex) : Exec (CommonThread × CommonThread) := do
  let pair := k.threads.filter fun thread => thread.index = a || thread.index = b
  let threadA ← Outcome.expect pair[0]? (.expect "Couldn't find a thread")
  let threadB ← Outcome.expect pair[1]? (.expect "Couldn't find a thread")
  return if threadA.index = b then (threadB, threadA) else (threadA, threadB)

section Handles

variable (rng : Nat → UInt32) (fuel : Nat) (src dest : ProcessId) (moved : Bool)

/-- `lookup_close_handle` or `lookup_handle` on the process `src`. -/
def takeHandle (handle : Handle) (k : Kernel) : Exec (Option ObjId × Kernel) := do
  let process ← k.findCommonProcess src
  if moved then
    return ((process.lookupCloseHandle handle).1,
      k.setProcess (process.lookupCloseHandle handle).2)
  else return (process.lookupHandle handle, k)

/-- `new_handle` on the process `dest`. -/
def giveHandle (obj : ObjId) (k : Kernel) : Exec (Handle × Kernel) := do
  let process ← k.findCommonProcess dest
  let (handle, process) ← process.newHandle rng fuel obj
  return (handle, k.setProcess process)

/-- `translate_handle`. -/
def translateHandle (handle : Option Handle) (k : Kernel) : Exec (Option Handle × Kernel) :=
  match handle with
  | none => return (none, k)
  | some handle => do
    let (kobj, k) ← k.takeHandle src moved handle
    match kobj with
    | none => return (none, k)
    | some kobj => do
      let (handle, k) ← k.giveHandle rng fuel dest kobj
      return (some handle, k)

/-- The handles of a parameter, in order. -/
def translateHandles : List (Option Handle) → Kernel → Exec (List (Option Handle) × Kernel)
  | [], k => return ([], k)
  | handle :: handles, k => do
    let (handle, k) ← translateHandle rng fuel src dest moved handle k
    let (handles, k) ← translateHandles handles k
    return (handle :: handles, k)

/-- The handles of a parameter: a `Single` stays one, a `Multiple` stays one. -/
def translateIPCHandles (handles : IPCHandles) (k : Kernel) : Exec (IPCHandles × Kernel) :=
  match handles with
  | .single handle => do
    let (handle, k) ← translateHandle rng fuel src dest moved handle k
    return (.single handle, k)
  | .multiple handles => do
    let (handles, k) ← translateHandles rng fuel src dest moved handles k
    return (.multiple handles, k)

end Handles

/-- `for _ in 0..n { writer.write_normal(reader.read_normal()) }`. -/
def translateNormals : Nat → IPCReader → MessageWriter → Exec (IPCReader × MessageWriter)
  | 0, reader, writer => return (reader, writer)
  | n + 1, reader, writer => do
    let (param, reader) ← reader.readNormal
    let writer ← writer.writeNormal param
    translateNormals n reader writer

/-- One translate parameter: a handle parameter is translated and written, any other is not. -/
def translateParam (rng : Nat → UInt32) (fuel : Nat) (src dest : ProcessId)
    (param : IPCTranslateParameter) (writer : MessageWriter) (k : Kernel) :
    Exec (MessageWriter × Kernel) :=
  match param with
  | .handle moved callingProcess handles => do
    let (handles, k) ← translateIPCHandles rng fuel src dest moved handles k
    let writer ← writer.writeTranslate (.handle moved callingProcess handles)
    return (writer, k)
  | _ => return (writer, k)

/-- `while reader.has_more_translate_params() { .. }`. -/
def translateParams (rng : Nat → UInt32) (fuel : Nat) (src dest : ProcessId) :
    Nat → IPCReader → MessageWriter → Kernel → Exec (MessageWriter × Kernel)
  | 0, _, _, _ => .diverge
  | n + 1, reader, writer, k =>
    if reader.hasMoreTranslateParams then do
      let (param, reader) ← reader.readTranslate
      let (writer, k) ← translateParam rng fuel src dest param writer k
      translateParams rng fuel src dest n reader writer k
    else return (writer, k)

/-- The reader of the source's message. -/
def readerFor (reply : Bool) (ipcData : List UInt8) : Exec IPCReader :=
  if reply then IPCReader.newResponse ipcData else IPCReader.newRequest ipcData

/-- The writer of the destination's message. -/
def writerFor (reply : Bool) (reader : IPCReader) (ipcData : List UInt8) : Exec MessageWriter :=
  if reply then IPCWriter.newResponse reader.header.commandId reader.result ipcData
  else IPCWriter.newRequest reader.header.commandId ipcData

/-- `translate_ipc`. -/
def translateIpc (rng : Nat → UInt32) (fuel : Nat) (k : Kernel) (src dest : ThreadIndex)
    (reply : Bool) : Exec Kernel := do
  let (srcThread, thread) ← k.findThreadPair src dest
  let currentProcess ← k.findCommonProcess srcThread.pid
  let process ← k.findCommonProcess thread.pid
  let reader ← readerFor reply srcThread.ipcData
  let writer ← writerFor reply reader thread.ipcData
  let (reader, writer) ← translateNormals reader.header.normalParameterCount.toNat reader writer
  let (writer, k) ←
    translateParams rng fuel currentProcess.pid process.pid fuel reader writer k
  let ipcData ← writer.drop
  return k.setThread { thread with ipcData := ipcData }

end Kernel

end Pomelo
