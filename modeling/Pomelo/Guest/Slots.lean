/-
  Who writes the message slots of threads.

  The `ipc_data` slot of a thread is written by `set_thread_ipc_data` of this thread, and by
  `translate_ipc` when a reply or a request is for it (`Kernel.messageTo?`). A message has the
  length of what was in the slot before. Nothing else changes the slot of a thread that there is
  (`Kernel.delivers_of_step`).
-/
import Pomelo.Hle.Scheduler
import Pomelo.Guest.CommandBuffer

namespace Pomelo

open Lib Outcome

/-! ## Slots that are kept -/

namespace Kernel

/-- The slots of the threads that there are hold what they did. -/
def KeepsSlots (k k' : Kernel) : Prop :=
  ∀ t data, k.slot t = some data → k'.slot t = some data

variable {k k' k'' : Kernel} {t : ThreadIndex} {data : List UInt8}

theorem slot_iff : k.slot t = some data ↔ k.ThreadIs t fun thread => thread.ipcData = data :=
  Option.map_eq_some_iff

theorem slot_of_thread {thread : CommonThread} (h : k.thread? t = some thread) :
    k.slot t = some thread.ipcData := by
  unfold slot
  rw [h]
  rfl

namespace KeepsSlots

theorem refl (k : Kernel) : KeepsSlots k k := fun _ _ h => h

theorem trans (h : KeepsSlots k k') (h' : KeepsSlots k' k'') : KeepsSlots k k'' :=
  fun t data hs => h' t data (h t data hs)

theorem of_threads (h : k'.threads = k.threads) : KeepsSlots k k' := fun _ _ hs =>
  slot_iff.mpr ((slot_iff.mp hs).of_threads h)

/-- A thread changes, and its slot does not. -/
theorem setThread {old thread : CommonThread} (hold : k.thread? t = some old)
    (hindex : thread.index = old.index) (hdata : thread.ipcData = old.ipcData) :
    KeepsSlots k (k.setThread thread) := fun _ _ hs =>
  slot_iff.mpr ((slot_iff.mp hs).setThread thread hold hindex fun h => hdata.trans h)

theorem timeouts {time : UInt64} (h : k.tickThreadsAt time = .ret k') : KeepsSlots k k' := by
  intro t data hs
  obtain ⟨thread, ht, hdata⟩ := slot_iff.mp hs
  obtain ⟨thread', ht', _⟩ := (undisturbed_timeouts h).thread? ht
  obtain ⟨⟨threads, objects⟩, htick, h⟩ := bind_eq_ret.mp h
  cases h
  obtain ⟨other, hother, hcase⟩ := findKey_of_tickThreads htick ht'
  have hother := ht.symm.trans hother
  cases hother
  refine slot_iff.mpr ⟨thread', ht', ?_⟩
  rcases hcase with rfl | ⟨_, resume, _, rfl⟩
  · exact hdata
  · exact hdata

/-- A new thread is behind the others. -/
theorem newThread {pid : ProcessId} {tid : ThreadIndex} {kobj : ObjId}
    (h : k.newThread pid = .ret (tid, kobj, k')) : KeepsSlots k k' := by
  intro t data hs
  obtain ⟨thread, ht, hdata⟩ := slot_iff.mp hs
  obtain ⟨rfl, rfl, rfl⟩ := newThread_eq_ret h
  refine slot_iff.mpr ⟨thread, ?_, hdata⟩
  show findKey CommonThread.index t (k.threads ++ _) = some thread
  rw [findKey_append, show findKey CommonThread.index t k.threads = some thread from ht]
  rfl

end KeepsSlots

/-- **Only messages change slots.** -/
theorem keepsSlots_of_primitive {may : Effects} {c c' : InCall} (hsilent : ¬ may.messages)
    (hp : Primitive may c c') : KeepsSlots c.kernel c'.kernel := by
  cases hp with
  | wake _ hwake =>
    obtain ⟨thread, hthread, hcase⟩ := wake_eq_ret hwake
    rcases hcase with ⟨_, _, resume, _, rfl⟩ | ⟨_, _, rfl⟩
    · exact (KeepsSlots.setThread hthread (thread.woken_index resume) rfl).trans
        (.of_threads rfl)
    · exact .refl _
  | suspend _ _ hsuspend =>
    obtain ⟨_, _, thread, _, hthread, _, _, rfl⟩ := suspendThread_eq_ret hsuspend
    exact .setThread hthread rfl rfl
  | message hm => exact absurd hm hsilent
  | finish _ _ hfinish =>
    obtain ⟨_, _, thread, _, hthread, _, rfl⟩ := finishThread_eq_ret hfinish
    exact .setThread hthread rfl rfl
  | timeouts htick => exact .timeouts htick
  | born _ hthread => exact .newThread hthread
  | _ => exact .of_threads rfl

theorem keepsSlots_of_made {held : List (Waker × ObjId)} (h : Made .silent held k k') :
    KeepsSlots k k' := by
  have hall : ∀ c c' : InCall, Relation.ReflTransGen (Primitive .silent) c c' →
      KeepsSlots c.kernel c'.kernel := by
    intro c c' hsteps
    induction hsteps with
    | refl => exact .refl _
    | tail _ hp ih => exact ih.trans (keepsSlots_of_primitive id hp)
  exact hall _ _ h

end Kernel

/-! ## Messages -/

namespace MessageWriter

theorem writeU32_length {cursor cursor' : Cursor} {word : UInt32}
    (h : cursor.writeU32 word = .ret cursor') : cursor'.data.length = cursor.data.length := by
  unfold Cursor.writeU32 at h
  split at h
  · cases h
    simp only [List.length_append, List.length_take, List.length_drop, leBytes_length]
    omega
  · cases h

variable {self self' : MessageWriter}

theorem write_length {word : UInt32} (h : self.write word = .ret self') :
    self'.data.data.length = self.data.data.length := by
  obtain ⟨cursor, hwrite, h⟩ := bind_eq_ret.mp h
  cases h
  exact writeU32_length hwrite

theorem writeNormal_length {param : UInt32} (h : self.writeNormal param = .ret self') :
    self'.data.data.length = self.data.data.length := by
  obtain ⟨_, _, h⟩ := bind_eq_ret.mp h
  obtain ⟨count, _, h⟩ := bind_eq_ret.mp h
  have hlength := write_length h
  exact hlength

theorem writeHandles_length {handles : List (Option Handle)}
    (h : self.writeHandles handles = .ret self') :
    self'.data.data.length = self.data.data.length := by
  induction handles generalizing self with
  | nil =>
    cases h
    rfl
  | cons handle handles ih =>
    obtain ⟨writer, hwrite, h⟩ := bind_eq_ret.mp h
    obtain ⟨size, _, h⟩ := bind_eq_ret.mp h
    have hlength := write_length hwrite
    exact (ih h).trans hlength

theorem writeTranslate_length {param : IPCTranslateParameter}
    (h : self.writeTranslate param = .ret self') :
    self'.data.data.length = self.data.data.length := by
  obtain ⟨size, _, h⟩ := bind_eq_ret.mp h
  cases param with
  | handle moved callingProcess handles =>
    obtain ⟨n, _, h⟩ := bind_eq_ret.mp h
    obtain ⟨writer, hwrite, h⟩ := bind_eq_ret.mp h
    have hlength := write_length hwrite
    exact (writeHandles_length h).trans hlength
  | _ => cases h

theorem drop_length {data : List UInt8} (h : self.drop = .ret data) :
    data.length = self.data.data.length := by
  obtain ⟨writer, hwrite, h⟩ := bind_eq_ret.mp h
  cases h
  have hlength := write_length hwrite
  exact hlength

end MessageWriter

namespace Kernel

section Translate

variable {rng : Nat → UInt32} {fuel : Nat} {k k' : Kernel} {writer writer' : MessageWriter}

theorem writerFor_length {reply : Bool} {reader : IPCReader} {data : List UInt8}
    (h : writerFor reply reader data = .ret writer) : writer.data.data.length = data.length := by
  cases reply with
  | true =>
    obtain ⟨started, hstart, h⟩ := bind_eq_ret.mp h
    exact (MessageWriter.write_length h).trans (MessageWriter.write_length hstart)
  | false => exact MessageWriter.write_length h

theorem translateNormals_length {n : Nat} {reader reader' : IPCReader}
    (h : translateNormals n reader writer = .ret (reader', writer')) :
    writer'.data.data.length = writer.data.data.length := by
  induction n generalizing reader writer with
  | zero =>
    cases h
    rfl
  | succ n ih =>
    obtain ⟨⟨param, reader1⟩, _, h⟩ := bind_eq_ret.mp h
    obtain ⟨writer1, hwrite, h⟩ := bind_eq_ret.mp h
    exact (ih h).trans (MessageWriter.writeNormal_length hwrite)

theorem translateParam_length {src dest : ProcessId} {param : IPCTranslateParameter}
    (h : translateParam rng fuel src dest param writer k = .ret (writer', k')) :
    writer'.data.data.length = writer.data.data.length := by
  cases param with
  | handle moved callingProcess handles =>
    obtain ⟨⟨handles', k1⟩, _, h⟩ := bind_eq_ret.mp h
    obtain ⟨writer1, hwrite, h⟩ := bind_eq_ret.mp h
    cases h
    exact MessageWriter.writeTranslate_length hwrite
  | _ =>
    cases h
    rfl

theorem translateParams_length {src dest : ProcessId} {n : Nat} {reader : IPCReader}
    (h : translateParams rng fuel src dest n reader writer k = .ret (writer', k')) :
    writer'.data.data.length = writer.data.data.length := by
  induction n generalizing reader writer k with
  | zero => cases h
  | succ n ih =>
    unfold translateParams at h
    split at h
    · obtain ⟨⟨param, reader1⟩, _, h⟩ := bind_eq_ret.mp h
      obtain ⟨⟨writer1, k1⟩, hparam, h⟩ := bind_eq_ret.mp h
      exact (ih h).trans (translateParam_length hparam)
    · cases h
      rfl

/-- The slots after what was a message for the thread, if there is one: its slot has the length
    that it had, and those of the others hold what they did. -/
structure Delivers (message : Option ThreadIndex) (k k' : Kernel) : Prop where
  others : ∀ t data, message ≠ some t → k.slot t = some data → k'.slot t = some data
  own : ∀ t data, message = some t → k.slot t = some data →
    ∃ data', k'.slot t = some data' ∧ data'.length = data.length

theorem KeepsSlots.delivers (h : KeepsSlots k k') : Delivers none k k' where
  others t data _ hs := h t data hs
  own t data hmessage := by cases hmessage

theorem Delivers.around {message : Option ThreadIndex} {k1 k2 : Kernel}
    (hbefore : KeepsSlots k k1) (h : Delivers message k1 k2) (hafter : KeepsSlots k2 k') :
    Delivers message k k' where
  others t data hne hs := hafter t data (h.others t data hne (hbefore t data hs))
  own t data hmessage hs := by
    obtain ⟨data', hs', hlength⟩ := h.own t data hmessage (hbefore t data hs)
    exact ⟨data', hafter t data' hs', hlength⟩

theorem translateIpc_delivers {s d : ThreadIndex} {reply : Bool} (hn : k.indices.Nodup)
    (h : k.translateIpc rng fuel s d reply = .ret k') : Delivers (some d) k k' := by
  obtain ⟨⟨srcThread, thread⟩, hpair, h⟩ := bind_eq_ret.mp h
  obtain ⟨currentProcess, _, h⟩ := bind_eq_ret.mp h
  obtain ⟨process, _, h⟩ := bind_eq_ret.mp h
  obtain ⟨reader, _, h⟩ := bind_eq_ret.mp h
  obtain ⟨writer, hwriter, h⟩ := bind_eq_ret.mp h
  obtain ⟨⟨reader1, writer1⟩, hnormals, h⟩ := bind_eq_ret.mp h
  obtain ⟨⟨writer2, k1⟩, hparams, h⟩ := bind_eq_ret.mp h
  obtain ⟨data, hdrop, h⟩ := bind_eq_ret.mp h
  cases h
  have hlength : data.length = thread.ipcData.length :=
    (((MessageWriter.drop_length hdrop).trans (translateParams_length hparams)).trans
      (translateNormals_length hnormals)).trans (writerFor_length hwriter)
  obtain ⟨processes, rfl⟩ := translateParams_processes hparams
  have hindex : thread.index = d := findThreadPair_index hn hpair
  have hthread : k.thread? d = some thread :=
    hindex ▸ findKey_of_mem hn (findThreadPair_mem hpair)
  refine ⟨fun t other hne hs => ?_, fun t other hmessage hs => ?_⟩
  · obtain ⟨found, hfound, rfl⟩ := slot_iff.mp hs
    refine slot_of_thread ?_
    rw [thread?_setThread, if_neg fun heq => hne (congrArg some (heq.trans hindex).symm)]
    exact hfound
  · cases hmessage
    have hother := hs.symm.trans (slot_of_thread hthread)
    cases hother
    refine ⟨data, slot_iff.mpr ⟨{ thread with ipcData := data }, ?_, rfl⟩, hlength⟩
    rw [thread?_setThread, if_pos hindex.symm]
    show (k.thread? d).map _ = _
    rw [hthread]
    rfl

end Translate

/-! ## Steps -/

/-- The thread that a reply is for: the one of the first request of the session. -/
def repliesTo? (k : Kernel) (replyTarget : Option Handle) : Option ThreadIndex :=
  match k.lookupObject replyTarget with
  | .ret (some (_, .serverSession session)) => session.requestQueue.head?
  | _ => none

/-- The server thread that resumes, if there is a request for it. -/
def receives? (k : Kernel) (handles : List (Option Handle)) (resume : ThreadResume) :
    Option ThreadIndex :=
  match resume with
  | .waitSyncN index =>
    match k.lookupObject handles[index]?.join, k.current with
    | .ret (some (_, .serverSession session)), some (_, tid) =>
      if session.requestQueue = [] then none else some tid
    | _, _ => none
  | _ => none

/-- The thread that the step translates a message for. -/
def messageTo? (k : Kernel) : SvcStep → Option ThreadIndex
  | .call (.replyAndReceivePre _ _ replyTarget) => k.repliesTo? replyTarget
  | .call (.replyAndReceivePost handles resume) => k.receives? handles resume
  | _ => none

/-- The thread that copies its command buffer into its slot in the step. -/
def copies? (k : Kernel) : SvcStep → Option ThreadIndex
  | .call (.setThreadIpcData _) => k.current.map Prod.snd
  | _ => none

section Steps

variable {rng : Nat → UInt32} {fuel : Nat} {k k' : Kernel} {l : SvcStep}

theorem replyTo_delivers {replyTarget : Option Handle} {r : KResult Unit} (hn : k.indices.Nodup)
    (h : k.replyTo rng fuel replyTarget = .ret (r, k')) :
    Delivers (k.repliesTo? replyTarget) k k' := by
  unfold repliesTo?
  split
  · rename_i o session hfound
    obtain ⟨pid, server, _, _, hreply⟩ := replyTo_of_found hfound h
    obtain ⟨client, rest, k1, c, data, hqueue, htranslate, hclient, hwake⟩ := reply_cases hreply
    have htaken : KeepsSlots k (k.modifyObject o (KObject.setRequests rest)) := .of_threads rfl
    have hwoken : Made .silent [] k1 k' :=
      wakeQueue_made (clientSession?_eq_some hclient) rfl hwake
    rw [hqueue]
    exact (translateIpc_delivers (by exact hn) htranslate).around htaken
      (keepsSlots_of_made hwoken)
  · rename_i hother
    rcases replyTo_cases h with rfl | ⟨_, _, o, session, _, hfound, _⟩
    · exact (KeepsSlots.refl _).delivers
    · exact absurd hfound (hother o session)

theorem replyAndReceivePre_delivers {handles : List (Option Handle)}
    {replyTarget : Option Handle} {time : UInt64} {r : KResult (Option Reschedule)}
    (hn : k.indices.Nodup)
    (h : k.replyAndReceivePre rng fuel time handles replyTarget = .ret (r, k')) :
    Delivers (k.repliesTo? replyTarget) k k' := by
  obtain ⟨replied, k1, hreply, hwait⟩ := replyAndReceivePre_cases h
  have hkeeps : KeepsSlots k1 k' := by
    rcases hwait with rfl | ⟨_, hwait⟩
    · exact .refl _
    · have hmade : Made .silent [] k1 k' := waitSyncN_made trivial hwait
      exact keepsSlots_of_made hmade
  exact (replyTo_delivers hn hreply).around (.refl k) hkeeps

/-- A server thread that resumes gets the first request. -/
theorem replyAndReceivePost_delivers {handles : List (Option Handle)} {resume : ThreadResume}
    {r : Nat × KResult Unit} (hn : k.indices.Nodup)
    (h : k.replyAndReceivePost rng fuel handles resume = .ret (r, k')) :
    Delivers (k.receives? handles resume) k k' := by
  unfold replyAndReceivePost at h
  split at h
  · rename_i index
    unfold receives?
    dsimp only
    obtain ⟨handle, hhandle, h⟩ := bind_eq_ret.mp h
    have hjoin : handles[index]?.join = handle := by
      rw [expect_eq_ret.mp hhandle]
      rfl
    obtain ⟨found, hfound, h⟩ := bind_eq_ret.mp h
    rw [hjoin, hfound]
    split at h
    · rename_i o session
      obtain ⟨⟨pid, tid⟩, hcurrent, h⟩ := bind_eq_ret.mp h
      obtain ⟨⟨received, k1⟩, hreceive, h⟩ := bind_eq_ret.mp h
      cases h
      rw [currentPidTid_eq_ret.mp hcurrent]
      dsimp only
      unfold ServerSessionHLE.receive at hreceive
      split at hreceive
      · rename_i hqueue
        cases hreceive
        rw [if_pos hqueue]
        exact (KeepsSlots.refl _).delivers
      · rename_i request rest hqueue
        obtain ⟨k2, htranslate, hreceive⟩ := bind_eq_ret.mp hreceive
        cases hreceive
        rw [if_neg (by rw [hqueue]; simp)]
        exact translateIpc_delivers hn htranslate
    · rename_i hother
      cases h
      have hnone : ∀ message : Option ThreadIndex, message = none → Delivers message k k :=
        fun message heq => heq ▸ (KeepsSlots.refl k).delivers
      refine hnone _ ?_
      split
      · rename_i heq _
        cases heq
        exact absurd rfl (hother _ _)
      · rfl
  · cases h

theorem svcCall_delivers {call : SvcCall} (ht : k.view.Tidy) (hcalling : k.calling = true)
    (hcopy : k.copies? (.call call) = none) (h : call.exec rng fuel k = .ret k') :
    Delivers (k.messageTo? (.call call)) k k' := by
  have hn : k.indices.Nodup := ht.nodup
  cases call with
  | replyAndReceivePre time handles replyTarget =>
    obtain ⟨r, h⟩ := afterCall_eq_ret.mp h
    exact replyAndReceivePre_delivers hn h
  | replyAndReceivePost handles resume =>
    obtain ⟨r, h⟩ := liftCall_eq_ret.mp h
    exact replyAndReceivePost_delivers hn h
  | setThreadIpcData data =>
    obtain ⟨⟨pid, tid⟩, hcurrent, _⟩ := bind_eq_ret.mp (mapPanic_eq_ret.mp h)
    have hcopy : k.current.map Prod.snd = none := hcopy
    rw [currentPidTid_eq_ret.mp hcurrent] at hcopy
    cases hcopy
  | _ =>
    have hmade : Made .silent [] k k' :=
      svcCall_made (fun _ => trivial) (fun hm => by cases hm) ht hcalling h
    exact (keepsSlots_of_made hmade).delivers

theorem runNext_keepsSlots {started : Option (ThreadIndex × ThreadResume)}
    (h : k.runNext = .ret (started, k')) : KeepsSlots k k' := by
  unfold Kernel.runNext at h
  split at h
  · obtain ⟨⟨resume, k1⟩, hstart, h⟩ := bind_eq_ret.mp h
    cases h
    obtain ⟨thread, hthread, _, _, rfl⟩ := startThread_eq_ret hstart
    have hthread : k.thread? _ = some thread := hthread
    have hstarted : KeepsSlots k
        (k.setThread { thread with state := .running, resume := .normal }) :=
      .setThread hthread rfl rfl
    exact hstarted.trans (.of_threads rfl)
  · cases h
    exact .refl _

theorem stopThread_keepsSlots {t : ThreadIndex} (h : k.stopThread t = .ret k') :
    KeepsSlots k k' := by
  obtain ⟨_, _, thread, _, hthread, rfl⟩ := stopThread_eq_ret h
  exact (KeepsSlots.setThread hthread (by split <;> rfl) (by split <;> rfl)).trans
    (.of_threads rfl)

/-- **Who writes the message slots.** In a step in which no thread copies its command buffer, the
    message that is translated in it, if there is one, goes into the slot of its thread, and all
    other slots hold what they did. -/
theorem delivers_of_step (ht : k.view.Tidy) (hcopy : k.copies? l = none)
    (hstep : (svcSystem rng).step k l k') : Delivers (k.messageTo? l) k k' := by
  obtain ⟨henabled, fuel, hexec⟩ := hstep
  cases l with
  | call call => exact svcCall_delivers ht henabled hcopy hexec
  | tick time interrupts =>
    have hmade : Made .silent [] k k' := tick_made hexec
    exact (keepsSlots_of_made hmade).delivers
  | runNext =>
    obtain ⟨started, hexec⟩ := liftCall_eq_ret.mp hexec
    exact (runNext_keepsSlots hexec).delivers
  | stop index => exact (stopThread_keepsSlots (mapPanic_eq_ret.mp hexec)).delivers
  | newProcess process =>
    obtain ⟨pid, hexec⟩ := liftCall_eq_ret.mp hexec
    obtain ⟨nextPid, _, hexec⟩ := bind_eq_ret.mp hexec
    cases hexec
    have hkeeps : KeepsSlots k
        { k with
          processes := k.processes ++ [⟨k.nextPid, ObjectTable.new, process⟩]
          nextPid := nextPid } := .of_threads rfl
    exact hkeeps.delivers
  | newThread pid =>
    obtain ⟨⟨tid, kobj, k1⟩, hnew, hexec⟩ := bind_eq_ret.mp hexec
    cases hexec
    exact (KeepsSlots.newThread (mapPanic_eq_ret.mp hnew)).delivers
  | drop o =>
    cases hexec
    have hkeeps : KeepsSlots k (k.dropObject o) := .of_threads rfl
    exact hkeeps.delivers

theorem copies?_of_messageTo? {t : ThreadIndex} (h : k.messageTo? l = some t) :
    k.copies? l = none := by
  cases l with
  | call call =>
    cases call with
    | setThreadIpcData data => cases h
    | _ => rfl
  | _ => rfl

theorem copies?_eq_some {t : ThreadIndex} (h : k.copies? l = some t)
    (hstep : (svcSystem rng).step k l k') : ∃ data pid, l = .call (.setThreadIpcData data) ∧
      k.current = some (pid, t) ∧ k.setThreadIpcData data = .ret k' := by
  cases l with
  | call call =>
    cases call with
    | setThreadIpcData data =>
      obtain ⟨_, fuel, hexec⟩ := hstep
      obtain ⟨⟨pid, tid⟩, hcurrent, rfl⟩ := Option.map_eq_some_iff.mp h
      exact ⟨data, pid, rfl, hcurrent, mapPanic_eq_ret.mp hexec⟩
    | _ => cases h
  | _ => cases h

/-- A thread that copies its command buffer leaves the slots of the others alone. -/
theorem setThreadIpcData_slot_of_ne {data other : List UInt8} {pid : ProcessId}
    {t tid : ThreadIndex} (hcurrent : k.current = some (pid, tid))
    (h : k.setThreadIpcData data = .ret k') (hne : t ≠ tid) (hs : k.slot t = some other) :
    k'.slot t = some other := by
  obtain ⟨thread, hthread, h⟩ := bind_eq_ret.mp (of_currentPidTid hcurrent h)
  cases h
  have hindex : thread.index = tid := thread?_index (findThread_eq_ret.mp hthread)
  obtain ⟨found, hfound, rfl⟩ := slot_iff.mp hs
  refine slot_of_thread ?_
  rw [thread?_setThread, if_neg fun heq => hne (heq.trans hindex)]
  exact hfound

/-- A slot that no message is for and that nobody copies a buffer into holds what it did. -/
theorem slot_of_step {t : ThreadIndex} {data : List UInt8} (ht : k.view.Tidy)
    (hmessage : k.messageTo? l ≠ some t) (hcopy : k.copies? l ≠ some t)
    (hstep : (svcSystem rng).step k l k') (hs : k.slot t = some data) : k'.slot t = some data := by
  cases hcopies : k.copies? l with
  | none => exact (delivers_of_step ht hcopies hstep).others t data hmessage hs
  | some tid =>
    obtain ⟨_, pid, _, hcurrent, hset⟩ := copies?_eq_some hcopies hstep
    refine setThreadIpcData_slot_of_ne hcurrent hset (fun heq => hcopy ?_) hs
    rw [hcopies, heq]

end Steps

end Kernel

end Pomelo
