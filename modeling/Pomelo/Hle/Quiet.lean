/-
  Calls that neither put threads to sleep nor wake them, and touch no object.

  Handles and messages are the business of processes and of the message slots of threads; the
  view of the kernel does not have them. A call on handles changes processes only
  (`ProcessesOnly`), and `translate_ipc` one message slot besides.
-/
import Pomelo.Hle.View

namespace Pomelo

open Lib Outcome

namespace Kernel

/-- The kernels differ in their processes at most. -/
def ProcessesOnly (k k' : Kernel) : Prop :=
  ∃ processes, k' = { k with processes := processes }

namespace ProcessesOnly

variable {k k' k'' : Kernel}

theorem refl (k : Kernel) : ProcessesOnly k k := ⟨k.processes, rfl⟩

theorem trans (h : ProcessesOnly k k') (h' : ProcessesOnly k' k'') : ProcessesOnly k k'' := by
  obtain ⟨processes, rfl⟩ := h
  obtain ⟨processes', rfl⟩ := h'
  exact ⟨processes', rfl⟩

theorem view (h : ProcessesOnly k k') : k'.view = k.view := by
  obtain ⟨processes, rfl⟩ := h
  rfl

theorem current (h : ProcessesOnly k k') : k'.current = k.current := by
  obtain ⟨processes, rfl⟩ := h
  rfl

theorem object? (h : ProcessesOnly k k') (o : ObjId) : k'.object? o = k.object? o := by
  obtain ⟨processes, rfl⟩ := h
  rfl

end ProcessesOnly

section Handles

variable {rng : Nat → UInt32} {fuel : Nat} {k k' : Kernel}

theorem newHandle_processes {obj : ObjId} {handle : Handle}
    (h : k.newHandle rng fuel obj = .ret (handle, k')) : ProcessesOnly k k' := by
  unfold newHandle at h
  obtain ⟨process, _, h⟩ := bind_eq_ret.mp h
  obtain ⟨⟨handle', process'⟩, _, h⟩ := bind_eq_ret.mp h
  injection h with h
  obtain ⟨_, rfl⟩ := Prod.mk.inj h
  exact ⟨_, rfl⟩

variable {src dest : ProcessId} {moved : Bool}

theorem takeHandle_processes {handle : Handle} {kobj : Option ObjId}
    (h : k.takeHandle src moved handle = .ret (kobj, k')) : ProcessesOnly k k' := by
  unfold takeHandle at h
  obtain ⟨process, _, h⟩ := bind_eq_ret.mp h
  cases moved with
  | false =>
    injection h with h
    obtain ⟨_, rfl⟩ := Prod.mk.inj h
    exact .refl k
  | true =>
    injection h with h
    obtain ⟨_, rfl⟩ := Prod.mk.inj h
    exact ⟨_, rfl⟩

theorem giveHandle_processes {handle : Handle} {obj : ObjId}
    (h : k.giveHandle rng fuel dest obj = .ret (handle, k')) : ProcessesOnly k k' := by
  unfold giveHandle at h
  obtain ⟨process, _, h⟩ := bind_eq_ret.mp h
  obtain ⟨⟨handle', process'⟩, _, h⟩ := bind_eq_ret.mp h
  injection h with h
  obtain ⟨_, rfl⟩ := Prod.mk.inj h
  exact ⟨_, rfl⟩

theorem translateHandle_processes {handle handle' : Option Handle}
    (h : translateHandle rng fuel src dest moved handle k = .ret (handle', k')) :
    ProcessesOnly k k' := by
  unfold translateHandle at h
  cases handle with
  | none =>
    injection h with h
    obtain ⟨_, rfl⟩ := Prod.mk.inj h
    exact .refl k
  | some handle =>
    obtain ⟨⟨kobj, k1⟩, htake, h⟩ := bind_eq_ret.mp h
    have htaken := takeHandle_processes htake
    cases kobj with
    | none =>
      injection h with h
      obtain ⟨_, rfl⟩ := Prod.mk.inj h
      exact htaken
    | some obj =>
      obtain ⟨⟨given, k2⟩, hgive, h⟩ := bind_eq_ret.mp h
      injection h with h
      obtain ⟨_, rfl⟩ := Prod.mk.inj h
      exact htaken.trans (giveHandle_processes hgive)

theorem translateHandles_processes {handles handles' : List (Option Handle)}
    (h : translateHandles rng fuel src dest moved handles k = .ret (handles', k')) :
    ProcessesOnly k k' := by
  induction handles generalizing k handles' with
  | nil =>
    injection h with h
    obtain ⟨_, rfl⟩ := Prod.mk.inj h
    exact .refl k
  | cons handle handles ih =>
    unfold translateHandles at h
    obtain ⟨⟨handle', k1⟩, hone, h⟩ := bind_eq_ret.mp h
    obtain ⟨⟨rest, k2⟩, hrest, h⟩ := bind_eq_ret.mp h
    injection h with h
    obtain ⟨_, rfl⟩ := Prod.mk.inj h
    exact (translateHandle_processes hone).trans (ih hrest)

theorem translateParam_processes {param : IPCTranslateParameter} {writer writer' : MessageWriter}
    (h : translateParam rng fuel src dest param writer k = .ret (writer', k')) :
    ProcessesOnly k k' := by
  unfold translateParam at h
  cases param with
  | handle moved callingProcess handles =>
    obtain ⟨⟨handles', k1⟩, htrans, h⟩ := bind_eq_ret.mp h
    obtain ⟨writer1, _, h⟩ := bind_eq_ret.mp h
    injection h with h
    obtain ⟨_, rfl⟩ := Prod.mk.inj h
    unfold translateIPCHandles at htrans
    cases handles with
    | single handle =>
      obtain ⟨⟨handle', k2⟩, hone, htrans⟩ := bind_eq_ret.mp htrans
      injection htrans with htrans
      obtain ⟨_, rfl⟩ := Prod.mk.inj htrans
      exact translateHandle_processes hone
    | multiple handles =>
      obtain ⟨⟨rest, k2⟩, hall, htrans⟩ := bind_eq_ret.mp htrans
      injection htrans with htrans
      obtain ⟨_, rfl⟩ := Prod.mk.inj htrans
      exact translateHandles_processes hall
  | _ =>
    injection h with h
    obtain ⟨_, rfl⟩ := Prod.mk.inj h
    exact .refl k

theorem translateParams_processes {n : Nat} {reader : IPCReader} {writer writer' : MessageWriter}
    (h : translateParams rng fuel src dest n reader writer k = .ret (writer', k')) :
    ProcessesOnly k k' := by
  induction n generalizing reader writer k with
  | zero => cases h
  | succ n ih =>
    unfold translateParams at h
    split at h
    · obtain ⟨⟨param, reader1⟩, _, h⟩ := bind_eq_ret.mp h
      obtain ⟨⟨writer1, k1⟩, hparam, h⟩ := bind_eq_ret.mp h
      exact (translateParam_processes hparam).trans (ih h)
    · injection h with h
      obtain ⟨_, rfl⟩ := Prod.mk.inj h
      exact .refl k

/-- `translate_ipc` writes the message slot of one thread. -/
theorem translateIpc_eq_ret {s d : ThreadIndex} {reply : Bool}
    (h : k.translateIpc rng fuel s d reply = .ret k') :
    ∃ k1 srcThread thread data, ProcessesOnly k k1 ∧
      k.findThreadPair s d = .ret (srcThread, thread) ∧
      k' = k1.setThread { thread with ipcData := data } := by
  unfold translateIpc at h
  obtain ⟨⟨srcThread, thread⟩, hpair, h⟩ := bind_eq_ret.mp h
  obtain ⟨currentProcess, _, h⟩ := bind_eq_ret.mp h
  obtain ⟨process, _, h⟩ := bind_eq_ret.mp h
  obtain ⟨reader, _, h⟩ := bind_eq_ret.mp h
  obtain ⟨writer, _, h⟩ := bind_eq_ret.mp h
  obtain ⟨⟨reader1, writer1⟩, _, h⟩ := bind_eq_ret.mp h
  obtain ⟨⟨writer2, k1⟩, hparams, h⟩ := bind_eq_ret.mp h
  obtain ⟨data, _, h⟩ := bind_eq_ret.mp h
  injection h with h
  exact ⟨k1, srcThread, thread, data, translateParams_processes hparams, hpair, h.symm⟩

end Handles

/-! ## Messages -/

theorem findThreadPair_mem {k : Kernel} {a b : ThreadIndex} {s d : CommonThread}
    (h : k.findThreadPair a b = .ret (s, d)) : d ∈ k.threads := by
  unfold findThreadPair at h
  obtain ⟨first, hfirst, h⟩ := bind_eq_ret.mp h
  obtain ⟨second, hsecond, h⟩ := bind_eq_ret.mp h
  have hmem : ∀ {i : Nat} {thread : CommonThread}, (k.threads.filter fun thread =>
      thread.index = a || thread.index = b)[i]? = some thread → thread ∈ k.threads :=
    fun hi => List.mem_of_mem_filter (List.mem_of_getElem? hi)
  injection h with h
  split at h
  · obtain ⟨_, rfl⟩ := Prod.mk.inj h
    exact hmem (expect_eq_ret.mp hfirst)
  · obtain ⟨_, rfl⟩ := Prod.mk.inj h
    exact hmem (expect_eq_ret.mp hsecond)

/-- The second of the pair is the thread that was asked for. -/
theorem findThreadPair_index {k : Kernel} {a b : ThreadIndex} {s d : CommonThread}
    (hn : k.indices.Nodup) (h : k.findThreadPair a b = .ret (s, d)) : d.index = b := by
  unfold findThreadPair at h
  obtain ⟨first, hfirst, h⟩ := bind_eq_ret.mp h
  obtain ⟨second, hsecond, h⟩ := bind_eq_ret.mp h
  have hfirst := expect_eq_ret.mp hfirst
  have hsecond := expect_eq_ret.mp hsecond
  have hindex : ∀ {i : Nat} {thread : CommonThread}, (k.threads.filter fun thread =>
      thread.index = a || thread.index = b)[i]? = some thread →
      thread.index = a ∨ thread.index = b := by
    intro i thread hi
    have hmem := (List.mem_filter.mp (List.mem_of_getElem? hi)).2
    simpa using hmem
  injection h with h
  split at h
  · rename_i hb
    obtain ⟨_, rfl⟩ := Prod.mk.inj h
    exact hb
  · rename_i hb
    obtain ⟨_, rfl⟩ := Prod.mk.inj h
    have ha : first.index = a := (hindex hfirst).resolve_right hb
    refine (hindex hsecond).resolve_left fun heq => ?_
    have hpair : ((k.threads.filter fun thread =>
        thread.index = a || thread.index = b).map CommonThread.index).Nodup :=
      (List.filter_sublist.map _).nodup hn
    have hzero : ((k.threads.filter fun thread =>
        thread.index = a || thread.index = b).map CommonThread.index)[0]? = some a := by
      rw [List.getElem?_map, hfirst, Option.map_some, ha]
    have hone : ((k.threads.filter fun thread =>
        thread.index = a || thread.index = b).map CommonThread.index)[1]? = some a := by
      rw [List.getElem?_map, hsecond, Option.map_some, heq]
    have hlt := (List.getElem?_eq_some_iff.mp hzero).1
    exact absurd ((List.getElem?_inj hlt hpair).mp (hzero.trans hone.symm)) (by decide)

/-- A message changes no sleeper. -/
theorem view_setIpcData {k : Kernel} {tid : ThreadIndex} {thread : CommonThread}
    (data : List UInt8) (h : k.thread? tid = some thread) :
    (k.setThread { thread with ipcData := data }).view = k.view := by
  have hsleepers := @sleepers_setThread k tid thread { thread with ipcData := data } h rfl
  have hself : k.sleepers tid = some thread.sleeper := by
    unfold sleepers
    rw [h]
    rfl
  have hsame : Function.update k.sleepers tid (some thread.sleeper) = k.sleepers := by
    rw [← hself, Function.update_eq_self]
  have hindices : (k.setThread { thread with ipcData := data }).indices = k.indices :=
    indices_setThread k _
  unfold view
  rw [hsleepers, hindices]
  exact congrArg (View.mk · k.objects k.indices k.nextTid) hsame

theorem translateIpc_view {rng : Nat → UInt32} {fuel : Nat} {k k' : Kernel} {s d : ThreadIndex}
    {reply : Bool} (hnodup : k.indices.Nodup) (h : k.translateIpc rng fuel s d reply = .ret k') :
    k'.view = k.view := by
  obtain ⟨k1, srcThread, thread, data, hprocesses, hpair, rfl⟩ := translateIpc_eq_ret h
  obtain ⟨processes, rfl⟩ := hprocesses
  have hmem : thread ∈ k.threads := findThreadPair_mem hpair
  have hthread : { k with processes := processes }.thread? thread.index = some thread :=
    findKey_of_mem hnodup hmem
  exact view_setIpcData data hthread

/-- A message is written into the slot of the thread that it is for. -/
theorem translateIpc_thread? {rng : Nat → UInt32} {fuel : Nat} {k k' : Kernel}
    {s d : ThreadIndex} {reply : Bool} (hnodup : k.indices.Nodup)
    (h : k.translateIpc rng fuel s d reply = .ret k') :
    ∃ thread data, k.thread? d = some thread ∧
      ∀ t, k'.thread? t = if t = d then some { thread with ipcData := data } else k.thread? t := by
  obtain ⟨k1, srcThread, thread, data, hprocesses, hpair, rfl⟩ := translateIpc_eq_ret h
  obtain ⟨processes, rfl⟩ := hprocesses
  have hindex : thread.index = d := findThreadPair_index hnodup hpair
  have hthread : k.thread? d = some thread :=
    hindex ▸ findKey_of_mem hnodup (findThreadPair_mem hpair)
  refine ⟨thread, data, hthread, fun t => ?_⟩
  rw [thread?_setThread]
  dsimp only
  rw [hindex]
  split
  · rename_i ht
    show (k.thread? t).map _ = _
    rw [ht, hthread]
    rfl
  · rfl

theorem translateIpc_object? {rng : Nat → UInt32} {fuel : Nat} {k k' : Kernel}
    {s d : ThreadIndex} {reply : Bool} (h : k.translateIpc rng fuel s d reply = .ret k')
    (o : ObjId) : k'.object? o = k.object? o := by
  obtain ⟨k1, srcThread, thread, data, hprocesses, _, rfl⟩ := translateIpc_eq_ret h
  exact hprocesses.object? o

theorem translateIpc_current {rng : Nat → UInt32} {fuel : Nat} {k k' : Kernel}
    {s d : ThreadIndex} {reply : Bool} (h : k.translateIpc rng fuel s d reply = .ret k') :
    k'.current = k.current := by
  obtain ⟨k1, srcThread, thread, data, hprocesses, _, rfl⟩ := translateIpc_eq_ret h
  exact hprocesses.current

/-! ## Calls that touch neither -/

theorem setThreadIpcData_view {k k' : Kernel} {data : List UInt8}
    (h : k.setThreadIpcData data = .ret k') : k'.view = k.view := by
  unfold setThreadIpcData at h
  obtain ⟨⟨pid, tid⟩, _, h⟩ := bind_eq_ret.mp h
  obtain ⟨thread, hfind, h⟩ := bind_eq_ret.mp h
  injection h with h
  rw [← h]
  exact view_setIpcData data (findThread_eq_ret.mp hfind)

theorem closeHandle_view {k k' : Kernel} {handle : Option Handle} {r : KResult Unit}
    (h : k.closeHandle handle = .ret (r, k')) : k'.view = k.view := by
  unfold closeHandle at h
  split at h
  · injection h with h
    obtain ⟨_, rfl⟩ := Prod.mk.inj h
    rfl
  · obtain ⟨process, _, h⟩ := bind_eq_ret.mp h
    dsimp only at h
    split at h
    · injection h with h
      obtain ⟨_, rfl⟩ := Prod.mk.inj h
      rfl
    · injection h with h
      obtain ⟨_, rfl⟩ := Prod.mk.inj h
      rfl

theorem registerPort_view {k k' : Kernel} {name : List UInt8} {port : ObjId}
    (h : k.registerPort name port = .ret k') : k'.view = k.view := by
  obtain ⟨_, _, h⟩ := bind_eq_ret.mp h
  injection h with h
  rw [← h]
  rfl

theorem bindInterrupt_view {k k' : Kernel} {name : UInt32} {handle : Option Handle} {r : KResult Unit}
    (h : k.bindInterrupt name handle = .ret (r, k')) : k'.view = k.view := by
  obtain ⟨found, _, h⟩ := bind_eq_ret.mp h
  split at h
  · injection h with h
    obtain ⟨_, rfl⟩ := Prod.mk.inj h
    rfl
  · injection h with h
    obtain ⟨_, rfl⟩ := Prod.mk.inj h
    rfl

theorem newProcess_view {k k' : Kernel} {process : Process} {pid : ProcessId}
    (h : k.newProcess process = .ret (pid, k')) : k'.view = k.view := by
  obtain ⟨nextPid, _, h⟩ := bind_eq_ret.mp h
  injection h with h
  obtain ⟨_, rfl⟩ := Prod.mk.inj h
  rfl

end Kernel

end Pomelo
