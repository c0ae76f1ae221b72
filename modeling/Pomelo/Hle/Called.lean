/-
  What code outside the kernel does to it while its thread runs.

  Code of the guest and of the emulator calls the kernel: not at all, once, or twice, when it
  puts its command buffer into the kernel first (`CallsTo`). If it goes on afterwards, no call of
  it has put its thread to sleep or ended it (`Called`).
-/
import Pomelo.Hle.WakeKeys

namespace Pomelo

open Lib Outcome Made

/-- Calls of the thread that runs, one after the other. All but the last leave the sleepers and
    the objects as they are. -/
def CallsTo (rng : Nat → UInt32) : List SvcCall → Kernel → Kernel → Prop
  | [], k, k' => k' = k
  | call :: calls, k, k' => k.calling = true ∧ ∃ fuel k1, call.exec rng fuel k = .ret k1 ∧
      (calls = [] ∨ k1.view = k.view) ∧ CallsTo rng calls k1 k'

/-- What code that returned has done to the kernel, and whether it may go on. A command buffer
    that it put into the kernel is one of those given. -/
structure Called (rng : Nat → UInt32) (copied : List UInt8 → Prop) (goesOn : Prop)
    (k k' : Kernel) : Prop where
  calls : ∃ calls, CallsTo rng calls k k' ∧
    ∀ data, SvcCall.setThreadIpcData data ∈ calls → copied data
  quiet : goesOn → Made .awake [] k k'

section Calls

variable {rng : Nat → UInt32} {fuel : Nat} {time : UInt64} {goesOn : Prop} {k k' k'' : Kernel}
  {copied : List UInt8 → Prop}

/-! ## One call, or two -/

theorem callsTo_one (call : SvcCall) (fuel : Nat) (hcalling : k.calling = true)
    (h : call.exec rng fuel k = .ret k') : CallsTo rng [call] k k' :=
  ⟨hcalling, fuel, k', h, .inl rfl, rfl⟩

theorem calling_of_view (hview : k'.view = k.view) (hcurrent : k'.current = k.current)
    (hcalling : k.calling = true) : k'.calling = true := by
  obtain ⟨pid, t, self, hnow, hself, hrun⟩ := Kernel.calling_iff.mp hcalling
  have hsleepers : k'.sleepers t = k.sleepers t := congrFun (congrArg View.sleepers hview) t
  exact Kernel.calling_iff.mpr ⟨pid, t, self, hcurrent.trans hnow, hsleepers.trans hself, hrun⟩

/-- A call after one that the sleepers, the objects and the current thread are not affected by. -/
theorem callsTo_two {call call' : SvcCall} {k1 : Kernel} (hcalling : k.calling = true)
    {fuel fuel' : Nat} (h : call.exec rng fuel k = .ret k1) (hview : k1.view = k.view)
    (hcurrent : k1.current = k.current) (h' : call'.exec rng fuel' k1 = .ret k') :
    CallsTo rng [call, call'] k k' :=
  ⟨hcalling, fuel, k1, h, .inr hview,
    callsTo_one call' fuel' (calling_of_view hview hcurrent hcalling) h'⟩

theorem setThreadIpcData_current {data : List UInt8} (h : k.setThreadIpcData data = .ret k') :
    k'.current = k.current := by
  obtain ⟨⟨pid, tid⟩, _, h⟩ := bind_eq_ret.mp h
  obtain ⟨thread, _, h⟩ := bind_eq_ret.mp h
  cases h
  rfl

theorem nodup_of_copy {data : List UInt8} (ht : k.view.Tidy)
    (h : k.setThreadIpcData data = .ret k') : k'.indices.Nodup := by
  have ht' : k'.view.Tidy := Kernel.setThreadIpcData_view h ▸ ht
  exact ht'.nodup

theorem setThreadIpcData_exec {data : List UInt8} (h : k.setThreadIpcData data = .ret k') :
    SvcCall.exec rng 0 k (.setThreadIpcData data) = .ret k' :=
  mapPanic_eq_ret.mpr h

/-- One call, which copies a command buffer only if it is one of those given. -/
theorem calls_one (call : SvcCall) (fuel : Nat) (hcalling : k.calling = true)
    (hcopied : ∀ data, call = .setThreadIpcData data → copied data)
    (h : call.exec rng fuel k = .ret k') : ∃ calls, CallsTo rng calls k k' ∧
      ∀ data, SvcCall.setThreadIpcData data ∈ calls → copied data :=
  ⟨[call], callsTo_one call fuel hcalling h, fun data hmem =>
    hcopied data (List.mem_singleton.mp hmem).symm⟩

/-- A call after the command buffer was copied. -/
theorem calls_of_command {call : SvcCall} {data : List UInt8} (hcalling : k.calling = true)
    (hdata : copied data) (hcopied : ∀ data, call = .setThreadIpcData data → copied data)
    (hcopy : k.setThreadIpcData data = .ret k') (h : call.exec rng fuel k' = .ret k'') :
    ∃ calls, CallsTo rng calls k k'' ∧
      ∀ data, SvcCall.setThreadIpcData data ∈ calls → copied data := by
  refine ⟨_, callsTo_two hcalling (setThreadIpcData_exec hcopy)
    (Kernel.setThreadIpcData_view hcopy) (setThreadIpcData_current hcopy) h, fun data' hmem => ?_⟩
  rcases List.mem_cons.mp hmem with heq | hmem
  · cases heq
    exact hdata
  · exact hcopied data' (List.mem_singleton.mp hmem).symm

namespace Called

theorem refl (k : Kernel) : Called rng copied goesOn k k :=
  ⟨⟨[], rfl, fun _ hmem => (by cases hmem)⟩, fun _ => .refl .awake [] k⟩

/-- A call after which its thread goes on. -/
theorem of_call (call : SvcCall) (fuel : Nat) (hcalling : k.calling = true) (ht : k.view.Tidy)
    (hcall : call.goesOn = true) (hcopied : ∀ data, call = .setThreadIpcData data → copied data)
    (h : call.exec rng fuel k = .ret k') : Called rng copied goesOn k k' where
  calls := calls_one call fuel hcalling hcopied h
  quiet _ := by
    unfold SvcCall.goesOn at hcall
    rw [Bool.and_eq_true, Bool.not_eq_true', decide_eq_true_eq] at hcall
    refine svcCall_made (fun hs => ?_) (fun _ => trivial) ht hcalling h
    rcases hs with hs | hs
    · rw [hcall.1] at hs
      cases hs
    · exact hcall.2 hs

/-- A call after which the code does not go on. -/
theorem of_last (call : SvcCall) (fuel : Nat) (hcalling : k.calling = true) (hstops : ¬ goesOn)
    (hcopied : ∀ data, call = .setThreadIpcData data → copied data)
    (h : call.exec rng fuel k = .ret k') : Called rng copied goesOn k k' where
  calls := calls_one call fuel hcalling hcopied h
  quiet hgoesOn := absurd hgoesOn hstops

/-- A call after the command buffer was copied, which leaves the kernel as it is, or is the
    last. -/
theorem of_command {call : SvcCall} {data : List UInt8} {fuel : Nat} (hcalling : k.calling = true)
    (hdata : copied data) (hcopied : ∀ data, call = .setThreadIpcData data → copied data)
    (hcopy : k.setThreadIpcData data = .ret k') (h : call.exec rng fuel k' = .ret k'')
    (hsame : goesOn → k'' = k') : Called rng copied goesOn k k'' where
  calls := calls_of_command hcalling hdata hcopied hcopy h
  quiet hgoesOn := by
    rw [hsame hgoesOn]
    exact .of_setThreadIpcData trivial hcopy

end Called

end Calls

end Pomelo
