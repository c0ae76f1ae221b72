/-
  Signals of an event or a timer are neither lost nor spent twice.

  Events and timers have a signal and a queue of wakers, and treat both alike (`signal?`). A
  timer signals when it fires. `Counted` runs the kernel together with the number of signals so
  far, the number of waits that the object satisfied, and whether it was signaled since it was
  last cleared.

  The invariant: nobody is queued while the signal is set; a signal that is not sticky was given
  for each wait that was satisfied, and for the one that it would satisfy now; a sticky one is
  set exactly from a signal to the next clear.
-/
import Pomelo.Hle.CallLog

namespace Pomelo

open Lib Outcome

namespace KObject

/-- The signal of an event or a timer. -/
def signal? : KObject → Option Signal
  | event self => some self.signal
  | timer self => some self.signal
  | _ => none

section Signal

variable {x : KObject} {signal : Signal}

@[simp] theorem signal?_removeWakers (id : Nat) : (x.removeWakers id).signal? = x.signal? := by
  cases x <;> rfl

@[simp] theorem signal?_setWakers (wakers : List Waker) :
    (x.setWakers wakers).signal? = x.signal? := by
  cases x <;> rfl

@[simp] theorem signal?_pushWaker (w : Waker) : (x.pushWaker w).signal? = x.signal? := by
  cases x <;> rfl

@[simp] theorem signal?_setTimerData (data : TimerImplData) :
    (x.setTimerData data).signal? = x.signal? := by
  cases x <;> rfl

@[simp] theorem signal?_modifySignal (f : Signal → Signal) :
    (x.modifySignal f).signal? = x.signal?.map f := by
  cases x <;> rfl

theorem wakers_setWakers (h : x.signal? = some signal) (wakers : List Waker) :
    (x.setWakers wakers).wakers = wakers := by
  cases x with
  | event self => rfl
  | timer self => rfl
  | _ => cases h

theorem ready_of_signal? (h : x.signal? = some signal) : x.ready = signal.signaled := by
  cases x with
  | event self =>
    injection h with h
    rw [← h]
    rfl
  | timer self =>
    injection h with h
    rw [← h]
    rfl
  | _ => cases h

theorem signal?_takeFor (h : x.signal? = some signal) :
    (x.takeFor x).signal? = some signal.consume.2 := by
  cases x with
  | event self =>
    injection h with h
    rw [← h]
    rfl
  | timer self =>
    injection h with h
    rw [← h]
    rfl
  | _ => cases h

theorem signal?_untakeFor (h : x.signal? = some signal) :
    (x.untakeFor (x.takeFor x)).signal? = some signal.consume.2.unconsume := by
  cases x with
  | event self =>
    injection h with h
    rw [← h]
    rfl
  | timer self =>
    injection h with h
    rw [← h]
    rfl
  | _ => cases h

end Signal

end KObject

theorem Loses.signal? {x y : KObject} (h : Loses x y) : y.signal? = x.signal? := by
  induction h with
  | refl => rfl
  | tail _ ih => rw [KObject.signal?_removeWakers, ih]

/-- The test of `TimerImpl::tick`. -/
def TimerImpl.fires (self : TimerImpl) (time : UInt64) : Bool :=
  self.data.valid && decide (self.data.nextNs.toUInt64 ≤ time)

/-- The call is a signal: one of the event, or a tick at which the timer fires. -/
def ObjectCall.signals (o : ObjId) (k : Kernel) (call : ObjectCall) : Bool :=
  match call, k.object? o with
  | .signal, _ => true
  | .tick time, some (.timer self) => self.fires time
  | _, _ => false

/-- A kernel, the signals of an object so far, the waits that the object satisfied, and whether
    it was signaled since it was last cleared. -/
structure Counted where
  kernel : Kernel
  signals : Nat
  satisfied : Nat
  sinceClear : Bool

namespace Counted

/-- The state after a call. The object satisfies the waits of the threads that it wakes. -/
def after (o : ObjId) (s : Counted) (call : ObjectCall) (k' : Kernel) : Counted where
  kernel := k'
  signals := if call.signals o s.kernel then s.signals + 1 else s.signals
  satisfied := s.satisfied + (call.woken s.kernel k').card
  sinceClear :=
    if call.signals o s.kernel then true
    else if call = .clear then false
    else s.sinceClear

/-- A call on the object, or what happens around it. -/
def Step (o : ObjId) (s : Counted) (call : ObjectCall) (s' : Counted) : Prop :=
  CallStep o s.kernel call s'.kernel ∧ s' = s.after o call s'.kernel

end Counted

/-- Runs start with an event or a timer just made; the rest of the kernel is arbitrary. -/
def signalSystem (o : ObjId) : System Counted ObjectCall where
  init s := (∃ resetType, s.kernel.object? o = some (.event (EventImpl.new resetType)) ∨
      s.kernel.object? o = some (.timer (TimerImpl.new resetType))) ∧
    s.signals = 0 ∧ s.satisfied = 0 ∧ s.sinceClear = false
  step := Counted.Step o

/-- The thread was woken, once or more. -/
def WokenIn (t : ThreadIndex) (k k' : Kernel) : Prop :=
  ∃ self n, k.sleepers t = some self ∧ k'.sleepers t = some (Sleeper.woken^[n + 1] self)

namespace Counted

/-- Nobody is queued while the signal is set, and every wait that the object satisfied, as well
    as the one that it would satisfy at once, had a signal of its own. -/
def Balanced (o : ObjId) (s : Counted) : Prop :=
  ∃ x signal, s.kernel.object? o = some x ∧ x.signal? = some signal ∧
    (signal.signaled = true → x.wakers = []) ∧
    (signal.resetType ≠ .sticky →
      s.satisfied + (if signal.signaled then 1 else 0) ≤ s.signals)

/-- A signal that finds a queue wakes the thread of the first waker and no other, and leaves the
    signal unset, if it is not sticky. -/
def WakesFirst (o : ObjId) (s : Counted) : Prop :=
  ∀ call s' x signal w rest, Step o s call s' → call.signals o s.kernel = true →
    s.kernel.object? o = some x → x.signal? = some signal → signal.resetType ≠ .sticky →
    x.wakers = w :: rest →
    Wakes w s.kernel s'.kernel ∧ ∃ x' signal', s'.kernel.object? o = some x' ∧
      x'.signal? = some signal' ∧ signal'.signaled = false

/-- A sticky signal wakes every waiter in the queue that is live, and until it is cleared every
    wait with a live waker succeeds at once. -/
def WakesAll (o : ObjId) (s : Counted) : Prop :=
  ∀ call s' x signal, Step o s call s' → s.kernel.object? o = some x →
    x.signal? = some signal → signal.resetType = .sticky →
    (call.signals o s.kernel = true → ∀ w ∈ x.wakers, s.kernel.view.Live w →
      WokenIn w.thread s.kernel s'.kernel) ∧
    ∀ w, call = .wait w → s.sinceClear = true → s.kernel.view.Live w →
      Wakes w s.kernel s'.kernel

end Counted

/-! ## What a signal does -/

section Effect

variable {k k' : Kernel} {o : ObjId} {x : KObject} {signal : Signal}

theorem loses_wakeEach {p : ObjId} {ws : List Waker} (h : wakeEach p ws k = .ret k')
    (hx : k.object? o = some x) : ∃ y, k'.object? o = some y ∧ Loses x y := by
  induction ws generalizing k x with
  | nil =>
    injection h with h
    rw [← h]
    exact ⟨x, hx, .refl⟩
  | cons w ws ih =>
    obtain ⟨⟨ok, k1⟩, hwake, h⟩ := bind_eq_ret.mp h
    obtain ⟨y, hy, hfirst⟩ := loses_wake hwake hx
    obtain ⟨z, hz, hrest⟩ := ih h hy
    exact ⟨z, hz, hfirst.trans hrest⟩

/-- Waking all that is queued wakes the threads of live wakers once or more, and changes a
    thread in no other way. -/
theorem wakeEach_sleepers {ws : List Waker} (h : wakeEach o ws k = .ret k') {t : ThreadIndex}
    {self : Sleeper} (hself : k.sleepers t = some self) :
    ∃ n, k'.sleepers t = some (Sleeper.woken^[n] self) ∧
      ∀ w ∈ ws, w.thread = t → w.key = self.wakeKey → 0 < n := by
  induction ws generalizing k self with
  | nil =>
    injection h with h
    rw [← h]
    exact ⟨0, hself, fun w hw => (by cases hw)⟩
  | cons w ws ih =>
    obtain ⟨⟨ok, k1⟩, hwake, h⟩ := bind_eq_ret.mp h
    obtain ⟨_, self', hself', hor⟩ := Kernel.wake_sleepers hwake
    have hkeep : k1.sleepers t = some self → (w.thread = t → w.key ≠ self.wakeKey) →
        ∃ n, k'.sleepers t = some (Sleeper.woken^[n] self) ∧
          ∀ w' ∈ w :: ws, w'.thread = t → w'.key = self.wakeKey → 0 < n := by
      intro hsame hstale
      obtain ⟨n, hn, hlive⟩ := ih h hsame
      refine ⟨n, hn, fun w' hw' ht hkey => ?_⟩
      rcases List.mem_cons.mp hw' with rfl | hw'
      · exact absurd hkey (hstale ht)
      · exact hlive w' hw' ht hkey
    by_cases ht : w.thread = t
    · rw [ht, hself] at hself'
      injection hself' with hself'
      subst hself'
      rcases hor with ⟨_, _, hsleepers⟩ | ⟨_, hkey, hsleepers⟩
      · have hwoken : k1.sleepers t = some self.woken := by
          rw [hsleepers, ht, Function.update_self]
        obtain ⟨n, hn, _⟩ := ih h hwoken
        exact ⟨n + 1, hn, fun _ _ _ _ => Nat.succ_pos n⟩
      · exact hkeep (by rw [hsleepers, hself]) fun _ => Ne.symm hkey
    · have hsame : k1.sleepers t = some self := by
        rcases hor with ⟨_, _, hsleepers⟩ | ⟨_, _, hsleepers⟩
        · rw [hsleepers, Function.update_of_ne (Ne.symm ht), hself]
        · rw [hsleepers, hself]
      exact hkeep hsame fun heq => absurd heq ht

/-- What a signal that is not sticky does: with nobody queued it stays set, else it wakes the
    first thread and is unset again. -/
def SpendsOne (o : ObjId) (x : KObject) (signal : Signal) (k k' : Kernel) : Prop :=
  x.wakers = [] ∧ k'.sleepers = k.sleepers ∧
    (∃ y, k'.object? o = some y ∧ y.signal? = some signal.signal ∧ y.wakers = []) ∨
  ∃ w rest, x.wakers = w :: rest ∧ Wakes w k k' ∧
    ∃ y, k'.object? o = some y ∧ y.signal? = some signal.signal.reset

/-- What a sticky signal does: it is set, and what was queued is woken. -/
def WakesQueue (o : ObjId) (x : KObject) (signal : Signal) (k k' : Kernel) : Prop :=
  (∀ w ∈ x.wakers, k.view.Live w → WokenIn w.thread k k') ∧
    ∃ y, k'.object? o = some y ∧ y.signal? = some signal.signal ∧ y.wakers = []

theorem wakeForSignal_effect {f : KObject → KObject} (hx : k.object? o = some x)
    (hf : (f x).signal? = some signal.signal) (hw : (f x).wakers = x.wakers)
    (h : wakeForSignal o signal.signal x.wakers (k.modifyObject o f) = .ret k') :
    (signal.resetType = .sticky → WakesQueue o x signal k k') ∧
      (signal.resetType ≠ .sticky → SpendsOne o x signal k k') := by
  have hmodified : (k.modifyObject o f).object? o = some (f x) := by
    rw [Kernel.object?_modifyObject, if_pos rfl, hx]
    rfl
  unfold wakeForSignal at h
  by_cases hsticky : signal.resetType = .sticky
  · refine ⟨fun _ => ?_, fun hnot => absurd hsticky hnot⟩
    rw [if_pos (show signal.signal.isSticky = true from decide_eq_true hsticky)] at h
    obtain ⟨k1, hwakes, h⟩ := bind_eq_ret.mp h
    injection h with h
    subst h
    have hwakes := mapPanic_eq_ret.mp hwakes
    refine ⟨fun w hmem hlive => ?_, ?_⟩
    · obtain ⟨self, hself, hkey⟩ := hlive
      obtain ⟨n, hn, hpos⟩ := wakeEach_sleepers hwakes hself
      obtain ⟨m, rfl⟩ := Nat.exists_eq_succ_of_ne_zero (hpos w hmem rfl hkey.symm).ne'
      exact ⟨self, m, hself, hn⟩
    · have hcleared : ((k.modifyObject o f).modifyObject o (KObject.setWakers [])).object? o =
          some ((f x).setWakers []) := by
        rw [Kernel.object?_modifyObject, if_pos rfl, hmodified]
        rfl
      obtain ⟨y, hy, hloses⟩ := loses_wakeEach hwakes hcleared
      have hsignal : y.signal? = some signal.signal := by
        rw [hloses.signal?, KObject.signal?_setWakers, hf]
      refine ⟨y.setWakers [], ?_, ?_, KObject.wakers_setWakers hsignal []⟩
      · rw [Kernel.object?_modifyObject, if_pos rfl, hy]
        rfl
      · rw [KObject.signal?_setWakers, hsignal]
  · refine ⟨fun heq => absurd heq hsticky, fun _ => ?_⟩
    have hnot : ¬ signal.signal.isSticky = true := fun heq => hsticky (of_decide_eq_true heq)
    rw [if_neg hnot] at h
    cases hqueue : x.wakers with
    | nil =>
      rw [hqueue] at h
      injection h with h
      subst h
      exact Or.inl ⟨hqueue, rfl, f x, hmodified, hf, by rw [hw, hqueue]⟩
    | cons w rest =>
      rw [hqueue] at h
      obtain ⟨k1, hwake, h⟩ := bind_eq_ret.mp h
      injection h with h
      subst h
      obtain ⟨_, hwakes, y, hy, hloses⟩ := wakeExpect_effect hmodified hwake
      refine Or.inr ⟨w, rest, hqueue, hwakes, y.modifySignal Signal.reset, ?_, ?_⟩
      · rw [Kernel.object?_modifyObject, if_pos rfl, hy]
        rfl
      · rw [KObject.signal?_modifySignal, hloses.signal?, hf]
        rfl

/-- A call that is a signal, of an event or of a timer. -/
theorem signal_effect {call : ObjectCall} (hx : k.object? o = some x)
    (hs : x.signal? = some signal) (hc : call.signals o k = true) (h : CallStep o k call k') :
    (signal.resetType = .sticky → WakesQueue o x signal k k') ∧
      (signal.resetType ≠ .sticky → SpendsOne o x signal k k') := by
  cases h with
  | signal hy h =>
    rw [hx] at hy
    injection hy with hy
    subst hy
    injection hs with hs
    subst hs
    exact wakeForSignal_effect hx rfl rfl h
  | @tick _ time self hy h =>
    rw [hx] at hy
    injection hy with hy
    subst hy
    injection hs with hs
    subst hs
    have hfires : self.fires time = true := by
      unfold ObjectCall.signals at hc
      rw [hx] at hc
      exact hc
    unfold TimerImpl.tick at h
    rw [if_pos (show (self.data.valid && decide (self.data.nextNs.toUInt64 ≤ time)) = true
      from hfires)] at h
    obtain ⟨data, _, h⟩ := bind_eq_ret.mp h
    rw [Kernel.modifyObject_modifyObject] at h
    exact wakeForSignal_effect hx rfl rfl h
  | _ => cases hc

/-- What a call that is no signal leaves of the signal and the queue, and whom it wakes. -/
inductive Leaves (o : ObjId) (x : KObject) (signal : Signal) (k : Kernel) :
    ObjectCall → Kernel → Prop where
  | queued {w : Waker} {k' : Kernel} {y : KObject} (hx : k'.object? o = some y)
      (hs : y.signal? = some signal) (hu : signal.signaled = false)
      (hsleepers : k'.sleepers = k.sleepers) : Leaves o x signal k (.wait w) k'
  | taken {w : Waker} {k' : Kernel} {y : KObject} (hx : k'.object? o = some y)
      (hs : y.signal? = some { signal with signaled := signal.isSticky })
      (hq : y.wakers.Sublist x.wakers) (hu : signal.signaled = true) (hwakes : Wakes w k k') :
      Leaves o x signal k (.wait w) k'
  | stale {w : Waker} {k' : Kernel} {y : KObject} (hx : k'.object? o = some y)
      (hs : y.signal? = some signal) (hq : y.wakers = x.wakers) (hlive : ¬ k.view.Live w)
      (hsleepers : k'.sleepers = k.sleepers) : Leaves o x signal k (.wait w) k'
  | cleared {k' : Kernel} {y : KObject} (hx : k'.object? o = some y)
      (hs : y.signal? = some signal.reset) : Leaves o x signal k .clear k'
  | around {call : ObjectCall} {k' : Kernel} {y : KObject} (hx : k'.object? o = some y)
      (hs : y.signal? = some signal) (hq : y.wakers.Sublist x.wakers)
      (hc : ∀ w, call ≠ .wait w) (hclear : call ≠ .clear)
      (hwoken : call.woken k k' = ∅) : Leaves o x signal k call k'

/-- Every call that is no signal. -/
theorem leaves_of_step {call : ObjectCall} (hx : k.object? o = some x)
    (hs : x.signal? = some signal) (hc : call.signals o k = false) (h : CallStep o k call k') :
    Leaves o x signal k call k' := by
  have haround : ∀ y, k'.object? o = some y → Loses x y → (∀ w, call ≠ .wait w) →
      call ≠ .clear → call.wakes = false → Leaves o x signal k call k' := by
    intro y hy hl hwait hclear hwakes
    refine .around hy (by rw [hl.signal?, hs]) hl.wakers hwait hclear ?_
    unfold ObjectCall.woken
    rw [if_neg (by simp [hwakes])]
  cases h with
  | wait hy h =>
    rw [hx] at hy
    injection hy with hy
    subst hy
    rcases wait_effect hx h with ⟨hready, hobject, hsleepers⟩ |
      ⟨hready, hwakes, y, hobject, hloses⟩ | ⟨hready, hlive, hobject, hsleepers⟩
    · rw [KObject.ready_of_signal? hs] at hready
      exact .queued hobject (by rw [KObject.signal?_pushWaker, hs]) hready hsleepers
    · rw [KObject.ready_of_signal? hs] at hready
      have hsignal := KObject.signal?_takeFor hs
      rw [KObject.consume_of_signaled hready] at hsignal
      refine .taken hobject (by rw [hloses.signal?, hsignal]) ?_ hready hwakes
      rw [← KObject.wakers_takeFor x x]
      exact hloses.wakers
    · rw [KObject.ready_of_signal? hs] at hready
      refine .stale hobject ?_ ?_ hlive hsleepers
      · rw [KObject.signal?_untakeFor hs, KObject.consume_of_signaled hready]
        exact congrArg (fun signaled => some (Signal.mk signal.resetType signaled)) hready.symm
      · rw [KObject.wakers_untakeFor, KObject.wakers_takeFor]
  | release hy h =>
    rw [hx] at hy
    injection hy with hy
    subst hy
    cases hs
  | signal hy h => cases hc
  | clear hy =>
    have hcleared : (EventImpl.clear o k).object? o = some (x.modifySignal Signal.reset) := by
      unfold EventImpl.clear
      rw [Kernel.object?_modifyObject, if_pos rfl, hx]
      rfl
    exact .cleared hcleared (by rw [KObject.signal?_modifySignal, hs]; rfl)
  | @tick _ time self hy h =>
    have hfires : ¬ (self.data.valid && decide (self.data.nextNs.toUInt64 ≤ time)) = true := by
      unfold ObjectCall.signals at hc
      rw [hy] at hc
      exact Bool.eq_false_iff.mp hc
    unfold TimerImpl.tick at h
    rw [if_neg hfires] at h
    injection h with h
    subst h
    refine .around hx hs (List.Sublist.refl _) (by simp) (by simp) ?_
    exact woken_eq_empty rfl
  | @set initialNs interval self hy =>
    have hset : (TimerImpl.set o initialNs interval k).object? o =
        some (x.setTimerData { nextNs := initialNs, interval := interval }) := by
      unfold TimerImpl.set
      rw [Kernel.object?_modifyObject, if_pos rfl, hx]
      rfl
    refine .around hset (by rw [KObject.signal?_setTimerData, hs]) ?_ (by simp) (by simp) rfl
    rw [KObject.wakers_setTimerData]
  | wake hp h =>
    obtain ⟨y, hy, hl⟩ := loses_wake h hx
    exact haround y hy hl (by simp) (by simp) rfl
  | timeouts h =>
    obtain ⟨y, hy, hl⟩ := loses_tickThreadsAt h hx
    exact haround y hy hl (by simp) (by simp) rfl
  | other h => exact haround x (h.trans hx) .refl (by simp) (by simp) rfl

end Effect

/-! ## Signals are not lost, and not spent twice -/

namespace Counted

variable {o : ObjId} {s s' : Counted}

/-- What holds between two calls: of the object, its signal and the counts. -/
structure Law (s : Counted) (x : KObject) (signal : Signal) : Prop where
  idle : signal.signaled = true → x.wakers = []
  spent : signal.resetType ≠ .sticky →
    s.satisfied + (if signal.signaled then 1 else 0) ≤ s.signals
  since : signal.resetType = .sticky → s.sinceClear = true → signal.signaled = true

def Inv (o : ObjId) (s : Counted) : Prop :=
  ∃ x signal, s.kernel.object? o = some x ∧ x.signal? = some signal ∧ Law s x signal

theorem Inv.init (h : (signalSystem o).init s) : s.Inv o := by
  obtain ⟨⟨resetType, hx⟩, hsignals, hsatisfied, hsince⟩ := h
  have hlaw : ∀ x : KObject, x.wakers = [] → Law s x (Signal.new resetType) := by
    intro x hw
    refine ⟨fun _ => hw, fun _ => ?_, fun _ hs => ?_⟩
    · rw [hsignals, hsatisfied]
      exact Nat.le_refl 0
    · rw [hsince] at hs
      cases hs
  rcases hx with hx | hx
  · exact ⟨_, _, hx, rfl, hlaw _ rfl⟩
  · exact ⟨_, _, hx, rfl, hlaw _ rfl⟩

theorem wakes_of_signals {k : Kernel} {call : ObjectCall} (h : call.signals o k = true) :
    call.wakes = true := by
  cases call with
  | signal => rfl
  | tick time => rfl
  | _ => cases h

theorem Inv.signal {x : KObject} {signal : Signal} {call : ObjectCall}
    (hx : s.kernel.object? o = some x) (hs : x.signal? = some signal) (hlaw : Law s x signal)
    (hc : call.signals o s.kernel = true) (h : CallStep o s.kernel call s'.kernel)
    (hafter : s' = s.after o call s'.kernel) : s'.Inv o := by
  have hsignals : s'.signals = s.signals + 1 := by
    rw [hafter]
    exact if_pos hc
  have hsatisfied : s'.satisfied =
      s.satisfied + (wokenThreads s.kernel s'.kernel).toFinset.card := by
    have hwoken : call.woken s.kernel s'.kernel = (wokenThreads s.kernel s'.kernel).toFinset :=
      if_pos (wakes_of_signals hc)
    rw [← hwoken]
    exact congrArg satisfied hafter
  obtain ⟨hall, hone⟩ := signal_effect hx hs hc h
  by_cases hsticky : signal.resetType = .sticky
  · obtain ⟨_, y, hy, hsignal, hqueue⟩ := hall hsticky
    exact ⟨y, _, hy, hsignal, fun _ => hqueue, fun hnot => absurd hsticky hnot, fun _ _ => rfl⟩
  · have hspent := hlaw.spent hsticky
    rcases hone hsticky with ⟨_, hsleepers, y, hy, hsignal, hqueue⟩ |
      ⟨w, rest, _, hwakes, y, hy, hsignal⟩
    · refine ⟨y, _, hy, hsignal, fun _ => hqueue, fun _ => ?_, fun hs => absurd hs hsticky⟩
      rw [hsignals, hsatisfied, woken_eq_empty hsleepers, Finset.card_empty]
      show s.satisfied + 0 + 1 ≤ s.signals + 1
      omega
    · refine ⟨y, _, hy, hsignal, fun hset => (by cases hset), fun _ => ?_,
        fun hs => absurd hs hsticky⟩
      rw [hsignals, hsatisfied, hwakes.woken, Finset.card_singleton]
      show s.satisfied + 1 + 0 ≤ s.signals + 1
      omega

theorem Inv.leaves {x : KObject} {signal : Signal} {call : ObjectCall} (hlaw : Law s x signal)
    (hc : call.signals o s.kernel = false)
    (h : Leaves o x signal s.kernel call s'.kernel)
    (hafter : s' = s.after o call s'.kernel) : s'.Inv o := by
  have hsignals : s'.signals = s.signals := by
    rw [hafter]
    exact if_neg (by simp [hc])
  have hsatisfied : s'.satisfied = s.satisfied + (call.woken s.kernel s'.kernel).card :=
    congrArg satisfied hafter
  have hsince : call ≠ .clear → s'.sinceClear = s.sinceClear := by
    intro hclear
    rw [hafter]
    show (if call.signals o s.kernel then true else if call = .clear then false
      else s.sinceClear) = _
    rw [if_neg (by simp [hc]), if_neg hclear]
  cases h with
  | @queued w _ y hy hs hu hsleepers =>
    refine ⟨y, signal, hy, hs, fun hset => (by rw [hu] at hset; cases hset), fun hsticky => ?_,
      fun hsticky hset => ?_⟩
    · have hnone : (ObjectCall.wait w).woken s.kernel s'.kernel = ∅ := woken_eq_empty hsleepers
      rw [hsignals, hsatisfied, hnone]
      exact hlaw.spent hsticky
    · rw [hsince (by simp)] at hset
      exact hlaw.since hsticky hset
  | @taken w _ y hy hs hq hu hwakes =>
    refine ⟨y, _, hy, hs, fun _ => ?_, fun hsticky => ?_, fun hsticky _ => ?_⟩
    · rw [hlaw.idle hu] at hq
      exact List.sublist_nil.mp hq
    · have hone : (ObjectCall.wait w).woken s.kernel s'.kernel = {w.thread} := hwakes.woken
      have hspent := hlaw.spent hsticky
      rw [hu, if_pos rfl] at hspent
      rw [hsignals, hsatisfied, hone, Finset.card_singleton,
        if_neg (show ¬ signal.isSticky = true from fun heq => hsticky (of_decide_eq_true heq))]
      exact hspent
    · exact decide_eq_true hsticky
  | @stale w _ y hy hs hq hlive hsleepers =>
    refine ⟨y, signal, hy, hs, fun hset => by rw [hq, hlaw.idle hset], fun hsticky => ?_,
      fun hsticky hset => ?_⟩
    · have hnone : (ObjectCall.wait w).woken s.kernel s'.kernel = ∅ := woken_eq_empty hsleepers
      rw [hsignals, hsatisfied, hnone]
      exact hlaw.spent hsticky
    · rw [hsince (by simp)] at hset
      exact hlaw.since hsticky hset
  | @cleared _ y hy hs =>
    refine ⟨y, _, hy, hs, fun hset => (by cases hset), fun hsticky => ?_, fun _ hset => ?_⟩
    · have hnone : ObjectCall.clear.woken s.kernel s'.kernel = ∅ := if_neg (by decide)
      have hspent := hlaw.spent hsticky
      rw [hsignals, hsatisfied, hnone]
      exact Nat.le_trans (Nat.add_le_add_left (Nat.zero_le _) _) hspent
    · have hfalse : s'.sinceClear = false := by
        rw [hafter]
        rfl
      rw [hfalse] at hset
      cases hset
  | @around _ _ y hy hs hq hwait hclear hwoken =>
    refine ⟨y, signal, hy, hs, fun hset => ?_, fun hsticky => ?_, fun hsticky hset => ?_⟩
    · rw [hlaw.idle hset] at hq
      exact List.sublist_nil.mp hq
    · rw [hsignals, hsatisfied, hwoken]
      exact hlaw.spent hsticky
    · rw [hsince hclear] at hset
      exact hlaw.since hsticky hset

theorem Inv.step {call : ObjectCall} (h : s.Inv o) (hstep : Step o s call s') : s'.Inv o := by
  obtain ⟨x, signal, hx, hs, hlaw⟩ := h
  obtain ⟨hcalls, hafter⟩ := hstep
  cases hc : call.signals o s.kernel with
  | true => exact Inv.signal hx hs hlaw hc hcalls hafter
  | false => exact Inv.leaves hlaw hc (leaves_of_step hx hs hc hcalls) hafter

theorem inv_of_run {tr : List (Counted × ObjectCall)} (h : Run (signalSystem o) tr s) :
    s.Inv o :=
  h.invariant (fun _ hinit => Inv.init hinit) fun _ _ _ hinv hstep => hinv.step hstep

theorem Inv.balanced (h : s.Inv o) : s.Balanced o := by
  obtain ⟨x, signal, hx, hs, hlaw⟩ := h
  exact ⟨x, signal, hx, hs, hlaw.idle, hlaw.spent⟩

theorem wakesFirst (o : ObjId) (s : Counted) : s.WakesFirst o := by
  intro call s' x signal w rest hstep hc hx hs hsticky hqueue
  rcases (signal_effect hx hs hc hstep.1).2 hsticky with ⟨hempty, _⟩ |
    ⟨w', rest', hq, hwakes, y, hy, hsignal⟩
  · rw [hempty] at hqueue
    cases hqueue
  · rw [hqueue] at hq
    injection hq with hw _
    subst hw
    exact ⟨hwakes, y, _, hy, hsignal, rfl⟩

theorem Inv.wakesAll (h : s.Inv o) : s.WakesAll o := by
  intro call s' x signal hstep hx hs hsticky
  refine ⟨fun hc => ((signal_effect hx hs hc hstep.1).1 hsticky).1, fun w hw hsince hlive => ?_⟩
  subst hw
  obtain ⟨x', signal', hx', hs', hlaw⟩ := h
  rw [hx] at hx'
  injection hx' with hx'
  subst hx'
  rw [hs] at hs'
  injection hs' with hs'
  subst hs'
  have hset := hlaw.since hsticky hsince
  have hleaves := leaves_of_step hx hs rfl hstep.1
  cases hleaves with
  | queued _ _ hu _ =>
    rw [hset] at hu
    cases hu
  | taken _ _ _ _ hwakes => exact hwakes
  | stale _ _ _ hstale _ => exact absurd hlive hstale
  | around _ _ _ hc _ _ => exact absurd rfl (hc w)

end Counted

/-- **Signals are neither lost nor spent twice.** In every run over one event, or one timer
    whose firing ticks are its signals, with waits, alone or with other objects, and timeouts:
    nobody is queued while the signal is set; unless the signal is sticky, there was a signal
    for every wait satisfied and for the one that could be satisfied at once, and a signal that
    finds a queue goes to the first waiter; a sticky signal wakes everybody in the queue who is
    live, and every later live wait succeeds at once until it is cleared. -/
theorem signalsBalanced {o : ObjId} {tr : List (Counted × ObjectCall)} {s : Counted}
    (h : Run (signalSystem o) tr s) : s.Balanced o ∧ s.WakesFirst o ∧ s.WakesAll o := by
  have hinv := Counted.inv_of_run h
  exact ⟨hinv.balanced, Counted.wakesFirst o s, hinv.wakesAll⟩

/-- A thread that is about to wait on object 0, a new event. -/
def Counted.sample : Counted where
  kernel := { Kernel.new with
    objects := [some (.event (EventImpl.new .oneShot))]
    threads := [{ CommonThread.new 0 0 1 with
      state := .waiting
      waitObjects := [0]
      waitType := some .waitSync1 }] }
  signals := 0
  satisfied := 0
  sinceClear := false

/-- The first of two signals satisfies the wait of the thread, the other stays. -/
theorem signalsBalanced_sample : ∃ tr s, Run (signalSystem 0) tr s ∧ s.signals = 2 ∧
    s.satisfied = 1 ∧ s.Balanced 0 ∧ s.WakesFirst 0 ∧ s.WakesAll 0 := by
  have h0 : Run (signalSystem 0) [] Counted.sample :=
    .start ⟨⟨.oneShot, Or.inl rfl⟩, rfl, rfl, rfl⟩
  have h1 := h0.next (show Counted.Step 0 _ (.wait ⟨0, 0⟩) (Counted.after _ _ _ _) from
    ⟨.wait rfl rfl, rfl⟩)
  have h2 := h1.next (show Counted.Step 0 _ .signal (Counted.after _ _ _ _) from
    ⟨.signal rfl rfl, rfl⟩)
  have h3 := h2.next (show Counted.Step 0 _ .signal (Counted.after _ _ _ _) from
    ⟨.signal rfl rfl, rfl⟩)
  exact ⟨_, _, h3, by decide, by decide, signalsBalanced h3⟩

/-! ## Supervisor calls -/

theorem KObject.isTaken_of_signal? {x : KObject} {signal : Signal}
    (h : x.signal? = some signal) : x.isTaken = true := by
  cases x with
  | event self => rfl
  | timer self => rfl
  | _ => cases h

/-- An event or a timer lasts. -/
theorem lasts_signal (o : ObjId) :
    Lasts o fun k => ∃ x signal, k.object? o = some x ∧ x.signal? = some signal where
  taken k h := by
    obtain ⟨x, signal, hx, hs⟩ := h
    exact ⟨x, hx, KObject.isTaken_of_signal? hs⟩
  step k call k' h hstep := by
    obtain ⟨x, signal, hx, hs⟩ := h
    cases hc : call.signals o k with
    | true =>
      obtain ⟨hall, hone⟩ := signal_effect hx hs hc hstep
      by_cases hsticky : signal.resetType = .sticky
      · obtain ⟨_, y, hy, hsignal, _⟩ := hall hsticky
        exact ⟨y, _, hy, hsignal⟩
      · rcases hone hsticky with ⟨_, _, y, hy, hsignal, _⟩ | ⟨_, _, _, _, y, hy, hsignal⟩
        · exact ⟨y, _, hy, hsignal⟩
        · exact ⟨y, _, hy, hsignal⟩
    | false =>
      cases leaves_of_step hx hs hc hstep with
      | queued hy hsignal _ _ => exact ⟨_, _, hy, hsignal⟩
      | taken hy hsignal _ _ _ => exact ⟨_, _, hy, hsignal⟩
      | stale hy hsignal _ _ _ => exact ⟨_, _, hy, hsignal⟩
      | cleared hy hsignal => exact ⟨_, _, hy, hsignal⟩
      | around hy hsignal _ _ _ _ => exact ⟨_, _, hy, hsignal⟩

namespace Counted

/-- The object was just made in the kernel. -/
def made (k : Kernel) : Counted where
  kernel := k
  signals := 0
  satisfied := 0
  sinceClear := false

/-- The counts over the calls on record. -/
def through (o : ObjId) : List CallRecord → Counted → Counted
  | [], s => s
  | r :: rs, s => through o rs ({ s with kernel := r.before }.after o r.label r.after)

/-- From where the object was made to kernel `k'`, with these calls on it. -/
def logged (o : ObjId) (k : Kernel) (log : List CallRecord) (k' : Kernel) : Counted :=
  { through o log (made k) with kernel := k' }

variable {o : ObjId} {s : Counted} {k' : Kernel}

/-- What happens around the object is not counted. -/
theorem moves_of_around (h : Around o s.kernel k') :
    Moves (Step o) (fun _ => True) s { s with kernel := k' } := by
  induction h with
  | refl => exact .refl s
  | @tail k1 k2 call _ haround hstep ih =>
    have hafter : { s with kernel := k2 } = { s with kernel := k1 }.after o call k2 := by
      cases call with
      | wake w p => rfl
      | timeouts time => rfl
      | other => rfl
      | _ => cases haround
    exact ih.tail trivial ⟨hstep, hafter⟩

theorem moves_of_calls {log : List CallRecord} (h : CallsOn o s.kernel log k') :
    Moves (Step o) (fun _ => True) s { through o log s with kernel := k' } := by
  generalize hk : s.kernel = k at h
  induction h generalizing s with
  | nil haround =>
    subst hk
    exact moves_of_around haround
  | @cons _ _ r rs haround hstep _ ih =>
    subst hk
    have hcall : Step o { s with kernel := r.before } r.label
        ({ s with kernel := r.before }.after o r.label r.after) := ⟨hstep, rfl⟩
    exact ((moves_of_around haround).tail trivial hcall).trans (ih rfl)

end Counted

/-- **The kernel keeps to the runs over an event or a timer.** From where one was just made, take
    any path of the kernel, whatever its threads call and however it ticks, as long as the object
    is there. The calls that the code makes on the object in it, in their order, are a path over
    the object. So nobody is queued while its signal is set, and unless the signal is sticky, the
    object satisfied no more waits in these calls than it got signals. -/
theorem signals_followed {rng : Nat → UInt32} {o : ObjId} {k k' : Kernel}
    {tr : List (Kernel × SvcStep)} (hmade : ∃ resetType,
      k.object? o = some (.event (EventImpl.new resetType)) ∨
        k.object? o = some (.timer (TimerImpl.new resetType)))
    (h : Path (svcSystem rng) k tr k') (hkept : EveryStep (fun _ l => l ≠ .drop o) tr) :
    (∃ log, Logged rng o k tr log k') ∧ ∀ log, Logged rng o k tr log k' →
      (∃ tr', Path (signalSystem o) (Counted.made k) tr' (Counted.logged o k log k')) ∧
      (Counted.logged o k log k').Balanced o := by
  have hstart : Run (signalSystem o) [] (.made k) := .start ⟨hmade, rfl, rfl, rfl⟩
  have hthere : ∃ x signal, k.object? o = some x ∧ x.signal? = some signal := by
    obtain ⟨resetType, hx | hx⟩ := hmade
    · exact ⟨_, _, hx, rfl⟩
    · exact ⟨_, _, hx, rfl⟩
  refine ⟨exists_logged (lasts_signal o) hthere h hkept, fun log hlogged => ?_⟩
  have hcalls : CallsOn o (Counted.made k).kernel log k' :=
    hlogged.callsOn (lasts_signal o) hthere hkept
  obtain ⟨tr', hpath⟩ := Path.of_moves (M := signalSystem o) (Counted.moves_of_calls hcalls)
  exact ⟨⟨tr', hpath⟩, (Counted.inv_of_run (hstart.append hpath)).balanced⟩

/-- An event is made and signaled; the wait behind takes the signal, a second wait sleeps. -/
theorem signals_followed_event : ∃ (tr : List (Kernel × SvcStep)) (k k' : Kernel)
    (log : List CallRecord), Path (svcSystem UInt32.ofNat) k tr k' ∧
      Logged UInt32.ofNat 1 k tr log k' ∧ (k'.wakers 1).length = 1 ∧
      (Counted.logged 1 k log k').signals = 1 ∧ (Counted.logged 1 k log k').satisfied = 1 ∧
      (Counted.logged 1 k log k').Balanced 1 := by
  have hrun : ((runAll (svcStep? UInt32.ofNat 4) Kernel.new [.newProcess .hle, .newThread 0,
      .runNext, .call (.createEvent .oneShot)]).bind fun k =>
        (runAll (loggedStep? UInt32.ofNat 4 1) (k, []) [.call (.signalEvent (Handle.fromRaw 1)),
          .call (.waitSync1 0 (Handle.fromRaw 1) (-1)), .stop 0, .runNext,
          .call (.waitSync1 0 (Handle.fromRaw 1) (-1)), .tick 5 []]).map fun s =>
        (k.object? 1, (s.1.wakers 1).length, (Counted.logged 1 k s.2 s.1).signals,
          (Counted.logged 1 k s.2 s.1).satisfied)) =
      some (some (.event (EventImpl.new .oneShot)), 1, 1, 1) := by
    decide +kernel
  obtain ⟨k, _, hrun⟩ := Option.bind_eq_some_iff.mp hrun
  obtain ⟨⟨k', log⟩, hk', hview⟩ := Option.map_eq_some_iff.mp hrun
  obtain ⟨hobject, hview⟩ := Prod.mk.inj hview
  obtain ⟨hwakers, hview⟩ := Prod.mk.inj hview
  obtain ⟨hsignals, hsatisfied⟩ := Prod.mk.inj hview
  obtain ⟨tr, hpath, hkept, hlogged⟩ := Logged.of_runAll .refl (everyStep_nil _) .refl hk'
  obtain ⟨_, hall⟩ := signals_followed ⟨.oneShot, Or.inl hobject⟩ hpath hkept
  exact ⟨tr, k, k', log, hpath, hlogged, hwakers, hsignals, hsatisfied, (hall log hlogged).2⟩

end Pomelo
