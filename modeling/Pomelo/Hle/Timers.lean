/-
  When a timer fires.

  A timer fires by its reset type and its data, and nothing but `set`, `cancel` and the tick at
  which it fires changes these (`sameSchedule_of_call`, `tickAt_timer`). `Timed` runs the kernel
  together with its clock and the last tick at which the timer fired.

  `set` gets the time until the timer fires and stores it as a time of the kernel's clock, with
  which `tick` compares it. So a timer is never early exactly if it is set at time zero, or to
  fire at once (`timely_iff`). Between two firings the deadline is a time of the clock.
-/
import Pomelo.Hle.Signals

namespace Pomelo

open Lib Outcome

/-! ## The schedule of a timer -/

/-- The timers fire at the same times. -/
structure TimerImpl.SameSchedule (timer timer' : TimerImpl) : Prop where
  resetType : timer'.signal.resetType = timer.signal.resetType
  data : timer'.data = timer.data

namespace TimerImpl.SameSchedule

variable {self self' self'' : TimerImpl}

theorem refl (self : TimerImpl) : SameSchedule self self := ⟨rfl, rfl⟩

theorem trans (h : SameSchedule self self') (h' : SameSchedule self' self'') :
    SameSchedule self self'' :=
  ⟨h'.resetType.trans h.resetType, h'.data.trans h.data⟩

theorem fires (h : SameSchedule self self') (time : UInt64) :
    self'.fires time = self.fires time := by
  unfold TimerImpl.fires
  rw [h.data]

theorem isPulse (h : SameSchedule self self') : self'.signal.isPulse = self.signal.isPulse := by
  unfold Signal.isPulse
  rw [h.resetType]

theorem next (h : SameSchedule self self') (time : UInt64) :
    self'.next time = self.next time := by
  unfold TimerImpl.next
  rw [h.isPulse, h.data]

end TimerImpl.SameSchedule

/-- The object stays a timer with the same schedule. -/
def SameSchedule (o : ObjId) (k k' : Kernel) : Prop :=
  ∀ self, k.object? o = some (.timer self) →
    ∃ self', k'.object? o = some (.timer self') ∧ TimerImpl.SameSchedule self self'

/-- A change of objects that keeps the schedules of timers. -/
def KObject.KeepsSchedule (f : KObject → KObject) : Prop :=
  ∀ self, ∃ self', f (.timer self) = .timer self' ∧ TimerImpl.SameSchedule self self'

theorem keepsSchedule_setWakers (wakers : List Waker) :
    KObject.KeepsSchedule (KObject.setWakers wakers) :=
  fun _ => ⟨_, rfl, rfl, rfl⟩

theorem keepsSchedule_modifySignal {f : Signal → Signal}
    (hf : ∀ signal, (f signal).resetType = signal.resetType) :
    KObject.KeepsSchedule (KObject.modifySignal f) :=
  fun self => ⟨_, rfl, hf self.signal, rfl⟩

theorem consume_resetType (signal : Signal) : signal.consume.2.resetType = signal.resetType := by
  obtain ⟨resetType, signaled⟩ := signal
  cases signaled <;> cases resetType <;> rfl

namespace SameSchedule

variable {o p : ObjId} {k k' k'' : Kernel} {w : Waker} {ws : List Waker} {time : UInt64}

theorem refl (o : ObjId) (k : Kernel) : SameSchedule o k k := fun self hx => ⟨self, hx, .refl self⟩

theorem trans (h : SameSchedule o k k') (h' : SameSchedule o k' k'') : SameSchedule o k k'' := by
  intro self hx
  obtain ⟨self1, hx1, h1⟩ := h self hx
  obtain ⟨self2, hx2, h2⟩ := h' self1 hx1
  exact ⟨self2, hx2, h1.trans h2⟩

theorem of_loses (h : ∀ x, k.object? o = some x → ∃ y, k'.object? o = some y ∧ Loses x y) :
    SameSchedule o k k' := by
  intro self hx
  obtain ⟨y, hy, hloses⟩ := h _ hx
  have htimer : ∃ self', y = .timer self' ∧ TimerImpl.SameSchedule self self' := by
    clear hy
    induction hloses with
    | refl => exact ⟨self, rfl, .refl self⟩
    | @tail y t _ ih =>
      obtain ⟨self', rfl, hsame⟩ := ih
      exact ⟨_, rfl, hsame.resetType, hsame.data⟩
  obtain ⟨self', rfl, hsame⟩ := htimer
  exact ⟨self', hy, hsame⟩

theorem of_modify {f : KObject → KObject} (hf : p = o → KObject.KeepsSchedule f) :
    SameSchedule o k (k.modifyObject p f) := by
  intro self hx
  rw [Kernel.object?_modifyObject]
  by_cases ho : o = p
  · obtain ⟨self', hself', hsame⟩ := hf ho.symm self
    rw [if_pos ho, hx, Option.map_some, hself']
    exact ⟨self', rfl, hsame⟩
  · rw [if_neg ho]
    exact ⟨self, hx, .refl self⟩

/-- The wakes for a signal of any object change no schedule. -/
theorem of_wakeForSignal {signal : Signal} (h : wakeForSignal p signal ws k = .ret k') :
    SameSchedule o k k' := by
  unfold wakeForSignal at h
  split at h
  · obtain ⟨k1, hwakes, h⟩ := bind_eq_ret.mp h
    injection h with h
    subst h
    have hcleared : ∀ k : Kernel, SameSchedule o k (k.modifyObject p (KObject.setWakers [])) :=
      fun k => of_modify fun _ => keepsSchedule_setWakers []
    have hwoken : SameSchedule o (k.modifyObject p (KObject.setWakers [])) k1 :=
      of_loses fun x hx => loses_wakeEach (mapPanic_eq_ret.mp hwakes) hx
    exact ((hcleared k).trans hwoken).trans (hcleared k1)
  · cases ws with
    | nil =>
      injection h with h
      exact h ▸ refl o k
    | cons w ws =>
      obtain ⟨k1, hwake, h⟩ := bind_eq_ret.mp h
      injection h with h
      subst h
      have hwoken : SameSchedule o k k1 := of_loses fun x hx => (wakeExpect_effect hx hwake).2.2
      exact hwoken.trans (of_modify fun _ => keepsSchedule_modifySignal fun _ => rfl)

theorem of_tickTimer (hp : p ≠ o) (h : k.tickTimer time p = .ret k') : SameSchedule o k k' := by
  have hother : ∀ (k : Kernel) f, SameSchedule o k (k.modifyObject p f) := fun k f =>
    of_modify fun ho => absurd ho hp
  unfold Kernel.tickTimer at h
  split at h
  · unfold TimerImpl.tick at h
    split at h
    · obtain ⟨data, _, h⟩ := bind_eq_ret.mp h
      exact ((hother k _).trans (hother _ _)).trans (of_wakeForSignal h)
    · injection h with h
      exact h ▸ refl o k
  · injection h with h
    exact h ▸ refl o k

theorem of_tickTimers {objects : List ObjId} (ho : o ∉ objects)
    (h : Kernel.tickTimers time objects k = .ret k') : SameSchedule o k k' := by
  induction objects generalizing k with
  | nil =>
    injection h with h
    exact h ▸ refl o k
  | cons p objects ih =>
    obtain ⟨k1, hone, h⟩ := bind_eq_ret.mp h
    have hp : p ≠ o := fun heq => ho (heq ▸ List.mem_cons_self)
    have hrest : o ∉ objects := fun hmem => ho (List.mem_cons_of_mem p hmem)
    exact (of_tickTimer hp hone).trans (ih hrest h)

end SameSchedule

/-! ## What changes a schedule -/

/-- The call is one by which a timer is set, or fires. -/
def ObjectCall.schedules : ObjectCall → Bool
  | set _ _ | tick _ => true
  | _ => false

/-- What `tick_at` does to the schedule of a timer. -/
def TimerImpl.Ticked (time : UInt64) (timer timer' : TimerImpl) : Prop :=
  timer'.signal.resetType = timer.signal.resetType ∧
    if timer.fires time then timer.next time = .ret timer'.data else timer'.data = timer.data

section Schedule

variable {o : ObjId} {k k' : Kernel} {time : UInt64} {self : TimerImpl}

theorem sameSchedule_of_wait {w : Waker} {x : KObject} (hx : k.object? o = some x)
    (h : KObject.wait o w k x = .ret k') : SameSchedule o k k' := by
  intro self hself
  rw [hx] at hself
  injection hself with hself
  subst hself
  rcases wait_effect hx h with ⟨_, hobject, _⟩ | ⟨_, _, y, hobject, hloses⟩ | ⟨_, _, hobject, _⟩
  · exact ⟨_, hobject, rfl, rfl⟩
  · -- what is taken is the signal, and the wake may take wakers out
    have htaken : SameSchedule o (k.modifyObject o (KObject.takeFor (.timer self))) k' :=
      SameSchedule.of_loses fun z hz => by
        rw [Kernel.object?_modifyObject, if_pos rfl, hx] at hz
        injection hz with hz
        exact ⟨y, hobject, hz ▸ hloses⟩
    have htake : SameSchedule o k (k.modifyObject o (KObject.takeFor (.timer self))) :=
      SameSchedule.of_modify fun _ => keepsSchedule_modifySignal consume_resetType
    exact (htake.trans htaken) self hx
  · exact ⟨_, hobject, consume_resetType self.signal, rfl⟩

/-- No other call changes the schedule. -/
theorem sameSchedule_of_call {call : ObjectCall} (hc : call.schedules = false)
    (h : CallStep o k call k') : SameSchedule o k k' := by
  intro self hx
  cases h with
  | wait hy h => exact sameSchedule_of_wait hy h self hx
  | release hy h =>
    rw [hx] at hy
    cases hy
  | signal hy h =>
    rw [hx] at hy
    cases hy
  | clear hy =>
    rw [hx] at hy
    cases hy
  | tick hy h => cases hc
  | set hy => cases hc
  | wake hp h => exact SameSchedule.of_loses (fun x hx => loses_wake h hx) self hx
  | timeouts h => exact SameSchedule.of_loses (fun x hx => loses_tickThreadsAt h hx) self hx
  | other h => exact ⟨self, h.trans hx, .refl self⟩

theorem tickTimer_timer (hx : k.object? o = some (.timer self))
    (h : k.tickTimer time o = .ret k') :
    ∃ self', k'.object? o = some (.timer self') ∧ self.Ticked time self' := by
  unfold Kernel.tickTimer at h
  rw [hx] at h
  dsimp only at h
  unfold TimerImpl.tick at h
  by_cases hfires : self.fires time = true
  · rw [if_pos (show (self.data.valid && decide (self.data.nextNs.toUInt64 ≤ time)) = true
      from hfires)] at h
    obtain ⟨data, hnext, h⟩ := bind_eq_ret.mp h
    rw [Kernel.modifyObject_modifyObject] at h
    have hset : (k.modifyObject o fun x =>
        (x.modifySignal Signal.signal).setTimerData data).object? o =
          some (.timer { self with signal := self.signal.signal, data := data }) := by
      rw [Kernel.object?_modifyObject, if_pos rfl, hx]
      rfl
    obtain ⟨self', hx', hsame⟩ := SameSchedule.of_wakeForSignal h _ hset
    refine ⟨self', hx', hsame.resetType, ?_⟩
    rw [if_pos hfires, hsame.data]
    exact mapPanic_eq_ret.mp hnext
  · rw [if_neg (show ¬ (self.data.valid && decide (self.data.nextNs.toUInt64 ≤ time)) = true
      from hfires)] at h
    injection h with h
    refine ⟨self, h ▸ hx, rfl, ?_⟩
    rw [if_neg hfires]

theorem tickTimers_append (as bs : List ObjId) (k : Kernel) :
    Kernel.tickTimers time (as ++ bs) k =
      Kernel.tickTimers time as k >>= Kernel.tickTimers time bs := by
  induction as generalizing k with
  | nil => rfl
  | cons a as ih =>
    rw [List.cons_append, Kernel.tickTimers, Kernel.tickTimers]
    cases k.tickTimer time a with
    | ret k1 => exact ih k1
    | panic e => rfl
    | diverge => rfl

/-- `tick_at` ticks the timer once, whatever else it does. -/
theorem tickAt_timer (hx : k.object? o = some (.timer self)) (h : k.tickAt time = .ret k') :
    ∃ self', k'.object? o = some (.timer self') ∧ self.Ticked time self' := by
  obtain ⟨k1, hthreads, h⟩ := bind_eq_ret.mp h
  have hfirst : SameSchedule o k k1 := SameSchedule.of_loses fun x hx =>
    loses_tickThreadsAt (mapPanic_eq_ret.mp hthreads) hx
  obtain ⟨self1, hx1, hsame1⟩ := hfirst self hx
  have hmem : o ∈ List.range k1.objects.length :=
    List.mem_range.mpr (View.lt_length (v := k1.view) hx1)
  obtain ⟨as, bs, hsplit⟩ := List.append_of_mem hmem
  have hnodup : (as ++ o :: bs).Nodup := hsplit ▸ List.nodup_range
  have has : o ∉ as := fun ha => List.disjoint_of_nodup_append hnodup ha List.mem_cons_self
  have hbs : o ∉ bs := (List.nodup_cons.mp (List.nodup_append.mp hnodup).2.1).1
  rw [hsplit, tickTimers_append] at h
  obtain ⟨k2, hbefore, h⟩ := bind_eq_ret.mp h
  obtain ⟨k3, htick, hafter⟩ := bind_eq_ret.mp h
  obtain ⟨self2, hx2, hsame2⟩ := SameSchedule.of_tickTimers has hbefore self1 hx1
  obtain ⟨self3, hx3, hreset, hticked⟩ := tickTimer_timer hx2 htick
  obtain ⟨self', hx', hsame3⟩ := SameSchedule.of_tickTimers hbs hafter self3 hx3
  have hsame := hsame1.trans hsame2
  refine ⟨self', hx', (hsame3.resetType.trans hreset).trans hsame.resetType, ?_⟩
  rw [hsame.fires, hsame.next, hsame.data] at hticked
  rw [hsame3.data]
  exact hticked

end Schedule

/-! ## Runs after a timer is set -/

/-- A kernel, the time of its clock, and the last tick at which a timer fired. -/
structure Timed where
  kernel : Kernel
  clock : UInt64
  last : Option UInt64

inductive TimerEvent where
  | tickAt (time : UInt64)
  | call (call : ObjectCall)

namespace Timed

/-- A tick at that time makes the timer fire. -/
def fires (o : ObjId) (s : Timed) (time : UInt64) : Bool :=
  match s.kernel.object? o with
  | some (.timer self) => self.fires time
  | _ => false

/-- The kernel ticks, with times that do not decrease, and in between there are any calls by
    which the timer is not set. -/
inductive Step (o : ObjId) : Timed → TimerEvent → Timed → Prop where
  | tickAt {s : Timed} {k' : Kernel} {time : UInt64} (hclock : s.clock ≤ time)
      (h : s.kernel.tickAt time = .ret k') :
      Step o s (.tickAt time)
        { kernel := k', clock := time, last := if s.fires o time then some time else s.last }
  | call {s : Timed} {k' : Kernel} {call : ObjectCall} (hc : call.schedules = false)
      (h : CallStep o s.kernel call k') : Step o s (.call call) { s with kernel := k' }

/-- No tick from now on makes the timer fire before `initial` has passed since it was set at `t`;
    and none a pulse timer before `interval` has passed since it last fired. -/
def Timely (o : ObjId) (t : UInt64) (initial interval : Int64) (s : Timed) : Prop :=
  ∀ time self, s.clock ≤ time → s.kernel.object? o = some (.timer self) →
    self.fires time = true →
    (t.toNat : Int) + initial.toInt ≤ time.toNat ∧
      (self.signal.isPulse = true → ∀ last, s.last = some last →
        (last.toNat : Int) + interval.toInt ≤ time.toNat)

end Timed

/-- Runs start when the timer is set in a kernel, at time `t`. -/
def timerSystem (k : Kernel) (o : ObjId) (t : UInt64) (initial interval : Int64) :
    System Timed TimerEvent where
  init s := s = { kernel := TimerImpl.set o initial interval k, clock := t, last := none }
  step := Timed.Step o

theorem toNat_toUInt64_of_nonneg {a : Int64} (h : 0 ≤ a) : (a.toUInt64.toNat : Int) = a.toInt := by
  rw [Int64.toNat_toUInt64_of_le h]
  exact Int64.cast_toNatClampNeg a h

theorem TimerImpl.fires_iff {self : TimerImpl} {time : UInt64} :
    self.fires time = true ↔
      0 ≤ self.data.nextNs ∧ 0 ≤ self.data.interval ∧ self.data.nextNs.toUInt64 ≤ time := by
  unfold TimerImpl.fires TimerImplData.valid
  rw [Bool.and_eq_true, Bool.and_eq_true, decide_eq_true_eq, decide_eq_true_eq,
    decide_eq_true_eq, and_assoc]

theorem addU64_eq_ret {a b c : UInt64} (h : addU64 a b = .ret c) :
    c = a + b ∧ c.toNat = a.toNat + b.toNat := by
  unfold addU64 at h
  split at h
  · rename_i hlt
    injection h with h
    refine ⟨h.symm, ?_⟩
    rw [← h, UInt64.toNat_add]
    exact Nat.mod_eq_of_lt hlt
  · cases h

namespace Timed

variable {k : Kernel} {o : ObjId} {t : UInt64} {initial interval : Int64} {s s' : Timed}

/-- The deadline of a timer that was set, or has fired. -/
def Scheduled (t : UInt64) (initial interval : Int64) (s : Timed) (self : TimerImpl) : Prop :=
  match s.last with
  | none => self.data = { nextNs := initial, interval := interval }
  | some last => t.toNat + initial.toInt ≤ last.toNat ∧ last ≤ s.clock ∧
      if self.signal.isPulse then
        self.data.interval = interval ∧
          (self.data.nextNs.toUInt64.toNat : Int) = last.toNat + interval.toInt
      else self.data.nextNs = -1

/-- Between two ticks the timer is scheduled, if it is there. -/
def Inv (o : ObjId) (t : UInt64) (initial interval : Int64) (s : Timed) : Prop :=
  t ≤ s.clock ∧ ∃ self, s.kernel.object? o = some (.timer self) ∧
    s.Scheduled t initial interval self

/-- A tick that is due is not early. -/
theorem Scheduled.timely {self : TimerImpl} {time : UInt64} (h0 : 0 ≤ initial)
    (hset : t = 0 ∨ initial = 0) (h : s.Scheduled t initial interval self) (ht : t ≤ s.clock)
    (hclock : s.clock ≤ time) (hfires : self.fires time = true) :
    (t.toNat : Int) + initial.toInt ≤ time.toNat ∧
      (self.signal.isPulse = true → ∀ last, s.last = some last →
        (last.toNat : Int) + interval.toInt ≤ time.toNat) ∧
      self.data.interval = interval := by
  obtain ⟨hnext, _, hdue⟩ := TimerImpl.fires_iff.mp hfires
  have htime : t.toNat ≤ time.toNat := UInt64.le_iff_toNat_le.mp (UInt64.le_trans ht hclock)
  have hdue : self.data.nextNs.toUInt64.toNat ≤ time.toNat := UInt64.le_iff_toNat_le.mp hdue
  have hinitial := toNat_toUInt64_of_nonneg h0
  unfold Scheduled at h
  split at h
  · rename_i hlast
    have hdue : initial.toUInt64.toNat ≤ time.toNat := by
      rw [h] at hdue
      exact hdue
    refine ⟨?_, fun _ last hl => ?_, by rw [h]⟩
    · rcases hset with rfl | rfl
      · show (0 : Int) + _ ≤ _
        omega
      · show _ + (0 : Int) ≤ _
        omega
    · rw [hlast] at hl
      cases hl
  · rename_i last hlast
    obtain ⟨hfirst, hle, hdata⟩ := h
    have hle : last.toNat ≤ time.toNat := UInt64.le_iff_toNat_le.mp (UInt64.le_trans hle hclock)
    by_cases hpulse : self.signal.isPulse = true
    · rw [if_pos hpulse] at hdata
      refine ⟨by omega, fun _ last' hl => ?_, hdata.1⟩
      rw [hlast] at hl
      injection hl with hl
      subst hl
      omega
    · rw [if_neg hpulse] at hdata
      rw [hdata] at hnext
      exact absurd hnext (by decide)

theorem Scheduled.sameSchedule {self self' : TimerImpl} (h : s.Scheduled t initial interval self)
    (hsame : TimerImpl.SameSchedule self self') : s.Scheduled t initial interval self' := by
  unfold Scheduled at h ⊢
  rw [hsame.data, hsame.isPulse]
  exact h

/-- A tick at which the timer does not fire. -/
theorem Scheduled.later {self self' : TimerImpl} {k' : Kernel} {time : UInt64}
    (h : s.Scheduled t initial interval self) (hclock : s.clock ≤ time)
    (hsame : TimerImpl.SameSchedule self self') :
    Scheduled t initial interval { kernel := k', clock := time, last := s.last } self' := by
  have h' := h.sameSchedule hsame
  unfold Scheduled at h' ⊢
  dsimp only
  split at h'
  · exact h'
  · obtain ⟨hfirst, hle, hdata⟩ := h'
    exact ⟨hfirst, UInt64.le_trans hle hclock, hdata⟩

/-- What a timer that fires is set to. -/
theorem scheduled_of_next {self self' : TimerImpl} {k' : Kernel} {time : UInt64}
    (h1 : 0 ≤ interval) (hinterval : self.data.interval = interval)
    (hfirst : (t.toNat : Int) + initial.toInt ≤ time.toNat)
    (hreset : self'.signal.resetType = self.signal.resetType)
    (hnext : self.next time = .ret self'.data) :
    Scheduled t initial interval { kernel := k', clock := time, last := some time } self' := by
  have hpulse : self'.signal.isPulse = self.signal.isPulse := by
    unfold Signal.isPulse
    rw [hreset]
  unfold Scheduled
  refine ⟨hfirst, UInt64.le_refl time, ?_⟩
  unfold TimerImpl.next at hnext
  rw [hpulse]
  split at hnext
  · rename_i hp
    rw [if_pos hp]
    obtain ⟨nextNs, hadd, hnext⟩ := bind_eq_ret.mp hnext
    injection hnext with hnext
    obtain ⟨_, hsum⟩ := addU64_eq_ret hadd
    have hlength := toNat_toUInt64_of_nonneg h1
    rw [hinterval] at hsum
    rw [← hnext]
    refine ⟨hinterval, ?_⟩
    rw [UInt64.toUInt64_toInt64, hsum]
    omega
  · rename_i hp
    rw [if_neg hp]
    injection hnext with hnext
    rw [← hnext]

theorem Inv.step {e : TimerEvent} (h0 : 0 ≤ initial) (h1 : 0 ≤ interval)
    (hset : t = 0 ∨ initial = 0) (h : s.Inv o t initial interval) (hstep : Step o s e s') :
    s'.Inv o t initial interval := by
  obtain ⟨ht, self, hx, hscheduled⟩ := h
  cases hstep with
  | @tickAt k' time hclock htick =>
    obtain ⟨self', hx', hreset, hticked⟩ := tickAt_timer hx htick
    have hfires : s.fires o time = self.fires time := by
      unfold fires
      rw [hx]
    refine ⟨UInt64.le_trans ht hclock, self', hx', ?_⟩
    rw [hfires]
    by_cases hf : self.fires time = true
    · rw [if_pos hf] at hticked ⊢
      obtain ⟨hfirst, _, hinterval⟩ := hscheduled.timely h0 hset ht hclock hf
      exact scheduled_of_next h1 hinterval hfirst hreset hticked
    · rw [if_neg hf] at hticked ⊢
      exact hscheduled.later hclock ⟨hreset, hticked⟩
  | call hc hcall =>
    obtain ⟨self', hx', hsame⟩ := sameSchedule_of_call hc hcall self hx
    exact ⟨ht, self', hx', hscheduled.sameSchedule hsame⟩

theorem Inv.timely (h0 : 0 ≤ initial) (hset : t = 0 ∨ initial = 0)
    (h : s.Inv o t initial interval) : s.Timely o t initial interval := by
  intro time self hclock hx hfires
  obtain ⟨ht, self', hx', hscheduled⟩ := h
  rw [hx] at hx'
  injection hx' with hx'
  injection hx' with hx'
  subst hx'
  obtain ⟨hfirst, hpulse, _⟩ := hscheduled.timely h0 hset ht hclock hfires
  exact ⟨hfirst, hpulse⟩

end Timed

theorem object?_set {k : Kernel} {o : ObjId} {self : TimerImpl} (initial interval : Int64)
    (hx : k.object? o = some (.timer self)) :
    (TimerImpl.set o initial interval k).object? o =
      some (.timer { self with data := { nextNs := initial, interval := interval } }) := by
  unfold TimerImpl.set
  rw [Kernel.object?_modifyObject, if_pos rfl, hx]
  rfl

/-- **Timers are early unless set at time zero or to fire at once.** A timer of any kernel is set
    at time `t`. That in every run from there, whatever is called in between, no tick makes it fire
    before `initial` has passed, and no two ticks make a pulse timer fire less than `interval`
    apart, is so exactly when `t` or `initial` is zero. -/
theorem timely_iff {k : Kernel} {o : ObjId} {self : TimerImpl}
    (hx : k.object? o = some (.timer self)) (t : UInt64) {initial interval : Int64}
    (h0 : 0 ≤ initial) (h1 : 0 ≤ interval) :
    (∀ tr s, Run (timerSystem k o t initial interval) tr s → s.Timely o t initial interval) ↔
      t = 0 ∨ initial = 0 := by
  have hobject := object?_set initial interval hx
  constructor
  · intro h
    -- the tick at the later of `t` and `initial` makes the timer fire
    have hstart := h [] _ (.start rfl)
    have hinitial := toNat_toUInt64_of_nonneg h0
    have hfires : ∀ time : UInt64, initial.toUInt64 ≤ time → t ≤ time →
        (t.toNat : Int) + initial.toInt ≤ time.toNat := fun time hle hclock =>
      (hstart time _ hclock hobject (TimerImpl.fires_iff.mpr ⟨h0, h1, hle⟩)).1
    have hzero : t.toNat = 0 ∨ initial.toInt = 0 := by
      rcases Nat.le_total t.toNat initial.toUInt64.toNat with hle | hle
      · have := hfires initial.toUInt64 (UInt64.le_refl _) (UInt64.le_iff_toNat_le.mpr hle)
        omega
      · have := hfires t (UInt64.le_iff_toNat_le.mpr hle) (UInt64.le_refl _)
        omega
    rcases hzero with ht | hi
    · exact Or.inl (UInt64.toNat_inj.mp ht)
    · exact Or.inr (Int64.toInt_inj.mp hi)
  · intro hset tr s hrun
    have hinv : s.Inv o t initial interval :=
      hrun.invariant (fun s hs => by subst hs; exact ⟨UInt64.le_refl t, _, hobject, rfl⟩)
        fun _ _ _ hinv hstep => hinv.step h0 h1 hset hstep
    exact hinv.timely h0 hset

/-- A kernel with one timer. -/
def oneTimer : Kernel :=
  { Kernel.new with objects := [some (.timer (TimerImpl.new .pulse))] }

theorem timely_iff_oneTimer :
    (∀ tr s, Run (timerSystem oneTimer 0 5 3 2) tr s → s.Timely 0 5 3 2) ↔
      (5 : UInt64) = 0 ∨ (3 : Int64) = 0 :=
  @timely_iff oneTimer 0 (TimerImpl.new .pulse) rfl 5 3 2 (by decide) (by decide)

/-- Set at time 5 to fire after 3, the timer fires at a tick at time 5. -/
theorem timely_fails :
    ¬ ∀ (k : Kernel) (o : ObjId) (self : TimerImpl) (t : UInt64) (initial interval : Int64),
      k.object? o = some (.timer self) → 0 ≤ initial → 0 ≤ interval →
      ∀ tr s, Run (timerSystem k o t initial interval) tr s → s.Timely o t initial interval := by
  intro h
  have hstart := h oneTimer 0 (TimerImpl.new .pulse) 5 3 2 rfl (by decide) (by decide) [] _
    (.start rfl)
  have hearly := (hstart 5 _ (UInt64.le_refl 5) rfl (by decide)).1
  exact absurd hearly (by decide)

end Pomelo
