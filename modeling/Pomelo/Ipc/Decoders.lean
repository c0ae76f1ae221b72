/-
  Two decoders of one message: when they agree.

  `Drained` is what a decoder gives when all normal parameters are read, and then translate
  parameters until the header's translate words are used up: what was read, and how it
  stopped. `IPCRequest` and `IPCReader` stop at the same point and read the same but for the
  permissions of buffer mappings (`drainedBy_finishes_iff`, `drainedBy_translates`).
  `decodersAgree_iff`: so they agree exactly on the messages that are cut off, and on those
  whose buffer mappings all have the one descriptor on which the two masks do.
-/
import Pomelo.Ipc.Codec

namespace Pomelo

open Lib

/-! ## Draining -/

/-- Read `n` times: what was read, and the decoder afterwards or the panic. -/
def readTimes {α δ : Type} (read : δ → Exec (α × δ)) : Nat → δ → List α × Exec δ
  | 0, self => ([], .ret self)
  | n + 1, self =>
    match read self with
    | .ret (a, self) => ((readTimes read n self).1.cons a, (readTimes read n self).2)
    | .panic e => ([], .panic e)
    | .diverge => ([], .diverge)

/-- Read while there is more: what was read, and the decoder afterwards or the panic. -/
def readWhile {α δ : Type} (more : δ → Bool) (read : δ → Exec (α × δ)) :
    Nat → δ → List α × Exec δ
  | 0, _ => ([], .diverge)
  | fuel + 1, self =>
    if more self then
      match read self with
      | .ret (a, self) =>
        ((readWhile more read fuel self).1.cons a, (readWhile more read fuel self).2)
      | .panic e => ([], .panic e)
      | .diverge => ([], .diverge)
    else ([], .ret self)

/-- What a drained decoder gave: the parameters, and whether it reached the end or panicked. -/
structure Drained where
  normals : List UInt32
  translates : List IPCTranslateParameter
  stop : Exec Unit
deriving DecidableEq, Repr

/-- Drain the decoder that `new` makes. A read takes at least one translate word, so there are
    not more reads than words. -/
def drain {δ : Type} (new : Exec δ) (params : δ → ParameterReader)
    (readNormal : δ → Exec (UInt32 × δ)) (readTranslate : δ → Exec (IPCTranslateParameter × δ)) :
    Drained :=
  match new with
  | .ret self =>
    let (normals, self) := readTimes readNormal (params self).normalParameterCount.toNat self
    match self with
    | .ret self =>
      let (translates, self) :=
        readWhile (fun self => decide ((params self).translateParameterWords > 0)) readTranslate
          ((params self).translateParameterWords.toNat + 1) self
      { normals := normals, translates := translates, stop := self >>= fun _ => .ret () }
    | .panic e => { normals := normals, translates := [], stop := .panic e }
    | .diverge => { normals := normals, translates := [], stop := .diverge }
  | .panic e => { normals := [], translates := [], stop := .panic e }
  | .diverge => { normals := [], translates := [], stop := .diverge }

def IPCRequest.drained (data : List UInt8) : Drained :=
  drain (IPCRequest.new data) IPCRequest.params IPCRequest.readNormal IPCRequest.readTranslate

def IPCReader.drained (data : List UInt8) : Drained :=
  drain (IPCReader.newRequest data) IPCReader.params IPCReader.readNormal IPCReader.readTranslate

/-- Both come to the end with the same parameters, or both panic after the same reads. -/
def DecodersAgree (data : List UInt8) : Prop :=
  (IPCRequest.drained data).stop = .ret () ∧ IPCRequest.drained data = IPCReader.drained data ∨
    ∃ e, (IPCRequest.drained data).stop = .panic e ∧ (IPCReader.drained data).stop = .panic e ∧
      (IPCRequest.drained data).normals.length = (IPCReader.drained data).normals.length ∧
      (IPCRequest.drained data).translates.length = (IPCReader.drained data).translates.length

/-! ## One decoder for both -/

/-- What `ParameterReader` gives, with its own way to the permission of a buffer mapping. -/
def drainedBy (permission : UInt32 → UInt8) (data : List UInt8) : Drained :=
  drain (do
      let (word, data) ← (Cursor.new data).readU32
      let header := IPCHeaderCode.ofWord word
      return ⟨data, header.normalParameterCount, header.translateParameterSize⟩)
    id ParameterReader.readNormal (ParameterReader.readTranslate permission)

section Params

variable {α δ : Type} {params : δ → ParameterReader} {read : δ → Exec (α × δ)}
  {readParam : ParameterReader → Exec (α × ParameterReader)}

theorem readTimes_params
    (h : ∀ self, readParam (params self) = read self >>= fun x => .ret (x.1, params x.2))
    (n : Nat) (self : δ) :
    readTimes readParam n (params self) =
      ((readTimes read n self).1, (readTimes read n self).2 >>= fun self => .ret (params self)) := by
  induction n generalizing self with
  | zero => rfl
  | succ n ih =>
    rw [readTimes, readTimes, h self]
    cases read self with
    | ret x =>
      rw [Outcome.ret_bind]
      dsimp only
      rw [ih]
    | panic e => rfl
    | diverge => rfl

theorem readWhile_params {more : δ → Bool} {moreParam : ParameterReader → Bool}
    (hm : ∀ self, moreParam (params self) = more self)
    (h : ∀ self, readParam (params self) = read self >>= fun x => .ret (x.1, params x.2))
    (fuel : Nat) (self : δ) :
    readWhile moreParam readParam fuel (params self) =
      ((readWhile more read fuel self).1,
        (readWhile more read fuel self).2 >>= fun self => .ret (params self)) := by
  induction fuel generalizing self with
  | zero => rfl
  | succ fuel ih =>
    rw [readWhile, readWhile, hm, h self]
    cases more self with
    | false => rfl
    | true =>
      rw [if_pos rfl, if_pos rfl]
      cases read self with
      | ret x =>
        rw [Outcome.ret_bind]
        dsimp only
        rw [ih]
      | panic e => rfl
      | diverge => rfl

end Params

/-- A decoder that reads through its parameters gives what the parameters give. -/
theorem drain_eq_drainedBy {δ : Type} {new : Exec δ} {params : δ → ParameterReader}
    {readNormal : δ → Exec (UInt32 × δ)}
    {readTranslate : δ → Exec (IPCTranslateParameter × δ)} {permission : UInt32 → UInt8}
    {data : List UInt8}
    (hnew : (new >>= fun self => .ret (params self)) = (do
      let (word, data) ← (Cursor.new data).readU32
      let header := IPCHeaderCode.ofWord word
      return ⟨data, header.normalParameterCount, header.translateParameterSize⟩))
    (hn : ∀ self, (params self).readNormal =
      readNormal self >>= fun x => .ret (x.1, params x.2))
    (ht : ∀ self, (params self).readTranslate permission =
      readTranslate self >>= fun x => .ret (x.1, params x.2)) :
    drain new params readNormal readTranslate = drainedBy permission data := by
  unfold drainedBy
  rw [← hnew]
  unfold drain
  cases new with
  | panic e => rfl
  | diverge => rfl
  | ret self =>
    rw [Outcome.ret_bind]
    dsimp only [id]
    rw [readTimes_params hn]
    cases (readTimes readNormal (params self).normalParameterCount.toNat self).2 with
    | panic e => rfl
    | diverge => rfl
    | ret self =>
      rw [Outcome.ret_bind]
      dsimp only
      rw [readWhile_params (fun _ => rfl) ht]
      cases (readWhile (fun self => decide ((params self).translateParameterWords > 0))
        readTranslate ((params self).translateParameterWords.toNat + 1) self).2 with
      | ret self => rfl
      | panic e => rfl
      | diverge => rfl

theorem IPCRequest.drained_eq (data : List UInt8) :
    IPCRequest.drained data = drainedBy IPCRequest.permission data := by
  refine drain_eq_drainedBy ?_ (fun self => ?_) fun self => ?_
  · unfold IPCRequest.new
    cases (Cursor.new data).readU32 <;> rfl
  · unfold IPCRequest.readNormal
    cases self.params.readNormal <;> rfl
  · unfold IPCRequest.readTranslate
    cases self.params.readTranslate IPCRequest.permission <;> rfl

theorem IPCReader.drained_eq (data : List UInt8) :
    IPCReader.drained data = drainedBy IPCReader.permission data := by
  refine drain_eq_drainedBy ?_ (fun self => ?_) fun self => ?_
  · unfold IPCReader.newRequest
    cases (Cursor.new data).readU32 <;> rfl
  · unfold IPCReader.readNormal
    cases self.params.readNormal <;> rfl
  · unfold IPCReader.readTranslate
    cases self.params.readTranslate IPCReader.permission <;> rfl

/-! ## Permissions aside -/

/-- The parameter with the permission of a buffer mapping replaced. -/
def IPCTranslateParameter.mapPermission (g : UInt8 → UInt8) :
    IPCTranslateParameter → IPCTranslateParameter
  | .bufferMapping permission size ptr => .bufferMapping (g permission) size ptr
  | param => param

/-- The kind bits of a descriptor, kept in the permission's place. -/
def kindBits (n : UInt32) : UInt8 := n.toUInt8

theorem kindBits_back (d : UInt32) : (kindBits (d &&& 7)).toUInt32 = d &&& 7 := by
  have h : (d &&& 7).toNat < 256 := by
    rw [UInt32.toNat_and]
    have := Nat.and_le_right (n := d.toNat) (m := 7)
    show d.toNat &&& 7 < 256
    omega
  unfold kindBits
  apply UInt32.toNat_inj.mp
  rw [UInt8.toNat_toUInt32, UInt32.toNat_toUInt8]
  exact Nat.mod_eq_of_lt h

/-- The two masks agree on one kind of buffer mapping. -/
theorem permission_eq_iff {d : UInt32} (h0 : d &&& 7 ≠ 0) (h1 : d &&& 7 ≠ 1) :
    IPCRequest.permission (d &&& 7) = IPCReader.permission (d &&& 7) ↔ d &&& 7 = 7 := by
  have h : ∀ k : Fin 8, UInt32.ofNat k ≠ 0 → UInt32.ofNat k ≠ 1 →
      (IPCRequest.permission (UInt32.ofNat k) = IPCReader.permission (UInt32.ofNat k) ↔
        UInt32.ofNat k = 7) := by
    decide
  have hlt : (d &&& 7).toNat < 8 := by
    rw [UInt32.toNat_and]
    have := Nat.and_le_right (n := d.toNat) (m := 7)
    show d.toNat &&& 7 < 8
    omega
  have hk := h ⟨(d &&& 7).toNat, hlt⟩
  simp only [UInt32.ofNat_toNat] at hk
  exact hk h0 h1

/-- A read with another permission function returns the same but for the permission. -/
theorem readTranslate_permission (f : UInt32 → UInt8) (self : ParameterReader) :
    self.readTranslate f = self.readTranslate kindBits >>= fun x =>
      .ret (x.1.mapPermission fun k => f k.toUInt32, x.2) := by
  unfold ParameterReader.readTranslate
  cases Outcome.assert (decide (self.normalParameterCount = 0))
      (Panic.assertion "self.normal_parameter_count == 0") with
  | panic e => rfl
  | diverge => rfl
  | ret u =>
    rw [Outcome.ret_bind, Outcome.ret_bind]
    cases self.readTranslateWord with
    | panic e => rfl
    | diverge => rfl
    | ret x =>
      obtain ⟨d, self⟩ := x
      rw [Outcome.ret_bind, Outcome.ret_bind]
      dsimp only
      by_cases h0 : d &&& 7 = 0
      · rw [if_pos h0, if_pos h0]
        by_cases hc : (d &&& 0xFC000000) >>> 26 = 0
        · rw [if_pos hc]
          cases self.readTranslateHandle <;> rfl
        · rw [if_neg hc]
          cases self.readHandles (decide (d &&& 32 ≠ 0)) (((d &&& 0xFC000000) >>> 26).toNat + 1) <;>
            rfl
      · rw [if_neg h0, if_neg h0]
        by_cases h1 : d &&& 7 = 1
        · rw [if_pos h1, if_pos h1]
          cases self.readTranslateWord <;> rfl
        · rw [if_neg h1, if_neg h1]
          have hf : f (d &&& 7) = f (kindBits (d &&& 7)).toUInt32 := by
            rw [kindBits_back]
          cases self.readTranslateWord with
          | panic e => rfl
          | diverge => rfl
          | ret x =>
            rw [Outcome.ret_bind, Outcome.ret_bind, hf]
            rfl

theorem readWhile_map {α β δ : Type} {more : δ → Bool} {read : δ → Exec (α × δ)}
    {read' : δ → Exec (β × δ)} {g : α → β}
    (h : ∀ self, read' self = read self >>= fun x => .ret (g x.1, x.2)) (fuel : Nat) (self : δ) :
    readWhile more read' fuel self =
      ((readWhile more read fuel self).1.map g, (readWhile more read fuel self).2) := by
  induction fuel generalizing self with
  | zero => rfl
  | succ fuel ih =>
    rw [readWhile, readWhile, h self]
    cases more self with
    | false => rfl
    | true =>
      rw [if_pos rfl, if_pos rfl]
      cases read self with
      | ret x =>
        rw [Outcome.ret_bind]
        dsimp only
        rw [ih, List.map_cons]
      | panic e => rfl
      | diverge => rfl

/-- What a drained decoder gives depends on its permissions in the permissions only. -/
theorem drainedBy_permission (f : UInt32 → UInt8) (data : List UInt8) :
    drainedBy f data = { drainedBy kindBits data with
      translates := (drainedBy kindBits data).translates.map
        (IPCTranslateParameter.mapPermission fun k => f k.toUInt32) } := by
  unfold drainedBy drain
  split
  · dsimp only
    split
    · rw [readWhile_map (readTranslate_permission f)]
    · rfl
    · rfl
  · rfl
  · rfl

/-! ## Where a decoder stops -/

section Stop

variable {data : List UInt8} {i n t : Nat}

theorem readTranslateWord_eq_ret {w : UInt32} {r : ParameterReader} (ht : t < 256)
    (h : (readerAt data i n t).readTranslateWord = .ret (w, r)) :
    ∃ t', t = t' + 1 ∧ 4 * i + 4 ≤ data.length ∧ w = wordAt data i ∧
      r = readerAt data (i + 1) n t' := by
  cases t with
  | zero =>
    unfold ParameterReader.readTranslateWord at h
    obtain ⟨u, hu, _⟩ := Outcome.bind_eq_ret.mp h
    have hnone : ¬ decide (UInt8.ofNat 0 > 0) = true := by decide
    exact absurd (Outcome.assert_eq_ret.mp hu) hnone
  | succ t =>
    by_cases hle : 4 * i + 4 ≤ data.length
    · rw [readTranslateWord_at n hle ht] at h
      injection h with h
      obtain ⟨rfl, rfl⟩ := Prod.mk.inj h
      exact ⟨t, rfl, hle, rfl, rfl⟩
    · unfold ParameterReader.readTranslateWord readerAt at h
      obtain ⟨u, _, h⟩ := Outcome.bind_eq_ret.mp h
      dsimp only at h
      rw [Cursor.readU32_past (by omega)] at h
      cases h

theorem readTranslateHandle_eq_ret {handle : Option Handle} {r : ParameterReader} (ht : t < 256)
    (h : (readerAt data i n t).readTranslateHandle = .ret (handle, r)) :
    ∃ t', t = t' + 1 ∧ 4 * i + 4 ≤ data.length ∧ handle = Handle.fromRaw (wordAt data i) ∧
      r = readerAt data (i + 1) n t' := by
  unfold ParameterReader.readTranslateHandle at h
  obtain ⟨⟨w, r'⟩, hw, h⟩ := Outcome.bind_eq_ret.mp h
  obtain ⟨t', rfl, hle, rfl, rfl⟩ := readTranslateWord_eq_ret ht hw
  injection h with h
  obtain ⟨rfl, rfl⟩ := Prod.mk.inj h
  exact ⟨t', rfl, hle, rfl, rfl⟩

theorem readHandles_eq_ret {callingProcess : Bool} {k : Nat} {handles : List (Option Handle)}
    {r : ParameterReader} (ht : t < 256)
    (h : ParameterReader.readHandles callingProcess k (readerAt data i n t) = .ret (handles, r)) :
    ∃ t', t = k + t' ∧ (0 < k → 4 * (i + k) ≤ data.length) ∧
      handles = (wordsFrom data i k).map (fun w => readAs callingProcess (Handle.fromRaw w)) ∧
      r = readerAt data (i + k) n t' := by
  induction k generalizing i t handles r with
  | zero =>
    injection h with h
    obtain ⟨rfl, rfl⟩ := Prod.mk.inj h
    exact ⟨t, by omega, by omega, rfl, rfl⟩
  | succ k ih =>
    unfold ParameterReader.readHandles at h
    obtain ⟨⟨handle, r1⟩, hhandle, h⟩ := Outcome.bind_eq_ret.mp h
    obtain ⟨⟨rest, r2⟩, hrest, h⟩ := Outcome.bind_eq_ret.mp h
    obtain ⟨t1, rfl, hle, rfl, rfl⟩ := readTranslateHandle_eq_ret ht hhandle
    obtain ⟨t2, rfl, hle', rfl, rfl⟩ := ih (by omega) hrest
    injection h with h
    obtain ⟨rfl, rfl⟩ := Prod.mk.inj h
    refine ⟨t2, by omega, fun _ => ?_, ?_, ?_⟩
    · rcases Nat.eq_zero_or_pos k with rfl | hk
      · omega
      · have := hle' hk
        omega
    · rw [wordsFrom_succ, List.map_cons]
      rfl
    · rw [Nat.add_assoc, Nat.add_comm 1 k]

theorem wordsFrom_add (data : List UInt8) (i k m : Nat) :
    wordsFrom data i (k + m) = wordsFrom data i k ++ wordsFrom data (i + k) m := by
  induction k generalizing i with
  | zero => simp [wordsFrom]
  | succ k ih =>
    have hi : i + 1 + k = i + (k + 1) := by omega
    rw [show k + 1 + m = k + m + 1 by omega, wordsFrom_succ, ih, wordsFrom_succ, hi,
      List.cons_append]

theorem readU32_ne_diverge (self : Cursor) : self.readU32 ≠ .diverge := by
  unfold Cursor.readU32
  split
  · simp
  · simp

theorem readTranslateWord_ne_diverge (self : ParameterReader) :
    self.readTranslateWord ≠ .diverge := by
  unfold ParameterReader.readTranslateWord
  refine Outcome.bind_ne_diverge (Outcome.assert_ne_diverge _ _) fun _ => ?_
  exact Outcome.bind_ne_diverge (readU32_ne_diverge _) fun x => Outcome.ret_ne_diverge _

theorem readTranslateHandle_ne_diverge (self : ParameterReader) :
    self.readTranslateHandle ≠ .diverge := by
  unfold ParameterReader.readTranslateHandle
  exact Outcome.bind_ne_diverge (readTranslateWord_ne_diverge self) fun x =>
    Outcome.ret_ne_diverge _

theorem readHandles_ne_diverge (callingProcess : Bool) (k : Nat) (self : ParameterReader) :
    self.readHandles callingProcess k ≠ .diverge := by
  induction k generalizing self with
  | zero => exact Outcome.ret_ne_diverge _
  | succ k ih =>
    unfold ParameterReader.readHandles
    refine Outcome.bind_ne_diverge (readTranslateHandle_ne_diverge self) fun x => ?_
    exact Outcome.bind_ne_diverge (ih x.2) fun y => Outcome.ret_ne_diverge _

theorem readTranslate_ne_diverge (f : UInt32 → UInt8) (self : ParameterReader) :
    self.readTranslate f ≠ .diverge := by
  unfold ParameterReader.readTranslate
  refine Outcome.bind_ne_diverge (Outcome.assert_ne_diverge _ _) fun _ => ?_
  refine Outcome.bind_ne_diverge (readTranslateWord_ne_diverge self) fun x => ?_
  dsimp only
  split
  · split
    · exact Outcome.bind_ne_diverge (readTranslateHandle_ne_diverge _) fun y =>
        Outcome.ret_ne_diverge _
    · exact Outcome.bind_ne_diverge (readHandles_ne_diverge _ _ _) fun y =>
        Outcome.ret_ne_diverge _
  · split
    · exact Outcome.bind_ne_diverge (readTranslateWord_ne_diverge _) fun y =>
        Outcome.ret_ne_diverge _
    · exact Outcome.bind_ne_diverge (readTranslateWord_ne_diverge _) fun y =>
        Outcome.ret_ne_diverge _

/-- A read that returns took a parameter of the grammar off the words. -/
theorem readTranslate_eq_ret {f : UInt32 → UInt8} {p : IPCTranslateParameter}
    {r : ParameterReader} (ht : t < 256)
    (h : (readerAt data i 0 t).readTranslate f = .ret (p, r)) :
    ∃ j t', r = readerAt data j 0 t' ∧ t' < t ∧ j + t' = i + t ∧ 4 * j ≤ data.length ∧
      parseGroup f (wordsFrom data i t) = some (p, wordsFrom data j t') := by
  unfold ParameterReader.readTranslate at h
  obtain ⟨_, _, h⟩ := Outcome.bind_eq_ret.mp h
  obtain ⟨⟨d, r1⟩, hd, h⟩ := Outcome.bind_eq_ret.mp h
  obtain ⟨t1, rfl, hle, rfl, rfl⟩ := readTranslateWord_eq_ret ht hd
  dsimp only at h
  rw [wordsFrom_succ, parseGroup]
  by_cases h0 : wordAt data i &&& 7 = 0
  · rw [if_pos h0] at h ⊢
    have hparse : ∀ k t2, t1 = k + t2 →
        ((wordAt data i &&& 0xFC000000) >>> 26).toNat + 1 = k →
        parseHandle (wordAt data i) (wordsFrom data (i + 1) t1) =
          some (.handle (decide (wordAt data i &&& 16 ≠ 0)) (decide (wordAt data i &&& 32 ≠ 0))
            (handlesOf ((wordsFrom data (i + 1) k).map fun w =>
              readAs (decide (wordAt data i &&& 32 ≠ 0)) (Handle.fromRaw w))),
            wordsFrom data (i + 1 + k) t2) := by
      intro k t2 ht1 hk
      have hlen : (wordsFrom data (i + 1) k).length = k := wordsFrom_length _ _ _
      unfold parseHandle
      rw [hk, ht1, wordsFrom_add]
      dsimp only
      rw [if_pos (by simp), List.take_left' hlen, List.drop_left' hlen]
    by_cases hc : (wordAt data i &&& 0xFC000000) >>> 26 = 0
    · rw [if_pos hc] at h
      obtain ⟨⟨handle, r2⟩, hhandle, h⟩ := Outcome.bind_eq_ret.mp h
      obtain ⟨t2, rfl, hle2, rfl, rfl⟩ := readTranslateHandle_eq_ret (by omega) hhandle
      injection h with h
      obtain ⟨rfl, rfl⟩ := Prod.mk.inj h
      refine ⟨i + 1 + 1, t2, rfl, by omega, by omega, by omega, ?_⟩
      rw [hparse 1 t2 (by omega) (by rw [hc]; rfl)]
      rfl
    · rw [if_neg hc] at h
      obtain ⟨⟨handles, r2⟩, hhandles, h⟩ := Outcome.bind_eq_ret.mp h
      obtain ⟨t2, hk, hle2, rfl, rfl⟩ := readHandles_eq_ret (by omega) hhandles
      injection h with h
      obtain ⟨rfl, rfl⟩ := Prod.mk.inj h
      have hle3 := hle2 (Nat.succ_pos _)
      refine ⟨_, t2, rfl, by omega, by omega, hle3, ?_⟩
      rw [hparse _ t2 hk rfl]
      -- a count other than zero makes more than one handle
      have hpos : ((wordAt data i &&& 0xFC000000) >>> 26).toNat ≠ 0 := fun hz =>
        hc (UInt32.toNat_inj.mp hz)
      obtain ⟨m, hm⟩ := Nat.exists_eq_succ_of_ne_zero hpos
      rw [hm, wordsFrom_succ, wordsFrom_succ]
      rfl
  · rw [if_neg h0] at h ⊢
    by_cases h1 : wordAt data i &&& 7 = 1
    · rw [if_pos h1] at h
      obtain ⟨⟨ptr, r2⟩, hptr, h⟩ := Outcome.bind_eq_ret.mp h
      obtain ⟨t2, rfl, hle2, rfl, rfl⟩ := readTranslateWord_eq_ret (by omega) hptr
      injection h with h
      obtain ⟨rfl, rfl⟩ := Prod.mk.inj h
      refine ⟨i + 1 + 1, t2, rfl, by omega, by omega, by omega, ?_⟩
      rw [wordsFrom_succ, parseBuffer, if_pos h1]
    · rw [if_neg h1] at h
      obtain ⟨⟨ptr, r2⟩, hptr, h⟩ := Outcome.bind_eq_ret.mp h
      obtain ⟨t2, rfl, hle2, rfl, rfl⟩ := readTranslateWord_eq_ret (by omega) hptr
      injection h with h
      obtain ⟨rfl, rfl⟩ := Prod.mk.inj h
      refine ⟨i + 1 + 1, t2, rfl, by omega, by omega, by omega, ?_⟩
      rw [wordsFrom_succ, parseBuffer, if_neg h1]

/-- There are translate words left. -/
def hasWords (self : ParameterReader) : Bool := decide (self.translateParameterWords > 0)

theorem hasWords_at (ht : t < 256) : hasWords (readerAt data i n t) = decide (0 < t) := by
  unfold hasWords readerAt
  cases t with
  | zero => rfl
  | succ t => rw [decide_eq_true (ofNat_succ_pos ht), decide_eq_true (Nat.succ_pos t)]

/-- A complete list of parameters is read to its end. -/
theorem readWhile_of_parse {f : UInt32 → UInt8} {ps : List IPCTranslateParameter} {fuel : Nat}
    (ht : t < 256) (hf : t < fuel) (hle : 4 * (i + t) ≤ data.length)
    (h : parseGroups f (wordsFrom data i t) = some ps) :
    readWhile hasWords (ParameterReader.readTranslate f) fuel (readerAt data i 0 t) =
      (ps, .ret (readerAt data (i + t) 0 0)) := by
  induction fuel generalizing i t ps with
  | zero => omega
  | succ fuel ih =>
    rw [readWhile, hasWords_at ht]
    cases t with
    | zero =>
      have hnil : wordsFrom data i 0 = [] := rfl
      rw [hnil, parseGroups, Option.some.injEq] at h
      rw [← h]
      rfl
    | succ t =>
      rw [if_pos (by simp)]
      cases hg : parseGroup f (wordsFrom data i (t + 1)) with
      | none =>
        rw [wordsFrom_succ] at h hg
        rw [parseGroups] at h
        split at h
        · cases h
        · rename_i hs
          rw [hg] at hs
          cases hs
      | some pr =>
        obtain ⟨p, rest⟩ := pr
        rw [parseGroups_of_group hg] at h
        obtain ⟨qs, hqs, rfl⟩ := Option.map_eq_some_iff.mp h
        obtain ⟨j, hread, _, _⟩ := readTranslate_at (holds_wordsFrom hle)
          (by rw [wordsFrom_length]; exact ht) hg
        rw [wordsFrom_length] at hread
        obtain ⟨j', t', hr, hlt, hsum, hjle, hg'⟩ := readTranslate_eq_ret ht hread
        rw [hg] at hg'
        injection hg' with hg'
        obtain ⟨_, rfl⟩ := Prod.mk.inj hg'
        rw [hread, hr]
        dsimp only
        rw [ih (by omega) (by omega) (by omega) hqs, hsum]

/-- A list of parameters that is cut off ends in a panic. -/
theorem readWhile_panics_or_parses {f : UInt32 → UInt8} {fuel : Nat} (ht : t < 256)
    (hf : t < fuel) (hle : 4 * i ≤ data.length) :
    (∃ e, (readWhile hasWords (ParameterReader.readTranslate f) fuel (readerAt data i 0 t)).2 =
        .panic e) ∨
      4 * (i + t) ≤ data.length ∧ ∃ ps, parseGroups f (wordsFrom data i t) = some ps := by
  induction fuel generalizing i t with
  | zero => omega
  | succ fuel ih =>
    rw [readWhile, hasWords_at ht]
    cases t with
    | zero => exact Or.inr ⟨hle, [], by rw [wordsFrom, List.range_zero, List.map_nil, parseGroups]⟩
    | succ t =>
      rw [if_pos (by simp)]
      cases hread : (readerAt data i 0 (t + 1)).readTranslate f with
      | panic e => exact Or.inl ⟨e, rfl⟩
      | diverge => exact absurd hread (readTranslate_ne_diverge f _)
      | ret x =>
        obtain ⟨p, r⟩ := x
        obtain ⟨j, t', rfl, hlt, hsum, hjle, hg⟩ := readTranslate_eq_ret ht hread
        dsimp only
        rcases ih (by omega : t' < 256) (by omega) hjle with hpanic | ⟨hle', ps, hps⟩
        · exact Or.inl hpanic
        · refine Or.inr ⟨by omega, p :: ps, ?_⟩
          rw [parseGroups_of_group hg, hps]
          rfl

theorem readTimes_at (hn : n < 256) (hle : 4 * (i + n) ≤ data.length) :
    readTimes ParameterReader.readNormal n (readerAt data i n t) =
      (wordsFrom data i n, .ret (readerAt data (i + n) 0 t)) := by
  induction n generalizing i with
  | zero => rfl
  | succ n ih =>
    have hpos : i + (n + 1) = i + 1 + n := by omega
    rw [readTimes, readNormal_at t (by omega) hn]
    dsimp only
    rw [ih (by omega) (by omega), wordsFrom_succ, hpos]

end Stop

/-! ## Agreement -/

/-- The header of a message: its first word. -/
def headerOf (data : List UInt8) : IPCHeaderCode := IPCHeaderCode.ofWord (wordAt data 0)

/-- The words of the translate parameters. -/
def translateWords (data : List UInt8) : List UInt32 :=
  wordsFrom data (1 + (headerOf data).normalParameterCount.toNat)
    (headerOf data).translateParameterSize.toNat

/-- The translate words lie in the buffer, and the last parameter is not cut off. -/
def Complete (data : List UInt8) : Prop :=
  4 * (1 + (headerOf data).normalParameterCount.toNat +
      (headerOf data).translateParameterSize.toNat) ≤ data.length ∧
    ∃ ps, parseGroups kindBits (translateWords data) = some ps

/-- In a complete message every buffer mapping has the kind bits on which the masks agree. -/
def MappingsAgree (data : List UInt8) : Prop :=
  Complete data → ∀ ps, parseGroups kindBits (translateWords data) = some ps →
    ∀ k size ptr, .bufferMapping k size ptr ∈ ps → k = 7

theorem field_lt_64 (x : UInt32) (k : Nat) :
    ((x.toNat &&& ((2 ^ 6 - 1) <<< k)) >>> k) % 256 < 64 := by
  rw [field_eq]
  omega

theorem headerOf_lt (data : List UInt8) :
    (headerOf data).normalParameterCount.toNat < 64 ∧
      (headerOf data).translateParameterSize.toNat < 64 := by
  unfold headerOf IPCHeaderCode.ofWord
  constructor
  · simp only [UInt32.toNat_toUInt8, UInt32.toNat_shiftRight, UInt32.toNat_and]
    exact field_lt_64 (wordAt data 0) 6
  · simp only [UInt32.toNat_toUInt8, UInt32.toNat_and]
    exact field_lt_64 (wordAt data 0) 0

theorem drain_at (f : UInt32 → UInt8) {data : List UInt8} {i n t : Nat} (hn : n < 256)
    (ht : t < 256) (hle : 4 * (i + n) ≤ data.length) :
    drain (.ret (readerAt data i n t)) id ParameterReader.readNormal
        (ParameterReader.readTranslate f) =
      { normals := wordsFrom data i n
        translates := (readWhile hasWords (ParameterReader.readTranslate f) (t + 1)
          (readerAt data (i + n) 0 t)).1
        stop := (readWhile hasWords (ParameterReader.readTranslate f) (t + 1)
          (readerAt data (i + n) 0 t)).2 >>= fun _ => .ret () } := by
  have hcount : (readerAt data i n t).normalParameterCount.toNat = n := ofNat_toNat_of_lt hn
  have hwords : (readerAt data (i + n) 0 t).translateParameterWords.toNat = t :=
    ofNat_toNat_of_lt ht
  unfold drain
  dsimp only [id]
  rw [hcount, readTimes_at hn hle]
  dsimp only
  rw [hwords]
  rfl

/-- The translate parameters, drained from behind the normal ones. -/
def drainWords (f : UInt32 → UInt8) (data : List UInt8) :
    List IPCTranslateParameter × Exec ParameterReader :=
  readWhile hasWords (ParameterReader.readTranslate f)
    ((headerOf data).translateParameterSize.toNat + 1)
    (readerAt data (1 + (headerOf data).normalParameterCount.toNat) 0
      (headerOf data).translateParameterSize.toNat)

/-- What a drained decoder gives for a buffer of 256 bytes. -/
theorem drainedBy_eq (f : UInt32 → UInt8) {data : List UInt8} (hdata : data.length = 256) :
    drainedBy f data =
      { normals := wordsFrom data 1 (headerOf data).normalParameterCount.toNat
        translates := (drainWords f data).1
        stop := (drainWords f data).2 >>= fun _ => .ret () } := by
  obtain ⟨hn, ht⟩ := headerOf_lt data
  have h0 : 4 * 0 + 4 ≤ data.length := by omega
  have hread : (Cursor.new data).readU32 = .ret (wordAt data 0, ⟨data, 4 * 1⟩) :=
    Cursor.readU32_word h0
  have hat : (⟨⟨data, 4 * 1⟩, (headerOf data).normalParameterCount,
      (headerOf data).translateParameterSize⟩ : ParameterReader) =
      readerAt data 1 (headerOf data).normalParameterCount.toNat
        (headerOf data).translateParameterSize.toNat := by
    unfold readerAt
    rw [UInt8.ofNat_toNat, UInt8.ofNat_toNat]
  have hdrain := drain_at f (i := 1) (show (headerOf data).normalParameterCount.toNat < 256 by omega)
    (show (headerOf data).translateParameterSize.toNat < 256 by omega)
    (show 4 * (1 + (headerOf data).normalParameterCount.toNat) ≤ data.length by omega)
  unfold drainedBy
  rw [hread, Outcome.ret_bind]
  rw [← hat] at hdrain
  exact hdrain

/-- A decoder comes to the end of a complete message, with the parameters of the grammar. -/
theorem drained_of_complete {data : List UInt8} (hdata : data.length = 256) (h : Complete data)
    {ps : List IPCTranslateParameter} (hps : parseGroups kindBits (translateWords data) = some ps) :
    (drainedBy kindBits data).stop = .ret () ∧ (drainedBy kindBits data).translates = ps := by
  have ht : (headerOf data).translateParameterSize.toNat < 256 := by
    have := (headerOf_lt data).2
    omega
  have hwords : drainWords kindBits data = _ :=
    readWhile_of_parse ht (Nat.lt_succ_self _) h.1 hps
  rw [drainedBy_eq kindBits hdata, hwords]
  exact ⟨rfl, rfl⟩

/-- It panics on a message that is cut off. -/
theorem drained_of_not_complete {data : List UInt8} (hdata : data.length = 256)
    (h : ¬ Complete data) : ∃ e, (drainedBy kindBits data).stop = .panic e := by
  obtain ⟨hn, ht⟩ := headerOf_lt data
  have hstop : (∃ e, (drainWords kindBits data).2 = .panic e) ∨ Complete data :=
    readWhile_panics_or_parses (by omega) (Nat.lt_succ_self _) (by omega)
  rcases hstop with ⟨e, he⟩ | hc
  · refine ⟨e, ?_⟩
    rw [drainedBy_eq kindBits hdata, he]
    rfl
  · exact absurd hc h

/-- The permission of a parsed buffer mapping holds the kind bits of its descriptor. -/
theorem parseGroup_mapping {ws rest : List UInt32} {k : UInt8} {size ptr : UInt32}
    (h : parseGroup kindBits ws = some (.bufferMapping k size ptr, rest)) :
    ∃ d, d &&& 7 ≠ 0 ∧ d &&& 7 ≠ 1 ∧ k = kindBits (d &&& 7) := by
  cases ws with
  | nil => cases h
  | cons d ws =>
    rw [parseGroup] at h
    by_cases h0 : d &&& 7 = 0
    · rw [if_pos h0] at h
      obtain ⟨_, _, _, hp⟩ := parseHandle_eq_some h
      cases hp
    · rw [if_neg h0] at h
      cases ws with
      | nil => cases h
      | cons w ws =>
        injection h with h
        have hp := (Prod.mk.inj h).1
        by_cases h1 : d &&& 7 = 1
        · rw [if_pos h1] at hp
          cases hp
        · rw [if_neg h1] at hp
          injection hp with hk
          exact ⟨d, h0, h1, hk.symm⟩

theorem parseGroups_mapping {ws : List UInt32} {ps : List IPCTranslateParameter} {k : UInt8}
    {size ptr : UInt32} (h : parseGroups kindBits ws = some ps)
    (hm : .bufferMapping k size ptr ∈ ps) :
    ∃ d, d &&& 7 ≠ 0 ∧ d &&& 7 ≠ 1 ∧ k = kindBits (d &&& 7) := by
  induction ps generalizing ws with
  | nil => simp at hm
  | cons p ps ih =>
    cases hg : parseGroup kindBits ws with
    | none =>
      cases ws with
      | nil =>
        rw [parseGroups] at h
        cases h
      | cons w ws =>
        rw [parseGroups] at h
        split at h
        · cases h
        · rename_i hs
          rw [hg] at hs
          cases hs
    | some pr =>
      obtain ⟨q, rest⟩ := pr
      rw [parseGroups_of_group hg] at h
      obtain ⟨qs, hqs, heq⟩ := Option.map_eq_some_iff.mp h
      injection heq with h1 h2
      subst h1
      subst h2
      rcases List.mem_cons.mp hm with h1 | h1
      · rw [← h1] at hg
        exact parseGroup_mapping hg
      · exact ih hqs h1

/-- **The two decoders.** On every buffer of 256 bytes `IPCRequest` and `IPCReader` agree
    exactly when the message is cut off, or all its buffer mappings have the kind bits 7. -/
theorem decodersAgree_iff (data : List UInt8) (hdata : data.length = 256) :
    DecodersAgree data ↔ MappingsAgree data := by
  have hreq := IPCRequest.drained_eq data
  have hread := IPCReader.drained_eq data
  rw [drainedBy_permission] at hreq hread
  unfold DecodersAgree MappingsAgree
  rw [hreq, hread]
  by_cases hc : Complete data
  · obtain ⟨ps, hps⟩ := hc.2
    obtain ⟨hstop, htrans⟩ := drained_of_complete hdata hc hps
    -- the parameters are the same exactly when the masks agree on every mapping
    have hmap : ps.map (IPCTranslateParameter.mapPermission fun k =>
          IPCRequest.permission k.toUInt32) =
        ps.map (IPCTranslateParameter.mapPermission fun k => IPCReader.permission k.toUInt32) ↔
        ∀ k size ptr, .bufferMapping k size ptr ∈ ps → k = 7 := by
      rw [List.map_inj_left]
      constructor
      · intro hall k size ptr hm
        obtain ⟨d, h0, h1, rfl⟩ := parseGroups_mapping hps hm
        have heq := hall _ hm
        simp only [IPCTranslateParameter.mapPermission, kindBits_back,
          IPCTranslateParameter.bufferMapping.injEq, and_true] at heq
        rw [(permission_eq_iff h0 h1).mp heq]
        rfl
      · intro hall p hp
        cases p with
        | handle _ _ _ => rfl
        | staticBuffer _ _ _ => rfl
        | bufferMapping k size ptr =>
          have hk := hall k size ptr hp
          rw [hk]
          rfl
    constructor
    · rintro (⟨_, heq⟩ | ⟨e, he, _⟩)
      · intro _ qs hqs
        rw [hps, Option.some.injEq] at hqs
        subst hqs
        simp only [Drained.mk.injEq, true_and, and_true, htrans] at heq
        exact hmap.mp heq
      · dsimp only at he
        rw [hstop] at he
        cases he
    · intro hall
      refine Or.inl ⟨hstop, ?_⟩
      have heq := hmap.mpr (hall hc ps hps)
      simp only [Drained.mk.injEq, true_and, and_true, htrans]
      exact heq
  · obtain ⟨e, he⟩ := drained_of_not_complete hdata hc
    constructor
    · intro _ hcomplete
      exact absurd hcomplete hc
    · intro _
      exact Or.inr ⟨e, he, he, rfl, by simp⟩

/-- Two translate words: a buffer mapping that may be read. -/
def readMapping : List UInt8 := [2, 0, 0, 0, 2, 0, 0, 0] ++ List.replicate 248 0

theorem readMapping_length : readMapping.length = 256 := by
  rw [readMapping, List.length_append, List.length_replicate]
  rfl

theorem decodersAgree_iff_readMapping :
    DecodersAgree readMapping ↔ MappingsAgree readMapping :=
  decodersAgree_iff readMapping readMapping_length

set_option maxRecDepth 8192 in
/-- `IPCRequest` takes the permission 2 where `IPCReader` takes 1. -/
theorem decodersAgree_fails :
    ¬ ∀ data : List UInt8, data.length = 256 → DecodersAgree data := by
  intro hall
  have hreq : IPCRequest.drained readMapping = ⟨[], [.bufferMapping 2 0 0], .ret ()⟩ := by
    rfl
  have hread : IPCReader.drained readMapping = ⟨[], [.bufferMapping 1 0 0], .ret ()⟩ := by
    rfl
  rcases hall readMapping readMapping_length with ⟨_, heq⟩ | ⟨e, he, _⟩
  · rw [hreq, hread] at heq
    exact absurd heq (by decide)
  · rw [hreq] at he
    cases he

end Pomelo
