/-
  Lookups of `srv:` with arbitrary lengths.

  The length of a name comes from the client as a whole word, and the manager keeps and compares
  its low byte alone. A low byte above eight that a registration and a lookup share makes
  `find_service` slice the eight bytes of a name out of range, and two lengths with one low byte
  are taken for one another (`findIdx_alike`). So a lookup is right exactly when it is safe
  (`lookupRight_iff`): no registration has such a low byte in common with it, and whatever it
  collides with comes behind a registration that it is meant for.
-/
import Pomelo.Hle.SrvNames
import Pomelo.Lib.Keyed

namespace Pomelo

open Lib

/-! ## Requests of any client -/

/-- A request for a name: the parameters are any four words. -/
inductive NamedRequest where
  | register (w : NameWords)
  | lookup (w : NameWords)
deriving DecidableEq

namespace NamedRequest

/-- The manager reads the request from its slot. -/
def Arrives : NamedRequest → List UInt8 → Prop
  | register w, data => HoldsRequest 3 w data
  | lookup w, data => HoldsRequest 5 w data

def registers : NamedRequest → List NameWords
  | register w => [w]
  | lookup _ => []

end NamedRequest

/-- The manager, with the parameters of the registrations it has handled, in their order. -/
structure ServiceRegistry where
  srv : SrvContext
  registered : List NameWords
  running : Bool

/-- The manager handles one request after the other, until one panics. -/
def requestsOf (rng : Nat → UInt32) : System ServiceRegistry NamedRequest where
  init s := s.srv = SrvContext.new ∧ s.registered = [] ∧ s.running = true
  step s request s' := s.running = true ∧ ∃ data fuel k, request.Arrives data ∧
    ((∃ k' handled, s.srv.handleIpc rng fuel data k = .ret (s'.srv, k', handled) ∧
        s'.registered = s.registered ++ request.registers ∧ s'.running = true) ∨
      (∃ e, s.srv.handleIpc rng fuel data k = .panic e ∧ s' = { s with running := false }))

/-- The services are those of the registrations, in order. -/
def ServiceRegistry.Kept (s : ServiceRegistry) : Prop :=
  s.srv.services.map (fun service => (service.name, service.nameLen)) =
    s.registered.map fun w => (w.name, w.length.toUInt8)

theorem kept_step {rng : Nat → UInt32} {s s' : ServiceRegistry} {request : NamedRequest}
    (h : s.Kept) (hstep : (requestsOf rng).step s request s') : s'.Kept := by
  obtain ⟨-, data, fuel, k, harrives, ⟨k', handled, hret, hregistered, -⟩ | ⟨e, -, rfl⟩⟩ := hstep
  · unfold ServiceRegistry.Kept at h ⊢
    cases request with
    | register w =>
      have hdata : HoldsRequest 3 w data := harrives
      rw [handleIpc_register hdata] at hret
      obtain ⟨clientPort, hsrv⟩ := handleRegister_eq_ret hdata hret
      rw [hsrv, hregistered]
      unfold SrvContext.registerService NamedRequest.registers
      rw [List.map_append, List.map_append, h]
      rfl
    | lookup w =>
      have hdata : HoldsRequest 5 w data := harrives
      rw [handleIpc_get hdata] at hret
      obtain ⟨hsrv, -⟩ := handleGet_eq_ret hret
      rw [hsrv, hregistered]
      unfold NamedRequest.registers
      rw [List.append_nil]
      exact h
  · exact h

theorem kept_init {rng : Nat → UInt32} {s : ServiceRegistry} (h : (requestsOf rng).init s) :
    s.Kept := by
  obtain ⟨hsrv, hregistered, -⟩ := h
  unfold ServiceRegistry.Kept
  rw [hsrv, hregistered]
  rfl

theorem ServiceRegistry.kept {rng : Nat → UInt32} {tr : List (ServiceRegistry × NamedRequest)}
    {s : ServiceRegistry} (h : Run (requestsOf rng) tr s) : s.Kept :=
  h.invariant (fun _ hs => kept_init hs) fun _ _ _ hs hstep => kept_step hs hstep

/-! ## What a lookup finds -/

/-- The low byte of the length: what the manager keeps of it. -/
def NameWords.lowByte (w : NameWords) : UInt8 := w.length.toUInt8

/-- The manager cannot tell the registration from one of the name it looks for: the low bytes of
    the lengths are equal, and the names up to them. -/
def Alike (r w : NameWords) : Prop :=
  r.lowByte = w.lowByte ∧
    r.name.val.take w.lowByte.toNat = w.name.val.take w.lowByte.toNat

instance (r w : NameWords) : Decidable (Alike r w) := inferInstanceAs (Decidable (_ ∧ _))

/-- A lookup is right: it ends without an index out of range, and a service that it finds was
    registered with the length it was looked up with. -/
def LookupRight (s : ServiceRegistry) (w : NameWords) : Prop :=
  ∀ data, HoldsRequest 5 w data → ∃ found, s.srv.lookupName data = .ret found ∧
    ∀ i, found = some i → ∃ r, s.registered[i]? = some r ∧ r.length = w.length

/-- A lookup is safe: a low byte above eight is that of no registration, and a registration
    alike with another length comes behind one alike with the same length. -/
def LookupSafe (registered : List NameWords) (w : NameWords) : Prop :=
  (8 < w.lowByte.toNat → ∀ r ∈ registered, r.lowByte ≠ w.lowByte) ∧
    ∀ (i : Nat) (r : NameWords), registered[i]? = some r → Alike r w → r.length ≠ w.length →
      ∃ j < i, ∃ r', registered[j]? = some r' ∧ Alike r' w ∧ r'.length = w.length

section Lookup

variable {s : ServiceRegistry} {w : NameWords} {data : List UInt8}

/-- The first service of a name is at the position of the first registration alike. -/
theorem findIdx_alike (h : s.Kept) (w : NameWords) :
    s.srv.services.findIdx? (fun service => service.named w.name w.lowByte) =
      s.registered.findIdx? fun r => Alike r w := by
  let test : RawName × UInt8 → Bool := fun p => p.2 = w.lowByte ∧
    p.1.val.take w.lowByte.toNat = w.name.val.take w.lowByte.toNat
  calc s.srv.services.findIdx? (fun service => service.named w.name w.lowByte)
      = (s.srv.services.map fun service => (service.name, service.nameLen)).findIdx? test := by
        rw [List.findIdx?_map]
        rfl
    _ = (s.registered.map fun w => (w.name, w.length.toUInt8)).findIdx? test := by rw [h]
    _ = s.registered.findIdx? fun r => Alike r w := by
        rw [List.findIdx?_map]
        rfl

theorem mem_lowByte (h : s.Kept) {b : UInt8} :
    (∃ service ∈ s.srv.services, service.nameLen = b) ↔ ∃ r ∈ s.registered, r.lowByte = b := by
  have hmap := congrArg (List.map Prod.snd) h
  rw [List.map_map, List.map_map] at hmap
  have hmem := congrArg (fun bytes => b ∈ bytes) hmap
  simpa [NameWords.lowByte] using hmem

theorem lookup_of_le (h : s.Kept) (hdata : HoldsRequest 5 w data) (hle : w.lowByte.toNat ≤ 8) :
    s.srv.lookupName data = .ret (s.registered.findIdx? fun r => Alike r w) := by
  rw [lookupName_eq hdata]
  unfold SrvContext.findService
  rw [← findIdx_alike h w]
  exact (findNamed_of_le hle 0).trans (by simp [NameWords.lowByte])

theorem lookup_of_gt (h : s.Kept) (hdata : HoldsRequest 5 w data) (hgt : 8 < w.lowByte.toNat) :
    s.srv.lookupName data =
      if ∃ r ∈ s.registered, r.lowByte = w.lowByte then .panic .sliceIndex else .ret none := by
  rw [lookupName_eq hdata]
  unfold SrvContext.findService
  split
  · rename_i hmem
    exact findNamed_panics hgt ((mem_lowByte h).mpr hmem) 0
  · rename_i hmem
    refine findNamed_of_ne (fun service hservice heq => hmem ?_) 0
    exact (mem_lowByte h).mp ⟨service, hservice, heq⟩

theorem exists_holdsRequest (commandId : UInt16) (w : NameWords) :
    ∃ data, HoldsRequest commandId w data :=
  ⟨_, holdsRequest_messageBytes commandId w (List.length_replicate (a := (0 : UInt8)))⟩

/-- A lookup is right exactly when it is safe. -/
theorem lookupRight_iff (h : s.Kept) : LookupRight s w ↔ LookupSafe s.registered w := by
  obtain ⟨data₀, hdata₀⟩ := exists_holdsRequest 5 w
  rcases Nat.lt_or_ge 8 w.lowByte.toNat with hgt | hle
  · constructor
    · intro hright
      obtain ⟨found, hfound, -⟩ := hright data₀ hdata₀
      have hnone : ∀ r ∈ s.registered, r.lowByte ≠ w.lowByte := by
        intro r hr heq
        rw [lookup_of_gt h hdata₀ hgt, if_pos ⟨r, hr, heq⟩] at hfound
        cases hfound
      refine ⟨fun _ => hnone, fun i r hr halike _ => ?_⟩
      exact absurd halike.1 (hnone r (List.mem_of_getElem? hr))
    · rintro ⟨hnone, -⟩ data hdata
      refine ⟨none, ?_, fun i hi => by cases hi⟩
      rw [lookup_of_gt h hdata hgt, if_neg]
      rintro ⟨r, hr, heq⟩
      exact hnone hgt r hr heq
  · have hfirst := @first_iff _ (fun r => decide (Alike r w)) (fun r => r.length = w.length)
      s.registered
    simp only [decide_eq_true_eq] at hfirst
    constructor
    · intro hright
      refine ⟨fun hgt => absurd hle (Nat.not_le.mpr hgt), hfirst.mp fun i hi => ?_⟩
      obtain ⟨found, hfound, hlength⟩ := hright data₀ hdata₀
      rw [lookup_of_le h hdata₀ hle] at hfound
      rw [← Outcome.ret.inj hfound] at hlength
      exact hlength i hi
    · rintro ⟨-, hsafe⟩ data hdata
      exact ⟨_, lookup_of_le h hdata hle, hfirst.mpr hsafe⟩

end Lookup

/-! ## Any requests -/

def RequestRight (s : ServiceRegistry) : NamedRequest → Prop
  | .register _ => True
  | .lookup w => LookupRight s w

def RequestSafe (s : ServiceRegistry) : NamedRequest → Prop
  | .register _ => True
  | .lookup w => LookupSafe s.registered w

/-- **The lookups of a run are right exactly when they are safe**, whatever the requests. -/
theorem requestsRight_iff {rng : Nat → UInt32} {tr : List (ServiceRegistry × NamedRequest)}
    {s : ServiceRegistry} (h : Run (requestsOf rng) tr s) :
    EveryStep RequestRight tr ↔ EveryStep RequestSafe tr := by
  refine h.everyStep_iff (fun _ hs => kept_init hs) (fun _ _ _ hs hstep => kept_step hs hstep) ?_
  intro s request hs
  cases request with
  | register w => exact Iff.rfl
  | lookup w => exact lookupRight_iff hs

section Steps

variable {rng : Nat → UInt32} {s : ServiceRegistry} {w : NameWords}

/-- With a generator that counts, a registration is handled. -/
theorem register_step (hrun : s.running = true) (w : NameWords) :
    ∃ srv, (requestsOf UInt32.ofNat).step s (.register w) ⟨srv, s.registered ++ [w], true⟩ := by
  obtain ⟨data, hdata⟩ := exists_holdsRequest 3 w
  obtain ⟨server, client, k₁, k₂, hserver, hclient⟩ := slotKernel_handles []
  obtain ⟨reply, hret⟩ := @handleRegister_of_handles _ w data UInt32.ofNat 2 s.srv
    (slotKernel []) hdata _ _ _ _ hserver hclient
  rw [← handleIpc_register hdata] at hret
  exact ⟨_, hrun, data, 2, _, hdata, Or.inl ⟨_, _, hret, rfl, rfl⟩⟩

/-- A lookup that finds a service is handled. -/
theorem lookup_step (h : s.Kept) (hrun : s.running = true) (hle : w.lowByte.toNat ≤ 8)
    (hfound : ∃ r ∈ s.registered, Alike r w) : (requestsOf rng).step s (.lookup w) s := by
  obtain ⟨data, hdata⟩ := exists_holdsRequest 5 w
  have hfind := findIdx_alike h w
  cases hi : s.registered.findIdx? fun r => Alike r w with
  | none =>
    obtain ⟨r, hr, halike⟩ := hfound
    have hnot := List.findIdx?_eq_none_iff.mp hi r hr
    exact absurd halike (of_decide_eq_false hnot)
  | some i =>
    rw [hi] at hfind
    obtain ⟨hlt, -⟩ := List.findIdx?_eq_some_iff_getElem.mp hfind
    have hret : s.srv.handleIpc rng 0 data Kernel.new =
        .ret (s.srv, Kernel.new, .connects s.srv.services[i].clientPort) := by
      rw [handleIpc_get hdata]
      unfold SrvContext.handleGet
      rw [lookup_of_le h hdata hle, Outcome.ret_bind, hi, Option.bind_some,
        List.getElem?_eq_getElem hlt]
      rfl
    exact ⟨hrun, data, 0, Kernel.new, hdata,
      Or.inl ⟨_, _, hret, (List.append_nil _).symm, hrun⟩⟩

/-- A lookup that shares a low byte above eight stops the manager. -/
theorem lookup_stops (h : s.Kept) (hrun : s.running = true) (hgt : 8 < w.lowByte.toNat)
    (hshared : ∃ r ∈ s.registered, r.lowByte = w.lowByte) :
    (requestsOf rng).step s (.lookup w) { s with running := false } := by
  obtain ⟨data, hdata⟩ := exists_holdsRequest 5 w
  refine ⟨hrun, data, 0, Kernel.new, hdata, Or.inr ⟨.sliceIndex, ?_, rfl⟩⟩
  rw [handleIpc_get hdata]
  unfold SrvContext.handleGet
  rw [lookup_of_gt h hdata hgt, if_pos hshared]
  rfl

end Steps

/-- A run that registers one service. -/
theorem exists_register (w : NameWords) : ∃ srv,
    Run (requestsOf UInt32.ofNat) [(⟨SrvContext.new, [], true⟩, .register w)] ⟨srv, [w], true⟩ := by
  have hstart : Run (requestsOf UInt32.ofNat) [] ⟨SrvContext.new, [], true⟩ :=
    .start ⟨rfl, rfl, rfl⟩
  obtain ⟨srv, hstep⟩ := @register_step ⟨SrvContext.new, [], true⟩ rfl w
  exact ⟨srv, hstart.next hstep⟩

theorem requestsRight_iff_three : ∃ tr s, Run (requestsOf UInt32.ofNat) tr s ∧
    tr.map Prod.snd = [.lookup ⟨0x767273, 0, 3, 0⟩, .register ⟨0x767273, 0, 3, 1⟩] ∧
    EveryStep RequestRight tr := by
  obtain ⟨srv, hrun⟩ := exists_register ⟨0x767273, 0, 3, 1⟩
  have hkept := ServiceRegistry.kept hrun
  have hlookup := hrun.next (@lookup_step UInt32.ofNat _ ⟨0x767273, 0, 3, 0⟩ hkept rfl (by decide)
    ⟨_, List.mem_singleton_self _, by decide⟩)
  refine ⟨_, _, hlookup, rfl, (requestsRight_iff hlookup).mpr ?_⟩
  refine everyStep_cons.mpr ⟨⟨fun hgt => absurd hgt (by decide), fun i r hr _ hne => ?_⟩,
    everyStep_cons.mpr ⟨trivial, everyStep_nil _⟩⟩
  exact absurd (congrArg NameWords.length (List.mem_singleton.mp (List.mem_of_getElem? hr))) hne

/-- A registration of length nine, and a lookup of length nine: the name is sliced out of
    range. -/
theorem requestsRight_fails : ¬ ∀ rng tr s, Run (requestsOf rng) tr s →
    EveryStep RequestRight tr := by
  intro hall
  obtain ⟨srv, hrun⟩ := exists_register ⟨0, 0, 9, 1⟩
  have hkept := ServiceRegistry.kept hrun
  have hstops := hrun.next (@lookup_stops UInt32.ofNat _ ⟨0, 0, 9, 0⟩ hkept rfl (by decide)
    ⟨_, List.mem_singleton_self _, by decide⟩)
  have hright : LookupRight _ _ := (everyStep_cons.mp (hall _ _ _ hstops)).1
  exact ((lookupRight_iff hkept).mp hright).1 (by decide) _ (List.mem_singleton_self _)
    (by decide)

end Pomelo
