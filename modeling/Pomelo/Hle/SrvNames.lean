/-
  Service names survive the protocol of `srv:`.

  A name of at most eight bytes goes out as two little-endian words of its zero-padded bytes and
  its length (`nameRequest_holds`), and `translate_ipc` carries the words over as they are
  (`Carries.holds`). The manager puts the same padded bytes together, so that a lookup compares
  the names themselves: equal lengths, and equal bytes up to them (`named_padded`). The padding
  cannot make two names one, since the lengths differ where the padding does.
-/
import Pomelo.Hle.Srv
import Pomelo.Kernel.TranslateMessage
import Pomelo.Lib.Run

namespace Pomelo

open Lib

/-! ## A name in two words -/

/-- The name in eight bytes. -/
def padded (name : List UInt8) : List UInt8 := name ++ List.replicate (8 - name.length) 0

theorem padded_length {name : List UInt8} (h : name.length ≤ 8) : (padded name).length = 8 := by
  simp [padded]
  omega

theorem take_padded (name : List UInt8) : (padded name).take name.length = name := by
  simp [padded]

/-- Four bytes are the little-endian bytes of their word. -/
theorem leBytes_ofNat {bytes : List UInt8} (h : bytes.length = 4) :
    leBytes 4 (UInt32.ofNat (leValue bytes)).toNat = bytes := by
  have hlt : leValue bytes < 2 ^ 32 := by
    have hbound := leValue_lt bytes
    rw [h] at hbound
    exact hbound
  have hle := leBytes_leValue bytes
  rw [h] at hle
  rw [UInt32.toNat_ofNat', Nat.mod_eq_of_lt hlt, hle]

theorem nameWords_padded {name : List UInt8} (h : name.length ≤ 8) : ∃ a b,
    SrvInterface.nameWords name = .ret (a, b) ∧ (RawName.ofWords a b).val = padded name := by
  have hlen := padded_length h
  refine ⟨_, _, if_neg (Nat.not_lt.mpr h), ?_⟩
  change leBytes 4 (UInt32.ofNat (leValue ((padded name).take 4))).toNat ++
    leBytes 4 (UInt32.ofNat (leValue ((padded name).drop 4))).toNat = padded name
  rw [leBytes_ofNat (by rw [List.length_take]; omega), leBytes_ofNat (by simp; omega),
    List.take_append_drop]

/-! ## The request on its way -/

section Request

variable {commandId : UInt16} {w : NameWords} {bytes data : List UInt8}

theorem holdsRequest_messageBytes (commandId : UInt16) (w : NameWords) {base : List UInt8}
    (h : base.length = 256) :
    HoldsRequest commandId w (messageBytes commandId base 1 w.toList []) := by
  have hfits : 4 * (1 + w.toList.length + ([] : List UInt32).length) ≤ base.length := by
    change 20 ≤ base.length
    omega
  obtain ⟨hheader, hwords, -⟩ := messageBytes_words commandId hfits Nat.one_pos
  refine ⟨(messageBytes_length commandId hfits Nat.one_pos).trans h, ?_, ?_⟩
  · rw [hheader]
    exact ofWord_headerWord commandId (show (UInt8.ofNat 4).toNat < 64 by decide) (by decide)
  · rw [List.append_nil] at hwords
    exact hwords

/-- What a client writes for a name. -/
theorem nameRequest_holds (commandId : UInt16) {name : List UInt8} (h : name.length ≤ 8)
    (last : UInt32) : ∃ bytes w, SrvInterface.nameRequest commandId name last = .ret bytes ∧
      HoldsRequest commandId w bytes ∧ w.name.val = padded name ∧
        w.length = UInt32.ofNat name.length := by
  obtain ⟨a, b, hwords, hpadded⟩ := nameWords_padded h
  have hzero : (List.replicate 256 (0 : UInt8)).length = 256 := List.length_replicate
  have hbase := setWord_length (0 : UInt32)
    (show 4 * 0 + 4 ≤ (List.replicate 256 (0 : UInt8)).length by omega)
  rw [hzero] at hbase
  refine ⟨messageBytes commandId (setWord (List.replicate 256 0) 0 0) 1
      [a, b, UInt32.ofNat name.length, last] [], ⟨a, b, UInt32.ofNat name.length, last⟩, ?_,
    holdsRequest_messageBytes commandId _ hbase, hpadded, rfl⟩
  -- each word goes behind the one before it
  have h1 := setWord_length a (show 4 * 1 + 4 ≤ _ by rw [hbase]; decide)
  have h2 := setWord_length b (show 4 * (1 + 1) + 4 ≤ _ by rw [h1, hbase]; decide)
  have h3 := setWord_length (UInt32.ofNat name.length)
    (show 4 * (1 + 1 + 1) + 4 ≤ _ by rw [h2, h1, hbase]; decide)
  have h4 := setWord_length last
    (show 4 * (1 + 1 + 1 + 1) + 4 ≤ _ by rw [h3, h2, h1, hbase]; decide)
  unfold SrvInterface.nameRequest
  rw [hwords, Outcome.ret_bind]
  dsimp only
  rw [newRequest_at (by omega), Outcome.ret_bind,
    writeNormal_at a (by omega) (by decide), Outcome.ret_bind,
    writeNormal_at b (by omega) (by decide), Outcome.ret_bind,
    writeNormal_at _ (by omega) (by decide), Outcome.ret_bind,
    writeNormal_at last (by omega) (by decide), Outcome.ret_bind, drop_at (by omega)]
  rfl

/-- The request is a message of four normal parameters. -/
theorem HoldsRequest.holdsMessage (h : HoldsRequest commandId w bytes) :
    HoldsMessage false bytes ⟨commandId, 4, 0⟩ 0 w.toList [] where
  length := h.length
  header_eq := h.header.symm
  result_eq := rfl
  normals_eq := (wordsFrom_of_holds h.words).symm
  fits := show 1 + 4 + 0 ≤ 64 by decide
  groups := by
    show parseGroups IPCReader.permission [] = some []
    rw [parseGroups]

/-- The bytes in a client's slot arrive in a server's slot, for some two threads of a kernel. -/
def Carries (rng : Nat → UInt32) (bytes data : List UInt8) : Prop :=
  ∃ k src dest client server k', Kernel.IpcPair k src dest client server ∧
    (k.process? server.pid).isSome ∧ client.ipcData = bytes ∧
    Outcome.Settles (fun fuel => k.translateIpc rng fuel src dest false) k' ∧
    (k'.thread? dest).map CommonThread.ipcData = some data

theorem slot_setThread {k : Kernel} {dest : ThreadIndex} {server : CommonThread}
    (h : k.thread? dest = some server) (ipcData : List UInt8) :
    ((k.setThread { server with ipcData := ipcData }).thread? dest).map CommonThread.ipcData =
      some ipcData := by
  have hindex : server.index = dest := key_of_findKey h
  rw [Kernel.thread?_setThread, if_pos hindex.symm, h]
  rfl

/-- `translate_ipc` carries any such request between any two threads. -/
theorem translateIpc_request (rng : Nat → UInt32) {k : Kernel} {src dest : ThreadIndex}
    {client server : CommonThread} (hpair : Kernel.IpcPair k src dest client server)
    (hprocess : (k.process? server.pid).isSome) (h : HoldsRequest commandId w client.ipcData) :
    ∃ k' data, Outcome.Settles (fun fuel => k.translateIpc rng fuel src dest false) k' ∧
      (k'.thread? dest).map CommonThread.ipcData = some data ∧ HoldsRequest commandId w data := by
  have hcall := fun fuel =>
    @Kernel.translateIpc_normals rng fuel _ _ _ _ _ _ _ hpair hprocess h.holdsMessage rfl
  dsimp only at hcall
  have hcarried := holdsRequest_messageBytes commandId w
    (Kernel.writerBase_length false 0 hpair.length)
  generalize messageBytes commandId (Kernel.writerBase false 0 server.ipcData) 1 w.toList [] =
    carried at hcall hcarried
  refine ⟨k.setThread { server with ipcData := carried }, carried, ⟨1, fun fuel hfuel => ?_⟩,
    slot_setThread hpair.destination carried, hcarried⟩
  obtain ⟨fuel, rfl⟩ := Nat.exists_eq_add_of_le' hfuel
  exact hcall fuel

/-- What arrives is the request that was sent. -/
theorem Carries.holds {rng : Nat → UInt32} (h : Carries rng bytes data)
    (hbytes : HoldsRequest commandId w bytes) : HoldsRequest commandId w data := by
  obtain ⟨k, src, dest, client, server, k', hpair, hprocess, rfl, hsettles, hslot⟩ := h
  obtain ⟨k'', data', hsettles', hslot', hdata⟩ := translateIpc_request rng hpair hprocess hbytes
  rw [hsettles.unique hsettles', hslot'] at hslot
  rw [← Option.some.inj hslot]
  exact hdata

end Request

/-! ## The lookup -/

/-- Padded names with their lengths are equal when the names are. -/
theorem named_padded {service : Service} {name : RawName} {own other : List UInt8}
    (hown : own.length ≤ 8) (hother : other.length ≤ 8) (hname : service.name.val = padded own)
    (hlen : service.nameLen = UInt8.ofNat own.length) (hval : name.val = padded other) :
    service.named name (UInt8.ofNat other.length) = decide (own = other) := by
  have hbytes : ∀ n ≤ 8, (UInt8.ofNat n).toNat = n := fun n hn => ofNat_toNat_of_lt (by omega)
  unfold Service.named
  rw [hlen, hname, hval, hbytes _ hother]
  by_cases heq : own.length = other.length
  · rw [← heq, take_padded, heq, take_padded]
    simp
  · have hne : own ≠ other := fun h => heq (by rw [h])
    have hlens : UInt8.ofNat own.length ≠ UInt8.ofNat other.length := by
      intro h
      have hnat := congrArg UInt8.toNat h
      rw [hbytes _ hown, hbytes _ hother] at hnat
      exact heq hnat
    simp [hne, hlens]

/-! ## Any sequence of registrations -/

/-- The manager, with the names of the registrations in their order. -/
structure NameRegistry where
  srv : SrvContext
  names : List (List UInt8)

/-- The arguments of `register_service`. -/
structure Registration where
  name : List UInt8
  maxSessions : UInt32

/-- The manager handles registrations of names of at most eight bytes, each carried over from
    the client that made it. -/
def registrations (rng : Nat → UInt32) : System NameRegistry Registration where
  init s := s.srv = SrvContext.new ∧ s.names = []
  step s call s' := call.name.length ≤ 8 ∧ s'.names = s.names ++ [call.name] ∧
    ∃ bytes data fuel k k' handled,
      SrvInterface.registerService call.name call.maxSessions = .ret bytes ∧
      Carries rng bytes data ∧ s.srv.handleIpc rng fuel data k = .ret (s'.srv, k', handled)

/-- The services are those of the names, in order. -/
structure Registered (s : NameRegistry) : Prop where
  short : ∀ name ∈ s.names, name.length ≤ 8
  services : s.srv.services.map (fun service => (service.name.val, service.nameLen)) =
    s.names.map fun name => (padded name, UInt8.ofNat name.length)

theorem toUInt8_ofNat (n : Nat) : (UInt32.ofNat n).toUInt8 = UInt8.ofNat n := by
  apply UInt8.toNat_inj.mp
  rw [UInt32.toNat_toUInt8, UInt32.toNat_ofNat', UInt8.toNat_ofNat']
  omega

theorem Registered.step {rng : Nat → UInt32} {s s' : NameRegistry} {call : Registration}
    (h : Registered s) (hstep : (registrations rng).step s call s') : Registered s' := by
  obtain ⟨hshort, hnames, bytes, data, fuel, k, k', handled, hbytes, hcarries, hhandle⟩ := hstep
  obtain ⟨bytes', w, hwrite, hholds, hpadded, hlength⟩ :=
    nameRequest_holds 3 hshort call.maxSessions
  have hsame : bytes' = bytes := Outcome.ret.inj (hwrite.symm.trans hbytes)
  rw [hsame] at hholds
  have hdata := hcarries.holds hholds
  rw [handleIpc_register hdata] at hhandle
  obtain ⟨clientPort, hsrv⟩ := handleRegister_eq_ret hdata hhandle
  constructor
  · intro name hname
    rw [hnames] at hname
    rcases List.mem_append.mp hname with hname | hname
    · exact h.short name hname
    · rw [List.mem_singleton.mp hname]
      exact hshort
  · rw [hsrv, hnames]
    unfold SrvContext.registerService
    rw [List.map_append, List.map_append, h.services, List.map_singleton, List.map_singleton]
    dsimp only
    rw [hpadded, hlength, toUInt8_ofNat]

/-- The first service of a name is at the position of the name's first registration. -/
theorem Registered.findIdx {s : NameRegistry} (h : Registered s) {name : List UInt8}
    (hname : name.length ≤ 8) {raw : RawName} (hraw : raw.val = padded name) :
    s.srv.services.findIdx? (fun service => service.named raw (UInt8.ofNat name.length)) =
      s.names.findIdx? fun own => own = name := by
  obtain ⟨srv, names⟩ := s
  obtain ⟨hshort, hservices⟩ := h
  dsimp only at hshort hservices ⊢
  generalize srv.services = services at hservices
  induction services generalizing names with
  | nil =>
    rw [List.map_nil] at hservices
    rw [List.map_eq_nil_iff.mp hservices.symm]
    rfl
  | cons service services ih =>
    cases names with
    | nil => simp at hservices
    | cons own names =>
      rw [List.map_cons, List.map_cons] at hservices
      obtain ⟨hpair, hrest⟩ := List.cons.inj hservices
      obtain ⟨hval, hlen⟩ := Prod.mk.inj hpair
      rw [List.findIdx?_cons, List.findIdx?_cons,
        named_padded (hshort own (by simp)) hname hval hlen hraw,
        ih names (fun n hn => hshort n (by simp [hn])) hrest]

theorem Registered.invariant {rng : Nat → UInt32} {tr : List (NameRegistry × Registration)}
    {s : NameRegistry} (h : Run (registrations rng) tr s) : Registered s := by
  refine h.invariant ?_ fun s call s' hs hstep => hs.step hstep
  rintro ⟨srv, names⟩ ⟨hsrv, hnames⟩
  dsimp only at hsrv hnames
  rw [hsrv, hnames]
  exact ⟨by simp, rfl⟩

/-! ## Names resolve -/

/-- The name of a service: the bytes that count. -/
def Service.ownName (self : Service) : List UInt8 := self.name.val.take self.nameLen.toNat

/-- The manager gets `data` from a client that asks for the name. -/
def AsksFor (rng : Nat → UInt32) (name data : List UInt8) : Prop :=
  name.length ≤ 8 ∧
    ∃ noWait bytes, SrvInterface.getServiceHandle name noWait = .ret bytes ∧ Carries rng bytes data

/-- What the protocol makes of names: the services are those registered, in order; a request
    for a name is written, and carried between any two threads; the lookup for it finds the
    first service registered under that very name, if there is one; and the lookups of two
    names never find the same service. -/
structure NamesResolve (rng : Nat → UInt32) (s : NameRegistry) : Prop where
  kept : s.srv.services.map Service.ownName = s.names
  carried : ∀ commandId name last, name.length ≤ 8 →
    ∃ bytes, SrvInterface.nameRequest commandId name last = .ret bytes ∧
      ∀ k src dest client server, Kernel.IpcPair k src dest client server →
        (k.process? server.pid).isSome → client.ipcData = bytes →
        ∃ k' data, Outcome.Settles (fun fuel => k.translateIpc rng fuel src dest false) k' ∧
          (k'.thread? dest).map CommonThread.ipcData = some data
  found : ∀ name data, AsksFor rng name data →
    s.srv.lookupName data = .ret (s.names.findIdx? fun own => own = name) ∧
      ∀ fuel k, s.srv.handleIpc rng fuel data k = s.srv.handleGet data k
  apart : ∀ name data name' data' i, AsksFor rng name data → AsksFor rng name' data' →
    s.srv.lookupName data = .ret (some i) → s.srv.lookupName data' = .ret (some i) → name = name'

theorem Registered.kept {s : NameRegistry} (h : Registered s) :
    s.srv.services.map Service.ownName = s.names := by
  have hpairs := congrArg (List.map fun p => p.1.take p.2.toNat) h.services
  rw [List.map_map, List.map_map] at hpairs
  refine (List.map_congr_left fun service _ => rfl).trans (hpairs.trans ?_)
  refine (List.map_congr_left fun name hname => ?_).trans (List.map_id _)
  have hle := h.short name hname
  rw [Function.comp_apply]
  dsimp only
  rw [ofNat_toNat_of_lt (by omega), take_padded]
  rfl

/-- The request for a name, as the manager gets it. -/
theorem AsksFor.holds {rng : Nat → UInt32} {name data : List UInt8} (h : AsksFor rng name data) :
    ∃ w, HoldsRequest 5 w data ∧ w.name.val = padded name ∧
      w.length.toUInt8 = UInt8.ofNat name.length := by
  obtain ⟨hshort, noWait, bytes, hbytes, hcarries⟩ := h
  obtain ⟨bytes', w, hwrite, hholds, hpadded, hlength⟩ :=
    nameRequest_holds 5 hshort (if noWait then 1 else 0)
  have hsame : bytes' = bytes := Outcome.ret.inj (hwrite.symm.trans hbytes)
  rw [hsame] at hholds
  refine ⟨w, hcarries.holds hholds, hpadded, ?_⟩
  rw [hlength, toUInt8_ofNat]

/-- The lookup finds the first service of the name. -/
theorem Registered.lookupName {rng : Nat → UInt32} {s : NameRegistry} (h : Registered s)
    {name data : List UInt8} (hasks : AsksFor rng name data) :
    s.srv.lookupName data = .ret (s.names.findIdx? fun own => own = name) := by
  obtain ⟨w, hdata, hpadded, hlength⟩ := hasks.holds
  have hshort := hasks.1
  rw [lookupName_eq hdata, hlength]
  unfold SrvContext.findService
  rw [findNamed_of_le (by rw [ofNat_toNat_of_lt (by omega)]; exact hshort), h.findIdx hshort hpadded]
  simp

/-- **Service names survive the protocol.** After any registrations of names of at most eight
    bytes, a lookup for such a name finds the first service registered under the same bytes,
    and none if there is none. -/
theorem names_resolve {rng : Nat → UInt32} {tr : List (NameRegistry × Registration)}
    {s : NameRegistry} (h : Run (registrations rng) tr s) : NamesResolve rng s := by
  have hs := Registered.invariant h
  refine ⟨hs.kept, ?_, ?_, ?_⟩
  · intro commandId name last hshort
    obtain ⟨bytes, w, hwrite, hholds, -⟩ := nameRequest_holds commandId hshort last
    refine ⟨bytes, hwrite, fun k src dest client server hpair hprocess hslot => ?_⟩
    rw [← hslot] at hholds
    obtain ⟨k', data, hsettles, harrived, -⟩ := translateIpc_request rng hpair hprocess hholds
    exact ⟨k', data, hsettles, harrived⟩
  · intro name data hasks
    obtain ⟨w, hdata, -⟩ := hasks.holds
    exact ⟨hs.lookupName hasks, fun fuel k => handleIpc_get hdata⟩
  · intro name data name' data' i hasks hasks' hfound hfound'
    -- both names are the one at position `i`
    have hname : ∀ {name data}, AsksFor rng name data → s.srv.lookupName data = .ret (some i) →
        s.names[i]? = some name := by
      intro name data hasks hfound
      rw [hs.lookupName hasks] at hfound
      obtain ⟨hlt, heq, -⟩ := List.findIdx?_eq_some_iff_getElem.mp (Outcome.ret.inj hfound)
      rw [List.getElem?_eq_getElem hlt, of_decide_eq_true heq]
    exact Option.some.inj ((hname hasks hfound).symm.trans (hname hasks' hfound'))

/-- Two threads of two processes, thread 0 with the message in its slot. -/
def slotKernel (ipcData : List UInt8) : Kernel :=
  { Kernel.new with
    processes := [⟨0, ObjectTable.new, .hle⟩, ⟨1, ObjectTable.new, .hle⟩]
    threads := [Kernel.sampleThread 0 ipcData, Kernel.sampleThread 1 (List.replicate 256 0)]
    current := some (1, 1) }

theorem slotKernel_pair (ipcData : List UInt8) : Kernel.IpcPair (slotKernel ipcData) 0 1
    (Kernel.sampleThread 0 ipcData) (Kernel.sampleThread 1 (List.replicate 256 0)) where
  distinct := by decide
  indices := by
    change [0, 1].Nodup
    decide
  source := rfl
  destination := rfl
  sourceProcess := rfl
  length := List.length_replicate

/-- A registration is a step as soon as the manager gets its two handles. -/
theorem registrations_step (rng : Nat → UInt32) (s : NameRegistry) {call : Registration}
    (hshort : call.name.length ≤ 8) {fuel : Nat} {k k₁ k₂ : Kernel} {server client : Handle}
    (hserver : (makePortPair k).2.2.newHandle rng fuel (makePortPair k).1 = .ret (server, k₁))
    (hclient : k₁.newHandle rng fuel (makePortPair k).2.1 = .ret (client, k₂)) :
    ∃ srv, (registrations rng).step s call ⟨srv, s.names ++ [call.name]⟩ := by
  obtain ⟨bytes, w, hwrite, hholds, -⟩ := nameRequest_holds 3 hshort call.maxSessions
  have hpair := slotKernel_pair bytes
  obtain ⟨k', data, hsettles, harrived, hdata⟩ := translateIpc_request rng hpair rfl hholds
  obtain ⟨reply, hret⟩ := @handleRegister_of_handles _ w data rng fuel s.srv k hdata _ _ _ _
    hserver hclient
  rw [← handleIpc_register hdata] at hret
  exact ⟨_, hshort, rfl, bytes, data, fuel, k, k₂, _, hwrite,
    ⟨_, 0, 1, _, _, k', hpair, rfl, rfl, hsettles, harrived⟩, hret⟩

/-- A generator that counts gives the manager its handles. -/
theorem slotKernel_handles (ipcData : List UInt8) : ∃ server client k₁ k₂,
    (makePortPair (slotKernel ipcData)).2.2.newHandle UInt32.ofNat 2
      (makePortPair (slotKernel ipcData)).1 = .ret (server, k₁) ∧
      k₁.newHandle UInt32.ofNat 2 (makePortPair (slotKernel ipcData)).2.1 = .ret (client, k₂) :=
  ⟨⟨1, by decide⟩, ⟨2, by decide⟩, _, _, rfl, rfl⟩

/-- A request for a name gets to the manager. -/
theorem exists_asksFor (rng : Nat → UInt32) {name : List UInt8} (hshort : name.length ≤ 8) :
    ∃ data, AsksFor rng name data := by
  obtain ⟨bytes, w, hwrite, hholds, -⟩ := nameRequest_holds 5 hshort 0
  have hpair := slotKernel_pair bytes
  obtain ⟨k', data, hsettles, harrived, -⟩ := translateIpc_request rng hpair rfl hholds
  exact ⟨data, hshort, false, bytes, hwrite, _, 0, 1, _, _, k', hpair, rfl, rfl, hsettles, harrived⟩

/-- Of two names that are the same but for a zero at the end, each finds its own service. -/
theorem names_resolve_prefix : ∃ srv, NamesResolve UInt32.ofNat
      ⟨srv, [[0x73, 0x72, 0], [0x73, 0x72]]⟩ ∧
    ∃ data data', AsksFor UInt32.ofNat [0x73, 0x72, 0] data ∧
      AsksFor UInt32.ofNat [0x73, 0x72] data' ∧
      srv.lookupName data = .ret (some 0) ∧ srv.lookupName data' = .ret (some 1) := by
  obtain ⟨server, client, k₁, k₂, hserver, hclient⟩ := slotKernel_handles []
  have hstart : Run (registrations UInt32.ofNat) [] ⟨SrvContext.new, []⟩ := .start ⟨rfl, rfl⟩
  obtain ⟨srv₁, hone⟩ := @registrations_step UInt32.ofNat ⟨SrvContext.new, []⟩
    ⟨[0x73, 0x72, 0], 1⟩ (by decide) _ _ _ _ _ _ hserver hclient
  obtain ⟨srv, htwo⟩ := @registrations_step UInt32.ofNat ⟨srv₁, [[0x73, 0x72, 0]]⟩
    ⟨[0x73, 0x72], 1⟩ (by decide) _ _ _ _ _ _ hserver hclient
  have hnames := names_resolve ((hstart.next hone).next htwo)
  obtain ⟨data, hdata⟩ := exists_asksFor UInt32.ofNat (show [0x73, 0x72, 0].length ≤ 8 by decide)
  obtain ⟨data', hdata'⟩ := exists_asksFor UInt32.ofNat (show [0x73, 0x72].length ≤ 8 by decide)
  exact ⟨srv, hnames, data, data', hdata, hdata', (hnames.found _ _ hdata).1,
    (hnames.found _ _ hdata').1⟩

end Pomelo
