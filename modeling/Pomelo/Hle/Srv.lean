/-
  The service manager `srv:` (`hle/src/service/srv.rs`).

  A client sends a service's name as two words, zero-padded, with its length (`SrvInterface`).
  `SrvContext` keeps the registered services in the order of their registration and finds one by
  the length's low byte and the bytes of the name up to it. `find_service` returns a reference
  into `services`, here the position of the service.

  `handle_ipc` has one point where it waits, for the session to the service's port; it is taken
  apart there (`Handled.connects`, and `sessionCreated` when the session is made).
-/
import Pomelo.Hle.Svc
import Pomelo.Ipc.RoundTrip

namespace Pomelo

open Lib

/-! ## Names -/

/-- `[u8; 8]`. -/
abbrev RawName := { bytes : List UInt8 // bytes.length = 8 }

/-- The two words of a name, in the order in which they are sent. -/
def RawName.ofWords (a b : UInt32) : RawName :=
  ⟨leBytes 4 a.toNat ++ leBytes 4 b.toNat, by simp⟩

/-- `bytes[0..n]`. -/
def sliceTo (bytes : List UInt8) (n : Nat) : Exec (List UInt8) :=
  if n ≤ bytes.length then .ret (bytes.take n) else .panic .sliceIndex

/-! ## The client -/

namespace SrvInterface

/-- The words of a name: it is copied into eight zero bytes. -/
def nameWords (name : List UInt8) : Exec (UInt32 × UInt32) :=
  if name.length > 8 then .panic (.panic "Invalid name given")
  else
    let rawName := name ++ List.replicate (8 - name.length) 0
    .ret (UInt32.ofNat (leValue (rawName.take 4)), UInt32.ofNat (leValue (rawName.drop 4)))

/-- The request of `register_service` and `get_service_handle`: the name, its length, and the
    word `last`. -/
def nameRequest (commandId : UInt16) (name : List UInt8) (last : UInt32) : Exec (List UInt8) := do
  let (nameA, nameB) ← nameWords name
  let ipcWriter ← IPCWriter.newRequest commandId (List.replicate 256 0)
  let ipcWriter ← ipcWriter.writeNormal nameA
  let ipcWriter ← ipcWriter.writeNormal nameB
  let ipcWriter ← ipcWriter.writeNormal (UInt32.ofNat name.length)
  let ipcWriter ← ipcWriter.writeNormal last
  ipcWriter.drop

/-- `register_service`, up to the request. -/
def registerService (name : List UInt8) (maxSessions : UInt32) : Exec (List UInt8) :=
  nameRequest 3 name maxSessions

/-- `get_service_handle`, up to the request. -/
def getServiceHandle (name : List UInt8) (noWait : Bool) : Exec (List UInt8) :=
  nameRequest 5 name (if noWait then 1 else 0)

/-- Both, from the response on. -/
def serviceHandle (ipcData : List UInt8) : Exec (KResult Handle) := do
  let ipcReader ← IPCReader.newResponse ipcData
  if ipcReader.result ≠ 0 then return .error ipcReader.result
  else
    let (param, _) ← ipcReader.readTranslate
    match param with
    | .handle _ _ (.single handle) => do
      let handle ← Outcome.expect handle .unwrap
      return .ok handle
    | _ => .panic (.panic "Got invalid response from SRV:GetServiceHandle")

end SrvInterface

/-! ## The server -/

structure Service where
  name : RawName
  nameLen : UInt8
  maxSessions : UInt32
  clientPort : Handle

structure SrvContext where
  services : List Service
  seenNotifications : List UInt32

/-- What `handle_ipc` comes to: its response, or the session to a port it waits for. -/
inductive Handled where
  | responded (data : List UInt8)
  | connects (clientPort : Handle)
deriving DecidableEq

/-- The test of `find_service`. -/
def Service.hasName (self : Service) (name : RawName) (nameLen : UInt8) : Exec Bool :=
  if self.nameLen = nameLen then do
    let own ← sliceTo self.name.val self.nameLen.toNat
    let other ← sliceTo name.val nameLen.toNat
    return own = other
  else return false

/-- The first of the services with the name, counted from `i`. -/
def findNamed (name : RawName) (nameLen : UInt8) : List Service → Nat → Exec (Option Nat)
  | [], _ => return none
  | service :: services, i => do
    if ← service.hasName name nameLen then return some i
    else findNamed name nameLen services (i + 1)

namespace SrvContext

def new : SrvContext := { services := [], seenNotifications := [] }

def findService (self : SrvContext) (name : RawName) (nameLen : UInt8) : Exec (Option Nat) :=
  findNamed name nameLen self.services 0

def registerService (self : SrvContext) (service : Service) : SrvContext :=
  { self with services := self.services ++ [service] }

/-- `ipc.response(result)`. -/
def response (data : List UInt8) (result : UInt32) : Exec MessageWriter := do
  let request ← IPCRequest.new data
  IPCResponse.new request.header result data

/-- A response with the handle, moved. -/
def respondHandle (data : List UInt8) (handle : Handle) : Exec (List UInt8) := do
  let response ← response data 0
  let response ← response.writeTranslate (.handle true false (.single (some handle)))
  response.drop

/-- A response with normal parameters. -/
def respond (data : List UInt8) (params : List UInt32) : Exec (List UInt8) := do
  let response ← response data 0
  let response ← writeNormals params response
  response.drop

/-- The four parameters of `RegisterService` and `GetServiceHandle`: a name, its length, and
    one more. -/
def readName (data : List UInt8) : Exec (RawName × UInt32 × UInt32) := do
  let request ← IPCRequest.new data
  let (nameA, request) ← request.readNormal
  let (nameB, request) ← request.readNormal
  let (nameLength, request) ← request.readNormal
  let (last, _) ← request.readNormal
  return (.ofWords nameA nameB, nameLength, last)

/-- `GetServiceHandle`, up to the lookup. -/
def lookupName (self : SrvContext) (data : List UInt8) : Exec (Option Nat) := do
  let (name, nameLength, _) ← readName data
  self.findService name nameLength.toUInt8

variable (rng : Nat → UInt32) (fuel : Nat)

/-- `RegisterService`: the client gets the server end of a new port. -/
def handleRegister (self : SrvContext) (data : List UInt8) (k : Kernel) :
    Exec (SrvContext × Kernel × Handled) := do
  let (name, nameLength, maxSessions) ← readName data
  let (serverPort, clientPort, k) := makePortPair k
  let (serverPort, k) ← k.newHandle rng fuel serverPort
  let (clientPort, k) ← k.newHandle rng fuel clientPort
  let self := self.registerService
    { name := name, nameLen := nameLength.toUInt8, maxSessions := maxSessions,
      clientPort := clientPort }
  let data ← respondHandle data serverPort
  return (self, k, .responded data)

/-- `GetServiceHandle`, up to where it waits. -/
def handleGet (self : SrvContext) (data : List UInt8) (k : Kernel) :
    Exec (SrvContext × Kernel × Handled) := do
  let found ← self.lookupName data
  let service ← Outcome.expect (found.bind (self.services[·]?)) (.expect "Service not found")
  return (self, k, .connects service.clientPort)

/-- `GetServiceHandle`, when it has its session. -/
def sessionCreated (data : List UInt8) (session : Handle) : Exec (List UInt8) :=
  respondHandle data session

/-- `create_event` for the semaphore that a client waits for notifications with. -/
def handleEnableNotification (self : SrvContext) (data : List UInt8) (k : Kernel) :
    Exec (SrvContext × Kernel × Handled) := do
  let (event, k) ← k.createEvent rng fuel .oneShot
  match event with
  | .ok event => do
    let data ← respondHandle data event
    return (self, k, .responded data)
  | .error _ => .panic .unwrap

/-- `Subscribe`. -/
def handleSubscribe (self : SrvContext) (data : List UInt8) (k : Kernel) :
    Exec (SrvContext × Kernel × Handled) := do
  let request ← IPCRequest.new data
  let (notification, _) ← request.readNormal
  let self := { self with seenNotifications := self.seenNotifications ++ [notification] }
  let data ← respond data []
  return (self, k, .responded data)

/-- `PublishToSubscriber`. -/
def handlePublish (self : SrvContext) (data : List UInt8) (k : Kernel) :
    Exec (SrvContext × Kernel × Handled) := do
  let request ← IPCRequest.new data
  let (notification, request) ← request.readNormal
  let (_flags, _) ← request.readNormal
  Outcome.assert (!self.seenNotifications.contains notification) (.panic "Not implemented")
  let data ← respond data []
  return (self, k, .responded data)

/-- `PublishAndGetSubscriber`. -/
def handlePublishAndGet (self : SrvContext) (data : List UInt8) (k : Kernel) :
    Exec (SrvContext × Kernel × Handled) := do
  let request ← IPCRequest.new data
  let (notification, _) ← request.readNormal
  Outcome.assert (!self.seenNotifications.contains notification) (.panic "Not implemented")
  let data ← respond data [1, 1]
  return (self, k, .responded data)

/-- A command without an effect on the manager. -/
def handleOnly (params : List UInt32) (self : SrvContext) (data : List UInt8) (k : Kernel) :
    Exec (SrvContext × Kernel × Handled) := do
  let data ← respond data params
  return (self, k, .responded data)

def handleIpc (self : SrvContext) (data : List UInt8) (k : Kernel) :
    Exec (SrvContext × Kernel × Handled) := do
  let request ← IPCRequest.new data
  let header := request.header
  if header = ⟨1, 0, 2⟩ then self.handleOnly [] data k
  else if header = ⟨2, 0, 0⟩ then self.handleEnableNotification rng fuel data k
  else if header = ⟨3, 4, 0⟩ then self.handleRegister rng fuel data k
  else if header = ⟨5, 4, 0⟩ then self.handleGet data k
  else if header = ⟨9, 1, 0⟩ then self.handleSubscribe data k
  else if header = ⟨11, 0, 0⟩ then self.handleOnly [0x206] data k
  else if header = ⟨12, 2, 0⟩ then self.handlePublish data k
  else if header = ⟨13, 1, 0⟩ then self.handlePublishAndGet data k
  else .panic (.unimplemented "srv")

end SrvContext

/-! ## The requests with a name -/

section Requests

open SrvContext

/-- The parameters of a request with a name. -/
structure NameWords where
  nameA : UInt32
  nameB : UInt32
  length : UInt32
  last : UInt32
deriving DecidableEq

def NameWords.toList (w : NameWords) : List UInt32 := [w.nameA, w.nameB, w.length, w.last]

def NameWords.name (w : NameWords) : RawName := .ofWords w.nameA w.nameB

/-- The buffer holds the request with these parameters. -/
structure HoldsRequest (commandId : UInt16) (w : NameWords) (data : List UInt8) : Prop where
  length : data.length = 256
  header : IPCHeaderCode.ofWord (wordAt data 0) = ⟨commandId, 4, 0⟩
  words : Holds data 1 w.toList

variable {commandId : UInt16} {w : NameWords} {data : List UInt8}

theorem HoldsRequest.new (h : HoldsRequest commandId w data) :
    IPCRequest.new data = .ret ⟨⟨commandId, 4, 0⟩, readerAt data 1 4 0⟩ := by
  have hlen := h.length
  unfold IPCRequest.new Cursor.new
  rw [show (0 : Nat) = 4 * 0 from rfl, Cursor.readU32_word (by omega), Outcome.ret_bind]
  dsimp only
  rw [h.header]
  rfl

theorem HoldsRequest.readName (h : HoldsRequest commandId w data) :
    readName data = .ret (w.name, w.length, w.last) := by
  have hlen := h.length
  obtain ⟨-, ha, -, hb, -, hl, -, hm, -⟩ := h.words
  unfold SrvContext.readName IPCRequest.readNormal
  rw [h.new, Outcome.ret_bind]
  dsimp only
  rw [readNormal_at 0 (by omega) (by decide), Outcome.ret_bind]
  dsimp only [Outcome.pure_eq, Outcome.ret_bind]
  rw [readNormal_at 0 (by omega) (by decide), Outcome.ret_bind]
  dsimp only [Outcome.pure_eq, Outcome.ret_bind]
  rw [readNormal_at 0 (by omega) (by decide), Outcome.ret_bind]
  dsimp only [Outcome.pure_eq, Outcome.ret_bind]
  rw [readNormal_at 0 (by omega) (by decide), Outcome.ret_bind]
  dsimp only [Outcome.pure_eq, Outcome.ret_bind]
  rw [ha, hb, hl, hm]
  rfl

variable {rng : Nat → UInt32} {fuel : Nat} {srv srv' : SrvContext} {k k' : Kernel}
  {handled : Handled}

theorem handleIpc_register (h : HoldsRequest 3 w data) :
    srv.handleIpc rng fuel data k = srv.handleRegister rng fuel data k := by
  unfold handleIpc
  rw [h.new, Outcome.ret_bind]
  dsimp only
  rw [if_neg (by decide), if_neg (by decide), if_pos rfl]

theorem handleIpc_get (h : HoldsRequest 5 w data) :
    srv.handleIpc rng fuel data k = srv.handleGet data k := by
  unfold handleIpc
  rw [h.new, Outcome.ret_bind]
  dsimp only
  rw [if_neg (by decide), if_neg (by decide), if_neg (by decide), if_pos rfl]

/-- A handled registration adds the service behind the others. -/
theorem handleRegister_eq_ret (h : HoldsRequest commandId w data)
    (hret : srv.handleRegister rng fuel data k = .ret (srv', k', handled)) :
    ∃ clientPort, srv' = srv.registerService
      { name := w.name, nameLen := w.length.toUInt8, maxSessions := w.last,
        clientPort := clientPort } := by
  unfold handleRegister at hret
  rw [h.readName, Outcome.ret_bind] at hret
  obtain ⟨⟨serverPort, k₁⟩, -, hret⟩ := Outcome.bind_eq_ret.mp hret
  obtain ⟨⟨clientPort, k₂⟩, -, hret⟩ := Outcome.bind_eq_ret.mp hret
  obtain ⟨reply, -, hret⟩ := Outcome.bind_eq_ret.mp hret
  cases hret
  exact ⟨clientPort, rfl⟩

/-- The reply to such a request is always written. -/
theorem respondHandle_returns (h : HoldsRequest commandId w data) (handle : Handle) :
    ∃ reply, respondHandle data handle = .ret reply := by
  have hlen := h.length
  let p : HandleParameter := ⟨true, false, .single (some handle), List.cons_ne_nil _ _⟩
  have hp : p.words.length = 2 := p.words_length
  have h0 := setWord_length (0 : UInt32) (show 4 * 0 + 4 ≤ data.length by omega)
  have h1 := setWord_length (0 : UInt32)
    (show 4 * 1 + 4 ≤ (setWord data 0 0).length by rw [h0]; omega)
  have hnew : response data 0 =
      .ret (writerAt commandId (setWord (setWord data 0 0) 1 0) 2 0 0) := by
    unfold response
    rw [h.new, Outcome.ret_bind]
    exact newResponse_at (by omega)
  have hwrite := @writeTranslate_at commandId _ 2 0 0 p
    (show 4 * (2 + p.words.length) ≤ (setWord (setWord data 0 0) 1 0).length by
      rw [hp, h1, h0]; omega) (by omega)
  unfold respondHandle
  rw [hnew, Outcome.ret_bind]
  change ∃ reply, (do
    let response ← (writerAt commandId (setWord (setWord data 0 0) 1 0) 2 0 0).writeTranslate
      p.toParameter
    response.drop) = .ret reply
  rw [hwrite, Outcome.ret_bind, drop_at (by
    rw [setWords_length (by rw [hp, h1, h0]; omega), h1, h0]; omega)]
  exact ⟨_, rfl⟩

/-- A registration is handled when the manager gets its two handles. -/
theorem handleRegister_of_handles (h : HoldsRequest commandId w data) {k₁ k₂ : Kernel}
    {server client : Handle}
    (hserver : (makePortPair k).2.2.newHandle rng fuel (makePortPair k).1 = .ret (server, k₁))
    (hclient : k₁.newHandle rng fuel (makePortPair k).2.1 = .ret (client, k₂)) :
    ∃ reply, srv.handleRegister rng fuel data k = .ret (srv.registerService
      { name := w.name, nameLen := w.length.toUInt8, maxSessions := w.last,
        clientPort := client }, k₂, .responded reply) := by
  obtain ⟨reply, hreply⟩ := respondHandle_returns h server
  refine ⟨reply, ?_⟩
  unfold handleRegister
  rw [h.readName, Outcome.ret_bind]
  dsimp only
  rw [hserver, Outcome.ret_bind]
  dsimp only
  rw [hclient, Outcome.ret_bind]
  dsimp only
  rw [hreply, Outcome.ret_bind]
  rfl

theorem lookupName_eq (h : HoldsRequest commandId w data) :
    srv.lookupName data = srv.findService w.name w.length.toUInt8 := by
  unfold lookupName
  rw [h.readName, Outcome.ret_bind]

/-- A lookup leaves the manager and the kernel as they were. -/
theorem handleGet_eq_ret (hret : srv.handleGet data k = .ret (srv', k', handled)) :
    srv' = srv ∧ k' = k := by
  unfold handleGet at hret
  obtain ⟨found, -, hret⟩ := Outcome.bind_eq_ret.mp hret
  obtain ⟨service, -, hret⟩ := Outcome.bind_eq_ret.mp hret
  cases hret
  exact ⟨rfl, rfl⟩

end Requests

/-! ## The lookup -/

/-- The service has the low byte of the length, and the bytes of the name up to it. -/
def Service.named (self : Service) (name : RawName) (nameLen : UInt8) : Bool :=
  self.nameLen = nameLen ∧ self.name.val.take nameLen.toNat = name.val.take nameLen.toNat

theorem sliceTo_name (name : RawName) {n : Nat} (h : n ≤ 8) :
    sliceTo name.val n = .ret (name.val.take n) :=
  if_pos (by rw [name.property]; exact h)

section Lookup

variable {name : RawName} {nameLen : UInt8} {services : List Service}

theorem hasName_of_le (service : Service) (name : RawName) (hle : nameLen.toNat ≤ 8) :
    service.hasName name nameLen = .ret (service.named name nameLen) := by
  unfold Service.hasName Service.named
  split
  · rename_i heq
    rw [heq, sliceTo_name service.name hle, Outcome.ret_bind, sliceTo_name name hle,
      Outcome.ret_bind]
    simp
  · rename_i hne
    simp [hne]

theorem hasName_of_ne {service : Service} (name : RawName) (hne : service.nameLen ≠ nameLen) :
    service.hasName name nameLen = .ret false := by
  unfold Service.hasName
  rw [if_neg hne]
  rfl

/-- The slice of a name is out of range where the length is too large for it. -/
theorem hasName_panics {service : Service} (name : RawName) (heq : service.nameLen = nameLen)
    (hgt : 8 < nameLen.toNat) : service.hasName name nameLen = .panic .sliceIndex := by
  have hslice : sliceTo service.name.val nameLen.toNat = .panic .sliceIndex :=
    if_neg (by rw [service.name.property]; omega)
  unfold Service.hasName
  rw [if_pos heq, heq, hslice]
  rfl

/-- With a length of at most eight the lookup finds the first service of that name. -/
theorem findNamed_of_le (hle : nameLen.toNat ≤ 8) (i : Nat) :
    findNamed name nameLen services i =
      .ret ((services.findIdx? fun service => service.named name nameLen).map (· + i)) := by
  induction services generalizing i with
  | nil => rfl
  | cons service services ih =>
    rw [findNamed, hasName_of_le service name hle, Outcome.ret_bind, List.findIdx?_cons]
    split
    · simp
    · rw [ih, Option.map_map]
      congr 1
      congr 1
      funext j
      simp only [Function.comp_apply]
      omega

/-- No service of the length's low byte: the lookup finds none. -/
theorem findNamed_of_ne (h : ∀ service ∈ services, service.nameLen ≠ nameLen) (i : Nat) :
    findNamed name nameLen services i = .ret none := by
  induction services generalizing i with
  | nil => rfl
  | cons service services ih =>
    rw [findNamed, hasName_of_ne name (h service (by simp)), Outcome.ret_bind]
    exact ih (fun service hmem => h service (by simp [hmem])) (i + 1)

/-- A length above eight that a service shares: the lookup slices out of range. -/
theorem findNamed_panics (hgt : 8 < nameLen.toNat)
    (h : ∃ service ∈ services, service.nameLen = nameLen) (i : Nat) :
    findNamed name nameLen services i = .panic .sliceIndex := by
  induction services generalizing i with
  | nil => simp at h
  | cons service services ih =>
    rw [findNamed]
    by_cases heq : service.nameLen = nameLen
    · rw [hasName_panics name heq hgt]
      rfl
    · rw [hasName_of_ne name heq, Outcome.ret_bind]
      refine ih ?_ (i + 1)
      obtain ⟨s, hs, hlen⟩ := h
      rcases List.mem_cons.mp hs with rfl | hs
      · exact absurd hlen heq
      · exact ⟨s, hs, hlen⟩

end Lookup

end Pomelo
