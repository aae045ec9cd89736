import Odtone.Mihf.CommandService

/-! # Service management and information service

`service_management` with `discover_service`, and `information_service`: capability discovery
between MIHFs, users and Link SAPs, registration of peers, Link SAPs and users, and information
queries. -/

namespace Odtone.Mihf

open List
open Wire (Bytes Ty Element Arg Decoder)

/-! ## Parameters -/

/-- The six optional parameters of a capability discovery. -/
def capabilitiesParams : Decoder Capabilities := do
  let listNetTypeAddr ← Element.netTypeAddrList.getOptional
  let eventList ← Element.eventList.getOptional
  let cmdList ← Element.commandList.getOptional
  let queryType ← Element.queryTypeList.getOptional
  let transList ← Element.transportOptionList.getOptional
  let mbbHoSupp ← Element.mbbHoSuppList.getOptional
  return ⟨listNetTypeAddr, eventList, cmdList, queryType, transList, mbbHoSupp⟩

def Capabilities.args (c : Capabilities) : List Arg :=
  [Element.netTypeAddrList.putOptional c.listNetTypeAddr, Element.eventList.putOptional c.eventList,
    Element.commandList.putOptional c.cmdList, Element.queryTypeList.putOptional c.queryType,
    Element.transportOptionList.putOptional c.transList,
    Element.mbbHoSuppList.putOptional c.mbbHoSupp]

def capabilitiesResponseParams : Decoder (Ty.status.Val × Capabilities) := do
  let st ← Element.status.get
  let c ← capabilitiesParams
  return (st, c)

/-- The parameters of the capability discovery confirm of a Link SAP. -/
def linkCapabilitiesParams : Decoder (Ty.status.Val × Option (Bitmap 4) × Option (Bitmap 4)) := do
  let st ← Element.status.get
  let event ← Element.linkEvtList.getOptional
  let command ← Element.linkCmdList.getOptional
  return (st, event, command)

/-- The characters of a number in a base. -/
def digits (base n : Nat) : Bytes := (Nat.toDigits base n).map fun c => UInt8.ofNat c.toNat

/-- `to_string_hex` of one byte -/
def hexByte (b : UInt8) : Bytes := digits 16 (b.toNat / 16) ++ digits 16 (b.toNat % 16)

/-- The groups of two bytes of an address; a missing byte is zero. -/
def hexGroups : Bytes → List Bytes
  | [] => []
  | [a] => [hexByte a ++ hexByte 0]
  | a :: b :: l => (hexByte a ++ hexByte b) :: hexGroups l

/-- `ip_addr::address` -/
def ipText : Ty.transportAddr.Val → Bytes
  | (type, addr, ()) =>
    let type : BitVec 16 := type
    let addr : Bytes := addr
    if type = 1 then intercalate [46] (addr.map fun b => digits 10 b.toNat)
    else if type = 2 then intercalate [58] (hexGroups addr)
    else []

/-- `mos_info`: identifier, address and port of a point of service. -/
structure MosInfo where
  id : Bytes
  ip : Ty.transportAddr.Val
  port : UInt16

namespace MosInfo

def ofVal : Ty.mosInfo.Val → MosInfo
  | (id, ip, port, ()) => ⟨id, ip, ⟨port⟩⟩

def toVal (pos : MosInfo) : Ty.mosInfo.Val := (pos.id, pos.ip, pos.port.toBitVec, ())

/-- `operator==`: the same identifier, or the same address and port -/
def Same (pos other : MosInfo) : Bool :=
  pos.id = other.id ||
    (pos.ip.1 = other.ip.1 && ipText pos.ip = ipText other.ip && pos.port = other.port)

end MosInfo

/-- `mos_dscv`: points of service for information, commands and events. -/
structure MosDscv where
  is : List MosInfo := []
  cs : List MosInfo := []
  es : List MosInfo := []

def MosDscv.ofVal : Ty.mosDscv.Val → MosDscv
  | (is, cs, es, ()) => ⟨map .ofVal is, map .ofVal cs, map .ofVal es⟩

def MosDscv.toVal (x : MosDscv) : Ty.mosDscv.Val :=
  (x.is.map (·.toVal), x.cs.map (·.toVal), x.es.map (·.toVal), ())

/-- The parameters of a discovery response. -/
def discoveryParams : Decoder (Ty.status.Val × Option Ty.mosDscv.Val) := do
  let st ← Element.status.get
  let _c ← capabilitiesParams
  let dscv ← Element.mosDscv.getOptional
  return (st, dscv)

def registerResponseParams : Decoder (Ty.status.Val × Ty.uint16.Val) := do
  let st ← Element.status.get
  let interval ← Element.timeInterval.get
  return (st, interval)

def userRegisterParams : Decoder (Option (Bitmap 4) × Option (Bitmap 8)) := do
  let suppCmd ← Element.commandList.getOptional
  let suppIq ← Element.queryTypeList.getOptional
  return (suppCmd, suppIq)

/-! ## Discovery of points of service -/

namespace Svc

variable (cfg : Config)

/-- `discover_service::request`; the discovery module is on. -/
def discoverRequest (i _o : Ptr) : Svc Unit := do
  match cfg.dscvOrder with
  | [] => throw .pastEnd
  | first :: _ =>
    modifyMsg i fun m => { m with destination := first }
    modifyMsg i (·.setOpcode .indication)
    forwardRequest cfg i

/-- Forward a request of a user, or transmit one of this MIHF. -/
def forwardOrTransmit (unsolicited : Bool) (o : Ptr) : Svc Unit :=
  if unsolicited then transmit o else forwardRequest cfg o

/-- `discover_service::request_pos_capabilities` -/
def requestPosCapabilities (unsolicited : Bool) (o : Ptr) (pos : MosInfo) : Svc Unit := do
  modifyMsg o fun n => { n with ip := ipText pos.ip, port := pos.port, destination := pos.id }
  forwardOrTransmit cfg unsolicited o

/-- A loop over points of service, with those already asked: those without an address are
returned. -/
def requestAll (unsolicited : Bool) (o : Ptr) :
    List MosInfo → List MosInfo → Svc (List MosInfo × List MosInfo)
  | sent, [] => return (sent, [])
  | sent, pos :: l => do
      if sent.any (·.Same pos) then requestAll unsolicited o sent l
      else if ipText pos.ip = [] then
        let r ← requestAll unsolicited o sent l
        return (r.1, pos :: r.2)
      else
        requestPosCapabilities cfg unsolicited o pos
        requestAll unsolicited o (sent ++ [pos]) l

/-- The discovery mechanism after the one with the identifier `id`; for an unknown one the iterator
is moved past the end. -/
def nextMechanism (id : Bytes) : Svc (Option Bytes) := do
  match cfg.dscvOrder.dropWhile (· ≠ id) with
  | [] => throw .pastEnd
  | _ :: rest => return rest.head?

/-- `discover_service::response` -/
def discoverResponse (i o : Ptr) : Svc Unit := do
  let known ← setUserTid i
  let m ← readMsg i
  if known || cfg.enableUnsolicited then
    let unsolicited := !known
    modifyMsg o fun n => { n with source := if known then m.destination else cfg.mihfid }
    let arg ← parse i discoveryParams
    let cap ← addressGet cfg.mihfid
    compose o (msgId 1 .request 1) cap.toCapabilities.args
    modifyMsg o fun n => { n with destination := [], tid := m.tid }
    match if arg.1 = statusSuccess then arg.2 else none with
    | some val =>
      let dscv := MosDscv.ofVal val
      let is ← requestAll cfg unsolicited o [] dscv.is
      let cs ← requestAll cfg unsolicited o is.1 dscv.cs
      let es ← requestAll cfg unsolicited o cs.1 dscv.es
      let missing : MosDscv := ⟨is.2, cs.2, es.2⟩
      if !(missing.is.isEmpty && missing.cs.isEmpty && missing.es.isEmpty) then
        match ← nextMechanism cfg m.source with
        | some next => do
            compose o (msgId 1 .indication 1) [Element.mosDscv.put missing.toVal]
            modifyMsg o fun n => { n with destination := next }
        | none => modifyMsg o fun n => { n with destination := [] }
        forwardOrTransmit cfg unsolicited o
    | none =>
      match ← nextMechanism cfg m.source with
      | some next => do
          compose o (msgId 1 .indication 1) []
          modifyMsg o fun n => { n with destination := next }
      | none => modifyMsg o fun n => { n with source := m.destination, destination := [] }
      forwardOrTransmit cfg unsolicited o

end Svc

/-! ## Capability discovery -/

namespace Svc

variable (cfg : Config)

/-- `service_management::link_capability_discover_request` -/
def linkCapabilityDiscoverRequest (i o : Ptr) : Svc Unit := do
  let m ← readMsg i
  compose o (msgId 1 .request 1) []
  modifyMsg o fun n => { n with tid := m.tid, destination := m.source }
  unlessInactive cfg m.source (forwardRequest cfg o)

/-- `service_management::piggyback_capabilities` -/
def piggybackCapabilities (i o : Ptr) : Svc Unit := do
  let m ← readMsg i
  let cap ← addressGet cfg.mihfid
  compose o (msgId 1 .request 1) cap.toCapabilities.args
  modifyMsg o fun n => { n with tid := m.tid, source := m.source, destination := m.destination }

/-- The capabilities in a message with the given operation code. -/
def readCapabilities (i : Ptr) : Operation → Svc Capabilities
  | .request => parse i capabilitiesParams
  | .response => do
      let arg ← parse i capabilitiesResponseParams
      return arg.2
  | _ => return {}

/-- `service_management::get_capabilities` -/
def getCapabilities (i : Ptr) : Svc Unit := do
  let m ← readMsg i
  let cap ← readCapabilities i m.opcode
  modifySvc fun s =>
    { s with abook := s.abook.add m.source { toCapabilities := cap, ip := m.ip, port := m.port } }

/-- `service_management::set_capability_discover_response` -/
def setCapabilityDiscoverResponse (i o : Ptr) : Svc Unit := do
  let m ← readMsg i
  let cap ← addressGet cfg.mihfid
  compose o (msgId 1 .response 1) (putStatus statusSuccess :: cap.toCapabilities.args)
  respondTo cfg o m

/-- Transmit the message to each of the users. -/
def transmitTo (i : Ptr) : List Bytes → Svc Unit
  | [] => return ()
  | id :: ids => do
      modifyMsg i fun m => { m with destination := id }
      transmit i
      transmitTo i ids

/-- `service_management::send_indication` -/
def sendIndication (i : Ptr) : Svc Unit := do
  let s ← getSvc
  modifyMsg i (·.setOpcode .indication)
  transmitTo i (s.ubook.keys.filter fun id => id ∉ cfg.dscvOrder)

/-- `service_management::capability_discover_request` -/
def capabilityDiscoverRequest : Handler Services := fun i o => do
  let m ← readMsg i
  if m.isLocal && !cfg.IsDestination m then
    if m.isMulticast && !cfg.dscvOrder.isEmpty then discoverRequest cfg i o
    else
      piggybackCapabilities cfg i o
      forwardRequest cfg o
    return false
  else if m.isLocal && cfg.IsDestination m then
    setCapabilityDiscoverResponse cfg i o
    return true
  else if cfg.IsDestination m || m.isMulticast then
    getCapabilities i
    sendIndication cfg i
    setCapabilityDiscoverResponse cfg i o
    return true
  else return false

/-- The answer of the loop of `capability_discover_response` over all users. -/
def confirmTo (i : Ptr) : List Bytes → Svc Unit
  | [] => return ()
  | id :: ids => do
      modifyMsg i fun m => { m.setOpcode .confirm with source := cfg.mihfid, destination := id }
      transmit i
      confirmTo i ids

/-- `service_management::capability_discover_response` -/
def capabilityDiscoverResponse : Handler Services := fun i o => do
  let m ← readMsg i
  if m.isLocal && m.source ∈ cfg.dscvOrder then
    discoverResponse cfg i o
    return false
  else
    getCapabilities i
    if ← setUserTid i then
      modifyMsg i (·.setOpcode .confirm)
      transmit i
      return false
    else
      -- look for a broadcast request, which has the empty destination
      modifyMsg i fun m => { m with source := [] }
      if ← setUserTid i then
        modifyMsg i fun n => { n.setOpcode .confirm with source := m.source }
        transmit i
        return false
      else
        if cfg.enableUnsolicited then
          let s ← getSvc
          confirmTo cfg i s.ubook.keys
        return false

/-- `service_management::capability_discover_confirm` -/
def capabilityDiscoverConfirm : Handler Services := fun i _o => do
  let m ← readMsg i
  linkReset m.source
  if ← setUserTid i then
    let arg ← parse i linkCapabilitiesParams
    if arg.1 = statusSuccess then
      let event ← ofOptional arg.2.1
      let command ← ofOptional arg.2.2
      modifySvc fun s =>
        { s with lbook := s.lbook.updateCapabilities m.source event command
          }.updateLocalCapabilities cfg
  return false

/-- The loop of the constructor over the configured Link SAPs. -/
def requestLinkCapabilities : List Bytes → Svc Unit
  | [] => return ()
  | id :: ids => do
      let o ← newMsg {}
      compose o (msgId 1 .request 1) []
      modifyMsg o fun n => { n with tid := 0, destination := id }
      forwardRequest cfg o
      requestLinkCapabilities ids

/-- `service_management::service_management` -/
def serviceManagement : Svc Unit := do
  modifySvc fun s => s.updateLocalCapabilities cfg
  let s ← getSvc
  requestLinkCapabilities cfg s.lbook.keys

/-! ## Registration -/

/-- `address_book::set_registration` with a list of links -/
def setRegistrationLinks (id : Bytes) (lil : Option Ty.linkIdList.Val) : Svc Unit :=
  modifySvc fun s =>
    { s with abook := s.abook.modify id fun a =>
      { a with regLinkList := lil, regInterval := some 0 } }

/-- `address_book::set_registration` with an interval -/
def setRegistrationInterval (id : Bytes) (interval : Option (BitVec 16)) : Svc Unit :=
  modifySvc fun s =>
    { s with abook := s.abook.modify id fun a => { a with regInterval := interval } }

/-- Send the message to each of the users, with a pending transaction for each. -/
def indicateTo (i : Ptr) : List Bytes → Svc Unit
  | [] => return ()
  | id :: ids => do
      modifyMsg i fun m => { m with destination := id }
      lpoolAdd i
      transmit i
      indicateTo i ids

/-- `service_management::register_request` -/
def registerRequest : Handler Services := fun i _o => do
  let m ← readMsg i
  if cfg.IsDestination m then
    if m.isLocal then modifyMsg i fun m => { m with source := cfg.mihfid }
    else
      let lil ← parse i Element.linkIdList.get
      setRegistrationLinks m.source (some lil)
    modifyMsg i (·.setOpcode .indication)
    let s ← getSvc
    indicateTo i s.ubook.keys
    modifyMsg i (·.setOpcode .request)
  else
    let lil ← parse i Element.linkIdList.get
    setRegistrationLinks m.destination (some lil)
    forwardRequest cfg i
  return false

/-- `service_management::register_response` -/
def registerResponse : Handler Services := fun i _o => do
  let m ← readMsg i
  if ← setUserTid i then
    let arg ← parse i registerResponseParams
    let n ← readMsg i
    if arg.1 = statusSuccess then
      setRegistrationInterval (if cfg.IsDestination m then n.source else n.destination) (some arg.2)
    if cfg.IsDestination m then modifyMsg i (·.setOpcode .confirm)
    else modifyMsg i fun n => { n with source := cfg.mihfid }
    transmit i
  return false

/-- `service_management::deregister_request` -/
def deregisterRequest : Handler Services := fun i _o => do
  let m ← readMsg i
  if cfg.IsDestination m then
    localSource cfg i
    modifyMsg i (·.setOpcode .indication)
    let s ← getSvc
    indicateTo i s.ubook.keys
    modifyMsg i (·.setOpcode .request)
  else forwardRequest cfg i
  return false

/-- `service_management::deregister_response` -/
def deregisterResponse : Handler Services := fun i _o => do
  let m ← readMsg i
  if ← setUserTid i then
    let st ← parse i Element.status.get
    let n ← readMsg i
    if st = statusSuccess then
      let peer := if cfg.IsDestination m then n.source else n.destination
      setRegistrationLinks peer none
      setRegistrationInterval peer none
    if cfg.IsDestination m then modifyMsg i (·.setOpcode .confirm)
    else modifyMsg i fun n => { n with source := cfg.mihfid }
    transmit i
  return false

/-- `service_management::link_register_indication` -/
def linkRegisterIndication : Handler Services := fun i o => do
  let m ← readMsg i
  let linkId ← LinkId.ofVal <$> parse i Element.interfaceTypeAddr.get
  modifySvc fun s => { s with lbook := s.lbook.add m.source m.ip m.port linkId }
  let cap ← addressGet cfg.mihfid
  let addrs : List (Ty.seq [Ty.networkType, Ty.linkAddr]).Val := cap.listNetTypeAddr.getD []
  let cap := { cap with listNetTypeAddr := some (addrs ++ [linkId.netTypeAddr]) }
  modifySvc fun s => { s with abook := s.abook.add cfg.mihfid cap }
  linkCapabilityDiscoverRequest cfg i o
  return false

/-- `service_management::user_register_indication` -/
def userRegisterIndication : Handler Services := fun i _o => do
  let m ← readMsg i
  let arg ← parse i userRegisterParams
  modifySvc fun s =>
    { s with ubook := s.ubook.add m.source m.ip m.port arg.1 arg.2 }.updateLocalCapabilities cfg
  return false

/-! ## Information service -/

/-- The users with a list of supported queries. -/
def informationUsers (s : Services) : List Bytes :=
  (s.ubook.filter fun u => u.2.suppIq.isSome).map Prod.fst

/-- `information_service::get_information_request` -/
def getInformationRequest : Handler Services := fun i _o => do
  let m ← readMsg i
  if cfg.IsDestination m then
    modifyMsg i (·.setOpcode .indication)
    let s ← getSvc
    indicate cfg i (informationUsers s)
    modifyMsg i (·.setOpcode .request)
  else forwardRequest cfg i
  return false

/-- `information_service::get_information_response` -/
def getInformationResponse : Handler Services := genericCommandResponse cfg

/-- `information_service::push_information_request`: no pending transactions are added for the
local users. -/
def pushInformationRequest : Handler Services := fun i _o => do
  let m ← readMsg i
  if cfg.IsDestination m then
    modifyMsg i (·.setOpcode .indication)
    let s ← getSvc
    unless (informationUsers s).isEmpty do localSource cfg i
    transmitTo i (informationUsers s)
    modifyMsg i (·.setOpcode .request)
  else
    modifyMsg i (·.setOpcode .indication)
    forwardRequest cfg i
  return false

/-- `information_service::push_information_indication` -/
def pushInformationIndication : Handler Services := fun i _o => do
  let m ← readMsg i
  if cfg.IsDestination m then
    modifyMsg i (·.setOpcode .indication)
    let s ← getSvc
    transmitTo i s.ubook.keys
  return false

end Svc

end Odtone.Mihf
