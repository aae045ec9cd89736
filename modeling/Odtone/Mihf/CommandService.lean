import Odtone.Mihf.EventService

/-! # The command service

`command_service` and `link_response_pool`: commands for the local Link SAPs, whose answers are
collected or passed on, and handover commands, which are forwarded between peers and local users.
-/

namespace Odtone.Mihf

open Wire (Bytes Ty Element Arg Decoder)

/-! ## The pool of Link SAP answers -/

namespace PendingLinkResponse

/-- Is this the answer of the Link SAP `id` to the transaction `tid`? -/
def Matches (tid : UInt16) (id : Bytes) (r : PendingLinkResponse) : Bool :=
  r.tid = tid && r.user = id

end PendingLinkResponse

/-- `link_response_pool::del` -/
def delResponse (l : List PendingLinkResponse) (tid : UInt16) (id : Bytes) :
    List PendingLinkResponse :=
  l.eraseP (PendingLinkResponse.Matches tid id)

/-- `link_response_pool::find`, where there is an answer -/
def findResponse (l : List PendingLinkResponse) (tid : UInt16) (id : Bytes) :
    Option PendingLinkResponse :=
  l.find? (PendingLinkResponse.Matches tid id)

/-! ## Parameters -/

/-- The parameters of a link get parameters request. -/
def getParametersParams : Decoder (Ty.linkIdList.Val × Ty.linkStatusReq.Val) := do
  let _dsr ← Element.devStatesReq.getOptional
  let lil ← Element.linkIdList.get
  let lsr ← Element.getStatusReqSet.get
  return (lil, lsr)

/-- The request for a Link SAP. -/
def getParametersArgs : Ty.linkStatusReq.Val → List Arg
  | (statesReq, paramTypeList, descReq, ()) =>
    [Element.linkParametersReq.put paramTypeList, Element.linkStatesReq.put statesReq,
      Element.linkDescriptorReq.put descReq]

/-- The parameters of the confirm of a Link SAP. -/
structure GetParametersConfirm where
  st : Ty.status.Val
  params : Option Ty.linkParamList.Val
  states : Option Ty.linkStatesRspList.Val
  descs : Option Ty.linkDescRspList.Val

def getParametersConfirmParams : Decoder GetParametersConfirm := do
  let st ← Element.status.get
  let params ← Element.linkParametersStatusList.getOptional
  let states ← Element.linkStatesRsp.getOptional
  let descs ← Element.linkDescriptorRsp.getOptional
  return ⟨st, params, states, descs⟩

def configureThresholdsParams : Decoder (LinkTupleId × Ty.linkCfgParamList.Val) := do
  let lti ← linkIdentifier
  let lcpl ← Element.linkCfgParamList.get
  return (lti, lcpl)

def configureThresholdsConfirmParams :
    Decoder (Ty.status.Val × Option Ty.linkCfgStatusList.Val) := do
  let st ← Element.status.get
  let lcsl ← Element.linkCfgStatusList.getOptional
  return (st, lcsl)

/-- `status_rsp` -/
abbrev StatusRsp := (Ty.seq [Ty.linkId, Ty.linkStatusRsp]).Val

/-- `link_action_rsp` -/
abbrev LinkActionRsp := (Ty.seq [Ty.linkId, Ty.linkAcResult, Ty.orNull Ty.linkScanRspList]).Val

/-- The parameters of a link get parameters response: a failure if no Link SAP has answered. -/
def statusArgs (srl : List StatusRsp) : List Arg :=
  if srl.isEmpty then [putStatus statusFailure]
  else [putStatus statusSuccess, Element.getStatusRspList.put srl]

/-- The parameters of a link actions response: a failure if no Link SAP has answered. -/
def actionArgs (larl : List LinkActionRsp) : List Arg :=
  if larl.isEmpty then [putStatus statusFailure]
  else [putStatus statusSuccess, Element.linkActionRspList.put larl]

/-- `link_action_req` -/
structure LinkActionReq where
  id : LinkId
  addr : Option Ty.linkAddr.Val
  action : Ty.linkAction.Val
  exTime : Ty.uint16.Val

def LinkActionReq.ofVal :
    (Ty.seq [Ty.linkId, Ty.orNull Ty.linkAddr, Ty.linkAction, Ty.uint16]).Val → LinkActionReq
  | (id, .inl _, action, exTime, ()) => ⟨.ofVal id, none, action, exTime⟩
  | (id, .inr (.inl addr), action, exTime, ()) => ⟨.ofVal id, some addr, action, exTime⟩

/-- Is data forwarding requested? -/
def LinkActionReq.dataFwdReq (r : LinkActionReq) : Bool :=
  let attr : Bitmap 1 := r.action.2.1
  attr.get 2

/-- The request for a Link SAP; the point of attachment is passed on if data forwarding is
requested. -/
def LinkActionReq.args (r : LinkActionReq) : List Arg :=
  [Element.linkAction.put r.action, Element.timeInterval.put r.exTime] ++
    if r.dataFwdReq then (r.addr.map fun a => [Element.poa.put a]).getD [] else []

def actionsConfirmParams :
    Decoder (Ty.status.Val × Option Ty.linkScanRspList.Val × Option Ty.linkAcResult.Val) := do
  let st ← Element.status.get
  let lsrl ← Element.linkScanRspList.getOptional
  let lar ← Element.linkAcResult.getOptional
  return (st, lsrl, lar)

/-- The parameters of a link configuration request. -/
structure LinkConf where
  link : LinkTupleId
  poa : Option Ty.linkAddr.Val
  confl : Ty.configurationList.Val

def linkConfParams : Decoder LinkConf := do
  let link ← linkIdentifier
  let poa ← Element.poa.getOptional
  let confl ← Element.configurationList.get
  return ⟨link, poa, confl⟩

def LinkConf.args (x : LinkConf) : List Arg :=
  [putLinkIdentifier x.link, Element.poa.putOptional x.poa, Element.configurationList.put x.confl]

/-- The parameters of a layer 3 configuration request. -/
structure L3Conf where
  link : LinkTupleId
  cfgMethods : Ty.ipCfgMethods.Val
  addressList : Option Ty.ipInfoList.Val
  routeList : Option Ty.ipInfoList.Val
  dnsList : Option Ty.ipAddrList.Val
  domainList : Option Ty.fqdnList.Val

def l3ConfParams : Decoder L3Conf := do
  let link ← linkIdentifier
  let cfgMethods ← Element.ipCfgMethods.get
  let addressList ← Element.ipAddrList.getOptional
  let routeList ← Element.ipRouteList.getOptional
  let dnsList ← Element.ipDnsList.getOptional
  let domainList ← Element.fqdnList.getOptional
  return ⟨link, cfgMethods, addressList, routeList, dnsList, domainList⟩

def L3Conf.args (x : L3Conf) : List Arg :=
  [putLinkIdentifier x.link, Element.ipCfgMethods.put x.cfgMethods,
    Element.ipAddrList.putOptional x.addressList, Element.ipRouteList.putOptional x.routeList,
    Element.ipDnsList.putOptional x.dnsList, Element.fqdnList.putOptional x.domainList]

/-! ## Programs -/

namespace Svc

variable (cfg : Config)

/-- `_timer[in->tid()] = timer;` -/
def setCommandTimer (t : CommandTimer) (i : Ptr) : Svc Unit := do
  let m ← readMsg i
  modifySvc fun s => { s with commandTimer := s.commandTimer.insert m.tid (t, i) }

/-- `_timer.erase(in->tid());` -/
def eraseCommandTimer (i : Ptr) : Svc Unit := do
  let m ← readMsg i
  modifySvc fun s => { s with commandTimer := s.commandTimer.erase m.tid }

/-- Address the message `o` as the late response to the request `i` and transmit it. -/
def respondLate (o i : Ptr) : Svc Unit := do
  let m ← readMsg i
  modifyMsg o fun n =>
    { n with
      tid := m.tid, destination := m.source, source := cfg.mihfid
      ip := m.ip, scope := m.scope, port := m.port }
  transmit o

/-- The stored answer of the Link SAP `id` to `tid`, with the link of the Link SAP; it is removed
from the pool. -/
def takeResponse (tid : UInt16) (id : Bytes) : Svc (Option (LinkId × LinkResponse)) := do
  let s ← getSvc
  match findResponse s.lrpool tid id with
  | some r => do
      let a ← linkGet id
      setSvc { s with lrpool := delResponse s.lrpool tid id }
      return some (a.linkId, r.response)
  | none => return none

/-- The loop of `link_get_parameters_response_handler` -/
def collectStatus (tid : UInt16) : List Bytes → Svc (List StatusRsp)
  | [] => return []
  | id :: ids => do
      match ← takeResponse tid id with
      | none => collectStatus tid ids
      | some (lid, .status rsp) => do
          let srl ← collectStatus tid ids
          return (lid.toVal, rsp, ()) :: srl
      | some (_, .action _ _) => throw .badGet

/-- `command_service::link_get_parameters_response_handler` -/
def linkGetParametersResponseHandler (i : Ptr) : Svc Unit := do
  eraseCommandTimer i
  let m ← readMsg i
  let o ← newMsg {}
  let s ← getSvc
  let srl ← collectStatus m.tid s.lbook.keys
  compose o (msgId 3 .response 1) (statusArgs srl)
  respondLate cfg o i

/-- Address the message to the Link SAP of the link, and do `act` if there is one and it is
active. -/
def toLink (o : Ptr) (lid : LinkId) (act : Svc Unit) : Svc Unit := do
  let dst ← searchInterface lid
  modifyMsg o fun n => { n with destination := dst }
  if dst ≠ [] then unlessInactive cfg dst act

/-- The loop over the links of a link get parameters request. -/
def requestStatus (o : Ptr) : List LinkId → Svc Unit
  | [] => return ()
  | lid :: lil => do
      toLink cfg o lid (forwardRequest cfg o)
      requestStatus o lil

/-- `command_service::link_get_parameters_request` -/
def linkGetParametersRequest : Handler Services := fun i o => do
  let m ← readMsg i
  if cfg.IsDestination m then
    let arg ← parse i getParametersParams
    compose o (msgId 3 .request 1) (getParametersArgs arg.2)
    modifyMsg o fun n => { n with tid := m.tid, source := cfg.mihfid }
    requestStatus cfg o (List.map LinkId.ofVal arg.1)
    setCommandTimer .linkGetParameters i
  else forwardRequest cfg i
  return false

/-- A response is forwarded to the user whose request it answers. -/
def forwardResponse : Handler Services := fun i _o => do
  if ← setUserTid i then transmit i
  return false

/-- `command_service::link_get_parameters_response` -/
def linkGetParametersResponse : Handler Services := forwardResponse

/-- `link_response_pool::add` -/
def lrpoolAdd (i : Ptr) (response : LinkResponse) : Svc Unit := do
  let m ← readMsg i
  modifySvc fun s => { s with lrpool := s.lrpool ++ [⟨m.source, m.tid, response⟩] }

/-- A confirm of a Link SAP whose answer is stored if it belongs to a request. -/
def storeConfirm (store : Ptr → Svc Unit) : Handler Services := fun i _o => do
  let m ← readMsg i
  linkReset m.source
  if ← setUserTid i then store i
  return false

/-- Store the status of a link. -/
def storeStatus (i : Ptr) : Svc Unit := do
  let arg ← parse i getParametersConfirmParams
  if arg.st = statusSuccess then
    let states ← ofOptional arg.states
    let params ← ofOptional arg.params
    let descs ← ofOptional arg.descs
    lrpoolAdd i (.status (states, params, descs, ()))

/-- `command_service::link_get_parameters_confirm` -/
def linkGetParametersConfirm : Handler Services := storeConfirm storeStatus

/-- `command_service::link_configure_thresholds_response_timeout` -/
def linkConfigureThresholdsResponseTimeout (i : Ptr) : Svc Unit := do
  eraseCommandTimer i
  let m ← readMsg i
  let o ← newMsg {}
  let link ← parse i linkIdentifier
  compose o (msgId 3 .response 2) [putStatus statusFailure, putLinkIdentifier link]
  respondTo cfg o m
  transmit o

/-- `command_service::link_configure_thresholds_request` -/
def linkConfigureThresholdsRequest : Handler Services := fun i o => do
  let m ← readMsg i
  if cfg.IsDestination m then
    let arg ← parse i configureThresholdsParams
    compose o (msgId 3 .request 2) [Element.linkCfgParamList.put arg.2]
    let dst ← searchInterface arg.1.toLinkId
    modifyMsg o fun n => { n with destination := dst, source := m.source, tid := m.tid }
    if dst = [] then
      compose o (msgId 3 .response 2) [putStatus statusFailure, putLinkIdentifier arg.1]
      respondTo cfg o m
      return true
    else
      unlessInactive cfg dst do
        forwardRequest cfg o
        setCommandTimer .linkConfigureThresholds i
      return false
  else
    forwardRequest cfg i
    return false

/-- `command_service::link_configure_thresholds_response` -/
def linkConfigureThresholdsResponse : Handler Services := forwardResponse

/-- `command_service::link_configure_thresholds_confirm` -/
def linkConfigureThresholdsConfirm : Handler Services := fun i o => do
  let m ← readMsg i
  linkReset m.source
  modifyMsg o fun n => { n with source := m.source }
  if ← setUserTid o then
    eraseCommandTimer i
    let entry ← linkGet m.source
    let li : LinkTupleId := { toLinkId := entry.linkId }
    let arg ← parse i configureThresholdsConfirmParams
    compose o (msgId 3 .response 2)
      [putStatus arg.1, putLinkIdentifier li, Element.linkCfgStatusList.putOptional arg.2]
    modifyMsg o fun n => { n with source := cfg.mihfid }
    transmit o
  return false

/-- `lar.scan_list` after an answer. The entry `lar` is reused, so an answer without a scan list
keeps the one of the answer before it. -/
def nextScan (scan : (Ty.orNull Ty.linkScanRspList).Val) :
    Option Ty.linkScanRspList.Val → (Ty.orNull Ty.linkScanRspList).Val
  | some l => .inr (.inl l)
  | none => scan

/-- The loop of `link_actions_response_handler` -/
def collectActions (tid : UInt16) (scan : (Ty.orNull Ty.linkScanRspList).Val) :
    List Bytes → Svc (List LinkActionRsp)
  | [] => return []
  | id :: ids => do
      match ← takeResponse tid id with
      | none => collectActions tid scan ids
      | some (lid, .action result lsrl) => do
          let larl ← collectActions tid (nextScan scan lsrl) ids
          return (lid.toVal, result, nextScan scan lsrl, ()) :: larl
      | some (_, .status _) => throw .badGet

/-- `command_service::link_actions_response_handler` -/
def linkActionsResponseHandler (i : Ptr) : Svc Unit := do
  eraseCommandTimer i
  let m ← readMsg i
  let o ← newMsg {}
  let s ← getSvc
  let larl ← collectActions m.tid (.inl ()) s.lbook.keys
  compose o (msgId 3 .response 3) (actionArgs larl)
  respondLate cfg o i

/-- The loop over the actions of a link actions request `m`. -/
def requestActions (o : Ptr) (m : MetaMessage) : List LinkActionReq → Svc Unit
  | [] => return ()
  | lar :: lal => do
      toLink cfg o lar.id do
        compose o (msgId 3 .request 3) lar.args
        modifyMsg o fun n => { n with tid := m.tid, source := cfg.mihfid }
        forwardRequest cfg o
      requestActions o m lal

/-- `command_service::link_actions_request` -/
def linkActionsRequest : Handler Services := fun i o => do
  let m ← readMsg i
  if cfg.IsDestination m then
    let lal ← parse i Element.linkActionList.get
    requestActions cfg o m (List.map LinkActionReq.ofVal lal)
    setCommandTimer .linkActions i
  else forwardRequest cfg i
  return false

/-- `command_service::link_actions_response` -/
def linkActionsResponse : Handler Services := forwardResponse

/-- Store the result of an action. -/
def storeAction (i : Ptr) : Svc Unit := do
  let arg ← parse i actionsConfirmParams
  if arg.1 = statusSuccess then
    let lar ← ofOptional arg.2.2
    lrpoolAdd i (.action lar arg.2.1)

/-- `command_service::link_actions_confirm` -/
def linkActionsConfirm : Handler Services := storeConfirm storeAction

/-! ## Link and layer 3 configuration -/

/-- `link_conf_response_handler` and `l3_conf_response_handler` -/
def confResponseHandler (aid : UInt16) (i : Ptr) : Svc Unit := do
  eraseCommandTimer i
  let o ← newMsg {}
  compose o (msgId 3 .response aid) [putStatus statusFailure]
  respondLate cfg o i

def linkConfResponseHandler : Ptr → Svc Unit := confResponseHandler cfg 12
def l3ConfResponseHandler : Ptr → Svc Unit := confResponseHandler cfg 13

/-- `link_conf_request` and `l3_conf_request`. The message for a Link SAP that has just become
inactive has no content, but is sent. -/
def confRequest {α : Type} (aid : UInt16) (t : CommandTimer) (params : Decoder α)
    (link : α → LinkTupleId) (args : α → List Arg) : Handler Services := fun i o => do
  let m ← readMsg i
  if cfg.IsDestination m then
    let x ← parse i params
    let dst ← searchInterface (link x).toLinkId
    modifyMsg o fun n => { n with destination := dst }
    if dst ≠ [] then
      unlessInactive cfg dst (compose o (msgId 3 .request aid) (args x))
      modifyMsg o fun n => { n with tid := m.tid, source := m.source }
      forwardRequest cfg o
    setCommandTimer t i
  else forwardRequest cfg i
  return false

def linkConfRequest : Handler Services :=
  confRequest cfg 12 .linkConf linkConfParams LinkConf.link LinkConf.args

def l3ConfRequest : Handler Services :=
  confRequest cfg 13 .l3Conf l3ConfParams L3Conf.link L3Conf.args

/-- `link_conf_confirm` and `l3_conf_confirm`: the timer is looked up by the identifier of the
user. -/
def confConfirm : Handler Services := fun i _o => do
  let m ← readMsg i
  linkReset m.source
  if ← setUserTid i then
    eraseCommandTimer i
    transmit i
  return false

def linkConfConfirm : Handler Services := confConfirm
def l3ConfConfirm : Handler Services := confConfirm
def linkConfResponse : Handler Services := forwardResponse
def l3ConfResponse : Handler Services := forwardResponse

/-! ## Handover commands -/

/-- Send the message to each of the users; a pending transaction is added for each, and the source
of a local message becomes this MIHF once the first has been added. -/
def indicate (i : Ptr) : List Bytes → Svc Unit
  | [] => return ()
  | id :: ids => do
      modifyMsg i fun m => { m with destination := id }
      lpoolAdd i
      localSource cfg i
      transmit i
      indicate i ids

/-- `command_service::generic_command_request` -/
def genericCommandRequest (cmd : Nat) : Handler Services := fun i _o => do
  let m ← readMsg i
  if cfg.IsDestination m then
    modifyMsg i (·.setOpcode .indication)
    let s ← getSvc
    indicate cfg i ((s.ubook.filter fun u => (u.2.suppCmd.map (·.get cmd)).getD false).map Prod.fst)
    modifyMsg i (·.setOpcode .request)
  else forwardRequest cfg i
  return false

/-- `command_service::generic_command_response` -/
def genericCommandResponse : Handler Services := fun i _o => do
  let m ← readMsg i
  if ← setUserTid i then
    if cfg.IsDestination m then modifyMsg i (·.setOpcode .confirm)
    else modifyMsg i fun n => { n with source := cfg.mihfid }
    transmit i
  return false

def netHoCandidateQueryRequest : Handler Services := genericCommandRequest cfg 3
def netHoCandidateQueryResponse : Handler Services := genericCommandResponse cfg
def mnHoCandidateQueryRequest : Handler Services := genericCommandRequest cfg 4
def mnHoCandidateQueryResponse : Handler Services := genericCommandResponse cfg
def n2nHoQueryResourcesRequest : Handler Services := genericCommandRequest cfg 3
def n2nHoQueryResourcesResponse : Handler Services := genericCommandResponse cfg
def mnHoCommitRequest : Handler Services := genericCommandRequest cfg 4
def mnHoCommitResponse : Handler Services := genericCommandResponse cfg
def netHoCommitRequest : Handler Services := genericCommandRequest cfg 3
def netHoCommitResponse : Handler Services := genericCommandResponse cfg
def mnHoCompleteRequest : Handler Services := genericCommandRequest cfg 4
def mnHoCompleteResponse : Handler Services := genericCommandResponse cfg
def n2nHoCommitRequest : Handler Services := genericCommandRequest cfg 3
def n2nHoCommitResponse : Handler Services := genericCommandResponse cfg
def n2nHoCompleteRequest : Handler Services := genericCommandRequest cfg 3
def n2nHoCompleteResponse : Handler Services := genericCommandResponse cfg

/-! ## Timers -/

/-- The handler of an expired timer of the command service. -/
def commandTimeout : CommandTimer → Ptr → Svc Unit
  | .linkGetParameters => linkGetParametersResponseHandler cfg
  | .linkConfigureThresholds => linkConfigureThresholdsResponseTimeout cfg
  | .linkActions => linkActionsResponseHandler cfg
  | .linkConf => linkConfResponseHandler cfg
  | .l3Conf => l3ConfResponseHandler cfg

end Svc

end Odtone.Mihf
