import Odtone.Mihf.Services

/-! # The event service

`event_service`: the list of subscriptions, subscribing and unsubscribing with the Link SAPs, and
the forwarding of link events to the subscribers.
-/

namespace Odtone.Mihf

open List
open Wire (Bytes Ty Element Arg Decoder)

/-! ## Subscriptions -/

/-- The loop body of `event_service::subscribe`: a registration is added once. -/
def addRegistration (l : List EventRegistration) (r : EventRegistration) : List EventRegistration :=
  if l.any r.Same then l else l ++ [r]

/-- `event_service::subscribe` -/
def subscribe (l : List EventRegistration) (user : Bytes) (link : LinkTupleId) (events : Bitmap 4) :
    List EventRegistration :=
  (finRange 32).foldl
    (fun l (i : Fin 32) => if events.get i then addRegistration l ⟨user, link, i⟩ else l) l

/-- `event_service::unsubscribe` -/
def unsubscribe (l : List EventRegistration) (user : Bytes) (link : LinkTupleId)
    (events : Bitmap 4) : List EventRegistration :=
  l.filter fun r => !(r.link.Same link && r.user = user && events.get r.event)

/-- The events somebody is subscribed to on a link. -/
def subscribedEvents (l : List EventRegistration) (link : LinkTupleId) : Bitmap 4 :=
  l.foldl (fun b r => if r.link.Same link then b.set r.event else b) (.empty 4)

/-- The events of `events` that no other user is subscribed to on the link. -/
def unusedEvents (l : List EventRegistration) (user : Bytes) (link : LinkTupleId)
    (events : Bitmap 4) : Bitmap 4 :=
  l.foldl (fun b r => if r.link.Same link then if r.user ≠ user then b.clear r.event else b else b)
    events

/-! ## Link events -/

/-- The link events. -/
inductive LinkEvent where
  | detected
  | up
  | down
  | parametersReport
  | goingDown
  | handoverImminent
  | handoverComplete
  | pduTransmitStatus
  | linkConfRequired
  | l3ConfRequired
deriving DecidableEq

namespace LinkEvent

/-- The position in `mih_evt_list`. -/
def event : LinkEvent → Fin 32
  | .detected => 0
  | .up => 1
  | .down => 2
  | .parametersReport => 3
  | .goingDown => 4
  | .handoverImminent => 5
  | .handoverComplete => 6
  | .pduTransmitStatus => 7
  | .linkConfRequired => 8
  | .l3ConfRequired => 9

/-- The message identifier of the indication. -/
def mid : LinkEvent → UInt16
  | .detected => msgId 2 .indication 1
  | .up => msgId 2 .indication 2
  | .down => msgId 2 .indication 3
  | .parametersReport => msgId 2 .indication 5
  | .goingDown => msgId 2 .indication 6
  | .handoverImminent => msgId 2 .indication 7
  | .handoverComplete => msgId 2 .indication 8
  | .pduTransmitStatus => msgId 2 .indication 9
  | .linkConfRequired => msgId 2 .indication 10
  | .l3ConfRequired => msgId 2 .indication 11

end LinkEvent

/-! ## Parameters -/

/-- `tlv_link_identifier` -/
def linkIdentifier : Decoder LinkTupleId := LinkTupleId.ofVal <$> Element.linkIdentifier.get

def putLinkIdentifier (l : LinkTupleId) : Arg := Element.linkIdentifier.put l.toVal

def putStatus (st : Ty.status.Val) : Arg := Element.status.put st

def putEventList (events : Bitmap 4) : Arg := Element.eventList.put events

/-- The parameters of an event subscribe or unsubscribe request. -/
def subscribeParams : Decoder (LinkTupleId × Bitmap 4) := do
  let link ← linkIdentifier
  let events ← Element.eventList.get
  return (link, events)

/-- The parameters of an event subscribe or unsubscribe response. -/
def subscribeResponseParams : Decoder (Ty.status.Val × LinkTupleId × Option (Bitmap 4)) := do
  let st ← Element.status.get
  let link ← linkIdentifier
  let events ← Element.eventList.getOptional
  return (st, link, events)

/-- The parameters of the confirm of a Link SAP. -/
def subscribeConfirmParams : Decoder (Ty.status.Val × Option (Bitmap 4)) := do
  let st ← Element.status.get
  let events ← Element.linkEvtList.getOptional
  return (st, events)

/-- The parameters of a handover complete indication. -/
structure HandoverComplete where
  oldLink : LinkTupleId
  newLink : LinkTupleId
  oldRouter : Option Ty.linkAddr.Val
  newRouter : Option Ty.linkAddr.Val

def handoverCompleteParams (isLocal : Bool) : Decoder HandoverComplete := do
  let oldLink ← linkIdentifier
  let newLink ← LinkTupleId.ofVal <$> Element.newLinkIdentifier.get
  let oldRouter ← Element.oldAccessRouter.getOptional
  let newRouter ← Element.newAccessRouter.getOptional
  if isLocal then
    let _st ← Element.status.get
  return ⟨oldLink, newLink, oldRouter, newRouter⟩

def HandoverComplete.args (x : HandoverComplete) : List Arg :=
  [putLinkIdentifier x.oldLink, Element.newLinkIdentifier.put x.newLink.toVal,
    Element.oldAccessRouter.putOptional x.oldRouter,
    Element.newAccessRouter.putOptional x.newRouter]

/-! ## Programs -/

namespace Svc

variable (cfg : Config)

/-- `if(in->is_local()) _link_abook.reset(in->source());` -/
def resetIfLocal (i : Ptr) : Svc Unit := do
  let m ← readMsg i
  if m.isLocal then linkReset m.source

/-- `if(msg->is_local()) msg->source(mihfid);` -/
def localSource (i : Ptr) : Svc Unit :=
  modifyMsg i fun m => if m.isLocal then { m with source := cfg.mihfid } else m

/-- The loop over the subscriptions: send the message to the user of each that is selected. -/
def forwardTo (i : Ptr) (select : EventRegistration → Bool) : List EventRegistration → Svc Unit
  | [] => return ()
  | r :: rs => do
      if select r then
        modifyMsg i fun m => { m with destination := r.user }
        transmit i
      forwardTo i select rs

/-- `event_service::msg_forward` -/
def msgForward (i : Ptr) (li : LinkTupleId) (event : Fin 32) : Svc Unit := do
  localSource cfg i
  let s ← getSvc
  forwardTo i (fun r => r.event = event && r.link.Same li) s.subscriptions

/-- `event_service::link_event_forward` -/
def linkEventForward (i : Ptr) (event : Fin 32) : Svc Unit := do
  let li ← parse i linkIdentifier
  msgForward cfg i li event

/-- The indications that are forwarded by their link identifier. -/
def linkEventIndication (e : LinkEvent) (i _o : Ptr) : Svc Bool := do
  resetIfLocal i
  linkEventForward cfg i e.event
  return false

def linkUpIndication : Handler Services := linkEventIndication cfg .up
def linkDownIndication : Handler Services := linkEventIndication cfg .down
def linkGoingDownIndication : Handler Services := linkEventIndication cfg .goingDown
def linkParametersReportIndication : Handler Services := linkEventIndication cfg .parametersReport
def linkPduTransmitStatusIndication : Handler Services := linkEventIndication cfg .pduTransmitStatus
def linkConfRequiredIndication : Handler Services := linkEventIndication cfg .linkConfRequired
def l3ConfRequiredIndication : Handler Services := linkEventIndication cfg .l3ConfRequired

/-- The loop of the handlers that look at the event alone. -/
def forwardByEvent (i : Ptr) (event : Fin 32) : Svc Unit := do
  localSource cfg i
  let s ← getSvc
  forwardTo i (fun r => r.event = event) s.subscriptions

/-- `event_service::link_detected_indication`: the information about one link of a local Link SAP
becomes a list. -/
def linkDetectedIndication : Handler Services := fun i _o => do
  let m ← readMsg i
  if m.isLocal then
    linkReset m.source
    let info ← parse i Element.linkDetInfo.get
    compose i LinkEvent.detected.mid [Element.linkDetInfoList.put [info]]
  forwardByEvent cfg i LinkEvent.detected.event
  return false

/-- `event_service::link_handover_imminent_indication` -/
def linkHandoverImminentIndication : Handler Services := fun i _o => do
  resetIfLocal i
  forwardByEvent cfg i LinkEvent.handoverImminent.event
  return false

/-- `event_service::link_handover_complete_indication`: the status of a local Link SAP is left
out. -/
def linkHandoverCompleteIndication : Handler Services := fun i _o => do
  resetIfLocal i
  let m ← readMsg i
  let args ← parse i (handoverCompleteParams m.isLocal)
  compose i LinkEvent.handoverComplete.mid args.args
  forwardByEvent cfg i LinkEvent.handoverComplete.event
  return false

/-- `event_service::subscribe` -/
def subscribe (user : Bytes) (link : LinkTupleId) (events : Bitmap 4) : Svc Ty.status.Val := do
  modifySvc fun s => { s with subscriptions := Mihf.subscribe s.subscriptions user link events }
  return statusSuccess

/-- `event_service::unsubscribe` -/
def unsubscribe (user : Bytes) (link : LinkTupleId) (events : Bitmap 4) : Svc Ty.status.Val := do
  modifySvc fun s => { s with subscriptions := Mihf.unsubscribe s.subscriptions user link events }
  return statusSuccess

/-- Address the message `o` as the response to the request `m`. -/
def respondTo (o : Ptr) (m : MetaMessage) : Svc Unit :=
  modifyMsg o fun n => { n with tid := m.tid, source := cfg.mihfid, destination := m.source }

/-- `event_service::local_event_subscribe_request` -/
def localEventSubscribeRequest (i o : Ptr) : Svc Bool := do
  let arg ← parse i subscribeParams
  let m ← readMsg i
  let linkId ← searchInterface arg.1.toLinkId
  let s ← getSvc
  if linkId = [] then
    compose o (msgId 1 .response 4) [putStatus statusFailure, putLinkIdentifier arg.1]
    respondTo cfg o m
    return true
  else if arg.2 = subscribedEvents s.subscriptions arg.1 then
    let st ← subscribe m.source arg.1 arg.2
    if st = statusSuccess then
      compose o (msgId 1 .response 4) [putStatus st, putLinkIdentifier arg.1, putEventList arg.2]
    else
      compose o (msgId 1 .response 4) [putStatus st, putLinkIdentifier arg.1]
    respondTo cfg o m
    return true
  else
    compose o (msgId 1 .request 4) [Element.linkEvtList.put (Bitmap.copy (range 32) arg.2)]
    modifyMsg o fun n => { n with destination := linkId, source := m.source, tid := m.tid }
    unlessInactive cfg linkId do
      forwardRequest cfg o
      modifySvc fun s => { s with eventTimer := s.eventTimer.insert m.tid i }
    return false

/-- `event_service::link_event_subscribe_response_timeout` -/
def linkEventSubscribeResponseTimeout (i : Ptr) : Svc Unit := do
  let m ← readMsg i
  modifySvc fun s => { s with eventTimer := s.eventTimer.erase m.tid }
  let o ← newMsg {}
  let link ← parse i linkIdentifier
  compose o (msgId 1 .response 4) [putStatus statusFailure, putLinkIdentifier link]
  respondTo cfg o m
  transmit o

/-- `event_service::event_subscribe_request` -/
def eventSubscribeRequest : Handler Services := fun i o => do
  let m ← readMsg i
  if cfg.IsDestination m then localEventSubscribeRequest cfg i o
  else
    forwardRequest cfg i
    return false

/-- `event_service::event_subscribe_response` -/
def eventSubscribeResponse : Handler Services := fun i _o => do
  if ← setUserTid i then
    let arg ← parse i subscribeResponseParams
    let m ← readMsg i
    if arg.1 = statusSuccess then
      let events ← ofOptional arg.2.2
      let _st ← subscribe m.destination arg.2.1 events
    transmit i
  return false

/-- The part of `event_subscribe_confirm` for a confirm `m` that answers a request of a user. -/
def subscribeConfirmed (i o : Ptr) (m : MetaMessage) : Svc Unit := do
  modifySvc fun s => { s with eventTimer := s.eventTimer.erase m.tid }
  let arg ← parse i subscribeConfirmParams
  let entry ← linkGet m.source
  let link : LinkTupleId := { toLinkId := entry.linkId }
  if arg.1 = statusSuccess then
    let events ← ofOptional arg.2
    let evt := Bitmap.copy (range 32) events
    compose o (msgId 1 .response 4) [putStatus arg.1, putLinkIdentifier link, putEventList evt]
    let n ← readMsg o
    let _st ← subscribe n.destination link evt
  else
    compose o (msgId 1 .response 4) [putStatus arg.1, putLinkIdentifier link]
  modifyMsg o fun n => { n with source := cfg.mihfid }
  transmit o

/-- `event_service::event_subscribe_confirm` -/
def eventSubscribeConfirm : Handler Services := fun i o => do
  let m ← readMsg i
  linkReset m.source
  modifyMsg o fun n => { n with source := m.source }
  if ← setUserTid o then subscribeConfirmed cfg i o m
  return false

/-- `event_service::link_unsubscribe` -/
def linkUnsubscribe (i : Ptr) (link : LinkTupleId) (events : Bitmap 4) : Svc Unit := do
  let m ← readMsg i
  let s ← getSvc
  let unused := unusedEvents s.subscriptions m.source link events
  if unused ≠ .empty 4 then
    compose i (msgId 1 .request 5) [Element.linkEvtList.put (Bitmap.copy (range 32) unused)]
    let linkId ← searchInterface link.toLinkId
    modifyMsg i fun m => { m with destination := linkId, source := cfg.mihfid }
    unlessInactive cfg linkId (forwardRequest cfg i)

/-- `event_service::local_event_unsubscribe_request` -/
def localEventUnsubscribeRequest (i o : Ptr) : Svc Bool := do
  let arg ← parse i subscribeParams
  let m ← readMsg i
  let st ← unsubscribe m.source arg.1 arg.2
  compose o (msgId 1 .response 5) [putStatus st, putLinkIdentifier arg.1, putEventList arg.2]
  respondTo cfg o m
  linkUnsubscribe cfg i arg.1 arg.2
  return true

/-- `event_service::event_unsubscribe_request` -/
def eventUnsubscribeRequest : Handler Services := fun i o => do
  let m ← readMsg i
  if cfg.IsDestination m then localEventUnsubscribeRequest cfg i o
  else
    forwardRequest cfg i
    return false

/-- `event_service::event_unsubscribe_response` -/
def eventUnsubscribeResponse : Handler Services := fun i _o => do
  if ← setUserTid i then
    let arg ← parse i subscribeResponseParams
    let m ← readMsg i
    if arg.1 = statusSuccess then
      let events ← ofOptional arg.2.2
      let _st ← unsubscribe m.destination arg.2.1 events
    modifyMsg i (·.setOpcode .response)
    transmit i
  return false

/-- `event_service::event_unsubscribe_confirm` -/
def eventUnsubscribeConfirm : Handler Services := fun i _o => do
  let m ← readMsg i
  linkReset m.source
  if ← setUserTid i then
    let _arg ← parse i subscribeConfirmParams
  return false

end Svc

end Odtone.Mihf
