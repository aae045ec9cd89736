import Odtone.Mihf.ServiceLogic
import Odtone.Mihf.ServiceManagement

/-! # The service access controller

The table of handlers that `main.cpp` registers, `sac_dispatch` for the messages of local users and
Link SAPs, and `sac_process_message` for those of peers, which the transactions call. The two catch
different exceptions. With the controller, an `MIHF` is a node that reacts to datagrams on its two
ports, to ticks and to timers.
-/

namespace Odtone.Mihf

open Wire (Bytes)

namespace Svc

variable (cfg : Config)

/-- The registered handlers. -/
def callbacks : List (UInt16 × Handler Services) :=
  [(msgId 1 .request 1, capabilityDiscoverRequest cfg),
    (msgId 1 .response 1, capabilityDiscoverResponse cfg),
    (msgId 1 .confirm 1, capabilityDiscoverConfirm cfg),
    (msgId 1 .request 2, registerRequest cfg),
    (msgId 1 .response 2, registerResponse cfg),
    (msgId 1 .request 3, deregisterRequest cfg),
    (msgId 1 .response 3, deregisterResponse cfg),
    (msgId 1 .indication 6, linkRegisterIndication cfg),
    (msgId 1 .indication 7, userRegisterIndication cfg),
    (msgId 1 .request 4, eventSubscribeRequest cfg),
    (msgId 1 .response 4, eventSubscribeResponse),
    (msgId 1 .confirm 4, eventSubscribeConfirm cfg),
    (msgId 1 .request 5, eventUnsubscribeRequest cfg),
    (msgId 1 .response 5, eventUnsubscribeResponse),
    (msgId 1 .confirm 5, eventUnsubscribeConfirm),
    (LinkEvent.up.mid, linkUpIndication cfg),
    (LinkEvent.down.mid, linkDownIndication cfg),
    (LinkEvent.detected.mid, linkDetectedIndication cfg),
    (LinkEvent.goingDown.mid, linkGoingDownIndication cfg),
    (LinkEvent.parametersReport.mid, linkParametersReportIndication cfg),
    (LinkEvent.handoverImminent.mid, linkHandoverImminentIndication cfg),
    (LinkEvent.handoverComplete.mid, linkHandoverCompleteIndication cfg),
    (LinkEvent.linkConfRequired.mid, linkConfRequiredIndication cfg),
    (LinkEvent.l3ConfRequired.mid, l3ConfRequiredIndication cfg),
    (msgId 3 .request 1, linkGetParametersRequest cfg),
    (msgId 3 .response 1, linkGetParametersResponse),
    (msgId 3 .confirm 1, linkGetParametersConfirm),
    (msgId 3 .request 2, linkConfigureThresholdsRequest cfg),
    (msgId 3 .response 2, linkConfigureThresholdsResponse),
    (msgId 3 .confirm 2, linkConfigureThresholdsConfirm cfg),
    (msgId 3 .request 3, linkActionsRequest cfg),
    (msgId 3 .response 3, linkActionsResponse),
    (msgId 3 .confirm 3, linkActionsConfirm),
    (msgId 3 .request 4, netHoCandidateQueryRequest cfg),
    (msgId 3 .response 4, netHoCandidateQueryResponse cfg),
    (msgId 3 .request 5, mnHoCandidateQueryRequest cfg),
    (msgId 3 .response 5, mnHoCandidateQueryResponse cfg),
    (msgId 3 .request 6, n2nHoQueryResourcesRequest cfg),
    (msgId 3 .response 6, n2nHoQueryResourcesResponse cfg),
    (msgId 3 .request 7, mnHoCommitRequest cfg),
    (msgId 3 .response 7, mnHoCommitResponse cfg),
    (msgId 3 .request 8, netHoCommitRequest cfg),
    (msgId 3 .response 8, netHoCommitResponse cfg),
    (msgId 3 .request 9, n2nHoCommitRequest cfg),
    (msgId 3 .response 9, n2nHoCommitResponse cfg),
    (msgId 3 .request 10, mnHoCompleteRequest cfg),
    (msgId 3 .response 10, mnHoCompleteResponse cfg),
    (msgId 3 .request 11, n2nHoCompleteRequest cfg),
    (msgId 3 .response 11, n2nHoCompleteResponse cfg),
    (msgId 3 .request 12, linkConfRequest cfg),
    (msgId 3 .confirm 12, linkConfConfirm),
    (msgId 3 .response 12, linkConfResponse),
    (msgId 3 .request 13, l3ConfRequest cfg),
    (msgId 3 .confirm 13, l3ConfConfirm),
    (msgId 3 .response 13, l3ConfResponse),
    (msgId 4 .request 1, getInformationRequest cfg),
    (msgId 4 .response 1, getInformationResponse cfg),
    (msgId 4 .request 2, pushInformationRequest cfg),
    (msgId 4 .indication 2, pushInformationIndication cfg)]

/-- The handler of a message identifier. -/
def callback (mid : UInt16) : Option (Handler Services) :=
  ((callbacks cfg).find? fun c => c.1 = mid).map Prod.snd

/-- What `sac_dispatch` catches. -/
def discardLocal : Fault → Svc Unit
  | .wire .badTlv | .unknownLinkSap | .unknownMihUser => return ()
  | e => throw e

variable {out : Ptr → M Services Unit} {s : Node Services}

/-- Whether it is caught or not, the exception changes nothing. -/
theorem post_discardLocal {e : Fault} {P : Node Services → Prop} (h : P s) :
    Post out (discardLocal e) s (fun _ => P) (fun _ => P) := by
  unfold discardLocal
  split <;> exact h

/-- `sac_dispatch::operator()` -/
def sacDispatch (i : Ptr) : Svc Unit := do
  let m ← readMsg i
  match callback cfg m.mid with
  | none => return ()
  | some processMessage => do
      let o ← newMsg { tid := m.tid }
      tryCatch (do if ← processMessage i o then transmit o) discardLocal

/-- What `sac_process_message` catches. -/
def discardRemote : Fault → Svc (Option Bool)
  | .wire .badTlv => return none
  | e => throw e

/-- `sac_process_message` -/
def sacProcessMessage : Handler Services := fun i o => do
  let m ← readMsg i
  if m.source = cfg.mihfid then return false
  else if !cfg.IsDestination m && !m.isMulticast then return false
  else
    match callback cfg m.mid with
    | none => return false
    | some processMessage => do
        let rsp ← tryCatch (some <$> processMessage i o) discardRemote
        match rsp with
        | none => return false
        | some rsp => do
            let m ← readMsg i
            modifyMsg o fun n =>
              { n with ip := m.ip, scope := m.scope, port := m.port, tid := m.tid }
            return rsp

/-! ## Inputs of an MIHF -/

/-- A datagram on the local port. -/
def recvLocal (m : MetaMessage) : Svc Unit := do
  let i ← newMsg { m with isLocal := true }
  sacDispatch cfg i

end Svc

/-- The node when the handler of a local message starts: the message and an empty one for the
response are its two newest. -/
def Node.receiving (s : Node Services) (m : MetaMessage) : Node Services :=
  { s with msgs := (s.msgs.push { m with isLocal := true }).push { tid := m.tid } }

theorem Node.get_receiving (s : Node Services) (m : MetaMessage) :
    (s.receiving m).msgs.get s.msgs.next = { m with isLocal := true } := by
  rw [Node.receiving, Store.get_push_of_lt (Nat.lt_succ_self _), Store.get_push_next]

namespace Svc

variable (cfg : Config) {E : Fault → Node Services → Prop}

variable {m : MetaMessage} {h : Handler Services} {i o : Ptr} {Q : Bool → Node Services → Prop}

theorem post_recvLocal {cfg : Config}
    {U : Unit → Node Services → Prop} (hcb : callback cfg m.mid = some h) :
    Post out (recvLocal cfg m) s U E ↔ Post out (h s.msgs.next (s.msgs.next + 1)) (s.receiving m)
        (fun r s' =>
          (r = true → Post out (transmit (s.msgs.next + 1)) s' U
            fun e s' => Post out (discardLocal e) s' U E) ∧
          (r = false → U () s')) (fun e s' => Post out (discardLocal e) s' U E) := by
  simp only [recvLocal, sacDispatch, post_bind, post_newMsg, post_readMsg, Store.get_push_next, hcb,
    post_tryCatch, post_ite, post_pure, Bool.not_eq_true]
  rfl

/-- A message that comes from this MIHF, or is for another, is discarded. -/
theorem post_sacProcessMessage_discarded {cfg : Config} (hi : s.msgs.get i = m)
    (h : ¬(m.source ≠ cfg.mihfid ∧ (cfg.IsDestination m = true ∨ m.isMulticast = true))) :
    Post out (sacProcessMessage cfg i o) s Q E ↔ Q false s := by
  rw [sacProcessMessage, post_bind, post_readMsg, hi]
  by_cases hsource : m.source = cfg.mihfid
  · rw [if_pos hsource, post_pure]
  · have hnot : (!cfg.IsDestination m && !m.isMulticast) = true := by grind
    rw [if_neg hsource, if_pos hnot, post_pure]

/-- A message of a peer for this MIHF, with the handler `h`. -/
theorem post_sacProcessMessage {cfg : Config}
    (hi : s.msgs.get i = m) (hsource : m.source ≠ cfg.mihfid)
    (hdst : cfg.IsDestination m = true ∨ m.isMulticast = true) (hcb : callback cfg m.mid = some h) :
    Post out (sacProcessMessage cfg i o) s Q E ↔ Post out (h i o) s
        (fun r s' => Q r { s' with msgs := s'.msgs.update o fun n =>
          { n with ip := (s'.msgs.get i).ip, scope := (s'.msgs.get i).scope
                   port := (s'.msgs.get i).port, tid := (s'.msgs.get i).tid } })
        fun e s' => if e = .wire .badTlv then Q false s' else E e s' := by
  have hnot : (!cfg.IsDestination m && !m.isMulticast) = false := by
    rcases hdst with hdst | hdst <;> simp [hdst]
  have hdiscard : ∀ (e : Fault) (s' : Node Services) (U : Option Bool → Node Services → Prop),
      Post out (discardRemote e) s' U E ↔ if e = .wire .badTlv then U none s' else E e s' := by
    intro e s' U
    unfold discardRemote
    split
    · rw [if_pos rfl, post_pure]
    · next hne => rw [if_neg hne, post_throw]
  simp only [sacProcessMessage, post_bind, post_readMsg, hi, post_ite, hsource, hnot,
    hcb, post_tryCatch,
    post_map, hdiscard, post_modifyMsg, post_pure, Bool.false_eq_true, false_implies, true_implies,
    not_false_eq_true, true_and]

/-- The timer of the event service set for `tid` expires. -/
def eventTimerExpires (tid : UInt16) : Svc Unit := do
  match (← getSvc).eventTimer.get? tid with
  | some i => linkEventSubscribeResponseTimeout cfg i
  | none => return ()

/-- The timer of the command service set for `tid` expires. -/
def commandTimerExpires (tid : UInt16) : Svc Unit := do
  match (← getSvc).commandTimer.get? tid with
  | some (t, i) => commandTimeout cfg t i
  | none => return ()

/-- The once-a-second tick of the address book. -/
def addressTick : Svc Unit :=
  modifySvc fun s =>
    { s with abook := s.abook.map fun e =>
        (e.1, { e.2 with regInterval := e.2.regInterval.map (· - 1) }) }

end Svc

end Odtone.Mihf
