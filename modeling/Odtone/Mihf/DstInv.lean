import Odtone.Mihf.Moves
import Odtone.Mihf.Step

/-! # Pooled destination transactions

Every destination transaction in the pool is going on and is in one of two phases: it waits for the
response of a local user, having acknowledged the request if that was asked for, or it has sent the
response and waits for the acknowledgement of it. `DstInv` states both phases; the lemmas here say
that a machine step keeps it as long as the transaction is still going on, and that the transaction
is otherwise ready to be deleted.
-/

namespace Odtone.Mihf

/-- The transaction waits for a response. The retransmission timer is not in use but is counted
down all the same, from zero, so it mirrors the life time. -/
structure Waiting (t : DstTransaction) : Prop where
  requestor : t.startAckRequestor = false
  reqState : t.ackReqState = .init
  reqStatus : t.ackRequestorStatus = .ongoing
  out : t.msgOutAvail = false
  responder : t.startAckResponder = true → t.ackRspState = .returnAck ∧ t.msgInAvail = false
  timer : t.retransmissionWhen = (2 ^ 32 - (15 - t.transactionStopWhen)) % 2 ^ 32

/-- Invariant of the destination transactions in the pool. -/
structure DstInv (t : DstTransaction) : Prop where
  status : t.transactionStatus = .ongoing
  stop : 0 < t.transactionStopWhen ∧ t.transactionStopWhen ≤ 15
  phase : t.state = .waitResponsePrm ∧ Waiting t ∨
    t.state = .sendResponse ∧ t.startAckRequestor = true

/-- What a step leaves: a transaction that satisfies the invariant, or one that has finished. -/
def DstDone (t : DstTransaction) : Prop := DstInv t ∨ t.Finished = true

variable {t : DstTransaction}

theorem DstInv.state_ne_init (h : DstInv t) : t.state ≠ .init := by
  rcases h.phase with ⟨h, -⟩ | ⟨h, -⟩ <;> simp [h]

theorem DstInv.waiting (h : DstInv t) (hst : t.state = .waitResponsePrm) : Waiting t := by
  rcases h.phase with ⟨-, hw⟩ | ⟨hs, -⟩
  · exact hw
  · rw [hst] at hs
    cases hs

theorem DstInv.sending (h : DstInv t) (hst : t.state ≠ .waitResponsePrm) :
    t.state = .sendResponse ∧ t.startAckRequestor = true := by
  rcases h.phase with ⟨hw, -⟩ | hs
  · exact absurd hw hst
  · exact hs

/-- What `_init_lbl_` leaves in front of the call of `process_message`. -/
structure Called (t : DstTransaction) : Prop where
  status : t.transactionStatus = .ongoing
  stop : t.transactionStopWhen = 15
  requestor : t.startAckRequestor = false
  reqState : t.ackReqState = .init
  reqStatus : t.ackRequestorStatus = .ongoing
  rspState : t.ackRspState = .init
  noInput : t.msgInAvail = false
  timer : t.retransmissionWhen = 0

namespace Machine

variable {x : Machine DstState}

/-! ## The response -/

/-- Behind the response the transaction goes on exactly while its acknowledgement is awaited. -/
theorem dstSendResponse_done (hst : x.t.state = .sendResponse)
    (hs : x.t.transactionStatus = .ongoing)
    (hstop : 0 < x.t.transactionStopWhen ∧ x.t.transactionStopWhen ≤ 15)
    (hr : x.t.startAckRequestor = true) :
    DstDone x.dstSendResponse.t ∧ x.dstSendResponse.t.state ≠ .waitResponsePrm := by
  unfold dstSendResponse
  rw [hr]
  split_ifs with h₁ h₂
  · have h : x.t.ackRequestorStatus = .success := by simpa using h₁
    exact ⟨.inr (by simp [dstSuccess, Transaction.Finished, h]), by simp [dstSuccess]⟩
  · exact ⟨.inr (by simp [dstFailure, Transaction.Finished, h₂]), by simp [dstFailure]⟩
  · exact ⟨.inl ⟨hs, hstop, .inr ⟨hst, hr⟩⟩, by simp [hst]⟩

theorem reqTestAck_eq {S : Type} (x : Machine S) : x.reqTestAck.t = { x.t with
      ackReqState := if x.t.msgInAvail && x.inMsg.ackrsp then .success else x.t.ackReqState
      ackRequestorStatus :=
        if x.t.msgInAvail && x.inMsg.ackrsp then .success else x.t.ackRequestorStatus } := by
  unfold reqTestAck
  split
  · rfl
  · rfl

theorem reqInit_eq {S : Type} (x : Machine S) : x.reqInit.t = { x.t with
      rtxctr := 0, retransmissionWhen := 5
      ackReqState := if x.t.msgInAvail && x.inMsg.ackrsp then .success else .waitAck
      ackRequestorStatus := if x.t.msgInAvail && x.inMsg.ackrsp then .success else .ongoing } :=
  (reqTestAck_eq _).trans rfl

/-- The response, once available and acknowledging what it has to, is sent and is the only thing
sent; its acknowledgement is then awaited. -/
theorem dstSendResponseBegin_eq (hreq : x.t.ackReqState = .init) (hack : x.outMsg.ackreq = true) :
    x.dstSendResponseBegin.t = { x.t with
        state := .sendResponse, startAckRequestor := true
        rtxctr := 0, retransmissionWhen := 5, ackRequestorStatus := .ongoing
        ackReqState := if x.t.msgInAvail && x.inMsg.ackrsp then .success else .waitAck } ∧
      x.dstSendResponseBegin.msgs = x.msgs ∧
      x.dstSendResponseBegin.log = x.log ++ [.send x.owner .response x.t.outMsg x.outMsg] := by
  unfold dstSendResponseBegin
  extract_lets y₁ y₂
  have hstart : y₁.t.startAckRequestor = true := hack
  have hinit : y₁.startedAckRequestor = y₁.reqInit := by
    simp only [startedAckRequestor, hstart, ackRequestor]
    rw [show y₁.t.ackReqState = .init from hreq]
    rfl
  have hsilent : Silent x y₂ :=
    ((Silent.assign x rfl rfl).trans (hinit ▸ silent_reqInit y₁)).trans (.assign _ rfl rfl)
  have ht : y₂.t = { x.t with
        state := .sendResponse, startAckRequestor := true
        rtxctr := 0, retransmissionWhen := 5, ackRequestorStatus := .ongoing
        ackReqState := if x.t.msgInAvail && x.inMsg.ackrsp then .success else .waitAck } := by
    have hy₁ : y₁.t = { x.t with state := .sendResponse, startAckRequestor := true } := by
      simp only [y₁, assign_t, hack]
    have hin : y₁.inMsg = x.inMsg := rfl
    simp only [y₂, assign_t, hinit, reqInit_eq, hin, hy₁]
  have hgo : (y₂.send .response y₂.t.outMsg).dstSendResponse = y₂.send .response y₂.t.outMsg := by
    simp [dstSendResponse, ht]
  have howner : y₂.owner = x.owner := by
    simp only [Machine.owner, hsilent.side, hsilent.ptr, hsilent.key]
  rw [hgo]
  refine ⟨ht, hsilent.msgs, ?_⟩
  rw [send_log, hsilent.log, hsilent.msgs, howner, ht]
  rfl

theorem dstWaitResponsePrm_of_not_avail (hstop : x.t.transactionStopWhen ≠ 0)
    (hout : x.t.msgOutAvail = false) :
    x.dstWaitResponsePrm = x.assign fun t => { t with state := .waitResponsePrm } := by
  simp [dstWaitResponsePrm, hstop, hout]

theorem dstWaitResponsePrm_of_avail (hstop : x.t.transactionStopWhen ≠ 0)
    (hout : x.t.msgOutAvail = true) (hack : x.t.startAckResponder = true → x.outMsg.ackrsp = true) :
    x.dstWaitResponsePrm =
      (x.assign fun t => { t with state := .waitResponsePrm }).dstSendResponseBegin := by
  have hready : (x.t.msgOutAvail && (!x.t.startAckResponder || x.outMsg.ackrsp)) = true := by
    cases hr : x.t.startAckResponder
    · simp [hout]
    · simp [hout, hack hr]
  exact (if_neg hstop).trans (if_pos hready)

theorem dstSendResponseBegin_live (x : Machine DstState) :
    x.dstSendResponseBegin.t.state ≠ .init := by
  unfold dstSendResponseBegin
  extract_lets y₁ y₂
  have hst : y₂.t.state = .sendResponse := (SameCourse.startedAckRequestor y₁).state
  unfold dstSendResponse
  split_ifs
  · simp [dstSuccess]
  · simp [dstFailure]
  · simp [hst]

/-- The message `o` as a response: if an acknowledgement is owed, it takes it along. -/
def piggybacked (x : Machine DstState) (o : Ptr) : MetaMessage :=
  { x.msgs.get o with ackrsp := (x.msgs.get o).ackrsp || x.t.startAckResponder }

variable {o i : Ptr} {y : Machine DstState} {rsp : Bool}

/-- A response submitted to a waiting transaction. -/
theorem out_waiting (h : Waiting x.t) :
    ∃ rsp dup, (x.t.startAckResponder = true → rsp = .piggybacking ∧ dup = o) ∧ (x.out o).t =
        { x.t with outMsg := o, msgOutAvail := true, ackRspState := rsp, dup := dup } ∧
      (x.out o).owner = x.owner ∧ (x.out o).log = x.log ∧ (x.out o).outMsg = x.piggybacked o := by
  have hreq : (x.submit o).startedAckRequestor = x.submit o := by
    simp [startedAckRequestor, submit, h.requestor]
  unfold out
  rw [hreq]
  by_cases hr : x.t.startAckResponder = true
  · obtain ⟨hst, hin⟩ := h.responder hr
    refine ⟨.piggybacking, o, fun _ => ⟨rfl, rfl⟩, ?_⟩
    simp [startedAckResponder, ackResponder, rspReturnAck, rspPiggybacking, submit, hr, hst, hin,
      owner, Transaction.key, outMsg, piggybacked]
  · refine ⟨x.t.ackRspState, x.t.dup, fun h => absurd h hr, ?_⟩
    simp [startedAckResponder, submit, hr, owner, Transaction.key, outMsg, piggybacked]

/-- The first response submitted to a waiting transaction is sent at once, and nothing else is. -/
theorem dstRun_out_waiting (h : DstInv x.t) (hst : x.t.state = .waitResponsePrm)
    (hack : (x.msgs.get o).ackreq = true) :
    ∃ rsp dup st, (x.t.startAckResponder = true → rsp = .piggybacking ∧ dup = o) ∧
      ((x.t.msgInAvail && x.inMsg.ackrsp) = false → st = .waitAck) ∧
      (x.out o).dstRun.1.t = { x.t with
          outMsg := o, msgOutAvail := true, ackRspState := rsp, dup := dup
          state := .sendResponse, startAckRequestor := true, rtxctr := 0, retransmissionWhen := 5
          ackRequestorStatus := .ongoing, ackReqState := st } ∧
      (x.out o).dstRun.1.log = x.log ++ [.send x.owner .response o (x.piggybacked o)] := by
  obtain ⟨rsp, dup, hrsp, ht, howner, hlog, hmsg⟩ := out_waiting (h.waiting hst)
  have hkeep : x.t.startAckResponder = false → (x.out o).inMsg = x.inMsg := fun hr => by
    simp [out, startedAckRequestor, startedAckResponder, submit, (h.waiting hst).requestor, hr,
      inMsg]
  generalize x.out o = y at *
  have hstop : y.t.transactionStopWhen ≠ 0 := by
    rw [ht]
    exact h.stop.1.ne'
  have hrun : y.dstRun.1 =
      (y.assign fun t => { t with state := .waitResponsePrm }).dstSendResponseBegin := by
    have : y.t.state = .waitResponsePrm := by rw [ht]; exact hst
    simp only [dstRun, this]
    refine dstWaitResponsePrm_of_avail hstop (by rw [ht]) fun hr => ?_
    rw [ht] at hr
    have hr : x.t.startAckResponder = true := hr
    simp [hmsg, piggybacked, hr]
  have hinit : y.t.ackReqState = .init := by rw [ht]; exact (h.waiting hst).reqState
  have hreq : y.outMsg.ackreq = true := by rw [hmsg]; exact hack
  obtain ⟨g₁, -, g₃⟩ := dstSendResponseBegin_eq
    (x := y.assign fun t => { t with state := .waitResponsePrm }) hinit hreq
  rw [hrun]
  refine ⟨rsp, dup, if y.t.msgInAvail && y.inMsg.ackrsp then .success else .waitAck, hrsp, ?_, ?_,
    g₃.trans ?_⟩
  · intro hin
    have havail : y.t.msgInAvail = x.t.msgInAvail := by rw [ht]
    -- a responder that has started has taken what came in
    cases hr : x.t.startAckResponder with
    | true => rw [havail, ((h.waiting hst).responder hr).2]; rfl
    | false => rw [havail, hkeep hr, hin]; rfl
  · rw [g₁]
    simp only [assign_t, ht]
    rfl
  · simp only [assign_log, assign_t, hlog, ht, ← howner, ← hmsg]
    rfl

theorem sameCourse_out {S : Type} {x : Machine S} (o : Ptr) : SameCourse x (x.out o) :=
  ((SameCourse.submit x o).trans (.startedAckRequestor _)).trans (.startedAckResponder _)

theorem sameCourse_dstIn (i : Ptr) : SameCourse x (x.dstIn i) :=
  (SameCourse.receive x i).trans (.startedAckRequestor _)

section

variable (h : DstInv x.t) (hst : x.t.state ≠ .waitResponsePrm) (hy : SameCourse x y)
include h hst hy

theorem sending_sameCourse : DstInv y.t := by
  obtain ⟨hsend, hreq⟩ := h.sending hst
  exact ⟨hy.status.trans h.status, hy.stop ▸ h.stop,
    .inr ⟨hy.state.trans hsend, hy.requestor.trans hreq⟩⟩

/-- Behind the response, whatever the acknowledgement machines do, a run leaves the transaction
going on or finished. -/
theorem dstRun_done_of_sending : DstDone y.dstRun.1.t ∧ y.dstRun.1.t.state ≠ .waitResponsePrm := by
  obtain ⟨hsend, hreq⟩ := h.sending hst
  have hs : y.t.state = .sendResponse := hy.state.trans hsend
  have hrun : y.dstRun.1 = y.dstSendResponse := by simp only [dstRun, hs]
  rw [hrun]
  exact dstSendResponse_done hs (hy.status.trans h.status) (hy.stop ▸ h.stop)
    (hy.requestor.trans hreq)

end

theorem dstRun_out_done (h : DstInv x.t) (hack : (x.msgs.get o).ackreq = true) :
    DstDone (x.out o).dstRun.1.t := by
  by_cases hst : x.t.state = .waitResponsePrm
  · obtain ⟨rsp, dup, st, -, -, ht, -⟩ := dstRun_out_waiting h hst hack
    rw [ht]
    exact .inl ⟨h.status, h.stop, .inr ⟨rfl, rfl⟩⟩
  · exact (dstRun_done_of_sending h hst (sameCourse_out o)).1

/-- `message_in` on a waiting transaction: the message is acknowledged if that is asked for, and
otherwise only kept. -/
theorem dstIn_waiting (h : DstInv x.t) (hst : x.t.state = .waitResponsePrm) :
    (x.dstIn i).dstRun.1.dstInAck.t =
      { x.t with inMsg := i, msgInAvail := !x.t.startAckResponder } ∧
      (x.dstIn i).dstRun.1.dstInAck.log = x.log ++
        if x.t.startAckResponder then [.send x.owner .ack 0 x.t.ack] else [] := by
  have hw := h.waiting hst
  have hstop : x.t.transactionStopWhen ≠ 0 := h.stop.1.ne'
  have hin : (x.dstIn i).dstRun.1 = x.receive i := by
    have : x.dstIn i = x.receive i := by
      simp [dstIn, startedAckRequestor, receive, hw.requestor]
    rw [this]
    have hrst : (x.receive i).t.state = .waitResponsePrm := hst
    have hself : ((x.receive i).assign fun t => { t with state := .waitResponsePrm }) =
        x.receive i := by
      rw [← hrst]
      rfl
    simp only [dstRun, hrst, dstWaitResponsePrm, hself]
    simp [receive, hstop, hw.out]
  rw [hin]
  have hon : (x.receive i).t.transactionStatus = .ongoing := h.status
  unfold dstInAck
  rw [if_pos hon]
  cases hr : x.t.startAckResponder with
  | false => simp [startedAckResponder, receive, hr]
  | true =>
    have hret := (hw.responder hr).1
    simp [startedAckResponder, ackResponder, rspReturnAck, receive, hr, hret, owner,
      Transaction.key]

theorem dstIn_done (h : DstInv x.t) : DstDone (x.dstIn i).dstRun.1.dstInAck.t := by
  by_cases hst : x.t.state = .waitResponsePrm
  · obtain ⟨ht, -⟩ := dstIn_waiting h hst
    have hw := h.waiting hst
    rw [ht]
    refine .inl ⟨h.status, h.stop, .inl ⟨hst, ⟨hw.requestor, hw.reqState, hw.reqStatus, hw.out, ?_,
      hw.timer⟩⟩⟩
    intro hr
    have hr : x.t.startAckResponder = true := hr
    exact ⟨(hw.responder hr).1, by simp [hr]⟩
  · obtain ⟨hdone, hst'⟩ := dstRun_done_of_sending h hst (sameCourse_dstIn i)
    generalize (x.dstIn i).dstRun.1 = y at *
    unfold dstInAck
    split
    · next hs =>
        rcases hdone with hinv | hfin
        · exact .inl (sending_sameCourse hinv hst' (.startedAckResponder y))
        · simp [Transaction.Finished, hs] at hfin
    · exact hdone

/-! ## A new transaction -/

/-- A response that wants no acknowledgement ends the transaction. -/
theorem dstSendResponseBegin_of_not_ackreq (hack : x.outMsg.ackreq = false) :
    x.dstSendResponseBegin.t = { x.t with
        state := .success, startAckRequestor := false, ackRequestorStatus := .ongoing
        transactionStatus := .success } ∧
      x.dstSendResponseBegin.log = x.log ++ [.send x.owner .response x.t.outMsg x.outMsg] := by
  unfold dstSendResponseBegin
  simp [startedAckRequestor, hack, dstSendResponse, dstSuccess]
  exact ⟨rfl, rfl⟩

/-- Without a response at hand, the acknowledgement responder of a new transaction sends the
acknowledgement, if it is wanted. -/
theorem respond_later (h : Called x.t) :
    (x.assign fun t => { t with msgOutAvail := false }).startedAckResponder.t = { x.t with
        msgOutAvail := false
        ackRspState := if x.t.startAckResponder then .returnAck else x.t.ackRspState
        ack := if x.t.startAckResponder then x.ackMessage else x.t.ack } ∧
      (x.assign fun t => { t with msgOutAvail := false }).startedAckResponder.log =
        x.log ++ if x.t.startAckResponder then [.send x.owner .ack 0 x.ackMessage] else [] := by
  have hmsg : (x.assign fun t => { t with msgOutAvail := false }).ackMessage = x.ackMessage := rfl
  unfold startedAckResponder
  cases hr : x.t.startAckResponder with
  | false => simp [hr]
  | true => simp [hr, ackResponder, h.rspState, rspInit, rspReturnAck, h.noInput, owner, hmsg,
      Transaction.key]

/-- With a response at hand, the response takes the acknowledgement along, if it is wanted. -/
theorem respond_now (h : Called x.t) :
    ∃ st dup ack, (x.t.startAckResponder = true → st = .piggybacking ∧ dup = x.t.outMsg) ∧
      (x.assign fun t => { t with msgOutAvail := true }).startedAckResponder.t =
        { x.t with msgOutAvail := true, ackRspState := st, dup := dup, ack := ack } ∧
      (x.assign fun t => { t with msgOutAvail := true }).startedAckResponder.log = x.log ∧
      (x.assign fun t => { t with msgOutAvail := true }).startedAckResponder.outMsg =
        x.piggybacked x.t.outMsg := by
  unfold startedAckResponder
  by_cases hr : x.t.startAckResponder = true
  · refine ⟨.piggybacking, x.t.outMsg, x.ackMessage, fun _ => ⟨rfl, rfl⟩, ?_⟩
    simp [hr, ackResponder, h.rspState, rspInit, rspPiggybacking, h.noInput, outMsg, piggybacked]
    rfl
  · exact ⟨x.t.ackRspState, x.t.dup, x.t.ack, fun h => absurd h hr, by
      simp [hr, outMsg, piggybacked]⟩

theorem opcode_respond (x : Machine DstState) (rsp : Bool) :
    (x.assign fun t => { t with msgOutAvail := rsp }).startedAckResponder.t.opcode =
    x.t.opcode := by
  obtain ⟨avail, st, dup, ack, ht⟩ :=
    (x.assign fun t => { t with msgOutAvail := rsp }).responds_startedAckResponder.t
  rw [ht]
  rfl

/-- Behind the call a request goes on to wait for its response. -/
theorem dstResume_of_request (hop : x.t.opcode = .request ∨ x.t.opcode = .confirm) :
    x.dstResume rsp =
      (x.assign fun t => { t with msgOutAvail := rsp }).startedAckResponder.dstWaitResponsePrm := by
  unfold dstResume
  rcases hop with hop | hop <;> simp only [opcode_respond, hop]

/-- A request that is not answered at once is acknowledged, if that is asked for, and waits. -/
theorem dstResume_later (h : Called x.t) (hop : x.t.opcode = .request ∨ x.t.opcode = .confirm) :
    (x.dstResume false).t = { x.t with
        state := .waitResponsePrm, msgOutAvail := false
        ackRspState := if x.t.startAckResponder then .returnAck else x.t.ackRspState
        ack := if x.t.startAckResponder then x.ackMessage else x.t.ack } ∧
      (x.dstResume false).log =
        x.log ++ if x.t.startAckResponder then [.send x.owner .ack 0 x.ackMessage] else [] := by
  obtain ⟨ht, hlog⟩ := respond_later h
  rw [dstResume_of_request hop,
    dstWaitResponsePrm_of_not_avail (by rw [ht]; simp [h.stop]) (by rw [ht])]
  exact ⟨by rw [assign_t, ht], hlog⟩

section

variable (h : Called x.t) (hon : (x.dstResume rsp).t.transactionStatus = .ongoing)
include h hon

/-- A new transaction that goes on: it waits for a response, or has been given one by
`process_message` and has sent it. -/
theorem dstResume_cases : (x.t.opcode = .request ∨ x.t.opcode = .confirm) ∧
    ((x.dstResume rsp).t = { x.t with
          state := .waitResponsePrm, msgOutAvail := false
          ackRspState := if x.t.startAckResponder then .returnAck else x.t.ackRspState
          ack := if x.t.startAckResponder then x.ackMessage else x.t.ack } ∧
        (x.dstResume rsp).log =
          x.log ++ (if x.t.startAckResponder then [.send x.owner .ack 0 x.ackMessage] else []) ∨
      ∃ st dup ack, (x.t.startAckResponder = true → st = .piggybacking ∧ dup = x.t.outMsg) ∧
        (x.dstResume rsp).t = { x.t with
            msgOutAvail := true, ackRspState := st, dup := dup, ack := ack
            state := .sendResponse, startAckRequestor := true, rtxctr := 0, retransmissionWhen := 5
            ackRequestorStatus := .ongoing, ackReqState := .waitAck } ∧
        ∃ q m, (x.dstResume rsp).log = x.log ++ [.send x.owner .response q m]) := by
  have hop : x.t.opcode = .request ∨ x.t.opcode = .confirm := by
    unfold dstResume at hon
    simp only [opcode_respond] at hon
    cases hcase : x.t.opcode with
    | request => exact .inl rfl
    | confirm => exact .inr rfl
    | indication | response => simp [hcase, dstSuccess] at hon
  refine ⟨hop, ?_⟩
  cases rsp with
  | false => exact .inl (dstResume_later h hop)
  | true =>
    obtain ⟨st, dup, ack, hst, ht, hlog, hmsg⟩ := respond_now h
    have howner := ((Moves.assign x (f := fun t => { t with msgOutAvail := true }) rfl rfl).trans
      (moves_startedAckResponder _)).owner
    rw [dstResume_of_request hop] at hon ⊢
    generalize (x.assign fun t => { t with msgOutAvail := true }).startedAckResponder = y at *
    have hack : y.t.startAckResponder = true → y.outMsg.ackrsp = true := fun hr => by
      rw [ht] at hr
      have hr : x.t.startAckResponder = true := hr
      rw [hmsg]
      simp [piggybacked, hr]
    rw [dstWaitResponsePrm_of_avail (by rw [ht]; simp [h.stop]) (by rw [ht]) hack] at hon ⊢
    cases hreq : y.outMsg.ackreq with
    | false =>
      rw [(dstSendResponseBegin_of_not_ackreq
        (x := y.assign fun t => { t with state := .waitResponsePrm }) hreq).1] at hon
      cases hon
    | true =>
      obtain ⟨ht', -, hlog'⟩ := dstSendResponseBegin_eq
        (x := y.assign fun t => { t with state := .waitResponsePrm }) (by simp [ht, h.reqState])
        hreq
      refine .inr ⟨st, dup, ack, hst, ?_, y.t.outMsg, y.outMsg, hlog'.trans ?_⟩
      · rw [ht', assign_t, ht]
        simp [h.noInput]
      · rw [← hlog, ← howner]
        rfl

/-- Whatever `process_message` answers, the new transaction satisfies the invariant if it goes
on. -/
theorem dstResume_inv : DstInv (x.dstResume rsp).t := by
  have hstop : 0 < x.t.transactionStopWhen ∧ x.t.transactionStopWhen ≤ 15 := by simp [h.stop]
  obtain ⟨-, ⟨ht, -⟩ | ⟨st, dup, ack, -, ht, -⟩⟩ := dstResume_cases h hon
  · rw [ht]
    refine ⟨h.status, hstop, .inl ⟨rfl, h.requestor, h.reqState, h.reqStatus, rfl, ?_, ?_⟩⟩
    · intro hr
      have hr : x.t.startAckResponder = true := hr
      exact ⟨by simp [hr], h.noInput⟩
    · simp [h.stop, h.timer]
  · rw [ht]
    exact ⟨h.status, hstop, .inr ⟨rfl, rfl⟩⟩

end

/-! ## The tick

The loop body of `transaction_pool::dec` for a machine whose runs make no call. -/

section Tick

variable {S : Type} (run : Machine S → Machine S)

/-- The life time. -/
def life (x : Machine S) : Machine S :=
  let x := x.decStop
  if x.t.transactionStopWhen = 0 then run x else x

/-- The retransmission timer. -/
def timer (x : Machine S) : Machine S :=
  if x.t.ackRequestorStatus = .ongoing then
    let x := x.decRetransmission
    if x.t.retransmissionWhen = 0 then run x.ackRequestor else x
  else x

end Tick

/-- A transaction that has come to an end. -/
def DstOver (t : DstTransaction) : Prop :=
  t.transactionStatus ≠ .ongoing ∧ (t.state = .success ∨ t.state = .failure)

theorem dstOver_dstSuccess (x : Machine DstState) : DstOver x.dstSuccess.t :=
  ⟨by simp [dstSuccess], .inl rfl⟩

theorem dstOver_dstFailure (x : Machine DstState) : DstOver x.dstFailure.t :=
  ⟨by simp [dstFailure], .inr rfl⟩

theorem dstRun_over (h : x.t.state = .success ∨ x.t.state = .failure) : DstOver x.dstRun.1.t := by
  rcases h with h | h
  · simp only [dstRun, h]
    exact dstOver_dstSuccess x
  · simp only [dstRun, h]
    exact dstOver_dstFailure x

/-- A transaction that has come to an end stays there. -/
theorem dstTimer_over (h : DstOver x.t) :
    (x.timer (·.dstRun.1)).t.transactionStatus ≠ .ongoing := by
  unfold timer
  extract_lets y
  split_ifs
  · refine (dstRun_over ?_).1
    rw [(SameCourse.ackRequestor y).state]
    exact h.2
  · exact h.1
  · exact h.1

theorem dstSendResponse_cases (x : Machine DstState) :
    x.dstSendResponse = x ∨ DstOver x.dstSendResponse.t := by
  unfold dstSendResponse
  split_ifs
  · exact .inr (dstOver_dstSuccess x)
  · exact .inr (dstOver_dstFailure x)
  · exact .inl rfl

theorem decUnsigned_of_pos {n : Nat} (h : 0 < n) : decUnsigned n = n - 1 := if_neg h.ne'

theorem decStop_stop {S : Type} {x : Machine S} (h : 0 < x.t.transactionStopWhen) :
    x.decStop.t.transactionStopWhen = x.t.transactionStopWhen - 1 :=
  decUnsigned_of_pos h

theorem dstLife (h : DstInv x.t) (h0 : x.decStop.t.transactionStopWhen = 0) :
    (x.life (·.dstRun.1)).t.transactionStopWhen = 0 ∧
        (x.life (·.dstRun.1)).t.transactionStatus = .ongoing ∨ DstOver (x.life (·.dstRun.1)).t := by
  have hlife : x.life (·.dstRun.1) = x.decStop.dstRun.1 := if_pos h0
  rw [hlife]
  by_cases hst : x.t.state = .waitResponsePrm
  · have hst' : x.decStop.t.state = .waitResponsePrm := hst
    have hrun : x.decStop.dstRun.1 = x.decStop.dstFailure := by
      simp [dstRun, dstWaitResponsePrm, hst', h0, dstFailure, assign]
    rw [hrun]
    exact .inr (dstOver_dstFailure _)
  · have hst' : x.decStop.t.state = .sendResponse := (h.sending hst).1
    simp only [dstRun, hst']
    rcases dstSendResponse_cases x.decStop with heq | hover
    · rw [heq]
      exact .inl ⟨h0, h.status⟩
    · exact .inr hover

/-- The retransmission timer of a transaction that waits does not ring. -/
theorem dstTimer_waiting (h : DstInv x.t) (hst : x.t.state = .waitResponsePrm)
    (hstop : x.decStop.t.transactionStopWhen ≠ 0) :
    x.decStop.timer (·.dstRun.1) = x.decStop.decRetransmission ∧
      DstInv x.decStop.decRetransmission.t := by
  have hdec := decStop_stop h.stop.1
  have hle := h.stop
  have hw := h.waiting hst
  have hz0 : x.decStop.decRetransmission.t.retransmissionWhen ≠ 0 := by
    simp only [decStop, decRetransmission, assign_t, hw.timer, decUnsigned]
    split <;> omega
  refine ⟨(if_pos hw.reqStatus).trans (if_neg hz0), h.status, ?_, .inl ⟨hst, hw.requestor,
    hw.reqState, hw.reqStatus, hw.out, hw.responder, ?_⟩⟩
  · simp only [decRetransmission, assign_t, hdec]
    omega
  · simp only [decRetransmission, assign_t, hdec]
    simp only [decStop, assign_t, hw.timer, decUnsigned]
    split <;> omega

/-- The second part of the loop body: the retransmission timer. -/
theorem dstTimer_done (h : DstInv x.t) (hstop : x.decStop.t.transactionStopWhen ≠ 0) :
    DstDone (x.decStop.timer (·.dstRun.1)).t := by
  have hdec := decStop_stop h.stop.1
  have hle := h.stop
  by_cases hst : x.t.state = .waitResponsePrm
  · obtain ⟨heq, hinv⟩ := dstTimer_waiting h hst hstop
    rw [heq]
    exact .inl hinv
  · have hsend := h.sending hst
    unfold timer
    extract_lets y
    have hy : DstInv y.t := ⟨h.status, by simp only [y, decRetransmission, assign_t]; omega,
      .inr hsend⟩
    split_ifs
    · exact (dstRun_done_of_sending hy hst (.ackRequestor y)).1
    · exact .inl hy
    · exact .inl ⟨h.status, by omega, .inr hsend⟩

theorem dstRun_live (h : x.t.state ≠ .init) : x.dstRun.1.t.state ≠ .init := by
  unfold dstRun
  split
  · next hst => exact absurd hst h
  · unfold dstWaitResponsePrm
    extract_lets y
    split_ifs
    · simp [dstFailure]
    · exact dstSendResponseBegin_live y
    · simp [y]
  · rcases dstSendResponse_cases x with heq | hover
    · rw [heq]
      exact h
    · rcases hover.2 with h | h <;> simp [h]
  · simp [dstFailure]
  · simp [dstSuccess]

end Machine

end Odtone.Mihf
