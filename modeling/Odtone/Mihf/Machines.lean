import Odtone.Mihf.Transaction

/-! # Source and destination machines

`src_transaction_t::run` and `dst_transaction_t::run`. A run returns whether it stopped in front of
a call of `process_message`; the caller makes the call and then resumes the machine.
-/

namespace Odtone.Mihf.Machine

/-! ## Source transactions -/

section Src

variable (x : Machine SrcState)

/-- `_failure_lbl_` -/
def srcFailure : Machine SrcState :=
  x.assign fun t => { t with transactionStatus := .failure, state := .failure }

/-- `_success_lbl_` -/
def srcSuccess : Machine SrcState :=
  x.assign fun t => { t with transactionStatus := .success, state := .success }

/-- `_wait_ack_lbl_` -/
def srcWaitAck : Machine SrcState :=
  let x := x.assign fun t => { t with state := .waitAck }
  match x.t.ackRequestorStatus with
  | .success => x.srcSuccess
  | .failure => x.srcFailure
  | .ongoing => x

/-- `_process_msg_lbl_` up to the call of `process_message(in, out)`. -/
def srcProcessMsg : Machine SrcState :=
  let x := x.assign fun t =>
    { t with state := .processMsg, startAckResponder := x.inMsg.ackreq, msgOutAvail := false }
  x.startedAckResponder

/-- `_wait_response_msg_lbl_` -/
def srcWaitResponseMsg : Machine SrcState × Bool :=
  let x := x.assign fun t => { t with state := .waitResponseMsg }
  if x.t.transactionStopWhen = 0 then
    (if x.t.responseReceived then x.srcSuccess else x.srcFailure, false)
  else if x.t.msgInAvail then (x.srcProcessMsg, true)
  else (x, false)

/-- `_init_lbl_`. An operation that is none of the three reaches `assert(0)`, which a release build
does not have, and runs into `_wait_ack_lbl_`. -/
def srcInit : Machine SrcState × Bool :=
  let o := x.outMsg
  let x := x.assign fun t =>
    { t with
      transactionStatus := .ongoing, responseReceived := false, transactionStopWhen := 15,
      opcode := o.opcode, isMulticast := o.isMulticast,
      startAckRequestor := o.ackreq && !o.isMulticast, tid := o.tid, myMihfId := o.source,
      peerMihfId := o.destination }
  let x := (x.send .initial x.t.outMsg).startedAckRequestor
  match x.t.opcode with
  | .indication =>
    if x.t.startAckRequestor then
      ((x.assign fun t => { t with ackRequestorStatus := .ongoing }).srcWaitAck, false)
    else (x.srcSuccess, false)
  | .response => (x.srcSuccess, false)
  | .request => x.srcWaitResponseMsg
  | .confirm => (x.srcWaitAck, false)

/-- `src_transaction_t::run()`, up to a call of `process_message`. -/
def srcRun : Machine SrcState × Bool :=
  match x.t.state with
  | .init => x.srcInit
  | .waitResponseMsg => x.srcWaitResponseMsg
  | .waitAck => (x.srcWaitAck, false)
  | .processMsg => (x.srcProcessMsg, true)
  | .failure => (x.srcFailure, false)
  | .success => (x.srcSuccess, false)

/-- `_process_msg_lbl_` behind the call of `process_message`. The input flag has just been cleared,
so the jump back to `_wait_response_msg_lbl_` does not reach a second call. -/
def srcResume : Machine SrcState :=
  let x := x.assign fun t => { t with msgInAvail := false, responseReceived := true }
  if x.t.isMulticast then x.srcWaitResponseMsg.1 else x.srcSuccess

end Src

/-! ## Destination transactions -/

section Dst

variable (x : Machine DstState)

/-- `_failure_lbl_` -/
def dstFailure : Machine DstState :=
  x.assign fun t => { t with state := .failure, transactionStatus := .failure }

/-- `_success_lbl_` -/
def dstSuccess : Machine DstState :=
  x.assign fun t => { t with state := .success, transactionStatus := .success }

/-- `_send_response_lbl_` -/
def dstSendResponse : Machine DstState :=
  if !x.t.startAckRequestor || x.t.ackRequestorStatus = .success then x.dstSuccess
  else if x.t.ackRequestorStatus = .failure then x.dstFailure
  else x

/-- `_send_response_begin_lbl_` -/
def dstSendResponseBegin : Machine DstState :=
  let x := x.assign fun t =>
    { t with state := .sendResponse, startAckRequestor := x.outMsg.ackreq }
  let x := x.startedAckRequestor.assign fun t => { t with ackRequestorStatus := .ongoing }
  (x.send .response x.t.outMsg).dstSendResponse

/-- `_wait_response_prm_lbl_` -/
def dstWaitResponsePrm : Machine DstState :=
  let x := x.assign fun t => { t with state := .waitResponsePrm }
  if x.t.transactionStopWhen = 0 then x.dstFailure
  else if x.t.msgOutAvail && (!x.t.startAckResponder || x.outMsg.ackrsp) then
    x.dstSendResponseBegin
  else x

/-- `_init_lbl_` up to the call of `process_message(in, out)`, for which `out` is a new message. -/
def dstInit : Machine DstState :=
  let i := x.inMsg
  let x := x.assign fun t =>
    { t with
      transactionStatus := .ongoing, opcode := i.opcode, tid := i.tid, transactionStopWhen := 15,
      isMulticast := i.isMulticast, peerMihfId := i.source, myMihfId := i.destination,
      startAckResponder := i.ackreq && !i.isMulticast, msgInAvail := false,
      outMsg := x.msgs.next }
  { x with msgs := x.msgs.push {} }

/-- `_init_lbl_` behind the call, which returned `rsp`. -/
def dstResume (rsp : Bool) : Machine DstState :=
  let x := (x.assign fun t => { t with msgOutAvail := rsp }).startedAckResponder
  match x.t.opcode with
  | .request => x.dstWaitResponsePrm
  | .indication => x.dstSuccess
  | .response => x.dstSuccess
  | .confirm => x.dstWaitResponsePrm

/-- `dst_transaction_t::run()`, up to a call of `process_message`. -/
def dstRun : Machine DstState × Bool :=
  match x.t.state with
  | .init => (x.dstInit, true)
  | .waitResponsePrm => (x.dstWaitResponsePrm, false)
  | .sendResponse => (x.dstSendResponse, false)
  | .failure => (x.dstFailure, false)
  | .success => (x.dstSuccess, false)

end Dst

end Odtone.Mihf.Machine
