import Odtone.Support.Pool
import Odtone.Support.Store
import Odtone.Wire.Message

/-! # Transactions

The state machines of `src/mihf/transaction.hpp`, `src_transaction.cpp` and `dst_transaction.cpp`.
A transaction is a heap object, and so are the messages it points to: several transactions and the
services may share one message, and whoever writes it changes what the others see. The one message
nobody else has a pointer to, the acknowledgement, is a field of the transaction.

Each label of a state machine is a function here, under the label's name, and a jump is a call.
The two labels at which a machine calls `process_message` end the function; what comes behind the
call is a function of its own (`srcResume`, `dstResume`). The rest of a machine is then a pure
function of the transaction and the messages.

Everything a machine hands to `net_sap::send` is appended to a log together with the reason, which
is how later statements speak about what was sent. Sending itself is taken to succeed.
-/

namespace Odtone.Mihf

open Wire (Bytes Message)

/-- `mih::id` -/
abbrev Id := Bytes

/-- Pointers to heap objects; `0` is the null pointer. -/
abbrev Ptr := Nat

/-! ## Messages -/

/-- `mih::operation::type` -/
inductive Operation where
  | confirm
  | request
  | response
  | indication
deriving DecidableEq

namespace Operation

def code : Operation → UInt16
  | confirm => 0
  | request => 1
  | response => 2
  | indication => 3

/-- The operation a two-bit code stands for. -/
def ofCode (c : UInt16) : Operation :=
  if c = 0 then confirm else if c = 1 then request else if c = 2 then response else indication

end Operation

/-- `meta_message`: a message with where it came from. -/
structure MetaMessage extends Message where
  isLocal : Bool := false
  ip : Bytes := []
  scope : UInt16 := 0
  port : UInt16 := 0
deriving DecidableEq

namespace MetaMessage

/-- `message::opcode()` -/
def opcode (m : MetaMessage) : Operation := .ofCode ((m.mid &&& (0x0c00 : UInt16)) >>> 10)

/-- `message::opcode(v)` -/
def setOpcode (m : MetaMessage) (v : Operation) : MetaMessage :=
  { m with mid := (m.mid &&& (0xf3ff : UInt16)) ||| (v.code <<< 10) }

/-- `message::has_service_specific_tlv()` -/
def hasServiceSpecificTlv (m : MetaMessage) : Bool := !m.payload.isEmpty

/-- `utils::is_multicast` -/
def isMulticast (m : MetaMessage) : Bool := m.destination.isEmpty

end MetaMessage

/-! ## The transaction record -/

/-- `status_t` -/
inductive Status where
  | ongoing
  | success
  | failure
deriving DecidableEq

/-- `ack_responder_state_t` -/
inductive AckRspState where
  | init
  | returnAck
  | piggybacking
  | returnDuplicate
deriving DecidableEq

/-- `ack_requestor_state_t` -/
inductive AckReqState where
  | init
  | waitAck
  | retransmit
  | success
  | failure
deriving DecidableEq

/-- `src_transaction_state_t` -/
inductive SrcState where
  | init
  | waitResponseMsg
  | waitAck
  | processMsg
  | failure
  | success
deriving DecidableEq

/-- `dst_transaction_state_t` -/
inductive DstState where
  | init
  | waitResponsePrm
  | sendResponse
  | failure
  | success
deriving DecidableEq

/-- `transaction_t` with the state of the derived class. -/
structure Transaction (S : Type) where
  state : S
  opcode : Operation := .confirm
  mid : UInt16 := 0
  ackRequestorStatus : Status := .ongoing
  transactionStopWhen : Nat := 0
  retransmissionWhen : Nat := 0
  tid : UInt16 := 0
  myMihfId : Id := []
  peerMihfId : Id := []
  inMsg : Ptr := 0
  msgInAvail : Bool := false
  outMsg : Ptr := 0
  msgOutAvail : Bool := false
  transactionStatus : Status := .ongoing
  startAckRequestor : Bool := false
  startAckResponder : Bool := false
  isMulticast : Bool := false
  responseReceived : Bool := false
  ackReqState : AckReqState := .init
  ackRspState : AckRspState := .init
  dup : Ptr := 0
  ack : MetaMessage := {}
  rtxctr : Nat := 0
deriving DecidableEq

abbrev SrcTransaction := Transaction SrcState
abbrev DstTransaction := Transaction DstState

/-- What a pool looks a transaction up by. -/
def Transaction.key {S : Type} (t : Transaction S) : Id × UInt16 := (t.peerMihfId, t.tid)

/-- `transaction_compare`, the comparator of the two pools. -/
def transactionCompare {S : Type} (a b : Transaction S) : Bool :=
  if a.peerMihfId = b.peerMihfId then a.tid != b.tid else true

theorem transactionCompare_eq_true {S : Type} {a b : Transaction S} :
    transactionCompare a b = true ↔ a.key ≠ b.key := by
  unfold transactionCompare
  split
  all_goals next hpeer => simp [Transaction.key, hpeer]

/-- The comparator orders the transactions of a pool, and takes those for one that have the same
peer and identifier. -/
def PoolOrder {S : Type} (T : Set (Transaction S)) : Prop :=
  Pool.StrictWeakOn transactionCompare T ∧ ∀ a ∈ T, ∀ b ∈ T,
    (transactionCompare a b = false ∧ transactionCompare b a = false ↔ a.key = b.key)

/-- It does so only as long as all of them have the same key: of two that do not, each comes before
the other. -/
theorem poolOrder_iff {S : Type} (T : Set (Transaction S)) :
    PoolOrder T ↔ ∀ a ∈ T, ∀ b ∈ T, a.key = b.key := by
  unfold PoolOrder
  rw [Pool.strictWeakOn_iff_of_ne fun a b => transactionCompare_eq_true (b := b)]
  refine and_iff_left fun a _ b _ => ?_
  rw [← Bool.not_eq_true, ← Bool.not_eq_true, transactionCompare_eq_true,
    transactionCompare_eq_true,
    not_ne_iff, not_ne_iff]
  exact ⟨And.left, fun h => ⟨h, h.symm⟩⟩

/-- Two transactions with one peer, under the identifiers 1 and 2. -/
theorem transactionCompare_both_ways : ¬ PoolOrder (Set.univ : Set SrcTransaction) := by
  intro h
  have hasymm := h.1.asymm { state := .init, tid := 1 } trivial { state := .init, tid := 2 } trivial
  exact absurd (hasymm (by decide)) (by decide)

/-! ## The log -/

/-- Which of the two pools a transaction belongs to. -/
inductive Side where
  | src
  | dst
deriving DecidableEq

/-- The transaction on whose behalf something happens. -/
structure Owner where
  side : Side
  ptr : Ptr
  key : Id × UInt16
deriving DecidableEq

/-- Why a message is handed to `net_sap::send`. -/
inductive Why where
  | initial
  | response
  | retransmission
  | ack
  | duplicate
deriving DecidableEq

/-- What a node does that can be observed, with the contents of the message at that moment. An
acknowledgement is sent without a pointer, as the transaction's own. The entries for `message_in`
and `message_out` record the call and the pooled transactions it found. -/
inductive Event where
  | send (owner : Owner) (why : Why) (p : Ptr) (msg : MetaMessage)
  | process (owner : Owner) (p : Ptr) (msg : MetaMessage)
  | messageIn (p : Ptr) (msg : MetaMessage) (src : Option SrcTransaction)
      (dst : Option DstTransaction)
  | messageOut (p : Ptr) (msg : MetaMessage) (src : Option SrcTransaction)
      (dst : Option DstTransaction)
  | udpSend (p : Ptr) (msg : MetaMessage)
deriving DecidableEq

/-! ## State machines

A machine works on one transaction, the message heap and the log. -/

/-- A transaction being run. -/
structure Machine (S : Type) where
  side : Side
  ptr : Ptr
  t : Transaction S
  msgs : Store MetaMessage
  log : List Event

namespace Machine

variable {S : Type}

def owner (x : Machine S) : Owner := ⟨x.side, x.ptr, x.t.key⟩

/-- `in`, dereferenced. -/
def inMsg (x : Machine S) : MetaMessage := x.msgs.get x.t.inMsg

/-- `out`, dereferenced. -/
def outMsg (x : Machine S) : MetaMessage := x.msgs.get x.t.outMsg

/-- Assign fields of the transaction. -/
def assign (x : Machine S) (f : Transaction S → Transaction S) : Machine S := { x with t := f x.t }

/-- Write a message. -/
def write (x : Machine S) (p : Ptr) (f : MetaMessage → MetaMessage) : Machine S :=
  { x with msgs := x.msgs.update p f }

/-- `_netsap.send(p)` -/
def send (x : Machine S) (why : Why) (p : Ptr) : Machine S :=
  { x with log := x.log ++ [.send x.owner why p (x.msgs.get p)] }

/-- `_netsap.send(ack)` -/
def sendAck (x : Machine S) : Machine S :=
  { x with log := x.log ++ [.send x.owner .ack 0 x.t.ack] }

section Projections

variable {x : Machine S} {f : Transaction S → Transaction S} {g : MetaMessage → MetaMessage}
  {p : Ptr} {why : Why}

@[simp] theorem assign_side : (x.assign f).side = x.side := rfl
@[simp] theorem assign_ptr : (x.assign f).ptr = x.ptr := rfl
@[simp] theorem assign_t : (x.assign f).t = f x.t := rfl
@[simp] theorem assign_msgs : (x.assign f).msgs = x.msgs := rfl
@[simp] theorem assign_log : (x.assign f).log = x.log := rfl
@[simp] theorem write_side : (x.write p g).side = x.side := rfl
@[simp] theorem write_ptr : (x.write p g).ptr = x.ptr := rfl
@[simp] theorem write_t : (x.write p g).t = x.t := rfl
@[simp] theorem write_msgs : (x.write p g).msgs = x.msgs.update p g := rfl
@[simp] theorem write_log : (x.write p g).log = x.log := rfl
@[simp] theorem send_side : (x.send why p).side = x.side := rfl
@[simp] theorem send_ptr : (x.send why p).ptr = x.ptr := rfl
@[simp] theorem send_t : (x.send why p).t = x.t := rfl
@[simp] theorem send_msgs : (x.send why p).msgs = x.msgs := rfl
@[simp] theorem send_log : (x.send why p).log = x.log ++ [.send x.owner why p (x.msgs.get p)] := rfl
@[simp] theorem sendAck_side : x.sendAck.side = x.side := rfl
@[simp] theorem sendAck_ptr : x.sendAck.ptr = x.ptr := rfl
@[simp] theorem sendAck_t : x.sendAck.t = x.t := rfl
@[simp] theorem sendAck_msgs : x.sendAck.msgs = x.msgs := rfl
@[simp] theorem sendAck_log : x.sendAck.log = x.log ++ [.send x.owner .ack 0 x.t.ack] := rfl

end Projections

/-! ### `ack_responder` -/

/-- `_rsp_return_duplicate_lbl_` -/
def rspReturnDuplicate (x : Machine S) : Machine S :=
  let x := x.assign fun t => { t with ackRspState := .returnDuplicate }
  if x.t.msgInAvail then
    (x.send .duplicate x.t.dup).assign fun t => { t with msgInAvail := false }
  else x

/-- `_rsp_piggybacking_lbl_` -/
def rspPiggybacking (x : Machine S) : Machine S :=
  let x := x.assign fun t => { t with ackRspState := .piggybacking }
  let x := x.write x.t.outMsg fun m => { m with ackrsp := true }
  let x := x.assign fun t => { t with dup := t.outMsg }
  if x.t.msgInAvail then x.rspReturnDuplicate else x

/-- `_rsp_return_ack_lbl_` -/
def rspReturnAck (x : Machine S) : Machine S :=
  let x := x.assign fun t => { t with ackRspState := .returnAck }
  if x.t.msgInAvail then x.sendAck.assign fun t => { t with msgInAvail := false }
  else if x.t.msgOutAvail then x.rspPiggybacking
  else x

/-- The acknowledgement as `_rsp_init_lbl_` fills it in. -/
def ackMessage (x : Machine S) : MetaMessage :=
  let i := x.inMsg
  { (({ x.t.ack with ackreq := false, ackrsp := true } : MetaMessage).setOpcode x.t.opcode) with
    tid := x.t.tid, mid := i.mid, source := x.t.myMihfId, destination := x.t.peerMihfId
    ip := i.ip, port := i.port }

/-- `_rsp_init_lbl_` -/
def rspInit (x : Machine S) : Machine S :=
  let x := x.assign fun t => { t with ack := x.ackMessage }
  if x.t.msgOutAvail then x.rspPiggybacking
  else (x.sendAck.assign fun t => { t with msgInAvail := false }).rspReturnAck

def ackResponder (x : Machine S) : Machine S :=
  match x.t.ackRspState with
  | .init => x.rspInit
  | .returnAck => x.rspReturnAck
  | .piggybacking => x.rspPiggybacking
  | .returnDuplicate => x.rspReturnDuplicate

/-! ### `ack_requestor` -/

/-- `_req_success_lbl_` -/
def reqSuccess (x : Machine S) : Machine S :=
  x.assign fun t => { t with ackReqState := .success, ackRequestorStatus := .success }

/-- `_req_failure_lbl_` -/
def reqFailure (x : Machine S) : Machine S :=
  x.assign fun t => { t with ackReqState := .failure, ackRequestorStatus := .failure }

/-- The part of `_req_wait_ack_lbl_` behind the test of the timer. -/
def reqTestAck (x : Machine S) : Machine S :=
  if x.t.msgInAvail && x.inMsg.ackrsp then x.reqSuccess else x

/-- `_req_wait_ack_begin_lbl_`, which runs into `_req_wait_ack_lbl_` with a timer of five. -/
def reqWaitAckBegin (x : Machine S) : Machine S :=
  (x.assign fun t => { t with ackReqState := .waitAck, retransmissionWhen := 5 }).reqTestAck

/-- `_req_retransmit_lbl_` -/
def reqRetransmit (x : Machine S) : Machine S :=
  let x := x.assign fun t => { t with ackReqState := .retransmit }
  ((x.send .retransmission x.t.outMsg).assign fun t =>
    { t with rtxctr := t.rtxctr + 1 }).reqWaitAckBegin

/-- `_req_wait_ack_lbl_` -/
def reqWaitAck (x : Machine S) : Machine S :=
  if x.t.retransmissionWhen = 0 then
    if x.t.rtxctr < 2 then x.reqRetransmit else x.reqFailure
  else x.reqTestAck

/-- `_req_init_lbl_` -/
def reqInit (x : Machine S) : Machine S :=
  (x.assign fun t => { t with ackRequestorStatus := .ongoing, rtxctr := 0 }).reqWaitAckBegin

def ackRequestor (x : Machine S) : Machine S :=
  match x.t.ackReqState with
  | .init => x.reqInit
  | .waitAck => x.reqWaitAck
  | .retransmit => x.reqRetransmit
  | .success => x.reqSuccess
  | .failure => x.reqFailure

/-- `if (start_ack_requestor) ack_requestor();` -/
def startedAckRequestor (x : Machine S) : Machine S :=
  if x.t.startAckRequestor then x.ackRequestor else x

/-- `if (start_ack_responder) ack_responder();` -/
def startedAckResponder (x : Machine S) : Machine S :=
  if x.t.startAckResponder then x.ackResponder else x

/-- `t->in = in; t->msg_in_avail = true;` -/
def receive (x : Machine S) (p : Ptr) : Machine S :=
  x.assign fun t => { t with inMsg := p, msgInAvail := true }

/-- `t->out = out; t->msg_out_avail = true;` -/
def submit (x : Machine S) (p : Ptr) : Machine S :=
  x.assign fun t => { t with outMsg := p, msgOutAvail := true }

end Machine

end Odtone.Mihf
