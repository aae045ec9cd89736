import Odtone.Mihf.Machines

/-! # What a machine can do

`Moves x y` is the frame of a state machine: between `x` and `y` the transaction keeps its identity
and its key, no message is allocated, none is written beyond a flag, and everything logged is a
message sent on behalf of the transaction. Every label satisfies it, except the two `_init_lbl_`,
which give a transaction its key in the first place.

The lemmas behind it say which fields of a transaction the two acknowledgement machines can change.
-/

namespace Odtone.Mihf

open List

/-- A message handed to `net_sap::send` by `o`, but not the one that begins its transaction. -/
def Event.SentBy (o : Owner) (e : Event) : Prop :=
  ∃ why p m, why ≠ .initial ∧ e = .send o why p m

/-- Is the event a retransmission? -/
def Event.isRetransmission : Event → Bool
  | .send _ .retransmission _ _ => true
  | _ => false

/-- What the two counters of a transaction depend on. -/
structure Clock where
  stop : Nat
  timer : Nat
  requestor : Bool
  reqState : AckReqState
  reqStatus : Status
  rtxctr : Nat
  out : Ptr
  multicast : Bool
deriving DecidableEq

def Transaction.clock {S : Type} (t : Transaction S) : Clock where
  stop := t.transactionStopWhen
  timer := t.retransmissionWhen
  requestor := t.startAckRequestor
  reqState := t.ackReqState
  reqStatus := t.ackRequestorStatus
  rtxctr := t.rtxctr
  out := t.outMsg
  multicast := t.isMulticast

namespace Machine

variable {S : Type}

/-- The frame of a machine. Of a message at most the acknowledgement flag is written, and nothing
is added to the payload of the acknowledgement. -/
structure Moves (x y : Machine S) : Prop where
  side : y.side = x.side
  ptr : y.ptr = x.ptr
  key : y.t.key = x.t.key
  ack : y.t.ack.payload = x.t.ack.payload
  next : y.msgs.next = x.msgs.next
  msg : ∀ q, ∃ b, y.msgs.get q = { x.msgs.get q with ackrsp := b }
  log : ∃ l, y.log = x.log ++ l ∧ ∀ e ∈ l, e.SentBy x.owner

namespace Moves

variable {x y z : Machine S}

theorem owner (h : Moves x y) : y.owner = x.owner := by
  simp only [Machine.owner, h.side, h.ptr, h.key]

theorem of_msgs_log (hside : y.side = x.side) (hptr : y.ptr = x.ptr) (hkey : y.t.key = x.t.key)
    (hack : y.t.ack.payload = x.t.ack.payload) (hmsgs : y.msgs = x.msgs) (hlog : y.log = x.log) :
    Moves x y where
  side := hside
  ptr := hptr
  key := hkey
  ack := hack
  next := by rw [hmsgs]
  msg q := ⟨(x.msgs.get q).ackrsp, by rw [hmsgs]⟩
  log := ⟨[], by simp [hlog], by simp⟩

theorem refl (x : Machine S) : Moves x x := of_msgs_log rfl rfl rfl rfl rfl rfl

theorem trans (h : Moves x y) (h' : Moves y z) : Moves x z := by
  obtain ⟨l, hl, hs⟩ := h.log
  obtain ⟨l', hl', hs'⟩ := h'.log
  refine ⟨h'.side.trans h.side, h'.ptr.trans h.ptr, h'.key.trans h.key, h'.ack.trans h.ack,
    h'.next.trans h.next, ?_, l ++ l', by rw [hl', hl, append_assoc], ?_⟩
  · intro q
    obtain ⟨b, hb⟩ := h.msg q
    obtain ⟨b', hb'⟩ := h'.msg q
    exact ⟨b', by rw [hb', hb]⟩
  · intro e he
    rcases mem_append.mp he with he | he
    · exact hs e he
    · exact h.owner ▸ hs' e he

theorem assign (x : Machine S) {f : Transaction S → Transaction S} (hf : (f x.t).key = x.t.key)
    (ha : (f x.t).ack.payload = x.t.ack.payload) : Moves x (x.assign f) :=
  of_msgs_log rfl rfl hf ha rfl rfl

theorem writeAckrsp (x : Machine S) (p : Ptr) :
    Moves x (x.write p fun m => { m with ackrsp := true }) where
  side := rfl
  ptr := rfl
  key := rfl
  ack := rfl
  next := rfl
  msg q := by
    by_cases hq : q = p
    · subst hq
      exact ⟨true, by rw [write_msgs, Store.get_update_self]⟩
    · exact ⟨(x.msgs.get q).ackrsp, by rw [write_msgs, Store.get_update_of_ne hq]⟩
  log := ⟨[], by simp, by simp⟩

theorem send (x : Machine S) {why : Why} (hwhy : why ≠ .initial) (p : Ptr) :
    Moves x (x.send why p) where
  side := rfl
  ptr := rfl
  key := rfl
  ack := rfl
  next := rfl
  msg q := ⟨(x.msgs.get q).ackrsp, rfl⟩
  log := ⟨[_], rfl, by simpa [Event.SentBy] using hwhy⟩

theorem sendAck (x : Machine S) : Moves x x.sendAck where
  side := rfl
  ptr := rfl
  key := rfl
  ack := rfl
  next := rfl
  msg q := ⟨(x.msgs.get q).ackrsp, rfl⟩
  log := ⟨[_], rfl, by simp [Event.SentBy]⟩

end Moves

/-- A move in which nothing is sent and no message is written. -/
structure Silent (x y : Machine S) : Prop where
  side : y.side = x.side
  ptr : y.ptr = x.ptr
  key : y.t.key = x.t.key
  ack : y.t.ack = x.t.ack
  msgs : y.msgs = x.msgs
  log : y.log = x.log

namespace Silent

variable {x y z : Machine S}

theorem refl (x : Machine S) : Silent x x := ⟨rfl, rfl, rfl, rfl, rfl, rfl⟩

theorem trans (h : Silent x y) (h' : Silent y z) : Silent x z :=
  ⟨h'.side.trans h.side, h'.ptr.trans h.ptr, h'.key.trans h.key, h'.ack.trans h.ack,
    h'.msgs.trans h.msgs, h'.log.trans h.log⟩

theorem assign (x : Machine S) {f : Transaction S → Transaction S} (hf : (f x.t).key = x.t.key)
    (ha : (f x.t).ack = x.t.ack) : Silent x (x.assign f) := ⟨rfl, rfl, hf, ha, rfl, rfl⟩

end Silent

/-- Nothing is retransmitted between `x` and `y`. -/
def NoResend (x y : Machine S) : Prop :=
  ∃ l, y.log = x.log ++ l ∧ ∀ e ∈ l, e.isRetransmission = false

/-- A move that leaves the clock alone and retransmits nothing. -/
structure Quiet (x y : Machine S) : Prop extends Moves x y where
  clock : y.t.clock = x.t.clock
  resends : NoResend x y

section Quiet

variable {x y z : Machine S}

theorem NoResend.of_log_eq (h : y.log = x.log) : NoResend x y := ⟨[], by simp [h], by simp⟩

theorem NoResend.trans (h : NoResend x y) (h' : NoResend y z) : NoResend x z := by
  obtain ⟨l, hl, he⟩ := h
  obtain ⟨l', hl', he'⟩ := h'
  refine ⟨l ++ l', by rw [hl', hl, append_assoc], fun e hmem => ?_⟩
  rcases mem_append.mp hmem with hmem | hmem
  · exact he e hmem
  · exact he' e hmem

theorem NoResend.send (x : Machine S) {why : Why} (hwhy : why ≠ .retransmission) (p : Ptr) :
    NoResend x (x.send why p) := by
  refine ⟨_, rfl, fun e he => ?_⟩
  rw [mem_singleton.mp he]
  cases why <;> first | rfl | exact absurd rfl hwhy

theorem NoResend.sendAck (x : Machine S) : NoResend x x.sendAck :=
  ⟨_, rfl, fun e he => by rw [mem_singleton.mp he]; rfl⟩

theorem Quiet.trans (h : Quiet x y) (h' : Quiet y z) : Quiet x z :=
  ⟨h.toMoves.trans h'.toMoves, h'.clock.trans h.clock, h.resends.trans h'.resends⟩

theorem Quiet.assign (x : Machine S) {f : Transaction S → Transaction S}
    (hf : (f x.t).key = x.t.key) (ha : (f x.t).ack.payload = x.t.ack.payload)
    (hc : (f x.t).clock = x.t.clock) : Quiet x (x.assign f) :=
  ⟨.assign x hf ha, hc, .of_log_eq rfl⟩

/-- What the acknowledgement responder does: it changes at most the input flag, its state, the
stored duplicate and the acknowledgement. -/
structure Responds (x y : Machine S) : Prop extends Moves x y where
  t : ∃ avail st dup ack, y.t =
    { x.t with msgInAvail := avail, ackRspState := st, dup := dup, ack := ack }
  resends : NoResend x y

theorem Responds.trans (h : Responds x y) (h' : Responds y z) : Responds x z := by
  obtain ⟨_, _, _, _, ht⟩ := h.t
  obtain ⟨avail, st, dup, ack, ht'⟩ := h'.t
  rw [ht] at ht'
  exact ⟨h.toMoves.trans h'.toMoves, ⟨avail, st, dup, ack, ht'⟩, h.resends.trans h'.resends⟩

theorem Responds.assign (x : Machine S) (avail : Bool) (st : AckRspState) (dup : Ptr) :
    Responds x (x.assign fun t => { t with msgInAvail := avail, ackRspState := st, dup := dup }) :=
  ⟨.assign x rfl rfl, ⟨avail, st, dup, _, rfl⟩, .of_log_eq rfl⟩

theorem Responds.quiet (h : Responds x y) : Quiet x y := by
  obtain ⟨avail, st, dup, ack, ht⟩ := h.t
  exact ⟨h.toMoves, by rw [ht]; rfl, h.resends⟩

/-- What the acknowledgement requestor does: it changes its own state, status, timer and counter. -/
structure Requests (x y : Machine S) : Prop extends Moves x y where
  t : ∃ st status timer ctr, y.t =
    { x.t with ackReqState := st, ackRequestorStatus := status, retransmissionWhen := timer
               rtxctr := ctr }

theorem Requests.trans (h : Requests x y) (h' : Requests y z) : Requests x z := by
  obtain ⟨_, _, _, _, ht⟩ := h.t
  obtain ⟨st, status, timer, ctr, ht'⟩ := h'.t
  rw [ht] at ht'
  exact ⟨h.toMoves.trans h'.toMoves, st, status, timer, ctr, ht'⟩

theorem Requests.assign (x : Machine S) (st : AckReqState) (status : Status) (timer ctr : Nat) :
    Requests x (x.assign fun t =>
      { t with ackReqState := st, ackRequestorStatus := status, retransmissionWhen := timer
               rtxctr := ctr }) :=
  ⟨.assign x rfl rfl, st, status, timer, ctr, rfl⟩

end Quiet

variable (x : Machine S)

/-! ## The acknowledgement machines -/

theorem responds_rspReturnDuplicate : Responds x x.rspReturnDuplicate := by
  unfold rspReturnDuplicate
  extract_lets y
  have hy : Responds x y := .assign x _ _ _
  have hsend : Responds y (y.send .duplicate y.t.dup) :=
    ⟨.send y (by decide) _, ⟨_, _, _, _, rfl⟩, .send y (by decide) _⟩
  split
  · exact (hy.trans hsend).trans (.assign _ _ _ _)
  · exact hy

theorem responds_rspPiggybacking : Responds x x.rspPiggybacking := by
  unfold rspPiggybacking
  extract_lets y₁ y₂ y₃
  have hwrite : Responds y₁ y₂ := ⟨.writeAckrsp y₁ _, ⟨_, _, _, _, rfl⟩, .of_log_eq rfl⟩
  have hy : Responds x y₃ := ((Responds.assign x _ _ _).trans hwrite).trans (.assign y₂ _ _ _)
  split
  · exact hy.trans (responds_rspReturnDuplicate y₃)
  · exact hy

theorem responds_sendAck : Responds x (x.sendAck.assign fun t => { t with msgInAvail := false }) :=
  Responds.trans ⟨.sendAck x, ⟨_, _, _, _, rfl⟩, .sendAck x⟩ (.assign _ _ _ _)

theorem responds_rspReturnAck : Responds x x.rspReturnAck := by
  unfold rspReturnAck
  extract_lets y
  have hy : Responds x y := .assign x _ _ _
  split_ifs
  · exact hy.trans (responds_sendAck y)
  · exact hy.trans (responds_rspPiggybacking y)
  · exact hy

theorem responds_rspInit : Responds x x.rspInit := by
  unfold rspInit
  extract_lets y
  have hy : Responds x y := ⟨.assign x rfl rfl, ⟨_, _, _, _, rfl⟩, .of_log_eq rfl⟩
  split
  · exact hy.trans (responds_rspPiggybacking y)
  · exact (hy.trans (responds_sendAck y)).trans (responds_rspReturnAck _)

theorem responds_startedAckResponder : Responds x x.startedAckResponder := by
  unfold startedAckResponder ackResponder
  split
  · split
    · exact responds_rspInit x
    · exact responds_rspReturnAck x
    · exact responds_rspPiggybacking x
    · exact responds_rspReturnDuplicate x
  · exact ⟨.refl x, ⟨_, _, _, _, rfl⟩, .of_log_eq rfl⟩

theorem moves_startedAckResponder : Moves x x.startedAckResponder :=
  (responds_startedAckResponder x).toMoves

theorem quiet_startedAckResponder : Quiet x x.startedAckResponder :=
  (responds_startedAckResponder x).quiet

theorem requests_reqTestAck : Requests x x.reqTestAck := by
  unfold reqTestAck
  split
  · exact .assign x _ _ _ _
  · exact ⟨.refl x, _, _, _, _, rfl⟩

theorem requests_reqWaitAckBegin : Requests x x.reqWaitAckBegin :=
  (Requests.assign x _ _ _ _).trans (requests_reqTestAck _)

theorem requests_reqRetransmit : Requests x x.reqRetransmit := by
  unfold reqRetransmit
  extract_lets y
  have hsend : Requests y (y.send .retransmission y.t.outMsg) :=
    ⟨.send y (by decide) _, _, _, _, _, rfl⟩
  exact (((Requests.assign x _ _ _ _).trans hsend).trans (.assign _ _ _ _ _)).trans
    (requests_reqWaitAckBegin _)

theorem requests_ackRequestor : Requests x x.ackRequestor := by
  unfold ackRequestor
  split
  · exact (Requests.assign x _ _ _ _).trans (requests_reqWaitAckBegin _)
  · unfold reqWaitAck
    split_ifs
    · exact requests_reqRetransmit x
    · exact .assign x _ _ _ _
    · exact requests_reqTestAck x
  · exact requests_reqRetransmit x
  all_goals exact .assign x _ _ _ _

theorem moves_ackRequestor : Moves x x.ackRequestor := (requests_ackRequestor x).toMoves

theorem requests_startedAckRequestor : Requests x x.startedAckRequestor := by
  unfold startedAckRequestor
  split
  · exact requests_ackRequestor x
  · exact ⟨.refl x, _, _, _, _, rfl⟩

theorem moves_startedAckRequestor : Moves x x.startedAckRequestor :=
  (requests_startedAckRequestor x).toMoves

theorem silent_reqTestAck : Silent x x.reqTestAck := by
  unfold reqTestAck
  split
  · exact .assign x rfl rfl
  · exact .refl x

theorem silent_reqInit : Silent x x.reqInit :=
  ((Silent.assign x rfl rfl).trans (.assign _ rfl rfl)).trans (silent_reqTestAck _)

theorem silent_startedAckRequestor (h : x.t.ackReqState = .init) :
    Silent x x.startedAckRequestor := by
  simp only [startedAckRequestor, ackRequestor, h]
  split
  · exact silent_reqInit x
  · exact .refl x

theorem rspReturnDuplicate_noInput : x.rspReturnDuplicate.t.msgInAvail = false := by
  unfold rspReturnDuplicate
  extract_lets y
  split
  · rfl
  · next h => simpa using h

theorem rspPiggybacking_noInput : x.rspPiggybacking.t.msgInAvail = false := by
  unfold rspPiggybacking
  extract_lets y₁ y₂ y₃
  split
  · exact rspReturnDuplicate_noInput y₃
  · next h => simpa using h

theorem rspReturnAck_noInput : x.rspReturnAck.t.msgInAvail = false := by
  unfold rspReturnAck
  extract_lets y
  split_ifs with h
  · rfl
  · exact rspPiggybacking_noInput y
  · simpa using h

/-- The acknowledgement responder consumes the input. -/
theorem ackResponder_noInput : x.ackResponder.t.msgInAvail = false := by
  unfold ackResponder
  split
  · unfold rspInit
    extract_lets y
    split
    · exact rspPiggybacking_noInput y
    · exact rspReturnAck_noInput _
  · exact rspReturnAck_noInput x
  · exact rspPiggybacking_noInput x
  · exact rspReturnDuplicate_noInput x

/-- If there is input left behind the acknowledgement responder, it was not in use. -/
theorem startedAckResponder_of_avail (h : x.startedAckResponder.t.msgInAvail = true) :
    x.startedAckResponder = x ∧ x.t.startAckResponder = false := by
  unfold startedAckResponder at h ⊢
  split at h
  · rw [ackResponder_noInput] at h
    cases h
  · next hr => exact ⟨if_neg hr, by simpa using hr⟩

/-- The acknowledgement machines and the flags of the two messages may have moved; where the
transaction itself stands has not changed. -/
structure SameCourse (x y : Machine S) : Prop where
  state : y.t.state = x.t.state
  status : y.t.transactionStatus = x.t.transactionStatus
  stop : y.t.transactionStopWhen = x.t.transactionStopWhen
  requestor : y.t.startAckRequestor = x.t.startAckRequestor
  responder : y.t.startAckResponder = x.t.startAckResponder
  multicast : y.t.isMulticast = x.t.isMulticast

namespace SameCourse

variable {x y z : Machine S}

theorem trans (h : SameCourse x y) (h' : SameCourse y z) : SameCourse x z :=
  ⟨h'.state.trans h.state, h'.status.trans h.status, h'.stop.trans h.stop,
    h'.requestor.trans h.requestor, h'.responder.trans h.responder,
    h'.multicast.trans h.multicast⟩

theorem receive (x : Machine S) (p : Ptr) : SameCourse x (x.receive p) :=
  ⟨rfl, rfl, rfl, rfl, rfl, rfl⟩

theorem submit (x : Machine S) (p : Ptr) : SameCourse x (x.submit p) :=
  ⟨rfl, rfl, rfl, rfl, rfl, rfl⟩

theorem ackRequestor (x : Machine S) : SameCourse x x.ackRequestor := by
  obtain ⟨st, status, timer, ctr, h⟩ := x.requests_ackRequestor.t
  constructor <;> rw [h]

theorem startedAckRequestor (x : Machine S) : SameCourse x x.startedAckRequestor := by
  obtain ⟨st, status, timer, ctr, h⟩ := x.requests_startedAckRequestor.t
  constructor <;> rw [h]

theorem startedAckResponder (x : Machine S) : SameCourse x x.startedAckResponder := by
  obtain ⟨avail, st, dup, ack, h⟩ := x.responds_startedAckResponder.t
  constructor <;> rw [h]

end SameCourse

/-! ## Runs -/

theorem moves_receive (p : Ptr) : Moves x (x.receive p) := .assign x rfl rfl

theorem moves_submit (p : Ptr) : Moves x (x.submit p) := .assign x rfl rfl

section Src

variable (x : Machine SrcState)

theorem quiet_srcSuccess : Quiet x x.srcSuccess := .assign x rfl rfl rfl

theorem quiet_srcFailure : Quiet x x.srcFailure := .assign x rfl rfl rfl

theorem quiet_srcWaitAck : Quiet x x.srcWaitAck := by
  unfold srcWaitAck
  extract_lets y
  have hy : Quiet x y := .assign x rfl rfl rfl
  split
  · exact hy.trans (quiet_srcSuccess y)
  · exact hy.trans (quiet_srcFailure y)
  · exact hy

theorem quiet_srcProcessMsg : Quiet x x.srcProcessMsg :=
  (Quiet.assign x rfl rfl rfl).trans (quiet_startedAckResponder _)

theorem quiet_srcWaitResponseMsg : Quiet x x.srcWaitResponseMsg.1 := by
  unfold srcWaitResponseMsg
  extract_lets y
  have hy : Quiet x y := .assign x rfl rfl rfl
  split_ifs
  · exact hy.trans (quiet_srcSuccess y)
  · exact hy.trans (quiet_srcFailure y)
  · exact hy.trans (quiet_srcProcessMsg y)
  · exact hy

/-- A source transaction that runs leaves its counters alone and retransmits nothing. -/
theorem quiet_srcRun (h : x.t.state ≠ .init) : Quiet x x.srcRun.1 := by
  unfold srcRun
  split
  · next hi => exact absurd hi h
  · exact quiet_srcWaitResponseMsg x
  · exact quiet_srcWaitAck x
  · exact quiet_srcProcessMsg x
  · exact quiet_srcFailure x
  · exact quiet_srcSuccess x

theorem moves_srcRun (h : x.t.state ≠ .init) : Moves x x.srcRun.1 := (quiet_srcRun x h).toMoves

theorem silent_srcSuccess : Silent x x.srcSuccess := .assign x rfl rfl

theorem silent_srcFailure : Silent x x.srcFailure := .assign x rfl rfl

theorem silent_srcWaitAck : Silent x x.srcWaitAck := by
  unfold srcWaitAck
  extract_lets y
  have hy : Silent x y := .assign x rfl rfl
  split
  · exact hy.trans (.assign y rfl rfl)
  · exact hy.trans (.assign y rfl rfl)
  · exact hy

theorem srcWaitAck_state : x.srcWaitAck.t.state ≠ .init := by
  unfold srcWaitAck
  extract_lets y
  split <;> simp [srcSuccess, srcFailure, y]

/-- Without an input message the machine waits for one, or gives up, in silence. -/
theorem srcWaitResponseMsg_of_not_avail (h : x.t.msgInAvail = false) :
    x.srcWaitResponseMsg.2 = false ∧ x.srcWaitResponseMsg.1.t.state ≠ .init ∧
      Silent x x.srcWaitResponseMsg.1 := by
  unfold srcWaitResponseMsg
  extract_lets y
  have hy : Silent x y := .assign x rfl rfl
  split_ifs with h₁ h₂ h₃
  · exact ⟨rfl, by simp [srcSuccess], hy.trans (silent_srcSuccess y)⟩
  · exact ⟨rfl, by simp [srcFailure], hy.trans (silent_srcFailure y)⟩
  · exact absurd h₃ (by simp [y, h])
  · exact ⟨rfl, by simp [y], hy⟩

/-- A new source transaction sends its message, and nothing else, and does not reach a call of
`process_message`. -/
theorem srcRun_init (hs : x.t.state = .init) (hi : x.t.msgInAvail = false)
    (hr : x.t.ackReqState = .init) :
    x.srcRun.2 = false ∧ x.srcRun.1.t.state ≠ .init ∧
      x.srcRun.1.t.key = (x.outMsg.destination, x.outMsg.tid) ∧ x.srcRun.1.t.ack = x.t.ack ∧
      x.srcRun.1.msgs = x.msgs ∧
      x.srcRun.1.log = x.log ++ [.send ⟨x.side, x.ptr, (x.outMsg.destination, x.outMsg.tid)⟩
        .initial x.t.outMsg x.outMsg] := by
  simp only [srcRun, hs]
  unfold srcInit
  extract_lets o y₁ y₂
  have hy₂ : Silent (y₁.send .initial y₁.t.outMsg) y₂ := silent_startedAckRequestor _ hr
  have havail : y₂.t.msgInAvail = false := by
    obtain ⟨st, status, timer, ctr, h⟩ :=
      (requests_startedAckRequestor (y₁.send .initial y₁.t.outMsg)).t
    exact (congrArg Transaction.msgInAvail h).trans hi
  have hkey : y₂.t.key = (o.destination, o.tid) := hy₂.key
  have hack : y₂.t.ack = x.t.ack := hy₂.ack
  have hmsgs : y₂.msgs = x.msgs := hy₂.msgs
  have hlog : y₂.log = x.log ++
      [.send ⟨x.side, x.ptr, (o.destination, o.tid)⟩ .initial x.t.outMsg o] := hy₂.log
  -- Whatever the operation, the rest of the label is silent.
  have rest : ∀ z, z.t.state ≠ .init → Silent y₂ z →
      z.t.state ≠ .init ∧ z.t.key = (o.destination, o.tid) ∧ z.t.ack = x.t.ack ∧
        z.msgs = x.msgs ∧ z.log = x.log ++
          [.send ⟨x.side, x.ptr, (o.destination, o.tid)⟩ .initial x.t.outMsg o] :=
    fun z hst h =>
      ⟨hst, h.key.trans hkey, h.ack.trans hack, h.msgs.trans hmsgs, h.log.trans hlog⟩
  clear_value y₂
  cases y₂.t.opcode with
  | confirm => exact ⟨rfl, rest _ (srcWaitAck_state y₂) (silent_srcWaitAck y₂)⟩
  | request =>
    obtain ⟨h₁, h₂, h₃⟩ := srcWaitResponseMsg_of_not_avail y₂ havail
    exact ⟨h₁, rest _ h₂ h₃⟩
  | response => exact ⟨rfl, rest y₂.srcSuccess (by simp [srcSuccess]) (silent_srcSuccess y₂)⟩
  | indication =>
    dsimp only
    split
    · refine ⟨rfl, rest (srcWaitAck _) (srcWaitAck_state _) ?_⟩
      exact (Silent.assign y₂ rfl rfl).trans (silent_srcWaitAck _)
    · exact ⟨rfl, rest y₂.srcSuccess (by simp [srcSuccess]) (silent_srcSuccess y₂)⟩

theorem quiet_srcResume : Quiet x x.srcResume := by
  unfold srcResume
  extract_lets y
  have hy : Quiet x y := .assign x rfl rfl rfl
  split
  · exact hy.trans (quiet_srcWaitResponseMsg y)
  · exact hy.trans (quiet_srcSuccess y)

theorem moves_srcResume : Moves x x.srcResume := (quiet_srcResume x).toMoves

end Src

section Dst

variable (x : Machine DstState)

theorem moves_dstSuccess : Moves x x.dstSuccess := .assign x rfl rfl

theorem moves_dstFailure : Moves x x.dstFailure := .assign x rfl rfl

theorem moves_dstSendResponse : Moves x x.dstSendResponse := by
  unfold dstSendResponse
  split_ifs
  · exact .assign x rfl rfl
  · exact .assign x rfl rfl
  · exact .refl x

theorem moves_dstSendResponseBegin : Moves x x.dstSendResponseBegin := by
  unfold dstSendResponseBegin
  extract_lets y₁ y₂
  exact ((((Moves.assign x rfl rfl).trans (moves_startedAckRequestor y₁)).trans
    (.assign _ rfl rfl)).trans (.send y₂ (by decide) _)).trans (moves_dstSendResponse _)

theorem moves_dstWaitResponsePrm : Moves x x.dstWaitResponsePrm := by
  unfold dstWaitResponsePrm
  extract_lets y
  have hy : Moves x y := .assign x rfl rfl
  split_ifs
  · exact hy.trans (.assign y rfl rfl)
  · exact hy.trans (moves_dstSendResponseBegin y)
  · exact hy

theorem moves_dstResume (rsp : Bool) : Moves x (x.dstResume rsp) := by
  unfold dstResume
  extract_lets y
  have hy : Moves x y := (Moves.assign x rfl rfl).trans (moves_startedAckResponder _)
  split
  · exact hy.trans (moves_dstWaitResponsePrm y)
  · exact hy.trans (.assign y rfl rfl)
  · exact hy.trans (.assign y rfl rfl)
  · exact hy.trans (moves_dstWaitResponsePrm y)

/-- A destination machine calls `process_message` only from its initial state. -/
theorem dstRun_snd : x.dstRun.2 = true ↔ x.t.state = .init := by
  unfold dstRun
  cases x.t.state <;> simp

theorem moves_dstRun (h : x.t.state ≠ .init) : Moves x x.dstRun.1 := by
  unfold dstRun
  split
  · next hi => exact absurd hi h
  · exact moves_dstWaitResponsePrm x
  · exact moves_dstSendResponse x
  · exact moves_dstFailure x
  · exact moves_dstSuccess x

end Dst

end Machine

end Odtone.Mihf
