import Odtone.Mihf.Acks
import Odtone.Mihf.Containers

/-! # Retransmitted requests

A destination transaction that is pooled answers every further copy of its request from what it has
stored, the acknowledgement or the response, without calling `process_message`. It is pooled only
if `process_message` did not answer the first copy at once, and it leaves the pool when its response
is acknowledged; after either, the next copy is processed anew.

`Answering` is the invariant of such a transaction. It bounds the retransmissions of the response by
the life time: three intervals of five ticks do not fit into what is left of fifteen before the
life time is over, so the transaction cannot fail early.
-/

namespace Odtone.Mihf

open Machine Node Store EStateM

variable {σ : Type}

/-- A pooled transaction that answers copies of its request. -/
structure Answering (t : DstTransaction) : Prop extends DstInv t where
  responder : t.startAckResponder = true
  noInput : t.msgInAvail = false
  reqState : t.state = .sendResponse →
    t.ackReqState = .waitAck ∧ t.ackRequestorStatus = .ongoing ∧ 0 < t.retransmissionWhen
  budget : t.state = .sendResponse →
    5 * t.rtxctr + 5 + t.transactionStopWhen ≤ 15 + t.retransmissionWhen
  stored : t.state = .sendResponse →
    t.ackRspState = .piggybacking ∧ t.dup = t.outMsg ∨ t.ackRspState = .returnDuplicate

namespace Machine

variable {x : Machine DstState} {i o : Ptr}

/-! ## The machine -/

/-- An acknowledgement requestor that waits and gets nothing does nothing. -/
theorem startedAckRequestor_waiting {S : Type} {x : Machine S} (hst : x.t.ackReqState = .waitAck)
    (ht : 0 < x.t.retransmissionWhen) (hin : (x.t.msgInAvail && x.inMsg.ackrsp) = false) :
    x.startedAckRequestor = x := by
  unfold startedAckRequestor
  split
  · simp only [ackRequestor, hst, reqWaitAck, ht.ne', if_false, reqTestAck, hin, Bool.false_eq_true]
  · rfl

/-- A transaction that has sent its response and waits for the acknowledgement of it stays. -/
theorem dstRun_sending (hst : x.t.state = .sendResponse) (hreq : x.t.startAckRequestor = true)
    (hstatus : x.t.ackRequestorStatus = .ongoing) : x.dstRun.1 = x := by
  simp [dstRun, hst, dstSendResponse, hreq, hstatus]

theorem dstRunIfOngoing_of_ongoing (h : x.t.transactionStatus = .ongoing) :
    x.dstRunIfOngoing = x.dstRun := if_pos h

section

variable (h : Answering x.t)
include h

/-- A further response submitted behind the first one replaces it at most as the duplicate. -/
theorem out_sending (hst : x.t.state = .sendResponse) :
    ∃ rsp dup, (rsp = .piggybacking ∧ dup = o ∨ rsp = .returnDuplicate) ∧ (x.out o).t =
        { x.t with outMsg := o, msgOutAvail := true, ackRspState := rsp, dup := dup } := by
  obtain ⟨hwait, -, htimer⟩ := h.reqState hst
  have hreq : (x.submit o).startedAckRequestor = x.submit o :=
    startedAckRequestor_waiting hwait htimer (by simp [submit, h.noInput])
  unfold out
  rw [hreq]
  rcases h.stored hst with ⟨hrsp, -⟩ | hrsp
  · refine ⟨.piggybacking, o, .inl ⟨rfl, rfl⟩, ?_⟩
    simp [startedAckResponder, ackResponder, rspPiggybacking, submit, h.responder, hrsp, h.noInput]
  · refine ⟨.returnDuplicate, x.t.dup, .inr rfl, ?_⟩
    simp [startedAckResponder, ackResponder, rspReturnDuplicate, submit, h.responder, hrsp,
      h.noInput]

theorem answering_out (hack : (x.msgs.get o).ackreq = true) :
    Answering (x.out o).dstRunIfOngoing.1.t ∧
      (x.out o).dstRunIfOngoing.1.t.transactionStopWhen = x.t.transactionStopWhen := by
  have hon : (x.out o).t.transactionStatus = .ongoing := (sameCourse_out o).status.trans h.status
  rw [dstRunIfOngoing_of_ongoing hon]
  by_cases hst : x.t.state = .waitResponsePrm
  · obtain ⟨rsp, dup, st, hrsp, hreq, ht, -⟩ := dstRun_out_waiting h.toDstInv hst hack
    rw [ht]
    refine ⟨⟨⟨h.status, h.stop, .inr ⟨rfl, rfl⟩⟩, h.responder, h.noInput, fun _ => ?_, fun _ => ?_,
      fun _ => .inl (hrsp h.responder)⟩, rfl⟩
    · exact ⟨hreq (by rw [h.noInput, Bool.false_and]), rfl, Nat.succ_pos 4⟩
    · have := h.stop.2
      change 5 * 0 + 5 + x.t.transactionStopWhen ≤ 15 + 5
      omega
  · obtain ⟨hsend, hreq⟩ := h.sending hst
    obtain ⟨rsp, dup, hrsp, ht⟩ := out_sending h hsend
    obtain ⟨hwait, hongoing, htimer⟩ := h.reqState hsend
    have hrun : (x.out o).dstRun.1 = x.out o :=
      dstRun_sending (by rw [ht]; exact hsend) (by rw [ht]; exact hreq) (by rw [ht]; exact hongoing)
    rw [hrun, ht]
    exact ⟨⟨⟨h.status, h.stop, .inr ⟨hsend, hreq⟩⟩, h.responder, h.noInput, h.reqState, h.budget,
      fun _ => hrsp⟩, rfl⟩

/-- A copy that comes in when the response has been sent gets the response again. -/
theorem dstIn_sending (hst : x.t.state = .sendResponse) (hrsp : (x.msgs.get i).ackrsp = false) :
    (x.dstIn i).dstRun.1.dstInAck.t = { x.t with inMsg := i, ackRspState := .returnDuplicate } ∧
      ∃ m, (x.dstIn i).dstRun.1.dstInAck.log = x.log ++ [.send x.owner .duplicate x.t.dup m] := by
  obtain ⟨hwait, hongoing, htimer⟩ := h.reqState hst
  have hreq := (h.sending (by simp [hst])).2
  have hin : x.dstIn i = x.receive i :=
    startedAckRequestor_waiting hwait htimer (by simp [receive, inMsg, hrsp])
  have hrun : (x.dstIn i).dstRun.1 = x.receive i := by
    rw [hin]
    exact dstRun_sending hst hreq hongoing
  have hon : (x.receive i).t.transactionStatus = .ongoing := h.status
  rw [hrun]
  unfold dstInAck
  rw [if_pos hon]
  rcases h.stored hst with ⟨hpig, hdup⟩ | hret
  · simp [startedAckResponder, ackResponder, rspPiggybacking, rspReturnDuplicate, receive,
      h.responder, h.noInput, hpig, hdup, owner, Transaction.key]
  · simp [startedAckResponder, ackResponder, rspReturnDuplicate, receive, h.responder, h.noInput,
      hret, owner, Transaction.key]

/-- A frame that comes in before the response gets the acknowledgement. -/
theorem answering_in_waiting (hst : x.t.state = .waitResponsePrm) :
    Answering (x.dstIn i).dstRunIfOngoing.1.dstInAck.t ∧
      (x.dstIn i).dstRunIfOngoing.1.dstInAck.t.transactionStopWhen = x.t.transactionStopWhen ∧
      (x.dstIn i).dstRunIfOngoing.1.dstInAck.log = x.log ++ [.send x.owner .ack 0 x.t.ack] := by
  have hon : (x.dstIn i).t.transactionStatus = .ongoing :=
    (sameCourse_dstIn i).status.trans h.status
  rw [dstRunIfOngoing_of_ongoing hon]
  obtain ⟨ht, hlog⟩ := dstIn_waiting h.toDstInv hst
  rw [h.responder] at ht hlog
  have hw := h.waiting hst
  have hne : x.t.state ≠ .sendResponse := by simp [hst]
  rw [ht]
  exact ⟨⟨⟨h.status, h.stop, .inl ⟨hst, ⟨hw.requestor, hw.reqState, hw.reqStatus, hw.out,
    fun hr => ⟨(hw.responder hr).1, rfl⟩, hw.timer⟩⟩⟩, h.responder, rfl, fun h => absurd h hne,
    fun h => absurd h hne, fun h => absurd h hne⟩, rfl, hlog⟩

theorem answering_in (hrsp : (x.msgs.get i).ackrsp = false) :
    Answering (x.dstIn i).dstRunIfOngoing.1.dstInAck.t ∧
      (x.dstIn i).dstRunIfOngoing.1.dstInAck.t.transactionStopWhen = x.t.transactionStopWhen ∧
      ∃ why q m, (x.dstIn i).dstRunIfOngoing.1.dstInAck.log = x.log ++ [.send x.owner why q m] ∧
        (x.t.state = .waitResponsePrm ∧ why = .ack ∧ m = x.t.ack ∨
          x.t.state = .sendResponse ∧ why = .duplicate ∧ q = x.t.dup) := by
  by_cases hst : x.t.state = .waitResponsePrm
  · obtain ⟨hans, hstop, hlog⟩ := answering_in_waiting h hst
    exact ⟨hans, hstop, .ack, 0, x.t.ack, hlog, .inl ⟨hst, rfl, rfl⟩⟩
  · have hon : (x.dstIn i).t.transactionStatus = .ongoing :=
      (sameCourse_dstIn i).status.trans h.status
    rw [dstRunIfOngoing_of_ongoing hon]
    obtain ⟨hsend, hreq⟩ := h.sending hst
    obtain ⟨ht, m, hlog⟩ := dstIn_sending h hsend hrsp
    rw [ht]
    exact ⟨⟨⟨h.status, h.stop, .inr ⟨hsend, hreq⟩⟩, h.responder, h.noInput, h.reqState, h.budget,
      fun _ => .inr rfl⟩, rfl, .duplicate, x.t.dup, m, hlog, .inr ⟨hsend, rfl, rfl⟩⟩

end

/-- The retransmission timer rings while the response may still be retransmitted. -/
theorem ackRequestor_retransmit {S : Type} {x : Machine S} (hst : x.t.ackReqState = .waitAck)
    (ht : x.t.retransmissionWhen = 0) (hctr : x.t.rtxctr < 2) (hin : x.t.msgInAvail = false) :
    x.ackRequestor.t =
      { x.t with ackReqState := .waitAck, retransmissionWhen := 5, rtxctr := x.t.rtxctr + 1 } := by
  simp [ackRequestor, hst, reqWaitAck, ht, hctr, reqRetransmit, reqWaitAckBegin, reqTestAck, hin]

/-- The retransmission timer of a transaction that has sent its response. -/
theorem answering_timer (h : Answering x.t) (hst : x.t.state = .sendResponse)
    (hstop : 1 < x.t.transactionStopWhen) :
    Answering (x.decStop.timer (·.dstRun.1)).t ∧
      (x.decStop.timer (·.dstRun.1)).t.transactionStopWhen = x.t.transactionStopWhen - 1 := by
  obtain ⟨hwait, hongoing, htimer⟩ := h.reqState hst
  have hreq := (h.sending (by simp [hst])).2
  have hbudget := h.budget hst
  have hdec := decStop_stop h.stop.1
  have hdec' : x.decStop.decRetransmission.t.retransmissionWhen = x.t.retransmissionWhen - 1 :=
    decUnsigned_of_pos htimer
  have hle := h.stop
  have hon : x.decStop.t.ackRequestorStatus = .ongoing := hongoing
  by_cases hring : x.decStop.decRetransmission.t.retransmissionWhen = 0
  · have hctr : x.t.rtxctr < 2 := by omega
    have ht := ackRequestor_retransmit (x := x.decStop.decRetransmission) hwait hring hctr h.noInput
    have heq : x.decStop.timer (·.dstRun.1) = x.decStop.decRetransmission.ackRequestor.dstRun.1 :=
      (if_pos hon).trans (if_pos hring)
    have hrun : x.decStop.decRetransmission.ackRequestor.dstRun.1 =
        x.decStop.decRetransmission.ackRequestor :=
      dstRun_sending (by rw [ht]; exact hst) (by rw [ht]; exact hreq) (by rw [ht]; exact hongoing)
    rw [heq, hrun, ht]
    refine ⟨⟨⟨h.status, ?_, .inr ⟨hst, hreq⟩⟩, h.responder, h.noInput, fun _ => ?_, fun _ => ?_,
      h.stored⟩, hdec⟩
    · change 0 < x.decStop.t.transactionStopWhen ∧ x.decStop.t.transactionStopWhen ≤ 15
      omega
    · exact ⟨rfl, hongoing, Nat.succ_pos 4⟩
    · change 5 * (x.t.rtxctr + 1) + 5 + x.decStop.t.transactionStopWhen ≤ 15 + 5
      omega
  · have heq : x.decStop.timer (·.dstRun.1) = x.decStop.decRetransmission :=
      (if_pos hon).trans (if_neg hring)
    rw [heq]
    refine ⟨⟨⟨h.status, ?_, .inr ⟨hst, hreq⟩⟩, h.responder, h.noInput, fun _ => ?_, fun _ => ?_,
      h.stored⟩, hdec⟩
    · change 0 < x.decStop.t.transactionStopWhen ∧ x.decStop.t.transactionStopWhen ≤ 15
      omega
    · exact ⟨hwait, hongoing, Nat.pos_of_ne_zero hring⟩
    · change 5 * x.t.rtxctr + 5 + x.decStop.t.transactionStopWhen ≤
        15 + x.decStop.decRetransmission.t.retransmissionWhen
      omega

end Machine

/-- A tick before the end of its life time does not end a transaction that answers copies. -/
theorem TickOf.answering {t t' : DstTransaction} {del : Bool} (h : TickOf (·.dstRun.1) t del t')
    (ht : Answering t) (hstop : 1 < t.transactionStopWhen) :
    del = false ∧ Answering t' ∧ t'.transactionStopWhen = t.transactionStopWhen - 1 := by
  obtain ⟨x, rfl, hne, rfl, rfl⟩ := h.runsTimer hstop.ne'
  have hdec := decStop_stop ht.stop.1
  obtain ⟨hans, hstop'⟩ : Answering (x.decStop.timer (·.dstRun.1)).t ∧
      (x.decStop.timer (·.dstRun.1)).t.transactionStopWhen = x.t.transactionStopWhen - 1 := by
    by_cases hst : x.t.state = .waitResponsePrm
    · obtain ⟨heq, hinv⟩ := dstTimer_waiting ht.toDstInv hst hne
      have hne : x.t.state ≠ .sendResponse := by simp [hst]
      rw [heq]
      exact ⟨⟨hinv, ht.responder, ht.noInput, fun h => absurd h hne, fun h => absurd h hne,
        fun h => absurd h hne⟩, hdec⟩
    · exact answering_timer ht (ht.sending hst).1 hstop
  exact ⟨by simp [hans.status], hans, hstop'⟩

/-! ## The node -/

/-- The destination transaction `p` is pooled under `k`, answers copies and has `stop` ticks to
live. -/
structure Node.Answers (s : Node σ) (p : Ptr) (k : Id × UInt16) (stop : Nat) : Prop where
  mem : p ∈ s.dst
  key : s.dstKey p = k
  answering : Answering (s.dsts.get p)
  stop : (s.dsts.get p).transactionStopWhen = stop

section

variable {s s' : Node σ} {p q i o : Ptr} {k : Id × UInt16} {stop : Nat}

namespace Node.Answers

theorem of_eq (h : s.Answers p k stop) (hdsts : s'.dsts = s.dsts) (hdst : s'.dst = s.dst) :
    s'.Answers p k stop where
  mem := hdst ▸ h.mem
  key := by rw [dstKey, hdsts]; exact h.key
  answering := hdsts ▸ h.answering
  stop := hdsts ▸ h.stop

/-- The transaction has done something and still answers copies. -/
theorem settle_self {x : Machine DstState} (h : s.Answers p k stop) (hx : (s.dstMachine p).Moves x)
    (hans : Answering x.t) (hstop : x.t.transactionStopWhen = stop) :
    ((s.putDst p x).delFinishedDst p).Answers p k stop := by
  have hcell : (s.putDst p x).dsts.get p = x.t := get_set_self
  have hnot : (s.putDst p x).delFinishedDst p = s.putDst p x := by
    refine if_neg ?_
    rw [hcell, Transaction.Finished, hans.status]
    simp
  rw [hnot]
  exact ⟨h.mem, by rw [dstKey, hcell]; exact hx.key.trans h.key, hcell ▸ hans, hcell ▸ hstop⟩

/-- Another transaction has done something. -/
theorem settle_other {x : Machine DstState} (h : s.Answers p k stop) (hs : s.DstWF) (hq : q ∈ s.dst)
    (hne : p ≠ q) (hx : (s.dstMachine q).Moves x) :
    ((s.putDst q x).delFinishedDst q).Answers p k stop := by
  have hcell : (s.putDst q x).dsts.get p = s.dsts.get p := get_set_of_ne hne
  have hput : (s.putDst q x).Answers p k stop :=
    ⟨h.mem, by rw [dstKey, hcell]; exact h.key, hcell ▸ h.answering, hcell ▸ h.stop⟩
  have hkey : (s.putDst q x).dstKey q = s.dstKey q := by
    rw [dstKey, putDst, get_set_self]
    exact hx.key
  unfold delFinishedDst
  split
  · refine ⟨Pool.mem_del.mpr ⟨hput.mem, ?_⟩, hput.key, hput.answering, hput.stop⟩
    rw [hput.key, hkey, ← h.key]
    exact fun heq => hne (hs.keys.eq_of_key h.mem hq heq)
  · exact hput

end Node.Answers

/-- A call of `process_message` leaves the transaction as it is, or responds on its behalf. -/
theorem Evolves.answers (h : Evolves s s') (hs : s.DstWF) (ha : s.Answers p k stop) :
    s'.Answers p k stop := by
  induction h with
  | refl s => exact ha
  | trans h _ ih ih' => exact ih' (h.dstWF hs).1 (ih hs ha)
  | apart h => exact ha.of_eq h.dsts h.dst
  | outConfirm s o _ => exact ha.of_eq rfl rfl
  | outNew h => exact ha.of_eq (by simp [startSrc]; rfl) (by simp [startSrc]; rfl)
  | @outDst s o q h =>
    have hq : q ∈ s.dst := Pool.mem_of_find h.2
    have hmoves := (outDstRun_spec (o := o) (hs.inv q hq)).1
    have halog : (s.logOut o).Answers p k stop := ha.of_eq rfl rfl
    by_cases hpq : p = q
    · subst hpq
      obtain ⟨hans, hstop⟩ := answering_out (x := (s.logOut o).dstMachine p)
        ha.answering (by
          change ((s.logOut o).msgs.get o).ackreq = true
          simp)
      exact halog.settle_self hmoves hans (hstop.trans ha.stop)
    · exact halog.settle_other (hs.of_eq rfl rfl) hq hpq hmoves
  | outSrc _ _ => exact ha.of_eq (by simp; rfl) (by simp; rfl)
  | outCall _ _ _ ih =>
    exact (ih (hs.of_eq rfl rfl) (ha.of_eq rfl rfl)).of_eq (by simp; rfl) (by simp; rfl)
  | outThrow _ _ _ ih => exact ih (hs.of_eq rfl rfl) (ha.of_eq rfl rfl)

/-- `message_in` leaves the transaction answering, unless it is given an acknowledgement for it. -/
theorem Incoming.answers {process : Ptr → Ptr → M σ Bool} {r : Result Fault (Node σ) Unit}
    (hproc : ∀ i o, Keeps EvolvesWF (process i o)) (h : Incoming process s i r)
    (hs : s.WF) (ha : s.Answers p k stop)
    (hack : s.inKey i = k → (s.msgs.get i).ForSource = false → (s.msgs.get i).ackrsp = false) :
    r.state.Answers p k stop := by
  have halog : (s.logIn i).Answers p k stop := ha.of_eq rfl rfl
  refine h.induct (P := (·.Answers p k stop)) hproc hs (fun q x hx => ?_)
    (fun q x s₁ hx hev => ?_) (fun q hin => ?_) fun s₁ _ hev => ?_
  · exact ha.of_eq (by simp; rfl) (by simp; rfl)
  · have ha₁ := hev.answers (hx.spec hs).2.2.2.dst (ha.of_eq rfl rfl)
    exact ⟨ha₁, ha₁.of_eq (by simp; rfl) (by simp; rfl)⟩
  · have hq : q ∈ s.dst := Pool.mem_of_find hin.2
    have hmoves := (inDstRun_spec (i := i) (hs.dst.inv q hq)).1
    by_cases hpq : p = q
    · subst hpq
      have hkey : s.inKey i = k := (Pool.key_of_find hin.2).symm.trans ha.key
      obtain ⟨hans, hstop, -⟩ := answering_in (x := (s.logIn i).dstMachine p)
        ha.answering (hack hkey hin.1)
      exact halog.settle_self hmoves hans (hstop.trans ha.stop)
    · exact halog.settle_other (hs.dst.of_eq rfl rfl) hq hpq hmoves
  · have hnew : (s.inNewCall i).Answers p k stop := by
      have hcell : (s.inNewCall i).dsts.get p = s.dsts.get p := by
        rw [inNewCall_dsts, get_push_of_lt (hs.dst.lt p ha.mem)]
      exact ⟨ha.mem, by rw [dstKey, hcell]; exact ha.key, hcell ▸ ha.answering, hcell ▸ ha.stop⟩
    have ha₁ := hev.answers hs.inNewCall.dst hnew
    refine ⟨ha₁, fun rsp => ?_⟩
    have hcell : (s₁.onDst s.dsts.next (dstResume · rsp)).dsts.get p = s₁.dsts.get p :=
      get_set_of_ne (hs.dst.lt p ha.mem).ne
    refine ⟨?_, ?_, ?_, ?_⟩
    · unfold poolDst
      split
      · exact Pool.mem_add_of_mem ha₁.mem
      · exact ha₁.mem
    · rw [dstKey, poolDst_dsts, hcell]
      exact ha₁.key
    · rw [poolDst_dsts, hcell]
      exact ha₁.answering
    · rw [poolDst_dsts, hcell]
      exact ha₁.stop

theorem Node.SrcTicked.answers (h : s.SrcTicked s') (ha : s.Answers p k stop) :
    s'.Answers p k stop := ha.of_eq h.dsts h.dst

theorem Node.DstTicked.answers (h : s.DstTicked s') (ha : s.Answers p k stop) (hstop : 1 < stop) :
    s'.Answers p k (stop - 1) := by
  obtain ⟨del, hdel, htick⟩ := h.ticked p ha.mem
  obtain ⟨hkept, hans, hleft⟩ := htick.answering ha.answering (by rw [ha.stop]; exact hstop)
  exact ⟨hdel.mpr hkept, (h.key p).trans ha.key, hans, by rw [hleft, ha.stop]⟩

end

/-! ## Runs -/

/-- Is the input a tick? -/
def Input.isTick : Input σ → Bool
  | .tick => true
  | _ => false

theorem Input.eq_tick {i : Input σ} (h : i.isTick = true) : i = .tick := by
  cases i with
  | recv | act => cases h
  | tick => rfl

section

variable {handler : Handler σ} {n : Nat} {s s' : Node σ} {p : Ptr} {k : Id × UInt16} {stop : Nat}

/-- The input is not an acknowledgement for the destination transaction under `k`. -/
def Input.NoAckFor (k : Id × UInt16) (i : Input σ) : Prop :=
  ∀ m, i = .recv m → (m.source, m.tid) = k → m.ForSource = false → m.ackrsp = false

/-- One reaction while a transaction answers copies. -/
theorem step_answers {i : Input σ} (hs : s.WF) (ha : s.Answers p k stop) (hno : i.NoAckFor k)
    (hlive : i.isTick = true → 1 < stop) (h : step handler n i s = .ok () s') :
    s'.Answers p k (stop - if i.isTick then 1 else 0) := by
  cases i with
  | recv m =>
    have hin := recv_incoming handler n m hs.dst
    have hmsg : (s.received m).msgs.get s.msgs.next = m := get_push_next
    rw [h] at hin
    refine hin.answers (process_evolves handler n) (hs.apart (s.apart_received m))
      (ha.of_eq rfl rfl) ?_
    rw [inKey, hmsg]
    exact hno m rfl
  | act x =>
    have hev := act_evolves handler n x hs.dst
    rw [h] at hev
    exact hev.answers hs.dst ha
  | tick =>
    obtain ⟨s₁, hsrc, hdst⟩ := tick_ok hs h
    exact hdst.answers (hsrc.answers ha) (hlive rfl)

theorem steps_answers {is : List (Input σ)} (h : Steps (step handler n) s is s')
    (hs : s.WF) (ha : s.Answers p k stop) (hno : ∀ i ∈ is, i.NoAckFor k)
    (hticks : is.countP Input.isTick < stop) : s'.Answers p k (stop - is.countP Input.isTick) := by
  induction h generalizing stop with
  | nil s => exact ha
  | @cons i is s s₁ s₂ heq _ ih =>
    rw [List.countP_cons] at hticks ⊢
    have ha₁ := step_answers hs ha (hno i (by simp)) (fun hi => by simp [hi] at hticks; omega) heq
    have := ih (step_wf handler n hs heq) ha₁ (fun j hj => hno j (by simp [hj])) (by omega)
    rwa [Nat.sub_sub, Nat.add_comm] at this

/-- `process_message` is called for `m`, which opens a destination transaction, and does not answer
it. -/
def Node.Defers (handler : Handler σ) (n : Nat) (s : Node σ) (m : MetaMessage) : Prop :=
  ∃ s', process handler n s.msgs.next ((s.received m).inNewInit s.msgs.next).t.outMsg
    ((s.received m).inNewCall s.msgs.next) = .ok false s'

variable {m : MetaMessage}

/-- A new transaction that goes on and acknowledges its request answers copies. -/
theorem Machine.answering_dstResume {x : Machine DstState} (h : Called x.t) {rsp : Bool}
    (hon : (x.dstResume rsp).t.transactionStatus = .ongoing)
    (hr : (x.dstResume rsp).t.startAckResponder = true) : Answering (x.dstResume rsp).t := by
  have hinv := dstResume_inv h hon
  obtain ⟨-, ⟨ht, -⟩ | ⟨st, dup, ack, hst, ht, -⟩⟩ := dstResume_cases h hon
  · rw [ht] at hinv hr ⊢
    refine ⟨hinv, hr, h.noInput, ?_, ?_, ?_⟩ <;> exact fun hst => by cases hst
  · rw [ht] at hinv hr ⊢
    have hr' : x.t.startAckResponder = true := hr
    refine ⟨hinv, hr, h.noInput, fun _ => ⟨rfl, rfl, Nat.succ_pos 4⟩, fun _ => ?_, fun _ => ?_⟩
    · change 5 * 0 + 5 + x.t.transactionStopWhen ≤ 15 + 5
      rw [h.stop]
    · exact .inl (hst hr')

/-- A request that is not answered at once: its transaction acknowledges it and answers copies. -/
theorem Machine.answering_later {x : Machine DstState} (h : Called x.t)
    (hop : x.t.opcode = .request) (hr : x.t.startAckResponder = true) :
    Answering (x.dstResume false).t ∧ (x.dstResume false).t.transactionStopWhen = 15 ∧
      (x.dstResume false).t.key = x.t.key := by
  obtain ⟨ht, -⟩ := dstResume_later h (.inl hop)
  have hans := @answering_dstResume x h false
  rw [ht] at hans ⊢
  exact ⟨hans h.status hr, h.stop, rfl⟩

/-- No pooled destination transaction has the key of the new one. -/
theorem Node.inNew_find {i : Ptr} {s₁ : Node σ} (hs : s.WF) (h : Evolves (s.inNewCall i) s₁)
    (hnew : s.findDst k = none) : ∀ q ∈ s₁.dst, s₁.dstKey q ≠ k := by
  intro q hq
  have hf := (h.dstWF hs.inNewCall.dst).2
  have hq' : q ∈ s.dst := hf.pool.subset hq
  rw [hf.key q, dstKey, inNewCall_dsts, get_push_of_lt (hs.dst.lt q hq')]
  exact Pool.find_eq_none.mp hnew q hq'

/-- The transaction that a deferred request leaves in the pool. -/
theorem Node.answers_resume {s₁ : Node σ} (hnot : p ∉ s₁.dst) (hc : Called (s₁.dsts.get p))
    (hop : (s₁.dsts.get p).opcode = .request) (hr : (s₁.dsts.get p).startAckResponder = true)
    (hkey : s₁.dstKey p = k) (hfree : ∀ q ∈ s₁.dst, s₁.dstKey q ≠ k) :
    ((s₁.onDst p (dstResume · false)).poolDst p).Answers p k 15 := by
  obtain ⟨hans, hstop, hkey'⟩ := answering_later (x := s₁.dstMachine p) hc hop hr
  have hcell : (s₁.onDst p (dstResume · false)).dsts.get p =
      ((s₁.dstMachine p).dstResume false).t := get_set_self
  have hself : (s₁.onDst p (dstResume · false)).dstKey p = k := by
    rw [dstKey, hcell]
    exact hkey'.trans hkey
  have hfind : Pool.find (s₁.onDst p (dstResume · false)).dstKey s₁.dst k = none := by
    refine Pool.find_eq_none.mpr fun q hq => ?_
    have hqp : q ≠ p := fun heq => hnot (heq ▸ hq)
    have hother : (s₁.onDst p (dstResume · false)).dsts.get q = s₁.dsts.get q := get_set_of_ne hqp
    rw [dstKey, hother]
    exact hfree q hq
  refine ⟨?_, ?_, ?_, ?_⟩
  · unfold poolDst
    rw [hcell, if_pos hans.status]
    change p ∈ Pool.add _ s₁.dst p
    unfold Pool.add
    rw [hself, hfind]
    simp
  · rw [dstKey, poolDst_dsts]
    exact hself
  · rw [poolDst_dsts, hcell]
    exact hans
  · rw [poolDst_dsts, hcell]
    exact hstop

/-- The first copy of a request that is not answered at once. -/
theorem recv_first (hs : s.WF) (hop : m.opcode = .request) (hreq : m.ackreq = true)
    (hrsp : m.ackrsp = false) (huni : m.isMulticast = false)
    (hnew : s.findDst (m.source, m.tid) = none) (hdefer : s.Defers handler n m)
    (h : step handler n (.recv m) s = .ok () s') :
    s'.Answers s.dsts.next (m.source, m.tid) 15 ∧
      .process ⟨.dst, s.dsts.next, m.source, m.tid⟩ s.msgs.next m ∈ s'.log := by
  have hmsg : (s.received m).msgs.get s.msgs.next = m := get_push_next
  have hfor : ((s.received m).msgs.get s.msgs.next).ForSource = false := by
    rw [hmsg]
    simp [MetaMessage.ForSource, hop, hrsp]
  have hkey : (s.received m).inKey s.msgs.next = (m.source, m.tid) := by rw [inKey, hmsg]
  have hwf := hs.apart (s.apart_received m)
  have hin := recv_incoming handler n m hs.dst
  rw [h] at hin
  obtain ⟨rsp, s₁, hres, rfl⟩ := hin.of_new (.inr ⟨hfor, hkey ▸ hnew⟩)
  obtain ⟨s₂, hfalse⟩ := hdefer
  rw [hres] at hfalse
  cases hfalse
  have hev : Evolves _ s₁ := (process_evolves handler n _ _).result hres hwf.inNewCall.dst
  obtain ⟨-, hnot, hcell⟩ := inNew_cell hwf hev
  obtain ⟨hopc, hk, hresp, hcontent⟩ := inNewInit_spec (s := s.received m) (Nat.lt_succ_self _)
  rw [hmsg] at hopc hresp hcontent
  constructor
  · refine answers_resume hnot (hcell ▸ called_inNewInit _ _) ?_ ?_ ?_ (inNew_find hwf hev hnew)
    · rw [hcell, hopc, hop]
    · rw [hcell, hresp, hreq, huni]
      rfl
    · rw [dstKey, hcell, hk, hkey]
  · have hlogs : Logs ((s.received m).inNewCall s.msgs.next)
        ((s₁.onDst s.dsts.next (dstResume · false)).poolDst s.dsts.next) :=
      (hev.logs hwf.inNewCall).trans
        (.of_moves (moves_dstResume (s₁.dstMachine s.dsts.next) false) rfl (poolDst_log ..))
    refine hlogs.subset ?_
    have hevent : ((s.received m).inNewCall s.msgs.next).log =
        ((s.received m).logIn s.msgs.next).log ++
          [.process ⟨.dst, s.dsts.next, ((s.received m).inNewInit s.msgs.next).t.key⟩
            ((s.received m).inNewInit s.msgs.next).t.inMsg
            ((s.received m).inNewInit s.msgs.next).inMsg] := rfl
    rw [hevent, hk, hkey, inNewInit_inMsg, hcontent]
    simp

/-- A copy that comes in while its transaction answers copies gets what is stored, and that is all
that happens. -/
theorem recv_copy {C : Type} [Pool.Container C] {s : Node σ C} (ha : Answering (s.dsts.get p))
    (hp : s.findDst (m.source, m.tid) = some p) (hkey : s.dstKey p = (m.source, m.tid))
    (hfor : m.ForSource = false) (hrsp : m.ackrsp = false) :
    ∃ s' src t why q c, step handler n (.recv m) s = .ok () s' ∧ t = s.dsts.get p ∧
      s'.log = s.log ++ [.messageIn s.msgs.next m src (some t),
        .send ⟨.dst, p, m.source, m.tid⟩ why q c] ∧
      (t.state = .waitResponsePrm ∧ why = .ack ∧ c = t.ack ∨
        t.state = .sendResponse ∧ why = .duplicate ∧ q = t.dup) := by
  have hmsg : (s.received m).msgs.get s.msgs.next = m := get_push_next
  have hinKey : (s.received m).inKey s.msgs.next = (m.source, m.tid) := by rw [inKey, hmsg]
  have hfor' : ((s.received m).msgs.get s.msgs.next).ForSource = false := by rw [hmsg, hfor]
  have hfind : (s.received m).findDst ((s.received m).inKey s.msgs.next) = some p := by
    rw [hinKey]
    exact hp
  obtain ⟨-, -, why, q, c, hlog, hwhy⟩ := answering_in
    (x := ((s.received m).logIn s.msgs.next).dstMachine p) ha
    (by change ((s.received m).msgs.get s.msgs.next).ackrsp = false; rw [hmsg]; exact hrsp)
  have hstep : step handler n (.recv m) s = _ := messageIn_of_dst ⟨hfor', hfind⟩ ha.toDstInv
  have hevent : (s.received m).inEvent s.msgs.next = .messageIn s.msgs.next m
      ((s.findSrc (m.source, m.tid)).map s.srcs.get) (some (s.dsts.get p)) := by
    rw [inEvent, hfind, hmsg, hinKey]
    rfl
  have howner : (((s.received m).logIn s.msgs.next).dstMachine p).owner =
      ⟨.dst, p, m.source, m.tid⟩ := congrArg (Owner.mk .dst p) hkey
  refine ⟨_, (s.findSrc (m.source, m.tid)).map s.srcs.get, s.dsts.get p, why, q, c, hstep, rfl, ?_,
    hwhy⟩
  rw [delFinishedDst_log]
  rw [howner] at hlog
  refine hlog.trans ?_
  change ((s.received m).logIn s.msgs.next).log ++ _ = _
  rw [logIn_log, hevent, List.append_assoc]
  rfl

end

variable {C : Type} [Pool.Container C]

/-- A unicast request that wants an acknowledgement is processed when it first comes in. If it is
not answered at once, then until the fifteenth tick and unless its response is acknowledged, every
further copy is answered with the acknowledgement or the response that the transaction has stored,
and nothing else happens. The containers of the pools have to act as sets all the while. -/
theorem copies_answered (handler : Handler σ) (n : Nat) (svc : σ) (tid : UInt16)
    {is₁ is₂ : List (Input σ)} {s s₁ s₂ : Node σ (Pool.Tracked C)} {m m' : MetaMessage}
    (hreach : Steps (step handler n) (Node.start svc tid) is₁ s)
    (hop : m.opcode = .request) (hreq : m.ackreq = true) (hrsp : m.ackrsp = false)
    (huni : m.isMulticast = false) (hnew : s.findDst (m.source, m.tid) = none)
    (hdefer : s.abs.Defers handler n m) (hfirst : step handler n (.recv m) s = .ok () s₁)
    (hlater : Steps (step handler n) s₁ is₂ s₂) (hticks : is₂.countP Input.isTick < 15)
    (hno : ∀ i ∈ is₂, i.NoAckFor (m.source, m.tid))
    (hsource : m'.source = m.source) (htid : m'.tid = m.tid) (hmid : m'.mid = m.mid)
    (hrsp' : m'.ackrsp = false) (hexact : s₂.Exact) :
    .process ⟨.dst, s.dsts.next, m.source, m.tid⟩ s.msgs.next m ∈ s₁.log ∧
    ∃ s₃ src t why q c, step handler n (.recv m') s₂ = .ok () s₃ ∧
      s₃.log = s₂.log ++ [.messageIn s₂.msgs.next m' src (some t),
        .send ⟨.dst, s.dsts.next, m.source, m.tid⟩ why q c] ∧
      (why = .ack ∧ c = t.ack ∨ why = .duplicate ∧ q = t.dup) := by
  obtain ⟨hE₁, hlater⟩ := hexact.steps hlater
  obtain ⟨hE, hfirst⟩ := hE₁.step hfirst
  have hs := wf_steps (hE.reached hreach)
  have hs₁ := step_wf handler n hs hfirst
  obtain ⟨ha, hproc⟩ := recv_first hs hop hreq hrsp huni hnew hdefer hfirst
  have ha₂ := steps_answers hlater hs₁ ha hno hticks
  have hs₂ := hlater.induct (fun _ _ _ hs heq => step_wf handler n hs heq) hs₁
  have hop' : m'.opcode = .request := by rw [← hop, MetaMessage.opcode, MetaMessage.opcode, hmid]
  rw [← hsource, ← htid] at ha₂ ⊢
  have hfor' : m'.ForSource = false := by simp [MetaMessage.ForSource, hop', hrsp']
  obtain ⟨s₃, src, t, why, q, c, heq, -, hlog, hwhy⟩ := recv_copy (s := s₂) ha₂.answering
    (hs₂.dst.keys.find_eq_some ha₂.mem ha₂.key) ha₂.key hfor' hrsp'
  refine ⟨by rwa [hsource, htid], s₃, src, t, why, q, c, heq, hlog, ?_⟩
  exact hwhy.imp (·.2) (·.2)

/-- A request of the peer `[80]`. -/
def requestFrom80 : MetaMessage :=
  { mid := 0x1401, tid := 9, ackreq := true, source := [80], destination := [81]
    payload := [4, 0] }

theorem copies_answered_idle :
    let s₁ := (step idle 1 (.recv requestFrom80)
      (start () 0 : Node Unit (Pool.Tracked (List Nat)))).state
    let s₂ := (step idle 1 .tick s₁).state
    .process ⟨.dst, 1, [80], 9⟩ 1 requestFrom80 ∈ s₁.log ∧
    ∃ s₃ src t why q c, step idle 1 (.recv requestFrom80) s₂ = .ok () s₃ ∧
      s₃.log = s₂.log ++ [.messageIn s₂.msgs.next requestFrom80 src (some t),
        .send ⟨.dst, 1, [80], 9⟩ why q c] ∧
      (why = .ack ∧ c = t.ack ∨ why = .duplicate ∧ q = t.dup) :=
  copies_answered idle 1 () 0 (.nil _) (by decide) rfl rfl rfl rfl
    ⟨_, rfl⟩ (Result.eq_ok_of_isOk (by decide +kernel))
    (show Steps (step idle 1) _ [.tick] _ from
      .cons (Result.eq_ok_of_isOk (by decide +kernel)) (.nil _))
    (by decide) (by simp [Input.NoAckFor]) rfl rfl rfl rfl (by decide +kernel)

/-- A handler that answers everything at once. -/
def eager : Handler Unit := fun i o => do
  let m : MetaMessage ← Prog.perform (I := Calls Unit) (.readMsg i)
  Prog.perform (I := Calls Unit) (.writeMsg o
    { mid := 0x1801, tid := m.tid, source := m.destination, destination := m.source
      payload := [3, 1, 0] })
  pure true

/-- A request that is answered at once leaves no transaction behind, and its copy is processed
again. -/
theorem copy_processed_again :
    (run eager 1 [.recv requestFrom80, .recv requestFrom80]
      (Node.initial () 0)).log.filterMap Event.processed = [requestFrom80, requestFrom80] := by
  decide +kernel

end Odtone.Mihf
