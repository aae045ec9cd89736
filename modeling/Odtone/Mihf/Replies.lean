import Odtone.Mihf.Outcome
import Odtone.Mihf.DstCourse
import Odtone.Mihf.Containers

/-! # Replies

What a pooled destination transaction does with a further copy of its request, and with the first
response that is submitted to it, depends on how far it has got. That can be read off its past: it
has called `process_message` once, for the frame that opened it, and it has sent a response if and
only if it is in `_send_response_lbl_`. -/

namespace Odtone.Mihf

open Machine Node List EStateM

variable {σ : Type}

/-! ## Turns -/

namespace Machine

variable {x y z : Machine DstState}

/-- The transaction has not gone back to wait for a response. -/
def Onward (x y : Machine DstState) : Prop :=
  x.t.state ≠ .waitResponsePrm → y.t.state ≠ .waitResponsePrm ∧
    (y.t.state = .sendResponse → x.t.state = .sendResponse)

theorem Onward.trans (h : Onward x y) (h' : Onward y z) : Onward x z := fun hx =>
  ⟨(h' (h hx).1).1, fun hz => (h hx).2 ((h' (h hx).1).2 hz)⟩

theorem SameCourse.onward (h : SameCourse x y) : Onward x y := fun hx => by
  rw [h.state]
  exact ⟨hx, id⟩

theorem responder_dstRun (h : x.t.state ≠ .init) :
    x.dstRun.1.t.startAckResponder = x.t.startAckResponder := congrArg Prod.snd (fixed_dstRun h)

theorem onward_dstRun (h : x.t.state ≠ .init) : Onward x x.dstRun.1 := by
  intro hx
  unfold dstRun
  cases hst : x.t.state with
  | init => exact absurd hst h
  | waitResponsePrm => exact absurd hst hx
  | sendResponse =>
    refine ⟨?_, fun _ => rfl⟩
    unfold dstSendResponse
    split_ifs
    · simp [dstSuccess]
    · simp [dstFailure]
    · simp [hst]
  | failure => simp [dstFailure]
  | success => simp [dstSuccess]

end Machine

/-- Is the event the first transmission of a response? -/
def Event.isResponse : Event → Bool
  | .send _ .response _ _ => true
  | _ => false

theorem Event.eq_send_of_isResponse {e : Event} (h : e.isResponse = true) :
    ∃ o q m, e = .send o .response q m := by
  cases e with
  | send o why q m =>
    cases why with
    | response => exact ⟨o, q, m, rfl⟩
    | _ => cases h
  | _ => cases h

theorem Event.send_response_notMem {l : List Event} (h : ∀ e ∈ l, e.isResponse = false) {o : Owner}
    (q : Ptr) (m : MetaMessage) : .send o .response q m ∉ l := fun hmem => by
  cases h _ hmem

namespace Machine

variable {x y : Machine DstState}

/-- A turn: a response is sent on the way from `_wait_response_prm_lbl_` to
`_send_response_lbl_`. -/
structure Replying (x y : Machine DstState) : Prop where
  responder : y.t.startAckResponder = x.t.startAckResponder
  onward : Onward x y
  waiting : x.t.state = .waitResponsePrm → y.t.state = .waitResponsePrm →
    ∀ l, y.log = x.log ++ l → ∀ e ∈ l, e.isResponse = false
  sending : x.t.state = .waitResponsePrm → y.t.state = .sendResponse →
    ∀ l, y.log = x.log ++ l → ∃ e ∈ l, e.isResponse = true

theorem Replying.still (hr : y.t.startAckResponder = x.t.startAckResponder)
    (hst : y.t.state = x.t.state) (hlog : y.log = x.log) : Replying x y := by
  refine ⟨hr, fun hx => ⟨hst ▸ hx, fun h => hst ▸ h⟩, fun _ _ l hl e he => ?_, fun hx hy => ?_⟩
  · rw [append_right_eq_self.mp (hl.symm.trans hlog)] at he
    cases he
  · rw [hst, hx] at hy
    cases hy

theorem replying_dstOut (h : DstInv x.t) (o : Ptr) (hack : (x.msgs.get o).ackreq = true) :
    Replying x (x.dstOut o) := by
  have hcourse := sameCourse_out (x := x) o
  have hlive : (x.out o).t.state ≠ .init := by
    rw [hcourse.state]
    exact h.state_ne_init
  have hrun : x.dstOut o = (x.out o).dstRun.1 :=
    congrArg Prod.fst (dstRunIfOngoing_of_ongoing (hcourse.status.trans h.status))
  rw [hrun]
  refine ⟨(responder_dstRun hlive).trans hcourse.responder,
    hcourse.onward.trans (onward_dstRun hlive),
    fun hst hst' => ?_, fun hst _ l hl => ?_⟩
  · obtain ⟨rsp, dup, st, -, -, ht, -⟩ := dstRun_out_waiting h hst hack
    rw [ht] at hst'
    cases hst'
  · obtain ⟨rsp, dup, st, -, -, -, hlog⟩ := dstRun_out_waiting h hst hack
    obtain rfl := append_cancel_left (hl.symm.trans hlog)
    exact ⟨_, mem_singleton_self _, rfl⟩

theorem replying_dstReceive (h : DstInv x.t) (i : Ptr) : Replying x (x.dstReceive i) := by
  have hcourse := sameCourse_dstIn (x := x) i
  have hlive : (x.dstIn i).t.state ≠ .init := by
    rw [hcourse.state]
    exact h.state_ne_init
  have hrun : x.dstReceive i = (x.dstIn i).dstRun.1.dstInAck :=
    congrArg (·.1.dstInAck) (dstRunIfOngoing_of_ongoing (hcourse.status.trans h.status))
  have hack : SameCourse (x.dstIn i).dstRun.1 (x.dstIn i).dstRun.1.dstInAck := by
    unfold dstInAck
    split
    · exact .startedAckResponder _
    · exact ⟨rfl, rfl, rfl, rfl, rfl, rfl⟩
  rw [hrun]
  refine ⟨hack.responder.trans ((responder_dstRun hlive).trans hcourse.responder),
    (hcourse.onward.trans (onward_dstRun hlive)).trans hack.onward, fun hst _ l hl => ?_,
    fun hst hst' => ?_⟩
  · obtain ⟨-, hlog⟩ := dstIn_waiting h hst
    obtain rfl := append_cancel_left (hl.symm.trans hlog)
    intro e he
    split at he
    · obtain rfl := mem_singleton.mp he
      rfl
    · cases he
  · obtain ⟨ht, -⟩ := dstIn_waiting h hst
    rw [ht, show ({ x.t with inMsg := i, msgInAvail := !x.t.startAckResponder } :
      DstTransaction).state = x.t.state from rfl, hst] at hst'
    cases hst'

theorem replying_dstDecLife (h : DstInv x.t) : Replying x x.dstDecLife := by
  unfold dstDecLife life
  extract_lets y
  have hlive : y.t.state ≠ .init := h.state_ne_init
  split
  · next hstop =>
      have hfail : x.t.state = .waitResponsePrm → y.dstRun.1.t.state = .failure := fun hst => by
        have hst' : y.t.state = .waitResponsePrm := hst
        simp [dstRun, hst', dstWaitResponsePrm, hstop, dstFailure]
      refine ⟨responder_dstRun hlive, onward_dstRun hlive, fun hst hst' => ?_, fun hst hst' => ?_⟩
      all_goals
        rw [hfail hst] at hst'
        cases hst'
  · exact .still rfl rfl rfl

/-- While the transaction waits, its retransmission timer is not in use. -/
theorem dstDecTimer_waiting (h : Lived x.t) (hst : x.t.state = .waitResponsePrm) :
    x.t.startAckRequestor = false ∧ x.dstDecTimer = x.decRetransmission := by
  obtain ⟨x₀, hinv, hx⟩ := h
  have hst₀ : x₀.t.state = .waitResponsePrm := by
    by_contra hne
    exact ((replying_dstDecLife hinv).onward hne).1 (hx ▸ hst)
  have hw := hinv.waiting hst₀
  have hstop : x₀.decStop.t.transactionStopWhen ≠ 0 := fun hzero => by
    have hfail : x₀.dstDecLife.t.state = .failure := by
      have hst' : x₀.decStop.t.state = .waitResponsePrm := hst₀
      have hlife : x₀.dstDecLife = x₀.decStop.dstRun.1 := if_pos hzero
      simp [hlife, dstRun, hst', dstWaitResponsePrm, hzero, dstFailure]
    rw [hx, hfail] at hst
    cases hst
  have hlife : x.t = x₀.decStop.t := hx.trans (congrArg t (if_neg hstop))
  have hwhen : x.decRetransmission.t.retransmissionWhen ≠ 0 := by
    have hsame : x.t.retransmissionWhen = x₀.t.retransmissionWhen := by rw [hlife]; rfl
    change decUnsigned x.t.retransmissionWhen ≠ 0
    rw [Ne, decUnsigned_eq_zero, hsame, hw.timer]
    omega
  have hon : x.t.ackRequestorStatus = .ongoing := by
    rw [hlife]
    exact hw.reqStatus
  exact ⟨by rw [hlife]; exact hw.requestor, (if_pos hon).trans (if_neg hwhen)⟩

theorem replying_dstDecTimer (h : Lived x.t) : Replying x x.dstDecTimer := by
  have hlive : x.t.state ≠ .init := by
    obtain ⟨x₀, hinv, hx⟩ := h
    exact hx ▸ dstDecLife_live hinv.state_ne_init
  by_cases hst : x.t.state = .waitResponsePrm
  · rw [(dstDecTimer_waiting h hst).2]
    exact .still rfl rfl rfl
  · unfold dstDecTimer timer
    extract_lets y
    have hreq := SameCourse.ackRequestor y
    have hlive' : y.ackRequestor.t.state ≠ .init := hreq.state ▸ hlive
    split_ifs
    · exact ⟨(responder_dstRun hlive').trans hreq.responder,
        hreq.onward.trans (onward_dstRun hlive'), (absurd · hst), (absurd · hst)⟩
    all_goals exact .still rfl rfl rfl

end Machine

/-- The past of the destination transaction `p`, which the frame `i` with the content `m` has
opened. -/
structure Replies (p i : Ptr) (m : MetaMessage) (a : Trace DstState) : Prop where
  key : a.t.key = (m.source, m.tid)
  responder : a.t.startAckResponder = (m.ackreq && !m.isMulticast)
  processed : a.processed = [.process ⟨.dst, p, m.source, m.tid⟩ i m]
  waiting : a.t.state = .waitResponsePrm → ∀ e ∈ a.deeds, e.isResponse = false
  sending : a.t.state = .sendResponse → ∃ e ∈ a.deeds, e.isResponse = true

section

variable {p i : Ptr} {m : MetaMessage} {a b : Trace DstState}

theorem Trace.Does.replies {P : Machine DstState → Prop} {f : Machine DstState → Machine DstState}
    (h : a.Does .dst p P f b) (hr : Replies p i m a)
    (hmoves : ∀ x : Machine DstState, x.t = a.t → x.Moves (f x))
    (hreply : ∀ x : Machine DstState, x.t = a.t → P x → x.Replying (f x)) : Replies p i m b := by
  have hprocessed := h.processed hmoves
  obtain ⟨x, -, -, hx, hP, hb, l, hl, hdeeds⟩ := h
  obtain ⟨hresponder, honward, hwait, hsend⟩ := hreply x hx hP
  refine ⟨?_, ?_, hprocessed.trans hr.processed, fun hst => ?_, fun hst => ?_⟩
  · rw [hb, (hmoves x hx).key, hx]
    exact hr.key
  · rw [hb, hresponder, hx]
    exact hr.responder
  · rw [hb] at hst
    have hst₀ : x.t.state = .waitResponsePrm := by
      by_contra hne
      exact (honward hne).1 hst
    intro e he
    rw [hdeeds, mem_append] at he
    rcases he with he | he
    · exact hr.waiting (hx ▸ hst₀) e he
    · exact hwait hst₀ hst l hl e he
  · rw [hb] at hst
    by_cases hst₀ : x.t.state = .waitResponsePrm
    · obtain ⟨e, he, hrsp⟩ := hsend hst₀ hst l hl
      exact ⟨e, hdeeds ▸ mem_append_right _ he, hrsp⟩
    · obtain ⟨e, he, hrsp⟩ := hr.sending (hx ▸ (honward hst₀).2 hst)
      exact ⟨e, hdeeds ▸ mem_append_left _ he, hrsp⟩

theorem DstTurn.replies (h : DstTurn p a b) (hr : Replies p i m a) : Replies p i m b := by
  cases h with
  | out o hinv h =>
    exact h.replies hr (fun x hx => moves_dstOut (hx ▸ hinv.state_ne_init) o)
      fun x hx hack => replying_dstOut (hx ▸ hinv) o hack
  | input j hinv h =>
    exact h.replies hr (fun x hx => moves_dstReceive (hx ▸ hinv.state_ne_init) j)
      fun x hx _ => replying_dstReceive (hx ▸ hinv) j
  | life hinv h =>
    exact h.replies hr (fun x hx => moves_dstDecLife (hx ▸ hinv.state_ne_init))
      fun x hx _ => replying_dstDecLife (hx ▸ hinv)
  | timer hlived h =>
    obtain ⟨x₀, hinv, hx₀⟩ := id hlived
    have hlive : a.t.state ≠ .init := hx₀ ▸ dstDecLife_live hinv.state_ne_init
    exact h.replies hr (fun x hx => moves_dstDecTimer (hx ▸ hlive))
      fun x hx _ => replying_dstDecTimer (hx ▸ hlived)

theorem DstTurns.replies (h : DstTurns p a b) (hr : Replies p i m a) : Replies p i m b := by
  induction h with
  | refl => exact hr
  | tail _ h ih => exact h.replies ih

end

/-! ## The beginning -/

/-- A transaction that is opened and pooled. -/
theorem Node.Opens.replies {s s' : Node σ} {i : Ptr} (h : s.Opens i (.ok () s'))
    (hi : i < s.msgs.next) (hnew : s.deeds .dst s.dsts.next = []) (hmem : s.dsts.next ∈ s'.dst) :
    Replies s.dsts.next i (s.msgs.get i) (s'.dstTrace s.dsts.next) ∧
      ((s.msgs.get i).opcode = .request ∨ (s.msgs.get i).opcode = .confirm) ∧
      ((s'.dsts.get s.dsts.next).startAckResponder = true →
        Answering (s'.dsts.get s.dsts.next)) := by
  obtain ⟨a, ha, hdeeds, ⟨hok, -⟩ | ⟨rsp, hdoes, hon⟩⟩ := h
  · cases hok
  · have hprocessed := hdoes.processed fun x _ => moves_dstResume x rsp
    obtain ⟨hop, hkey, hresponder, hmsg⟩ := inNewInit_spec hi
    obtain ⟨x, -, -, hx, -, hb, l, hl, hdeeds'⟩ := hdoes
    have hcalled : Called x.t := by
      rw [hx, ha]
      exact s.called_inNewInit i
    have hcell : s'.dsts.get s.dsts.next = (x.dstResume rsp).t := hb
    have hon' : (x.dstResume rsp).t.transactionStatus = .ongoing := hcell ▸ hon hmem
    have hans := answering_dstResume hcalled hon'
    obtain ⟨hopc, hcases⟩ := dstResume_cases hcalled hon'
    rw [hx, ha, hop] at hopc
    rw [hnew, nil_append, hkey, hmsg] at hdeeds
    have hb : (s'.dstTrace s.dsts.next).t = (x.dstResume rsp).t := hb
    have hdeeds' : (s'.dstTrace s.dsts.next).deeds = a.deeds ++ l := hdeeds'
    have hkey' : (s'.dstTrace s.dsts.next).t.key = ((s.msgs.get i).source, (s.msgs.get i).tid) := by
      rw [hb, (moves_dstResume x rsp).key, hx, ha, hkey]
      rfl
    have hresponder' : (s'.dstTrace s.dsts.next).t.startAckResponder =
        ((s.msgs.get i).ackreq && !(s.msgs.get i).isMulticast) := by
      rw [hb, ← hresponder, ← ha, ← hx]
      rcases hcases with ⟨ht, -⟩ | ⟨_, _, _, -, ht, -⟩ <;> rw [ht]
    have hprocessed' : (s'.dstTrace s.dsts.next).processed =
        [.process ⟨.dst, s.dsts.next, (s.msgs.get i).source, (s.msgs.get i).tid⟩ i
          (s.msgs.get i)] := by
      refine Eq.trans hprocessed ?_
      rw [Trace.processed, hdeeds]
      rfl
    rcases hcases with ⟨ht, hlog⟩ | ⟨_, _, _, -, ht, q, m, hlog⟩
    · obtain rfl := append_cancel_left (hl.symm.trans hlog)
      refine ⟨⟨hkey', hresponder', hprocessed', fun _ e he => ?_, fun hst' => ?_⟩,
        hopc, hcell ▸ hans⟩
      · rw [hdeeds', hdeeds, mem_append, mem_singleton] at he
        rcases he with rfl | he
        · rfl
        · split at he
          · obtain rfl := mem_singleton.mp he
            rfl
          · cases he
      · rw [hb, ht] at hst'
        cases hst'
    · obtain rfl := append_cancel_left (hl.symm.trans hlog)
      refine ⟨⟨hkey', hresponder', hprocessed', fun hst' => ?_, fun _ => ?_⟩, hopc, hcell ▸ hans⟩
      · rw [hb, ht] at hst'
        cases hst'
      · rw [hdeeds']
        exact ⟨_, mem_append_right _ (mem_singleton_self _), rfl⟩

/-- The destination transaction of a request whose response has been sent and is not yet
acknowledged. -/
structure Responded (t : DstTransaction) : Prop where
  state : t.state = .sendResponse
  status : t.transactionStatus = .ongoing
  requestor : t.startAckRequestor = true
  reqState : t.ackReqState = .waitAck
  reqStatus : t.ackRequestorStatus = .ongoing
  timer : 0 < t.retransmissionWhen

namespace Machine

variable {x : Machine DstState} {i : Ptr}

/-- The acknowledgement of the response ends the transaction. -/
theorem dstIn_of_ack (h : Responded x.t) (hack : (x.msgs.get i).ackrsp = true) :
    (x.dstIn i).dstRunIfOngoing.1.dstInAck.t.Finished = true ∧
      (x.dstIn i).dstRunIfOngoing.1.dstInAck.log = x.log := by
  have hreq : x.dstIn i = (x.receive i).reqSuccess := by
    have hs : (x.receive i).t.startAckRequestor = true := h.requestor
    have hst : (x.receive i).t.ackReqState = .waitAck := h.reqState
    have htimer : (x.receive i).t.retransmissionWhen ≠ 0 := h.timer.ne'
    have hin : (x.receive i).inMsg.ackrsp = true := hack
    have havail : (x.receive i).t.msgInAvail = true := rfl
    simp only [dstIn, startedAckRequestor, hs, if_true, ackRequestor, hst, reqWaitAck, htimer,
      if_false, reqTestAck, hin, havail, Bool.and_self]
  have hon : (x.receive i).reqSuccess.t.transactionStatus = .ongoing := h.status
  have hstate : (x.receive i).reqSuccess.t.state = .sendResponse := h.state
  have hdone : (x.receive i).reqSuccess.t.ackRequestorStatus = .success := rfl
  have hrun : (x.receive i).reqSuccess.dstRunIfOngoing.1 = (x.receive i).reqSuccess.dstSuccess := by
    simp only [dstRunIfOngoing, hon, if_true, dstRun, hstate, dstSendResponse, hdone]
    simp
  rw [hreq, hrun]
  simp [dstInAck, dstSuccess, Transaction.Finished, reqSuccess, receive]

end Machine

/-! ## Runs -/

/-- What holds of the destination transactions in every state that is reached. -/
structure Node.Kept (s : Node σ) : Prop where
  unborn : ∀ q, s.dsts.next ≤ q → s.deeds .dst q = []
  replies : ∀ q ∈ s.dst, ∃ i m, Replies q i m (s.dstTrace q) ∧
    (m.opcode = .request ∨ m.opcode = .confirm)
  answering : ∀ q ∈ s.dst, (s.dsts.get q).startAckResponder = true → Answering (s.dsts.get q)

theorem Node.kept_initial (svc : σ) (tid : UInt16) : (initial svc tid).Kept where
  unborn _ _ := rfl
  replies _ hmem := by cases hmem
  answering _ hmem := by cases hmem

section

variable (handler : Handler σ) (n : Nat) {s s' : Node σ} {i : Input σ} {q : Ptr}

/-- A transaction that answers copies goes on doing so, until it is deleted. -/
theorem step_answering (hs : s.WF) (hq : q ∈ s.dst) (ha : Answering (s.dsts.get q))
    (h : step handler n i s = .ok () s') (hq' : q ∈ s'.dst) : Answering (s'.dsts.get q) := by
  have hans : s.Answers q (s.dstKey q) (s.dsts.get q).transactionStopWhen := ⟨hq, rfl, ha, rfl⟩
  have hstop := ((step_aged hs h).dst q hq' (hs.dst.lt q hq)).2
  have hpos := ((step_wf handler n hs h).dst.inv q hq').stop.1
  have hlive : i.isTick = true → 1 < (s.dsts.get q).transactionStopWhen := fun htick => by
    rw [if_pos htick] at hstop
    omega
  by_cases hno : i.NoAckFor (s.dstKey q)
  · exact (step_answers hs hans hno hlive h).answering
  · -- an acknowledgement for a transaction that has not responded is taken for a copy
    simp only [Input.NoAckFor, not_forall, Bool.not_eq_false] at hno
    obtain ⟨m, rfl, hkey, hfor, hack⟩ := hno
    have hmsg : (s.received m).msgs.get s.msgs.next = m := Store.get_push_next
    have hin : (s.received m).InDst s.msgs.next q := by
      refine ⟨by rw [hmsg, hfor], ?_⟩
      rw [inKey, hmsg, hkey]
      exact hs.dst.keys.find_eq_some hq rfl
    have hstep := (recv_incoming handler n m hs.dst).of_dst hin
    rw [h] at hstep
    cases hstep
    have hcell : (((s.received m).logIn s.msgs.next).putDst q
        ((s.received m).inDstRun s.msgs.next q)).dsts.get q =
        ((s.received m).inDstRun s.msgs.next q).t := Store.get_set_self
    by_cases hst : (s.dsts.get q).state = .waitResponsePrm
    · rw [delFinishedDst_dsts, hcell]
      exact (answering_in_waiting ha hst).1
    · obtain ⟨hsend, hreq⟩ := ha.sending hst
      obtain ⟨hwait, hon, htimer⟩ := ha.reqState hsend
      have hfin : ((s.received m).inDstRun s.msgs.next q).t.Finished = true :=
        (dstIn_of_ack
          ⟨hsend, ha.status, hreq, hwait, hon, htimer⟩
          (by change ((s.received m).msgs.get s.msgs.next).ackrsp = true; rw [hmsg, hack])).1
      unfold delFinishedDst at hq'
      rw [hcell, if_pos hfin] at hq'
      exact absurd rfl (Pool.mem_del.mp hq').2

theorem step_kept (hs : s.WF) (hk : s.Kept) (h : step handler n i s = .ok () s') : s'.Kept := by
  have hage := step_aged hs h
  have hs' : (step handler n i s).state = s' := by rw [h, Result.state_ok]
  have hturns : ∀ q < s.dsts.next, DstTurns q (s.dstTrace q) (s'.dstTrace q) := fun q hq => by
    have hturns := (step_dstTurns handler n (i := i) hs hq).1
    rwa [hs'] at hturns
  have hborn : ∀ q, s.dsts.next ≤ q → q ∈ s'.dst → ∃ j m, Replies q j m (s'.dstTrace q) ∧
      (m.opcode = .request ∨ m.opcode = .confirm) ∧
      ((s'.dsts.get q).startAckResponder = true → Answering (s'.dsts.get q)) := fun q hq hmem => by
    rcases step_opens handler n hs hq h with ⟨hlt, -⟩ | ⟨rfl, -, m, -, -, hopens⟩
    · exact absurd ((step_wf handler n hs h).dst.lt q hmem) (Nat.not_lt.mpr hlt)
    · exact ⟨_, _, hopens.replies (Nat.lt_succ_self _) (hk.unborn _ le_rfl) hmem⟩
  refine ⟨fun q hq => ?_, fun q hmem => ?_, fun q hmem hr => ?_⟩
  · rcases step_opens handler n hs (hage.dsts.trans hq) h with ⟨-, hd⟩ | ⟨-, hlt, -⟩
    · exact hd.trans (hk.unborn q (hage.dsts.trans hq))
    · exact absurd hlt (Nat.not_lt.mpr hq)
  · rcases Nat.lt_or_ge q s.dsts.next with hq | hq
    · obtain ⟨j, m, hr, hop⟩ := hk.replies q (hage.dst q hmem hq).1
      exact ⟨j, m, (hturns q hq).replies hr, hop⟩
    · obtain ⟨j, m, hr, hop, -⟩ := hborn q hq hmem
      exact ⟨j, m, hr, hop⟩
  · rcases Nat.lt_or_ge q s.dsts.next with hq | hq
    · have hmem₀ := (hage.dst q hmem hq).1
      obtain ⟨j, m, hrep, -⟩ := hk.replies q hmem₀
      have hr₀ : (s.dsts.get q).startAckResponder = true :=
        hrep.responder.trans (((hturns q hq).replies hrep).responder.symm.trans hr)
      exact step_answering handler n hs hmem₀ (hk.answering q hmem₀ hr₀) h hmem
    · obtain ⟨j, m, -, -, hans⟩ := hborn q hq hmem
      exact hans hr

variable {handler n}

theorem kept_steps {svc : σ} {tid : UInt16} {is : List (Input σ)}
    (h : Steps (step handler n) (initial svc tid) is s) : s.WF ∧ s.Kept :=
  h.induct (P := fun s => s.WF ∧ s.Kept)
    (fun _ _ _ hs heq => ⟨step_wf handler n hs.1 heq, step_kept handler n hs.1 hs.2 heq⟩)
    ⟨wf_initial svc tid, kept_initial svc tid⟩

/-- The frame that a transaction has been opened by is the one it has called `process_message`
for. -/
theorem Replies.opened {p j j' : Ptr} {m m' : MetaMessage} {k : Id × UInt16}
    (h : Replies p j m (s.dstTrace p)) (hlog : .process ⟨.dst, p, k⟩ j' m' ∈ s.log) :
    j' = j ∧ m' = m := by
  have hmem : .process ⟨.dst, p, k⟩ j' m' ∈ (s.dstTrace p).processed :=
    mem_filter.mpr ⟨mem_filter.mpr ⟨hlog, by simp [Event.isOf]⟩, rfl⟩
  rw [h.processed, mem_singleton] at hmem
  cases hmem
  exact ⟨rfl, rfl⟩

/-- A transaction has sent a response if and only if it is past `_wait_response_prm_lbl_`. -/
theorem Replies.responded {p j : Ptr} {m : MetaMessage} (h : Replies p j m (s.dstTrace p))
    (hinv : DstInv (s.dsts.get p)) :
    (s.dsts.get p).state = .waitResponsePrm ∧
        (∀ k q m', .send ⟨.dst, p, k⟩ .response q m' ∉ s.log) ∨
      (s.dsts.get p).state = .sendResponse ∧
        ∃ k q m', .send ⟨.dst, p, k⟩ .response q m' ∈ s.log := by
  rcases hinv.phase with ⟨hst, -⟩ | ⟨hst, -⟩
  · refine .inl ⟨hst, fun k q m' hmem => ?_⟩
    exact Event.send_response_notMem (h.waiting hst) q m'
      (mem_filter.mpr ⟨hmem, by simp [Event.isOf]⟩)
  · obtain ⟨e, he, hrsp⟩ := h.sending hst
    obtain ⟨hlog, hof⟩ := mem_filter.mp he
    obtain ⟨o, q, m', rfl⟩ := Event.eq_send_of_isResponse hrsp
    obtain ⟨hside, hptr⟩ : o.side = .dst ∧ o.ptr = p := by simpa [Event.isOf] using hof
    exact .inr ⟨hst, o.key, q, m', by rwa [← hside, ← hptr]⟩

variable {C : Type} [Pool.Container C]

/-- A transaction in the pool that a unicast request with `ackreq` has opened answers every further
copy of the request with one send, the stored acknowledgement before the response has been sent and
the stored response afterwards, and processes none. The containers of the pools have to act as sets
all the while. -/
theorem request_copy_answered (handler : Handler σ) (n : Nat) (svc : σ) (tid : UInt16)
    {is : List (Input σ)} {s : Node σ (Pool.Tracked C)} {p j : Ptr} {k : Id × UInt16}
    {m m' : MetaMessage} (hreach : Steps (step handler n) (Node.start svc tid) is s)
    (hexact : s.Exact) (hp : p ∈ Pool.toList s.dst)
    (hopened : .process ⟨.dst, p, k⟩ j m ∈ s.log) (hreq : m.ackreq = true)
    (huni : m.isMulticast = false) (hrsp : m.ackrsp = false)
    (hsource : m'.source = m.source) (htid : m'.tid = m.tid) (hmid : m'.mid = m.mid)
    (hrsp' : m'.ackrsp = m.ackrsp) :
    (s.dsts.get p).transactionStatus = .ongoing ∧
    ∃ s' src t why q c, step handler n (.recv m') s = .ok () s' ∧ t = s.dsts.get p ∧
      s'.log = s.log ++ [.messageIn s.msgs.next m' src (some t),
        .send ⟨.dst, p, m.source, m.tid⟩ why q c] ∧
      ((∀ k q m', .send ⟨.dst, p, k⟩ .response q m' ∉ s.log) ∧ why = .ack ∧ c = t.ack ∨
        (∃ k q m', .send ⟨.dst, p, k⟩ .response q m' ∈ s.log) ∧ why = .duplicate ∧ q = t.dup) := by
  obtain ⟨hs, hk⟩ := kept_steps (hexact.reached hreach)
  obtain ⟨i₀, m₀, hr, hop⟩ := hk.replies p hp
  obtain ⟨rfl, rfl⟩ := hr.opened hopened
  have ha := hk.answering p hp (hr.responder.trans (by rw [hreq, huni]; rfl))
  rw [hrsp] at hrsp'
  have hfor : m'.ForSource = false := by
    rw [MetaMessage.ForSource, MetaMessage.opcode, hmid, ← MetaMessage.opcode, hrsp']
    rcases hop with hop | hop <;> simp [hop]
  have hkey : s.dstKey p = (m'.source, m'.tid) := by
    rw [hsource, htid]
    exact hr.key
  obtain ⟨s', src, t, why, q, c, hstep, rfl, hlog, hwhy⟩ := recv_copy (s := s) (n := n)
    ha (hs.dst.keys.find_eq_some hp hkey) hkey hfor hrsp'
  rw [hsource, htid] at hlog
  refine ⟨ha.status, s', src, _, why, q, c, hstep, rfl, hlog, ?_⟩
  rcases hr.responded ha.toDstInv with ⟨hst, hno⟩ | ⟨hst, hsent⟩
  · refine .inl ⟨hno, ?_⟩
    rcases hwhy with ⟨-, h⟩ | ⟨hst', -⟩
    · exact h
    · cases hst.symm.trans hst'
  · refine .inr ⟨hsent, ?_⟩
    rcases hwhy with ⟨hst', -⟩ | ⟨-, h⟩
    · cases hst.symm.trans hst'
    · exact h

/-- A multicast request starts no acknowledgement: its copy is not answered. A request that carries
`ackrsp` is taken for an answer to a source transaction: its copy is processed again. -/
theorem request_copy_not_answered :
    (let m := { requestFrom80 with destination := [] }
      let s := run idle 1 [.recv m] (Node.initial () 0)
      let s' := run idle 1 [.recv m] s
      m.ackreq = true ∧ .process ⟨.dst, 1, [80], 9⟩ 1 m ∈ s.log ∧ 1 ∈ s.dst ∧
        (s.dsts.get 1).transactionStatus = .ongoing ∧
        s'.log = s.log ++ [.messageIn 3 m none (some (s.dsts.get 1))]) ∧
    (let m := { requestFrom80 with ackrsp := true }
      let s := run idle 1 [.recv m] (Node.initial () 0)
      let s' := run idle 1 [.recv m] s
      m.ackreq = true ∧ .process ⟨.dst, 1, [80], 9⟩ 1 m ∈ s.log ∧ 1 ∈ s.dst ∧
        (s.dsts.get 1).transactionStatus = .ongoing ∧
        .process ⟨.dst, 2, [80], 9⟩ 3 m ∈ s'.log) := by
  decide +kernel

theorem request_copy_answered_idle :
    let s : Node Unit (Pool.Tracked (List Ptr)) :=
      run idle 1 [.recv requestFrom80, .tick] (start () 0)
    (s.dsts.get 1).transactionStatus = .ongoing ∧
    ∃ s' src t why q c, step idle 1 (.recv requestFrom80) s = .ok () s' ∧ t = s.dsts.get 1 ∧
      s'.log = s.log ++ [.messageIn s.msgs.next requestFrom80 src (some t),
        .send ⟨.dst, 1, requestFrom80.source, requestFrom80.tid⟩ why q c] ∧
      ((∀ k q m, .send ⟨.dst, 1, k⟩ .response q m ∉ s.log) ∧ why = .ack ∧ c = t.ack ∨
        (∃ k q m, .send ⟨.dst, 1, k⟩ .response q m ∈ s.log) ∧ why = .duplicate ∧ q = t.dup) :=
  request_copy_answered idle 1 () 0 (j := 1) (k := ([80], 9))
    (show Steps (step idle 1) _ [.recv requestFrom80, .tick] _ from
      steps_runAll _ (by decide +kernel))
    (by decide +kernel) (by decide +kernel) (by decide +kernel) rfl rfl rfl rfl rfl rfl rfl

/-- A response that a waiting transaction gets is sent at once, and the transaction then waits for
its acknowledgement, unless one has come in before. -/
theorem messageOut_waiting {C : Type} [Pool.Container C] (process : Ptr → Ptr → MOn C σ Bool)
    {s : Node σ C} {o p : Ptr} (hinv : DstInv (s.dsts.get p)) (hout : s.OutDst o p)
    (hst : (s.dsts.get p).state = .waitResponsePrm) :
    ∃ s' rsp dup st, messageOut process o s = .ok () s' ∧
      s'.log = s.log ++ [s.outEvent o, .send ⟨.dst, p, s.dstKey p⟩ .response o
        { s.msgs.get o with
          ackreq := true
          ackrsp := (s.msgs.get o).ackrsp || (s.dsts.get p).startAckResponder }] ∧
      s'.dst = s.dst ∧
      (((s.dsts.get p).msgInAvail = true → (s.msgs.get (s.dsts.get p).inMsg).ackrsp = false) →
        st = .waitAck) ∧
      s'.dsts.get p = { s.dsts.get p with
          outMsg := o, msgOutAvail := true, ackRspState := rsp, dup := dup
          state := .sendResponse, startAckRequestor := true, rtxctr := 0, retransmissionWhen := 5
          ackRequestorStatus := .ongoing, ackReqState := st } := by
  have hon : (((s.logOut o).dstMachine p).out o).t.transactionStatus = .ongoing :=
    (sameCourse_out o).status.trans hinv.status
  obtain ⟨rsp, dup, st, -, hwait, ht, hlog⟩ := dstRun_out_waiting
    (x := (s.logOut o).dstMachine p) hinv hst
    (by change ((s.logOut o).msgs.get o).ackreq = true; simp)
  rw [← dstRunIfOngoing_of_ongoing hon] at ht hlog
  have hcell : ((s.logOut o).putDst p (s.outDstRun o p)).dsts.get p = (s.outDstRun o p).t :=
    Store.get_set_self
  refine ⟨_, rsp, dup, st, messageOut_of_dst hout hinv, ?_, ?_, fun hack => hwait ?_, ?_⟩
  · rw [delFinishedDst_log]
    refine hlog.trans ?_
    change (s.logOut o).log ++ _ = _
    rw [s.logOut_log, append_assoc, piggybacked]
    have hmsg : ((s.logOut o).dstMachine p).msgs.get o = { s.msgs.get o with ackreq := true } :=
      s.get_logOut o
    rw [hmsg]
    rfl
  · have hfin : (s.outDstRun o p).t.Finished = false := by
      refine (congrArg Transaction.Finished ht).trans ?_
      simp [Transaction.Finished]
    rw [delFinishedDst, hcell, hfin]
    rfl
  · have hin : ((s.logOut o).dstMachine p).inMsg.ackrsp =
        (s.msgs.get (s.dsts.get p).inMsg).ackrsp := by
      have hmsgs : (s.logOut o).msgs = s.msgs.update o fun m => { m with ackreq := true } := rfl
      change ((s.logOut o).msgs.get (s.dsts.get p).inMsg).ackrsp = _
      by_cases ho : (s.dsts.get p).inMsg = o
      · rw [hmsgs, ho, Store.get_update_self]
      · rw [hmsgs, Store.get_update_of_ne ho]
    rw [hin]
    change ((s.dsts.get p).msgInAvail && _) = false
    cases havail : (s.dsts.get p).msgInAvail with
    | true => exact hack havail
    | false => rfl
  · rw [delFinishedDst_dsts, hcell]
    exact ht

/-- The first response that is passed to `message_out` for a transaction in the pool is sent in that
call, once. It carries `ackrsp` if an acknowledgement of a unicast request is owed, or if it came
with it. The transaction then waits for an acknowledgement, unless one has been received before. -/
theorem first_response_sent (handler : Handler σ) (n : Nat) (svc : σ) (tid : UInt16)
    {is : List (Input σ)} {s : Node σ (Pool.Tracked C)} {p j o : Ptr} {k : Id × UInt16}
    {m : MetaMessage} (hreach : Steps (step handler n) (Node.start svc tid) is s)
    (hexact : s.Exact) (hp : p ∈ Pool.toList s.dst)
    (hopened : .process ⟨.dst, p, k⟩ j m ∈ s.log)
    (hfirst : ∀ k q m', .send ⟨.dst, p, k⟩ .response q m' ∉ s.log)
    (hop : (s.msgs.get o).opcode = .response)
    (hkey : ((s.msgs.get o).destination, (s.msgs.get o).tid) = (m.source, m.tid)) :
    ∃ s' src dst, messageOut (process handler n) o s = .ok () s' ∧
      s'.log = s.log ++ [.messageOut o { s.msgs.get o with ackreq := true } src dst,
        .send ⟨.dst, p, m.source, m.tid⟩ .response o
          { s.msgs.get o with
            ackreq := true
            ackrsp := (s.msgs.get o).ackrsp || (m.ackreq && !m.isMulticast) }] ∧
      p ∈ Pool.toList s'.dst ∧ (s'.dsts.get p).state = .sendResponse ∧
      (s'.dsts.get p).startAckRequestor = true ∧ (s'.dsts.get p).rtxctr = 0 ∧
      (s'.dsts.get p).retransmissionWhen = 5 ∧ (s'.dsts.get p).ackRequestorStatus = .ongoing ∧
      (((s.dsts.get p).msgInAvail = true → (s.msgs.get (s.dsts.get p).inMsg).ackrsp = false) →
        (s'.dsts.get p).ackReqState = .waitAck) := by
  obtain ⟨hs, hk⟩ := kept_steps (hexact.reached hreach)
  obtain ⟨i₀, m₀, hr, -⟩ := hk.replies p hp
  obtain ⟨rfl, rfl⟩ := hr.opened hopened
  have hst : (s.dsts.get p).state = .waitResponsePrm := by
    rcases hr.responded (hs.dst.inv p hp) with ⟨hst, -⟩ | ⟨-, k, q, m', hsent⟩
    · exact hst
    · exact absurd hsent (hfirst k q m')
  have hfind : s.outKey o = (m.source, m.tid) := hkey
  have hkey' : s.dstKey p = (m.source, m.tid) := hr.key
  have hout : s.OutDst o p := ⟨hop, hfind ▸ hs.dst.keys.find_eq_some hp hkey'⟩
  obtain ⟨s', rsp, dup, st, heq, hlog, hmem, hwait, ht⟩ :=
    messageOut_waiting (s := s) (process handler n) (hs.dst.inv p hp) hout hst
  have hresponder : (s.dsts.get p).startAckResponder = (m.ackreq && !m.isMulticast) := hr.responder
  rw [outEvent, s.get_logOut, hkey'] at hlog
  refine ⟨s', _, _, heq, hresponder ▸ hlog, hmem ▸ hp, ?_⟩
  rw [ht]
  exact ⟨rfl, rfl, rfl, rfl, rfl, hwait⟩

/-- The response that a user gives to `requestFrom80`. -/
def responseTo80 : MetaMessage :=
  { mid := 0x1801, tid := 9, source := [81], destination := [80], payload := [3, 1, 0] }

/-- The first response to a request with `ackreq` that was multicast carries no `ackrsp`, and one
that a user has submitted with `ackrsp` carries it whether or not the request had `ackreq`. -/
theorem first_response_ackrsp :
    (let m := { requestFrom80 with destination := [] }
      let s := run idle 1 [.recv m, .submit responseTo80] (Node.initial () 0)
      m.ackreq = true ∧ .process ⟨.dst, 1, [80], 9⟩ 1 m ∈ s.log ∧
        .send ⟨.dst, 1, [80], 9⟩ .response 3 { responseTo80 with ackreq := true } ∈ s.log) ∧
    (let m := { requestFrom80 with ackreq := false }
      let s := run idle 1 [.recv m, .submit { responseTo80 with ackrsp := true }]
        (Node.initial () 0)
      m.ackreq = false ∧ .process ⟨.dst, 1, [80], 9⟩ 1 m ∈ s.log ∧
        .send ⟨.dst, 1, [80], 9⟩ .response 3 { responseTo80 with ackreq := true, ackrsp := true } ∈
          s.log) := by
  decide +kernel

theorem first_response_sent_idle :
    let s : Node Unit (Pool.Tracked (List Ptr)) := run idle 1 [.recv requestFrom80, .tick, .act (do
      let _ : Ptr ← Prog.perform (I := Calls Unit) (.newMsg responseTo80))] (start () 0)
    ∃ s' src dst, messageOut (process idle 1) 3 s = .ok () s' ∧
      s'.log = s.log ++ [.messageOut 3 { s.msgs.get 3 with ackreq := true } src dst,
        .send ⟨.dst, 1, requestFrom80.source, requestFrom80.tid⟩ .response 3
          { s.msgs.get 3 with
            ackreq := true
            ackrsp := (s.msgs.get 3).ackrsp ||
              (requestFrom80.ackreq && !requestFrom80.isMulticast) }] ∧
      1 ∈ Pool.toList s'.dst ∧ (s'.dsts.get 1).state = .sendResponse ∧
      (s'.dsts.get 1).startAckRequestor = true ∧ (s'.dsts.get 1).rtxctr = 0 ∧
      (s'.dsts.get 1).retransmissionWhen = 5 ∧ (s'.dsts.get 1).ackRequestorStatus = .ongoing ∧
      (((s.dsts.get 1).msgInAvail = true → (s.msgs.get (s.dsts.get 1).inMsg).ackrsp = false) →
        (s'.dsts.get 1).ackReqState = .waitAck) :=
  first_response_sent idle 1 () 0 (j := 1) (k := ([80], 9))
    (show Steps (step idle 1) _ [.recv requestFrom80, .tick, .act (do
        let _ : Ptr ← Prog.perform (I := Calls Unit) (.newMsg responseTo80))] _ from
      steps_runAll _ (by decide +kernel))
    (by decide +kernel) (by decide +kernel) (by decide +kernel)
    (fun _ => Event.send_response_notMem (by decide +kernel)) (by decide +kernel)
    (by decide +kernel)

end

end Odtone.Mihf
