import Odtone.Mihf.DstInv

/-! # Pooled source transactions

`SrcInv` is what holds of every source transaction in the pool, also while `process_message` is
being called for it. The acknowledgement requestor is either not in use, or waits, or has come to an
end; and an input message that is kept without having been processed can only be the acknowledgement
of the request, so the requestor does not wait any more. This is why a tick never reaches
`process_message`.
-/

namespace Odtone.Mihf

variable {S : Type}

/-- Where the acknowledgement requestor stands. If it is not in use its timer is counted down all
the same, from zero, and mirrors the life time. -/
structure Requestor (t : Transaction S) : Prop where
  started : t.startAckRequestor = true →
    t.ackReqState = .waitAck ∧ t.ackRequestorStatus = .ongoing ∧ 0 < t.retransmissionWhen ∨
    t.ackReqState = .success ∧ t.ackRequestorStatus = .success ∨
    t.ackReqState = .failure ∧ t.ackRequestorStatus = .failure
  unstarted : t.startAckRequestor = false → t.ackRequestorStatus = .ongoing ∧
    t.retransmissionWhen = (2 ^ 32 - (15 - t.transactionStopWhen)) % 2 ^ 32

theorem Requestor.waiting {t : Transaction S} (h : Requestor t) (hs : t.startAckRequestor = true)
    (hon : t.ackRequestorStatus = .ongoing) :
    t.ackReqState = .waitAck ∧ 0 < t.retransmissionWhen := by
  rcases h.started hs with ⟨h₁, -, h₃⟩ | ⟨-, h₂⟩ | ⟨-, h₂⟩
  · exact ⟨h₁, h₃⟩
  all_goals
    rw [hon] at h₂
    cases h₂

/-- What holds of a pooled source transaction even between the arrival of a message and its
processing. -/
structure SrcCore (t : SrcTransaction) : Prop where
  live : t.state ≠ .init
  stop : 0 < t.transactionStopWhen ∧ t.transactionStopWhen ≤ 15
  status : t.state ≠ .success → t.state ≠ .failure → t.transactionStatus = .ongoing
  multicast : t.isMulticast = true → t.state = .waitResponseMsg ∨ t.state = .processMsg
  requestor : Requestor t

/-- Invariant of the source transactions in the pool. -/
structure SrcInv (t : SrcTransaction) : Prop extends SrcCore t where
  pending : t.state = .waitResponseMsg → t.msgInAvail = true → t.startAckRequestor = true →
    t.ackRequestorStatus ≠ .ongoing

/-- A source transaction as `new_src_transaction` allocates it. -/
structure Fresh (t : SrcTransaction) : Prop where
  state : t.state = .init
  noInput : t.msgInAvail = false
  reqState : t.ackReqState = .init
  reqStatus : t.ackRequestorStatus = .ongoing
  timer : t.retransmissionWhen = 0

theorem SrcCore.sameCourse {x y : Machine SrcState} (h : SrcCore x.t) (hy : x.SameCourse y)
    (hr : Requestor y.t) : SrcCore y.t where
  live := hy.state ▸ h.live
  stop := hy.stop ▸ h.stop
  status := by rw [hy.state, hy.status]; exact h.status
  multicast := by rw [hy.state, hy.multicast]; exact h.multicast
  requestor := hr

theorem SrcCore.unicast {t : SrcTransaction} (h : SrcCore t) (h₁ : t.state ≠ .waitResponseMsg)
    (h₂ : t.state ≠ .processMsg) : t.isMulticast = false := by
  by_contra hm
  rcases h.multicast (by simpa using hm) with h | h
  · exact h₁ h
  · exact h₂ h

theorem SrcCore.inv_of_state {t : SrcTransaction} (h : SrcCore t)
    (hst : t.state ≠ .waitResponseMsg) : SrcInv t where
  toSrcCore := h
  pending hw := absurd hw hst

namespace Machine

/-! ## The acknowledgement requestor -/

section Requestor

variable {x : Machine S}

theorem reqSuccess_eq_self (h₁ : x.t.ackReqState = .success)
    (h₂ : x.t.ackRequestorStatus = .success) : x.reqSuccess = x := by
  unfold reqSuccess assign
  rw [← h₁, ← h₂]

theorem reqFailure_eq_self (h₁ : x.t.ackReqState = .failure)
    (h₂ : x.t.ackRequestorStatus = .failure) : x.reqFailure = x := by
  unfold reqFailure assign
  rw [← h₁, ← h₂]

/-- Between ticks the requestor does nothing, or notices the acknowledgement. -/
theorem startedAckRequestor_cases (h : Requestor x.t) :
    x.startedAckRequestor = x ∨
      x.t.startAckRequestor = true ∧ x.startedAckRequestor = x.reqSuccess := by
  unfold startedAckRequestor
  split
  · next hs =>
      unfold ackRequestor
      rcases h.started hs with ⟨h₁, -, h₃⟩ | ⟨h₁, h₂⟩ | ⟨h₁, h₂⟩
      · simp only [h₁, reqWaitAck, h₃.ne', if_false, reqTestAck]
        split
        · exact .inr ⟨hs, rfl⟩
        · exact .inl rfl
      · simp only [h₁]
        exact .inl (reqSuccess_eq_self h₁ h₂)
      · simp only [h₁]
        exact .inl (reqFailure_eq_self h₁ h₂)
  · exact .inl rfl

/-- An acknowledgement ends the waiting of a requestor in use. -/
theorem startedAckRequestor_of_ack (h : Requestor x.t) (hs : x.t.startAckRequestor = true)
    (hin : x.t.msgInAvail = true) (hack : x.inMsg.ackrsp = true) :
    x.startedAckRequestor.t.ackRequestorStatus ≠ .ongoing := by
  unfold startedAckRequestor
  rw [if_pos hs]
  unfold ackRequestor
  rcases h.started hs with ⟨h₁, -, h₃⟩ | ⟨h₁, -⟩ | ⟨h₁, -⟩
  · simp [h₁, reqWaitAck, h₃.ne', reqTestAck, hin, hack, reqSuccess]
  · simp [h₁, reqSuccess]
  · simp [h₁, reqFailure]

theorem requestor_reqSuccess (hs : x.t.startAckRequestor = true) : Requestor x.reqSuccess.t where
  started _ := .inr (.inl ⟨rfl, rfl⟩)
  unstarted h := absurd (hs.symm.trans h) (by simp)

theorem requestor_startedAckRequestor (h : Requestor x.t) : Requestor x.startedAckRequestor.t := by
  rcases startedAckRequestor_cases h with heq | ⟨hs, heq⟩
  · rwa [heq]
  · rw [heq]
    exact requestor_reqSuccess hs

theorem requestor_startedAckResponder (h : Requestor x.t) : Requestor x.startedAckResponder.t := by
  obtain ⟨avail, st, dup, ack, ht⟩ := x.responds_startedAckResponder.t
  rw [ht]
  exact ⟨h.started, h.unstarted⟩

end Requestor

/-! ## Source machines -/

variable {x : Machine SrcState}

theorem sameCourse_srcIn (i : Ptr) : SameCourse x (x.srcIn i) :=
  ((SameCourse.receive x i).trans (.startedAckRequestor _)).trans (.startedAckResponder _)

theorem srcInv_out {o : Ptr} (h : SrcInv x.t) : SrcInv (x.out o).t := by
  have hreq : Requestor (x.submit o).t := ⟨h.requestor.started, h.requestor.unstarted⟩
  have hcourse : SameCourse x (x.out o) := sameCourse_out o
  refine ⟨h.sameCourse hcourse (requestor_startedAckResponder (requestor_startedAckRequestor hreq)),
    ?_⟩
  intro hst hin hs
  rw [hcourse.state] at hst
  rw [hcourse.requestor] at hs
  obtain ⟨heq, -⟩ := startedAckResponder_of_avail _ hin
  unfold out at hin ⊢
  rw [heq] at hin ⊢
  rcases startedAckRequestor_cases hreq with heq | ⟨-, heq⟩
  · rw [heq] at hin ⊢
    exact h.pending hst hin hs
  · rw [heq]
    simp [reqSuccess]

/-- `message_in` hands a message over. -/
theorem srcCore_srcIn {i : Ptr} (h : SrcInv x.t) : SrcCore (x.srcIn i).t :=
  have hreq : Requestor (x.receive i).t := ⟨h.requestor.started, h.requestor.unstarted⟩
  h.sameCourse (sameCourse_srcIn i)
    (requestor_startedAckResponder (requestor_startedAckRequestor hreq))

/-- An acknowledgement may be kept without being processed. -/
theorem srcInv_srcIn_ack {i : Ptr} (h : SrcInv x.t) (hack : (x.msgs.get i).ackrsp = true) :
    SrcInv (x.srcIn i).t := by
  refine ⟨srcCore_srcIn h, ?_⟩
  intro hst hin hs
  rw [(sameCourse_srcIn i).requestor] at hs
  obtain ⟨heq, -⟩ := startedAckResponder_of_avail _ hin
  unfold srcIn
  rw [heq]
  exact startedAckRequestor_of_ack ⟨h.requestor.started, h.requestor.unstarted⟩ hs rfl hack

section

variable (h : SrcCore x.t) (hm : x.t.isMulticast = false)
include h hm

theorem srcInv_over {st : SrcState} (status : Status) (hst : st = .success ∨ st = .failure) :
    SrcInv { x.t with transactionStatus := status, state := st } := by
  refine SrcCore.inv_of_state ⟨?_, h.stop, fun h₁ h₂ => (hst.elim h₁ h₂).elim, ?_,
    h.requestor.started, h.requestor.unstarted⟩ ?_
  · rcases hst with rfl | rfl <;> simp
  · simp [hm]
  · rcases hst with rfl | rfl <;> simp

theorem srcInv_srcSuccess : SrcInv x.srcSuccess.t := srcInv_over h hm _ (.inl rfl)

theorem srcInv_srcFailure : SrcInv x.srcFailure.t := srcInv_over h hm _ (.inr rfl)

end

theorem srcInv_srcWaitAck (h : SrcCore x.t) (hst : x.t.state = .waitAck) :
    SrcInv x.srcWaitAck.t := by
  have hm : x.t.isMulticast = false := h.unicast (by simp [hst]) (by simp [hst])
  have hself : (x.assign fun t => { t with state := .waitAck }) = x := by rw [← hst]; rfl
  unfold srcWaitAck
  rw [hself]
  dsimp only
  split
  · exact srcInv_srcSuccess h hm
  · exact srcInv_srcFailure h hm
  · exact h.inv_of_state (by simp [hst])

theorem srcProcessMsg_state : x.srcProcessMsg.t.state = .processMsg :=
  (SameCourse.startedAckResponder _).state

theorem srcInv_srcProcessMsg (h : SrcCore x.t) (hon : x.t.transactionStatus = .ongoing) :
    SrcInv x.srcProcessMsg.t := by
  unfold srcProcessMsg
  extract_lets y
  have hy : SrcCore y.t := by
    refine ⟨?_, h.stop, fun _ _ => hon, fun _ => .inr rfl, ?_⟩
    · simp [y]
    · exact ⟨h.requestor.started, h.requestor.unstarted⟩
  refine (hy.sameCourse (.startedAckResponder y)
    (requestor_startedAckResponder hy.requestor)).inv_of_state ?_
  rw [(SameCourse.startedAckResponder y).state]
  simp [y]

theorem srcWaitResponseMsg_call (x : Machine SrcState) :
    x.srcWaitResponseMsg.2 = true ↔ x.srcWaitResponseMsg.1.t.state = .processMsg := by
  unfold srcWaitResponseMsg
  extract_lets y
  split_ifs
  · simp [srcSuccess]
  · simp [srcFailure]
  · simp [srcProcessMsg_state]
  · simp [y]

theorem srcWaitAck_state_ne (x : Machine SrcState) : x.srcWaitAck.t.state ≠ .processMsg := by
  unfold srcWaitAck
  extract_lets y
  split
  · simp [srcSuccess]
  · simp [srcFailure]
  · simp [y]

/-- A run stops in front of a call of `process_message` if and only if it stops in
`_process_msg_lbl_`. -/
theorem srcRun_call (hlive : x.t.state ≠ .init) :
    x.srcRun.2 = true ↔ x.srcRun.1.t.state = .processMsg := by
  unfold srcRun
  cases hst : x.t.state with
  | init => exact absurd hst hlive
  | waitResponseMsg => exact x.srcWaitResponseMsg_call
  | processMsg => simp [srcProcessMsg_state]
  | waitAck => simp [x.srcWaitAck_state_ne]
  | failure => simp [srcFailure]
  | success => simp [srcSuccess]

theorem srcInv_srcRun (h : SrcCore x.t) : SrcInv x.srcRun.1.t := by
  unfold srcRun
  split
  · next hst => exact absurd hst h.live
  · next hst =>
      have hself : (x.assign fun t => { t with state := .waitResponseMsg }) = x := by
        rw [← hst]; rfl
      have hon : x.t.transactionStatus = .ongoing := h.status (by simp [hst]) (by simp [hst])
      unfold srcWaitResponseMsg
      rw [hself]
      simp only [h.stop.1.ne', if_false]
      split
      · exact srcInv_srcProcessMsg h hon
      · next hin => exact ⟨h, fun _ h' => absurd h' hin⟩
  · next hst => exact srcInv_srcWaitAck h hst
  · next hst => exact srcInv_srcProcessMsg h (h.status (by simp [hst]) (by simp [hst]))
  · next hst => exact srcInv_srcFailure h (h.unicast (by simp [hst]) (by simp [hst]))
  · next hst => exact srcInv_srcSuccess h (h.unicast (by simp [hst]) (by simp [hst]))

/-- Behind the call nothing is pending. -/
theorem srcInv_srcResume (h : SrcCore x.t) : SrcInv x.srcResume.t := by
  unfold srcResume
  extract_lets y
  have hy : SrcCore y.t :=
    ⟨h.live, h.stop, h.status, h.multicast, ⟨h.requestor.started, h.requestor.unstarted⟩⟩
  split
  · next hm =>
      have hst : y.t.state ≠ .success ∧ y.t.state ≠ .failure := by
        rcases hy.multicast hm with h | h <;> simp [h]
      have heq : y.srcWaitResponseMsg.1 = y.assign fun t =>
        { t with state := .waitResponseMsg } := by
        simp [srcWaitResponseMsg, h.stop.1.ne', y]
      rw [heq]
      refine ⟨⟨by simp, hy.stop, fun _ _ => hy.status hst.1 hst.2, fun _ => .inl rfl,
        ⟨hy.requestor.started, hy.requestor.unstarted⟩⟩, ?_⟩
      simp [y]
  · next hm => exact srcInv_srcSuccess hy (by simpa using hm)

/-- Behind a call of `process_message`, the transaction is out of `_process_msg_lbl_`. -/
theorem srcResume_state_ne (x : Machine SrcState) : x.srcResume.t.state ≠ .processMsg := by
  unfold srcResume
  extract_lets y
  split
  · have hcall := (srcWaitResponseMsg_of_not_avail y rfl).1
    rw [Ne, ← srcWaitResponseMsg_call, hcall]
    decide
  · simp [srcSuccess]

/-! ## A new transaction -/

/-- Where the operation of its message takes a new transaction, and what becomes of it. -/
def firstState (o : MetaMessage) : SrcState × Status :=
  match o.opcode with
  | .request => (.waitResponseMsg, .ongoing)
  | .response => (.success, .success)
  | .indication => if o.ackreq && !o.isMulticast then (.waitAck, .ongoing) else (.success, .success)
  | .confirm => (.waitAck, .ongoing)

/-- The first run of a new transaction. Its requestor waits, if it is in use. -/
theorem srcRun_fresh (h : Fresh x.t) :
    x.srcRun.1.t = { x.t with
        state := (firstState x.outMsg).1, transactionStatus := (firstState x.outMsg).2
        responseReceived := false, transactionStopWhen := 15, opcode := x.outMsg.opcode
        isMulticast := x.outMsg.isMulticast, tid := x.outMsg.tid, myMihfId := x.outMsg.source
        peerMihfId := x.outMsg.destination
        startAckRequestor := x.outMsg.ackreq && !x.outMsg.isMulticast
        ackReqState := if x.outMsg.ackreq && !x.outMsg.isMulticast then .waitAck else .init
        retransmissionWhen := if x.outMsg.ackreq && !x.outMsg.isMulticast then 5 else 0
        rtxctr := if x.outMsg.ackreq && !x.outMsg.isMulticast then 0 else x.t.rtxctr
        ackRequestorStatus := .ongoing } := by
  simp only [srcRun, h.state]
  unfold srcInit
  extract_lets o y₁ y₂
  have hy₂ : y₂.t = { y₁.t with
        ackReqState := if o.ackreq && !o.isMulticast then .waitAck else .init
        retransmissionWhen := if o.ackreq && !o.isMulticast then 5 else 0
        rtxctr := if o.ackreq && !o.isMulticast then 0 else x.t.rtxctr
        ackRequestorStatus := .ongoing } := by
    have hst : y₁.t.ackReqState = .init := h.reqState
    have hin : y₁.t.msgInAvail = false := h.noInput
    have hstart : y₁.t.startAckRequestor = (o.ackreq && !o.isMulticast) := rfl
    simp only [y₂, startedAckRequestor, send_t, hstart]
    cases hb : o.ackreq && !o.isMulticast with
    | false => simp [y₁, hb, h.reqState, h.reqStatus, h.timer]
    | true =>
      have hreq : (y₁.send .initial y₁.t.outMsg).ackRequestor =
          (y₁.send .initial y₁.t.outMsg).reqInit := by
        unfold ackRequestor
        rw [send_t, hst]
      simp [hreq, reqInit_eq, hin, hstart.trans hb]
  have hop : y₂.t.opcode = o.opcode := by rw [hy₂]; rfl
  rw [hop]
  clear_value y₂
  cases hc : o.opcode with
  | request => simp [srcWaitResponseMsg, h.noInput, hy₂, y₁, firstState, o, hc]
  | response => simp [srcSuccess, hy₂, y₁, firstState, o, hc]
  | confirm => simp [srcWaitAck, hy₂, y₁, firstState, o, hc]
  | indication =>
    cases hb : o.ackreq && !o.isMulticast with
    | false => simp [srcSuccess, hy₂, y₁, firstState, o, hc, hb]
    | true => simp [srcWaitAck, hy₂, y₁, firstState, o, hc, hb]

theorem firstState_ongoing {o : MetaMessage} (hop : o.opcode ≠ .confirm)
    (hon : (firstState o).2 = .ongoing) : (firstState o).1 = .waitResponseMsg ∨
      (firstState o).1 = .waitAck ∧ o.isMulticast = false := by
  unfold firstState at hon ⊢
  cases hc : o.opcode with
  | confirm => exact absurd hc hop
  | response => simp [hc] at hon
  | request => exact .inl rfl
  | indication =>
    simp only [hc] at hon ⊢
    split_ifs at hon ⊢ with hb
    exact .inr ⟨rfl, by simpa using (Bool.and_eq_true_iff.mp hb).2⟩

/-- A new transaction satisfies the invariant if it goes on. -/
theorem srcInv_of_new (h : Fresh x.t) (hop : x.outMsg.opcode ≠ .confirm)
    (hon : x.srcRun.1.t.transactionStatus = .ongoing) :
    SrcInv x.srcRun.1.t ∧ x.srcRun.1.t.state ≠ .processMsg := by
  have hreq : Requestor x.srcRun.1.t := by
    rw [srcRun_fresh h]
    exact ⟨fun hs => .inl ⟨if_pos hs, rfl, by simp_all⟩, fun hs => ⟨rfl, by simp_all⟩⟩
  rw [srcRun_fresh h] at hon hreq ⊢
  rcases firstState_ongoing hop hon with hst | ⟨hst, huni⟩
  · refine ⟨⟨⟨by simp [hst], by simp, fun _ _ => hon, fun _ => .inl hst, hreq⟩, fun _ hin => ?_⟩,
      by simp [hst]⟩
    exact absurd (h.noInput.symm.trans hin) (by simp)
  · refine ⟨SrcCore.inv_of_state ⟨by simp [hst], by simp, fun _ _ => hon, fun hm => ?_, hreq⟩
      (by simp [hst]), by simp [hst]⟩
    exact absurd (huni.symm.trans hm) (by simp)

/-! ## The tick -/

/-- `run()`, with nothing but messages changed by `process_message`. -/
def srcRan (x : Machine SrcState) : Machine SrcState :=
  if x.srcRun.2 then x.srcRun.1.srcResume else x.srcRun.1

theorem srcInv_srcRan (h : SrcCore x.t) : SrcInv x.srcRan.t := by
  have hinv := srcInv_srcRun h
  unfold srcRan
  split
  · exact srcInv_srcResume hinv.toSrcCore
  · exact hinv

/-- A run in a tick does not end in `_process_msg_lbl_`. -/
theorem srcRan_state_ne (h : x.t.state ≠ .init) : x.srcRan.t.state ≠ .processMsg := by
  unfold srcRan
  split
  · exact srcResume_state_ne _
  · next hcall => exact fun hst => hcall ((srcRun_call h).mpr hst)

theorem srcWaitResponseMsg_live (x : Machine SrcState) :
    x.srcWaitResponseMsg.1.t.state ≠ .init := by
  unfold srcWaitResponseMsg
  extract_lets y
  split_ifs
  · simp [srcSuccess]
  · simp [srcFailure]
  · simp [srcProcessMsg_state]
  · simp [y]

theorem srcRun_live (h : x.t.state ≠ .init) : x.srcRun.1.t.state ≠ .init := by
  unfold srcRun
  split
  · next hst => exact absurd hst h
  · exact srcWaitResponseMsg_live x
  · exact srcWaitAck_state x
  · simp [srcProcessMsg_state]
  · simp [srcFailure]
  · simp [srcSuccess]

theorem srcResume_live (x : Machine SrcState) : x.srcResume.t.state ≠ .init := by
  unfold srcResume
  extract_lets y
  split
  · exact srcWaitResponseMsg_live y
  · simp [srcSuccess]

theorem srcRan_live (h : x.t.state ≠ .init) : x.srcRan.t.state ≠ .init := by
  unfold srcRan
  split
  · exact srcResume_live _
  · exact srcRun_live h

/-- A transaction that has come to an end. -/
def SrcOver (t : SrcTransaction) : Prop :=
  t.transactionStatus ≠ .ongoing ∧ (t.state = .success ∨ t.state = .failure)

theorem srcOver_srcSuccess (x : Machine SrcState) : SrcOver x.srcSuccess.t :=
  ⟨by simp [srcSuccess], .inl rfl⟩

theorem srcOver_srcFailure (x : Machine SrcState) : SrcOver x.srcFailure.t :=
  ⟨by simp [srcFailure], .inr rfl⟩

theorem srcOver_srcWaitResponseMsg (hstop : x.t.transactionStopWhen = 0) :
    x.srcWaitResponseMsg.2 = false ∧ SrcOver x.srcWaitResponseMsg.1.t := by
  unfold srcWaitResponseMsg
  simp only [assign_t, hstop, if_true]
  split
  · exact ⟨trivial, srcOver_srcSuccess _⟩
  · exact ⟨trivial, srcOver_srcFailure _⟩

theorem srcRan_over (h : x.t.state = .success ∨ x.t.state = .failure) : SrcOver x.srcRan.t := by
  unfold srcRan
  rcases h with h | h
  · simp only [srcRun, h, Bool.false_eq_true, if_false]
    exact srcOver_srcSuccess x
  · simp only [srcRun, h, Bool.false_eq_true, if_false]
    exact srcOver_srcFailure x

/-- The life time has ended: the transaction ends, or waits for an acknowledgement that it will not
get any more. -/
theorem srcRan_of_stop (hlive : x.t.state ≠ .init) (hstop : x.t.transactionStopWhen = 0) :
    x.srcRan = x ∧ x.t.state = .waitAck ∨ SrcOver x.srcRan.t := by
  cases hst : x.t.state with
  | init => exact absurd hst hlive
  | waitResponseMsg =>
    obtain ⟨hcall, hover⟩ := srcOver_srcWaitResponseMsg hstop
    simp only [srcRan, srcRun, hst, hcall, Bool.false_eq_true, if_false]
    exact .inr hover
  | waitAck =>
    have hself : (x.assign fun t => { t with state := .waitAck }) = x := by rw [← hst]; rfl
    simp only [srcRan, srcRun, hst, Bool.false_eq_true, if_false]
    unfold srcWaitAck
    rw [hself]
    dsimp only
    split
    · exact .inr (srcOver_srcSuccess x)
    · exact .inr (srcOver_srcFailure x)
    · exact .inl ⟨rfl, trivial⟩
  | processMsg =>
    simp only [srcRan, srcRun, hst, if_true]
    have hstop' : x.srcProcessMsg.t.transactionStopWhen = 0 :=
      (SameCourse.startedAckResponder _).stop.trans hstop
    generalize x.srcProcessMsg = y at *
    unfold srcResume
    extract_lets z
    split
    · exact .inr (srcOver_srcWaitResponseMsg (x := z) hstop').2
    · exact .inr (srcOver_srcSuccess z)
  | failure => exact .inr (srcRan_over (.inr hst))
  | success => exact .inr (srcRan_over (.inl hst))

/-- A transaction that has come to an end stays there. -/
theorem srcTimer_over (h : SrcOver x.t) : (x.timer srcRan).t.transactionStatus ≠ .ongoing := by
  unfold timer
  extract_lets y
  split_ifs
  · refine (srcRan_over ?_).1
    rw [(SameCourse.ackRequestor y).state]
    exact h.2
  · exact h.1
  · exact h.1

/-- When the timer of a waiting requestor has run out, it retransmits or gives up. -/
theorem requestor_ackRequestor (hs : x.t.startAckRequestor = true)
    (hst : x.t.ackReqState = .waitAck) (htimer : x.t.retransmissionWhen = 0)
    (hon : x.t.ackRequestorStatus = .ongoing) : Requestor x.ackRequestor.t := by
  unfold ackRequestor
  simp only [hst, reqWaitAck, htimer, if_true]
  split
  · unfold reqRetransmit
    unfold reqWaitAckBegin
    rw [reqTestAck_eq]
    refine ⟨fun _ => ?_, fun h => absurd (hs.symm.trans h) (by simp)⟩
    split
    · exact .inr (.inl ⟨rfl, rfl⟩)
    · exact .inl ⟨rfl, hon, by simp⟩
  · exact ⟨fun _ => .inr (.inr ⟨rfl, rfl⟩), fun h => absurd (hs.symm.trans h) (by simp)⟩

section

variable (h : SrcInv x.t) (hstop : x.decStop.t.transactionStopWhen ≠ 0)
include h hstop

/-- A requestor not in use is not reached by its timer. -/
theorem timer_unstarted (hs : x.t.startAckRequestor = false) :
    x.decStop.decRetransmission.t.retransmissionWhen ≠ 0 ∧
      x.decStop.decRetransmission.t.retransmissionWhen =
        (2 ^ 32 - (15 - x.decStop.decRetransmission.t.transactionStopWhen)) % 2 ^ 32 := by
  have hmirror := (h.requestor.unstarted hs).2
  have hle := h.stop
  have hdec := decStop_stop h.stop.1
  simp only [decRetransmission, assign_t, hdec] at hstop ⊢
  simp only [decStop, assign_t, hmirror, decUnsigned]
  constructor <;> split <;> omega

/-- What a machine that has been counted down needs besides its requestor. -/
theorem srcCore_of_decStop {y : Machine SrcState} (hy : SameCourse x.decStop y)
    (hr : Requestor y.t) : SrcCore y.t := by
  have hdec := decStop_stop h.stop.1
  have hle := h.stop
  refine ⟨hy.state ▸ h.live, ?_, ?_, ?_, hr⟩
  · rw [hy.stop]
    omega
  · rw [hy.state, hy.status]
    exact h.status
  · rw [hy.state, hy.multicast]
    exact h.multicast

/-- The retransmission timer, when the life time has not ended. -/
theorem srcTimer_inv : SrcInv (x.decStop.timer srcRan).t := by
  have hz : SameCourse x.decStop x.decStop.decRetransmission := ⟨rfl, rfl, rfl, rfl, rfl, rfl⟩
  by_cases hon : x.t.ackRequestorStatus = .ongoing
  · cases hs : x.t.startAckRequestor with
    | false =>
      obtain ⟨hz0, hmirror⟩ := timer_unstarted h hstop hs
      have heq : x.decStop.timer srcRan = x.decStop.decRetransmission :=
        (if_pos hon).trans (if_neg hz0)
      have hreq : Requestor x.decStop.decRetransmission.t :=
        ⟨fun h => absurd (hs.symm.trans h) (by simp), fun _ => ⟨hon, hmirror⟩⟩
      rw [heq]
      exact ⟨srcCore_of_decStop h hstop hz hreq, h.pending⟩
    | true =>
      have hwait := h.requestor.waiting hs hon
      by_cases hz0 : x.decStop.decRetransmission.t.retransmissionWhen = 0
      · have heq : x.decStop.timer srcRan = x.decStop.decRetransmission.ackRequestor.srcRan :=
          (if_pos hon).trans (if_pos hz0)
        have hreq := requestor_ackRequestor (x := x.decStop.decRetransmission) hs hwait.1 hz0 hon
        rw [heq]
        exact srcInv_srcRan (srcCore_of_decStop h hstop (hz.trans (.ackRequestor _)) hreq)
      · have heq : x.decStop.timer srcRan = x.decStop.decRetransmission :=
          (if_pos hon).trans (if_neg hz0)
        have hreq : Requestor x.decStop.decRetransmission.t :=
          ⟨fun _ => .inl ⟨hwait.1, hon, Nat.pos_of_ne_zero hz0⟩,
            fun h => absurd (hs.symm.trans h) (by simp)⟩
        rw [heq]
        exact ⟨srcCore_of_decStop h hstop hz hreq, h.pending⟩
  · have heq : x.decStop.timer srcRan = x.decStop := if_neg hon
    have hreq : Requestor x.decStop.t := by
      refine ⟨fun hs => ?_, fun hs => absurd (h.requestor.unstarted hs).1 hon⟩
      rcases h.requestor.started hs with ⟨-, h, -⟩ | h | h
      · exact absurd h hon
      · exact .inr (.inl h)
      · exact .inr (.inr h)
    rw [heq]
    exact ⟨srcCore_of_decStop h hstop ⟨rfl, rfl, rfl, rfl, rfl, rfl⟩ hreq, h.pending⟩

end

theorem srcLife (h : SrcInv x.t) (h0 : x.decStop.t.transactionStopWhen = 0) :
    (x.life srcRan).t.transactionStopWhen = 0 ∧ (x.life srcRan).t.transactionStatus = .ongoing ∨
      SrcOver (x.life srcRan).t := by
  have hlife : x.life srcRan = x.decStop.srcRan := if_pos h0
  rw [hlife]
  rcases srcRan_of_stop (x := x.decStop) h.live h0 with ⟨heq, hwait⟩ | hover
  · have hwait : x.t.state = .waitAck := hwait
    rw [heq]
    exact .inl ⟨h0, h.status (by simp [hwait]) (by simp [hwait])⟩
  · exact .inr hover

/-! ### Ticks make no call

unless an exception has left the machine in `_process_msg_lbl_`. -/

/-- A transaction that has no reason to call `process_message`. -/
structure Idle (t : SrcTransaction) : Prop where
  live : t.state ≠ .init
  processed : t.state ≠ .processMsg
  input : t.state = .waitResponseMsg → t.transactionStopWhen = 0 ∨ t.msgInAvail = false

theorem Idle.srcRun_snd (h : Idle x.t) : x.srcRun.2 = false := by
  unfold srcRun
  split
  · next hst => exact absurd hst h.live
  · next hst =>
      unfold srcWaitResponseMsg
      rcases h.input hst with h | h
      · simp [h]
      · simp only [assign_t, h]
        split <;> rfl
  · rfl
  · next hst => exact absurd hst h.processed
  · rfl
  · rfl

/-- A pooled transaction halfway through the loop body: its life time is not over, or it no longer
waits for a response. -/
def Halfway (t : SrcTransaction) : Prop :=
  (∃ x : Machine SrcState, SrcInv x.t ∧ x.t.state ≠ .processMsg ∧
    x.decStop.t.transactionStopWhen ≠ 0 ∧ t = x.decStop.t) ∨
  t.state ≠ .init ∧ t.state ≠ .processMsg ∧ t.state ≠ .waitResponseMsg

theorem halfway_life (h : SrcInv x.t) (hst : x.t.state ≠ .processMsg) :
    Halfway (x.life srcRan).t := by
  by_cases h0 : x.decStop.t.transactionStopWhen = 0
  · have hlife : x.life srcRan = x.decStop.srcRan := if_pos h0
    rw [hlife]
    refine .inr ?_
    rcases srcRan_of_stop (x := x.decStop) h.live h0 with ⟨heq, hwait⟩ | ⟨-, hover | hover⟩
    · rw [heq, hwait]
      decide
    all_goals
      rw [hover]
      decide
  · have hlife : x.life srcRan = x.decStop := if_neg h0
    rw [hlife]
    exact .inl ⟨x, h, hst, h0, rfl⟩

theorem Halfway.processed {t : SrcTransaction} (h : Halfway t) : t.state ≠ .processMsg := by
  rcases h with ⟨y, -, hst, -, rfl⟩ | ⟨-, hst, -⟩
  · exact hst
  · exact hst

/-- When its timer rings, a pooled transaction is idle. -/
theorem Halfway.idle (h : Halfway x.t) (hon : x.t.ackRequestorStatus = .ongoing)
    (hring : x.decRetransmission.t.retransmissionWhen = 0) :
    Idle x.decRetransmission.ackRequestor.t := by
  have hcourse := SameCourse.ackRequestor x.decRetransmission
  rcases h with ⟨y, hinv, hst, hstop, hy⟩ | ⟨h₁, h₂, h₃⟩
  · obtain ⟨st, status, timer, ctr, ht⟩ := (requests_ackRequestor x.decRetransmission).t
    have hon' : y.t.ackRequestorStatus = .ongoing := by
      rw [hy] at hon
      exact hon
    have hs : y.t.startAckRequestor = true := by
      by_contra hs
      refine (timer_unstarted hinv hstop (by simpa using hs)).1 ?_
      simpa only [decRetransmission, assign_t, hy] using hring
    have hstate : x.decRetransmission.ackRequestor.t.state = y.t.state := by
      rw [hcourse.state, decRetransmission, assign_t, hy]
      rfl
    refine ⟨hstate ▸ hinv.live, hstate ▸ hst, ?_⟩
    · rw [ht]
      simp only [decRetransmission, assign_t, hy]
      intro hw
      refine .inr ?_
      by_contra hin
      exact hinv.pending hw (by simpa [decStop] using hin) hs hon'
  · have hst : x.decRetransmission.ackRequestor.t.state = x.t.state := hcourse.state
    exact ⟨hst ▸ h₁, hst ▸ h₂, fun hw => absurd (hst ▸ hw) h₃⟩

theorem Halfway.timer_state (h : Halfway x.t) : (x.timer srcRan).t.state ≠ .processMsg := by
  unfold timer
  split_ifs with hon
  · extract_lets y
    split_ifs with hring
    · exact srcRan_state_ne (h.idle hon hring).live
    · exact h.processed
  · exact h.processed

end Machine

end Odtone.Mihf
