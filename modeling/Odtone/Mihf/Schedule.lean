import Odtone.Mihf.Beat

/-! # When a source transaction retransmits

The acknowledgement requestor of a source transaction waits five ticks, sends again, waits five
ticks, sends again, and gives up five ticks later, with the tick that ends the life time anyway. So
between ticks its timer, the number of retransmissions and the time left to live are tied together
by one equation, as long as it waits. Nothing but a tick retransmits, and nothing but a frame with
the acknowledgement flag ends the waiting early.
-/

namespace Odtone.Mihf

open Machine List

variable {σ S : Type}

/-! ## Retransmissions -/

/-- The retransmissions of a transaction. -/
def Trace.resent (a : Trace S) : List Event := a.deeds.filter Event.isRetransmission

namespace Machine

section

variable {x : Machine S}

/-- Between ticks, the acknowledgement requestor retransmits nothing. -/
theorem noResend_startedAckRequestor (h : Requestor x.t) : NoResend x x.startedAckRequestor := by
  rcases startedAckRequestor_cases h with heq | ⟨-, heq⟩
  all_goals
    rw [heq]
    exact .of_log_eq rfl

end

section Src

variable {x : Machine SrcState}

theorem noResend_srcAdvance (h : x.t.state ≠ .init) : NoResend x x.srcAdvance := by
  unfold srcAdvance
  split
  · refine (x.quiet_srcRun h).resends.trans ⟨_, rfl, fun e he => ?_⟩
    rw [mem_singleton.mp he]
    rfl
  · exact (x.quiet_srcRun h).resends

end Src

end Machine

/-! ## Between ticks -/

/-- The acknowledgement requestor has noticed an acknowledgement. -/
def Clock.acked (c : Clock) : Clock := { c with reqState := .success, reqStatus := .success }

/-- The requestor of a transaction with the clock `c` is where it was, or has been acknowledged. -/
def Clock.Noticed (c c' : Clock) : Prop := c' = c ∨ c.requestor = true ∧ c' = c.acked

theorem Clock.Noticed.trans {c c' c'' : Clock} (h : c.Noticed c') (h' : c'.Noticed c'') :
    c.Noticed c'' := by
  rcases h with rfl | ⟨hr, rfl⟩
  · exact h'
  · rcases h' with rfl | ⟨-, rfl⟩
    all_goals exact .inr ⟨hr, rfl⟩

namespace Machine

variable {x : Machine S}

theorem noticed_startedAckRequestor (h : Requestor x.t) :
    x.t.clock.Noticed x.startedAckRequestor.t.clock := by
  rcases startedAckRequestor_cases h with heq | ⟨hs, heq⟩
  · exact .inl (by rw [heq])
  · exact .inr ⟨hs, by rw [heq]; rfl⟩

theorem noticed_out (h : Requestor x.t) (o : Ptr) :
    ({ x.t.clock with out := o } : Clock).Noticed (x.out o).t.clock := by
  have hn := noticed_startedAckRequestor (x := x.submit o) ⟨h.started, h.unstarted⟩
  unfold out
  rw [(quiet_startedAckResponder _).clock]
  exact hn

theorem noResend_out (h : Requestor x.t) (o : Ptr) : NoResend x (x.out o) :=
  (NoResend.of_log_eq rfl).trans
    ((noResend_startedAckRequestor (x := x.submit o) ⟨h.started, h.unstarted⟩).trans
      (quiet_startedAckResponder _).resends)

end Machine

/-- What the retransmissions depend on has not changed, except that an acknowledgement may have been
noticed and, if `O`, another message may have been submitted. -/
structure Still (O : Prop) (a b : Trace SrcState) : Prop where
  clock : ∃ o, (o = a.t.outMsg ∨ O) ∧ ({ a.t.clock with out := o } : Clock).Noticed b.t.clock
  resent : b.resent = a.resent

section

variable {O : SrcTransaction → Prop} {P : Prop} {p : Ptr} {r : Bool} {a b c : Trace SrcState}

namespace Still

theorem of_clock (h : b.t.clock = a.t.clock) (hr : b.resent = a.resent) : Still P a b :=
  ⟨⟨a.t.outMsg, .inl rfl, .inl h⟩, hr⟩

variable (h : Still P a b)
include h

theorem trans (h' : Still P b c) : Still P a c := by
  obtain ⟨o, ho, hn⟩ := h.clock
  obtain ⟨o', ho', hn'⟩ := h'.clock
  have hout : b.t.outMsg = o := by
    rcases hn with hn | ⟨-, hn⟩
    all_goals exact congrArg Clock.out hn
  refine ⟨⟨o', ?_, ?_⟩, h'.resent.trans h.resent⟩
  · rcases ho' with rfl | hO
    · rw [hout]
      exact ho
    · exact .inr hO
  · have hn₁ : ({ a.t.clock with out := o' } : Clock).Noticed { b.t.clock with out := o' } := by
      rcases hn with hn | ⟨hs, hn⟩
      · exact .inl (by rw [hn])
      · exact .inr ⟨hs, by rw [hn]; rfl⟩
    exact hn₁.trans hn'

theorem rtxctr : b.t.rtxctr = a.t.rtxctr := by
  obtain ⟨o, -, hn | ⟨-, hn⟩⟩ := h.clock
  all_goals exact congrArg Clock.rtxctr hn

theorem stop : b.t.transactionStopWhen = a.t.transactionStopWhen := by
  obtain ⟨o, -, hn | ⟨-, hn⟩⟩ := h.clock
  all_goals exact congrArg Clock.stop hn

theorem started : b.t.startAckRequestor = a.t.startAckRequestor := by
  obtain ⟨o, -, hn | ⟨-, hn⟩⟩ := h.clock
  all_goals exact congrArg Clock.requestor hn

theorem ongoing (hon : b.t.ackRequestorStatus = .ongoing) : a.t.ackRequestorStatus = .ongoing := by
  obtain ⟨o, -, hn | ⟨-, hn⟩⟩ := h.clock
  · exact (congrArg Clock.reqStatus hn).symm.trans hon
  · have hover : b.t.ackRequestorStatus = .success := congrArg Clock.reqStatus hn
    rw [hover] at hon
    cases hon

theorem outMsg (hP : ¬ P) : b.t.outMsg = a.t.outMsg := by
  obtain ⟨o, ho, hn⟩ := h.clock
  obtain rfl := ho.resolve_right hP
  rcases hn with hn | ⟨-, hn⟩
  all_goals exact congrArg Clock.out hn

/-- The requestor stands where one may stand. -/
theorem requestor (hr : Requestor a.t) : Requestor b.t := by
  obtain ⟨o, -, hn⟩ := h.clock
  rcases hn with hn | ⟨hs, hn⟩
  · obtain ⟨hstop, htimer, hstart, hst, hstatus, -⟩ := Clock.mk.inj hn
    constructor
    · rw [hstart, hst, hstatus, htimer]
      exact hr.started
    · rw [hstart, hstatus, htimer, hstop]
      exact hr.unstarted
  · obtain ⟨-, -, hstart, hst, hstatus, -⟩ := Clock.mk.inj hn
    exact ⟨fun _ => .inr (.inl ⟨hst, hstatus⟩), fun h => by cases h.symm.trans (hstart.trans hs)⟩

end Still

variable {Q : Machine SrcState → Prop} {i : Ptr}

theorem Trace.Does.resent {f : Machine SrcState → Machine SrcState}
    (h : a.Does .src p Q f b) (hf : ∀ x : Machine SrcState, x.t = a.t → x.NoResend (f x)) :
    b.resent = a.resent := by
  obtain ⟨x, -, -, ht, -, -, l, hl, hb⟩ := h
  obtain ⟨l', hl', he⟩ := hf x ht
  have hll : l' = l := append_cancel_left (hl'.symm.trans hl)
  have hnil : l.filter Event.isRetransmission = [] :=
    filter_eq_nil_iff.mpr fun e hmem => by simp [he e (hll ▸ hmem)]
  unfold Trace.resent
  rw [hb, filter_append, hnil, append_nil]

theorem Trace.Does.still_advance (h : a.Does .src p (fun _ => True) srcAdvance b)
    (hl : a.t.state ≠ .init) : Still P a b := by
  have hres := h.resent fun x ht => noResend_srcAdvance (ht ▸ hl)
  obtain ⟨x, -, -, ht, -, hb, -⟩ := h
  refine .of_clock ?_ hres
  rw [hb, srcAdvance_t, ← ht]
  exact (x.quiet_srcRun (ht ▸ hl)).clock

theorem Trace.Does.still_resume (h : a.Does .src p (fun _ => True) srcResume b) : Still P a b := by
  have hres := h.resent fun x _ => x.quiet_srcResume.resends
  obtain ⟨x, -, -, ht, -, hb, -⟩ := h
  refine .of_clock ?_ hres
  rw [hb, ← ht]
  exact x.quiet_srcResume.clock

/-- The moves in a call of `process_message` retransmit nothing. -/
theorem SrcMoves.still (h : SrcMoves O p r a b) (hl : a.t.state ≠ .init) (hr : Requestor a.t) :
    Still (∃ t, O t) a b := by
  induction h with
  | refl r a => exact .of_clock rfl rfl
  | trans h _ ih ih' =>
    have h₁ := ih hl hr
    exact h₁.trans (ih' (h.key hl).1 (h₁.requestor hr))
  | @out r a b c o hO h _ ih =>
    have hm := SrcMoves.out (r := r) hO h (.refl true b)
    have hres := h.resent fun x ht => noResend_out (ht ▸ hr) o
    have h₁ : Still (∃ t, O t) a b := by
      obtain ⟨x, -, -, ht, -, hb, -⟩ := h
      refine ⟨⟨o, .inr ⟨_, hO⟩, ?_⟩, hres⟩
      rw [hb, ← ht]
      exact noticed_out (ht ▸ hr) o
    exact h₁.trans (ih (hm.key hl).1 (h₁.requestor hr))
  | advance h => exact h.still_advance hl
  | @call a b c d h _ _ h' ih =>
    have h₁ : Still (∃ t, O t) a b := h.still_advance hl
    have h₂ := ih ((SrcMoves.advance (O := O) h).key hl).1 (h₁.requestor hr)
    exact (h₁.trans h₂).trans h'.still_resume

/-- A transaction that is handed a frame retransmits nothing. -/
theorem Trace.Does.still_in
    (h : a.Does .src p Q (·.srcIn i) b) (hr : Requestor a.t) : Still P a b := by
  have hreq : ∀ x : Machine SrcState, x.t = a.t → Requestor (x.receive i).t := fun x ht => by
    rw [← ht] at hr
    exact ⟨hr.started, hr.unstarted⟩
  have hres := h.resent fun x ht => (NoResend.of_log_eq rfl).trans
    ((noResend_startedAckRequestor (hreq x ht)).trans (quiet_startedAckResponder _).resends)
  obtain ⟨x, -, -, ht, -, hb, -⟩ := h
  refine ⟨⟨a.t.outMsg, .inl rfl, ?_⟩, hres⟩
  have hn := noticed_startedAckRequestor (hreq x ht)
  rw [hb, ← ht]
  unfold srcIn
  rw [(quiet_startedAckResponder _).clock]
  exact hn

/-- A frame with the acknowledgement flag ends the waiting. -/
theorem Trace.Does.acked_in {m : MetaMessage}
    (h : a.Does .src p (fun x => x.msgs.get i = m) (·.srcIn i) b) (hr : Requestor a.t)
    (hs : a.t.startAckRequestor = true) (hack : m.ackrsp = true) :
    b.t.ackRequestorStatus ≠ .ongoing := by
  obtain ⟨x, -, -, ht, hm, hb, -⟩ := h
  rw [← ht] at hr hs
  have hreq : Requestor (x.receive i).t := ⟨hr.started, hr.unstarted⟩
  have hin : (x.receive i).inMsg.ackrsp = true := by
    change (x.msgs.get i).ackrsp = true
    rw [hm]
    exact hack
  have hstatus := startedAckRequestor_of_ack hreq hs rfl hin
  have hclock := (quiet_startedAckResponder (x.receive i).startedAckRequestor).clock
  rw [hb]
  exact fun heq => hstatus ((congrArg Clock.reqStatus hclock).symm.trans heq)

/-- With the pool locked, running leaves the counters alone. -/
theorem SrcMoves.still_locked (h : SrcMoves (fun _ => False) p r a b) (hl : a.t.state ≠ .init) :
    b.t.clock = a.t.clock ∧ b.resent = a.resent := by
  induction h with
  | refl r a => exact ⟨rfl, rfl⟩
  | trans h _ ih ih' =>
    obtain ⟨hc, hres⟩ := ih hl
    obtain ⟨hc', hres'⟩ := ih' (h.key hl).1
    exact ⟨hc'.trans hc, hres'.trans hres⟩
  | out hO => exact hO.elim
  | advance h =>
    have hres := h.resent fun x ht => noResend_srcAdvance (ht ▸ hl)
    obtain ⟨x, -, -, ht, -, hb, -⟩ := h
    refine ⟨?_, hres⟩
    rw [hb, srcAdvance_t, ← ht]
    exact (x.quiet_srcRun (ht ▸ hl)).clock
  | @call a b c d h _ _ h' ih =>
    obtain ⟨hc, hres⟩ := ih ((SrcMoves.advance (O := fun _ => False) h).key hl).1
    have hres₁ := h.resent fun x ht => noResend_srcAdvance (ht ▸ hl)
    have hres₂ := h'.resent fun x _ => x.quiet_srcResume.resends
    obtain ⟨x, -, -, ht, -, hb, -⟩ := h
    obtain ⟨y, -, -, hty, -, hd, -⟩ := h'
    refine ⟨?_, hres₂.trans (hres.trans hres₁)⟩
    rw [hd, (quiet_srcResume _).clock, hty, hc, hb, srcAdvance_t, ← ht]
    exact (x.quiet_srcRun (ht ▸ hl)).clock

/-! ## Ticks -/

theorem LifeBeat.clock (h : LifeBeat p a b) (hl : a.t.state ≠ .init) :
    b.t.clock = { a.t.clock with stop := decUnsigned a.t.transactionStopWhen } ∧
      b.resent = a.resent ∧ (decUnsigned a.t.transactionStopWhen ≠ 0 →
        b.t = { a.t with transactionStopWhen := decUnsigned a.t.transactionStopWhen }) := by
  obtain ⟨a₁, hdoes, hm, hstay⟩ := h
  have hres := hdoes.resent fun x _ => .of_log_eq rfl
  have ht₁ := hdoes.decStop_t
  obtain ⟨hc, hres'⟩ := hm.still_locked (by rw [ht₁]; exact hl)
  refine ⟨?_, hres'.trans hres, fun hne => ?_⟩
  · rw [hc, ht₁]
    rfl
  · rw [hstay (by rw [ht₁]; exact hne), ht₁]

theorem Machine.reqRetransmit_spec (x : Machine S) :
    x.reqRetransmit.t.rtxctr = x.t.rtxctr + 1 ∧ x.reqRetransmit.t.retransmissionWhen = 5 ∧
      x.reqRetransmit.log = x.log ++ [.send x.owner .retransmission x.t.outMsg x.outMsg] := by
  unfold reqRetransmit reqWaitAckBegin
  extract_lets y
  generalize hz : (((y.send .retransmission y.t.outMsg).assign fun t =>
    { t with rtxctr := t.rtxctr + 1 }).assign fun t =>
      { t with ackReqState := .waitAck, retransmissionWhen := 5 }) = z
  have ht := reqTestAck_eq z
  have hlog := (silent_reqTestAck z).log
  subst hz
  exact ⟨by rw [ht]; rfl, by rw [ht]; rfl, hlog⟩

/-- What the acknowledgement requestor does when its timer has rung. -/
theorem Machine.ackRequestor_rung {x : Machine S} (hst : x.t.ackReqState = .waitAck)
    (ht : x.t.retransmissionWhen = 0) :
    x.t.rtxctr < 2 ∧ x.ackRequestor.t.rtxctr = x.t.rtxctr + 1 ∧
      x.ackRequestor.t.retransmissionWhen = 5 ∧
      x.ackRequestor.log = x.log ++ [.send x.owner .retransmission x.t.outMsg x.outMsg] ∨
    2 ≤ x.t.rtxctr ∧ x.ackRequestor.t.rtxctr = x.t.rtxctr ∧
      x.ackRequestor.t.ackRequestorStatus = .failure ∧ x.ackRequestor.log = x.log := by
  unfold ackRequestor
  simp only [hst, reqWaitAck, ht, if_true]
  split
  · next hlt => exact .inl ⟨hlt, x.reqRetransmit_spec⟩
  · next hge => exact .inr ⟨Nat.le_of_not_lt hge, rfl, rfl, rfl⟩

/-- Between `a` and `b` the transaction has retransmitted its message, once. -/
def Resends (p : Ptr) (a b : Trace SrcState) : Prop :=
  b.t.rtxctr = a.t.rtxctr + 1 ∧ ∃ m, b.resent = a.resent ++
    [.send ⟨.src, p, a.t.key⟩ .retransmission a.t.outMsg m]

theorem TimerBeat.spec (h : TimerBeat p a b) (hl : a.t.state ≠ .init)
    (hwait : a.t.startAckRequestor = true → a.t.ackRequestorStatus = .ongoing →
      a.t.ackReqState = .waitAck)
    (hun : a.t.startAckRequestor = false → a.t.retransmissionWhen ≠ 1) :
    b.t.transactionStopWhen = a.t.transactionStopWhen ∧
    b.t.startAckRequestor = a.t.startAckRequestor ∧ b.t.outMsg = a.t.outMsg ∧
    (b.resent = a.resent ∧ b.t.rtxctr = a.t.rtxctr ∧ (b.t.ackRequestorStatus = .ongoing →
        a.t.ackRequestorStatus = .ongoing ∧
          b.t.retransmissionWhen = decUnsigned a.t.retransmissionWhen) ∨
      a.t.startAckRequestor = true ∧ a.t.ackRequestorStatus = .ongoing ∧
        a.t.retransmissionWhen = 1 ∧ a.t.rtxctr < 2 ∧ Resends p a b ∧
        b.t.retransmissionWhen = 5) := by
  rcases h with ⟨rfl, hover⟩ | ⟨hon, a₁, hdoes, hrest⟩
  · exact ⟨rfl, rfl, rfl, .inl ⟨rfl, rfl, fun hon => absurd hon hover⟩⟩
  · have hres := hdoes.resent fun x _ => .of_log_eq rfl
    have ht₁ := hdoes.decRetransmission_t
    rcases hrest with ⟨rfl, -⟩ | ⟨h0, a₂, hreq, hm⟩
    · exact ⟨by rw [ht₁], by rw [ht₁], by rw [ht₁],
        .inl ⟨hres, by rw [ht₁], fun _ => ⟨hon, by rw [ht₁]⟩⟩⟩
    · obtain ⟨y, hside, hptr, hty, -, ha₂, l, hl', hdeeds⟩ := hreq
      rw [ht₁] at hty h0
      have hone : a.t.retransmissionWhen = 1 := decUnsigned_eq_zero.mp h0
      have hs : a.t.startAckRequestor = true := by
        by_contra hs
        exact hun (by simpa using hs) hone
      have hst : y.t.ackReqState = .waitAck := by rw [hty]; exact hwait hs hon
      have hcourse := SameCourse.ackRequestor y
      have hlive : a₂.t.state ≠ .init := by
        rw [ha₂, hcourse.state, hty]
        exact hl
      obtain ⟨hc, hres₂⟩ := hm.still_locked hlive
      simp only [Transaction.clock, Clock.mk.injEq, ha₂] at hc
      obtain ⟨hstop, htimer, hstart, -, hstatus, hctr, hout, -⟩ := hc
      refine ⟨hstop.trans (hcourse.stop.trans (by rw [hty])),
        hstart.trans (hcourse.requestor.trans (by rw [hty])), ?_, ?_⟩
      · obtain ⟨st, status, timer, ctr, hreq⟩ := (requests_ackRequestor y).t
        rw [hout, hreq, hty]
      have hres₁ : a₂.resent = a₁.resent ++ l.filter Event.isRetransmission := by
        unfold Trace.resent
        rw [hdeeds, filter_append]
      rcases ackRequestor_rung hst (by rw [hty]; exact h0) with
        ⟨hlt, hc₁, hw, hlog⟩ | ⟨-, hc₁, hfail, hlog⟩
      · rw [hty] at hlt hc₁
        refine .inr ⟨hs, hon, hone, hlt, ⟨hctr.trans hc₁, y.outMsg, ?_⟩, htimer.trans hw⟩
        have hl₁ : l = [.send ⟨.src, p, a.t.key⟩ .retransmission a.t.outMsg y.outMsg] := by
          rw [hlog] at hl'
          rw [← append_cancel_left hl', owner, hside, hptr, hty]
          rfl
        rw [hres₂, hres₁, hres, hl₁]
        rfl
      · rw [hty] at hc₁
        have hl₁ : l = [] := append_cancel_left ((hlog.symm.trans hl').symm.trans
          (append_nil _).symm)
        refine .inl ⟨?_, hctr.trans hc₁, fun hongoing => ?_⟩
        · rw [hres₂, hres₁, hres, hl₁]
          simp
        · rw [hstatus, hfail] at hongoing
          cases hongoing

/-- The schedule, between ticks: a requestor that waits has been waiting for five ticks less its
timer, and for five ticks before each retransmission. -/
structure OnTime (t : SrcTransaction) : Prop where
  ctr : t.rtxctr ≤ 2
  waiting : t.startAckRequestor = true → t.ackRequestorStatus = .ongoing →
    t.retransmissionWhen + 15 = 5 * t.rtxctr + 5 + t.transactionStopWhen

/-- Nothing but ticks matters for the schedule. -/
theorem Still.onTime (h : Still P a b) (ha : OnTime a.t) : OnTime b.t := by
  obtain ⟨o, -, hn⟩ := h.clock
  rcases hn with hn | ⟨-, hn⟩
  · obtain ⟨hstop, htimer, hstart, -, hstatus, hctr, -⟩ := Clock.mk.inj hn
    refine ⟨hctr ▸ ha.ctr, ?_⟩
    rw [hstart, hstatus, htimer, hctr, hstop]
    exact ha.waiting
  · obtain ⟨-, -, -, -, hstatus, hctr, -⟩ := Clock.mk.inj hn
    refine ⟨hctr ▸ ha.ctr, fun _ hon => ?_⟩
    rw [hstatus] at hon
    cases hon

/-- The timer of a requestor that is not in use mirrors the life time, and is never one. -/
theorem Requestor.timer_ne_one {t : SrcTransaction} (h : Requestor t)
    (hstop : 0 < t.transactionStopWhen ∧ t.transactionStopWhen ≤ 15)
    (hs : t.startAckRequestor = false) : t.retransmissionWhen ≠ 1 := by
  rw [(h.unstarted hs).2]
  omega

/-- One tick. A retransmission takes place with the fifth and with the tenth only, if the requestor
still waits; and the transaction itself has done nothing in that tick before. -/
theorem Beat.spec {done : Prop} (h : Beat done p a b) (hinv : SrcInv a.t) (ha : OnTime a.t) :
    (b.resent = a.resent ∧ b.t.rtxctr = a.t.rtxctr ∨
      Resends p a b ∧ a.t.rtxctr < 2 ∧ a.t.startAckRequestor = true ∧
        a.t.ackRequestorStatus = .ongoing ∧ a.t.retransmissionWhen = 1 ∧
        a.t.transactionStopWhen = 11 - 5 * a.t.rtxctr) ∧
    b.t.outMsg = a.t.outMsg ∧ b.t.startAckRequestor = a.t.startAckRequestor ∧
    (b.t.ackRequestorStatus = .ongoing → a.t.ackRequestorStatus = .ongoing) ∧
    (done → OnTime b.t) := by
  obtain ⟨a₁, hlife, hrest⟩ := h
  have hstop := hinv.stop
  have hdec : decUnsigned a.t.transactionStopWhen = a.t.transactionStopWhen - 1 :=
    decUnsigned_of_pos hstop.1
  have hlive := (hlife.live hinv.live)
  obtain ⟨hc, hres, hstay⟩ := hlife.clock hinv.live
  simp only [Transaction.clock, Clock.mk.injEq, hdec] at hc
  obtain ⟨hstop₁, htimer, hstart, hst, hstatus, hctr, hout, -⟩ := hc
  rcases hrest with ⟨rfl, hdone⟩ | htb
  · exact ⟨.inl ⟨hres, hctr⟩, hout, hstart, fun hon => hstatus.symm.trans hon,
      fun h => absurd h hdone⟩
  · obtain ⟨hbstop, hbstart, hbout, hcases⟩ := htb.spec hlive.1
      (by rw [hstart, hstatus, hst]; exact fun hs hon => (hinv.requestor.waiting hs hon).1)
      (by rw [hstart, htimer]; exact hinv.requestor.timer_ne_one hstop)
    rw [hstart, hstatus, htimer, hctr] at hcases
    rcases hcases with ⟨hbres, hbctr, hbon⟩ | ⟨hs, hon, hone, hlt, ⟨hbctr, m, hbres⟩, hbtimer⟩
    · refine ⟨.inl ⟨hbres.trans hres, hbctr⟩, hbout.trans hout, hbstart.trans hstart,
        fun hon => (hbon hon).1, fun _ => ⟨hbctr ▸ ha.ctr, fun hs hon => ?_⟩⟩
      rw [hbstart, hstart] at hs
      obtain ⟨hon', hbt⟩ := hbon hon
      have hpos := (hinv.requestor.waiting hs hon').2
      have heq := ha.waiting hs hon'
      rw [decUnsigned_of_pos hpos] at hbt
      rw [hbt, hbctr, hbstop, hstop₁]
      omega
    · have heq := ha.waiting hs hon
      rw [hctr] at hbctr
      refine ⟨.inr ⟨⟨hbctr, m, ?_⟩, hlt, hs, hon, hone, by omega⟩, hbout.trans hout,
        hbstart.trans hstart, fun _ => hon, fun _ => ⟨?_, fun _ _ => ?_⟩⟩
      · rw [hbres, hres, hlive.2, hout]
      · omega
      · rw [hbtimer, hbctr, hbstop, hstop₁]
        omega

end

/-! ## New transactions -/

/-- The clock of a source transaction that has just been started for a message that wants an
acknowledgement unless it is multicast. -/
theorem Machine.clock_srcRun_init {x : Machine SrcState} (h : Fresh x.t) (hctr : x.t.rtxctr = 0) :
    x.srcRun.1.t.clock =
      { stop := 15
        timer := if x.outMsg.ackreq && !x.outMsg.isMulticast then 5 else 0
        requestor := x.outMsg.ackreq && !x.outMsg.isMulticast
        reqState := if x.outMsg.ackreq && !x.outMsg.isMulticast then .waitAck else .init
        reqStatus := .ongoing
        rtxctr := 0
        out := x.t.outMsg
        multicast := x.outMsg.isMulticast } := by
  rw [srcRun_fresh h]
  simp [Transaction.clock, hctr]

section

variable {s s' : Node σ} {q : Ptr} {E : List Event}

theorem Node.newCell_clock (s : Node σ) (o : Ptr) : (s.newCell o).clock =
    { stop := 15
      timer := if (s.newMsg o).ackreq && !(s.newMsg o).isMulticast then 5 else 0
      requestor := (s.newMsg o).ackreq && !(s.newMsg o).isMulticast
      reqState := if (s.newMsg o).ackreq && !(s.newMsg o).isMulticast then .waitAck else .init
      reqStatus := .ongoing, rtxctr := 0, out := o, multicast := (s.newMsg o).isMulticast } := by
  have hclock := clock_srcRun_init (s.fresh_newSrc o) (by simp [newSrc, srcMachine])
  have hout : ((s.newSrc o).srcMachine s.srcs.next).t.outMsg = o := by simp [newSrc, srcMachine]
  rw [newSrc_outMsg, hout] at hclock
  exact hclock

theorem Node.Born.clock (h : s.Born E q) : ∃ o mc, (s.srcs.get q).clock =
    { stop := 15, timer := if mc then 0 else 5, requestor := !mc,
      reqState := if mc then .init else .waitAck, reqStatus := .ongoing, rtxctr := 0, out := o,
      multicast := mc } := by
  obtain ⟨s₀, o, rfl, -, -, rfl⟩ := h
  refine ⟨o, ((s₀.logOut o).newMsg o).isMulticast, ?_⟩
  have hreq : ((s₀.logOut o).newMsg o).ackreq = true := by simp [newMsg]
  change (((s₀.logOut o).startSrc o).srcs.get (s₀.logOut o).srcs.next).clock = _
  rw [startSrc_cell, newCell_clock, hreq]
  cases ((s₀.logOut o).newMsg o).isMulticast <;> rfl

theorem Node.Born.log (h : s.Born E q) : ∃ l m, s.log =
      l ++ [.send ⟨.src, q, s.srcKey q⟩ .initial (s.srcs.get q).outMsg m] ∧
    l.filter (Event.isOf .src q) = E := by
  obtain ⟨s₀, o, rfl, hnew, rfl, rfl⟩ := h
  have hcell : ((s₀.logOut o).startSrc o).srcs.get s₀.srcs.next = (s₀.logOut o).newCell o :=
    startSrc_cell ..
  have hkey : ((s₀.logOut o).startSrc o).srcKey s₀.srcs.next =
      (((s₀.logOut o).newMsg o).destination, ((s₀.logOut o).newMsg o).tid) := by
    rw [srcKey, hcell, (newCell_spec hnew.not_confirm).1]
    rfl
  have hout : (((s₀.logOut o).startSrc o).srcs.get s₀.srcs.next).outMsg = o := by
    rw [hcell]
    exact congrArg Clock.out (newCell_clock _ o)
  refine ⟨_, (s₀.logOut o).newMsg o, ?_, s₀.deeds_logOut o⟩
  rw [hkey, hout]
  exact (s₀.logOut o).startSrc_log o

theorem Node.Born.requestor (h : s.Born E q) : Requestor (s.srcs.get q) := by
  obtain ⟨o, mc, hc⟩ := h.clock
  obtain ⟨hstop, htimer, hstart, hst, hstatus, -⟩ := Clock.mk.inj hc
  constructor
  · intro hs
    have hmc : mc = false := by simpa [hs] using hstart
    exact .inl ⟨by simp [hst, hmc], hstatus, by simp [htimer, hmc]⟩
  · intro hs
    have hmc : mc = true := by simpa [hs] using hstart
    exact ⟨hstatus, by simp [htimer, hmc, hstop]⟩

theorem Node.Born.onTime (h : s.Born E q) : OnTime (s.srcs.get q) := by
  obtain ⟨o, mc, hc⟩ := h.clock
  obtain ⟨hstop, htimer, hstart, -, -, hctr, -⟩ := Clock.mk.inj hc
  refine ⟨by rw [hctr]; decide, fun hs _ => ?_⟩
  have hmc : mc = false := by simpa [hs] using hstart
  rw [hctr, htimer, hstop, hmc]
  rfl

/-- A transaction that comes up is on time, has fifteen ticks to live and has not retransmitted
anything. -/
theorem Node.Arises.onTime (h : s.Arises s' q) (hE : s.deeds .src q = []) :
    OnTime (s'.srcs.get q) ∧ (s'.srcs.get q).rtxctr = 0 ∧ (s'.srcTrace q).resent = [] ∧
      (s'.srcs.get q).transactionStopWhen = 15 := by
  obtain ⟨s₁, hborn, -, hm⟩ := h
  have hstill := hm.still hborn.live hborn.requestor
  obtain ⟨l, m, hlog, hl⟩ := hborn.log
  obtain ⟨o, mc, hc⟩ := hborn.clock
  refine ⟨hstill.onTime hborn.onTime, hstill.rtxctr.trans (congrArg Clock.rtxctr hc), ?_,
    hstill.stop.trans (congrArg Clock.stop hc)⟩
  · rw [hstill.resent]
    change (s₁.log.filter (Event.isOf .src q)).filter _ = []
    rw [hlog, filter_append, hl, hE]
    simp [Event.isOf, Event.isRetransmission]

end

end Odtone.Mihf
