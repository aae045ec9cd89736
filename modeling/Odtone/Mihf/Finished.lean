import Odtone.Mihf.Outcome
import Odtone.Mihf.DstCourse
import Odtone.Mihf.Containers

/-! # Finished transactions

What becomes of a transaction after its status has left `ONGOING`. A destination transaction leaves
the pool then, and nothing is done for it any more. A source transaction can stay in the pool until
the next tick, when a response has come in without the acknowledgement flag and the requestor still
waits; if the timer of the requestor rings with that tick, the message is sent once more.
-/

namespace Odtone.Mihf

open Machine EStateM List

variable {σ S : Type}

/-- If the transaction has an outcome in `a`, nothing has been retransmitted between `a` and `b`. -/
def Trace.Unsent (a b : Trace S) : Prop :=
  a.t.transactionStatus ≠ .ongoing → b.resent = a.resent

/-! ## Destination transactions -/

namespace Machine

variable {x y : Machine DstState}

/-- If the life time is over and that ends the transaction, the rest of the tick is not for it: its
requestor has come to an end too, or has never been started. -/
theorem dstDecTimer_over (h : DstInv x.t) (hy : y.t = x.dstDecLife.t)
    (hover : y.t.transactionStatus ≠ .ongoing) :
    y.dstDecTimer.t.transactionStatus = y.t.transactionStatus ∧ y.dstDecTimer.log = y.log := by
  have hstop : x.decStop.t.transactionStopWhen = 0 := by
    by_contra hstop
    have hlife : x.dstDecLife = x.decStop := if_neg hstop
    rw [hy, hlife] at hover
    exact hover h.status
  have hlife : x.dstDecLife = x.decStop.dstRun.1 := if_pos hstop
  rw [hlife] at hy
  have hone : x.t.transactionStopWhen = 1 := decUnsigned_eq_zero.mp hstop
  by_cases hst : x.t.state = .waitResponsePrm
  · have hw := h.waiting hst
    have hst' : x.decStop.t.state = .waitResponsePrm := hst
    have hrun : x.decStop.dstRun.1 = x.decStop.dstFailure := by
      simp [dstRun, dstWaitResponsePrm, hst', hstop, dstFailure, assign]
    have hreq : y.t.ackRequestorStatus = .ongoing := by
      rw [hy, hrun]
      exact hw.reqStatus
    have htimer : y.decRetransmission.t.retransmissionWhen ≠ 0 := by
      have hwhen : y.t.retransmissionWhen = x.t.retransmissionWhen := by
        rw [hy, hrun]
        rfl
      simp only [decRetransmission, assign_t, hwhen, hw.timer, hone, decUnsigned]
      decide
    have hdec : y.dstDecTimer = y.decRetransmission := (if_pos hreq).trans (if_neg htimer)
    rw [hdec]
    exact ⟨rfl, rfl⟩
  · obtain ⟨hst', hstart⟩ := h.sending hst
    have hreq : y.t.ackRequestorStatus ≠ .ongoing := by
      intro hreq
      have hst'' : x.decStop.t.state = .sendResponse := hst'
      have hreq' : x.t.ackRequestorStatus = .ongoing := by
        rw [← hreq, hy]
        simp only [dstRun, hst'']
        unfold dstSendResponse
        split_ifs <;> rfl
      have hrun : x.decStop.dstRun.1 = x.decStop := by
        simp only [dstRun, hst'']
        have hstart' : x.decStop.t.startAckRequestor = true := hstart
        have hreq'' : x.decStop.t.ackRequestorStatus = .ongoing := hreq'
        simp [dstSendResponse, hstart', hreq'']
      rw [hy, hrun] at hover
      exact hover h.status
    have hdec : y.dstDecTimer = y := if_neg hreq
    rw [hdec]
    exact ⟨rfl, rfl⟩

end Machine

/-- A turn does not take an outcome back, and does not retransmit what is finished. -/
theorem DstTurn.final {p : Ptr} {a b : Trace DstState} (h : DstTurn p a b) :
    a.Final b ∧ a.Unsent b := by
  cases h with
  | out o hinv _ =>
    exact ⟨fun hover => absurd hinv.status hover, fun hover => absurd hinv.status hover⟩
  | input _ hinv | life hinv =>
    exact ⟨fun hover => absurd hinv.status hover, fun hover => absurd hinv.status hover⟩
  | timer hlived hdoes =>
    obtain ⟨x, hinv, hx⟩ := hlived
    obtain ⟨y, -, -, hy, -, hb, l, hl, hdeeds⟩ := hdoes
    have hover : a.t.transactionStatus ≠ .ongoing →
        b.t.transactionStatus = a.t.transactionStatus ∧ b.deeds = a.deeds := fun hover => by
      rw [← hy] at hover
      obtain ⟨hst, hlog⟩ := dstDecTimer_over hinv (hy.trans hx) hover
      have hnil : l = [] := append_cancel_left ((hl.symm.trans hlog).trans (append_nil _).symm)
      rw [hb, hst, hy, hdeeds, hnil, append_nil]
      exact ⟨rfl, rfl⟩
    refine ⟨fun h => ⟨(hover h).1, ?_⟩, fun h => ?_⟩
    · unfold Trace.processed
      rw [(hover h).2]
    · unfold Trace.resent
      rw [(hover h).2]

/-! ## Source transactions

As long as the requestor waits, nothing but a response that is not an acknowledgement gets a source
transaction anywhere. -/

/-- If the requestor waits, a run does nothing. -/
def Unprompted (t : SrcTransaction) : Prop :=
  t.startAckRequestor = true → t.ackRequestorStatus = .ongoing →
    t.transactionStopWhen ≠ 0 ∧ t.state ≠ .processMsg ∧
      (t.state = .waitResponseMsg → t.msgInAvail = false)

theorem SrcInv.unprompted {t : SrcTransaction} (h : SrcInv t)
    (hst : t.startAckRequestor = true → t.ackRequestorStatus = .ongoing → t.state ≠ .processMsg) :
    Unprompted t := by
  intro hs hon
  refine ⟨h.stop.1.ne', hst hs hon, fun hwait => ?_⟩
  by_contra hin
  exact h.pending hwait (by simpa using hin) hs hon

namespace Machine

variable {x : Machine SrcState}

section

variable (hl : x.t.state ≠ .init) (ht : Told x.t) (hu : Unprompted x.t)
include hl ht hu

theorem srcRun_unprompted
    (hs : x.t.startAckRequestor = true) (hon : x.t.ackRequestorStatus = .ongoing) :
    x.srcRun.1.t.state = x.t.state ∧ x.srcRun.1.t.transactionStatus = x.t.transactionStatus ∧
      x.srcRun.1.t.msgInAvail = x.t.msgInAvail := by
  obtain ⟨hstop, hproc, hwait⟩ := hu hs hon
  unfold Told at ht
  unfold srcRun
  cases hst : x.t.state with
  | init => exact absurd hst hl
  | waitResponseMsg => simp [srcWaitResponseMsg, hstop, hwait hst]
  | waitAck => simp [srcWaitAck, hon]
  | processMsg => exact absurd hst hproc
  | failure => simp [srcFailure, ht, hst, SrcState.status]
  | success => simp [srcSuccess, ht, hst, SrcState.status]

theorem unprompted_srcRun : Unprompted x.srcRun.1.t := by
  intro hs hon
  have hc := (x.quiet_srcRun hl).clock
  obtain ⟨hstop, -, hstart, -, hstatus, -⟩ := Clock.mk.inj hc
  rw [hstart] at hs
  rw [hstatus] at hon
  obtain ⟨hst, -, hin⟩ := srcRun_unprompted hl ht hu hs hon
  rw [hst, hin, hstop]
  exact hu hs hon

end

theorem unprompted_out (hu : Unprompted x.t) (hr : Requestor x.t) (o : Ptr) :
    Unprompted (x.out o).t := by
  intro hs hon
  have hcourse := sameCourse_out (x := x) o
  have hon' : x.t.ackRequestorStatus = .ongoing := by
    rcases noticed_out hr o with hn | ⟨-, hn⟩
    · exact (congrArg Clock.reqStatus hn).symm.trans hon
    · have hover : (x.out o).t.ackRequestorStatus = .success := congrArg Clock.reqStatus hn
      rw [hover] at hon
      cases hon
  obtain ⟨hstop, hproc, hwait⟩ := hu (hcourse.requestor.symm.trans hs) hon'
  rw [hcourse.stop, hcourse.state]
  exact ⟨hstop, hproc, fun hst => out_noInput (hwait hst)⟩

end Machine

section

variable {O : SrcTransaction → Prop} {p : Ptr} {r : Bool} {a b : Trace SrcState}

/-- The source transaction `p` gets from `a` to `b` in moves none of which sends the message of a
finished transaction again. -/
def Discreet (p : Ptr) : Trace SrcState → Trace SrcState → Prop :=
  Relation.ReflTransGen fun a b => Turn p a b ∧ a.Unsent b

theorem SrcMoves.discreet (h : SrcMoves O p r a b) (hl : a.t.state ≠ .init)
    (hr : (∃ t, O t) → Requestor a.t) : Discreet p a b := by
  induction h with
  | refl r a => exact .refl
  | trans h _ ih ih' =>
    exact (ih hl hr).trans (ih' (h.key hl).1 fun hO => (h.still hl (hr hO)).requestor (hr hO))
  | @out r a b c o hO h _ ih =>
    have hm := SrcMoves.out (r := r) hO h (.refl true b)
    have hreq := hr ⟨_, hO⟩
    have hres := h.resent fun x ht => noResend_out (ht ▸ hreq) o
    exact .head ⟨.out o h, fun _ => hres⟩
      (ih (hm.key hl).1 fun _ => (hm.still hl hreq).requestor hreq)
  | advance h =>
    have hres := h.resent fun x ht => noResend_srcAdvance (ht ▸ hl)
    exact .single ⟨.run h, fun _ => hres⟩
  | @call a b c d h _ _ h' ih =>
    have hres := h.resent fun x ht => noResend_srcAdvance (ht ▸ hl)
    have hres' := h'.resent fun x _ => x.quiet_srcResume.resends
    have hstill : Still True a b := h.still_advance hl
    have hnested := ih ((SrcMoves.advance (O := O) h).key hl).1 fun hO => hstill.requestor (hr hO)
    exact .head ⟨.run h, fun _ => hres⟩ (hnested.tail ⟨.resume h', fun _ => hres'⟩)

theorem LifeBeat.discreet (h : LifeBeat p a b) (hl : a.t.state ≠ .init) : Discreet p a b := by
  obtain ⟨a₁, hdoes, hm, -⟩ := h
  have hres := hdoes.resent fun x _ => .of_log_eq rfl
  have hl₁ : a₁.t.state ≠ .init := by
    rw [hdoes.decStop_t]
    exact hl
  exact .head ⟨.decStop hdoes, fun _ => hres⟩ (hm.discreet hl₁ fun ⟨_, hO⟩ => hO.elim)

/-- The retransmission timer, if whoever sends again is not finished. -/
theorem TimerBeat.discreet (h : TimerBeat p a b) (hl : a.t.state ≠ .init)
    (hwait : a.t.startAckRequestor = true → a.t.ackRequestorStatus = .ongoing →
      a.t.ackReqState = .waitAck)
    (hun : a.t.startAckRequestor = false → a.t.retransmissionWhen ≠ 1)
    (hopen : a.t.startAckRequestor = true → a.t.ackRequestorStatus = .ongoing →
      a.t.retransmissionWhen = 1 → a.t.rtxctr < 2 → a.t.transactionStatus = .ongoing) :
    Discreet p a b := by
  rcases h with ⟨rfl, -⟩ | ⟨hon, a₁, hdoes, hrest⟩
  · exact .refl
  · have hres := hdoes.resent fun x _ => .of_log_eq rfl
    have hturn := Turn.decRetransmission hdoes
    have ht₁ := hdoes.decRetransmission_t
    rcases hrest with ⟨rfl, -⟩ | ⟨h0, a₂, hreq, hm⟩
    · exact .single ⟨hturn, fun _ => hres⟩
    · have hturn₂ := Turn.ackRequestor hreq
      obtain ⟨y, -, -, hy, -, ha₂, l, hlog, hdeeds⟩ := hreq
      rw [ht₁] at hy h0
      have hone : a.t.retransmissionWhen = 1 := decUnsigned_eq_zero.mp h0
      have hs : a.t.startAckRequestor = true := by
        by_contra hs
        exact hun (by simpa using hs) hone
      have hst : y.t.ackReqState = .waitAck := by rw [hy]; exact hwait hs hon
      have hl₂ : a₂.t.state ≠ .init := by
        rw [ha₂, (SameCourse.ackRequestor y).state, hy]
        exact hl
      have hunsent : a₁.Unsent a₂ := fun hover => by
        rcases ackRequestor_rung hst (by rw [hy]; exact h0) with
          ⟨hlt, -⟩ | ⟨-, -, -, hsame⟩
        · rw [hy] at hlt
          rw [ht₁] at hover
          exact absurd (hopen hs hon hone hlt) hover
        · have hnil : l = [] := append_cancel_left ((hlog.symm.trans hsame).trans
            (append_nil _).symm)
          unfold Trace.resent
          rw [hdeeds, hnil, append_nil]
      exact .head ⟨hturn, fun _ => hres⟩ (.head ⟨hturn₂, hunsent⟩
        (hm.discreet hl₂ fun ⟨_, hO⟩ => hO.elim))

/-- A tick. At the moment when the message is sent again, the life time is not over. -/
theorem Beat.discreet {done : Prop} (h : Beat done p a b) (hinv : SrcInv a.t) (ha : OnTime a.t)
    (hopen : a.t.startAckRequestor = true → a.t.ackRequestorStatus = .ongoing →
      a.t.retransmissionWhen = 1 → a.t.transactionStatus = .ongoing) : Discreet p a b := by
  obtain ⟨a₁, hlife, hrest⟩ := h
  have hd := hlife.discreet hinv.live
  rcases hrest with ⟨rfl, -⟩ | htimer
  · exact hd
  · obtain ⟨hc, -, hstay⟩ := hlife.clock hinv.live
    simp only [Transaction.clock, Clock.mk.injEq] at hc
    obtain ⟨-, hwhen, hstart, hst, hstatus, hctr, -⟩ := hc
    refine hd.trans (htimer.discreet (hlife.live hinv.live).1 ?_ ?_ ?_)
    · rw [hstart, hstatus, hst]
      exact fun hs hon => (hinv.requestor.waiting hs hon).1
    · rw [hstart, hwhen]
      exact hinv.requestor.timer_ne_one hinv.stop
    · rw [hstart, hstatus, hwhen, hctr]
      intro hs hon hone hlt
      have heq := ha.waiting hs hon
      have hstop : decUnsigned a.t.transactionStopWhen ≠ 0 := by
        rw [Ne, decUnsigned_eq_zero]
        omega
      rw [hstay hstop]
      exact hopen hs hon hone

/-- Nothing happens to the transaction as long as its requestor waits. -/
theorem SrcMoves.unprompted (h : SrcMoves O p r a b) (hl : a.t.state ≠ .init)
    (hr : Requestor a.t) (ht : Told a.t) (hu : Unprompted a.t) :
    Unprompted b.t ∧ (b.t.startAckRequestor = true → b.t.ackRequestorStatus = .ongoing →
      b.t.transactionStatus = a.t.transactionStatus) := by
  induction h with
  | refl r a => exact ⟨hu, fun _ _ => rfl⟩
  | @trans r a b c h h' ih ih' =>
    obtain ⟨hu₁, hst₁⟩ := ih hl hr ht hu
    have hl₁ := (h.key hl).1
    have hr₁ := (h.still hl hr).requestor hr
    obtain ⟨hu₂, hst₂⟩ := ih' hl₁ hr₁ (h.told hl ht).1 hu₁
    have hstill := h'.still hl₁ hr₁
    refine ⟨hu₂, fun hs hon => (hst₂ hs hon).trans (hst₁ ?_ (hstill.ongoing hon))⟩
    exact hstill.started.symm.trans hs
  | @out r a b c o hO h h' ih =>
    have hm := SrcMoves.out (r := r) hO h (.refl true b)
    have hl₁ := (hm.key hl).1
    have hr₁ := (hm.still hl hr).requestor hr
    have ht₁ := (hm.told hl ht).1
    obtain ⟨x, -, -, hx, -, hb, -⟩ := h
    have hu₁ : Unprompted b.t := by
      rw [hb]
      exact unprompted_out (hx ▸ hu) (hx ▸ hr) o
    obtain ⟨hu₂, hst₂⟩ := ih hl₁ hr₁ ht₁ hu₁
    refine ⟨hu₂, fun hs hon => (hst₂ hs hon).trans ?_⟩
    rw [hb, ← hx]
    exact (sameCourse_out o).status
  | @advance a b h =>
    have hstill : Still True a b := h.still_advance hl
    obtain ⟨x, -, -, hx, -, hb, -⟩ := h
    rw [srcAdvance_t] at hb
    rw [← hx] at hl ht hu
    refine ⟨hb ▸ unprompted_srcRun hl ht hu, fun hs hon => ?_⟩
    have hs' := hstill.started.symm.trans hs
    have hon' := hstill.ongoing hon
    rw [← hx] at hs' hon'
    rw [hb, ← hx]
    exact (srcRun_unprompted hl ht hu hs' hon').2.1
  | @call a b c d h hst hm h' ih =>
    -- with the requestor waiting, the run would not have come to the call
    have hm' : SrcMoves O p true a d := .call h hst hm h'
    have hstill := hm'.still hl hr
    have hout : ¬ (a.t.startAckRequestor = true ∧ a.t.ackRequestorStatus = .ongoing) := by
      rintro ⟨hs, hon⟩
      obtain ⟨x, -, -, hx, -, hb, -⟩ := h
      rw [srcAdvance_t] at hb
      rw [← hx] at hl ht hu hs hon
      obtain ⟨hst', -⟩ := srcRun_unprompted hl ht hu hs hon
      rw [hb, hst'] at hst
      exact (hu hs hon).2.1 hst
    refine ⟨fun hs hon => ?_, fun hs hon => ?_⟩
    all_goals exact absurd ⟨hstill.started.symm.trans hs, hstill.ongoing hon⟩ hout

end

section

variable {s s' : Node σ} {q i : Ptr} {process : Ptr → Ptr → M σ Bool}

/-- A source transaction that has been handed a response is out of `_process_msg_lbl_` when
`message_in` returns. -/
theorem Incoming.state_ne_processMsg (h : Incoming process s i (.ok () s')) (hs : s.WF)
    (hin : s.InSrc i q) (hack : ¬ s.InAck i) : (s'.srcs.get q).state ≠ .processMsg := by
  cases h with
  | ack _ hack' => exact absurd hack' hack
  | src hin' _ hcall =>
    cases hin.find hin'
    obtain ⟨-, -, hiff⟩ := Node.inSrcRun_spec (i := i) (hs.src.inv q (Pool.mem_of_find hin.2))
    rw [Node.delFinishedSrc_srcs]
    change (((s.logIn i).srcs.set q _).get q).state ≠ _
    rw [Store.get_set_self]
    exact fun hst => by simp [hiff.mpr hst] at hcall
  | @srcCall _ rsp s₁ hin' _ _ _ =>
    cases hin.find hin'
    rw [Node.delFinishedSrc_srcs]
    change ((s₁.srcs.set q _).get q).state ≠ _
    rw [Store.get_set_self]
    exact srcResume_state_ne _
  | dst hdst => exact absurd hdst hin.not_dst
  | new hnew => exact absurd hnew hin.not_new

end

/-- What a tick does to the state of a transaction. -/
theorem TickOf.state_ne {t t' : SrcTransaction} {del : Bool} (h : TickOf srcRan t del t')
    (hl : t.state ≠ .init) : t'.state ≠ .processMsg ∨
      t'.state = t.state ∧ t'.startAckRequestor = t.startAckRequestor ∧
        t'.ackRequestorStatus = t.ackRequestorStatus := by
  obtain ⟨x, y, rfl, hy, rfl, -⟩ := h
  have hlife : y.t.state ≠ .init ∧ (y.t.state ≠ .processMsg ∨ y.t.state = x.t.state ∧
      y.t.startAckRequestor = x.t.startAckRequestor ∧
      y.t.ackRequestorStatus = x.t.ackRequestorStatus) := by
    rw [hy]
    unfold life
    extract_lets z
    split
    · exact ⟨srcRan_live hl, .inl (srcRan_state_ne hl)⟩
    · exact ⟨hl, .inr ⟨rfl, rfl, rfl⟩⟩
  unfold timer
  extract_lets z
  split_ifs
  · refine .inl (srcRan_state_ne ?_)
    rw [(SameCourse.ackRequestor z).state]
    exact hlife.1
  all_goals exact hlife.2

/-! ## Runs -/

/-- No source transaction whose requestor waits is inside `process_message`. -/
def Node.Rests (s : Node σ) : Prop :=
  ∀ q ∈ s.src, (s.srcs.get q).startAckRequestor = true →
    (s.srcs.get q).ackRequestorStatus = .ongoing → (s.srcs.get q).state ≠ .processMsg

section

variable {handler : Handler σ} {n : Nat} {s s' : Node σ} {i : Input σ} {q : Ptr}

theorem Node.Born.unprompted {E : List Event} (h : s.Born E q) : Unprompted (s.srcs.get q) := by
  have htold := h.told
  have hstop : (s.srcs.get q).transactionStopWhen = 15 := by
    obtain ⟨o, mc, hc⟩ := h.clock
    exact congrArg Clock.stop hc
  by_cases hon : (s.srcs.get q).transactionStatus = .ongoing
  · obtain ⟨s₀, o, rfl, hnew, -, rfl⟩ := h
    change Unprompted (((s₀.logOut o).startSrc o).srcs.get (s₀.logOut o).srcs.next)
    change
      (((s₀.logOut o).startSrc o).srcs.get (s₀.logOut o).srcs.next).transactionStatus = _ at hon
    rw [startSrc_cell] at hon ⊢
    obtain ⟨hinv, hst⟩ := (newCell_spec hnew.not_confirm).2.2 hon
    exact hinv.unprompted fun _ _ => hst
  · refine fun _ _ => ⟨by simp [hstop], ?_, ?_⟩
    all_goals rcases htold.over hon with hst | hst <;> simp [hst]

variable (handler n) in
/-- Where the requestor of a source transaction still waits after a reaction other than a tick, and
no response has come in without the acknowledgement flag, the transaction has not moved. -/
theorem step_unprompted (hs : s.WF) (hc : s.Coherent) (hr : s.Rests) (hq : q ∈ s.src)
    (hi : i.isTick = false) (hd : ∀ m, s.Delivers i q m → m.ackrsp = true)
    (hstart : ((step handler n i s).state.srcs.get q).startAckRequestor = true)
    (hon : ((step handler n i s).state.srcs.get q).ackRequestorStatus = .ongoing) :
    ((step handler n i s).state.srcs.get q).state ≠ .processMsg ∧
      ((step handler n i s).state.srcs.get q).transactionStatus =
        (s.srcs.get q).transactionStatus := by
  have hinv := hs.src.inv q hq
  have hstill := step_still handler n hs (hs.src.lt q hq) hi
  have hdelivers : ∀ m, ¬ s.Delivers i q m := fun m hdm => by
    -- the acknowledgement would have ended the waiting
    obtain ⟨a, hdoes, hm⟩ := step_srcMoves_self handler n hs hdm
    have hover := hdoes.acked_in hinv.requestor (hstill.started.symm.trans hstart) (hd m hdm)
    have hin : Still True (s.srcTrace q) a := hdoes.still_in hinv.requestor
    have hlive : a.t.state ≠ .init := hdoes.key_in.1 ▸ hinv.live
    exact hover ((hm.still hlive (hin.requestor hinv.requestor)).ongoing hon)
  obtain ⟨hm, -⟩ := step_srcMoves_other handler n hs (hs.src.lt q hq) hi hdelivers
  obtain ⟨hu, hst⟩ := hm.unprompted hinv.live hinv.requestor (hc q hq) (hinv.unprompted (hr q hq))
  exact ⟨(hu hstart hon).2.1, hst hstart hon⟩

theorem step_rests (hs : s.WF) (hc : s.Coherent) (hr : s.Rests)
    (h : step handler n i s = .ok () s') : s'.Rests := by
  intro q hmem hstart hon
  rcases Nat.lt_or_ge q s.srcs.next with hq | hq
  · have hmem₀ := ((step_aged hs h).src q hmem hq).1
    cases hi : i.isTick with
    | true =>
      obtain rfl := Input.eq_tick hi
      obtain ⟨s₁, hsrc, hdst⟩ := tick_ok hs h
      rw [hdst.src] at hmem
      rw [hdst.srcs] at hstart hon ⊢
      obtain ⟨-, htick⟩ := hsrc.mem_of_mem hmem
      rcases htick.state_ne (hs.src.inv q hmem₀).live with hst | ⟨hst, hstart', hon'⟩
      · exact hst
      · rw [hst]
        exact hr q hmem₀ (hstart'.symm.trans hstart) (hon'.symm.trans hon)
    | false =>
      by_cases hd : ∃ m, s.Delivers i q m ∧ m.ackrsp = false
      · obtain ⟨m, hdm, hack⟩ := hd
        have hin := (Node.delivers_iff hs).mp (hdm.1 ▸ hdm)
        obtain rfl := hdm.1
        have hinc := recv_incoming handler n m hs.dst
        rw [h] at hinc
        refine hinc.state_ne_processMsg (hs.apart (s.apart_received m)) hin fun hackm => ?_
        have hmsg : (s.received m).msgs.get s.msgs.next = m := Store.get_push_next
        rw [Node.InAck, hmsg, hack] at hackm
        cases hackm.1
      · have hst := step_unprompted handler n hs hc hr hmem₀ hi
          (fun m hdm => by
            by_contra hack
            exact hd ⟨m, hdm, by simpa using hack⟩)
          (by rw [h]; exact hstart) (by rw [h]; exact hon)
        rw [h] at hst
        exact hst.1
  · rcases step_srcBirth handler n hs hq h with ⟨hq', -⟩ | ⟨-, s₁, hborn, -, hm⟩
    · exact absurd ((step_wf handler n hs h).src.lt q hmem) (Nat.not_lt.mpr hq')
    · obtain ⟨hu, -⟩ := hm.unprompted hborn.live hborn.requestor hborn.told hborn.unprompted
      exact (hu hstart hon).2.1

/-- The input is not a response without the acknowledgement flag for a source transaction that is
due to send its message again with the next tick. -/
def Node.Timely (s : Node σ) (i : Input σ) : Prop :=
  ∀ q m, s.Delivers i q m → m.ackrsp = false →
    ¬ ((s.srcs.get q).ackRequestorStatus = .ongoing ∧ (s.srcs.get q).retransmissionWhen = 1)

/-- No finished source transaction is due to send its message again. -/
def Node.Spent (s : Node σ) : Prop :=
  ∀ q ∈ s.src, (s.srcs.get q).transactionStatus ≠ .ongoing →
    (s.srcs.get q).startAckRequestor = true → (s.srcs.get q).ackRequestorStatus = .ongoing →
    (s.srcs.get q).retransmissionWhen ≠ 1

theorem step_spent (hs : s.WF) (ht : s.Timed) (hc : s.Coherent) (hr : s.Rests) (hsp : s.Spent)
    (htimely : s.Timely i) (h : step handler n i s = .ok () s') : s'.Spent := by
  intro q hmem hover hstart hon hone
  rcases Nat.lt_or_ge q s.srcs.next with hq | hq
  · have hmem₀ := ((step_aged hs h).src q hmem hq).1
    cases hi : i.isTick with
    | true =>
      -- what is left in the pool by a tick has no outcome
      obtain rfl := Input.eq_tick hi
      obtain ⟨s₁, hsrc, hdst⟩ := tick_ok hs h
      rw [hdst.src] at hmem
      rw [hdst.srcs] at hover
      obtain ⟨-, x, y, -, -, -, hdel⟩ := hsrc.mem_of_mem hmem
      simp [hover] at hdel
    | false =>
      have hstill := step_still handler n hs hq hi
      rw [h] at hstill
      have hstart₀ := hstill.started.symm.trans hstart
      have hon₀ := hstill.ongoing hon
      have hone₀ : (s.srcs.get q).retransmissionWhen = 1 := by
        obtain ⟨o, -, hn | ⟨-, hn⟩⟩ := hstill.clock
        all_goals exact (congrArg Clock.timer hn).symm.trans hone
      have hd : ∀ m, s.Delivers i q m → m.ackrsp = true := fun m hdm => by
        by_contra hack
        exact htimely q m hdm (by simpa using hack) ⟨hon₀, hone₀⟩
      have hst := (step_unprompted handler n hs hc hr hmem₀ hi hd
        (by rw [h]; exact hstart) (by rw [h]; exact hon)).2
      rw [h, Result.state_ok] at hst
      exact hsp q hmem₀ (hst ▸ hover) hstart₀ hon₀ hone₀
  · rcases step_srcBirth handler n hs hq h with ⟨hq', -⟩ | ⟨-, harises⟩
    · exact absurd ((step_wf handler n hs h).src.lt q hmem) (Nat.not_lt.mpr hq')
    · obtain ⟨htime, hctr, -, hstop⟩ := harises.onTime (ht.unborn q hq)
      have := htime.waiting hstart hon
      omega

end

section

variable {handler : Handler σ} {n : Nat} {s s' : Node σ} {i : Input σ} {p : Ptr}

/-- A reaction does not send the message of a finished source transaction again. -/
theorem step_unsent (hs : s.WF) (ht : s.Timed) (hsp : s.Spent) (hp : p < s.srcs.next) :
    (s.srcTrace p).Unsent ((step handler n i s).state.srcTrace p) := fun hover => by
  rcases step_resends handler n hs ht hp with
    ⟨hres, -⟩ | ⟨-, hmem, -, -, hstart, hon, hone, -⟩
  · exact hres
  · exact absurd hone (hsp p hmem hover hstart hon)

/-- And neither does any of the moves it consists of. -/
theorem step_discreet (hs : s.WF) (ht : s.Timed) (hsp : s.Spent) (hp : p < s.srcs.next) :
    Discreet p (s.srcTrace p) ((step handler n i s).state.srcTrace p) := by
  rcases step_src handler n i hs hp with heq | ⟨hmem, hsrc⟩
  · exact heq ▸ .refl
  have hinv := hs.src.inv p hmem
  rcases hsrc with ⟨-, hbeat⟩ | ⟨-, ⟨m, a, -, hdoes, hm⟩ | hm⟩
  · refine hbeat.discreet hinv (ht.pooled p hmem) fun hs hon hone => ?_
    by_contra hover
    exact hsp p hmem hover hs hon hone
  · have hin : Still True (s.srcTrace p) a := hdoes.still_in hinv.requestor
    have hlive : a.t.state ≠ .init := hdoes.key_in.1 ▸ hinv.live
    exact .head ⟨.input _ hdoes, fun _ => hin.resent⟩
      (hm.discreet hlive fun _ => hin.requestor hinv.requestor)
  · exact hm.discreet hinv.live fun _ => hinv.requestor

/-- What holds of the source transactions in every state that is reached. -/
structure Node.Sound (s : Node σ) : Prop where
  wf : s.WF
  timed : s.Timed
  coherent : s.Coherent
  rests : s.Rests

theorem Node.sound_initial (svc : σ) (tid : UInt16) : (Node.initial svc tid).Sound where
  wf := wf_initial svc tid
  timed := timed_initial svc tid
  coherent _ hmem := by cases hmem
  rests _ hmem := by cases hmem

theorem step_sound (hs : s.Sound) (h : step handler n i s = .ok () s') : s'.Sound where
  wf := step_wf handler n hs.wf h
  timed := step_timed handler n hs.wf hs.timed h
  coherent := step_coherent hs.wf hs.coherent h
  rests := step_rests hs.wf hs.coherent hs.rests h

/-- In every run in which no response without the acknowledgement flag comes in just before a
message is due to be sent again, and in which the containers of the pools act as sets, nothing that
is finished is retransmitted, neither by the next reaction as a whole nor, where a transaction comes
to its end in the course of it, by any of the moves behind. -/
theorem finished_not_retransmitted {C : Type} [Pool.Container C] {svc : σ} {tid : UInt16}
    {is : List (Input σ)} {s : Node σ (Pool.Tracked C)}
    (h : Steps (step handler n) (Node.start svc tid) is s)
    (htimely : Along (step handler n)
      (fun i (s : Node σ (Pool.Tracked C)) => s.abs.Timely i) is (Node.start svc tid))
    (j : Input σ) (hexact : (step handler n j s).state.Exact) :
    (∀ p < s.srcs.next, (s.srcTrace p).Unsent ((step handler n j s).state.srcTrace p) ∧
      Relation.ReflTransGen (fun a b => Turn p a b ∧ a.Unsent b) (s.srcTrace p)
        ((step handler n j s).state.srcTrace p)) ∧
    ∀ p < s.dsts.next, (s.dstTrace p).Unsent ((step handler n j s).state.dstTrace p) ∧
      Relation.ReflTransGen (fun a b => DstTurn p a b ∧ a.Unsent b) (s.dstTrace p)
        ((step handler n j s).state.dstTrace p) := by
  have hE := (mimics_step handler n j s hexact).1
  have hsets := Follows.along (P := fun i s => s.Timely i) (mimics_step handler n) h hE htimely
  rw [Node.abs_start] at hsets
  obtain ⟨hs, hsp⟩ : s.abs.Sound ∧ s.abs.Spent :=
    (hE.reached h).induct_along (P := fun s => s.Sound ∧ s.Spent) hsets
      (fun i s s' htimely hs heq => ⟨step_sound hs.1 heq, step_spent hs.1.wf hs.1.timed
        hs.1.coherent hs.1.rests hs.2 htimely heq⟩)
      ⟨Node.sound_initial svc tid, fun _ hmem => by cases hmem⟩
  have hsrc {p : Ptr} (hp : p < s.srcs.next) := @step_unsent _ handler n _ j p hs.wf hs.timed hsp hp
  have hmoves {p : Ptr} (hp : p < s.srcs.next) :=
    @step_discreet _ handler n _ j p hs.wf hs.timed hsp hp
  have hdst {p : Ptr} (hp : p < s.dsts.next) := step_dstTurns handler n (i := j) hs.wf hp
  rw [(mimics_step handler n j).state hexact] at hsrc hmoves hdst
  refine ⟨fun p hp => ⟨hsrc hp, hmoves hp⟩, fun p hp => ?_⟩
  obtain ⟨hturns, hout⟩ := hdst hp
  refine ⟨fun hover => ?_, hturns.lift id fun a b hturn => ⟨hturn, hturn.final.2⟩⟩
  exact congrArg Trace.resent (hout fun hmem => hover (hs.wf.dst.inv p hmem).status)

end

/-- A response without the acknowledgement flag, after the fourth tick: the transaction succeeds,
and sends its request again with the fifth. -/
theorem finished_retransmitted_response : ∃ (is : List (Input Unit)) (s : Node Unit),
    Steps (step idle 1) (Node.initial () 0) is s ∧
      (s.srcs.get 1).transactionStatus = .success ∧ (s.srcTrace 1).resent.length = 0 ∧
      ((step idle 1 .tick s).state.srcTrace 1).resent.length = 1 :=
  ⟨[.submit (requestTo80 0), .tick, .tick, .tick, .tick,
      .recv { responseFrom80 with ackrsp := false }], _,
    steps_runAll _ (by decide +kernel), by decide +kernel, by decide +kernel,
    by decide +kernel⟩

theorem finished_not_retransmitted_acknowledged :
    let s : Node Unit (Pool.Tracked (List Ptr)) :=
      runAll (step idle 1) [.submit (requestTo80 0), .recv responseFrom80] (Node.start () 0)
    (s.srcs.get 1).transactionStatus = .success ∧
      (s.srcTrace 1).Unsent ((step idle 1 .tick s).state.srcTrace 1) := by
  have htimely : Along (step idle 1)
      (fun i (s : Node Unit (Pool.Tracked (List Ptr))) => s.abs.Timely i)
      [.submit (requestTo80 0), .recv responseFrom80] (Node.start () 0) := by
    refine along_of_forall (fun i hi s q m hd hack => ?_) _
    obtain rfl := hd.1
    rcases mem_cons.mp hi with heq | hi
    · cases heq
    · cases mem_singleton.mp hi
      cases hack
  exact ⟨by decide +kernel, (finished_not_retransmitted
    (steps_runAll _ (by decide +kernel)) htimely .tick (by decide +kernel)).1 1
    (by decide +kernel) |>.1⟩

end Odtone.Mihf
