import Odtone.Mihf.Replies
import Odtone.Mihf.Containers

/-! # Counting down

`transaction_pool::dec` counts down the life time of every pooled transaction, and the
retransmission timer of every one whose acknowledgement is still awaited, without a look at the
counters. The life time of a pooled transaction is never zero, and neither is the timer of a
requestor that is in use. But the status of a requestor that is not in use is `ONGOING` as well, and
its timer starts at zero: the first tick in the pool wraps it. -/

namespace Odtone.Mihf

open Machine EStateM

variable {σ S : Type}

/-! ## Requestors in use -/

/-- The timer of the requestor runs, if it is in use and waits. -/
def TimerRuns (t : Transaction S) : Prop :=
  t.startAckRequestor = true → t.ackRequestorStatus = .ongoing → 0 < t.retransmissionWhen

namespace Machine

theorem timerRuns_reqTestAck {x : Machine S} (h : 0 < x.t.retransmissionWhen) :
    TimerRuns x.reqTestAck.t := by
  rw [reqTestAck_eq]
  exact fun _ _ => h

/-- Whenever it is called, the requestor leaves its timer running or is done. -/
theorem timerRuns_ackRequestor (x : Machine S) : TimerRuns x.ackRequestor.t := by
  unfold ackRequestor
  split
  · exact timerRuns_reqTestAck (Nat.succ_pos 4)
  · unfold reqWaitAck
    split_ifs with h0
    · exact timerRuns_reqTestAck (Nat.succ_pos 4)
    · exact fun _ hon => by cases hon
    · exact timerRuns_reqTestAck (Nat.pos_of_ne_zero h0)
  · exact timerRuns_reqTestAck (Nat.succ_pos 4)
  all_goals exact fun _ hon => by cases hon

theorem timerRuns_startedAckRequestor (x : Machine S) : TimerRuns x.startedAckRequestor.t := by
  unfold startedAckRequestor
  split
  · exact timerRuns_ackRequestor x
  · next hs => exact fun hs' => absurd hs' hs

theorem timerRuns_startedAckResponder {x : Machine S} (h : TimerRuns x.t) :
    TimerRuns x.startedAckResponder.t := by
  obtain ⟨avail, st, dup, ack, ht⟩ := x.responds_startedAckResponder.t
  rw [ht]
  exact h

section

variable {x : Machine DstState}

theorem timerRuns_dstWaitResponsePrm (h : TimerRuns x.t)
    (hreq : x.t.msgOutAvail = true → x.t.ackReqState = .init) :
    TimerRuns x.dstWaitResponsePrm.t := by
  unfold dstWaitResponsePrm
  extract_lets y
  split_ifs with h0 hready
  · exact h
  · have hinit : y.t.ackReqState = .init := hreq (Bool.and_eq_true_iff.mp hready).1
    cases hack : y.outMsg.ackreq with
    | true =>
      rw [(dstSendResponseBegin_eq hinit hack).1]
      exact fun _ _ => Nat.succ_pos 4
    | false =>
      rw [(dstSendResponseBegin_of_not_ackreq hack).1]
      exact fun hs => by cases hs
  · exact h

theorem timerRuns_dstRun (h : TimerRuns x.t) (hl : x.t.state ≠ .init)
    (hreq : x.t.state = .waitResponsePrm → x.t.msgOutAvail = true → x.t.ackReqState = .init) :
    TimerRuns x.dstRun.1.t := by
  unfold dstRun
  split
  · next hst => exact absurd hst hl
  · next hst => exact timerRuns_dstWaitResponsePrm h (hreq hst)
  · unfold dstSendResponse
    split_ifs <;> exact h
  · exact h
  · exact h

theorem timerRuns_dstOut (h : DstInv x.t) (o : Ptr) : TimerRuns (x.dstOut o).t := by
  have hcourse := sameCourse_out (x := x) o
  have hrun : x.dstOut o = (x.out o).dstRun.1 :=
    congrArg Prod.fst (dstRunIfOngoing_of_ongoing (hcourse.status.trans h.status))
  rw [hrun]
  refine timerRuns_dstRun (timerRuns_startedAckResponder (timerRuns_startedAckRequestor _))
    (hcourse.state.trans_ne h.state_ne_init) fun hst _ => ?_
  have hw := h.waiting (hcourse.state.symm.trans hst)
  obtain ⟨rsp, dup, -, ht, -⟩ := out_waiting hw
  rw [ht]
  exact hw.reqState

theorem timerRuns_dstReceive (h : DstInv x.t) (i : Ptr) : TimerRuns (x.dstReceive i).t := by
  have hcourse := sameCourse_dstIn (x := x) i
  have hrun : x.dstReceive i = (x.dstIn i).dstRun.1.dstInAck :=
    congrArg (·.1.dstInAck) (dstRunIfOngoing_of_ongoing (hcourse.status.trans h.status))
  have hy : TimerRuns (x.dstIn i).dstRun.1.t := by
    refine timerRuns_dstRun (timerRuns_startedAckRequestor _)
      (hcourse.state.trans_ne h.state_ne_init) fun hst _ => ?_
    have hw := h.waiting (hcourse.state.symm.trans hst)
    simp [dstIn, startedAckRequestor, receive, hw.requestor, hw.reqState]
  rw [hrun]
  unfold dstInAck
  split
  · exact timerRuns_startedAckResponder hy
  · exact hy

theorem timerRuns_dstDecLife (h : DstInv x.t) (hr : TimerRuns x.t) : TimerRuns x.dstDecLife.t := by
  unfold dstDecLife life
  extract_lets y
  split
  · exact timerRuns_dstRun hr h.state_ne_init fun hst _ => (h.waiting hst).reqState
  · exact hr

theorem timerRuns_dstDecTimer (h : Lived x.t) : TimerRuns x.dstDecTimer.t := by
  by_cases hst : x.t.state = .waitResponsePrm
  · obtain ⟨hreq, heq⟩ := dstDecTimer_waiting h hst
    rw [heq]
    exact fun hs => absurd (hreq.symm.trans hs) (by simp)
  · have hlive : x.t.state ≠ .init := by
      obtain ⟨x₀, hinv, hx⟩ := h
      exact hx ▸ dstDecLife_live hinv.state_ne_init
    unfold dstDecTimer timer
    extract_lets y
    have hcourse := SameCourse.ackRequestor y
    split_ifs with hon h0
    · exact timerRuns_dstRun (timerRuns_ackRequestor y) (hcourse.state.trans_ne hlive)
        fun hst' => absurd (hcourse.state.symm.trans hst') hst
    · exact fun _ _ => Nat.pos_of_ne_zero h0
    · exact fun _ hon' => absurd hon' hon

end

end Machine

section

variable {p q i : Ptr} {a b : Trace DstState} {s s' : Node σ}

theorem DstTurn.timerRuns (h : DstTurn p a b) (ha : TimerRuns a.t) : TimerRuns b.t := by
  cases h with
  | out o hinv h =>
    obtain ⟨x, -, -, hx, -, hb, -⟩ := h
    exact hb ▸ timerRuns_dstOut (hx ▸ hinv) o
  | input j hinv h =>
    obtain ⟨x, -, -, hx, -, hb, -⟩ := h
    exact hb ▸ timerRuns_dstReceive (hx ▸ hinv) j
  | life hinv h =>
    obtain ⟨x, -, -, hx, -, hb, -⟩ := h
    exact hb ▸ timerRuns_dstDecLife (hx ▸ hinv) (hx ▸ ha)
  | timer hlived h =>
    obtain ⟨x, -, -, hx, -, hb, -⟩ := h
    exact hb ▸ timerRuns_dstDecTimer (hx ▸ hlived)

theorem DstTurns.timerRuns (h : DstTurns p a b) (ha : TimerRuns a.t) : TimerRuns b.t := by
  induction h with
  | refl => exact ha
  | tail _ h ih => exact h.timerRuns ih

theorem Node.Opens.timerRuns (h : s.Opens i (.ok () s')) (hmem : s.dsts.next ∈ s'.dst) :
    TimerRuns (s'.dsts.get s.dsts.next) := by
  obtain ⟨a, ha, -, ⟨hok, -⟩ | ⟨rsp, ⟨x, -, -, hx, -, hb, -⟩, hon⟩⟩ := h
  · cases hok
  · have hcell : s'.dsts.get s.dsts.next = (x.dstResume rsp).t := hb
    have hcalled : Called x.t := by
      rw [hx, ha]
      exact s.called_inNewInit i
    obtain ⟨-, ⟨ht, -⟩ | ⟨st, dup, ack, -, ht, -⟩⟩ := dstResume_cases hcalled (hcell ▸ hon hmem)
    · rw [hcell, ht]
      exact fun hs => absurd (hcalled.requestor.symm.trans hs) (by simp)
    · rw [hcell, ht]
      exact fun _ _ => Nat.succ_pos 4

variable {handler : Handler σ} {n : Nat}

theorem step_timerRuns {i : Input σ} (hs : s.WF) (hr : ∀ q ∈ s.dst, TimerRuns (s.dsts.get q))
    (h : step handler n i s = .ok () s') : ∀ q ∈ s'.dst, TimerRuns (s'.dsts.get q) := by
  intro q hmem
  rcases Nat.lt_or_ge q s.dsts.next with hq | hq
  · have hturns := (step_dstTurns handler n (i := i) hs hq).1
    rw [h] at hturns
    exact hturns.timerRuns (hr q ((step_aged hs h).dst q hmem hq).1)
  · rcases step_opens handler n hs hq h with ⟨hlt, -⟩ | ⟨rfl, -, m, -, -, hopens⟩
    · exact absurd ((step_wf handler n hs h).dst.lt q hmem) (Nat.not_lt.mpr hlt)
    · exact hopens.timerRuns hmem

theorem timerRuns_steps {svc : σ} {tid : UInt16} {is : List (Input σ)}
    (h : Steps (step handler n) (Node.initial svc tid) is s) :
    s.WF ∧ ∀ q ∈ s.dst, TimerRuns (s.dsts.get q) :=
  h.induct (P := fun s => s.WF ∧ ∀ q ∈ s.dst, TimerRuns (s.dsts.get q))
    (fun _ _ _ hs heq => ⟨step_wf handler n hs.1 heq, step_timerRuns hs.1 hs.2 heq⟩)
    ⟨Node.wf_initial svc tid, nofun⟩

end

/-! ## The loop -/

section Loop

variable {C : Type} (cell : Node σ C → Ptr → Transaction S)
  (on : Node σ C → Ptr → (Machine S → Machine S) → Node σ C) (run : Ptr → MOn C σ Unit)

/-- What the pass over the transaction `p` counts down is not zero. -/
def DecPositive (p : Ptr) (s : Node σ C) : Prop :=
  0 < (cell s p).transactionStopWhen ∧ ∀ s₁, decLife cell on run p s = .ok () s₁ →
    (cell s₁ p).ackRequestorStatus = .ongoing → 0 < (cell s₁ p).retransmissionWhen

/-- The same for all the passes the loop makes. -/
def LoopPositive : List Ptr → Node σ C → Prop
  | [], _ => True
  | p :: l, s => DecPositive cell on run p s ∧
    ∀ del s₁, decOne cell on run p s = .ok del s₁ → LoopPositive l s₁

variable {cell on run} {machine : Node σ C → Ptr → Machine S} {ran : Machine S → Machine S}
  {Live Mid Run : Transaction S → Prop} {Frame : Node σ C → Node σ C → Prop}
  {Logged : Owner → Event → Prop}

theorem Counted.loopPositive (h : Counted cell machine on run ran Live Mid Run Frame Logged)
    (hran : ∀ {x : Machine S}, Run x.t → x.t.transactionStopWhen = 0 →
      (ran x).t.ackRequestorStatus = x.t.ackRequestorStatus ∧
        (ran x).t.retransmissionWhen = x.t.retransmissionWhen)
    {l : List Ptr} {s : Node σ C} (hn : l.Nodup) (hl : ∀ p ∈ l, Live (cell s p) ∧
      0 < (cell s p).transactionStopWhen ∧
      ((cell s p).ackRequestorStatus = .ongoing → 0 < (cell s p).retransmissionWhen)) :
    LoopPositive cell on run l s := by
  induction l generalizing s with
  | nil => trivial
  | cons p l ih =>
    obtain ⟨hp, hn⟩ := List.nodup_cons.mp hn
    obtain ⟨hlive, hstop, hpos⟩ := hl p (by simp)
    refine ⟨⟨hstop, fun s₁ h₁ => ?_⟩, fun del s₁ h₁ => ih hn fun q hq => ?_⟩
    · rw [(h.decLife_spec hlive).2.1 s₁ h₁, life]
      rw [← h.machine_t] at hlive hpos
      split_ifs with h0
      · obtain ⟨hstatus, hwhen⟩ := hran (h.life_run hlive h0) h0
        rw [hstatus, hwhen]
        exact hpos
      · exact hpos
    · have hother := (h.decOne_spec hlive).1.other q fun heq => hp (heq ▸ hq)
      rw [h₁] at hother
      rw [show cell s₁ q = cell s q from hother]
      exact hl q (by simp [hq])

end Loop

/-- What a tick counts down is not zero. -/
def TickPositive {C : Type} [Pool.Container C] (process : Ptr → Ptr → MOn C σ Bool)
    (s : Node σ C) : Prop :=
  LoopPositive (fun s => s.srcs.get) Node.onSrc (runSrc process) (Pool.toList s.src) s ∧
  ∀ s₁, decSrc process s = .ok () s₁ →
    LoopPositive (fun s => s.dsts.get) Node.onDst (runDst process) (Pool.toList s₁.dst) s₁

theorem Machine.dstRun_expired {x : Machine DstState} (hl : x.t.state ≠ .init)
    (h0 : x.t.transactionStopWhen = 0) :
    x.dstRun.1.t.ackRequestorStatus = x.t.ackRequestorStatus ∧
      x.dstRun.1.t.retransmissionWhen = x.t.retransmissionWhen := by
  unfold dstRun
  split
  · next hst => exact absurd hst hl
  · simp [dstWaitResponsePrm, h0, dstFailure]
  · unfold dstSendResponse
    split_ifs <;> exact ⟨rfl, rfl⟩
  all_goals exact ⟨rfl, rfl⟩

theorem dst_foldl_delSrc {C : Type} [Pool.Container C] (s : Node σ C) (dels : List Ptr) :
    (dels.foldl Node.delSrc s).dst = s.dst ∧ (dels.foldl Node.delSrc s).dsts = s.dsts := by
  induction dels generalizing s with
  | nil => exact ⟨rfl, rfl⟩
  | cons q dels ih => exact ih (s.delSrc q)

/-- In every state that is reached with containers that have acted as sets, a tick counts nothing
down from zero if every pooled transaction whose requestor is not in use has been in the pool for a
tick before. -/
theorem tick_positive {C : Type} [Pool.Container C] (handler : Handler σ) (n : Nat) (svc : σ)
    (tid : UInt16) {is : List (Input σ)} {s : Node σ (Pool.Tracked C)}
    (hreach : Steps (step handler n) (Node.start svc tid) is s) (hexact : s.Exact)
    (hsrc : ∀ p ∈ Pool.toList s.src, (s.srcs.get p).startAckRequestor = false →
      (s.srcs.get p).transactionStopWhen ≠ 15)
    (hdst : ∀ p ∈ Pool.toList s.dst, (s.dsts.get p).startAckRequestor = false →
      (s.dsts.get p).transactionStopWhen ≠ 15) : TickPositive (processLocked handler) s := by
  obtain ⟨hs, hruns⟩ := timerRuns_steps (hexact.reached hreach)
  refine ⟨(counted_src handler).loopPositive (fun hl _ => ?_) hs.src.nodup fun p hp => ?_,
    fun s₁ h₁ => ?_⟩
  · have hc := clock_srcRan hl
    exact ⟨congrArg Clock.reqStatus hc, congrArg Clock.timer hc⟩
  · have hinv : SrcInv (s.srcs.get p) := hs.src.inv p hp
    refine ⟨hinv.live, hinv.stop.1, fun hon => ?_⟩
    cases hreq : (s.srcs.get p).startAckRequestor with
    | true => exact (hinv.requestor.waiting hreq hon).2
    | false =>
      have hne := hsrc p hp hreq
      have hle := hinv.stop
      rw [(hinv.requestor.unstarted hreq).2]
      omega
  · have hkept : s₁.dst = s.dst ∧ s₁.dsts = s.dsts := by
      obtain ⟨⟨hframe, -⟩, -⟩ := (counted_src handler).decLoop_spec (s := s)
        (l := Pool.toList s.src) hs.src.nodup fun p hp => (hs.src.inv p hp).live
      cases hloop : decLoop (fun s => s.srcs.get) Node.onSrc (runSrc (processLocked handler))
          (Pool.toList s.src) s with
      | error e s₂ => cases (after_of_error hloop).symm.trans h₁
      | ok dels s₂ =>
        cases (after_of_ok hloop).symm.trans h₁
        obtain ⟨hdst, hdsts⟩ := dst_foldl_delSrc s₂ dels
        rw [hloop] at hframe
        exact ⟨hdst.trans hframe.dst, hdsts.trans hframe.dsts⟩
    rw [hkept.1]
    refine (counted_dst _).loopPositive dstRun_expired hs.dst.nodup fun p hp => ?_
    have hinv : DstInv (s.dsts.get p) := hs.dst.inv p hp
    rw [hkept.2]
    refine ⟨hinv.state_ne_init, hinv.stop.1, fun hon => ?_⟩
    rcases hinv.phase with ⟨-, hw⟩ | ⟨-, hreq⟩
    · have hne := hdst p hp hw.requestor
      have hle := hinv.stop
      rw [hw.timer]
      omega
    · exact hruns p hp hreq hon

/-- A request that is not answered before the next tick: its timer is zero and counted down. -/
theorem waiting_not_positive : ¬ TickPositive (processLocked idle)
    (run idle 1 [.recv requestFrom80] (Node.initial () 0)) := by
  rintro ⟨-, h⟩
  exact Nat.lt_irrefl 0 ((h _ rfl).1.2 _ rfl rfl)

/-- After that tick nothing is at zero. -/
theorem tick_positive_idle : TickPositive (processLocked idle)
    (run idle 1 [.recv requestFrom80, .tick]
      (Node.start () 0 : Node Unit (Pool.Tracked (List Ptr)))) :=
  tick_positive idle 1 () 0
    (show Steps (step idle 1) _ [.recv requestFrom80, .tick] _ from
      steps_runAll _ (by decide +kernel))
    (by decide +kernel) (by decide +kernel) (by decide +kernel)

end Odtone.Mihf
