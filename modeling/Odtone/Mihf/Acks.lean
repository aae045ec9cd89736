import Odtone.Mihf.Outgoing

/-! # Acknowledgements are not processed

`message_in` is meant to consume pure acknowledgements. It does so as long as the transaction that
an acknowledgement belongs to is still pooled; a late one, or a second copy of one, opens a
destination transaction and is handed to `process_message` like a message. There are two more ways:
the acknowledgement of an indication that finds a transaction waiting for a response is taken for
the response, and the acknowledgement of a request stays in its transaction as unprocessed input,
where a call of `message_out` that hits the same transaction finds it.

In a run without these cases no acknowledgement is processed. The invariant behind this is that
between two inputs no source transaction is inside `process_message`.
-/

namespace Odtone.Mihf

open Machine Node List Pool MetaMessage

variable {σ : Type} {s s' : Node σ}

/-- An acknowledgement and nothing else. -/
def MetaMessage.PureAck (m : MetaMessage) : Prop :=
  m.ackrsp = true ∧ m.hasServiceSpecificTlv = false
deriving Decidable

/-- The pools have the transaction that an acknowledgement like `m` ends: for a request one that
waits for the response, for an indication one that does not. -/
def MetaMessage.Acknowledges (m : MetaMessage) (src : Option SrcTransaction)
    (dst : Option DstTransaction) : Bool :=
  match m.opcode with
  | .request => src.isSome
  | .indication => src.any (·.state ≠ .waitResponseMsg)
  | .response | .confirm => dst.isSome

/-- A call of `message_in` or `message_out` in which no acknowledgement can get lost: an
acknowledgement finds its transaction, and what `message_out` is given does not find a transaction
with unprocessed input. -/
def Event.Regular : Event → Prop
  | .messageIn _ m src dst => m.PureAck → m.Acknowledges src dst
  | .messageOut _ m src _ => m.opcode = .request ∨ m.opcode = .indication →
      ∀ t ∈ src, t.state ≠ .processMsg ∧ t.msgInAvail = false
  | _ => True

instance : DecidablePred Event.Regular
  | .messageIn _ m src dst => inferInstanceAs (Decidable (m.PureAck → m.Acknowledges src dst))
  | .messageOut _ m src _ =>
    inferInstanceAs (Decidable (m.opcode = .request ∨ m.opcode = .indication →
      ∀ t ∈ src, t.state ≠ .processMsg ∧ t.msgInAvail = false))
  | .send .. | .process .. | .udpSend .. => inferInstanceAs (Decidable True)

/-- Neither a call of `message_in` nor one of `process_message`. -/
def Event.Mute : Event → Prop
  | .messageIn .. | .process .. => False
  | _ => True

/-- No source transaction is inside `process_message`. -/
def Node.Settled (s : Node σ) : Prop := ∀ p ∈ s.src, (s.srcs.get p).state ≠ .processMsg
deriving Decidable

/-- What is logged about incoming messages. Every message is received once, and what is processed
is not an acknowledgement. -/
structure Node.AckLog (s : Node σ) : Prop where
  received : ∀ i m src dst, .messageIn i m src dst ∈ s.log → i < s.msgs.next
  processed : ∀ own i m', .process own i m' ∈ s.log → i < s.msgs.next ∧
    ∀ m src dst, .messageIn i m src dst ∈ s.log → ¬ m.PureAck

/-- The log grows by entries about other things, and no message is freed. -/
structure Node.Mutes (s s' : Node σ) : Prop where
  next : s.msgs.next ≤ s'.msgs.next
  log : ∃ l, s'.log = s.log ++ l ∧ ∀ e ∈ l, e.Mute

theorem Logs.subset (h : Logs s s') : s.log ⊆ s'.log := by
  obtain ⟨l, hl, -⟩ := h
  rw [hl]
  exact subset_append_left s.log l

namespace Node.Mutes

variable {p : Ptr}

theorem of_eq (hn : s.msgs.next ≤ s'.msgs.next) (h : s'.log = s.log) : s.Mutes s' :=
  ⟨hn, [], by simp [h], by simp⟩

theorem trans {s'' : Node σ} (h : s.Mutes s') (h' : s'.Mutes s'') : s.Mutes s'' := by
  obtain ⟨l, hl, he⟩ := h.log
  obtain ⟨l', hl', he'⟩ := h'.log
  refine ⟨h.next.trans h'.next, l ++ l', by rw [hl', hl, append_assoc], fun e hmem => ?_⟩
  exact (mem_append.mp hmem).elim (he e) (he' e)

theorem of_entry {e : Event} (hn : s.msgs.next ≤ s'.msgs.next) (h : s'.log = s.log ++ [e])
    (he : e.Mute) : s.Mutes s' :=
  ⟨hn, [e], h, by simpa using he⟩

theorem of_sent {l : List Event} (hn : s.msgs.next ≤ s'.msgs.next) (h : s'.log = s.log ++ l)
    (he : ∀ e ∈ l, ∃ o, e.SentBy o) : s.Mutes s' := by
  refine ⟨hn, l, h, fun e hmem => ?_⟩
  obtain ⟨o, why, p, m, -, rfl⟩ := he e hmem
  trivial

theorem of_apart (h : s.Apart s') : s.Mutes s' := by
  obtain ⟨l, hl, he⟩ := h.log
  refine ⟨h.msgs, l, hl, fun e hmem => ?_⟩
  obtain ⟨p, m, rfl⟩ := he e hmem
  trivial

variable {x : Machine SrcState}

theorem putSrc (h : (s.srcMachine p).Moves x) : s.Mutes (s.putSrc p x) := by
  obtain ⟨l, hl, he⟩ := h.log
  exact of_sent h.next.ge hl fun e hmem => ⟨_, he e hmem⟩

theorem putDst {x : Machine DstState} (h : (s.dstMachine p).Moves x) : s.Mutes (s.putDst p x) := by
  obtain ⟨l, hl, he⟩ := h.log
  exact of_sent h.next.ge hl fun e hmem => ⟨_, he e hmem⟩

theorem delFinishedSrc (h : s.Mutes s') : s.Mutes (s'.delFinishedSrc p) :=
  h.trans (of_eq (by simp) (by simp))

theorem delFinishedDst (h : s.Mutes s') : s.Mutes (s'.delFinishedDst p) :=
  h.trans (of_eq (by simp) (by simp))

theorem poolDst (h : s.Mutes s') : s.Mutes (s'.poolDst p) := h.trans (of_eq (by simp) (by simp))

end Node.Mutes

/-! ## The machines -/

namespace Machine

variable {x : Machine SrcState} {i o : Ptr}

theorem srcRunIfOngoing_snd (h : Idle x.t) : x.srcRunIfOngoing.2 = false := by
  unfold srcRunIfOngoing
  split
  · exact h.srcRun_snd
  · rfl

/-- A message submitted to a transaction does not give it anything to process. -/
theorem out_noInput (h : x.t.msgInAvail = false) : (x.out o).t.msgInAvail = false := by
  unfold out
  obtain ⟨st, status, timer, ctr, ht⟩ := (requests_startedAckRequestor (x.submit o)).t
  by_contra hin
  obtain ⟨heq, -⟩ :=
    startedAckResponder_of_avail (x := (x.submit o).startedAckRequestor) (by simpa using hin)
  rw [heq, ht] at hin
  exact hin h

theorem idle_out (h : SrcInv x.t) (hst : x.t.state ≠ .processMsg) (hin : x.t.msgInAvail = false) :
    Idle (x.out o).t := by
  have hcourse := sameCourse_out (x := x) o
  exact ⟨hcourse.state ▸ h.live, hcourse.state ▸ hst, fun _ => .inr (out_noInput hin)⟩

theorem srcIn_inMsg (x : Machine SrcState) (i : Ptr) : (x.srcIn i).t.inMsg = i := by
  unfold srcIn
  obtain ⟨st, status, timer, ctr, hreq⟩ := (requests_startedAckRequestor (x.receive i)).t
  obtain ⟨avail, st', dup, ack, hrsp⟩ :=
    (responds_startedAckResponder (x.receive i).startedAckRequestor).t
  rw [hrsp, hreq]
  rfl

/-- What a machine calls `process_message` for is its input. -/
theorem srcRun_inMsg (hlive : x.t.state ≠ .init) (h : x.srcRun.2 = true) :
    x.srcRun.1.t.inMsg = x.t.inMsg := by
  have hproc : ∀ y : Machine SrcState, y.srcProcessMsg.t.inMsg = y.t.inMsg := fun y => by
    unfold srcProcessMsg
    extract_lets z
    obtain ⟨avail, st, dup, ack, ht⟩ := (responds_startedAckResponder z).t
    rw [ht]
    rfl
  unfold srcRun at h ⊢
  split at h
  · next hst => exact absurd hst hlive
  · unfold srcWaitResponseMsg at h ⊢
    dsimp only at h ⊢
    split_ifs at h ⊢
    exact hproc _
  · cases h
  · exact hproc x
  · cases h
  · cases h

end Machine

/-! ## `message_out` -/

section

variable {o p : Ptr}

theorem Node.outSrcRun_snd (hinv : SrcInv (s.srcs.get p))
    (hst : (s.srcs.get p).state ≠ .processMsg) (hin : (s.srcs.get p).msgInAvail = false) :
    (s.outSrcRun o p).2 = false :=
  srcRunIfOngoing_snd (idle_out (x := (s.logOut o).srcMachine p) hinv hst hin)

/-- In a regular call of `message_out` no transaction processes anything. -/
theorem Node.OutSrc.snd (h : s.OutSrc o p) (hs : s.WF) (hreg : (s.outEvent o).Regular) :
    (s.outSrcRun o p).2 = false := by
  have hop : ((s.logOut o).msgs.get o).opcode = s.outOp o := outOp_logOut s o
  have hfind : (s.findSrc (s.outKey o)).map s.srcs.get = some (s.srcs.get p) := by
    rw [h.2]
    rfl
  obtain ⟨hst, hin⟩ := hreg (hop ▸ h.1) _ hfind
  exact outSrcRun_snd (hs.src.inv p (mem_of_find h.2)) hst hin

/-- So what is processed in a call of `message_out` shows that it was not regular. -/
theorem Node.OutSrc.absurd_call {C : Prop} (h : s.OutSrc o p) (hs : s.WF)
    (hcall : (s.outSrcRun o p).2 = true)
    (hev : Evolves ((s.logOut o).callSrc p (s.outSrcRun o p).1) s')
    (hreg : ∀ e ∈ s'.log, e.Regular) : C := by
  obtain ⟨hmoves, hwf⟩ := h.called hs
  have hlog := (logs_callSrc hmoves).trans (hev.logs hwf)
  have hmem : s.outEvent o ∈ (s.logOut o).log := by simp [s.logOut_log o]
  rw [h.snd hs (hreg _ (hlog.subset hmem))] at hcall
  cases hcall

theorem Node.mutes_logOut (s : Node σ) (o : Ptr) : s.Mutes (s.logOut o) :=
  .of_entry le_rfl (s.logOut_log o) trivial

/-- A source transaction is inside `process_message` only if it was before. -/
def Node.KeepsSettled (s s' : Node σ) : Prop :=
  ∀ q ∈ s'.src, (s'.srcs.get q).state = .processMsg → q ∈ s.src ∧ (s.srcs.get q).state = .processMsg

theorem Node.KeepsSettled.of_eq (h : s'.srcs = s.srcs) (h' : s'.src = s.src) :
    s.KeepsSettled s' := fun q hq hst => ⟨h' ▸ hq, by rwa [h] at hst⟩

theorem Node.processMsg_putSrc {q : Ptr} (hst : x.t.state ≠ .processMsg)
    (hq : q ∈ ((s.putSrc p x).delFinishedSrc p).src)
    (hproc : (((s.putSrc p x).delFinishedSrc p).srcs.get q).state = .processMsg) :
    q ≠ p ∧ q ∈ s.src ∧ (s.srcs.get q).state = .processMsg := by
  simp only [delFinishedSrc_srcs, putSrc] at hproc
  by_cases hqp : q = p
  · rw [hqp, Store.get_set_self] at hproc
    exact absurd hproc hst
  · rw [Store.get_set_of_ne hqp] at hproc
    exact ⟨hqp, (sublist_delFinishedSrc (s.putSrc p x) p).subset hq, hproc⟩

theorem Node.keepsSettled_putSrc (hst : x.t.state ≠ .processMsg) :
    s.KeepsSettled ((s.putSrc p x).delFinishedSrc p) :=
  fun _ hq hproc => (processMsg_putSrc hst hq hproc).2

theorem Node.keepsSettled_startSrc (hs : s.SrcWF) (hop : s.outOp o ≠ .confirm) :
    s.KeepsSettled (s.startSrc o) := by
  intro q hq hproc
  have hold : q ∈ s.src → q ∈ s.src ∧ (s.srcs.get q).state = .processMsg := by
    intro hq
    rw [startSrc_srcs, Store.get_push_of_lt (hs.lt q hq)] at hproc
    exact ⟨hq, hproc⟩
  rw [startSrc_src] at hq
  split at hq
  · next hon =>
      rcases mem_add hq with rfl | hq
      · rw [startSrc_srcs, Store.get_push_next] at hproc
        exact absurd hproc ((newCell_spec hop).2.2 hon).2
      · exact hold hq
  · exact hold hq

/-- A regular call of `process_message` does not lead to another one. -/
theorem Evolves.mutes (h : Evolves s s') (hs : s.WF) (hreg : ∀ e ∈ s'.log, e.Regular) :
    s.Mutes s' ∧ s.KeepsSettled s' := by
  induction h with
  | refl s => exact ⟨.of_eq le_rfl rfl, .of_eq rfl rfl⟩
  | @trans s s₁ s₂ h h' ih ih' =>
    have hs₁ := h.wf hs
    obtain ⟨hm, hk⟩ := ih hs fun e he => hreg e ((h'.logs hs₁).subset he)
    obtain ⟨hm', hk'⟩ := ih' hs₁ hreg
    refine ⟨hm.trans hm', fun q hq hst => ?_⟩
    obtain ⟨hq, hst⟩ := hk' q hq hst
    exact hk q hq hst
  | apart h => exact ⟨.of_apart h, .of_eq h.srcs h.src⟩
  | outConfirm s o _ => exact ⟨s.mutes_logOut o, .of_eq rfl rfl⟩
  | @outNew s o h =>
    have hstart : (s.logOut o).Mutes ((s.logOut o).startSrc o) :=
      .of_entry (grows_startSrc _ o).msgs ((s.logOut o).startSrc_log o) trivial
    refine ⟨(s.mutes_logOut o).trans hstart, ?_⟩
    exact keepsSettled_startSrc (s := s.logOut o) (hs.logOut o).src h.not_confirm
  | @outDst s o p h =>
    have hinv := hs.dst.inv p (mem_of_find h.2)
    have hrun := Mutes.putDst (outDstRun_spec (o := o) hinv).1
    exact ⟨(s.mutes_logOut o).trans hrun.delFinishedDst, .of_eq (by simp; rfl) (by simp; rfl)⟩
  | @outSrc s o p h hcall =>
    have hinv := hs.src.inv p (mem_of_find h.2)
    obtain ⟨hmoves, -, hiff⟩ := outSrcRun_spec hinv
    refine ⟨(s.mutes_logOut o).trans (Mutes.putSrc hmoves).delFinishedSrc, ?_⟩
    refine keepsSettled_putSrc fun hst => ?_
    rw [hiff.mpr hst] at hcall
    cases hcall
  | @outCall s s₁ o p h hcall h' _ =>
    exact h.absurd_call hs hcall h' fun e he => hreg e ((logs_resumeSrc s₁ p).subset he)
  | outThrow h hcall h' _ => exact h.absurd_call hs hcall h' hreg

end

/-! ## `message_in` -/

/-- The entry of `message_in` in the log. -/
def Node.inEvent {C : Type} [Container C] (s : Node σ C) (i : Ptr) : Event :=
  .messageIn i (s.msgs.get i) ((s.findSrc (s.inKey i)).map s.srcs.get)
    ((s.findDst (s.inKey i)).map s.dsts.get)

theorem Node.logIn_log {C : Type} [Container C] (s : Node σ C) (i : Ptr) :
    (s.logIn i).log = s.log ++ [s.inEvent i] := rfl

/-- While the message `i` is being handled, which was `m` when it came in. -/
structure Node.Handling (s : Node σ) (i : Ptr) (m : MetaMessage) : Prop extends s.AckLog where
  lt : i < s.msgs.next
  only : ∀ m' src dst, .messageIn i m' src dst ∈ s.log → m' = m

section

variable {i p : Ptr} {m : MetaMessage}

theorem Node.Mutes.mem (h : s.Mutes s') {e : Event} (he : ¬ e.Mute) (hmem : e ∈ s'.log) :
    e ∈ s.log := by
  obtain ⟨l, hl, hmute⟩ := h.log
  rw [hl] at hmem
  exact (mem_append.mp hmem).resolve_right fun hmem => he (hmute e hmem)

theorem Node.AckLog.mutes (h : s.AckLog) (hm : s.Mutes s') : s'.AckLog where
  received i m src dst hmem := (h.received i m src dst (hm.mem id hmem)).trans_le hm.next
  processed own i m' hmem := by
    obtain ⟨hlt, hno⟩ := h.processed own i m' (hm.mem id hmem)
    exact ⟨hlt.trans_le hm.next, fun m src dst hmem => hno m src dst (hm.mem id hmem)⟩

theorem Node.Handling.mutes (h : s.Handling i m) (hm : s.Mutes s') : s'.Handling i m :=
  ⟨h.toAckLog.mutes hm, h.lt.trans_le hm.next,
    fun m' src dst hmem => h.only m' src dst (hm.mem id hmem)⟩

/-- A message that is not an acknowledgement is handed to `process_message`. -/
theorem Node.Handling.process (h : s.Handling i m) (own : Owner) (m' : MetaMessage)
    (hlog : s'.log = s.log ++ [.process own i m']) (hn : s.msgs.next ≤ s'.msgs.next)
    (hm : ¬ m.PureAck) : s'.AckLog := by
  have hold : ∀ {i' m' src dst}, .messageIn i' m' src dst ∈ s'.log →
      .messageIn i' m' src dst ∈ s.log := fun hmem => by
    rw [hlog] at hmem
    simpa using hmem
  refine ⟨fun i m src dst hmem => (h.received i m src dst (hold hmem)).trans_le hn, ?_⟩
  intro own' i' m'' hmem
  rw [hlog, mem_append, mem_singleton] at hmem
  rcases hmem with hmem | heq
  · obtain ⟨hlt, hno⟩ := h.processed own' i' m'' hmem
    exact ⟨hlt.trans_le hn, fun m src dst hmem => hno m src dst (hold hmem)⟩
  · cases heq
    refine ⟨h.lt.trans_le hn, fun m₁ src dst hmem => ?_⟩
    rw [h.only m₁ src dst (hold hmem)]
    exact hm

theorem Node.AckLog.handling (h : s.AckLog) (m : MetaMessage) :
    ((s.received m).logIn s.msgs.next).Handling s.msgs.next m := by
  have hmsg : (s.received m).msgs.get s.msgs.next = m := Store.get_push_next
  have hlog : ((s.received m).logIn s.msgs.next).log =
      s.log ++ [(s.received m).inEvent s.msgs.next] := rfl
  have hin : ∀ {i m' src dst}, .messageIn i m' src dst ∈ ((s.received m).logIn s.msgs.next).log →
      .messageIn i m' src dst ∈ s.log ∨ i = s.msgs.next ∧ m' = m := by
    intro i m' src dst hmem
    rw [hlog, mem_append, mem_singleton] at hmem
    refine hmem.imp_right fun heq => ?_
    simp only [inEvent, Event.messageIn.injEq] at heq
    exact ⟨heq.1, heq.2.1.trans hmsg⟩
  refine ⟨⟨fun i m' src dst hmem => ?_, fun own i m' hmem => ?_⟩, Nat.lt_succ_self _, ?_⟩
  · rcases hin hmem with hmem | ⟨rfl, -⟩
    · exact (h.received i m' src dst hmem).trans (Nat.lt_succ_self _)
    · exact Nat.lt_succ_self _
  · rw [hlog, mem_append, mem_singleton] at hmem
    obtain ⟨hlt, hno⟩ := h.processed own i m' (hmem.resolve_right (by simp [inEvent]))
    refine ⟨hlt.trans (Nat.lt_succ_self _), fun m₁ src dst hmem => ?_⟩
    exact hno m₁ src dst ((hin hmem).resolve_right fun heq => hlt.ne heq.1)
  · intro m' src dst hmem
    rcases hin hmem with hmem | ⟨-, rfl⟩
    · exact absurd (h.received _ m' src dst hmem) (lt_irrefl _)
    · rfl

/-- A regular message for a source transaction that processes it is not an acknowledgement. -/
theorem Node.InSrc.not_pureAck (h : s.InSrc i p) (hack : ¬ s.InAck i) (hs : s.WF)
    (hset : s.Settled) (hreg : (s.inEvent i).Regular) (hcall : (s.inSrcRun i p).2 = true) :
    ¬ (s.msgs.get i).PureAck := by
  intro hpure
  have hp := mem_of_find h.2
  have hind : (s.msgs.get i).opcode = .indication := by
    have hfor := h.1
    rw [ForSource, hpure.1, hpure.2] at hfor
    have hne : (s.msgs.get i).opcode ≠ .request := fun hop => hack ⟨hpure.1, hop⟩
    simpa [hne] using hfor
  have hfind : (s.findSrc (s.inKey i)).map s.srcs.get = some (s.srcs.get p) := by
    rw [h.2]
    rfl
  have hwait : (s.srcs.get p).state ≠ .waitResponseMsg := by
    have hack : (s.msgs.get i).Acknowledges _ _ := hreg hpure
    rw [Acknowledges, hind, hfind] at hack
    simpa using hack
  have hcourse := sameCourse_srcIn (x := (s.logIn i).srcMachine p) i
  have hidle : Idle (((s.logIn i).srcMachine p).srcIn i).t :=
    ⟨hcourse.state ▸ (hs.src.inv p hp).live, hcourse.state ▸ hset p hp,
      fun hst => absurd (hcourse.state ▸ hst) hwait⟩
  rw [inSrcRun, srcRunIfOngoing_snd hidle] at hcall
  cases hcall

/-- A regular message that finds no transaction is not an acknowledgement. -/
theorem Node.InNew.not_pureAck (h : s.InNew i) (hreg : (s.inEvent i).Regular) :
    ¬ (s.msgs.get i).PureAck := by
  intro hpure
  have hack : (s.msgs.get i).Acknowledges _ _ := hreg hpure
  unfold Acknowledges at hack
  rcases h with ⟨hfor, hfind⟩ | ⟨hfor, hfind⟩
  all_goals
    rw [ForSource, hpure.1, hpure.2] at hfor
    cases hop : (s.msgs.get i).opcode <;> simp [hop, hfind] at hack hfor

/-- What is processed for a source transaction is the message that came in. -/
theorem Node.InSrc.inMsg (h : s.InSrc i p) (hs : s.WF) (hcall : (s.inSrcRun i p).2 = true) :
    (s.inSrcRun i p).1.t.inMsg = i := by
  have hlive : (((s.logIn i).srcMachine p).srcIn i).t.state ≠ .init := by
    rw [(sameCourse_srcIn i).state]
    exact (hs.src.inv p (mem_of_find h.2)).live
  unfold inSrcRun srcRunIfOngoing at hcall ⊢
  split at hcall
  · next hon =>
      rw [if_pos hon, srcRun_inMsg hlive hcall, srcIn_inMsg]
  · cases hcall

theorem Node.Handling.srcCall (h : s.Handling i m)
    (hx : (s.srcMachine p).Moves x) (hin : x.t.inMsg = i) (hm : ¬ m.PureAck) :
    (s.callSrc p x).AckLog := by
  refine (h.mutes (.putSrc hx)).process ⟨.src, p, x.t.key⟩ x.inMsg ?_ le_rfl hm
  rw [← hin]
  rfl

theorem Node.Handling.newCall (h : (s.logIn i).Handling i m) (hm : ¬ m.PureAck) :
    (s.inNewCall i).AckLog := by
  refine h.process ⟨.dst, s.dsts.next, (s.inNewInit i).t.key⟩ (s.inNewInit i).inMsg ?_ ?_ hm
  · have hin := s.inNewInit_inMsg i
    change _ ++ [Event.process _ (s.inNewInit i).t.inMsg _] = _
    rw [hin]
    rfl
  · rw [inNewCall_msgs]
    exact Nat.le_succ _

theorem Node.Settled.of_keeps (h : s.Settled) (hk : s.KeepsSettled s') : s'.Settled :=
  fun q hq hst => h q (hk q hq hst).1 (hk q hq hst).2

/-- `message_in` does not hand an acknowledgement to `process_message`. -/
theorem Incoming.acks {process : Ptr → Ptr → M σ Bool} {r : EStateM.Result Fault (Node σ) Unit}
    (hproc : ∀ i o, Keeps EvolvesWF (process i o)) (h : Incoming process s i r) (hs : s.WF)
    (hset : s.Settled) (hin : (s.logIn i).Handling i (s.msgs.get i))
    (hreg : ∀ e ∈ r.state.log, e.Regular) : r.state.AckLog ∧ ∀ s', r = .ok () s' → s'.Settled := by
  have hevent : (s.inEvent i).Regular := by
    refine hreg _ ((h.logs hproc hs).subset ?_)
    rw [logIn_log]
    exact mem_append_right _ (mem_singleton_self _)
  cases h with
  | @ack p hsrc _ =>
    have hmoves := moves_srcIn ((s.logIn i).srcMachine p) i
    have hst : (((s.logIn i).srcMachine p).srcIn i).t.state ≠ .processMsg := by
      rw [(sameCourse_srcIn i).state]
      exact hset p (mem_of_find hsrc.2)
    refine ⟨hin.toAckLog.mutes (Mutes.putSrc hmoves).delFinishedSrc, ?_⟩
    rintro _ ⟨⟩
    exact hset.of_keeps (keepsSettled_putSrc (s := s.logIn i) hst)
  | @src p hsrc _ hcall =>
    obtain ⟨hmoves, -, hiff⟩ := inSrcRun_spec (hs.src.inv p (mem_of_find hsrc.2))
    refine ⟨hin.toAckLog.mutes (Mutes.putSrc hmoves).delFinishedSrc, ?_⟩
    rintro _ ⟨⟩
    refine hset.of_keeps (keepsSettled_putSrc fun hst => ?_)
    rw [hiff.mpr hst] at hcall
    cases hcall
  | @srcCall p rsp s₁ hsrc hack hcall hres =>
    obtain ⟨hmoves, hwf, hev⟩ := hsrc.called hproc hs hres
    have hresume := moves_srcResume (s₁.srcMachine p)
    have hreg₁ : ∀ e ∈ s₁.log, e.Regular := fun e he =>
      hreg e ((logs_resumeSrc s₁ p).subset he)
    obtain ⟨hmutes, hkeeps⟩ := hev.mutes hwf hreg₁
    have hcalled := hin.srcCall hmoves (hsrc.inMsg hs hcall)
      (hsrc.not_pureAck hack hs hset hevent hcall)
    refine ⟨(hcalled.mutes hmutes).mutes (Mutes.putSrc hresume).delFinishedSrc, ?_⟩
    rintro _ ⟨⟩ q hq hst
    obtain ⟨hne, hq, hst⟩ := processMsg_putSrc (s₁.srcMachine p).srcResume_state_ne hq hst
    obtain ⟨hq, hst⟩ := hkeeps q hq hst
    have hother : ((s.logIn i).callSrc p (s.inSrcRun i p).1).srcs.get q = s.srcs.get q :=
      Store.get_set_of_ne hne
    exact hset q hq (hother ▸ hst)
  | @srcThrow p e s₁ hsrc hack hcall hres =>
    obtain ⟨hmoves, hwf, hev⟩ := hsrc.called hproc hs hres
    have hcalled := hin.srcCall hmoves (hsrc.inMsg hs hcall)
      (hsrc.not_pureAck hack hs hset hevent hcall)
    exact ⟨hcalled.mutes (hev.mutes hwf hreg).1, by simp⟩
  | @dst p hdst =>
    have hmoves := (inDstRun_spec (i := i) (hs.dst.inv p (mem_of_find hdst.2))).1
    refine ⟨hin.toAckLog.mutes (Mutes.putDst hmoves).delFinishedDst, ?_⟩
    rintro _ ⟨⟩
    exact hset.of_keeps (.of_eq (by simp; rfl) (by simp; rfl))
  | @new rsp s₁ hnew hres =>
    have hev : Evolves _ s₁ := (hproc _ _).result hres hs.inNewCall.dst
    have hresume := moves_dstResume (s₁.dstMachine s.dsts.next) rsp
    have hlogs : Logs s₁
        ((s₁.onDst s.dsts.next (dstResume · rsp)).poolDst s.dsts.next) :=
      .of_moves hresume rfl (poolDst_log ..)
    have hreg₁ : ∀ e ∈ s₁.log, e.Regular := fun e he => hreg e (hlogs.subset he)
    obtain ⟨hmutes, hkeeps⟩ := hev.mutes hs.inNewCall hreg₁
    have hcalled := hin.newCall (hnew.not_pureAck hevent)
    refine ⟨(hcalled.mutes hmutes).mutes (Mutes.putDst hresume).poolDst, ?_⟩
    rintro _ ⟨⟩
    have hset₁ : s₁.Settled := hset.of_keeps hkeeps
    exact hset₁.of_keeps (.of_eq (by simp; rfl) (by simp; rfl))
  | @newThrow e s₁ hnew hres =>
    have hev : Evolves _ s₁ := (hproc _ _).result hres hs.inNewCall.dst
    have hcalled := hin.newCall (hnew.not_pureAck hevent)
    exact ⟨hcalled.mutes (hev.mutes hs.inNewCall hreg).1, by simp⟩

end

/-! ## Ticks and runs -/

theorem TickOf.settled {t t' : SrcTransaction} {del : Bool} (h : TickOf srcRan t del t')
    (hinv : SrcInv t) (hst : t.state ≠ .processMsg) : t'.state ≠ .processMsg := by
  obtain ⟨x, y, rfl, hy, rfl, -⟩ := h
  have hhalf : Halfway y.t := hy ▸ halfway_life hinv hst
  exact hhalf.timer_state

theorem Node.SrcTicked.settled (h : s.SrcTicked s') (hs : s.WF) (hset : s.Settled) :
    s'.Settled := by
  intro p hp
  have hp' : p ∈ s.src := h.pool.subset hp
  obtain ⟨del, -, htick⟩ := h.ticked p hp'
  exact htick.settled (hs.src.inv p hp') (hset p hp')

theorem mutes_tick (handler : Handler σ) (hs : s.WF) (hset : s.Settled) :
    s.Mutes (tick (processLocked handler) s).state := by
  obtain ⟨hn, es, hlog, hes⟩ := decSrc_settled handler hs.src hset
  have hsrc : s.Mutes (decSrc (processLocked handler) s).state := by
    refine .of_sent hn hlog fun e he => ?_
    obtain ⟨p, -, -, he⟩ := hes e he
    exact ⟨_, he⟩
  unfold tick
  cases heq : decSrc (processLocked handler) s with
  | error e s₁ =>
    rw [heq] at hsrc
    exact hsrc
  | ok _ s₁ =>
    rw [heq] at hsrc
    have hwf := ((decSrc_spec handler hs.src).2 s₁ heq).wf hs
    obtain ⟨hn', ⟨es', hlog', hes'⟩, -⟩ := decDst_spec (processLocked handler) hwf.dst
    refine hsrc.trans (.of_sent hn' hlog' fun e he => ?_)
    obtain ⟨p, -, -, he⟩ := hes' e he
    exact ⟨_, he⟩

/-- What a regular reaction preserves. -/
theorem step_acks (handler : Handler σ) (n : Nat) (i : Input σ) (hs : s.WF) (hset : s.Settled)
    (hlog : s.AckLog) (hreg : ∀ e ∈ (step handler n i s).state.log, e.Regular) :
    (step handler n i s).state.AckLog ∧ ∀ s', step handler n i s = .ok () s' → s'.Settled := by
  cases i with
  | recv m =>
    have hmsg : (s.received m).msgs.get s.msgs.next = m := Store.get_push_next
    refine (recv_incoming handler n m hs.dst).acks (process_evolves handler n)
      (hs.apart (s.apart_received m)) hset ?_ hreg
    rw [hmsg]
    exact hlog.handling m
  | act x =>
    obtain ⟨hmutes, hkeeps⟩ := (act_evolves handler n x hs.dst).mutes hs hreg
    refine ⟨hlog.mutes hmutes, fun s' heq => ?_⟩
    rw [heq] at hkeeps
    exact hset.of_keeps hkeeps
  | tick =>
    refine ⟨hlog.mutes (mutes_tick handler hs hset), fun s' heq => ?_⟩
    obtain ⟨s₁, hsrc, hdst⟩ := tick_ok hs heq
    exact (hsrc.settled hs hset).of_keeps (.of_eq hdst.srcs hdst.src)

/-- What holds between the inputs of a run, and while it is regular. -/
def Node.Orderly (s : Node σ) : Prop :=
  s.WF ∧ ((∀ e ∈ s.log, e.Regular) → s.Settled ∧ s.AckLog)

namespace Node.Orderly

variable (handler : Handler σ) (n : Nat) (i : Input σ)

theorem acks (h : s.Orderly) (hreg : ∀ e ∈ (step handler n i s).state.log, e.Regular) :
    (step handler n i s).state.AckLog ∧ ∀ s', step handler n i s = .ok () s' → s'.Settled := by
  obtain ⟨hset, hlog⟩ := h.2 fun e he => hreg e ((logs_step handler n i h.1).subset he)
  exact step_acks handler n i h.1 hset hlog hreg

theorem next (h : s.Orderly) (heq : step handler n i s = .ok () s') : s'.Orderly := by
  refine ⟨step_wf handler n h.1 heq, fun hreg => ?_⟩
  have hacks := h.acks handler n i
  rw [heq] at hacks
  obtain ⟨hlog, hset⟩ := hacks hreg
  exact ⟨hset s' rfl, hlog⟩

theorem initial (svc : σ) (tid : UInt16) : (initial svc tid).Orderly :=
  ⟨wf_initial svc tid, fun _ => ⟨by simp [Settled], by simp [Node.start], by simp [Node.start]⟩⟩

end Node.Orderly

theorem ackLog_run (handler : Handler σ) (n : Nat) (is : List (Input σ)) (svc : σ) (tid : UInt16)
    (hreg : ∀ e ∈ (run handler n is (initial svc tid)).log, e.Regular) :
    (run handler n is (initial svc tid)).AckLog :=
  EStateM.runAll_induct (P := Node.Orderly) (fun i _ _ h heq => h.next handler n i heq)
    (fun i _ h hreg => (h.acks handler n i hreg).1) (fun _ h hreg => (h.2 hreg).2) is
    (.initial svc tid) hreg

/-- A run in which every acknowledgement finds its transaction, and `message_out` none with input,
hands no pure acknowledgement to `process_message`. -/
theorem pureAck_not_processed (handler : Handler σ) (n : Nat) (svc : σ) (tid : UInt16)
    (is : List (Input σ)) (hreg : ∀ e ∈ (run handler n is (Node.initial svc tid)).log, e.Regular)
    {i : Ptr} {m : MetaMessage} {src : Option SrcTransaction} {dst : Option DstTransaction}
    (hin : .messageIn i m src dst ∈ (run handler n is (Node.initial svc tid)).log)
    (hm : m.PureAck) (own : Owner) (m' : MetaMessage) :
    .process own i m' ∉ (run handler n is (Node.initial svc tid)).log := fun hproc =>
  ((ackLog_run handler n is svc tid hreg).processed own i m' hproc).2 m src dst hin hm

/-- The acknowledgement that the peer `[80]` sends for the first request of a node. -/
def ackFrom80 : MetaMessage := { mid := 0x1401, tid := 1, ackrsp := true, source := [80] }

/-- The response that the peer `[80]` sends to it. -/
def responseFrom80 : MetaMessage :=
  { mid := 0x1801, tid := 1, ackrsp := true, source := [80], payload := [3, 1, 0] }

theorem pureAck_not_processed_first :
    .process ⟨.dst, 1, [80], 1⟩ 2 ackFrom80 ∉ (run idle 1
      [.submit (requestTo80 5), .recv ackFrom80, .recv responseFrom80] (Node.initial () 0)).log :=
  pureAck_not_processed idle 1 () 0 [.submit (requestTo80 5), .recv ackFrom80, .recv responseFrom80]
    (by decide +kernel)
    (show Event.messageIn 2 ackFrom80 (some
      { state := .waitResponseMsg, opcode := .request, mid := 0x1401, transactionStopWhen := 15
        retransmissionWhen := 5, tid := 1, peerMihfId := [80], outMsg := 1, msgOutAvail := true
        startAckRequestor := true, ackReqState := .waitAck }) none ∈ _ by decide +kernel)
    (by decide) _ _

/-- What `process_message` is called with. -/
def Event.processed : Event → Option MetaMessage
  | .process _ _ m => some m
  | _ => none

/-- The response ends the transaction. When the acknowledgement comes after it, nothing waits for it
any more and it is processed as a new request. -/
theorem late_pureAck_processed :
    ackFrom80.PureAck ∧
    (run idle 1 [.submit (requestTo80 5), .recv responseFrom80, .recv ackFrom80]
      (Node.initial () 0)).log.filterMap Event.processed = [responseFrom80, ackFrom80] := by
  decide +kernel

end Odtone.Mihf
