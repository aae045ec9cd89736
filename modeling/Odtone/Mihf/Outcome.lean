import Odtone.Mihf.Retransmission

/-! # Outcomes of source transactions

`run()` is called again and again, also for a transaction that has come to an end: by `message_in`,
by `message_out`, from inside `process_message` and by a tick. None of it takes an outcome back. The
state of the machine and `transaction_status` say the same, and in the two final states a run does
nothing.
-/

namespace Odtone.Mihf

open Machine List

variable {σ S : Type}

/-! ## State and status -/

/-- The status that belongs to a state. -/
def SrcState.status : SrcState → Status
  | .success => .success
  | .failure => .failure
  | .init | .waitResponseMsg | .waitAck | .processMsg => .ongoing

/-- State and status say the same. -/
def Told (t : SrcTransaction) : Prop := t.transactionStatus = t.state.status

theorem Told.over {t : SrcTransaction} (h : Told t) (hover : t.transactionStatus ≠ .ongoing) :
    t.state = .success ∨ t.state = .failure := by
  unfold Told at h
  cases hst : t.state with
  | success => exact .inl rfl
  | failure => exact .inr rfl
  | init | waitResponseMsg | waitAck | processMsg => simp [h, hst, SrcState.status] at hover

/-- Where a transaction may stand when `process_message` has been called for it and has not returned
yet, whatever the handler has done: it can be run again and come to its end, or, if it is multicast
and has time left, go on waiting. -/
def Inside (t : SrcTransaction) : Prop :=
  t.state = .processMsg ∨
  t.state = .success ∧ (t.isMulticast = true → t.transactionStopWhen = 0) ∨
  t.state = .waitResponseMsg ∧ t.isMulticast = true ∧ t.transactionStopWhen ≠ 0

namespace Machine

section

variable {x y : Machine SrcState}

theorem SameCourse.told (h : SameCourse x y) (ht : Told x.t) : Told y.t := by
  unfold Told
  rw [h.status, h.state]
  exact ht

theorem SameCourse.inside (h : SameCourse x y) (hin : Inside x.t) : Inside y.t := by
  unfold Inside
  rw [h.multicast, h.stop, h.state]
  exact hin

theorem srcProcessMsg_status : x.srcProcessMsg.t.transactionStatus = x.t.transactionStatus :=
  (SameCourse.startedAckResponder _).status

/-- Behind `_wait_response_msg_lbl_`, with the status still open. -/
theorem told_srcWaitResponseMsg
    (h : x.t.transactionStopWhen ≠ 0 → x.t.transactionStatus = .ongoing) :
    Told x.srcWaitResponseMsg.1.t := by
  unfold srcWaitResponseMsg
  extract_lets y
  split_ifs with hstop hrsp hin
  · rfl
  · rfl
  · unfold Told
    rw [srcProcessMsg_status, srcProcessMsg_state]
    exact h hstop
  · exact h hstop

theorem told_srcWaitAck (h : x.t.transactionStatus = .ongoing) : Told x.srcWaitAck.t := by
  unfold srcWaitAck
  extract_lets y
  split
  · rfl
  · rfl
  · exact h

theorem told_srcRun (hl : x.t.state ≠ .init) (h : Told x.t) : Told x.srcRun.1.t := by
  unfold Told at h
  unfold srcRun
  cases hst : x.t.state with
  | init => exact absurd hst hl
  | waitResponseMsg =>
    rw [hst] at h
    exact told_srcWaitResponseMsg fun _ => h
  | waitAck =>
    rw [hst] at h
    exact told_srcWaitAck h
  | processMsg =>
    rw [hst] at h
    unfold Told
    rw [srcProcessMsg_status, srcProcessMsg_state]
    exact h
  | failure => rfl
  | success => rfl

theorem told_srcRun_init (h : x.t.state = .init) : Told x.srcRun.1.t := by
  simp only [srcRun, h]
  unfold srcInit
  extract_lets o y₁ y₂
  have hcourse : SameCourse (y₁.send .initial y₁.t.outMsg) y₂ := .startedAckRequestor _
  have hon : y₂.t.transactionStatus = .ongoing := hcourse.status
  clear_value y₂
  cases y₂.t.opcode with
  | confirm => exact told_srcWaitAck hon
  | request => exact told_srcWaitResponseMsg fun _ => hon
  | response => rfl
  | indication =>
    dsimp only
    split
    · exact told_srcWaitAck hon
    · rfl

theorem told_srcResume (h : Told x.t) (hin : Inside x.t) : Told x.srcResume.t ∧
    (x.t.transactionStatus ≠ .ongoing →
      x.srcResume.t.transactionStatus = x.t.transactionStatus) := by
  unfold srcResume
  extract_lets y
  split
  · next hm =>
      constructor
      · refine told_srcWaitResponseMsg fun hstop => ?_
        change x.t.transactionStatus = .ongoing
        rcases hin with hst | ⟨-, h0⟩ | ⟨hst, -⟩
        · rw [h, hst]
          rfl
        · exact absurd (h0 hm) hstop
        · rw [h, hst]
          rfl
      · intro hover
        rcases hin with hst | ⟨hst, h0⟩ | ⟨hst, -⟩
        · rw [h, hst] at hover
          exact absurd rfl hover
        · rw [h, hst]
          simp [srcWaitResponseMsg, y, h0 hm, srcSuccess, SrcState.status]
        · rw [h, hst] at hover
          exact absurd rfl hover
  · next hm =>
      refine ⟨rfl, fun hover => ?_⟩
      rcases hin with hst | ⟨hst, -⟩ | ⟨-, hm', -⟩
      · rw [h, hst] at hover
        exact absurd rfl hover
      · rw [h, hst]
        rfl
      · exact absurd hm' hm

theorem inside_srcWaitResponseMsg (hm : x.t.isMulticast = true)
    (h : x.t.transactionStopWhen = 0 → x.t.responseReceived = true) :
    Inside x.srcWaitResponseMsg.1.t := by
  unfold srcWaitResponseMsg
  extract_lets y
  split_ifs with hstop hrsp hin
  · exact .inr (.inl ⟨rfl, fun _ => hstop⟩)
  · exact absurd (h hstop) hrsp
  · exact .inl srcProcessMsg_state
  · exact .inr (.inr ⟨rfl, hm, hstop⟩)

theorem inside_srcRun (h : Inside x.t) : Inside x.srcRun.1.t := by
  unfold srcRun
  rcases h with hst | ⟨hst, h0⟩ | ⟨hst, hm, hstop⟩
  · simp only [hst]
    exact .inl srcProcessMsg_state
  · simp only [hst]
    exact .inr (.inl ⟨rfl, h0⟩)
  · simp only [hst]
    exact inside_srcWaitResponseMsg hm fun h0 => absurd h0 hstop

theorem inside_srcResume : Inside x.srcResume.t := by
  unfold srcResume
  extract_lets y
  split
  · next hm => exact inside_srcWaitResponseMsg hm fun _ => rfl
  · next hm => exact .inr (.inl ⟨rfl, fun hm' => absurd hm' hm⟩)

end

end Machine

/-! ## An outcome is final -/

/-- Is the event a call of `process_message`? -/
def Event.isProcess : Event → Bool
  | .process _ _ _ => true
  | _ => false

/-- The calls of `process_message` for a transaction. -/
def Trace.processed (a : Trace S) : List Event := a.deeds.filter Event.isProcess

/-- If the transaction has an outcome in `a`, it has the same in `b`, and `process_message` has not
been called again. -/
def Trace.Final (a b : Trace S) : Prop :=
  a.t.transactionStatus ≠ .ongoing →
    b.t.transactionStatus = a.t.transactionStatus ∧ b.processed = a.processed

/-- A move of the source transaction `p`. -/
inductive Turn (p : Ptr) (a b : Trace SrcState) : Prop
  | out (o : Ptr) : a.Does .src p (fun _ => True) (·.out o) b → Turn p a b
  | input (i : Ptr) {P : Machine SrcState → Prop} : a.Does .src p P (·.srcIn i) b → Turn p a b
  | run : a.Does .src p (fun _ => True) Machine.srcAdvance b → Turn p a b
  | resume : a.Does .src p (fun _ => True) Machine.srcResume b → Turn p a b
  | decStop : a.Does .src p (fun _ => True) Machine.decStop b → Turn p a b
  | decRetransmission : a.Does .src p (fun _ => True) Machine.decRetransmission b → Turn p a b
  | ackRequestor : a.Does .src p (fun _ => True) Machine.ackRequestor b → Turn p a b

/-- The source transaction `p` gets from `a` to `b` in moves none of which takes an outcome back. -/
def Lasts (p : Ptr) : Trace SrcState → Trace SrcState → Prop :=
  Relation.ReflTransGen fun a b => Turn p a b ∧ a.Final b

theorem Lasts.final {p : Ptr} {a b : Trace SrcState} (h : Lasts p a b) : a.Final b := by
  induction h with
  | refl => exact fun _ => ⟨rfl, rfl⟩
  | tail _ h ih =>
    intro hover
    obtain ⟨hst, hp⟩ := ih hover
    obtain ⟨hst', hp'⟩ := h.2 (hst ▸ hover)
    exact ⟨hst'.trans hst, hp'.trans hp⟩

section

variable {a b : Trace S} {d : Side} {p : Ptr} {P : Machine S → Prop} {f : Machine S → Machine S}

theorem filter_isProcess_of_sentBy {l : List Event} {o : Owner} (h : ∀ e ∈ l, e.SentBy o) :
    l.filter Event.isProcess = [] :=
  filter_eq_nil_iff.mpr fun e hmem => by
    obtain ⟨why, q, m, -, rfl⟩ := h e hmem
    simp [Event.isProcess]

theorem Trace.Does.processed (h : a.Does d p P f b)
    (hf : ∀ x : Machine S, x.t = a.t → x.Moves (f x)) : b.processed = a.processed := by
  obtain ⟨x, -, -, ht, -, -, l, hl, hb⟩ := h
  obtain ⟨l', hl', he⟩ := (hf x ht).log
  obtain rfl : l' = l := append_cancel_left (hl'.symm.trans hl)
  unfold Trace.processed
  rw [hb, filter_append, filter_isProcess_of_sentBy he, append_nil]

/-- What does not touch the status is final. -/
theorem Trace.Does.final (h : a.Does d p P f b)
    (hf : ∀ x : Machine S, x.t = a.t → x.Moves (f x) ∧ x.SameCourse (f x)) : a.Final b :=
  fun _ => by
    have hp := h.processed fun x ht => (hf x ht).1
    obtain ⟨x, -, -, ht, -, hb, -⟩ := h
    refine ⟨?_, hp⟩
    rw [hb, ← ht]
    exact (hf x ht).2.status

end

section

variable {O : SrcTransaction → Prop} {p : Ptr} {r : Bool} {a b c : Trace SrcState}

theorem SrcMoves.inside (h : SrcMoves O p r a b) (hin : Inside a.t) : Inside b.t := by
  induction h with
  | refl r a => exact hin
  | trans _ _ ih ih' => exact ih' (ih hin)
  | @out r a b c o _ h _ ih =>
    obtain ⟨x, -, -, ht, -, hb, -⟩ := h
    refine ih ?_
    rw [hb]
    exact (sameCourse_out o).inside (ht ▸ hin)
  | advance h =>
    obtain ⟨x, -, -, ht, -, hb, -⟩ := h
    rw [hb, srcAdvance_t]
    exact inside_srcRun (ht ▸ hin)
  | call _ _ _ h' =>
    obtain ⟨y, -, -, -, -, hd, -⟩ := h'
    rw [hd]
    exact inside_srcResume

/-- A run. In the final states it does nothing. -/
theorem Trace.Does.told_advance (h : a.Does .src p (fun _ => True) srcAdvance b)
    (hl : a.t.state ≠ .init) (ht : Told a.t) : Told b.t ∧ a.Final b := by
  obtain ⟨x, -, -, hx, -, hb, l, hlog, hdeeds⟩ := h
  rw [← hx] at hl ht
  constructor
  · rw [hb, srcAdvance_t]
    exact told_srcRun hl ht
  · intro hover
    rw [← hx] at hover
    have hrun : x.srcRun.2 = false ∧ x.srcRun.1.log = x.log ∧
        x.srcRun.1.t.transactionStatus = x.t.transactionStatus := by
      unfold Told at ht
      rcases Told.over ht hover with hst | hst
      · simp [srcRun, hst, srcSuccess, ht, SrcState.status]
      · simp [srcRun, hst, srcFailure, ht, SrcState.status]
    have hadv : x.srcAdvance = x.srcRun.1 := if_neg (by simp [hrun.1])
    rw [hadv] at hb hlog
    have hnil : l = [] := append_cancel_left ((hlog.symm.trans hrun.2.1).trans (append_nil _).symm)
    refine ⟨?_, ?_⟩
    · rw [hb, hrun.2.2, hx]
    · unfold Trace.processed
      rw [hdeeds, hnil, append_nil]

theorem SrcMoves.told (h : SrcMoves O p r a b) (hl : a.t.state ≠ .init) (ht : Told a.t) :
    Told b.t ∧ Lasts p a b := by
  induction h with
  | refl r a => exact ⟨ht, .refl⟩
  | trans h _ ih ih' =>
    obtain ⟨ht₁, hf₁⟩ := ih hl ht
    obtain ⟨ht₂, hf₂⟩ := ih' (h.key hl).1 ht₁
    exact ⟨ht₂, hf₁.trans hf₂⟩
  | @out r a b c o hO h _ ih =>
    have hm := SrcMoves.out (r := r) hO h (.refl true b)
    have hf := h.final fun x _ => ⟨moves_out x o, sameCourse_out o⟩
    have hturn := Turn.out o h
    obtain ⟨x, -, -, hx, -, hb, -⟩ := h
    have ht₁ : Told b.t := by
      rw [hb]
      exact (sameCourse_out o).told (hx ▸ ht)
    obtain ⟨ht₂, hf₂⟩ := ih (hm.key hl).1 ht₁
    exact ⟨ht₂, .head ⟨hturn, hf⟩ hf₂⟩
  | advance h =>
    obtain ⟨ht₁, hf₁⟩ := h.told_advance hl ht
    exact ⟨ht₁, .single ⟨.run h, hf₁⟩⟩
  | @call a b c d h hst hm h' ih =>
    obtain ⟨ht₁, hf₁⟩ := h.told_advance hl ht
    have hl₁ : b.t.state ≠ .init := by simp [hst]
    obtain ⟨ht₂, hf₂⟩ := ih hl₁ ht₁
    have hin := hm.inside (.inl hst)
    have hp := h'.processed fun x _ => moves_srcResume x
    have hturn := Turn.resume h'
    obtain ⟨y, -, -, hy, -, hd, -⟩ := h'
    rw [← hy] at ht₂ hin
    obtain ⟨ht₃, hf₃⟩ := told_srcResume ht₂ hin
    refine ⟨hd ▸ ht₃, .head ⟨.run h, hf₁⟩ (.tail hf₂ ⟨hturn, fun hover => ⟨?_, hp⟩⟩)⟩
    rw [hd, ← hy]
    exact hf₃ (hy ▸ hover)

theorem Trace.Does.told_in {i : Ptr} {P : Machine SrcState → Prop}
    (h : a.Does .src p P (·.srcIn i) b) (ht : Told a.t) : Told b.t ∧ Lasts p a b := by
  have hf := h.final fun x _ => ⟨moves_srcIn x i, sameCourse_srcIn i⟩
  have hturn := Turn.input i h
  obtain ⟨x, -, -, hx, -, hb, -⟩ := h
  refine ⟨?_, .single ⟨hturn, hf⟩⟩
  rw [hb]
  exact (sameCourse_srcIn i).told (hx ▸ ht)

variable (hl : a.t.state ≠ .init) (ht : Told a.t)
include hl ht

theorem LifeBeat.told (h : LifeBeat p a b) : Told b.t ∧ Lasts p a b := by
  obtain ⟨a₁, hdoes, hm, -⟩ := h
  have hp := hdoes.processed fun x _ => .assign _ rfl rfl
  have ht₁ := hdoes.decStop_t
  obtain ⟨ht₂, hf₂⟩ := hm.told (by rw [ht₁]; exact hl) (by rw [ht₁]; exact ht)
  exact ⟨ht₂, .head ⟨.decStop hdoes, fun _ => ⟨by rw [ht₁], hp⟩⟩ hf₂⟩

theorem TimerBeat.told (h : TimerBeat p a b) : Told b.t ∧ Lasts p a b := by
  rcases h with ⟨rfl, -⟩ | ⟨-, a₁, hdoes, hrest⟩
  · exact ⟨ht, .refl⟩
  · have hturn := Turn.decRetransmission hdoes
    have hp := hdoes.processed fun x _ => .assign _ rfl rfl
    have heq := hdoes.decRetransmission_t
    have ht₁ : Told a₁.t := by
      rw [heq]
      exact ht
    have hf₁ : a.Final a₁ := fun _ => ⟨by rw [heq], hp⟩
    rcases hrest with ⟨rfl, -⟩ | ⟨-, a₂, hreq, hm⟩
    · exact ⟨ht₁, .single ⟨hturn, hf₁⟩⟩
    · have hturn₂ := Turn.ackRequestor hreq
      have hf₂ := hreq.final fun x _ => ⟨moves_ackRequestor x, .ackRequestor x⟩
      obtain ⟨y, -, -, hy, -, ha₂, -⟩ := hreq
      have hcourse := SameCourse.ackRequestor y
      have ht₂ : Told a₂.t := by
        rw [ha₂]
        exact hcourse.told (hy ▸ ht₁)
      have hl₂ : a₂.t.state ≠ .init := by
        rw [ha₂, hcourse.state, hy, heq]
        exact hl
      obtain ⟨ht₃, hf₃⟩ := hm.told hl₂ ht₂
      exact ⟨ht₃, .head ⟨hturn, hf₁⟩ (.head ⟨hturn₂, hf₂⟩ hf₃)⟩

theorem Beat.told {done : Prop} (h : Beat done p a b) : Told b.t ∧ Lasts p a b := by
  obtain ⟨a₁, hlife, hrest⟩ := h
  obtain ⟨ht₁, hf₁⟩ := hlife.told hl ht
  rcases hrest with ⟨rfl, -⟩ | htimer
  · exact ⟨ht₁, hf₁⟩
  · obtain ⟨ht₂, hf₂⟩ := htimer.told (hlife.live hl).1 ht₁
    exact ⟨ht₂, hf₁.trans hf₂⟩

end

/-! ## Runs -/

/-- State and status say the same of every pooled source transaction. -/
def Node.Coherent (s : Node σ) : Prop := ∀ q ∈ s.src, Told (s.srcs.get q)

section

variable {handler : Handler σ} {n : Nat} {s s' : Node σ} {i : Input σ} {q : Ptr}

theorem Node.Born.told {E : List Event} (h : s.Born E q) : Told (s.srcs.get q) := by
  obtain ⟨s₀, o, rfl, -, -, rfl⟩ := h
  change Told (((s₀.logOut o).startSrc o).srcs.get (s₀.logOut o).srcs.next)
  rw [startSrc_cell]
  exact told_srcRun_init ((s₀.logOut o).fresh_newSrc o).state

theorem Node.Arises.told (h : s.Arises s' q) : Told (s'.srcs.get q) := by
  obtain ⟨s₁, hborn, -, hm⟩ := h
  exact (hm.told hborn.live hborn.told).1

variable (handler n) in
/-- What a reaction does to a source transaction. -/
theorem step_lasts (hs : s.WF) (hc : s.Coherent) (hq : q < s.srcs.next) :
    (q ∈ s.src → Told ((step handler n i s).state.srcs.get q)) ∧
      Lasts q (s.srcTrace q) ((step handler n i s).state.srcTrace q) := by
  rcases step_src handler n i hs hq with heq | ⟨hmem, hsrc⟩
  · have ht (htold : Told (s.srcTrace q).t) :
        Told ((step handler n i s).state.srcTrace q).t := heq ▸ htold
    exact ⟨fun hmem => ht (hc q hmem), heq ▸ .refl⟩
  have hlive : (s.srcTrace q).t.state ≠ .init := (hs.src.inv q hmem).live
  have htold : Told (s.srcTrace q).t := hc q hmem
  suffices h : Told ((step handler n i s).state.srcTrace q).t ∧
      Lasts q (s.srcTrace q) ((step handler n i s).state.srcTrace q) from ⟨fun _ => h.1, h.2⟩
  rcases hsrc with ⟨-, hbeat⟩ | ⟨-, ⟨m, a, -, hdoes, hm⟩ | hm⟩
  · exact hbeat.told hlive htold
  · obtain ⟨ht₁, hlasts₁⟩ := hdoes.told_in htold
    obtain ⟨ht₂, hlasts₂⟩ := hm.told (hdoes.key_in.1 ▸ hlive) ht₁
    exact ⟨ht₂, hlasts₁.trans hlasts₂⟩
  · exact hm.told hlive htold

theorem step_coherent (hs : s.WF) (hc : s.Coherent) (h : step handler n i s = .ok () s') :
    s'.Coherent := by
  intro q hmem
  rcases Nat.lt_or_ge q s.srcs.next with hq | hq
  · have htold := (step_lasts handler n (i := i) hs hc hq).1 ((step_aged hs h).src q hmem hq).1
    rwa [h] at htold
  · rcases step_srcBirth handler n hs hq h with ⟨hq', -⟩ | ⟨-, harises⟩
    · exact absurd ((step_wf handler n hs h).src.lt q hmem) (Nat.not_lt.mpr hq')
    · exact harises.told

end

end Odtone.Mihf
