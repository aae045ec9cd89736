import Odtone.Mihf.Runs

/-! # Outgoing messages are sent

Whenever `message_out` is called with a request or an indication for which no source transaction is
pooled, or with a response that its transaction has not had yet, the very next thing that happens
is that this message is handed to `net_sap::send`. With a source transaction found the message is
not sent: the pool is searched with the identifier that the local user chose, although the pooled
transactions are known under identifiers that the MIHF assigned.
-/

namespace Odtone.Mihf

open Node List

variable {σ : Type}

/-- The message that a call of `message_out` has to send at once, and why: either it is the first
message of a new transaction or the response that a transaction waits for. -/
def Event.due : Event → Option (Why × Ptr)
  | .messageOut o m src dst =>
    match m.opcode with
    | .request | .indication => if src.isNone then some (.initial, o) else none
    | .response =>
      match dst with
      | none => some (.initial, o)
      | some t => if t.state = .waitResponsePrm then some (.response, o) else none
    | .confirm => none
  | _ => none

/-- An event with which nothing becomes due, and which does not begin a transaction. -/
def Event.Plain (e : Event) : Prop := e.due = none ∧ ∀ own o m, e ≠ .send own .initial o m

/-- A log in which every message that is due is sent by the next event, and in which no transaction
begins otherwise. -/
inductive Answered : List Event → Prop
  | nil : Answered []
  | plain {e : Event} {l : List Event} : e.Plain → Answered l → Answered (e :: l)
  | due {e : Event} {own : Owner} {why : Why} {o : Ptr} {m : MetaMessage} {l : List Event} :
      e.due = some (why, o) → Answered l → Answered (e :: .send own why o m :: l)

namespace Answered

variable {l l' l₁ l₂ : List Event} {e : Event} {own : Owner} {o : Ptr} {m : MetaMessage}

theorem of_plain (h : ∀ e ∈ l, e.Plain) : Answered l := by
  induction l with
  | nil => exact .nil
  | cons e l ih =>
    obtain ⟨he, hl⟩ := forall_mem_cons.mp h
    exact .plain he (ih hl)

theorem append (h : Answered l) (h' : Answered l') : Answered (l ++ l') := by
  induction h with
  | nil => exact h'
  | plain he _ ih => exact .plain he ih
  | due he _ ih => exact .due he ih

/-- A log does not start with the beginning of a transaction. -/
theorem not_initial (h : Answered (.send own .initial o m :: l)) : False := by
  generalize hl : Event.send own .initial o m :: l = l' at h
  cases h with
  | nil => cases hl
  | plain he _ =>
    cases hl
    exact he.2 own o m rfl
  | due he _ =>
    cases hl
    cases he

theorem sent_of_due {why : Why} (h : Answered (l₁ ++ e :: l₂)) (ho : e.due = some (why, o)) :
    ∃ own m l', l₂ = .send own why o m :: l' := by
  generalize hl : l₁ ++ e :: l₂ = l at h
  induction h generalizing l₁ with
  | nil => simp at hl
  | @plain e' l he _ ih =>
    rcases append_eq_cons_iff.mp hl with ⟨-, heq⟩ | ⟨l₁', -, heq⟩
    · cases heq
      rw [he.1] at ho
      cases ho
    · exact ih heq.symm
  | @due e' own why' o' m l he _ ih =>
    rcases append_eq_cons_iff.mp hl with ⟨-, heq⟩ | ⟨l₁', -, heq⟩
    · cases heq
      rw [he] at ho
      cases ho
      exact ⟨own, m, l, rfl⟩
    · rcases append_eq_cons_iff.mp heq.symm with ⟨-, heq⟩ | ⟨l₁'', -, heq⟩
      · cases heq
        cases ho
      · exact ih heq.symm

theorem due_of_sent (h : Answered (l₁ ++ e :: .send own .initial o m :: l₂)) :
    e.due = some (.initial, o) := by
  generalize hl : l₁ ++ e :: .send own .initial o m :: l₂ = l at h
  induction h generalizing l₁ with
  | nil => simp at hl
  | @plain e' l _ hans ih =>
    rcases append_eq_cons_iff.mp hl with ⟨-, heq⟩ | ⟨l₁', -, heq⟩
    · cases heq
      exact hans.not_initial.elim
    · exact ih heq.symm
  | @due e' own' why' o' m' l he hans ih =>
    rcases append_eq_cons_iff.mp hl with ⟨-, heq⟩ | ⟨l₁', -, heq⟩
    · cases heq
      exact he
    · rcases append_eq_cons_iff.mp heq.symm with ⟨-, heq⟩ | ⟨l₁'', -, heq⟩
      · cases heq
        exact hans.not_initial.elim
      · exact ih heq.symm

end Answered

theorem Event.SentBy.plain {o : Owner} {e : Event} (h : e.SentBy o) : e.Plain := by
  obtain ⟨why, p, m, hwhy, rfl⟩ := h
  refine ⟨rfl, fun own o m heq => hwhy ?_⟩
  cases heq
  rfl

/-- The log grows by entries in which everything due is answered. -/
def Logs (s s' : Node σ) : Prop := ∃ l, s'.log = s.log ++ l ∧ Answered l

namespace Logs

variable {s s' s'' : Node σ}

theorem of_eq (h : s'.log = s.log) : Logs s s' := ⟨[], by simp [h], .nil⟩

theorem trans (h : Logs s s') (h' : Logs s' s'') : Logs s s'' := by
  obtain ⟨l, hl, ha⟩ := h
  obtain ⟨l', hl', ha'⟩ := h'
  exact ⟨l ++ l', by rw [hl', hl, append_assoc], ha.append ha'⟩

/-- A machine only adds what it sends. -/
theorem of_moves {S : Type} {x y : Machine S} (h : x.Moves y) (hx : x.log = s.log)
    (hy : s'.log = y.log) : Logs s s' := by
  obtain ⟨l, hl, he⟩ := h.log
  exact ⟨l, by rw [hy, hl, hx], .of_plain fun e hmem => (he e hmem).plain⟩

theorem of_apart (h : s.Apart s') : Logs s s' := by
  obtain ⟨l, hl, he⟩ := h.log
  refine ⟨l, hl, .of_plain fun e hmem => ?_⟩
  obtain ⟨p, m, rfl⟩ := he e hmem
  exact ⟨rfl, by simp⟩

theorem of_entry {e : Event} (h : s'.log = s.log ++ [e]) (he : e.Plain) : Logs s s' :=
  ⟨[e], h, .plain he .nil⟩

end Logs

/-! ## `message_out` -/

section

variable {s s' : Node σ} {o p : Ptr}

/-- The entry of `message_out` in the log. -/
def Node.outEvent {C : Type} [Pool.Container C] (s : Node σ C) (o : Ptr) : Event :=
  .messageOut o ((s.logOut o).msgs.get o) ((s.findSrc (s.outKey o)).map s.srcs.get)
    ((s.findDst (s.outKey o)).map s.dsts.get)

theorem Node.logOut_log {C : Type} [Pool.Container C] (s : Node σ C) (o : Ptr) :
    (s.logOut o).log = s.log ++ [s.outEvent o] := by
  unfold outEvent
  rw [← outKey_logOut s o]
  rfl

theorem Node.due_outEvent (s : Node σ) (o : Ptr) : (s.outEvent o).due = match s.outOp o with
    | .request | .indication => if (s.findSrc (s.outKey o)).isNone then some (.initial, o) else none
    | .response =>
      match (s.findDst (s.outKey o)).map s.dsts.get with
      | none => some (.initial, o)
      | some t => if t.state = .waitResponsePrm then some (.response, o) else none
    | .confirm => none := by
  rw [← outOp_logOut s o, ← Option.isNone_map]
  rfl

theorem logs_logOut (h : (s.outEvent o).due = none) : Logs s (s.logOut o) :=
  .of_entry (s.logOut_log o) ⟨h, by simp [outEvent]⟩

/-- A transaction is found for a request or an indication: nothing is due. -/
theorem Node.OutSrc.logs_logOut (h : s.OutSrc o p) : Logs s (s.logOut o) := by
  refine Mihf.logs_logOut ?_
  rcases h with ⟨hop | hop, hfind⟩ <;> simp [due_outEvent, hop, hfind]

/-- A response that a waiting transaction gets is sent. -/
theorem outDstRun_log (h : DstInv (s.dsts.get p)) (hst : (s.dsts.get p).state = .waitResponsePrm) :
    ∃ own m, (s.outDstRun o p).log = (s.logOut o).log ++ [.send own .response o m] := by
  have hon : (((s.logOut o).dstMachine p).out o).t.transactionStatus = .ongoing :=
    (Machine.sameCourse_out o).status.trans h.status
  obtain ⟨-, -, -, -, -, -, hlog⟩ :=
    Machine.dstRun_out_waiting (x := (s.logOut o).dstMachine p) h hst (by
      change ((s.logOut o).msgs.get o).ackreq = true
      simp)
  refine ⟨((s.logOut o).dstMachine p).owner, ((s.logOut o).dstMachine p).piggybacked o, ?_⟩
  unfold outDstRun Machine.dstRunIfOngoing
  rw [if_pos hon]
  exact hlog

theorem logs_outDst (h : s.OutDst o p) (hs : s.DstWF) :
    Logs s (((s.logOut o).putDst p (s.outDstRun o p)).delFinishedDst p) := by
  have hinv : DstInv (s.dsts.get p) := hs.inv p (Pool.mem_of_find h.2)
  have hlog : (((s.logOut o).putDst p (s.outDstRun o p)).delFinishedDst p).log =
      (s.outDstRun o p).log := delFinishedDst_log ..
  have hdue : (s.outEvent o).due =
      if (s.dsts.get p).state = .waitResponsePrm then some (.response, o) else none := by
    simp [due_outEvent, h.1, h.2]
  by_cases hst : (s.dsts.get p).state = .waitResponsePrm
  · obtain ⟨own, m, hsend⟩ := outDstRun_log hinv hst
    refine ⟨[s.outEvent o, .send own .response o m], ?_, .due (hdue.trans (if_pos hst)) .nil⟩
    rw [hlog, hsend, s.logOut_log, append_assoc]
    rfl
  · exact (logs_logOut (hdue.trans (if_neg hst))).trans (.of_moves (outDstRun_spec hinv).1 rfl hlog)

theorem logs_outNew (h : s.OutNew o) : Logs s ((s.logOut o).startSrc o) := by
  obtain ⟨own, m, hsend⟩ : ∃ own m, ((s.logOut o).startSrc o).log =
      (s.logOut o).log ++ [.send own .initial o m] := ⟨_, _, (s.logOut o).startSrc_log o⟩
  have hdue : (s.outEvent o).due = some (.initial, o) := by
    rcases h.2 with ⟨hop, hfind⟩ | ⟨hop | hop, hfind⟩ <;> simp [due_outEvent, hop, hfind]
  refine ⟨[s.outEvent o, .send own .initial o m], ?_, .due hdue .nil⟩
  rw [hsend, s.logOut_log, append_assoc]
  rfl

/-- The call of `process_message` of a source transaction. -/
theorem logs_callSrc {x : Machine SrcState} (hx : (s.srcMachine p).Moves x) :
    Logs s (s.callSrc p x) := by
  have hput : Logs s (s.putSrc p x) := .of_moves hx rfl rfl
  exact hput.trans (.of_entry rfl ⟨rfl, by simp⟩)

theorem logs_resumeSrc (s : Node σ) (p : Ptr) :
    Logs s ((s.onSrc p Machine.srcResume).delFinishedSrc p) :=
  .of_moves (Machine.moves_srcResume (s.srcMachine p)) rfl (delFinishedSrc_log ..)

/-- A call of `process_message` answers whatever becomes due in it. -/
theorem Evolves.logs (h : Evolves s s') (hs : s.WF) : Logs s s' := by
  induction h with
  | refl s => exact .of_eq rfl
  | trans h _ ih ih' => exact (ih hs).trans (ih' (h.wf hs))
  | apart h => exact .of_apart h
  | outConfirm s o h => exact logs_logOut (by simp [due_outEvent, h])
  | outNew h => exact logs_outNew h
  | outDst h => exact logs_outDst h hs.dst
  | @outSrc s o p h _ =>
    exact h.logs_logOut.trans (.of_moves (h.called hs).1 rfl (delFinishedSrc_log ..))
  | @outCall s s' o p h _ _ ih =>
    obtain ⟨hmoves, hwf⟩ := h.called hs
    have hcall := h.logs_logOut.trans (logs_callSrc hmoves)
    exact (hcall.trans (ih hwf)).trans (logs_resumeSrc s' p)
  | @outThrow s s' o p h _ _ ih =>
    obtain ⟨hmoves, hwf⟩ := h.called hs
    have hcall := h.logs_logOut.trans (logs_callSrc hmoves)
    exact hcall.trans (ih hwf)

/-! ## Reactions -/

theorem logs_logIn (s : Node σ) (i : Ptr) : Logs s (s.logIn i) := .of_entry rfl ⟨rfl, by simp⟩

theorem logs_inNewCall (s : Node σ) (i : Ptr) : Logs (s.logIn i) (s.inNewCall i) :=
  .of_entry rfl ⟨rfl, by simp⟩

/-- A call of `message_in` answers whatever becomes due in it. -/
theorem Incoming.logs {process : Ptr → Ptr → M σ Bool} {i : Ptr}
    {r : EStateM.Result Fault (Node σ) Unit} (hproc : ∀ i o, Keeps EvolvesWF (process i o))
    (hs : s.WF) (h : Incoming process s i r) : Logs (s.logIn i) r.state := by
  refine h.induct hproc hs (fun p x hx => ?_) (fun p x s₁ hx hev => ?_)
    (fun p hin => ?_) fun s₁ _ hev => ?_
  · exact .of_moves (hx.spec hs).2.1 rfl (delFinishedSrc_log ..)
  · obtain ⟨-, hmoves, -, hwf⟩ := hx.spec hs
    have hlogs := (logs_callSrc hmoves).trans (hev.logs hwf)
    exact ⟨hlogs, hlogs.trans (logs_resumeSrc s₁ p)⟩
  · have hinv := hs.dst.inv p (Pool.mem_of_find hin.2)
    exact .of_moves (inDstRun_spec hinv).1 rfl (delFinishedDst_log ..)
  · have hlogs := (logs_inNewCall s i).trans (hev.logs hs.inNewCall)
    exact ⟨hlogs, fun rsp =>
      hlogs.trans (.of_moves (Machine.moves_dstResume _ rsp) rfl (poolDst_log ..))⟩

theorem Event.InTick.plain {own : Owner} {e : Event} (h : e.InTick own) : e.Plain := by
  rcases h with h | ⟨i, m, rfl⟩ | ⟨i, m, rfl⟩
  · exact h.plain
  all_goals exact ⟨rfl, by simp⟩

theorem logs_tick (handler : Handler σ) (hs : s.WF) :
    Logs s (tick (processLocked handler) s).state := by
  obtain ⟨⟨-, es, hlog, hes⟩, hok⟩ := decSrc_spec handler hs.src
  have hsrc : Logs s (decSrc (processLocked handler) s).state := by
    refine ⟨es, hlog, .of_plain fun e he => ?_⟩
    obtain ⟨p, -, -, he⟩ := hes e he
    exact he.plain
  unfold tick
  cases heq : decSrc (processLocked handler) s with
  | error e s₁ =>
    rw [heq] at hsrc
    exact hsrc
  | ok _ s₁ =>
    rw [heq] at hsrc
    obtain ⟨-, ⟨es', hlog', hes'⟩, -⟩ :=
      decDst_spec (processLocked handler) ((hok s₁ heq).wf hs).dst
    refine hsrc.trans ⟨es', hlog', .of_plain fun e he => ?_⟩
    obtain ⟨p, -, -, he⟩ := hes' e he
    exact he.plain

theorem logs_step (handler : Handler σ) (n : Nat) (i : Input σ) (hs : s.WF) :
    Logs s (step handler n i s).state := by
  cases i with
  | recv m =>
    have hrecv := s.apart_received m
    exact ((Logs.of_apart hrecv).trans (logs_logIn _ s.msgs.next)).trans
      ((recv_incoming handler n m hs.dst).logs (process_evolves handler n) (hs.apart hrecv))
  | act x => exact (act_evolves handler n x hs.dst).logs hs
  | tick => exact logs_tick handler hs

end

/-! ## Runs -/

/-- Everything due in a run is answered. -/
theorem answered_run (handler : Handler σ) (n : Nat) (is : List (Input σ)) (svc : σ)
    (tid : UInt16) : Answered (run handler n is (initial svc tid)).log := by
  have hlog : ∀ i s, s.WF ∧ Answered s.log → Answered (step handler n i s).state.log := by
    rintro i s ⟨hs, ha⟩
    obtain ⟨l, hl, hal⟩ := logs_step handler n i hs
    exact hl ▸ ha.append hal
  refine EStateM.runAll_induct (P := fun s => s.WF ∧ Answered s.log)
    (fun i s s' hs h => ⟨step_wf handler n hs.1 h, ?_⟩) hlog (fun s hs => hs.2) is ?_
  · have := hlog i s hs
    rwa [h] at this
  · exact ⟨wf_initial svc tid, .nil⟩

/-- In every run, a message handed to `message_out` is sent before anything else happens, unless it
is a request or an indication and a pooled source transaction has its destination and identifier;
then it is not. A response counts as the first one if its transaction is still waiting for it, or
is gone. -/
theorem messageOut_sends_iff (handler : Handler σ) (n : Nat) (svc : σ) (tid : UInt16)
    (is : List (Input σ)) {l₁ l₂ : List Event} {o : Ptr} {m : MetaMessage}
    {src : Option SrcTransaction} {dst : Option DstTransaction}
    (hlog : (run handler n is (Node.initial svc tid)).log = l₁ ++ .messageOut o m src dst :: l₂)
    (h : m.opcode = .request ∨ m.opcode = .indication ∨
      m.opcode = .response ∧ ∀ t, dst = some t → t.state = .waitResponsePrm) :
    (∃ own why m' l₃, l₂ = .send own why o m' :: l₃ ∧
      (why = .initial ∨ m.opcode = .response ∧ why = .response)) ↔
    (m.opcode = .response ∨ src = none) := by
  have hans := answered_run handler n is svc tid
  rw [hlog] at hans
  constructor
  · rintro ⟨own, why, m', l₃, rfl, rfl | ⟨hop, -⟩⟩
    · have hdue := hans.due_of_sent
      rcases h with hop | hop | ⟨hop, -⟩
      · exact .inr (by simpa [Event.due, hop] using hdue)
      · exact .inr (by simpa [Event.due, hop] using hdue)
      · exact .inl hop
    · exact .inl hop
  · intro hcond
    obtain ⟨why, hdue, hwhy⟩ : ∃ why, (Event.messageOut o m src dst).due = some (why, o) ∧
        (why = .initial ∨ m.opcode = .response ∧ why = .response) := by
      rcases h with hop | hop | ⟨hop, hdst⟩
      · exact ⟨.initial, by simpa [Event.due, hop] using hcond, .inl rfl⟩
      · exact ⟨.initial, by simpa [Event.due, hop] using hcond, .inl rfl⟩
      · cases dst with
        | none => exact ⟨.initial, by simp [Event.due, hop], .inl rfl⟩
        | some t => exact ⟨.response, by simp [Event.due, hop, hdst t rfl], .inr ⟨hop, rfl⟩⟩
    obtain ⟨own, m', l₃, rfl⟩ := hans.sent_of_due hdue
    exact ⟨own, why, m', l₃, rfl, hwhy⟩

/-- A request to the peer `[80]` under the identifier `tid`. -/
def requestTo80 (tid : UInt16) : MetaMessage :=
  { mid := 0x1401, tid := tid, destination := [80], payload := [4, 0] }

/-- A handler that does nothing. -/
def idle : Handler Unit := fun _ _ => pure false

theorem messageOut_sends_request :
    let m : MetaMessage := { requestTo80 3 with ackreq := true }
    (∃ own why m' l₃, [Event.send ⟨.src, 1, [80], 8⟩ .initial 1
      { requestTo80 8 with ackreq := true }] = .send own why 1 m' :: l₃ ∧
      (why = .initial ∨ m.opcode = .response ∧ why = .response)) ↔
    (m.opcode = .response ∨ (none : Option SrcTransaction) = none) :=
  messageOut_sends_iff idle 1 () 7 [.submit (requestTo80 3)]
    (show _ = [] ++ Event.messageOut 1 _ none none :: _ by decide +kernel) (.inl (by decide))

/-- The message that a call of `message_out` is given. -/
def Event.submitted : Event → Option Ptr
  | .messageOut o _ _ _ => some o
  | _ => none

/-- The message that is handed to `net_sap::send`. -/
def Event.sent : Event → Option Ptr
  | .send _ _ o _ => some o
  | _ => none

/-- The MIHF gives the first request the identifier 1. The second request, to the same peer, comes
from its user with the identifier 1: `message_out` hands it to the transaction of the first one,
which is waiting for its response, and returns without having sent it. -/
theorem messageOut_swallows_request :
    let log := (run idle 1 [.submit (requestTo80 5), .submit (requestTo80 1),
      .submit (requestTo80 9)] (initial () 0)).log
    log.filterMap Event.submitted = [1, 2, 3] ∧ log.filterMap Event.sent = [1, 3] := by
  decide +kernel

end Odtone.Mihf
