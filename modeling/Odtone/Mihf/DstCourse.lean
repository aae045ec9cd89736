import Odtone.Mihf.Course

/-! # The course of a destination transaction

Once `process_message` has returned, a destination transaction calls nobody: a response is submitted
to it, it is handed a frame, or a tick counts its timers down, and each time it is run to its end.
So what a reaction does to it is a sequence of such turns, all of them taken while it is in the
pool. -/

namespace Odtone.Mihf

open Machine Node EStateM.Result

variable {σ : Type}

namespace Machine

/-- What `message_out` makes of a destination transaction. -/
def dstOut (o : Ptr) (x : Machine DstState) : Machine DstState := (x.out o).dstRunIfOngoing.1

/-- What `message_in` makes of a destination transaction. -/
def dstReceive (i : Ptr) (x : Machine DstState) : Machine DstState :=
  (x.dstIn i).dstRunIfOngoing.1.dstInAck

/-- The first part of a tick. -/
def dstDecLife (x : Machine DstState) : Machine DstState := x.life (·.dstRun.1)

/-- The second part. -/
def dstDecTimer (x : Machine DstState) : Machine DstState := x.timer (·.dstRun.1)

section

variable {x : Machine DstState} (h : x.t.state ≠ .init)
include h

theorem moves_dstOut (o : Ptr) : Moves x (x.dstOut o) :=
  (moves_out x o).trans (moves_dstRunIfOngoing (by rw [(sameCourse_out o).state]; exact h))

theorem moves_dstReceive (i : Ptr) : Moves x (x.dstReceive i) :=
  ((moves_dstIn x i).trans
    (moves_dstRunIfOngoing (by rw [(sameCourse_dstIn i).state]; exact h))).trans (moves_dstInAck _)

theorem moves_dstDecLife : Moves x x.dstDecLife := by
  have hdec : Moves x x.decStop := .assign _ rfl rfl
  unfold dstDecLife life
  extract_lets y
  split
  · exact hdec.trans (moves_dstRun y h)
  · exact hdec

theorem dstDecLife_live : x.dstDecLife.t.state ≠ .init := by
  unfold dstDecLife life
  extract_lets y
  split
  · exact dstRun_live h
  · exact h

theorem moves_dstDecTimer : Moves x x.dstDecTimer := by
  have hdec : Moves x x.decRetransmission := .assign _ rfl rfl
  unfold dstDecTimer timer
  extract_lets y
  split_ifs
  · exact (hdec.trans (moves_ackRequestor y)).trans
      (moves_dstRun _ (by rw [(SameCourse.ackRequestor y).state]; exact h))
  · exact hdec
  · exact .refl x

end

end Machine

/-- Between the two parts of a tick. -/
def Lived (t : DstTransaction) : Prop := ∃ x : Machine DstState, DstInv x.t ∧ t = x.dstDecLife.t

/-- A turn of the destination transaction `p`. -/
inductive DstTurn (p : Ptr) (a b : Trace DstState) : Prop
  | out (o : Ptr) : DstInv a.t →
      a.Does .dst p (fun x => (x.msgs.get o).ackreq = true) (·.dstOut o) b → DstTurn p a b
  | input (i : Ptr) : DstInv a.t → a.Does .dst p (fun _ => True) (·.dstReceive i) b → DstTurn p a b
  | life : DstInv a.t → a.Does .dst p (fun _ => True) Machine.dstDecLife b → DstTurn p a b
  | timer : Lived a.t → a.Does .dst p (fun _ => True) Machine.dstDecTimer b → DstTurn p a b

/-- The turns a destination transaction takes. -/
abbrev DstTurns (p : Ptr) : Trace DstState → Trace DstState → Prop :=
  Relation.ReflTransGen (DstTurn p)

section

variable {s s' : Node σ} {p q o : Ptr}

/-- Between `s` and `s'` the destination transaction `q` takes turns, and none unless it is
pooled. -/
structure Node.Turned (s s' : Node σ) (q : Ptr) : Prop where
  turns : DstTurns q (s.dstTrace q) (s'.dstTrace q)
  idle : q ∉ s.dst → s'.dstTrace q = s.dstTrace q

namespace Node.Turned

variable {s₁ s₂ : Node σ}

theorem of_eq (h : s'.dstTrace q = s.dstTrace q) : s.Turned s' q := ⟨h ▸ .refl, fun _ => h⟩

theorem frame (h : s₁.Turned s₂ q) (h₁ : s₁.dstTrace q = s.dstTrace q)
    (hdst : q ∉ s.dst → q ∉ s₁.dst) (h₂ : s'.dstTrace q = s₂.dstTrace q) : s.Turned s' q where
  turns := by
    rw [← h₁, h₂]
    exact h.turns
  idle hmem := (h₂.trans (h.idle (hdst hmem))).trans h₁

theorem onDst {P : Machine DstState → Prop} {f : Machine DstState → Machine DstState}
    (hp : p ∈ s.dst) (hlog : ∀ q, s₁.dstTrace q = s.dstTrace q) (hP : P (s₁.dstMachine p))
    (hmoves : (s₁.dstMachine p).Moves (f (s₁.dstMachine p)))
    (hturn : ∀ b, (s.dstTrace p).Does .dst p P f b → DstTurn p (s.dstTrace p) b) :
    s.Turned ((s₁.onDst p f).delFinishedDst p) q := by
  have htrace : ((s₁.onDst p f).delFinishedDst p).dstTrace q = (s₁.onDst p f).dstTrace q :=
    dstTrace_delFinishedDst
  by_cases hqp : q = p
  · subst hqp
    have hdoes := does_putDst hP (.of_moves hmoves)
    rw [hlog, ← htrace] at hdoes
    exact ⟨.single (hturn _ hdoes), fun hmem => absurd hp hmem⟩
  · exact of_eq ((htrace.trans (dstTrace_putDst_of_ne (.of_moves hmoves) hqp)).trans (hlog q))

end Node.Turned

theorem Node.dstTrace_resumeSrc (s : Node σ) :
    ((s.onSrc p srcResume).delFinishedSrc p).dstTrace q = s.dstTrace q := by
  rw [dstTrace_delFinishedSrc]
  exact dstTrace_putSrc (.of_moves (moves_srcResume _))

/-- A call of `process_message` takes a destination transaction through the responses that are
submitted to it. -/
theorem Evolves.dstTurns (h : Evolves s s') (hs : s.WF) : s.Turned s' q := by
  induction h with
  | refl s => exact .of_eq rfl
  | @trans s s₁ s₂ h h' ih ih' =>
    obtain ⟨hm, heq⟩ := ih hs
    obtain ⟨hm', heq'⟩ := ih' (h.wf hs)
    refine ⟨hm.trans hm', fun hmem => ?_⟩
    have hmem' : q ∉ s₁.dst := fun hq => hmem ((h.dstWF hs.dst).2.pool.subset hq)
    exact (heq' hmem').trans (heq hmem)
  | apart h => exact .of_eq h.dstTrace
  | outConfirm s o _ => exact .of_eq (s.dstTrace_logOut o)
  | @outNew s o _ => exact .of_eq ((s.logOut o).startSrc_dstTrace.trans (s.dstTrace_logOut o))
  | @outDst s o p h =>
    have hp := Pool.mem_of_find h.2
    have hinv := hs.dst.inv p hp
    exact .onDst (f := (·.dstOut o)) hp (fun _ => s.dstTrace_logOut o) (by simp [dstMachine])
      (moves_dstOut hinv.state_ne_init o) fun _ => .out o hinv
  | @outSrc s o p h _ =>
    refine .of_eq ?_
    rw [dstTrace_delFinishedSrc, dstTrace_putSrc (.of_moves (h.called hs).1), s.dstTrace_logOut]
  | @outCall s s₁ o p h _ _ ih =>
    obtain ⟨hmoves, hwf⟩ := h.called hs
    exact (ih hwf).frame ((dstTrace_callSrc hmoves).trans (s.dstTrace_logOut o)) id
      s₁.dstTrace_resumeSrc
  | @outThrow s s₁ o p h _ _ ih =>
    obtain ⟨hmoves, hwf⟩ := h.called hs
    exact (ih hwf).frame ((dstTrace_callSrc hmoves).trans (s.dstTrace_logOut o)) id rfl

/-! ## Frames -/

theorem Node.dstTrace_inNewCall {i : Ptr} (hq : q ≠ s.dsts.next) :
    (s.inNewCall i).dstTrace q = s.dstTrace q := by
  have hd : (s.inNewCall i).deeds .dst q = s.deeds .dst q :=
    (deeds_of_notOf (s.inNewCall_log i) (by simpa [Event.isOf] using hq.symm)).trans
      (s.deeds_logIn i)
  simp only [dstTrace, hd, inNewCall_dsts, Store.get_push_of_ne hq]

theorem Node.dstTrace_resumeDst_of_ne {rsp : Bool} (hq : q ≠ p) :
    ((s.onDst p (dstResume · rsp)).poolDst p).dstTrace q = s.dstTrace q :=
  (dstTrace_congr (poolDst_dsts _ p) (poolDst_log _ p)).trans
    (dstTrace_putDst_of_ne (.of_moves (moves_dstResume _ rsp)) hq)

/-- In `s` the frame `i` opens a destination transaction, and this is what comes of it: in front of
the call of `process_message` it is `a`, and behind the call, if that returns, it is resumed. -/
def Node.Opens (s : Node σ) (i : Ptr) (r : EStateM.Result Fault (Node σ) Unit) : Prop :=
  ∃ a : Trace DstState, a.t = (s.inNewInit i).t ∧ a.deeds = s.deeds .dst s.dsts.next ++
      [.process ⟨.dst, s.dsts.next, (s.inNewInit i).t.key⟩ i (s.inNewInit i).inMsg] ∧
    (r.isOk = false ∧ r.state.dstTrace s.dsts.next = a ∧ s.dsts.next ∉ r.state.dst ∨
      ∃ rsp, a.Does .dst s.dsts.next (fun _ => True) (·.dstResume rsp)
          (r.state.dstTrace s.dsts.next) ∧
        (s.dsts.next ∈ r.state.dst → (r.state.dsts.get s.dsts.next).transactionStatus = .ongoing))

theorem Node.mem_poolDst (h : q ∈ (s.poolDst p).dst) :
    q ∈ s.dst ∨ q = p ∧ (s.dsts.get p).transactionStatus = .ongoing := by
  unfold poolDst at h
  split at h
  · next hon => exact (Pool.mem_add h).elim (fun h => .inr ⟨h, hon⟩) .inl
  · exact .inl h

variable {process : Ptr → Ptr → M σ Bool} {r : EStateM.Result Fault (Node σ) Unit} {i : Ptr}
  (hproc : ∀ i o, Keeps EvolvesWF (process i o)) (h : Incoming process s i r) (hs : s.WF)

include hproc h hs

/-- What a frame does to a destination transaction, unless it opens it. -/
theorem Incoming.dstTurns (hq : s.InNew i → q ≠ s.dsts.next) : s.Turned r.state q := by
  refine h.induct (P := (s.Turned · q)) hproc hs (fun p x hx => ?_) (fun p x s₁ hx hev => ?_)
    (fun p hin => ?_) fun s₁ hnew hev => ?_
  · refine .of_eq ?_
    rw [dstTrace_delFinishedSrc, dstTrace_putSrc (.of_moves (hx.spec hs).2.1), s.dstTrace_logIn]
  · obtain ⟨-, hmoves, -, hwf⟩ := hx.spec hs
    have htrace := (dstTrace_callSrc hmoves).trans (s.dstTrace_logIn i (q := q))
    exact ⟨(hev.dstTurns hwf).frame htrace id rfl,
      (hev.dstTurns hwf).frame htrace id s₁.dstTrace_resumeSrc⟩
  · have hp := Pool.mem_of_find hin.2
    have hinv := hs.dst.inv p hp
    exact .onDst (f := (·.dstReceive i)) hp (fun _ => s.dstTrace_logIn i) trivial
      (moves_dstReceive hinv.state_ne_init i) fun _ => .input i hinv
  · have htrace := dstTrace_inNewCall (i := i) (hq hnew)
    exact ⟨(hev.dstTurns hs.inNewCall).frame htrace id rfl, fun _ =>
      (hev.dstTurns hs.inNewCall).frame htrace id (dstTrace_resumeDst_of_ne (hq hnew))⟩

theorem Incoming.dsts_next (hold : ¬ s.InNew i) : r.state.dsts.next = s.dsts.next := by
  refine h.induct (P := (·.dsts.next = s.dsts.next)) hproc hs (fun p x hx => ?_)
    (fun p x s₁ hx hev => ?_) (fun p hin => ?_) fun s₁ hnew hev => absurd hnew hold
  · rw [delFinishedSrc_dsts]
    rfl
  · have hnext := (hev.dstWF (hx.spec hs).2.2.2.dst).2.next
    refine ⟨hnext, ?_⟩
    rw [delFinishedSrc_dsts]
    exact hnext
  · rw [delFinishedDst_dsts]
    rfl

/-- A frame that no transaction is found for. -/
theorem Incoming.opens (hnew : s.InNew i) : s.Opens i r ∧ r.state.dsts.next = s.dsts.next + 1 := by
  have hd : (s.inNewCall i).deeds .dst s.dsts.next = s.deeds .dst s.dsts.next ++
      [.process ⟨.dst, s.dsts.next, (s.inNewInit i).t.key⟩ i (s.inNewInit i).inMsg] := by
    rw [← s.deeds_logIn i]
    exact deeds_append (s.inNewCall_log i) (by simp [Event.isOf])
  have hcell : (s.inNewCall i).dsts.get s.dsts.next = (s.inNewInit i).t := by
    rw [inNewCall_dsts, Store.get_push_next]
  have hnot : s.dsts.next ∉ s.dst := fun h => (hs.dst.lt _ h).ne rfl
  have htrace : ∀ s₁, Evolves (s.inNewCall i) s₁ →
      s₁.dstTrace s.dsts.next = (s.inNewCall i).dstTrace s.dsts.next := fun s₁ hev =>
    (hev.dstTurns hs.inNewCall).2 hnot
  cases h with
  | ack hin | src hin | srcCall hin | srcThrow hin | dst hin => exact absurd hnew hin.not_new
  | @new rsp s₁ _ hres =>
    have hev : Evolves _ s₁ := (hproc _ _).result hres hs.inNewCall.dst
    have hnot₁ : s.dsts.next ∉ s₁.dst := (inNew_cell hs hev).2.1
    have hnext : s₁.dsts.next = s.dsts.next + 1 := by
      rw [(hev.dstWF hs.inNewCall.dst).2.next, inNewCall_dsts]
      rfl
    refine ⟨⟨(s.inNewCall i).dstTrace s.dsts.next, hcell, hd, .inr ⟨rsp, ?_, fun hmem => ?_⟩⟩, ?_⟩
    · rw [← htrace s₁ hev, state_ok, dstTrace_congr (poolDst_dsts _ _) (poolDst_log _ _)]
      exact does_putDst trivial (.of_moves (moves_dstResume _ rsp))
    · rcases mem_poolDst hmem with h | ⟨-, h⟩
      · exact absurd h hnot₁
      · rw [state_ok, poolDst_dsts]
        exact h
    · rw [state_ok, poolDst_dsts]
      exact hnext
  | @newThrow e s₁ _ hres =>
    have hev : Evolves _ s₁ := (hproc _ _).result hres hs.inNewCall.dst
    have hnext : s₁.dsts.next = s.dsts.next + 1 := by
      rw [(hev.dstWF hs.inNewCall.dst).2.next, inNewCall_dsts]
      rfl
    exact ⟨⟨_, hcell, hd, .inl ⟨rfl, htrace s₁ hev, (inNew_cell hs hev).2.1⟩⟩, hnext⟩

end

/-! ## Ticks -/

section

variable (process : Ptr → Ptr → M σ Bool) {s s' : Node σ} {p q : Ptr}

theorem runDst_onDst {f : Machine DstState → Machine DstState}
    (hf : (s.dstMachine p).Moves (f (s.dstMachine p)))
    (hlive : (f (s.dstMachine p)).t.state ≠ .init) :
    runDst process p (s.onDst p f) = .ok () (s.putDst p (f (s.dstMachine p)).dstRun.1) := by
  have hx : (s.onDst p f).dstMachine p = f (s.dstMachine p) := dstMachine_putDst hf.side hf.ptr
  rw [← hx] at hlive
  rw [runDst_eq process hlive, hx, onDst, putDst_putDst]

theorem decLife_dst (hlive : (s.dsts.get p).state ≠ .init) :
    decLife (fun s => s.dsts.get) onDst (runDst process) p s = .ok () (s.onDst p dstDecLife) := by
  have hcell : (s.onDst p decStop).dsts.get p = (s.dstMachine p).decStop.t := Store.get_set_self
  simp only [decLife, hcell]
  change _ = ok ()
    (s.putDst p (if (s.dstMachine p).decStop.t.transactionStopWhen = 0 then _ else _))
  split_ifs
  · exact runDst_onDst process (.assign _ rfl rfl) hlive
  · rfl

theorem decTimer_dst (hlive : (s.dsts.get p).state ≠ .init) :
    decTimer (fun s => s.dsts.get) onDst (runDst process) p s = .ok () (s.onDst p dstDecTimer) := by
  have hcell : (s.onDst p decRetransmission).dsts.get p =
      (s.dstMachine p).decRetransmission.t := Store.get_set_self
  have hx : (s.onDst p decRetransmission).dstMachine p =
      (s.dstMachine p).decRetransmission := s.dstMachine_putDst rfl rfl
  simp only [decTimer, hcell]
  change (if (s.dstMachine p).t.ackRequestorStatus = _ then _ else _) =
    ok () (s.putDst p (if (s.dstMachine p).t.ackRequestorStatus = _ then
      if (s.dstMachine p).decRetransmission.t.retransmissionWhen = 0 then _ else _ else _))
  split_ifs
  · rw [runDst_onDst process (hx ▸ moves_ackRequestor _)
      (hx ▸ (SameCourse.ackRequestor _).state.trans_ne hlive), hx, onDst, putDst_putDst]
  · rfl
  · rw [putDst_dstMachine]

/-- What a tick makes of the destination transaction `p`. -/
def Node.decDstOne (s : Node σ) (p : Ptr) : Node σ :=
  (s.onDst p Machine.dstDecLife).onDst p Machine.dstDecTimer

theorem decOne_dst (hlive : (s.dsts.get p).state ≠ .init) :
    ∃ del, decOne (fun s => s.dsts.get) onDst (runDst process) p s = .ok del (s.decDstOne p) := by
  have hlive₁ : ((s.onDst p dstDecLife).dsts.get p).state ≠ .init := by
    change ((s.dsts.set p _).get p).state ≠ _
    rw [Store.get_set_self]
    exact dstDecLife_live hlive
  unfold decOne
  rw [decLife_dst process hlive]
  dsimp only
  rw [decTimer_dst process hlive₁]
  exact ⟨_, rfl⟩

theorem decDstOne_trace (hinv : DstInv (s.dsts.get p)) :
    DstTurns p (s.dstTrace p) ((s.decDstOne p).dstTrace p) ∧
      ∀ q ≠ p, (s.decDstOne p).dstTrace q = s.dstTrace q := by
  have hlive := hinv.state_ne_init
  have hlive₁ : ((s.onDst p dstDecLife).dsts.get p).state ≠ .init := by
    change ((s.dsts.set p _).get p).state ≠ _
    rw [Store.get_set_self]
    exact dstDecLife_live hlive
  have hown := Own.of_moves (moves_dstDecLife (x := s.dstMachine p) hlive)
  have hown₁ := Own.of_moves (moves_dstDecTimer (x := (s.onDst p dstDecLife).dstMachine p) hlive₁)
  have hlived : Lived ((s.onDst p dstDecLife).dstTrace p).t :=
    ⟨s.dstMachine p, hinv, Store.get_set_self⟩
  refine ⟨.tail (.single (.life hinv (does_putDst trivial hown)))
    (.timer hlived (does_putDst trivial hown₁)), ?_⟩
  intro q hq
  exact (dstTrace_putDst_of_ne hown₁ hq).trans (dstTrace_putDst_of_ne hown hq)

theorem decLoop_dst {l : List Ptr} (hn : l.Nodup)
    (hl : ∀ p ∈ l, DstInv (s.dsts.get p)) :
    ∃ dels s', decLoop (fun s => s.dsts.get) onDst (runDst process) l s = .ok dels s' ∧
      (∀ q ∉ l, s'.dstTrace q = s.dstTrace q) ∧
      ∀ q ∈ l, DstTurns q (s.dstTrace q) (s'.dstTrace q) := by
  induction l generalizing s with
  | nil => exact ⟨[], s, rfl, fun _ _ => rfl, by simp⟩
  | cons p l ih =>
    obtain ⟨hp, hn⟩ := List.nodup_cons.mp hn
    have hinv := hl p (by simp)
    obtain ⟨del, h₁⟩ := decOne_dst process hinv.state_ne_init
    obtain ⟨hturn, hother⟩ := decDstOne_trace hinv
    have hcell : ∀ q ∈ l, DstInv ((s.decDstOne p).dsts.get q) := fun q hq => by
      have htrace := hother q fun h => hp (h ▸ hq)
      rw [show (s.decDstOne p).dsts.get q = s.dsts.get q from congrArg Trace.t htrace]
      exact hl q (by simp [hq])
    obtain ⟨dels, s₂, h₂, hout, hin⟩ := ih hn hcell
    refine ⟨if del then dels ++ [p] else dels, s₂, by simp only [decLoop, h₁, h₂], fun q hq => ?_,
      fun q hq => ?_⟩
    · rw [List.mem_cons, not_or] at hq
      exact (hout q hq.2).trans (hother q hq.1)
    · rcases List.mem_cons.mp hq with rfl | hq
      · rw [hout q hp]
        exact hturn
      · rw [← hother q fun h => hp (h ▸ hq)]
        exact hin q hq

/-- Going through the source transactions does not touch a destination transaction. -/
theorem decSrc_dstTrace (handler : Handler σ) (hs : s.WF) :
    (decSrc (processLocked handler) s).state.dstTrace q = s.dstTrace q := by
  obtain ⟨⟨hdsts, es, hlog, hes⟩, -⟩ := decSrc_spec handler hs.src
  have hd : (decSrc (processLocked handler) s).state.deeds .dst q = s.deeds .dst q := by
    refine deeds_of_notOf hlog fun e he => ?_
    obtain ⟨p, -, -, ⟨why, o, m, -, rfl⟩ | ⟨i, m, rfl⟩ | ⟨i, m, rfl⟩⟩ := hes e he
    all_goals simp [Event.isOf]
  simp only [dstTrace, hd, hdsts]

/-- What a tick does to a destination transaction. -/
theorem tick_dstTurns (handler : Handler σ) (hs : s.WF) :
    s.Turned (tick (processLocked handler) s).state q := by
  have htrace := decSrc_dstTrace (q := q) handler hs
  unfold tick
  cases hsrc : decSrc (processLocked handler) s with
  | error e s₁ =>
    rw [hsrc] at htrace
    exact .of_eq htrace
  | ok _ s₁ =>
    rw [hsrc, state_ok] at htrace
    have hticked := (decSrc_spec handler hs.src).2 s₁ hsrc
    have hs₁ := hticked.wf hs
    obtain ⟨dels, s₂, hloop, hout, hin⟩ := decLoop_dst (processLocked handler) hs₁.dst.nodup
      fun p hp => hs₁.dst.inv p hp
    have hdst : decDst (processLocked handler) s₁ = .ok () (dels.foldl delDst s₂) :=
      EStateM.after_of_ok hloop
    have hdel : (dels.foldl delDst s₂).dstTrace q = s₂.dstTrace q := by
      rw [foldl_delDst]
      rfl
    have hturned : s₁.Turned s₂ q := ⟨by_cases (hin q) fun hq => hout q hq ▸ .refl, hout q⟩
    dsimp only
    rw [hdst]
    exact hturned.frame htrace (hticked.dst ▸ id) hdel

end

/-! ## Reactions -/

section

variable (handler : Handler σ) (n : Nat) {s s' : Node σ} {i : Input σ} {q : Ptr}

/-- What a reaction does to a destination transaction that exists. -/
theorem step_dstTurns (hs : s.WF) (hq : q < s.dsts.next) :
    s.Turned (step handler n i s).state q := by
  cases i with
  | tick => exact tick_dstTurns handler hs
  | act x => exact (act_evolves handler n x hs.dst).dstTurns hs
  | recv m =>
    have hapart := s.apart_received m
    exact ((recv_incoming handler n m hs.dst).dstTurns (process_evolves handler n)
      (hs.apart hapart) fun _ => hq.ne).frame hapart.dstTrace id rfl

/-- A destination transaction comes up when a frame opens it. -/
theorem step_opens (hs : s.WF) (hq : s.dsts.next ≤ q) (h : step handler n i s = .ok () s') :
    s'.dsts.next ≤ q ∧ s'.deeds .dst q = s.deeds .dst q ∨
      q = s.dsts.next ∧ q < s'.dsts.next ∧ ∃ m, i = .recv m ∧ (s.received m).InNew s.msgs.next ∧
        (s.received m).Opens s.msgs.next (.ok () s') := by
  have hnot : q ∉ s.dst := fun hmem => absurd (hs.dst.lt q hmem) (Nat.not_lt.mpr hq)
  cases i with
  | tick =>
    have htrace := (tick_dstTurns (q := q) handler hs).2 hnot
    obtain ⟨s₁, hsrc, hdst⟩ := tick_ok hs h
    rw [show tick (processLocked handler) s = .ok () s' from h] at htrace
    refine .inl ⟨?_, congrArg Trace.deeds htrace⟩
    rw [hdst.next, hsrc.dsts]
    exact hq
  | act x =>
    have hev := act_evolves handler n x hs.dst
    rw [h] at hev
    refine .inl ⟨?_, congrArg Trace.deeds ((hev.dstTurns hs).2 hnot)⟩
    exact (hev.dstWF hs.dst).2.next.trans_le hq
  | recv m =>
    have hapart := s.apart_received m
    have hwf := hs.apart hapart
    have hin := recv_incoming handler n m hs.dst
    rw [h] at hin
    by_cases hnew : (s.received m).InNew s.msgs.next
    · obtain ⟨hopens, hnext⟩ := hin.opens (process_evolves handler n) hwf hnew
      rcases hq.eq_or_lt with rfl | hlt
      · exact .inr ⟨rfl, (Nat.lt_succ_self _).trans_eq hnext.symm, m, rfl, hnew, hopens⟩
      · refine .inl ⟨hnext.trans_le hlt, ?_⟩
        have hturns := (hin.dstTurns (process_evolves handler n) hwf fun _ => hlt.ne').2 hnot
        exact congrArg Trace.deeds hturns
    · have hturns := (hin.dstTurns (process_evolves handler n) hwf fun h => absurd h hnew).2 hnot
      exact .inl ⟨(hin.dsts_next (process_evolves handler n) hwf hnew).trans_le hq,
        congrArg Trace.deeds hturns⟩

end

end Odtone.Mihf
