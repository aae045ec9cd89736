import Odtone.Mihf.WellFormed

/-! # What `message_in` does

The ways through `message_in::operator()`, one constructor of `Incoming` each, and that they keep
the pools well formed.
-/

namespace Odtone.Mihf

open Machine Node EStateM

variable {σ C : Type} [Pool.Container C]

namespace Node

/-- What `message_in` looks a transaction for the message `i` up by. -/
def inKey (s : Node σ C) (i : Ptr) : Id × UInt16 := ((s.msgs.get i).source, (s.msgs.get i).tid)

/-- `message_in` finds the source transaction `p` for `i`. -/
def InSrc (s : Node σ) (i p : Ptr) : Prop :=
  (s.msgs.get i).ForSource = true ∧ s.findSrc (s.inKey i) = some p

/-- `message_in` finds the destination transaction `p` for `i`. -/
def InDst (s : Node σ C) (i p : Ptr) : Prop :=
  (s.msgs.get i).ForSource = false ∧ s.findDst (s.inKey i) = some p

/-- `message_in` finds no transaction for `i`. -/
def InNew (s : Node σ) (i : Ptr) : Prop :=
  (s.msgs.get i).ForSource = true ∧ s.findSrc (s.inKey i) = none ∨
  (s.msgs.get i).ForSource = false ∧ s.findDst (s.inKey i) = none

/-- The message `i` acknowledges a request. -/
def InAck (s : Node σ) (i : Ptr) : Prop :=
  (s.msgs.get i).ackrsp = true ∧ (s.msgs.get i).opcode = .request
deriving Decidable

/-- The source transaction `p` with the message `i` handed to it, run up to a call of
`process_message`. -/
def inSrcRun (s : Node σ) (i p : Ptr) : Machine SrcState × Bool :=
  (((s.logIn i).srcMachine p).srcIn i).srcRunIfOngoing

/-- The destination transaction `p` with the message `i` handed to it, run. -/
def inDstRun (s : Node σ C) (i p : Ptr) : Machine DstState :=
  (((s.logIn i).dstMachine p).dstIn i).dstRunIfOngoing.1.dstInAck

/-- The new destination transaction for `i`, in front of the call of `process_message`. -/
def inNewInit (s : Node σ) (i : Ptr) : Machine DstState :=
  (((s.logIn i).newDst i).dstMachine s.dsts.next).dstInit

/-- The node in front of the call of `process_message` for a new transaction. -/
def inNewCall (s : Node σ) (i : Ptr) : Node σ :=
  ((s.logIn i).newDst i).callDst s.dsts.next (s.inNewInit i)

end Node

/-- What comes of a message `i` in a node `s`. -/
inductive Incoming (process : Ptr → Ptr → M σ Bool) (s : Node σ) (i : Ptr) :
    Result Fault (Node σ) Unit → Prop
  | ack {p : Ptr} : s.InSrc i p → s.InAck i →
      Incoming process s i (.ok () (((s.logIn i).onSrc p (Machine.srcIn i)).delFinishedSrc p))
  | src {p : Ptr} : s.InSrc i p → ¬ s.InAck i → (s.inSrcRun i p).2 = false →
      Incoming process s i (.ok () (((s.logIn i).putSrc p (s.inSrcRun i p).1).delFinishedSrc p))
  | srcCall {p : Ptr} {rsp : Bool} {s' : Node σ} : s.InSrc i p → ¬ s.InAck i →
      (s.inSrcRun i p).2 = true →
      process (s.inSrcRun i p).1.t.inMsg (s.inSrcRun i p).1.t.outMsg
        ((s.logIn i).callSrc p (s.inSrcRun i p).1) = .ok rsp s' →
      Incoming process s i (.ok () ((s'.onSrc p Machine.srcResume).delFinishedSrc p))
  | srcThrow {p : Ptr} {e : Fault} {s' : Node σ} : s.InSrc i p → ¬ s.InAck i →
      (s.inSrcRun i p).2 = true →
      process (s.inSrcRun i p).1.t.inMsg (s.inSrcRun i p).1.t.outMsg
        ((s.logIn i).callSrc p (s.inSrcRun i p).1) = .error e s' →
      Incoming process s i (.error e s')
  | dst {p : Ptr} : s.InDst i p →
      Incoming process s i (.ok () (((s.logIn i).putDst p (s.inDstRun i p)).delFinishedDst p))
  | new {rsp : Bool} {s' : Node σ} : s.InNew i →
      process i (s.inNewInit i).t.outMsg (s.inNewCall i) = .ok rsp s' →
      Incoming process s i
        (.ok () ((s'.onDst s.dsts.next (Machine.dstResume · rsp)).poolDst s.dsts.next))
  | newThrow {e : Fault} {s' : Node σ} : s.InNew i →
      process i (s.inNewInit i).t.outMsg (s.inNewCall i) = .error e s' →
      Incoming process s i (.error e s')

section

variable {process : Ptr → Ptr → M σ Bool} {s : Node σ} {i : Ptr}

theorem Node.inNewInit_inMsg (s : Node σ) (i : Ptr) : (s.inNewInit i).t.inMsg = i := by
  simp [inNewInit, dstInit, newDst, dstMachine, logIn, emit]

theorem newDstTransaction_incoming (h : s.InNew i) :
    Incoming process s i (newDstTransaction process i (s.logIn i)) := by
  have hnew : (((s.logIn i).newDst i).dstMachine s.dsts.next).dstRun = (s.inNewInit i, true) := by
    simp [dstRun, newDst, dstMachine, inNewInit, logIn, emit]
  have hin := s.inNewInit_inMsg i
  have hrun : runDst process s.dsts.next ((s.logIn i).newDst i) =
      (process i (s.inNewInit i).t.outMsg).after
        (fun rsp s' => s'.onDst s.dsts.next (dstResume · rsp)) (s.inNewCall i) := by
    simp only [runDst, hnew, if_true, hin]
    rfl
  cases hres : process i (s.inNewInit i).t.outMsg (s.inNewCall i) with
  | ok rsp s' =>
    have heq : newDstTransaction process i (s.logIn i) = _ :=
      after_of_ok (hrun.trans (after_of_ok hres))
    rw [heq]
    exact .new h hres
  | error e s' =>
    have heq : newDstTransaction process i (s.logIn i) = _ :=
      after_of_error (hrun.trans (after_of_error hres))
    rw [heq]
    exact .newThrow h hres

/-- `message_in` with a message that a destination transaction takes. -/
theorem messageIn_of_dst {process : Ptr → Ptr → MOn C σ Bool} {s : Node σ C} {p : Ptr}
    (h : s.InDst i p) (hinv : DstInv (s.dsts.get p)) : messageIn process i s =
      .ok () (((s.logIn i).putDst p (s.inDstRun i p)).delFinishedDst p) := by
  have hmoves := moves_dstIn ((s.logIn i).dstMachine p) i
  have hcourse := sameCourse_dstIn (x := (s.logIn i).dstMachine p) i
  have hlive : (((s.logIn i).dstMachine p).dstIn i).t.state ≠ .init :=
    hcourse.state ▸ hinv.state_ne_init
  have hrun : runDstIfOngoing process p ((s.logIn i).onDst p (dstIn i)) =
      .ok () ((s.logIn i).putDst p (((s.logIn i).dstMachine p).dstIn i).dstRunIfOngoing.1) :=
    runDstIfOngoing_putDst process hmoves.side hmoves.ptr hlive
  have hmoves' := hmoves.trans (moves_dstRunIfOngoing hlive)
  have hack : ((s.logIn i).putDst p
      (((s.logIn i).dstMachine p).dstIn i).dstRunIfOngoing.1).onDst p dstInAck =
      (s.logIn i).putDst p (s.inDstRun i p) := by
    unfold onDst
    rw [dstMachine_putDst (p := p) hmoves'.side hmoves'.ptr, putDst_putDst]
    rfl
  have hfind : (s.logIn i).findDst ((s.msgs.get i).source, (s.msgs.get i).tid) = some p := h.2
  simp only [messageIn, h.1, hfind, Bool.false_eq_true, if_false]
  rw [after_of_ok hrun, hack]

theorem messageIn_incoming (hs : s.DstWF) : Incoming process s i (messageIn process i s) := by
  cases hfor : (s.msgs.get i).ForSource with
  | true =>
    simp only [messageIn, hfor, if_true]
    cases hf : (s.logIn i).findSrc ((s.msgs.get i).source, (s.msgs.get i).tid) with
    | none => exact newDstTransaction_incoming (.inl ⟨hfor, hf⟩)
    | some p =>
      have hin : s.InSrc i p := ⟨hfor, hf⟩
      dsimp only
      by_cases hack : s.InAck i
      · have hcond : ((s.msgs.get i).ackrsp && (s.msgs.get i).opcode = .request) = true := by
          simp [hack.1, hack.2]
        rw [if_pos hcond]
        exact .ack hin hack
      · have hcond : ¬ ((s.msgs.get i).ackrsp && (s.msgs.get i).opcode = .request) = true := by
          simpa [InAck] using hack
        rw [if_neg hcond]
        have hmoves := moves_srcIn ((s.logIn i).srcMachine p) i
        have hrun : runSrcIfOngoing process p ((s.logIn i).onSrc p (srcIn i)) =
            if (s.inSrcRun i p).2 then
              (process (s.inSrcRun i p).1.t.inMsg (s.inSrcRun i p).1.t.outMsg).after
                (fun _ s => s.onSrc p srcResume)
                ((s.logIn i).callSrc p (s.inSrcRun i p).1)
            else .ok () ((s.logIn i).putSrc p (s.inSrcRun i p).1) :=
          runSrcIfOngoing_putSrc process hmoves.side hmoves.ptr
        by_cases hcall : (s.inSrcRun i p).2 = true
        · rw [if_pos hcall] at hrun
          cases hres : process (s.inSrcRun i p).1.t.inMsg (s.inSrcRun i p).1.t.outMsg
              ((s.logIn i).callSrc p (s.inSrcRun i p).1) with
          | ok rsp s' =>
            rw [after_of_ok (hrun.trans (after_of_ok hres))]
            exact .srcCall hin hack hcall hres
          | error e s' =>
            rw [after_of_error (hrun.trans (after_of_error hres))]
            exact .srcThrow hin hack hcall hres
        · rw [if_neg hcall] at hrun
          rw [after_of_ok hrun]
          exact .src hin hack (by simpa using hcall)
  | false =>
    cases hf : s.findDst (s.inKey i) with
    | none =>
      have heq : messageIn process i s = newDstTransaction process i (s.logIn i) := by
        have hnone : (s.logIn i).findDst ((s.msgs.get i).source, (s.msgs.get i).tid) = none := hf
        simp only [messageIn, hfor, hnone, Bool.false_eq_true, if_false]
      exact heq ▸ newDstTransaction_incoming (.inr ⟨hfor, hf⟩)
    | some p =>
      rw [messageIn_of_dst ⟨hfor, hf⟩ (hs.inv p (Pool.mem_of_find hf))]
      exact .dst ⟨hfor, hf⟩

/-! ## Which way it is -/

variable {s' : Node σ} {r : Result Fault (Node σ) Unit} {p : Ptr}

theorem Node.InSrc.find {q : Ptr} (h : s.InSrc i p) (h' : s.InSrc i q) : q = p :=
  Option.some.inj (h'.2.symm.trans h.2)

theorem Node.InSrc.not_dst {q : Ptr} (h : s.InSrc i p) : ¬ s.InDst i q := fun h' =>
  absurd (h.1.symm.trans h'.1) (by simp)

theorem Node.InSrc.not_new (h : s.InSrc i p) : ¬ s.InNew i := by
  rintro (⟨-, hnone⟩ | ⟨hfor, -⟩)
  · exact absurd (h.2.symm.trans hnone) (by simp)
  · exact absurd (h.1.symm.trans hfor) (by simp)

theorem Node.InDst.find {q : Ptr} (h : s.InDst i p) (h' : s.InDst i q) : q = p :=
  Option.some.inj (h'.2.symm.trans h.2)

theorem Node.InDst.not_new (h : s.InDst i p) : ¬ s.InNew i := by
  rintro (⟨hfor, -⟩ | ⟨-, hnone⟩)
  · exact absurd (h.1.symm.trans hfor) (by simp)
  · exact absurd (h.2.symm.trans hnone) (by simp)

theorem Incoming.of_dst (h : Incoming process s i r) (hin : s.InDst i p) :
    r = .ok () (((s.logIn i).putDst p (s.inDstRun i p)).delFinishedDst p) := by
  cases h with
  | ack hsrc | src hsrc | srcCall hsrc | srcThrow hsrc => exact absurd hin hsrc.not_dst
  | dst hin' => rw [hin.find hin']
  | new hnew | newThrow hnew => exact absurd hnew hin.not_new

/-- A message that opens a transaction. -/
theorem Incoming.of_new (h : Incoming process s i (.ok () s')) (hnew : s.InNew i) :
    ∃ rsp s₁, process i (s.inNewInit i).t.outMsg (s.inNewCall i) = .ok rsp s₁ ∧
      s' = (s₁.onDst s.dsts.next (dstResume · rsp)).poolDst s.dsts.next := by
  generalize hr : (Result.ok () s' : Result Fault (Node σ) Unit) = r at h
  cases h with
  | ack hsrc | src hsrc | srcCall hsrc | dst hsrc => exact absurd hnew hsrc.not_new
  | srcThrow | newThrow => cases hr
  | new _ hres =>
    cases hr
    exact ⟨_, _, hres, rfl⟩

end

/-! ## Well-formedness -/

section

variable {s : Node σ} {i p : Ptr}

theorem Node.inSrcRun_spec (hinv : SrcInv (s.srcs.get p)) :
    ((s.logIn i).srcMachine p).Moves (s.inSrcRun i p).1 ∧ SrcInv (s.inSrcRun i p).1.t ∧
      ((s.inSrcRun i p).2 = true ↔ (s.inSrcRun i p).1.t.state = .processMsg) := by
  have hin : SrcCore (((s.logIn i).srcMachine p).srcIn i).t := srcCore_srcIn hinv
  obtain ⟨hrun, hcall⟩ := srcInv_srcRunIfOngoing hin
  exact ⟨(moves_srcIn _ i).trans (moves_srcRunIfOngoing hin.live), hrun, hcall⟩

theorem Machine.moves_dstInAck (x : Machine DstState) : Moves x x.dstInAck := by
  unfold dstInAck
  split
  · exact moves_startedAckResponder x
  · exact .refl x

theorem Node.inDstRun_spec (hinv : DstInv (s.dsts.get p)) :
    ((s.logIn i).dstMachine p).Moves (s.inDstRun i p) ∧ DstDone (s.inDstRun i p).t := by
  have hcourse := sameCourse_dstIn (x := (s.logIn i).dstMachine p) i
  have hlive : (((s.logIn i).dstMachine p).dstIn i).t.state ≠ .init :=
    hcourse.state ▸ hinv.state_ne_init
  refine ⟨((moves_dstIn _ i).trans (moves_dstRunIfOngoing hlive)).trans (moves_dstInAck _), ?_⟩
  have hon : (((s.logIn i).dstMachine p).dstIn i).t.transactionStatus = .ongoing :=
    hcourse.status.trans hinv.status
  have hdone := dstIn_done (x := (s.logIn i).dstMachine p) (i := i) hinv
  simpa only [inDstRun, dstRunIfOngoing, hon, if_true] using hdone

/-- A new destination transaction in front of the call of `process_message`. -/
theorem Node.called_inNewInit (s : Node σ) (i : Ptr) : Called (s.inNewInit i).t := by
  constructor <;> simp [inNewInit, dstInit, newDst, dstMachine, logIn, emit]

/-- What a new destination transaction takes from the message that opens it. -/
theorem Node.inNewInit_spec (hi : i < s.msgs.next) :
    (s.inNewInit i).t.opcode = (s.msgs.get i).opcode ∧ (s.inNewInit i).t.key = s.inKey i ∧
      (s.inNewInit i).t.startAckResponder = ((s.msgs.get i).ackreq && !(s.msgs.get i).isMulticast) ∧
      (s.inNewInit i).inMsg = s.msgs.get i := by
  simp [inNewInit, dstInit, inMsg, newDst, dstMachine, logIn, emit,
    Transaction.key, inKey, Store.get_push_of_lt hi]

theorem Node.inNewCall_dsts (s : Node σ) (i : Ptr) :
    (s.inNewCall i).dsts = s.dsts.push (s.inNewInit i).t := by
  simp [inNewCall, callDst, putDst, newDst, logIn, emit, Store.push, Store.set]

theorem Node.inNewCall_log (s : Node σ) (i : Ptr) : (s.inNewCall i).log = (s.logIn i).log ++
      [.process ⟨.dst, s.dsts.next, (s.inNewInit i).t.key⟩ i (s.inNewInit i).inMsg] := by
  have hlog : (s.inNewCall i).log = (s.logIn i).log ++
      [.process ⟨.dst, s.dsts.next, (s.inNewInit i).t.key⟩ (s.inNewInit i).t.inMsg
        (s.inNewInit i).inMsg] := rfl
  rwa [s.inNewInit_inMsg i] at hlog

theorem Node.inNewCall_msgs (s : Node σ) (i : Ptr) : (s.inNewCall i).msgs = s.msgs.push {} := by
  simp [inNewCall, callDst, putDst, newDst, logIn, emit, inNewInit, dstInit, dstMachine]

theorem Node.WF.inNewCall (hs : s.WF) : (s.inNewCall i).WF where
  src := by
    refine hs.src.of_grows (.of_srcs_eq rfl ?_) (List.Sublist.refl _)
    rw [inNewCall_msgs]
    simp
  dst := by
    have hcell : ∀ p ∈ s.dst, (s.inNewCall i).dsts.get p = s.dsts.get p := fun p hp => by
      rw [inNewCall_dsts, Store.get_push_of_lt (hs.dst.lt p hp)]
    refine ⟨fun p hp => ?_, fun p hp => ?_, hs.dst.keys.congr fun p hp => ?_⟩
    · rw [inNewCall_dsts]
      exact (hs.dst.lt p hp).trans (Nat.lt_succ_self _)
    · exact (hcell p hp).symm ▸ hs.dst.inv p hp
    · simp only [dstKey, hcell p hp]

section Pool

variable (s : Node σ) (p : Ptr)

@[simp] theorem Node.poolDst_srcs : (s.poolDst p).srcs = s.srcs := by
  unfold poolDst; split <;> rfl
@[simp] theorem Node.poolDst_src : (s.poolDst p).src = s.src := by unfold poolDst; split <;> rfl
@[simp] theorem Node.poolDst_dsts : (s.poolDst p).dsts = s.dsts := by
  unfold poolDst; split <;> rfl
@[simp] theorem Node.poolDst_msgs : (s.poolDst p).msgs = s.msgs := by
  unfold poolDst; split <;> rfl
@[simp] theorem Node.poolDst_log : (s.poolDst p).log = s.log := by unfold poolDst; split <;> rfl

end Pool

/-- A new destination transaction behind the call of `process_message`. -/
theorem Node.WF.resumeDst {rsp : Bool} (hs : s.WF) (hp : p < s.dsts.next) (hnew : p ∉ s.dst)
    (hc : Called (s.dsts.get p)) : ((s.onDst p (dstResume · rsp)).poolDst p).WF where
  src := by
    refine hs.src.of_grows (.of_srcs_eq (by simp; rfl) ?_) (by simp [onDst, putDst])
    rw [poolDst_msgs]
    exact (moves_dstResume (s.dstMachine p) rsp).next.ge
  dst := by
    have hother : ∀ q ∈ s.dst, (s.onDst p (dstResume · rsp)).dsts.get q = s.dsts.get q :=
      fun q hq => Store.get_set_of_ne fun h => hnew (h ▸ hq)
    have hold : (s.onDst p (dstResume · rsp)).DstWF := by
      refine ⟨hs.dst.lt, fun q hq => ?_, hs.dst.keys.congr fun q hq => ?_⟩
      · exact (hother q hq).symm ▸ hs.dst.inv q hq
      · simp only [dstKey, hother q hq]
    have hself : (s.onDst p (dstResume · rsp)).dsts.get p =
        ((s.dstMachine p).dstResume rsp).t := Store.get_set_self
    unfold poolDst
    split
    · next hon =>
        rw [hself] at hon
        have hinv := dstResume_inv hc hon
        refine ⟨fun q hq => ?_, fun q hq => ?_, hold.keys.add⟩
        · rcases Pool.mem_add hq with rfl | hq
          · exact hp
          · exact hold.lt q hq
        · rcases Pool.mem_add hq with rfl | hq
          · exact hself.symm ▸ hinv
          · exact hold.inv q hq
    · exact hold

variable {process : Ptr → Ptr → M σ Bool} {s' : Node σ} {r : Result Fault (Node σ) Unit}

/-- The cell of a new transaction when `process_message` returns. -/
theorem Node.inNew_cell (hs : s.WF) (h : Evolves (s.inNewCall i) s') :
    s.dsts.next < s'.dsts.next ∧ s.dsts.next ∉ s'.dst ∧
      s'.dsts.get s.dsts.next = (s.inNewInit i).t := by
  have hnot : s.dsts.next ∉ s.dst := fun h => (hs.dst.lt _ h).ne rfl
  have hf := (h.dstWF hs.inNewCall.dst).2
  refine ⟨?_, fun h => hnot (hf.pool.subset h), ?_⟩
  · rw [hf.next, inNewCall_dsts]
    exact Nat.lt_succ_self _
  · rw [hf.cell _ hnot, inNewCall_dsts, Store.get_push_next]

theorem Node.WF.logIn (hs : s.WF) (i : Ptr) : (s.logIn i).WF := hs.of_eq rfl rfl rfl rfl le_rfl

/-- The transaction that `message_in` has found, in front of a call of `process_message`, and what
comes of the call. -/
theorem Node.InSrc.called {m o : Ptr} {r : Result Fault (Node σ) Bool} (hin : s.InSrc i p)
    (hproc : ∀ i o, Keeps EvolvesWF (process i o)) (hs : s.WF)
    (hres : process m o ((s.logIn i).callSrc p (s.inSrcRun i p).1) = r) :
    ((s.logIn i).srcMachine p).Moves (s.inSrcRun i p).1 ∧
      ((s.logIn i).callSrc p (s.inSrcRun i p).1).WF ∧
      Evolves ((s.logIn i).callSrc p (s.inSrcRun i p).1) r.state := by
  obtain ⟨hmoves, hinv, -⟩ := inSrcRun_spec (hs.src.inv p (Pool.mem_of_find hin.2))
  have hwf := (hs.logIn i).callSrc hmoves hinv
  exact ⟨hmoves, hwf, (hproc _ _).result hres hwf.dst⟩

/-- The source transaction `p` that `message_in` has found for `i`, when it has taken the
message. -/
structure Node.Takes (s : Node σ) (i p : Ptr) (x : Machine SrcState) : Prop where
  found : s.InSrc i p
  eq : x = ((s.logIn i).srcMachine p).srcIn i ∧ s.InAck i ∨ x = (s.inSrcRun i p).1

theorem Node.Takes.spec {x : Machine SrcState} (h : s.Takes i p x) (hs : s.WF) :
    p ∈ s.src ∧ ((s.logIn i).srcMachine p).Moves x ∧ SrcInv x.t ∧ ((s.logIn i).callSrc p x).WF := by
  have hp := Pool.mem_of_find h.found.2
  have hinv := hs.src.inv p hp
  have hx : ((s.logIn i).srcMachine p).Moves x ∧ SrcInv x.t := by
    rcases h.eq with ⟨rfl, hack⟩ | rfl
    · exact ⟨moves_srcIn _ i, srcInv_srcIn_ack hinv hack.1⟩
    · exact ⟨(inSrcRun_spec hinv).1, (inSrcRun_spec hinv).2.1⟩
  exact ⟨hp, hx.1, hx.2, (hs.logIn i).callSrc hx.1 hx.2⟩

theorem Evolves.wf (h : Evolves s s') (hs : s.WF) : s'.WF :=
  ⟨(h.srcWF hs.src).1, (h.dstWF hs.dst).1⟩

/-- What holds behind each way through `message_in`, be it that a call of `process_message` throws
or that it returns. -/
theorem Incoming.induct {P : Node σ → Prop} (h : Incoming process s i r)
    (hproc : ∀ i o, Keeps EvolvesWF (process i o)) (hs : s.WF)
    (put : ∀ p x, s.Takes i p x → P (((s.logIn i).putSrc p x).delFinishedSrc p))
    (call : ∀ p x s₁, s.Takes i p x → Evolves ((s.logIn i).callSrc p x) s₁ →
      P s₁ ∧ P ((s₁.onSrc p srcResume).delFinishedSrc p))
    (dst : ∀ p, s.InDst i p → P (((s.logIn i).putDst p (s.inDstRun i p)).delFinishedDst p))
    (new : ∀ s₁, s.InNew i → Evolves (s.inNewCall i) s₁ → P s₁ ∧
      ∀ rsp, P ((s₁.onDst s.dsts.next (dstResume · rsp)).poolDst s.dsts.next)) : P r.state := by
  cases h with
  | ack hin hack => exact put _ _ ⟨hin, .inl ⟨rfl, hack⟩⟩
  | src hin _ _ => exact put _ _ ⟨hin, .inr rfl⟩
  | srcCall hin _ _ hres => exact (call _ _ _ ⟨hin, .inr rfl⟩ (hin.called hproc hs hres).2.2).2
  | srcThrow hin _ _ hres => exact (call _ _ _ ⟨hin, .inr rfl⟩ (hin.called hproc hs hres).2.2).1
  | dst hin => exact dst _ hin
  | new hnew hres => exact (new _ hnew ((hproc _ _).result hres hs.inNewCall.dst)).2 _
  | newThrow hnew hres => exact (new _ hnew ((hproc _ _).result hres hs.inNewCall.dst)).1

theorem Incoming.wf (hproc : ∀ i o, Keeps EvolvesWF (process i o)) (hs : s.WF)
    (h : Incoming process s i r) : r.state.WF := by
  refine h.induct hproc hs (fun p x hx => ?_) (fun p x s₁ hx hev => ?_)
    (fun p hin => ?_) fun s₁ _ hev => ?_
  · obtain ⟨-, hmoves, hinv, -⟩ := hx.spec hs
    have hg := (Grows.putSrc hmoves hinv).trans (grows_delFinishedSrc _ p)
    exact ⟨(hs.logIn i).src.of_grows hg (sublist_delFinishedSrc _ p),
      hs.dst.of_eq (by simp; rfl) (by simp; rfl)⟩
  · obtain ⟨hp, -, -, hcall⟩ := hx.spec hs
    have hs₁ := hev.wf hcall
    exact ⟨hs₁, (hcall.src.resume hp hs₁.src (hev.srcWF hcall.src).2).1,
      hs₁.dst.of_eq (by simp; rfl) (by simp; rfl)⟩
  · have hp := Pool.mem_of_find hin.2
    obtain ⟨hmoves, hdone⟩ := inDstRun_spec (hs.dst.inv p hp)
    refine ⟨(hs.logIn i).src.of_grows (.of_srcs_eq ?_ ?_) ?_,
      ((hs.logIn i).dst.settle hp hmoves hdone).1⟩
    · simp; rfl
    · rw [delFinishedDst_msgs]
      exact hmoves.next.ge
    · simp [putDst]
  · obtain ⟨hlt, hnot, hcell⟩ := inNew_cell hs hev
    have hs₁ := hev.wf hs.inNewCall
    exact ⟨hs₁, fun _ => hs₁.resumeDst hlt hnot (hcell ▸ called_inNewInit s i)⟩

end

end Odtone.Mihf
