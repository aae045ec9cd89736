import Odtone.Mihf.SrcInv

/-! # What a handler can do to the transaction layer

A handler reaches the transactions only through `message_out`, and `message_out` reaches a handler
only through a pooled source transaction. `Evolves` lists what can come of it: one constructor for
each way through `message_out`, and one for everything that leaves the transactions alone. It holds
of `process_message` whatever the handler is (`process_evolves`), so an invariant that every
constructor keeps is kept by every handler.
-/

namespace Odtone.Mihf

variable {σ C : Type}

/-! ## Machines and nodes -/

namespace Machine

/-- `if (t->transaction_status == ONGOING) t->run();` -/
def srcRunIfOngoing (x : Machine SrcState) : Machine SrcState × Bool :=
  if x.t.transactionStatus = .ongoing then x.srcRun else (x, false)

@[inherit_doc srcRunIfOngoing]
def dstRunIfOngoing (x : Machine DstState) : Machine DstState × Bool :=
  if x.t.transactionStatus = .ongoing then x.dstRun else (x, false)

theorem moves_out {S : Type} (x : Machine S) (o : Ptr) : Moves x (x.out o) :=
  ((moves_submit x o).trans (moves_startedAckRequestor _)).trans (moves_startedAckResponder _)

theorem moves_srcIn (x : Machine SrcState) (i : Ptr) : Moves x (x.srcIn i) :=
  ((moves_receive x i).trans (moves_startedAckRequestor _)).trans (moves_startedAckResponder _)

theorem moves_dstIn (x : Machine DstState) (i : Ptr) : Moves x (x.dstIn i) :=
  (moves_receive x i).trans (moves_startedAckRequestor _)

variable {x : Machine SrcState}

theorem moves_srcRunIfOngoing (h : x.t.state ≠ .init) : Moves x x.srcRunIfOngoing.1 := by
  unfold srcRunIfOngoing
  split
  · exact moves_srcRun x h
  · exact .refl x

theorem moves_dstRunIfOngoing {x : Machine DstState} (h : x.t.state ≠ .init) :
    Moves x x.dstRunIfOngoing.1 := by
  unfold dstRunIfOngoing
  split
  · exact moves_dstRun x h
  · exact .refl x

theorem next_le_dstRunIfOngoing (x : Machine DstState) :
    x.msgs.next ≤ x.dstRunIfOngoing.1.msgs.next := by
  by_cases h : x.t.state = .init
  · unfold dstRunIfOngoing
    split
    · simp [dstRun, h, dstInit]
    · exact le_rfl
  · exact (moves_dstRunIfOngoing h).next.ge

/-- A run stops in front of a call exactly when it leaves the machine in `_process_msg_lbl_`. -/
theorem srcInv_srcRunIfOngoing (h : SrcCore x.t) : SrcInv x.srcRunIfOngoing.1.t ∧
      (x.srcRunIfOngoing.2 = true ↔ x.srcRunIfOngoing.1.t.state = .processMsg) := by
  unfold srcRunIfOngoing
  split
  · exact ⟨srcInv_srcRun h, srcRun_call h.live⟩
  · next hon =>
      have hover : x.t.state = .success ∨ x.t.state = .failure := by
        by_contra hne
        rw [not_or] at hne
        exact hon (h.status hne.1 hne.2)
      rcases hover with hst | hst
      all_goals exact ⟨h.inv_of_state (by simp [hst]), by simp [hst]⟩

end Machine

namespace Node

variable {s : Node σ C} {p : Ptr}

theorem srcMachine_putSrc (hs : x.side = .src) (hp : x.ptr = p) :
    (s.putSrc p x).srcMachine p = x := by
  cases x
  cases hs
  cases hp
  simp [putSrc, srcMachine]

theorem dstMachine_putDst {x : Machine DstState} (hs : x.side = .dst) (hp : x.ptr = p) :
    (s.putDst p x).dstMachine p = x := by
  cases x
  cases hs
  cases hp
  simp [putDst, dstMachine]

@[simp] theorem putSrc_putSrc {x y : Machine SrcState} :
    (s.putSrc p x).putSrc p y = s.putSrc p y := by
  simp [putSrc, Store.set]

@[simp] theorem putDst_putDst {x y : Machine DstState} :
    (s.putDst p x).putDst p y = s.putDst p y := by
  simp [putDst, Store.set]

@[simp] theorem putDst_dstMachine : s.putDst p (s.dstMachine p) = s := by
  simp [putDst, dstMachine, Store.set, Store.get]

@[simp] theorem callSrc_putSrc {x y : Machine SrcState} :
    (s.putSrc p x).callSrc p y = s.callSrc p y := by
  simp only [callSrc, putSrc_putSrc]

end Node

section

variable (process : Ptr → Ptr → MOn C σ Bool) {s : Node σ C} {p : Ptr}

theorem runSrcIfOngoing_putSrc (hs : x.side = .src) (hp : x.ptr = p) :
    runSrcIfOngoing process p (s.putSrc p x) = if x.srcRunIfOngoing.2 then
        (process x.srcRunIfOngoing.1.t.inMsg x.srcRunIfOngoing.1.t.outMsg).after
          (fun _ s => s.onSrc p Machine.srcResume) (s.callSrc p x.srcRunIfOngoing.1)
      else .ok () (s.putSrc p x.srcRunIfOngoing.1) := by
  have hx : (s.putSrc p x).srcMachine p = x := s.srcMachine_putSrc hs hp
  have ht : (s.putSrc p x).srcs.get p = x.t := by simp [Node.putSrc]
  unfold runSrcIfOngoing Machine.srcRunIfOngoing
  rw [ht]
  split
  · simp only [runSrc, hx, Node.callSrc_putSrc, Node.putSrc_putSrc]
  · simp

theorem runDst_eq (h : (s.dsts.get p).state ≠ .init) :
    runDst process p s = .ok () (s.putDst p (s.dstMachine p).dstRun.1) := by
  have hrun : (s.dstMachine p).dstRun.2 = false := by
    rw [← Bool.not_eq_true, Machine.dstRun_snd]
    exact h
  exact if_neg (by simp [hrun])

theorem runDstIfOngoing_putDst {x : Machine DstState} (hs : x.side = .dst) (hp : x.ptr = p)
    (hst : x.t.state ≠ .init) :
    runDstIfOngoing process p (s.putDst p x) = .ok () (s.putDst p x.dstRunIfOngoing.1) := by
  have hx : (s.putDst p x).dstMachine p = x := s.dstMachine_putDst hs hp
  have ht : (s.putDst p x).dsts.get p = x.t := by simp [Node.putDst]
  unfold runDstIfOngoing Machine.dstRunIfOngoing
  rw [ht]
  split
  · rw [runDst_eq process (ht ▸ hst), hx, Node.putDst_putDst]
  · simp

end

/-! ## The relation -/

/-- Everything a handler does by itself: it leaves the transactions alone, and of what it logs it
is only the sending to local users. -/
structure Node.Apart (s s' : Node σ C) : Prop where
  srcs : s'.srcs = s.srcs
  dsts : s'.dsts = s.dsts
  src : s'.src = s.src
  dst : s'.dst = s.dst
  tid : s'.tid = s.tid
  msgs : s.msgs.next ≤ s'.msgs.next
  log : ∃ l, s'.log = s.log ++ l ∧ ∀ e ∈ l, ∃ p m, e = .udpSend p m

namespace Node.Apart

variable {s s' s'' : Node σ C}

theorem refl (s : Node σ C) : s.Apart s := ⟨rfl, rfl, rfl, rfl, rfl, le_rfl, [], by simp, by simp⟩

theorem trans (h : s.Apart s') (h' : s'.Apart s'') : s.Apart s'' := by
  obtain ⟨l, hl, he⟩ := h.log
  obtain ⟨l', hl', he'⟩ := h'.log
  refine ⟨h'.srcs.trans h.srcs, h'.dsts.trans h.dsts, h'.src.trans h.src, h'.dst.trans h.dst,
    h'.tid.trans h.tid, h.msgs.trans h'.msgs, l ++ l', by rw [hl', hl, List.append_assoc], ?_⟩
  intro e hmem
  rcases List.mem_append.mp hmem with hmem | hmem
  · exact he e hmem
  · exact he' e hmem

end Node.Apart

instance : Std.Refl (Node.Apart (σ := σ) (C := C)) := ⟨.refl⟩

instance : IsTrans (Node σ C) Node.Apart := ⟨fun _ _ _ => .trans⟩

/-- All operations of a handler but `message_out` leave the transactions alone. -/
theorem perform_keeps {out : Ptr → MOn C σ Unit} {R : Node σ C → Node σ C → Prop}
    (hapart : ∀ s s', s.Apart s' → R s s')
    (hout : ∀ s o, o < s.msgs.next → R s (out o s).state) (op : Op σ) :
    Keeps R (perform out op) := by
  intro s
  have hnil : ∃ l, s.log = s.log ++ l ∧ ∀ e ∈ l, ∃ p m, e = Event.udpSend p m :=
    ⟨[], by simp, by simp⟩
  cases op with
  | newMsg m => exact hapart _ _ ⟨rfl, rfl, rfl, rfl, rfl, Nat.le_succ _, hnil⟩
  | writeMsg | setSvc | setLpool => exact hapart _ _ ⟨rfl, rfl, rfl, rfl, rfl, le_rfl, hnil⟩
  | udpSend p =>
    exact hapart _ _ ⟨rfl, rfl, rfl, rfl, rfl, le_rfl, [.udpSend p (s.msgs.get p)], rfl, by simp⟩
  | readMsg | getSvc | getLpool => exact hapart _ _ (.refl s)
  | messageOut p =>
    by_cases hp : p < s.msgs.next
    · have heq : perform out (.messageOut p) s = out p s := if_pos hp
      rw [heq]
      exact hout s p hp
    · have heq : perform out (.messageOut p) s = .error .badPointer s := if_neg hp
      rw [heq]
      exact hapart _ _ (.refl s)

namespace Node

/-- What `message_out` looks a transaction for the message `o` up by. -/
def outKey (s : Node σ C) (o : Ptr) : Id × UInt16 :=
  ((s.msgs.get o).destination, (s.msgs.get o).tid)

/-- The operation of the message `o`. -/
def outOp (s : Node σ C) (o : Ptr) : Operation := (s.msgs.get o).opcode

@[simp] theorem get_logOut [Pool.Container C] (s : Node σ C) (o : Ptr) :
    (s.logOut o).msgs.get o = { s.msgs.get o with ackreq := true } := by
  simp [logOut, emit]

@[simp] theorem outKey_logOut [Pool.Container C] (s : Node σ C) (o : Ptr) :
    (s.logOut o).outKey o = s.outKey o := by
  simp [outKey]

@[simp] theorem outOp_logOut [Pool.Container C] (s : Node σ C) (o : Ptr) :
    (s.logOut o).outOp o = s.outOp o := by
  simp [outOp, MetaMessage.opcode]

/-- `message_out` finds no transaction for `o`. -/
def OutNew (s : Node σ) (o : Ptr) : Prop :=
  o < s.msgs.next ∧ (s.outOp o = .response ∧ s.findDst (s.outKey o) = none ∨
    (s.outOp o = .request ∨ s.outOp o = .indication) ∧ s.findSrc (s.outKey o) = none)

theorem OutNew.not_confirm {s : Node σ} {o : Ptr} (h : s.OutNew o) :
    (s.logOut o).outOp o ≠ .confirm := by
  rw [outOp_logOut]
  rcases h.2 with ⟨h, -⟩ | ⟨h | h, -⟩ <;> simp [h]

/-- `message_out` finds the destination transaction `p` for the response `o`. -/
def OutDst [Pool.Container C] (s : Node σ C) (o p : Ptr) : Prop :=
  s.outOp o = .response ∧ s.findDst (s.outKey o) = some p

/-- `message_out` finds the source transaction `p` for `o`. -/
def OutSrc (s : Node σ) (o p : Ptr) : Prop :=
  (s.outOp o = .request ∨ s.outOp o = .indication) ∧ s.findSrc (s.outKey o) = some p

/-- A new source transaction for `o`, run and pooled. -/
def startSrc (s : Node σ) (o : Ptr) : Node σ :=
  ((s.newSrc o).putSrc s.srcs.next ((s.newSrc o).srcMachine s.srcs.next).srcRun.1).poolSrc
    s.srcs.next

/-- The source transaction `p` with the message `o` submitted to it, run up to a call of
`process_message`. -/
def outSrcRun (s : Node σ) (o p : Ptr) : Machine SrcState × Bool :=
  (((s.logOut o).srcMachine p).out o).srcRunIfOngoing

/-- The destination transaction `p` with the message `o` submitted to it, run. -/
def outDstRun [Pool.Container C] (s : Node σ C) (o p : Ptr) : Machine DstState :=
  (((s.logOut o).dstMachine p).out o).dstRunIfOngoing.1

end Node

/-- What becomes of a node in a call of `process_message`, whether it returns or throws. -/
inductive Evolves : Node σ → Node σ → Prop
  | refl (s : Node σ) : Evolves s s
  | trans {s s' s'' : Node σ} : Evolves s s' → Evolves s' s'' → Evolves s s''
  | apart {s s' : Node σ} : s.Apart s' → Evolves s s'
  /-- `message_out` ignores a confirm -/
  | outConfirm (s : Node σ) (o : Ptr) : s.outOp o = .confirm → Evolves s (s.logOut o)
  /-- `message_out` starts a transaction -/
  | outNew {s : Node σ} {o : Ptr} : s.OutNew o → Evolves s ((s.logOut o).startSrc o)
  /-- `message_out` gives a response to its transaction -/
  | outDst {s : Node σ} {o p : Ptr} : s.OutDst o p →
      Evolves s (((s.logOut o).putDst p (s.outDstRun o p)).delFinishedDst p)
  /-- `message_out` gives a message to a pooled transaction, which has nothing to process -/
  | outSrc {s : Node σ} {o p : Ptr} : s.OutSrc o p → (s.outSrcRun o p).2 = false →
      Evolves s (((s.logOut o).putSrc p (s.outSrcRun o p).1).delFinishedSrc p)
  /-- `message_out` gives a message to a pooled transaction, which processes its input first -/
  | outCall {s s' : Node σ} {o p : Ptr} : s.OutSrc o p → (s.outSrcRun o p).2 = true →
      Evolves ((s.logOut o).callSrc p (s.outSrcRun o p).1) s' →
      Evolves s ((s'.onSrc p Machine.srcResume).delFinishedSrc p)
  /-- the same, and processing the input throws -/
  | outThrow {s s' : Node σ} {o p : Ptr} : s.OutSrc o p → (s.outSrcRun o p).2 = true →
      Evolves ((s.logOut o).callSrc p (s.outSrcRun o p).1) s' → Evolves s s'

end Odtone.Mihf
