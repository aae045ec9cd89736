import Odtone.Mihf.Lifetime

/-! # The course of a source transaction

A reaction of the node touches many transactions in turn, and the handlers it calls may come back to
the same one. What it comes to for a single source transaction is a sequence of moves of its
machine: a message is submitted to it, it is handed a frame, it is run, it resumes behind a call of
`process_message`. `Trace` is the transaction together with everything that was logged on its
behalf, and `SrcMoves` is what a call of `process_message` can do to it. Statements about one
transaction over whole runs are then proved move by move. -/

namespace Odtone.Mihf

open Machine Node List Pool EStateM

variable {σ S : Type}

/-! ## Traces -/

/-- Is the event something done on behalf of the transaction `p`? -/
def Event.isOf (d : Side) (p : Ptr) : Event → Bool
  | .send o _ _ _ => o.side = d && o.ptr = p
  | .process o _ _ => o.side = d && o.ptr = p
  | _ => false

/-- A transaction, and what has been done on its behalf. -/
structure Trace (S : Type) where
  t : Transaction S
  deeds : List Event

namespace Node

/-- What has been done on behalf of the transaction `p`. -/
def deeds {C : Type} (s : Node σ C) (d : Side) (p : Ptr) : List Event :=
  s.log.filter (Event.isOf d p)

def srcTrace {C : Type} (s : Node σ C) (p : Ptr) : Trace SrcState :=
  ⟨s.srcs.get p, s.deeds .src p⟩

def dstTrace {C : Type} (s : Node σ C) (p : Ptr) : Trace DstState :=
  ⟨s.dsts.get p, s.deeds .dst p⟩

end Node

/-! ## Moves of one machine -/

/-- Everything that is logged between `x` and `y` is done on behalf of the transaction. -/
structure Machine.Own (x y : Machine S) : Prop where
  side : y.side = x.side
  ptr : y.ptr = x.ptr
  log : ∃ l, y.log = x.log ++ l ∧ ∀ e ∈ l, e.isOf x.side x.ptr = true

namespace Machine

variable {x y z : Machine S}

theorem Own.of_moves (h : Moves x y) : Own x y where
  side := h.side
  ptr := h.ptr
  log := by
    obtain ⟨l, hl, he⟩ := h.log
    refine ⟨l, hl, fun e hmem => ?_⟩
    obtain ⟨why, p, m, -, rfl⟩ := he e hmem
    simp [Event.isOf, owner]

theorem Own.trans (h : Own x y) (h' : Own y z) : Own x z := by
  obtain ⟨l, hl, he⟩ := h.log
  obtain ⟨l', hl', he'⟩ := h'.log
  rw [h.side, h.ptr] at he'
  refine ⟨h'.side.trans h.side, h'.ptr.trans h.ptr, l ++ l', by rw [hl', hl, append_assoc], ?_⟩
  intro e hmem
  rcases mem_append.mp hmem with hmem | hmem
  · exact he e hmem
  · exact he' e hmem

/-- The call of `process_message` is logged. -/
def called (x : Machine S) : Machine S :=
  { x with log := x.log ++ [.process x.owner x.t.inMsg x.inMsg] }

theorem own_called (x : Machine S) : Own x x.called where
  side := rfl
  ptr := rfl
  log := ⟨[.process x.owner x.t.inMsg x.inMsg], rfl, by simp [Event.isOf, owner]⟩

/-- `run()`, up to and including a call of `process_message`. -/
def srcAdvance (x : Machine SrcState) : Machine SrcState :=
  if x.srcRun.2 then x.srcRun.1.called else x.srcRun.1

theorem srcAdvance_t (x : Machine SrcState) : x.srcAdvance.t = x.srcRun.1.t := by
  unfold srcAdvance
  split <;> rfl

variable {x : Machine SrcState}

theorem own_srcAdvance (h : x.t.state ≠ .init) : Own x x.srcAdvance := by
  have hrun := Own.of_moves (moves_srcRun x h)
  unfold srcAdvance
  split
  · exact hrun.trans (own_called _)
  · exact hrun

end Machine

/-- The transaction `p` does `f`, in a situation that satisfies `P`. -/
def Trace.Does (d : Side) (p : Ptr) (P : Machine S → Prop) (f : Machine S → Machine S)
    (a b : Trace S) : Prop :=
  ∃ x : Machine S, x.side = d ∧ x.ptr = p ∧ x.t = a.t ∧ P x ∧ b.t = (f x).t ∧
    ∃ l, (f x).log = x.log ++ l ∧ b.deeds = a.deeds ++ l

/-- What a call of `process_message` can do to the source transaction `p`: messages are submitted to
it, where `O` holds of it, and it is run. With `true`, it may also be run to begin with. -/
inductive SrcMoves (O : SrcTransaction → Prop) (p : Ptr) :
    Bool → Trace SrcState → Trace SrcState → Prop
  | refl (r : Bool) (a : Trace SrcState) : SrcMoves O p r a a
  | trans {r : Bool} {a b c : Trace SrcState} : SrcMoves O p r a b → SrcMoves O p false b c →
      SrcMoves O p r a c
  | out {r : Bool} {a b c : Trace SrcState} {o : Ptr} : O a.t →
      a.Does .src p (fun _ => True) (·.out o) b → SrcMoves O p true b c → SrcMoves O p r a c
  /-- a run, which need not return from the call it makes -/
  | advance {a b : Trace SrcState} : a.Does .src p (fun _ => True) Machine.srcAdvance b →
      SrcMoves O p true a b
  /-- a run that returns from its call -/
  | call {a b c d : Trace SrcState} : a.Does .src p (fun _ => True) Machine.srcAdvance b →
      b.t.state = .processMsg → SrcMoves O p false b c →
      c.Does .src p (fun _ => True) Machine.srcResume d → SrcMoves O p true a d

variable {a b : Trace SrcState}

theorem SrcMoves.mono {O O' : SrcTransaction → Prop} {p : Ptr} {r : Bool} (hO : ∀ t, O t → O' t)
    (h : SrcMoves O p r a b) : SrcMoves O' p r a b := by
  induction h with
  | refl r a => exact .refl r a
  | trans _ _ ih ih' => exact .trans ih ih'
  | out ho h _ ih => exact .out (hO _ ho) h ih
  | advance h => exact .advance h
  | call h₁ hst _ h₂ ih => exact .call h₁ hst ih h₂

/-! ## Traces in a node -/

theorem Event.isOf_inj {d d' : Side} {p q : Ptr} {e : Event} (h : e.isOf d p = true)
    (h' : e.isOf d' q = true) : d = d' ∧ p = q := by
  cases e with
  | send | process =>
    simp only [isOf, Bool.and_eq_true, decide_eq_true_eq] at h h'
    exact ⟨h.1.symm.trans h'.1, h.2.symm.trans h'.2⟩
  | messageIn | messageOut | udpSend => cases h

/-- Is the event a call of `message_out` with the key `k`? -/
def Event.submits (k : Id × UInt16) : Event → Bool
  | .messageOut _ m _ _ => (m.destination, m.tid) = k
  | _ => false

namespace Node

/-- How often `message_out` has been called with the key `k`. -/
def submissions (s : Node σ) (k : Id × UInt16) : Nat := s.log.countP (Event.submits k)

/-- Between `s` and `s'`, `message_out` has been called with the key `k`, and some time found `t`
for a request or an indication. -/
structure Submits (s s' : Node σ) (k : Id × UInt16) (t : SrcTransaction) : Prop where
  later : s.submissions k < s'.submissions k
  found : ∃ o m dst, .messageOut o m (some t) dst ∈ s'.log ∧
    (m.opcode = .request ∨ m.opcode = .indication)

section

variable {s s' : Node σ} {p q : Ptr} {d d' : Side} {k : Id × UInt16} {l : List Event}

/-- Everything that is added to the log is done on behalf of `p`. -/
theorem deeds_append (hlog : s'.log = s.log ++ l) (hl : ∀ e ∈ l, e.isOf d p = true) :
    s'.deeds d p = s.deeds d p ++ l := by
  unfold deeds
  rw [hlog, filter_append, filter_eq_self.mpr hl]

/-- Nothing that is added to the log is done on behalf of `p`. -/
theorem deeds_of_notOf (hlog : s'.log = s.log ++ l) (hl : ∀ e ∈ l, e.isOf d p = false) :
    s'.deeds d p = s.deeds d p := by
  have hnil : l.filter (Event.isOf d p) = [] := filter_eq_nil_iff.mpr fun e he => by simp [hl e he]
  unfold deeds
  rw [hlog, filter_append, hnil, append_nil]

theorem deeds_of_ne (hlog : s'.log = s.log ++ l) (hl : ∀ e ∈ l, e.isOf d p = true)
    (hne : ¬ (d = d' ∧ p = q)) : s'.deeds d' q = s.deeds d' q := by
  refine deeds_of_notOf hlog fun e he => ?_
  by_contra hq
  exact hne (Event.isOf_inj (hl e he) (by simpa using hq))

theorem submissions_mono (h : s.log <+: s'.log) (k : Id × UInt16) :
    s.submissions k ≤ s'.submissions k := by
  obtain ⟨l, hl⟩ := h
  unfold submissions
  rw [← hl, countP_append]
  exact Nat.le_add_right _ _

theorem Submits.mono {s₀ s₁ : Node σ} {t : SrcTransaction} (h : s.Submits s' k t)
    (hle : s₀.log <+: s.log) (hle' : s'.log <+: s₁.log) : s₀.Submits s₁ k t where
  later := ((submissions_mono hle k).trans_lt h.later).trans_le (submissions_mono hle' k)
  found := by
    obtain ⟨o, m, dst, hmem, hop⟩ := h.found
    exact ⟨o, m, dst, hle'.subset hmem, hop⟩

theorem does_putSrc {P : Machine SrcState → Prop} {f : Machine SrcState → Machine SrcState}
    (hP : P (s.srcMachine p)) (hf : (s.srcMachine p).Own (f (s.srcMachine p))) :
    (s.srcTrace p).Does .src p P f ((s.onSrc p f).srcTrace p) := by
  obtain ⟨l, hl, he⟩ := hf.log
  exact ⟨s.srcMachine p, rfl, rfl, rfl, hP, Store.get_set_self, l, hl, deeds_append hl he⟩

theorem does_putDst {P : Machine DstState → Prop} {f : Machine DstState → Machine DstState}
    (hP : P (s.dstMachine p)) (hf : (s.dstMachine p).Own (f (s.dstMachine p))) :
    (s.dstTrace p).Does .dst p P f ((s.onDst p f).dstTrace p) := by
  obtain ⟨l, hl, he⟩ := hf.log
  exact ⟨s.dstMachine p, rfl, rfl, rfl, hP, Store.get_set_self, l, hl, deeds_append hl he⟩

section Others

variable {x : Machine SrcState} {y : Machine DstState}

theorem srcTrace_putSrc_of_ne (hx : (s.srcMachine p).Own x) (hne : q ≠ p) :
    (s.putSrc p x).srcTrace q = s.srcTrace q := by
  obtain ⟨l, hl, he⟩ := hx.log
  unfold srcTrace
  have hlog : (s.putSrc p x).log = s.log ++ l := hl
  rw [deeds_of_ne hlog he fun h => hne h.2.symm]
  congr 1
  exact Store.get_set_of_ne hne

theorem dstTrace_putSrc (hx : (s.srcMachine p).Own x) :
    (s.putSrc p x).dstTrace q = s.dstTrace q := by
  obtain ⟨l, hl, he⟩ := hx.log
  unfold dstTrace
  have hlog : (s.putSrc p x).log = s.log ++ l := hl
  rw [deeds_of_ne hlog he (by rintro ⟨⟨⟩, -⟩)]
  rfl

theorem dstTrace_putDst_of_ne (hy : (s.dstMachine p).Own y) (hne : q ≠ p) :
    (s.putDst p y).dstTrace q = s.dstTrace q := by
  obtain ⟨l, hl, he⟩ := hy.log
  unfold dstTrace
  have hlog : (s.putDst p y).log = s.log ++ l := hl
  rw [deeds_of_ne hlog he fun h => hne h.2.symm]
  congr 1
  exact Store.get_set_of_ne hne

theorem srcTrace_putDst (hy : (s.dstMachine p).Own y) :
    (s.putDst p y).srcTrace q = s.srcTrace q := by
  obtain ⟨l, hl, he⟩ := hy.log
  unfold srcTrace
  have hlog : (s.putDst p y).log = s.log ++ l := hl
  rw [deeds_of_ne hlog he (by rintro ⟨⟨⟩, -⟩)]
  rfl

end Others

/-- The trace does not depend on the pools, the messages and the entries about other things. -/
theorem srcTrace_congr (hsrcs : s'.srcs = s.srcs) (hlog : s'.log = s.log) :
    s'.srcTrace q = s.srcTrace q := by
  simp only [srcTrace, deeds, hsrcs, hlog]

theorem dstTrace_congr (hdsts : s'.dsts = s.dsts) (hlog : s'.log = s.log) :
    s'.dstTrace q = s.dstTrace q := by
  simp only [dstTrace, deeds, hdsts, hlog]

theorem deeds_logOut (s : Node σ) (o : Ptr) : (s.logOut o).deeds d q = s.deeds d q :=
  deeds_of_notOf (s.logOut_log o) (by simp [outEvent, Event.isOf])

theorem deeds_logIn (s : Node σ) (i : Ptr) : (s.logIn i).deeds d q = s.deeds d q :=
  deeds_of_notOf (l := [_]) rfl (by simp [Event.isOf])

theorem srcTrace_logOut (s : Node σ) (o : Ptr) : (s.logOut o).srcTrace q = s.srcTrace q := by
  simp only [srcTrace, deeds_logOut]
  rfl

theorem dstTrace_logOut (s : Node σ) (o : Ptr) : (s.logOut o).dstTrace q = s.dstTrace q := by
  simp only [dstTrace, deeds_logOut]
  rfl

theorem srcTrace_logIn (s : Node σ) (i : Ptr) : (s.logIn i).srcTrace q = s.srcTrace q := by
  simp only [srcTrace, deeds_logIn]
  rfl

theorem dstTrace_logIn (s : Node σ) (i : Ptr) : (s.logIn i).dstTrace q = s.dstTrace q := by
  simp only [dstTrace, deeds_logIn]
  rfl

theorem Apart.deeds (h : s.Apart s') : s'.deeds d q = s.deeds d q := by
  obtain ⟨l, hl, he⟩ := h.log
  refine deeds_of_notOf hl fun e hmem => ?_
  obtain ⟨p, m, rfl⟩ := he e hmem
  rfl

theorem Apart.srcTrace (h : s.Apart s') : s'.srcTrace q = s.srcTrace q := by
  simp only [Node.srcTrace, h.deeds, h.srcs]

theorem Apart.dstTrace (h : s.Apart s') : s'.dstTrace q = s.dstTrace q := by
  simp only [Node.dstTrace, h.deeds, h.dsts]

@[simp] theorem srcTrace_delFinishedSrc : (s.delFinishedSrc p).srcTrace q = s.srcTrace q :=
  srcTrace_congr (delFinishedSrc_srcs s p) (delFinishedSrc_log s p)

@[simp] theorem srcTrace_delFinishedDst : (s.delFinishedDst p).srcTrace q = s.srcTrace q :=
  srcTrace_congr (delFinishedDst_srcs s p) (delFinishedDst_log s p)

@[simp] theorem dstTrace_delFinishedSrc : (s.delFinishedSrc p).dstTrace q = s.dstTrace q :=
  dstTrace_congr (delFinishedSrc_dsts s p) (delFinishedSrc_log s p)

@[simp] theorem dstTrace_delFinishedDst : (s.delFinishedDst p).dstTrace q = s.dstTrace q :=
  dstTrace_congr (delFinishedDst_dsts s p) (delFinishedDst_log s p)

/-- The call of `process_message` is part of the run. -/
theorem callSrc_eq (hx : (s.srcMachine p).Moves x) : s.callSrc p x = s.putSrc p x.called := by
  have hside : x.side = .src := hx.side
  have hptr : x.ptr = p := hx.ptr
  simp only [callSrc, putSrc, emit, called, owner, hside, hptr]

end

end Node

section

variable {s : Node σ} {p q : Ptr} {O : SrcTransaction → Prop}

variable {f : Machine SrcState → Machine SrcState}

section

variable (hf : (s.srcMachine p).Moves (f (s.srcMachine p)))
  (hlive : (f (s.srcMachine p)).t.state ≠ .init)
include hf hlive

theorem does_advance :
    ((s.onSrc p f).srcTrace p).Does .src p (fun _ => True) srcAdvance
      ((s.putSrc p (f (s.srcMachine p)).srcAdvance).srcTrace p) := by
  have hx : (s.onSrc p f).srcMachine p = f (s.srcMachine p) := srcMachine_putSrc hf.side hf.ptr
  have heq : (s.onSrc p f).onSrc p srcAdvance = s.putSrc p (f (s.srcMachine p)).srcAdvance := by
    rw [onSrc, hx, onSrc, putSrc_putSrc]
  rw [← heq]
  exact does_putSrc trivial (hx ▸ own_srcAdvance hlive)

theorem srcMoves_run (h : (f (s.srcMachine p)).srcRunIfOngoing.2 = false) :
    SrcMoves O p true ((s.onSrc p f).srcTrace p)
      ((s.putSrc p (f (s.srcMachine p)).srcRunIfOngoing.1).srcTrace p) := by
  have hdoes := does_advance hf hlive
  unfold srcRunIfOngoing at h ⊢
  split
  · next hon =>
      rw [if_pos hon] at h
      rw [srcAdvance, if_neg (by simp [h])] at hdoes
      exact .advance hdoes
  · exact .refl true _

theorem does_call (h : (f (s.srcMachine p)).srcRunIfOngoing.2 = true) :
    ((s.onSrc p f).srcTrace p).Does .src p (fun _ => True) srcAdvance
      ((s.callSrc p (f (s.srcMachine p)).srcRunIfOngoing.1).srcTrace p) := by
  have hdoes := does_advance hf hlive
  unfold srcRunIfOngoing at h ⊢
  split
  · next hon =>
      rw [if_pos hon] at h
      rw [srcAdvance, if_pos h] at hdoes
      rwa [callSrc_eq (hf.trans (moves_srcRun _ hlive))]
  · next hon =>
      rw [if_neg hon] at h
      cases h

end

/-- The other transactions do not notice. -/
theorem Node.srcTrace_callSrc_of_ne (hx : (s.srcMachine p).Moves x) (hne : q ≠ p) :
    (s.callSrc p x).srcTrace q = s.srcTrace q := by
  rw [callSrc_eq hx]
  exact srcTrace_putSrc_of_ne ((Own.of_moves hx).trans (own_called x)) hne

theorem Node.dstTrace_callSrc (hx : (s.srcMachine p).Moves x) :
    (s.callSrc p x).dstTrace q = s.dstTrace q := by
  rw [callSrc_eq hx]
  exact dstTrace_putSrc ((Own.of_moves hx).trans (own_called x))

theorem does_resume (s : Node σ) (p : Ptr) : (s.srcTrace p).Does .src p (fun _ => True) srcResume
      (((s.onSrc p srcResume).delFinishedSrc p).srcTrace p) := by
  rw [srcTrace_delFinishedSrc]
  exact does_putSrc trivial (.of_moves (moves_srcResume _))

end

/-! ## Calls of `process_message` -/

section

variable {s s' : Node σ} {o p q : Ptr} {O : SrcTransaction → Prop} {r : Bool}

theorem Logs.isPrefix (h : Logs s s') : s.log <+: s'.log := by
  obtain ⟨l, hl, -⟩ := h
  exact ⟨l, hl.symm⟩

/-- The call of `message_out` that finds `p` is logged. -/
theorem Node.OutSrc.submits (h : s.OutSrc o p) :
    s.Submits (s.logOut o) (s.srcKey p) (s.srcs.get p) where
  later := by
    have hkey : s.outKey o = s.srcKey p := (key_of_find h.2).symm
    have hcount : (s.outEvent o).submits (s.srcKey p) = true := by
      rw [← hkey, ← outKey_logOut]
      simp [outEvent, Event.submits, outKey]
    unfold submissions
    rw [s.logOut_log, countP_append, countP_singleton, if_pos hcount]
    exact Nat.lt_succ_self _
  found := by
    refine ⟨o, (s.logOut o).msgs.get o, (s.findDst (s.outKey o)).map s.dsts.get, ?_, ?_⟩
    · rw [s.logOut_log, outEvent, h.2]
      simp
    · have hop := h.1
      rwa [← s.outOp_logOut o] at hop

theorem does_out (s : Node σ) (o p : Ptr) : (s.srcTrace p).Does .src p (fun _ => True) (·.out o)
      (((s.logOut o).onSrc p (·.out o)).srcTrace p) := by
  rw [← s.srcTrace_logOut o]
  exact does_putSrc trivial (.of_moves (moves_out _ o))

theorem Node.startSrc_srcTrace_of_ne (hne : q ≠ s.srcs.next) :
    (s.startSrc o).srcTrace q = s.srcTrace q := by
  unfold srcTrace
  rw [startSrc_srcs, Store.get_push_of_ne hne]
  congr 1
  exact deeds_of_notOf (s.startSrc_log o) (by simpa [Event.isOf] using hne.symm)

theorem Node.startSrc_dstTrace (s : Node σ) : (s.startSrc o).dstTrace q = s.dstTrace q := by
  unfold dstTrace
  rw [deeds_of_notOf (s.startSrc_log o) (by simp [Event.isOf])]
  congr 1
  simp [startSrc]
  rfl

theorem Node.callSrc_state (hx : x.t.state = .processMsg) :
    ((s.callSrc p x).srcTrace p).t.state = .processMsg := by
  change ((s.srcs.set p x.t).get p).state = .processMsg
  rw [Store.get_set_self]
  exact hx

theorem Node.srcKey_of_trace (h : s'.srcTrace q = s.srcTrace q) : s'.srcKey q = s.srcKey q :=
  congrArg (Transaction.key ∘ Trace.t) h

theorem Node.callSrc_srcKey (hx : (s.srcMachine p).Moves x) :
    (s.callSrc p x).srcKey p = s.srcKey p := by
  change ((s.srcs.set p x.t).get p).key = _
  rw [Store.get_set_self]
  exact hx.key

/-- The node as the source transaction `q` sees it is the same. -/
structure Node.Alike (s s' : Node σ) (q : Ptr) : Prop where
  trace : s'.srcTrace q = s.srcTrace q
  next : s'.srcs.next = s.srcs.next
  src : s'.src.Sublist s.src
  log : s.log <+: s'.log

theorem Machine.Own.isPrefix {S : Type} {x y : Machine S} (h : x.Own y) : x.log <+: y.log := by
  obtain ⟨l, hl, -⟩ := h.log
  exact ⟨l, hl.symm⟩

namespace Node.Alike

theorem refl (s : Node σ) (q : Ptr) : s.Alike s q := ⟨rfl, rfl, Sublist.refl _, prefix_rfl⟩

theorem trans {s'' : Node σ} (h : s.Alike s' q) (h' : s'.Alike s'' q) : s.Alike s'' q :=
  ⟨h'.trace.trans h.trace, h'.next.trans h.next, h'.src.trans h.src, h.log.trans h'.log⟩

theorem apart (h : s.Apart s') : s.Alike s' q := by
  obtain ⟨l, hl, -⟩ := h.log
  exact ⟨h.srcTrace, by rw [h.srcs], by rw [h.src], l, hl.symm⟩

theorem logOut (s : Node σ) (o q : Ptr) : s.Alike (s.logOut o) q :=
  ⟨s.srcTrace_logOut o, rfl, Sublist.refl _, _, (s.logOut_log o).symm⟩

theorem logIn (s : Node σ) (i q : Ptr) : s.Alike (s.logIn i) q :=
  ⟨s.srcTrace_logIn i, rfl, Sublist.refl _, (logs_logIn s i).isPrefix⟩

theorem putSrc (hx : (s.srcMachine p).Own x) (hne : q ≠ p) :
    s.Alike ((s.putSrc p x).delFinishedSrc p) q where
  trace := by
    rw [srcTrace_delFinishedSrc]
    exact srcTrace_putSrc_of_ne hx hne
  next := by rw [delFinishedSrc_srcs]; rfl
  src := sublist_delFinishedSrc (s.putSrc p x) p
  log := by
    rw [delFinishedSrc_log]
    exact hx.isPrefix

theorem callSrc (hx : (s.srcMachine p).Moves x) (hne : q ≠ p) : s.Alike (s.callSrc p x) q :=
  ⟨srcTrace_callSrc_of_ne hx hne, rfl, Sublist.refl _, (logs_callSrc hx).isPrefix⟩

theorem putDst {y : Machine DstState} (hy : (s.dstMachine p).Own y) :
    s.Alike ((s.putDst p y).delFinishedDst p) q where
  trace := by
    rw [srcTrace_delFinishedDst]
    exact srcTrace_putDst hy
  next := by rw [delFinishedDst_srcs]; rfl
  src := by rw [delFinishedDst_src]; exact Sublist.refl _
  log := by
    rw [delFinishedDst_log]
    exact hy.isPrefix

theorem resumeDst (s : Node σ) (p q : Ptr) (rsp : Bool) :
    s.Alike ((s.onDst p (dstResume · rsp)).poolDst p) q where
  trace := (srcTrace_congr (poolDst_srcs _ p) (poolDst_log _ p)).trans
    (srcTrace_putDst (.of_moves (moves_dstResume _ rsp)))
  next := by rw [poolDst_srcs]; rfl
  src := by rw [poolDst_src]; exact Sublist.refl _
  log := by
    rw [poolDst_log]
    exact (Own.of_moves (moves_dstResume (s.dstMachine p) rsp)).isPrefix

end Node.Alike

/-- Between `s` and `s'` the source transaction `q` makes moves, and none unless it is pooled. -/
structure Node.Moved (s s' : Node σ) (q : Ptr) : Prop where
  moves : SrcMoves (s.Submits s' (s.srcKey q)) q false (s.srcTrace q) (s'.srcTrace q)
  idle : q ∉ s.src → s'.srcTrace q = s.srcTrace q

theorem Node.Moved.of_eq (h : s'.srcTrace q = s.srcTrace q) : s.Moved s' q :=
  ⟨h ▸ .refl _ _, fun _ => h⟩

theorem Node.Moved.frame {s₁ s₂ : Node σ} (h : s₁.Moved s₂ q) (ha : s.Alike s₁ q)
    (hb : s₂.Alike s' q) : s.Moved s' q where
  moves := by
    have hm := h.moves
    rw [srcKey_of_trace ha.trace, ha.trace] at hm
    rw [hb.trace]
    exact hm.mono fun t ht => ht.mono ha.log hb.log
  idle hmem := (hb.trace.trans (h.idle fun hq => hmem (ha.src.subset hq))).trans ha.trace

/-- What a call of `process_message` does to a source transaction is a sequence of moves. One that
is not pooled is left alone. -/
theorem Evolves.srcMoves (h : Evolves s s') (hs : s.WF) (hq : q < s.srcs.next) : s.Moved s' q := by
  induction h with
  | refl s => exact .of_eq rfl
  | @trans s s₁ s₂ h h' ih ih' =>
    obtain ⟨hm, heq⟩ := ih hs hq
    have hs₁ := h.wf hs
    obtain ⟨hm', heq'⟩ := ih' hs₁ (hq.trans_le (h.aged hs).srcs)
    have hkey : s₁.srcKey q = s.srcKey q := by
      by_cases hmem : q ∈ s.src
      · exact ((h.srcWF hs.src).2.cell q hq (hs.src.inv q hmem)).2.1
      · exact srcKey_of_trace (heq hmem)
    rw [hkey] at hm'
    refine ⟨(hm.mono fun t ht => ht.mono prefix_rfl (h'.logs hs₁).isPrefix).trans
      (hm'.mono fun t ht => ht.mono (h.logs hs).isPrefix prefix_rfl), fun hmem => ?_⟩
    have hmem' : q ∉ s₁.src := fun hq' => hmem ((h.aged hs).src q hq' hq).1
    exact (heq' hmem').trans (heq hmem)
  | apart h => exact .of_eq h.srcTrace
  | outConfirm s o _ => exact .of_eq (s.srcTrace_logOut o)
  | @outNew s o _ =>
    exact .of_eq ((startSrc_srcTrace_of_ne (s := s.logOut o) hq.ne).trans (s.srcTrace_logOut o))
  | @outDst s o p h =>
    have hmoves := (outDstRun_spec (o := o) (hs.dst.inv p (mem_of_find h.2))).1
    exact .of_eq ((Alike.logOut s o q).trans (.putDst (.of_moves hmoves))).trace
  | @outSrc s o p h hcall =>
    have hp := mem_of_find h.2
    have hown := Own.of_moves (h.called hs).1
    by_cases hqp : q = p
    · subst hqp
      refine ⟨.out (h.submits.mono prefix_rfl ?_) (does_out s o q) ?_, fun hmem => absurd hp hmem⟩
      · rw [delFinishedSrc_log]
        exact hown.isPrefix
      · rw [srcTrace_delFinishedSrc]
        exact srcMoves_run (moves_out _ o) (srcInv_out (hs.src.inv q hp)).live hcall
    · exact .of_eq ((Alike.logOut s o q).trans (.putSrc hown hqp)).trace
  | @outCall s s₁ o p h hcall h' ih =>
    have hp := mem_of_find h.2
    have hinv := hs.src.inv p hp
    obtain ⟨hmoves, hwf⟩ := h.called hs
    by_cases hqp : q = p
    · subst hqp
      have hm := (ih hwf hq).moves
      rw [callSrc_srcKey hmoves] at hm
      have hpre := (h.logs_logOut.trans (logs_callSrc hmoves)).isPrefix
      have hpre' := (logs_resumeSrc s₁ q).isPrefix
      have hlog := ((logs_callSrc hmoves).trans (h'.logs hwf)).isPrefix.trans hpre'
      exact ⟨.out (h.submits.mono prefix_rfl hlog) (does_out s o q)
        (.call (does_call (moves_out _ o) (srcInv_out hinv).live hcall)
          (callSrc_state ((outSrcRun_spec hinv).2.2.mp hcall))
          (hm.mono fun t ht => ht.mono hpre hpre') (does_resume s₁ q)),
        fun hmem => absurd hp hmem⟩
    · exact (ih hwf hq).frame ((Alike.logOut s o q).trans (.callSrc hmoves hqp))
        (.putSrc (.of_moves (moves_srcResume _)) hqp)
  | @outThrow s s₁ o p h hcall h' ih =>
    have hp := mem_of_find h.2
    obtain ⟨hmoves, hwf⟩ := h.called hs
    by_cases hqp : q = p
    · subst hqp
      have hm := (ih hwf hq).moves
      rw [callSrc_srcKey hmoves] at hm
      have hpre := (h.logs_logOut.trans (logs_callSrc hmoves)).isPrefix
      have hlog := ((logs_callSrc hmoves).trans (h'.logs hwf)).isPrefix
      have hcall := does_call (moves_out _ o) (srcInv_out (hs.src.inv q hp)).live hcall
      exact ⟨.out (h.submits.mono prefix_rfl hlog) (does_out s o q)
        ((SrcMoves.advance hcall).trans (hm.mono fun t ht => ht.mono hpre prefix_rfl)),
        fun hmem => absurd hp hmem⟩
    · exact (ih hwf hq).frame ((Alike.logOut s o q).trans (.callSrc hmoves hqp)) (.refl _ _)

end

/-! ## Identity -/

theorem SrcMoves.key {O : SrcTransaction → Prop} {p : Ptr} {r : Bool} (h : SrcMoves O p r a b)
    (hl : a.t.state ≠ .init) : b.t.state ≠ .init ∧ b.t.key = a.t.key := by
  induction h with
  | refl r a => exact ⟨hl, rfl⟩
  | trans _ _ ih ih' =>
    obtain ⟨hl₁, hk₁⟩ := ih hl
    obtain ⟨hl₂, hk₂⟩ := ih' hl₁
    exact ⟨hl₂, hk₂.trans hk₁⟩
  | @out r a b c o _ h _ ih =>
    obtain ⟨x, -, -, ht, -, hb, -⟩ := h
    have hstate : (x.out o).t.state = x.t.state := (sameCourse_out o).state
    rw [← ht] at hl ⊢
    rw [hb] at ih
    obtain ⟨hl', hk⟩ := ih (hstate ▸ hl)
    exact ⟨hl', hk.trans (moves_out x o).key⟩
  | advance h =>
    obtain ⟨x, -, -, ht, -, hb, -⟩ := h
    rw [← ht] at hl
    rw [hb, srcAdvance_t, ← ht]
    exact ⟨srcRun_live hl, (moves_srcRun x hl).key⟩
  | @call a b c d h _ _ h' ih =>
    obtain ⟨x, -, -, ht, -, hb, -⟩ := h
    obtain ⟨y, -, -, hty, -, hd, -⟩ := h'
    rw [← ht] at hl
    rw [hb, srcAdvance_t] at ih
    obtain ⟨-, hk⟩ := ih (srcRun_live hl)
    rw [hd]
    refine ⟨srcResume_live y, ?_⟩
    rw [(moves_srcResume y).key, hty, hk, (moves_srcRun x hl).key, ht]

/-- A transaction that is handed a frame stays where it is, and keeps its key. -/
theorem Trace.Does.key_in {p i : Ptr} {P : Machine SrcState → Prop}
    (h : a.Does .src p P (·.srcIn i) b) : b.t.state = a.t.state ∧ b.t.key = a.t.key := by
  obtain ⟨x, -, -, ht, -, hb, -⟩ := h
  rw [hb, ← ht]
  exact ⟨(sameCourse_srcIn i).state, (moves_srcIn x i).key⟩

/-! ## New transactions -/

section

variable {s s' : Node σ} {q : Ptr}

/-- In `s`, `message_out` has just started the source transaction `q`, on whose behalf `E` had been
done before. -/
def Node.Born (s : Node σ) (E : List Event) (q : Ptr) : Prop :=
  ∃ (s₀ : Node σ) (o : Ptr), s₀.srcs.next = q ∧ s₀.OutNew o ∧ s₀.deeds .src q = E ∧
    s = (s₀.logOut o).startSrc o

theorem Node.Born.live {E : List Event} (h : s.Born E q) : (s.srcs.get q).state ≠ .init := by
  obtain ⟨s₀, o, rfl, -, -, rfl⟩ := h
  have hfresh := (s₀.logOut o).fresh_newSrc o
  change (((s₀.logOut o).startSrc o).srcs.get (s₀.logOut o).srcs.next).state ≠ _
  rw [startSrc_cell]
  exact (srcRun_init _ hfresh.state hfresh.noInput hfresh.reqState).2.1

/-- The source transaction `q` has come up between `s` and `s'`: `message_out` has started it, and
then it has moved. -/
def Node.Arises (s s' : Node σ) (q : Ptr) : Prop :=
  ∃ s₁ : Node σ, s₁.Born (s.deeds .src q) q ∧ s₁.log <+: s'.log ∧
    SrcMoves (s₁.Submits s' (s₁.srcKey q)) q false (s₁.srcTrace q) (s'.srcTrace q)

/-- The source transaction `q` has come up between `s` and `s'`, or else is not acted for. -/
def Node.Bears (s s' : Node σ) (q : Ptr) : Prop :=
  s'.srcs.next ≤ q ∧ s'.deeds .src q = s.deeds .src q ∨ q < s'.srcs.next ∧ s.Arises s' q

theorem Node.Bears.frame {s₁ s₂ : Node σ} (h : s₁.Bears s₂ q) (ha : s.Alike s₁ q)
    (hb : s₂.Alike s' q) : s.Bears s' q := by
  have hd : s₁.deeds .src q = s.deeds .src q := congrArg Trace.deeds ha.trace
  have hd' : s'.deeds .src q = s₂.deeds .src q := congrArg Trace.deeds hb.trace
  unfold Bears Arises at h ⊢
  rw [hb.next, hd', hb.trace]
  rw [hd] at h
  rcases h with h | ⟨hq, s₃, hborn, hlog, hm⟩
  · exact .inl h
  · exact .inr ⟨hq, s₃, hborn, hlog.trans hb.log, hm.mono fun t ht => ht.mono prefix_rfl hb.log⟩

/-- A source transaction that comes up in a call of `process_message` is started by `message_out`.
One that does not come up is not acted for. -/
theorem Evolves.srcBirth (h : Evolves s s') (hs : s.WF) (hq : s.srcs.next ≤ q) : s.Bears s' q := by
  have hsame : ∀ s : Node σ, s.srcs.next ≤ q → s.Bears s q := fun s hq => .inl ⟨hq, rfl⟩
  induction h with
  | refl s => exact hsame s hq
  | @trans s s' s'' h h' ih ih' =>
    have hs' := h.wf hs
    have hpre := (h'.logs hs').isPrefix
    rcases ih hs hq with ⟨hq', hd⟩ | ⟨hq', s₁, hborn, hlog, hm⟩
    · rcases ih' hs' hq' with ⟨hq'', hd'⟩ | ⟨hq'', hnew⟩
      · exact .inl ⟨hq'', hd'.trans hd⟩
      · unfold Arises at hnew
        rw [hd] at hnew
        exact .inr ⟨hq'', hnew⟩
    · refine .inr ⟨hq'.trans_le (h'.aged hs').srcs, s₁, hborn, hlog.trans hpre, ?_⟩
      have hm' := (h'.srcMoves hs' hq').moves
      have hkey : s'.srcKey q = s₁.srcKey q := (hm.key hborn.live).2
      rw [hkey] at hm'
      exact (hm.mono fun t ht => ht.mono prefix_rfl hpre).trans
        (hm'.mono fun t ht => ht.mono hlog prefix_rfl)
  | @apart s s' h => exact (hsame s hq).frame (.refl s q) (.apart h)
  | outConfirm s o _ => exact (hsame s hq).frame (.refl s q) (.logOut s o q)
  | @outNew s o h =>
    by_cases hqn : q = s.srcs.next
    · refine .inr ⟨?_, _, ⟨s, o, hqn.symm, h, rfl, rfl⟩, prefix_rfl, .refl _ _⟩
      rw [startSrc_srcs]
      exact hqn ▸ Nat.lt_succ_self _
    · refine .inl ⟨?_, ?_⟩
      · rw [startSrc_srcs]
        exact Nat.lt_of_le_of_ne hq (Ne.symm hqn)
      · refine (deeds_of_notOf ((s.logOut o).startSrc_log o) ?_).trans (s.deeds_logOut o)
        have hne : ¬ (s.logOut o).srcs.next = q := Ne.symm hqn
        simpa [Event.isOf] using hne
  | @outDst s o p h =>
    have hmoves := (outDstRun_spec (o := o) (hs.dst.inv p (mem_of_find h.2))).1
    exact (hsame s hq).frame (.refl s q) ((Alike.logOut s o q).trans (.putDst (.of_moves hmoves)))
  | @outSrc s o p h _ =>
    have hqp : q ≠ p := ((hs.src.lt p (mem_of_find h.2)).trans_le hq).ne'
    exact (hsame s hq).frame (.refl s q)
      ((Alike.logOut s o q).trans (.putSrc (.of_moves (h.called hs).1) hqp))
  | @outCall s s' o p h _ h' ih =>
    have hqp : q ≠ p := ((hs.src.lt p (mem_of_find h.2)).trans_le hq).ne'
    obtain ⟨hmoves, hwf⟩ := h.called hs
    exact (ih hwf hq).frame ((Alike.logOut s o q).trans (.callSrc hmoves hqp))
      (.putSrc (.of_moves (moves_srcResume _)) hqp)
  | @outThrow s s' o p h _ h' ih =>
    have hqp : q ≠ p := ((hs.src.lt p (mem_of_find h.2)).trans_le hq).ne'
    obtain ⟨hmoves, hwf⟩ := h.called hs
    exact (ih hwf hq).frame ((Alike.logOut s o q).trans (.callSrc hmoves hqp)) (.refl _ _)

end

/-! ## Incoming messages -/

section

variable {s s' : Node σ} {i p q : Ptr} {O : SrcTransaction → Prop}

theorem does_in (s : Node σ) (i p : Ptr) :
    (s.srcTrace p).Does .src p (fun x => x.msgs.get i = s.msgs.get i) (·.srcIn i)
      (((s.logIn i).onSrc p (·.srcIn i)).srcTrace p) := by
  rw [← s.srcTrace_logIn i]
  exact does_putSrc rfl (.of_moves (moves_srcIn _ i))

theorem Node.srcTrace_inNewCall (s : Node σ) (i : Ptr) :
    (s.inNewCall i).srcTrace q = s.srcTrace q := by
  have hd : (s.inNewCall i).deeds .src q = s.deeds .src q :=
    (deeds_of_notOf (s.inNewCall_log i) (by simp [Event.isOf])).trans (s.deeds_logIn i)
  simp only [srcTrace, hd]
  rfl

variable {process : Ptr → Ptr → M σ Bool} {r : Result Fault (Node σ) Unit}
  (hproc : ∀ i o, Keeps EvolvesWF (process i o)) (h : Incoming process s i r) (hs : s.WF)

include hproc h hs

/-- A source transaction that the message is for is handed it, and then moves. -/
theorem Incoming.srcMoves_self (hin : s.InSrc i q) :
    ∃ a, (s.srcTrace q).Does .src q (fun x => x.msgs.get i = s.msgs.get i) (·.srcIn i) a ∧
      SrcMoves (s.Submits r.state (s.srcKey q)) q true a (r.state.srcTrace q) := by
  have hq := mem_of_find hin.2
  have hinv := hs.src.inv q hq
  refine ⟨_, does_in s i q, ?_⟩
  cases h with
  | ack hin' _ =>
    cases hin.find hin'
    rw [Result.state_ok, srcTrace_delFinishedSrc]
    exact .refl _ _
  | src hin' _ hcall =>
    cases hin.find hin'
    rw [Result.state_ok, srcTrace_delFinishedSrc]
    exact srcMoves_run (moves_srcIn _ i) (srcCore_srcIn hinv).live hcall
  | @srcCall _ rsp s₁ hin' _ hcall hres =>
    cases hin.find hin'
    have hiff := (inSrcRun_spec (i := i) hinv).2.2
    obtain ⟨hmoves, hwf, hev⟩ := hin.called hproc hs hres
    have hm := (hev.srcMoves hwf (hs.src.lt q hq)).1
    rw [callSrc_srcKey hmoves] at hm
    have hpre := ((logs_logIn s i).trans (logs_callSrc hmoves)).isPrefix
    exact .call (does_call (moves_srcIn _ i) (srcCore_srcIn hinv).live hcall)
      (callSrc_state (hiff.mp hcall))
      (hm.mono fun t ht => ht.mono hpre (logs_resumeSrc s₁ q).isPrefix) (does_resume s₁ q)
  | @srcThrow _ e s₁ hin' _ hcall hres =>
    cases hin.find hin'
    obtain ⟨hmoves, hwf, hev⟩ := hin.called hproc hs hres
    have hm := (hev.srcMoves hwf (hs.src.lt q hq)).1
    rw [callSrc_srcKey hmoves] at hm
    have hpre := ((logs_logIn s i).trans (logs_callSrc hmoves)).isPrefix
    exact (SrcMoves.advance (does_call (moves_srcIn _ i) (srcCore_srcIn hinv).live hcall)).trans
      (hm.mono fun t ht => ht.mono hpre prefix_rfl)
  | dst hdst => exact absurd hdst hin.not_dst
  | new hnew | newThrow hnew => exact absurd hnew hin.not_new

/-- For a source transaction that the message is not for, `message_in` is at most a call of
`process_message`. -/
theorem Incoming.src_core (hnot : ¬ s.InSrc i q) :
    ∃ s₁ s₂ : Node σ, s₁.WF ∧ Evolves s₁ s₂ ∧ s.Alike s₁ q ∧ s₂.Alike r.state q := by
  have hlog := Alike.logIn s i q
  have hne {p x} (hx : s.Takes i p x) : q ≠ p := fun h => hnot (h ▸ hx.found)
  refine h.induct (P := fun s' => ∃ s₁ s₂ : Node σ, s₁.WF ∧ Evolves s₁ s₂ ∧ s.Alike s₁ q ∧
    s₂.Alike s' q) hproc hs (fun p x hx => ?_) (fun p x s₁ hx hev => ?_) (fun p hin => ?_)
    fun s₁ _ hev => ?_
  · exact ⟨s, s, hs, .refl s, .refl s q, hlog.trans (.putSrc (.of_moves (hx.spec hs).2.1) (hne hx))⟩
  · obtain ⟨-, hmoves, -, hwf⟩ := hx.spec hs
    have hcall := hlog.trans (.callSrc hmoves (hne hx))
    exact ⟨⟨_, s₁, hwf, hev, hcall, .refl _ q⟩,
      ⟨_, s₁, hwf, hev, hcall, .putSrc (.of_moves (moves_srcResume _)) (hne hx)⟩⟩
  · have hmoves := (inDstRun_spec (i := i) (hs.dst.inv p (mem_of_find hin.2))).1
    exact ⟨s, s, hs, .refl s, .refl s q, hlog.trans (.putDst (.of_moves hmoves))⟩
  · have hcall : s.Alike (s.inNewCall i) q := ⟨s.srcTrace_inNewCall i, rfl, Sublist.refl _,
      (logs_logIn s i).isPrefix.trans (logs_inNewCall s i).isPrefix⟩
    exact ⟨⟨_, s₁, hs.inNewCall, hev, hcall, .refl _ q⟩,
      fun rsp => ⟨_, s₁, hs.inNewCall, hev, hcall, .resumeDst s₁ _ q rsp⟩⟩

/-- A source transaction that the message is not for moves. -/
theorem Incoming.srcMoves_other (hq : q < s.srcs.next) (hnot : ¬ s.InSrc i q) :
    s.Moved r.state q := by
  obtain ⟨s₁, s₂, hwf, hev, ha, hb⟩ := h.src_core hproc hs hnot
  exact (hev.srcMoves hwf (ha.next ▸ hq)).frame ha hb

/-- A source transaction that comes up in `message_in` is started by `message_out`. -/
theorem Incoming.srcBirth (hq : s.srcs.next ≤ q) : s.Bears r.state q := by
  have hnot : ¬ s.InSrc i q := fun hin =>
    absurd (hs.src.lt q (mem_of_find hin.2)) (Nat.not_lt.mpr hq)
  obtain ⟨s₁, s₂, hwf, hev, ha, hb⟩ := h.src_core hproc hs hnot
  exact (hev.srcBirth hwf (ha.next ▸ hq)).frame ha hb

end

end Odtone.Mihf
