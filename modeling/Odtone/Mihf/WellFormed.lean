import Odtone.Mihf.Evolves

/-! # Well-formed pools

The pools of a node hold allocated transactions with distinct keys, each satisfying its invariant.
A call of `process_message` keeps this, whatever the handler does.
-/

namespace Odtone.Mihf

open Machine Node Pool Store EStateM List

variable {σ : Type}

/-- The pool of source transactions. -/
structure Node.SrcWF (s : Node σ) : Prop where
  lt : ∀ p ∈ s.src, p < s.srcs.next
  inv : ∀ p ∈ s.src, SrcInv (s.srcs.get p)
  ack : ∀ p ∈ s.src, (s.srcs.get p).ack.payload = []
  keys : Pool.Distinct s.srcKey s.src

/-- The pool of destination transactions. -/
structure Node.DstWF (s : Node σ) : Prop where
  lt : ∀ p ∈ s.dst, p < s.dsts.next
  inv : ∀ p ∈ s.dst, DstInv (s.dsts.get p)
  keys : Pool.Distinct s.dstKey s.dst

/-- Both pools. -/
structure Node.WF (s : Node σ) : Prop where
  src : s.SrcWF
  dst : s.DstWF

/-- What `message_out` leaves alone of the destination transactions: it starts none, and writes
only to those in the pool. -/
structure Node.DstFrame (s s' : Node σ) : Prop where
  next : s'.dsts.next = s.dsts.next
  pool : s'.dst.Sublist s.dst
  cell : ∀ p, p ∉ s.dst → s'.dsts.get p = s.dsts.get p
  key : ∀ p, s'.dstKey p = s.dstKey p

/-- Source transactions keep their identity, pooled or not. -/
structure Node.Grows (s s' : Node σ) : Prop where
  srcs : s.srcs.next ≤ s'.srcs.next
  msgs : s.msgs.next ≤ s'.msgs.next
  cell : ∀ p < s.srcs.next, SrcInv (s.srcs.get p) →
    SrcInv (s'.srcs.get p) ∧ s'.srcKey p = s.srcKey p ∧
      (s'.srcs.get p).ack.payload = (s.srcs.get p).ack.payload

namespace Node

variable {s s' s'' : Node σ} {p : Ptr}

section Projections

variable (s : Node σ) (p : Ptr)

@[simp] theorem poolSrc_srcs : (s.poolSrc p).srcs = s.srcs := by unfold poolSrc; split <;> rfl
@[simp] theorem poolSrc_dsts : (s.poolSrc p).dsts = s.dsts := by unfold poolSrc; split <;> rfl
@[simp] theorem poolSrc_dst : (s.poolSrc p).dst = s.dst := by unfold poolSrc; split <;> rfl
@[simp] theorem poolSrc_msgs : (s.poolSrc p).msgs = s.msgs := by unfold poolSrc; split <;> rfl
@[simp] theorem delFinishedSrc_srcs : (s.delFinishedSrc p).srcs = s.srcs := by
  unfold delFinishedSrc; split <;> rfl
@[simp] theorem delFinishedSrc_dsts : (s.delFinishedSrc p).dsts = s.dsts := by
  unfold delFinishedSrc; split <;> rfl
@[simp] theorem delFinishedSrc_msgs : (s.delFinishedSrc p).msgs = s.msgs := by
  unfold delFinishedSrc; split <;> rfl
@[simp] theorem delFinishedSrc_log : (s.delFinishedSrc p).log = s.log := by
  unfold delFinishedSrc; split <;> rfl
@[simp] theorem delFinishedSrc_dst : (s.delFinishedSrc p).dst = s.dst := by
  unfold delFinishedSrc; split <;> rfl
@[simp] theorem poolSrc_log : (s.poolSrc p).log = s.log := by unfold poolSrc; split <;> rfl

end Projections

namespace Grows

theorem refl (s : Node σ) : s.Grows s := ⟨le_rfl, le_rfl, fun _ _ h => ⟨h, rfl, rfl⟩⟩

theorem trans (h : s.Grows s') (h' : s'.Grows s'') : s.Grows s'' where
  srcs := h.srcs.trans h'.srcs
  msgs := h.msgs.trans h'.msgs
  cell p hp hinv := by
    obtain ⟨hinv', hkey, hack⟩ := h.cell p hp hinv
    obtain ⟨hinv'', hkey', hack'⟩ := h'.cell p (hp.trans_le h.srcs) hinv'
    exact ⟨hinv'', hkey'.trans hkey, hack'.trans hack⟩

theorem of_srcs_eq (h : s'.srcs = s.srcs) (hm : s.msgs.next ≤ s'.msgs.next) : s.Grows s' where
  srcs := h ▸ le_rfl
  msgs := hm
  cell p _ hinv := by
    unfold srcKey
    rw [h]
    exact ⟨hinv, rfl, rfl⟩

variable {x : Machine SrcState}

theorem putSrc (hx : (s.srcMachine p).Moves x) (hinv : SrcInv x.t) : s.Grows (s.putSrc p x) where
  srcs := le_rfl
  msgs := hx.next.ge
  cell q _ hq := by
    simp only [Node.putSrc, srcKey, Store.get_set]
    split
    · next h =>
        subst h
        exact ⟨hinv, hx.key, hx.ack⟩
    · exact ⟨hq, rfl, rfl⟩

end Grows

namespace SrcWF

/-- The pool stays well formed if it loses transactions only. -/
theorem of_grows (h : s.SrcWF) (hg : s.Grows s') (hsub : s'.src.Sublist s.src) : s'.SrcWF where
  lt p hp := (h.lt p (hsub.subset hp)).trans_le hg.srcs
  inv p hp := (hg.cell p (h.lt p (hsub.subset hp)) (h.inv p (hsub.subset hp))).1
  ack p hp := by
    rw [(hg.cell p (h.lt p (hsub.subset hp)) (h.inv p (hsub.subset hp))).2.2]
    exact h.ack p (hsub.subset hp)
  keys := by
    have hkeys : Distinct s.srcKey s'.src := h.keys.sublist (hsub.map _)
    exact hkeys.congr fun p hp =>
      (hg.cell p (h.lt p (hsub.subset hp)) (h.inv p (hsub.subset hp))).2.1

end SrcWF

/-! ## A new source transaction -/

/-- The message `o` as a new source transaction sends it. -/
def newMsg (s : Node σ) (o : Ptr) : MetaMessage := { s.msgs.get o with tid := nextTid s.tid }

theorem newSrc_outMsg (s : Node σ) (o : Ptr) :
    ((s.newSrc o).srcMachine s.srcs.next).outMsg = s.newMsg o := by
  simp [newSrc, srcMachine, outMsg, newMsg]

theorem fresh_newSrc (s : Node σ) (o : Ptr) : Fresh ((s.newSrc o).srcMachine s.srcs.next).t := by
  constructor <;> simp [newSrc, srcMachine]

/-- The cell of a new source transaction, once it has been run. -/
def newCell (s : Node σ) (o : Ptr) : SrcTransaction :=
  ((s.newSrc o).srcMachine s.srcs.next).srcRun.1.t

theorem newCell_spec {o : Ptr} (hop : s.outOp o ≠ .confirm) :
    (s.newCell o).key = ((s.msgs.get o).destination, nextTid s.tid) ∧ (s.newCell o).ack = {} ∧
      ((s.newCell o).transactionStatus = .ongoing →
        SrcInv (s.newCell o) ∧ (s.newCell o).state ≠ .processMsg) := by
  have hfresh := s.fresh_newSrc o
  have hout := newSrc_outMsg s o
  obtain ⟨-, -, hkey, hack, -⟩ := srcRun_init _ hfresh.state hfresh.noInput hfresh.reqState
  rw [hout] at hkey
  refine ⟨hkey, hack.trans ?_, fun hon => srcInv_of_new hfresh ?_ hon⟩
  · simp [newSrc, srcMachine]
  · rw [hout]
    exact hop

theorem startSrc_srcs (s : Node σ) (o : Ptr) : (s.startSrc o).srcs = s.srcs.push (s.newCell o) := by
  simp [startSrc, newSrc, putSrc, newCell, Store.push, Store.set]

theorem startSrc_cell (s : Node σ) (o : Ptr) :
    (s.startSrc o).srcs.get s.srcs.next = s.newCell o := by
  rw [startSrc_srcs]
  exact get_push_next

theorem startSrc_msgs {o : Ptr} :
    (s.startSrc o).msgs = s.msgs.update o fun m => { m with tid := nextTid s.tid } := by
  have hfresh := s.fresh_newSrc o
  obtain ⟨-, -, -, -, hmsgs, -⟩ := srcRun_init _ hfresh.state hfresh.noInput hfresh.reqState
  simp only [startSrc, poolSrc_msgs, putSrc, hmsgs]
  rfl

/-- The message is sent, and nothing else. -/
theorem startSrc_log (s : Node σ) (o : Ptr) : (s.startSrc o).log = s.log ++
      [.send ⟨.src, s.srcs.next, (s.newMsg o).destination, (s.newMsg o).tid⟩ .initial o
        (s.newMsg o)] := by
  have hfresh := s.fresh_newSrc o
  obtain ⟨-, -, -, -, -, hlog⟩ := srcRun_init _ hfresh.state hfresh.noInput hfresh.reqState
  rw [newSrc_outMsg] at hlog
  simp only [startSrc, poolSrc_log, putSrc, hlog]
  simp [newSrc, srcMachine]

theorem startSrc_src (s : Node σ) (o : Ptr) :
    (s.startSrc o).src = if (s.newCell o).transactionStatus = .ongoing then
      add (s.startSrc o).srcKey s.src s.srcs.next else s.src := by
  have hkey : (s.startSrc o).srcKey = ((s.newSrc o).putSrc s.srcs.next
      ((s.newSrc o).srcMachine s.srcs.next).srcRun.1).srcKey := by
    funext p
    simp only [srcKey, startSrc, poolSrc_srcs]
  have hcell : ((s.newSrc o).putSrc s.srcs.next
      ((s.newSrc o).srcMachine s.srcs.next).srcRun.1).srcs.get s.srcs.next = s.newCell o := by
    simp [putSrc, newCell]
  rw [hkey]
  unfold startSrc poolSrc
  rw [hcell]
  split <;> rfl

theorem grows_startSrc (s : Node σ) (o : Ptr) : s.Grows (s.startSrc o) where
  srcs := by simp [startSrc_srcs]
  msgs := by simp [startSrc_msgs]
  cell p hp hinv := by
    rw [srcKey, startSrc_srcs, get_push_of_lt hp]
    exact ⟨hinv, rfl, rfl⟩

theorem SrcWF.startSrc {o : Ptr} (h : s.SrcWF) (hop : s.outOp o ≠ .confirm) :
    (s.startSrc o).SrcWF := by
  have hg := grows_startSrc s o
  obtain ⟨hkey, hack, hinv⟩ := newCell_spec hop
  have hold : ∀ p ∈ s.src, (s.startSrc o).srcs.get p = s.srcs.get p := fun p hp => by
    rw [startSrc_srcs, get_push_of_lt (h.lt p hp)]
  have hnew := s.startSrc_cell o
  have hkeys : Distinct (s.startSrc o).srcKey s.src :=
    h.keys.congr fun p hp => by simp only [srcKey, hold p hp]
  have hmem : ∀ p ∈ (s.startSrc o).src, p ∈ s.src ∨
      p = s.srcs.next ∧ (s.newCell o).transactionStatus = .ongoing := by
    intro p hp
    rw [startSrc_src] at hp
    split at hp
    · next hon =>
        rcases mem_add hp with hp | hp
        · exact .inr ⟨hp, hon⟩
        · exact .inl hp
    · exact .inl hp
  refine ⟨fun p hp => ?_, fun p hp => ?_, fun p hp => ?_, ?_⟩
  · rcases hmem p hp with hp | ⟨rfl, -⟩
    · exact (h.lt p hp).trans_le hg.srcs
    · simp [startSrc_srcs]
  · rcases hmem p hp with hp | ⟨rfl, hon⟩
    · rw [hold p hp]
      exact h.inv p hp
    · rw [hnew]
      exact (hinv hon).1
  · rcases hmem p hp with hp | ⟨rfl, -⟩
    · rw [hold p hp]
      exact h.ack p hp
    · rw [hnew, hack]
  · rw [startSrc_src]
    split
    · exact hkeys.add
    · exact hkeys

theorem sublist_delFinishedSrc (s : Node σ) (p : Ptr) : (s.delFinishedSrc p).src.Sublist s.src := by
  unfold delFinishedSrc
  split
  · exact filter_sublist
  · exact Sublist.refl _

theorem grows_delFinishedSrc (s : Node σ) (p : Ptr) : s.Grows (s.delFinishedSrc p) := by
  unfold delFinishedSrc
  split
  · exact .of_srcs_eq rfl le_rfl
  · exact .refl s

section Projections

variable {C : Type} [Container C] (s : Node σ C) (p : Ptr)

@[simp] theorem delFinishedDst_dsts : (s.delFinishedDst p).dsts = s.dsts := by
  unfold delFinishedDst; split <;> rfl
@[simp] theorem delFinishedDst_srcs : (s.delFinishedDst p).srcs = s.srcs := by
  unfold delFinishedDst; split <;> rfl
@[simp] theorem delFinishedDst_src : (s.delFinishedDst p).src = s.src := by
  unfold delFinishedDst; split <;> rfl
@[simp] theorem delFinishedDst_msgs : (s.delFinishedDst p).msgs = s.msgs := by
  unfold delFinishedDst; split <;> rfl
@[simp] theorem delFinishedDst_log : (s.delFinishedDst p).log = s.log := by
  unfold delFinishedDst; split <;> rfl

end Projections

theorem grows_outDst (s : Node σ) (o p : Ptr) :
    s.Grows (((s.logOut o).putDst p (s.outDstRun o p)).delFinishedDst p) := by
  have hnext : s.msgs.next ≤ (s.outDstRun o p).msgs.next :=
    (moves_out ((s.logOut o).dstMachine p) o).next.ge.trans (next_le_dstRunIfOngoing _)
  unfold delFinishedDst
  split
  all_goals exact .of_srcs_eq rfl hnext

theorem grows_logOut (s : Node σ) (o : Ptr) : s.Grows (s.logOut o) := .of_srcs_eq rfl le_rfl

end Node

/-! ## Destination transactions -/

namespace Node

variable {s s' s'' : Node σ} {p : Ptr}

namespace DstFrame

theorem refl (s : Node σ) : s.DstFrame s := ⟨rfl, Sublist.refl _, fun _ _ => rfl, fun _ => rfl⟩

theorem trans (h : s.DstFrame s') (h' : s'.DstFrame s'') : s.DstFrame s'' where
  next := h'.next.trans h.next
  pool := h'.pool.trans h.pool
  cell p hp := (h'.cell p fun hp' => hp (h.pool.subset hp')).trans (h.cell p hp)
  key p := (h'.key p).trans (h.key p)

theorem of_eq (h : s'.dsts = s.dsts) (h' : s'.dst = s.dst) : s.DstFrame s' where
  next := by rw [h]
  pool := by rw [h']
  cell p _ := by rw [h]
  key p := by rw [dstKey, dstKey, h]

end DstFrame

theorem DstWF.of_eq (hs : s.DstWF) (h : s'.dsts = s.dsts) (h' : s'.dst = s.dst) : s'.DstWF where
  lt p hp := by rw [h]; exact hs.lt p (h' ▸ hp)
  inv p hp := by rw [h]; exact hs.inv p (h' ▸ hp)
  keys := by
    rw [h']
    exact hs.keys.congr fun p _ => by rw [dstKey, dstKey, h]

theorem DstWF.kept (hs : s.DstWF) (s' : Node σ) (h : s'.dsts = s.dsts) (h' : s'.dst = s.dst) :
    s'.DstWF ∧ s.DstFrame s' := ⟨hs.of_eq h h', .of_eq h h'⟩

/-- A pooled transaction makes a move, after which it goes on or is deleted. -/
theorem DstWF.settle {x : Machine DstState} (hs : s.DstWF) (hp : p ∈ s.dst)
    (hx : (s.dstMachine p).Moves x) (hdone : DstDone x.t) :
    ((s.putDst p x).delFinishedDst p).DstWF ∧ s.DstFrame ((s.putDst p x).delFinishedDst p) := by
  have hkey : ∀ q, (s.putDst p x).dstKey q = s.dstKey q := by
    intro q
    simp only [dstKey, putDst, get_set]
    split
    · next h => rw [h]; exact hx.key
    · rfl
  have hother : ∀ q, q ≠ p → (s.putDst p x).dsts.get q = s.dsts.get q :=
    fun q hq => get_set_of_ne hq
  have hself : (s.putDst p x).dsts.get p = x.t := get_set_self
  have hkeys : Distinct (s.putDst p x).dstKey s.dst := hs.keys.congr fun q _ => hkey q
  have hne : ∀ q, q ∉ s.dst → q ≠ p := fun q hq h => hq (h ▸ hp)
  unfold delFinishedDst
  rw [hself]
  split
  · -- the keys are distinct, so `p` and nothing else goes
    have hmem : ∀ q ∈ ((s.putDst p x).delDst p).dst, q ∈ s.dst ∧ q ≠ p := by
      intro q hq
      obtain ⟨hq, hk⟩ := mem_del.mp hq
      exact ⟨hq, fun h => hk (by rw [h])⟩
    refine ⟨⟨fun q hq => hs.lt q (hmem q hq).1, fun q hq => ?_, hkeys.del⟩,
      rfl, filter_sublist, fun q hq => hother q (hne q hq), hkey⟩
    exact (hother q (hmem q hq).2).symm ▸ hs.inv q (hmem q hq).1
  · next hfin =>
      have hinv : DstInv x.t := hdone.resolve_right hfin
      refine ⟨⟨hs.lt, fun q hq => ?_, hkeys⟩,
        rfl, Sublist.refl _, fun q hq => hother q (hne q hq), hkey⟩
      by_cases h : q = p
      · rw [h, hself]
        exact hinv
      · exact (hother q h).symm ▸ hs.inv q hq

end Node

/-! ## What `message_out` does to a pooled source transaction -/

section OutSrc

variable {s : Node σ} {o p : Ptr}

theorem Node.outSrcRun_spec (hinv : SrcInv (s.srcs.get p)) :
    ((s.logOut o).srcMachine p).Moves (s.outSrcRun o p).1 ∧ SrcInv (s.outSrcRun o p).1.t ∧
      ((s.outSrcRun o p).2 = true ↔ (s.outSrcRun o p).1.t.state = .processMsg) := by
  have hout : SrcInv (((s.logOut o).srcMachine p).out o).t := srcInv_out hinv
  obtain ⟨hrun, hcall⟩ := srcInv_srcRunIfOngoing hout.toSrcCore
  exact ⟨(moves_out _ o).trans (moves_srcRunIfOngoing hout.live), hrun, hcall⟩

theorem Node.grows_resume (s : Node σ) (hinv : SrcInv (s.srcs.get p)) :
    s.Grows ((s.onSrc p srcResume).delFinishedSrc p) :=
  (Grows.putSrc (moves_srcResume (s.srcMachine p))
    (srcInv_srcResume hinv.toSrcCore)).trans (grows_delFinishedSrc _ p)

/-- A pooled transaction in front of a call of `process_message`. -/
theorem Node.SrcWF.callSrc (hs : s.SrcWF) (hx : (s.srcMachine p).Moves x) (hinv : SrcInv x.t) :
    (s.callSrc p x).SrcWF ∧ s.Grows (s.callSrc p x) := by
  have hg : s.Grows (s.callSrc p x) := (Grows.putSrc hx hinv).trans (.of_srcs_eq rfl le_rfl)
  exact ⟨hs.of_grows hg (Sublist.refl _), hg⟩

theorem Node.WF.of_eq {s' : Node σ} (hs : s.WF) (hsrcs : s'.srcs = s.srcs) (hsrc : s'.src = s.src)
    (hdsts : s'.dsts = s.dsts) (hdst : s'.dst = s.dst) (hm : s.msgs.next ≤ s'.msgs.next) :
    s'.WF where
  src := hs.src.of_grows (.of_srcs_eq hsrcs hm) (by rw [hsrc])
  dst := hs.dst.of_eq hdsts hdst

theorem Node.WF.logOut (hs : s.WF) (o : Ptr) : (s.logOut o).WF := hs.of_eq rfl rfl rfl rfl le_rfl

@[inherit_doc SrcWF.callSrc]
theorem Node.WF.callSrc (hs : s.WF) (hx : (s.srcMachine p).Moves x) (hinv : SrcInv x.t) :
    (s.callSrc p x).WF :=
  ⟨(hs.src.callSrc hx hinv).1, hs.dst.of_eq rfl rfl⟩

/-- A pooled transaction behind a call of `process_message`. -/
theorem Node.SrcWF.resume {s' : Node σ} (hs : s.SrcWF) (hp : p ∈ s.src) (hs' : s'.SrcWF)
    (hg : s.Grows s') : ((s'.onSrc p srcResume).delFinishedSrc p).SrcWF ∧
      s.Grows ((s'.onSrc p srcResume).delFinishedSrc p) := by
  have hr := s'.grows_resume (hg.cell p (hs.lt p hp) (hs.inv p hp)).1
  exact ⟨hs'.of_grows hr (sublist_delFinishedSrc _ p), hg.trans hr⟩

/-- The transaction that `message_out` has found, in front of a call of `process_message`. -/
theorem Node.OutSrc.callSrc (h : s.OutSrc o p) (hs : s.SrcWF) :
    ((s.logOut o).callSrc p (s.outSrcRun o p).1).SrcWF ∧
      s.Grows ((s.logOut o).callSrc p (s.outSrcRun o p).1) := by
  obtain ⟨hmoves, hinv, -⟩ := outSrcRun_spec (hs.inv p (mem_of_find h.2))
  have hlog := grows_logOut s o
  obtain ⟨hcall, hg⟩ := (hs.of_grows hlog (Sublist.refl _)).callSrc hmoves hinv
  exact ⟨hcall, hlog.trans hg⟩

theorem Node.OutSrc.called (h : s.OutSrc o p) (hs : s.WF) :
    ((s.logOut o).srcMachine p).Moves (s.outSrcRun o p).1 ∧
      ((s.logOut o).callSrc p (s.outSrcRun o p).1).WF :=
  ⟨(outSrcRun_spec (hs.src.inv p (mem_of_find h.2))).1, (h.callSrc hs.src).1, hs.dst.of_eq rfl rfl⟩

end OutSrc

/-! ## Calls of `process_message` keep the pools well formed -/

theorem Evolves.srcWF {s s' : Node σ} (h : Evolves s s') (hs : s.SrcWF) :
    s'.SrcWF ∧ s.Grows s' := by
  induction h with
  | refl s => exact ⟨hs, .refl s⟩
  | trans _ _ ih ih' =>
    obtain ⟨hs', hg⟩ := ih hs
    obtain ⟨hs'', hg'⟩ := ih' hs'
    exact ⟨hs'', hg.trans hg'⟩
  | apart h =>
    have hg := Grows.of_srcs_eq h.srcs h.msgs
    exact ⟨hs.of_grows hg (by rw [h.src]), hg⟩
  | outConfirm s o _ =>
    have hg := grows_logOut s o
    exact ⟨hs.of_grows hg (Sublist.refl _), hg⟩
  | @outNew s o h =>
    have hg := grows_logOut s o
    have hlog := hs.of_grows hg (Sublist.refl _)
    exact ⟨hlog.startSrc h.not_confirm, hg.trans (grows_startSrc _ o)⟩
  | @outDst s o p _ =>
    have hg := grows_outDst s o p
    exact ⟨hs.of_grows hg (by rw [delFinishedDst_src]; exact Sublist.refl _), hg⟩
  | @outSrc s o p h _ =>
    obtain ⟨hmoves, hinv, -⟩ := outSrcRun_spec (hs.inv p (mem_of_find h.2))
    have hg := ((grows_logOut s o).trans (.putSrc hmoves hinv)).trans (grows_delFinishedSrc _ p)
    exact ⟨hs.of_grows hg (sublist_delFinishedSrc _ p), hg⟩
  | @outCall s s' o p h _ _ ih =>
    obtain ⟨hcall, hg⟩ := h.callSrc hs
    obtain ⟨hs', hg'⟩ := ih hcall
    obtain ⟨hr, hgr⟩ := hcall.resume (mem_of_find h.2) hs' hg'
    exact ⟨hr, hg.trans hgr⟩
  | @outThrow s s' o p h _ _ ih =>
    obtain ⟨hcall, hg⟩ := h.callSrc hs
    obtain ⟨hs', hg'⟩ := ih hcall
    exact ⟨hs', hg.trans hg'⟩

variable {s : Node σ}

/-- What `message_out` does to a pooled destination transaction. -/
theorem Node.outDstRun_spec {o p : Ptr} (hinv : DstInv (s.dsts.get p)) :
    ((s.logOut o).dstMachine p).Moves (s.outDstRun o p) ∧ DstDone (s.outDstRun o p).t := by
  have hcourse := sameCourse_out (x := (s.logOut o).dstMachine p) o
  have hlive : (((s.logOut o).dstMachine p).out o).t.state ≠ .init :=
    hcourse.state ▸ hinv.state_ne_init
  refine ⟨(moves_out _ o).trans (moves_dstRunIfOngoing hlive), ?_⟩
  have hon : (((s.logOut o).dstMachine p).out o).t.transactionStatus = .ongoing :=
    hcourse.status.trans hinv.status
  have hack : ((s.logOut o).msgs.get o).ackreq = true := by simp
  have hdone := dstRun_out_done (x := (s.logOut o).dstMachine p) hinv hack
  simpa only [outDstRun, dstRunIfOngoing, hon, if_true] using hdone

theorem Evolves.dstWF {s s' : Node σ} (h : Evolves s s') (hs : s.DstWF) :
    s'.DstWF ∧ s.DstFrame s' := by
  induction h with
  | refl s => exact ⟨hs, .refl s⟩
  | trans _ _ ih ih' =>
    obtain ⟨hs', hf⟩ := ih hs
    obtain ⟨hs'', hf'⟩ := ih' hs'
    exact ⟨hs'', hf.trans hf'⟩
  | apart h => exact hs.kept _ h.dsts h.dst
  | outConfirm s o _ => exact hs.kept _ rfl rfl
  | outNew _ => exact hs.kept _ (by simp [startSrc]; rfl) (by simp [startSrc]; rfl)
  | @outDst s o p h =>
    have hp := mem_of_find h.2
    obtain ⟨hmoves, hdone⟩ := outDstRun_spec (hs.inv p hp)
    obtain ⟨hlog, hlogf⟩ := hs.kept (s.logOut o) rfl rfl
    obtain ⟨hs', hf⟩ := hlog.settle hp hmoves hdone
    exact ⟨hs', hlogf.trans hf⟩
  | outSrc _ _ => exact hs.kept _ (by simp; rfl) (by simp; rfl)
  | @outCall s s' o p _ _ _ ih =>
    obtain ⟨hcall, hf⟩ := hs.kept ((s.logOut o).callSrc p (s.outSrcRun o p).1) rfl rfl
    obtain ⟨hs', hf'⟩ := ih hcall
    obtain ⟨hr, hfr⟩ := hs'.kept ((s'.onSrc p srcResume).delFinishedSrc p)
      (by simp; rfl) (by simp; rfl)
    exact ⟨hr, (hf.trans hf').trans hfr⟩
  | @outThrow s s' o p _ _ _ ih =>
    obtain ⟨hcall, hf⟩ := hs.kept ((s.logOut o).callSrc p (s.outSrcRun o p).1) rfl rfl
    obtain ⟨hs', hf'⟩ := ih hcall
    exact ⟨hs', hf.trans hf'⟩

/-! ## Every handler evolves a node -/

/-- `Evolves`, from nodes with a well-formed pool of destination transactions. -/
def EvolvesWF (s s' : Node σ) : Prop := s.DstWF → Evolves s s'

instance : Std.Refl (EvolvesWF (σ := σ)) := ⟨fun s _ => .refl s⟩

instance : IsTrans (Node σ) EvolvesWF :=
  ⟨fun _ _ _ h h' hs => .trans (h hs) (h' ((h hs).dstWF hs).1)⟩

section Out

variable {process : Ptr → Ptr → M σ Bool}

theorem newSrcTransaction_eq (s : Node σ) (o : Ptr) :
    newSrcTransaction process o s = .ok () (s.startSrc o) := by
  have hfresh := s.fresh_newSrc o
  have hcall := (srcRun_init _ hfresh.state hfresh.noInput hfresh.reqState).1
  have hrun : runSrc process s.srcs.next (s.newSrc o) = .ok () ((s.newSrc o).putSrc s.srcs.next
        ((s.newSrc o).srcMachine s.srcs.next).srcRun.1) := by
    simp only [runSrc, hcall, Bool.false_eq_true, if_false]
  exact after_of_ok hrun

theorem outSrc_evolves (hproc : ∀ i o, Keeps EvolvesWF (process i o)) {o p : Ptr} (h : s.OutSrc o p)
    (hs : s.DstWF) :
    Evolves s ((runSrcIfOngoing process p).after (fun _ s => s.delFinishedSrc p)
      ((s.logOut o).onSrc p (out o))).state := by
  have hmoves := moves_out ((s.logOut o).srcMachine p) o
  have hrun : runSrcIfOngoing process p ((s.logOut o).onSrc p (out o)) = if (s.outSrcRun o p).2 then
        (process (s.outSrcRun o p).1.t.inMsg (s.outSrcRun o p).1.t.outMsg).after
          (fun _ s => s.onSrc p srcResume) ((s.logOut o).callSrc p (s.outSrcRun o p).1)
      else .ok () ((s.logOut o).putSrc p (s.outSrcRun o p).1) :=
    runSrcIfOngoing_putSrc process hmoves.side hmoves.ptr
  by_cases hcall : (s.outSrcRun o p).2 = true
  · have hcs : ((s.logOut o).callSrc p (s.outSrcRun o p).1).DstWF := hs.of_eq rfl rfl
    have hev := hproc (s.outSrcRun o p).1.t.inMsg (s.outSrcRun o p).1.t.outMsg _ hcs
    rw [if_pos hcall] at hrun
    cases hres : process (s.outSrcRun o p).1.t.inMsg (s.outSrcRun o p).1.t.outMsg
        ((s.logOut o).callSrc p (s.outSrcRun o p).1) with
    | ok rsp s' =>
      rw [hres] at hev
      rw [after_of_ok (hrun.trans (after_of_ok hres))]
      exact .outCall h hcall hev
    | error e s' =>
      rw [hres] at hev
      rw [after_of_error (hrun.trans (after_of_error hres))]
      exact .outThrow h hcall hev
  · rw [if_neg hcall] at hrun
    rw [after_of_ok hrun]
    exact .outSrc h (by simpa using hcall)

/-- `message_out`, by what is read from the message. -/
theorem messageOut_eq (s : Node σ) (o : Ptr) : messageOut process o s = match s.outOp o with
    | .response =>
      match s.findDst (s.outKey o) with
      | some p => (runDstIfOngoing process p).after (fun _ s => s.delFinishedDst p)
          ((s.logOut o).onDst p (out o))
      | none => .ok () ((s.logOut o).startSrc o)
    | .indication | .request =>
      match s.findSrc (s.outKey o) with
      | some p => (runSrcIfOngoing process p).after (fun _ s => s.delFinishedSrc p)
          ((s.logOut o).onSrc p (out o))
      | none => .ok () ((s.logOut o).startSrc o)
    | .confirm => .ok () (s.logOut o) := by
  rw [← s.outOp_logOut o, ← s.outKey_logOut o, ← @newSrcTransaction_eq σ process]
  rfl

/-- `message_out` without a transaction for the message starts one. -/
theorem messageOut_of_new {o : Ptr} (h : s.OutNew o) :
    messageOut process o s = .ok () ((s.logOut o).startSrc o) := by
  rw [messageOut_eq]
  rcases h.2 with ⟨hop, hf⟩ | ⟨hop | hop, hf⟩ <;> simp only [hop, hf]

/-- `message_out` with a response that a transaction takes. -/
theorem messageOut_of_dst {C : Type} [Container C] {process : Ptr → Ptr → MOn C σ Bool}
    {s : Node σ C} {o p : Ptr} (h : s.OutDst o p) (hinv : DstInv (s.dsts.get p)) :
    messageOut process o s =
      .ok () (((s.logOut o).putDst p (s.outDstRun o p)).delFinishedDst p) := by
  have hcourse := sameCourse_out (x := (s.logOut o).dstMachine p) o
  have hmoves := moves_out ((s.logOut o).dstMachine p) o
  have hrun : runDstIfOngoing process p ((s.logOut o).onDst p (out o)) =
      .ok () ((s.logOut o).putDst p (s.outDstRun o p)) :=
    runDstIfOngoing_putDst process hmoves.side hmoves.ptr (hcourse.state ▸ hinv.state_ne_init)
  have hop : ((s.logOut o).msgs.get o).opcode = .response := (s.outOp_logOut o).trans h.1
  have hfind : (s.logOut o).findDst ((s.logOut o).outKey o) = some p := by
    rw [outKey_logOut]
    exact h.2
  rw [outKey] at hfind
  simp only [messageOut, hop, hfind]
  exact after_of_ok hrun

theorem messageOut_evolves (hproc : ∀ i o, Keeps EvolvesWF (process i o)) {o : Ptr}
    (ho : o < s.msgs.next) (hs : s.DstWF) : Evolves s (messageOut process o s).state := by
  have hnew : s.OutNew o → Evolves s (messageOut process o s).state := fun h => by
    rw [messageOut_of_new h]
    exact .outNew h
  have hsrc : ∀ {p}, s.OutSrc o p → Evolves s (messageOut process o s).state := fun {p} h => by
    have heq : messageOut process o s =
        (runSrcIfOngoing process p).after (fun _ s => s.delFinishedSrc p)
          ((s.logOut o).onSrc p (out o)) := by
      rw [messageOut_eq]
      rcases h.1 with hop | hop <;> simp only [hop, h.2]
    rw [heq]
    exact outSrc_evolves hproc h hs
  cases hop : s.outOp o with
  | confirm =>
    simp only [messageOut_eq, hop]
    exact .outConfirm s o hop
  | response =>
    cases hf : s.findDst (s.outKey o) with
    | none => exact hnew ⟨ho, .inl ⟨hop, hf⟩⟩
    | some p =>
      rw [messageOut_of_dst ⟨hop, hf⟩ (hs.inv p (mem_of_find hf))]
      exact .outDst ⟨hop, hf⟩
  | request =>
    cases hf : s.findSrc (s.outKey o) with
    | none => exact hnew ⟨ho, .inr ⟨.inl hop, hf⟩⟩
    | some p => exact hsrc ⟨.inl hop, hf⟩
  | indication =>
    cases hf : s.findSrc (s.outKey o) with
    | none => exact hnew ⟨ho, .inr ⟨.inr hop, hf⟩⟩
    | some p => exact hsrc ⟨.inr hop, hf⟩

end Out

theorem process_evolves (handler : Handler σ) (n : Nat) (i o : Ptr) :
    Keeps EvolvesWF (process handler n i o) := by
  induction n generalizing i o with
  | zero => exact fun s _ => .refl s
  | succ n ih =>
    exact Keeps.run
      (perform_keeps (fun _ _ h _ => .apart h) fun _ _ ho hs => messageOut_evolves ih ho hs)
      (handler i o)

end Odtone.Mihf
