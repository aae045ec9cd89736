import Odtone.Mihf.Copies

/-! # How long a transaction lives

A transaction starts with fifteen ticks to live. Nothing but a tick touches the counter, each tick
takes one off, and the tick that reaches zero deletes the transaction, whatever it waits for; what
has left a pool never comes back. So the counter of a pooled transaction is between one and fifteen
and never wraps, and fifteen ticks later the transaction is gone.
-/

namespace Odtone.Mihf

open Machine Node EStateM List

variable {σ : Type}

/-! ## The counter -/

/-- What does not change between ticks: the life time, and whether copies are acknowledged, which
has been decided when the transaction was opened. -/
def Transaction.fixed {S : Type} (t : Transaction S) : Nat × Bool :=
  (t.transactionStopWhen, t.startAckResponder)

namespace Machine

section Src

variable {x : Machine SrcState}

theorem clock_srcRunIfOngoing (h : x.t.state ≠ .init) :
    x.srcRunIfOngoing.1.t.clock = x.t.clock := by
  unfold srcRunIfOngoing
  split
  · exact (x.quiet_srcRun h).clock
  · rfl

theorem clock_srcRan (h : x.t.state ≠ .init) : x.srcRan.t.clock = x.t.clock := by
  unfold srcRan
  split
  · exact (quiet_srcResume _).clock.trans (x.quiet_srcRun h).clock
  · exact (x.quiet_srcRun h).clock

end Src

section Dst

variable {x y : Machine DstState}

theorem SameCourse.fixed (h : SameCourse x y) : y.t.fixed = x.t.fixed := Prod.ext h.stop h.responder

theorem fixed_dstSendResponse : x.dstSendResponse.t.fixed = x.t.fixed := by
  unfold dstSendResponse
  split_ifs <;> rfl

theorem fixed_dstSendResponseBegin : x.dstSendResponseBegin.t.fixed = x.t.fixed := by
  unfold dstSendResponseBegin
  extract_lets y₁ y₂
  exact fixed_dstSendResponse.trans (SameCourse.startedAckRequestor y₁).fixed

theorem fixed_dstWaitResponsePrm : x.dstWaitResponsePrm.t.fixed = x.t.fixed := by
  unfold dstWaitResponsePrm
  extract_lets y
  split_ifs
  · rfl
  · exact fixed_dstSendResponseBegin
  · rfl

theorem fixed_dstRun (h : x.t.state ≠ .init) : x.dstRun.1.t.fixed = x.t.fixed := by
  unfold dstRun
  split
  · next hi => exact absurd hi h
  · exact fixed_dstWaitResponsePrm
  · exact fixed_dstSendResponse
  · rfl
  · rfl

/-- A destination transaction that runs leaves its life time alone. -/
theorem stop_dstRun (h : x.t.state ≠ .init) :
    x.dstRun.1.t.transactionStopWhen = x.t.transactionStopWhen := congrArg Prod.fst (fixed_dstRun h)

theorem stop_dstRunIfOngoing (h : x.t.state ≠ .init) :
    x.dstRunIfOngoing.1.t.transactionStopWhen = x.t.transactionStopWhen := by
  unfold dstRunIfOngoing
  split
  · exact stop_dstRun h
  · rfl

theorem stop_dstInAck : x.dstInAck.t.transactionStopWhen = x.t.transactionStopWhen := by
  unfold dstInAck
  split
  · exact (SameCourse.startedAckResponder x).stop
  · rfl

end Dst

/-- The retransmission timer leaves the life time alone. -/
theorem stop_timer {S : Type} {x : Machine S} {ran : Machine S → Machine S} {i : S}
    (hran : ∀ {y : Machine S}, y.t.state ≠ i →
      (ran y).t.transactionStopWhen = y.t.transactionStopWhen) (h : x.t.state ≠ i) :
    (x.timer ran).t.transactionStopWhen = x.t.transactionStopWhen := by
  unfold timer
  extract_lets y
  have hreq := SameCourse.ackRequestor y
  split_ifs
  · exact (hran (hreq.state ▸ h)).trans hreq.stop
  · rfl
  · rfl

end Machine

/-- A tick takes one off the life time of a source transaction that it does not delete. -/
theorem TickOf.srcStop {t t' : SrcTransaction} (h : TickOf srcRan t false t')
    (hinv : SrcInv t) : t'.transactionStopWhen + 1 = t.transactionStopWhen := by
  obtain hdel | ⟨x, rfl, -, rfl, -⟩ := h.src hinv
  · cases hdel
  have htimer : (x.decStop.timer srcRan).t.transactionStopWhen = _ :=
    stop_timer (fun h => congrArg Clock.stop (clock_srcRan h)) hinv.live
  rw [htimer, decStop_stop hinv.stop.1]
  exact Nat.sub_add_cancel hinv.stop.1

/-- A tick takes one off the life time of a destination transaction that it does not delete. -/
theorem TickOf.dstStop {t t' : DstTransaction} (h : TickOf (·.dstRun.1) t false t')
    (hinv : DstInv t) : t'.transactionStopWhen + 1 = t.transactionStopWhen := by
  obtain hdel | ⟨x, rfl, -, rfl, -⟩ := h.dst hinv
  · cases hdel
  have htimer : (x.decStop.timer (·.dstRun.1)).t.transactionStopWhen = _ :=
    stop_timer stop_dstRun hinv.state_ne_init
  rw [htimer, decStop_stop hinv.stop.1]
  exact Nat.sub_add_cancel hinv.stop.1

/-! ## The pools -/

/-- Between `s` and `s'` there were `d` ticks: what is pooled and not new was pooled before, with
as much more time to live. -/
structure Node.Aged (d : Nat) (s s' : Node σ) : Prop where
  srcs : s.srcs.next ≤ s'.srcs.next
  src : ∀ p ∈ s'.src, p < s.srcs.next → p ∈ s.src ∧
    (s'.srcs.get p).transactionStopWhen + d = (s.srcs.get p).transactionStopWhen
  dsts : s.dsts.next ≤ s'.dsts.next
  dst : ∀ p ∈ s'.dst, p < s.dsts.next → p ∈ s.dst ∧
    (s'.dsts.get p).transactionStopWhen + d = (s.dsts.get p).transactionStopWhen

namespace Node.Aged

variable {s s' s'' : Node σ} {p : Ptr} {d d' : Nat}

theorem refl (s : Node σ) : s.Aged 0 s where
  srcs := le_rfl
  src _ hp _ := ⟨hp, rfl⟩
  dsts := le_rfl
  dst _ hp _ := ⟨hp, rfl⟩

theorem trans (h : s.Aged d s') (h' : s'.Aged d' s'') : s.Aged (d + d') s'' where
  srcs := h.srcs.trans h'.srcs
  src p hp hlt := by
    obtain ⟨hp', hstop'⟩ := h'.src p hp (hlt.trans_le h.srcs)
    obtain ⟨hp, hstop⟩ := h.src p hp' hlt
    exact ⟨hp, by omega⟩
  dsts := h.dsts.trans h'.dsts
  dst p hp hlt := by
    obtain ⟨hp', hstop'⟩ := h'.dst p hp (hlt.trans_le h.dsts)
    obtain ⟨hp, hstop⟩ := h.dst p hp' hlt
    exact ⟨hp, by omega⟩

theorem trans_zero (h : s.Aged 0 s') (h' : s'.Aged 0 s'') : s.Aged 0 s'' := h.trans h'

theorem of_eq (hsrcs : s'.srcs = s.srcs) (hsrc : s'.src ⊆ s.src) (hdsts : s'.dsts = s.dsts)
    (hdst : s'.dst ⊆ s.dst) : s.Aged 0 s' where
  srcs := by rw [hsrcs]
  src p hp _ := ⟨hsrc hp, by rw [hsrcs]; rfl⟩
  dsts := by rw [hdsts]
  dst p hp _ := ⟨hdst hp, by rw [hdsts]; rfl⟩

theorem apart (h : s.Apart s') : s.Aged 0 s' :=
  .of_eq h.srcs (fun _ hp => h.src ▸ hp) h.dsts (fun _ hp => h.dst ▸ hp)

/-- A source transaction moves, with its life time unchanged. -/
theorem putSrc {x : Machine SrcState}
    (hx : x.t.transactionStopWhen = (s.srcs.get p).transactionStopWhen) :
    s.Aged 0 ((s.putSrc p x).delFinishedSrc p) where
  srcs := by simp [Node.putSrc]
  src q hq _ := by
    refine ⟨(sublist_delFinishedSrc (s.putSrc p x) p).subset hq, ?_⟩
    simp only [delFinishedSrc_srcs, Node.putSrc, Store.get_set]
    split
    · next h => rw [h, hx]; rfl
    · rfl
  dsts := by simp [Node.putSrc]
  dst q hq _ := by
    rw [delFinishedSrc_dst] at hq
    rw [delFinishedSrc_dsts]
    exact ⟨hq, rfl⟩

/-- A destination transaction moves, with its life time unchanged. -/
theorem putDst {x : Machine DstState}
    (hx : x.t.transactionStopWhen = (s.dsts.get p).transactionStopWhen) :
    s.Aged 0 ((s.putDst p x).delFinishedDst p) where
  srcs := by simp [Node.putDst]
  src q hq _ := by
    rw [delFinishedDst_src] at hq
    rw [delFinishedDst_srcs]
    exact ⟨hq, rfl⟩
  dsts := by simp [Node.putDst]
  dst q hq _ := by
    have hsub : ((s.putDst p x).delFinishedDst p).dst ⊆ s.dst := by
      unfold delFinishedDst
      split
      · exact filter_sublist.subset
      · exact Subset.refl _
    refine ⟨hsub hq, ?_⟩
    simp only [delFinishedDst_dsts, Node.putDst, Store.get_set]
    split
    · next h => rw [h, hx]; rfl
    · rfl

theorem startSrc (s : Node σ) (o : Ptr) : s.Aged 0 (s.startSrc o) where
  srcs := by simp [startSrc_srcs]
  src p hp hlt := by
    have hold : p ∈ s.src := by
      rw [startSrc_src] at hp
      split at hp
      · exact (Pool.mem_add hp).resolve_left hlt.ne
      · exact hp
    rw [startSrc_srcs, Store.get_push_of_lt hlt]
    exact ⟨hold, rfl⟩
  dsts := by simp [Node.startSrc, newSrc, Node.putSrc]
  dst p hp _ := by
    have hdst : (s.startSrc o).dst = s.dst := by simp [Node.startSrc]; rfl
    have hdsts : (s.startSrc o).dsts = s.dsts := by simp [Node.startSrc]; rfl
    rw [hdsts]
    exact ⟨hdst ▸ hp, rfl⟩

theorem logOut (s : Node σ) (o : Ptr) : s.Aged 0 (s.logOut o) :=
  .of_eq rfl (Subset.refl _) rfl (Subset.refl _)

theorem logIn (s : Node σ) (i : Ptr) : s.Aged 0 (s.logIn i) :=
  .of_eq rfl (Subset.refl _) rfl (Subset.refl _)

theorem callSrc {x : Machine SrcState}
    (hx : x.t.transactionStopWhen = (s.srcs.get p).transactionStopWhen) :
    s.Aged 0 (s.callSrc p x) where
  srcs := le_rfl
  src q hq _ := by
    refine ⟨hq, ?_⟩
    change ((s.srcs.set p x.t).get q).transactionStopWhen = _
    rw [Store.get_set]
    split
    · next h => rw [h, hx]
    · rfl
  dsts := le_rfl
  dst _ hq _ := ⟨hq, rfl⟩

theorem resume (s : Node σ) (p : Ptr) : s.Aged 0 ((s.onSrc p srcResume).delFinishedSrc p) :=
  .putSrc (congrArg Clock.stop (quiet_srcResume _).clock)

end Node.Aged

section

variable {s s' : Node σ} {o i p : Ptr}

theorem Node.outSrcRun_stop (hinv : SrcInv (s.srcs.get p)) :
    (s.outSrcRun o p).1.t.transactionStopWhen = (s.srcs.get p).transactionStopWhen := by
  have hcourse := sameCourse_out (x := (s.logOut o).srcMachine p) o
  exact (congrArg Clock.stop (clock_srcRunIfOngoing (hcourse.state ▸ hinv.live))).trans hcourse.stop

theorem Node.inSrcRun_stop (hinv : SrcInv (s.srcs.get p)) :
    (s.inSrcRun i p).1.t.transactionStopWhen = (s.srcs.get p).transactionStopWhen := by
  have hcourse := sameCourse_srcIn (x := (s.logIn i).srcMachine p) i
  exact (congrArg Clock.stop (clock_srcRunIfOngoing (hcourse.state ▸ hinv.live))).trans hcourse.stop

theorem Node.outDstRun_stop (hinv : DstInv (s.dsts.get p)) :
    (s.outDstRun o p).t.transactionStopWhen = (s.dsts.get p).transactionStopWhen := by
  have hcourse := sameCourse_out (x := (s.logOut o).dstMachine p) o
  exact (stop_dstRunIfOngoing (hcourse.state ▸ hinv.state_ne_init)).trans hcourse.stop

theorem Node.inDstRun_stop (hinv : DstInv (s.dsts.get p)) :
    (s.inDstRun i p).t.transactionStopWhen = (s.dsts.get p).transactionStopWhen := by
  have hcourse := sameCourse_dstIn (x := (s.logIn i).dstMachine p) i
  exact stop_dstInAck.trans
    ((stop_dstRunIfOngoing (hcourse.state ▸ hinv.state_ne_init)).trans hcourse.stop)

theorem Node.Aged.outCall (hinv : SrcInv (s.srcs.get p)) :
    s.Aged 0 ((s.logOut o).callSrc p (s.outSrcRun o p).1) :=
  (Aged.logOut s o).trans_zero (Aged.callSrc (outSrcRun_stop hinv))

/-- No time passes in a call of `process_message`. -/
theorem Evolves.aged (h : Evolves s s') (hs : s.WF) : s.Aged 0 s' := by
  induction h with
  | refl s => exact .refl s
  | trans h _ ih ih' => exact (ih hs).trans_zero (ih' (h.wf hs))
  | apart h => exact .apart h
  | outConfirm s o _ => exact .logOut s o
  | @outNew s o _ => exact (Aged.logOut s o).trans_zero (.startSrc (s.logOut o) o)
  | @outDst s o p h =>
    have hinv := hs.dst.inv p (Pool.mem_of_find h.2)
    exact (Aged.logOut s o).trans_zero (.putDst (outDstRun_stop hinv))
  | @outSrc s o p h _ =>
    have hinv := hs.src.inv p (Pool.mem_of_find h.2)
    exact (Aged.logOut s o).trans_zero (.putSrc (outSrcRun_stop hinv))
  | @outCall s s₁ o p h _ _ ih =>
    have hinv := hs.src.inv p (Pool.mem_of_find h.2)
    have hcall := (Aged.outCall hinv).trans_zero (ih (h.called hs).2)
    exact hcall.trans_zero (.resume s₁ p)
  | @outThrow s s₁ o p h _ _ ih =>
    have hinv := hs.src.inv p (Pool.mem_of_find h.2)
    exact (Aged.outCall hinv).trans_zero (ih (h.called hs).2)

theorem Node.Aged.inNewCall (s : Node σ) (i : Ptr) : s.Aged 0 (s.inNewCall i) where
  srcs := le_rfl
  src _ hp _ := ⟨hp, rfl⟩
  dsts := by simp [inNewCall_dsts]
  dst p hp hlt := by
    rw [inNewCall_dsts, Store.get_push_of_lt hlt]
    exact ⟨hp, rfl⟩

/-- Storing back the transaction `p`, which is not counted. -/
theorem Node.Aged.resumeDst {rsp : Bool} (h : s.Aged 0 s') (hp : s.dsts.next ≤ p) :
    s.Aged 0 ((s'.onDst p (dstResume · rsp)).poolDst p) where
  srcs := by
    rw [poolDst_srcs]
    exact h.srcs
  src q hq := by
    rw [poolDst_src] at hq
    rw [poolDst_srcs]
    exact h.src q hq
  dsts := by
    rw [poolDst_dsts]
    exact h.dsts
  dst q hq hlt := by
    have hne : q ≠ p := (hlt.trans_le hp).ne
    have hold : q ∈ s'.dst := by
      unfold poolDst at hq
      split at hq
      · exact (Pool.mem_add hq).resolve_left hne
      · exact hq
    rw [poolDst_dsts]
    change q ∈ s.dst ∧ ((s'.dsts.set p _).get q).transactionStopWhen + 0 = _
    rw [Store.get_set_of_ne hne]
    exact h.dst q hold hlt

theorem Node.Takes.stop {x : Machine SrcState} (h : s.Takes i p x) (hinv : SrcInv (s.srcs.get p)) :
    x.t.transactionStopWhen = (s.srcs.get p).transactionStopWhen := by
  rcases h.eq with ⟨rfl, -⟩ | rfl
  · exact (sameCourse_srcIn i).stop
  · exact inSrcRun_stop hinv

theorem Incoming.aged {process : Ptr → Ptr → M σ Bool} {r : Result Fault (Node σ) Unit}
    (hproc : ∀ i o, Keeps EvolvesWF (process i o)) (h : Incoming process s i r) (hs : s.WF) :
    s.Aged 0 r.state := by
  have hlog := Aged.logIn s i
  refine h.induct hproc hs (fun p x hx => ?_) (fun p x s₁ hx hev => ?_)
    (fun p hin => ?_) fun s₁ _ hev => ?_
  · have hinv := hs.src.inv p (hx.spec hs).1
    exact hlog.trans_zero (.putSrc (hx.stop hinv))
  · obtain ⟨hp, -, -, hwf⟩ := hx.spec hs
    have hcall := Aged.callSrc (s := s.logIn i) (hx.stop (hs.src.inv p hp))
    have haged := (hlog.trans_zero hcall).trans_zero (hev.aged hwf)
    exact ⟨haged, haged.trans_zero (.resume s₁ p)⟩
  · have hinv := hs.dst.inv p (Pool.mem_of_find hin.2)
    exact hlog.trans_zero (.putDst (inDstRun_stop hinv))
  · have haged := (Aged.inNewCall s i).trans_zero (hev.aged hs.inNewCall)
    exact ⟨haged, fun _ => haged.resumeDst le_rfl⟩

theorem Node.SrcTicked.mem_of_mem (h : s.SrcTicked s') (hp : p ∈ s'.src) :
    p ∈ s.src ∧ TickOf srcRan (s.srcs.get p) false (s'.srcs.get p) := by
  have hp' := h.pool.subset hp
  obtain ⟨del, hdel, htick⟩ := h.ticked p hp'
  exact ⟨hp', hdel.mp hp ▸ htick⟩

theorem Node.DstTicked.mem_of_mem (h : s.DstTicked s') (hp : p ∈ s'.dst) :
    p ∈ s.dst ∧ TickOf (·.dstRun.1) (s.dsts.get p) false (s'.dsts.get p) := by
  have hp' := h.pool.subset hp
  obtain ⟨del, hdel, htick⟩ := h.ticked p hp'
  exact ⟨hp', hdel.mp hp ▸ htick⟩

theorem tick_aged {handler : Handler σ} (hs : s.WF)
    (h : tick (processLocked handler) s = .ok () s') : s.Aged 1 s' := by
  obtain ⟨s₁, hsrc, hdst⟩ := tick_ok hs h
  refine ⟨(hdst.srcs ▸ hsrc.next).ge, fun p hp _ => ?_, (hsrc.dsts ▸ hdst.next).ge,
    fun p hp _ => ?_⟩
  · rw [hdst.src] at hp
    obtain ⟨hp, htick⟩ := hsrc.mem_of_mem hp
    exact ⟨hp, hdst.srcs ▸ htick.srcStop (hs.src.inv p hp)⟩
  · obtain ⟨hp, htick⟩ := hdst.mem_of_mem hp
    rw [hsrc.dst] at hp
    rw [hsrc.dsts] at htick
    exact ⟨hp, htick.dstStop (hs.dst.inv p hp)⟩

end

/-! ## Ticks return

unless an exception has left a source transaction inside `process_message`, because a tick does not
call it otherwise. -/

section Loop

variable {S : Type} {cell : Node σ → Ptr → Transaction S}
  {machine : Node σ → Ptr → Machine S} {on : Node σ → Ptr → (Machine S → Machine S) → Node σ}
  {run : Ptr → M σ Unit} {ran : Machine S → Machine S} {Live Mid Run : Transaction S → Prop}
  {Frame : Node σ → Node σ → Prop} {Logged : Owner → Event → Prop}
  (h : Counted cell machine on run ran Live Mid Run Frame Logged) {s : Node σ}
include h

section

variable (hrun : ∀ s p, Run (cell s p) → ∃ s', run p s = .ok () s')
include hrun

theorem Counted.decOne_ok {p : Ptr}
    (hl : Live (cell s p)) : ∃ del s', decOne cell on run p s = .ok del s' := by
  have ht := h.machine_t s p
  have hlife : ∃ s₁, decLife cell on run p s = .ok () s₁ := by
    have hc := h.on_cell (s := s) (p := p) (f := decStop) (.assign _ rfl rfl)
    unfold decLife
    extract_lets s₀
    split
    · next h0 =>
        rw [show cell s₀ p = _ from hc] at h0
        exact hrun s₀ p ((show cell s₀ p = _ from hc) ▸ h.life_run (ht ▸ hl) h0)
    · exact ⟨_, rfl⟩
  obtain ⟨s₁, h₁⟩ := hlife
  have hmid : Mid (cell s₁ p) := by
    rw [(h.decLife_spec hl).2.1 s₁ h₁]
    exact h.life_mid (ht ▸ hl)
  have htimer : ∃ s₂, decTimer cell on run p s₁ = .ok () s₂ := by
    have hmoves : (machine s₁ p).Moves (machine s₁ p).decRetransmission := .assign _ rfl rfl
    have hc := h.on_cell hmoves
    unfold decTimer
    split
    · next hon =>
        extract_lets s₀
        split
        · next h0 =>
            rw [show cell s₀ p = _ from hc] at h0
            refine hrun _ p ?_
            rw [h.on_cell (moves_ackRequestor _), h.on_machine hmoves]
            have ht₁ := h.machine_t s₁ p
            exact h.timer_run (ht₁ ▸ hmid) (ht₁ ▸ hon) h0
        · exact ⟨_, rfl⟩
    · exact ⟨_, rfl⟩
  obtain ⟨s₂, h₂⟩ := htimer
  simp only [decOne, h₁, h₂]
  exact ⟨_, _, rfl⟩

theorem Counted.decLoop_ok {l : List Ptr} (hn : l.Nodup) (hl : ∀ p ∈ l, Live (cell s p)) :
    ∃ dels s', decLoop cell on run l s = .ok dels s' := by
  induction l generalizing s with
  | nil => exact ⟨[], s, rfl⟩
  | cons p l ih =>
    obtain ⟨hp, hn⟩ := nodup_cons.mp hn
    have hlive := hl p (by simp)
    obtain ⟨del, s₁, h₁⟩ := h.decOne_ok hrun hlive
    have hother := (h.decOne_spec hlive).1.other
    rw [h₁, Result.state_ok] at hother
    obtain ⟨dels, s₂, h₂⟩ := ih hn fun q hq => by
      rw [hother q fun heq => hp (heq ▸ hq)]
      exact hl q (by simp [hq])
    simp only [decLoop, h₁, h₂]
    exact ⟨_, _, rfl⟩

end

end Loop

/-- Going through the destination transactions never fails. -/
theorem decDst_returns (process : Ptr → Ptr → M σ Bool) {s : Node σ} (hs : s.DstWF) :
    ∃ s', decDst process s = .ok () s' := by
  obtain ⟨dels, s', h⟩ := (counted_dst process).decLoop_ok
    (fun s p hlive => ⟨_, runDst_eq process hlive⟩) hs.nodup
    fun p hp => (hs.inv p hp).state_ne_init
  exact ⟨_, after_of_ok h⟩

theorem tick_returns (handler : Handler σ) {s : Node σ} (hs : s.WF) (hset : s.Settled) :
    ∃ s', tick (processLocked handler) s = .ok () s' := by
  have hsrc : ∃ s₁, decSrc (processLocked handler) s = .ok () s₁ := by
    obtain ⟨dels, s₁, heq⟩ := (counted_src_settled handler).decLoop_ok
      (fun s p hidle => by
        rcases runSrc_locked handler s p with ⟨-, heq⟩ | ⟨hcall, -⟩
        · exact ⟨_, heq⟩
        · rw [hidle.srcRun_snd] at hcall
          cases hcall)
      hs.src.nodup fun p hp => ⟨hs.src.inv p hp, hset p hp⟩
    exact ⟨_, after_of_ok heq⟩
  obtain ⟨s₁, h₁⟩ := hsrc
  have hs₁ := ((decSrc_spec handler hs.src).2 s₁ h₁).wf hs
  unfold tick
  rw [h₁]
  exact decDst_returns _ hs₁.dst

/-! ## Runs -/

section

variable {handler : Handler σ} {n : Nat} {s s' : Node σ}

theorem step_aged {i : Input σ} (hs : s.WF) (h : step handler n i s = .ok () s') :
    s.Aged (if i.isTick then 1 else 0) s' := by
  cases i with
  | recv m =>
    have hin := recv_incoming handler n m hs.dst
    rw [h] at hin
    exact (Aged.apart (s.apart_received m)).trans_zero
      (hin.aged (process_evolves handler n) (hs.apart (s.apart_received m)))
  | act x =>
    have hev := act_evolves handler n x hs.dst
    rw [h] at hev
    exact hev.aged hs
  | tick => exact tick_aged hs h

theorem steps_aged {is : List (Input σ)} (h : Steps (step handler n) s is s')
    (hs : s.WF) : s.Aged (is.countP Input.isTick) s' := by
  induction h with
  | nil s => exact .refl s
  | @cons i is s s₁ s₂ heq _ ih =>
    have hage := (step_aged hs heq).trans (ih (step_wf handler n hs heq))
    rwa [countP_cons, Nat.add_comm]

variable {svc : σ} {tid : UInt16} {is : List (Input σ)}

/-- Ticks alone return, send at most, and add nothing to the pools. -/
theorem ticks_settled (handler : Handler σ) (n k : Nat) (hs : s.WF) (hset : s.Settled) :
    ∃ s', Steps (step handler n) s (replicate k .tick) s' ∧
      s.Mutes s' ∧ s'.src.Sublist s.src ∧ s'.dst.Sublist s.dst := by
  induction k generalizing s with
  | zero => exact ⟨s, .nil s, .of_eq le_rfl rfl, .refl _, .refl _⟩
  | succ k ih =>
    obtain ⟨s₁, h₁⟩ := tick_returns handler hs hset
    obtain ⟨s₂, hsrc, hdst⟩ := tick_ok hs h₁
    have hmutes := mutes_tick handler hs hset
    rw [h₁] at hmutes
    have hset₁ := (hsrc.settled hs hset).of_keeps (.of_eq hdst.srcs hdst.src)
    obtain ⟨s', hsteps, hmutes', hsrc', hdst'⟩ := ih (hdst.wf (hsrc.wf hs)) hset₁
    rw [hdst.src] at hsrc'
    have hpool := hdst.pool
    rw [hsrc.dst] at hpool
    exact ⟨s', .cons h₁ hsteps, hmutes.trans hmutes', hsrc'.trans hsrc.pool, hdst'.trans hpool⟩

/-- Left to its clock, a node with sets for its pools that has come about regularly empties both in
fifteen ticks. All of them return, and none receives or processes a message. -/
theorem ticks_empty_pools (h : Steps (step handler n) (initial svc tid) is s)
    (hreg : ∀ e ∈ s.log, e.Regular) :
    ∃ s', Steps (step handler n) s (replicate 15 .tick) s' ∧
      s.Mutes s' ∧ s'.src = [] ∧ s'.dst = [] := by
  have horderly : s.Orderly :=
    h.induct (fun i _ _ h heq => h.next handler n i heq) (.initial svc tid)
  obtain ⟨hs, hinv⟩ := horderly
  obtain ⟨s', hsteps, hmutes, hsrc, hdst⟩ := ticks_settled handler n 15 hs (hinv hreg).1
  have haged : s.Aged 15 s' := steps_aged hsteps hs
  have hs' : s'.WF := hsteps.induct (fun _ _ _ hs heq => step_wf handler n hs heq) hs
  refine ⟨s', hsteps, hmutes, eq_nil_iff_forall_not_mem.mpr fun p hp => ?_,
    eq_nil_iff_forall_not_mem.mpr fun p hp => ?_⟩
  · obtain ⟨hold, hstop⟩ := haged.src p hp (hs.src.lt p (hsrc.subset hp))
    have h₁ := (hs.src.inv p hold).stop.2
    have h₂ := (hs'.src.inv p hp).stop.1
    omega
  · obtain ⟨hold, hstop⟩ := haged.dst p hp (hs.dst.lt p (hdst.subset hp))
    have h₁ := (hs.dst.inv p hold).stop.2
    have h₂ := (hs'.dst.inv p hp).stop.1
    omega

theorem ticks_empty_pools_request :
    let s := (step idle 1 (.submit (requestTo80 0)) (initial () 0)).state
    s.src = [1] ∧ ∃ s', Steps (step idle 1) s (replicate 15 .tick) s' ∧
      s.Mutes s' ∧ s'.src = [] ∧ s'.dst = [] :=
  ⟨by decide +kernel, ticks_empty_pools
    (.cons (Result.eq_ok_of_isOk (by decide +kernel)) (.nil _)) (by decide +kernel)⟩

/-- With sets for the pools, no two pooled transactions have one key in any state that is reached. A
source transaction has been started, and a destination transaction waits for the response or for its
acknowledgement. -/
theorem pools_sound (h : Steps (step handler n) (initial svc tid) is s) :
    (∀ p ∈ s.src, SrcInv (s.srcs.get p) ∧ ∀ q ∈ s.src, s.srcKey p = s.srcKey q → p = q) ∧
    ∀ p ∈ s.dst, DstInv (s.dsts.get p) ∧ ∀ q ∈ s.dst, s.dstKey p = s.dstKey q → p = q := by
  have hs := wf_steps h
  exact ⟨fun p hp => ⟨hs.src.inv p hp, fun q hq => hs.src.keys.eq_of_key hp hq⟩,
    fun p hp => ⟨hs.dst.inv p hp, fun q hq => hs.dst.keys.eq_of_key hp hq⟩⟩

theorem pools_sound_request :
    let s := (step idle 1 (.submit (requestTo80 0)) (initial () 0)).state
    1 ∈ s.src ∧ SrcInv (s.srcs.get 1) :=
  ⟨by decide +kernel, ((pools_sound
    (.cons (Result.eq_ok_of_isOk (by decide +kernel)) (.nil _))).1 1 (by decide +kernel)).1⟩

end

end Odtone.Mihf
