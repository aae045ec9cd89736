import Odtone.Mihf.Incoming

/-! # Ticks

A tick counts down every pooled transaction once. Running a transaction there touches that
transaction, the messages and the log and nothing else, because `message_out` is out of reach while
the pool is locked. The two pools are gone through in the same way, so the loop is treated once, for
any part of the node with the properties collected in `Counted`.
-/

namespace Odtone.Mihf

open Machine Node List EStateM

variable {σ C : Type}

/-- What a tick can log on behalf of a transaction. -/
def Event.InTick (o : Owner) (e : Event) : Prop :=
  e.SentBy o ∨ (∃ i m, e = .process o i m) ∨ ∃ i m, e = .udpSend i m

theorem Event.InTick.of_sentBy {o : Owner} {e : Event} (h : e.SentBy o) : e.InTick o := .inl h

/-- One of the two counters of the transaction reaches zero in the next tick. -/
def Rings {S : Type} (t : Transaction S) : Prop :=
  t.transactionStopWhen = 1 ∨ t.ackRequestorStatus = .ongoing ∧ t.retransmissionWhen = 1

/-- What one pass of the loop body makes of a transaction, and whether it is to be deleted. Between
the two parts of the body the messages may have changed. -/
def TickOf {S : Type} (ran : Machine S → Machine S) (t : Transaction S) (del : Bool)
    (t' : Transaction S) : Prop :=
  ∃ x y : Machine S, x.t = t ∧ y.t = (x.life ran).t ∧ t' = (y.timer ran).t ∧
    del = ((decide (y.t.transactionStopWhen = 0) && decide (y.t.transactionStatus = .ongoing)) ||
      decide (t'.transactionStatus ≠ .ongoing))

/-! ## The loop -/

section Loop

variable {S : Type} (cell : Node σ C → Ptr → Transaction S)
  (machine : Node σ C → Ptr → Machine S) (on : Node σ C → Ptr → (Machine S → Machine S) → Node σ C)
  (run : Ptr → MOn C σ Unit) (ran : Machine S → Machine S) (Live Mid Run : Transaction S → Prop)
  (Frame : Node σ C → Node σ C → Prop) (Logged : Owner → Event → Prop)

/-- A change of the transaction `p` and of what is not a transaction. -/
structure Touch (p : Ptr) (s s' : Node σ C) : Prop where
  frame : Frame s s'
  other : ∀ q, q ≠ p → cell s' q = cell s q
  log : ∃ l, s'.log = s.log ++ l ∧ ∀ e ∈ l, Logged (machine s p).owner e

/-- A part of the node with transactions in it that `dec` can go through. A transaction is `Live`
when the loop comes to it, `Mid` between the two parts of the body, and `Run` when it is run. -/
structure Counted : Prop where
  machine_t : ∀ s p, (machine s p).t = cell s p
  frame_refl : ∀ s, Frame s s
  frame_trans : ∀ {s s' s''}, Frame s s' → Frame s' s'' → Frame s s''
  frame_owner : ∀ {s s'} p, Frame s s' → (machine s' p).owner = (machine s p).owner
  on_touch : ∀ {s p f}, (machine s p).Moves (f (machine s p)) →
    Touch cell machine Frame Logged p s (on s p f)
  on_machine : ∀ {s p f}, (machine s p).Moves (f (machine s p)) →
    machine (on s p f) p = f (machine s p)
  on_log : ∀ {s p f}, (f (machine s p)).log = (machine s p).log → (on s p f).log = s.log
  life_run : ∀ {x : Machine S}, Live x.t → x.decStop.t.transactionStopWhen = 0 → Run x.decStop.t
  life_mid : ∀ {x : Machine S}, Live x.t → Mid (x.life ran).t
  timer_run : ∀ {x : Machine S}, Mid x.t → x.t.ackRequestorStatus = .ongoing →
    x.decRetransmission.t.retransmissionWhen = 0 → Run x.decRetransmission.ackRequestor.t
  run_touch : ∀ {s p}, Run (cell s p) → Touch cell machine Frame Logged p s (run p s).state
  run_cell : ∀ {s p s'}, Run (cell s p) → run p s = .ok () s' → cell s' p = (ran (machine s p)).t

variable {cell machine on run ran Live Mid Run Frame Logged}

theorem Touch.trans {p : Ptr} {s s' s'' : Node σ C} (h₁ : Touch cell machine Frame Logged p s s')
    (hframe : Frame s s'') (howner : (machine s' p).owner = (machine s p).owner)
    (h₂ : Touch cell machine Frame Logged p s' s'') : Touch cell machine Frame Logged p s s'' := by
  obtain ⟨l₁, hl₁, he₁⟩ := h₁.log
  obtain ⟨l₂, hl₂, he₂⟩ := h₂.log
  rw [howner] at he₂
  refine ⟨hframe, fun q hq => (h₂.other q hq).trans (h₁.other q hq),
    l₁ ++ l₂, by rw [hl₂, hl₁, append_assoc], ?_⟩
  intro e he
  rcases mem_append.mp he with he | he
  · exact he₁ e he
  · exact he₂ e he

theorem decUnsigned_eq_zero {n : Nat} : decUnsigned n = 0 ↔ n = 1 := by
  unfold decUnsigned
  split <;> omega

namespace Counted

variable (h : Counted cell machine on run ran Live Mid Run Frame Logged) {s s' : Node σ C} {p : Ptr}
include h

theorem refl (p : Ptr) (s : Node σ C) : Touch cell machine Frame Logged p s s :=
  ⟨h.frame_refl s, fun _ _ => rfl, [], by simp, by simp⟩

theorem trans {s'' : Node σ C} (h₁ : Touch cell machine Frame Logged p s s')
    (h₂ : Touch cell machine Frame Logged p s' s'') : Touch cell machine Frame Logged p s s'' :=
  h₁.trans (h.frame_trans h₁.frame h₂.frame) (h.frame_owner p h₁.frame) h₂

theorem on_cell {f : Machine S → Machine S} (hmoves : (machine s p).Moves (f (machine s p))) :
    cell (on s p f) p = (f (machine s p)).t := by
  rw [← h.machine_t, h.on_machine hmoves]

theorem decLife_spec (hl : Live (cell s p)) :
    Touch cell machine Frame Logged p s (decLife cell on run p s).state ∧
      (∀ s', decLife cell on run p s = .ok () s' → cell s' p = ((machine s p).life ran).t) ∧
      ((cell s p).transactionStopWhen ≠ 1 → decLife cell on run p s = .ok () (on s p decStop)) := by
  have hmoves : (machine s p).Moves (machine s p).decStop := .assign _ rfl rfl
  have hon := h.on_touch hmoves
  have hc := h.on_cell hmoves
  have ht : (machine s p).t = cell s p := h.machine_t s p
  have hiff : (machine s p).decStop.t.transactionStopWhen = 0 ↔
      (cell s p).transactionStopWhen = 1 := ht ▸ decUnsigned_eq_zero
  by_cases h0 : (machine s p).decStop.t.transactionStopWhen = 0
  · have heq : decLife cell on run p s = run p (on s p decStop) := if_pos (hc ▸ h0)
    have hlife : (machine s p).life ran = ran (machine s p).decStop := if_pos h0
    have hl' : Run (cell (on s p decStop) p) := hc ▸ h.life_run (ht ▸ hl) h0
    rw [heq, hlife]
    refine ⟨h.trans hon (h.run_touch hl'), fun s' hs' => ?_, fun hne => absurd (hiff.mp h0) hne⟩
    rw [h.run_cell hl' hs', h.on_machine hmoves]
  · have heq : decLife cell on run p s = .ok () (on s p decStop) := if_neg (hc ▸ h0)
    have hlife : (machine s p).life ran = (machine s p).decStop := if_neg h0
    rw [heq, hlife]
    refine ⟨hon, fun s' hs' => ?_, fun _ => rfl⟩
    cases hs'
    exact hc

theorem decTimer_spec (hl : Mid (cell s p)) :
    Touch cell machine Frame Logged p s (decTimer cell on run p s).state ∧
      (∀ s', decTimer cell on run p s = .ok () s' → cell s' p = ((machine s p).timer ran).t) ∧
      (¬ ((cell s p).ackRequestorStatus = .ongoing ∧ (cell s p).retransmissionWhen = 1) →
        decTimer cell on run p s = .ok () s ∨
          decTimer cell on run p s = .ok () (on s p decRetransmission)) := by
  have hmoves : (machine s p).Moves (machine s p).decRetransmission := .assign _ rfl rfl
  have hon := h.on_touch hmoves
  have hm := h.on_machine hmoves
  have hc := h.on_cell hmoves
  have ht : (machine s p).t = cell s p := h.machine_t s p
  have hiff : (machine s p).decRetransmission.t.retransmissionWhen = 0 ↔
      (cell s p).retransmissionWhen = 1 := ht ▸ decUnsigned_eq_zero
  by_cases hong : (cell s p).ackRequestorStatus = .ongoing
  · have hong' : (machine s p).t.ackRequestorStatus = .ongoing := ht ▸ hong
    by_cases h0 : (machine s p).decRetransmission.t.retransmissionWhen = 0
    · have heq : decTimer cell on run p s = run p (on (on s p decRetransmission) p ackRequestor) :=
        (if_pos hong).trans (if_pos (hc ▸ h0))
      have htimer : (machine s p).timer ran = ran (machine s p).decRetransmission.ackRequestor :=
        (if_pos hong').trans (if_pos h0)
      have hmoves' : (machine (on s p decRetransmission) p).Moves
          (machine (on s p decRetransmission) p).ackRequestor := moves_ackRequestor _
      have hl' : Run (cell (on (on s p decRetransmission) p ackRequestor) p) := by
        rw [h.on_cell hmoves', hm]
        exact h.timer_run (ht ▸ hl) hong' h0
      rw [heq, htimer]
      refine ⟨h.trans (h.trans hon (h.on_touch hmoves')) (h.run_touch hl'), fun s' hs' => ?_,
        fun hne => absurd ⟨hong, hiff.mp h0⟩ hne⟩
      rw [h.run_cell hl' hs', h.on_machine hmoves', hm]
    · have heq : decTimer cell on run p s = .ok () (on s p decRetransmission) :=
        (if_pos hong).trans (if_neg (hc ▸ h0))
      have htimer : (machine s p).timer ran = (machine s p).decRetransmission :=
        (if_pos hong').trans (if_neg h0)
      rw [heq, htimer]
      refine ⟨hon, fun s' hs' => ?_, fun _ => .inr rfl⟩
      cases hs'
      exact hc
  · have heq : decTimer cell on run p s = .ok () s := if_neg hong
    have htimer : (machine s p).timer ran = machine s p := if_neg (ht ▸ hong)
    rw [heq, htimer]
    refine ⟨h.refl p s, fun s' hs' => ?_, fun _ => .inl rfl⟩
    cases hs'
    exact ht.symm

theorem decOne_spec (hl : Live (cell s p)) :
    Touch cell machine Frame Logged p s (decOne cell on run p s).state ∧
      (∀ del s', decOne cell on run p s = .ok del s' → TickOf ran (cell s p) del (cell s' p)) ∧
      (¬ Rings (cell s p) → (decOne cell on run p s).state.log = s.log) := by
  obtain ⟨ht₁, hc₁, hq₁⟩ := h.decLife_spec hl
  unfold decOne
  cases h₁ : decLife cell on run p s with
  | error e s₁ =>
    rw [h₁] at ht₁ hq₁
    refine ⟨ht₁, by simp, fun hr => ?_⟩
    cases hq₁ fun hstop => hr (.inl hstop)
  | ok _ s₁ =>
    rw [h₁] at ht₁ hq₁
    have hc₁ := hc₁ s₁ h₁
    obtain ⟨ht₂, hc₂, hq₂⟩ := h.decTimer_spec (hc₁ ▸ h.life_mid (h.machine_t s p ▸ hl))
    have hlog : ¬ Rings (cell s p) → (decTimer cell on run p s₁).state.log = s.log := by
      intro hr
      have hs₁ : s₁ = on s p decStop := by
        have := hq₁ fun hstop => hr (.inl hstop)
        cases this
        rfl
      have hcell : cell s₁ p = (machine s p).decStop.t := by
        rw [hs₁]
        exact h.on_cell (.assign _ rfl rfl)
      have hq : ¬ ((cell s₁ p).ackRequestorStatus = .ongoing ∧
          (cell s₁ p).retransmissionWhen = 1) := by
        rw [hcell]
        intro hring
        rw [← h.machine_t] at hr
        exact hr (.inr hring)
      have hlog₁ : s₁.log = s.log := hs₁ ▸ h.on_log rfl
      rcases hq₂ hq with heq | heq
      · rw [heq]
        exact hlog₁
      · rw [heq]
        exact (h.on_log rfl).trans hlog₁
    dsimp only
    cases h₂ : decTimer cell on run p s₁ with
    | error e s₂ =>
      rw [h₂] at ht₂ hlog
      exact ⟨h.trans ht₁ ht₂, by simp, hlog⟩
    | ok _ s₂ =>
      rw [h₂] at ht₂ hlog
      refine ⟨h.trans ht₁ ht₂, ?_, hlog⟩
      intro del s' heq
      cases heq
      refine ⟨machine s p, machine s₁ p, h.machine_t s p, ?_, hc₂ s₂ h₂, ?_⟩
      · rw [h.machine_t, hc₁]
      · rw [h.machine_t]

/-- The loop. Everything logged is logged on behalf of a transaction that rings. -/
theorem decLoop_spec {l : List Ptr} (hn : l.Nodup) (hl : ∀ p ∈ l, Live (cell s p)) :
    (Frame s (decLoop cell on run l s).state ∧
      (∀ q ∉ l, cell (decLoop cell on run l s).state q = cell s q) ∧
      ∃ es, (decLoop cell on run l s).state.log = s.log ++ es ∧
        ∀ e ∈ es, ∃ p ∈ l, Rings (cell s p) ∧ Logged (machine s p).owner e) ∧
    ∀ dels s', decLoop cell on run l s = .ok dels s' →
      dels ⊆ l ∧ ∀ p ∈ l, ∃ del, (del = true ↔ p ∈ dels) ∧
      TickOf ran (cell s p) del (cell s' p) := by
  induction l generalizing s with
  | nil =>
    refine ⟨⟨h.frame_refl s, fun _ _ => rfl, [], by simp [decLoop], by simp⟩, ?_⟩
    intro dels s' heq
    cases heq
    simp
  | cons p l ih =>
    obtain ⟨hp, hn⟩ := nodup_cons.mp hn
    obtain ⟨ht, htick, hquiet⟩ := h.decOne_spec (hl p (by simp))
    have hlog : ∃ es, (decOne cell on run p s).state.log = s.log ++ es ∧
        ∀ e ∈ es, Rings (cell s p) ∧ Logged (machine s p).owner e := by
      by_cases hr : Rings (cell s p)
      · obtain ⟨es, hes, he⟩ := ht.log
        exact ⟨es, hes, fun e hmem => ⟨hr, he e hmem⟩⟩
      · exact ⟨[], by simp [hquiet hr], by simp⟩
    obtain ⟨es₁, hes₁, he₁⟩ := hlog
    cases h₁ : decOne cell on run p s with
    | error e s₁ =>
      have heq : decLoop cell on run (p :: l) s = .error e s₁ := by simp only [decLoop, h₁]
      rw [heq]
      rw [h₁] at ht hes₁
      refine ⟨⟨ht.frame, fun q hq => ht.other q (ne_of_not_mem_cons hq), es₁, hes₁, ?_⟩, by simp⟩
      exact fun e he => ⟨p, by simp, he₁ e he⟩
    | ok del s₁ =>
      rw [h₁, Result.state_ok] at ht hes₁
      -- The others have not been touched when the loop comes to them.
      have hcell : ∀ q ∈ l, cell s₁ q = cell s q := fun q hq => ht.other q fun heq => hp (heq ▸ hq)
      obtain ⟨⟨hframe, hother, es₂, hes₂, he₂⟩, hrest⟩ := ih hn
        fun q hq => (hcell q hq).symm ▸ hl q (by simp [hq])
      have hstate : (decLoop cell on run (p :: l) s).state = (decLoop cell on run l s₁).state := by
        simp only [decLoop, h₁]
        cases decLoop cell on run l s₁ <;> rfl
      rw [hstate]
      refine ⟨⟨h.frame_trans ht.frame hframe, fun q hq => ?_, es₁ ++ es₂, ?_, ?_⟩, ?_⟩
      · rw [mem_cons, not_or] at hq
        exact (hother q hq.2).trans (ht.other q hq.1)
      · rw [hes₂, hes₁, append_assoc]
      · intro e he
        rcases mem_append.mp he with he | he
        · exact ⟨p, by simp, he₁ e he⟩
        · obtain ⟨q, hq, hring, hin⟩ := he₂ e he
          rw [hcell q hq] at hring
          rw [h.frame_owner q ht.frame] at hin
          exact ⟨q, by simp [hq], hring, hin⟩
      · intro dels s' heq
        simp only [decLoop, h₁] at heq
        cases h₂ : decLoop cell on run l s₁ with
        | error e s₂ => rw [h₂] at heq; cases heq
        | ok dels' s₂ =>
          rw [h₂] at heq
          cases heq
          obtain ⟨hsub, hall⟩ := hrest dels' s' h₂
          have hself : cell s' p = cell s₁ p := by
            have := hother p hp
            rwa [h₂] at this
          have hdel : (del = true ↔ p ∈ if del then dels' ++ [p] else dels') := by
            cases del
            · simpa using fun hmem => hp (hsub hmem)
            · simp
          refine ⟨?_, ?_⟩
          · cases del
            · exact fun q hq => mem_cons_of_mem _ (hsub hq)
            · exact append_subset.mpr ⟨fun q hq => mem_cons_of_mem _ (hsub hq), by simp⟩
          · intro q hq
            rcases mem_cons.mp hq with rfl | hql
            · exact ⟨del, hdel, hself ▸ htick del s₁ h₁⟩
            · obtain ⟨del', hiff, htick'⟩ := hall q hql
              refine ⟨del', hiff.trans ?_, hcell q hql ▸ htick'⟩
              have hne : q ≠ p := fun heq => hp (heq ▸ hql)
              cases del <;> simp [hne]

end Counted

end Loop

/-! ## `process_message` in a tick -/

/-- With the pool locked, a handler leaves the transactions alone. -/
theorem processLocked_apart (handler : Handler σ) (i o : Ptr) :
    Keeps (Apart (C := C)) (processLocked handler i o) := by
  refine Keeps.run (perform_keeps (fun _ _ h => h) fun s o _ => ?_) (handler i o)
  exact .refl s

/-! ## The source transactions -/

/-- What a tick leaves alone when it goes through the source transactions. -/
structure Node.SrcFrame (s s' : Node σ C) : Prop where
  src : s'.src = s.src
  next : s'.srcs.next = s.srcs.next
  dsts : s'.dsts = s.dsts
  dst : s'.dst = s.dst
  msgs : s.msgs.next ≤ s'.msgs.next
  key : ∀ q, s'.srcKey q = s.srcKey q
  ack : ∀ q, (s'.srcs.get q).ack.payload = (s.srcs.get q).ack.payload

/-- What follows a call depends on the transaction only. -/
theorem Machine.srcResume_t {x y : Machine SrcState} (h : x.t = y.t) :
    x.srcResume.t = y.srcResume.t := by
  unfold srcResume srcWaitResponseMsg
  simp only [assign_t, h]
  split
  · split
    · split <;> simp [srcSuccess, srcFailure, h]
    · simp [h]
  · simp [srcSuccess, h]

section Src

variable {s s' : Node σ C} {p : Ptr}

theorem Node.owner_srcMachine (s : Node σ C) (p : Ptr) :
    (s.srcMachine p).owner = ⟨.src, p, s.srcKey p⟩ := rfl

theorem Node.touch_putSrc {x : Machine SrcState} {Logged : Owner → Event → Prop}
    (hsent : ∀ {o e}, Event.SentBy o e → Logged o e) (hx : (s.srcMachine p).Moves x) :
    Touch (fun s => s.srcs.get) srcMachine SrcFrame Logged p s (s.putSrc p x) where
  frame := by
    refine ⟨rfl, rfl, rfl, rfl, hx.next.ge, fun q => ?_, fun q => ?_⟩
    · simp only [srcKey, putSrc, Store.get_set]
      split
      · next h => rw [h]; exact hx.key
      · rfl
    · simp only [putSrc, Store.get_set]
      split
      · next h => rw [h]; exact hx.ack
      · rfl
  other q hq := Store.get_set_of_ne hq
  log := by
    obtain ⟨l, hl, he⟩ := hx.log
    exact ⟨l, hl, fun e hmem => hsent (he e hmem)⟩

theorem Node.touch_callSrc {x : Machine SrcState} (hx : (s.srcMachine p).Moves x) :
    Touch (fun s => s.srcs.get) srcMachine SrcFrame Event.InTick p s
      (s.callSrc p x) where
  frame :=
    have h := (touch_putSrc Event.InTick.of_sentBy hx).frame
    ⟨h.src, h.next, h.dsts, h.dst, h.msgs, h.key, h.ack⟩
  other := (touch_putSrc Event.InTick.of_sentBy hx).other
  log := by
    obtain ⟨l, hl, he⟩ := hx.log
    refine ⟨l ++ [.process ⟨.src, p, x.t.key⟩ x.t.inMsg x.inMsg], ?_, ?_⟩
    · change x.log ++ _ = _
      rw [hl, append_assoc]
      rfl
    · intro e hmem
      rcases mem_append.mp hmem with hmem | hmem
      · exact .inl (he e hmem)
      · refine .inr (.inl ⟨x.t.inMsg, x.inMsg, ?_⟩)
        rw [mem_singleton.mp hmem, hx.key]
        rfl

theorem Node.Apart.touch_src (h : s.Apart s') :
    Touch (fun s => s.srcs.get) srcMachine SrcFrame Event.InTick p s s' where
  frame := ⟨h.src, by rw [h.srcs], h.dsts, h.dst, h.msgs, fun q => by rw [srcKey, srcKey, h.srcs],
    fun q => by rw [h.srcs]⟩
  other q _ := by rw [h.srcs]
  log := by
    obtain ⟨l, hl, he⟩ := h.log
    exact ⟨l, hl, fun e hmem => .inr (.inr (he e hmem))⟩

theorem runSrc_locked (handler : Handler σ) (s : Node σ C) (p : Ptr) :
    (s.srcMachine p).srcRun.2 = false ∧
      runSrc (processLocked handler) p s = .ok () (s.putSrc p (s.srcMachine p).srcRun.1) ∨
    (s.srcMachine p).srcRun.2 = true ∧ ∃ s₁, (s.callSrc p (s.srcMachine p).srcRun.1).Apart s₁ ∧
      (runSrc (processLocked handler) p s = .ok () (s₁.onSrc p srcResume) ∨
        ∃ e, runSrc (processLocked handler) p s = .error e s₁) := by
  cases hcall : (s.srcMachine p).srcRun.2 with
  | false => exact .inl ⟨rfl, if_neg (by simp [hcall])⟩
  | true =>
    refine .inr ⟨rfl, ?_⟩
    have hrun : runSrc (processLocked handler) p s =
        (processLocked handler (s.srcMachine p).srcRun.1.t.inMsg
          (s.srcMachine p).srcRun.1.t.outMsg).after (fun _ s => s.onSrc p srcResume)
          (s.callSrc p (s.srcMachine p).srcRun.1) := if_pos hcall
    cases hres : processLocked handler (s.srcMachine p).srcRun.1.t.inMsg
        (s.srcMachine p).srcRun.1.t.outMsg (s.callSrc p (s.srcMachine p).srcRun.1) with
    | ok rsp s₁ =>
      exact ⟨s₁, (processLocked_apart handler _ _).result hres,
        .inl (hrun.trans (after_of_ok hres))⟩
    | error e s₁ =>
      exact ⟨s₁, (processLocked_apart handler _ _).result hres,
        .inr ⟨e, hrun.trans (after_of_error hres)⟩⟩

end Src

theorem Node.SrcFrame.trans {s s' s'' : Node σ C} (h : s.SrcFrame s') (h' : s'.SrcFrame s'') :
    s.SrcFrame s'' :=
  ⟨h'.src.trans h.src, h'.next.trans h.next, h'.dsts.trans h.dsts, h'.dst.trans h.dst,
    h.msgs.trans h'.msgs, fun q => (h'.key q).trans (h.key q), fun q => (h'.ack q).trans (h.ack q)⟩

theorem touch_src_trans {s s' s'' : Node σ C} {p : Ptr} {Logged : Owner → Event → Prop}
    (h : Touch (fun s => s.srcs.get) srcMachine SrcFrame Logged p s s')
    (h' : Touch (fun s => s.srcs.get) srcMachine SrcFrame Logged p s' s'') :
    Touch (fun s => s.srcs.get) srcMachine SrcFrame Logged p s s'' :=
  h.trans (h.frame.trans h'.frame)
    (by rw [owner_srcMachine, owner_srcMachine, h.frame.key]) h'

/-- Whatever the machine does by itself keeps it out of the initial state. -/
theorem Machine.life_live {S : Type} {ran : Machine S → Machine S} {i : S} {x : Machine S}
    (hran : ∀ {x : Machine S}, x.t.state ≠ i → (ran x).t.state ≠ i) (hl : x.t.state ≠ i) :
    (x.life ran).t.state ≠ i := by
  unfold life
  extract_lets y
  split
  · exact hran hl
  · exact hl

theorem runSrc_cell {handler : Handler σ} {s s' : Node σ C} {p : Ptr}
    (h : runSrc (processLocked handler) p s = .ok () s') :
    s'.srcs.get p = (s.srcMachine p).srcRan.t := by
  have hran : ∀ x : Machine SrcState, x.srcRan = if x.srcRun.2 then x.srcRun.1.srcResume
    else x.srcRun.1 := fun _ => rfl
  rw [hran]
  rcases runSrc_locked handler s p with ⟨hcall, heq⟩ | ⟨hcall, s₁, hapart, heq | ⟨e, heq⟩⟩
  · rw [h] at heq
    cases heq
    simp [hcall, putSrc]
  · rw [h] at heq
    cases heq
    rw [if_pos hcall]
    change (s₁.srcs.set p _).get p = _
    rw [Store.get_set_self]
    refine srcResume_t ?_
    change s₁.srcs.get p = _
    rw [hapart.srcs]
    exact Store.get_set_self
  · rw [h] at heq
    cases heq

/-- The source transactions as a tick goes through them. -/
theorem counted_src (handler : Handler σ) :
    Counted (fun s : Node σ C => s.srcs.get) srcMachine onSrc (runSrc (processLocked handler))
      srcRan (fun t => t.state ≠ .init) (fun t => t.state ≠ .init)
      (fun t => t.state ≠ .init) SrcFrame Event.InTick where
  machine_t _ _ := rfl
  frame_refl s := ⟨rfl, rfl, rfl, rfl, le_rfl, fun _ => rfl, fun _ => rfl⟩
  frame_trans := .trans
  frame_owner p h := by rw [owner_srcMachine, owner_srcMachine, h.key]
  on_touch hmoves := touch_putSrc .of_sentBy hmoves
  on_machine hmoves := srcMachine_putSrc hmoves.side hmoves.ptr
  on_log h := h
  life_run hl _ := hl
  life_mid hl := life_live srcRan_live hl
  timer_run {x} hl _ _ := by
    rw [(SameCourse.ackRequestor x.decRetransmission).state]
    exact hl
  run_touch {s p} hl := by
    have hmoves := moves_srcRun (s.srcMachine p) hl
    rcases runSrc_locked handler s p with ⟨-, heq⟩ | ⟨-, s₁, hapart, heq | ⟨e, heq⟩⟩
    · rw [heq]
      exact touch_putSrc .of_sentBy hmoves
    · rw [heq]
      exact touch_src_trans (touch_src_trans (touch_callSrc hmoves) hapart.touch_src)
        (touch_putSrc .of_sentBy (moves_srcResume _))
    · rw [heq]
      exact touch_src_trans (touch_callSrc hmoves) hapart.touch_src
  run_cell _ hs' := runSrc_cell hs'

/-- The same when no source transaction is inside `process_message`: then none gets there. -/
theorem counted_src_settled (handler : Handler σ) :
    Counted (fun s : Node σ C => s.srcs.get) srcMachine onSrc (runSrc (processLocked handler))
      srcRan (fun t => SrcInv t ∧ t.state ≠ .processMsg) Halfway Idle
      SrcFrame Event.SentBy where
  machine_t _ _ := rfl
  frame_refl s := ⟨rfl, rfl, rfl, rfl, le_rfl, fun _ => rfl, fun _ => rfl⟩
  frame_trans := .trans
  frame_owner p h := by rw [owner_srcMachine, owner_srcMachine, h.key]
  on_touch hmoves := touch_putSrc (fun h => h) hmoves
  on_machine hmoves := srcMachine_putSrc hmoves.side hmoves.ptr
  on_log h := h
  life_run hl hstop := ⟨hl.1.live, hl.2, fun _ => .inl hstop⟩
  life_mid hl := halfway_life hl.1 hl.2
  timer_run hl hon hring := hl.idle hon hring
  run_touch {s p} hl := by
    have hmoves := moves_srcRun (s.srcMachine p) hl.live
    have hcall := hl.srcRun_snd (x := s.srcMachine p)
    rcases runSrc_locked handler s p with ⟨-, heq⟩ | ⟨hcall', -⟩
    · rw [heq]
      exact touch_putSrc (fun h => h) hmoves
    · rw [hcall] at hcall'
      cases hcall'
  run_cell _ hs' := runSrc_cell hs'

/-! ## The destination transactions -/

/-- What a tick leaves alone when it goes through the destination transactions. -/
structure Node.DstTickFrame (s s' : Node σ C) : Prop where
  dst : s'.dst = s.dst
  next : s'.dsts.next = s.dsts.next
  srcs : s'.srcs = s.srcs
  src : s'.src = s.src
  msgs : s.msgs.next ≤ s'.msgs.next
  key : ∀ q, s'.dstKey q = s.dstKey q

theorem Node.touch_putDst {s : Node σ C} {p : Ptr} {x : Machine DstState}
    (hx : (s.dstMachine p).Moves x) :
    Touch (fun s => s.dsts.get) dstMachine DstTickFrame Event.SentBy p s
      (s.putDst p x) where
  frame := by
    refine ⟨rfl, rfl, rfl, rfl, hx.next.ge, fun q => ?_⟩
    simp only [dstKey, putDst, Store.get_set]
    split
    · next h => rw [h]; exact hx.key
    · rfl
  other q hq := Store.get_set_of_ne hq
  log := hx.log

/-- The destination transactions as a tick goes through them. -/
theorem counted_dst (process : Ptr → Ptr → MOn C σ Bool) :
    Counted (fun s => s.dsts.get) dstMachine onDst (runDst process)
      (·.dstRun.1) (fun t => t.state ≠ .init) (fun t => t.state ≠ .init) (fun t => t.state ≠ .init)
      DstTickFrame Event.SentBy where
  machine_t _ _ := rfl
  frame_refl s := ⟨rfl, rfl, rfl, rfl, le_rfl, fun _ => rfl⟩
  frame_trans h h' := ⟨h'.dst.trans h.dst, h'.next.trans h.next, h'.srcs.trans h.srcs,
    h'.src.trans h.src, h.msgs.trans h'.msgs, fun q => (h'.key q).trans (h.key q)⟩
  frame_owner {s s'} p h := by
    change (⟨.dst, p, s'.dstKey p⟩ : Owner) = ⟨.dst, p, s.dstKey p⟩
    rw [h.key]
  on_touch hmoves := touch_putDst hmoves
  on_machine hmoves := dstMachine_putDst hmoves.side hmoves.ptr
  on_log h := h
  life_run hl _ := hl
  life_mid hl := life_live dstRun_live hl
  timer_run {x} hl _ _ := by
    rw [(SameCourse.ackRequestor x.decRetransmission).state]
    exact hl
  run_touch {s p} hl := by
    rw [runDst_eq process hl]
    exact touch_putDst (moves_dstRun _ hl)
  run_cell {s p s'} hl heq := by
    rw [runDst_eq process hl] at heq
    cases heq
    exact Store.get_set_self

/-! ## Deleting -/

namespace Node

variable {s : Node σ} {dels : List Ptr}

theorem foldl_delSrc (s : Node σ) (dels : List Ptr) :
    dels.foldl delSrc s = { s with src := dels.foldl (Pool.del s.srcKey) s.src } := by
  induction dels generalizing s with
  | nil => rfl
  | cons q dels ih =>
    rw [foldl_cons, ih]
    rfl

theorem foldl_delDst (s : Node σ) (dels : List Ptr) :
    dels.foldl delDst s = { s with dst := dels.foldl (Pool.del s.dstKey) s.dst } := by
  induction dels generalizing s with
  | nil => rfl
  | cons q dels ih =>
    rw [foldl_cons, ih]
    rfl

end Node

/-! ## The whole tick -/

theorem decSrc_eq (process : Ptr → Ptr → M σ Bool) (s : Node σ) : decSrc process s =
    (decLoop (fun s => s.srcs.get) onSrc (runSrc process) s.src).after
      (fun dels s => dels.foldl delSrc s) s := rfl

theorem decDst_eq (process : Ptr → Ptr → M σ Bool) (s : Node σ) : decDst process s =
    (decLoop (fun s => s.dsts.get) onDst (runDst process) s.dst).after
      (fun dels s => dels.foldl delDst s) s := rfl

/-- What going through the source transactions does. -/
structure Node.SrcTicked (s s' : Node σ) : Prop where
  next : s'.srcs.next = s.srcs.next
  dsts : s'.dsts = s.dsts
  dst : s'.dst = s.dst
  msgs : s.msgs.next ≤ s'.msgs.next
  key : ∀ q, s'.srcKey q = s.srcKey q
  ack : ∀ q, (s'.srcs.get q).ack.payload = (s.srcs.get q).ack.payload
  pool : s'.src.Sublist s.src
  other : ∀ q ∉ s.src, s'.srcs.get q = s.srcs.get q
  ticked : ∀ p ∈ s.src, ∃ del, (p ∈ s'.src ↔ del = false) ∧
    TickOf Machine.srcRan (s.srcs.get p) del (s'.srcs.get p)

/-- What going through the destination transactions does. -/
structure Node.DstTicked (s s' : Node σ) : Prop where
  next : s'.dsts.next = s.dsts.next
  srcs : s'.srcs = s.srcs
  src : s'.src = s.src
  msgs : s.msgs.next ≤ s'.msgs.next
  key : ∀ q, s'.dstKey q = s.dstKey q
  pool : s'.dst.Sublist s.dst
  other : ∀ q ∉ s.dst, s'.dsts.get q = s.dsts.get q
  ticked : ∀ p ∈ s.dst, ∃ del, (p ∈ s'.dst ↔ del = false) ∧
    TickOf (·.dstRun.1) (s.dsts.get p) del (s'.dsts.get p)

section

variable {s : Node σ}

theorem Node.SrcWF.nodup (h : s.SrcWF) : s.src.Nodup := Nodup.of_map _ h.keys

theorem Node.DstWF.nodup (h : s.DstWF) : s.dst.Nodup := Nodup.of_map _ h.keys

/-- Whether the loop fails or not, it does not touch the destination transactions. -/
theorem decSrc_spec (handler : Handler σ) (hs : s.SrcWF) :
    ((decSrc (processLocked handler) s).state.dsts = s.dsts ∧
      ∃ es, (decSrc (processLocked handler) s).state.log = s.log ++ es ∧
        ∀ e ∈ es, ∃ p ∈ s.src, Rings (s.srcs.get p) ∧ e.InTick ⟨.src, p, s.srcKey p⟩) ∧
    ∀ s', decSrc (processLocked handler) s = .ok () s' → s.SrcTicked s' := by
  obtain ⟨⟨hframe, hother, es, hlog, hes⟩, hok⟩ :=
    (counted_src handler).decLoop_spec hs.nodup fun p hp => (hs.inv p hp).live
  rw [decSrc_eq]
  cases heq : decLoop (fun s => s.srcs.get) onSrc (runSrc (processLocked handler)) s.src s with
  | error e s₁ =>
    rw [after_of_error heq]
    rw [heq] at hlog hframe
    exact ⟨⟨hframe.dsts, es, hlog, hes⟩, by simp⟩
  | ok dels s₁ =>
    rw [after_of_ok heq, foldl_delSrc]
    rw [heq] at hlog hframe hother
    obtain ⟨hsub, hticked⟩ := hok dels s₁ heq
    have hkeys : Pool.Distinct s₁.srcKey s.src := hs.keys.congr fun p _ => hframe.key p
    refine ⟨⟨hframe.dsts, es, hlog, hes⟩, fun s' hs' => ?_⟩
    cases hs'
    refine ⟨hframe.next, hframe.dsts, hframe.dst, hframe.msgs, hframe.key, hframe.ack, ?_,
      hother, fun p hp => ?_⟩
    · exact hframe.src ▸ Pool.foldl_del_sublist
    · obtain ⟨del, hdel, htick⟩ := hticked p hp
      refine ⟨del, ?_, htick⟩
      rw [show s₁.src = s.src from hframe.src, hkeys.mem_foldl_del hsub, ← hdel]
      simp [hp]

/-- When no source transaction is inside `process_message`, a tick only sends. -/
theorem decSrc_settled (handler : Handler σ) (hs : s.SrcWF)
    (hst : ∀ p ∈ s.src, (s.srcs.get p).state ≠ .processMsg) :
    s.msgs.next ≤ (decSrc (processLocked handler) s).state.msgs.next ∧
    ∃ es, (decSrc (processLocked handler) s).state.log = s.log ++ es ∧
      ∀ e ∈ es, ∃ p ∈ s.src, Rings (s.srcs.get p) ∧ e.SentBy ⟨.src, p, s.srcKey p⟩ := by
  obtain ⟨⟨hframe, -, es, hlog, hes⟩, -⟩ :=
    (counted_src_settled handler).decLoop_spec hs.nodup fun p hp => ⟨hs.inv p hp, hst p hp⟩
  rw [decSrc_eq]
  cases heq : decLoop (fun s => s.srcs.get) onSrc (runSrc (processLocked handler)) s.src s with
  | error e s₁ =>
    rw [heq] at hlog hframe
    rw [after_of_error heq]
    exact ⟨hframe.msgs, es, hlog, hes⟩
  | ok dels s₁ =>
    rw [heq] at hlog hframe
    rw [after_of_ok heq, foldl_delSrc]
    exact ⟨hframe.msgs, es, hlog, hes⟩

theorem decDst_spec (process : Ptr → Ptr → M σ Bool) (hs : s.DstWF) :
    s.msgs.next ≤ (decDst process s).state.msgs.next ∧
    (∃ es, (decDst process s).state.log = s.log ++ es ∧
      ∀ e ∈ es, ∃ p ∈ s.dst, Rings (s.dsts.get p) ∧ e.SentBy ⟨.dst, p, s.dstKey p⟩) ∧
    ∀ s', decDst process s = .ok () s' → s.DstTicked s' := by
  obtain ⟨⟨hframe, hother, es, hlog, hes⟩, hok⟩ :=
    (counted_dst process).decLoop_spec hs.nodup fun p hp => (hs.inv p hp).state_ne_init
  rw [decDst_eq]
  cases heq : decLoop (fun s => s.dsts.get) onDst (runDst process) s.dst s with
  | error e s₁ =>
    rw [after_of_error heq]
    rw [heq] at hlog hframe
    exact ⟨hframe.msgs, ⟨es, hlog, hes⟩, by simp⟩
  | ok dels s₁ =>
    rw [after_of_ok heq, foldl_delDst]
    rw [heq] at hlog hframe hother
    obtain ⟨hsub, hticked⟩ := hok dels s₁ heq
    have hkeys : Pool.Distinct s₁.dstKey s.dst := hs.keys.congr fun p _ => hframe.key p
    refine ⟨hframe.msgs, ⟨es, hlog, hes⟩, fun s' hs' => ?_⟩
    cases hs'
    refine ⟨hframe.next, hframe.srcs, hframe.src, hframe.msgs, hframe.key, ?_, hother,
      fun p hp => ?_⟩
    · exact hframe.dst ▸ Pool.foldl_del_sublist
    · obtain ⟨del, hdel, htick⟩ := hticked p hp
      refine ⟨del, ?_, htick⟩
      rw [show s₁.dst = s.dst from hframe.dst, hkeys.mem_foldl_del hsub, ← hdel]
      simp [hp]

end

/-! ## Well-formedness -/

section

variable {S : Type} {ran : Machine S → Machine S} {t t' : Transaction S} {del : Bool}

/-- In a tick before the end of the life time only the retransmission timer is run. -/
def RunsTimer (ran : Machine S → Machine S) (t : Transaction S) (del : Bool) (t' : Transaction S) :
    Prop :=
  ∃ x : Machine S, x.t = t ∧ x.decStop.t.transactionStopWhen ≠ 0 ∧ t' = (x.decStop.timer ran).t ∧
    del = decide (t'.transactionStatus ≠ .ongoing)

theorem TickOf.runsTimer (h : TickOf ran t del t') (hne : t.transactionStopWhen ≠ 1) :
    RunsTimer ran t del t' := by
  obtain ⟨x, ⟨side, ptr, u, msgs, log⟩, rfl, hy, rfl, rfl⟩ := h
  have hstop : x.decStop.t.transactionStopWhen ≠ 0 := mt decUnsigned_eq_zero.mp hne
  have hlife : x.life ran = x.decStop := if_neg hstop
  rw [hlife] at hy
  cases hy
  refine ⟨⟨side, ptr, x.t, msgs, log⟩, rfl, hstop, rfl, ?_⟩
  change (decide (x.decStop.t.transactionStopWhen = 0) && _ || _) = _
  rw [decide_eq_false hstop]
  rfl

/-- At the end of the life time the transaction is deleted, if it is over or still ongoing. -/
theorem TickOf.cases {Over : Transaction S → Prop} (h : TickOf ran t del t')
    (hlife : ∀ {x : Machine S}, x.t = t → x.decStop.t.transactionStopWhen = 0 →
      (x.life ran).t.transactionStopWhen = 0 ∧ (x.life ran).t.transactionStatus = .ongoing ∨
        Over (x.life ran).t)
    (hover : ∀ {y : Machine S}, Over y.t → (y.timer ran).t.transactionStatus ≠ .ongoing) :
    del = true ∨ RunsTimer ran t del t' := by
  by_cases hone : t.transactionStopWhen = 1
  · obtain ⟨x, y, rfl, hy, rfl, rfl⟩ := h
    have hend := hlife rfl (decUnsigned_eq_zero.mpr hone)
    rw [← hy] at hend
    rcases hend with hend | hend
    · exact .inl (by simp [hend.1, hend.2])
    · exact .inl (by simp [hover hend])
  · exact .inr (h.runsTimer hone)

end

theorem TickOf.src {t t' : SrcTransaction} {del : Bool} (h : TickOf srcRan t del t')
    (hinv : SrcInv t) : del = true ∨ RunsTimer srcRan t del t' :=
  h.cases (fun hx => srcLife (hx ▸ hinv)) srcTimer_over

theorem TickOf.dst {t t' : DstTransaction} {del : Bool} (h : TickOf (·.dstRun.1) t del t')
    (hinv : DstInv t) : del = true ∨ RunsTimer (·.dstRun.1) t del t' :=
  h.cases (fun hx => dstLife (hx ▸ hinv)) dstTimer_over

/-- A source transaction that is not deleted satisfies the invariant. -/
theorem TickOf.srcInv {t t' : SrcTransaction} {del : Bool} (h : TickOf srcRan t del t')
    (hinv : SrcInv t) : del = true ∨ SrcInv t' := by
  refine (h.src hinv).imp_right ?_
  rintro ⟨x, rfl, hstop, rfl, -⟩
  exact srcTimer_inv hinv hstop

/-- A destination transaction that is not deleted satisfies the invariant. -/
theorem TickOf.dstInv {t t' : DstTransaction} {del : Bool} (h : TickOf (·.dstRun.1) t del t')
    (hinv : DstInv t) : del = true ∨ DstInv t' := by
  obtain hdel | ⟨x, rfl, hstop, rfl, rfl⟩ := h.dst hinv
  · exact .inl hdel
  refine (dstTimer_done hinv hstop).symm.imp_left fun hfin => ?_
  simp only [Transaction.Finished, Bool.and_eq_true] at hfin
  exact hfin.1

end Odtone.Mihf
