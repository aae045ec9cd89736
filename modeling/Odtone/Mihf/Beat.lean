import Odtone.Mihf.Course

/-! # What a tick does to a source transaction

A tick counts the life time down, runs the transaction if that is over, counts the retransmission
timer down if the acknowledgement requestor still waits, and runs requestor and transaction if the
timer rings. With the pool locked, a run does not come back to the transaction; it may fail, and
then the tick ends there. -/

namespace Odtone.Mihf

open Machine Node EStateM.Result List

variable {σ : Type}

/-- The first part of the loop body of `transaction_pool::dec`: the life time. -/
def LifeBeat (p : Ptr) (a b : Trace SrcState) : Prop :=
  ∃ a₁, a.Does .src p (fun _ => True) Machine.decStop a₁ ∧ SrcMoves (fun _ => False) p true a₁ b ∧
    (a₁.t.transactionStopWhen ≠ 0 → b = a₁)

/-- The second part: the retransmission timer. -/
def TimerBeat (p : Ptr) (a b : Trace SrcState) : Prop :=
  b = a ∧ a.t.ackRequestorStatus ≠ .ongoing ∨
  a.t.ackRequestorStatus = .ongoing ∧
    ∃ a₁, a.Does .src p (fun _ => True) Machine.decRetransmission a₁ ∧
      (b = a₁ ∧ a₁.t.retransmissionWhen ≠ 0 ∨
      a₁.t.retransmissionWhen = 0 ∧
        ∃ a₂, a₁.Does .src p (fun _ => True) Machine.ackRequestor a₂ ∧
        SrcMoves (fun _ => False) p true a₂ b)

/-- One pass of the loop body over the source transaction `p`; an exception can end it behind the
first part. -/
def Beat (done : Prop) (p : Ptr) (a b : Trace SrcState) : Prop :=
  ∃ a₁, LifeBeat p a a₁ ∧ (b = a₁ ∧ ¬ done ∨ TimerBeat p a₁ b)

section

variable {s s' : Node σ} {p q : Ptr} (handler : Handler σ)

theorem srcMoves_locked (hlive : (s.srcs.get p).state ≠ .init) :
    SrcMoves (fun _ => False) p true (s.srcTrace p)
        ((runSrc (processLocked handler) p s).state.srcTrace p) ∧
      ∀ q ≠ p, (runSrc (processLocked handler) p s).state.srcTrace q = s.srcTrace q := by
  have hmoves := moves_srcRun (s.srcMachine p) hlive
  have hown := own_srcAdvance (x := s.srcMachine p) hlive
  rcases runSrc_locked handler s p with ⟨hcall, heq⟩ | ⟨hcall, s₁, hapart, hres⟩
  · have hadv : (s.srcMachine p).srcAdvance = (s.srcMachine p).srcRun.1 := if_neg (by simp [hcall])
    rw [heq, state_ok]
    refine ⟨?_, fun q hq => srcTrace_putSrc_of_ne (.of_moves hmoves) hq⟩
    rw [← hadv]
    exact .advance (does_putSrc trivial hown)
  · have hadv : (s.srcMachine p).srcAdvance = (s.srcMachine p).srcRun.1.called := if_pos hcall
    have hdoes : (s.srcTrace p).Does .src p (fun _ => True) srcAdvance
        (s₁.srcTrace p) := by
      rw [hapart.srcTrace, callSrc_eq hmoves, ← hadv]
      exact does_putSrc trivial hown
    have hother : ∀ q ≠ p, s₁.srcTrace q = s.srcTrace q := fun q hq => by
      rw [hapart.srcTrace, srcTrace_callSrc_of_ne hmoves hq]
    rcases hres with heq | ⟨e, heq⟩
    · rw [heq, state_ok]
      refine ⟨.call hdoes ?_ (.refl _ _) ?_, fun q hq => ?_⟩
      · have hcell : s₁.srcs.get p = (s.srcMachine p).srcRun.1.t := by
          rw [hapart.srcs]
          exact Store.get_set_self
        change (s₁.srcs.get p).state = _
        rw [hcell]
        exact (srcRun_call hlive).mp hcall
      · exact does_putSrc trivial (.of_moves (moves_srcResume _))
      · rw [← hother q hq]
        exact srcTrace_putSrc_of_ne (.of_moves (moves_srcResume _)) hq
    · rw [heq, state_error]
      exact ⟨.advance hdoes, hother⟩

variable {r : EStateM.Result Fault (Node σ) Unit} {P : Machine SrcState → Prop}

theorem decLife_beat
    (h : decLife (fun s => s.srcs.get) onSrc (runSrc (processLocked handler)) p s = r)
    (hlive : (s.srcs.get p).state ≠ .init) :
    LifeBeat p (s.srcTrace p) (r.state.srcTrace p) ∧
      ∀ q ≠ p, r.state.srcTrace q = s.srcTrace q := by
  subst h
  have hcell : (s.onSrc p decStop).srcs.get p = (s.srcMachine p).decStop.t := Store.get_set_self
  have hother : ∀ q ≠ p, (s.onSrc p decStop).srcTrace q = s.srcTrace q :=
    fun q hq => srcTrace_putSrc_of_ne (.of_moves (.assign _ rfl rfl)) hq
  unfold decLife
  extract_lets s₁
  have hdoes : (s.srcTrace p).Does .src p (fun _ => True) decStop (s₁.srcTrace p) :=
    does_putSrc trivial (.of_moves (.assign _ rfl rfl))
  split
  · next h0 =>
      have hlive₁ : (s₁.srcs.get p).state ≠ .init := by
        rw [show s₁.srcs.get p = _ from hcell]
        exact hlive
      obtain ⟨hm, ho⟩ := srcMoves_locked handler hlive₁
      exact ⟨⟨_, hdoes, hm, fun hne => absurd h0 hne⟩, fun q hq => (ho q hq).trans (hother q hq)⟩
  · exact ⟨⟨_, hdoes, .refl _ _, fun _ => rfl⟩, hother⟩

theorem decTimer_beat
    (h : decTimer (fun s => s.srcs.get) onSrc (runSrc (processLocked handler)) p s = r)
    (hlive : (s.srcs.get p).state ≠ .init) :
    TimerBeat p (s.srcTrace p) (r.state.srcTrace p) ∧
      ∀ q ≠ p, r.state.srcTrace q = s.srcTrace q := by
  subst h
  unfold decTimer
  split
  · next hon =>
      extract_lets s₁
      have hcell : s₁.srcs.get p = (s.srcMachine p).decRetransmission.t := Store.get_set_self
      have hother : ∀ q ≠ p, s₁.srcTrace q = s.srcTrace q :=
        fun q hq => srcTrace_putSrc_of_ne (.of_moves (.assign _ rfl rfl)) hq
      have hdoes : (s.srcTrace p).Does .src p (fun _ => True) decRetransmission
          (s₁.srcTrace p) := does_putSrc trivial (.of_moves (.assign _ rfl rfl))
      split
      · next h0 =>
          have hown := Own.of_moves (moves_ackRequestor (s₁.srcMachine p))
          have hlive₂ : ((s₁.onSrc p ackRequestor).srcs.get p).state ≠ .init := by
            have hstate := (SameCourse.ackRequestor (s₁.srcMachine p)).state
            change ((s₁.srcs.set p _).get p).state ≠ _
            rw [Store.get_set_self, hstate]
            change (s₁.srcs.get p).state ≠ _
            rw [hcell]
            exact hlive
          obtain ⟨hm, ho⟩ := srcMoves_locked handler hlive₂
          refine ⟨.inr ⟨hon, _, hdoes, .inr ⟨h0, _, does_putSrc trivial hown, hm⟩⟩, ?_⟩
          intro q hq
          rw [ho q hq, ← hother q hq]
          exact srcTrace_putSrc_of_ne hown hq
      · next h0 => exact ⟨.inr ⟨hon, _, hdoes, .inl ⟨rfl, h0⟩⟩, hother⟩
  · next hon => exact ⟨.inl ⟨rfl, hon⟩, fun _ _ => rfl⟩

variable {a b : Trace SrcState}

theorem Trace.Does.decStop_t (h : a.Does .src p P decStop b) :
    b.t = { a.t with transactionStopWhen := decUnsigned a.t.transactionStopWhen } := by
  obtain ⟨x, -, -, ht, -, hb, -⟩ := h
  rw [hb, ← ht]
  rfl

theorem Trace.Does.decRetransmission_t (h : a.Does .src p P decRetransmission b) :
    b.t = { a.t with retransmissionWhen := decUnsigned a.t.retransmissionWhen } := by
  obtain ⟨x, -, -, ht, -, hb, -⟩ := h
  rw [hb, ← ht]
  rfl

theorem LifeBeat.live (h : LifeBeat p a b) (hl : a.t.state ≠ .init) :
    b.t.state ≠ .init ∧ b.t.key = a.t.key := by
  obtain ⟨a₁, hdoes, hm, -⟩ := h
  have ht₁ := hdoes.decStop_t
  obtain ⟨hl', hk⟩ := hm.key (by rw [ht₁]; exact hl)
  rw [ht₁] at hk
  exact ⟨hl', hk⟩

theorem TimerBeat.live (h : TimerBeat p a b) (hl : a.t.state ≠ .init) :
    b.t.state ≠ .init ∧ b.t.key = a.t.key := by
  rcases h with ⟨rfl, -⟩ | ⟨-, a₁, hdoes, hrest⟩
  · exact ⟨hl, rfl⟩
  · have ht₁ := hdoes.decRetransmission_t
    rcases hrest with ⟨rfl, -⟩ | ⟨-, a₂, ⟨y, -, -, hty, -, ha₂, -⟩, hm⟩
    · rw [ht₁]
      exact ⟨hl, rfl⟩
    · rw [ht₁] at hty
      have hstate₂ : a₂.t.state = a.t.state := by
        rw [ha₂, (SameCourse.ackRequestor y).state, hty]
      have hkey₂ : a₂.t.key = a.t.key := by
        rw [ha₂, (moves_ackRequestor y).key, hty]
        rfl
      obtain ⟨hl', hk⟩ := hm.key (hstate₂ ▸ hl)
      exact ⟨hl', hk.trans hkey₂⟩

/-- A transaction keeps its key in a tick. -/
theorem Beat.live {done : Prop} (h : Beat done p a b) (hl : a.t.state ≠ .init) :
    b.t.state ≠ .init ∧ b.t.key = a.t.key := by
  obtain ⟨a₁, hlife, ⟨rfl, -⟩ | htimer⟩ := h
  · exact hlife.live hl
  · obtain ⟨hl₁, hk₁⟩ := hlife.live hl
    obtain ⟨hl₂, hk₂⟩ := htimer.live hl₁
    exact ⟨hl₂, hk₂.trans hk₁⟩

theorem decOne_beat {r : EStateM.Result Fault (Node σ) Bool}
    (h : decOne (fun s => s.srcs.get) onSrc (runSrc (processLocked handler)) p s = r)
    (hlive : (s.srcs.get p).state ≠ .init) :
    Beat (r.isOk = true) p (s.srcTrace p) (r.state.srcTrace p) ∧
      ∀ q ≠ p, r.state.srcTrace q = s.srcTrace q := by
  subst h
  unfold decOne
  cases h₁ : decLife (fun s => s.srcs.get) onSrc (runSrc (processLocked handler)) p s with
  | error e s₁ =>
    obtain ⟨hlife, hother⟩ := decLife_beat handler h₁ hlive
    exact ⟨⟨_, hlife, .inl ⟨rfl, by simp [isOk]⟩⟩, hother⟩
  | ok _ s₁ =>
    obtain ⟨hlife, hother⟩ := decLife_beat handler h₁ hlive
    dsimp only
    cases h₂ : decTimer (fun s => s.srcs.get) onSrc (runSrc (processLocked handler)) p s₁ with
    | error e s₂ | ok _ s₂ =>
      obtain ⟨htimer, hother'⟩ := decTimer_beat handler h₂ (hlife.live hlive).1
      exact ⟨⟨_, hlife, .inr htimer⟩, fun q hq => (hother' q hq).trans (hother q hq)⟩

/-- The loop. When it fails, it has come to some of the transactions only. -/
theorem decLoop_beat {l : List Ptr} {r : EStateM.Result Fault (Node σ) (List Ptr)}
    (h : decLoop (fun s => s.srcs.get) onSrc (runSrc (processLocked handler)) l s = r)
    (hn : l.Nodup) (hl : ∀ p ∈ l, (s.srcs.get p).state ≠ .init) :
    (∀ q ∉ l, r.state.srcTrace q = s.srcTrace q) ∧
    ∀ q ∈ l, Beat (r.isOk = true) q (s.srcTrace q) (r.state.srcTrace q) ∨
      r.isOk = false ∧ r.state.srcTrace q = s.srcTrace q := by
  induction l generalizing s r with
  | nil =>
    subst h
    exact ⟨fun _ _ => rfl, by simp⟩
  | cons p l ih =>
    obtain ⟨hp, hn⟩ := nodup_cons.mp hn
    cases h₁ : decOne (fun s => s.srcs.get) onSrc (runSrc (processLocked handler)) p s with
    | error e s₁ =>
      obtain ⟨hbeat, hother⟩ := decOne_beat handler h₁ (hl p (by simp))
      simp only [decLoop, h₁] at h
      subst h
      refine ⟨fun q hq => hother q (ne_of_not_mem_cons hq), fun q hq => ?_⟩
      rcases mem_cons.mp hq with rfl | hq
      · exact .inl hbeat
      · exact .inr ⟨rfl, hother q fun h => hp (h ▸ hq)⟩
    | ok del s₁ =>
      obtain ⟨hbeat, hother⟩ := decOne_beat handler h₁ (hl p (by simp))
      have hcell : ∀ q ∈ l, (s₁.srcs.get q).state ≠ .init := fun q hq => by
        have htrace := hother q fun h => hp (h ▸ hq)
        rw [show s₁.srcs.get q = s.srcs.get q from congrArg Trace.t htrace]
        exact hl q (by simp [hq])
      obtain ⟨hout, hin⟩ := ih rfl hn hcell
      simp only [decLoop, h₁] at h
      generalize decLoop _ _ _ l s₁ = r₁ at h hout hin
      have hr : r.state = r₁.state ∧ r.isOk = r₁.isOk := by
        subst h
        cases r₁ <;> exact ⟨rfl, rfl⟩
      rw [hr.1, hr.2]
      refine ⟨fun q hq => ?_, fun q hq => ?_⟩
      · rw [mem_cons, not_or] at hq
        exact (hout q hq.2).trans (hother q hq.1)
      · rcases mem_cons.mp hq with rfl | hq
        · rw [hout q hp]
          obtain ⟨a₁, hlife, hrest⟩ := hbeat
          exact .inl ⟨a₁, hlife, hrest.imp (fun h => ⟨h.1, absurd rfl h.2⟩) id⟩
        · rw [← hother q fun h => hp (h ▸ hq)]
          exact hin q hq

/-- Going through the destination transactions does not touch a source transaction. -/
theorem Node.DstTicked.srcTrace (hs : s.DstWF)
    (h : decDst (processLocked handler) s = .ok () s') : s'.srcTrace q = s.srcTrace q := by
  obtain ⟨-, ⟨es, hlog, hes⟩, hok⟩ := decDst_spec (processLocked handler) hs
  rw [h, state_ok] at hlog
  have hd : s'.deeds .src q = s.deeds .src q := by
    refine deeds_of_notOf hlog fun e he => ?_
    obtain ⟨p, -, -, why, o, m, -, rfl⟩ := hes e he
    simp [Event.isOf]
  simp only [Node.srcTrace, hd, (hok s' h).srcs]

/-- What a tick does to a source transaction. -/
theorem tick_beat (hs : s.WF) :
    (q ∉ s.src → (tick (processLocked handler) s).state.srcTrace q = s.srcTrace q) ∧
    (q ∈ s.src → Beat ((tick (processLocked handler) s).isOk = true) q (s.srcTrace q)
        ((tick (processLocked handler) s).state.srcTrace q) ∨
      (tick (processLocked handler) s).isOk = false ∧
        (tick (processLocked handler) s).state.srcTrace q = s.srcTrace q) := by
  obtain ⟨hout, hin⟩ := decLoop_beat handler rfl hs.src.nodup fun p hp => (hs.src.inv p hp).live
  unfold tick
  cases heq : decLoop (fun s => s.srcs.get) onSrc (runSrc (processLocked handler)) s.src s with
  | error e s₁ =>
    have hsrc : decSrc (processLocked handler) s = .error e s₁ := EStateM.after_of_error heq
    rw [heq] at hout hin
    rw [hsrc]
    exact ⟨hout q, hin q⟩
  | ok dels s₁ =>
    have hsrc : decSrc (processLocked handler) s = .ok () (dels.foldl delSrc s₁) :=
      EStateM.after_of_ok heq
    have hs₁ := ((decSrc_spec handler hs.src).2 _ hsrc).wf hs
    obtain ⟨s₂, hdst⟩ := decDst_returns (processLocked handler) hs₁.dst
    have htrace : s₂.srcTrace q = s₁.srcTrace q := by
      rw [DstTicked.srcTrace handler hs₁.dst hdst, foldl_delSrc]
      rfl
    rw [heq] at hout hin
    rw [hsrc]
    dsimp only
    rw [hdst, state_ok, htrace]
    exact ⟨hout q, hin q⟩

/-- A tick that returns has come to every pooled source transaction. -/
theorem tick_beat_ok (hs : s.WF) (hq : q ∈ s.src) (h : tick (processLocked handler) s = .ok () s') :
    Beat True q (s.srcTrace q) (s'.srcTrace q) := by
  have hbeat := (tick_beat handler hs).2 hq
  rw [h] at hbeat
  rcases hbeat with ⟨a₁, hlife, hrest⟩ | ⟨hfail, -⟩
  · exact ⟨a₁, hlife, hrest.imp (fun h => ⟨h.1, absurd rfl h.2⟩) id⟩
  · cases hfail

end

end Odtone.Mihf
