import Odtone.Mihf.Finished
import Odtone.Mihf.EventDelivery
import Odtone.Mihf.Sac

/-! # Processing once

Outcomes are final. That a unicast source transaction calls `process_message` once is another
matter: from inside the call, a handler can get back to the same transaction through `message_out`,
with a message to the same peer and with the same identifier, and then the call is made again. The
same happens after an exception out of `process_message` that a local program has caught. Where a
source transaction is not found inside `process_message`, it calls it once in its life at most. -/

namespace Odtone.Mihf

open Machine List EStateM

variable {σ : Type}

/-- `process_message` has been called once at most, and if it has been, the transaction is inside
the call or has its outcome. -/
structure Trace.Once (a : Trace SrcState) : Prop where
  le : a.processed.length ≤ 1
  ended : a.processed.length = 1 → a.t.state = .processMsg ∨ a.t.transactionStatus ≠ .ongoing

section

variable {O : SrcTransaction → Prop} {p : Ptr} {r : Bool} {a b c : Trace SrcState}

theorem Trace.Once.of_eq (h : a.Once) (hp : b.processed = a.processed)
    (hst : b.t.state = a.t.state) (hstatus : b.t.transactionStatus = a.t.transactionStatus) :
    b.Once := by
  constructor
  · rw [hp]
    exact h.le
  · rw [hp, hst, hstatus]
    exact h.ended

/-- Inside `process_message`, nothing moves a transaction that is not found there. -/
theorem SrcMoves.inside_eq (h : SrcMoves O p r a b) (hO : ∀ t, O t → t.state ≠ .processMsg)
    (hr : r = false) (hst : a.t.state = .processMsg) : b = a := by
  induction h with
  | refl r a => rfl
  | trans _ _ ih ih' =>
    obtain rfl := ih hr hst
    exact ih' rfl hst
  | out hout => exact absurd hst (hO _ hout)
  | advance | call => cases hr

section

variable (h : a.Does .src p (fun _ => True) srcAdvance b) (hl : a.t.state ≠ .init)
include h hl

/-- A run calls `process_message` if and only if it ends up inside it. -/
theorem Trace.Does.processed_advance : b.t.state ≠ .processMsg ∧ b.processed = a.processed ∨
      b.t.state = .processMsg ∧ b.processed.length = a.processed.length + 1 := by
  obtain ⟨x, -, -, hx, -, hb, l, hlog, hdeeds⟩ := h
  rw [← hx] at hl
  obtain ⟨l', hl', he⟩ := (moves_srcRun x hl).log
  have hiff := srcRun_call hl
  unfold Trace.processed
  rw [hb, srcAdvance_t, hdeeds]
  cases hcall : x.srcRun.2 with
  | false =>
    have hadv : x.srcAdvance = x.srcRun.1 := if_neg (by simp [hcall])
    rw [hadv, hl'] at hlog
    obtain rfl := append_cancel_left hlog
    refine .inl ⟨fun hst => by simp [hiff.mpr hst] at hcall, ?_⟩
    rw [filter_append, filter_isProcess_of_sentBy he, append_nil]
  | true =>
    have hadv : x.srcAdvance = x.srcRun.1.called := if_pos hcall
    have hcalled : x.srcRun.1.called.log = x.log ++ (l' ++
        [.process x.srcRun.1.owner x.srcRun.1.t.inMsg x.srcRun.1.inMsg]) := by
      rw [← append_assoc, ← hl']
      rfl
    rw [hadv, hcalled] at hlog
    obtain rfl := append_cancel_left hlog
    refine .inr ⟨hiff.mp hcall, ?_⟩
    rw [filter_append, filter_append, filter_isProcess_of_sentBy he, nil_append, length_append]
    rfl

theorem Trace.Does.once_advance (ht : Told a.t) (hst : a.t.state ≠ .processMsg) (ho : a.Once) :
    b.Once := by
  obtain ⟨-, hfinal⟩ := h.told_advance hl ht
  have hle := ho.le
  rcases h.processed_advance hl with ⟨hst', hp⟩ | ⟨hst', hp⟩
  · refine ⟨hp ▸ ho.le, fun hone => .inr ?_⟩
    have hover := (ho.ended (hp ▸ hone)).resolve_left hst
    rw [(hfinal hover).1]
    exact hover
  · refine ⟨?_, fun _ => .inl hst'⟩
    -- with an earlier call behind it, the transaction has its outcome and makes no other
    by_contra hmore
    have hover := (ho.ended (by omega)).resolve_left hst
    have hsame := congrArg length (hfinal hover).2
    omega

end

/-- A transaction stays unicast or multicast. -/
theorem Turn.multicast (h : Turn p a b) (hl : a.t.state ≠ .init) :
    b.t.state ≠ .init ∧ b.t.isMulticast = a.t.isMulticast := by
  have hcourse : ∀ {P : Machine SrcState → Prop} {f : Machine SrcState → Machine SrcState},
      a.Does .src p P f b → (∀ x : Machine SrcState, SameCourse x (f x)) →
        b.t.state ≠ .init ∧ b.t.isMulticast = a.t.isMulticast := by
    rintro P f ⟨x, -, -, hx, -, hb, -⟩ hf
    rw [hb, ← hx, (hf x).state, (hf x).multicast, hx]
    exact ⟨hl, rfl⟩
  cases h with
  | out o h => exact hcourse h fun _ => sameCourse_out o
  | input i h => exact hcourse h fun _ => sameCourse_srcIn i
  | run h =>
    obtain ⟨x, -, -, hx, -, hb, -⟩ := h
    rw [hb, srcAdvance_t, ← hx]
    rw [← hx] at hl
    exact ⟨srcRun_live hl, congrArg Clock.multicast (x.quiet_srcRun hl).clock⟩
  | resume h =>
    obtain ⟨x, -, -, hx, -, hb, -⟩ := h
    rw [hb, ← hx]
    exact ⟨x.srcResume_live, congrArg Clock.multicast x.quiet_srcResume.clock⟩
  | decStop h =>
    rw [h.decStop_t]
    exact ⟨hl, rfl⟩
  | decRetransmission h =>
    rw [h.decRetransmission_t]
    exact ⟨hl, rfl⟩
  | ackRequestor h => exact hcourse h fun x => .ackRequestor x

theorem Lasts.multicast (h : Lasts p a b) (hl : a.t.state ≠ .init) :
    b.t.state ≠ .init ∧ b.t.isMulticast = a.t.isMulticast := by
  induction h with
  | refl => exact ⟨hl, rfl⟩
  | tail _ h ih =>
    obtain ⟨hl₁, hm₁⟩ := ih
    obtain ⟨hl₂, hm₂⟩ := h.1.multicast hl₁
    exact ⟨hl₂, hm₂.trans hm₁⟩

/-- The moves in a call of `process_message`, for a transaction that is not found inside it. -/
theorem SrcMoves.once (h : SrcMoves O p r a b) (hO : ∀ t, O t → t.state ≠ .processMsg)
    (hl : a.t.state ≠ .init) (ht : Told a.t) (huni : a.t.isMulticast = false)
    (hst : r = true → a.t.state ≠ .processMsg) (ho : a.Once) : b.Once := by
  induction h with
  | refl r a => exact ho
  | trans h _ ih ih' =>
    obtain ⟨ht₁, hlasts⟩ := h.told hl ht
    exact ih' (h.key hl).1 ht₁ ((hlasts.multicast hl).2.trans huni) (by simp) (ih hl ht huni hst ho)
  | @out r a b c o hout h _ ih =>
    have hm := SrcMoves.out (r := r) hout h (.refl true b)
    have hp := h.processed fun x _ => moves_out x o
    obtain ⟨ht₁, hlasts⟩ := hm.told hl ht
    obtain ⟨hl₁, hmc⟩ := hlasts.multicast hl
    obtain ⟨x, -, -, hx, -, hb, -⟩ := h
    have hcourse := sameCourse_out (x := x) o
    have hst₁ : b.t.state = a.t.state := by rw [hb, hcourse.state, hx]
    have hstatus₁ : b.t.transactionStatus = a.t.transactionStatus := by rw [hb, hcourse.status, hx]
    exact ih hl₁ ht₁ (hmc.trans huni) (fun _ => hst₁ ▸ hO _ hout) (ho.of_eq hp hst₁ hstatus₁)
  | advance h => exact h.once_advance hl ht (hst rfl) ho
  | @call a b c d h hproc hm h' ih =>
    have ho₁ := h.once_advance hl ht (hst rfl) ho
    have hp := h'.processed fun x _ => moves_srcResume x
    have huni₁ := ((Turn.run h).multicast hl).2.trans huni
    obtain rfl := hm.inside_eq hO rfl hproc
    obtain ⟨y, -, -, hy, -, hd, -⟩ := h'
    have hres : y.srcResume.t.transactionStatus = .success := by
      have hm' : y.t.isMulticast = false := hy ▸ huni₁
      simp [srcResume, hm', srcSuccess]
    refine ⟨hp ▸ ho₁.le, fun _ => .inr ?_⟩
    rw [hd, hres]
    simp

/-- After the life time, a run does not get into `process_message`. -/
theorem Machine.srcRun_expired {x : Machine SrcState} (hl : x.t.state ≠ .init)
    (hstop : x.t.transactionStopWhen = 0) (hst : x.t.state ≠ .processMsg) :
    x.srcRun.1.t.state ≠ .processMsg := by
  unfold srcRun
  cases hstate : x.t.state with
  | init => exact absurd hstate hl
  | waitResponseMsg =>
    cases hrsp : x.t.responseReceived with
    | true => simp [srcWaitResponseMsg, hstop, hrsp, srcSuccess]
    | false => simp [srcWaitResponseMsg, hstop, hrsp, srcFailure]
  | waitAck => exact x.srcWaitAck_state_ne
  | processMsg => exact absurd hstate hst
  | failure => simp [srcFailure]
  | success => simp [srcSuccess]

theorem SrcMoves.expired (h : SrcMoves (fun _ => False) p r a b) (hl : a.t.state ≠ .init)
    (hstop : a.t.transactionStopWhen = 0) (hst : a.t.state ≠ .processMsg) :
    b.t.state ≠ .processMsg := by
  induction h with
  | refl r a => exact hst
  | trans h _ ih ih' =>
    have hstop' := congrArg Clock.stop (h.still_locked hl).1
    exact ih' (h.key hl).1 (hstop'.trans hstop) (ih hl hstop hst)
  | out hO => exact hO.elim
  | advance h =>
    obtain ⟨x, -, -, hx, -, hb, -⟩ := h
    rw [← hx] at hl hstop hst
    rw [hb, srcAdvance_t]
    exact srcRun_expired hl hstop hst
  | call _ _ _ h' =>
    obtain ⟨y, -, -, -, -, hd, -⟩ := h'
    rw [hd]
    exact y.srcResume_state_ne

variable (hl : a.t.state ≠ .init) (ht : Told a.t) (huni : a.t.isMulticast = false)
  (hst : a.t.state ≠ .processMsg) (ho : a.Once)
include hl ht huni hst ho

theorem LifeBeat.once (h : LifeBeat p a b) : b.Once ∧ b.t.state ≠ .processMsg := by
  obtain ⟨a₁, hdoes, hm, hstay⟩ := h
  have hp := hdoes.processed fun x _ => .assign _ rfl rfl
  have heq := hdoes.decStop_t
  have hl₁ : a₁.t.state ≠ .init := by rw [heq]; exact hl
  have hst₁ : a₁.t.state ≠ .processMsg := by rw [heq]; exact hst
  refine ⟨hm.once (fun _ h => h.elim) hl₁ (by rw [heq]; exact ht) (by rw [heq]; exact huni)
    (fun _ => hst₁) (ho.of_eq hp (by rw [heq]) (by rw [heq])), ?_⟩
  by_cases hstop : a₁.t.transactionStopWhen = 0
  · exact hm.expired hl₁ hstop hst₁
  · exact hstay hstop ▸ hst₁

theorem TimerBeat.once (h : TimerBeat p a b) : b.Once := by
  rcases h with ⟨rfl, -⟩ | ⟨-, a₁, hdoes, hrest⟩
  · exact ho
  · have hp := hdoes.processed fun x _ => .assign _ rfl rfl
    have heq := hdoes.decRetransmission_t
    have ho₁ : a₁.Once := ho.of_eq hp (by rw [heq]) (by rw [heq])
    rcases hrest with ⟨rfl, -⟩ | ⟨-, a₂, hreq, hm⟩
    · exact ho₁
    · have hp₂ := hreq.processed fun x _ => moves_ackRequestor x
      obtain ⟨y, -, -, hy, -, ha₂, -⟩ := hreq
      have hcourse := SameCourse.ackRequestor y
      rw [heq] at hy
      have hst₂ : a₂.t.state = a.t.state := by rw [ha₂, hcourse.state, hy]
      have hstatus₂ : a₂.t.transactionStatus = a.t.transactionStatus := by
        rw [ha₂, hcourse.status, hy]
      have ht₂ : Told a₂.t := by
        unfold Told
        rw [hst₂, hstatus₂]
        exact ht
      have huni₂ : a₂.t.isMulticast = false := by
        rw [ha₂, hcourse.multicast, hy]
        exact huni
      exact hm.once (fun _ h => h.elim) (hst₂ ▸ hl) ht₂ huni₂ (fun _ => hst₂ ▸ hst)
        (ho.of_eq (hp₂.trans hp) hst₂ hstatus₂)

/-- A tick. The life time ends before the retransmission timer is looked at; what finds the former
over does not get into `process_message`, so that the latter cannot find the transaction there. -/
theorem Beat.once {done : Prop} (h : Beat done p a b) : b.Once := by
  obtain ⟨a₁, hlife, hrest⟩ := h
  obtain ⟨ho₁, hst₁⟩ := hlife.once hl ht huni hst ho
  obtain ⟨ht₁, hlasts⟩ := hlife.told hl ht
  obtain ⟨hl₁, hmc⟩ := hlasts.multicast hl
  rcases hrest with ⟨rfl, -⟩ | htimer
  · exact ho₁
  · exact htimer.once hl₁ ht₁ (hmc.trans huni) hst₁ ho₁

end

/-! ## Runs -/

section

variable {handler : Handler σ} {n : Nat} {s s' : Node σ} {i : Input σ} {q : Ptr}

/-- `message_out` finds a source transaction inside `process_message`, for a request or an
indication. -/
def Event.reenters : Event → Bool
  | .messageOut _ m (some t) _ =>
    (m.opcode = .request ∨ m.opcode = .indication) && t.state = .processMsg
  | _ => false

/-- When `i` comes in no source transaction is inside `process_message`, and neither does
`message_out` find one there up to the end of the reaction. -/
structure Node.Outside (handler : Handler σ) (n : Nat) (i : Input σ) (s : Node σ) : Prop where
  pooled : ∀ q ∈ s.src, (s.srcs.get q).state ≠ .processMsg
  found : ∀ e ∈ (step handler n i s).state.log, e.reenters = false

instance : Decidable (Node.Outside handler n i s) :=
  decidable_of_iff ((∀ q ∈ s.src, (s.srcs.get q).state ≠ .processMsg) ∧
      ∀ e ∈ (step handler n i s).state.log, e.reenters = false)
    ⟨fun h => ⟨h.1, h.2⟩, fun h => ⟨h.1, h.2⟩⟩

theorem Node.Outside.submits (h : Node.Outside handler n i s) {s₁ : Node σ} {k : Id × UInt16}
    {t : SrcTransaction} (ht : s₁.Submits (step handler n i s).state k t) :
    t.state ≠ .processMsg := by
  obtain ⟨o, m, dst, hmem, hop⟩ := ht.found
  have hout := h.found _ hmem
  rw [Event.reenters, decide_eq_true hop, Bool.true_and] at hout
  exact of_decide_eq_false hout

/-- What a reaction does to a unicast source transaction. -/
theorem step_once (hs : s.WF) (hc : s.Coherent) (hout : Node.Outside handler n i s)
    (hq : q < s.srcs.next) (huni : (s.srcs.get q).isMulticast = false) (ho : (s.srcTrace q).Once) :
    ((step handler n i s).state.srcTrace q).Once := by
  rcases step_src handler n i hs hq with heq | ⟨hmem, hsrc⟩
  · exact heq ▸ ho
  have hlive : (s.srcTrace q).t.state ≠ .init := (hs.src.inv q hmem).live
  have htold : Told (s.srcTrace q).t := hc q hmem
  have hst : (s.srcTrace q).t.state ≠ .processMsg := hout.pooled q hmem
  rcases hsrc with ⟨-, hbeat⟩ | ⟨-, ⟨m, a, -, hdoes, hm⟩ | hm⟩
  · exact hbeat.once hlive htold huni hst ho
  · have hp := hdoes.processed fun x _ => moves_srcIn x _
    obtain ⟨ht₁, hlasts⟩ := hdoes.told_in htold
    obtain ⟨hl₁, hmc⟩ := hlasts.multicast hlive
    have hst₁ := hdoes.key_in.1
    obtain ⟨x, -, -, hx, -, ha, -⟩ := hdoes
    have hstatus : a.t.transactionStatus = (s.srcTrace q).t.transactionStatus := by
      rw [ha, (sameCourse_srcIn _).status, hx]
    exact hm.once (fun _ => hout.submits) hl₁ ht₁ (hmc.trans huni) (fun _ => hst₁ ▸ hst)
      (ho.of_eq hp hst₁ hstatus)
  · exact hm.once (fun _ => hout.submits) hlive htold huni (by simp) ho

/-- A source transaction that comes up in a reaction. -/
theorem Node.Arises.once (h : s.Arises (step handler n i s).state q) (hnew : s.deeds .src q = [])
    (hout : Node.Outside handler n i s)
    (huni : ((step handler n i s).state.srcs.get q).isMulticast = false) :
    ((step handler n i s).state.srcTrace q).Once := by
  obtain ⟨s₁, hborn, -, hm⟩ := h
  obtain ⟨l, m, hlog, hl⟩ := hborn.log
  have hnone : (s₁.srcTrace q).processed = [] := by
    change (s₁.log.filter (Event.isOf .src q)).filter Event.isProcess = []
    rw [hlog, filter_append, hl, hnew, nil_append]
    refine filter_eq_nil_iff.mpr fun e he => ?_
    obtain rfl := mem_singleton.mp (mem_of_mem_filter he)
    simp [Event.isProcess]
  have hmc := ((hm.told hborn.live hborn.told).2.multicast hborn.live).2
  exact hm.once (fun _ => hout.submits) hborn.live hborn.told (hmc.symm.trans huni) (by simp)
    ⟨by simp [hnone], by simp [hnone]⟩

/-- Every unicast source transaction has called `process_message` once at most. -/
def Node.Single (s : Node σ) : Prop :=
  ∀ q < s.srcs.next, (s.srcs.get q).isMulticast = false → (s.srcTrace q).Once

theorem step_multicast (hs : s.WF) (hc : s.Coherent) (hq : q < s.srcs.next) :
    ((step handler n i s).state.srcs.get q).isMulticast = (s.srcs.get q).isMulticast := by
  by_cases hmem : q ∈ s.src
  · exact ((step_lasts handler n hs hc hq).2.multicast (hs.src.inv q hmem).live).2
  · exact congrArg (fun a : Trace SrcState => a.t.isMulticast) (step_srcTrace handler n hs hq hmem)

theorem step_single (hs : s.Sound) (hsingle : s.Single) (hout : Node.Outside handler n i s)
    (h : step handler n i s = .ok () s') : s'.Single := by
  intro q hq huni
  have hs' : (step handler n i s).state = s' := by rw [h, Result.state_ok]
  rw [← hs'] at huni ⊢
  rcases Nat.lt_or_ge q s.srcs.next with hlt | hge
  · have huni₀ := (step_multicast hs.wf hs.coherent hlt).symm.trans huni
    exact step_once hs.wf hs.coherent hout hlt huni₀ (hsingle q hlt huni₀)
  · rcases step_srcBirth handler n hs.wf hge h with ⟨hq', -⟩ | ⟨-, harises⟩
    · exact absurd hq (Nat.not_lt.mpr hq')
    · rw [← hs'] at harises
      exact harises.once (hs.timed.unborn q hge) hout huni

/-- Outcomes are final: in every run, the next reaction does not change one, as a whole or in any of
its moves, and `process_message` is not called again. In every run in which no source transaction is
found inside `process_message`, a unicast one calls it at most once. -/
theorem outcome_final_once {svc : σ} {tid : UInt16} {is : List (Input σ)}
    (h : Steps (step handler n) (Node.initial svc tid) is s) (j : Input σ) :
    (∀ p < s.srcs.next, (s.srcTrace p).Final ((step handler n j s).state.srcTrace p) ∧
      Relation.ReflTransGen (fun a b => Turn p a b ∧ a.Final b) (s.srcTrace p)
        ((step handler n j s).state.srcTrace p)) ∧
    (∀ p, s.srcs.next ≤ p → ∀ s', step handler n j s = .ok () s' → p < s'.srcs.next →
      ∃ s₁ : Node σ, s₁.Born (s.deeds .src p) p ∧
        Relation.ReflTransGen (fun a b => Turn p a b ∧ a.Final b) (s₁.srcTrace p)
          (s'.srcTrace p)) ∧
    (∀ p < s.dsts.next, (s.dstTrace p).Final ((step handler n j s).state.dstTrace p) ∧
      Relation.ReflTransGen (fun a b => DstTurn p a b ∧ a.Final b) (s.dstTrace p)
        ((step handler n j s).state.dstTrace p)) ∧
    (Along (step handler n) (Node.Outside handler n) is (Node.initial svc tid) →
      ∀ p < s.srcs.next, (s.srcs.get p).isMulticast = false → (s.srcTrace p).processed.length ≤ 1 ∧
        (Node.Outside handler n j s →
          ((step handler n j s).state.srcTrace p).processed.length ≤ 1)) := by
  have hs : s.Sound := h.induct (fun _ _ _ hs heq => step_sound hs heq) (Node.sound_initial svc tid)
  refine ⟨fun p hp => ?_, fun p hp s' heq hp' => ?_, fun p hp => ?_, fun halong p hp huni => ?_⟩
  · have hlasts := (step_lasts handler n (i := j) hs.wf hs.coherent hp).2
    exact ⟨hlasts.final, hlasts⟩
  · rcases step_srcBirth handler n hs.wf hp heq with ⟨hq, -⟩ | ⟨-, s₁, hborn, -, hm⟩
    · exact absurd hp' (Nat.not_lt.mpr hq)
    · exact ⟨s₁, hborn, (hm.told hborn.live hborn.told).2⟩
  · obtain ⟨hturns, hunpooled⟩ := step_dstTurns handler n hs.wf hp
    refine ⟨fun hover => ?_, hturns.lift id fun a b hturn => ⟨hturn, hturn.final.1⟩⟩
    rw [hunpooled fun hmem => hover (hs.wf.dst.inv p hmem).status]
    exact ⟨rfl, rfl⟩
  · obtain ⟨-, hsingle⟩ : s.Sound ∧ s.Single := h.induct_along (P := fun s => s.Sound ∧ s.Single)
      halong (fun i s s' hout hs heq => ⟨step_sound hs.1 heq, step_single hs.1 hs.2 hout heq⟩)
      ⟨Node.sound_initial svc tid, fun q _ _ => ⟨Nat.zero_le 1, fun hone => by cases hone⟩⟩
    have honce := hsingle p hp huni
    exact ⟨honce.le, fun hout => (step_once hs.wf hs.coherent hout hp huni honce).le⟩

end

/-- An MIHF that is subscribed to `Link_Up` acknowledges a request and reports the event in one
frame. The event service passes the report on to the subscribers, the sender among them;
`message_out` finds the transaction that is in the middle of processing it, and this one processes
it again. -/
theorem response_processed_twice :
    let handler := Svc.sacProcessMessage ⟨[77], 0, [], false⟩
    ∃ (is : List (Input Services)) (svc : Services) (s : Node Services),
      Steps (step handler 5) (Node.initial svc 0) is s ∧ 1 < s.srcs.next ∧
        (s.srcs.get 1).isMulticast = false ∧ (s.srcTrace 1).processed.length = 2 :=
  ⟨[.submit (requestTo80 0), .recv { sampleIndication .up 1 with
      source := [80], destination := [77], tid := 1, ackrsp := true }],
    { subscriptions := history [SubscriptionOp.subscribe [80] (sampleLink 1) (sampleEvents .up)] },
    _, steps_runAll _ (by decide +kernel), by decide +kernel, by decide +kernel,
    by decide +kernel⟩

theorem outcome_final_once_response :
    let s := runAll (step idle 1) [.submit (requestTo80 0), .recv responseFrom80]
      (Node.initial () 0)
    (s.srcs.get 1).transactionStatus = .success ∧
      (s.srcTrace 1).Final ((step idle 1 (.recv responseFrom80) s).state.srcTrace 1) ∧
      (s.srcTrace 1).processed.length = 1 ∧
      ((step idle 1 (.recv responseFrom80) s).state.srcTrace 1).processed.length ≤ 1 := by
  have hrun : Steps (step idle 1) (Node.initial () 0)
      [.submit (requestTo80 0), .recv responseFrom80] _ :=
    steps_runAll _ (by decide +kernel)
  obtain ⟨hsrc, -, -, honce⟩ := outcome_final_once hrun (.recv responseFrom80)
  exact ⟨by decide +kernel, (hsrc 1 (by decide +kernel)).1, by decide +kernel,
    (honce (by decide +kernel) 1 (by decide +kernel) (by decide +kernel)).2 (by decide +kernel)⟩

end Odtone.Mihf
