import Odtone.Mihf.Schedule

/-! # Retransmissions in a run

The schedule of a source transaction, over whole runs: whatever frames come in and whatever local
programs do, a message is sent again with the fifth and with the tenth tick at most.
-/

namespace Odtone.Mihf

open Node List EStateM

variable {σ : Type}

/-! ## Reactions -/

/-- The input is the frame `m`, and `message_in` hands it to the source transaction `q`. -/
def Node.Delivers (s : Node σ) (i : Input σ) (q : Ptr) (m : MetaMessage) : Prop :=
  i = .recv m ∧ m.ForSource = true ∧ q ∈ s.src ∧ s.srcKey q = (m.source, m.tid)

section

variable (handler : Handler σ) (n : Nat) {s s' : Node σ} {i : Input σ} {q : Ptr}

variable {m : MetaMessage}

theorem Node.delivers_iff (hs : s.WF) :
    s.Delivers (.recv m) q m ↔ (s.received m).InSrc s.msgs.next q := by
  have hmsg : (s.received m).msgs.get s.msgs.next = m := Store.get_push_next
  unfold Delivers InSrc inKey
  rw [hmsg]
  constructor
  · intro ⟨_, hfor, hmem, hkey⟩
    exact ⟨hfor, hs.src.keys.find_eq_some hmem hkey⟩
  · intro ⟨hfor, hfind⟩
    exact ⟨rfl, hfor, Pool.mem_of_find hfind, Pool.key_of_find hfind⟩

theorem Node.Submits.of_received {k : Id × UInt16} {t : SrcTransaction}
    (h : (s.received m).Submits s' k t) : s.Submits s' k t :=
  h.mono prefix_rfl prefix_rfl

/-- What a frame does to the source transaction it is handed to. -/
theorem step_srcMoves_self (hs : s.WF) (hd : s.Delivers i q m) :
    ∃ a, (s.srcTrace q).Does .src q (fun x => x.msgs.get s.msgs.next = m) (·.srcIn s.msgs.next) a ∧
      SrcMoves (s.Submits (step handler n i s).state (s.srcKey q)) q true a
        ((step handler n i s).state.srcTrace q) := by
  obtain rfl := hd.1
  have hapart := s.apart_received m
  have htrace : (s.received m).srcTrace q = s.srcTrace q := hapart.srcTrace
  have hmsg : (s.received m).msgs.get s.msgs.next = m := Store.get_push_next
  obtain ⟨a, hdoes, hm⟩ := (recv_incoming handler n m hs.dst).srcMoves_self
    (process_evolves handler n) (hs.apart hapart) ((delivers_iff hs).mp hd)
  rw [htrace, hmsg] at hdoes
  exact ⟨a, hdoes, hm.mono fun _ h => h.of_received⟩

/-- What a reaction other than a tick does to every other source transaction. -/
theorem step_srcMoves_other (hs : s.WF) (hq : q < s.srcs.next) (hi : i.isTick = false)
    (hd : ∀ m, ¬ s.Delivers i q m) : s.Moved (step handler n i s).state q := by
  cases i with
  | tick => cases hi
  | act x => exact (act_evolves handler n x hs.dst).srcMoves hs hq
  | recv m =>
    have hapart := s.apart_received m
    exact ((recv_incoming handler n m hs.dst).srcMoves_other (process_evolves handler n)
      (hs.apart hapart) hq fun hin => hd m ((delivers_iff hs).mpr hin)).frame (.apart hapart)
      (.refl _ q)

/-- A source transaction that comes up in a reaction is started by `message_out`. -/
theorem step_srcBirth (hs : s.WF) (hq : s.srcs.next ≤ q) (h : step handler n i s = .ok () s') :
    s.Bears s' q := by
  cases i with
  | tick =>
    have hnot : q ∉ s.src := fun hmem => absurd (hs.src.lt q hmem) (Nat.not_lt.mpr hq)
    have htrace := (tick_beat handler hs).1 hnot
    obtain ⟨s₁, hsrc, hdst⟩ := tick_ok hs h
    rw [show tick (processLocked handler) s = .ok () s' from h] at htrace
    refine .inl ⟨?_, congrArg Trace.deeds htrace⟩
    rw [hdst.srcs, hsrc.next]
    exact hq
  | act x =>
    have hev := act_evolves handler n x hs.dst
    rw [h] at hev
    exact hev.srcBirth hs hq
  | recv m =>
    have hapart := s.apart_received m
    have hin := recv_incoming handler n m hs.dst
    rw [h] at hin
    exact (hin.srcBirth (process_evolves handler n) (hs.apart hapart) hq).frame (.apart hapart)
      (.refl s' q)

variable (hs : s.WF) (hq : q < s.srcs.next)
include hs hq

variable (i) in
/-- What a reaction does to a source transaction: nothing unless it is pooled, and then it is a
tick, or a frame is handed over, or the transaction makes moves. -/
theorem step_src :
    let s' := (step handler n i s).state
    s'.srcTrace q = s.srcTrace q ∨ q ∈ s.src ∧
      (i = .tick ∧ Beat ((step handler n i s).isOk = true) q (s.srcTrace q) (s'.srcTrace q) ∨
      i.isTick = false ∧ ((∃ m a, s.Delivers i q m ∧
          (s.srcTrace q).Does .src q (fun x => x.msgs.get s.msgs.next = m) (·.srcIn s.msgs.next) a ∧
          SrcMoves (s.Submits s' (s.srcKey q)) q true a (s'.srcTrace q)) ∨
        SrcMoves (s.Submits s' (s.srcKey q)) q false (s.srcTrace q) (s'.srcTrace q))) := by
  intro s'
  cases hi : i.isTick with
  | true =>
    obtain rfl := Input.eq_tick hi
    by_cases hmem : q ∈ s.src
    · rcases (tick_beat handler hs).2 hmem with hbeat | ⟨-, heq⟩
      · exact .inr ⟨hmem, .inl ⟨rfl, hbeat⟩⟩
      · exact .inl heq
    · exact .inl ((tick_beat handler hs).1 hmem)
  | false =>
    by_cases hd : ∃ m, s.Delivers i q m
    · obtain ⟨m, hd⟩ := hd
      obtain ⟨a, hdoes, hm⟩ := step_srcMoves_self handler n hs hd
      exact .inr ⟨hd.2.2.1, .inr ⟨rfl, .inl ⟨m, a, hd, hdoes, hm⟩⟩⟩
    · obtain ⟨hm, hidle⟩ := step_srcMoves_other handler n hs hq hi (not_exists.mp hd)
      by_cases hmem : q ∈ s.src
      · exact .inr ⟨hmem, .inr ⟨rfl, .inr hm⟩⟩
      · exact .inl (hidle hmem)

/-- What has left the pool is left alone. -/
theorem step_srcTrace (hmem : q ∉ s.src) : (step handler n i s).state.srcTrace q = s.srcTrace q :=
  (step_src handler n i hs hq).resolve_right fun h => hmem h.1

/-- What the retransmissions of a source transaction depend on changes with ticks only. -/
theorem step_still (hi : i.isTick = false) :
    Still (∃ t, s.Submits (step handler n i s).state (s.srcKey q) t) (s.srcTrace q)
      ((step handler n i s).state.srcTrace q) := by
  rcases step_src handler n i hs hq with heq | ⟨hmem, ⟨rfl, -⟩ | ⟨-, ⟨m, a, -, hdoes, hm⟩ | hm⟩⟩
  · rw [heq]
    exact .of_clock rfl rfl
  · cases hi
  · have hinv := hs.src.inv q hmem
    have hin : Still (∃ t, s.Submits (step handler n i s).state (s.srcKey q) t)
        (s.srcTrace q) a := hdoes.still_in hinv.requestor
    have hlive : a.t.state ≠ .init := hdoes.key_in.1 ▸ hinv.live
    exact hin.trans (hm.still hlive (hin.requestor hinv.requestor))
  · exact hm.still (hs.src.inv q hmem).live (hs.src.inv q hmem).requestor

theorem step_srcKey : (step handler n i s).state.srcKey q = s.srcKey q := by
  rcases step_src handler n i hs hq with heq | ⟨hmem, ⟨-, hbeat⟩ | ⟨-, ⟨m, a, -, hdoes, hm⟩ | hm⟩⟩
  · exact srcKey_of_trace heq
  · exact (hbeat.live (hs.src.inv q hmem).live).2
  · exact (hm.key (hdoes.key_in.1 ▸ (hs.src.inv q hmem).live)).2.trans hdoes.key_in.2
  · exact (hm.key (hs.src.inv q hmem).live).2

end

/-! ## The schedule is kept -/

/-- Every source transaction keeps to the schedule: as many retransmissions as counted, two at
most. -/
structure Node.Timed (s : Node σ) : Prop where
  unborn : ∀ q, s.srcs.next ≤ q → s.deeds .src q = []
  counted : ∀ q < s.srcs.next, (s.srcTrace q).resent.length = (s.srcs.get q).rtxctr
  bounded : ∀ q < s.srcs.next, (s.srcs.get q).rtxctr ≤ 2
  pooled : ∀ q ∈ s.src, OnTime (s.srcs.get q)

section

variable (handler : Handler σ) (n : Nat) {s s' : Node σ} {i : Input σ} {q : Ptr}

/-- One reaction: only a tick makes a source transaction retransmit, and only the fifth and the
tenth of its life. -/
theorem step_resends (hs : s.WF) (ht : s.Timed) (hq : q < s.srcs.next) :
    ((step handler n i s).state.srcTrace q).resent = (s.srcTrace q).resent ∧
        ((step handler n i s).state.srcs.get q).rtxctr = (s.srcs.get q).rtxctr ∨
      i.isTick = true ∧ q ∈ s.src ∧
        Resends q (s.srcTrace q) ((step handler n i s).state.srcTrace q) ∧
        (s.srcs.get q).rtxctr < 2 ∧ (s.srcs.get q).startAckRequestor = true ∧
        (s.srcs.get q).ackRequestorStatus = .ongoing ∧ (s.srcs.get q).retransmissionWhen = 1 ∧
        (s.srcs.get q).transactionStopWhen = 11 - 5 * (s.srcs.get q).rtxctr := by
  rcases step_src handler n i hs hq with heq | ⟨hmem, ⟨rfl, hbeat⟩ | ⟨hi, -⟩⟩
  · exact .inl ⟨congrArg Trace.resent heq, congrArg (·.t.rtxctr) heq⟩
  · obtain ⟨hres, -⟩ := hbeat.spec (hs.src.inv q hmem) (ht.pooled q hmem)
    exact hres.imp id fun h => ⟨rfl, hmem, h⟩
  · have hstill := step_still handler n hs hq hi
    exact .inl ⟨hstill.resent, hstill.rtxctr⟩

/-- One reaction keeps the schedule of what exists. -/
theorem step_counted (hs : s.WF) (ht : s.Timed) (hq : q < s.srcs.next) :
    ((step handler n i s).state.srcTrace q).resent.length =
        ((step handler n i s).state.srcs.get q).rtxctr ∧
      ((step handler n i s).state.srcs.get q).rtxctr ≤ 2 := by
  have hcount := ht.counted q hq
  have hbound := ht.bounded q hq
  rcases step_resends handler n hs ht hq with
    ⟨hres, hctr⟩ | ⟨-, -, ⟨hctr, m, hres⟩, hlt, -⟩
  · rw [hres, hctr]
    exact ⟨hcount, hbound⟩
  · have hctr' : ((step handler n i s).state.srcs.get q).rtxctr = (s.srcs.get q).rtxctr + 1 := hctr
    rw [hres, hctr', length_append, length_singleton, hcount]
    exact ⟨rfl, hlt⟩

theorem step_timed (hs : s.WF) (ht : s.Timed) (h : step handler n i s = .ok () s') : s'.Timed := by
  have hold : ∀ q < s.srcs.next, (s'.srcTrace q).resent.length = (s'.srcs.get q).rtxctr ∧
      (s'.srcs.get q).rtxctr ≤ 2 := fun q hq => by
    have hc := step_counted handler n (i := i) hs ht hq
    rwa [h] at hc
  have hnew : ∀ q, s.srcs.next ≤ q → s'.srcs.next ≤ q ∧ s'.deeds .src q = [] ∨
      q < s'.srcs.next ∧ OnTime (s'.srcs.get q) ∧ (s'.srcs.get q).rtxctr = 0 ∧
        (s'.srcTrace q).resent = [] ∧ (s'.srcs.get q).transactionStopWhen = 15 := fun q hq => by
    rcases step_srcBirth handler n hs hq h with ⟨hq', hd⟩ | ⟨hq', harises⟩
    · exact .inl ⟨hq', hd.trans (ht.unborn q hq)⟩
    · exact .inr ⟨hq', harises.onTime (ht.unborn q hq)⟩
  have hage := step_aged hs h
  refine ⟨fun q hq => ?_, fun q hq => ?_, fun q hq => ?_, fun q hmem => ?_⟩
  · rcases hnew q (hage.srcs.trans hq) with ⟨-, hd⟩ | ⟨hq', -⟩
    · exact hd
    · omega
  · rcases Nat.lt_or_ge q s.srcs.next with hlt | hge
    · exact (hold q hlt).1
    · rcases hnew q hge with ⟨hq', -⟩ | ⟨-, -, hctr, hres, -⟩
      · omega
      · rw [hctr, hres]
        rfl
  · rcases Nat.lt_or_ge q s.srcs.next with hlt | hge
    · exact (hold q hlt).2
    · rcases hnew q hge with ⟨hq', -⟩ | ⟨-, -, hctr, -⟩
      · omega
      · omega
  · rcases Nat.lt_or_ge q s.srcs.next with hlt | hge
    · have hmem₀ := (hage.src q hmem hlt).1
      cases hi : i.isTick with
      | false =>
        have hstill := step_still handler n hs hlt hi
        rw [h] at hstill
        exact hstill.onTime (ht.pooled q hmem₀)
      | true =>
        obtain rfl := Input.eq_tick hi
        obtain ⟨-, -, -, -, htime⟩ := (tick_beat_ok handler hs hmem₀ h).spec (hs.src.inv q hmem₀)
          (ht.pooled q hmem₀)
        exact htime trivial
    · rcases hnew q hge with ⟨hq', -⟩ | ⟨-, htime, -⟩
      · exact absurd ((step_wf handler n hs h).src.lt q hmem) (Nat.not_lt.mpr hq')
      · exact htime

end

theorem Node.timed_initial (svc : σ) (tid : UInt16) : (initial svc tid).Timed where
  unborn _ _ := rfl
  counted _ _ := rfl
  bounded _ _ := Nat.zero_le _
  pooled _ hmem := by cases hmem

/-! ## Acknowledgements -/

/-- The source transaction `q` is in the pool, and its requestor waits. -/
structure Node.Waits (s : Node σ) (q : Ptr) : Prop where
  mem : q ∈ s.src
  started : (s.srcs.get q).startAckRequestor = true
  ongoing : (s.srcs.get q).ackRequestorStatus = .ongoing

section

variable {handler : Handler σ} {n : Nat} {s s' : Node σ} {i : Input σ} {q : Ptr}

/-- A requestor that waits after a reaction has waited before, and no acknowledgement has come
in. -/
theorem step_waits (hs : s.WF) (ht : s.Timed) (hq : q < s.srcs.next)
    (h : step handler n i s = .ok () s') (hw : s'.Waits q) :
    s.Waits q ∧ ∀ m, i = .recv m → m.ForSource = true → s.srcKey q = (m.source, m.tid) →
      m.ackrsp = false := by
  have hmem := ((step_aged hs h).src q hw.mem hq).1
  have hinv := hs.src.inv q hmem
  cases hi : i.isTick with
  | true =>
    obtain rfl := Input.eq_tick hi
    obtain ⟨-, -, hstart, hon, -⟩ := (tick_beat_ok handler hs hmem h).spec hinv (ht.pooled q hmem)
    exact ⟨⟨hmem, hstart.symm.trans hw.started, hon hw.ongoing⟩, fun _ hm => by cases hm⟩
  | false =>
    have hstill := step_still handler n hs hq hi
    rw [h, Result.state_ok] at hstill
    have hstart := hstill.started.symm.trans hw.started
    refine ⟨⟨hmem, hstart, hstill.ongoing hw.ongoing⟩, fun m hm hfor hkey => ?_⟩
    -- an acknowledgement would have ended the waiting, and the moves behind it do not start it anew
    by_contra hack
    obtain ⟨a, hdoes, hmoves⟩ := step_srcMoves_self handler n hs ⟨hm, hfor, hmem, hkey⟩
    rw [h] at hmoves
    have hover := hdoes.acked_in hinv.requestor hstart (by simpa using hack)
    have hin : Still True (s.srcTrace q) a := hdoes.still_in hinv.requestor
    have hlive : a.t.state ≠ .init := hdoes.key_in.1 ▸ hinv.live
    exact hover ((hmoves.still hlive (hin.requestor hinv.requestor)).ongoing hw.ongoing)

theorem steps_waits {is : List (Input σ)} (h : Steps (step handler n) s is s') (hs : s.WF)
    (ht : s.Timed) (hq : q < s.srcs.next) (hw : s'.Waits q) :
    s.Waits q ∧ ∀ m, .recv m ∈ is → m.ForSource = true → s.srcKey q = (m.source, m.tid) →
      m.ackrsp = false := by
  induction h with
  | nil s => exact ⟨hw, by simp⟩
  | @cons i is s s₁ s₂ heq _ ih =>
    have hkey := step_srcKey handler n (i := i) hs hq
    rw [heq, Result.state_ok] at hkey
    obtain ⟨hw₁, hno⟩ := ih (step_wf handler n hs heq) (step_timed handler n hs ht heq)
      (hq.trans_le (step_aged hs heq).srcs) hw
    obtain ⟨hw₀, hno₀⟩ := step_waits hs ht hq heq hw₁
    refine ⟨hw₀, fun m hm => ?_⟩
    rcases mem_cons.mp hm with rfl | hm
    · exact hno₀ m rfl
    · exact hkey ▸ hno m hm

end

/-! ## The message -/

/-- When the log was `l`, the source transaction `q` had just been started with the message `o`, and
as long as nothing else is submitted with its key `k`, this is what it sends again. -/
structure Node.Sends (s : Node σ) (q : Ptr) (k : Id × UInt16) (l : List Event)
    (o : Ptr) : Prop where
  key : s.srcKey q = k
  log : l <+: s.log
  same : s.submissions k ≤ l.countP (Event.submits k) → (s.srcs.get q).outMsg = o ∧
    ∀ e ∈ (s.srcTrace q).resent, ∃ m, e = .send ⟨.src, q, k⟩ .retransmission o m

section

variable (handler : Handler σ) (n : Nat) {s s' : Node σ} {i : Input σ} {q : Ptr}

/-- A source transaction begins with sending its message. -/
theorem Node.Arises.sends (h : s.Arises s' q) (hE : s.deeds .src q = []) :
    ∃ l o m, s'.Sends q (s'.srcKey q) (l ++ [.send ⟨.src, q, s'.srcKey q⟩ .initial o m]) o ∧
      ∀ e ∈ l, e.isOf .src q = false := by
  obtain ⟨-, -, hres, -⟩ := h.onTime hE
  obtain ⟨s₁, hborn, hpre, hm⟩ := h
  have hkey : s'.srcKey q = s₁.srcKey q := (hm.key hborn.live).2
  obtain ⟨l, m, hlog, hl⟩ := hborn.log
  rw [hE, filter_eq_nil_iff] at hl
  rw [hkey]
  refine ⟨l, _, m, ⟨hkey, hlog ▸ hpre, fun hle => ⟨?_, by simp [hres]⟩⟩, fun e he => by
    simpa using hl e he⟩
  refine (hm.still hborn.live hborn.requestor).outMsg fun ⟨t, hsub⟩ => ?_
  rw [← hlog] at hle
  exact absurd hsub.later (Nat.not_lt.mpr hle)

theorem step_sends {k : Id × UInt16} {l : List Event} {o : Ptr} (hs : s.WF) (ht : s.Timed)
    (hq : q < s.srcs.next) (h : s.Sends q k l o) : (step handler n i s).state.Sends q k l o := by
  have hpre : s.log <+: (step handler n i s).state.log := (logs_step handler n i hs).isPrefix
  refine ⟨(step_srcKey handler n hs hq).trans h.key, h.log.trans hpre, fun hle => ?_⟩
  have hmono := submissions_mono hpre k
  obtain ⟨hout, hres⟩ := h.same (hmono.trans hle)
  have hsub : ¬ ∃ t, s.Submits (step handler n i s).state (s.srcKey q) t := fun ⟨t, hsub⟩ => by
    have hlater := hsub.later
    have hl : l.countP (Event.submits k) ≤ s.submissions k := h.log.sublist.countP_le
    rw [h.key] at hlater
    omega
  have hout' : ((step handler n i s).state.srcs.get q).outMsg = (s.srcs.get q).outMsg := by
    rcases step_src handler n i hs hq with heq | ⟨hmem, ⟨rfl, hbeat⟩ | ⟨hi, -⟩⟩
    · exact congrArg (·.t.outMsg) heq
    · exact (hbeat.spec (hs.src.inv q hmem) (ht.pooled q hmem)).2.1
    · exact (step_still handler n hs hq hi).outMsg hsub
  refine ⟨hout'.trans hout, fun e he => ?_⟩
  rcases step_resends handler n hs ht hq with ⟨heq, -⟩ | ⟨-, -, ⟨-, m, heq⟩, -⟩
  · exact hres e (heq ▸ he)
  · rw [heq, mem_append, mem_singleton] at he
    rcases he with he | rfl
    · exact hres e he
    · refine ⟨m, ?_⟩
      rw [show (s.srcTrace q).t.outMsg = o from hout, show (s.srcTrace q).t.key = k from h.key]

end

/-! ## The schedule -/

section

variable {handler : Handler σ} {n : Nat} {s s' : Node σ} {is : List (Input σ)}

theorem timed_steps {svc : σ} {tid : UInt16}
    (h : Steps (step handler n) (initial svc tid) is s) : s.WF ∧ s.Timed :=
  h.induct (P := fun s => s.WF ∧ s.Timed)
    (fun _ _ _ hs heq => ⟨step_wf handler n hs.1 heq, step_timed handler n hs.1 hs.2 heq⟩)
    ⟨wf_initial svc tid, timed_initial svc tid⟩

/-- Let the source transaction `p` come up in the reaction to `i`, let the node react to `is'` and
then to `j`, be it with an exception. In that last reaction `p` sends its message again at most
once, and only if `j` is the fifth or the tenth tick of its life and no frame with the
acknowledgement flag has been handed to it. What it sends is the message it was started with, if
nothing else has been submitted with its key. -/
theorem retransmission_schedule {svc : σ} {tid : UInt16} {is is' : List (Input σ)} {i : Input σ}
    {s₁ s₂ s₃ : Node σ} {p : Ptr}
    (hbefore : Steps (step handler n) (Node.initial svc tid) is s₁)
    (hcreated : step handler n i s₁ = .ok () s₂) (hnew : s₁.srcs.next ≤ p)
    (hp : p < s₂.srcs.next) (hafter : Steps (step handler n) s₂ is' s₃) (j : Input σ) :
    let s₄ := (step handler n j s₃).state
    (s₂.srcTrace p).resent = [] ∧
    ((s₄.srcTrace p).resent = (s₃.srcTrace p).resent ∨
      (∃ e, (s₄.srcTrace p).resent = (s₃.srcTrace p).resent ++ [e]) ∧ j = .tick ∧
      (is'.countP Input.isTick + 1 = 5 ∨ is'.countP Input.isTick + 1 = 10) ∧
      ∀ m, .recv m ∈ is' → m.ForSource = true → (m.source, m.tid) = s₄.srcKey p →
        m.ackrsp = false) ∧
    (s₄.srcTrace p).resent.length ≤ 2 ∧ (s₄.srcs.get p).rtxctr ≤ 2 ∧
    ∃ l l' o m, s₄.log = l ++ .send ⟨.src, p, s₄.srcKey p⟩ .initial o m :: l' ∧
      (∀ e ∈ l, e.isOf .src p = false) ∧
      ((∀ e ∈ l', e.submits (s₄.srcKey p) = false) → ∀ e ∈ (s₄.srcTrace p).resent,
        ∃ m', e = .send ⟨.src, p, s₄.srcKey p⟩ .retransmission o m') := by
  intro s₄
  obtain ⟨hs₁, ht₁⟩ := timed_steps hbefore
  have hs₂ := step_wf handler n hs₁ hcreated
  have ht₂ := step_timed handler n hs₁ ht₁ hcreated
  obtain ⟨-, harises⟩ := (step_srcBirth handler n hs₁ hnew hcreated).resolve_left
    fun h => absurd hp (Nat.not_lt.mpr h.1)
  obtain ⟨-, -, hres₂, hstop₂⟩ := harises.onTime (ht₁.unborn p hnew)
  obtain ⟨l, o, m, hsends₂, hl⟩ := harises.sends (ht₁.unborn p hnew)
  obtain ⟨⟨hs₃, ht₃⟩, hp₃, hsends₃⟩ : (s₃.WF ∧ s₃.Timed) ∧ p < s₃.srcs.next ∧
      s₃.Sends p (s₂.srcKey p) (l ++ [.send ⟨.src, p, s₂.srcKey p⟩ .initial o m]) o :=
    hafter.induct (P := fun s => (s.WF ∧ s.Timed) ∧ p < s.srcs.next ∧
      s.Sends p (s₂.srcKey p) (l ++ [.send ⟨.src, p, s₂.srcKey p⟩ .initial o m]) o)
      (fun i s s' ⟨⟨hs, ht⟩, hp, hsends⟩ heq => by
        have hsends' := step_sends handler n (i := i) hs ht hp hsends
        rw [heq] at hsends'
        exact ⟨⟨step_wf handler n hs heq, step_timed handler n hs ht heq⟩,
          hp.trans_le (step_aged hs heq).srcs, hsends'⟩)
      ⟨⟨hs₂, ht₂⟩, hp, hsends₂⟩
  have hsends₄ := step_sends handler n (i := j) hs₃ ht₃ hp₃ hsends₃
  have hcounted := step_counted handler n (i := j) hs₃ ht₃ hp₃
  rw [show s₄.srcKey p = s₂.srcKey p from hsends₄.key]
  refine ⟨hres₂, ?_, hcounted.1 ▸ hcounted.2, hcounted.2, ?_⟩
  · rcases step_resends handler n hs₃ ht₃ hp₃ with
      ⟨heq, -⟩ | ⟨hj, hmem, ⟨-, m', heq⟩, hlt, hstart, hon, -, hstop⟩
    · exact .inl heq
    · obtain ⟨-, hage⟩ := (steps_aged hafter hs₂).src p hmem hp
      obtain ⟨-, hno⟩ := steps_waits hafter hs₂ ht₂ hp ⟨hmem, hstart, hon⟩
      refine .inr ⟨⟨_, heq⟩, Input.eq_tick hj, by omega, fun m hm hfor hkey => ?_⟩
      exact hno m hm hfor hkey.symm
  · obtain ⟨l', hlog⟩ := hsends₄.log
    refine ⟨l, l', o, m, by rw [← hlog]; simp, hl, fun hno => (hsends₄.same ?_).2⟩
    have hzero : l'.countP (Event.submits (s₂.srcKey p)) = 0 :=
      countP_eq_zero.mpr fun e he => by simp [hno e he]
    unfold submissions
    rw [← hlog, countP_append, hzero]
    exact le_rfl

end

theorem retransmission_schedule_fifth_tick :
    let s₂ := (step idle 1 (.submit (requestTo80 0)) (initial () 0)).state
    let s₃ := runAll (step idle 1) (replicate 4 .tick) s₂
    (s₃.srcTrace 1).resent.length = 0 ∧
    ((step idle 1 .tick s₃).state.srcTrace 1).resent.length = 1 ∧
    ((step idle 1 .tick s₃).state.srcs.get 1).rtxctr ≤ 2 := by
  intro s₂ s₃
  have hcreated : step idle 1 (.submit (requestTo80 0)) (initial () 0) = .ok () s₂ :=
    Result.eq_ok_of_isOk (by decide +kernel)
  have hafter : Steps (step idle 1) s₂ (replicate 4 .tick) s₃ := steps_runAll _ (by decide +kernel)
  have hschedule := retransmission_schedule (.nil _) hcreated (p := 1) (by decide +kernel)
    (by decide +kernel) hafter .tick
  exact ⟨by decide +kernel, by decide +kernel, hschedule.2.2.2.1⟩

end Odtone.Mihf
