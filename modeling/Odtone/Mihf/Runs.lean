import Odtone.Mihf.Tick

/-! # Runs keep the pools well formed

Every reaction of a node to a frame, to a local program or to a tick keeps both pools well formed,
so they are well formed in every reachable state, whatever the handler.
-/

namespace Odtone.Mihf

variable {σ : Type} {s s' : Node σ}

/-! ## Ticks -/

theorem Node.SrcTicked.wf (h : s.SrcTicked s') (hs : s.WF) : s'.WF where
  src := by
    have hmem : ∀ p ∈ s'.src, p ∈ s.src := fun p hp => h.pool.subset hp
    refine ⟨fun p hp => ?_, fun p hp => ?_, fun p hp => ?_, ?_⟩
    · rw [h.next]
      exact hs.src.lt p (hmem p hp)
    · obtain ⟨del, hdel, htick⟩ := h.ticked p (hmem p hp)
      rw [hdel.mp hp] at htick
      exact (htick.srcInv (hs.src.inv p (hmem p hp))).resolve_left (by simp)
    · rw [h.ack]
      exact hs.src.ack p (hmem p hp)
    · have hkeys : Pool.Distinct s.srcKey s'.src := hs.src.keys.sublist (h.pool.map _)
      exact hkeys.congr fun p _ => h.key p
  dst := hs.dst.of_eq h.dsts h.dst

theorem Node.DstTicked.wf (h : s.DstTicked s') (hs : s.WF) : s'.WF where
  src := hs.src.of_grows (.of_srcs_eq h.srcs h.msgs) (by rw [h.src])
  dst := by
    have hmem : ∀ p ∈ s'.dst, p ∈ s.dst := fun p hp => h.pool.subset hp
    refine ⟨fun p hp => ?_, fun p hp => ?_, ?_⟩
    · rw [h.next]
      exact hs.dst.lt p (hmem p hp)
    · obtain ⟨del, hdel, htick⟩ := h.ticked p (hmem p hp)
      rw [hdel.mp hp] at htick
      exact (htick.dstInv (hs.dst.inv p (hmem p hp))).resolve_left (by simp)
    · have hkeys : Pool.Distinct s.dstKey s'.dst := hs.dst.keys.sublist (h.pool.map _)
      exact hkeys.congr fun p _ => h.key p

theorem tick_ok {handler : Handler σ} (hs : s.WF)
    (h : tick (processLocked handler) s = .ok () s') : ∃ s₁, s.SrcTicked s₁ ∧ s₁.DstTicked s' := by
  unfold tick at h
  cases hsrc : decSrc (processLocked handler) s with
  | error e s₁ =>
    rw [hsrc] at h
    cases h
  | ok _ s₁ =>
    rw [hsrc] at h
    have hticked := (decSrc_spec handler hs.src).2 s₁ hsrc
    exact ⟨s₁, hticked, (decDst_spec _ (hticked.wf hs).dst).2.2 s' h⟩

/-! ## Reactions -/

/-- The node when the message `m` has been received. -/
def Node.received {C : Type} (s : Node σ C) (m : MetaMessage) : Node σ C :=
  { s with msgs := s.msgs.push m }

theorem Node.WF.apart (hs : s.WF) (h : s.Apart s') : s'.WF :=
  hs.of_eq h.srcs h.src h.dsts h.dst h.msgs

theorem Node.apart_received (s : Node σ) (m : MetaMessage) : s.Apart (s.received m) :=
  ⟨rfl, rfl, rfl, rfl, rfl, Nat.le_succ _, [], by simp [received], by simp⟩

section

variable (handler : Handler σ) (n : Nat)

theorem act_evolves (x : Prog (Calls σ) Fault Unit) (hs : s.DstWF) :
    Evolves s (step handler n (.act x) s).state :=
  Keeps.run (perform_keeps (R := EvolvesWF) (fun _ _ h _ => .apart h)
    fun _ _ ho hs => messageOut_evolves (process_evolves handler n) ho hs) x s hs

theorem recv_incoming (m : MetaMessage) (hs : s.DstWF) :
    Incoming (process handler n) (s.received m) s.msgs.next (step handler n (.recv m) s) :=
  messageIn_incoming (hs.of_eq rfl rfl)

theorem step_wf {i : Input σ} (hs : s.WF) (h : step handler n i s = .ok () s') : s'.WF := by
  cases i with
  | recv m =>
    have hin := recv_incoming handler n m hs.dst
    rw [h] at hin
    exact hin.wf (process_evolves handler n) (hs.apart (s.apart_received m))
  | act x =>
    have hev := act_evolves handler n x hs.dst
    rw [h] at hev
    exact hev.wf hs
  | tick =>
    obtain ⟨s₁, hsrc, hdst⟩ := tick_ok hs h
    exact hdst.wf (hsrc.wf hs)

end

theorem Node.wf_initial (svc : σ) (tid : UInt16) : (Node.initial svc tid).WF where
  src := ⟨by simp, by simp, by simp, by simp [Pool.Distinct]⟩
  dst := ⟨by simp, by simp, by simp [Pool.Distinct]⟩

/-- The pools are well formed in every state that is reached. -/
theorem wf_steps {handler : Handler σ} {n : Nat} {svc : σ} {tid : UInt16} {is : List (Input σ)}
    (h : EStateM.Steps (step handler n) (Node.initial svc tid) is s) : s.WF :=
  h.induct (fun _ _ _ hs heq => step_wf handler n hs heq) (Node.wf_initial svc tid)

end Odtone.Mihf
