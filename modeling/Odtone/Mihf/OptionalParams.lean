import Odtone.Mihf.ServiceRuns

/-! # Optional parameters

Six handlers read optional parameters of a message as soon as its status reports success. A message
that reports success without them is an assertion failure, which ends the MIHF, exactly when the
handler gets that far: the message answers a pending request, and a confirm comes from a known Link
SAP. No other handler, and no timer, reads a parameter that is absent.
-/

namespace Odtone.Mihf

open Wire (Bytes Ty Element Decoder)
open Store List Option

/-! ## Incomplete messages -/

/-- For each message whose handler reads optional parameters, its status and whether they are all
present. -/
def optionalParams : List (UInt16 × Decoder (Ty.status.Val × Bool)) :=
  [(msgId 1 .confirm 1, (fun a => (a.1, a.2.1.isSome && a.2.2.isSome)) <$> linkCapabilitiesParams),
    (msgId 1 .response 4, (fun a => (a.1, a.2.2.isSome)) <$> subscribeResponseParams),
    (msgId 1 .confirm 4, (fun a => (a.1, a.2.isSome)) <$> subscribeConfirmParams),
    (msgId 1 .response 5, (fun a => (a.1, a.2.2.isSome)) <$> subscribeResponseParams),
    (msgId 3 .confirm 1, (fun a => (a.st, a.states.isSome && a.params.isSome && a.descs.isSome)) <$>
      getParametersConfirmParams),
    (msgId 3 .confirm 3, (fun a => (a.1, a.2.2.isSome)) <$> actionsConfirmParams)]

/-- The message reports success, and not all parameters that its handler then reads are there. -/
def MetaMessage.Incomplete (m : MetaMessage) : Prop :=
  ∃ r, optionalParams.find? (fun r => r.1 = m.mid) = some r ∧
    ∃ c, r.2 ⟨m.payload, 0⟩ = .ok (statusSuccess, false) c

/-- The handler of the message `m` reads a parameter that is absent. -/
structure MetaMessage.Breaks (m : MetaMessage) (s : Node Services) : Prop where
  incomplete : m.Incomplete
  /-- the message answers a request -/
  pending : ∃ p ∈ s.lpool, LocalTransactionPool.Matches m.source m.tid p = true
  /-- a confirm comes from a known Link SAP -/
  known : m.mid ∈ linkConfirms → (s.svc.lbook.get? m.source).isSome = true

theorem MetaMessage.Breaks.mem {m : MetaMessage} {s : Node Services} (h : m.Breaks s) :
    m.mid ∈ optionalReaders := by
  obtain ⟨r, hr, -⟩ := h.incomplete
  have hmid := find?_some hr
  rw [← of_decide_eq_true hmid]
  exact mem_map_of_mem (mem_of_find?_eq_some hr)

/-! ## Programs -/

namespace Svc

/-- Started in `s`, the program reads an absent parameter if and only if `C`. -/
def Reads {α : Type} (x : Svc α) (C : Prop) (s : Node Services) : Prop :=
  Post handOver x s (fun _ _ => ¬C) fun e _ => e = .absentOptional ↔ C

variable {α β : Type} {cfg : Config} {x : Svc α} {f : α → Svc β} {C D : Prop}
  {s : Node Services} {p : Ptr}

theorem Reads.congr (h : Reads x C s) (hC : C ↔ D) : Reads x D s := by rwa [← propext hC]

/-- A program that is within what any message allows reads none. -/
theorem reads_none (cfg : Config) [hx : Within cfg {} x] : Reads x False s :=
  (hx.post s).mono (fun _ _ _ => id) fun _ _ he =>
    ⟨fun h => absurd (he.1 h) (by decide), False.elim⟩

theorem Reads.fault (h : Reads x C s) : (exec handOver x s).fault? = some .absentOptional ↔ C := by
  rw [Reads, post_iff] at h
  cases hrun : exec handOver x s with
  | ok a s' =>
    rw [hrun] at h
    exact ⟨nofun, fun hC => absurd hC h⟩
  | error e s' =>
    rw [hrun] at h
    exact some_inj.trans h

theorem Reads.bind_pure (h : Reads x C s) (b : β) : Reads (x >>= fun _ => pure b) C s :=
  post_bind.mpr h

theorem reads_modifyMsg {g : MetaMessage → MetaMessage}
    (h : Reads x C { s with msgs := s.msgs.update p g }) :
    Reads (modifyMsg p g >>= fun _ => x) C s := post_bind.mpr h

theorem reads_modifySvc {g : Services → Services} (h : Reads x C { s with svc := g s.svc }) :
    Reads (modifySvc g >>= fun _ => x) C s := post_bind.mpr h

variable {id : Bytes} {y : Svc α} {d : Decoder (Ty.status.Val × Bool)} {mid : UInt16} {e : Fault}

theorem reads_linkGet {f : LinkEntry → Svc α} (hid : (s.svc.lbook.get? id).isSome = true)
    (hf : ∀ e, Reads (f e) C s) : Reads (linkGet id >>= f) C s := by
  refine post_bind.mpr (post_linkGet.mpr ⟨fun e _ => hf e, fun hnone => ?_⟩)
  rw [hnone] at hid
  cases hid

theorem reads_ofOptional {a : Option α} (hf : ∀ b, Reads (f b) C s) :
    Reads (ofOptional a >>= f) (a = none ∨ C) s := by
  refine post_bind.mpr (post_ofOptional.mpr ⟨?_, ?_⟩)
  · rintro b rfl
    exact (hf b).congr (by simp)
  · rintro rfl
    simp

theorem reads_ite {c : Prop} [Decidable c] (hx : c → Reads x C s) (hy : ¬c → Reads y C s) :
    Reads (if c then x else y) C s := post_ite.mpr ⟨hx, hy⟩

/-- A program that reads the parameters of a message. -/
theorem reads_parse {d : Decoder α} {g : α → Ty.status.Val × Bool} {b : Bytes}
    (hb : (s.msgs.get p).payload = b) (hf : ∀ a, Reads (f a) (g a = (statusSuccess, false)) s) :
    Reads (parse p d >>= f) (∃ c, (g <$> d) ⟨b, 0⟩ = .ok (statusSuccess, false) c) s := by
  subst hb
  refine post_bind.mpr (post_parse.mpr ⟨fun a c ha => ?_, fun e c he => ?_⟩)
  · have hg : (g <$> d) ⟨(s.msgs.get p).payload, 0⟩ = .ok (g a) c := by
      simp [Functor.map, EStateM.map, ha]
    exact (hf a).congr
      ⟨fun h => ⟨c, by rw [hg, h]⟩, fun ⟨c', h⟩ => (EStateM.Result.ok.inj (hg.symm.trans h)).1⟩
  · have hg : (g <$> d) ⟨(s.msgs.get p).payload, 0⟩ = .error e c := by
      simp [Functor.map, EStateM.map, he]
    simp [hg]

/-- A program that looks at the status first. -/
theorem reads_status {st : Ty.status.Val} {b : Bool} (hx : Reads x (b = false) s)
    (hy : Reads y False s) :
    Reads (if st = statusSuccess then x else y) ((st, b) = (statusSuccess, false)) s := by
  refine reads_ite (fun h => ?_) fun h => ?_
  · exact hx.congr (by simp [h])
  · exact hy.congr (by simp [h])

/-- A program that goes on if the message answers a request. -/
theorem reads_ifUser {src : Bytes} {tid : UInt16} {x : Svc α} (hsrc : (s.msgs.get p).source = src)
    (htid : (s.msgs.get p).tid = tid)
    (hx : ∀ s' : Node Services, (∀ q, (s'.msgs.get q).payload = (s.msgs.get q).payload) →
      s'.svc = s.svc → Reads x C s') (hy : Reads y False s) :
    Reads (do if ← setUserTid p then x else y)
      ((∃ q ∈ s.lpool, LocalTransactionPool.Matches src tid q = true) ∧ C) s := by
  subst hsrc htid
  refine post_ifUser.mpr ⟨fun m' l h => ?_, fun h => ?_⟩
  · obtain ⟨q, hq, heq⟩ := map_eq_some_iff.mp h
    have hpending : ∃ q ∈ s.lpool, LocalTransactionPool.Matches _ _ q = true :=
      ⟨q, mem_of_find?_eq_some hq, find?_some hq⟩
    have hreads : Reads x C { s with lpool := l, msgs := s.msgs.set p m' } := by
      refine hx _ (fun q => ?_) rfl
      rw [get_set]
      split_ifs with hqp
      · rw [hqp, ← (Prod.mk.inj heq).1]
      · rfl
    exact hreads.congr (and_iff_right hpending).symm
  · refine hy.congr (iff_of_false id ?_)
    rintro ⟨⟨q, hq, hmatch⟩, -⟩
    exact absurd hmatch (find?_eq_none.mp (map_eq_none_iff.mp h) q hq)

/-- A handler that resets the Link SAP first. -/
theorem reads_linkReset {x : Svc α}
    (hx : (s.svc.lbook.get? id).isSome = true → ∀ s' : Node Services, s'.msgs = s.msgs →
    s'.lpool = s.lpool →
      (s'.svc.lbook.get? id).isSome = true → Reads x C s') :
    Reads (linkReset id >>= fun _ => x) ((s.svc.lbook.get? id).isSome = true ∧ C) s := by
  refine post_bind.mpr (post_linkReset.mpr ⟨fun e he => ?_, fun hnone => ?_⟩)
  · have hsome : (s.svc.lbook.get? id).isSome = true := by rw [he]; rfl
    refine (hx hsome { s with svc := { s.svc with lbook := s.svc.lbook.reset id } } rfl rfl ?_)
      |>.congr (and_iff_right hsome).symm
    rw [LinkBook.reset, Book.get?_modify, if_pos rfl, he]
    rfl
  · simp [hnone]

/-! ## Handlers -/

variable {m : MetaMessage} {i o : Ptr}

/-- The message answers a request, and the decoder finds success with a parameter missing. -/
def Lacks (m : MetaMessage) (s : Node Services) (d : Decoder (Ty.status.Val × Bool)) : Prop :=
  (∃ q ∈ s.lpool, LocalTransactionPool.Matches m.source m.tid q = true) ∧
    ∃ c, d ⟨m.payload, 0⟩ = .ok (statusSuccess, false) c

theorem reads_confirm {x : MetaMessage → Svc Bool} (hi : s.msgs.get i = m)
    (hx : ∀ s' : Node Services, s'.msgs = s.msgs → s'.lpool = s.lpool →
      (s'.svc.lbook.get? m.source).isSome = true → Reads (x m) (Lacks m s' d) s') :
    Reads (readMsg i >>= fun m => linkReset m.source >>= fun _ => x m)
      ((s.svc.lbook.get? m.source).isSome = true ∧ Lacks m s d) s := by
  refine post_bind.mpr ?_
  rw [post_readMsg, hi]
  refine reads_linkReset fun _ s' hmsgs hlpool hget => ?_
  refine (hx s' hmsgs hlpool hget).congr ?_
  rw [Lacks, Lacks, hlpool]

/-! ## All inputs -/

theorem breaks_iff (hmid : m.mid = mid)
    (hd : optionalParams.find? (fun r => r.1 = mid) = some (mid, d)) :
    m.Breaks s ↔ (mid ∈ linkConfirms → (s.svc.lbook.get? m.source).isSome = true) ∧
      Lacks m s d := by
  subst hmid
  constructor
  · rintro ⟨⟨r, hr, hincomplete⟩, hpending, hknown⟩
    cases hd.symm.trans hr
    exact ⟨hknown, hpending, hincomplete⟩
  · rintro ⟨hknown, hpending, hincomplete⟩
    exact ⟨⟨_, hd, hincomplete⟩, hpending, hknown⟩

/-- What the handler of a message reads. -/
theorem reads_callback {h : Handler Services} (hcb : callback cfg m.mid = some h)
    (hi : s.msgs.get i = m) (hio : i ≠ o) (ho : (s.msgs.get o).tid = m.tid) :
    Reads (h i o) (m.Breaks s) s := by
  by_cases hm : m.mid ∈ optionalReaders
  · have hconfirm {mid : UInt16} {P : Prop} (h : mid ∈ linkConfirms) :
        (mid ∈ linkConfirms → P) ↔ P :=
      ⟨fun hP => hP h, fun hP _ => hP⟩
    have hresponse {mid : UInt16} {P : Prop} (h : mid ∉ linkConfirms) :
      (mid ∈ linkConfirms → P) ↔ True :=
      iff_true_intro fun h' => absurd h' h
    simp only [optionalReaders, mem_cons, not_mem_nil, or_false] at hm
    rcases hm with hm | hm | hm | hm | hm | hm <;> rw [hm] at hcb <;> cases hcb
    · -- capabilities
      rw [breaks_iff hm rfl, hconfirm (by decide)]
      refine reads_confirm hi fun s' hmsgs _ _ => ?_
      refine reads_ifUser (by rw [hmsgs, hi]) (by rw [hmsgs, hi])
        (fun s₁ hpayload _ => ?_) (reads_none cfg)
      refine reads_parse (by rw [hpayload, hmsgs, hi]) fun a => ?_
      refine reads_status ?_ (reads_none cfg)
      refine (reads_ofOptional fun event =>
        reads_ofOptional (C := False) fun command => ?_).congr ?_
      · exact post_bind.mpr (post_modifySvc.mpr id)
      · cases a.2.1 <;> simp
    · -- subscribe response
      rw [breaks_iff hm rfl, hresponse (by decide), true_and]
      refine reads_ifUser (by rw [hi]) (by rw [hi]) (fun s' hpayload _ => ?_) (reads_none cfg)
      refine reads_parse (by rw [hpayload, hi]) fun a => ?_
      refine post_bind.mpr (reads_status ?_ (reads_none cfg))
      exact (reads_ofOptional fun b => reads_none cfg).congr (by simp)
    · -- subscribe confirm
      rw [breaks_iff hm rfl, hconfirm (by decide)]
      refine reads_confirm hi fun s' hmsgs _ hget => ?_
      refine reads_modifyMsg ?_
      refine reads_ifUser ?_ ?_ (fun s₁ hpayload hsvc => ?_) (reads_none cfg)
      · rw [Store.get_update_self]
      · rw [Store.get_update_self, hmsgs, ho]
      refine Reads.bind_pure (reads_modifySvc (reads_parse ?_ fun a => ?_)) false
      · have hother : (s'.msgs.update o fun n => { n with source := m.source }).get i = m := by
          rw [Store.get_update_of_ne hio, hmsgs, hi]
        rw [hpayload, hother]
      refine reads_linkGet (by rwa [hsvc]) fun e => ?_
      refine reads_status ?_ (reads_none cfg)
      exact (reads_ofOptional fun _ => reads_none cfg).congr (by simp)
    · -- unsubscribe response
      rw [breaks_iff hm rfl, hresponse (by decide), true_and]
      refine reads_ifUser (by rw [hi]) (by rw [hi]) (fun s' hpayload _ => ?_) (reads_none cfg)
      refine reads_parse (by rw [hpayload, hi]) fun a => ?_
      refine post_bind.mpr (reads_status ?_ (reads_none cfg))
      exact (reads_ofOptional fun b => reads_none cfg).congr (by simp)
    · -- get parameters
      rw [breaks_iff hm rfl, hconfirm (by decide)]
      refine reads_confirm hi fun s' hmsgs _ _ => ?_
      refine reads_ifUser (by rw [hmsgs, hi]) (by rw [hmsgs, hi])
        (fun s₁ hpayload _ => ?_) (reads_none cfg)
      refine Reads.bind_pure (reads_parse (by rw [hpayload, hmsgs, hi]) fun a => ?_) false
      refine reads_status ?_ (reads_none cfg)
      refine (reads_ofOptional fun _ => reads_ofOptional fun _ => reads_ofOptional fun _ =>
        reads_none cfg).congr ?_
      cases a.states <;> cases a.params <;> simp
    · -- actions
      rw [breaks_iff hm rfl, hconfirm (by decide)]
      refine reads_confirm hi fun s' hmsgs _ _ => ?_
      refine reads_ifUser (by rw [hmsgs, hi]) (by rw [hmsgs, hi])
        (fun s₁ hpayload _ => ?_) (reads_none cfg)
      refine Reads.bind_pure (reads_parse (by rw [hpayload, hmsgs, hi]) fun a => ?_) false
      refine reads_status ?_ (reads_none cfg)
      exact (reads_ofOptional fun _ => reads_none cfg).congr (by simp)
  · have hstart : Starts cfg m i (h i o) := starts_callback hcb
    refine (hstart.post s hi).mono (fun _ _ _ hbreaks => hm hbreaks.mem) fun e s' he => ?_
    exact iff_of_false (fun h => hm (he.1 h)) fun hbreaks => hm hbreaks.mem

theorem callback_optionalReaders (h : mid ∈ optionalReaders) : callback cfg mid ≠ none := by
  simp only [optionalReaders, mem_cons, not_mem_nil, or_false] at h
  rcases h with rfl | rfl | rfl | rfl | rfl | rfl <;> exact nofun

theorem breaks_congr {s' : Node Services} (hlpool : s'.lpool = s.lpool) (hsvc : s'.svc = s.svc) :
    m.Breaks s' ↔ m.Breaks s := by
  constructor
  · exact fun h => ⟨h.incomplete, hlpool ▸ h.pending, hsvc ▸ h.known⟩
  · exact fun h => ⟨h.incomplete, hlpool.symm ▸ h.pending, hsvc.symm ▸ h.known⟩

theorem reads_discardLocal (he : e = .absentOptional ↔ C) : Reads (discardLocal e) C s := by
  unfold discardLocal
  split
  case h_4 => exact he
  all_goals exact fun hC => by cases he.mpr hC

theorem reads_discardRemote (he : e = .absentOptional ↔ C) : Reads (discardRemote e) C s := by
  unfold discardRemote
  split
  · exact fun hC => nomatch he.mpr hC
  · exact he

theorem reads_recvLocal : Reads (recvLocal cfg m) ({ m with isLocal := true }.Breaks s) s := by
  cases hcb : callback cfg m.mid with
  | none =>
    have hnot : ¬{ m with isLocal := true }.Breaks s := fun h =>
      callback_optionalReaders h.mem hcb
    simp only [Reads, recvLocal, sacDispatch, post_bind, post_newMsg, post_readMsg,
      get_push_next, hcb, post_pure]
    exact hnot
  | some h =>
    have hsame : { m with isLocal := true }.Breaks (s.receiving m) ↔
      { m with isLocal := true }.Breaks s :=
      breaks_congr rfl rfl
    have ho : (s.receiving m).msgs.get (s.msgs.next + 1) = { tid := m.tid } := get_push_next
    have hreads := (reads_callback (m := { m with isLocal := true }) hcb (s.get_receiving m)
      (Nat.ne_of_lt (Nat.lt_succ_self _)) (by rw [ho])).congr hsame
    rw [Reads, post_recvLocal hcb]
    refine Post.mono hreads (fun r s' hnot => ⟨fun _ => ?_, fun _ => hnot⟩) fun e s' he =>
      reads_discardLocal he
    have htransmit : Reads (transmit (s.msgs.next + 1)) _ s' :=
      (reads_none cfg).congr (iff_of_false id hnot)
    exact htransmit.mono (fun _ _ h => h) fun e s' he => reads_discardLocal he

theorem reads_sacProcessMessage (hi : s.msgs.get i = m) (hio : i ≠ o)
    (ho : (s.msgs.get o).tid = m.tid) :
    Reads (sacProcessMessage cfg i o) ((m.source ≠ cfg.mihfid ∧
      (cfg.IsDestination m = true ∨ m.isMulticast = true)) ∧ m.Breaks s) s := by
  refine post_bind.mpr ?_
  rw [post_readMsg, hi]
  refine reads_ite (fun h => (reads_none cfg).congr (by simp [h])) fun hsource => ?_
  refine reads_ite (fun h => (reads_none cfg).congr (iff_of_false id ?_)) fun hdst => ?_
  · grind
  have haccepted : m.source ≠ cfg.mihfid ∧ (cfg.IsDestination m = true ∨ m.isMulticast = true) := by
    grind
  rw [and_iff_right haccepted]
  cases hcb : callback cfg m.mid with
  | none =>
    exact (reads_none cfg).congr (iff_of_false id fun h => callback_optionalReaders h.mem hcb)
  | some h =>
    refine post_bind.mpr (post_tryCatch.mpr (post_map.mpr ?_))
    refine Post.mono (reads_callback hcb hi hio ho) (fun rsp s' hnot => ?_) fun e s' he => ?_
    · exact hnot
    · refine Post.mono (reads_discardRemote he) (fun rsp s' hnot => ?_) fun _ _ h => h
      cases rsp <;> exact hnot

end Svc

/-- The message of the input reaches its handler. -/
def ServiceInput.Accepted (cfg : Config) : ServiceInput → Prop
  | .fromLocal _ => True
  | .fromPeer m => m.source ≠ cfg.mihfid ∧ (cfg.IsDestination m = true ∨ m.isMulticast = true)
  | _ => False

open Svc in
/-- A reaction reads no absent parameter, except for a message whose handler does. -/
theorem absent_not_read_iff (cfg : Config) (i : ServiceInput) (s : Node Services) :
    (serviceStep cfg i s).fault? ≠ some .absentOptional ↔
    ¬(i.Accepted cfg ∧ i.message.Breaks s) := by
  have hother (hm : i.message = {}) (hi : ¬i.Accepted cfg) :
      Reads (i.program cfg) (i.Accepted cfg ∧ i.message.Breaks s) s := by
    refine (i.leaves s).mono (fun _ _ _ h => hi h.1) fun e _ he => ?_
    rw [hm] at he
    exact iff_of_false (fun h => absurd (he.1 h) (by decide)) fun h => hi h.1
  refine not_congr (Reads.fault ?_)
  cases i with
  | fromLocal m => exact reads_recvLocal.congr (iff_of_eq (true_and _)).symm
  | fromPeer m =>
    let s₁ : Node Services :=
      { s with msgs := (s.msgs.push { m with isLocal := false }).push { tid := m.tid } }
    have hi : s₁.msgs.get s.msgs.next = { m with isLocal := false } := by
      rw [get_push_of_lt (by simp), get_push_next]
    have ho : s₁.msgs.get (s.msgs.next + 1) = { tid := m.tid } := get_push_next
    have hreads : Reads (sacProcessMessage cfg s.msgs.next (s.msgs.next + 1)) _ s₁ :=
      reads_sacProcessMessage hi (Nat.ne_of_lt (Nat.lt_succ_self _)) (by rw [ho])
    have hsame : { m with isLocal := false }.Breaks s₁ ↔ { m with isLocal := false }.Breaks s :=
      breaks_congr rfl rfl
    exact (hreads.bind_pure ()).congr (and_congr_right fun _ => hsame)
  | eventTimer | commandTimer | second | pool => exact hother rfl id

open Sample in
/-- A Link SAP registers and is asked for its capabilities. It reports success, and tells none. -/
theorem absent_capabilities_read :
    (serviceStep (mihf 2)
      (.fromLocal
        { mid := msgId 1 .confirm 1, source := [83], destination := [77], payload := [3, 1, 0] })
      (serviceRun (mihf 2) empty 0 [registers])).fault? = some .absentOptional := by decide +kernel

end Odtone.Mihf
