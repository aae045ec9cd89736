import Odtone.Mihf.EventService

/-! # Delivery of link events

Who gets an indication about a link. The list of subscriptions never holds two equal registrations,
so a loop that selects by event and link reaches every subscriber once. Three of the handlers select
by the event alone: they also reach those who subscribed the event on another link, and those who
subscribed it on several links as often.
-/

namespace Odtone.Mihf

open Wire (Bytes Ty Element Arg)
open List LinkEvent EventRegistration

/-! ## Subscription histories -/

/-- The operations on the list of subscriptions. -/
inductive SubscriptionOp where
  | subscribe (user : Bytes) (link : LinkTupleId) (events : Bitmap 4)
  | unsubscribe (user : Bytes) (link : LinkTupleId) (events : Bitmap 4)

def SubscriptionOp.apply (l : List EventRegistration) : SubscriptionOp → List EventRegistration
  | .subscribe user link events => Mihf.subscribe l user link events
  | .unsubscribe user link events => Mihf.unsubscribe l user link events

/-- The list of subscriptions after a history. -/
def history (ops : List SubscriptionOp) : List EventRegistration :=
  ops.foldl SubscriptionOp.apply []

/-- What a registration is compared by. -/
def EventRegistration.key (r : EventRegistration) : Bytes × LinkId × Fin 32 :=
  (r.user, r.link.toLinkId, r.event)

@[simp] theorem EventRegistration.same_iff (r q : EventRegistration) :
    r.Same q = true ↔ r.key = q.key := by
  simp [EventRegistration.Same, key, and_assoc]

/-- No two registrations are equal. -/
def Unduplicated (l : List EventRegistration) : Prop := (l.map EventRegistration.key).Nodup

variable {l : List EventRegistration}

theorem Unduplicated.addRegistration (h : Unduplicated l) (r : EventRegistration) :
    Unduplicated (addRegistration l r) := by
  unfold Mihf.addRegistration
  split_ifs with hany
  · exact h
  · have hnew : r.key ∉ l.map key := by
      intro hmem
      obtain ⟨q, hq, hkey⟩ := mem_map.mp hmem
      exact hany (any_eq_true.mpr ⟨q, hq, (r.same_iff q).mpr hkey.symm⟩)
    unfold Unduplicated
    rw [map_append, map_singleton]
    exact nodup_append'.mpr ⟨h, nodup_singleton _, by simpa using hnew⟩

theorem Unduplicated.subscribe (h : Unduplicated l) (user : Bytes) (link : LinkTupleId)
    (events : Bitmap 4) : Unduplicated (subscribe l user link events) := by
  unfold Mihf.subscribe
  induction finRange 32 generalizing l with
  | nil => exact h
  | cons i is ih =>
    rw [foldl_cons]
    split_ifs
    · exact ih (h.addRegistration _)
    · exact ih h

theorem Unduplicated.unsubscribe (h : Unduplicated l) (user : Bytes) (link : LinkTupleId)
    (events : Bitmap 4) : Unduplicated (unsubscribe l user link events) :=
  h.sublist (filter_sublist.map _)

theorem unduplicated_foldl (ops : List SubscriptionOp) (h : Unduplicated l) :
    Unduplicated (ops.foldl SubscriptionOp.apply l) := by
  induction ops generalizing l with
  | nil => exact h
  | cons op ops ih =>
    refine ih ?_
    cases op with
    | subscribe user link events => exact h.subscribe user link events
    | unsubscribe user link events => exact h.unsubscribe user link events

theorem unduplicated_history (ops : List SubscriptionOp) : Unduplicated (history ops) :=
  unduplicated_foldl ops nodup_nil

/-- The user is subscribed to the event on the link. -/
def Subscribed (l : List EventRegistration) (user : Bytes) (event : Fin 32) (link : LinkTupleId) :
    Prop :=
  ∃ r ∈ l, r.user = user ∧ r.event = event ∧ r.link.Same link
deriving Decidable

/-- The registrations a loop over event and link selects. -/
def Selects (event : Fin 32) (link : LinkTupleId) (r : EventRegistration) : Bool :=
  r.event = event && r.link.Same link

/-- A loop over event and link reaches each subscriber once. -/
theorem Unduplicated.count_selected (h : Unduplicated l) (event : Fin 32) (link : LinkTupleId)
    (user : Bytes) :
    (l.filter (Selects event link)).countP (fun r => r.user = user) =
      if Subscribed l user event link then 1 else 0 := by
  have hiff : ∀ r : EventRegistration, (r.user = user ∧ Selects event link r = true) ↔
      r.key = (user, link.toLinkId, event) := by
    intro r
    simp only [Selects, key, Prod.mk.injEq, Bool.and_eq_true, decide_eq_true_eq,
      LinkTupleId.same_iff]
    tauto
  have hmem : Subscribed l user event link ↔
      (user, link.toLinkId, event) ∈ l.map key := by
    simp only [Subscribed, mem_map, ← hiff, Selects, Bool.and_eq_true, decide_eq_true_eq]
  calc (l.filter (Selects event link)).countP (fun r => r.user = user)
      = l.countP (fun r => r.key = (user, link.toLinkId, event)) := by
        rw [countP_filter]
        refine countP_congr fun r _ => ?_
        rw [Bool.and_eq_true, decide_eq_true_eq, decide_eq_true_eq]
        exact hiff r
    _ = (l.map key).count (user, link.toLinkId, event) := by
        rw [count, countP_map]
        exact countP_congr fun r _ => by simp
    _ = if Subscribed l user event link then 1 else 0 := by
        rw [Nodup.count h]
        simp only [hmem]

/-! ## What the loops transmit -/

/-- The messages transmitted between two states. -/
def Node.transmittedSince (s s' : Node Services) : List MetaMessage :=
  (s'.log.drop s.log.length).filterMap Event.transmitted

section Loop

open Svc

variable {s : Node Services} {i : Ptr}

/-- Between `s` and `s'` the messages `ms` are transmitted. -/
def Transmits (s s' : Node Services) (ms : List MetaMessage) : Prop :=
  ∃ es, s'.log = s.log ++ es ∧ es.filterMap Event.transmitted = ms

theorem Transmits.transmittedSince {s' : Node Services} {ms : List MetaMessage}
    (h : Transmits s s' ms) : s.transmittedSince s' = ms := by
  obtain ⟨es, hlog, hms⟩ := h
  rw [Node.transmittedSince, hlog, drop_left, hms]

theorem Transmits.cons {s₁ s₂ s₃ : Node Services} {m : MetaMessage}
    {ms : List MetaMessage} {e : Event} (h₁ : s₂.log = s₁.log ++ [e]) (he : e.transmitted = some m)
    (h₂ : Transmits s₂ s₃ ms) : Transmits s₁ s₃ (m :: ms) := by
  obtain ⟨es, hlog, hms⟩ := h₂
  refine ⟨e :: es, by rw [hlog, h₁, append_assoc, singleton_append], ?_⟩
  rw [filterMap_cons_some he, hms]

theorem exec_transmit_indication (hi : i < s.msgs.next)
    (hop : (s.msgs.get i).opcode = .indication) :
    ∃ s', exec handOver (transmit i) s = .ok () s' ∧ s'.msgs = s.msgs ∧ s'.svc = s.svc ∧
      ∃ e, s'.log = s.log ++ [e] ∧ e.transmitted = some (s.msgs.get i) := by
  have hreq : (s.msgs.get i).opcode ≠ .request := by rw [hop]; decide
  have hroute : (s.svc.route (s.msgs.get i)).1 = s.msgs.get i := by
    rcases (s.svc.ubook.get? (s.msgs.get i).destination).eq_none_or_eq_some with hu | ⟨u, hu⟩
    · rw [Services.route_peer hreq hu, hop]
      rfl
    · rw [Services.route_user hreq hu, hop]
      rfl
  rw [exec_transmit hi]
  simp only [hroute, Store.set_get_self]
  split_ifs
  all_goals exact ⟨_, rfl, rfl, rfl, _, rfl, rfl⟩

/-- The loop transmits a copy of the indication for each registration it selects. -/
theorem exec_forwardTo (select : EventRegistration → Bool) (rs : List EventRegistration)
    (hi : i < s.msgs.next) (hop : (s.msgs.get i).opcode = .indication) :
    ∃ s', exec handOver (forwardTo i select rs) s = .ok () s' ∧
      Transmits s s' ((rs.filter select).map fun r =>
        { s.msgs.get i with destination := r.user }) := by
  induction rs generalizing s with
  | nil => exact ⟨s, rfl, [], by simp, by simp⟩
  | cons r rs ih =>
    by_cases hsel : select r
    · -- the message is addressed and transmitted, then the loop goes on with it
      let s₁ : Node Services :=
        { s with msgs := s.msgs.update i fun m => { m with destination := r.user } }
      have hget : s₁.msgs.get i = { s.msgs.get i with destination := r.user } := by
        simp only [s₁, Store.get_update_self]
      have hop₁ : (s₁.msgs.get i).opcode = .indication := by rw [hget]; exact hop
      obtain ⟨s₂, hrun, hmsgs, -, e, hlog, he⟩ := exec_transmit_indication (s := s₁) hi hop₁
      obtain ⟨s', hrest, hsent⟩ := ih (by rw [hmsgs]; exact hi) (by rw [hmsgs]; exact hop₁)
      refine ⟨s', ?_, ?_⟩
      · simp only [forwardTo, hsel, if_true, exec_bind, exec_modifyMsg]
        rw [show exec handOver (transmit i) _ = _ from hrun]
        exact hrest
      · rw [filter_cons_of_pos hsel, map_cons]
        rw [hmsgs, hget] at hsent
        rw [hget] at he
        exact hsent.cons hlog he
    · obtain ⟨s', hrest, hsent⟩ := ih hi hop
      refine ⟨s', ?_, ?_⟩
      · simp only [forwardTo, hsel, Bool.false_eq_true, if_false]
        exact hrest
      · rw [filter_cons_of_neg hsel]
        exact hsent

/-- The users who get a version of the message `i` between `s` and `s'`, in order; no other
message is transmitted. -/
def Reaches (mid : UInt16) (s s' : Node Services) (users : List Bytes) : Prop :=
  (s.transmittedSince s').map (fun m => (m.mid, m.destination)) = users.map (mid, ·)

variable (cfg : Config)

/-- The end of every handler: mark the source and go through the subscriptions. -/
theorem exec_forward (select : EventRegistration → Bool) (hi : i < s.msgs.next) {mid : UInt16}
    (hmid : (s.msgs.get i).mid = mid) (hop : (s.msgs.get i).opcode = .indication) :
    ∃ s', exec handOver (do
        localSource cfg i
        let svc ← getSvc
        forwardTo i select svc.subscriptions) s = .ok () s' ∧
      Reaches mid s s' ((s.svc.subscriptions.filter select).map user) := by
  let s₁ : Node Services :=
    { s with msgs := s.msgs.update i fun m =>
        if m.isLocal then { m with source := cfg.mihfid } else m }
  have hmid₁ : (s₁.msgs.get i).mid = mid := by
    simp only [s₁, Store.get_update_self]
    split_ifs <;> exact hmid
  have hop₁ : (s₁.msgs.get i).opcode = .indication := by
    rw [MetaMessage.opcode, hmid₁, ← hmid]
    exact hop
  obtain ⟨s', hrun, hsent⟩ := exec_forwardTo (s := s₁) select s.svc.subscriptions hi hop₁
  refine ⟨s', hrun, ?_⟩
  have hsince : s.transmittedSince s' = _ := hsent.transmittedSince
  rw [Reaches, hsince, map_map, map_map]
  refine map_congr_left fun r _ => ?_
  simp only [Function.comp_apply, hmid₁]

/-- The message comes from a Link SAP that is not registered. -/
def Refused (svc : Services) (m : MetaMessage) : Bool :=
  m.isLocal && (svc.lbook.get? m.source).isNone

theorem exec_resetIfLocal (out : Ptr → M Services Unit) (h : Refused s.svc (s.msgs.get i) = false) :
    ∃ lbook, exec out (resetIfLocal i) s = .ok ()
      { s with svc := { s.svc with lbook := lbook } } := by
  simp only [resetIfLocal, exec_bind, exec_readMsg]
  split_ifs with hlocal
  · rcases (s.svc.lbook.get? (s.msgs.get i).source).eq_none_or_eq_some with hl | ⟨e, hl⟩
    · simp [Refused, hlocal, hl] at h
    · exact ⟨_, exec_linkReset hl⟩
  · exact ⟨s.svc.lbook, rfl⟩

theorem exec_resetIfLocal_refused (out : Ptr → M Services Unit)
    (h : Refused s.svc (s.msgs.get i) = true) :
    exec out (resetIfLocal i) s = .error .unknownLinkSap s := by
  simp only [Refused, Bool.and_eq_true, Option.isNone_iff_eq_none] at h
  simp only [resetIfLocal, exec_bind, exec_readMsg, h.1, if_true]
  exact exec_linkReset_unknown h.2

end Loop

/-! ## The handlers -/

namespace LinkEvent

/-- Does the handler look at the link of a registration? -/
def ByLink : LinkEvent → Bool
  | .detected | .handoverImminent | .handoverComplete => false
  | _ => true

/-- The handler of an indication. -/
def handler (cfg : Config) : LinkEvent → Handler Services
  | .detected => Svc.linkDetectedIndication cfg
  | .up => Svc.linkUpIndication cfg
  | .down => Svc.linkDownIndication cfg
  | .parametersReport => Svc.linkParametersReportIndication cfg
  | .goingDown => Svc.linkGoingDownIndication cfg
  | .handoverImminent => Svc.linkHandoverImminentIndication cfg
  | .handoverComplete => Svc.linkHandoverCompleteIndication cfg
  | .pduTransmitStatus => Svc.linkPduTransmitStatusIndication cfg
  | .linkConfRequired => Svc.linkConfRequiredIndication cfg
  | .l3ConfRequired => Svc.l3ConfRequiredIndication cfg

/-- The message is a well-formed indication about the link `l`: its parameters can be read, and
written back where the handler does that. The link a handover leaves is the one it is about. -/
inductive About (m : MetaMessage) (l : LinkTupleId) : LinkEvent → Prop
  | byLink {k : LinkEvent} {c : Cursor UInt8} (hk : k.ByLink = true)
      (hread : linkIdentifier ⟨m.payload, 0⟩ = .ok l c) : About m l k
  | detectedLocal {info : Ty.linkDetInfo.Val} {c : Cursor UInt8} {m' : Wire.Message}
      (hlocal : m.isLocal = true) (hread : Element.linkDetInfo.get ⟨m.payload, 0⟩ = .ok info c)
      (hlink : (LinkTupleId.ofVal info.1).Same l)
      (hwrite : m.toMessage.insert LinkEvent.detected.mid none
        [Element.linkDetInfoList.put [info]] =
        .ok m') : About m l .detected
  | detectedRemote {infos : List Ty.linkDetInfo.Val} {info : Ty.linkDetInfo.Val} {c : Cursor UInt8}
      (hremote : m.isLocal = false)
      (hread : Element.linkDetInfoList.get ⟨m.payload, 0⟩ = .ok infos c) (hmem : info ∈ infos)
      (hlink : (LinkTupleId.ofVal info.1).Same l) : About m l .detected
  | handoverImminent {c : Cursor UInt8} (hread : linkIdentifier ⟨m.payload, 0⟩ = .ok l c) :
      About m l .handoverImminent
  | handoverComplete {x : HandoverComplete} {c : Cursor UInt8} {m' : Wire.Message}
      (hread : handoverCompleteParams m.isLocal ⟨m.payload, 0⟩ = .ok x c)
      (hlink : x.oldLink.Same l)
      (hwrite : m.toMessage.insert LinkEvent.handoverComplete.mid none x.args = .ok m') :
      About m l .handoverComplete

theorem opcode_of_mid {m : MetaMessage} {k : LinkEvent} (h : m.mid = k.mid) :
    m.opcode = .indication := by
  rw [MetaMessage.opcode, h]
  cases k <;> decide

end LinkEvent

section Handlers

open Svc

variable (cfg : Config) {s : Node Services} {i : Ptr} (o : Ptr) {k : LinkEvent} {l : LinkTupleId}

/-- The registrations the handler selects. -/
def LinkEvent.select (k : LinkEvent) (l : LinkTupleId) (r : EventRegistration) : Bool :=
  if k.ByLink then Selects k.event l r else r.event = k.event

/-- The program ends well, and the event reaches the users whose registrations are selected. -/
def Notifies (k : LinkEvent) (select : EventRegistration → Bool) (x : Svc Bool)
    (s : Node Services) : Prop :=
  ∃ s', exec handOver x s = .ok false s' ∧
    Reaches k.mid s s' ((s.svc.subscriptions.filter select).map EventRegistration.user)

namespace Notifies

variable {select : EventRegistration → Bool} {x : Svc Bool}

/-- A handler that resets the Link SAP first. -/
theorem reset (hok : Refused s.svc (s.msgs.get i) = false)
    (hx : ∀ lbook, Notifies k select x { s with svc := { s.svc with lbook := lbook } }) :
    Notifies k select (resetIfLocal i >>= fun _ => x) s := by
  obtain ⟨lbook, hreset⟩ := exec_resetIfLocal handOver hok
  obtain ⟨s', hrun, hsent⟩ := hx lbook
  exact ⟨s', (exec_bind_ok hreset).trans hrun, hsent⟩

theorem forward (hi : i < s.msgs.next) (hmid : (s.msgs.get i).mid = k.mid) :
    Notifies k select ((do
        localSource cfg i
        let svc ← getSvc
        forwardTo i select svc.subscriptions) >>= fun _ => pure false) s := by
  obtain ⟨s', hrun, hsent⟩ := exec_forward cfg select hi hmid (opcode_of_mid hmid)
  exact ⟨s', exec_bind_ok hrun, hsent⟩

/-- The end of the handlers that rewrite the parameters. -/
theorem rewritten (hi : i < s.msgs.next) {m' : Wire.Message} {args : List Arg}
    (hwrite : (s.msgs.get i).toMessage.insert k.mid none args = .ok m') :
    Notifies k (fun r => r.event = k.event) (do
      compose i k.mid args
      forwardByEvent cfg i k.event
      return false) s := by
  let s₁ : Node Services :=
    { s with msgs := s.msgs.set i { s.msgs.get i with toMessage := m' } }
  have hmid₁ : (s₁.msgs.get i).mid = k.mid := by
    simp only [s₁, Store.get_set_self, Wire.Message.mid_of_insert hwrite]
  obtain ⟨s', hrun, hsent⟩ := forward cfg (s := s₁) hi hmid₁
  exact ⟨s', (exec_bind_ok (exec_compose hwrite)).trans hrun, hsent⟩

end Notifies

theorem handler_of_byLink (hk : k.ByLink = true) : k.handler cfg = linkEventIndication cfg k := by
  cases k <;> first | rfl | cases hk

theorem select_of_byLink (hk : k.ByLink = true) : k.select l = Selects k.event l := by
  funext r
  rw [select, if_pos hk]

theorem select_of_not_byLink (hk : k.ByLink = false) :
    k.select l = fun r => decide (r.event = k.event) := by
  funext r
  rw [select, if_neg (by rw [hk]; decide)]

/-- Whom an indication that is not refused reaches. -/
theorem exec_handler (hi : i < s.msgs.next) (hmid : (s.msgs.get i).mid = k.mid)
    (habout : k.About (s.msgs.get i) l) (hok : Refused s.svc (s.msgs.get i) = false) :
    Reaches k.mid s (exec handOver (k.handler cfg i o) s).state
      ((s.svc.subscriptions.filter (k.select l)).map user) := by
  suffices h : Notifies k (k.select l) (k.handler cfg i o) s by
    obtain ⟨s', hrun, hreach⟩ := h
    rw [hrun]
    exact hreach
  cases habout with
  | byLink hk hread =>
    rw [handler_of_byLink cfg hk, select_of_byLink hk]
    refine .reset hok fun lbook => ?_
    rw [Notifies, exec_bind, linkEventForward,
      exec_bind_ok (exec_parse (by exact hread)), ← exec_bind]
    exact Notifies.forward cfg hi hmid
  | detectedLocal hlocal hread _ hwrite =>
    obtain ⟨lbook, hreset⟩ := exec_resetIfLocal handOver hok
    rw [resetIfLocal, exec_bind_ok exec_readMsg] at hreset
    simp only [hlocal, if_true] at hreset
    rw [select_of_not_byLink rfl, Notifies, handler, linkDetectedIndication,
      exec_bind_ok exec_readMsg]
    simp only [hlocal, if_true]
    rw [exec_bind_ok hreset, exec_bind_ok (exec_parse (by exact hread))]
    exact Notifies.rewritten cfg (s := { s with svc := { s.svc with lbook := lbook } }) hi hwrite
  | detectedRemote hremote _ _ _ =>
    rw [select_of_not_byLink rfl, Notifies, handler, linkDetectedIndication,
      exec_bind_ok exec_readMsg]
    simp only [hremote, Bool.false_eq_true, if_false]
    exact Notifies.forward cfg hi hmid
  | handoverImminent _ =>
    rw [select_of_not_byLink rfl]
    exact .reset hok fun _ => .forward cfg hi hmid
  | handoverComplete hread _ hwrite =>
    rw [select_of_not_byLink rfl]
    refine .reset hok fun lbook => ?_
    rw [Notifies, exec_bind_ok exec_readMsg, exec_bind_ok (exec_parse (by exact hread))]
    exact Notifies.rewritten cfg (s := { s with svc := { s.svc with lbook := lbook } }) hi hwrite

theorem exec_handler_refused (hrefused : Refused s.svc (s.msgs.get i) = true) :
    exec handOver (k.handler cfg i o) s = .error .unknownLinkSap s := by
  have hreset := exec_resetIfLocal_refused handOver hrefused
  by_cases hk : k.ByLink = true
  · rw [handler_of_byLink cfg hk, linkEventIndication]
    exact exec_bind_error hreset
  · cases k with
    | handoverImminent | handoverComplete => exact exec_bind_error hreset
    | detected =>
      have hlocal : (s.msgs.get i).isLocal = true := by
        rw [Refused, Bool.and_eq_true] at hrefused
        exact hrefused.1
      rw [resetIfLocal, exec_bind_ok exec_readMsg] at hreset
      simp only [hlocal, if_true] at hreset
      change exec handOver (linkDetectedIndication cfg i o) s = _
      rw [linkDetectedIndication, exec_bind_ok exec_readMsg]
      simp only [hlocal, if_true]
      exact exec_bind_error hreset
    | _ => exact absurd rfl hk

end Handlers

/-! ## Exactly once -/

/-- How often the user gets an indication with this identifier between `s` and `s'`. -/
def Node.deliveries (s s' : Node Services) (mid : UInt16) (user : Bytes) : Nat :=
  (s.transmittedSince s').countP fun m => m.mid = mid && m.destination = user

theorem Reaches.deliveries {s s' : Node Services} {mid : UInt16} {users : List Bytes}
    (h : Reaches mid s s' users) (user : Bytes) : s.deliveries s' mid user = users.count user := by
  have hcount := congrArg (count (mid, user)) h
  rw [count_map_of_injective _ _ (Prod.mk_right_injective mid)] at hcount
  rw [← hcount, Node.deliveries, count, countP_map]
  refine countP_congr fun m _ => ?_
  simp

/-- The deliveries of a handler that looks at the event alone are too many by those on other
links. -/
theorem count_by_event (l : List EventRegistration) (event : Fin 32) (link : LinkTupleId)
    (user : Bytes) :
    (l.filter fun r => r.event = event).countP (fun r => r.user = user) =
      (l.filter (Selects event link)).countP (fun r => r.user = user) +
      (l.filter fun r => r.event = event && !r.link.Same link).countP (fun r => r.user = user) := by
  rw [countP_eq_countP_filter_add _ _ fun r => r.link.Same link, filter_filter, filter_filter]
  congr 2
  all_goals exact filter_congr fun r _ => Bool.and_comm _ _

/-- The selection of the handler agrees with the one by event and link. -/
theorem select_exact_iff (k : LinkEvent) (link : LinkTupleId) (l : List EventRegistration) :
    (∀ user, (l.filter (k.select link)).countP (fun r => r.user = user) =
      (l.filter (Selects k.event link)).countP (fun r => r.user = user)) ↔
    k.ByLink = true ∨ ∀ r ∈ l, r.event = k.event → r.link.Same link := by
  by_cases hk : k.ByLink = true
  · simp only [select_of_byLink hk, hk, true_or, implies_true]
  · simp only [select_of_not_byLink (Bool.eq_false_of_not_eq_true hk), hk, Bool.false_eq_true,
      false_or, count_by_event l k.event link, Nat.add_eq_left, countP_eq_zero,
      mem_filter, Bool.and_eq_true, decide_eq_true_eq, Bool.not_eq_true']
    constructor
    · intro h r hr hevent
      by_contra hlink
      exact h r.user r ⟨hr, hevent, Bool.eq_false_of_not_eq_true hlink⟩ rfl
    · rintro h - r ⟨hr, hevent, hlink⟩
      rw [h r hr hevent] at hlink
      cases hlink

/-- When the delivery is as it should be: the indication is not refused while somebody waits for it,
and no registration of the event is on another link, unless the handler looks at the link. -/
def LinkEvent.Deliverable (k : LinkEvent) (svc : Services) (m : MetaMessage)
    (l : LinkTupleId) : Prop :=
  if Refused svc m then ∀ r ∈ svc.subscriptions, ¬Selects k.event l r
  else k.ByLink ∨ ∀ r ∈ svc.subscriptions, r.event = k.event → r.link.Same l

/-- An indication about a link is transmitted once to every user subscribed to the event on that
link and to nobody else, exactly if it is deliverable. -/
theorem indication_exactly_once_iff (cfg : Config) (ops : List SubscriptionOp) (k : LinkEvent)
    (s : Node Services) (i o : Ptr) (l : LinkTupleId) (hsubs : s.svc.subscriptions = history ops)
    (hi : i < s.msgs.next) (hmid : (s.msgs.get i).mid = k.mid) (habout : k.About (s.msgs.get i) l) :
    (∀ user, s.deliveries (Svc.exec handOver (k.handler cfg i o) s).state k.mid user =
      if Subscribed (history ops) user k.event l then 1 else 0) ↔
    k.Deliverable s.svc (s.msgs.get i) l := by
  have hselected := fun user => (unduplicated_history ops).count_selected k.event l user
  rw [← hsubs] at hselected ⊢
  rw [LinkEvent.Deliverable]
  split_ifs with hrefused
  · have hnone : s.transmittedSince (Svc.exec handOver (k.handler cfg i o) s).state = [] := by
      rw [exec_handler_refused cfg o hrefused]
      simp [Node.transmittedSince]
    simp only [Node.deliveries, hnone, countP_nil, ← hselected, eq_comm (a := 0),
      countP_eq_zero, mem_filter, decide_eq_true_eq]
    exact ⟨fun h r hr hsel => h r.user r ⟨hr, hsel⟩ rfl, fun h _ r hr => absurd hr.2 (h r hr.1)⟩
  · have hreach := exec_handler cfg o hi hmid habout (Bool.eq_false_of_not_eq_true hrefused)
    have hdeliveries :
      ∀ user, s.deliveries (Svc.exec handOver (k.handler cfg i o) s).state k.mid user =
        (s.svc.subscriptions.filter (k.select l)).countP (fun r => r.user = user) := by
      intro user
      rw [hreach.deliveries, count, countP_map]
      exact countP_congr fun r _ => by simp
    simp only [hdeliveries, ← hselected]
    exact select_exact_iff k l s.svc.subscriptions

/-! ## Two links -/

/-- A link with an address of one byte. -/
def sampleLink (b : UInt8) : LinkTupleId :=
  { type := (19 : BitVec 8), addr := .inl ((6 : BitVec 16), [b], ()) }

/-- An event list with one event. -/
def sampleEvents (k : LinkEvent) : Bitmap 4 := (Bitmap.empty 4).set k.event

/-- An indication of a peer about the link `sampleLink b`. -/
def sampleIndication (k : LinkEvent) (b : UInt8) : MetaMessage :=
  { mid := k.mid, payload := [13, 7, 19, 0, 0, 6, 1, b, 0] }

/-- A node with these subscriptions and the indication as message `1`. -/
def sampleNode (ops : List SubscriptionOp) (k : LinkEvent) (b : UInt8) : Node Services :=
  { Node.initial { subscriptions := history ops } 0 with
    msgs := (Store.empty {}).push (sampleIndication k b) }

theorem sampleIndication_read (k : LinkEvent) :
    linkIdentifier ⟨(sampleIndication k 1).payload, 0⟩ = .ok (sampleLink 1)
      ⟨(sampleIndication k 1).payload, 9⟩ := rfl

/-- A user subscribed to link up on one link gets an indication about it. -/
theorem indication_exactly_once_up :
    let ops := [SubscriptionOp.subscribe [65] (sampleLink 1) (sampleEvents .up)]
    let s := sampleNode ops .up 1
    (∀ user, s.deliveries
        (Svc.exec handOver (LinkEvent.up.handler ⟨[77], 0, [], false⟩ 1 0) s).state
        LinkEvent.up.mid user =
      if Subscribed (history ops) user LinkEvent.up.event (sampleLink 1) then 1 else 0) ∧
    Subscribed (history ops) [65] LinkEvent.up.event (sampleLink 1) := by
  intro ops s
  refine ⟨(indication_exactly_once_iff ⟨[77], 0, [], false⟩ ops .up s 1 0 (sampleLink 1) rfl
    (by decide) rfl (.byLink rfl (sampleIndication_read .up))).mpr (.inl rfl), by decide⟩

/-- A user subscribed to an imminent handover on two links gets an indication about one of them
twice. -/
theorem handoverImminent_not_once :
    let ops := [SubscriptionOp.subscribe [65] (sampleLink 1) (sampleEvents .handoverImminent),
      SubscriptionOp.subscribe [65] (sampleLink 2) (sampleEvents .handoverImminent)]
    let s := sampleNode ops .handoverImminent 1
    LinkEvent.handoverImminent.About (s.msgs.get 1) (sampleLink 1) ∧
    s.deliveries
        (Svc.exec handOver (LinkEvent.handoverImminent.handler ⟨[77], 0, [], false⟩ 1 0) s).state
        LinkEvent.handoverImminent.mid [65] = 2 :=
  ⟨.handoverImminent (sampleIndication_read _), by decide +kernel⟩

end Odtone.Mihf
