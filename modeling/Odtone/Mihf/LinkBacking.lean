import Odtone.Mihf.Sac

/-! # Subscriptions at a Link SAP

The event service together with a Link SAP that handles `event_subscribe` and `event_unsubscribe` as
`sap_80211` does, connected by two channels that keep the order of messages. Users subscribe and
unsubscribe events on the link in any interleaving.

The service records a subscription when the confirm arrives, and decides what to unsubscribe at the
Link SAP by what is recorded. A subscription whose confirm is on its way is not seen by that
decision. Where no such subscription is hit, every recorded event stays enabled.
-/

namespace Odtone.Mihf

open Wire (Bytes Ty Element Arg Decoder)
open Store MetaMessage List

/-! ## The Link SAP -/

/-- The part of `sap_80211` that keeps event subscriptions. -/
structure LinkSap where
  id : Bytes
  mihfid : Bytes
  capabilities : Bitmap 4
  subscribed : Bitmap 4

namespace LinkSap

/-- The confirm for `tid` with a list of events, as `link::async_send` sends it. -/
def confirm (sap : LinkSap) (aid tid : UInt16) (events : Bitmap 4) : List MetaMessage :=
  match Wire.Message.insert { tid := tid, source := sap.id, destination := sap.mihfid }
    (msgId 1 .confirm aid) none [putStatus statusSuccess, Element.linkEvtList.put events] with
  | .ok m => [{ toMessage := m }]
  | .error _ => []

/-- `handle_event_subscribe` -/
def eventSubscribe (sap : LinkSap) (events : Bitmap 4) : LinkSap :=
  { sap with subscribed := sap.subscribed.merge (events.common sap.capabilities) }

/-- `handle_event_unsubscribe` -/
def eventUnsubscribe (sap : LinkSap) (events : Bitmap 4) : LinkSap :=
  { sap with subscribed := sap.subscribed.except (events.common sap.capabilities) }

/-- `default_handler` for a message of the MIHF: the new state and what is sent back. -/
def handle (sap : LinkSap) (m : MetaMessage) : LinkSap × List MetaMessage :=
  match Element.linkEvtList.get ⟨m.payload, 0⟩ with
  | .error _ _ => (sap, [])
  | .ok events _ =>
    if m.mid = msgId 1 .request 4 then
      (sap.eventSubscribe events, sap.confirm 4 m.tid (Bitmap.common events sap.capabilities))
    else if m.mid = msgId 1 .request 5 then
      (sap.eventUnsubscribe events, sap.confirm 5 m.tid (Bitmap.common events sap.capabilities))
    else (sap, [])

end LinkSap

/-! ## The system -/

/-- The request an event of the log sends to the Link SAP `id`. -/
def Event.requestTo (id : Bytes) : Event → Option MetaMessage
  | .udpSend _ m => if m.opcode = .request ∧ m.destination = id then some m else none
  | _ => none

/-- The requests sent to the Link SAP `id` so far. -/
def Node.requestsTo (s : Node Services) (id : Bytes) : List MetaMessage :=
  s.log.filterMap (Event.requestTo id)

/-- The MIHF, the Link SAP and the messages between them, the oldest first. -/
structure LinkSystem where
  node : Node Services
  sap : LinkSap
  toSap : List MetaMessage := []
  toMihf : List MetaMessage := []

/-- What can happen next. -/
inductive LinkMove where
  /-- a message of a user reaches the MIHF -/
  | user (m : MetaMessage)
  /-- the timer of the event service set for a transaction expires -/
  | timer (tid : UInt16)
  /-- the Link SAP handles the oldest request -/
  | request
  /-- the MIHF handles the oldest confirm -/
  | confirm

namespace LinkSystem

variable (cfg : Config)

/-- Let the MIHF run a service; what it sends to the Link SAP enters the channel. -/
def onNode (x : Svc Unit) : EStateM Fault LinkSystem Unit := fun w =>
  let next (s : Node Services) : LinkSystem :=
    { w with
      node := s
      toSap := w.toSap ++ (s.requestsTo w.sap.id).drop (w.node.requestsTo w.sap.id).length }
  match Svc.exec handOver x w.node with
  | .ok _ s => .ok () (next s)
  | .error e s => .error e (next s)

/-- One move. -/
def step : LinkMove → EStateM Fault LinkSystem Unit
  | .user m => onNode (Svc.recvLocal cfg m)
  | .timer tid => onNode (Svc.eventTimerExpires cfg tid)
  | .request => fun w =>
    match w.toSap with
    | [] => .ok () w
    | m :: ms =>
      let r := w.sap.handle m
      .ok () { w with sap := r.1, toSap := ms, toMihf := w.toMihf ++ r.2 }
  | .confirm => fun w =>
    match w.toMihf with
    | [] => .ok () w
    | m :: ms => onNode (Svc.recvLocal cfg m) { w with toMihf := ms }

end LinkSystem

/-! ## What the messages carry -/

theorem Bitmap4.cases (b : Bitmap 4) : ∃ w x y z, b = ⟨[w, x, y, z], rfl⟩ := by
  obtain ⟨l, hl⟩ := b
  match l, hl with
  | [w, x, y, z], _ => exact ⟨w, x, y, z, rfl⟩

/-- The Link SAP reads the events that the MIHF has written. -/
theorem insert_events {m m' : Wire.Message} {mid : UInt16} {events : Bitmap 4}
    (h : m.insert mid none [Element.linkEvtList.put events] = .ok m') :
    m'.mid = mid ∧ m'.destination = m.destination ∧
      ∃ c, Element.linkEvtList.get ⟨m'.payload, 0⟩ = .ok events c := by
  obtain ⟨w, x, y, z, rfl⟩ := Bitmap4.cases events
  have hm : m' = { m with mid := mid, payload := [101, 4, z, y, x, w] } := (Except.ok.inj h).symm
  subst hm
  exact ⟨rfl, rfl, _, rfl⟩

theorem insert_linkEvtList_ne_error (m : Wire.Message) (mid : UInt16) (E : Bitmap 4)
    {e : Wire.Error} : m.insert mid none [Element.linkEvtList.put E] ≠ .error e := by
  obtain ⟨w, x, y, z, rfl⟩ := Bitmap4.cases E
  exact nofun

/-- The MIHF reads the events that the Link SAP has confirmed. -/
theorem LinkSap.confirm_eq (sap : LinkSap) (aid tid : UInt16) (events : Bitmap 4) :
    ∃ m, sap.confirm aid tid events = [m] ∧ m.mid = msgId 1 .confirm aid ∧
      ∃ c, subscribeConfirmParams ⟨m.payload, 0⟩ = .ok (statusSuccess, some events) c := by
  obtain ⟨w, x, y, z, rfl⟩ := Bitmap4.cases events
  exact ⟨_, rfl, rfl, _, rfl⟩

/-! ## What the MIHF does -/

/-- The link belongs to the Link SAP `id`, and to no other. -/
def Owns (id : Bytes) (link : LinkId) (b : LinkBook) : Prop := ∀ e ∈ b, e.1 = id ↔ e.2.linkId = link

/-- Nothing happens to the subscriptions, and nothing is sent to the Link SAP. -/
@[mk_iff]
structure Quiet (id : Bytes) (link : LinkId) (s s' : Node Services) : Prop where
  subscriptions : s'.svc.subscriptions = s.svc.subscriptions
  requests : s'.requestsTo id = s.requestsTo id
  owns : Owns id link s.svc.lbook → Owns id link s'.svc.lbook

section Quiet

variable {id : Bytes} {link : LinkId} {s s' s'' : Node Services}

theorem Quiet.refl (s : Node Services) : Quiet id link s s := ⟨rfl, rfl, fun h => h⟩

variable {b : LinkBook} {p : Ptr}

section

variable (h : Owns id link b) (k : Bytes)
include h

/-- Changing the state of a Link SAP keeps its link. -/
theorem Owns.modify (f : LinkEntry → LinkEntry) (hf : ∀ e, (f e).linkId = e.linkId) :
    Owns id link (b.modify k f) := by
  intro e he
  obtain ⟨e', he', rfl⟩ := mem_map.mp he
  split_ifs
  · simpa only [hf] using h e' he'
  · exact h e' he'

theorem Owns.fail : Owns id link (b.fail k) := h.modify k _ fun _ => rfl

theorem Owns.inactive : Owns id link (b.inactive k) := h.modify k _ fun _ => rfl

theorem Owns.reset : Owns id link (b.reset k) := h.modify k _ fun _ => rfl

end

theorem opcode_ne_request {n : MetaMessage}
    (h : n.mid = msgId 1 .response 4 ∨ n.mid = msgId 1 .response 5) : n.opcode ≠ .request := by
  have hop : n.opcode = .response := by
    rcases h with h | h
    all_goals exact opcode_of_mid h (by decide)
  rw [hop]
  decide

/-- A message that is not a request is not sent to a Link SAP. -/
theorem requestsTo_transmitting (h : (s.msgs.get p).opcode ≠ .request) :
    (s.transmitting p).requestsTo id = s.requestsTo id :=
  Node.filterMap_transmitting (fun _ _ hm => if_neg fun hreq => hm hreq.1) (fun _ _ => rfl) h

variable {m : MetaMessage}

theorem requestsTo_udpSend (id : Bytes) (hlog : s'.log = s.log ++ [.udpSend p m])
    (hop : m.opcode = .request) :
    s'.requestsTo id = s.requestsTo id ++ if m.destination = id then [m] else [] := by
  simp only [Node.requestsTo, hlog, filterMap_append, append_cancel_left_eq]
  by_cases h : m.destination = id <;> simp [Event.requestTo, hop, h]

end Quiet

/-! ### Subscribing -/

/-- What a subscribe request of a user can lead to: nothing, a registration of events that are
registered already, or a request for the Link SAP. -/
def SubscribeEffect (id : Bytes) (link : LinkId) (s s' : Node Services) : Prop :=
  Quiet id link s s' ∨
  (∃ user l, s'.svc.subscriptions =
      subscribe s.svc.subscriptions user l (subscribedEvents s.svc.subscriptions l) ∧
    s'.requestsTo id = s.requestsTo id ∧ s'.svc.lbook = s.svc.lbook) ∨
  (∃ m events c, s'.svc.subscriptions = s.svc.subscriptions ∧
    s'.requestsTo id = s.requestsTo id ++ [m] ∧ m.mid = msgId 1 .request 4 ∧
    Element.linkEvtList.get ⟨m.payload, 0⟩ = .ok events c ∧
    (Owns id link s.svc.lbook → Owns id link s'.svc.lbook))

section Subscribe

open Svc

variable {id : Bytes} {link : LinkId} {s : Node Services} {cfg : Config} {i o : Ptr}
  {E : Fault → Node Services → Prop}

/-- Preparing a response changes one message only. -/
theorem post_respond {args : List Arg} {mid : UInt16} {b : Bool} {Q : Bool → Node Services → Prop}
    (hQ : ∀ msgs : Store MetaMessage, msgs.next = s.msgs.next → (msgs.get o).mid = mid →
      (msgs.get o).destination = m.source → Wire.putArgs args = .ok (msgs.get o).payload →
      Q b { s with msgs := msgs })
    (hE : ∀ e, Wire.putArgs args = .error e → E (.wire e) s) :
    Post handOver (do
        compose o mid args
        respondTo cfg o m
        return b) s Q E := by
  simp only [post_bind, post_compose, respondTo, post_modifyMsg, post_pure]
  refine ⟨fun m' hm' => ?_, fun e he => hE e (Wire.Message.insert_eq_error he)⟩
  obtain ⟨payload, hput, rfl⟩ := Wire.Message.insert_eq_ok hm'
  refine hQ _ rfl ?_ ?_ ?_
  · simp only [get_update_self, get_set_self]
  · simp only [get_update_self]
  · simpa only [get_update_self, get_set_self] using hput

theorem post_localEventSubscribeRequest (ho : o < s.msgs.next) :
    Post handOver (localEventSubscribeRequest cfg i o) s
      (fun r s' => SubscribeEffect id link s s' ∧
        (r = true → o < s'.msgs.next ∧ (s'.msgs.get o).mid = msgId 1 .response 4))
      (fun _ s' => SubscribeEffect id link s s') := by
  simp only [localEventSubscribeRequest, post_bind, post_parse]
  refine ⟨fun arg c _ => ?_, fun e c _ => .inl (.refl s)⟩
  simp only [post_readMsg, post_searchInterface, post_getSvc, post_ite]
  refine ⟨fun _ => ?_, fun hlink => ⟨fun hevents => ?_, fun _ => ?_⟩⟩
  · exact post_respond
      (fun msgs hnext hmid _ _ => ⟨.inl ⟨rfl, rfl, fun h => h⟩, fun _ => ⟨hnext ▸ ho, hmid⟩⟩)
      fun _ _ => .inl (.refl s)
  · rw [post_bind, Svc.subscribe, post_bind, post_modifySvc, post_pure, if_pos rfl, hevents]
    exact post_respond
      (fun msgs hnext hmid _ _ => ⟨.inr (.inl ⟨_, _, rfl, rfl, rfl⟩), fun _ => ⟨hnext ▸ ho, hmid⟩⟩)
      fun _ _ => .inr (.inl ⟨_, _, rfl, rfl, rfl⟩)
  · rw [post_bind, post_compose]
    refine ⟨fun m' hm' => ?_, fun e _ => .inl (.refl s)⟩
    obtain ⟨hmid, -, c', hread⟩ := insert_events hm'
    simp only [post_bind, post_modifyMsg, post_unlessInactive]
    refine ⟨fun e he => ?_, fun _ => .inl ⟨rfl, rfl, fun h => h⟩⟩
    split_ifs with hfail
    · exact ⟨.inl ⟨rfl, rfl, fun h => (h.fail _).inactive _⟩, fun h => by cases h⟩
    · -- the request goes to the Link SAP of the link, which may be another one
      refine post_bind.mpr (post_forwardRequest (k := s.svc.lbook.searchInterface arg.1.toLinkId) ho
        ?_ ?_ ?_ fun s' hsvc _ _ _ _ hlog => ?_)
      · rw [get_update_self, get_set_self]
        exact opcode_of_mid hmid (by decide)
      · rw [get_update_self]
      · simp [LinkBook.fail, he]
      · rw [get_update_self, get_set_self] at hlog
        refine ⟨?_, fun h => by cases h⟩
        have howns : Owns id link s.svc.lbook → Owns id link s'.svc.lbook := by
          rw [hsvc]
          exact fun h => h.fail _
        have hsubs : s'.svc.subscriptions = s.svc.subscriptions := by rw [hsvc]
        have hsent := requestsTo_udpSend id hlog (opcode_of_mid hmid (by decide))
        by_cases hid : s.svc.lbook.searchInterface arg.1.toLinkId = id
        · rw [if_pos hid] at hsent
          exact .inr (.inr ⟨_, _, c', hsubs, hsent, hmid, hread, howns⟩)
        · rw [if_neg hid, append_nil] at hsent
          exact .inl ⟨hsubs, hsent, howns⟩

end Subscribe

/-! ### Unsubscribing -/

/-- What the unsubscribe request `m` of a user can lead to: nothing, or the removal of the user's
registrations and possibly a request for the Link SAP to disable what nobody else has registered. -/
def UnsubscribeEffect (id : Bytes) (link : LinkId) (m : MetaMessage)
    (s s' : Node Services) : Prop :=
  Quiet id link s s' ∨
  ∃ arg c, subscribeParams ⟨m.payload, 0⟩ = .ok arg c ∧
    s'.svc.subscriptions = unsubscribe s.svc.subscriptions m.source arg.1 arg.2 ∧
    (Owns id link s.svc.lbook → Owns id link s'.svc.lbook) ∧
    (s'.requestsTo id = s.requestsTo id ∨ s.svc.lbook.searchInterface arg.1.toLinkId = id ∧
      ∃ n c', s'.requestsTo id = s.requestsTo id ++ [n] ∧ n.mid = msgId 1 .request 5 ∧
        Element.linkEvtList.get ⟨n.payload, 0⟩ =
          .ok (unusedEvents s'.svc.subscriptions m.source arg.1 arg.2) c')

section Unsubscribe

open Svc

variable {id : Bytes} {link : LinkId} {s : Node Services} {cfg : Config} {i o : Ptr}
  {U : Unit → Node Services → Prop}

/-- Asking the Link SAP to disable the events that nobody else has registered: nothing to ask, no
Link SAP, one that has left too many requests unanswered, or a request. -/
theorem post_linkUnsubscribe {l : LinkTupleId} {events unused : Bitmap 4} {k : Bytes}
    (hi : i < s.msgs.next) (hk : s.svc.lbook.searchInterface l.toLinkId = k)
    (hunused : unusedEvents s.svc.subscriptions (s.msgs.get i).source l events = unused)
    (hnone : unused = .empty 4 → U () s)
    (hunknown : unused ≠ .empty 4 → s.svc.lbook.get? k = none →
      ∀ msgs : Store MetaMessage, msgs.next = s.msgs.next →
      (∀ p, p ≠ i → msgs.get p = s.msgs.get p) → E .unknownLinkSap { s with msgs := msgs })
    (hexpired : unused ≠ .empty 4 → ∀ a, s.svc.lbook.get? k = some a →
      a.fail + 1 > cfg.linkDeleteValue →
      ∀ msgs : Store MetaMessage, msgs.next = s.msgs.next →
        (∀ p, p ≠ i → msgs.get p = s.msgs.get p) →
      U () { s with
        msgs := msgs
        svc := { s.svc with
          lbook := LinkBook.inactive (s.svc.lbook.fail k) k }.updateLocalCapabilities cfg })
    (hsent : unused ≠ .empty 4 → ∀ a, s.svc.lbook.get? k = some a →
      ¬a.fail + 1 > cfg.linkDeleteValue →
      ∀ s' n c, s'.svc = { s.svc with lbook := s.svc.lbook.fail k } →
      s'.msgs.next = s.msgs.next → (∀ p, p ≠ i → s'.msgs.get p = s.msgs.get p) →
      s'.log = s.log ++ [.udpSend i n] → n.mid = msgId 1 .request 5 →
      n.destination = k → Element.linkEvtList.get ⟨n.payload, 0⟩ = .ok unused c → U () s') :
    Post handOver (linkUnsubscribe cfg i l events) s U E := by
  subst hk hunused
  simp only [linkUnsubscribe, post_bind, post_readMsg, post_getSvc, post_ite, post_pure]
  refine ⟨fun hne => ?_, fun hempty => hnone (not_not.mp hempty)⟩
  rw [post_compose]
  refine ⟨fun m' hm' => ?_, fun e he => absurd he (insert_linkEvtList_ne_error _ _ _)⟩
  obtain ⟨hmid, -, c, hread⟩ := insert_events hm'
  rw [show Bitmap.copy (range 32) _ = _ from Bitmap.copy_range _] at hread
  simp only [post_searchInterface, post_modifyMsg, post_unlessInactive]
  have hothers : ∀ (a : MetaMessage) (f : MetaMessage → MetaMessage) (p : Ptr), p ≠ i →
      ((s.msgs.set i a).update i f).get p = s.msgs.get p := fun a f p hp => by
    rw [get_update_of_ne hp, get_set_of_ne hp]
  refine ⟨fun a ha => ?_, fun hget => hunknown hne hget _ rfl (hothers _ _)⟩
  split_ifs with hfail
  · exact hexpired hne a ha hfail _ rfl (hothers _ _)
  · refine post_forwardRequest (k := s.svc.lbook.searchInterface l.toLinkId) hi ?_ ?_ ?_
      fun s' hsvc _ hnext _ hmsgs hlog => ?_
    · rw [get_update_self, get_set_self]
      exact opcode_of_mid hmid (by decide)
    · rw [get_update_self]
    · simp [LinkBook.fail, ha]
    · rw [get_update_self, get_set_self] at hlog
      exact hsent hne a ha hfail s' _ c hsvc hnext
        (fun p hp => by rw [hmsgs p hp, hothers _ _ p hp]) hlog hmid rfl hread

theorem post_localEventUnsubscribeRequest (id : Bytes) (link : LinkId) (hi : i < s.msgs.next)
    (ho : o < s.msgs.next) (hio : o ≠ i) :
    Post handOver (localEventUnsubscribeRequest cfg i o) s
      (fun _ s' => UnsubscribeEffect id link (s.msgs.get i) s s' ∧
        o < s'.msgs.next ∧ (s'.msgs.get o).mid = msgId 1 .response 5)
      (fun _ s' => UnsubscribeEffect id link (s.msgs.get i) s s') := by
  simp only [localEventUnsubscribeRequest, post_bind, post_parse]
  refine ⟨fun arg c harg => ?_, fun e c _ => .inl (.refl s)⟩
  simp only [post_readMsg, Svc.unsubscribe, post_bind, post_modifySvc, post_pure, post_compose,
    respondTo, post_modifyMsg]
  refine ⟨fun m' hm' => ?_, fun e _ => .inr ⟨arg, c, harg, rfl, fun h => h, .inl rfl⟩⟩
  obtain ⟨payload, -, rfl⟩ := Wire.Message.insert_eq_ok hm'
  -- the message of the user is not touched by preparing the response
  have hsource : ∀ (a : MetaMessage) (f : MetaMessage → MetaMessage),
      ((s.msgs.set o a).update o f).get i = s.msgs.get i := fun a f => by
    rw [get_update_of_ne hio.symm, get_set_of_ne hio.symm]
  refine post_linkUnsubscribe (by exact hi) rfl rfl (fun _ => ?_) (fun _ _ msgs _ _ => ?_)
    (fun _ a _ _ msgs hnext hget => ?_)
    fun _ a _ _ s' n c' hsvc hnext hget hlog hmid hdst hread => ?_
  · refine ⟨.inr ⟨arg, c, harg, rfl, fun h => h, .inl rfl⟩, ho, ?_⟩
    rw [get_update_self, get_set_self]
  · exact .inr ⟨arg, c, harg, rfl, fun h => h, .inl rfl⟩
  · refine ⟨.inr ⟨arg, c, harg, rfl, fun h => (h.fail _).inactive _, .inl rfl⟩, hnext ▸ ho, ?_⟩
    rw [hget o hio, get_update_self, get_set_self]
  · refine ⟨.inr ⟨arg, c, harg, by rw [hsvc], fun h => hsvc ▸ h.fail _, ?_⟩, hnext ▸ ho, ?_⟩
    · have hreq := requestsTo_udpSend id hlog (opcode_of_mid hmid (by decide))
      rw [hdst] at hreq
      by_cases hid : s.svc.lbook.searchInterface arg.1.toLinkId = id
      · rw [if_pos hid] at hreq
        refine .inr ⟨hid, n, c', hreq, hmid, ?_⟩
        rw [hread, hsource, hsvc]
      · rw [if_neg hid, append_nil] at hreq
        exact .inl hreq
    · rw [hget o hio, get_update_self, get_set_self]

end Unsubscribe

/-! ### Confirms -/

/-- What the confirm `m` of the Link SAP can lead to: nothing, or a registration of the events it
confirms. -/
def ConfirmEffect (id : Bytes) (link : LinkId) (m : MetaMessage) (s s' : Node Services) : Prop :=
  s'.requestsTo id = s.requestsTo id ∧ (Owns id link s.svc.lbook → Owns id link s'.svc.lbook) ∧
  (s'.svc.subscriptions = s.svc.subscriptions ∨
    ∃ user l events c, subscribeConfirmParams ⟨m.payload, 0⟩ = .ok (statusSuccess, some events) c ∧
      s'.svc.subscriptions = subscribe s.svc.subscriptions user l events)

section Confirm

open Svc

variable {id : Bytes} {link : LinkId} {s : Node Services} {cfg : Config} {i o : Ptr}

/-- What the handler does before it looks at the events. -/
theorem ConfirmEffect.of_quiet {s₁ s' : Node Services} (h : Quiet id link s s₁)
    (h' : ConfirmEffect id link m s₁ s') : ConfirmEffect id link m s s' := by
  obtain ⟨hreq, howns, hsubs⟩ := h'
  rw [h.subscriptions] at hsubs
  exact ⟨hreq.trans h.requests, fun ho => howns (h.owns ho), hsubs⟩

/-- The end of the handler: the response goes to the user. -/
theorem post_transmitResponse (id : Bytes) (ho : o < s.msgs.next)
    (hmid : (s.msgs.get o).mid = msgId 1 .response 4)
    (hU : ∀ s', s'.svc = s.svc → s'.requestsTo id = s.requestsTo id → U () s') :
    Post handOver (do
        modifyMsg o fun n => { n with source := cfg.mihfid }
        transmit o) s U E := by
  simp only [post_bind, post_modifyMsg]
  rw [post_transmit_handOver (by exact ho)]
  refine hU _ rfl (requestsTo_transmitting ?_)
  rw [get_update_self]
  exact opcode_ne_request (.inl hmid)

theorem post_subscribeConfirmed (id : Bytes) (link : LinkId) (i : Ptr) (ho : o < s.msgs.next) :
    Post handOver (subscribeConfirmed cfg i o m) s
      (fun _ s' => ConfirmEffect id link (s.msgs.get i) s s')
      (fun _ s' => ConfirmEffect id link (s.msgs.get i) s s') := by
  rw [subscribeConfirmed, post_bind, post_modifySvc]
  obtain ⟨s₁, hs₁⟩ : ∃ s₁, s₁ = ({ s with
    svc := { s.svc with eventTimer := s.svc.eventTimer.erase m.tid } } : Node Services) := ⟨_, rfl⟩
  rw [← hs₁]
  have ho₁ : o < s₁.msgs.next := hs₁ ▸ ho
  have hsubs : s₁.svc.subscriptions = s.svc.subscriptions := by rw [hs₁]
  have hbook : s₁.svc.lbook = s.svc.lbook := by rw [hs₁]
  have hreq₁ : s₁.requestsTo id = s.requestsTo id := by rw [hs₁]; rfl
  have hsame : ConfirmEffect id link (s.msgs.get i) s s₁ := ⟨hreq₁, fun h => hbook ▸ h, .inl hsubs⟩
  rw [post_bind, post_parse]
  refine ⟨fun arg c harg => ?_, fun _ _ _ => hsame⟩
  rw [post_bind, post_linkGet]
  refine ⟨fun entry _ => post_ite.mpr ⟨fun hst => ?_, fun _ => ?_⟩, fun _ => hsame⟩
  · rw [post_bind, post_ofOptional]
    refine ⟨fun events hev => ?_, fun _ => hsame⟩
    rw [post_bind, post_compose]
    refine ⟨fun m' hm' => ?_, fun _ _ => hsame⟩
    simp only [post_bind, post_readMsg, Svc.subscribe, post_modifySvc, post_pure]
    refine post_transmitResponse id (by exact ho₁)
      (by rw [get_set_self]; exact Wire.Message.mid_of_insert hm') fun s' hsvc hreq => ?_
    have hparams : subscribeConfirmParams ⟨(s.msgs.get i).payload, 0⟩ =
        .ok (statusSuccess, some events) c := by
      rw [← hst, ← hev, ← harg, hs₁]
    have hsubscribe : ∃ user l,
        s'.svc.subscriptions = Mihf.subscribe s.svc.subscriptions user l events := by
      rw [hsvc, hsubs, show Bitmap.copy (range 32) events = events from Bitmap.copy_range events]
      exact ⟨_, _, rfl⟩
    obtain ⟨user, l, hsub⟩ := hsubscribe
    refine ⟨hreq.trans hreq₁, fun h => ?_, .inr ⟨user, l, events, c, hparams, hsub⟩⟩
    rw [hsvc, hbook]
    exact h
  · rw [post_bind, post_compose]
    refine ⟨fun m' hm' => ?_, fun _ _ => hsame⟩
    refine post_transmitResponse id (by exact ho₁)
      (by rw [get_set_self]; exact Wire.Message.mid_of_insert hm') fun s' hsvc hreq => ?_
    refine ⟨hreq.trans hreq₁, fun h => ?_, .inl (by rw [hsvc, hsubs])⟩
    rw [hsvc, hbook]
    exact h

theorem post_eventSubscribeConfirm (id : Bytes) (link : LinkId)
    (ho : o < s.msgs.next) (hio : i ≠ o) :
    Post handOver (eventSubscribeConfirm cfg i o) s
      (fun r s' => r = false ∧ ConfirmEffect id link (s.msgs.get i) s s')
      (fun _ s' => ConfirmEffect id link (s.msgs.get i) s s') := by
  have hsame : ∀ {s'}, Quiet id link s s' → ConfirmEffect id link (s.msgs.get i) s s' :=
    fun h => ⟨h.requests, h.owns, .inl h.subscriptions⟩
  simp only [eventSubscribeConfirm, post_bind, post_readMsg, post_linkReset]
  refine ⟨fun entry _ => ?_, fun _ => hsame (.refl s)⟩
  rw [post_modifyMsg, ← post_bind, post_ifUser]
  refine ⟨fun m l _ => ?_, fun _ => ⟨rfl, hsame ⟨rfl, rfl, fun h => h.reset _⟩⟩⟩
  obtain ⟨s₁, hs₁⟩ : ∃ s₁, s₁ = ({ s with
    msgs := (s.msgs.update o fun n => { n with source := (s.msgs.get i).source }).set o m
    lpool := l
    svc := { s.svc with lbook := s.svc.lbook.reset (s.msgs.get i).source } } : Node Services) :=
      ⟨_, rfl⟩
  have hquiet : Quiet id link s s₁ := by
    rw [hs₁]
    exact ⟨rfl, rfl, fun h => h.reset _⟩
  have hmsg : s₁.msgs.get i = s.msgs.get i := by
    simp only [hs₁, get_set_of_ne hio, get_update_of_ne hio]
  rw [← hs₁, post_bind]
  refine (post_subscribeConfirmed id link i (hs₁ ▸ ho)).mono (fun _ s' h => ?_) fun _ s' h => ?_
  · exact ⟨rfl, .of_quiet hquiet (hmsg ▸ h)⟩
  · exact .of_quiet hquiet (hmsg ▸ h)

theorem post_eventUnsubscribeConfirm :
    Post handOver (eventUnsubscribeConfirm i o) s
      (fun r s' => r = false ∧ Quiet id link s s') (fun _ s' => Quiet id link s s') := by
  simp only [eventUnsubscribeConfirm, post_bind, post_readMsg, post_linkReset]
  refine ⟨fun entry _ => ?_, fun _ => .refl s⟩
  rw [← post_bind, post_ifUser]
  refine ⟨fun m l _ => ?_, fun _ => ⟨rfl, rfl, rfl, fun h => h.reset _⟩⟩
  rw [post_bind, post_parse]
  exact ⟨fun _ _ _ => ⟨rfl, rfl, rfl, fun h => h.reset _⟩, fun _ _ _ =>
    ⟨rfl, rfl, fun h => h.reset _⟩⟩

/-- When no confirm comes the user is told so, and nothing else happens. -/
theorem post_linkEventSubscribeResponseTimeout :
    Post handOver (linkEventSubscribeResponseTimeout cfg i) s
      (fun _ s' => Quiet id link s s') (fun _ s' => Quiet id link s s') := by
  simp only [linkEventSubscribeResponseTimeout, post_bind, post_readMsg,
    post_modifySvc, post_newMsg,
    post_parse]
  refine ⟨fun arg _ _ => ?_, fun _ _ _ => ⟨rfl, rfl, fun h => h⟩⟩
  simp only [post_compose]
  refine ⟨fun m' hm' => ?_, fun _ _ => ⟨rfl, rfl, fun h => h⟩⟩
  simp only [respondTo, post_modifyMsg]
  rw [post_transmit_handOver (by exact Nat.lt_succ_self _)]
  refine ⟨rfl, requestsTo_transmitting (opcode_ne_request (.inl ?_)), fun h => h⟩
  have hmid : m'.mid = msgId 1 .response 4 := Wire.Message.mid_of_insert hm'
  rw [get_update_self, get_set_self]
  exact hmid

end Confirm

/-! ### Dispatching -/

section Dispatch

open Svc

variable {id : Bytes} {link : LinkId} {s : Node Services} {cfg : Config}

/-- The states agree on what the services keep and on what was sent to the Link SAP `id`. -/
def SameLink (id : Bytes) (s s' : Node Services) : Prop :=
  s'.svc = s.svc ∧ s'.requestsTo id = s.requestsTo id

/-- A message with handler `h`: what `h` does to the Link SAP is done to it as a whole. -/
theorem post_recvLocal_sameLink (id : Bytes) {h : Handler Services}
    {E : Node Services → Node Services → Prop} (hcb : callback cfg m.mid = some h)
    (hE : ∀ {s s₁ s' s''}, SameLink id s s₁ → SameLink id s' s'' → E s₁ s' → E s s'')
    (hh : ∀ s₁ : Node Services, s.msgs.next < s₁.msgs.next → s.msgs.next + 1 < s₁.msgs.next →
      s₁.msgs.get s.msgs.next = { m with isLocal := true } →
      Post handOver (h s.msgs.next (s.msgs.next + 1)) s₁
        (fun r s' => E s₁ s' ∧ (r = true → s.msgs.next + 1 < s'.msgs.next ∧
          (s'.msgs.get (s.msgs.next + 1)).opcode ≠ .request))
        (fun _ s' => E s₁ s')) :
    Post handOver (recvLocal cfg m) s (fun _ => E s) (fun _ => E s) := by
  have hs : SameLink id s (s.receiving m) := ⟨rfl, rfl⟩
  rw [post_recvLocal hcb]
  refine (hh (s.receiving m) ?_ ?_ ?_).mono
    (fun r s' hr => ⟨fun hr' => ?_, fun _ => hE hs ⟨rfl, rfl⟩ hr.1⟩)
    fun e s' he => post_discardLocal (hE hs ⟨rfl, rfl⟩ he)
  · exact Nat.lt_add_of_pos_right (Nat.succ_pos 1)
  · exact Nat.lt_succ_self _
  · exact s.get_receiving m
  · obtain ⟨hlt, hop⟩ := hr.2 hr'
    have hlast : SameLink id s' (s'.transmitting _) := ⟨rfl, requestsTo_transmitting hop⟩
    exact (post_transmit_handOver hlt).mpr (hE hs hlast hr.1)

theorem post_recvLocal_subscribe (cfg : Config) (hmid : m.mid = msgId 1 .request 4)
    (hdst : cfg.IsDestination m) :
    Post handOver (recvLocal cfg m) s
      (fun _ => SubscribeEffect id link s) (fun _ => SubscribeEffect id link s) := by
  refine post_recvLocal_sameLink id (h := eventSubscribeRequest cfg) (by rw [hmid]; rfl)
    (fun h₁ h₂ h => ?_) fun s₁ hi ho hmsg => ?_
  · simpa only [SubscribeEffect, quiet_iff, h₁.1, h₁.2, h₂.1, h₂.2] using h
  rw [eventSubscribeRequest, post_bind, post_readMsg, hmsg, if_pos (by exact hdst)]
  refine (post_localEventSubscribeRequest ho).mono (fun r s' h => ⟨h.1, fun hr => ?_⟩)
    fun _ _ h => h
  exact ⟨(h.2 hr).1, opcode_ne_request (.inl (h.2 hr).2)⟩

theorem post_recvLocal_unsubscribe (cfg : Config) (hmid : m.mid = msgId 1 .request 5)
    (hdst : cfg.IsDestination m) :
    Post handOver (recvLocal cfg m) s
      (fun _ => UnsubscribeEffect id link m s) (fun _ => UnsubscribeEffect id link m s) := by
  refine post_recvLocal_sameLink id (h := eventUnsubscribeRequest cfg) (by rw [hmid]; rfl)
    (fun h₁ h₂ h => ?_) fun s₁ hi ho hmsg => ?_
  · simpa only [UnsubscribeEffect, quiet_iff, h₁.1, h₁.2, h₂.1, h₂.2] using h
  rw [eventUnsubscribeRequest, post_bind, post_readMsg, hmsg, if_pos (by exact hdst)]
  refine (post_localEventUnsubscribeRequest id link hi ho (Nat.succ_ne_self _)).mono
    (fun r s' h => ⟨?_, fun _ => ⟨h.2.1, opcode_ne_request (.inr h.2.2)⟩⟩) fun _ s' h => ?_
  · rw [hmsg] at h
    exact h.1
  · rwa [hmsg] at h

theorem post_recvLocal_confirm (cfg : Config) (hmid : m.mid = msgId 1 .confirm 4) :
    Post handOver (recvLocal cfg m) s
      (fun _ => ConfirmEffect id link m s) (fun _ => ConfirmEffect id link m s) := by
  refine post_recvLocal_sameLink id (by rw [hmid]; rfl) (fun h₁ h₂ h => ?_) fun s₁ hi ho hmsg => ?_
  · simpa only [ConfirmEffect, h₁.1, h₁.2, h₂.1, h₂.2] using h
  refine (post_eventSubscribeConfirm id link ho (Nat.succ_ne_self _).symm).mono
    (fun r s' h => ⟨?_, fun hr => absurd (h.1.symm.trans hr) (by decide)⟩) fun _ s' h => ?_
  · rw [hmsg] at h
    exact h.2
  · rwa [hmsg] at h

theorem post_recvLocal_unsubscribeConfirm (hmid : m.mid = msgId 1 .confirm 5) :
    Post handOver (recvLocal cfg m) s (fun _ => Quiet id link s) (fun _ => Quiet id link s) := by
  refine post_recvLocal_sameLink id (h := eventUnsubscribeConfirm) (by rw [hmid]; rfl)
    (fun h₁ h₂ h => ?_) fun s₁ hi ho hmsg => ?_
  · simpa only [quiet_iff, h₁.1, h₁.2, h₂.1, h₂.2] using h
  exact post_eventUnsubscribeConfirm.mono
    (fun r s' h => ⟨h.2, fun hr => absurd (h.1.symm.trans hr) (by decide)⟩) fun _ _ h => h

theorem post_eventTimerExpires {tid : UInt16} :
    Post handOver (eventTimerExpires cfg tid) s (fun _ => Quiet id link s)
      (fun _ => Quiet id link s) := by
  rw [eventTimerExpires, post_bind, post_getSvc]
  rcases (s.svc.eventTimer.get? tid).eq_none_or_eq_some with h | ⟨i, h⟩
  · rw [h]
    exact .refl s
  · rw [h]
    exact post_linkEventSubscribeResponseTimeout

end Dispatch

end Odtone.Mihf
