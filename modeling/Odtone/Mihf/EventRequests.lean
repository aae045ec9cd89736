import Odtone.Mihf.Backed
import Odtone.Mihf.ServiceRuns

/-! # Requests for events

What a user is answered, and what the Link SAP is asked, when the user subscribes or unsubscribes
events of a local link. The subscriptions are seen as a relation between users, links and events.
-/

namespace Odtone.Mihf

open Wire (Bytes Ty Element Arg)
open List Store MetaMessage EStateM Except

/-! ## Who is subscribed -/

/-- Somebody is subscribed to the event on the link. -/
def SubscribedByAny (subs : List EventRegistration) (l : LinkTupleId) (e : Fin 32) : Prop :=
  ∃ r ∈ subs, r.link.toLinkId = l.toLinkId ∧ r.event = e

/-- Somebody other than `user` is. -/
def SubscribedByOther (subs : List EventRegistration) (user : Bytes) (l : LinkTupleId)
    (e : Fin 32) : Prop :=
  ∃ r ∈ subs, r.user ≠ user ∧ r.link.toLinkId = l.toLinkId ∧ r.event = e

variable {l : LinkTupleId} {E : Bitmap 4}

theorem eq_subscribedEvents_iff {subs : List EventRegistration} :
    E = subscribedEvents subs l ↔ ∀ e : Fin 32, E.get e = true ↔ SubscribedByAny subs l e := by
  rw [Bitmap.eq_iff_get]
  exact forall_congr' fun e => iff_congr Iff.rfl get_subscribedEvents

/-! ## Immediate answers -/

/-- The message is a subscribe response that reports success. -/
def MetaMessage.ReportsSuccess (m : MetaMessage) : Prop :=
  m.mid = msgId 1 .response 4 ∧ ∃ args,
    Wire.putArgs (putStatus statusSuccess :: args) = .ok m.payload

/-- From `s` to `s'` a request for the events has been sent to the Link SAP `id`. -/
def EventsRequested (id : Bytes) (E : Bitmap 4) (s s' : Node Services) : Prop :=
  ∃ p n c, s'.log = s.log ++ [.udpSend p n] ∧ n.mid = msgId 1 .request 4 ∧ n.destination = id ∧
    Element.linkEvtList.get ⟨n.payload, 0⟩ = .ok E c

/-- Each of the events is subscribed by somebody on the link. -/
def Covered (subs : List EventRegistration) (l : LinkTupleId) (E : Bitmap 4) : Prop :=
  ∀ e : Fin 32, E.get e = true → SubscribedByAny subs l e

/-- The handler has answered at once, in the message `o`, if and only if the events are covered, and
has asked the Link SAP otherwise. -/
structure SubscribeHandled (s : Node Services) (o : Ptr) (l : LinkTupleId) (E : Bitmap 4)
    (r : Result Fault (Node Services) Bool) : Prop where
  answered : (∃ s', r = .ok true s' ∧ (s'.msgs.get o).ReportsSuccess) ↔
    Covered s.svc.subscriptions l E
  requested : ¬Covered s.svc.subscriptions l E →
    ∃ s', r = .ok false s' ∧ EventsRequested (s.svc.lbook.searchInterface l.toLinkId) E s s'

section

variable {s s' : Node Services} {o : Ptr}

theorem subscribeHandled_true : SubscribeHandled s o l E (.ok true s') ↔
    (s'.msgs.get o).ReportsSuccess ∧ Covered s.svc.subscriptions l E := by
  constructor
  · intro h
    have hcovered : Covered s.svc.subscriptions l E := by
      by_contra hnot
      obtain ⟨s₁, hs₁, -⟩ := h.requested hnot
      cases hs₁
    obtain ⟨s₁, hs₁, hreports⟩ := h.answered.mpr hcovered
    cases hs₁
    exact ⟨hreports, hcovered⟩
  · rintro ⟨hreports, hcovered⟩
    exact ⟨iff_of_true ⟨s', rfl, hreports⟩ hcovered, fun hnot => absurd hcovered hnot⟩

theorem subscribeHandled_false : SubscribeHandled s o l E (.ok false s') ↔
    EventsRequested (s.svc.lbook.searchInterface l.toLinkId) E s s' ∧
    ¬Covered s.svc.subscriptions l E := by
  have hanswered : ¬∃ s₁ : Node Services, (.ok false s' : Result Fault _ Bool) = .ok true s₁ ∧
      (s₁.msgs.get o).ReportsSuccess := by
    rintro ⟨s₁, hs₁, -⟩
    cases hs₁
  constructor
  · intro h
    have hnot : ¬Covered s.svc.subscriptions l E :=
      fun hcovered => hanswered (h.answered.mpr hcovered)
    obtain ⟨s₁, hs₁, hrequested⟩ := h.requested hnot
    cases hs₁
    exact ⟨hrequested, hnot⟩
  · rintro ⟨hrequested, hnot⟩
    exact ⟨iff_of_false hanswered hnot, fun _ => ⟨s', rfl, hrequested⟩⟩

theorem not_subscribeHandled_error {e : Fault} : ¬SubscribeHandled s o l E (.error e s') := by
  intro h
  by_cases hcovered : Covered s.svc.subscriptions l E
  · obtain ⟨s₁, hs₁, -⟩ := h.answered.mpr hcovered
    cases hs₁
  · obtain ⟨s₁, hs₁, -⟩ := h.requested hcovered
    cases hs₁

/-- Nothing is requested where nothing is sent. -/
theorem not_eventsRequested {id : Bytes} (h : s'.log = s.log) : ¬EventsRequested id E s s' := by
  rintro ⟨p, n, c, hlog, -⟩
  have hlength := congrArg length (h.symm.trans hlog)
  simp at hlength

end

theorem Svc.Post.result {α : Type} {out : Ptr → M Services Unit} {x : Svc α} {s : Node Services}
    {P : Result Fault (Node Services) α → Prop}
    (h : Svc.Post out x s (fun a s' => P (.ok a s')) fun e s' => P (.error e s')) :
    P (Svc.exec out x s) := by
  rw [Svc.post_iff] at h
  cases hx : Svc.exec out x s with
  | ok | error => rwa [hx] at h

variable {m : MetaMessage}

theorem not_reportsSuccess {args : List Arg}
    (h : Wire.putArgs (putStatus statusFailure :: args) = .ok m.payload) : ¬m.ReportsSuccess := by
  rintro ⟨-, args', h'⟩
  obtain ⟨enc, henc, hrest⟩ := bind_eq_ok.mp h
  obtain ⟨enc', henc', hrest'⟩ := bind_eq_ok.mp h'
  obtain ⟨rest, -, hpayload⟩ := bind_eq_ok.mp hrest
  obtain ⟨rest', -, hpayload'⟩ := bind_eq_ok.mp hrest'
  have hfailure : enc = [3, 1, 1] := (ok.inj henc).symm
  have hsuccess : enc' = [3, 1, 0] := (ok.inj henc').symm
  have heq : enc ++ rest = enc' ++ rest' := (ok.inj hpayload).trans (ok.inj hpayload').symm
  rw [hfailure, hsuccess] at heq
  simp at heq

open Svc in
/-- A subscription is handled as it should exactly if a Link SAP with a name is found for the link,
and either its events are all that anybody is subscribed to, or one of them is new and the Link SAP
has not left too many requests unanswered. -/
theorem subscribe_handled_iff (cfg : Config) {s : Node Services} {i o : Ptr} {l : LinkTupleId}
    {E : Bitmap 4} {c : Cursor UInt8} (ho : o < s.msgs.next)
    (hparams : subscribeParams ⟨(s.msgs.get i).payload, 0⟩ = .ok (l, E) c) :
    SubscribeHandled s o l E (exec handOver (localEventSubscribeRequest cfg i o) s) ↔
    s.svc.lbook.searchInterface l.toLinkId ≠ [] ∧
      ((∀ e : Fin 32, E.get e = true ↔ SubscribedByAny s.svc.subscriptions l e) ∧
          (∃ p,
            Wire.putArgs [putStatus statusSuccess, putLinkIdentifier l, putEventList E] = .ok p) ∨
        ¬Covered s.svc.subscriptions l E ∧
          ∃ a, s.svc.lbook.get? (s.svc.lbook.searchInterface l.toLinkId) = some a ∧
            ¬a.fail + 1 > cfg.linkDeleteValue) := by
  refine Post.result (P := fun r => SubscribeHandled s o l E r ↔ _) ?_
  rw [localEventSubscribeRequest, post_bind, post_parse, hparams]
  refine ⟨fun a c' ha => ?_, fun _ _ h => by cases h⟩
  obtain ⟨rfl, -⟩ := Result.ok.inj ha
  rw [post_bind, post_readMsg, post_bind, post_searchInterface, post_bind, post_getSvc]
  simp only [post_ite]
  refine ⟨fun hid => ?_, fun hid => ⟨fun hevents => ?_, fun hevents => ?_⟩⟩
  · have hcond {C : Prop} : ¬(s.svc.lbook.searchInterface l.toLinkId ≠ [] ∧ C) := fun h => h.1 hid
    refine post_respond (fun msgs _ _ _ hput => iff_of_false (fun h => ?_) hcond) fun e _ =>
      iff_of_false not_subscribeHandled_error hcond
    exact not_reportsSuccess hput (subscribeHandled_true.mp h).1
  · have hcovered : Covered s.svc.subscriptions l E :=
      fun e => (eq_subscribedEvents_iff.mp hevents e).mp
    rw [post_bind, Svc.subscribe, post_bind, post_modifySvc, post_pure, if_pos rfl]
    refine post_respond (fun msgs _ hmid _ hput => ?_) fun e hput =>
      iff_of_false not_subscribeHandled_error ?_
    · rw [subscribeHandled_true]
      refine iff_of_true ⟨⟨hmid, _, hput⟩, hcovered⟩ ?_
      exact ⟨hid, .inl ⟨eq_subscribedEvents_iff.mp hevents, _, hput⟩⟩
    · rintro ⟨-, ⟨-, p, hp⟩ | ⟨hnot, -⟩⟩
      · rw [hput] at hp
        cases hp
      · exact hnot hcovered
  · have hcond : ∀ P Q : Prop, (s.svc.lbook.searchInterface l.toLinkId ≠ [] ∧
        ((∀ e : Fin 32, E.get e = true ↔ SubscribedByAny s.svc.subscriptions l e) ∧ P ∨ Q)) ↔
          Q := fun P Q =>
      ⟨fun h => h.2.resolve_left fun h => hevents (eq_subscribedEvents_iff.mpr h.1),
        fun h => ⟨hid, .inr h⟩⟩
    rw [post_bind, post_compose]
    refine ⟨fun m' hm' => ?_, fun e he => absurd he (insert_linkEvtList_ne_error _ _ _)⟩
    obtain ⟨hmid, -, c', hread⟩ := insert_events hm'
    rw [Bitmap.copy_range] at hread
    simp only [post_bind, post_modifyMsg, post_unlessInactive, hcond]
    refine ⟨fun a ha => ?_, fun hnone => ?_⟩
    · split_ifs with hfail
      · rw [post_pure, subscribeHandled_false]
        refine iff_of_false (fun h => not_eventsRequested ?_ h.1) ?_
        · rfl
        · rintro ⟨-, a', ha', hle⟩
          cases ha.symm.trans ha'
          exact hle hfail
      · refine post_bind.mpr
          (post_forwardRequest (k := s.svc.lbook.searchInterface l.toLinkId) ho ?_ ?_ ?_
            fun s' hsvc _ _ _ _ hlog => ?_)
        · rw [get_update_self, get_set_self]
          exact opcode_of_mid hmid (by decide)
        · rw [get_update_self]
        · simp [LinkBook.fail, ha]
        · rw [get_update_self, get_set_self] at hlog
          simp only [post_modifySvc, post_pure, subscribeHandled_false]
          have hrequested : ∀ svc : Services,
              EventsRequested (s.svc.lbook.searchInterface l.toLinkId) E s
                { s' with svc := svc } := fun _ => ⟨o, _, c', hlog, hmid, rfl, hread⟩
          exact ⟨fun h => ⟨h.2, a, ha, hfail⟩, fun h => ⟨hrequested _, h.1⟩⟩
    · refine iff_of_false not_subscribeHandled_error ?_
      rintro ⟨-, a, ha, -⟩
      cases hnone.symm.trans ha

namespace EventRequests

open LinkSystem (sampleLinkId sampleRequest)

/-- The link of the Link SAP `83`. -/
def link : LinkTupleId := { toLinkId := sampleLinkId }

/-- The MIHF of this Link SAP, with the subscriptions `subs`. -/
def mihf (subs : List EventRegistration) : Node Services :=
  .initial { lbook := [([83],
    { ip := [], port := 0, linkId := sampleLinkId })], subscriptions := subs } 0

/-- The same when it handles a request for the events in `mask` of the user `65`. -/
def handling (aid : UInt16) (subs : List EventRegistration) (mask : UInt8) : Node Services :=
  (mihf subs).receiving (sampleRequest aid 65 1 mask)

/-- Somebody is subscribed to link up and link down. A subscription to link up alone is passed
on. -/
theorem subscribe_covered_forwarded :
    ¬SubscribeHandled (handling 4 [⟨[66], link, 1⟩, ⟨[66], link, 2⟩] 2) 2 link ⟨[2, 0, 0, 0], rfl⟩
      (Svc.exec handOver (Svc.localEventSubscribeRequest sampleConfig 1 2)
        (handling 4 [⟨[66], link, 1⟩, ⟨[66], link, 2⟩] 2)) := by
  intro h
  have hcovered : Covered [⟨[66], link, 1⟩, ⟨[66], link, 2⟩] link ⟨[2, 0, 0, 0], rfl⟩ := by
    unfold Covered SubscribedByAny
    decide
  obtain ⟨s', hs', -⟩ := h.answered.mpr hcovered
  let value : Result Fault (Node Services) Bool → Option Bool
    | .ok b _ => some b
    | .error _ _ => none
  have hvalue : value (Svc.exec handOver (Svc.localEventSubscribeRequest sampleConfig 1 2)
      (handling 4 [⟨[66], link, 1⟩, ⟨[66], link, 2⟩] 2)) = some false := by decide +kernel
  rw [hs'] at hvalue
  cases hvalue

/-- A subscription to an event nobody is subscribed to is passed on, and one to all the events that
somebody is subscribed to is answered at once. -/
theorem subscribe_new_handled :
    let Handled (subs : List EventRegistration) :=
      SubscribeHandled (handling 4 subs 2) 2 link ⟨[2, 0, 0, 0], rfl⟩
        (Svc.exec handOver (Svc.localEventSubscribeRequest sampleConfig 1 2) (handling 4 subs 2))
    Handled [] ∧ Handled [⟨[66], link, 1⟩] := by
  have hparams : subscribeParams ⟨(sampleRequest 4 65 1 2).payload, 0⟩ =
      .ok (link, ⟨[2, 0, 0, 0], rfl⟩) ⟨(sampleRequest 4 65 1 2).payload, 15⟩ := rfl
  have hnew : ¬Covered [] link ⟨[2, 0, 0, 0], rfl⟩ := by
    unfold Covered SubscribedByAny
    decide
  have hall (e : Fin 32) : Bitmap.get (n := 4) ⟨[2, 0, 0, 0], rfl⟩ e = true ↔
      SubscribedByAny [⟨[66], link, 1⟩] link e := by
    unfold SubscribedByAny
    decide +revert
  exact ⟨(subscribe_handled_iff sampleConfig (s := handling 4 [] 2) (i := 1) (o := 2) (by decide)
      hparams).mpr ⟨by decide +kernel, .inr ⟨hnew, _, rfl, by decide⟩⟩,
    (subscribe_handled_iff sampleConfig (s := handling 4 [⟨[66], link, 1⟩] 2) (i := 1) (o := 2)
      (by decide) hparams).mpr ⟨by decide +kernel, .inl ⟨hall, _, rfl⟩⟩⟩

end EventRequests

/-! ## Unsubscribing -/

section

variable {subs : List EventRegistration} {user : Bytes}

/-- After the removal the other users are still subscribed to the same events. -/
theorem get_unusedEvents_unsubscribe {e : Fin 32} :
    (unusedEvents (unsubscribe subs user l E) user l E).get e = true ↔
      E.get e = true ∧ ¬SubscribedByOther subs user l e := by
  rw [get_unusedEvents]
  refine and_congr_right fun _ => ⟨fun h => ?_, fun h r hr hlink hevent => ?_⟩
  · rintro ⟨r, hr, huser, hlink, hevent⟩
    exact huser (h r (mem_unsubscribe.mpr ⟨hr, fun hown => huser hown.2.1⟩) hlink hevent)
  · by_contra huser
    exact h ⟨r, (mem_unsubscribe.mp hr).1, huser, hlink, hevent⟩

theorem unusedEvents_unsubscribe_eq_empty :
    unusedEvents (unsubscribe subs user l E) user l E = .empty 4 ↔
      ∀ e : Fin 32, E.get e = true → SubscribedByOther subs user l e := by
  rw [Bitmap.eq_iff_get]
  refine forall_congr' fun e => ?_
  have hget : (unusedEvents (unsubscribe subs user l E) user l E).get e = true ↔ _ :=
    get_unusedEvents_unsubscribe
  rw [hget]
  simp

/-- What is sent to the Link SAP of the link when `user` unsubscribes the events: nothing if others
are subscribed to all of them, nothing if the Link SAP has left too many requests unanswered, or a
request for those that no other is subscribed to. -/
inductive Disables (cfg : Config) (svc : Services) (user : Bytes) (l : LinkTupleId) (E : Bitmap 4) :
    List Event → Prop
  | none (h : ∀ e : Fin 32, E.get e = true → SubscribedByOther svc.subscriptions user l e) :
      Disables cfg svc user l E []
  | expired {a : LinkEntry} (ha : svc.lbook.get? (svc.lbook.searchInterface l.toLinkId) = some a)
      (hfail : a.fail + 1 > cfg.linkDeleteValue) : Disables cfg svc user l E []
  | sent {a : LinkEntry} {p : Ptr} {n : MetaMessage} {B : Bitmap 4} {c : Cursor UInt8}
      (h : ¬∀ e : Fin 32, E.get e = true → SubscribedByOther svc.subscriptions user l e)
      (ha : svc.lbook.get? (svc.lbook.searchInterface l.toLinkId) = some a)
      (hfail : ¬a.fail + 1 > cfg.linkDeleteValue) (hmid : n.mid = msgId 1 .request 5)
      (hdst : n.destination = svc.lbook.searchInterface l.toLinkId)
      (hread : Element.linkEvtList.get ⟨n.payload, 0⟩ = .ok B c)
      (hB : ∀ e : Fin 32, B.get e = true ↔
        E.get e = true ∧ ¬SubscribedByOther svc.subscriptions user l e) :
      Disables cfg svc user l E [.udpSend p n]

end

/-- The parameters of the response to an unsubscription. -/
def unsubscribeResponseArgs (l : LinkTupleId) (E : Bitmap 4) : List Arg :=
  [putStatus statusSuccess, putLinkIdentifier l, putEventList E]

section

open Svc

variable {cfg : Config} {s : Node Services} {i o : Ptr} {c : Cursor UInt8}

/-- The unsubscription `m`: it is done, its response cannot be encoded, or there is no Link SAP to
ask. -/
theorem post_unsubscribeRequest (hi : s.msgs.get i = m) (hlt : i < s.msgs.next)
    (ho : o < s.msgs.next) (hio : o ≠ i) (hparams : subscribeParams ⟨m.payload, 0⟩ = .ok (l, E) c)
    {Q : Bool → Node Services → Prop} {F : Fault → Node Services → Prop}
    (hdone : ∀ s' sent, (∃ p, Wire.putArgs (unsubscribeResponseArgs l E) = .ok p) →
      Disables cfg s.svc m.source l E sent →
      s'.svc.subscriptions = unsubscribe s.svc.subscriptions m.source l E → s'.log = s.log ++ sent →
      o < s'.msgs.next → (s'.msgs.get o).mid = msgId 1 .response 5 →
      (s'.msgs.get o).destination = m.source → Q true s')
    (hwire : ∀ we s', Wire.putArgs (unsubscribeResponseArgs l E) = .error we →
      s'.svc.subscriptions = unsubscribe s.svc.subscriptions m.source l E → s'.log = s.log →
      F (.wire we) s')
    (hunknown : ∀ s', (∃ p, Wire.putArgs (unsubscribeResponseArgs l E) = .ok p) →
      (¬∀ e : Fin 32, E.get e = true → SubscribedByOther s.svc.subscriptions m.source l e) →
      s.svc.lbook.get? (s.svc.lbook.searchInterface l.toLinkId) = none →
      s'.svc.subscriptions = unsubscribe s.svc.subscriptions m.source l E → s'.log = s.log →
      F .unknownLinkSap s') : Post handOver (localEventUnsubscribeRequest cfg i o) s Q F := by
  rw [localEventUnsubscribeRequest, post_bind, post_parse, hi, hparams]
  refine ⟨fun a c' ha => ?_, fun _ _ h => by cases h⟩
  obtain ⟨rfl, -⟩ := Result.ok.inj ha
  simp only [post_bind, post_readMsg, hi, Svc.unsubscribe, post_modifySvc, post_pure, post_compose,
    respondTo, post_modifyMsg]
  refine ⟨fun m' hm' => ?_, fun we hwe => hwire we _ (Wire.Message.insert_eq_error hwe) rfl rfl⟩
  obtain ⟨payload, hput, rfl⟩ := Wire.Message.insert_eq_ok hm'
  have hsource : ∀ (a : MetaMessage) (f : MetaMessage → MetaMessage),
      ((s.msgs.set o a).update o f).get i = m := fun a f => by
    rw [get_update_of_ne hio.symm, get_set_of_ne hio.symm, hi]
  have hencodes : ∃ p, Wire.putArgs (unsubscribeResponseArgs l E) = .ok p := ⟨payload, hput⟩
  refine post_linkUnsubscribe (by exact hlt) rfl rfl (fun hnone => ?_)
    (fun hne hget msgs hnext hothers => ?_) (fun hne a ha hfail msgs hnext hothers => ?_)
    fun hne a ha hfail s' n c hsvc hnext hothers hlog hmid hdst hread => ?_
  · rw [hsource, unusedEvents_unsubscribe_eq_empty] at hnone
    refine hdone _ [] hencodes (.none hnone) rfl (append_nil _).symm ho ?_ ?_
    · rw [get_update_self, get_set_self]
    · rw [get_update_self]
  · rw [hsource, Ne, unusedEvents_unsubscribe_eq_empty] at hne
    exact hunknown _ hencodes hne hget rfl rfl
  · refine hdone _ [] hencodes (.expired ha hfail) rfl (append_nil _).symm (hnext ▸ ho) ?_ ?_
    · rw [hothers o hio, get_update_self, get_set_self]
    · rw [hothers o hio, get_update_self]
  · rw [hsource, Ne, unusedEvents_unsubscribe_eq_empty] at hne
    rw [hsource] at hread
    have hsent : Disables cfg s.svc m.source l E [.udpSend i n] :=
      .sent hne ha hfail hmid hdst hread fun e => get_unusedEvents_unsubscribe
    refine hdone s' _ hencodes hsent (by rw [hsvc]) hlog (hnext ▸ ho) ?_ ?_
    · rw [hothers o hio, get_update_self, get_set_self]
    · rw [hothers o hio, get_update_self]

end

/-! ### Events of other users -/

/-- The request on the local port that the event is, if it is one. -/
def Event.localRequest : Event → Option MetaMessage
  | .udpSend _ m => if m.opcode = .request then some m else none
  | _ => none

/-- The requests sent on the local port. -/
def Node.localRequests (s : Node Services) : List MetaMessage :=
  s.log.filterMap Event.localRequest

variable {es : List Event} {svc : Services}

theorem localRequests_append {s s' : Node Services} (h : s'.log = s.log ++ es) :
    s'.localRequests = s.localRequests ++ es.filterMap Event.localRequest := by
  rw [Node.localRequests, h, filterMap_append]
  rfl

theorem localRequests_transmitting {s : Node Services} {p : Ptr}
    (h : (s.msgs.get p).opcode ≠ .request) :
    (s.transmitting p).localRequests = s.localRequests := by
  refine Node.filterMap_transmitting (fun _ m hm => ?_) (fun _ _ => rfl) h
  simp [Event.localRequest, hm]

/-- What the Link SAP is asked when `user` unsubscribes the events: at most once, to disable those
that no other user is subscribed to, and not at all if there are none. -/
structure SparesOthers (cfg : Config) (svc : Services) (user : Bytes)
    (l : LinkTupleId) (E : Bitmap 4) (sent : List MetaMessage) : Prop where
  once : sent.length ≤ 1
  exact : ∀ n ∈ sent, n.mid = msgId 1 .request 5 ∧
    n.destination = svc.lbook.searchInterface l.toLinkId ∧
    ∃ (B : Bitmap 4) (c : Cursor UInt8), Element.linkEvtList.get ⟨n.payload, 0⟩ = .ok B c ∧
      ∀ e : Fin 32, B.get e = true ↔ E.get e = true ∧ ¬SubscribedByOther svc.subscriptions user l e
  none : (∀ e : Fin 32, E.get e = true → SubscribedByOther svc.subscriptions user l e) → sent = []
  some : (∃ p, Wire.putArgs (unsubscribeResponseArgs l E) = .ok p) →
    (∀ a, svc.lbook.get? (svc.lbook.searchInterface l.toLinkId) = .some a →
      ¬a.fail + 1 > cfg.linkDeleteValue) →
    (∃ e : Fin 32, E.get e = true ∧ ¬SubscribedByOther svc.subscriptions user l e) → sent ≠ []

theorem Disables.sparesOthers {cfg : Config} {user : Bytes} (h : Disables cfg svc user l E es) :
    SparesOthers cfg svc user l E (es.filterMap Event.localRequest) := by
  cases h with
  | none hall =>
    refine ⟨by simp, by simp, fun _ => rfl, fun _ _ ⟨e, he, hnot⟩ => ?_⟩
    exact absurd (hall e he) hnot
  | expired ha hfail =>
    refine ⟨by simp, by simp, fun _ => rfl, fun _ hle _ => ?_⟩
    exact absurd hfail (hle _ ha)
  | @sent a p n B c hne ha hfail hmid hdst hread hB =>
    have hreq : filterMap Event.localRequest [.udpSend p n] = [n] := by
      have hop : n.opcode = .request := opcode_of_mid hmid (by decide)
      simp [Event.localRequest, hop]
    rw [hreq]
    refine ⟨by simp, fun n' hn' => ?_, fun hall => absurd hall hne, fun _ _ _ => by simp⟩
    obtain rfl := mem_singleton.mp hn'
    exact ⟨hmid, hdst, B, c, hread, hB⟩

/-- The Link SAP found for a link that has an active one is registered. -/
theorem LinkBook.isSome_searchInterface {b : LinkBook} {l : LinkId}
    (h : ∃ e ∈ b, e.2.linkId = l ∧ e.2.status = true) :
    (b.get? (b.searchInterface l)).isSome = true := by
  obtain ⟨e, he, hlink, hstatus⟩ := h
  have hfind : (b.find? fun e => e.2.linkId = l && e.2.status).isSome = true :=
    find?_isSome.mpr ⟨e, he, by simp [hlink, hstatus]⟩
  obtain ⟨a, ha⟩ := Option.isSome_iff_exists.mp hfind
  rw [Book.get?_isSome, LinkBook.searchInterface, ha]
  exact mem_map.mpr ⟨a, mem_of_find?_eq_some ha, rfl⟩

open Svc in
/-- Whoever unsubscribes events of a link with an active Link SAP, the Link SAP is asked to disable
exactly those that no other user is subscribed to. -/
theorem unsubscribe_spares_others (cfg : Config) (s : Node Services)
    {m : MetaMessage} {l : LinkTupleId} {E : Bitmap 4} {c : Cursor UInt8}
    (hmid : m.mid = msgId 1 .request 5) (hdst : cfg.IsDestination m)
      (hparams : subscribeParams ⟨m.payload, 0⟩ = .ok (l, E) c)
    (hactive : ∃ e ∈ s.svc.lbook, e.2.linkId = l.toLinkId ∧ e.2.status = true) :
    ∃ sent, (exec handOver (recvLocal cfg m) s).state.localRequests = s.localRequests ++ sent ∧
      SparesOthers cfg s.svc m.source l E sent := by
  have hcb : callback cfg m.mid = some (eventUnsubscribeRequest cfg) := by rw [hmid]; rfl
  refine Post.state (P := fun s' => ∃ sent, s'.localRequests = s.localRequests ++ sent ∧
    SparesOthers cfg s.svc m.source l E sent) ?_
  rw [post_recvLocal hcb, eventUnsubscribeRequest, post_bind, post_readMsg,
    s.get_receiving m, post_ite]
  refine ⟨fun _ => ?_, fun hnot => absurd hdst hnot⟩
  refine post_unsubscribeRequest (s.get_receiving m) ?_ ?_ ?_ hparams
    (fun s' sent hput hsent hsubs hlog ho hmid' hdst' => ?_) (fun we s' hput hsubs hlog => ?_)
    fun s' hput hne hget hsubs hlog => ?_
  · exact Nat.lt_succ_of_lt (Nat.lt_succ_self _)
  · exact Nat.lt_succ_self _
  · exact Nat.succ_ne_self _
  · refine ⟨fun _ => ?_, fun h => by cases h⟩
    rw [post_transmit_handOver ho]
    have hop : (s'.msgs.get (s.msgs.next + 1)).opcode = .response := opcode_of_mid hmid' (by decide)
    refine ⟨_, ?_, hsent.sparesOthers⟩
    exact (localRequests_transmitting (by rw [hop]; decide)).trans (localRequests_append hlog)
  · refine post_discardLocal ⟨[], ?_, ?_⟩
    · exact localRequests_append (hlog.trans (append_nil _).symm)
    · refine ⟨by simp, by simp, fun _ => rfl, ?_⟩
      rintro ⟨p, hp⟩ - -
      cases hput.symm.trans hp
  · have hsome : ((s.receiving m).svc.lbook.get? _).isSome = true :=
      LinkBook.isSome_searchInterface hactive
    rw [hget] at hsome
    cases hsome

/-- The user `65` gives up link up and link down, to which `66` is subscribed too. -/
theorem EventRequests.unsubscribe_shared :
    ∃ sent, (Svc.exec handOver (Svc.recvLocal sampleConfig (LinkSystem.sampleRequest 5 65 1 6))
        (mihf [⟨[65], link, 1⟩, ⟨[65], link, 2⟩, ⟨[66], link, 2⟩])).state.localRequests =
        (mihf [⟨[65], link, 1⟩, ⟨[65], link, 2⟩, ⟨[66], link, 2⟩]).localRequests ++ sent ∧
      SparesOthers sampleConfig (mihf [⟨[65], link, 1⟩, ⟨[65], link, 2⟩, ⟨[66], link, 2⟩]).svc
        [65] link ⟨[6, 0, 0, 0], rfl⟩ sent := by
  have hparams : subscribeParams ⟨(LinkSystem.sampleRequest 5 65 1 6).payload, 0⟩ =
      .ok (link, ⟨[6, 0, 0, 0], rfl⟩) ⟨(LinkSystem.sampleRequest 5 65 1 6).payload, 15⟩ := rfl
  exact unsubscribe_spares_others sampleConfig _ rfl (by decide) hparams
    ⟨_, mem_singleton_self _, rfl, rfl⟩

/-! ### All or nothing -/

/-- The message tells `user` that its unsubscription is done. -/
def MetaMessage.Answers (n : MetaMessage) (user : Bytes) : Prop :=
  n.destination = user ∧ (n.mid = msgId 1 .response 5 ∨ n.mid = msgId 1 .confirm 5)

/-- From `s` to `s'` the subscriptions named by the request `m` have been removed. -/
def Unsubscribed (m : MetaMessage) (s s' : Node Services) : Prop :=
  ∃ l E c, subscribeParams ⟨m.payload, 0⟩ = .ok (l, E) c ∧
    s'.svc.subscriptions = unsubscribe s.svc.subscriptions m.source l E

/-- A local unsubscription removes the subscriptions and an answer is sent, or it removes
nothing. -/
def LocalAllOrNothing (cfg : Config) (m : MetaMessage) (s : Node Services) : Prop :=
  let s' := (Svc.exec handOver (Svc.recvLocal cfg m) s).state
  s'.svc.subscriptions = s.svc.subscriptions ∨
    Unsubscribed m s s' ∧ ∃ es e n, s'.log = s.log ++ es ++ [e] ∧ e.transmitted = some n ∧
    n.Answers m.source

/-- The same for an unsubscription of a peer, whose response is the message `o` if the result is
`true`. -/
def RemoteAllOrNothing (cfg : Config) (i o : Ptr) (s : Node Services) : Prop :=
  match Svc.exec handOver (Svc.sacProcessMessage cfg i o) s with
  | .ok b s' => s'.svc.subscriptions = s.svc.subscriptions ∨
      Unsubscribed (s.msgs.get i) s s' ∧ b = true ∧ (s'.msgs.get o).Answers (s.msgs.get i).source
  | .error _ s' => s'.svc.subscriptions = s.svc.subscriptions

/-- The registration is one of `user` for one of the events on the link. -/
def EventRegistration.Named (user : Bytes) (l : LinkTupleId) (E : Bitmap 4)
    (r : EventRegistration) : Prop :=
  r.link.toLinkId = l.toLinkId ∧ r.user = user ∧ E.get r.event = true

/-- The response can be encoded, and the Link SAP of the link is registered unless there is nothing
to ask it for. -/
def Answerable (svc : Services) (user : Bytes) (l : LinkTupleId) (E : Bitmap 4) : Prop :=
  (∃ p, Wire.putArgs (unsubscribeResponseArgs l E) = .ok p) ∧
    ((∀ e : Fin 32, E.get e = true → SubscribedByOther svc.subscriptions user l e) ∨
      (svc.lbook.get? (svc.lbook.searchInterface l.toLinkId)).isSome = true)

/-- The request names nothing its user is subscribed to, or it can be answered. -/
def Revocable (svc : Services) (m : MetaMessage) : Prop :=
  ∀ l E c, subscribeParams ⟨m.payload, 0⟩ = .ok (l, E) c →
    (∀ r ∈ svc.subscriptions, ¬r.Named m.source l E) ∨ Answerable svc m.source l E

theorem unsubscribe_eq_self {subs : List EventRegistration} {user : Bytes} :
    unsubscribe subs user l E = subs ↔ ∀ r ∈ subs, ¬r.Named user l E := by
  constructor
  · intro h r hr
    exact (mem_unsubscribe.mp (h.symm ▸ hr)).2
  · intro h
    refine filter_eq_self.mpr fun r hr => ?_
    exact (mem_filter.mp (mem_unsubscribe.mpr ⟨hr, h r hr⟩)).2

theorem harmless_iff {c : Cursor UInt8} (h : subscribeParams ⟨m.payload, 0⟩ = .ok (l, E) c) :
    Revocable svc m ↔ (∀ r ∈ svc.subscriptions, ¬r.Named m.source l E) ∨
    Answerable svc m.source l E := by
  refine ⟨fun hm => hm l E c h, fun hm l' E' c' h' => ?_⟩
  obtain ⟨heq, -⟩ := Result.ok.inj (h.symm.trans h')
  cases heq
  exact hm

theorem Disables.answerable {cfg : Config} {user : Bytes} (h : Disables cfg svc user l E es)
    (hput : ∃ p, Wire.putArgs (unsubscribeResponseArgs l E) = .ok p) : Answerable svc user l E := by
  refine ⟨hput, ?_⟩
  cases h with
  | none hall => exact .inl hall
  | expired ha | sent _ ha => exact .inr (Option.isSome_of_eq_some ha)

section

open Svc

variable {cfg : Config} {s : Node Services} {i o : Ptr}

/-- The unsubscription `m` cannot be read, is answered, or is lost after the subscriptions have been
removed. -/
theorem post_eventUnsubscribeRequest (hdst : cfg.IsDestination m) (hi : s.msgs.get i = m)
    (hlt : i < s.msgs.next) (ho : o < s.msgs.next) (hio : o ≠ i)
    {Q : Bool → Node Services → Prop} {F : Fault → Node Services → Prop}
    (hunread : Revocable s.svc m → ∀ e, F e s)
    (hdone : ∀ s' es, Revocable s.svc m → Unsubscribed m s s' → s'.log = s.log ++ es →
      o < s'.msgs.next →
      (s'.msgs.get o).mid = msgId 1 .response 5 →
      (s'.msgs.get o).destination = m.source → Q true s')
    (hlost : ∀ e s', (s'.svc.subscriptions = s.svc.subscriptions ↔ Revocable s.svc m) →
      s'.log = s.log →
      F e s') : Post handOver (eventUnsubscribeRequest cfg i o) s Q F := by
  rw [eventUnsubscribeRequest, post_bind, post_readMsg, hi, post_ite]
  refine ⟨fun _ => ?_, fun hnot => absurd hdst hnot⟩
  cases hparams : subscribeParams ⟨m.payload, 0⟩ with
  | error e c =>
    have hharmless : Revocable s.svc m := fun l E c' h => by cases hparams.symm.trans h
    rw [localEventUnsubscribeRequest, post_bind, post_parse, hi, hparams]
    exact ⟨fun _ _ h => (by cases h), fun e' _ _ => hunread hharmless (.wire e')⟩
  | ok arg c =>
    have hremoved : ∀ s' : Node Services, ¬Answerable s.svc m.source arg.1 arg.2 →
        s'.svc.subscriptions = unsubscribe s.svc.subscriptions m.source arg.1 arg.2 →
        (s'.svc.subscriptions = s.svc.subscriptions ↔ Revocable s.svc m) := fun s' hnot hsubs => by
      rw [hsubs, unsubscribe_eq_self, harmless_iff hparams, or_iff_left hnot]
    refine post_unsubscribeRequest hi hlt ho hio hparams
      (fun s' es hput hsent hsubs hlog hnext hmid hdst' => ?_) (fun we s' hput hsubs hlog => ?_)
      fun s' _ hne hget hsubs hlog => ?_
    · have hharmless := (harmless_iff hparams).mpr (.inr (hsent.answerable hput))
      exact hdone s' es hharmless ⟨_, _, _, hparams, hsubs⟩ hlog hnext hmid hdst'
    · refine hlost _ s' (hremoved s' ?_ hsubs) hlog
      rintro ⟨⟨p, hp⟩, -⟩
      cases hput.symm.trans hp
    · refine hlost _ s' (hremoved s' ?_ hsubs) hlog
      rintro ⟨-, hall | hsome⟩
      · exact hne hall
      · rw [hget] at hsome
        cases hsome

/-- What `transmit` makes of the response still answers the user. -/
theorem answers_route (svc : Services) {n : MetaMessage} (h : n.mid = msgId 1 .response 5) :
    (svc.route n).1.Answers n.destination := by
  have hop : n.opcode = .response := opcode_of_mid h (by decide)
  have hne : n.opcode ≠ .request := by rw [hop]; decide
  rcases (svc.ubook.get? n.destination).eq_none_or_eq_some with hu | ⟨u, hu⟩
  · rw [Services.route_peer hne hu, if_neg (by rw [hop]; decide)]
    exact ⟨rfl, .inl h⟩
  · rw [Services.route_user hne hu, if_pos hop]
    refine ⟨rfl, .inr ?_⟩
    rw [setOpcode, h]
    exact (by decide : (msgId 1 .response 5 &&& (0xf3ff : UInt16)) |||
      (Operation.confirm.code <<< 10) = msgId 1 .confirm 5)

section

variable (hmid : m.mid = msgId 1 .request 5) (hdst : cfg.IsDestination m)
include hmid hdst

theorem localAllOrNothing_iff : LocalAllOrNothing cfg m s ↔ Revocable s.svc m := by
  have hcb : callback cfg m.mid = some (eventUnsubscribeRequest cfg) := by rw [hmid]; rfl
  refine Post.state (P := fun s' => (s'.svc.subscriptions = s.svc.subscriptions ∨
    Unsubscribed m s s' ∧ ∃ es e n, s'.log = s.log ++ es ++ [e] ∧ e.transmitted = some n ∧
      n.Answers m.source) ↔ _) ?_
  rw [post_recvLocal hcb]
  refine post_eventUnsubscribeRequest (m := { m with isLocal := true }) (o := s.msgs.next + 1) hdst
    (s.get_receiving m)
    (Nat.lt_succ_of_lt (Nat.lt_succ_self _)) (Nat.lt_succ_self _) (Nat.succ_ne_self _)
    (fun hharmless e => ?_) (fun s' es hharmless hsubs hlog ho hmid' hdst' => ?_) fun e
      s' hsubs hlog => ?_
  · exact post_discardLocal (iff_of_true (.inl rfl) hharmless)
  · refine ⟨fun _ => ?_, nofun⟩
    rw [post_transmit_handOver ho]
    have hanswers := answers_route s'.svc hmid'
    rw [hdst'] at hanswers
    refine iff_of_true (.inr ⟨hsubs, es, _, _, congrArg (· ++ [_]) hlog, ?_, hanswers⟩) hharmless
    split_ifs <;> rfl
  · refine post_discardLocal ((or_iff_left ?_).trans hsubs)
    rintro ⟨-, es, e', n, hsent, -⟩
    have hlength := congrArg length (hlog.symm.trans hsent)
    simp [Node.receiving] at hlength

theorem remoteAllOrNothing_iff
    (hi : s.msgs.get i = m) (hlt : i < s.msgs.next) (ho : o < s.msgs.next) (hio : o ≠ i) :
    RemoteAllOrNothing cfg i o s ↔ m.source = cfg.mihfid ∨ Revocable s.svc m := by
  have hcb : callback cfg m.mid = some (eventUnsubscribeRequest cfg) := by rw [hmid]; rfl
  subst hi
  refine Post.result (P := fun r => (match r with
    | .ok b s' => s'.svc.subscriptions = s.svc.subscriptions ∨
        Unsubscribed (s.msgs.get i) s s' ∧ b = true ∧ (s'.msgs.get o).Answers (s.msgs.get i).source
    | .error _ s' => s'.svc.subscriptions = s.svc.subscriptions) ↔ _) ?_
  by_cases hsource : (s.msgs.get i).source = cfg.mihfid
  · rw [post_sacProcessMessage_discarded rfl fun h => h.1 hsource]
    exact iff_of_true (.inl rfl) (.inl hsource)
  · rw [post_sacProcessMessage rfl hsource (.inl hdst) hcb, or_iff_right hsource]
    refine post_eventUnsubscribeRequest hdst rfl hlt ho hio
      (fun hharmless e => ?_) (fun s' es hharmless hsubs hlog ho' hmid' hdst' => ?_)
      fun e s' hsubs hlog => ?_
    · split_ifs
      · exact iff_of_true (.inl rfl) hharmless
      · exact iff_of_true rfl hharmless
    · refine iff_of_true (.inr ⟨hsubs, rfl, ?_⟩) hharmless
      rw [get_update_self]
      exact ⟨hdst', .inl hmid'⟩
    · split_ifs
      · refine (or_iff_left ?_).trans hsubs
        rintro ⟨-, hfalse, -⟩
        cases hfalse
      · exact hsubs

end

/-- An unsubscription for this MIHF is all or nothing exactly if it names nothing its user is
subscribed to, or its response can be encoded and there is a Link SAP to ask, unless there is
nothing to ask it for. A message of a peer that claims to come from this MIHF is discarded. -/
theorem unsubscribe_all_or_nothing_iff (cfg : Config) (s : Node Services) {m : MetaMessage}
    (hmid : m.mid = msgId 1 .request 5) (hdst : cfg.IsDestination m) :
    (LocalAllOrNothing cfg m s ↔ Revocable s.svc m) ∧
    ∀ i o : Ptr, s.msgs.get i = m → i < s.msgs.next → o < s.msgs.next → o ≠ i →
      (RemoteAllOrNothing cfg i o s ↔ m.source = cfg.mihfid ∨ Revocable s.svc m) :=
  ⟨localAllOrNothing_iff hmid hdst, fun _ _ hi hlt ho hio =>
    remoteAllOrNothing_iff hmid hdst hi hlt ho hio⟩

end

namespace EventRequests

open LinkSystem (sampleRequest)

local instance neZero_events : NeZero 32 := ⟨by decide⟩

/-- The user `65` is subscribed to link up on a link whose Link SAP is gone. -/
def orphaned : Node Services := .initial { subscriptions := [⟨[65], link, 1⟩] } 0

/-- It gives the event up: the subscription is removed, but the user never hears of it. -/
theorem unsubscribe_orphaned_lost :
    ¬LocalAllOrNothing sampleConfig (sampleRequest 5 65 1 2) orphaned ∧
      ¬RemoteAllOrNothing sampleConfig 1 2 (orphaned.receiving (sampleRequest 5 65 1 2)) := by
  constructor
  · unfold LocalAllOrNothing
    generalize hs :
      (Svc.exec handOver (Svc.recvLocal sampleConfig (sampleRequest 5 65 1 2)) orphaned).state = s'
    have hremoved : s'.svc.subscriptions.length = 0 := by
      rw [← hs]
      decide +kernel
    have hsilent : s'.log.length = 0 := by
      rw [← hs]
      decide +kernel
    rintro (h | ⟨-, es, e, n, hlog, -⟩)
    · rw [h] at hremoved
      cases hremoved
    · rw [hlog] at hsilent
      simp at hsilent
  · unfold RemoteAllOrNothing
    generalize hr : Svc.exec handOver (Svc.sacProcessMessage sampleConfig 1 2)
      (orphaned.receiving (sampleRequest 5 65 1 2)) = r
    have hthrown : r.fault? = some .unknownLinkSap := by
      rw [← hr]
      decide +kernel
    have hremoved : r.state.svc.subscriptions.length = 0 := by
      rw [← hr]
      decide +kernel
    cases r with
    | ok b s' => cases hthrown
    | error e s' =>
      intro h
      have hsame : s'.svc.subscriptions = orphaned.svc.subscriptions := h
      rw [Result.state, hsame] at hremoved
      cases hremoved

/-- With a Link SAP to ask, the request is answered. -/
theorem unsubscribe_asked_answered :
    LocalAllOrNothing sampleConfig (sampleRequest 5 65 1 2) (mihf [⟨[65], link, 1⟩]) ∧
      RemoteAllOrNothing sampleConfig 1 2 (handling 5 [⟨[65], link, 1⟩] 2) := by
  have hparams : subscribeParams ⟨(sampleRequest 5 65 1 2).payload, 0⟩ =
      .ok (link, ⟨[2, 0, 0, 0], rfl⟩) ⟨(sampleRequest 5 65 1 2).payload, 15⟩ := rfl
  have hput : Wire.putArgs (unsubscribeResponseArgs link ⟨[2, 0, 0, 0], rfl⟩) =
      .ok [3, 1, 0, 13, 7, 19, 0, 0, 6, 1, 1, 0, 5, 4, 0, 0, 0, 2] := by decide +kernel
  have hsome : ((mihf [⟨[65], link, 1⟩]).svc.lbook.get?
      ((mihf [⟨[65], link, 1⟩]).svc.lbook.searchInterface link.toLinkId)).isSome =
      true := by decide +kernel
  have hharmless (b : Bool) : Revocable (mihf [⟨[65], link, 1⟩]).svc
    { sampleRequest 5 65 1 2 with isLocal := b } :=
    (harmless_iff hparams).mpr (.inr ⟨⟨_, hput⟩, .inr hsome⟩)
  have hi : (handling 5 [⟨[65], link, 1⟩] 2).msgs.get 1 =
    { sampleRequest 5 65 1 2 with isLocal := true } := rfl
  constructor
  · have hlocal := (unsubscribe_all_or_nothing_iff sampleConfig (mihf [⟨[65], link, 1⟩])
      (m := sampleRequest 5 65 1 2) rfl (by decide)).1
    exact hlocal.mpr (hharmless false)
  · have hremote := (unsubscribe_all_or_nothing_iff sampleConfig (handling 5 [⟨[65], link, 1⟩] 2)
      (m := { sampleRequest 5 65 1 2 with isLocal := true }) rfl (by decide)).2
    rw [hremote 1 2 hi (by decide) (by decide) (by decide)]
    exact .inr (hharmless true)

end EventRequests

end Odtone.Mihf
