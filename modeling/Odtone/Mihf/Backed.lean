import Odtone.Mihf.LinkBacking

/-! # Recorded events are enabled

The invariant behind `LinkBacking`. It speaks of what the Link SAP will have enabled once it has
handled the requests on their way: this covers the recorded events, the events of subscribe requests
on their way as far as the link supports them, and the events of confirms on their way. The one move
that can break it is an unsubscribe request that disables an event of such a request or confirm.
-/

namespace Odtone.Mihf

open Wire (Bytes Ty Element Arg Decoder)
open List EStateM

/-! ## Registrations -/

section Registrations

variable {l : List EventRegistration} {r : EventRegistration} {user : Bytes} {link : LinkTupleId}
  {events : Bitmap 4}

theorem mem_addRegistration {q : EventRegistration} (h : r ∈ addRegistration l q) :
    r ∈ l ∨ r = q := by
  unfold addRegistration at h
  split_ifs at h
  · exact .inl h
  · simpa using h

/-- A subscription adds registrations of the user for the link and the events only. -/
theorem mem_subscribe (h : r ∈ subscribe l user link events) :
    r ∈ l ∨ r.link = link ∧ events.get r.event = true := by
  unfold subscribe at h
  generalize finRange 32 = is at h
  induction is generalizing l with
  | nil => exact .inl h
  | cons i is ih =>
    rw [foldl_cons] at h
    split_ifs at h with hi
    · rcases ih h with hr | hr
      · rcases mem_addRegistration hr with hr | rfl
        · exact .inl hr
        · exact .inr ⟨rfl, hi⟩
      · exact .inr hr
    · exact ih h

theorem mem_unsubscribe : r ∈ unsubscribe l user link events ↔
    r ∈ l ∧ ¬(r.link.toLinkId = link.toLinkId ∧ r.user = user ∧ events.get r.event = true) := by
  rw [unsubscribe, mem_filter, ← LinkTupleId.same_iff]
  simp only [Bool.not_eq_true', Bool.and_eq_false_iff, decide_eq_false_iff_not, not_and_or,
    Bool.not_eq_true, or_assoc]

variable {e : Fin 32}

/-- An event is subscribed on a link if somebody has a registration for it. -/
theorem get_subscribedEvents : (subscribedEvents l link).get e = true ↔
    ∃ r ∈ l, r.link.toLinkId = link.toLinkId ∧ r.event = e := by
  have hfold : ∀ b : Bitmap 4,
      (l.foldl (fun b r => if r.link.Same link then b.set r.event else b) b).get e = true ↔
      b.get e = true ∨ ∃ r ∈ l, r.link.toLinkId = link.toLinkId ∧ r.event = e := by
    induction l with
    | nil => simp
    | cons q l ih =>
      intro b
      rw [foldl_cons, ih, exists_mem_cons_iff, ← or_assoc, ← LinkTupleId.same_iff]
      refine or_congr ?_ Iff.rfl
      by_cases hq : q.link.Same link
      · rw [if_pos hq, Bitmap.get_set b q.event.isLt, Bool.or_eq_true, decide_eq_true_iff,
          and_iff_right hq, ← Fin.ext_iff, eq_comm (a := e)]
      · rw [if_neg hq, or_iff_left fun h => hq h.1]
  exact (hfold _).trans (or_iff_right (by simp))

/-- An event is unused if it is among the events and no other user has a registration for it. -/
theorem get_unusedEvents : (unusedEvents l user link events).get e = true ↔ events.get e = true ∧
      ∀ r ∈ l, r.link.toLinkId = link.toLinkId → r.event = e → r.user = user := by
  unfold unusedEvents
  induction l generalizing events with
  | nil => simp
  | cons q l ih =>
    rw [foldl_cons, ih, forall_mem_cons, ← and_assoc, ← LinkTupleId.same_iff]
    refine and_congr ?_ Iff.rfl
    by_cases hq : q.link.Same link
    · by_cases hu : q.user = user
      · rw [if_pos hq, if_neg (not_not.mpr hu), and_iff_left fun _ _ => hu]
      · -- the registration of another user for the event clears it
        rw [if_pos hq, if_pos hu, Bitmap.get_clear, Bool.and_eq_true, Bool.not_eq_true',
          decide_eq_false_iff_not]
        refine and_congr_right fun _ => ?_
        rw [← Fin.ext_iff, eq_comm]
        exact ⟨fun h _ he => absurd he h, fun h he => hu (h hq he)⟩
    · rw [if_neg hq, and_iff_left fun h => absurd h hq]

end Registrations

/-! ## The Link SAP after the requests on their way -/

namespace LinkSap

variable (sap : LinkSap) (m : MetaMessage)

/-- What `m` asks the Link SAP to enable. -/
def Asks (m : MetaMessage) (e : Fin 32) : Prop :=
  m.mid = msgId 1 .request 4 ∧ ∃ (events : Bitmap 4) (c : Cursor UInt8),
      Element.linkEvtList.get ⟨m.payload, 0⟩ = .ok events c ∧ events.get e = true

/-- What `m` reports as enabled. -/
def Reports (m : MetaMessage) (e : Fin 32) : Prop :=
  m.mid = msgId 1 .confirm 4 ∧
    ∃ events c, subscribeConfirmParams ⟨m.payload, 0⟩ = .ok (statusSuccess, some events) c ∧
      events.get e = true

@[simp] theorem handle_id : (sap.handle m).1.id = sap.id := by
  unfold handle
  split
  · rfl
  · split_ifs <;> rfl

@[simp] theorem handle_capabilities : (sap.handle m).1.capabilities = sap.capabilities := by
  unfold handle
  split
  · rfl
  · split_ifs <;> rfl

/-- Only an unsubscribe request disables an event. -/
theorem get_handle (hmid : m.mid ≠ msgId 1 .request 5) (h : sap.subscribed.get e = true) :
    (sap.handle m).1.subscribed.get e = true := by
  unfold handle
  split
  · exact h
  · split_ifs
    · simp [eventSubscribe, h]
    · exact h

/-- A subscribe request enables what it asks for. -/
theorem get_handle_asks (h : Asks m e) (hcap : sap.capabilities.get e = true) :
    (sap.handle m).1.subscribed.get e = true := by
  obtain ⟨hmid, events, c, hread, hget⟩ := h
  simp [handle, hread, hmid, eventSubscribe, hget, hcap]

/-- An unsubscribe request keeps what it does not name. -/
theorem get_handle_unsubscribe {events : Bitmap 4} {c : Cursor UInt8}
    (hmid : m.mid = msgId 1 .request 5)
    (hread : Element.linkEvtList.get ⟨m.payload, 0⟩ = .ok events c) (hget : events.get e = false)
      (h : sap.subscribed.get e = true) : (sap.handle m).1.subscribed.get e = true := by
  have hne : msgId 1 .request 5 ≠ msgId 1 .request 4 := by decide
  simp [handle, hread, hmid, hne, eventUnsubscribe, hget, h]

/-- The confirm of the Link SAP reports what was asked for and is supported. -/
theorem handle_reports {n : MetaMessage} (hn : n ∈ (sap.handle m).2) :
    n.mid = msgId 1 .confirm 5 ∨
    n.mid = msgId 1 .confirm 4 ∧ ∀ e, Reports n e → Asks m e ∧ sap.capabilities.get e = true := by
  unfold handle at hn
  split at hn
  · cases hn
  · rename_i events c hread
    change Bitmap 4 at events
    split_ifs at hn with h₄ h₅
    · obtain ⟨n', hn', hmid, c', hparams⟩ :=
        sap.confirm_eq 4 m.tid (Bitmap.common events sap.capabilities)
      rw [hn', mem_singleton] at hn
      subst hn
      refine .inr ⟨hmid, ?_⟩
      rintro e ⟨-, events', c'', hparams', hget⟩
      have heq : Bitmap.common events sap.capabilities = events' := by
        rw [hparams] at hparams'
        cases hparams'
        rfl
      rw [← heq, Bitmap.get_common, Bool.and_eq_true] at hget
      exact ⟨⟨h₄, events, c, hread, hget.1⟩, hget.2⟩
    · obtain ⟨n', hn', hmid, -⟩ := sap.confirm_eq 5 m.tid (Bitmap.common events sap.capabilities)
      rw [hn', mem_singleton] at hn
      exact .inl (hn ▸ hmid)
    · cases hn

end LinkSap

namespace LinkSystem

variable {cfg : Config} {link : LinkId} {w : LinkSystem}

/-- The Link SAP once it has handled the requests on their way. -/
def settled (w : LinkSystem) : LinkSap := w.toSap.foldl (fun sap m => (sap.handle m).1) w.sap

/-- A subscription to the event is on its way: a request, or a confirm. -/
def InFlight (w : LinkSystem) (e : Fin 32) : Prop :=
  (∃ m ∈ w.toSap, LinkSap.Asks m e) ∨ ∃ m ∈ w.toMihf, LinkSap.Reports m e

/-- Every event recorded for the link is enabled at the Link SAP. -/
def Backed (link : LinkId) (w : LinkSystem) : Prop :=
  ∀ r ∈ w.node.svc.subscriptions, r.link.toLinkId = link → w.sap.subscribed.get r.event = true
deriving Decidable

/-- No message is on its way. -/
def Idle (w : LinkSystem) : Prop := w.toSap = [] ∧ w.toMihf = []
deriving Decidable

theorem foldl_handle_capabilities (ms : List MetaMessage) (sap : LinkSap) :
    (ms.foldl (fun sap m => (sap.handle m).1) sap).capabilities = sap.capabilities := by
  induction ms generalizing sap with
  | nil => rfl
  | cons m ms ih => rw [foldl_cons, ih, LinkSap.handle_capabilities]

@[simp] theorem settled_capabilities : w.settled.capabilities = w.sap.capabilities :=
  foldl_handle_capabilities ..

/-- What holds between the MIHF, the Link SAP and the messages between them. -/
structure Inv (link : LinkId) (w : LinkSystem) : Prop where
  named : w.sap.id ≠ []
  owns : Owns w.sap.id link w.node.svc.lbook
  recorded : ∀ r ∈ w.node.svc.subscriptions, r.link.toLinkId = link →
    w.settled.subscribed.get r.event = true
  asked : ∀ m ∈ w.toSap, ∀ e, LinkSap.Asks m e → w.sap.capabilities.get e = true →
    w.settled.subscribed.get e = true
  confirms : ∀ m ∈ w.toMihf, m.mid = msgId 1 .confirm 4 ∨ m.mid = msgId 1 .confirm 5
  reported : ∀ m ∈ w.toMihf, ∀ e, LinkSap.Reports m e → w.settled.subscribed.get e = true

variable {s : Node Services}

/-- The MIHF goes to `s` without sending anything to the Link SAP. -/
theorem Inv.silent (h : w.Inv link) (howns : Owns w.sap.id link s.svc.lbook)
    (hrec : ∀ r ∈ s.svc.subscriptions, r.link.toLinkId = link →
      w.settled.subscribed.get r.event = true) : Inv link { w with node := s } :=
  ⟨h.named, howns, hrec, h.asked, h.confirms, h.reported⟩

/-- The MIHF goes to `s` and sends a request that disables nothing that is on its way. -/
theorem Inv.send {m : MetaMessage} (h : w.Inv link) (howns : Owns w.sap.id link s.svc.lbook)
    (hrec : ∀ r ∈ s.svc.subscriptions, r.link.toLinkId = link →
      (w.settled.handle m).1.subscribed.get r.event = true)
    (hasks : ∀ e, LinkSap.Asks m e → w.sap.capabilities.get e = true →
      (w.settled.handle m).1.subscribed.get e = true)
    (hflight : ∀ e, w.InFlight e → w.settled.subscribed.get e = true →
      (w.settled.handle m).1.subscribed.get e = true) :
    Inv link { w with node := s, toSap := w.toSap ++ [m] } := by
  have hsettled : settled { w with node := s, toSap := w.toSap ++ [m] } =
    (w.settled.handle m).1 := by
    simp [settled]
  refine ⟨h.named, howns, ?_, fun n hn e he hcap => ?_, h.confirms, fun n hn e he => ?_⟩
  · rw [hsettled]
    exact hrec
  · rw [hsettled]
    rcases mem_append.mp hn with hn | hn
    · exact hflight e (.inl ⟨n, hn, he⟩) (h.asked n hn e he hcap)
    · exact hasks e (mem_singleton.mp hn ▸ he) hcap
  · rw [hsettled]
    exact hflight e (.inr ⟨n, hn, he⟩) (h.reported n hn e he)

theorem Inv.request (h : w.Inv link) : Inv link (step cfg .request w).state := by
  obtain ⟨node, sap, toSap, toMihf⟩ := w
  cases toSap with
  | nil => exact h
  | cons m ms =>
    -- the Link SAP ends where it would have ended anyway
    refine ⟨?_, ?_, h.recorded, fun n hn e he hcap => ?_, fun n hn => ?_, fun n hn e he => ?_⟩
    · exact (sap.handle_id m).symm ▸ h.named
    · exact (sap.handle_id m).symm ▸ h.owns
    · exact h.asked n (mem_cons_of_mem _ hn) e he (sap.handle_capabilities m ▸ hcap)
    · rcases mem_append.mp hn with hn | hn
      · exact h.confirms n hn
      · exact (sap.handle_reports m hn).symm.imp And.left fun h => h
    · rcases mem_append.mp hn with hn | hn
      · exact h.reported n hn e he
      · rcases sap.handle_reports m hn with h₅ | ⟨-, hrep⟩
        · exact absurd (he.1.symm.trans h₅) (by decide)
        · exact h.asked m mem_cons_self e (hrep e he).1 (hrep e he).2

/-- What a service leaves, when the MIHF runs it. -/
theorem onNode_state (x : Svc Unit) (hs : (Svc.exec handOver x w.node).state = s)
    {sent : List MetaMessage} (hsent : s.requestsTo w.sap.id = w.node.requestsTo w.sap.id ++ sent) :
    (onNode x w).state = { w with node := s, toSap := w.toSap ++ sent } := by
  have hdrop : (s.requestsTo w.sap.id).drop (w.node.requestsTo w.sap.id).length = sent := by
    rw [hsent, drop_left]
  unfold onNode
  cases hx : Svc.exec handOver x w.node with
  | ok _ s' | error _ s' =>
    have hs' : s' = s := by rw [hx] at hs; exact hs
    simp only [Result.state, hs', hdrop]

theorem onNode_state_silent (x : Svc Unit) (hs : (Svc.exec handOver x w.node).state = s)
    (hsent : s.requestsTo w.sap.id = w.node.requestsTo w.sap.id) :
    (onNode x w).state = { w with node := s } := by
  have hnone : s.requestsTo w.sap.id = w.node.requestsTo w.sap.id ++ [] := by
    rw [hsent, append_nil]
  rw [onNode_state x hs hnone, append_nil]

/-- A service that does nothing to subscriptions and Link SAP. -/
theorem Inv.quiet {x : Svc Unit} (h : w.Inv link)
    (hx : Svc.Post handOver x w.node (fun _ => Quiet w.sap.id link w.node)
      (fun _ => Quiet w.sap.id link w.node)) : Inv link (onNode x w).state := by
  have hquiet := hx.state
  rw [onNode_state_silent x rfl hquiet.requests]
  exact h.silent (hquiet.owns h.owns) (hquiet.subscriptions ▸ h.recorded)

/-- The MIHF handles a confirm of the Link SAP. -/
theorem Inv.confirm (h : w.Inv link) : Inv link (step cfg .confirm w).state := by
  obtain ⟨node, sap, toSap, toMihf⟩ := w
  cases toMihf with
  | nil => exact h
  | cons m ms =>
    have hrest : Inv link ⟨node, sap, toSap, ms⟩ :=
      ⟨h.named, h.owns, h.recorded, h.asked, fun n hn => h.confirms n (mem_cons_of_mem _ hn),
        fun n hn => h.reported n (mem_cons_of_mem _ hn)⟩
    rcases h.confirms m mem_cons_self with hmid | hmid
    · have heffect : ConfirmEffect sap.id link m node _ := (post_recvLocal_confirm cfg hmid).state
      obtain ⟨hreq, howns, hsubs⟩ := heffect
      refine (onNode_state_silent (w := ⟨node, sap, toSap, ms⟩) _ rfl hreq) ▸
        hrest.silent (howns h.owns) fun r hr hlink => ?_
      rcases hsubs with hsubs | ⟨user, l, events, c, hparams, hsubs⟩
      · exact h.recorded r (hsubs ▸ hr) hlink
      · rw [hsubs] at hr
        rcases mem_subscribe hr with hr | ⟨-, hget⟩
        · exact h.recorded r hr hlink
        · exact h.reported m mem_cons_self r.event ⟨hmid, events, c, hparams, hget⟩
    · exact hrest.quiet (post_recvLocal_unsubscribeConfirm hmid)

/-! ## Users -/

/-- The message is a subscribe or unsubscribe request of a user for this MIHF. -/
def UserRequest (cfg : Config) (m : MetaMessage) : Prop :=
  cfg.IsDestination m ∧ (m.mid = msgId 1 .request 4 ∨ m.mid = msgId 1 .request 5)
deriving Decidable

/-- An unsubscribe request on the link names an event that is in flight only if another user is
registered for it. -/
def Considerate (link : LinkId) (m : MetaMessage) (w : LinkSystem) : Prop :=
  m.mid = msgId 1 .request 5 → ∀ arg c, subscribeParams ⟨m.payload, 0⟩ = .ok arg c →
    arg.1.toLinkId = link → ∀ e : Fin 32, arg.2.get e = true → w.InFlight e →
      ∃ r ∈ w.node.svc.subscriptions, r.link.toLinkId = link ∧ r.event = e ∧ r.user ≠ m.source

/-- The Link SAP found for a link is the one that owns it. -/
theorem searchInterface_eq {b : LinkBook} {id : Bytes} {l : LinkId} (h : Owns id link b)
    (hid : id ≠ []) (hl : b.searchInterface l = id) : l = link := by
  unfold LinkBook.searchInterface at hl
  cases hfind : b.find? fun e => e.2.linkId = l && e.2.status with
  | none =>
    rw [hfind] at hl
    exact absurd hl.symm hid
  | some e =>
    rw [hfind] at hl
    have hsome := find?_some hfind
    rw [Bool.and_eq_true, decide_eq_true_iff] at hsome
    exact hsome.1.symm.trans ((h e (mem_of_find?_eq_some hfind)).mp hl)

theorem Inv.userSubscribe {m : MetaMessage} (h : w.Inv link) (hmid : m.mid = msgId 1 .request 4)
    (hdst : cfg.IsDestination m) : Inv link (step cfg (.user m) w).state := by
  have heffect : SubscribeEffect w.sap.id link w.node _ :=
    (post_recvLocal_subscribe cfg hmid hdst).state
  rcases heffect with hquiet | ⟨user, l, hsubs, hreq, hbook⟩
    | ⟨n, events, c, hsubs, hreq, hn, hread, howns⟩
  · refine (onNode_state_silent _ rfl hquiet.requests) ▸ h.silent (hquiet.owns h.owns) ?_
    rw [hquiet.subscriptions]
    exact h.recorded
  · refine (onNode_state_silent _ rfl hreq) ▸ h.silent (hbook ▸ h.owns) fun r hr hlink => ?_
    rw [hsubs] at hr
    rcases mem_subscribe hr with hr | ⟨rfl, hget⟩
    · exact h.recorded r hr hlink
    · -- somebody is registered for the event already
      obtain ⟨q, hq, hqlink, hqevent⟩ := get_subscribedEvents.mp hget
      exact hqevent ▸ h.recorded q hq (hqlink.trans hlink)
  · have hkeep : ∀ e : Fin 32, w.settled.subscribed.get e = true →
        (w.settled.handle n).1.subscribed.get e = true :=
      fun e => LinkSap.get_handle _ _ (hn ▸ by decide)
    refine (onNode_state _ rfl hreq) ▸ h.send (howns h.owns) (fun r hr hlink => ?_)
      (fun e he hcap => ?_) fun e _ => hkeep e
    · exact hkeep _ (h.recorded r (hsubs ▸ hr) hlink)
    · exact LinkSap.get_handle_asks _ _ he (by rwa [settled_capabilities])

theorem Inv.userUnsubscribe {m : MetaMessage} (h : w.Inv link) (hmid : m.mid = msgId 1 .request 5)
    (hdst : cfg.IsDestination m) (hcons : Considerate link m w) :
    Inv link (step cfg (.user m) w).state := by
  have heffect : UnsubscribeEffect w.sap.id link m w.node _ :=
    (post_recvLocal_unsubscribe cfg hmid hdst).state
  rcases heffect with hquiet | ⟨arg, c, harg, hsubs, howns, hreq | ⟨hl, n, c', hreq, hn, hread⟩⟩
  · refine (onNode_state_silent _ rfl hquiet.requests) ▸ h.silent (hquiet.owns h.owns) ?_
    rw [hquiet.subscriptions]
    exact h.recorded
  · refine (onNode_state_silent _ rfl hreq) ▸ h.silent (howns h.owns) fun r hr hlink => ?_
    rw [hsubs, mem_unsubscribe] at hr
    exact h.recorded r hr.1 hlink
  · have hlink : arg.1.toLinkId = link := searchInterface_eq h.owns h.named hl
    rw [hsubs] at hread
    have hkeep : ∀ e : Fin 32, (∃ r ∈ unsubscribe w.node.svc.subscriptions m.source arg.1 arg.2,
          r.link.toLinkId = link ∧ r.event = e ∧ (arg.2.get e = true → r.user ≠ m.source)) →
        w.settled.subscribed.get e = true → (w.settled.handle n).1.subscribed.get e = true := by
      rintro e ⟨r, hr, hrlink, hrevent, huser⟩ hset
      refine LinkSap.get_handle_unsubscribe _ _ hn hread ?_ hset
      rw [Bool.eq_false_iff]
      intro hunused
      obtain ⟨hget, hothers⟩ := get_unusedEvents.mp hunused
      exact huser hget (hothers r hr (hrlink.trans hlink.symm) hrevent)
    refine (onNode_state _ rfl hreq) ▸ h.send (howns h.owns) (fun r hr hrlink => ?_)
      (fun e he _ => absurd (he.1.symm.trans hn) (by decide)) fun e hflight hset => ?_
    · rw [hsubs] at hr
      have hr' := mem_unsubscribe.mp hr
      refine hkeep _ ⟨r, hr, hrlink, rfl, fun hget huser => ?_⟩ (h.recorded r hr'.1 hrlink)
      exact hr'.2 ⟨hrlink.trans hlink.symm, huser, hget⟩
    · by_cases hget : arg.2.get e = true
      · obtain ⟨r, hr, hrlink, hrevent, huser⟩ := hcons hmid arg c harg hlink e hget hflight
        exact hkeep e ⟨r, mem_unsubscribe.mpr ⟨hr, fun hsame => huser hsame.2.1⟩, hrlink, hrevent,
          fun _ => huser⟩ hset
      · refine LinkSap.get_handle_unsubscribe _ _ hn hread ?_ hset
        rw [Bool.eq_false_iff]
        exact fun hunused => hget (get_unusedEvents.mp hunused).1

/-! ## Runs -/

/-- Users subscribe and unsubscribe at this MIHF, and an unsubscription leaves events in flight
alone. -/
def Orderly (cfg : Config) (link : LinkId) : LinkMove → LinkSystem → Prop
  | .user m, w => UserRequest cfg m ∧ Considerate link m w
  | _, _ => True

theorem Inv.step {move : LinkMove} (hmove : Orderly cfg link move w) (h : w.Inv link) :
    Inv link (step cfg move w).state := by
  cases move with
  | user m =>
    obtain ⟨⟨hdst, hmid | hmid⟩, hcons⟩ := hmove
    · exact h.userSubscribe hmid hdst
    · exact h.userUnsubscribe hmid hdst hcons
  | timer tid => exact h.quiet post_eventTimerExpires
  | request => exact h.request
  | confirm => exact h.confirm

/-- A start: the Link SAP owns the link, nothing is on its way, and what is recorded is enabled. -/
structure Start (link : LinkId) (w : LinkSystem) : Prop where
  named : w.sap.id ≠ []
  owns : Owns w.sap.id link w.node.svc.lbook
  idle : w.Idle
  backed : w.Backed link

theorem Start.inv (h : Start link w) : Inv link w := by
  have hsettled : w.settled = w.sap := by rw [settled, h.idle.1, foldl_nil]
  refine ⟨h.named, h.owns, hsettled.symm ▸ h.backed, fun m hm => ?_, fun m hm => ?_, fun m hm => ?_⟩
  · rw [h.idle.1] at hm
    cases hm
  all_goals
    rw [h.idle.2] at hm
    cases hm

/-- In every run in which the users are considerate, whenever no message is on its way the recorded
events are enabled. -/
theorem backed_of_orderly (cfg : Config) (link : LinkId) (w : LinkSystem) (moves : List LinkMove)
    (hstart : Start link w) (hmoves : Along (step cfg) (Orderly cfg link) moves w)
    (hidle : (runAll (step cfg) moves w).Idle) : (runAll (step cfg) moves w).Backed link := by
  have hinv : Inv link (runAll (step cfg) moves w) :=
    runAll_along (fun _ _ hmove h => h.step hmove) moves hstart.inv hmoves
  have hsettled : settled (runAll (step cfg) moves w) =
      (runAll (step cfg) moves w).sap := by
    rw [settled, hidle.1, foldl_nil]
  intro r hr hlink
  rw [← hsettled]
  exact hinv.recorded r hr hlink

/-! ## Two users -/

def sampleLinkId : LinkId := { type := (19 : BitVec 8), addr := .inl ((6 : BitVec 16), [1], ()) }

/-- The request `aid` of a user about the events in `mask`. -/
def sampleRequest (aid : UInt16) (user : UInt8) (tid : UInt16) (mask : UInt8) : MetaMessage :=
  { mid := msgId 1 .request aid
    tid := tid
    source := [user]
    destination := [77]
    payload := [13, 7, 19, 0, 0, 6, 1, 1, 0, 5, 4, 0, 0, 0, mask] }

/-- A Link SAP that has enabled the events in `mask`, for which the users in `rs` are registered. -/
def sampleSystem (mask : UInt8) (rs : List EventRegistration) : LinkSystem :=
  { node := Node.initial
      { lbook := [([83], { ip := [], port := 0, linkId := sampleLinkId })], subscriptions := rs } 0
    sap := ⟨[83], [77], .full 4, ⟨[mask, 0, 0, 0], rfl⟩⟩ }

theorem sampleSystem_start {mask : UInt8} {rs : List EventRegistration}
    (h : (sampleSystem mask rs).Backed sampleLinkId) :
    Start sampleLinkId (sampleSystem mask rs) where
  named := cons_ne_nil _ _
  owns := by simp [sampleSystem, Node.start, Owns]
  idle := ⟨rfl, rfl⟩
  backed := h

/-- A user subscribes link up at a Link SAP that has nothing enabled. -/
theorem backed_of_subscribe :
    let moves := [LinkMove.user (sampleRequest 4 65 1 2), .request, .confirm]
    let w := runAll (step sampleConfig) moves (sampleSystem 0 [])
    w.Idle ∧ w.node.svc.subscriptions ≠ [] ∧ w.Backed sampleLinkId := by
  intro moves w
  have hidle : w.Idle := by decide +kernel
  refine ⟨hidle, by decide +kernel, backed_of_orderly sampleConfig sampleLinkId _ moves
    (sampleSystem_start (by decide)) (along_of_forall ?_ _) hidle⟩
  simp only [moves, forall_mem_cons]
  refine ⟨fun s => ⟨⟨by decide, .inl rfl⟩, fun h => absurd h (by decide)⟩, fun _ => trivial,
    fun _ => trivial, fun _ h => nomatch h⟩

/-- One user is registered for link up. Another subscribes link up and link down, and while that
request is on its way the first one unsubscribes: the Link SAP is told to disable link up, after
which the MIHF records it for the second user. -/
theorem unsubscribe_overtakes :
    let r : EventRegistration := ⟨[65], { toLinkId := sampleLinkId }, 1⟩
    let moves := [LinkMove.user (sampleRequest 4 66 1 6), .user (sampleRequest 5 65 2 2),
      .request, .request, .confirm, .confirm]
    let w := runAll (step sampleConfig) moves (sampleSystem 2 [r])
    Start sampleLinkId (sampleSystem 2 [r]) ∧ UserRequest sampleConfig (sampleRequest 4 66 1 6) ∧
      UserRequest sampleConfig (sampleRequest 5 65 2 2) ∧ w.Idle ∧ ¬w.Backed sampleLinkId :=
  ⟨sampleSystem_start (by decide), by decide, by decide, by decide +kernel, by decide +kernel⟩

end LinkSystem

end Odtone.Mihf
