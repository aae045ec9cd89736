import Odtone.Mihf.Sac

/-! # What the handlers do to the services

`Effect` lists, once for all handlers, what can happen to the state of the services while a message
is handled: one constructor for each way in which a handler changes a book. `Within` says of a
program that it changes the services by effects only, and that it reads an optional parameter that
is absent only while it handles one of six kinds of messages. It is a class: a program built from
others is within what they are, so that for most handlers the statement is found by instance
search. -/

namespace Odtone.Mihf

open List
open Wire (Bytes Ty Element Arg Decoder)

/-! ## Effects -/

/-- The list of addresses that an entry has. -/
def AddressEntry.addrs (a : AddressEntry) : List (Ty.seq [Ty.networkType, Ty.linkAddr]).Val :=
  a.listNetTypeAddr.getD []

/-- Append a link to the list of addresses. -/
def AddressEntry.addLink (a : AddressEntry) (l : LinkId) : AddressEntry :=
  { a with listNetTypeAddr := some (a.addrs ++ [l.netTypeAddr]) }

/-- The handler of the message stores the capabilities of its sender. -/
def MetaMessage.TellsCapabilities (m : MetaMessage) : Prop :=
  m.mid = msgId 1 .request 1 ∧ m.isLocal = false ∨ m.mid = msgId 1 .response 1

/-- A change to the services while the message `m` is handled. -/
inductive Effect (cfg : Config) (m : MetaMessage) : Services → Services → Prop
  /-- subscriptions, timers and stored answers -/
  | aside {svc svc' : Services} (hlbook : svc'.lbook = svc.lbook) (hubook : svc'.ubook = svc.ubook)
      (habook : svc'.abook = svc.abook) : Effect cfg m svc svc'
  /-- `address_book::set_registration` -/
  | registered (svc : Services) (id : Bytes) {f : AddressEntry → AddressEntry}
      (hf : ∀ a, (f a).toCapabilities = a.toCapabilities) :
      Effect cfg m svc { svc with abook := svc.abook.modify id f }
  /-- a second passes for the registrations -/
  | elapsed (svc : Services) (f : AddressEntry → AddressEntry)
      (hf : ∀ a, (f a).toCapabilities = a.toCapabilities) :
      Effect cfg m svc { svc with abook := svc.abook.map fun e => (e.1, f e.2) }
  /-- a request to a Link SAP is counted -/
  | counted {svc : Services} {id : Bytes} {e : LinkEntry} (h : svc.lbook.get? id = some e)
      (hfail : ¬e.fail + 1 > cfg.linkDeleteValue) :
      Effect cfg m svc { svc with lbook := svc.lbook.fail id }
  /-- too many requests to a Link SAP are unanswered -/
  | expired {svc : Services} {id : Bytes} {e : LinkEntry} (h : svc.lbook.get? id = some e)
      (hfail : e.fail + 1 > cfg.linkDeleteValue) :
      Effect cfg m svc ({ svc with lbook := LinkBook.inactive (svc.lbook.fail id) id
        }.updateLocalCapabilities cfg)
  /-- a Link SAP tells what it is capable of -/
  | linkCapable (svc : Services) (event command : Bitmap 4) :
      Effect cfg m svc ({ svc with lbook := svc.lbook.updateCapabilities m.source event command
        }.updateLocalCapabilities cfg)
  /-- a user registers -/
  | userRegistered (svc : Services) (suppCmd : Option (Bitmap 4)) (suppIq : Option (Bitmap 8)) :
      Effect cfg m svc ({ svc with ubook := svc.ubook.add m.source m.ip m.port suppCmd suppIq
        }.updateLocalCapabilities cfg)
  /-- the capabilities of the sender are stored -/
  | peerTold (svc : Services) (cap : Capabilities) (hm : m.TellsCapabilities) :
      Effect cfg m svc { svc with
        abook := svc.abook.add m.source { toCapabilities := cap, ip := m.ip, port := m.port } }

/-- Any number of effects. -/
abbrev Effects (cfg : Config) (m : MetaMessage) : Services → Services → Prop :=
  Relation.ReflTransGen (Effect cfg m)

/-- The confirms of Link SAPs. -/
def linkConfirms : List UInt16 :=
  [msgId 1 .confirm 1, msgId 1 .confirm 4, msgId 1 .confirm 5, msgId 3 .confirm 1,
    msgId 3 .confirm 2,
    msgId 3 .confirm 3, msgId 3 .confirm 12, msgId 3 .confirm 13]

/-- The link events that are forwarded to the subscribers. -/
def linkIndications : List UInt16 :=
  [.up, .down, .detected, .goingDown, .parametersReport, .handoverImminent, .handoverComplete,
    .linkConfRequired, .l3ConfRequired].map LinkEvent.mid

/-- The message shows that the Link SAP that has sent it is there. -/
def MetaMessage.Resets (m : MetaMessage) : Prop :=
  m.mid ∈ linkConfirms ∨ m.isLocal = true ∧ m.mid ∈ linkIndications
deriving Decidable

/-- What a handler does first to the books. -/
inductive Begins (cfg : Config) (m : MetaMessage) : Services → Services → Prop
  | nothing (svc : Services) : Begins cfg m svc svc
  /-- `link_book::reset` for the sender -/
  | heard {svc : Services} {e : LinkEntry} (hm : m.Resets) (h : svc.lbook.get? m.source = some e) :
      Begins cfg m svc { svc with lbook := svc.lbook.reset m.source }
  /-- a Link SAP registers, and its link is appended to the list of this MIHF -/
  | linkRegistered (svc : Services) (linkId : LinkId) {a : AddressEntry}
      (hmid : m.mid = msgId 1 .indication 6) (h : svc.abook.get? cfg.mihfid = some a) :
      Begins cfg m svc { svc with
        lbook := svc.lbook.add m.source m.ip m.port linkId
        abook := svc.abook.add cfg.mihfid (a.addLink linkId) }
  /-- a Link SAP registers with an MIHF that is not in its own address book -/
  | linkAdded (svc : Services) (linkId : LinkId) (hmid : m.mid = msgId 1 .indication 6)
      (h : svc.abook.get? cfg.mihfid = none) :
      Begins cfg m svc { svc with lbook := svc.lbook.add m.source m.ip m.port linkId }

/-- What the handler of the message `m` does. -/
def Handled (cfg : Config) (m : MetaMessage) (svc svc' : Services) : Prop :=
  ∃ svc₁, Begins cfg m svc svc₁ ∧ Effects cfg m svc₁ svc'

theorem Handled.trans {cfg : Config} {m : MetaMessage} {svc svc₁ svc' : Services}
    (h : Handled cfg m svc svc₁) (h' : Effects cfg m svc₁ svc') : Handled cfg m svc svc' := by
  obtain ⟨svc₀, hbegin, hrest⟩ := h
  exact ⟨svc₀, hbegin, hrest.trans h'⟩

theorem Effects.handled {cfg : Config} {m : MetaMessage} {svc svc' : Services}
    (h : Effects cfg m svc svc') : Handled cfg m svc svc' := ⟨svc, .nothing svc, h⟩

/-- The messages whose handlers read an optional parameter after the status alone. -/
def optionalReaders : List UInt16 :=
  [msgId 1 .confirm 1, msgId 1 .response 4, msgId 1 .confirm 4, msgId 1 .response 5,
    msgId 3 .confirm 1, msgId 3 .confirm 3]

namespace Svc

/-- The program leaves the services as `R` says, and reads an absent parameter only for one of the
messages above. -/
abbrev Leaves (m : MetaMessage) {α : Type} (x : Svc α) (R : Services → Prop)
    (s : Node Services) : Prop :=
  Post handOver x s (fun _ s' => R s'.svc) fun e s' =>
    (e = .absentOptional → m.mid ∈ optionalReaders) ∧ R s'.svc

/-- The program changes the services by steps of `R` only. -/
class Does (R : Services → Services → Prop) (m : MetaMessage) {α : Type} (x : Svc α) : Prop where
  post (s : Node Services) : Leaves m x (Relation.ReflTransGen R s.svc) s

/-- What a program may do while the message `m` is handled. -/
abbrev Within (cfg : Config) (m : MetaMessage) {α : Type} (x : Svc α) : Prop :=
  Does (Effect cfg m) m x

variable {α β : Type} {R : Services → Services → Prop} {cfg : Config}
  {m : MetaMessage} {x y : Svc α}
  {f : α → Svc β}

/-! ## Structure -/

instance (a : α) : Does R m (pure a : Svc α) := ⟨fun _ => .refl⟩

variable {svc : Services}

/-- A program that goes on from a state reached by effects. -/
theorem Does.post_after [Does R m x] {s₁ : Node Services} (h : Relation.ReflTransGen R svc s₁.svc) :
    Leaves m x (Relation.ReflTransGen R svc) s₁ :=
  (Does.post s₁).mono (fun _ _ h' => h.trans h') fun _ _ h' => ⟨h'.1, h.trans h'.2⟩

theorem Does.bind (hx : Does R m x) (hf : ∀ a, Does R m (f a)) : Does R m (x >>= f) where
  post s := by
    rw [Leaves, post_bind]
    exact (hx.post s).mono (fun a _ h => Does.post_after h) fun _ _ h => h

instance [hx : Does R m x] [hf : ∀ a, Does R m (f a)] : Does R m (x >>= f) := hx.bind hf

instance {c : Prop} [Decidable c] [Does R m x] [Does R m y] :
    Does R m (if c then x else y) where
  post s := by
    rw [Leaves, post_ite]
    exact ⟨fun _ => Does.post s, fun _ => Does.post s⟩

/-! ## Operations -/

section

variable {p : Ptr}

instance (n : MetaMessage) : Does R m (newMsg n) := ⟨fun _ => .refl⟩
instance : Does R m (readMsg p) := ⟨fun _ => .refl⟩
instance (g : MetaMessage → MetaMessage) : Does R m (modifyMsg p g) := ⟨fun _ => .refl⟩
instance : Does R m getSvc := ⟨fun _ => .refl⟩
instance (l : LinkId) : Does R m (searchInterface l) := ⟨fun _ => .refl⟩
instance : Does R m (lpoolAdd p) := ⟨fun _ => .refl⟩

instance (d : Decoder α) : Does R m (parse p d) :=
  ⟨fun _ => post_parse.mpr ⟨fun _ _ _ => .refl, fun _ _ _ => ⟨nofun, .refl⟩⟩⟩

instance (mid : UInt16) (args : List Arg) : Does R m (compose p mid args) :=
  ⟨fun _ => post_compose.mpr ⟨fun _ _ => .refl, fun _ _ => ⟨nofun, .refl⟩⟩⟩

instance [h : Fact (m.mid ∈ optionalReaders)] (a : Option α) : Does R m (ofOptional a) :=
  ⟨fun _ => post_ofOptional.mpr ⟨fun _ _ => .refl, fun _ => ⟨fun _ => h.out, .refl⟩⟩⟩

instance : Does R m (setUserTid p) :=
  ⟨fun _ => post_setUserTid.mpr ⟨fun _ _ _ => .refl, fun _ => .refl⟩⟩

instance (id : Bytes) : Does R m (linkGet id) :=
  ⟨fun _ => post_linkGet.mpr ⟨fun _ _ => .refl, fun _ => ⟨nofun, .refl⟩⟩⟩

instance (id : Bytes) : Does R m (addressGet id) :=
  ⟨fun _ => post_addressGet.mpr ⟨fun _ _ => .refl, fun _ => ⟨nofun, .refl⟩⟩⟩

instance : Does R m (messageOut p) where
  post s := by
    rw [Leaves, post_iff, exec_messageOut_eq]
    split_ifs
    · exact .refl
    · exact ⟨nofun, .refl⟩

instance : Does R m (transmit p) where
  post s := by
    rw [Leaves, post_iff, exec_transmit_route]
    dsimp only
    split_ifs
    · exact .refl
    · have hout : Does R m (messageOut p) := inferInstance
      exact post_iff.mp (hout.post _)

instance (id : Bytes) {act : Svc Unit} [Within cfg m act] :
    Within cfg m (unlessInactive cfg id act) where
  post s := by
    rw [Leaves, post_unlessInactive]
    refine ⟨fun e he => ?_, fun _ => ⟨nofun, .refl⟩⟩
    split_ifs with hfail
    · exact .single (.expired he hfail)
    · exact Does.post_after (.single (.counted he hfail))

end

/-! ## Shared programs -/

section

variable {i o p : Ptr} {id : Bytes}

theorem within_modifySvc {g : Services → Services} (h : ∀ svc, Effect cfg m svc (g svc)) :
    Within cfg m (modifySvc g) := ⟨fun s => .single (h s.svc)⟩

instance (g : Services → List EventRegistration) :
    Within cfg m (modifySvc fun s => { s with subscriptions := g s }) :=
  within_modifySvc fun _ => .aside rfl rfl rfl

instance (g : Services → Book UInt16 Ptr) :
    Within cfg m (modifySvc fun s => { s with eventTimer := g s }) :=
  within_modifySvc fun _ => .aside rfl rfl rfl

instance (g : Services → Book UInt16 (CommandTimer × Ptr)) :
    Within cfg m (modifySvc fun s => { s with commandTimer := g s }) :=
  within_modifySvc fun _ => .aside rfl rfl rfl

instance (g : Services → List PendingLinkResponse) :
    Within cfg m (modifySvc fun s => { s with lrpool := g s }) :=
  within_modifySvc fun _ => .aside rfl rfl rfl

instance : Does R m (forwardRequest cfg p) := by unfold forwardRequest; infer_instance

instance (n : MetaMessage) : Does R m (respondTo cfg o n) := by unfold respondTo; infer_instance

instance : Does R m (localSource cfg i) := by unfold localSource; infer_instance

instance (user : Bytes) (link : LinkTupleId) (events : Bitmap 4) :
    Within cfg m (subscribe user link events) := by unfold subscribe; infer_instance

instance (user : Bytes) (link : LinkTupleId) (events : Bitmap 4) :
    Within cfg m (unsubscribe user link events) := by unfold unsubscribe; infer_instance

instance (t : CommandTimer) : Within cfg m (setCommandTimer t i) := by
  unfold setCommandTimer; infer_instance

instance : Within cfg m (eraseCommandTimer i) := by unfold eraseCommandTimer; infer_instance

instance (rsp : LinkResponse) : Within cfg m (lrpoolAdd i rsp) := by
  unfold lrpoolAdd; infer_instance

instance (l : LinkId) {act : Svc Unit} [Within cfg m act] : Within cfg m (toLink cfg o l act) := by
  unfold toLink; infer_instance

/-! Loops: -/

instance (select : EventRegistration → Bool) (rs : List EventRegistration) :
    Does R m (forwardTo i select rs) := by
  induction rs with
  | nil => exact inferInstanceAs (Does R m (pure ()))
  | cons r rs ih => dsimp only [forwardTo]; infer_instance

instance (lil : List LinkId) : Within cfg m (requestStatus cfg o lil) := by
  induction lil with
  | nil => exact inferInstanceAs (Within cfg m (pure ()))
  | cons l lil ih => dsimp only [requestStatus]; infer_instance

instance (n : MetaMessage) (lal : List LinkActionReq) :
    Within cfg m (requestActions cfg o n lal) := by
  induction lal with
  | nil => exact inferInstanceAs (Within cfg m (pure ()))
  | cons l lal ih => dsimp only [requestActions]; infer_instance

instance (ids : List Bytes) : Does R m (indicate cfg i ids) := by
  induction ids with
  | nil => exact inferInstanceAs (Does R m (pure ()))
  | cons id ids ih => dsimp only [indicate]; infer_instance

instance (ids : List Bytes) : Does R m (indicateTo i ids) := by
  induction ids with
  | nil => exact inferInstanceAs (Does R m (pure ()))
  | cons id ids ih => dsimp only [indicateTo]; infer_instance

instance (ids : List Bytes) : Does R m (transmitTo i ids) := by
  induction ids with
  | nil => exact inferInstanceAs (Does R m (pure ()))
  | cons id ids ih => dsimp only [transmitTo]; infer_instance

instance (ids : List Bytes) : Does R m (confirmTo cfg i ids) := by
  induction ids with
  | nil => exact inferInstanceAs (Does R m (pure ()))
  | cons id ids ih => dsimp only [confirmTo]; infer_instance

instance (ids : List Bytes) : Within cfg m (requestLinkCapabilities cfg ids) := by
  induction ids with
  | nil => exact inferInstanceAs (Within cfg m (pure ()))
  | cons id ids ih => dsimp only [requestLinkCapabilities]; infer_instance

instance (unsolicited : Bool) : Within cfg m (forwardOrTransmit cfg unsolicited o) := by
  unfold forwardOrTransmit; infer_instance

instance (unsolicited : Bool) (sent l : List MosInfo) :
    Within cfg m (requestAll cfg unsolicited o sent l) := by
  induction l generalizing sent with
  | nil => exact inferInstanceAs (Within cfg m (pure (sent, [])))
  | cons pos l ih => dsimp only [requestAll, requestPosCapabilities]; infer_instance

end

section

variable {i o : Ptr}

/-! ## The handlers -/

instance : Does R m (discoverRequest cfg i o) := by
  unfold discoverRequest
  cases cfg.dscvOrder with
  | nil => exact ⟨fun _ => ⟨nofun, .refl⟩⟩
  | cons first rest => dsimp only; infer_instance

instance (id : Bytes) : Within cfg m (nextMechanism cfg id) := by
  unfold nextMechanism
  cases cfg.dscvOrder.dropWhile (· ≠ id) with
  | nil => exact ⟨fun _ => ⟨nofun, .refl⟩⟩
  | cons _ rest => dsimp only; infer_instance

instance : Within cfg m (linkActionsRequest cfg i o) := by
  have hloop : ∀ (n : MetaMessage) (lal : Element.linkActionList.ty.Val), Within cfg m (do
      requestActions cfg o n (map LinkActionReq.ofVal lal)
      setCommandTimer .linkActions i
      pure false) := fun n lal => inferInstance
  dsimp only [linkActionsRequest]
  infer_instance

instance (tid : UInt16) (id : Bytes) : Within cfg m (takeResponse tid id) where
  post s := by
    rw [Leaves, takeResponse, post_bind, post_getSvc]
    cases findResponse s.svc.lrpool tid id with
    | none => exact .refl
    | some r =>
      refine post_bind.mpr (post_linkGet.mpr ⟨fun e _ => ?_, fun _ => ⟨nofun, .refl⟩⟩)
      exact .single (.aside rfl rfl rfl)

instance (tid : UInt16) (ids : List Bytes) : Within cfg m (collectStatus tid ids) := by
  induction ids with
  | nil => exact inferInstanceAs (Within cfg m (pure []))
  | cons id ids ih =>
    dsimp only [collectStatus]
    refine .bind inferInstance fun r => ?_
    rcases r with _ | ⟨lid, rsp | ⟨result, lsrl⟩⟩
    · exact ih
    · dsimp only; infer_instance
    · exact ⟨fun _ => ⟨nofun, .refl⟩⟩

theorem within_collectActions (tid : UInt16) (scan : (Ty.orNull Ty.linkScanRspList).Val)
    (ids : List Bytes) : Within cfg m (collectActions tid scan ids) := by
  induction ids generalizing scan with
  | nil => exact inferInstanceAs (Within cfg m (pure []))
  | cons id ids ih =>
    dsimp only [collectActions]
    refine .bind inferInstance fun r => ?_
    rcases r with _ | ⟨lid, rsp | ⟨result, lsrl⟩⟩
    · exact ih scan
    · exact ⟨fun _ => ⟨nofun, .refl⟩⟩
    · dsimp only; infer_instance

instance (tid : UInt16) (ids : List Bytes) : Within cfg m (collectActions tid (.inl ()) ids) :=
  within_collectActions tid (.inl ()) ids

instance (t : CommandTimer) : Within cfg m (commandTimeout cfg t i) := by
  cases t <;> dsimp only [commandTimeout, linkGetParametersResponseHandler,
    linkConfigureThresholdsResponseTimeout, linkActionsResponseHandler, linkConfResponseHandler,
    l3ConfResponseHandler, confResponseHandler, respondLate] <;> infer_instance

instance : Within cfg m (linkEventSubscribeResponseTimeout cfg i) := by
  dsimp only [linkEventSubscribeResponseTimeout]; infer_instance

instance : Within cfg m (discoverResponse cfg i o) := by
  have hnext : ∀ (g : MetaMessage → MetaMessage) (args : List Arg) (unsolicited : Bool)
      (next : Option Bytes), Within cfg m (match next with
        | some next => do
            compose o (msgId 1 .indication 1) args
            modifyMsg o fun n => { n with destination := next }
            forwardOrTransmit cfg unsolicited o
        | none => do
            modifyMsg o g
            forwardOrTransmit cfg unsolicited o) := by
    rintro g args unsolicited (_ | next) <;> (dsimp only; infer_instance)
  dsimp only [discoverResponse]
  refine .bind inferInstance fun known => .bind inferInstance fun n => ?_
  split
  · refine .bind inferInstance fun _ => .bind inferInstance fun arg =>
      .bind inferInstance fun cap =>
      .bind inferInstance fun _ => .bind inferInstance fun _ => ?_
    split <;> infer_instance
  · infer_instance

/-! ## The handlers of a received message -/

/-- What a program may do that starts while `m` is the message at `i`. -/
class Starts (cfg : Config) (m : MetaMessage) (i : Ptr) {α : Type} (x : Svc α) : Prop where
  post (s : Node Services) (h : s.msgs.get i = m) : Leaves m x (Handled cfg m s.svc) s

instance [hx : Within cfg m x] : Starts cfg m i x where
  post s _ := (hx.post s).mono (fun _ _ h => Effects.handled h) fun _ _ h =>
    ⟨h.1, Effects.handled h.2⟩

instance {c : Prop} [Decidable c] [hx : Starts cfg m i x] [hy : Starts cfg m i y] :
    Starts cfg m i (if c then x else y) := by
  split_ifs
  · exact hx
  · exact hy

theorem Starts.read {g : MetaMessage → Svc α} (hg : Starts cfg m i (g m)) :
    Starts cfg m i (readMsg i >>= g) where
  post s h := by
    rw [Leaves, post_bind, post_readMsg, h]
    exact hg.post s h

instance {g : MetaMessage → Svc α} [hg : Starts cfg m i (g m)] : Starts cfg m i (readMsg i >>= g) :=
  hg.read

variable {s : Node Services} {e : Fault}

/-- A program that goes on once the books have been changed. -/
theorem Within.post_handled [hx : Within cfg m x] (h : Handled cfg m svc s.svc) :
    Leaves m x (Handled cfg m svc) s :=
  (hx.post s).mono (fun _ _ h' => h.trans h') fun _ _ h' => ⟨h'.1, h.trans h'.2⟩

theorem Starts.bind (hx : Starts cfg m i x) (hf : ∀ a, Within cfg m (f a)) :
    Starts cfg m i (x >>= f) where
  post s h := by
    rw [Leaves, post_bind]
    exact (hx.post s h).mono (fun a _ h => Within.post_handled h) fun _ _ h => h

instance [hx : Starts cfg m i x] [hf : ∀ a, Within cfg m (f a)] : Starts cfg m i (x >>= f) :=
  hx.bind hf

theorem starts_linkReset (hm : m.Resets) : Starts cfg m i (linkReset m.source) where
  post _ _ := post_linkReset.mpr
    ⟨fun _ h => ⟨_, .heard hm h, .refl⟩, fun _ => ⟨nofun, Effects.handled .refl⟩⟩

instance [h : Fact (m.mid ∈ linkConfirms)] : Starts cfg m i (linkReset m.source) :=
  starts_linkReset (.inl h.out)

instance [h : Fact (m.mid ∈ linkIndications)] : Starts cfg m i (resetIfLocal i) := by
  dsimp only [resetIfLocal]
  refine .read ?_
  split_ifs with hlocal
  · exact starts_linkReset (.inr ⟨hlocal, h.out⟩)
  · infer_instance

instance [h : Fact (m.mid ∈ linkIndications)] :
    Starts cfg m i (linkDetectedIndication cfg i o) := by
  dsimp only [linkDetectedIndication, forwardByEvent]
  refine .read ?_
  split_ifs with hlocal
  · have hreset : Starts cfg m i (linkReset m.source) := starts_linkReset (.inr ⟨hlocal, h.out⟩)
    infer_instance
  · infer_instance

instance [Fact (m.mid ∈ optionalReaders)] (n : MetaMessage) :
    Within cfg m (subscribeConfirmed cfg i o n) := by
  dsimp only [subscribeConfirmed]; infer_instance

instance (event command : Bitmap 4) : Within cfg m (modifySvc fun s =>
    { s with lbook := s.lbook.updateCapabilities m.source event command
      }.updateLocalCapabilities cfg) :=
  within_modifySvc fun svc => .linkCapable svc event command

instance (id : Bytes) (lil : Option Ty.linkIdList.Val) :
    Within cfg m (setRegistrationLinks id lil) :=
  within_modifySvc fun svc => .registered svc id fun _ => rfl

instance (id : Bytes) (interval : Option (BitVec 16)) :
    Within cfg m (setRegistrationInterval id interval) :=
  within_modifySvc fun svc => .registered svc id fun _ => rfl

instance (suppCmd : Option (Bitmap 4)) (suppIq : Option (Bitmap 8)) :
    Within cfg m (modifySvc fun s =>
    { s with ubook := s.ubook.add m.source m.ip m.port suppCmd suppIq
      }.updateLocalCapabilities cfg) :=
  within_modifySvc fun svc => .userRegistered svc suppCmd suppIq

theorem starts_linkRegisterIndication (hmid : m.mid = msgId 1 .indication 6) :
    Starts cfg m i (linkRegisterIndication cfg i o) where
  post s h := by
    have hrequest : Within cfg m (do linkCapabilityDiscoverRequest cfg i o; pure false) := by
      dsimp only [linkCapabilityDiscoverRequest]; infer_instance
    simp only [Leaves, linkRegisterIndication, post_bind, post_readMsg, h, post_map, post_modifySvc]
    refine post_parse.mpr ⟨fun linkId _ _ => ?_, fun _ _ _ => ⟨nofun, Effects.handled .refl⟩⟩
    refine post_addressGet.mpr ⟨fun a ha => ?_, fun ha => ⟨nofun, ?_⟩⟩
    · rw [← post_bind]
      exact Within.post_handled ⟨_, .linkRegistered s.svc (.ofVal linkId) hmid ha, .refl⟩
    · exact ⟨_, .linkAdded s.svc (.ofVal linkId) hmid ha, .refl⟩

instance (op : Operation) : Within cfg m (readCapabilities i op) := by
  cases op <;> (dsimp only [readCapabilities]; infer_instance)

theorem starts_getCapabilities (hm : m.TellsCapabilities) : Starts cfg m i (getCapabilities i) := by
  have hadd : ∀ cap : Capabilities, Within cfg m (modifySvc fun s =>
      { s with
        abook := s.abook.add m.source { toCapabilities := cap, ip := m.ip, port := m.port } }) :=
    fun cap => within_modifySvc fun svc => .peerTold svc cap hm
  dsimp only [getCapabilities]
  infer_instance

instance : Does R m (setCapabilityDiscoverResponse cfg i o) := by
  dsimp only [setCapabilityDiscoverResponse]; infer_instance

theorem starts_capabilityDiscoverRequest (hmid : m.mid = msgId 1 .request 1) :
    Starts cfg m i (capabilityDiscoverRequest cfg i o) := by
  dsimp only [capabilityDiscoverRequest, piggybackCapabilities, sendIndication]
  refine .read ?_
  split
  · infer_instance
  · split
    · infer_instance
    · have hremote : m.isLocal = false := by grind
      have hget : Starts cfg m i (getCapabilities i) :=
        starts_getCapabilities (.inl ⟨hmid, hremote⟩)
      infer_instance

-- the programs are long, and so are the searches for their instances
set_option synthInstance.maxSize 512 in
theorem starts_capabilityDiscoverResponse (hmid : m.mid = msgId 1 .response 1) :
    Starts cfg m i (capabilityDiscoverResponse cfg i o) := by
  have hget : Starts cfg m i (getCapabilities i) := starts_getCapabilities (.inr hmid)
  dsimp only [capabilityDiscoverResponse]
  infer_instance

/-! ## All handlers -/

set_option synthInstance.maxSize 512 in
theorem starts_callbacks : ∀ c ∈ callbacks cfg, m.mid = c.1 → Starts cfg m i (c.2 i o) := by
  have hfact {mid : UInt16} {mids : List UInt16} (hmid : m.mid = mid) (h : mid ∈ mids) :
      Fact (m.mid ∈ mids) := ⟨hmid ▸ h⟩
  simp only [callbacks, forall_mem_cons, not_mem_nil, false_imp_iff, imp_true_iff, and_true]
  -- the handlers, and the members of their families, down to programs that are known
  dsimp only [linkUpIndication, linkDownIndication, linkGoingDownIndication,
    linkParametersReportIndication, linkConfRequiredIndication, l3ConfRequiredIndication,
    linkGetParametersResponse, linkGetParametersConfirm, linkConfigureThresholdsResponse,
    linkActionsResponse, linkActionsConfirm, linkConfRequest, linkConfConfirm, linkConfResponse,
    l3ConfRequest, l3ConfConfirm, l3ConfResponse, netHoCandidateQueryRequest,
    netHoCandidateQueryResponse, mnHoCandidateQueryRequest, mnHoCandidateQueryResponse,
    n2nHoQueryResourcesRequest, n2nHoQueryResourcesResponse, mnHoCommitRequest, mnHoCommitResponse,
    netHoCommitRequest, netHoCommitResponse, n2nHoCommitRequest, n2nHoCommitResponse,
    mnHoCompleteRequest, mnHoCompleteResponse, n2nHoCompleteRequest, n2nHoCompleteResponse,
    getInformationResponse, eventSubscribeRequest, eventUnsubscribeRequest,
    linkGetParametersRequest, linkConfigureThresholdsRequest, confRequest, genericCommandRequest,
    genericCommandResponse, forwardResponse, getInformationRequest, pushInformationRequest,
    pushInformationIndication, eventSubscribeResponse, eventUnsubscribeResponse,
    linkHandoverImminentIndication, linkHandoverCompleteIndication, eventSubscribeConfirm,
    eventUnsubscribeConfirm, storeConfirm, storeStatus, storeAction, linkConfigureThresholdsConfirm,
    confConfirm, capabilityDiscoverConfirm, registerRequest, registerResponse, deregisterRequest,
    deregisterResponse, userRegisterIndication, forwardByEvent, localEventSubscribeRequest,
    linkUnsubscribe, localEventUnsubscribeRequest, linkEventIndication, linkEventForward,
    msgForward]
  and_intros <;> intro hmid
  all_goals first
    | infer_instance
    | exact starts_capabilityDiscoverRequest hmid
    | exact starts_capabilityDiscoverResponse hmid
    | exact starts_linkRegisterIndication hmid
    | exact have : Fact (m.mid ∈ linkIndications) := hfact hmid (by decide); inferInstance
    | exact have : Fact (m.mid ∈ linkConfirms) := hfact hmid (by decide); inferInstance
    | exact have : Fact (m.mid ∈ optionalReaders) := hfact hmid (by decide); inferInstance
    | exact have : Fact (m.mid ∈ linkConfirms) := hfact hmid (by decide)
        have : Fact (m.mid ∈ optionalReaders) := hfact hmid (by decide)
        inferInstance

theorem starts_callback {h : Handler Services} (hcb : callback cfg m.mid = some h) :
    Starts cfg m i (h i o) := by
  obtain ⟨c, hc, rfl⟩ := Option.map_eq_some_iff.mp hcb
  have hmid := find?_some hc
  exact starts_callbacks c (mem_of_find?_eq_some hc) (of_decide_eq_true hmid).symm

section

variable (he : e = .absentOptional → m.mid ∈ optionalReaders) (h : Handled cfg m svc s.svc)
include he h

theorem leaves_discardLocal : Leaves m (discardLocal e) (Handled cfg m svc) s := by
  unfold discardLocal
  split
  case h_4 => exact ⟨he, h⟩
  all_goals exact h

theorem leaves_discardRemote : Leaves m (discardRemote e) (Handled cfg m svc) s := by
  unfold discardRemote
  split
  · exact h
  · exact ⟨he, h⟩

end

/-- A message of a local user or Link SAP. -/
theorem leaves_recvLocal (cfg : Config) (m : MetaMessage) (s : Node Services) :
    Leaves m (recvLocal cfg m) (Handled cfg { m with isLocal := true } s.svc) s := by
  cases hcb : callback cfg m.mid with
  | none =>
    simp only [Leaves, recvLocal, sacDispatch, post_bind, post_newMsg, post_readMsg,
      Store.get_push_next, hcb,
      post_pure]
    exact Effects.handled .refl
  | some h =>
    rw [Leaves, post_recvLocal hcb]
    have hstart : Starts cfg { m with isLocal := true } s.msgs.next
      (h s.msgs.next (s.msgs.next + 1)) :=
      starts_callback hcb
    refine (hstart.post (s.receiving m) (s.get_receiving m)).mono
      (fun r s' hs => ⟨fun _ => ?_, fun _ => hs⟩) fun e s' he => leaves_discardLocal he.1 he.2
    exact (Within.post_handled hs).mono (fun _ _ h => h) fun _ _ he =>
      leaves_discardLocal he.1 he.2

theorem starts_sacProcessMessage : Starts cfg m i (sacProcessMessage cfg i o) := by
  refine .read ?_
  split
  · infer_instance
  · split
    · infer_instance
    · cases hcb : callback cfg m.mid with
      | none => dsimp only; infer_instance
      | some h =>
        have hstart : Starts cfg m i (h i o) := starts_callback hcb
        have hcatch : Starts cfg m i (tryCatch (some <$> h i o) discardRemote) := ⟨fun s hs => by
          rw [Leaves, post_tryCatch, post_map]
          exact (hstart.post s hs).mono (fun _ _ h => h) fun _ _ he =>
            leaves_discardRemote he.1 he.2⟩
        refine hcatch.bind fun rsp => ?_
        cases rsp <;> (dsimp only; infer_instance)

end

end Svc

end Odtone.Mihf
