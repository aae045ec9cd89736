import Odtone.Mihf.ServiceRuns

/-! # Capabilities of a registered peer

`get_capabilities` builds the entry of a peer anew from its capability discovery message, whatever
the status, and `address_book::add` keeps only the address of the old one. So a registration
survives a capability discovery only if there is none, and what a response that reports a failure
carries replaces what was stored. -/

namespace Odtone.Mihf

open Wire MetaMessage Option

/-! ## The entry of a peer -/

namespace Services

variable (svc : Services) (id : Bytes)

/-- What is registered for a peer; nothing if it is not in the address book. -/
def registered : Registration := (svc.registration id).getD (none, none)

/-- The capabilities stored for a peer. -/
def capabilities : Option Capabilities := (svc.abook.get? id).map AddressEntry.toCapabilities

/-- The services once the capabilities in the message `m` are stored for its sender. -/
def told (m : MetaMessage) (c : Capabilities) : Services :=
  { svc with abook := svc.abook.add m.source { toCapabilities := c, ip := m.ip, port := m.port } }

variable {svc}

theorem get?_told (m : MetaMessage) (c : Capabilities) :
    ∃ a, (svc.told m c).abook.get? m.source = some a ∧ a.toCapabilities = c ∧
      a.regLinkList = none ∧ a.regInterval = none := by
  unfold told AddressBook.add
  split <;> exact ⟨_, (Book.get?_insert ..).trans (if_pos rfl), rfl, rfl, rfl⟩

theorem registered_told (m : MetaMessage) (c : Capabilities) :
    (svc.told m c).registered m.source = (none, none) := by
  obtain ⟨a, ha, -, hlinks, hinterval⟩ := get?_told m c
  rw [registered, registration, ha, map_some, getD_some, hlinks, hinterval]

theorem capabilities_told (m : MetaMessage) (c : Capabilities) :
    (svc.told m c).capabilities m.source = some c := by
  obtain ⟨a, ha, hcap, -⟩ := get?_told m c
  rw [capabilities, ha, map_some, hcap]

end Services

/-! ## The messages -/

/-- The capabilities in a capability discovery message. -/
def MetaMessage.capabilities (m : MetaMessage) : Option Capabilities :=
  if m.opcode = .request then
    match capabilitiesParams ⟨m.payload, 0⟩ with
    | .ok c _ => some c
    | .error _ _ => none
  else
    match capabilitiesResponseParams ⟨m.payload, 0⟩ with
    | .ok a _ => some a.2
    | .error _ _ => none

/-- The message is a response that does not report success. -/
def MetaMessage.Refuses (m : MetaMessage) : Prop :=
  m.mid = msgId 1 .response 1 ∧
    ∃ st c e, capabilitiesResponseParams ⟨m.payload, 0⟩ = .ok (st, c) e ∧ st ≠ statusSuccess

/-- The capabilities of a peer that its message tells, if it is taken. -/
def Config.exchanged (cfg : Config) (m : MetaMessage) : Option Capabilities :=
  if m.source ≠ cfg.mihfid ∧ (cfg.IsDestination m = true ∨ m.isMulticast = true) then m.capabilities
  else none

namespace Svc

variable {α : Type} {cfg : Config} {m : MetaMessage} {s : Node Services} {i o : Ptr}

/-- A program that does nothing to the services. -/
theorem Does.post_svc {x : Svc α} (hx : Does (fun _ _ => False) {} x) {svc : Services}
    (hs : s.svc = svc) : Post handOver x s (fun _ s' => s'.svc = svc) fun _ s' => s'.svc = svc := by
  have hrefl {svc' : Services}
    (h : Relation.ReflTransGen (fun _ _ => False) s.svc svc') : svc' = svc := by
    cases h with
    | refl => exact hs
    | tail _ h => exact h.elim
  exact (hx.post s).mono (fun _ _ h => hrefl h) fun _ _ h => hrefl h.2

theorem post_getCapabilities (hi : s.msgs.get i = m)
    (hop : m.opcode = .request ∨ m.opcode = .response) :
    Post handOver (getCapabilities i) s
      (fun _ s' => s'.svc = m.capabilities.elim s.svc (s.svc.told m))
      fun _ s' => s'.svc = m.capabilities.elim s.svc (s.svc.told m) := by
  rw [getCapabilities, post_bind, post_readMsg, hi, post_bind]
  rcases hop with hop | hop
  · rw [hop, readCapabilities, post_parse, hi]
    refine ⟨fun c e hc => ?_, fun e c he => ?_⟩
    · simp [capabilities, hop, hc, Services.told]
    · simp [capabilities, hop, he]
  · rw [hop, readCapabilities, post_bind, post_parse, hi]
    refine ⟨fun a e ha => ?_, fun e c he => ?_⟩
    · simp [capabilities, hop, ha, Services.told]
    · simp [capabilities, hop, he]

variable (hmid : m.mid = msgId 1 .request 1 ∨ m.mid = msgId 1 .response 1)
  (hremote : m.isLocal = false) (hi : s.msgs.get i = m)
include hmid hremote hi

set_option synthInstance.maxSize 512 in
/-- The handlers of a capability discovery message of a peer. -/
theorem post_capabilityDiscover {h : Handler Services} (hcb : callback cfg m.mid = some h)
    (hdst : cfg.IsDestination m = true ∨ m.isMulticast = true) :
    Post handOver (h i o) s (fun _ s' => s'.svc = m.capabilities.elim s.svc (s.svc.told m))
      fun _ s' => s'.svc = m.capabilities.elim s.svc (s.svc.told m) := by
  have hop : m.opcode = .request ∨ m.opcode = .response := by
    unfold opcode
    rcases hmid with hmid | hmid <;> rw [hmid] <;> decide
  have hget := post_getCapabilities hi hop
  rcases hmid with hmid | hmid <;> rw [hmid] at hcb <;> cases hcb
  · dsimp only [capabilityDiscoverRequest, sendIndication]
    rw [post_bind, post_readMsg, hi]
    simp only [hremote, Bool.false_and, Bool.false_eq_true, if_false, Bool.or_eq_true, if_pos hdst]
    rw [post_bind]
    exact hget.mono (fun _ _ hs => Does.post_svc inferInstance hs) fun _ _ hs => hs
  · dsimp only [capabilityDiscoverResponse]
    rw [post_bind, post_readMsg, hi]
    simp only [hremote, Bool.false_and, Bool.false_eq_true, if_false]
    rw [post_bind]
    exact hget.mono (fun _ _ hs => Does.post_svc inferInstance hs) fun _ _ hs => hs

theorem post_sacProcessMessage_capabilityDiscover : Post handOver (sacProcessMessage cfg i o) s
      (fun _ s' => s'.svc = (cfg.exchanged m).elim s.svc (s.svc.told m))
      fun _ s' => s'.svc = (cfg.exchanged m).elim s.svc (s.svc.told m) := by
  rw [Config.exchanged]
  split_ifs with htaken
  · obtain ⟨h, hcb⟩ : ∃ h, callback cfg m.mid = some h := by
      rcases hmid with hmid | hmid <;> rw [hmid] <;> exact ⟨_, rfl⟩
    rw [post_sacProcessMessage hi htaken.1 htaken.2 hcb]
    refine (post_capabilityDiscover hmid hremote hi hcb htaken.2).mono
      (fun _ _ hs => hs) fun e s' hs => ?_
    split_ifs <;> exact hs
  · rw [post_sacProcessMessage_discarded hi htaken]
    rfl

end Svc

section

variable {cfg : Config} {m : MetaMessage} {s : Node Services}

/-- What a capability discovery message of a peer does to the services. -/
theorem svc_capabilityDiscover (hmid : m.mid = msgId 1 .request 1 ∨ m.mid = msgId 1 .response 1) :
    (serviceStep cfg (.fromPeer m) s).state.svc = (cfg.exchanged m).elim s.svc (s.svc.told m) := by
  refine Svc.receive_state (P := fun s' => s'.svc = (cfg.exchanged m).elim s.svc (s.svc.told m))
    fun s' hsvc _ hi => ?_
  rw [← hsvc]
  exact Svc.post_sacProcessMessage_capabilityDiscover (m := { m with isLocal := false }) hmid rfl hi

/-- A capability discovery message leaves the registration of the peer as it is, and a refused one
its capabilities, exactly if it is not taken, or nothing is registered and what a refused one tells
is stored already. -/
theorem registration_undisturbed_iff (cfg : Config) (s : Node Services)
    (hmid : m.mid = msgId 1 .request 1 ∨ m.mid = msgId 1 .response 1) :
    let svc' := (serviceStep cfg (.fromPeer m) s).state.svc
    (svc'.registered m.source = s.svc.registered m.source ∧
      (m.Refuses → svc'.capabilities m.source = s.svc.capabilities m.source)) ↔
    ∀ c, cfg.exchanged m = some c → s.svc.registered m.source = (none, none) ∧
      (m.Refuses → s.svc.capabilities m.source = some c) := by
  rw [svc_capabilityDiscover hmid]
  cases hc : cfg.exchanged m with
  | none => simp
  | some c =>
    simp only [elim_some, Services.registered_told, Services.capabilities_told, some.injEq,
      forall_eq', eq_comm]

end

namespace CapabilityExchange

open Sample

/-- The peer `80` is in the address book. -/
def books : Services := { abook := [([77], {}), ([80], {})] }

/-- A message of the peer `80`. -/
def fromPeer80 (op : Operation) (aid : UInt16) (payload : Bytes) : MetaMessage :=
  { mid := msgId 1 op aid, source := [80], destination := [77], payload := payload }

/-- The peer `80` has registered one link. -/
def registeredPeer : Node Services :=
  serviceRun (mihf 2) books 0 [.fromPeer (fromPeer80 .request 2 [25, 7, 1, 19, 0, 0, 6, 1, 1])]

/-- The peer registers and asks for the capabilities of the MIHF. Its registration is gone. -/
theorem registration_forgotten :
    let svc' := (serviceStep (mihf 2) (.fromPeer (fromPeer80 .request 1 []))
      registeredPeer).state.svc
    (registeredPeer.svc.registered [80]).2 = some 0 ∧ (svc'.registered [80]).2 = none := by
  decide +kernel

/-- A peer that is not registered asks for the capabilities of the MIHF. -/
theorem registration_undisturbed :
    let s := serviceStart (mihf 2) books 0
    let svc' := (serviceStep (mihf 2) (.fromPeer (fromPeer80 .request 1 [])) s).state.svc
    svc'.registered [80] = s.svc.registered [80] := by
  intro s svc'
  have hmid : (fromPeer80 .request 1 []).mid = msgId 1 .request 1 := rfl
  have hnone : s.svc.registered [80] = (none, none) := rfl
  have hrefuses : ¬(fromPeer80 .request 1 []).Refuses := fun h => absurd h.1 (by decide)
  exact ((registration_undisturbed_iff (mihf 2) s (.inl hmid)).mpr fun c _ =>
    ⟨hnone, fun h => absurd h hrefuses⟩).1

end CapabilityExchange

end Odtone.Mihf
