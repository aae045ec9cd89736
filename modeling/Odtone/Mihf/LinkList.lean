import Odtone.Mihf.Advertisement
import Odtone.Mihf.ServiceRuns

/-! # The list of links of an MIHF

The entry of an MIHF in its own address book has a list of links, which is derived from the book of
Link SAPs: a registration appends to it, an inactivation derives it anew. It names each active Link
SAP once as long as a Link SAP registers only while it is not active, and nothing but a registration
comes from an inactive one. -/

namespace Odtone.Mihf

open Wire (Bytes Ty Element)
open MetaMessage List Option

/-! ## Active Link SAPs -/

namespace LinkBook

variable {b : LinkBook} {id : Bytes}

/-- The addresses of the active Link SAPs. -/
def activeAddrs (b : LinkBook) : List (Ty.seq [Ty.networkType, Ty.linkAddr]).Val :=
  b.active.map fun e => e.linkId.netTypeAddr

theorem activeAddrs_cons (e : Bytes × LinkEntry) (b : LinkBook) :
    activeAddrs (e :: b) = if e.2.status then e.2.linkId.netTypeAddr ::
    activeAddrs b else activeAddrs b := by
  unfold activeAddrs active
  cases h : e.2.status <;> simp [h]

theorem activeAddrs_modify {f : LinkEntry → LinkEntry} (hlink : ∀ e, (f e).linkId = e.linkId)
    (hstatus : ∀ e ∈ b, e.1 = id → (f e.2).status = e.2.status) :
    activeAddrs (b.modify id f) = activeAddrs b := by
  induction b with
  | nil => rfl
  | cons e b ih =>
    obtain ⟨he, hb⟩ := forall_mem_cons.mp hstatus
    rw [Book.modify, map_cons, activeAddrs_cons, activeAddrs_cons]
    have hrest : activeAddrs (map _ b) = activeAddrs b := ih hb
    rw [hrest]
    by_cases hid : e.1 = id
    · rw [if_pos hid, he hid, hlink]
    · rw [if_neg hid]

theorem activeAddrs_fail : activeAddrs (b.fail id) = activeAddrs b :=
  activeAddrs_modify (fun _ => rfl) fun _ _ _ => rfl

theorem activeAddrs_reset (h : ∀ e ∈ b, e.1 = id → e.2.status = true) :
    activeAddrs (b.reset id) = activeAddrs b :=
  activeAddrs_modify (fun _ => rfl) fun e he hid => (h e he hid).symm

/-- A Link SAP that was not active becomes active. -/
theorem activeAddrs_add (ip : Bytes) (port : UInt16) (linkId : LinkId)
    (h : ∀ e ∈ b, e.1 = id → e.2.status = false) :
    (activeAddrs (b.add id ip port linkId)).Perm (linkId.netTypeAddr :: activeAddrs b) := by
  unfold add
  induction b with
  | nil => exact .refl _
  | cons e b ih =>
    obtain ⟨he, hb⟩ := forall_mem_cons.mp h
    unfold Book.insert
    split_ifs with hid
    · rw [activeAddrs_cons, activeAddrs_cons, he hid]
      exact .refl _
    · rw [activeAddrs_cons]
      exact .refl _
    · rw [activeAddrs_cons, activeAddrs_cons]
      split
      · exact ((ih hb).cons _).trans (.swap _ _ _)
      · exact ih hb

end LinkBook

/-! ## The list -/

/-- The list of links of this MIHF names each active Link SAP once, and no other. -/
def Services.Current (cfg : Config) (svc : Services) : Prop :=
  ∃ a, svc.abook.get? cfg.mihfid = some a ∧ a.addrs.Perm svc.lbook.activeAddrs

namespace Services

variable {cfg : Config} {m : MetaMessage} {svc svc' : Services}

/-- It does after it has been derived anew. -/
theorem current_updateLocalCapabilities (h : (svc.abook.get? cfg.mihfid).isSome = true) :
    (svc.updateLocalCapabilities cfg).Current cfg := by
  obtain ⟨a, ha⟩ := isSome_iff_exists.mp h
  refine ⟨_, by rw [get?_updateLocalCapabilities, if_pos rfl, ha]; rfl, ?_⟩
  have haddrs : (derived svc.lbook.active (svc.ubook.map Prod.snd)).listNetTypeAddr.getD [] =
      svc.lbook.activeAddrs := by
    dsimp only [derived, LinkBook.activeAddrs]
    split_ifs with hnil
    · rw [hnil]; rfl
    · rfl
  exact .of_eq haddrs

/-- It depends on the active Link SAPs and on the capabilities of this MIHF only. -/
theorem Current.of_eq (h : svc.Current cfg)
    (hlbook : svc'.lbook.activeAddrs = svc.lbook.activeAddrs)
    (habook : (svc'.abook.get? cfg.mihfid).map AddressEntry.toCapabilities =
      (svc.abook.get? cfg.mihfid).map AddressEntry.toCapabilities) : svc'.Current cfg := by
  obtain ⟨a, ha, hperm⟩ := h
  rw [ha, map_some] at habook
  obtain ⟨a', ha', hcap⟩ := map_eq_some_iff.mp habook
  have haddrs : a'.addrs = a.addrs :=
    congrArg (fun c : Capabilities => c.listNetTypeAddr.getD []) hcap
  exact ⟨a', ha', by rw [haddrs, hlbook]; exact hperm⟩

theorem Current.isSome (h : svc.Current cfg) : (svc.abook.get? cfg.mihfid).isSome = true := by
  obtain ⟨a, ha, -⟩ := h
  rw [ha]; rfl

end Services

/-! ## Steps -/

theorem MetaMessage.not_tellsCapabilities_empty : ¬({} : MetaMessage).TellsCapabilities := by
  unfold TellsCapabilities
  decide

section

variable {cfg : Config} {m : MetaMessage} {svc svc' : Services}

/-- An effect keeps the list, unless the message tells the capabilities of this MIHF. -/
theorem Effect.current (he : Effect cfg m svc svc')
    (hm : m.TellsCapabilities → m.source ≠ cfg.mihfid) (h : svc.Current cfg) :
    svc'.Current cfg := by
  have hsome := h.isSome
  cases he with
  | aside hlbook hubook habook => exact h.of_eq (by rw [hlbook]) (by rw [habook])
  | registered id hf =>
    refine h.of_eq rfl ?_
    rw [Book.get?_modify]
    split_ifs
    · rw [Option.map_map]
      exact congrArg (Option.map · _) (funext hf)
    · rfl
  | elapsed f hf =>
    refine h.of_eq rfl ?_
    rw [Book.get?_map, Option.map_map]
    exact congrArg (Option.map · _) (funext hf)
  | counted hget hfail => exact h.of_eq LinkBook.activeAddrs_fail rfl
  | expired | linkCapable | userRegistered => exact Services.current_updateLocalCapabilities hsome
  | peerTold cap htells =>
    refine h.of_eq rfl ?_
    unfold AddressBook.add
    split <;> rw [Book.get?_insert, if_neg (hm htells)]

theorem Effects.current (he : Effects cfg m svc svc')
    (hm : m.TellsCapabilities → m.source ≠ cfg.mihfid) (h : svc.Current cfg) :
    svc'.Current cfg := by
  induction he with
  | refl => exact h
  | tail _ he ih => exact he.current hm ih

/-- A handler starts with the list as it was, if the sender is in the right state. -/
theorem Begins.current (hb : Begins cfg m svc svc')
    (hregister : m.mid = msgId 1 .indication 6 → ∀ e ∈ svc.lbook, e.1 = m.source →
    e.2.status = false)
    (hreset : m.Resets → ∀ e ∈ svc.lbook, e.1 = m.source → e.2.status = true)
    (h : svc.Current cfg) : svc'.Current cfg := by
  cases hb with
  | nothing => exact h
  | heard hm hget => exact h.of_eq (LinkBook.activeAddrs_reset (hreset hm)) rfl
  | linkRegistered linkId hmid hget =>
    obtain ⟨a, ha, hperm⟩ := h
    obtain rfl := some.inj (ha.symm.trans hget)
    refine ⟨{ a.addLink linkId with ip := a.ip, port := a.port }, ?_, ?_⟩
    · rw [AddressBook.add, ha]
      exact (Book.get?_insert ..).trans (if_pos rfl)
    · have hadd := LinkBook.activeAddrs_add m.ip m.port linkId (hregister hmid)
      have happend : (a.addrs ++ [linkId.netTypeAddr]).Perm (linkId.netTypeAddr :: a.addrs) :=
        perm_append_singleton _ _
      exact happend.trans ((hperm.cons _).trans hadd.symm)
  | linkAdded linkId hmid hget =>
    obtain ⟨a, ha, -⟩ := h
    cases ha.symm.trans hget

end

/-! ## Runs -/

namespace ServiceInput

/-- The state of the sender in the book of Link SAPs is one in which it sends such a message. -/
@[mk_iff]
structure Regular (cfg : Config) (i : ServiceInput) (s : Node Services) : Prop where
  /-- a Link SAP registers while it is not active -/
  registers : i.message.mid = msgId 1 .indication 6 →
    ∀ e ∈ s.svc.lbook, e.1 = i.message.source → e.2.status = false
  /-- confirms and indications come from an active one -/
  resets : i.message.Resets → ∀ e ∈ s.svc.lbook, e.1 = i.message.source → e.2.status = true
  /-- no local program answers a capability discovery in the name of this MIHF -/
  tells : i.message.isLocal = true → i.message.mid = msgId 1 .response 1 →
    i.message.source ≠ cfg.mihfid

instance (cfg : Config) (i : ServiceInput) (s : Node Services) : Decidable (i.Regular cfg s) :=
  decidable_of_iff' _ (regular_iff cfg i s)

variable {cfg : Config} {s : Node Services}

open Svc in
/-- What comes back from the network is not handled. -/
theorem svc_fromPeer_self {m : MetaMessage} (hm : m.source = cfg.mihfid) :
    (serviceStep cfg (fromPeer m) s).state.svc = s.svc := by
  refine Post.state (P := fun s' => s'.svc = s.svc) ?_
  simp only [program, receive, sacProcessMessage, post_bind, post_newMsg,
    post_readMsg, Store.next_push]
  rw [Store.get_push_of_lt (by simp), Store.get_push_next, if_pos hm]
  rfl

theorem Regular.current {i : ServiceInput} (hreg : i.Regular cfg s) (h : s.svc.Current cfg) :
    (serviceStep cfg i s).state.svc.Current cfg := by
  by_cases hself : ∃ m, i = fromPeer m ∧ m.source = cfg.mihfid
  · obtain ⟨m, rfl, hm⟩ := hself
    rw [svc_fromPeer_self hm]
    exact h
  · obtain ⟨svc₁, hbegin, heffects⟩ : Handled cfg i.message s.svc (serviceStep cfg i s).state.svc :=
      Svc.Post.state ((i.leaves s).mono (fun _ _ h => h) fun _ _ h => h.2)
    refine heffects.current ?_ (hbegin.current hreg.registers hreg.resets h)
    cases i with
    | fromLocal m => exact fun hm => hreg.tells rfl (hm.resolve_left fun h => nomatch h.2)
    | fromPeer m => exact fun _ hm => hself ⟨m, rfl, hm⟩
    | eventTimer | commandTimer | second | pool =>
      exact fun hm => absurd hm not_tellsCapabilities_empty

end ServiceInput

section

variable {cfg : Config} {svc : Services} {tid : UInt16}

open Svc in
theorem serviceStart_current (h : (svc.abook.get? cfg.mihfid).isSome = true) :
    (serviceStart cfg svc tid).svc.Current cfg := by
  refine Post.state (P := fun s => s.svc.Current cfg) ?_
  rw [serviceManagement, post_bind, post_modifySvc, post_bind, post_getSvc]
  have hstart : (svc.updateLocalCapabilities cfg).Current cfg :=
    Services.current_updateLocalCapabilities h
  have hrequests : Within cfg {}
    (requestLinkCapabilities cfg (svc.updateLocalCapabilities cfg).lbook.keys) :=
    inferInstance
  have hnone (htells : ({} : MetaMessage).TellsCapabilities) : [] ≠ cfg.mihfid :=
    absurd htells not_tellsCapabilities_empty
  exact (hrequests.post _).mono (fun _ _ he => Effects.current he hnone hstart)
    fun _ _ he => Effects.current he.2 hnone hstart

/-- The list of links is never stale in a run with regular inputs. -/
theorem links_current (h : (svc.abook.get? cfg.mihfid).isSome = true) {is : List ServiceInput}
    (his : EStateM.Along (serviceStep cfg) (ServiceInput.Regular cfg) is
      (serviceStart cfg svc tid)) : (serviceRun cfg svc tid is).svc.Current cfg :=
  EStateM.runAll_along (P := fun s => s.svc.Current cfg) (fun _ _ hi hs => hi.current hs) is
    (serviceStart_current h) his

end

open Sample

namespace LinkList

/-- The Link SAP `83` reports that its link is up. -/
def linkUp : ServiceInput :=
  .fromLocal { mid := LinkEvent.up.mid, source := [83], destination := [77]
               payload := [13, 7, 19, 0, 0, 6, 1, 1, 0] }

/-- A Link SAP that registers twice is listed twice. One that reports an event after it has become
inactive is active again, and not listed. -/
theorem links_stale :
    ¬(serviceRun (mihf 2) empty 0 [registers, registers]).svc.Current (mihf 2) ∧
      ¬(serviceRun (mihf 0) empty 0 [registers, linkUp]).svc.Current (mihf 0) := by
  have hlength {cfg : Config} {svc : Services} (h : svc.Current cfg) :
      (svc.abook.get? cfg.mihfid).map (·.addrs.length) = some svc.lbook.activeAddrs.length := by
    obtain ⟨a, ha, hperm⟩ := h
    rw [ha, map_some, hperm.length_eq]
  exact ⟨fun h => absurd (hlength h) (by decide +kernel), fun h =>
    absurd (hlength h) (by decide +kernel)⟩

/-- A Link SAP registers, and a while later reports that its link is up. -/
theorem links_current_up :
    (serviceRun (mihf 2) empty 0 [registers, .second, linkUp]).svc.Current (mihf 2) :=
  links_current rfl (by decide +kernel)

end LinkList

end Odtone.Mihf
