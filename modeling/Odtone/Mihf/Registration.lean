import Odtone.Mihf.Sac

/-! # Registrations that fail

`register_request` records the list of links of the peer, and an interval that has run out, before
anybody has answered; `register_response` adds the granted interval if the status is success and
undoes nothing if it is not. We follow one exchange through the address book: the request, then any
number of responses that do not report success, with the ticks of the address book in between.
-/

namespace Odtone.Mihf

open Wire Services List Option

/-- What the address book has registered for a peer: its links and the interval that is left. -/
abbrev Registration := Option Ty.linkIdList.Val × Option (BitVec 16)

namespace Registration

/-- A registration `n` seconds later. -/
def elapse (n : Nat) (r : Registration) : Registration := (r.1, r.2.map (· - BitVec.ofNat 16 n))

theorem map_elapse_zero (r : Option Registration) : r.map (elapse 0) = r := by
  have h : elapse 0 = id := funext fun r => by simp [elapse]
  rw [h, Option.map_id, id]

theorem elapse_elapse (r : Registration) (n k : Nat) :
    (r.elapse n).elapse k = r.elapse (n + k) := by
  have h (i : BitVec 16) : i - BitVec.ofNat 16 n - BitVec.ofNat 16 k = i -
    BitVec.ofNat 16 (n + k) := by
    rw [BitVec.ofNat_add]
    bv_omega
  simp [elapse, Function.comp_def, h]

theorem elapse_injective (n : Nat) : Function.Injective (elapse n) := by
  rintro ⟨l, i⟩ ⟨l', i'⟩ h
  have hsub : Function.Injective fun i : BitVec 16 => i - BitVec.ofNat 16 n := by
    intro a b hab
    simpa [BitVec.sub_add_cancel] using congrArg (· + BitVec.ofNat 16 n) hab
  exact Prod.ext (Prod.mk.inj h).1 (map_injective hsub (Prod.mk.inj h).2)

end Registration

/-- The registration of a peer that is in the address book. -/
def Services.registration (svc : Services) (id : Bytes) : Option Registration :=
  (svc.abook.get? id).map fun e => (e.regLinkList, e.regInterval)

/-- `address_book::set_registration` with a list of links, on the state of the services -/
def Services.register (svc : Services) (id : Bytes) (lil : Ty.linkIdList.Val) : Services :=
  { svc with abook := svc.abook.modify id fun a =>
      { a with regLinkList := some lil, regInterval := some 0 } }

theorem Services.registration_register (svc : Services) (id j : Bytes) (lil : Ty.linkIdList.Val) :
    (svc.register id lil).registration j =
      if j = id then (svc.registration j).map fun _ => (some lil, some 0)
      else svc.registration j := by
  simp only [registration, register, Book.get?_modify]
  split_ifs
  · simp [Function.comp_def]
  · rfl

/-! ## The handlers -/

/-- The other side of an exchange: the sender of a request for this MIHF, the destination of one
that is forwarded. -/
def Config.registrar (cfg : Config) (m : MetaMessage) : Bytes :=
  if cfg.IsDestination m then m.source else m.destination

/-- The list of links a request asks to register, if the handler reads one. -/
def Config.asksFor (cfg : Config) (m : MetaMessage) : Option Ty.linkIdList.Val :=
  if cfg.IsDestination m && m.isLocal then none
  else match Element.linkIdList.get ⟨m.payload, 0⟩ with
    | .ok lil _ => some lil
    | .error _ _ => none

/-- The response reports success, and an interval. -/
def MetaMessage.Grants (m : MetaMessage) : Prop :=
  ∃ interval c, registerResponseParams ⟨m.payload, 0⟩ = .ok (statusSuccess, interval) c

instance (m : MetaMessage) : Decidable m.Grants :=
  match h : registerResponseParams ⟨m.payload, 0⟩ with
  | .ok (st, interval) c =>
    if hst : st = statusSuccess then isTrue ⟨interval, c, by rw [h, hst]⟩
    else isFalse fun ⟨_, _, h'⟩ => hst (Prod.mk.inj (EStateM.Result.ok.inj (h.symm.trans h')).1).1
  | .error _ _ => isFalse fun ⟨_, _, h'⟩ => nomatch h.symm.trans h'

namespace Svc

variable {cfg : Config} {s : Node Services} {svc : Services} {i : Ptr}
  {E : Fault → Node Services → Prop}

/-- The indications to the users change nothing in the services. -/
theorem post_indicateTo (ids : List Bytes) (hi : i < s.msgs.next) (hs : s.svc = svc) :
    Post handOver (indicateTo i ids) s (fun _ s' => s'.svc = svc) E := by
  induction ids generalizing s with
  | nil => exact hs
  | cons id ids ih =>
    simp only [indicateTo, post_bind, post_modifyMsg, post_lpoolAdd]
    rw [post_transmit_handOver (by exact hi)]
    exact ih (by exact hi) hs

theorem post_forwardRequest_svc (hi : i < s.msgs.next) (hs : s.svc = svc) :
    Post handOver (forwardRequest cfg i) s (fun _ s' => s'.svc = svc) E := by
  simp only [forwardRequest, post_bind, post_lpoolAdd, post_modifyMsg]
  rw [post_transmit_handOver (by exact hi)]
  exact hs

/-- A request registers the links it asks for at once. -/
theorem post_registerRequest (cfg : Config) {o : Ptr} (hi : i < s.msgs.next) :
    let svc := ((cfg.asksFor (s.msgs.get i)).map
      (s.svc.register (cfg.registrar (s.msgs.get i)))).getD s.svc
    Post handOver (registerRequest cfg i o) s (fun _ s' => s'.svc = svc)
      (fun _ s' => s'.svc = svc) := by
  intro svc
  simp only [registerRequest, post_bind, post_readMsg, post_ite, post_pure,
    post_modifyMsg, post_getSvc,
    post_parse, setRegistrationLinks, post_modifySvc]
  refine ⟨fun hdst => ⟨fun hlocal => ?_, fun hlocal => ⟨fun lil c hlil => ?_, fun e c hlil => ?_⟩⟩,
    fun hdst => ⟨fun lil c hlil => ?_, fun e c hlil => ?_⟩⟩
  · refine post_indicateTo _ (by exact hi) ?_
    simp [svc, Config.asksFor, hdst, hlocal]
  · refine post_indicateTo _ (by exact hi) ?_
    simp [svc, Config.asksFor, Config.registrar, hdst, hlocal, hlil, register]
  · simp [svc, Config.asksFor, hdst, hlocal, hlil]
  · refine post_forwardRequest_svc (by exact hi) ?_
    simp [svc, Config.asksFor, Config.registrar, hdst, hlil, register]
  · simp [svc, Config.asksFor, hdst, hlil]

/-- A response that does not report success registers nothing. -/
theorem post_registerResponse (cfg : Config) {o : Ptr} (hi : i < s.msgs.next)
    (hfail : ¬(s.msgs.get i).Grants) :
    Post handOver (registerResponse cfg i o) s (fun _ s' => s'.svc = s.svc) fun _ s' =>
    s'.svc = s.svc := by
  have hpayload {m : MetaMessage} {l : LocalTransactionPool}
      (h : s.lpool.setUserTid (s.msgs.get i) = some (m, l)) : m.payload =
      (s.msgs.get i).payload := by
    obtain ⟨p, -, hp⟩ := map_eq_some_iff.mp h
    rw [← (Prod.mk.inj hp).1]
  simp only [registerResponse, post_bind, post_readMsg, post_setUserTid, post_ite, post_pure,
    post_modifyMsg, post_parse, setRegistrationInterval, post_modifySvc, Store.get_set_self]
  refine ⟨fun m l hset => ⟨fun _ => ⟨fun arg c harg => ⟨fun hst => ?_, fun _ => ?_⟩, ?_⟩, ?_⟩, ?_⟩
  · refine absurd ⟨arg.2, c, ?_⟩ hfail
    rw [← hpayload hset, harg, ← hst]
  · refine ⟨fun _ => ?_, fun _ => ?_⟩
    all_goals
      rw [post_transmit_handOver (by exact hi)]
      rfl
  all_goals simp

end Svc

/-! ## An exchange -/

/-- What may happen to an exchange after its request. -/
inductive AfterRequest where
  | tick
  | response (m : MetaMessage)

namespace Svc

variable (cfg : Config)

/-- A handler is called for a message, with an empty one for its response. -/
def receive (h : Handler Services) (m : MetaMessage) : Svc Unit := do
  let i ← newMsg m
  let o ← newMsg { tid := m.tid }
  let _ ← h i o

def afterRequest : AfterRequest → Svc Unit
  | .tick => addressTick
  | .response m => receive (registerResponse cfg) m

end Svc

/-- The node at the end of an exchange that the request `m` starts. An exception discards the
message and leaves what its handler has changed. -/
def registerExchange (cfg : Config) (s : Node Services) (m : MetaMessage)
    (later : List AfterRequest) :
    Node Services :=
  later.foldl (fun s a => (Svc.exec handOver (Svc.afterRequest cfg a) s).state)
    (Svc.exec handOver (Svc.receive (Svc.registerRequest cfg) m) s).state

namespace AfterRequest

/-- No response reports success. -/
def Failed (later : List AfterRequest) : Prop := ∀ m, response m ∈ later → ¬m.Grants

def seconds : AfterRequest → Nat
  | tick => 1
  | response _ => 0

/-- The seconds that pass. -/
def ticks (later : List AfterRequest) : Nat := (later.map seconds).sum

end AfterRequest

theorem Svc.receive_state {h : Handler Services} {m : MetaMessage} {s : Node Services}
    {P : Node Services → Prop}
    (hh : ∀ s' : Node Services, s'.svc = s.svc → s.msgs.next < s'.msgs.next →
      s'.msgs.get s.msgs.next = m →
      Post handOver (h s.msgs.next (s.msgs.next + 1)) s' (fun _ => P) fun _ => P) :
    P (exec handOver (receive h m) s).state := by
  refine Post.state ?_
  simp only [receive, post_bind, post_newMsg, Store.next_push]
  refine hh _ rfl (Nat.lt_add_of_pos_right Nat.two_pos) ?_
  rw [Store.get_push_of_lt (by simp), Store.get_push_next]

/-- A second passes for every registration. -/
theorem Svc.registration_addressTick (s : Node Services) (id : Bytes) :
    (exec handOver addressTick s).state.svc.registration id =
      (s.svc.registration id).map (Registration.elapse 1) := by
  have h := Book.get?_map s.svc.abook
    (fun a => { a with regInterval := a.regInterval.map (· - 1) }) id
  refine (congrArg (Option.map _) h).trans ?_
  rw [registration, Option.map_map, Option.map_map]
  rfl

theorem Svc.registration_afterRequest (cfg : Config) (s : Node Services)
    (a : AfterRequest) (id : Bytes) (ha : ∀ m, a = .response m → ¬m.Grants) :
    (exec handOver (afterRequest cfg a) s).state.svc.registration id =
      (s.svc.registration id).map (Registration.elapse a.seconds) := by
  cases a with
  | tick => exact Svc.registration_addressTick s id
  | response m =>
    have h := Svc.receive_state fun s' hsvc hi (hm : _ = m) => by
      simpa only [hsvc] using Svc.post_registerResponse cfg (o := s.msgs.next + 1) hi
        (hm ▸ ha m rfl)
    exact (congrArg (registration · id) h).trans (Registration.map_elapse_zero _).symm

theorem registration_foldl_afterRequest (cfg : Config) {later : List AfterRequest}
    (s : Node Services) (id : Bytes) (hlater : AfterRequest.Failed later) :
    (later.foldl (fun s a => (Svc.exec handOver (Svc.afterRequest cfg a) s).state)
      s).svc.registration id =
      (s.svc.registration id).map (Registration.elapse (AfterRequest.ticks later)) := by
  induction later generalizing s with
  | nil => exact (Registration.map_elapse_zero _).symm
  | cons a later ih =>
    rw [foldl_cons, ih _ fun m hm => hlater m (mem_cons_of_mem a hm),
      Svc.registration_afterRequest cfg s a id fun m hm => hlater m (hm ▸ mem_cons_self),
      Option.map_map]
    refine congrArg (Option.map · _) (funext fun r => ?_)
    rw [Function.comp_apply, Registration.elapse_elapse, AfterRequest.ticks, AfterRequest.ticks,
      map_cons, sum_cons]

/-- An exchange that does not succeed leaves the registration of the peer as it was, but for the
time that has passed, if and only if its request is one this node's own user addresses to it, has no
list of links that can be read, comes from or goes to a peer that is not in the address book, or
asks for what stands there already without an interval. -/
theorem registerExchange_keeps_iff (cfg : Config) (s : Node Services) (m : MetaMessage)
    (later : List AfterRequest) (hlater : AfterRequest.Failed later) :
    (registerExchange cfg s m later).svc.registration (cfg.registrar m) =
        (s.svc.registration (cfg.registrar m)).map
          (Registration.elapse (AfterRequest.ticks later)) ↔
      (cfg.IsDestination m ∧ m.isLocal) ∨
      (∀ lil c, Element.linkIdList.get ⟨m.payload, 0⟩ ≠ .ok lil c) ∨
      s.svc.registration (cfg.registrar m) = none ∨
      ∃ lil c, Element.linkIdList.get ⟨m.payload, 0⟩ = .ok lil c ∧
        s.svc.registration (cfg.registrar m) = some (some lil, some 0) := by
  have hstate := Svc.receive_state fun s' hsvc hi (hm : _ = m) => by
    simpa only [hm, hsvc] using Svc.post_registerRequest cfg (o := s.msgs.next + 1) hi
  rw [registerExchange, registration_foldl_afterRequest cfg _ _ hlater,
    (map_injective (Registration.elapse_injective _)).eq_iff, hstate, Config.asksFor]
  by_cases hown : cfg.IsDestination m && m.isLocal
  · rw [if_pos hown]
    exact iff_of_true rfl (.inl (by simpa using hown))
  have hown' : ¬(cfg.IsDestination m = true ∧ m.isLocal = true) := by simpa using hown
  rw [if_neg hown, or_iff_right hown']
  cases hlil : Element.linkIdList.get ⟨m.payload, 0⟩ with
  | error e c => simp
  | ok lil c =>
    simp only [map_some, getD_some, Services.registration_register, if_true]
    cases s.svc.registration (cfg.registrar m) <;> simp [eq_comm]

namespace Registration

/-- A user asks to register one link with the peer `[80]`. -/
def sampleRequest : MetaMessage :=
  { mid := msgId 1 .request 2
    tid := 4
    source := [65]
    destination := [80]
    payload := [25, 7, 1, 19, 0, 0, 6, 1, 1]
    isLocal := true }

/-- The peer rejects the request. -/
def sampleRejection : MetaMessage :=
  { mid := msgId 1 .response 2
    tid := 4
    source := [80]
    destination := [77]
    payload := [3, 1, 3, 21, 2, 0, 0] }

end Registration

open Registration in
/-- A rejected registration with a peer that holds the list already, without an interval. -/
theorem registerExchange_keeps_held :
    let links : Ty.linkIdList.Val := [((19 : BitVec 8), .inl ((6 : BitVec 16), [1], ()), ())]
    let s := Node.initial ({ abook := [([80], { regLinkList := links, regInterval := some 0 })] } :
      Services) 0
    let later := [.tick, .response sampleRejection]
    AfterRequest.Failed later ∧
      (registerExchange sampleConfig s sampleRequest later).svc.registration [80] =
        (s.svc.registration [80]).map (elapse (AfterRequest.ticks later)) := by
  intro links s later
  have hlater : AfterRequest.Failed later := by
    intro m hm
    obtain rfl : m = sampleRejection := by simpa [later] using hm
    decide
  exact ⟨hlater, (registerExchange_keeps_iff sampleConfig s sampleRequest later hlater).mpr
    (.inr (.inr (.inr ⟨_, _, rfl, rfl⟩)))⟩

open Registration in
/-- A peer that is in the address book rejects the request: its links stay registered, and the
interval, which was not set, goes on below zero. -/
theorem registerExchange_leaves_links :
    let s := Node.initial ({ abook := [([80], {})] } : Services) 0
    let s' := registerExchange sampleConfig s sampleRequest [.response sampleRejection, .tick]
    ¬sampleRejection.Grants ∧ s.svc.registration [80] = some (none, none) ∧
      ((s'.svc.registration [80]).map fun r => (r.1.isSome, r.2)) = some (true, some 0xffff) := by
  refine ⟨by decide, rfl, by decide +kernel⟩

/-! ## The interval between two registrations -/

/-- What the services and the clock do to the registrations. -/
inductive RegistrationOp where
  | setLinks (id : Bytes) (lil : Option Ty.linkIdList.Val)
  | setInterval (id : Bytes) (interval : Option (BitVec 16))
  | tick
deriving DecidableEq

namespace RegistrationOp

/-- Is it a call of `set_registration` for the peer? -/
def sets (id : Bytes) : RegistrationOp → Bool
  | .setLinks j _ | .setInterval j _ => j = id
  | .tick => false

/-- Carry out the operation. -/
def call : RegistrationOp → Svc Unit
  | .setLinks id lil => Svc.setRegistrationLinks id lil
  | .setInterval id interval => Svc.setRegistrationInterval id interval
  | .tick => Svc.addressTick

/-- The node after a sequence of operations. -/
def run (s : Node Services) (ops : List RegistrationOp) : Node Services :=
  ops.foldl (fun s op => (Svc.exec handOver op.call s).state) s

end RegistrationOp

/-- `reg_interval` of a peer that is in the address book. -/
def Services.regInterval (svc : Services) (id : Bytes) : Option (BitVec 16) :=
  (svc.registration id).bind Prod.snd

namespace RegistrationOp

variable {s : Node Services} {id : Bytes} {op : RegistrationOp} {ops : List RegistrationOp}

theorem run_append (s : Node Services) (ops ops' : List RegistrationOp) :
    run s (ops ++ ops') = run (run s ops) ops' := foldl_append ..

theorem regInterval_tick (s : Node Services) (id : Bytes) :
    (run s [.tick]).svc.regInterval id = (s.svc.regInterval id).map (· - 1) := by
  have h : (run s [.tick]).svc.registration id =
      (s.svc.registration id).map (Registration.elapse 1) := Svc.registration_addressTick s id
  rw [regInterval, h, regInterval]
  cases s.svc.registration id <;> rfl

theorem regInterval_of_ne (h : op.sets id = false) (htick : op ≠ .tick) :
    (run s [op]).svc.regInterval id = s.svc.regInterval id := by
  have hget : ∀ j f, j ≠ id → (s.svc.abook.modify j f).get? id = s.svc.abook.get? id :=
    fun j f hj => by rw [Book.get?_modify, if_neg hj.symm]
  have hregistration : (run s [op]).svc.registration id = s.svc.registration id := by
    cases op with
    | tick => exact absurd rfl htick
    | setLinks j lil =>
      exact congrArg (Option.map _) (hget j
        (fun a => { a with regLinkList := lil, regInterval := some 0 }) (by simpa [sets] using h))
    | setInterval j interval =>
      exact congrArg (Option.map _) (hget j
        (fun a => { a with regInterval := interval }) (by simpa [sets] using h))
  rw [regInterval, hregistration, regInterval]

end RegistrationOp

/-- From `i` to `j` an interval has not grown, and one that has run out has stayed so. -/
def CountsDown (i j : Option (BitVec 16)) : Prop :=
  Rel (fun v w => w ≤ v) i j ∧ (i = some 0 → j = some 0)

namespace CountsDown

variable {i j k : Option (BitVec 16)}

theorem refl (i : Option (BitVec 16)) : CountsDown i i := by
  refine ⟨?_, id⟩
  cases i with
  | none => exact .none
  | some v => exact .some (BitVec.le_refl v)

theorem trans (h : CountsDown i j) (h' : CountsDown j k) : CountsDown i k := by
  refine ⟨?_, fun hi => h'.2 (h.2 hi)⟩
  obtain ⟨h, -⟩ := h
  obtain ⟨h', -⟩ := h'
  cases h with
  | none => exact h'
  | some hvw =>
    cases h' with
    | some hwx => exact .some (BitVec.le_trans hwx hvw)

theorem tick_iff : CountsDown i (i.map (· - 1)) ↔ i ≠ some 0 := by
  constructor
  · rintro ⟨-, h⟩ rfl
    have hwrap := h rfl
    revert hwrap
    decide
  · intro hi
    cases i with
    | none => exact refl none
    | some v =>
      have hv : v ≠ 0 := fun h => hi (congrArg some h)
      exact ⟨.some (by bv_omega), fun h => absurd h hi⟩

end CountsDown

namespace RegistrationOp

variable {s : Node Services} {id : Bytes} {op : RegistrationOp} {ops : List RegistrationOp}

/-- Between two calls of `set_registration` for a peer its `reg_interval` only counts down if and
only if it is never zero when a second passes. -/
theorem regInterval_countsDown_iff (s : Node Services) (id : Bytes) (ops : List RegistrationOp) :
    (∀ pre mid, pre ++ mid <+: ops → (∀ op ∈ mid, op.sets id = false) →
      CountsDown ((run s pre).svc.regInterval id) ((run s (pre ++ mid)).svc.regInterval id)) ↔
    ∀ pre, pre ++ [.tick] <+: ops → (run s pre).svc.regInterval id ≠ some 0 := by
  constructor
  · intro h pre hpre
    have hcount := h pre [.tick] hpre (by simp [sets])
    rw [run_append, regInterval_tick] at hcount
    exact CountsDown.tick_iff.mp hcount
  · intro h pre mid hmid hsets
    induction mid generalizing pre with
    | nil =>
      rw [append_nil]
      exact .refl _
    | cons op mid ih =>
      rw [append_cons] at hmid ⊢
      obtain ⟨hop, hsets⟩ := forall_mem_cons.mp hsets
      refine CountsDown.trans ?_ (ih (pre ++ [op]) hmid hsets)
      rw [run_append]
      by_cases htick : op = .tick
      · subst htick
        rw [regInterval_tick]
        exact CountsDown.tick_iff.mpr (h pre ((prefix_append _ _).trans hmid))
      · rw [regInterval_of_ne hop htick]
        exact .refl _

/-- The interval of a peer that is not yet confirmed becomes the longest there is when a second
passes. -/
theorem regInterval_wraps :
    let s := Node.initial ({ abook := [([80], {})] } : Services) 0
    (run s [.setLinks [80] none]).svc.regInterval [80] = some 0 ∧
      (run s [.setLinks [80] none, .tick]).svc.regInterval [80] = some 0xffff := by
  decide

end RegistrationOp

end Odtone.Mihf
