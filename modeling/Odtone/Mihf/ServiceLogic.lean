import Odtone.Mihf.Services

/-! # Reasoning about services

Rules for what holds after a service has run, one for each operation and for each program the
services share. A rule describes both outcomes, since an exception leaves the state as it was
changed up to there.
-/

namespace Odtone.Mihf

open List
open Wire (Bytes Arg Decoder)

namespace Svc

variable {α β : Type} (out : Ptr → M Services Unit)

/-- Started in `s`, the service returns with `Q` or fails with `E`. -/
def Post (x : Svc α) (s : Node Services) (Q : α → Node Services → Prop)
    (E : Fault → Node Services → Prop) : Prop :=
  Prog.Post (I := Calls Services) (fun o => perform out o) x s Q E

variable {out} {x y : Svc α} {f : α → Svc β} {s : Node Services} {p : Ptr}
  {Q Q' : α → Node Services → Prop} {R : β → Node Services → Prop}
  {E E' : Fault → Node Services → Prop} {U : Unit → Node Services → Prop}

theorem post_iff : Post out x s Q E ↔ match exec out x s with
    | .ok a s' => Q a s'
    | .error e s' => E e s' := by
  have h : exec out x s = Prog.run (fun o => perform out o) x s := rfl
  rw [Post, Prog.Post, ← h]
  cases exec out x s <;> rfl

theorem Post.mono (hx : Post out x s Q E) (hQ : ∀ a s', Q a s' → Q' a s')
    (hE : ∀ e s', E e s' → E' e s') : Post out x s Q' E' :=
  Prog.Post.mono hx hQ hE

/-- A property of the state afterwards, whatever the outcome. -/
theorem Post.state {P : Node Services → Prop} (hx : Post out x s (fun _ => P) (fun _ => P)) :
    P (exec out x s).state := by
  rw [post_iff] at hx
  cases hrun : exec out x s with
  | ok | error =>
    rw [hrun] at hx
    exact hx

/-! ## Structure -/

@[simp] theorem post_pure {a : α} : Post out (pure a) s Q E ↔ Q a s := Iff.rfl

@[simp] theorem post_throw {e : Fault} : Post out (throw e : Svc α) s Q E ↔ E e s := Iff.rfl

@[simp] theorem post_bind :
    Post out (x >>= f) s R E ↔ Post out x s (fun a s' => Post out (f a) s' R E) E :=
  Prog.post_bind

@[simp] theorem post_map {g : α → β} {Q : β → Node Services → Prop} :
    Post out (g <$> x) s Q E ↔ Post out x s (fun a => Q (g a)) E := post_bind

@[simp] theorem post_tryCatch {c : Fault → Svc α} : Post out (tryCatch x c) s Q E ↔
    Post out x s Q (fun e s' => Post out (c e) s' Q E) :=
  Prog.post_tryCatch

@[simp] theorem post_ite {c : Prop} [Decidable c] : Post out (if c then x else y) s Q E ↔
    (c → Post out x s Q E) ∧ (¬c → Post out y s Q E) := by
  by_cases h : c <;> simp [h]

/-! ## Operations -/

@[simp] theorem post_newMsg {m : MetaMessage} {Q : Ptr → Node Services → Prop} :
    Post out (newMsg m) s Q E ↔ Q s.msgs.next { s with msgs := s.msgs.push m } := Iff.rfl

@[simp] theorem post_readMsg {Q : MetaMessage → Node Services → Prop} :
    Post out (readMsg p) s Q E ↔ Q (s.msgs.get p) s := Iff.rfl

@[simp] theorem post_writeMsg {m : MetaMessage} :
    Post out (writeMsg p m) s U E ↔ U () { s with msgs := s.msgs.set p m } := Iff.rfl

@[simp] theorem post_getSvc {Q : Services → Node Services → Prop} :
    Post out getSvc s Q E ↔ Q s.svc s := Iff.rfl

@[simp] theorem post_setSvc {svc : Services} :
    Post out (setSvc svc) s U E ↔ U () { s with svc := svc } := Iff.rfl

@[simp] theorem post_getLpool {Q : LocalTransactionPool → Node Services → Prop} :
    Post out getLpool s Q E ↔ Q s.lpool s := Iff.rfl

@[simp] theorem post_setLpool {l : LocalTransactionPool} :
    Post out (setLpool l) s U E ↔ U () { s with lpool := l } := Iff.rfl

@[simp] theorem post_modifyMsg {g : MetaMessage → MetaMessage} :
    Post out (modifyMsg p g) s U E ↔ U () { s with msgs := s.msgs.update p g } := Iff.rfl

@[simp] theorem post_modifySvc {g : Services → Services} :
    Post out (modifySvc g) s U E ↔ U () { s with svc := g s.svc } := Iff.rfl

theorem post_parse {d : Decoder α} : Post out (parse p d) s Q E ↔
    (∀ a c, d ⟨(s.msgs.get p).payload, 0⟩ = .ok a c → Q a s) ∧
    ∀ e c, d ⟨(s.msgs.get p).payload, 0⟩ = .error e c → E (.wire e) s := by
  cases hd : d ⟨(s.msgs.get p).payload, 0⟩ with
  | ok a c => simp [post_iff, exec_parse hd]
  | error e c => simp [post_iff, exec_parse_error hd]

theorem post_compose {mid : UInt16} {args : List Arg} : Post out (compose p mid args) s U E ↔
    (∀ m', (s.msgs.get p).toMessage.insert mid none args = .ok m' →
      U () { s with msgs := s.msgs.set p { s.msgs.get p with toMessage := m' } }) ∧
    ∀ e, (s.msgs.get p).toMessage.insert mid none args = .error e → E (.wire e) s := by
  cases hm : (s.msgs.get p).toMessage.insert mid none args with
  | ok m' => simp [post_iff, exec_compose hm]
  | error e => simp [compose, hm]

theorem post_ofOptional {a : Option α} : Post out (ofOptional a) s Q E ↔
    (∀ b, a = some b → Q b s) ∧ (a = none → E .absentOptional s) := by
  cases a <;> simp [ofOptional]

/-! ## Books and pools -/

variable {id : Bytes}

theorem post_linkReset : Post out (linkReset id) s U E ↔ (∀ e, s.svc.lbook.get? id = some e →
      U () { s with svc := { s.svc with lbook := s.svc.lbook.reset id } }) ∧
    (s.svc.lbook.get? id = none → E .unknownLinkSap s) := by
  rcases (s.svc.lbook.get? id).eq_none_or_eq_some with h | ⟨e, h⟩ <;> simp [linkReset, h]

theorem post_linkFail {Q : UInt16 → Node Services → Prop} : Post out (linkFail id) s Q E ↔
    (∀ e, s.svc.lbook.get? id = some e →
      Q (e.fail + 1) { s with svc := { s.svc with lbook := s.svc.lbook.fail id } }) ∧
    (s.svc.lbook.get? id = none → E .unknownLinkSap s) := by
  rcases (s.svc.lbook.get? id).eq_none_or_eq_some with h | ⟨e, h⟩ <;> simp [linkFail, h]

theorem post_linkGet {Q : LinkEntry → Node Services → Prop} : Post out (linkGet id) s Q E ↔
    (∀ e, s.svc.lbook.get? id = some e → Q e s) ∧
    (s.svc.lbook.get? id = none → E .unknownLinkSap s) := by
  rcases (s.svc.lbook.get? id).eq_none_or_eq_some with h | ⟨e, h⟩ <;> simp [linkGet, h]

theorem post_addressGet {Q : AddressEntry → Node Services → Prop} : Post out (addressGet id) s Q E ↔
    (∀ e, s.svc.abook.get? id = some e → Q e s) ∧ (s.svc.abook.get? id = none → E .noEntry s) := by
  rcases (s.svc.abook.get? id).eq_none_or_eq_some with h | ⟨e, h⟩ <;> simp [addressGet, h]

@[simp] theorem post_searchInterface {l : LinkId} {Q : Bytes → Node Services → Prop} :
    Post out (searchInterface l) s Q E ↔ Q (s.svc.lbook.searchInterface l) s := Iff.rfl

@[simp] theorem post_lpoolAdd :
    Post out (lpoolAdd p) s U E ↔ U () { s with lpool := s.lpool.add (s.msgs.get p) } := Iff.rfl

theorem post_setUserTid {Q : Bool → Node Services → Prop} :
    Post out (setUserTid p) s Q E ↔
    (∀ m l, s.lpool.setUserTid (s.msgs.get p) = some (m, l) →
      Q true { s with lpool := l, msgs := s.msgs.set p m }) ∧
    (s.lpool.setUserTid (s.msgs.get p) = none → Q false s) := by
  rcases (s.lpool.setUserTid (s.msgs.get p)).eq_none_or_eq_some with h | ⟨⟨m, l⟩, h⟩ <;>
    simp [setUserTid, h]

/-- A handler that goes on with `x` if the message answers a request of a user. -/
theorem post_ifUser {x y : Svc α} : Post out (do if ← setUserTid p then x else y) s Q E ↔
    (∀ m l, s.lpool.setUserTid (s.msgs.get p) = some (m, l) →
      Post out x { s with lpool := l, msgs := s.msgs.set p m } Q E) ∧
    (s.lpool.setUserTid (s.msgs.get p) = none → Post out y s Q E) := by
  rw [post_bind, post_setUserTid]
  simp

theorem post_unlessInactive {cfg : Config} {act : Svc Unit} :
    Post out (unlessInactive cfg id act) s U E ↔
    (∀ e, s.svc.lbook.get? id = some e → if e.fail + 1 > cfg.linkDeleteValue then
        U () { s with svc := { s.svc with
          lbook := LinkBook.inactive (s.svc.lbook.fail id) id }.updateLocalCapabilities cfg }
      else Post out act { s with svc := { s.svc with lbook := s.svc.lbook.fail id } } U E) ∧
    (s.svc.lbook.get? id = none → E .unknownLinkSap s) := by
  rw [unlessInactive, post_bind, post_linkFail]
  refine and_congr (forall₂_congr fun e he => ?_) Iff.rfl
  rw [post_ite]
  split_ifs with h <;> simp [h]

/-! ## Transmission -/

theorem post_transmit (hp : p < s.msgs.next) : Post out (transmit p) s U E ↔
    (let r := s.svc.route (s.msgs.get p)
    let s' := { s with msgs := s.msgs.set p r.1 }
    if r.2 then U () (s'.emit (.udpSend p r.1))
    else match out p s' with
      | .ok a s' => U a s'
      | .error e s' => E e s') := by
  rw [post_iff, exec_transmit hp]
  dsimp only
  split_ifs
  · rfl
  · cases out p { s with msgs := s.msgs.set p (s.svc.route (s.msgs.get p)).1 } <;> rfl

end Svc

/-- The node after the message `p` has been transmitted, with `handOver` for `message_out`. -/
def Node.transmitting (s : Node Services) (p : Ptr) : Node Services :=
  let r := s.svc.route (s.msgs.get p)
  { s with msgs := s.msgs.set p r.1 }.emit
    (if r.2 then .udpSend p r.1 else .messageOut p r.1 none none)

theorem Svc.post_transmit_handOver {s : Node Services} {p : Ptr} {U : Unit → Node Services → Prop}
    {E : Fault → Node Services → Prop} (hp : p < s.msgs.next) :
    Svc.Post handOver (Svc.transmit p) s U E ↔ U () (s.transmitting p) := by
  rw [Svc.post_transmit hp]
  dsimp only [Node.transmitting, handOver]
  rw [Store.get_set_self]
  split_ifs <;> rfl

theorem Services.route_opcode {svc : Services} {m : MetaMessage} (h : m.opcode ≠ .request) :
    (svc.route m).1.opcode ≠ .request := by
  rw [Services.route, if_pos h]
  split_ifs <;> simp [h]

/-- Transmitting a message that is not a request adds nothing to what `f` reads off the log, if `f`
looks at requests on the local port only. -/
theorem Node.filterMap_transmitting {α : Type} {f : Event → Option α} {s : Node Services} {p : Ptr}
    (hudp : ∀ p m, m.opcode ≠ .request → f (.udpSend p m) = none)
    (hout : ∀ p m, f (.messageOut p m none none) = none) (h : (s.msgs.get p).opcode ≠ .request) :
    (s.transmitting p).log.filterMap f = s.log.filterMap f := by
  have hev : ∀ b, f (if b = true then .udpSend p (s.svc.route (s.msgs.get p)).1
      else .messageOut p (s.svc.route (s.msgs.get p)).1 none none) = none := by
    intro b
    cases b
    · exact hout _ _
    · exact hudp _ _ (Services.route_opcode h)
  simp only [Node.transmitting, Node.emit, filterMap_append, filterMap_cons, hev,
    filterMap_nil, append_nil]

/-- Forwarding a request to a registered Link SAP `k`. -/
theorem Svc.post_forwardRequest {s : Node Services} {cfg : Config} {p : Ptr} {k : Bytes}
    {U : Unit → Node Services → Prop} {E : Fault → Node Services → Prop} (hp : p < s.msgs.next)
    (hop : (s.msgs.get p).opcode = .request) (hdst : (s.msgs.get p).destination = k)
    (hk : (s.svc.lbook.get? k).isSome = true)
    (hU : ∀ s', s'.svc = s.svc → s'.lpool = s.lpool.add (s.msgs.get p) →
      s'.msgs.next = s.msgs.next → s'.msgs.get p = { s.msgs.get p with source := cfg.mihfid } →
      (∀ q, q ≠ p → s'.msgs.get q = s.msgs.get q) →
      s'.log = s.log ++ [.udpSend p { s.msgs.get p with source := cfg.mihfid }] → U () s') :
    Svc.Post handOver (Svc.forwardRequest cfg p) s U E := by
  have hroute : s.svc.route { s.msgs.get p with source := cfg.mihfid } =
      ({ s.msgs.get p with source := cfg.mihfid }, true) := by
    rw [Services.route_request (m := { s.msgs.get p with source := cfg.mihfid }) hop]
    simp [hdst, hk]
  simp only [Svc.forwardRequest, Svc.post_bind, Svc.post_lpoolAdd, Svc.post_modifyMsg]
  rw [Svc.post_transmit_handOver (by exact hp)]
  refine hU _ rfl rfl rfl ?_ (fun q hq => ?_) ?_
  · simp only [Node.transmitting, Node.emit, Store.get_set_self, Store.get_update_self, hroute]
  · simp only [Node.transmitting, Node.emit, Store.get_set_of_ne hq, Store.get_update_of_ne hq]
  · simp only [Node.transmitting, Node.emit, Store.get_update_self, hroute, if_true]

end Odtone.Mihf
