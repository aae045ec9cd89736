import Odtone.Mihf.Step
import Odtone.Support.Bitmap
import Odtone.Support.Book
import Odtone.Wire.Types

/-! # The state of the services

The books of Link SAPs, MIH-Users and peers, the event subscriptions, the response timers and the
pool of Link SAP answers, together with what the services share: `transmit` and the functions of
`utils.cpp`. A service is a program over the interface of a handler, so it can be run in the whole
node or, to see what it transmits, with `handOver` in place of `message_out`.

## Modelling decisions

Sending a datagram to a local entity succeeds. An iteration over the subscriptions goes through the
list as it is when the loop begins. A timer that is destroyed or replaced is cancelled: its handler
then returns at once, so only the timers in a map are kept. The expiry of a timer and the run of its
handler are one step.
-/

namespace Odtone.Mihf

open Wire (Bytes Ty Element Arg Decoder)

/-! ## Links -/

/-- `link_id` -/
structure LinkId where
  type : Ty.linkType.Val
  addr : Ty.linkAddr.Val
deriving DecidableEq

/-- `link_tuple_id` -/
structure LinkTupleId extends LinkId where
  poaAddr : (Ty.orNull Ty.linkAddr).Val := .inl ()
deriving DecidableEq

namespace LinkId

def ofVal : Ty.linkId.Val → LinkId
  | (type, addr, ()) => ⟨type, addr⟩

def toVal (l : LinkId) : Ty.linkId.Val := (l.type, l.addr, ())

@[simp] theorem ofVal_toVal (l : LinkId) : ofVal l.toVal = l := rfl

end LinkId

namespace LinkTupleId

def ofVal : Ty.linkTupleId.Val → LinkTupleId
  | (type, addr, poaAddr, ()) => ⟨⟨type, addr⟩, poaAddr⟩

def toVal (l : LinkTupleId) : Ty.linkTupleId.Val := (l.type, l.addr, l.poaAddr, ())

@[simp] theorem ofVal_toVal (l : LinkTupleId) : ofVal l.toVal = l := rfl

/-- `operator==`, which does not look at the address of the point of attachment. -/
def Same (l k : LinkTupleId) : Bool := l.toLinkId = k.toLinkId

@[simp] theorem same_iff (l k : LinkTupleId) : l.Same k = true ↔ l.toLinkId = k.toLinkId := by
  simp [Same]

end LinkTupleId

/-! ## Books -/

/-- `link_entry` -/
structure LinkEntry where
  ip : Bytes
  port : UInt16
  linkId : LinkId
  eventList : Bitmap 4 := .empty 4
  cmdList : Bitmap 4 := .empty 4
  fail : UInt16 := 0
  status : Bool := true

/-- `user_entry` -/
structure UserEntry where
  ip : Bytes
  port : UInt16
  suppCmd : Option (Bitmap 4)
  suppIq : Option (Bitmap 8)

/-- What an MIHF tells in a capability discovery. -/
structure Capabilities where
  listNetTypeAddr : Option Ty.netTypeAddrList.Val := none
  eventList : Option (Bitmap 4) := none
  cmdList : Option (Bitmap 4) := none
  queryType : Option (Bitmap 8) := none
  transList : Option (Bitmap 2) := none
  mbbHoSupp : Option Ty.mbbHoSuppList.Val := none

/-- `address_entry` -/
structure AddressEntry extends Capabilities where
  ip : Bytes := []
  port : UInt16 := 0
  regLinkList : Option Ty.linkIdList.Val := none
  regInterval : Option (BitVec 16) := none

abbrev LinkBook := Book Bytes LinkEntry
abbrev UserBook := Book Bytes UserEntry
abbrev AddressBook := Book Bytes AddressEntry

namespace LinkBook

/-- `link_book::add` -/
def add (b : LinkBook) (id ip : Bytes) (port : UInt16) (linkId : LinkId) : LinkBook :=
  b.insert id { ip := ip, port := port, linkId := linkId }

/-- `link_book::update_capabilities` -/
def updateCapabilities (b : LinkBook) (id : Bytes) (eventList cmdList : Bitmap 4) : LinkBook :=
  b.modify id fun e => { e with eventList := eventList, cmdList := cmdList }

/-- `link_book::inactive` -/
def inactive (b : LinkBook) (id : Bytes) : LinkBook :=
  b.modify id fun e => { e with status := false }

/-- The increment in `link_book::fail` -/
def fail (b : LinkBook) (id : Bytes) : LinkBook :=
  b.modify id fun e => { e with fail := e.fail + 1 }

/-- The assignments in `link_book::reset` -/
def reset (b : LinkBook) (id : Bytes) : LinkBook :=
  b.modify id fun e => { e with fail := 0, status := true }

/-- `link_book::search_interface`: the first active Link SAP of the link, or the empty
identifier. -/
def searchInterface (b : LinkBook) (l : LinkId) : Bytes :=
  ((b.find? fun e => e.2.linkId = l && e.2.status).map Prod.fst).getD []

end LinkBook

/-- `user_book::add` -/
def UserBook.add (b : UserBook) (id ip : Bytes) (port : UInt16) (suppCmd : Option (Bitmap 4))
    (suppIq : Option (Bitmap 8)) : UserBook :=
  b.insert id ⟨ip, port, suppCmd, suppIq⟩

/-- `address_book::add`: an entry that exists keeps its address and port. -/
def AddressBook.add (b : AddressBook) (id : Bytes) (info : AddressEntry) : AddressBook :=
  match b.get? id with
  | some e => b.insert id { info with ip := e.ip, port := e.port }
  | none => b.insert id info

/-! ## The state -/

/-- `event_registration_t`; the event is a position in `mih_evt_list`. -/
structure EventRegistration where
  user : Bytes
  link : LinkTupleId
  event : Fin 32
deriving DecidableEq

/-- `event_registration_t::operator==` -/
def EventRegistration.Same (r q : EventRegistration) : Bool :=
  r.user = q.user && r.link.Same q.link && r.event = q.event

/-- The answers of `pending_link_response`. -/
inductive LinkResponse where
  | status (rsp : Ty.linkStatusRsp.Val)
  | action (result : Ty.linkAcResult.Val) (scan : Option Ty.linkScanRspList.Val)
deriving DecidableEq

/-- `pending_link_response`; `user` is the identifier of the Link SAP. -/
structure PendingLinkResponse where
  user : Bytes
  tid : UInt16
  response : LinkResponse
deriving DecidableEq

/-- What the timers of the command service wait for. -/
inductive CommandTimer where
  | linkGetParameters
  | linkConfigureThresholds
  | linkActions
  | linkConf
  | l3Conf
deriving DecidableEq

/-- The configuration. -/
structure Config where
  mihfid : Bytes
  linkDeleteValue : UInt16
  dscvOrder : List Bytes := []
  enableUnsolicited : Bool := false

/-- The MIHF `[77]` of the examples. -/
def sampleConfig : Config := ⟨[77], 10, [], false⟩

/-- The objects the services share or own. The timer maps hold the request a timer was set for. -/
structure Services where
  lbook : LinkBook := []
  ubook : UserBook := []
  abook : AddressBook := []
  subscriptions : List EventRegistration := []
  lrpool : List PendingLinkResponse := []
  eventTimer : Book UInt16 Ptr := []
  commandTimer : Book UInt16 (CommandTimer × Ptr) := []

/-! ## Local capabilities -/

/-- The entry of a Link SAP in the list of addresses. -/
def LinkId.netTypeAddr (l : LinkId) : (Ty.seq [Ty.networkType, Ty.linkAddr]).Val :=
  ((.inr (.inl l.type), .inl (), .inl (), ()), l.addr, ())

/-- The MIH commands that stand for the commands of a Link SAP. -/
def LinkEntry.mihCommands (e : LinkEntry) : Bitmap 4 :=
  let commands := Bitmap.empty 4
  let commands := if e.cmdList.get 3 then commands.set 0 else commands
  let commands := if e.cmdList.get 4 then commands.set 1 else commands
  if e.cmdList.get 5 then commands.set 2 else commands

/-- The commands a user supports beyond those of a Link SAP. -/
def UserEntry.commands (u : UserEntry) : Bitmap 4 :=
  (u.suppCmd.map (Bitmap.copy ((List.range 32).drop 3))).getD (.empty 4)

/-- The queries a user supports. -/
def UserEntry.queries (u : UserEntry) : Bitmap 8 :=
  (u.suppIq.map (Bitmap.copy (List.range 32))).getD (.empty 8)

/-- `utils::update_local_capabilities` -/
def Services.updateLocalCapabilities (cfg : Config) (s : Services) : Services :=
  let active := (s.lbook.map Prod.snd).filter LinkEntry.status
  let addrs := active.map fun e => e.linkId.netTypeAddr
  let events := active.foldl (fun b e => b.common (Bitmap.copy (List.range 32) e.eventList))
    (Bitmap.full 4)
  let commands := active.foldl (fun b e => b.common e.mihCommands) (Bitmap.full 4)
  let abook := s.abook.modify cfg.mihfid fun a =>
    if addrs.isEmpty then { a with listNetTypeAddr := none, eventList := none, cmdList := none }
    else
      { a with listNetTypeAddr := some addrs, eventList := some events, cmdList := some commands }
  let users := s.ubook.map Prod.snd
  let hasCmd := users.any fun u => u.commands ≠ .empty 4
  let hasIq := users.any fun u => u.queries ≠ .empty 8
  let commands := users.foldl (fun b u => b.merge u.commands) commands
  let queries := users.foldl (fun b u => b.merge u.queries) (Bitmap.empty 8)
  { s with
    abook := abook.modify cfg.mihfid fun a =>
      { a with
        cmdList := if hasCmd then some commands else none
        queryType := if hasIq then some queries else none } }

/-! ## Operations of the services -/

/-- The programs of the services. -/
abbrev Svc := Prog (Calls Services) Fault

namespace Svc

def newMsg (m : MetaMessage) : Svc Ptr := Prog.perform (I := Calls Services) (.newMsg m)

def readMsg (p : Ptr) : Svc MetaMessage := Prog.perform (I := Calls Services) (.readMsg p)

def writeMsg (p : Ptr) (m : MetaMessage) : Svc Unit :=
  Prog.perform (I := Calls Services) (.writeMsg p m)

def getSvc : Svc Services := Prog.perform (I := Calls Services) .getSvc

def setSvc (s : Services) : Svc Unit := Prog.perform (I := Calls Services) (.setSvc s)

def getLpool : Svc LocalTransactionPool := Prog.perform (I := Calls Services) .getLpool

def setLpool (l : LocalTransactionPool) : Svc Unit :=
  Prog.perform (I := Calls Services) (.setLpool l)

def udpSend (p : Ptr) : Svc Unit := Prog.perform (I := Calls Services) (.udpSend p)

def messageOut (p : Ptr) : Svc Unit := Prog.perform (I := Calls Services) (.messageOut p)

/-- Change a message. -/
def modifyMsg (p : Ptr) (f : MetaMessage → MetaMessage) : Svc Unit := do
  let m ← readMsg p
  writeMsg p (f m)

/-- Change the state of the services. -/
def modifySvc (f : Services → Services) : Svc Unit := do
  let s ← getSvc
  setSvc (f s)

/-- `*p >> helper & ...` -/
def parse {α : Type} (p : Ptr) (d : Decoder α) : Svc α := do
  let m ← readMsg p
  match d ⟨m.payload, 0⟩ with
  | .ok a _ => return a
  | .error e _ => throw (.wire e)

/-- `*p << helper(mid) & ...` -/
def compose (p : Ptr) (mid : UInt16) (args : List Arg) : Svc Unit := do
  let m ← readMsg p
  match m.toMessage.insert mid none args with
  | .ok m' => writeMsg p { m with toMessage := m' }
  | .error e => throw (.wire e)

/-- `boost::optional::get` -/
def ofOptional {α : Type} : Option α → Svc α
  | some a => return a
  | none => throw .absentOptional

end Svc

/-! ## Shared programs -/

namespace Svc

/-- `transmit::operator()`: a request goes to a Link SAP, anything else to a user; what has no local
recipient is handed to `message_out`. -/
def transmit (p : Ptr) : Svc Unit := do
  let m ← readMsg p
  let s ← getSvc
  if m.opcode ≠ .request then
    match s.ubook.get? m.destination with
    | some _ => do
        if m.opcode = .response then modifyMsg p (·.setOpcode .confirm)
        udpSend p
    | none => do
        if m.opcode = .confirm then modifyMsg p (·.setOpcode .response)
        messageOut p
  else
    match s.lbook.get? m.destination with
    | some _ => udpSend p
    | none => messageOut p

/-- `local_transaction_pool::add` -/
def lpoolAdd (p : Ptr) : Svc Unit := do
  let m ← readMsg p
  let l ← getLpool
  setLpool (l.add m)

/-- `local_transaction_pool::set_user_tid` -/
def setUserTid (p : Ptr) : Svc Bool := do
  let m ← readMsg p
  let l ← getLpool
  match l.setUserTid m with
  | some (m', l') => do
      setLpool l'
      writeMsg p m'
      return true
  | none => return false

/-- `link_book::reset` -/
def linkReset (id : Bytes) : Svc Unit := do
  let s ← getSvc
  match s.lbook.get? id with
  | some _ => setSvc { s with lbook := s.lbook.reset id }
  | none => throw .unknownLinkSap

/-- `link_book::fail` -/
def linkFail (id : Bytes) : Svc UInt16 := do
  let s ← getSvc
  match s.lbook.get? id with
  | some e => do
      setSvc { s with lbook := s.lbook.fail id }
      return e.fail + 1
  | none => throw .unknownLinkSap

/-- `link_book::get` -/
def linkGet (id : Bytes) : Svc LinkEntry := do
  match (← getSvc).lbook.get? id with
  | some e => return e
  | none => throw .unknownLinkSap

/-- `link_book::search_interface` -/
def searchInterface (l : LinkId) : Svc Bytes := do
  return (← getSvc).lbook.searchInterface l

/-- `address_book::get` -/
def addressGet (id : Bytes) : Svc AddressEntry := do
  match (← getSvc).abook.get? id with
  | some e => return e
  | none => throw .noEntry

variable (cfg : Config)

/-- `utils::forward_request` -/
def forwardRequest (p : Ptr) : Svc Unit := do
  lpoolAdd p
  modifyMsg p fun m => { m with source := cfg.mihfid }
  transmit p

/-- Count a request to the Link SAP `id`; do `act` unless it has left too many unanswered, in which
case it becomes inactive. -/
def unlessInactive (id : Bytes) (act : Svc Unit) : Svc Unit := do
  let fails ← linkFail id
  if fails > cfg.linkDeleteValue then
    modifySvc fun s =>
      { s with lbook := s.lbook.inactive id }.updateLocalCapabilities cfg
  else act

end Svc

/-- The default identifier of an MIHF, `local-mihf`. -/
def defaultLocalMihfid : Bytes := [108, 111, 99, 97, 108, 45, 109, 105, 104, 102]

/-- `utils::this_mihf_is_destination` -/
def Config.IsDestination (cfg : Config) (m : MetaMessage) : Bool :=
  cfg.mihfid = m.destination || defaultLocalMihfid = m.destination

/-- `msg_id<sid, opcode, aid>::value` -/
def msgId (sid : UInt16) (opcode : Operation) (aid : UInt16) : UInt16 :=
  sid <<< 12 ||| opcode.code <<< 10 ||| aid

/-- `status_success` -/
def statusSuccess : Ty.status.Val := (0 : BitVec 8)

/-- `status_failure` -/
def statusFailure : Ty.status.Val := (1 : BitVec 8)

/-! ## Running a service

With `handOver` in place of `message_out`, a run of a service shows in the log what it transmits. -/

namespace Svc

variable {α β : Type} (out : Ptr → M Services Unit)

/-- Run a service on a node, given `message_out`. -/
def exec (x : Svc α) : M Services α := Prog.run (I := Calls Services) (perform out) x

section Lemmas

variable {out} {x : Svc α} {f : α → Svc β} {s s' : Node Services} {p : Ptr} {a : α} {e : Fault}

@[simp] theorem exec_pure : exec out (pure a) s = .ok a s := rfl

@[simp] theorem exec_throw : exec out (throw e : Svc α) s = .error e s := rfl

theorem exec_bind : exec out (x >>= f) s = match exec out x s with
    | .ok a s' => exec out (f a) s'
    | .error e s' => .error e s' := by
  have h : exec out (x >>= f) s = EStateM.bind (exec out x) (fun a => exec out (f a)) s :=
    congrFun (Prog.run_bind (I := Calls Services) x f) s
  rw [h, EStateM.bind]
  cases exec out x s <;> rfl

theorem exec_bind_ok (h : exec out x s = .ok a s') : exec out (x >>= f) s = exec out (f a) s' := by
  rw [exec_bind, h]

theorem exec_bind_error (h : exec out x s = .error e s') : exec out (x >>= f) s = .error e s' := by
  rw [exec_bind, h]

@[simp] theorem exec_readMsg : exec out (readMsg p) s = .ok (s.msgs.get p) s := rfl

@[simp] theorem exec_writeMsg (m : MetaMessage) :
    exec out (writeMsg p m) s = .ok () { s with msgs := s.msgs.set p m } := rfl

@[simp] theorem exec_getSvc : exec out getSvc s = .ok s.svc s := rfl

@[simp] theorem exec_setSvc (svc : Services) :
    exec out (setSvc svc) s = .ok () { s with svc := svc } := rfl

@[simp] theorem exec_udpSend :
    exec out (udpSend p) s = .ok () (s.emit (.udpSend p (s.msgs.get p))) := rfl

theorem exec_messageOut_eq : exec out (messageOut p) s =
    if p < s.msgs.next then out p s else .error .badPointer s :=
  congrFun (Prog.run_perform (I := Calls Services) (.messageOut p)) s

@[simp] theorem exec_messageOut (hp : p < s.msgs.next) : exec out (messageOut p) s = out p s := by
  rw [exec_messageOut_eq, if_pos hp]

@[simp] theorem exec_modifyMsg (g : MetaMessage → MetaMessage) :
    exec out (modifyMsg p g) s = .ok () { s with msgs := s.msgs.update p g } := rfl

variable {d : Decoder α} {c : Cursor UInt8} {id : Bytes}

theorem exec_parse
    (h : d ⟨(s.msgs.get p).payload, 0⟩ = .ok a c) : exec out (parse p d) s = .ok a s := by
  simp only [parse, exec_bind, exec_readMsg, h, exec_pure]

theorem exec_parse_error {er : Wire.Error} (h : d ⟨(s.msgs.get p).payload, 0⟩ = .error er c) :
    exec out (parse p d) s = .error (.wire er) s := by
  simp only [parse, exec_bind, exec_readMsg, h, exec_throw]

theorem exec_compose {mid : UInt16} {args : List Arg} {m' : Wire.Message}
    (h : (s.msgs.get p).toMessage.insert mid none args = .ok m') :
    exec out (compose p mid args) s =
      .ok () { s with msgs := s.msgs.set p { s.msgs.get p with toMessage := m' } } := by
  simp only [compose, exec_bind, exec_readMsg, h, exec_writeMsg]

theorem exec_linkReset {entry : LinkEntry} (h : s.svc.lbook.get? id = some entry) :
    exec out (linkReset id) s =
      .ok () { s with svc := { s.svc with lbook := s.svc.lbook.reset id } } := by
  simp only [linkReset, exec_bind, exec_getSvc, h, exec_setSvc]

theorem exec_linkReset_unknown (h : s.svc.lbook.get? id = none) :
    exec out (linkReset id) s = .error .unknownLinkSap s := by
  simp only [linkReset, exec_bind, exec_getSvc, h, exec_throw]

end Lemmas

end Svc

/-! ## What is transmitted -/

theorem MetaMessage.opcode_of_mid {m : MetaMessage} {mid : UInt16}
    {op : Operation} (h : m.mid = mid)
    (hop : Operation.ofCode ((mid &&& (0x0c00 : UInt16)) >>> 10) = op) : m.opcode = op := by
  rw [MetaMessage.opcode, h, hop]

@[simp] theorem MetaMessage.opcode_setOpcode (m : MetaMessage) (v : Operation) :
    (m.setOpcode v).opcode = v := by
  have hclear : (m.mid &&& (0xf3ff : UInt16)) &&& (0x0c00 : UInt16) = 0 := by
    rw [UInt16.and_assoc, show ((0xf3ff : UInt16) &&& (0x0c00 : UInt16)) = 0 by decide,
      UInt16.and_zero]
  have hcode : ((m.mid &&& (0xf3ff : UInt16)) ||| (v.code <<< 10)) &&& (0x0c00 : UInt16) =
      v.code <<< 10 := by
    have hdistrib : ∀ a b c : UInt16, (a ||| b) &&& c = (a &&& c) ||| (b &&& c) := by
      intro a b c
      apply UInt16.toBitVec_inj.mp
      simp only [UInt16.toBitVec_and, UInt16.toBitVec_or]
      ext i hi
      simp [Bool.and_or_distrib_right]
    rw [hdistrib, hclear, UInt16.zero_or]
    cases v <;> decide
  rw [MetaMessage.opcode, MetaMessage.setOpcode]
  simp only [hcode]
  cases v <;> decide

/-- The message as `transmit` sends it, and whether to a local entity. -/
def Services.route (s : Services) (m : MetaMessage) : MetaMessage × Bool :=
  if m.opcode ≠ .request then
    if (s.ubook.get? m.destination).isSome then
      (if m.opcode = .response then m.setOpcode .confirm else m, true)
    else (if m.opcode = .confirm then m.setOpcode .response else m, false)
  else (m, (s.lbook.get? m.destination).isSome)

section Route

variable {svc : Services} {m : MetaMessage}

theorem Services.route_request (h : m.opcode = .request) :
    svc.route m = (m, (svc.lbook.get? m.destination).isSome) := by
  rw [Services.route, if_neg (not_not.mpr h)]

theorem Services.route_user (h : m.opcode ≠ .request) {u : UserEntry}
    (hu : svc.ubook.get? m.destination = some u) :
    svc.route m = (if m.opcode = .response then m.setOpcode .confirm else m, true) := by
  rw [Services.route, if_pos h, hu]
  rfl

theorem Services.route_peer (h : m.opcode ≠ .request) (hu : svc.ubook.get? m.destination = none) :
    svc.route m = (if m.opcode = .confirm then m.setOpcode .response else m, false) := by
  rw [Services.route, if_pos h, hu]
  rfl

end Route

theorem Svc.exec_transmit_route {out : Ptr → M Services Unit} {s : Node Services} {p : Ptr} :
    Svc.exec out (Svc.transmit p) s = let r := s.svc.route (s.msgs.get p)
      let s' := { s with msgs := s.msgs.set p r.1 }
      if r.2 then .ok () (s'.emit (.udpSend p r.1)) else Svc.exec out (Svc.messageOut p) s' := by
  simp only [Svc.transmit, Svc.exec_bind, Svc.exec_readMsg, Svc.exec_getSvc]
  by_cases hreq : (s.msgs.get p).opcode = .request
  · rw [Services.route_request hreq, if_neg (not_not.mpr hreq)]
    rcases (s.svc.lbook.get? (s.msgs.get p).destination).eq_none_or_eq_some with hl | ⟨e, hl⟩
    · simp only [hl, Store.set_get_self, Option.isSome_none, Bool.false_eq_true, if_false]
    · simp only [hl, Svc.exec_udpSend, Store.set_get_self, Option.isSome_some, if_true]
  · rw [if_pos hreq]
    rcases (s.svc.ubook.get? (s.msgs.get p).destination).eq_none_or_eq_some with hu | ⟨u, hu⟩
    · rw [Services.route_peer hreq hu]
      by_cases hcnf : (s.msgs.get p).opcode = .confirm
      · simp only [hu, hcnf, Svc.exec_bind, Svc.exec_modifyMsg, if_true,
          Bool.false_eq_true, if_false]
        rfl
      · simp only [hu, hcnf, if_false, Store.set_get_self, Bool.false_eq_true]
    · rw [Services.route_user hreq hu]
      by_cases hrsp : (s.msgs.get p).opcode = .response
      · simp only [hu, hrsp, Svc.exec_bind, Svc.exec_modifyMsg, Svc.exec_udpSend, if_true,
          Store.get_update_self]
        rfl
      · simp only [hu, hrsp, if_false, Svc.exec_udpSend, Store.set_get_self, if_true]

theorem Svc.exec_transmit {out : Ptr → M Services Unit} {s : Node Services} {p : Ptr}
    (hp : p < s.msgs.next) :
    Svc.exec out (Svc.transmit p) s = let r := s.svc.route (s.msgs.get p)
      let s' := { s with msgs := s.msgs.set p r.1 }
      if r.2 then .ok () (s'.emit (.udpSend p r.1)) else out p s' := by
  rw [Svc.exec_transmit_route]
  dsimp only
  rw [Svc.exec_messageOut (by exact hp)]

/-- In place of `message_out`: only log what is handed over. -/
def handOver (p : Ptr) : M Services Unit := fun s =>
  .ok () (s.emit (.messageOut p (s.msgs.get p) none none))

/-- The message an event of the log transmits. -/
def Event.transmitted : Event → Option MetaMessage
  | .udpSend _ m => some m
  | .messageOut _ m _ _ => some m
  | _ => none

end Odtone.Mihf
