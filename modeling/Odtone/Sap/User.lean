import Odtone.Mihf.Transaction
import Odtone.Support.Book
import Odtone.Support.Loop
import Odtone.Support.Prog

/-! # The User SAP

`odtone::sap::user` sends the messages of an MIH user to its MIHF. The handler of a request waits in
a map under the transaction identifier the request is given, until a confirm with that identifier
comes or sending the request fails. The handler of any other message is bound to the send operation
and invoked when it completes. Whether a failed operation has a handler of its own is all that
`send_handler` asks before it looks in the map.

Every call of `async_send` has a number, which its handler carries along, and everything an
application can see is logged.
-/

namespace Odtone.Sap

open EStateM Except
open Wire (Bytes Frame Message)
open Mihf (Operation)

variable {η : Type}

/-- `frame::opcode` and `message::opcode`, for a message identifier -/
def opcode (mid : UInt16) : Operation := .ofCode ((mid &&& (0x0c00 : UInt16)) >>> 10)

/-- An unsolicited capability discover: `sid` and `aid` of a message identifier -/
def isCapabilityDiscover (mid : UInt16) : Bool := mid &&& 0xf000 = 0x1000 && mid &&& 0x03ff = 1

/-- The frame that `message::get_frame` fills. -/
def filledFrame (m : Message) : Except Wire.Error Frame := do
  let ar ← m.encodePayload
  let plength ← Message.truncateUint16 ar.length
  return m.header plength ar

theorem tid_of_filledFrame {m : Message} {fm : Frame} (h : filledFrame m = .ok fm) :
    fm.tid = m.tid := by
  obtain ⟨ar, -, h⟩ := bind_eq_ok.mp h
  obtain ⟨plength, -, h⟩ := bind_eq_ok.mp h
  rw [← ok.inj h, Message.header_tid]

/-! ## State -/

/-- A handler, which may be empty, with the number of the call that passed it. -/
structure Registered (η : Type) where
  call : Nat
  handler : Option η
deriving DecidableEq

/-- The handler that is invoked, if there is one. -/
def Registered.invocation (r : Registered η) : Option (Nat × η) :=
  r.handler.map fun h => (r.call, h)

/-- `user::rmap` -/
abbrev Rmap (η : Type) := Book UInt16 (Registered η)

/-- A send operation that has not completed, with what is bound to its completion. -/
structure SendOp (η : Type) where
  call : Nat
  fm : Frame
  handler : Option η
deriving DecidableEq

inductive ErrorCode where
  | success
  | badMessage
  | failure
deriving DecidableEq

/-- What an application sees of the SAP, with the handler that is invoked and the call it is of. -/
inductive Entry (η : Type) where
  /-- A request is given a transaction identifier. -/
  | request (call : Nat) (tid : UInt16) (handler : Option η)
  | confirm (tid : UInt16) (invoked : Option (Nat × η))
  /-- Sending the message of a call has failed. -/
  | failed (call : Nat) (invoked : Option (Nat × η))
  | completed (call : Nat) (invoked : Option (Nat × η))
  /-- The handler of the SAP itself is invoked. -/
  | general (ec : ErrorCode)
deriving DecidableEq

inductive UserFault where
  /-- `async_send_` never finds a free identifier. -/
  | hang
  | wire (e : Wire.Error)
deriving DecidableEq

structure User (η : Type) where
  userId : Bytes := []
  rmap : Rmap η := []
  pending : List (SendOp η) := []
  calls : Nat := 0
  log : List (Entry η) := []
deriving DecidableEq

/-! ## Transaction identifiers -/

def wrapId (id : UInt16) : UInt16 := if id ≥ 0x0fff then 1 else id

/-- The identifier the search starts from. -/
def firstId (rmap : Rmap η) (rand : UInt16) : UInt16 :=
  wrapId (match rmap.getLast? with
    | none => rand &&& 0x0fff
    | some e => e.1 + 1)

/-- One round of the search. -/
def nextId (rmap : Rmap η) (id : UInt16) : Option UInt16 :=
  if (rmap.get? id).isSome then some (wrapId (id + 1)) else none

/-- The search for a free identifier, if it ends. There are fewer identifiers than rounds. -/
def freeId (rmap : Rmap η) (rand : UInt16) : Option UInt16 :=
  Loop.run (nextId rmap) 4096 (firstId rmap rand)

theorem wrapId_lt (id : UInt16) : wrapId id < 0x0fff := by
  unfold wrapId
  split_ifs with h
  · decide
  · exact UInt16.not_le.mp h

variable {rmap : Rmap η}

variable {id rand : UInt16}

theorem get?_of_nextId (hnext : nextId rmap id = none) : rmap.get? id = none := by
  by_contra hsome
  rw [nextId, if_pos (Option.isSome_iff_ne_none.mpr hsome)] at hnext
  cases hnext

theorem get?_of_freeId (h : freeId rmap rand = some id) :
    rmap.get? id = none := get?_of_nextId (Loop.run_eq_some h).1

theorem after_lt {k : Nat}
    (h : Loop.after (nextId rmap) k (firstId rmap rand) = some id) : id < 0x0fff := by
  refine Loop.after_induct (fun t => t < 0x0fff) (wrapId_lt _) (fun t u _ hu => ?_) h
  unfold nextId at hu
  split_ifs at hu
  exact Option.some.inj hu ▸ wrapId_lt _

/-! ## Operations -/

namespace User

abbrev M (η : Type) := EStateM UserFault (User η)

def note (e : Entry η) : M η Unit := modify fun s => { s with log := s.log ++ [e] }

/-- The part of `async_send_` for requests: what is left to send, with which handler -/
def register (call : Nat) (rand : UInt16) (msg : Message) (h : Option η) :
    M η (Message × Option η) := do
  match freeId (← get).rmap rand with
  | none => throw .hang
  | some id => do
      modify fun s => { s with rmap := s.rmap.insert id ⟨call, h⟩ }
      note (.request call id h)
      return ({ msg with tid := id }, none)

/-- The part of `async_send_` for all messages. -/
def send (call : Nat) (msg : Message) (h : Option η) : M η Unit := do
  match filledFrame { msg with source := (← get).userId } with
  | .error e => throw (.wire e)
  | .ok fm => modify fun s => { s with pending := s.pending ++ [⟨call, fm, h⟩] }

/-- `user::async_send_`, with the value of `std::rand()` -/
def asyncSend (rand : UInt16) (msg : Message) (h : Option η) : M η Unit := do
  let call := (← get).calls
  modify fun s => { s with calls := s.calls + 1 }
  if opcode msg.mid = .request then do
    let (msg, h) ← register call rand msg h
    send call msg h
  else send call msg h

/-- `user::get_handler` -/
def getHandler (tid : UInt16) : M η (Option (Nat × η)) := do
  let s ← get
  match s.rmap.get? tid with
  | none => return none
  | some r => do
      set { s with rmap := s.rmap.erase tid }
      return r.invocation

/-- The handler is invoked with the message of the frame, if there is one. -/
def invoke (fm : Frame) (v : Option (Nat × η)) (e : Entry η) : M η Unit :=
  match v, Message.ofFrame fm with
  | some _, .error err => throw (.wire err)
  | _, _ => note e

/-- `user::send_handler` -/
def sendHandler (op : SendOp η) (ec : Bool) : M η Unit := do
  if ec then
    match op.handler with
    | none => do
        let v ← getHandler op.fm.tid
        invoke op.fm v (.failed op.call v)
    | some h => invoke op.fm (some (op.call, h)) (.failed op.call (some (op.call, h)))
  else
    let v := op.handler.map fun h => (op.call, h)
    invoke op.fm v (.completed op.call v)

/-- The part of `recv_handler` for confirms. -/
def recvConfirm (fm : Frame) : M η Unit := do
  let v ← getHandler fm.tid
  note (.confirm fm.tid v)
  match v with
  | some _ => return ()
  | none => note (.general (if isCapabilityDiscover fm.mid then .success else .badMessage))

/-- `user::recv_handler`, with the bytes that were received if there was no error -/
def recvHandler (buff : Option Bytes) : M η Unit := do
  match buff with
  | none => note (.general .failure)
  | some buff =>
    match Frame.cast buff with
    | none => return ()
    | some fm =>
      match Message.ofFrame fm with
      | .error e => throw (.wire e)
      | .ok _ =>
        match opcode fm.mid with
        | .confirm => recvConfirm fm
        | .indication => note (.general .success)
        | .request | .response => note (.general .badMessage)

end User

/-! ## Events -/

/-- What happens to a User SAP. Send operations complete in any order. -/
inductive UserEvent (η : Type) where
  | send (rand : UInt16) (msg : Message) (handler : Option η)
  | sent (n : Nat) (ec : Bool)
  | receive (buff : Option Bytes)

namespace User

/-- An application goes on when a message could not be written. -/
def ignoreWire : UserFault → M η Unit
  | .hang => throw .hang
  | .wire _ => return ()

def step : UserEvent η → M η Unit
  | .send rand msg h => tryCatch (asyncSend rand msg h) ignoreWire
  | .sent n ec => do
      match (← get).pending[n]? with
      | none => return ()
      | some op => do
          modify fun s => { s with pending := s.pending.eraseIdx n }
          sendHandler op ec
  | .receive buff => recvHandler buff

/-! ## What a step can do -/

section Updates

variable (s : User η)

/-- A handler is taken out of the map. -/
def taking (tid : UInt16) : User η := { s with rmap := s.rmap.erase tid }

/-- The handler in the map that is invoked for an identifier. -/
def handlerOf (tid : UInt16) : Option (Nat × η) := (s.rmap.get? tid).bind Registered.invocation

def noting (es : List (Entry η)) : User η := { s with log := s.log ++ es }

/-- A request has been given an identifier. -/
def registering (id : UInt16) (h : Option η) : User η :=
  { s with rmap := s.rmap.insert id ⟨s.calls, h⟩, calls := s.calls + 1 }.noting
    [.request s.calls id h]

/-- A send operation has been started for the call. -/
def sending (call : Nat) (fm : Frame) (h : Option η) : User η :=
  { s with pending := s.pending ++ [⟨call, fm, h⟩] }

/-- A send operation has completed. -/
def completing (n : Nat) : User η := { s with pending := s.pending.eraseIdx n }

/-- The results of a step. -/
inductive Outcome : UserEvent η → Result UserFault (User η) Unit → Prop
  | hung (rand : UInt16) (msg : Message) (h : Option η) : freeId s.rmap rand = none →
      Outcome (.send rand msg h) (.error .hang { s with calls := s.calls + 1 })
  | requested (rand : UInt16) (msg : Message) (h : Option η) (id : UInt16) (fm : Frame) :
      freeId s.rmap rand = some id → fm.tid = id →
      Outcome (.send rand msg h) (.ok () ((s.registering id h).sending s.calls fm none))
  | unsentRequest (rand : UInt16) (msg : Message) (h : Option η) (id : UInt16) :
      freeId s.rmap rand = some id → Outcome (.send rand msg h) (.ok () (s.registering id h))
  | sent (rand : UInt16) (msg : Message) (h : Option η) (fm : Frame) :
      Outcome (.send rand msg h) (.ok () ({ s with calls := s.calls + 1 }.sending s.calls fm h))
  | unsent (rand : UInt16) (msg : Message) (h : Option η) :
      Outcome (.send rand msg h) (.ok () { s with calls := s.calls + 1 })
  | nothingSent (n : Nat) (ec : Bool) : Outcome (.sent n ec) (.ok () s)
  | failedOwn (n : Nat) (op : SendOp η) (h : η) : s.pending[n]? = some op → op.handler = some h →
      Outcome (.sent n true)
        (.ok () ((s.completing n).noting [.failed op.call (some (op.call, h))]))
  | failed (n : Nat) (op : SendOp η) : s.pending[n]? = some op → op.handler = none →
      Outcome (.sent n true) (.ok ()
        (((s.completing n).taking op.fm.tid).noting [.failed op.call (s.handlerOf op.fm.tid)]))
  | completed (n : Nat) (op : SendOp η) : s.pending[n]? = some op →
      Outcome (.sent n false) (.ok () ((s.completing n).noting
        [.completed op.call (op.handler.map fun h => (op.call, h))]))
  | illegible (n : Nat) (ec : Bool) (e : Wire.Error) (s' : User η) : s'.log = s.log →
      Outcome (.sent n ec) (.error (.wire e) s')
  | nothingReceived (buff : Option Bytes) : Outcome (.receive buff) (.ok () s)
  | general (buff : Option Bytes) (ec : ErrorCode) :
      Outcome (.receive buff) (.ok () (s.noting [.general ec]))
  | confirmed (buff : Option Bytes) (fm : Frame) (es : List (Entry η)) :
      (es = [] ∨ ∃ ec, es = [.general ec]) →
      Outcome (.receive buff) (.ok ()
        ((s.taking fm.tid).noting (.confirm fm.tid (s.handlerOf fm.tid) :: es)))
  | garbled (buff : Option Bytes) (e : Wire.Error) : Outcome (.receive buff) (.error (.wire e) s)

end Updates

variable {s : User η}

theorem getHandler_eq (tid : UInt16) : getHandler tid s = .ok (s.handlerOf tid) (s.taking tid) := by
  have hrun : getHandler tid s = (match s.rmap.get? tid with
      | none => pure none
      | some r => set { s with rmap := s.rmap.erase tid } >>= fun _ => pure r.invocation :
        M η (Option (Nat × η))) s := rfl
  rw [hrun, handlerOf]
  cases h : s.rmap.get? tid with
  | none =>
    rw [taking, Book.erase_of_get?_eq_none h]
    rfl
  | some r => rfl

theorem send_eq (call : Nat) (msg : Message) (h : Option η) :
    (∃ fm, fm.tid = msg.tid ∧ send call msg h s = .ok () (s.sending call fm h)) ∨
    ∃ e, send call msg h s = .error (.wire e) s := by
  have hrun : send call msg h s = (match filledFrame { msg with source := s.userId } with
      | .error e => throw (.wire e)
      | .ok fm => modify fun s => { s with pending := s.pending ++ [⟨call, fm, h⟩] } :
          M η Unit) s := rfl
  rw [hrun]
  cases hfm : filledFrame { msg with source := s.userId } with
  | error e => exact .inr ⟨e, rfl⟩
  | ok fm => exact .inl ⟨fm, by rw [tid_of_filledFrame hfm], rfl⟩

theorem register_eq (rand : UInt16) (msg : Message) (h : Option η) :
    register s.calls rand msg h { s with calls := s.calls + 1 } = match freeId s.rmap rand with
      | none => .error .hang { s with calls := s.calls + 1 }
      | some id => .ok ({ msg with tid := id }, none) (s.registering id h) := by
  have hrun : register s.calls rand msg h { s with calls := s.calls + 1 } =
      (match freeId s.rmap rand with
        | none => throw .hang
        | some id => do
            modify fun s' => { s' with rmap := s'.rmap.insert id ⟨s.calls, h⟩ }
            note (.request s.calls id h)
            return ({ msg with tid := id }, none) : M η (Message × Option η))
        { s with calls := s.calls + 1 } := rfl
  rw [hrun]
  cases freeId s.rmap rand <;> rfl

/-- A request that finds an identifier is registered, and sent if it can be written. -/
theorem asyncSend_request {rand id : UInt16} {msg : Message} (h : Option η)
    (hop : opcode msg.mid = .request) (hid : freeId s.rmap rand = some id) :
    (∃ fm, fm.tid = id ∧ step (.send rand msg h) s =
      .ok () ((s.registering id h).sending s.calls fm none)) ∨
    step (.send rand msg h) s = .ok () (s.registering id h) := by
  have hrun : asyncSend rand msg h s =
      (if opcode msg.mid = .request then register s.calls rand msg h >>= fun p =>
      send s.calls p.1 p.2
        else send s.calls msg h : M η Unit) { s with calls := s.calls + 1 } := rfl
  have hreg := register_eq (s := s) rand msg h
  rw [hid] at hreg
  rw [if_pos hop, bind_of_ok hreg] at hrun
  rcases send_eq s.calls { msg with tid := id } none with
    ⟨fm, htid, hsend⟩ | ⟨e, hsend⟩
  · exact .inl ⟨fm, htid, tryCatch_of_ok (hrun.trans hsend)⟩
  · exact .inr (tryCatch_of_error (hrun.trans hsend))

theorem asyncSend_outcome (rand : UInt16) (msg : Message) (h : Option η) :
    Outcome s (.send rand msg h) (step (.send rand msg h) s) := by
  have hrun : asyncSend rand msg h s =
      (if opcode msg.mid = .request then register s.calls rand msg h >>= fun p =>
      send s.calls p.1 p.2
        else send s.calls msg h : M η Unit) { s with calls := s.calls + 1 } := rfl
  change Outcome s _ (tryCatch (asyncSend rand msg h) ignoreWire s)
  by_cases hop : opcode msg.mid = .request
  · rw [if_pos hop] at hrun
    have hreg := register_eq (s := s) rand msg h
    cases hid : freeId s.rmap rand with
    | none =>
      rw [hid] at hreg
      rw [tryCatch_of_error (hrun.trans (bind_of_error hreg))]
      exact .hung rand msg h hid
    | some id =>
      change Outcome s _ (step (.send rand msg h) s)
      rcases asyncSend_request h hop hid with ⟨fm, htid, hsend⟩ | hsend
      · rw [hsend]
        exact .requested rand msg h id fm hid htid
      · rw [hsend]
        exact .unsentRequest rand msg h id hid
  · rw [if_neg hop] at hrun
    rcases send_eq s.calls msg h with
      ⟨fm, -, hsend⟩ | ⟨e, hsend⟩
    · rw [tryCatch_of_ok (hrun.trans hsend)]
      exact .sent rand msg h fm
    · rw [tryCatch_of_error (hrun.trans hsend)]
      exact .unsent rand msg h

theorem invoke_eq (fm : Frame) (v : Option (Nat × η)) (e : Entry η) :
    invoke fm v e s = .ok () (s.noting [e]) ∨ ∃ err, invoke fm v e s = .error (.wire err) s := by
  unfold invoke
  cases v with
  | none => exact .inl rfl
  | some v =>
    cases Message.ofFrame fm with
    | error err => exact .inr ⟨err, rfl⟩
    | ok m => exact .inl rfl

theorem sendHandler_outcome (n : Nat) (ec : Bool) :
    Outcome s (.sent n ec) (step (.sent n ec) s) := by
  have hrun : step (.sent n ec) s = (match s.pending[n]? with
      | none => pure ()
      | some op => modify (fun s => { s with pending := s.pending.eraseIdx n }) >>= fun _ =>
        sendHandler op ec : M η Unit) s := rfl
  rw [hrun]
  cases hop : s.pending[n]? with
  | none => exact .nothingSent n ec
  | some op =>
    change Outcome s _ (sendHandler op ec (s.completing n))
    cases ec with
    | false =>
      change Outcome s _ (invoke op.fm (op.handler.map fun h => (op.call, h))
        (.completed op.call (op.handler.map fun h => (op.call, h))) (s.completing n))
      rcases invoke_eq op.fm (op.handler.map fun h => (op.call, h))
        (.completed op.call (op.handler.map fun h => (op.call, h))) with h | ⟨err, h⟩
      · rw [h]
        exact .completed n op hop
      · rw [h]
        exact .illegible n false err _ rfl
    | true =>
      have hfail : sendHandler op true (s.completing n) = (match op.handler with
          | none => getHandler op.fm.tid >>= fun v => invoke op.fm v (.failed op.call v)
          | some h => invoke op.fm (some (op.call, h)) (.failed op.call (some (op.call, h))) :
            M η Unit) (s.completing n) := rfl
      rw [hfail]
      cases hh : op.handler with
      | none =>
        change Outcome s _ ((getHandler op.fm.tid >>= fun v => invoke op.fm v (.failed op.call v))
          (s.completing n))
        rw [bind_of_ok (getHandler_eq op.fm.tid)]
        rcases invoke_eq op.fm
          ((s.completing n).handlerOf op.fm.tid)
          (.failed op.call ((s.completing n).handlerOf op.fm.tid)) with h | ⟨err, h⟩
        · rw [h]
          exact .failed n op hop hh
        · rw [h]
          exact .illegible n true err _ rfl
      | some h =>
        change Outcome s _ (invoke op.fm (some (op.call, h))
          (.failed op.call (some (op.call, h))) (s.completing n))
        rcases invoke_eq op.fm (some (op.call, h))
          (.failed op.call (some (op.call, h))) with hi | ⟨err, hi⟩
        · rw [hi]
          exact .failedOwn n op h hop hh
        · rw [hi]
          exact .illegible n true err _ rfl

theorem recvConfirm_eq (fm : Frame) : ∃ es, (es = [] ∨ ∃ ec, es = [.general ec]) ∧
    recvConfirm fm s =
      .ok () ((s.taking fm.tid).noting (.confirm fm.tid (s.handlerOf fm.tid) :: es)) := by
  unfold recvConfirm
  rw [bind_of_ok (getHandler_eq fm.tid)]
  cases s.handlerOf fm.tid with
  | some v => exact ⟨[], .inl rfl, rfl⟩
  | none =>
    let ec : ErrorCode := if isCapabilityDiscover fm.mid then .success else .badMessage
    have hlog : (s.taking fm.tid).noting [.confirm fm.tid none, .general ec] =
        ((s.taking fm.tid).noting [.confirm fm.tid none]).noting [.general ec] := by
      simp [noting]
    refine ⟨[.general ec], .inr ⟨ec, rfl⟩, ?_⟩
    rw [hlog]
    rfl

theorem recvHandler_outcome (buff : Option Bytes) :
    Outcome s (.receive buff) (recvHandler buff s) := by
  cases buff with
  | none => exact .general none .failure
  | some buff =>
    have hrun : recvHandler (some buff) s = (match Frame.cast buff with
        | none => pure ()
        | some fm => match Message.ofFrame fm with
            | .error e => throw (.wire e)
            | .ok _ => match opcode fm.mid with
                | .confirm => recvConfirm fm
                | .indication => note (.general .success)
                | .request | .response => note (.general .badMessage) : M η Unit) s := rfl
    rw [hrun]
    cases Frame.cast buff with
    | none => exact .nothingReceived _
    | some fm =>
      dsimp only
      cases Message.ofFrame fm with
      | error e => exact .garbled _ e
      | ok pm =>
        cases opcode fm.mid with
        | confirm =>
          obtain ⟨es, hes, h⟩ := recvConfirm_eq fm
          change Outcome s _ (recvConfirm fm s)
          rw [h]
          exact .confirmed _ fm es hes
        | request | response => exact .general _ .badMessage
        | indication => exact .general _ .success

theorem step_outcome (e : UserEvent η) : Outcome s e (step e s) := by
  cases e with
  | send rand msg h => exact asyncSend_outcome rand msg h
  | sent n ec => exact sendHandler_outcome n ec
  | receive buff => exact recvHandler_outcome buff

end User

end Odtone.Sap
