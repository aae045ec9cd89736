import Odtone.Support.Prog
import Odtone.Mihf.Machines

/-! # The transaction layer of a node

`message_in`, `message_out`, `transaction_pool` and `local_transaction_pool` around a handler
`process_message`, which is a program over the interface `Calls`: it may create, read and write
messages, keep a state of its own, send to local users, and call `message_out` again. The handler
is a parameter here, so what is proved in this layer holds whatever the services do.

A handler that calls `message_out` may in turn be called by it. `process` ties this knot with a
bound on the nesting; exceeding it is the stack overflow it would be in the source.

## Modelling decisions

A pool of the source is a `std::set`, whose comparator only says whether two keys differ. That is no
order (`poolOrder_iff`), so what inserting and erasing do is left to the library: the container of
the pools is a parameter of the node. `Node σ` is the node whose pools are sets keyed by peer and
transaction identifier, where adding a transaction whose key is taken has no effect, a new one comes
first, and deleting one removes the entry with its key. `Odtone.Mihf.Containers` says that a node
with any other container does the same for as long as its operations do.

The node runs on one thread, so the mutexes matter in one place only: a tick holds the one of the
pool it goes through. A request or an indication handed to `message_out` there blocks for good. A
response would not, but what it does inside of a tick is not followed: the run ends there too.

The log is not part of the source. It records what is sent and processed, and for every call of
`message_in` and `message_out` the pooled transactions the call finds.
-/

namespace Odtone.Mihf

open Wire (Bytes)

/-- What a handler can fail with. -/
inductive Fault where
  /-- an exception of the archives -/
  | wire (e : Wire.Error)
  /-- `unknown_link_sap` -/
  | unknownLinkSap
  /-- `unknown_mih_user` -/
  | unknownMihUser
  /-- the string thrown by a book without the entry asked for -/
  | noEntry
  /-- `boost::optional::get` on an absent value: an assertion, the process ends -/
  | absentOptional
  /-- `boost::bad_get`: a variant does not hold the type asked for -/
  | badGet
  /-- an iterator is moved past the end, or the first element of an empty vector is taken -/
  | pastEnd
  /-- a pointer to no object is dereferenced -/
  | badPointer
  /-- `message_out` is called in a tick, while the pool is locked -/
  | deadlock
  /-- the handlers and `message_out` call each other without end -/
  | stackOverflow
deriving DecidableEq

/-! ## Pending local transactions -/

/-- `pending_transaction` -/
structure PendingTransaction where
  user : Bytes
  destination : Bytes
  ltid : UInt16
  rtid : UInt16
deriving DecidableEq

abbrev LocalTransactionPool := List PendingTransaction

namespace LocalTransactionPool

/-- `local_transaction_pool::find`: is this the entry for an answer from `src` with `tid`? -/
def Matches (src : Bytes) (tid : UInt16) (p : PendingTransaction) : Bool :=
  p.destination = src && p.rtid = tid

/-- `local_transaction_pool::add` -/
def add (l : LocalTransactionPool) (m : MetaMessage) : LocalTransactionPool :=
  l ++ [⟨m.source, m.destination, m.tid, m.tid⟩]

/-- `local_transaction_pool::set_remote_tid`: the first match gets the new remote identifier. -/
def setRemoteTid (dst : Bytes) (ltid rtid : UInt16) : LocalTransactionPool → LocalTransactionPool
  | [] => []
  | p :: l => if Matches dst ltid p then { p with rtid := rtid } :: l
      else p :: setRemoteTid dst ltid rtid l

/-- `local_transaction_pool::set_user_tid`: the first match names the user and the user's own
transaction identifier, and is removed. -/
def setUserTid (l : LocalTransactionPool) (m : MetaMessage) :
    Option (MetaMessage × LocalTransactionPool) :=
  (l.find? (Matches m.source m.tid)).map fun p =>
    ({ m with tid := p.ltid, destination := p.user }, l.eraseP (Matches m.source m.tid))

end LocalTransactionPool

/-! ## The state of a node -/

/-- The transaction layer together with the state `σ` of the services, and `C` for the pools. -/
structure Node (σ : Type) (C : Type := List Ptr) where
  msgs : Store MetaMessage
  srcs : Store SrcTransaction
  dsts : Store DstTransaction
  src : C
  dst : C
  tid : UInt16
  lpool : LocalTransactionPool
  svc : σ
  log : List Event

namespace Node

variable {σ C : Type}

section

variable [Pool.Container C]

/-- The node at start, with the random transaction identifier it begins to count from. -/
def start (svc : σ) (tid : UInt16) : Node σ C where
  msgs := .empty {}
  srcs := .empty { state := .init }
  dsts := .empty { state := .init }
  src := Pool.Container.empty
  dst := Pool.Container.empty
  tid := tid
  lpool := []
  svc := svc
  log := []

end

/-- The node at start, with sets for the pools. -/
abbrev initial (svc : σ) (tid : UInt16) : Node σ := start svc tid

@[simp] theorem src_initial (svc : σ) (tid : UInt16) : (initial svc tid).src = [] := rfl
@[simp] theorem dst_initial (svc : σ) (tid : UInt16) : (initial svc tid).dst = [] := rfl

def emit (s : Node σ C) (e : Event) : Node σ C := { s with log := s.log ++ [e] }

/-- What the set of source transactions is ordered by. -/
def srcKey (s : Node σ C) (p : Ptr) : Id × UInt16 := (s.srcs.get p).key

/-- What the set of destination transactions is ordered by. -/
def dstKey (s : Node σ C) (p : Ptr) : Id × UInt16 := (s.dsts.get p).key

section

variable [Pool.Container C] (s : Node σ C)

/-- `transaction_pool::find` in the set of source transactions. -/
def findSrc (k : Id × UInt16) : Option Ptr := Pool.find s.srcKey (Pool.toList s.src) k

/-- `transaction_pool::find` in the set of destination transactions. -/
def findDst (k : Id × UInt16) : Option Ptr := Pool.find s.dstKey (Pool.toList s.dst) k

/-- `transaction_pool::add` -/
def addSrc (p : Ptr) : Node σ C := { s with src := Pool.Container.insert s.srcKey s.src p }

@[inherit_doc addSrc]
def addDst (p : Ptr) : Node σ C := { s with dst := Pool.Container.insert s.dstKey s.dst p }

/-- `transaction_pool::del` -/
def delSrc (p : Ptr) : Node σ C := { s with src := Pool.Container.erase s.srcKey s.src p }

@[inherit_doc delSrc]
def delDst (p : Ptr) : Node σ C := { s with dst := Pool.Container.erase s.dstKey s.dst p }

end

variable (s : Node σ C) (p : Ptr)

/-- The source transaction `p` as a machine. -/
def srcMachine : Machine SrcState := ⟨.src, p, s.srcs.get p, s.msgs, s.log⟩

/-- The destination transaction `p` as a machine. -/
def dstMachine : Machine DstState := ⟨.dst, p, s.dsts.get p, s.msgs, s.log⟩

/-- Store the source machine `p` back. -/
def putSrc (x : Machine SrcState) : Node σ C :=
  { s with srcs := s.srcs.set p x.t, msgs := x.msgs, log := x.log }

/-- Store the destination machine `p` back. -/
def putDst (x : Machine DstState) : Node σ C :=
  { s with dsts := s.dsts.set p x.t, msgs := x.msgs, log := x.log }

/-- Let the source machine `p` do `f`. -/
def onSrc (f : Machine SrcState → Machine SrcState) : Node σ C := s.putSrc p (f (s.srcMachine p))

/-- Let the destination machine `p` do `f`. -/
def onDst (f : Machine DstState → Machine DstState) : Node σ C := s.putDst p (f (s.dstMachine p))

end Node

/-! ## The interface of a handler -/

/-- What a handler can ask for. -/
inductive Op (σ : Type) where
  | newMsg (m : MetaMessage)
  | readMsg (p : Ptr)
  | writeMsg (p : Ptr) (m : MetaMessage)
  | getSvc
  | setSvc (svc : σ)
  | getLpool
  | setLpool (l : LocalTransactionPool)
  | udpSend (p : Ptr)
  | messageOut (p : Ptr)

/-- The type of the answer to each. -/
abbrev Op.Res {σ : Type} : Op σ → Type
  | .newMsg _ => Ptr
  | .readMsg _ => MetaMessage
  | .getSvc => σ
  | .getLpool => LocalTransactionPool
  | _ => Unit

abbrev Calls (σ : Type) : Interface := ⟨Op σ, Op.Res⟩

/-- `handler_t` -/
abbrev Handler (σ : Type) := Ptr → Ptr → Prog (Calls σ) Fault Bool

/-- Computations on a node, with `C` for the pools. -/
abbrev MOn (C σ : Type) := EStateM Fault (Node σ C)

/-- Computations on a node, with sets for the pools. -/
abbrev M (σ : Type) := EStateM Fault (Node σ)

/-! ## Running transactions -/

/-- Both state machines of a transaction have come to an end. -/
def Transaction.Finished {S : Type} (t : Transaction S) : Bool :=
  t.transactionStatus ≠ .ongoing && t.ackRequestorStatus ≠ .ongoing

namespace Node

variable {σ C : Type} (s : Node σ C) (p : Ptr)

/-- The source transaction `p`, stopped as `x` in front of the call of `process_message`. -/
def callSrc (x : Machine SrcState) : Node σ C :=
  (s.putSrc p x).emit (.process ⟨.src, p, x.t.key⟩ x.t.inMsg x.inMsg)

/-- The destination transaction `p`, stopped as `x` in front of the call of `process_message`. -/
def callDst (x : Machine DstState) : Node σ C :=
  (s.putDst p x).emit (.process ⟨.dst, p, x.t.key⟩ x.t.inMsg x.inMsg)

variable [Pool.Container C]

/-- Pool a source transaction that is still going on. -/
def poolSrc : Node σ C := if (s.srcs.get p).transactionStatus = .ongoing then s.addSrc p else s

/-- Pool a destination transaction that is still going on. -/
def poolDst : Node σ C := if (s.dsts.get p).transactionStatus = .ongoing then s.addDst p else s

/-- Delete a source transaction that has finished. -/
def delFinishedSrc : Node σ C := if (s.srcs.get p).Finished then s.delSrc p else s

/-- Delete a destination transaction that has finished. -/
def delFinishedDst : Node σ C := if (s.dsts.get p).Finished then s.delDst p else s

end Node

section Run

variable {σ C : Type} [Pool.Container C] (process : Ptr → Ptr → MOn C σ Bool)

/-- `src_transaction_t::run()` -/
def runSrc (p : Ptr) : MOn C σ Unit := fun s =>
  let r := (s.srcMachine p).srcRun
  if r.2 then
    (process r.1.t.inMsg r.1.t.outMsg).after (fun _rsp s => s.onSrc p Machine.srcResume)
      (s.callSrc p r.1)
  else .ok () (s.putSrc p r.1)

/-- `dst_transaction_t::run()` -/
def runDst (p : Ptr) : MOn C σ Unit := fun s =>
  let r := (s.dstMachine p).dstRun
  if r.2 then
    (process r.1.t.inMsg r.1.t.outMsg).after (fun rsp s => s.onDst p (Machine.dstResume · rsp))
      (s.callDst p r.1)
  else .ok () (s.putDst p r.1)

/-- `if (t->transaction_status == ONGOING) t->run();` -/
def runSrcIfOngoing (p : Ptr) : MOn C σ Unit := fun s =>
  if (s.srcs.get p).transactionStatus = .ongoing then runSrc process p s else .ok () s

@[inherit_doc runSrcIfOngoing]
def runDstIfOngoing (p : Ptr) : MOn C σ Unit := fun s =>
  if (s.dsts.get p).transactionStatus = .ongoing then runDst process p s else .ok () s

/-! ## Incoming messages -/

/-- The test with which `message_in` selects the source transactions. -/
def MetaMessage.ForSource (m : MetaMessage) : Bool :=
  (m.ackrsp && (m.opcode = .request || m.opcode = .indication)) ||
  (!m.ackrsp && m.opcode = .response) ||
  (m.ackrsp && m.opcode = .response && m.hasServiceSpecificTlv)

/-- Allocate a destination transaction for the message `i`. -/
def Node.newDst (s : Node σ C) (i : Ptr) : Node σ C :=
  { s with
    dsts := s.dsts.push
      { state := .init, inMsg := i, mid := (s.msgs.get i).mid, msgInAvail := true } }

/-- `message_in::new_dst_transaction` -/
def newDstTransaction (i : Ptr) : MOn C σ Unit := fun s =>
  (runDst process s.dsts.next).after (fun _ s' => s'.poolDst s.dsts.next) (s.newDst i)

/-- The entry of `message_in` in the log. -/
def Node.logIn (s : Node σ C) (i : Ptr) : Node σ C :=
  let m := s.msgs.get i
  s.emit (.messageIn i m ((s.findSrc (m.source, m.tid)).map s.srcs.get)
    ((s.findDst (m.source, m.tid)).map s.dsts.get))

/-- What `message_in` does to a source transaction `p` before it runs it. -/
def Machine.srcIn (i : Ptr) (x : Machine SrcState) : Machine SrcState :=
  (x.receive i).startedAckRequestor.startedAckResponder

/-- What `message_in` does to a destination transaction `p` before it runs it. -/
def Machine.dstIn (i : Ptr) (x : Machine DstState) : Machine DstState :=
  (x.receive i).startedAckRequestor

/-- What `message_in` does to a destination transaction after it has run it. -/
def Machine.dstInAck (x : Machine DstState) : Machine DstState :=
  if x.t.transactionStatus = .ongoing then x.startedAckResponder else x

/-- `message_in::operator()` -/
def messageIn (i : Ptr) : MOn C σ Unit := fun s =>
  let m := s.msgs.get i
  let s := s.logIn i
  if m.ForSource then
    match s.findSrc (m.source, m.tid) with
    | some p =>
      let s := s.onSrc p (Machine.srcIn i)
      if m.ackrsp && m.opcode = .request then .ok () (s.delFinishedSrc p)
      else (runSrcIfOngoing process p).after (fun _ s => s.delFinishedSrc p) s
    | none => newDstTransaction process i s
  else
    match s.findDst (m.source, m.tid) with
    | some p =>
      (runDstIfOngoing process p).after
        (fun _ s => (s.onDst p Machine.dstInAck).delFinishedDst p)
        (s.onDst p (Machine.dstIn i))
    | none => newDstTransaction process i s

/-! ## Outgoing messages -/

/-- The next transaction identifier; zero is skipped. -/
def nextTid (tid : UInt16) : UInt16 := if tid + 1 = 0 then 1 else tid + 1

/-- Assign a transaction identifier to the message `o` and allocate a source transaction for it. -/
def Node.newSrc (s : Node σ C) (o : Ptr) : Node σ C :=
  let m := s.msgs.get o
  let tid := nextTid s.tid
  { s with
    tid := tid
    lpool := s.lpool.setRemoteTid m.destination m.tid tid
    msgs := s.msgs.update o fun m => { m with tid := tid }
    srcs := s.srcs.push { state := .init, outMsg := o, mid := m.mid, msgOutAvail := true } }

/-- `message_out::new_src_transaction` -/
def newSrcTransaction (o : Ptr) : MOn C σ Unit := fun s =>
  (runSrc process s.srcs.next).after (fun _ s' => s'.poolSrc s.srcs.next) (s.newSrc o)

/-- The beginning of `message_out`: request an acknowledgement. The call is logged. -/
def Node.logOut (s : Node σ C) (o : Ptr) : Node σ C :=
  let s := { s with msgs := s.msgs.update o fun m => { m with ackreq := true } }
  let m := s.msgs.get o
  s.emit (.messageOut o m ((s.findSrc (m.destination, m.tid)).map s.srcs.get)
    ((s.findDst (m.destination, m.tid)).map s.dsts.get))

/-- What `message_out` does to a transaction before it runs it. -/
def Machine.out {S : Type} (o : Ptr) (x : Machine S) : Machine S :=
  (x.submit o).startedAckRequestor.startedAckResponder

/-- `message_out::operator()` -/
def messageOut (o : Ptr) : MOn C σ Unit := fun s =>
  let s := s.logOut o
  let m := s.msgs.get o
  match m.opcode with
  | .response =>
    match s.findDst (m.destination, m.tid) with
    | some p => (runDstIfOngoing process p).after (fun _ s => s.delFinishedDst p)
        (s.onDst p (Machine.out o))
    | none => newSrcTransaction process o s
  | .indication | .request =>
    match s.findSrc (m.destination, m.tid) with
    | some p => (runSrcIfOngoing process p).after (fun _ s => s.delFinishedSrc p)
        (s.onSrc p (Machine.out o))
    | none => newSrcTransaction process o s
  | .confirm => .ok () s

end Run

end Odtone.Mihf
