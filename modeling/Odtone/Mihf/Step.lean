import Odtone.Mihf.Node

/-! # Runs of a node

The once-a-second tick of `transaction_pool`, the knot between `process_message` and `message_out`,
and the inputs a node reacts to: a frame on the remote port, a local program (a message of a local
user or Link SAP, or a timer of a service) and a tick. An exception that leaves an input ends the
process, since nothing above `io_service::run` catches it, so a run stops there.
-/

namespace Odtone.Mihf

variable {σ C : Type}

/-! ## The tick -/

/-- `--` on an `unsigned` -/
def decUnsigned (n : Nat) : Nat := if n = 0 then 2 ^ 32 - 1 else n - 1

/-- `(*it)->transaction_stop_when--;` -/
def Machine.decStop {S : Type} (x : Machine S) : Machine S :=
  x.assign fun t => { t with transactionStopWhen := decUnsigned t.transactionStopWhen }

/-- `(*it)->retransmission_when--;` -/
def Machine.decRetransmission {S : Type} (x : Machine S) : Machine S :=
  x.assign fun t => { t with retransmissionWhen := decUnsigned t.retransmissionWhen }

section Dec

variable {S : Type} (cell : Node σ C → Ptr → Transaction S)
  (on : Node σ C → Ptr → (Machine S → Machine S) → Node σ C) (run : Ptr → MOn C σ Unit)

/-- The first part of the loop body of `transaction_pool::dec`: the life time. -/
def decLife (p : Ptr) : MOn C σ Unit := fun s =>
  let s := on s p Machine.decStop
  if (cell s p).transactionStopWhen = 0 then run p s else .ok () s

/-- The second part of the loop body: the retransmission timer. -/
def decTimer (p : Ptr) : MOn C σ Unit := fun s =>
  if (cell s p).ackRequestorStatus = .ongoing then
    let s := on s p Machine.decRetransmission
    if (cell s p).retransmissionWhen = 0 then run p (on s p Machine.ackRequestor) else .ok () s
  else .ok () s

/-- The loop body; the answer is whether the transaction is to be deleted. -/
def decOne (p : Ptr) : MOn C σ Bool := fun s =>
  match decLife cell on run p s with
  | .error e s' => .error e s'
  | .ok _ s₁ =>
    let expired := (cell s₁ p).transactionStopWhen = 0 && (cell s₁ p).transactionStatus = .ongoing
    match decTimer cell on run p s₁ with
    | .error e s' => .error e s'
    | .ok _ s₂ => .ok (expired || (cell s₂ p).transactionStatus ≠ .ongoing) s₂

/-- The loop, collecting what is to be deleted: `del_these`, in which what comes last is first. -/
def decLoop : List Ptr → MOn C σ (List Ptr)
  | [] => fun s => .ok [] s
  | p :: l => fun s =>
    match decOne cell on run p s with
    | .error e s' => .error e s'
    | .ok del s₁ =>
      match decLoop l s₁ with
      | .error e s' => .error e s'
      | .ok dels s₂ => .ok (if del then dels ++ [p] else dels) s₂

end Dec

section Knot

variable [Pool.Container C] (process : Ptr → Ptr → MOn C σ Bool)

/-- `transaction_pool::dec` on the source transactions. -/
def decSrc : MOn C σ Unit := fun s =>
  (decLoop (fun s => s.srcs.get) Node.onSrc (runSrc process) (Pool.toList s.src)).after
    (fun dels s => dels.foldl Node.delSrc s) s

/-- `transaction_pool::dec` on the destination transactions. -/
def decDst : MOn C σ Unit := fun s =>
  (decLoop (fun s => s.dsts.get) Node.onDst (runDst process) (Pool.toList s.dst)).after
    (fun dels s => dels.foldl Node.delDst s) s

/-- `transaction_pool::tick` -/
def tick : MOn C σ Unit := fun s =>
  match decSrc process s with
  | .error e s' => .error e s'
  | .ok _ s₁ => decDst process s₁

end Knot

/-- What the operations of a handler do to a node, given `message_out`. -/
def perform (out : Ptr → MOn C σ Unit) : (o : Op σ) → MOn C σ o.Res
  | .newMsg m => modifyGet fun s => (s.msgs.next, { s with msgs := s.msgs.push m })
  | .readMsg p => do return (← get).msgs.get p
  | .writeMsg p m => modify fun s => { s with msgs := s.msgs.set p m }
  | .getSvc => do return (← get).svc
  | .setSvc svc => modify fun s => { s with svc := svc }
  | .getLpool => do return (← get).lpool
  | .setLpool l => modify fun s => { s with lpool := l }
  | .udpSend p => modify fun s => s.emit (.udpSend p (s.msgs.get p))
  | .messageOut p => fun s => if p < s.msgs.next then out p s else .error .badPointer s

section Run

variable [Pool.Container C] (handler : Handler σ)

/-- `process_message`, with a bound on how deep it and `message_out` call each other. -/
def process : Nat → Ptr → Ptr → MOn C σ Bool
  | 0 => fun _ _ => throw .stackOverflow
  | n + 1 => fun i o => (handler i o).run (I := Calls σ) (perform (messageOut (process n)))

/-- `process_message` in a tick. -/
def processLocked (i o : Ptr) : MOn C σ Bool :=
  (handler i o).run (I := Calls σ) (perform fun _ => throw .deadlock)

/-- What a node reacts to. -/
inductive Input (σ : Type) where
  | recv (m : MetaMessage)
  | act (x : Prog (Calls σ) Fault Unit)
  | tick

/-- A local program hands the message `m` to `message_out`. -/
def Input.submit (m : MetaMessage) : Input σ :=
  .act do
    let p : Ptr ← Prog.perform (I := Calls σ) (.newMsg m)
    Prog.perform (I := Calls σ) (.messageOut p)

/-- One reaction. -/
def step (n : Nat) : Input σ → MOn C σ Unit
  | .recv m => fun s =>
    messageIn (process handler n) s.msgs.next { s with msgs := s.msgs.push m }
  | .act x => x.run (I := Calls σ) (perform (messageOut (process handler n)))
  | .tick => tick (processLocked handler)

/-- A run; it ends with the input that an exception leaves. -/
def run (n : Nat) : List (Input σ) → Node σ C → Node σ C := EStateM.runAll (step handler n)

end Run

end Odtone.Mihf
