import Odtone.Mihf.Effects
import Odtone.Mihf.Registration

/-! # Runs of the services

The services of an MIHF start with their constructor and then react to datagrams of users and Link
SAPs, to messages of peers, to their timers and to the tick of the address book. The transactions
with peers are outside: a message of a peer comes as they pass it on, what is handed to them only
shows in the log, and they may change the pool of local transactions at any time. -/

namespace Odtone.Mihf

open Wire (Bytes)

/-- What the services react to. -/
inductive ServiceInput where
  /-- a datagram of a user or a Link SAP -/
  | fromLocal (m : MetaMessage)
  /-- a message of a peer -/
  | fromPeer (m : MetaMessage)
  | eventTimer (tid : UInt16)
  | commandTimer (tid : UInt16)
  /-- a second has passed -/
  | second
  /-- the transactions change the pool of local transactions -/
  | pool (l : LocalTransactionPool)

namespace ServiceInput

variable (cfg : Config)

/-- The reaction. -/
def program : ServiceInput → Svc Unit
  | fromLocal m => Svc.recvLocal cfg m
  | fromPeer m => Svc.receive (Svc.sacProcessMessage cfg) { m with isLocal := false }
  | eventTimer tid => Svc.eventTimerExpires cfg tid
  | commandTimer tid => Svc.commandTimerExpires cfg tid
  | second => Svc.addressTick
  | pool l => Svc.setLpool l

/-- The message that is handled; for other inputs it is empty. -/
def message : ServiceInput → MetaMessage
  | fromLocal m => { m with isLocal := true }
  | fromPeer m => { m with isLocal := false }
  | _ => {}

end ServiceInput

variable (cfg : Config)

/-- One reaction of the services. -/
def serviceStep (i : ServiceInput) : M Services Unit := Svc.exec handOver (i.program cfg)

/-- The node once the services have started with the books of the configuration. -/
def serviceStart (svc : Services) (tid : UInt16) : Node Services :=
  (Svc.exec handOver (Svc.serviceManagement cfg) (Node.initial svc tid)).state

/-- A run of the services. -/
def serviceRun (svc : Services) (tid : UInt16) (is : List ServiceInput) : Node Services :=
  EStateM.runAll (serviceStep cfg) is (serviceStart cfg svc tid)

variable {cfg}

open Svc in
theorem ServiceInput.leaves (i : ServiceInput) (s : Node Services) :
    Leaves i.message (i.program cfg) (Handled cfg i.message s.svc) s := by
  cases i with
  | fromLocal m => exact leaves_recvLocal cfg m s
  | fromPeer m =>
    have hstart : Starts cfg { m with isLocal := false } s.msgs.next
        (sacProcessMessage cfg s.msgs.next (s.msgs.next + 1)) := starts_sacProcessMessage
    simp only [Leaves, program, receive, post_bind, post_newMsg, Store.next_push]
    refine hstart.post _ ?_
    rw [Store.get_push_of_lt (by simp), Store.get_push_next]
  | eventTimer tid =>
    simp only [Leaves, program, eventTimerExpires, post_bind, post_getSvc]
    cases s.svc.eventTimer.get? tid with
    | none => exact Effects.handled .refl
    | some p => exact Within.post_handled (Effects.handled .refl)
  | commandTimer tid =>
    simp only [Leaves, program, commandTimerExpires, post_bind, post_getSvc]
    cases s.svc.commandTimer.get? tid with
    | none => exact Effects.handled .refl
    | some t => exact Within.post_handled (Effects.handled .refl)
  | second =>
    refine Effects.handled (.single (.elapsed s.svc
      (fun a => { a with regInterval := a.regInterval.map (· - 1) }) fun _ => rfl))
  | pool l => exact Effects.handled .refl

/-! ## A sample -/

namespace Sample

/-- An MIHF with the identifier `77` that takes a Link SAP for inactive after `limit` unanswered
requests. -/
def mihf (limit : UInt16) : Config := { mihfid := [77], linkDeleteValue := limit }

/-- Its books when nothing is configured. -/
def empty : Services := { abook := [([77], {})] }

/-- The Link SAP `83` registers. -/
def registers : ServiceInput :=
  .fromLocal { mid := msgId 1 .indication 6, source := [83], destination := [77]
               payload := [113, 6, 19, 0, 0, 6, 1, 1] }

end Sample

end Odtone.Mihf
