import Odtone.Mihf.Services

/-! # The RDF information server

`miis_rdf_server::event_handler` answers a `MIH_Get_Information` indication with the results of the
queries in it. librdf is a function from the text of a query to its result, if it has one, and a
string is its bytes up to a zero. `run_query` should hand its result back in a parameter, but takes
this parameter by value, so what the handler reads is its own pointer, which nothing assigns.
-/

namespace Odtone.Miis

open Wire (Bytes Ty Element Message putArgs)
open Mihf (msgId statusSuccess)

/-- `iq_rdf_data` and `ir_rdf_data` -/
def rdfData : Ty := .seq [.orNull .octets, .octets]

abbrev infoQueryRdfDataList : Element := ⟨44, .list rdfData⟩
abbrev infoRespRdfDataList : Element := ⟨49, .list rdfData⟩

/-- An `unsigned char*` -/
inductive CharPtr where
  | unassigned
  | null
  | text (t : Bytes)
deriving DecidableEq

inductive Fault where
  | wire (e : Wire.Error)
  | badPointer
deriving DecidableEq

/-- `run_query`: what its parameter `results` is when it returns -/
def runQuery (librdf : Bytes → Option Bytes) (qry : Bytes) (_results : CharPtr) : CharPtr :=
  match librdf qry with
  | none => .null
  | some r => .text r

/-- `std::string::assign(const char*)` -/
def assign : CharPtr → Except Fault Bytes
  | .text t => .ok (t.takeWhile (· ≠ 0))
  | _ => .error .badPointer

/-- The loop over the queries with `n` rounds left. Each takes the first query, and passes
`result_str` by value. -/
def runQueries (librdf : Bytes → Option Bytes) (queryList : List rdfData.Val)
    (resultStr : CharPtr) :
    Nat → List rdfData.Val → Except Fault (List rdfData.Val)
  | 0, rspList => .ok rspList
  | n + 1, rspList => do
    let queryStr := (queryList.headD rdfData.fresh).2.1.takeWhile (· ≠ 0)
    let _ := runQuery librdf queryStr resultStr
    let data ← assign resultStr
    runQueries librdf queryList resultStr n (rspList.concat (.inl (), data, ()))

/-- The parameters of the response -/
def responseArgs (rspList : List rdfData.Val) : List Wire.Arg :=
  [Element.status.put statusSuccess, infoRespRdfDataList.put rspList]

/-- The response to `msg` with the results `rspList` -/
def respond (msg : Message) (rspList : List rdfData.Val) : Except Fault (Option Message) :=
  match ({} : Message).insert (msgId 4 .response 1) none (responseArgs rspList) with
  | .error e => .error (.wire e)
  | .ok response => .ok (some { response with tid := msg.tid, destination := msg.source })

/-- `event_handler`: the message that is sent, if any -/
def eventHandler (librdf : Bytes → Option Bytes) (msg : Message) (ec : Bool) :
    Except Fault (Option Message) :=
  if ec || msg.mid ≠ msgId 4 .indication 1 then .ok none
  else match infoQueryRdfDataList.get ⟨msg.payload, 0⟩ with
    | .error e _ => .error (.wire e)
    | .ok queryList _ => runQueries librdf queryList .unassigned queryList.length [] >>= respond msg

/-- One response goes to the sender, with the result of each query in its place. -/
def Answered (librdf : Bytes → Option Bytes) (msg : Message) (qs : List rdfData.Val)
    (r : Except Fault (Option Message)) : Prop :=
  ∃ rsp, r = .ok (some rsp) ∧ rsp.mid = msgId 4 .response 1 ∧ rsp.tid = msg.tid ∧
    rsp.destination = msg.source ∧
    putArgs (responseArgs (qs.map fun q => (.inl (), (librdf q.2.1).getD [], ()))) = .ok rsp.payload

/-- The first query ends the server, whatever librdf makes of it. -/
theorem answered_iff (librdf : Bytes → Option Bytes) {msg : Message} {qs : List rdfData.Val}
    {c : Cursor UInt8} (hmid : msg.mid = msgId 4 .indication 1)
    (hqs : infoQueryRdfDataList.get ⟨msg.payload, 0⟩ = .ok qs c) :
    Answered librdf msg qs (eventHandler librdf msg false) ↔ qs = [] := by
  have hrun : eventHandler librdf msg false =
      runQueries librdf qs .unassigned qs.length [] >>= respond msg := by
    simp [eventHandler, hmid, hqs]
  rw [hrun]
  constructor
  · rintro ⟨rsp, hrsp, -⟩
    cases qs with
    | nil => rfl
    | cons q qs => cases hrsp
  · rintro rfl
    exact ⟨_, rfl, rfl, rfl, rfl, rfl⟩

/-- An indication -/
def sample (payload : Bytes) : Message := { mid := msgId 4 .indication 1, payload := payload }

theorem answered_no_query :
    Answered some (sample [44, 1, 0]) [] (eventHandler some (sample [44, 1, 0]) false) :=
  (answered_iff some rfl rfl).mpr rfl

/-- The query `A` -/
theorem query_not_answered : ¬ Answered some (sample [44, 4, 1, 0, 1, 65]) [(.inl (), [65], ())]
    (eventHandler some (sample [44, 4, 1, 0, 1, 65]) false) := by
  rintro ⟨rsp, hrsp, -⟩
  cases hrsp

end Odtone.Miis
