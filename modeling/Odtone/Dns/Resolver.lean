import Odtone.Dns.Message
import Odtone.Support.Prog

/-! # The resolver

A query of an application is answered from the cache, or it is sent and waits in the list of active
queries until a response with its transaction identifier comes or until `cleanup` finds it expired.
Both lists compare queries by name and type alone. `callback` reports to the application and moves
the query from the active to the cached ones; it takes the mutex itself, also when `cleanup` calls
it, which holds the mutex already.

Every step records what the application sees of it: the calls it made, which of them it has
cancelled, and which of its callbacks were invoked.
-/

namespace Odtone.Dns

open List EStateM

/-- `dns_query_type` -/
inductive QueryType where
  | a
  | mx
  | aaaa
  | srv
  | naptr
deriving DecidableEq

def QueryType.code : QueryType → UInt16
  | a => 0x01
  | mx => 0x0f
  | aaaa => 0x1c
  | srv => 0x21
  | naptr => 0x23

/-- `dns_status`, without `DNS_ERROR`, which the resolver never reports -/
inductive Status where
  | ok
  | doesNotExist
  | timeout
deriving DecidableEq

/-- `DNS_QUERY_TIMEOUT` -/
def queryTimeout : Int := 30

/-- `boost::algorithm::to_lower` on one byte -/
def toLower (b : UInt8) : UInt8 := if 65 ≤ b ∧ b ≤ 90 then b + 32 else b

variable (γ κ : Type)

/-- `struct query`. The field `call` is not in the source: it says which call of `dns_queue` passed
the callback. -/
structure Query where
  ctx : γ
  name : List UInt8
  qtype : QueryType
  tid : UInt16
  expire : Int
  dnsMessage : Message := {}
  callback : κ
  call : Nat
deriving DecidableEq

/-- A call of `dns_queue`, with the time at which its query expires. -/
structure Call where
  ctx : γ
  callback : κ
  expire : Int
deriving DecidableEq

/-- An invocation of a callback with the fields of its `callback_info`. It is the callback that
`call` passed. -/
structure Invocation where
  call : Nat
  callback : κ
  context : γ
  name : List UInt8
  queryType : QueryType
  error : Status
  dnsMessage : Message
  fromCache : Bool
deriving DecidableEq

/-- The ways a step does not come to its end. -/
inductive ResolverFault where
  /-- The thread waits for a mutex it holds itself. -/
  | relock
  /-- A loop advances an iterator of a list node it has removed. -/
  | removedNode
deriving DecidableEq

/-- The state of the resolver, then what has been received and what the application has seen. -/
structure Resolver where
  tid : UInt16
  active : List (Query γ κ) := []
  cached : List (Query γ κ) := []
  locked : Bool := false
  /-- Receive operations that have been started and not completed. -/
  listening : Nat := 0
  sent : List Message := []
  received : List Message := []
  calls : List (Call γ κ) := []
  cancelled : List Nat := []
  invoked : List (Invocation γ κ) := []
  /-- The times of the cleanups, each with the number of calls before it. -/
  cleanups : List (Nat × Int) := []
deriving DecidableEq

variable {γ κ}

/-- `query::operator==` -/
def Query.Same (q r : Query γ κ) : Prop := q.qtype = r.qtype ∧ q.name = r.name
deriving Decidable

/-- `std::list::remove` -/
def removeQuery (qs : List (Query γ κ)) (q : Query γ κ) : List (Query γ κ) :=
  qs.filter fun r => ¬r.Same q

/-- What `callback` tells the application about a query. -/
def Query.invocation (q : Query γ κ) (status : Status) (fromCache : Bool) : Invocation γ κ where
  call := q.call
  callback := q.callback
  context := q.ctx
  name := q.name
  queryType := q.qtype
  error := status
  dnsMessage := q.dnsMessage
  fromCache := fromCache

namespace Resolver

abbrev M (γ κ : Type) := EStateM ResolverFault (Resolver γ κ)

/-- The constructor of a `scoped_lock`. -/
def lock : M γ κ Unit := fun s =>
  if s.locked then .error .relock s else .ok () { s with locked := true }

/-- The destructor of a `scoped_lock`. -/
def unlock : M γ κ Unit := modify fun s => { s with locked := false }

/-- `resolver::find_cached_query` -/
def findCachedQuery (name : List UInt8) (qtype : QueryType) : M γ κ (Option (Query γ κ)) := do
  lock
  let s ← get
  unlock
  return s.cached.find? fun q => q.qtype = qtype ∧ name = q.name

/-- `resolver::find_active_query` -/
def findActiveQuery (tid : UInt16) : M γ κ (Option (Query γ κ)) := do
  lock
  let s ← get
  unlock
  return s.active.find? fun q => tid = q.tid

/-- `resolver::callback` -/
def callback (q : Query γ κ) (status : Status) (fromCache : Bool) : M γ κ Unit := do
  modify fun s => { s with invoked := s.invoked ++ [q.invocation status fromCache] }
  lock
  modify fun s => { s with cached := s.cached ++ [q], active := removeQuery s.active q }
  unlock

/-- The message that `dns_queue` sends. -/
def queryMessage (tid : UInt16) (name : List UInt8) (qtype : QueryType) : Message :=
  { tid := tid, rd := true, nquery := 1, query := [⟨name, qtype.code, 1⟩] }

/-- The part of `dns_queue` behind the search of the cache. -/
def sendQuery (now : Int) (ctx : γ) (name : List UInt8) (qtype : QueryType) (appCallback : κ)
    (call : Nat) : M γ κ Unit := do
  modify fun s => { s with
    tid := s.tid + 1
    listening := s.listening + 1
    sent := s.sent ++ [queryMessage (s.tid + 1) name qtype] }
  let tid := (← get).tid
  lock
  modify fun s => { s with active := s.active ++
    [{ ctx := ctx, name := name.map toLower, qtype := qtype, tid := tid,
       expire := now + queryTimeout, callback := appCallback, call := call }] }
  unlock

/-- `resolver::dns_queue` at the time `now`, with the address of a server -/
def dnsQueue (now : Int) (ctx : γ) (name : List UInt8) (qtype : QueryType) (appCallback : κ) :
    M γ κ Unit := do
  let call := (← get).calls.length
  modify fun s => { s with calls := s.calls ++ [⟨ctx, appCallback, now + queryTimeout⟩] }
  match ← findCachedQuery name qtype with
  | some q => callback { q with ctx := ctx } .ok true
  | none => sendQuery now ctx name qtype appCallback call

/-- `resolver::receive_handler`, with what the frame holds if the bytes are one -/
def receiveHandler (msg : Option Message) : M γ κ Unit := do
  modify fun s => { s with listening := s.listening - 1 }
  match msg with
  | none => return ()
  | some m => do
      modify fun s => { s with received := s.received ++ [m] }
      if m.nquery < 1 then return ()
      else
        match ← findActiveQuery m.tid with
        | none => return ()
        | some q =>
          let q := { q with dnsMessage := m }
          if m.nanswer = 0 then callback q .doesNotExist false
          else if m.answer.any fun rr => rr.rtype = q.qtype.code then callback q .ok false
          else return ()

/-- The loop of `dns_cancel`. -/
def cancelQuery [DecidableEq γ] (context : γ) (s : Resolver γ κ) : Resolver γ κ :=
  match s.active.find? fun q => q.ctx = context with
  | some q => { s with
      active := removeQuery s.active q
      cancelled := s.cancelled ++ [q.call] }
  | none => s

/-- `resolver::dns_cancel` -/
def dnsCancel [DecidableEq γ] (context : γ) : M γ κ Unit := do
  lock
  modify (cancelQuery context)
  unlock

/-- The loop of `cleanup` over the active queries. -/
def expireActive (now : Int) : List (Query γ κ) → M γ κ Unit
  | [] => return ()
  | q :: qs =>
    if q.expire < now then do
      callback q .timeout false
      -- `callback` has removed the node on which the loop stands
      throw .removedNode
    else expireActive now qs

/-- The loop of `cleanup` over the cached queries. -/
def expireCached (now : Int) : List (Query γ κ) → M γ κ Unit
  | [] => return ()
  | q :: qs =>
    if q.expire < now then do
      modify fun s => { s with cached := removeQuery s.cached q }
      throw .removedNode
    else expireCached now qs

/-- `resolver::cleanup` at the time `now` -/
def cleanup (now : Int) : M γ κ Unit := do
  lock
  expireActive now (← get).active
  expireCached now (← get).cached
  modify fun s => { s with cleanups := s.cleanups ++ [(s.calls.length, now)] }
  unlock

end Resolver

/-! ## Events -/

/-- What happens to a resolver. -/
inductive ResolverEvent (γ κ : Type) where
  | queue (now : Int) (ctx : γ) (name : List UInt8) (qtype : QueryType) (appCallback : κ)
  | receive (msg : Option Message)
  | cancel (context : γ)
  | cleanup (now : Int)

namespace Resolver

/-- A datagram is handled if a receive operation has been started for it. -/
def step [DecidableEq γ] : ResolverEvent γ κ → M γ κ Unit
  | .queue now ctx name qtype appCallback => dnsQueue now ctx name qtype appCallback
  | .receive msg => do if 0 < (← get).listening then receiveHandler msg
  | .cancel context => dnsCancel context
  | .cleanup now => cleanup now

/-! ## What a step can do -/

section Updates

variable (s : Resolver γ κ)

/-- The application has made a call. -/
def asking (c : Call γ κ) : Resolver γ κ := { s with calls := s.calls ++ [c] }

/-- `callback` has run. -/
def answering (q : Query γ κ) (status : Status) (fromCache : Bool) : Resolver γ κ :=
  { s with
    invoked := s.invoked ++ [q.invocation status fromCache]
    cached := s.cached ++ [q]
    active := removeQuery s.active q }

/-- A query has been sent and stored. -/
def sending (now : Int) (ctx : γ) (name : List UInt8) (qtype : QueryType) (appCallback : κ)
    (call : Nat) : Resolver γ κ :=
  { s with
    tid := s.tid + 1
    listening := s.listening + 1
    sent := s.sent ++ [queryMessage (s.tid + 1) name qtype]
    active := s.active ++
      [{ ctx := ctx, name := name.map toLower, qtype := qtype, tid := s.tid + 1,
         expire := now + queryTimeout, callback := appCallback, call := call }] }

/-- A datagram has been received. -/
def receiving (msg : Option Message) : Resolver γ κ :=
  { s with listening := s.listening - 1, received := s.received ++ msg.toList }

/-- A query has been cancelled. -/
def cancelling (q : Query γ κ) : Resolver γ κ :=
  { s with active := removeQuery s.active q, cancelled := s.cancelled ++ [q.call] }

/-- Nothing of the list has expired. -/
def Fresh (now : Int) (qs : List (Query γ κ)) : Prop := ∀ q ∈ qs, ¬q.expire < now
deriving Decidable

/-- The results of a step from a state in which the mutex is free. -/
inductive Outcome : ResolverEvent γ κ → Result ResolverFault (Resolver γ κ) Unit → Prop
  | hit (now : Int) (ctx : γ) (name : List UInt8) (qtype : QueryType) (f : κ) (q : Query γ κ) :
      q ∈ s.cached → q.qtype = qtype → q.name = name →
      Outcome (.queue now ctx name qtype f)
        (.ok () ((s.asking ⟨ctx, f, now + queryTimeout⟩).answering { q with ctx := ctx } .ok true))
  | miss (now : Int) (ctx : γ) (name : List UInt8) (qtype : QueryType) (f : κ) :
      (∀ q ∈ s.cached, q.qtype = qtype → q.name ≠ name) →
      Outcome (.queue now ctx name qtype f) (.ok ()
        ((s.asking ⟨ctx, f, now + queryTimeout⟩).sending now ctx name qtype f s.calls.length))
  | deaf (msg : Option Message) : Outcome (.receive msg) (.ok () s)
  | ignored (msg : Option Message) : Outcome (.receive msg) (.ok () (s.receiving msg))
  | nonexistent (m : Message) (q : Query γ κ) : q ∈ s.active → m.tid = q.tid → 0 < m.nquery →
      m.nanswer = 0 →
      Outcome (.receive (some m)) (.ok ()
        ((s.receiving (some m)).answering { q with dnsMessage := m } .doesNotExist false))
  | answered (m : Message) (q : Query γ κ) : q ∈ s.active → m.tid = q.tid →
      (∃ rr ∈ m.answer, rr.rtype = q.qtype.code) →
      Outcome (.receive (some m)) (.ok ()
        ((s.receiving (some m)).answering { q with dnsMessage := m } .ok false))
  | cancelled (context : γ) (q : Query γ κ) : q ∈ s.active → q.ctx = context →
      Outcome (.cancel context) (.ok () (s.cancelling q))
  | notFound (context : γ) : Outcome (.cancel context) (.ok () s)
  | clean (now : Int) : Fresh now s.active → Fresh now s.cached →
      Outcome (.cleanup now) (.ok () { s with cleanups := s.cleanups ++ [(s.calls.length, now)] })
  | relocked (now : Int) (q : Query γ κ) : q ∈ s.active → q.expire < now →
      Outcome (.cleanup now) (.error .relock
        { s with locked := true, invoked := s.invoked ++ [q.invocation .timeout false] })
  | removed (now : Int) (q : Query γ κ) : q ∈ s.cached → q.expire < now →
      Outcome (.cleanup now) (.error .removedNode
        { s with locked := true, cached := removeQuery s.cached q })

end Updates

variable {s : Resolver γ κ}

theorem callback_eq (hs : s.locked = false) (q : Query γ κ) (status : Status) (fromCache : Bool) :
    callback q status fromCache s = .ok () (s.answering q status fromCache) := by
  cases s
  cases hs
  rfl

theorem findCachedQuery_eq (hs : s.locked = false) (name : List UInt8) (qtype : QueryType) :
    findCachedQuery name qtype s =
      .ok (s.cached.find? fun q => q.qtype = qtype ∧ name = q.name) s := by
  cases s
  cases hs
  rfl

theorem findActiveQuery_eq (hs : s.locked = false) (tid : UInt16) :
    findActiveQuery tid s = .ok (s.active.find? fun q => tid = q.tid) s := by
  cases s
  cases hs
  rfl

/-- The loops of `cleanup` stop at the first query that has expired. -/
theorem expire_cases (now : Int) {loop : List (Query γ κ) → M γ κ Unit} {e : ResolverFault}
    {stop : Query γ κ → Resolver γ κ} (hnil : loop [] s = .ok () s)
    (hcons : ∀ q qs, loop (q :: qs) s = if q.expire < now then .error e (stop q) else loop qs s)
    (qs : List (Query γ κ)) :
    (Fresh now qs ∧ loop qs s = .ok () s) ∨
    ∃ q ∈ qs, q.expire < now ∧ loop qs s = .error e (stop q) := by
  induction qs with
  | nil => exact .inl ⟨forall_mem_nil _, hnil⟩
  | cons q qs ih =>
    rw [hcons]
    by_cases hq : q.expire < now
    · exact .inr ⟨q, mem_cons_self, hq, if_pos hq⟩
    · rw [if_neg hq]
      rcases ih with ⟨hfresh, h⟩ | ⟨r, hr, hexp, h⟩
      · exact .inl ⟨forall_mem_cons.mpr ⟨hq, hfresh⟩, h⟩
      · exact .inr ⟨r, mem_cons_of_mem q hr, hexp, h⟩

variable (hs : s.locked = false)
include hs

theorem sendQuery_eq (now : Int) (ctx : γ) (name : List UInt8) (qtype : QueryType) (f : κ)
    (call : Nat) :
    sendQuery now ctx name qtype f call s = .ok () (s.sending now ctx name qtype f call) := by
  cases s
  cases hs
  rfl

theorem dnsQueue_outcome (now : Int) (ctx : γ) (name : List UInt8) (qtype : QueryType) (f : κ) :
    Outcome s (.queue now ctx name qtype f) (dnsQueue now ctx name qtype f s) := by
  have hfind := findCachedQuery_eq (s := s.asking ⟨ctx, f, now + queryTimeout⟩) hs name qtype
  have hrun : dnsQueue now ctx name qtype f s = (findCachedQuery name qtype >>= fun
        | some q => callback { q with ctx := ctx } .ok true
        | none => sendQuery now ctx name qtype f s.calls.length)
        (s.asking ⟨ctx, f, now + queryTimeout⟩) := rfl
  rw [hrun, bind_of_ok hfind]
  cases hq : (s.asking ⟨ctx, f, now + queryTimeout⟩).cached.find?
      fun q => q.qtype = qtype ∧ name = q.name with
  | some q =>
    have hsame : q.qtype = qtype ∧ name = q.name := by simpa using find?_some hq
    change Outcome s _ (callback { q with ctx := ctx } .ok true (s.asking _))
    rw [callback_eq (by exact hs)]
    exact .hit now ctx name qtype f q (mem_of_find?_eq_some hq) hsame.1 hsame.2.symm
  | none =>
    change Outcome s _ (sendQuery now ctx name qtype f s.calls.length (s.asking _))
    rw [sendQuery_eq (by exact hs)]
    refine .miss now ctx name qtype f fun q hmem htype hname => ?_
    simpa [htype, hname] using find?_eq_none.mp hq q hmem

theorem receiveHandler_outcome (msg : Option Message) :
    Outcome s (.receive msg) (receiveHandler msg s) := by
  cases msg with
  | none =>
    have hrun : receiveHandler none s = .ok () (s.receiving none) := by
      simp only [receiving, Option.toList_none, append_nil]
      rfl
    rw [hrun]
    exact .ignored none
  | some m =>
    have hfind := findActiveQuery_eq (s := s.receiving (some m)) hs m.tid
    have hrun : receiveHandler (some m) s =
        (if m.nquery < 1 then pure () else findActiveQuery m.tid >>= fun
          | none => pure ()
          | some q =>
            if m.nanswer = 0 then callback { q with dnsMessage := m } .doesNotExist false
            else if m.answer.any fun rr => rr.rtype = q.qtype.code then
              callback { q with dnsMessage := m } .ok false
            else pure () : M γ κ Unit) (s.receiving (some m)) := rfl
    rw [hrun]
    by_cases hnq : m.nquery < 1
    · rw [if_pos hnq]
      exact .ignored (some m)
    rw [if_neg hnq, bind_of_ok hfind]
    cases hq : (s.receiving (some m)).active.find? fun q => m.tid = q.tid with
    | none => exact .ignored (some m)
    | some q =>
      have hmem : q ∈ s.active := mem_of_find?_eq_some hq
      have htid : m.tid = q.tid := by simpa using find?_some hq
      by_cases hna : m.nanswer = 0
      · simp only [hna, if_true]
        rw [callback_eq (by exact hs)]
        exact .nonexistent m q hmem htid (UInt16.pos_iff_ne_zero.mpr fun h => hnq (by simp [h])) hna
      by_cases hany : m.answer.any fun rr => rr.rtype = q.qtype.code
      · simp only [hna, hany, if_true, if_false]
        rw [callback_eq (by exact hs)]
        exact .answered m q hmem htid (by simpa using hany)
      · simp only [hna, hany, if_false]
        exact .ignored (some m)

theorem dnsCancel_outcome [DecidableEq γ] (context : γ) :
    Outcome s (.cancel context) (dnsCancel context s) := by
  have hrun : dnsCancel context s =
      .ok () { cancelQuery context { s with locked := true } with locked := false } := by
    cases s
    cases hs
    rfl
  rw [hrun, cancelQuery]
  cases hq : s.active.find? fun q => q.ctx = context with
  | some q =>
    have h := Outcome.cancelled context q (mem_of_find?_eq_some hq) (by simpa using find?_some hq)
    rwa [cancelling, hs] at h
  | none =>
    have h := Outcome.notFound (s := s) context
    rwa [← hs]

theorem cleanup_outcome (now : Int) : Outcome s (.cleanup now) (cleanup now s) := by
  have hrun : cleanup now s = (expireActive now s.active >>= fun _ => get >>= fun s' =>
      expireCached now s'.cached >>= fun _ => modify (fun s =>
        { s with cleanups := s.cleanups ++ [(s.calls.length, now)] }) >>= fun _ => unlock)
      { s with locked := true } := by
    cases s
    cases hs
    rfl
  rw [hrun]
  obtain ⟨hactive, h⟩ | ⟨q, hq, hexp, h⟩ := expire_cases (s := { s with locked := true }) now
    (by rfl : expireActive now [] _ = _)
    (fun _ _ => apply_ite (fun m : M γ κ Unit => m _) _ _ _) s.active
  · rw [bind_of_ok h]
    change Outcome s _ ((expireCached now s.cached >>= _) { s with locked := true })
    obtain ⟨hcached, h⟩ | ⟨q, hq, hexp, h⟩ := expire_cases (s := { s with locked := true }) now
      (by rfl : expireCached now [] _ = _)
      (fun _ _ => apply_ite (fun m : M γ κ Unit => m _) _ _ _) s.cached
    · rw [bind_of_ok h]
      change Outcome s _ (.ok () { s with
        cleanups := s.cleanups ++ [(s.calls.length, now)], locked := false })
      rw [← hs]
      exact .clean now hactive hcached
    · rw [bind_of_error h]
      exact .removed now q hq hexp
  · rw [bind_of_error h]
    exact .relocked now q hq hexp

/-- Every step from a state in which the mutex is free has one of the outcomes. -/
theorem step_outcome [DecidableEq γ] (e : ResolverEvent γ κ) : Outcome s e (step e s) := by
  cases e with
  | queue now ctx name qtype f => exact dnsQueue_outcome hs now ctx name qtype f
  | receive msg =>
    by_cases hl : 0 < s.listening
    · have h : step (.receive msg) s =
          (if 0 < s.listening then receiveHandler msg else pure () : M γ κ Unit) s := rfl
      rw [h, if_pos hl]
      exact receiveHandler_outcome hs msg
    · have h : step (.receive msg) s =
          (if 0 < s.listening then receiveHandler msg else pure () : M γ κ Unit) s := rfl
      rw [h, if_neg hl]
      exact .deaf msg
  | cancel context => exact dnsCancel_outcome hs context
  | cleanup now => exact cleanup_outcome hs now

end Resolver

end Odtone.Dns
