import Odtone.Sap.User

/-! # Handlers of a User SAP

What handlers are for, said in terms of the log alone: a request is outstanding from when it is
given an identifier until a confirm with that identifier comes or its sending fails. The map of the
SAP is that book of outstanding requests as long as no failed send operation without a handler has
the identifier of another request, and then every handler is invoked when it should be. -/

namespace Odtone.Sap

open Wire (Bytes Frame Message)
open List EStateM

variable {η : Type}

/-! ## What the log says -/

namespace Entry

/-- What an event does to the outstanding requests. -/
def update : Entry η → Rmap η → Rmap η
  | request call tid h, b => b.insert tid ⟨call, h⟩
  | confirm tid _, b => b.erase tid
  | failed call _, b => b.filter fun e => e.2.call ≠ call
  | completed _ _, b | general _, b => b

/-- The handler that is invoked. -/
def invoked : Entry η → Option (Nat × η)
  | confirm _ v | failed _ v | completed _ v => v
  | request _ _ _ | general _ => none

/-- The event is as it should be while the requests of `b` are outstanding. -/
def Due (b : Rmap η) : Entry η → Prop
  | request _ tid _ => b.get? tid = none
  | confirm tid v => v = (b.get? tid).bind Registered.invocation
  | failed call v | completed call v => ∀ w ∈ v, w.1 = call
  | general _ => True

end Entry

/-- The outstanding requests. -/
def outstanding (log : List (Entry η)) : Rmap η := log.foldl (fun b e => e.update b) []

/-- Every event is as it should be, the first of them while `b` is outstanding. -/
def DueFrom (b : Rmap η) : List (Entry η) → Prop
  | [] => True
  | e :: es => e.Due b ∧ DueFrom (e.update b) es

/-- The calls whose handlers have been invoked. -/
def invokedCalls (log : List (Entry η)) : List Nat := (log.filterMap Entry.invoked).map Prod.fst

/-- The discipline of the handlers. -/
structure Disciplined (log : List (Entry η)) : Prop where
  due : DueFrom [] log
  once : (invokedCalls log).Nodup

theorem dueFrom_append {b : Rmap η} {es es' : List (Entry η)} :
    DueFrom b (es ++ es') ↔ DueFrom b es ∧ DueFrom (es.foldl (fun b e => e.update b) b) es' := by
  induction es generalizing b with
  | nil => simp [DueFrom]
  | cons e es ih => rw [cons_append, DueFrom, DueFrom, ih, foldl_cons, and_assoc]

theorem dueFrom_concat {log : List (Entry η)} {e : Entry η} (h : DueFrom [] log)
    (he : e.Due (outstanding log)) : DueFrom [] (log ++ [e]) :=
  dueFrom_append.mpr ⟨h, he, trivial⟩

theorem outstanding_append (log es : List (Entry η)) :
    outstanding (log ++ es) = es.foldl (fun b e => e.update b) (outstanding log) :=
  foldl_append

theorem invokedCalls_append (log es : List (Entry η)) :
    invokedCalls (log ++ es) = invokedCalls log ++ invokedCalls es := by
  rw [invokedCalls, filterMap_append, map_append]
  rfl

/-! ## What is kept -/

namespace User

/-- A send operation that fails without a handler is that of the request outstanding under its
identifier, if there is one. -/
def Matched : UserEvent η → User η → Prop
  | .sent n true, s => ∀ op, s.pending[n]? = some op → op.handler = none →
      ∀ r, s.rmap.get? op.fm.tid = some r → r.call = op.call
  | _, _ => True

/-- The call whose handler is bound to a send operation. -/
def owner (op : SendOp η) : Option Nat := op.handler.map fun _ => op.call

/-- The calls whose handlers may be invoked yet. -/
def tickets (s : User η) : List Nat := s.rmap.map (·.2.call) ++ s.pending.filterMap owner

structure Inv (s : User η) : Prop where
  rmap : s.rmap = outstanding s.log
  keys : s.rmap.keys.Nodup
  due : DueFrom [] s.log
  once : (s.tickets ++ invokedCalls s.log).Nodup
  tickets_lt : ∀ k ∈ s.tickets ++ invokedCalls s.log, k < s.calls
  pending_lt : ∀ op ∈ s.pending, op.call < s.calls
  own : ∀ op ∈ s.pending, ∀ e ∈ s.rmap, e.2.call = op.call → e.1 = op.fm.tid

namespace Inv

variable {s s' : User η}

theorem initial (userId : Bytes) : Inv ({ userId := userId } : User η) where
  rmap := rfl
  keys := .nil
  due := trivial
  once := .nil
  tickets_lt _ hk := absurd hk not_mem_nil
  pending_lt _ hop := absurd hop not_mem_nil
  own _ hop := absurd hop not_mem_nil

variable {op : SendOp η} {n : Nat} {e : UInt16 × Registered η}

theorem perm_completing (hop : s.pending[n]? = some op) :
    s.pending.Perm (op :: s.pending.eraseIdx n) := by
  obtain ⟨hlt, rfl⟩ := List.getElem?_eq_some_iff.mp hop
  exact (getElem_cons_eraseIdx_perm hlt).symm

/-- The calls of what is taken out of the map. -/
theorem sublist_handlerOf (tid : UInt16) : ((s.handlerOf tid).toList.map Prod.fst).Sublist
    ((s.rmap.get? tid).toList.map (·.call)) := by
  unfold handlerOf
  cases s.rmap.get? tid with
  | none => exact nil_sublist _
  | some r =>
    rw [Option.bind_some, Registered.invocation]
    cases r.handler with
    | none => exact nil_sublist _
    | some h => exact .refl _

theorem perm_owner (hop : s.pending[n]? = some op) : (s.pending.filterMap owner).Perm
      ((owner op).toList ++ (s.pending.eraseIdx n).filterMap owner) := by
  refine ((perm_completing hop).filterMap owner).trans (.of_eq ?_)
  rw [filterMap_cons]
  cases owner op <;> rfl

variable (h : Inv s)
include h

theorem disciplined : Disciplined s.log where
  due := h.due
  once := (nodup_append.mp h.once).2.1

/-- Handlers of `s` that cannot be invoked any more in `t` have been invoked at most once. -/
theorem spend {t : User η} {X Y : List Nat} {es : List (Entry η)} (hlog : t.log = s.log ++ es)
    (htickets : s.tickets.Perm (X ++ t.tickets)) (hes : invokedCalls es = Y) (hsub : Y.Sublist X)
    (hcalls : t.calls = s.calls) :
    (t.tickets ++ invokedCalls t.log).Nodup ∧
      ∀ k ∈ t.tickets ++ invokedCalls t.log, k < t.calls := by
  have hperm : (t.tickets ++ invokedCalls t.log).Perm
      (Y ++ (t.tickets ++ invokedCalls s.log)) := by
    rw [hlog, invokedCalls_append, hes, ← append_assoc]
    exact perm_append_comm
  have hall : (s.tickets ++ invokedCalls s.log).Perm (X ++ (t.tickets ++ invokedCalls s.log)) := by
    rw [← append_assoc]
    exact htickets.append_right _
  have hsub' := hsub.append_right (t.tickets ++ invokedCalls s.log)
  constructor
  · exact hperm.nodup_iff.mpr ((hall.nodup_iff.mp h.once).sublist hsub')
  · intro k hk
    rw [hcalls]
    exact h.tickets_lt k (hall.mem_iff.mpr (hsub'.subset (hperm.mem_iff.mp hk)))

theorem perm_taking (tid : UInt16) : (s.rmap.map (·.2.call)).Perm
    ((s.rmap.get? tid).toList.map (·.call) ++ (s.rmap.erase tid).map (·.2.call)) := by
  have hperm := (Book.perm_erase h.keys tid).map (·.2.call)
  rwa [map_append, map_map] at hperm

theorem general (ec : ErrorCode) : Inv (s.noting [.general ec]) := by
  have hcalls : invokedCalls (s.log ++ [.general ec]) = invokedCalls s.log := by
    rw [invokedCalls_append]
    exact append_nil _
  refine { h with rmap := ?_, due := ?_, once := ?_, tickets_lt := ?_ }
  · exact h.rmap.trans (outstanding_append s.log [.general ec]).symm
  · exact dueFrom_concat h.due trivial
  · rw [noting, hcalls]
    exact h.once
  · rw [noting, hcalls]
    exact h.tickets_lt

/-- A confirm takes the handler under its identifier. -/
theorem confirming (tid : UInt16) :
    Inv ((s.taking tid).noting [.confirm tid (s.handlerOf tid)]) := by
  have hspend := h.spend (t := (s.taking tid).noting [.confirm tid (s.handlerOf tid)]) rfl
    (by
      rw [tickets, tickets, ← append_assoc]
      exact (h.perm_taking tid).append_right _)
    (by cases s.handlerOf tid <;> rfl) (sublist_handlerOf tid) rfl
  refine ⟨?_, ?_, ?_, hspend.1, hspend.2, h.pending_lt, fun op hop e he => ?_⟩
  · exact (congrArg (Book.erase tid) h.rmap).trans
      (outstanding_append s.log [.confirm tid (s.handlerOf tid)]).symm
  · exact h.keys.sublist (filter_sublist.map Prod.fst)
  · refine dueFrom_concat h.due ?_
    rw [Entry.Due, taking, ← h.rmap]
    rfl
  · exact h.own op hop e (mem_of_mem_filter he)

theorem registering {id : UInt16} (hid : s.rmap.get? id = none) (handler : Option η) :
    Inv (s.registering id handler) := by
  have hperm := Book.perm_insert hid ⟨s.calls, handler⟩
  have hcalls : invokedCalls (s.log ++ [.request s.calls id handler]) = invokedCalls s.log := by
    rw [invokedCalls_append]
    exact append_nil _
  have htickets : ((s.registering id handler).tickets ++
    invokedCalls (s.registering id handler).log).Perm
      (s.calls :: (s.tickets ++ invokedCalls s.log)) := by
    rw [User.registering, noting, hcalls, tickets, tickets]
    exact ((hperm.map (·.2.call)).append_right _).append_right _
  refine ⟨?_, ?_, ?_, ?_, ?_, ?_, ?_⟩
  · exact (congrArg (Book.insert id _) h.rmap).trans
      (outstanding_append s.log [.request s.calls id handler]).symm
  · refine (hperm.map Prod.fst).nodup_iff.mpr (nodup_cons.mpr ⟨fun hmem => ?_, h.keys⟩)
    obtain ⟨e, he, heq⟩ := mem_map.mp hmem
    exact Book.get?_eq_none.mp hid e he heq
  · refine dueFrom_concat h.due ?_
    rw [Entry.Due, ← h.rmap]
    exact hid
  · refine htickets.nodup_iff.mpr (nodup_cons.mpr ⟨fun hmem => ?_, h.once⟩)
    exact Nat.lt_irrefl _ (h.tickets_lt _ hmem)
  · intro k hk
    rcases mem_cons.mp (htickets.mem_iff.mp hk) with rfl | hk
    · exact Nat.lt_succ_self _
    · exact Nat.lt_succ_of_lt (h.tickets_lt k hk)
  · exact fun op hop => Nat.lt_succ_of_lt (h.pending_lt op hop)
  · intro op hop e he hcall
    rcases mem_cons.mp (hperm.mem_iff.mp he) with rfl | he
    · exact absurd (h.pending_lt op hop) (hcall ▸ Nat.lt_irrefl _)
    · exact h.own op hop e he hcall

/-- A call that sends nothing and registers nothing. -/
theorem calling : Inv { s with calls := s.calls + 1 } :=
  { h with
    tickets_lt := fun k hk => Nat.lt_succ_of_lt (h.tickets_lt k hk)
    pending_lt := fun op hop => Nat.lt_succ_of_lt (h.pending_lt op hop) }

theorem sendingRequest {call : Nat} {fm : Frame} (hcall : call < s.calls)
    (hown : ∀ e ∈ s.rmap, e.2.call = call → e.1 = fm.tid) : Inv (s.sending call fm none) := by
  have htickets : (s.sending call fm none).tickets = s.tickets := by
    rw [tickets, tickets, sending, filterMap_append]
    exact congrArg _ (append_nil _)
  refine { h with once := ?_, tickets_lt := ?_, pending_lt := ?_, own := ?_ }
  · rw [htickets]
    exact h.once
  · rw [htickets]
    exact h.tickets_lt
  · exact forall_mem_append.mpr ⟨h.pending_lt, forall_mem_singleton.mpr hcall⟩
  · exact forall_mem_append.mpr ⟨h.own, forall_mem_singleton.mpr hown⟩

theorem rmap_lt (he : e ∈ s.rmap) : e.2.call < s.calls :=
  h.tickets_lt _ (mem_append_left _ (mem_append_left _ (mem_map_of_mem he)))

theorem sendingOther (fm : Frame) (handler : Option η) :
    Inv ({ s with calls := s.calls + 1 }.sending s.calls fm handler) := by
  have hnew (e : UInt16 × Registered η) (he : e ∈ s.rmap) (hcall : e.2.call = s.calls) :
      e.1 = fm.tid := absurd (h.rmap_lt he) (hcall ▸ Nat.lt_irrefl _)
  cases handler with
  | none => exact h.calling.sendingRequest (Nat.lt_succ_self _) hnew
  | some f =>
    have hperm : (({ s with calls := s.calls + 1 }.sending s.calls fm (some f)).tickets ++
        invokedCalls s.log).Perm (s.calls :: (s.tickets ++ invokedCalls s.log)) := by
      rw [tickets, tickets, sending, filterMap_append, ← append_assoc]
      exact (perm_append_singleton _ _).append_right _
    refine ⟨h.rmap, h.keys, h.due, ?_, ?_, ?_, ?_⟩
    · refine hperm.nodup_iff.mpr (nodup_cons.mpr ⟨fun hmem => ?_, h.once⟩)
      exact Nat.lt_irrefl _ (h.tickets_lt _ hmem)
    · intro k hk
      rcases mem_cons.mp (hperm.mem_iff.mp hk) with rfl | hk
      · exact Nat.lt_succ_self _
      · exact Nat.lt_succ_of_lt (h.tickets_lt k hk)
    · exact forall_mem_append.mpr ⟨fun op hop => Nat.lt_succ_of_lt (h.pending_lt op hop),
        forall_mem_singleton.mpr (Nat.lt_succ_self _)⟩
    · exact forall_mem_append.mpr ⟨h.own, forall_mem_singleton.mpr hnew⟩

/-- A send operation completes whose handler is bound to it. -/
theorem completingOwn (hop : s.pending[n]? = some op) {e : Entry η}
    (hinv : e.invoked = op.handler.map fun f => (op.call, f))
    (hdue : e.Due s.rmap) (hupdate : e.update s.rmap = s.rmap) :
    Inv ((s.completing n).noting [e]) := by
  have hmem {op' : SendOp η} (h' : op' ∈ s.pending.eraseIdx n) : op' ∈ s.pending :=
    mem_of_mem_eraseIdx h'
  have hspend := h.spend (t := (s.completing n).noting [e]) rfl
    (by
      refine ((perm_owner hop).append_left _).trans ?_
      rw [← append_assoc]
      refine (perm_append_comm.append_right _).trans (.of_eq ?_)
      rw [append_assoc]
      rfl)
    (by
      rw [invokedCalls, filterMap_cons, hinv, owner]
      cases op.handler <;> rfl)
    (.refl _) rfl
  refine ⟨?_, h.keys, ?_, hspend.1, hspend.2, fun op' h' => h.pending_lt op' (hmem h'),
    fun op' h' => h.own op' (hmem h')⟩
  · refine Eq.trans ?_ (outstanding_append s.log [e]).symm
    rw [← h.rmap]
    exact hupdate.symm
  · refine dueFrom_concat h.due ?_
    rw [completing, ← h.rmap]
    exact hdue

/-- The handler of a send operation is not in the map. -/
theorem call_ne_of_owner (hop : op ∈ s.pending) (howner : owner op = some op.call)
    (he : e ∈ s.rmap) : e.2.call ≠ op.call := by
  have hdisjoint := (nodup_append.mp (nodup_append.mp h.once).1).2.2
  exact hdisjoint _ (mem_map_of_mem he) _ (mem_filterMap.mpr ⟨op, hop, howner⟩)

/-- A send operation fails that has no handler. -/
theorem failing (hop : s.pending[n]? = some op) (hnone : op.handler = none)
    (hmatched : ∀ r, s.rmap.get? op.fm.tid = some r → r.call = op.call) :
    Inv (((s.completing n).taking op.fm.tid).noting [.failed op.call (s.handlerOf op.fm.tid)]) := by
  have hmem {op' : SendOp η} (h' : op' ∈ s.pending.eraseIdx n) : op' ∈ s.pending :=
    mem_of_mem_eraseIdx h'
  have hpending : (s.pending.filterMap owner).Perm ((s.pending.eraseIdx n).filterMap owner) := by
    have hperm := perm_owner hop
    rwa [owner, hnone] at hperm
  have hspend := h.spend
    (t := ((s.completing n).taking op.fm.tid).noting [.failed op.call (s.handlerOf op.fm.tid)]) rfl
    (by
      rw [tickets, tickets, ← append_assoc]
      exact (h.perm_taking op.fm.tid).append hpending)
    (by cases s.handlerOf op.fm.tid <;> rfl) (sublist_handlerOf op.fm.tid) rfl
  -- the entry under the identifier of the frame is the one of the call
  have herase : s.rmap.erase op.fm.tid = s.rmap.filter fun e => e.2.call ≠ op.call := by
    refine filter_congr fun e he => decide_eq_decide.mpr (not_congr ⟨fun htid => ?_, ?_⟩)
    · exact hmatched e.2 (htid ▸ Book.get?_of_mem h.keys he)
    · exact h.own op (mem_of_getElem? hop) e he
  refine ⟨?_, h.keys.sublist (filter_sublist.map Prod.fst), ?_, hspend.1, hspend.2,
    fun op' h' => h.pending_lt op' (hmem h'),
    fun op' h' e he => h.own op' (hmem h') e (mem_of_mem_filter he)⟩
  · refine Eq.trans ?_ (outstanding_append s.log [.failed op.call (s.handlerOf op.fm.tid)]).symm
    rw [← h.rmap]
    exact herase
  · refine dueFrom_concat h.due fun w hw => ?_
    obtain ⟨r, hr, hw⟩ := Option.bind_eq_some_iff.mp hw
    obtain ⟨f, -, rfl⟩ := Option.map_eq_some_iff.mp hw
    exact hmatched r hr

theorem step {e : UserEvent η} (he : Matched e s) (hstep : User.step e s = .ok () s') : Inv s' := by
  have houtcome := step_outcome (s := s) e
  rw [hstep] at houtcome
  cases houtcome with
  | requested rand msg handler id fm hid htid =>
    have hreg := h.registering (get?_of_freeId hid) handler
    refine hreg.sendingRequest (Nat.lt_succ_self _) fun e he hcall => ?_
    rcases mem_cons.mp ((Book.perm_insert (get?_of_freeId hid) _).mem_iff.mp he) with rfl | he
    · exact htid.symm
    · exact absurd (h.rmap_lt he) (hcall ▸ Nat.lt_irrefl _)
  | unsentRequest rand msg handler id hid => exact h.registering (get?_of_freeId hid) handler
  | sent rand msg handler fm => exact h.sendingOther fm handler
  | unsent rand msg handler => exact h.calling
  | nothingSent | nothingReceived => exact h
  | failedOwn n op f hop hf =>
    refine h.completingOwn hop (by rw [hf]; rfl) (fun w hw => ?_)
      (filter_eq_self.mpr fun e he => ?_)
    · rw [← Option.mem_some.mp hw]
    · have howner : owner op = some op.call := by rw [owner, hf]; rfl
      simpa using h.call_ne_of_owner (mem_of_getElem? hop) howner he
  | failed n op hop hnone => exact h.failing hop hnone (he op hop hnone)
  | completed n op hop =>
    refine h.completingOwn hop rfl (fun w hw => ?_) rfl
    obtain ⟨f, -, rfl⟩ := Option.map_eq_some_iff.mp hw
    rfl
  | general buff ec => exact h.general ec
  | confirmed buff fm es hes =>
    rcases hes with rfl | ⟨ec, rfl⟩
    · exact h.confirming fm.tid
    · have hlog := (h.confirming fm.tid).general ec
      rwa [noting, noting, append_assoc] at hlog

end Inv

/-- In every run in which each failed send operation without a handler is that of the request
outstanding under its identifier, the handlers are invoked as they should be. -/
theorem disciplined_of_matched (userId : Bytes) (events : List (UserEvent η))
    (h : Along step Matched events { userId := userId }) :
    Disciplined (runAll step events { userId := userId }).log := by
  refine runAll_along_induct
    (fun _ _ _ he hs hstep => hs.step he hstep) (fun e s he hs => ?_)
    (fun _ hs => hs.disciplined) events
    (Inv.initial userId) h
  have houtcome := step_outcome (s := s) e
  rcases hr : step e s with ⟨⟨⟩, s'⟩ | ⟨fault, s'⟩
  · exact (hs.step he hr).disciplined
  · -- a step that fails has logged nothing
    have hlog : s'.log = s.log := by
      rw [hr] at houtcome
      cases houtcome with
      | hung | garbled => rfl
      | illegible n ec err s' hlog => exact hlog
    exact hlog ▸ hs.disciplined

instance (e : UserEvent η) (s : User η) : Decidable (Matched e s) :=
  match e with
  | .sent n true => decidable_of_iff
      (∀ op ∈ s.pending[n]?, op.handler = none → ∀ r ∈ s.rmap.get? op.fm.tid, r.call = op.call)
      Iff.rfl
  | .sent _ false | .send _ _ _ | .receive _ => isTrue trivial

/-- The bytes of a confirm with this identifier. -/
def sampleConfirm (tid : UInt8) : Bytes := [0x10, 0, 0x10, 1, 0, tid, 0, 6, 1, 1, 0, 2, 1, 0]

/-- Sending one request fails, and another is confirmed. -/
theorem disciplined_of_two_requests :
    let events : List (UserEvent Nat) := [.send 5 { mid := 0x1401 } (some 70), .sent 0 true,
      .send 5 { mid := 0x1401 } (some 80), .receive (some (sampleConfirm 5))]
    let s := runAll step events {}
    s.log = [.request 0 5 (some 70), .failed 0 (some (0, 70)), .request 1 5 (some 80),
      .confirm 5 (some (1, 80))] ∧ Disciplined s.log := by
  intro events s
  exact ⟨by decide +kernel, disciplined_of_matched [] events (by decide +kernel)⟩

/-- The sending of a response without a handler fails, and the handler of the request with the same
identifier is invoked. The same happens when the sending of a request is found to have failed after
it was confirmed and its identifier was given to another one. -/
theorem failure_invokes_other :
    (runAll step [.send 5 { mid := 0x1401 } (some 70), .send 0 { mid := 0x1801, tid := 5 } none,
        .sent 1 true] ({} : User Nat)).log = [.request 0 5 (some 70), .failed 1 (some (0, 70))] ∧
      (runAll step [.send 5 { mid := 0x1401 } (some 70), .receive (some (sampleConfirm 5)),
        .send 5 { mid := 0x1401 } (some 80), .sent 0 true] ({} : User Nat)).log =
        [.request 0 5 (some 70), .confirm 5 (some (0, 70)), .request 1 5 (some 80),
          .failed 0 (some (1, 80))] := by
  decide +kernel

end User

end Odtone.Sap
