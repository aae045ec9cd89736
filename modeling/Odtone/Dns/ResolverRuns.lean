import Odtone.Dns.Resolver
import Mathlib.Data.List.Range

/-! # Runs of the resolver

Two properties of whole runs. The first is that every call of the application gets its one answer:
this needs that no other query for the same name and type is active or cached when it is made, since
`callback` removes all of them and a hit in the cache invokes the callback that is stored there, and
that no cleanup finds an expired query, since both its loops fail there. The second is that `ok`
means an answer: this needs that no empty response is taken for an active query, since it is cached
like any other. -/

namespace Odtone.Dns

open List EStateM

variable {γ κ : Type} {q : Query γ κ}

/-- Removing a query from a list of different ones takes it out and nothing else. -/
theorem perm_removeQuery {qs : List (Query γ κ)} (hq : q ∈ qs)
    (hqs : qs.Pairwise fun q r => ¬q.Same r) : qs.Perm (q :: removeQuery qs q) := by
  obtain ⟨l, r, rfl⟩ := append_of_mem hq
  obtain ⟨-, hr, hlr⟩ := pairwise_append.mp hqs
  have hkeep (t : List (Query γ κ)) (ht : ∀ x ∈ t, ¬x.Same q) : removeQuery t q = t :=
    filter_eq_self.mpr fun x hx => by simpa using ht x hx
  have hl : removeQuery l q = l := hkeep l fun x hx => hlr x hx q mem_cons_self
  have hr : removeQuery r q = r := hkeep r fun x hx h =>
    (pairwise_cons.mp hr).1 x hx ⟨h.1.symm, h.2.symm⟩
  have h : removeQuery (l ++ q :: r) q = l ++ r := by
    have hq : removeQuery (q :: r) q = removeQuery r q := filter_cons_of_neg (by simp [Query.Same])
    rw [removeQuery, filter_append]
    exact congrArg₂ (· ++ ·) hl (hq.trans hr)
  rw [h]
  exact perm_middle

/-- The message has an answer of the type. -/
def Message.HasAnswer (m : Message) (qtype : QueryType) : Prop :=
  ∃ rr ∈ m.answer, rr.rtype = qtype.code

namespace Resolver

/-! ## Every call is answered once -/

/-- The answers the application has got. -/
structure Answered (s : Resolver γ κ) : Prop where
  /-- A callback is invoked with the context of its own call, -/
  own : ∀ v ∈ s.invoked, ∃ c, s.calls[v.call]? = some c ∧
    v.callback = c.callback ∧ v.context = c.ctx
  /-- at most once, -/
  once : (s.invoked.map (·.call)).Nodup
  /-- and by the first cleanup after the call has expired, unless the call is cancelled. -/
  due : ∀ k c, s.calls[k]? = some c → k ∉ s.cancelled → ∀ e ∈ s.cleanups, k < e.1 → c.expire < e.2 →
    k ∈ s.invoked.map (·.call)

/-- A query is made when there is no other for its name and type, and a cleanup finds nothing
expired. -/
def Orderly : ResolverEvent γ κ → Resolver γ κ → Prop
  | .queue _ _ name qtype _, s => (∀ q ∈ s.cached, q.qtype = qtype → q.name ≠ name) ∧
      ∀ q ∈ s.active, q.qtype = qtype → q.name ≠ name.map toLower
  | .cleanup now, s => Fresh now s.active ∧ Fresh now s.cached
  | .receive _, _ | .cancel _, _ => True

/-- The query stands for one of the calls. -/
def Holds (calls : List (Call γ κ)) (q : Query γ κ) : Prop :=
  calls[q.call]? = some ⟨q.ctx, q.callback, q.expire⟩

/-- What orderly steps keep: every call has its place, in one of the two lists or among the
cancelled ones, and those in the cache are the ones that have been answered. -/
structure Inv (s : Resolver γ κ) : Prop where
  free : s.locked = false
  apart : s.active.Pairwise fun q r => ¬q.Same r
  active : ∀ q ∈ s.active, Holds s.calls q
  cached : ∀ q ∈ s.cached, Holds s.calls q
  invoked : (s.invoked.map fun v => (v.call, v.callback, v.context)) =
    s.cached.map fun q => (q.call, q.callback, q.ctx)
  places : (s.active.map (·.call) ++ (s.cached.map (·.call) ++ s.cancelled)).Perm
    (range s.calls.length)
  counted : ∀ e ∈ s.cleanups, e.1 ≤ s.calls.length
  swept : ∀ k c, s.calls[k]? = some c → k ∉ s.cancelled → ∀ e ∈ s.cleanups,
    k < e.1 → ¬c.expire < e.2

namespace Inv

variable {s : Resolver γ κ}

theorem initial (tid : UInt16) : Inv ({ tid := tid } : Resolver γ κ) where
  free := rfl
  apart := .nil
  active _ hq := absurd hq not_mem_nil
  cached _ hq := absurd hq not_mem_nil
  invoked := rfl
  places := .nil
  counted _ he := absurd he not_mem_nil
  swept _ _ _ _ _ he := absurd he not_mem_nil

variable (h : Inv s)
include h

theorem answered : Answered s where
  own v hv := by
    have hmem := mem_map_of_mem (f := fun v => (v.call, v.callback, v.context)) hv
    rw [h.invoked] at hmem
    obtain ⟨q, hq, heq⟩ := mem_map.mp hmem
    obtain ⟨hcall, hcallback, hctx⟩ : q.call = v.call ∧ q.callback = v.callback ∧
      q.ctx = v.context := by
      simpa using heq
    have hcached : s.calls[q.call]? = some ⟨q.ctx, q.callback, q.expire⟩ := h.cached q hq
    rw [hcall] at hcached
    exact ⟨_, hcached, hcallback.symm, hctx.symm⟩
  once := by
    have hcalls : s.invoked.map (·.call) = s.cached.map (·.call) := by
      simpa [Function.comp_def] using congrArg (map Prod.fst) h.invoked
    rw [hcalls]
    have hnodup := h.places.nodup_iff.mpr nodup_range
    exact (nodup_append.mp (nodup_append.mp hnodup).2.1).1
  due k c hc hk e he hlt hexp := absurd hexp (h.swept k c hc hk e he hlt)

theorem answering (hq : q ∈ s.active) (m : Message) (status : Status) :
    Inv (s.answering { q with dnsMessage := m } status false) := by
  have hperm : s.active.Perm (q :: removeQuery s.active { q with dnsMessage := m }) :=
    perm_removeQuery hq h.apart
  refine ⟨h.free, h.apart.filter _, fun r hr => h.active r (mem_of_mem_filter hr), ?_, ?_, ?_,
    h.counted, h.swept⟩
  · exact forall_mem_append.mpr ⟨h.cached, forall_mem_singleton.mpr (h.active q hq)⟩
  · simp only [Resolver.answering, map_append, h.invoked]
    rfl
  · have hcalls := hperm.map (·.call)
    simp only [Resolver.answering, map_append, append_assoc]
    exact ((perm_middle.append_left _).trans perm_middle).trans
      ((hcalls.symm.append_right _).trans h.places)

theorem cancelling (hq : q ∈ s.active) : Inv (s.cancelling q) where
  free := h.free
  apart := h.apart.filter _
  active r hr := h.active r (mem_of_mem_filter hr)
  cached := h.cached
  invoked := h.invoked
  places := by
    have hcalls := (perm_removeQuery hq h.apart).map (·.call)
    simp only [Resolver.cancelling, ← append_assoc]
    refine (perm_append_singleton _ _).trans ?_
    rw [append_assoc]
    exact (hcalls.symm.append_right _).trans h.places
  counted := h.counted
  swept k c hc hk := h.swept k c hc fun h => hk (mem_append_left _ h)

theorem sending {now : Int} {ctx : γ} {name : List UInt8} {qtype : QueryType} {f : κ}
    (hnew : ∀ q ∈ s.active, q.qtype = qtype → q.name ≠ name.map toLower) :
    Inv ((s.asking ⟨ctx, f, now + queryTimeout⟩).sending now ctx name qtype f s.calls.length) := by
  have hold {q : Query γ κ} {c : Call γ κ} (hq : Holds s.calls q) : Holds (s.calls ++ [c]) q := by
    rw [Holds, List.getElem?_append_left (List.getElem?_eq_some_iff.mp hq).1]
    exact hq
  refine ⟨h.free, ?_, ?_, fun q hq => hold (h.cached q hq), h.invoked, ?_, fun e he => ?_, ?_⟩
  · refine pairwise_append.mpr ⟨h.apart, pairwise_singleton _ _, fun q hq r hr hsame => ?_⟩
    obtain rfl := mem_singleton.mp hr
    exact hnew q hq hsame.1 hsame.2
  · exact forall_mem_append.mpr ⟨fun q hq => hold (h.active q hq),
      forall_mem_singleton.mpr getElem?_concat_length⟩
  · simp only [Resolver.sending, asking, map_append, length_append, append_assoc,
      length_singleton, range_succ]
    refine perm_middle.trans ?_
    exact (h.places.cons _).trans (perm_append_singleton _ _).symm
  · exact (h.counted e he).trans (by simp [Resolver.sending, asking])
  · intro k c hc hk e he hlt
    rw [Resolver.sending, asking, getElem?_append_left (hlt.trans_le (h.counted e he))] at hc
    exact h.swept k c hc hk e he hlt

theorem clean {now : Int} (hactive : Fresh now s.active) (hcached : Fresh now s.cached) :
    Inv { s with cleanups := s.cleanups ++ [(s.calls.length, now)] } := by
  refine { h with counted := ?_, swept := fun k c hc hk => ?_ }
  · exact forall_mem_append.mpr ⟨h.counted, forall_mem_singleton.mpr le_rfl⟩
  refine forall_mem_append.mpr ⟨h.swept k c hc hk, forall_mem_singleton.mpr fun hlt => ?_⟩
  have hplace : k ∈ s.active.map (·.call) ++ (s.cached.map (·.call) ++ s.cancelled) :=
    h.places.mem_iff.mpr (mem_range.mpr hlt)
  have hof {q : Query γ κ} (hq : Holds s.calls q) (hcall : q.call = k) : q.expire = c.expire := by
    rw [Holds, hcall, hc] at hq
    exact congrArg Call.expire (Option.some.inj hq).symm
  rcases mem_append.mp hplace with hmem | hmem
  · obtain ⟨q, hq, hcall⟩ := mem_map.mp hmem
    exact hof (h.active q hq) hcall ▸ hactive q hq
  rcases mem_append.mp hmem with hmem | hmem
  · obtain ⟨q, hq, hcall⟩ := mem_map.mp hmem
    exact hof (h.cached q hq) hcall ▸ hcached q hq
  · exact absurd hmem hk

variable [DecidableEq γ] {e : ResolverEvent γ κ}

theorem step (he : Orderly e s) : ∃ s', Resolver.step e s = .ok () s' ∧ Inv s' := by
  have houtcome := step_outcome h.free e
  generalize Resolver.step e s = r at houtcome
  cases houtcome with
  | hit now ctx name qtype f q hq htype hname => exact absurd hname (he.1 q hq htype)
  | miss now ctx name qtype f hmiss => exact ⟨_, rfl, h.sending he.2⟩
  | deaf | notFound => exact ⟨_, rfl, h⟩
  | ignored msg => exact ⟨_, rfl, { h with }⟩
  | nonexistent m q hq htid hnq hna =>
    exact ⟨_, rfl, answering (s := s.receiving (some m)) { h with } hq m .doesNotExist⟩
  | answered m q hq htid hany =>
    exact ⟨_, rfl, answering (s := s.receiving (some m)) { h with } hq m .ok⟩
  | cancelled context q hq hctx => exact ⟨_, rfl, h.cancelling hq⟩
  | clean now hactive hcached => exact ⟨_, rfl, h.clean hactive hcached⟩
  | relocked now q hq hexp => exact absurd hexp (he.1 q hq)
  | removed now q hq hexp => exact absurd hexp (he.2 q hq)

end Inv

instance [DecidableEq γ] (e : ResolverEvent γ κ) (s : Resolver γ κ) : Decidable (Orderly e s) :=
  match e with
  | .queue _ _ _ _ _ => inferInstanceAs (Decidable (_ ∧ _))
  | .cleanup _ => inferInstanceAs (Decidable (_ ∧ _))
  | .receive _ | .cancel _ => isTrue trivial

/-- In a run whose steps are all orderly nothing fails, and every call gets its answer. -/
theorem answered_of_orderly [DecidableEq γ] (tid : UInt16) (events : List (ResolverEvent γ κ))
    (h : Along step Orderly events { tid := tid }) :
    ∃ s, Steps step { tid := tid } events s ∧ Answered s := by
  obtain ⟨s, hsteps, hs⟩ := exists_steps (fun e s he hs => Inv.step hs he) events
    (Inv.initial tid) h
  exact ⟨s, hsteps, hs.answered⟩

/-- A response with this many answers of the type. -/
def sampleResponse (tid : UInt16) (qtype : QueryType) (n : Nat) : Message where
  tid := tid
  qr := true
  nquery := 1
  nanswer := UInt16.ofNat n
  query := [⟨[97], qtype.code, 1⟩]
  answer := replicate n ⟨[97], qtype.code, 1, 60, 0, []⟩

/-- Two queries, one answered and one cancelled, and a cleanup. -/
theorem answered_of_two_queries :
    ∃ s : Resolver Nat Nat, Steps step { tid := 0 }
        [.queue 0 7 [97] .a 70, .queue 1 8 [97] .srv 80, .receive (some (sampleResponse 1 .a 1)),
          .cancel 8, .cleanup 20] s ∧ Answered s :=
  answered_of_orderly 0 _ (by decide +kernel)

/-- One query is answered, and another call for the same name finds it in the cache: the callback of
the first call is invoked a second time, with the context of the second call. Without the second
call the cleanup after the first has expired removes a node it stands on, and without the response
it waits for the mutex it holds. -/
theorem queries_not_answered :
    let q : ResolverEvent Nat Nat := .queue 0 7 [97] .a 70
    let r : ResolverEvent Nat Nat := .receive (some (sampleResponse 1 .a 1))
    ((runAll step [q, r, .queue 1 8 [97] .a 80] { tid := 0 }).invoked.map
        fun v => (v.call, v.callback, v.context)) = [(0, 70, 7), (0, 70, 8)] ∧
      (step (.cleanup 31) (runAll step [q, r] { tid := 0 })).fault? = some .removedNode ∧
      (step (.cleanup 31) (runAll step [q] { tid := 0 })).fault? = some .relock := by
  decide +kernel

/-! ## What `ok` means -/

/-- The successes the application has been told of. -/
structure Truthful (s : Resolver γ κ) : Prop where
  /-- Success comes with a message that has been received and has an answer of the type. -/
  answer : ∀ v ∈ s.invoked, v.error = .ok →
    v.dnsMessage ∈ s.received ∧ v.dnsMessage.HasAnswer v.queryType
  /-- What has failed is not a success from the cache later. -/
  lasting : s.invoked.Pairwise fun v w => v.error ≠ .ok → w.error = .ok → w.fromCache = true →
    ¬(w.name = v.name ∧ w.queryType = v.queryType)

/-- No response without answers is taken for an active query. -/
def Conclusive : ResolverEvent γ κ → Resolver γ κ → Prop
  | .receive (some m), s => 0 < m.nquery → m.nanswer = 0 → ∀ q ∈ s.active, m.tid ≠ q.tid
  | _, _ => True

/-- What conclusive steps keep: everything in the cache, and all the application has been told, is
an answer. -/
structure Conclusions (s : Resolver γ κ) : Prop where
  free : s.locked = false
  cached : ∀ q ∈ s.cached, q.dnsMessage ∈ s.received ∧ q.dnsMessage.HasAnswer q.qtype
  invoked : ∀ v ∈ s.invoked, v.error = .ok ∧
    v.dnsMessage ∈ s.received ∧ v.dnsMessage.HasAnswer v.queryType

namespace Conclusions

variable {s : Resolver γ κ} (h : Conclusions s)
include h

theorem truthful : Truthful s where
  answer v hv _ := (h.invoked v hv).2
  lasting := pairwise_of_forall_mem_list fun v hv _ _ hfail => absurd (h.invoked v hv).1 hfail

theorem answering (fromCache : Bool)
    (hq : q.dnsMessage ∈ s.received ∧ q.dnsMessage.HasAnswer q.qtype) :
    Conclusions (s.answering q .ok fromCache) where
  free := h.free
  cached := forall_mem_append.mpr ⟨h.cached, forall_mem_singleton.mpr hq⟩
  invoked := forall_mem_append.mpr ⟨h.invoked, forall_mem_singleton.mpr ⟨rfl, hq⟩⟩

theorem receiving (msg : Option Message) : Conclusions (s.receiving msg) where
  free := h.free
  cached q hq := ⟨mem_append_left _ (h.cached q hq).1, (h.cached q hq).2⟩
  invoked v hv :=
    ⟨(h.invoked v hv).1, mem_append_left _ (h.invoked v hv).2.1, (h.invoked v hv).2.2⟩

variable [DecidableEq γ]

theorem step (he : Conclusive e s) {s' : Resolver γ κ}
    (hstep : Resolver.step e s = .ok () s') : Conclusions s' := by
  have houtcome := step_outcome h.free e
  rw [hstep] at houtcome
  cases houtcome with
  | hit now ctx name qtype f q hq htype hname =>
    exact answering (s := s.asking _) { h with } true (h.cached q hq)
  | miss | cancelled | clean => exact { h with }
  | deaf | notFound => exact h
  | ignored msg => exact h.receiving msg
  | nonexistent m q hq htid hnq hna => exact absurd htid (he hnq hna q hq)
  | answered m q hq htid hany =>
    exact (h.receiving (some m)).answering false ⟨mem_append_right _ mem_cons_self, hany⟩

/-- A cleanup that fails reports a timeout at most, and after it there are no other reports. -/
theorem step_truthful (he : Conclusive e s) : Truthful (Resolver.step e s).state := by
  have houtcome := step_outcome h.free e
  generalize hr : Resolver.step e s = r at houtcome
  rcases r with ⟨⟨⟩, s'⟩ | ⟨fault, s'⟩
  · exact (h.step he hr).truthful
  cases houtcome with
  | relocked now q hq hexp =>
    refine ⟨?_, ?_⟩
    · exact forall_mem_append.mpr ⟨h.truthful.answer, forall_mem_singleton.mpr nofun⟩
    · refine pairwise_append.mpr ⟨h.truthful.lasting, pairwise_singleton _ _, ?_⟩
      intro v hv w _ hfail
      exact absurd (h.invoked v hv).1 hfail
  | removed now q hq hexp => exact { h.truthful with }

end Conclusions

/-- In a run in which no response without answers is taken for an active query, success is an
answer. -/
theorem truthful_of_conclusive [DecidableEq γ] (tid : UInt16) (events : List (ResolverEvent γ κ))
    (h : Along step Conclusive events { tid := tid }) :
    Truthful (runAll step events { tid := tid }) :=
  runAll_along_induct (P := Conclusions) (fun _ _ _ he hs hstep => hs.step he hstep)
    (fun _ _ he hs => hs.step_truthful he) (fun _ hs => hs.truthful) events
    ⟨rfl, fun _ hq => absurd hq not_mem_nil, fun _ hv => absurd hv not_mem_nil⟩ h

instance [DecidableEq γ] (e : ResolverEvent γ κ) (s : Resolver γ κ) : Decidable (Conclusive e s) :=
  match e with
  | .receive (some m) => inferInstanceAs (Decidable (0 < m.nquery → m.nanswer = 0 → _))
  | .receive none | .queue _ _ _ _ _ | .cancel _ | .cleanup _ => isTrue trivial

/-- A query, its answer, a hit in the cache and a cleanup that fails. -/
theorem truthful_of_answer :
    Truthful (runAll step [.queue 0 7 [97] .a 70, .receive (some (sampleResponse 1 .a 1)),
      .queue 1 8 [97] .a 80, .cleanup 31] { tid := 0 } : Resolver Nat Nat) :=
  truthful_of_conclusive 0 _ (by decide +kernel)

/-- The server says that a name does not exist; asked again, the resolver reports success from its
cache, without an answer. -/
theorem nonexistent_becomes_ok :
    ((runAll step [.queue 0 7 [97] .a 70, .receive (some (sampleResponse 1 .a 0)),
        .queue 1 8 [97] .a 80] ({ tid := 0 } : Resolver Nat Nat)).invoked.map
      fun v => (v.name, v.queryType, v.error, v.fromCache, v.dnsMessage.answer)) =
      [([97], .a, .doesNotExist, false, []), ([97], .a, .ok, true, [])] := by
  decide +kernel

end Resolver

end Odtone.Dns
