import Odtone.Dns.ResolverRuns

/-! # The cache of the resolver

The cache is meant to be a map from names and types to answers. It is a list to which `callback`
appends, also when the query it reports has just been found there, so that it remains a map only as
long as nothing is found. Names are stored in lower case and compared as they are given, so that an
entry is found for one spelling of its name only.
-/

namespace Odtone.Dns

open List EStateM

variable {γ κ : Type}

theorem toLower_toLower (b : UInt8) : toLower (toLower b) = toLower b := by
  unfold toLower
  split_ifs with h h'
  · simp only [UInt8.le_iff_toNat_le, UInt8.toNat_add, UInt8.reduceToNat] at h h'
    omega
  · rfl
  · rfl

/-- The spelling under which a name is stored. -/
def lowered (name : List UInt8) : List UInt8 := name.map toLower

@[simp] theorem lowered_lowered (name : List UInt8) : lowered (lowered name) = lowered name := by
  simp [lowered, toLower_toLower]

namespace Resolver

/-- Two entries for one name, in whatever spelling, and one type. -/
def SameEntry (q r : Query γ κ) : Prop := q.qtype = r.qtype ∧ lowered q.name = lowered r.name

theorem SameEntry.symm {q r : Query γ κ} (h : SameEntry q r) : SameEntry r q := ⟨h.1.symm, h.2.symm⟩

instance : Std.Symm fun q r : Query γ κ => ¬SameEntry q r := ⟨fun _ _ h hsame => h hsame.symm⟩

variable [DecidableEq γ]

/-- A lookup at the time `now` is answered with the entry `q`, and no query is sent for it. -/
def Finds (s : Resolver γ κ) (q : Query γ κ) (now : Int) (ctx : γ) (name : List UInt8)
    (f : κ) : Prop :=
  ∃ s', step (.queue now ctx name q.qtype f) s = .ok () s' ∧ s'.sent = s.sent ∧
    s'.invoked = s.invoked ++ [{ q with ctx }.invocation .ok true]

/-- The cache is a map, in which a lookup finds what is spelled in lower case and nothing else. -/
structure IsMap (s : Resolver γ κ) : Prop where
  unique : s.cached.Pairwise fun q r => ¬SameEntry q r
  finds : ∀ q ∈ s.cached, ∀ now ctx name f, lowered name = lowered q.name →
    (Finds s q now ctx name f ↔ lowered name = name)

omit [DecidableEq γ]

/-- A query is made when there is no entry for its name in any spelling, and a cleanup finds nothing
expired. -/
def Novel : ResolverEvent γ κ → Resolver γ κ → Prop
  | .queue _ _ name qtype _, s => ∀ q ∈ s.cached, q.qtype = qtype → lowered q.name ≠ lowered name
  | .cleanup now, s => Fresh now s.active ∧ Fresh now s.cached
  | .receive _, _ | .cancel _, _ => True

/-- What novel steps keep. -/
structure CacheInv (s : Resolver γ κ) : Prop where
  free : s.locked = false
  active : ∀ q ∈ s.active, lowered q.name = q.name
  cached : ∀ q ∈ s.cached, lowered q.name = q.name
  unique : s.cached.Pairwise fun q r => ¬SameEntry q r
  apart : ∀ q ∈ s.active, ∀ r ∈ s.cached, ¬SameEntry q r

namespace CacheInv

variable {s : Resolver γ κ}

theorem initial (tid : UInt16) : CacheInv ({ tid := tid } : Resolver γ κ) where
  free := rfl
  active _ hq := absurd hq not_mem_nil
  cached _ hq := absurd hq not_mem_nil
  unique := .nil
  apart _ hq := absurd hq not_mem_nil

variable {q : Query γ κ} {name : List UInt8} (h : CacheInv s)
include h

/-- An active query is answered. The active queries for the same name are dropped with it. -/
theorem answering (hq : q ∈ s.active) (m : Message) (status : Status) :
    CacheInv (s.answering { q with dnsMessage := m } status false) := by
  refine ⟨h.free, fun r hr => h.active r (mem_of_mem_filter hr), ?_, ?_, ?_⟩
  · exact forall_mem_append.mpr ⟨h.cached, forall_mem_singleton.mpr (h.active q hq)⟩
  · refine pairwise_append.mpr ⟨h.unique, pairwise_singleton _ _, fun r hr q' hq' hsame => ?_⟩
    obtain rfl := mem_singleton.mp hq'
    exact h.apart q hq r hr hsame.symm
  · intro r hr q' hq' hsame
    obtain ⟨hr, hother⟩ := mem_filter.mp hr
    rcases mem_append.mp hq' with hq' | hq'
    · exact h.apart r hr q' hq' hsame
    · obtain rfl := mem_singleton.mp hq'
      have hname : r.name = q.name := by rw [← h.active r hr, ← h.active q hq, hsame.2]
      exact of_decide_eq_true hother ⟨hsame.1, hname⟩

theorem cancelling (q : Query γ κ) : CacheInv (s.cancelling q) where
  free := h.free
  active r hr := h.active r (mem_of_mem_filter hr)
  cached := h.cached
  unique := h.unique
  apart r hr := h.apart r (mem_of_mem_filter hr)

theorem sending {now : Int} {ctx : γ} {qtype : QueryType} {f : κ}
    {call : Nat} (hnew : ∀ q ∈ s.cached, q.qtype = qtype → lowered q.name ≠ lowered name) :
    CacheInv (s.sending now ctx name qtype f call) := by
  refine ⟨h.free, ?_, h.cached, h.unique, ?_⟩
  · exact forall_mem_append.mpr ⟨h.active, forall_mem_singleton.mpr (lowered_lowered name)⟩
  · refine forall_mem_append.mpr ⟨h.apart, forall_mem_singleton.mpr fun r hr hsame => ?_⟩
    exact hnew r hr hsame.1.symm (hsame.2.symm.trans (lowered_lowered name))

variable [DecidableEq γ]

theorem step {e : ResolverEvent γ κ} (he : Novel e s) :
    ∃ s', Resolver.step e s = .ok () s' ∧ CacheInv s' := by
  have houtcome := step_outcome h.free e
  generalize Resolver.step e s = r at houtcome
  cases houtcome with
  | hit now ctx name qtype f q hq htype hname =>
    exact absurd (congrArg lowered hname) (he q hq htype)
  | miss now ctx name qtype f hmiss => exact ⟨_, rfl, sending (s := s.asking _) { h with } he⟩
  | deaf | notFound => exact ⟨_, rfl, h⟩
  | ignored | clean => exact ⟨_, rfl, { h with }⟩
  | nonexistent m q hq htid hnq hna =>
    exact ⟨_, rfl, answering (s := s.receiving (some m)) { h with } hq m .doesNotExist⟩
  | answered m q hq htid hany =>
    exact ⟨_, rfl, answering (s := s.receiving (some m)) { h with } hq m .ok⟩
  | cancelled context q hq hctx => exact ⟨_, rfl, h.cancelling q⟩
  | relocked now q hq hexp => exact absurd hexp (he.1 q hq)
  | removed now q hq hexp => exact absurd hexp (he.2 q hq)

/-- A lookup finds an entry if the name is spelled as it is stored. -/
theorem finds_iff (hq : q ∈ s.cached) (now : Int) (ctx : γ)
    (f : κ) (hname : lowered name = lowered q.name) :
    Finds s q now ctx name f ↔ lowered name = name := by
  have houtcome := step_outcome h.free (.queue now ctx name q.qtype f)
  unfold Finds
  generalize Resolver.step (.queue now ctx name q.qtype f) s = r at houtcome
  cases houtcome with
  | hit _ _ _ _ _ q' hq' htype hname' =>
    subst hname'
    have heq : q' = q := by
      by_contra hne
      exact h.unique.forall hq' hq hne ⟨htype, hname⟩
    subst heq
    exact iff_of_true ⟨_, rfl, rfl, rfl⟩ (h.cached q' hq')
  | miss _ _ _ _ _ hmiss =>
    refine iff_of_false ?_ fun hlower => ?_
    · rintro ⟨s', hs', hsent, -⟩
      cases hs'
      simp [Resolver.sending, asking] at hsent
    · exact hmiss q hq rfl (by rw [← h.cached q hq, ← hname, hlower])

theorem isMap : IsMap s where
  unique := h.unique
  finds _ hq now ctx _ f hname := h.finds_iff hq now ctx f hname

end CacheInv

/-- In a run in which nothing is asked that the cache has an answer for, and no cleanup finds
anything expired, nothing fails and the cache is a map. -/
theorem isMap_of_novel [DecidableEq γ] (tid : UInt16) (events : List (ResolverEvent γ κ))
    (h : Along step Novel events { tid := tid }) :
    ∃ s, Steps step { tid := tid } events s ∧ IsMap s := by
  obtain ⟨s, hsteps, hs⟩ := exists_steps (fun e s he hs => CacheInv.step hs he) events
    (CacheInv.initial tid) h
  exact ⟨s, hsteps, hs.isMap⟩

instance (e : ResolverEvent γ κ) (s : Resolver γ κ) : Decidable (Novel e s) :=
  match e with
  | .queue _ _ name qtype _ =>
    inferInstanceAs (Decidable (∀ q ∈ s.cached, q.qtype = qtype → lowered q.name ≠ lowered name))
  | .cleanup _ => inferInstanceAs (Decidable (_ ∧ _))
  | .receive _ | .cancel _ => isTrue trivial

/-- Two names, the second in capitals, and their answers. -/
theorem isMap_of_two_names :
    ∃ s : Resolver Nat Nat, Steps step { tid := 0 }
        [.queue 0 7 [97] .a 70, .receive (some (sampleResponse 1 .a 1)), .queue 1 8 [66] .a 80,
          .receive (some (sampleResponse 2 .a 1)), .cleanup 20] s ∧ IsMap s :=
  isMap_of_novel 0 _ (by decide +kernel)

/-- A name is asked for and answered. Asked for again, it has two entries in the cache; asked for in
capitals, a second query is sent. -/
theorem cache_not_map :
    let events : List (ResolverEvent Nat Nat) :=
      [.queue 0 7 [97] .a 70, .receive (some (sampleResponse 1 .a 1))]
    ((runAll step (events ++ [.queue 1 8 [97] .a 80]) { tid := 0 }).cached.map
        fun q => (q.name, q.qtype)) = [([97], .a), ([97], .a)] ∧
      (runAll step (events ++ [.queue 1 8 [65] .a 80]) { tid := 0 }).sent.length = 2 := by
  decide +kernel

end Resolver

end Odtone.Dns
