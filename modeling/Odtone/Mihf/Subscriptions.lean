import Odtone.Mihf.EventDelivery
import Odtone.Mihf.Backed

/-! # The subscriptions as a set

What the list of registrations is for: a set of triples of a user, a link and an event, where links
are compared by `link_tuple_id::operator==`. The set is ours; the list and the two loops that edit
it are the ones of `event_service`. A call adds or removes the triples it names and touches no
other, and the list holds every triple once, so the list is the set after every history. -/

namespace Odtone.Mihf

open Wire (Bytes)
open List EventRegistration

variable {l : List EventRegistration} {user : Bytes} {link : LinkTupleId} {events : Bitmap 4}

/-- The triples a list stands for: those that equal one of its registrations. -/
def triples (l : List EventRegistration) : Set EventRegistration := {t | ∃ r ∈ l, r.Same t}

namespace SubscriptionOp

/-- The triples a call names. -/
def named : SubscriptionOp → Set EventRegistration
  | .subscribe user link events | .unsubscribe user link events =>
    {t | t.user = user ∧ t.link.Same link ∧ events.get t.event}

/-- What a call does to a set of triples. -/
def onTriples (T : Set EventRegistration) (op : SubscriptionOp) : Set EventRegistration :=
  match op with
  | .subscribe .. => T ∪ op.named
  | .unsubscribe .. => T \ op.named

end SubscriptionOp

/-! ## One call -/

theorem mem_triples {t : EventRegistration} : t ∈ triples l ↔ t.key ∈ l.map key := by
  simp only [triples, Set.mem_ofPred_eq, same_iff, mem_map]

theorem triples_addRegistration (r : EventRegistration) :
    triples (addRegistration l r) = triples l ∪ {t | r.Same t} := by
  ext t
  rw [Set.mem_union, Set.mem_ofPred_eq, same_iff, addRegistration]
  split_ifs with hany
  · -- the registration found stands for the same triple
    obtain ⟨q, hq, hsame⟩ := any_eq_true.mp hany
    refine ⟨.inl, ?_⟩
    rintro (ht | ht)
    · exact ht
    · exact ⟨q, hq, (q.same_iff t).mpr (((r.same_iff q).mp hsame).symm.trans ht)⟩
  · simp only [mem_triples, map_append, map_singleton, mem_append, mem_singleton, eq_comm]

/-- The loop over the events adds one triple for each that is set. -/
theorem triples_subscribe :
    triples (subscribe l user link events) =
      triples l ∪ {t | t.user = user ∧ t.link.Same link ∧ events.get t.event} := by
  have hloop : ∀ (is : List (Fin 32)) (l : List EventRegistration),
      triples (is.foldl (fun l (i : Fin 32) =>
        if events.get i then addRegistration l ⟨user, link, i⟩ else l) l) =
      triples l ∪ {t | t.user = user ∧ t.link.Same link ∧ events.get t.event ∧ t.event ∈ is} := by
    intro is
    induction is with
    | nil => simp
    | cons i is ih =>
      intro l
      rw [foldl_cons, ih]
      ext t
      have hsame : (⟨user, link, i⟩ : EventRegistration).Same t ↔
          t.user = user ∧ t.link.Same link ∧ t.event = i := by
        rw [same_iff, eq_comm]
        simp only [key, Prod.mk.injEq, LinkTupleId.same_iff]
      by_cases hi : events.get i = true
      · simp only [hi, if_true, triples_addRegistration, Set.mem_union, Set.mem_ofPred_eq, hsame,
          mem_cons]
        grind
      · simp only [hi, Set.mem_union, Set.mem_ofPred_eq, mem_cons]
        grind
  rw [subscribe, hloop]
  simp

/-- Erasing while going through the list leaves the triples that are not named. -/
theorem triples_unsubscribe :
    triples (unsubscribe l user link events) =
      triples l \ {t | t.user = user ∧ t.link.Same link ∧ events.get t.event} := by
  ext t
  -- equal registrations are erased together
  have hsame : ∀ r : EventRegistration, r.Same t →
      ((r.link.toLinkId = link.toLinkId ∧ r.user = user ∧ events.get r.event = true) ↔
        t.user = user ∧ t.link.Same link ∧ events.get t.event = true) := by
    intro r hr
    have hkey := (r.same_iff t).mp hr
    simp only [key, Prod.mk.injEq] at hkey
    obtain ⟨huser, hlink, hevent⟩ := hkey
    rw [LinkTupleId.same_iff, huser, hlink, hevent]
    tauto
  constructor
  · rintro ⟨r, hr, hrt⟩
    obtain ⟨hmem, hkeep⟩ := mem_unsubscribe.mp hr
    exact ⟨⟨r, hmem, hrt⟩, fun ht => hkeep ((hsame r hrt).mpr ht)⟩
  · rintro ⟨⟨r, hmem, hrt⟩, hkeep⟩
    exact ⟨r, mem_unsubscribe.mpr ⟨hmem, fun hr => hkeep ((hsame r hrt).mp hr)⟩, hrt⟩

/-- A call does to the list what it does to the set. -/
theorem triples_apply (op : SubscriptionOp) : triples (op.apply l) = op.onTriples (triples l) := by
  cases op with
  | subscribe user link events => exact triples_subscribe
  | unsubscribe user link events => exact triples_unsubscribe

theorem subset_addRegistration (r : EventRegistration) : l ⊆ addRegistration l r := by
  unfold addRegistration
  split_ifs
  · exact Subset.refl l
  · exact subset_append_left l [r]

theorem subset_subscribe : l ⊆ subscribe l user link events := by
  unfold subscribe
  induction finRange 32 generalizing l with
  | nil => exact Subset.refl l
  | cons i is ih =>
    rw [foldl_cons]
    split_ifs
    · exact Subset.trans (subset_addRegistration _) ih
    · exact ih

/-- A registration a call does not name stays as it is. -/
theorem mem_apply_of_notMem_named {op : SubscriptionOp} {r : EventRegistration} (hr : r ∈ l)
    (hnot : r ∉ op.named) : r ∈ op.apply l := by
  cases op with
  | subscribe user link events => exact subset_subscribe hr
  | unsubscribe user link events =>
    refine mem_unsubscribe.mpr ⟨hr, ?_⟩
    rintro ⟨hlink, huser, hevent⟩
    exact hnot ⟨huser, (LinkTupleId.same_iff ..).mpr hlink, hevent⟩

/-! ## Histories -/

theorem Unduplicated.pairwise (h : Unduplicated l) : l.Pairwise fun r q => ¬ r.Same q := by
  refine (pairwise_map.mp h).imp ?_
  intro r q hne hsame
  exact hne ((r.same_iff q).mp hsame)

theorem triples_foldl (ops : List SubscriptionOp) :
    triples (ops.foldl SubscriptionOp.apply l) =
      ops.foldl SubscriptionOp.onTriples (triples l) := by
  induction ops generalizing l with
  | nil => rfl
  | cons op ops ih => rw [foldl_cons, foldl_cons, ih, triples_apply]

/-- After every history the list is the set the calls make: it has no two equal registrations, and a
further call adds or removes exactly the triples it names and leaves the other registrations as they
are. -/
theorem history_refines_triples (ops : List SubscriptionOp) :
    ((history ops).Pairwise fun r q => ¬ r.Same q) ∧
    triples (history ops) = ops.foldl SubscriptionOp.onTriples ∅ ∧
    ∀ op : SubscriptionOp,
      triples (op.apply (history ops)) = op.onTriples (triples (history ops)) ∧
      ∀ r ∈ history ops, r ∉ op.named → r ∈ op.apply (history ops) := by
  refine ⟨(unduplicated_history ops).pairwise, ?_, fun op => ⟨triples_apply op, ?_⟩⟩
  · rw [history, triples_foldl]
    simp [triples]
  · intro r hr hnot
    exact mem_apply_of_notMem_named hr hnot

end Odtone.Mihf
