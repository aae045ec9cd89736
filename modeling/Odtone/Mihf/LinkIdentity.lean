import Odtone.Mihf.Subscriptions
import Odtone.Wire.Delimited

/-! # Links on the wire and in the subscriptions

The encoding of a `link_tuple_id` determines it. `operator==` sees less than the encoding: it
compares the address of the link twice and that of the point of attachment never. So two links of
one interface with different points of attachment make one registration, and unsubscribing one
removes the other. -/

namespace Odtone.Mihf

open Wire (Bytes Ty)

namespace LinkTupleId

/-- The links have the same encoding. -/
def SameEncoding (x y : LinkTupleId) : Prop :=
  ∃ enc, Ty.linkTupleId.encode x.toVal = .ok enc ∧ Ty.linkTupleId.encode y.toVal = .ok enc

/-- `operator==` is equality of encodings, and links with different encodings are different in the
subscriptions: their registrations are, and unsubscribing events of one keeps those of the other. -/
structure Identified (x y : LinkTupleId) : Prop where
  same : x.Same y = true ↔ x.SameEncoding y
  registrations : ¬x.SameEncoding y → ∀ user event,
    ¬(⟨user, x, event⟩ : EventRegistration).Same ⟨user, y, event⟩
  unsubscribed : ¬x.SameEncoding y → ∀ l user events, ∀ r ∈ l, r.link = x →
    r ∈ unsubscribe l user y events

theorem SameEncoding.eq {x y : LinkTupleId} (h : x.SameEncoding y) : x = y := by
  obtain ⟨enc, hx, hy⟩ := h
  have hval := (Ty.delimited_linkTupleId hx hy (x := []) rfl).1
  rw [← ofVal_toVal x, hval, ofVal_toVal]

/-- Two links are told apart by their encodings, exactly if they are not links of one interface with
different points of attachment, and can be encoded if they are the same. -/
theorem identified_iff (x y : LinkTupleId) : x.Identified y ↔
    (x.toLinkId = y.toLinkId → x.poaAddr = y.poaAddr ∧
      ∃ enc, Ty.linkTupleId.encode x.toVal = .ok enc) := by
  constructor
  · intro h hid
    have hsame := h.same.mp ((same_iff x y).mpr hid)
    have hpoa := congrArg poaAddr hsame.eq
    obtain ⟨enc, hx, -⟩ := hsame
    exact ⟨hpoa, enc, hx⟩
  · intro h
    by_cases hid : x.toLinkId = y.toLinkId
    · obtain ⟨hpoa, enc, henc⟩ := h hid
      obtain rfl : x = y := by
        cases x
        cases y
        cases hid
        cases hpoa
        rfl
      have hsame : x.SameEncoding x := ⟨enc, henc, henc⟩
      exact ⟨iff_of_true ((same_iff x x).mpr rfl) hsame, fun hne => absurd hsame hne,
        fun hne => absurd hsame hne⟩
    · have hne : ¬x.SameEncoding y := fun h => hid (congrArg toLinkId h.eq)
      refine ⟨iff_of_false (fun h => hid ((same_iff x y).mp h)) hne, fun _ user event h => ?_, ?_⟩
      · simp only [EventRegistration.same_iff, EventRegistration.key, Prod.mk.injEq] at h
        exact hid h.2.1
      · rintro - l user events r hr rfl
        exact mem_unsubscribe.mpr ⟨hr, fun h => hid h.1⟩

/-- Two points of attachment of one interface. -/
theorem not_identified_sample :
    ¬Identified (sampleLink 1)
      { sampleLink 1 with poaAddr := .inr (.inl (sampleLink 2).addr) } := by
  intro h
  obtain ⟨enc, hx, hy⟩ := h.same.mp rfl
  cases hx
  cases hy

end LinkTupleId

end Odtone.Mihf
