import Odtone.Wire.Codec

/-! # Selectors of variants

The twelve `serialize<boost::variant<...>>` templates have one case for each alternative and no
default. A selector without a case is taken as if it had been decoded: the variant keeps the value
it had, and the decoder goes on behind the selector. -/

namespace Odtone.Wire

open Cursor

/-- A byte is read exactly if there is one at the position. -/
theorem uint8_ok_iff {c c' : Cursor UInt8} {b : UInt8} :
    uint8 c = .ok b c' ↔ c.buf[c.pos]? = some b ∧ c' = { c with pos := uint (c.pos + 1) } := by
  unfold uint8
  split_ifs with h
  · have hnone : c.buf[c.pos]? = none := by
      rw [uint] at h
      exact List.getElem?_eq_none (by omega)
    simp [hnone]
  · cases c.buf[c.pos]? with
    | none => simp
    | some b' => simp [eq_comm]

namespace Ty

/-- The index of the alternative held. -/
def index (t : Ty) (ts : List Ty) : Val (.variant t ts) → Nat
  | .inl _ => 0
  | .inr v => which ts v + 1

/-- Decoding a variant of type `T, Ts...` at a position, into a variable with the content `old`, is
sound: a value that is returned is of the alternative that the selector names, and a selector that
names no alternative is refused. -/
structure SelectorSound (t : Ty) (ts : List Ty) (old : Val (.variant t ts))
    (c : Cursor UInt8) : Prop where
  returned : ∀ v c', decode (.variant t ts) old c = .ok v c' →
    ∃ selector, c.buf[c.pos]? = some selector ∧ index t ts v = selector.toNat
  refused : ∀ selector, c.buf[c.pos]? = some selector → ts.length + 1 ≤ selector.toNat →
    ∃ e c', decode (.variant t ts) old c = .error e c'

section Alternatives

variable {ts : List Ty} {i : Nat} {c c' : Cursor UInt8}

/-- A number without an alternative decodes nothing. -/
theorem decodeAlt_of_le (h : ts.length ≤ i) : decodeAlt ts i c = .ok none c := by
  induction ts generalizing i with
  | nil => rfl
  | cons t ts ih =>
    cases i with
    | zero => cases h
    | succ i =>
      have hrest := ih (Nat.le_of_succ_le_succ h)
      change EStateM.map _ (decodeAlt ts i) c = _
      rw [EStateM.map, hrest]
      rfl

theorem which_of_decodeAlt {v : AltVal ts} (h : decodeAlt ts i c = .ok (some v) c') :
    which ts v = i := by
  induction ts generalizing i with
  | nil => cases v
  | cons t ts ih =>
    cases i with
    | zero =>
      obtain ⟨x, -, hx⟩ := map_ok.mp h
      cases hx
      rfl
    | succ i =>
      obtain ⟨x, hd, hx⟩ := map_ok.mp h
      cases x with
      | none => cases hx
      | some w =>
        cases hx
        exact congrArg (· + 1) (ih hd)

theorem decodeAlt_of_lt (h : i < ts.length) : decodeAlt ts i c ≠ .ok none c' := by
  induction ts generalizing i with
  | nil => cases h
  | cons t ts ih =>
    intro hd
    cases i with
    | zero =>
      obtain ⟨x, -, hx⟩ := map_ok.mp hd
      cases hx
    | succ i =>
      obtain ⟨x, hrest, hx⟩ := map_ok.mp hd
      cases x with
      | none => exact ih (Nat.lt_of_succ_lt_succ h) hrest
      | some w => cases hx

end Alternatives

/-- A selector without an alternative leaves the variable as it is. -/
theorem decode_of_unknown {t : Ty} {ts : List Ty} (old : Val (.variant t ts)) {c : Cursor UInt8}
    {selector : UInt8} (hsel : c.buf[c.pos]? = some selector)
    (hge : ts.length + 1 ≤ selector.toNat) :
    decode (.variant t ts) old c = .ok old { c with pos := Wire.uint (c.pos + 1) } := by
  refine bind_ok.mpr ⟨selector, _, uint8_ok_iff.mpr ⟨hsel, rfl⟩, ?_⟩
  obtain ⟨i, hi⟩ := Nat.exists_eq_add_one_of_ne_zero (show selector.toNat ≠ 0 by omega)
  simp only [hi]
  exact bind_ok.mpr ⟨none, _, decodeAlt_of_le (by omega), rfl⟩

/-- Decoding a variant at a position is sound exactly if there is no byte at the position, or it is
the number of an alternative. -/
theorem selectorSound_iff (t : Ty) (ts : List Ty) (old : Val (.variant t ts)) (c : Cursor UInt8) :
    SelectorSound t ts old c ↔
      ∀ selector, c.buf[c.pos]? = some selector → selector.toNat < ts.length + 1 := by
  constructor
  · intro h selector hsel
    by_contra hge
    obtain ⟨e, c', he⟩ := h.refused selector hsel (not_lt.mp hge)
    cases (decode_of_unknown old hsel (not_lt.mp hge)).symm.trans he
  · intro h
    refine ⟨fun v c' hd => ?_, fun selector hsel hge => absurd (h selector hsel) (by omega)⟩
    obtain ⟨selector, c₁, hread, hd⟩ := bind_ok.mp hd
    have hsel := (uint8_ok_iff.mp hread).1
    have hlt := h selector hsel
    refine ⟨selector, hsel, ?_⟩
    cases hi : selector.toNat with
    | zero =>
      simp only [hi] at hd
      obtain ⟨x, -, rfl⟩ := map_ok.mp hd
      rfl
    | succ i =>
      simp only [hi] at hd
      obtain ⟨x, c₂, halt, hx⟩ := bind_ok.mp hd
      cases x with
      | none => exact absurd halt (decodeAlt_of_lt (by omega))
      | some w =>
        cases hx
        exact congrArg (· + 1) (which_of_decodeAlt halt)

/-- A variant of two alternatives that holds the second one keeps it under the selector 7. -/
theorem selector_not_sound :
    decode (.variant .bool [.octets]) (.inr (.inl [1, 2])) ⟨[7, 0], 0⟩ =
        .ok (.inr (.inl [1, 2])) ⟨[7, 0], 1⟩ ∧
      ¬ SelectorSound .bool [.octets] (.inr (.inl [1, 2])) ⟨[7, 0], 0⟩ := by
  have hread : decode (.variant .bool [.octets]) (.inr (.inl [1, 2])) ⟨[7, 0], 0⟩ =
      .ok (.inr (.inl [1, 2])) ⟨[7, 0], 1⟩ := rfl
  refine ⟨hread, fun h => ?_⟩
  obtain ⟨selector, hsel, hindex⟩ := h.returned _ _ hread
  cases hsel
  exact absurd hindex (by decide)

end Ty

end Odtone.Wire
