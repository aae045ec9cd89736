import Odtone.Wire.Archive

/-! # Type-length-value elements

The TLV serializers of `inc/odtone/mih/tlv.hpp`, over an arbitrary value decoder. The declared
length of an element is read and then not used again: the value decoder runs on the same buffer and
the same position, so the element ends wherever the value does.
-/

namespace Odtone.Wire

open Cursor List

variable {α : Type}

/-- `base_tlv_<ValueT, Value>::serialize(iarchive&, T&)`: `none` when another type stands at the
position. The position is put back in that case, and when the value cannot be decoded. -/
def baseTlv {τ : Type} [DecidableEq τ] (readType : Decoder τ) (type : τ) (value : Decoder α) :
    Decoder (Option α) := Cursor.restoring fun c =>
  (do
    let tp ← readType
    if tp ≠ type then
      modify fun c' => { c' with pos := c.pos }
      return none
    else
      let _len ← listLength
      some <$> value : Decoder (Option α)) c

/-- `tlv_<type>`, with a type of one byte. -/
def getTlv (type : UInt8) (value : Decoder α) : Decoder (Option α) := baseTlv uint8 type value

/-- `base_tlv_<uint8, type>::serialize(oarchive&, T&)`: the value is encoded on its own first. -/
def putTlv (type : UInt8) (value : Except Error Bytes) : Except Error Bytes := do
  let tmp ← value
  let field ← putOctetString tmp
  return type :: field

/-- A mandatory element, `tlv_type_<T, TLV>::serialize(iarchive&)`. -/
def tlv (type : UInt8) (value : Decoder α) : Decoder α := do
  match ← getTlv type value with
  | some v => return v
  | none => throw .badTlv

/-- An optional element, `tlv_type_<boost::optional<T>, TLV>::serialize(iarchive&)`, into a variable
with the given content: at the end of the archive it is left as it is. -/
def optionalOf (get : Decoder (Option α)) (old : Option α) : Decoder (Option α) := fun c =>
  if c.buf.length ≤ c.pos then .ok old c else get c

/-- The serializers of `tlv.hpp`: types of one byte, types of four bytes, and vendor elements, which
have the type 100 and start their value with an organizationally unique identifier. -/
inductive Tag where
  | tlv (type : UInt8)
  | tlv4 (type : UInt32)
  | oui (a b c : UInt8)
deriving DecidableEq

namespace Tag

/-- `oui_<A, B, C>::serialize(iarchive&, T&)` -/
def getOui (a b c : UInt8) (value : Decoder α) : Decoder (Option α) := Cursor.restoring fun s => (do
    let tp ← uint8
    if tp ≠ 100 then
      modify fun s' => { s' with pos := s.pos }
      return none
    let len ← listLength
    if len < 3 then
      modify fun s' => { s' with pos := s.pos }
      return none
    let a' ← uint8
    let b' ← uint8
    let c' ← uint8
    if a' ≠ a ∨ b' ≠ b ∨ c' ≠ c then
      modify fun s' => { s' with pos := s.pos }
      return none
    some <$> value : Decoder (Option α)) s

/-- `TLV::serialize(iarchive&, T&)` -/
def get : Tag → Decoder α → Decoder (Option α)
  | .tlv type, value => getTlv type value
  | .tlv4 type, value => baseTlv (bigEndian <$> word 4) type.toNat value
  | .oui a b c, value => getOui a b c value

/-- `TLV::serialize(oarchive&, T&)` -/
def put : Tag → Except Error Bytes → Except Error Bytes
  | .tlv type, value => putTlv type value
  | .tlv4 type, value => do
      let tmp ← value
      let field ← putOctetString tmp
      return lengthBytes type.toNat 4 ++ field
  | .oui a b c, value => do
      let tmp ← value
      let field ← putOctetString (a :: b :: c :: tmp)
      return 100 :: field

end Tag

/-- `tlv_source_id` and `tlv_destination_id` carry an octet string. -/
def tlvSourceId : Decoder Bytes := tlv 1 octetString

@[inherit_doc tlvSourceId]
def tlvDestinationId : Decoder Bytes := tlv 2 octetString

/-! ## Outcomes -/

section BaseTlv

variable {τ : Type} [DecidableEq τ] {readType : Decoder τ} {type tp : τ} {value : Decoder α}
  {c c' : Cursor UInt8}

/-- Another type at the position: nothing is read. -/
theorem baseTlv_other (h : readType c = .ok tp c') (hne : tp ≠ type) :
    baseTlv readType type value c = .ok none { c' with pos := c.pos } := by
  simp [baseTlv, restoring, bind, EStateM.bind, h, hne]
  rfl

theorem baseTlv_error {e : Error} (h : readType c = .error e c') :
    baseTlv readType type value c = .error e { c' with pos := c.pos } := by
  simp [baseTlv, restoring, bind, EStateM.bind, h]

/-- The right type at the position: the length is read and dropped, then the value is read. -/
theorem baseTlv_same (h : readType c = .ok type c') :
    baseTlv readType type value c = match listLength c' with
      | .error e s => .error e { s with pos := c.pos }
      | .ok _ s => match value s with
        | .error e s' => .error e { s' with pos := c.pos }
        | .ok val s' => .ok (some val) s' := by
  simp only [baseTlv, restoring, bind, EStateM.bind, h, ne_eq, not_true_eq_false, if_false]
  cases listLength c' with
  | error e s => rfl
  | ok len s =>
    simp only [Functor.map, EStateM.map]
    cases value s <;> rfl

/-- An element is accepted if its type is the expected one and its length and value can be read. -/
theorem baseTlv_some {v : α} : baseTlv readType type value c = .ok (some v) c' ↔
    ∃ s len s', readType c = .ok type s ∧ listLength s = .ok len s' ∧ value s' = .ok v c' := by
  refine restoring_ok.trans (bind_ok.trans ?_)
  constructor
  · rintro ⟨tp, s, htp, h⟩
    split_ifs at h with hne
    · cases h
    · obtain rfl := of_not_not hne
      obtain ⟨len, s', hlen, h⟩ := bind_ok.mp h
      obtain ⟨v', hv, heq⟩ := map_ok.mp h
      exact ⟨s, len, s', htp, hlen, Option.some.inj heq ▸ hv⟩
  · rintro ⟨s, len, s', htp, hlen, hv⟩
    refine ⟨type, s, htp, ?_⟩
    rw [if_neg (by simp)]
    exact bind_ok.mpr ⟨len, s', hlen, map_ok.mpr ⟨v, hv, rfl⟩⟩

/-- An element is left for another parameter if its type can be read and is not the expected one. -/
theorem baseTlv_none : baseTlv readType type value c = .ok none c' ↔
    ∃ tp s, readType c = .ok tp s ∧ tp ≠ type ∧ c' = { s with pos := c.pos } := by
  refine restoring_ok.trans (bind_ok.trans ?_)
  constructor
  · rintro ⟨tp, s, htp, h⟩
    split_ifs at h with hne
    · cases h
      exact ⟨tp, s, htp, hne, rfl⟩
    · obtain ⟨len, s', hlen, h⟩ := bind_ok.mp h
      obtain ⟨v, hv, heq⟩ := map_ok.mp h
      cases heq
  · rintro ⟨tp, s, htp, hne, rfl⟩
    refine ⟨tp, s, htp, ?_⟩
    rw [if_pos hne]
    rfl

end BaseTlv

variable {value : Decoder α}

variable {x y z : UInt8} {enc id : Bytes} {a : α}

theorem Tag.getOui_some {v : α} {c c' : Cursor UInt8} :
    Tag.getOui x y z value c = .ok (some v) c' ↔
      ∃ s len s₁ s₂ s₃ s₄, uint8 c = .ok 100 s ∧ listLength s = .ok len s₁ ∧ 3 ≤ len ∧
        uint8 s₁ = .ok x s₂ ∧ uint8 s₂ = .ok y s₃ ∧ uint8 s₃ = .ok z s₄ ∧ value s₄ = .ok v c' := by
  refine restoring_ok.trans (bind_ok.trans ?_)
  constructor
  · rintro ⟨tp, s, htp, h⟩
    split_ifs at h with hne
    · cases h
    obtain rfl := of_not_not hne
    obtain ⟨len, s₁, hlen, h⟩ := bind_ok.mp h
    split_ifs at h with hshort
    · cases h
    obtain ⟨x', s₂, hx, h⟩ := bind_ok.mp h
    obtain ⟨y', s₃, hy, h⟩ := bind_ok.mp h
    obtain ⟨z', s₄, hz, hval⟩ := bind_ok.mp h
    split_ifs at hval with hoth
    · cases hval
    simp only [not_or, not_not] at hoth
    obtain ⟨rfl, rfl, rfl⟩ := hoth
    obtain ⟨v', hv, heq⟩ := map_ok.mp hval
    exact ⟨s, len, s₁, s₂, s₃, s₄, htp, hlen, by omega, hx, hy, hz, Option.some.inj heq ▸ hv⟩
  · rintro ⟨s, len, s₁, s₂, s₃, s₄, htp, hlen, hlong, hx, hy, hz, hv⟩
    refine ⟨100, s, htp, ?_⟩
    rw [if_neg (by simp)]
    refine bind_ok.mpr ⟨len, s₁, hlen, ?_⟩
    rw [if_neg (by omega)]
    refine bind_ok.mpr ⟨x, s₂, hx, bind_ok.mpr ⟨y, s₃, hy, ?_⟩⟩
    refine bind_ok.mpr ⟨z, s₄, hz, ?_⟩
    rw [if_neg (by simp)]
    exact map_ok.mpr ⟨v, hv, rfl⟩

/-- A vendor element is left for another parameter on a different type, on a length without room for
an identifier, and on a different identifier. -/
theorem Tag.getOui_none {c c' : Cursor UInt8} :
    Tag.getOui x y z value c = .ok none c' ↔
      (∃ tp s, uint8 c = .ok tp s ∧ tp ≠ 100 ∧ c' = { s with pos := c.pos }) ∨
      ∃ s len s₁, uint8 c = .ok 100 s ∧ listLength s = .ok len s₁ ∧
        (len < 3 ∧ c' = { s₁ with pos := c.pos } ∨
          3 ≤ len ∧ ∃ x' y' z' s₂ s₃ s₄, uint8 s₁ = .ok x' s₂ ∧ uint8 s₂ = .ok y' s₃ ∧
            uint8 s₃ = .ok z' s₄ ∧ (x' ≠ x ∨ y' ≠ y ∨ z' ≠ z) ∧ c' = { s₄ with pos := c.pos }) := by
  refine restoring_ok.trans (bind_ok.trans ?_)
  constructor
  · rintro ⟨tp, s, htp, h⟩
    split_ifs at h with hne
    · cases h
      exact .inl ⟨tp, s, htp, hne, rfl⟩
    obtain rfl := of_not_not hne
    obtain ⟨len, s₁, hlen, h⟩ := bind_ok.mp h
    refine .inr ⟨s, len, s₁, htp, hlen, ?_⟩
    split_ifs at h with hshort
    · cases h
      exact .inl ⟨hshort, rfl⟩
    obtain ⟨x', s₂, hx, h⟩ := bind_ok.mp h
    obtain ⟨y', s₃, hy, h⟩ := bind_ok.mp h
    obtain ⟨z', s₄, hz, hval⟩ := bind_ok.mp h
    split_ifs at hval with hoth
    · cases hval
      exact .inr ⟨by omega, x', y', z', s₂, s₃, s₄, hx, hy, hz, hoth, rfl⟩
    · obtain ⟨v', hv, heq⟩ := map_ok.mp hval
      cases heq
  · rintro (⟨tp, s, htp, hne, rfl⟩ | ⟨s, len, s₁, htp, hlen, h⟩)
    · refine ⟨tp, s, htp, ?_⟩
      rw [if_pos hne]
      rfl
    refine ⟨100, s, htp, ?_⟩
    rw [if_neg (by simp)]
    refine bind_ok.mpr ⟨len, s₁, hlen, ?_⟩
    obtain ⟨hshort, rfl⟩ | ⟨hlong, x', y', z', s₂, s₃, s₄, hx, hy, hz, hoth, rfl⟩ := h
    · rw [if_pos hshort]
      rfl
    · rw [if_neg (by omega)]
      refine bind_ok.mpr ⟨x', s₂, hx, bind_ok.mpr ⟨y', s₃, hy, ?_⟩⟩
      refine bind_ok.mpr ⟨z', s₄, hz, ?_⟩
      rw [if_pos hoth]
      rfl

/-! ## Round trips -/

variable {P : Bytes → Prop}

theorem uint8_reads (b : UInt8) : Reads uint8 P [b] b := by
  intro pre post hB _
  simp only [length_append, length_cons] at hB
  have hpos : uint (pre.length + 1) = pre.length + 1 := uint_of_lt (by omega)
  have hroom : ¬ pre.length + (post.length + 1) < pre.length + 1 := by omega
  simp only [uint8, cons_append, nil_append, length_append, length_cons, hpos,
    hroom, if_false, getElem?_join, length_nil]

/-- An element whose value takes `enc` and whose declared length is the length of `enc`. -/
theorem baseTlv_reads {τ : Type} [DecidableEq τ] {readType : Decoder τ} {type : τ} {tenc : Bytes}
    (htype : Reads readType (fun _ => True) tenc type) (hlen : enc.length < 128 + 2 ^ 16)
    (h : Reads value P enc a) :
    Reads (baseTlv readType type value) P (tenc ++ (lengthField enc.length ++ enc)) (some a) := by
  refine Reads.restoring fun pre post hB hP => ?_
  have hbody := htype.bind
    (f := fun tp => if tp ≠ type then (do
        modify fun c' => { c' with pos := pre.length }
        return none) else (do
        let _len ← listLength
        some <$> value))
    (by
      rw [if_neg (by simp)]
      exact (listLength_reads hlen).bind h.map fun _ _ hlong =>
        by simp [ne_nil_of_length_pos (show 0 < enc.length by omega)])
    (fun _ _ => trivial)
  exact hbody pre post hB hP

theorem tlv_reads {type : UInt8} (hlen : enc.length < 128 + 2 ^ 16) (h : Reads value P enc a) :
    Reads (tlv type value) P (type :: (lengthField enc.length ++ enc)) a := by
  intro pre post hB hP
  have hget : Reads (getTlv type value) P (type :: (lengthField enc.length ++ enc)) (some a) :=
    baseTlv_reads (uint8_reads type) hlen h
  simp only [tlv, bind, EStateM.bind, hget pre post hB hP]
  rfl

/-- The element of an identifier: an octet string inside a TLV. -/
def idElement (type : UInt8) (id : Bytes) : Bytes :=
  type :: (lengthField (lengthField id.length ++ id).length ++ (lengthField id.length ++ id))

section

variable (h : (lengthField id.length ++ id).length < 128 + 2 ^ 16)
include h

theorem putTlv_id_eq {type : UInt8} :
    putTlv type (putOctetString id) = .ok (idElement type id) := by
  have hid : id.length < 128 + 2 ^ 16 := by simp only [length_append] at h; omega
  simp only [putTlv, putOctetString_eq hid, putOctetString_eq h, bind, Except.bind, pure,
    Except.pure, idElement]

theorem tlv_id_reads {type : UInt8} : Reads (tlv type octetString) P (idElement type id) id :=
  tlv_reads h (octetString_reads (by simp only [length_append] at h; omega))

end

end Odtone.Wire
