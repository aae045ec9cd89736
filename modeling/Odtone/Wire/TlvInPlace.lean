import Odtone.Wire.InPlace

/-! # Elements in place

The serializers of `tlv.hpp` with everything they leave behind. The value of an element is decoded
by any decoder, through an archive that starts at the value and shares the position with the outer
one. Whatever the decoder does, an element that is not there or cannot be decoded leaves the archive
as it was (`tlv_atomic`). -/

namespace Odtone.Wire

open Cursor

variable {α β : Type}

/-- `iarchive in(ar, len); in & val;` -/
def nested (value : Filler α) (len : Nat) : Filler α := fun old ar =>
  let r := value old { ar with origin := ar.pos, length := .ofNat len }
  { r with ar := { ar with pos := r.ar.pos } }

/-- `catch (...) { ar.position(pos); throw; }` -/
def Filled.caught (r : Filled α) (pos : UInt32) : Filled α :=
  match r.thrown with
  | none => r
  | some _ => { r with ar := r.ar.setPosition pos }

/-- `base_tlv_<ValueT, Value>::serialize(iarchive&, T&)`, with what it returns. -/
def baseTlvInto {τ : Type} [DecidableEq τ] (readType : Decoder τ) (type : τ)
    (value : Filler α) (old : α) (ar : IArchive) : Bool × Filled α :=
  let pos := ar.position
  match ar.read readType with
  | (.error e, ar) => (false, { thrown := some e, val := old, ar })
  | (.ok tp, ar) =>
    if tp ≠ type then (false, { val := old, ar := ar.setPosition pos })
    else
      match ar.read listLength with
      | (.error e, ar) => (false, Filled.caught { thrown := some e, val := old, ar } pos)
      | (.ok len, ar) =>
        let r := nested value len old ar
        (r.thrown.isNone, r.caught pos)

namespace Tag

/-- The three bytes of an organizationally unique identifier. -/
def readOui : Decoder (UInt8 × UInt8 × UInt8) := do
  let a ← uint8
  let b ← uint8
  let c ← uint8
  return (a, b, c)

/-- `oui_<A, B, C>::serialize(iarchive&, T&)` -/
def getOuiInto (a b c : UInt8) (value : Filler α) (old : α) (ar : IArchive) : Bool × Filled α :=
  let pos := ar.position
  match ar.read uint8 with
  | (.error e, ar) => (false, { thrown := some e, val := old, ar })
  | (.ok tp, ar) =>
    if tp ≠ 100 then (false, { val := old, ar := ar.setPosition pos })
    else
      match ar.read listLength with
      | (.error e, ar) => (false, Filled.caught { thrown := some e, val := old, ar } pos)
      | (.ok len, ar) =>
        if len < 3 then (false, { val := old, ar := ar.setPosition pos })
        else
          match ar.read readOui with
          | (.error e, ar) => (false, Filled.caught { thrown := some e, val := old, ar } pos)
          | (.ok id, ar) =>
            if id ≠ (a, b, c) then (false, { val := old, ar := ar.setPosition pos })
            else
              let r := nested value (len - 3) old ar
              (r.thrown.isNone, r.caught pos)

/-- `TLV::serialize(iarchive&, T&)` -/
def getInto : Tag → Filler α → α → IArchive → Bool × Filled α
  | .tlv type, value => baseTlvInto uint8 type value
  | .tlv4 type, value => baseTlvInto (bigEndian <$> word 4) type.toNat value
  | .oui a b c, value => getOuiInto a b c value

end Tag

/-- `tlv_type_<T, TLV>::serialize(iarchive&)` -/
def tlvInto (tag : Tag) (value : Filler α) : Filler α := fun old ar =>
  let (res, r) := tag.getInto value old ar
  if r.thrown = none ∧ res = false then { r with thrown := some .badTlv } else r

/-- `tlv_type_<boost::optional<T>, TLV>::serialize(iarchive&)`: the value is decoded into a default
constructed variable first. -/
def optionalInto (tag : Tag) (value : Filler α) (fresh : α) : Filler (Option α) := fun old ar =>
  if ar.length ≤ ar.position then { val := old, ar }
  else
    let (res, r) := tag.getInto value fresh ar
    { r with val := if r.thrown.isSome then old else if res then some r.val else none }

/-! ## What a failure leaves behind -/

/-- A decoder that does not move when it fails. -/
def Untouched (d : Decoder α) : Prop := ∀ c e c', d c = .error e c' → c' = c

theorem untouched_uint8 : Untouched uint8 := by
  intro c e c' h
  unfold uint8 at h
  split_ifs at h
  · cases h
    rfl
  · cases hb : c.buf[c.pos]? with
    | none =>
      rw [hb] at h
      cases h
      rfl
    | some b =>
      rw [hb] at h
      cases h

theorem untouched_word (k : Nat) : Untouched (word k) := by
  intro c e c' h
  unfold word copyBytes at h
  split_ifs at h <;> cases h <;> rfl

theorem Untouched.map {d : Decoder α} (h : Untouched d) (f : α → β) : Untouched (f <$> d) := by
  intro c e c' hmap
  cases hd : d c with
  | ok a s =>
    rw [map_of_ok hd] at hmap
    cases hmap
  | error e' s =>
    rw [map_of_error hd] at hmap
    cases hmap
    exact h c e c' hd

section Atomic

variable {value : Filler α} {old : α} {ar : IArchive}

theorem read_frame (d : Decoder β) (ar : IArchive) : ∃ x pos, ar.read d = (x, { ar with pos }) := by
  unfold IArchive.read
  split <;> exact ⟨_, _, rfl⟩

theorem read_untouched {d : Decoder β} (hd : Untouched d) {e : Error} {ar' : IArchive}
    (h : ar.read d = (.error e, ar')) : ar' = ar := by
  unfold IArchive.read at h
  split at h
  · cases h
  · rename_i c hc
    cases h
    rw [hd _ _ _ hc]
    simp [IArchive.cursor]

theorem caught_ar {r : Filled α} {e : Error} (hr : r.thrown = some e)
    (h : r.ar = { ar with pos := r.ar.pos }) : (r.caught ar.position).ar = ar := by
  rw [Filled.caught, hr]
  exact setPosition_position h

/-- With a value nothing is thrown, and without a value the archive is as it was. -/
def Atomic (ar : IArchive) : Bool × Filled α → Prop
  | (true, r) => r.thrown = none
  | (false, r) => r.ar = ar

/-- The value is decoded in between, wherever the archive is by then. -/
theorem nested_atomic (len : Nat) (pos : UInt32) :
    let r := nested value len old { ar with pos }
    Atomic ar (r.thrown.isNone, r.caught ar.position) := by
  intro r
  cases hr : r.thrown with
  | none =>
    rw [Filled.caught, hr]
    exact hr
  | some e => exact caught_ar hr rfl

theorem baseTlvInto_atomic {τ : Type} [DecidableEq τ] {readType : Decoder τ}
    (h : Untouched readType) (type : τ) : Atomic ar (baseTlvInto readType type value old ar) := by
  unfold baseTlvInto
  obtain ⟨_ | tp, pos, h₁⟩ := read_frame readType ar
  · rw [h₁]
    exact read_untouched h h₁
  rw [h₁]
  dsimp only
  split_ifs
  · exact setPosition_position rfl
  obtain ⟨_ | len, pos', h₂⟩ := read_frame listLength { ar with pos }
  · rw [h₂]
    exact caught_ar rfl rfl
  · rw [h₂]
    exact nested_atomic len pos'

theorem Tag.getOuiInto_atomic (a b c : UInt8) : Atomic ar (Tag.getOuiInto a b c value old ar) := by
  unfold Tag.getOuiInto
  obtain ⟨_ | tp, pos₁, h₁⟩ := read_frame uint8 ar
  · rw [h₁]
    exact read_untouched untouched_uint8 h₁
  rw [h₁]
  dsimp only
  split_ifs
  · exact setPosition_position rfl
  obtain ⟨_ | len, pos₂, h₂⟩ := read_frame listLength { ar with pos := pos₁ }
  · rw [h₂]
    exact caught_ar rfl rfl
  rw [h₂]
  dsimp only
  split_ifs
  · exact setPosition_position rfl
  obtain ⟨_ | id, pos₃, h₃⟩ := read_frame Tag.readOui { ar with pos := pos₂ }
  · rw [h₃]
    exact caught_ar rfl rfl
  rw [h₃]
  dsimp only
  split_ifs
  · exact setPosition_position rfl
  · exact nested_atomic (len - 3) pos₃

theorem Tag.getInto_atomic (tag : Tag) : Atomic ar (tag.getInto value old ar) := by
  cases tag with
  | tlv type => exact baseTlvInto_atomic untouched_uint8 type
  | tlv4 type => exact baseTlvInto_atomic ((untouched_word 4).map _) type.toNat
  | oui a b c => exact getOuiInto_atomic a b c

end Atomic

/-! ## The element decoders -/

namespace Tag

/-- What `oui_::serialize` does behind a type of 100. -/
def ouiRest (pos : Nat) (a b c : UInt8) (value : Decoder α) : Decoder (Option α) := do
  let len ← listLength
  if len < 3 then
    modify fun s => { s with pos }
    return none
  else
    let id ← readOui
    if id ≠ (a, b, c) then
      modify fun s => { s with pos }
      return none
    else some <$> value

theorem getOui_eq {a b c : UInt8} {d : Decoder α} : getOui a b c d = restoring fun s => (do
    let tp ← uint8
    if tp ≠ 100 then
      modify fun s' => { s' with pos := s.pos }
      return none
    else ouiRest s.pos a b c d : Decoder (Option α)) s := by
  unfold getOui ouiRest readOui
  simp only [bind_assoc, pure_bind, ne_eq, Prod.mk.injEq, not_and_or]

theorem kept_readOui : Kept readOui :=
  kept_uint8.bind fun _ => kept_uint8.bind fun _ => kept_uint8.map _

end Tag

section Agrees

/-- What was found, as the element decoders return it. -/
def found (x : Bool × Filled α) : Filled (Option α) := x.2.map fun v => if x.1 then some v else none

/-- Of an element that starts where `ar` is, the part from `pos` on: `x` is what the decoder in
place does with it, and `d` is the value decoder. -/
def RestAgrees (ar : IArchive) (pos : UInt32) (x : Bool × Filled α)
    (d : Decoder (Option α)) : Prop :=
  Agrees ar (found x) (Cursor.restoring fun _ => d ⟨ar.buf, pos.toNat⟩)

namespace RestAgrees

variable {ar : IArchive} {pos pos' : UInt32} {x : Bool × Filled α} {d : Decoder β}
  {v : β} {e : Error}
  {old : α}

theorem agrees {f : Cursor UInt8 → β → Decoder (Option α)}
    (h : RestAgrees ar ar.pos x (d >>= f ar.cursor)) :
    Agrees ar (found x) (restoring fun c => (d >>= f c) c) :=
  ⟨h.ok, h.error, h.frame⟩

variable {f : β → Decoder (Option α)}

theorem of_ok (h : d ⟨ar.buf, pos.toNat⟩ = .ok v ⟨ar.buf, pos'.toNat⟩)
    (hrest : RestAgrees ar pos' x (f v)) : RestAgrees ar pos x (d >>= f) := by
  rw [RestAgrees, bind_of_ok h]
  exact hrest

theorem of_untouched (hd : Untouched d) (h : d ar.cursor = .error e ⟨ar.buf, pos.toNat⟩) :
    RestAgrees ar ar.pos (false, { thrown := some e, val := old, ar := { ar with pos } })
      (d >>= f) := by
  have hpos := hd _ _ _ h
  have hrest := restoring_of_error (bind_of_error (f := f) h)
  exact .of_error rfl (hrest.trans (congrArg _ hpos.symm)) rfl

theorem caught (h : d ⟨ar.buf, pos.toNat⟩ = .error e ⟨ar.buf, pos'.toNat⟩) :
    RestAgrees ar pos
      (false, Filled.caught { thrown := some e, val := old, ar := { ar with pos := pos' } }
        ar.position) (d >>= f) := by
  rw [RestAgrees, bind_of_error h, Filled.caught]
  rw [setPosition_position rfl]
  exact .of_error rfl rfl rfl

theorem other :
    RestAgrees ar pos
      (false, { val := old, ar := { ar with pos := pos' }.setPosition ar.position }) (do
        modify fun c => { c with pos := ar.pos.toNat }
        return none) := by
  rw [setPosition_position rfl]
  exact Agrees.of_ok rfl rfl rfl

end RestAgrees

variable {value : Filler α} {d : α → Decoder α} (h : ∀ old ar, Agrees ar (value old ar) (d old))

include h

/-- The value behind a field that has been read. -/
theorem nested_agrees (len : Nat) (old : α) (ar : IArchive) :
    Agrees ar (nested value len old ar) (d old) := by
  have hinner := h old { ar with origin := ar.pos, length := .ofNat len }
  have hcursor : (nested value len old ar).ar.cursor =
      (value old { ar with origin := ar.pos, length := .ofNat len }).ar.cursor := by
    rw [hinner.frame]
    rfl
  refine ⟨fun hr => ?_, fun e hr => ?_, rfl⟩
  · rw [hcursor]
    exact hinner.ok hr
  · rw [hcursor]
    exact hinner.error e hr

/-- The value of an element whose type is the right one. -/
theorem RestAgrees.nested (len : Nat) (old : α) (ar : IArchive) (pos : UInt32) :
    let r := nested value len old { ar with pos }
    RestAgrees ar pos (r.thrown.isNone, r.caught ar.position) (some <$> d old) := by
  have hnested := nested_agrees h len old { ar with pos }
  dsimp only
  generalize Wire.nested value len old { ar with pos } = r at hnested ⊢
  cases hr : r.thrown with
  | none =>
    rw [RestAgrees, Filled.caught, hr]
    exact Agrees.of_ok hr (restoring_ok.mpr (map_of_ok (hnested.ok hr))) hnested.frame
  | some e =>
    have hback : r.ar.setPosition ar.position = ar := setPosition_position hnested.frame
    have hvalue : (some <$> d old) ⟨ar.buf, pos.toNat⟩ = .error e r.ar.cursor :=
      map_of_error (hnested.error e hr)
    rw [Filled.caught, hr]
    rw [hback, RestAgrees, hvalue]
    refine .of_error rfl ?_ rfl
    rw [hnested.frame]
    rfl

theorem baseTlvInto_agrees {τ : Type} [DecidableEq τ] {readType : Decoder τ} (hkept : Kept readType)
    (huntouched : Untouched readType) (type : τ) (old : α) (ar : IArchive) :
    Agrees ar (found (baseTlvInto readType type value old ar)) (baseTlv readType type (d old)) := by
  refine RestAgrees.agrees ?_
  unfold baseTlvInto
  rcases read_cases hkept ar with ⟨tp, pos, hread, htp⟩ | ⟨e, pos, hread, htp⟩
  · rw [hread]
    refine .of_ok htp ?_
    dsimp only
    split_ifs with hne
    · exact .other
    rcases read_cases kept_listLength { ar with pos } with
      ⟨len, pos', hread', hlen⟩ | ⟨e, pos', hread', hlen⟩
    · rw [hread']
      exact .of_ok hlen (.nested h len old ar pos')
    · rw [hread']
      exact .caught hlen
  · rw [hread]
    exact .of_untouched huntouched htp

theorem Tag.getOuiInto_agrees (a b c : UInt8) (old : α) (ar : IArchive) :
    Agrees ar (found (Tag.getOuiInto a b c value old ar)) (Tag.getOui a b c (d old)) := by
  rw [Tag.getOui_eq]
  refine RestAgrees.agrees ?_
  unfold Tag.getOuiInto
  rcases read_cases kept_uint8 ar with ⟨tp, pos₁, hread₁, htp⟩ | ⟨e, pos₁, hread₁, htp⟩
  · rw [hread₁]
    refine .of_ok htp ?_
    dsimp only
    split_ifs with hne
    · exact .other
    rcases read_cases kept_listLength { ar with pos := pos₁ } with
      ⟨len, pos₂, hread₂, hlen⟩ | ⟨e, pos₂, hread₂, hlen⟩
    · rw [hread₂]
      refine .of_ok hlen ?_
      dsimp only
      split_ifs with hshort
      · exact .other
      rcases read_cases Tag.kept_readOui { ar with pos := pos₂ } with
        ⟨id, pos₃, hread₃, hid⟩ | ⟨e, pos₃, hread₃, hid⟩
      · rw [hread₃]
        refine .of_ok hid ?_
        dsimp only
        split_ifs with hother
        · exact .other
        · exact .nested h (len - 3) old ar pos₃
      · rw [hread₃]
        exact .caught hid
    · rw [hread₂]
      exact .caught hlen
  · rw [hread₁]
    exact .of_untouched untouched_uint8 htp

theorem Tag.getInto_agrees (tag : Tag) (old : α) (ar : IArchive) :
    Agrees ar (found (tag.getInto value old ar)) (tag.get (d old)) := by
  cases tag with
  | tlv type => exact baseTlvInto_agrees h kept_uint8 untouched_uint8 type old ar
  | tlv4 type =>
    exact baseTlvInto_agrees h ((kept_word 4).map _) ((untouched_word 4).map _) type.toNat old ar
  | oui a b c => exact getOuiInto_agrees h a b c old ar

end Agrees

/-- For every type, decoding an element in place comes to what its value decoder does: the same
value or exception, and the same position. -/
theorem element_agrees (tag : Tag) (t : Ty) (old : t.Val) (ar : IArchive) :
    Agrees ar (found (tag.getInto t.fill old ar)) (tag.get (t.decode old)) :=
  tag.getInto_agrees t.fill_agrees old ar

/-- Decoding an element is atomic. When a mandatory element throws, because the value does or
because another element stands there, the archive is as it was. When an optional element throws, so
is the archive, and the variable keeps its value. When another element stands in its place, the
archive is as it was and the variable is empty. -/
theorem tlv_atomic (tag : Tag) (value : Filler α) (ar : IArchive) :
    (∀ old e, (tlvInto tag value old ar).thrown = some e → (tlvInto tag value old ar).ar = ar) ∧
    (∀ fresh old e, (optionalInto tag value fresh old ar).thrown = some e →
      (optionalInto tag value fresh old ar).ar = ar ∧
      (optionalInto tag value fresh old ar).val = old) ∧
    (∀ fresh old r, tag.getInto value fresh ar = (false, r) → r.thrown = none →
      ar.position < ar.length →
      (optionalInto tag value fresh old ar).ar = ar ∧
        (optionalInto tag value fresh old ar).val = none) := by
  refine ⟨fun old e he => ?_, fun fresh old e he => ?_, fun fresh old r hget hr hinside => ?_⟩
  · unfold tlvInto at he ⊢
    rcases hget : tag.getInto value old ar with ⟨res, r⟩
    have hatomic : Atomic ar (res, r) := hget ▸ tag.getInto_atomic
    rw [hget] at he
    dsimp only at he ⊢
    split_ifs at he ⊢ with hother
    · rw [hother.2] at hatomic
      exact hatomic
    · cases res with
      | true => cases he.symm.trans hatomic
      | false => exact hatomic
  · unfold optionalInto at he ⊢
    rcases hget : tag.getInto value fresh ar with ⟨res, r⟩
    have hatomic : Atomic ar (res, r) := hget ▸ tag.getInto_atomic
    rw [hget] at he
    split_ifs at he ⊢ with hend
    replace he : r.thrown = some e := he
    dsimp only
    rw [he]
    cases res with
    | true => cases he.symm.trans hatomic
    | false => exact ⟨hatomic, rfl⟩
  · have hatomic : Atomic ar (false, r) := hget ▸ tag.getInto_atomic
    unfold optionalInto
    rw [if_neg (UInt32.not_le.mpr hinside), hget]
    dsimp only
    rw [hr]
    exact ⟨hatomic, rfl⟩

/-- A list that announces two elements and has one. -/
theorem tlv_atomic_short_list :
    let ar : IArchive := { buf := [9, 5, 2, 2, 1], pos := 1, origin := 1, length := 4 }
    (tlvInto (.tlv 5) (Ty.fill (.list .bool)) [] ar).thrown = some .eof ∧
      (tlvInto (.tlv 5) (Ty.fill (.list .bool)) [] ar).ar = ar := by
  intro ar
  have hthrown : (tlvInto (.tlv 5) (Ty.fill (.list .bool)) [] ar).thrown = some .eof := rfl
  exact ⟨hthrown, (tlv_atomic (.tlv 5) (Ty.fill (.list .bool)) ar).1 [] .eof hthrown⟩

end Odtone.Wire
