import Odtone.Wire.RoundTrip

/-! # Parameter lists

Writing and reading the service parameters of a message with `<<`, `>>` and `&`: every parameter is
an element, mandatory or optional. Reading goes through the list once, in the order of writing. An
optional parameter that was not written is recognised by what stands in its place: nothing, or an
element its serializer does not take for its own (`Tag.Skips`).

Serializers of one kind tell their elements apart by the type alone. A serializer of a four-byte
type, however, reads four bytes whatever stands there, and a one-byte type may be the first byte of
a four-byte one; `params_roundTrip` says exactly which lists survive.
-/

namespace Odtone.Wire

open List Except

/-- A parameter of a message. -/
structure Param where
  tag : Tag
  ty : Ty
  optional : Bool

/-- A parameter with the content of its variable: `tlv_x(val)` for a `T` or a
`boost::optional<T>`. -/
inductive Arg where
  | mandatory (tag : Tag) (ty : Ty) (val : ty.Val)
  | optional (tag : Tag) (ty : Ty) (val : Option ty.Val)

def Arg.param : Arg → Param
  | .mandatory tag ty _ => ⟨tag, ty, false⟩
  | .optional tag ty _ => ⟨tag, ty, true⟩

/-- `tlv_type_::serialize(oarchive&)` -/
def Arg.put : Arg → Except Error Bytes
  | .mandatory tag ty val => tag.put (ty.encode val)
  | .optional tag ty (some val) => tag.put (ty.encode val)
  | .optional _ _ none => .ok []

/-- `tlv_type_<T, TLV>::serialize(iarchive&)` -/
def mandatoryOf {α : Type} (get : Decoder (Option α)) : Decoder α := do
  match ← get with
  | some val => return val
  | none => throw .badTlv

/-- `tlv_type_::serialize(iarchive&)` into a fresh variable. -/
def Param.get : Param → Decoder Arg
  | ⟨tag, ty, false⟩ => .mandatory tag ty <$> mandatoryOf (tag.get (ty.decode ty.fresh))
  | ⟨tag, ty, true⟩ => .optional tag ty <$> optionalOf (tag.get (ty.decode ty.fresh)) none

/-- `ar & p₁ & p₂ & ...` on an output archive. -/
def putArgs : List Arg → Except Error Bytes
  | [] => .ok []
  | arg :: args => do
      let enc ← arg.put
      let rest ← putArgs args
      return enc ++ rest

/-- `ar & p₁ & p₂ & ...` on an input archive. -/
def getArgs : List Param → Decoder (List Arg)
  | [] => pure []
  | p :: ps => do
      let arg ← p.get
      let args ← getArgs ps
      return arg :: args

/-- `msg << helper(mid, dst) & p₁ & ...` -/
def Message.insert (m : Message) (mid : UInt16) (dst : Option Bytes) (args : List Arg) :
    Except Error Message := do
  let payload ← putArgs args
  return { m with mid := mid, destination := dst.getD m.destination, payload := payload }

variable {args : List Arg}

variable {m m' : Message} {mid : UInt16} {dst : Option Bytes} {P : Bytes → Prop}
  {enc payload : Bytes} {arg : Arg}

theorem Message.insert_eq_ok (h : m.insert mid dst args = .ok m') :
    ∃ payload, putArgs args = .ok payload ∧
      m' = { m with mid := mid, destination := dst.getD m.destination, payload := payload } := by
  obtain ⟨payload, hput, hm⟩ := bind_eq_ok.mp h
  exact ⟨payload, hput, (ok.inj hm).symm⟩

theorem Message.insert_eq_error {e : Error}
    (h : m.insert mid dst args = .error e) : putArgs args = .error e := by
  cases hput : putArgs args with
  | error e' =>
    rw [Message.insert, hput] at h
    cases h
    rfl
  | ok payload =>
    rw [Message.insert, hput] at h
    cases h

theorem Message.mid_of_insert (h : m.insert mid dst args = .ok m') : m'.mid = mid := by
  obtain ⟨payload, -, rfl⟩ := insert_eq_ok h
  rfl

/-- `msg >> helper & p₁ & ...` -/
def Message.extract (m : Message) (params : List Param) :
    EStateM.Result Error (Cursor UInt8) (List Arg) :=
  getArgs params ⟨m.payload, 0⟩

/-! ## Recognising an absent parameter -/

/-- The serializer takes the bytes for an element of another parameter. -/
def Tag.Skips : Tag → Bytes → Prop
  | .tlv type, rest => ∃ b post, rest = b :: post ∧ b ≠ type
  | .tlv4 type, rest => ∃ tp post, rest = tp ++ post ∧ tp.length = 4 ∧ tp ≠ lengthBytes type.toNat 4
  | .oui a b c, rest => (∃ tp post, rest = tp :: post ∧ tp ≠ 100) ∨
      ∃ len field post, rest = 100 :: (field ++ post) ∧ IsLengthField len field ∧
        (1 < field.length → post ≠ []) ∧
        (len < 3 ∨ ∃ x y z post', post = x :: y :: z :: post' ∧ (x ≠ a ∨ y ≠ b ∨ z ≠ c))

section Place

variable {pre rest : Bytes} {c : Cursor UInt8}

/-- The cursor behind some bytes is at the start of the rest, in a longer prefix. -/
theorem cursor_append (pre enc post : Bytes) :
    (⟨pre ++ (enc ++ post), pre.length + enc.length⟩ : Cursor UInt8) =
      ⟨(pre ++ enc) ++ post, (pre ++ enc).length⟩ := by simp

theorem cursor_cons (pre : Bytes) (b : UInt8) (post : Bytes) :
    (⟨pre ++ b :: post, pre.length + 1⟩ : Cursor UInt8) =
      ⟨(pre ++ [b]) ++ post, (pre ++ [b]).length⟩ := cursor_append pre [b] post

variable (hB : (pre ++ rest).length < 2 ^ 32)
include hB

theorem uint8_ok {b : UInt8} :
    uint8 ⟨pre ++ rest, pre.length⟩ = .ok b c ↔
      ∃ post, rest = b :: post ∧ c = ⟨pre ++ rest, pre.length + 1⟩ := by
  constructor
  · intro h
    obtain ⟨_, post, rfl, rfl, rfl, -⟩ := uint8_parses pre rest b c hB h
    exact ⟨post, rfl, rfl⟩
  · rintro ⟨post, rfl, rfl⟩
    exact (uint8_reads b (P := fun _ => True)).within pre post hB trivial

variable (pre) in
theorem uint8_three_ok {x y z : UInt8} :
    (∃ s s', uint8 ⟨pre ++ rest, pre.length⟩ = .ok x s ∧ uint8 s = .ok y s' ∧ uint8 s' = .ok z c) ↔
      ∃ post, rest = x :: y :: z :: post ∧ c = ⟨pre ++ rest, pre.length + 3⟩ := by
  constructor
  · rintro ⟨s, s', hx, hy, hz⟩
    obtain ⟨post, rfl, rfl⟩ := (uint8_ok hB).mp hx
    rw [cursor_cons] at hy
    obtain ⟨post, rfl, rfl⟩ := (uint8_ok (by simpa using hB)).mp hy
    rw [cursor_cons] at hz
    obtain ⟨post, rfl, rfl⟩ := (uint8_ok (by simpa using hB)).mp hz
    exact ⟨post, rfl, by simp⟩
  · rintro ⟨post, rfl, rfl⟩
    have hx := (uint8_reads x (P := fun _ => True)).within pre (y :: z :: post) hB trivial
    have hy := (uint8_reads y (P := fun _ => True)).within (pre ++ [x]) (z :: post)
      (by simpa using hB) trivial
    have hz := (uint8_reads z (P := fun _ => True)).within (pre ++ [x, y]) post
      (by simpa using hB) trivial
    exact ⟨_, _, hx, by simpa using hy, by simpa using hz⟩

theorem word_ok {k : Nat} {bs : Bytes} :
    word k ⟨pre ++ rest, pre.length⟩ = .ok bs c ↔
      ∃ post, rest = bs ++ post ∧ bs.length = k ∧ c = ⟨pre ++ rest, pre.length + k⟩ := by
  constructor
  · intro h
    obtain ⟨_, post, rfl, rfl, ⟨rfl, rfl⟩, -⟩ := word_parses k pre rest bs c hB h
    exact ⟨post, rfl, rfl, rfl⟩
  · rintro ⟨post, rfl, rfl, rfl⟩
    exact (word_reads bs (P := fun _ => True)).within pre post hB trivial

/-- A length field of several bytes is only read if something follows it. -/
theorem listLength_ok {len : Nat} :
    listLength ⟨pre ++ rest, pre.length⟩ = .ok len c ↔
      ∃ field post, rest = field ++ post ∧ IsLengthField len field ∧
        (1 < field.length → post ≠ []) ∧ c = ⟨pre ++ rest, pre.length + field.length⟩ := by
  have hcut : ∀ {field post : Bytes}, rest = field ++ post → IsLengthField len field →
      (CutOff (pre ++ rest) pre.length ↔ 1 < field.length ∧ post = []) := by
    rintro field post rfl ⟨b, bs, rfl, hcount, -⟩
    rw [cons_append, cutOff_join, ← hcount]
    simp only [length_append, length_cons] at hB ⊢
    rw [uint_of_lt (by omega)]
    have hlong : 128 < b.toNat ↔ 0 < bs.length := by
      rw [hcount]
      exact Nat.sub_pos_iff_lt.symm
    rw [hlong, ← length_eq_zero_iff]
    omega
  constructor
  · intro h
    obtain ⟨field, post, hrest, hc, hfield, -⟩ := listLength_parses pre rest len c hB h
    refine ⟨field, post, hrest, hfield, fun hlong hpost => ?_, hc⟩
    rw [listLength_cutOff ((hcut hrest hfield).mpr ⟨hlong, hpost⟩)] at h
    cases h
  · rintro ⟨field, post, hrest, hfield, hpost, rfl⟩
    have hncut : ¬ CutOff (pre ++ rest) pre.length := fun h =>
      hpost ((hcut hrest hfield).mp h).1 ((hcut hrest hfield).mp h).2
    subst hrest
    simp only [length_append] at hB
    rw [listLength_of_field hncut (fieldAt_of_isLengthField (by omega) hfield),
      uint_of_lt (by omega)]

end Place

namespace Tag

variable {α : Type} {tag : Tag} {value : Decoder α} {pre rest : Bytes} {c : Cursor UInt8}

theorem get_none (hB : (pre ++ rest).length < 2 ^ 32) :
    tag.get value ⟨pre ++ rest, pre.length⟩ = .ok none c ↔
      tag.Skips rest ∧ c = ⟨pre ++ rest, pre.length⟩ := by
  cases tag with
  | tlv type =>
    refine baseTlv_none.trans ⟨?_, ?_⟩
    · rintro ⟨tp, s, htp, hne, rfl⟩
      obtain ⟨post, hrest, rfl⟩ := (uint8_ok hB).mp htp
      exact ⟨⟨tp, post, hrest, hne⟩, rfl⟩
    · rintro ⟨⟨tp, post, hrest, hne⟩, rfl⟩
      exact ⟨tp, _, (uint8_ok hB).mpr ⟨post, hrest, rfl⟩, hne, rfl⟩
  | tlv4 type =>
    have htype : ∀ {tp : Bytes}, tp.length = 4 →
        (bigEndian tp ≠ type.toNat ↔ tp ≠ lengthBytes type.toNat 4) := by
      intro tp htp
      rw [not_iff_not]
      constructor
      · rintro heq
        rw [← heq, ← htp, lengthBytes_bigEndian]
      · rintro rfl
        rw [bigEndian_lengthBytes]
        exact Nat.mod_eq_of_lt type.toNat_lt
    refine baseTlv_none.trans ⟨?_, ?_⟩
    · rintro ⟨_, s, hs, hne, rfl⟩
      obtain ⟨tp, htp, rfl⟩ := Cursor.map_ok.mp hs
      obtain ⟨post, hrest, hlen, rfl⟩ := (word_ok hB).mp htp
      exact ⟨⟨tp, post, hrest, hlen, (htype hlen).mp hne⟩, rfl⟩
    · rintro ⟨⟨tp, post, hrest, hlen, hne⟩, rfl⟩
      have htp := (word_ok hB).mpr ⟨post, hrest, hlen, rfl⟩
      exact ⟨_, _, Cursor.map_ok.mpr ⟨tp, htp, rfl⟩, (htype hlen).mpr hne, rfl⟩
  | oui x y z =>
    refine getOui_none.trans ⟨?_, ?_⟩
    · rintro (⟨tp, s, htp, hne, rfl⟩ | ⟨s, len, s₁, htp, hlen, h⟩)
      · obtain ⟨post, hrest, rfl⟩ := (uint8_ok hB).mp htp
        exact ⟨.inl ⟨tp, post, hrest, hne⟩, rfl⟩
      obtain ⟨rest, rfl, rfl⟩ := (uint8_ok hB).mp htp
      rw [cursor_cons] at hlen
      obtain ⟨field, post, rfl, hfield, hpost, rfl⟩ := (listLength_ok (by simpa using hB)).mp hlen
      obtain ⟨hshort, rfl⟩ | ⟨-, x', y', z', s₂, s₃, s₄, hx, hy, hz, hoth, rfl⟩ := h
      · exact ⟨.inr ⟨len, field, post, rfl, hfield, hpost, .inl hshort⟩, by simp⟩
      · rw [cursor_append] at hx
        obtain ⟨post', rfl, rfl⟩ := (uint8_three_ok _ (by simpa using hB)).mp ⟨s₂, s₃, hx, hy, hz⟩
        exact ⟨.inr ⟨len, field, _, rfl, hfield, hpost, .inr ⟨x', y', z', post', rfl, hoth⟩⟩,
          by simp⟩
    · rintro ⟨⟨tp, post, hrest, hne⟩ | ⟨len, field, post, rfl, hfield, hpost, h⟩, rfl⟩
      · exact .inl ⟨tp, _, (uint8_ok hB).mpr ⟨post, hrest, rfl⟩, hne, rfl⟩
      have htp := (uint8_ok hB).mpr ⟨_, rfl, rfl⟩
      have hlen : listLength ⟨(pre ++ [100]) ++ (field ++ post), (pre ++ [100]).length⟩ =
          .ok len _ :=
        (listLength_ok (by simpa using hB)).mpr ⟨field, post, rfl, hfield, hpost, rfl⟩
      rw [← cursor_cons] at hlen
      refine .inr ⟨_, len, _, htp, hlen, ?_⟩
      rcases Nat.lt_or_ge len 3 with hshort | hlong
      · exact .inl ⟨hshort, by simp⟩
      · obtain ⟨x', y', z', post', rfl, hoth⟩ := h.resolve_left (by omega)
        obtain ⟨s₂, s₃, hx, hy, hz⟩ := (uint8_three_ok (pre ++ [100] ++ field)
          (by simpa using hB)).mpr ⟨post', rfl, rfl⟩
        rw [← cursor_append] at hx
        exact .inr ⟨hlong, x', y', z', s₂, s₃, _, hx, hy, hz, hoth, by simp⟩

end Tag

/-! ## Reading back what was written -/

def Arg.tag : Arg → Tag
  | .mandatory tag _ _ => tag
  | .optional tag _ _ => tag

/-- The content, if there is one, has an encoding of at most 65535 bytes. -/
def Arg.Fits : Arg → Prop
  | .mandatory _ ty val => ty.Wf = true ∧ ∃ enc, ty.encode val = .ok enc ∧ enc.length ≤ 65535
  | .optional _ ty (some val) => ty.Wf = true ∧ ∃ enc, ty.encode val = .ok enc ∧ enc.length ≤ 65535
  | .optional _ _ none => True

/-- Behind every absent parameter stands nothing, or an element of another parameter for its
serializer. -/
def Unmistakable : List Arg → Prop
  | [] => True
  | .optional tag _ none :: args =>
    (∀ rest, putArgs args = .ok rest → rest = [] ∨ tag.Skips rest) ∧ Unmistakable args
  | .optional _ _ (some _) :: args => Unmistakable args
  | .mandatory _ _ _ :: args => Unmistakable args

theorem Tag.element_pos (tag : Tag) (enc : Bytes) : 0 < (tag.element enc).length := by
  cases tag with
  | tlv | oui => simp [element, typeBytes]
  | tlv4 type => simp [element, typeBytes, lengthBytes_length]

theorem optionalOf_of_lt {α : Type} {get : Decoder (Option α)} {old : Option α} {c : Cursor UInt8}
    (h : c.pos < c.buf.length) : optionalOf get old c = get c := by
  rw [optionalOf, if_neg (by omega)]

theorem optionalOf_reads {α : Type} {get : Decoder (Option α)}
    {v : Option α} (old : Option α) (hpos : 0 < enc.length) (h : Reads get P enc v) :
    Reads (optionalOf get old) P enc v := by
  intro pre post hB hP
  rw [optionalOf_of_lt (by simp; omega)]
  exact h pre post hB hP

theorem mandatoryOf_reads {α : Type} {get : Decoder (Option α)}
    {v : α} (h : Reads get P enc (some v)) : Reads (mandatoryOf get) P enc v := by
  intro pre post hB hP
  simp only [mandatoryOf, bind, EStateM.bind, h pre post hB hP]
  rfl

/-- A parameter is absent, or written as an element that is read back. -/
theorem Arg.fits_cases (h : arg.Fits) : (∃ tag ty, arg = .optional tag ty none) ∨
    ∃ enc, enc.length ≤ 65535 ∧ arg.put = .ok (arg.tag.element enc) ∧
      Reads arg.param.get (fun _ => True) (arg.tag.element enc) arg ∧
      ∀ args, Unmistakable (arg :: args) ↔ Unmistakable args := by
  match arg, h with
  | .mandatory tag ty val, ⟨hwf, enc, henc, hlen⟩ =>
    have hval := ty.decode_reads_of_wf val ty.fresh hwf henc (by omega) (P := fun _ => True)
    have hget := (mandatoryOf_reads (tag.get_reads hlen hval)).map (f := Arg.mandatory tag ty)
    exact .inr ⟨enc, hlen, by rw [put, henc, tag.put_eq hlen]; rfl, hget, fun _ => Iff.rfl⟩
  | .optional tag ty (some val), ⟨hwf, enc, henc, hlen⟩ =>
    have hval := ty.decode_reads_of_wf val ty.fresh hwf henc (by omega) (P := fun _ => True)
    have hget := (optionalOf_reads none (tag.element_pos enc) (tag.get_reads hlen hval)).map
      (f := Arg.optional tag ty)
    exact .inr ⟨enc, hlen, by rw [put, henc, tag.put_eq hlen]; rfl, hget, fun _ => Iff.rfl⟩
  | .optional tag ty none, _ => exact .inl ⟨tag, ty, rfl⟩

theorem putArgs_cons : putArgs (arg :: args) = .ok payload ↔
      ∃ enc rest, arg.put = .ok enc ∧ putArgs args = .ok rest ∧ payload = enc ++ rest := by
  rw [putArgs, bind_eq_ok]
  simp only [bind_eq_ok]
  constructor
  · rintro ⟨enc, henc, rest, hrest, ⟨⟩⟩
    exact ⟨enc, rest, henc, hrest, rfl⟩
  · rintro ⟨enc, rest, henc, hrest, rfl⟩
    exact ⟨enc, henc, rest, hrest, rfl⟩

theorem putArgs_ok (h : ∀ arg ∈ args, arg.Fits) : ∃ payload, putArgs args = .ok payload := by
  induction args with
  | nil => exact ⟨[], rfl⟩
  | cons arg args ih =>
    obtain ⟨rest, hrest⟩ := ih fun a ha => h a (.tail _ ha)
    obtain ⟨tag, ty, rfl⟩ | ⟨enc, -, hput, -⟩ := Arg.fits_cases (h arg (.head _))
    · exact ⟨[] ++ rest, putArgs_cons.mpr ⟨[], rest, rfl, hrest, rfl⟩⟩
    · exact ⟨_, putArgs_cons.mpr ⟨_, rest, hput, hrest, rfl⟩⟩

theorem getArgs_cons {p : Param} {ps : List Param} {c c' : Cursor UInt8} :
    getArgs (p :: ps) c = .ok (arg :: args) c' ↔
      ∃ s, p.get c = .ok arg s ∧ getArgs ps s = .ok args c' := by
  refine Cursor.bind_ok.trans ⟨?_, ?_⟩
  · rintro ⟨arg', s, harg, h⟩
    obtain ⟨args', s', hargs, h⟩ := Cursor.bind_ok.mp h
    cases h
    exact ⟨s, harg, hargs⟩
  · rintro ⟨s, harg, hargs⟩
    exact ⟨arg, s, harg, Cursor.bind_ok.mpr ⟨args, c', hargs, rfl⟩⟩

/-- An optional parameter is found absent at the end and in front of another one's element. -/
theorem get_absent {tag : Tag} {ty : Ty} {pre rest : Bytes} {c : Cursor UInt8}
    (hB : (pre ++ rest).length < 2 ^ 32) :
    Param.get ⟨tag, ty, true⟩ ⟨pre ++ rest, pre.length⟩ = .ok (.optional tag ty none) c ↔
      (rest = [] ∨ tag.Skips rest) ∧ c = ⟨pre ++ rest, pre.length⟩ := by
  refine Cursor.map_ok.trans ?_
  by_cases hrest : rest = []
  · subst hrest
    constructor
    · rintro ⟨v, hv, -⟩
      rw [optionalOf, if_pos (by simp)] at hv
      cases hv
      exact ⟨.inl rfl, rfl⟩
    · rintro ⟨-, rfl⟩
      exact ⟨none, by rw [optionalOf, if_pos (by simp)], rfl⟩
  · have hpos : 0 < rest.length := length_pos_of_ne_nil hrest
    rw [optionalOf_of_lt (by simp; omega)]
    constructor
    · rintro ⟨v, hv, heq⟩
      obtain rfl : v = none := by simpa using heq
      exact ((Tag.get_none hB).mp hv).imp_left .inr
    · rintro ⟨hskips, rfl⟩
      exact ⟨none, (Tag.get_none hB).mpr ⟨hskips.resolve_left hrest, rfl⟩, rfl⟩

/-- A written list is read back exactly if no absent parameter is mistaken. -/
theorem getArgs_iff (hfits : ∀ arg ∈ args, arg.Fits)
    (hput : putArgs args = .ok payload) (pre : Bytes) (hB : (pre ++ payload).length < 2 ^ 32) :
    getArgs (args.map Arg.param) ⟨pre ++ payload, pre.length⟩ =
      .ok args ⟨pre ++ payload, (pre ++ payload).length⟩ ↔ Unmistakable args := by
  induction args generalizing pre payload with
  | nil =>
    cases hput
    simp [getArgs, Unmistakable, pure, EStateM.pure]
  | cons arg args ih =>
    obtain ⟨enc, rest, henc, hrest, rfl⟩ := putArgs_cons.mp hput
    have hfits' : ∀ a ∈ args, a.Fits := fun a ha => hfits a (.tail _ ha)
    refine getArgs_cons.trans ?_
    obtain ⟨tag, ty, rfl⟩ | ⟨enc', -, hput', hget, hsame⟩ := Arg.fits_cases (hfits arg (.head _))
    · cases henc
      have hih := ih hfits' hrest pre hB
      constructor
      · rintro ⟨s, harg, hargs⟩
        obtain ⟨hskips, rfl⟩ := (get_absent hB).mp harg
        refine ⟨fun rest' hrest' => ?_, hih.mp hargs⟩
        cases hrest.symm.trans hrest'
        exact hskips
      · rintro ⟨hskips, hargs⟩
        exact ⟨_, (get_absent hB).mpr ⟨hskips rest hrest, rfl⟩, hih.mpr hargs⟩
    · cases hput'.symm.trans henc
      have hih := ih hfits' hrest (pre ++ arg.tag.element enc') (by simpa using hB)
      have harg := hget.within pre rest hB trivial
      rw [append_assoc, length_append] at hih
      rw [hsame, ← hih]
      constructor
      · rintro ⟨s, harg', hargs⟩
        cases harg.symm.trans harg'
        exact hargs
      · intro hargs
        exact ⟨_, harg, hargs⟩

/-! ## Types of one width -/

/-- Different types, or vendor elements of different organizations. -/
def Tag.Apart (tag tag' : Tag) : Prop :=
  tag.typeBytes ≠ tag'.typeBytes ∨
    tag.ouiBytes ≠ [] ∧ tag'.ouiBytes ≠ [] ∧ tag.ouiBytes ≠ tag'.ouiBytes

theorem isLengthField_lengthField {len : Nat} (h : len < 128 + 2 ^ 16) :
    IsLengthField len (lengthField len) := by
  have hshort : (lengthField len).length ≤ 3 := by
    unfold lengthField
    split_ifs <;> simp
  have hread := (listLength_reads h).run [0] (by simp; omega) (by simp)
  obtain ⟨field, post, heq, hc, hfield, -⟩ :=
    listLength_parses [] (lengthField len ++ [0]) len _ (by simp; omega) hread
  have hlen : (lengthField len).length = field.length := by simpa using congrArg Cursor.pos hc
  rwa [(append_inj heq hlen).1]

/-- An element of another type of the same width is left alone. -/
theorem Tag.skips_element {tag tag' : Tag} (post : Bytes) (h : tag.Apart tag')
    (hwidth : tag.typeBytes.length = tag'.typeBytes.length) (hlen : enc.length ≤ 65535) :
    tag.Skips (tag'.element enc ++ post) := by
  cases tag with
  | tlv type =>
    have hne := h.resolve_right (by simp [ouiBytes])
    cases tag' with
    | tlv type' => exact ⟨type', _, rfl, fun heq => hne (by rw [typeBytes, typeBytes, heq])⟩
    | tlv4 type' => simp [typeBytes, lengthBytes_length] at hwidth
    | oui x y z => exact ⟨100, _, rfl, fun heq => hne (by rw [typeBytes, typeBytes, heq])⟩
  | tlv4 type =>
    have hne := h.resolve_right (by simp [ouiBytes])
    refine ⟨tag'.typeBytes, _, by rw [element, append_assoc], ?_, hne.symm⟩
    rw [← hwidth, typeBytes, lengthBytes_length]
  | oui a b c =>
    cases tag' with
    | tlv type' =>
      have hne := h.resolve_right (by simp [ouiBytes])
      exact .inl ⟨type', _, rfl, fun heq => hne (by rw [typeBytes, typeBytes, heq])⟩
    | tlv4 type' => simp [typeBytes, lengthBytes_length] at hwidth
    | oui x y z =>
      have hne := (h.resolve_left (by simp [typeBytes])).2.2
      have hfield := isLengthField_lengthField
        (show (ouiBytes (.oui x y z) ++ enc).length < 128 + 2 ^ 16 by simp [ouiBytes]; omega)
      refine .inr ⟨_, _, x :: y :: z :: (enc ++ post), ?_, hfield, by simp,
        .inr ⟨x, y, z, _, rfl, ?_⟩⟩
      · simp [element, typeBytes, ouiBytes]
      · by_contra hsame
        simp only [not_or, not_not] at hsame
        obtain ⟨rfl, rfl, rfl⟩ := hsame
        exact hne rfl

/-- A written list that is not empty starts with the element of one of its parameters. -/
theorem putArgs_head (hfits : ∀ arg ∈ args, arg.Fits)
    (hput : putArgs args = .ok payload) : payload = [] ∨
      ∃ arg ∈ args, ∃ enc post, enc.length ≤ 65535 ∧ payload = arg.tag.element enc ++ post := by
  induction args generalizing payload with
  | nil =>
    cases hput
    exact .inl rfl
  | cons arg args ih =>
    obtain ⟨enc, rest, henc, hrest, rfl⟩ := putArgs_cons.mp hput
    obtain ⟨tag, ty, rfl⟩ | ⟨enc', hlen, hput', -⟩ := Arg.fits_cases (hfits arg (.head _))
    · cases henc
      refine (ih (fun a ha => hfits a (.tail _ ha)) hrest).imp_right ?_
      rintro ⟨arg, hmem, h⟩
      exact ⟨arg, .tail _ hmem, h⟩
    · cases hput'.symm.trans henc
      exact .inr ⟨arg, .head _, enc', rest, hlen, rfl⟩

theorem unmistakable_of_apart (hfits : ∀ arg ∈ args, arg.Fits)
    (hapart : args.Pairwise fun a b => a.tag.Apart b.tag) {w : Nat}
    (hwidth : ∀ arg ∈ args, arg.tag.typeBytes.length = w) : Unmistakable args := by
  induction args with
  | nil => trivial
  | cons arg args ih =>
    rw [pairwise_cons] at hapart
    have hfits' : ∀ a ∈ args, a.Fits := fun a ha => hfits a (.tail _ ha)
    have hrest := ih hfits' hapart.2 fun a ha => hwidth a (.tail _ ha)
    obtain ⟨tag, ty, rfl⟩ | ⟨-, -, -, -, hsame⟩ := Arg.fits_cases (hfits arg (.head _))
    · refine ⟨fun rest hput => ?_, hrest⟩
      refine (putArgs_head hfits' hput).imp_right ?_
      rintro ⟨arg, hmem, enc, post, hlen, rfl⟩
      refine Tag.skips_element post (hapart.1 arg hmem) ?_ hlen
      exact (hwidth _ (.head _)).trans (hwidth arg (.tail _ hmem)).symm
    · exact (hsame args).mpr hrest

/-- A list of parameters is written, and read back with the same content up to its end exactly if no
absent parameter is mistaken; lists of different types of one width always are. -/
theorem params_roundTrip (m : Message) (mid : UInt16) (dst : Option Bytes) (args : List Arg)
    (hfits : ∀ arg ∈ args, arg.Fits) :
    ∃ m', m.insert mid dst args = .ok m' ∧ (m'.payload.length < 2 ^ 32 →
      (m'.extract (args.map Arg.param) = .ok args ⟨m'.payload, m'.payload.length⟩ ↔
        Unmistakable args) ∧
      ((args.Pairwise fun a b => a.tag.Apart b.tag) →
        (∃ w, ∀ arg ∈ args, arg.tag.typeBytes.length = w) →
        m'.extract (args.map Arg.param) = .ok args ⟨m'.payload, m'.payload.length⟩)) := by
  obtain ⟨payload, hput⟩ := putArgs_ok hfits
  refine ⟨{ m with mid := mid, destination := dst.getD m.destination, payload := payload },
    by rw [Message.insert, hput]; rfl, fun hB => ?_⟩
  have hiff := getArgs_iff hfits hput [] hB
  exact ⟨hiff, fun hapart ⟨w, hwidth⟩ => hiff.mpr (unmistakable_of_apart hfits hapart hwidth)⟩

/-- A status in front of an absent link identifier, read from a response. -/
theorem params_roundTrip_status : ∃ m', ({} : Message).insert 0 none
      [.mandatory (.tlv 3) (.uint .one) 0#8, .optional (.tlv 12) (.uint .four) none,
        .optional (.tlv 21) (.uint .two) (some 600#16)] = .ok m' ∧
    m'.payload.length < 2 ^ 32 ∧
    m'.extract [⟨.tlv 3, .uint .one, false⟩, ⟨.tlv 12, .uint .four, true⟩,
        ⟨.tlv 21, .uint .two, true⟩] =
      .ok [.mandatory (.tlv 3) (.uint .one) 0#8, .optional (.tlv 12) (.uint .four) none,
        .optional (.tlv 21) (.uint .two) (some 600#16)] ⟨m'.payload, m'.payload.length⟩ := by
  obtain ⟨m', hm, h⟩ := params_roundTrip {} 0 none
    [.mandatory (.tlv 3) (.uint .one) 0#8, .optional (.tlv 12) (.uint .four) none,
      .optional (.tlv 21) (.uint .two) (some 600#16)] (by
        simp only [mem_cons, not_mem_nil, or_false, forall_eq_or_imp, forall_eq]
        exact ⟨⟨rfl, _, rfl, by decide⟩, trivial, rfl, _, rfl, by decide⟩)
  have hB : m'.payload.length < 2 ^ 32 := by
    cases hm
    decide
  refine ⟨m', hm, hB, (h hB).2 ?_ ⟨1, ?_⟩⟩
  · simp [Arg.tag, Tag.Apart, Tag.typeBytes]
  · simp [Arg.tag, Tag.typeBytes]

/-- A four-byte type in front of a one-byte type: the absent country code is looked for in the three
bytes of the status, and reading ends in an exception. -/
theorem params_not_roundTrip :
    (Tag.tlv4 0x10000003).Apart (.tlv 3) ∧
    ({} : Message).insert 0 none [.optional (.tlv4 0x10000003) (.uint .two) none,
      .mandatory (.tlv 3) (.uint .one) 0#8] = .ok { payload := [3, 1, 0] } ∧
    Message.extract { payload := [3, 1, 0] }
      [⟨.tlv4 0x10000003, .uint .two, true⟩, ⟨.tlv 3, .uint .one, false⟩] =
        .error .eof ⟨[3, 1, 0], 0⟩ :=
  ⟨.inl (by decide), rfl, rfl⟩

end Odtone.Wire
