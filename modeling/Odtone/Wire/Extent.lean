import Odtone.Support.PrefixCode
import Odtone.Wire.Value

/-! # Extent of encoded values

`Ty.IsEncoding t` is the set of byte strings that are one complete encoding of a value of type `t`,
described by a grammar. It is prefix free, so at most one encoding stands at any place of a buffer,
and every value decoder that succeeds has moved over one (`Ty.decode_parses`).

The serializers of `tlv.hpp` never use the length they read, so where an element ends is decided by
its value. `tlv_delimited_iff` says when this is where its declared length ends.
-/

namespace Odtone.Wire

open List Cursor EStateM Option

/-- The bytes of a length field that stands for `len`: a first byte, which is the length itself or
announces further bytes. -/
def IsLengthField (len : Nat) (field : Bytes) : Prop :=
  ∃ b bs, field = b :: bs ∧ bs.length = announced b ∧
    if b.toNat ≤ 128 then b.toNat = len else declared bs = some len

namespace Ty

mutual

/-- One complete encoding of a value of the type. -/
def IsEncoding : Ty → Bytes → Prop
  | .bool, enc => enc.length = 1
  | .uint w, enc => enc.length = w.octets
  | .sint w, enc => enc.length = w.octets
  | .octets, enc => ∃ len field data, enc = field ++ data ∧ IsLengthField len field ∧
      data.length = len
  | .bitmap n, enc => enc.length = n
  | .array n t, enc => Repeated (IsEncoding t) n enc
  | .list t, enc => ∃ len field body, enc = field ++ body ∧ IsLengthField len field ∧
      Repeated (IsEncoding t) len body
  | .seq ts, enc => IsSeqEncoding ts enc
  | .variant t ts, enc => ∃ (selector : UInt8) (head body : Bytes), enc = head ++ body ∧
      head = [selector] ∧
      match selector.toNat with
      | 0 => IsEncoding t body
      | i + 1 => IsAltEncoding ts i body

def IsSeqEncoding : List Ty → Bytes → Prop
  | [], enc => enc = []
  | t :: ts, enc => ∃ x y, enc = x ++ y ∧ IsEncoding t x ∧ IsSeqEncoding ts y

/-- The alternative with the given number, or nothing behind an unknown selector. -/
def IsAltEncoding : List Ty → Nat → Bytes → Prop
  | [], _, enc => enc = []
  | t :: _, 0, enc => IsEncoding t enc
  | _ :: ts, i + 1, enc => IsAltEncoding ts i enc

end

end Ty

/-! ## At most one encoding at any place -/

theorem IsLengthField.prefixFree : PrefixFree fun field => ∃ len, IsLengthField len field := by
  rintro _ _ x y ⟨len, b, bs, rfl, hbs, -⟩ ⟨len', b', bs', rfl, hbs', -⟩ heq
  simp only [cons_append, cons.injEq] at heq
  obtain ⟨rfl, heq⟩ := heq
  rw [(append_inj heq (hbs.trans hbs'.symm)).1]

variable {len len' : Nat} {field rest pre : Bytes} {c : Cursor UInt8}

theorem IsLengthField.unique (h : IsLengthField len field)
    (h' : IsLengthField len' field) : len = len' := by
  obtain ⟨b, bs, rfl, -, hlen⟩ := h
  obtain ⟨b', bs', heq, -, hlen'⟩ := h'
  obtain ⟨rfl, rfl⟩ := cons.inj heq
  split_ifs at hlen hlen'
  · exact hlen.symm.trans hlen'
  · exact some.inj (hlen.symm.trans hlen')

namespace Ty

mutual

theorem isEncoding_prefixFree : ∀ t : Ty, PrefixFree (IsEncoding t)
  | .bool => .of_length 1 fun _ h => h
  | .uint w | .sint w => .of_length w.octets fun _ h => h
  | .octets =>
    .bind IsLengthField.prefixFree IsLengthField.unique fun len =>
      .of_length len fun _ h => h
  | .bitmap n => .of_length n fun _ h => h
  | .array n t => (isEncoding_prefixFree t).repeated n
  | .list t =>
    .bind IsLengthField.prefixFree IsLengthField.unique fun len =>
      (isEncoding_prefixFree t).repeated len
  | .seq ts => isSeqEncoding_prefixFree ts
  | .variant t ts => by
    refine .bind
      (.of_length 1 fun a ⟨_, h⟩ => by simp [h]) (fun h h' => by simpa using h.symm.trans h') ?_
    intro selector
    cases selector.toNat with
    | zero => exact isEncoding_prefixFree t
    | succ i => exact isAltEncoding_prefixFree ts i

theorem isSeqEncoding_prefixFree : ∀ ts : List Ty, PrefixFree (IsSeqEncoding ts)
  | [] => .nil
  | t :: ts => (isEncoding_prefixFree t).append (isSeqEncoding_prefixFree ts)

theorem isAltEncoding_prefixFree : ∀ (ts : List Ty) (i : Nat), PrefixFree (IsAltEncoding ts i)
  | [], _ => .nil
  | t :: _, 0 => isEncoding_prefixFree t
  | _ :: ts, i + 1 => isAltEncoding_prefixFree ts i

end

end Ty

/-! ## What the decoders move over -/

/-- Specification of what a decoder takes, on buffers whose size fits `uint`. -/
abbrev Parses {α : Type} (d : Decoder α) (L : α → Bytes → Prop) : Prop :=
  Cursor.Parses (2 ^ 32) d L

theorem copyBytes_parses (len : Nat) :
    Parses (copyBytes len) fun val enc => enc = val ∧ val.length = len := by
  intro pre rest val c hB hd
  simp only [copyBytes] at hd
  split_ifs at hd with hfit
  simp only [length_append] at hfit hB
  simp only [drop_left, Result.ok.injEq] at hd
  obtain ⟨rfl, rfl⟩ := hd
  have hlen : (rest.take len).length = len := by simp; omega
  refine ⟨rest.take len, rest.drop len, by simp, ?_, ⟨rfl, hlen⟩, ?_⟩
  · rw [hlen, uint_of_lt (by omega)]
  · intro pre' post' hpre hpost
    have hread := copyBytes_reads (rest.take len) (P := fun _ => True) pre' post'
      (by simp only [length_append, length_drop, hlen] at hpost ⊢; omega) trivial
    rwa [hlen] at hread ⊢

theorem word_parses (k : Nat) : Parses (word k) fun val enc => enc = val ∧ val.length = k := by
  refine Parses.of_size
    (g := fun n p => fun c => if n < uint (p + k) then .error .eof c else copyBytes k c)
    fun n p => ?_
  split_ifs
  · exact .throw _ _
  · exact copyBytes_parses k

theorem uint8_parses : Parses uint8 fun b enc => enc = [b] := by
  intro pre rest b c hB hd
  cases rest with
  | nil =>
    simp only [uint8, append_nil, getElem?_length] at hd
    split_ifs at hd
  | cons b' rest =>
    have hread := uint8_reads b' (P := fun _ => True)
    have hend : pre.length + [b'].length < 2 ^ 32 := by
      simp only [length_append, length_cons, length_nil] at hB ⊢
      omega
    obtain ⟨rfl, rfl⟩ := Result.ok.inj
      ((hread pre rest (by rwa [length_append]) trivial).symm.trans hd)
    refine ⟨[b'], rest, rfl, rfl, rfl, fun pre' post' hpre hpost => hread pre' post' ?_ trivial⟩
    rwa [length_append, hpre]

/-- Consecutive bytes of a buffer whose size fits `uint` are a segment of it. -/
theorem bytesAt_some (pre : Bytes) {bs : Bytes} {n : Nat} (hB : (pre ++ rest).length < 2 ^ 32)
    (h : bytesAt (pre ++ rest) pre.length n = some bs) : ∃ post, rest = bs ++ post := by
  induction n generalizing pre rest bs with
  | zero => exact ⟨rest, by simp_all [bytesAt]⟩
  | succ n ih =>
    simp only [bytesAt, bind, bind_eq_some_iff, pure, some.injEq] at h
    obtain ⟨b, hb, bs', hbs', rfl⟩ := h
    simp only [length_append] at hB
    rw [uint_of_lt (by omega), getElem?_append_right le_rfl, Nat.sub_self] at hb
    obtain ⟨rest, rfl⟩ : ∃ rest', rest = b :: rest' := by
      cases rest with
      | nil => simp at hb
      | cons b' rest => exact ⟨rest, by simpa using hb⟩
    obtain ⟨post, rfl⟩ := ih (pre ++ [b]) (by simpa using hB) (by simpa using hbs')
    exact ⟨post, rfl⟩

theorem cutOff_join {b : UInt8} : CutOff (pre ++ b :: rest) pre.length ↔
    128 < b.toNat ∧ (pre ++ b :: rest).length ≤ uint (pre.length + 1 + announced b) := by
  simp [CutOff]

/-- The field described by `fieldAt` is a length field of the grammar. -/
theorem isLengthField_of_fieldAt {w : Nat}
    (hB : (pre ++ rest).length < 2 ^ 32) (h : fieldAt (pre ++ rest) pre.length = some (w, len)) :
    ∃ field post, rest = field ++ post ∧ field.length = w ∧ IsLengthField len field := by
  cases rest with
  | nil => simp [fieldAt] at h
  | cons b rest =>
    simp only [fieldAt, getElem?_join, bind, bind_some, pure] at h
    split_ifs at h with hshort
    · simp only [some.injEq, Prod.mk.injEq] at h
      refine ⟨[b], rest, rfl, h.1, b, [], rfl, ?_, ?_⟩
      · exact (Nat.sub_eq_zero_of_le hshort).symm
      · rw [if_pos hshort, h.2]
    · simp only [bind_eq_some_iff, some.injEq, Prod.mk.injEq] at h
      obtain ⟨bs, hbs, len', hlen, rfl, rfl⟩ := h
      have hcount := bytesAt_length hbs
      obtain ⟨post, rfl⟩ := bytesAt_some (pre ++ [b]) (by simpa using hB) (by simpa using hbs)
      refine ⟨b :: bs, post, rfl, by simp [hcount, Nat.add_comm], b, bs, rfl, hcount, ?_⟩
      rw [if_neg hshort, hlen]

theorem fieldAt_of_isLengthField {post : Bytes}
    (hB : pre.length + field.length ≤ 2 ^ 32) (h : IsLengthField len field) :
    fieldAt (pre ++ (field ++ post)) pre.length = some (field.length, len) := by
  obtain ⟨b, bs, rfl, hcount, hlen⟩ := h
  simp only [fieldAt, cons_append, getElem?_join, bind, bind_some, pure]
  split_ifs at hlen ⊢ with hshort
  · have hnil : bs.length = 0 := hcount.trans (Nat.sub_eq_zero_of_le hshort)
    simp [hnil, hlen]
  · have hbs := bytesAt_append (pre ++ [b]) bs post (by simp at hB ⊢; omega)
    simp only [append_assoc, singleton_append, length_append, length_singleton] at hbs
    simp [← hcount, hbs, hlen, Nat.add_comm]

/-- The decoder stops behind `field` with a length exactly if that is what the field stands for; a
field of several bytes needs something behind it. -/
theorem listLength_ok_iff (pre post bs : Bytes) (b : UInt8)
    (hB : pre.length + bs.length + 256 < 2 ^ 32) :
    listLength ⟨pre ++ (b :: bs ++ post), pre.length⟩ =
        .ok len ⟨pre ++ (b :: bs ++ post), pre.length + (bs.length + 1)⟩ ↔
      IsLengthField len (b :: bs) ∧ (bs ≠ [] → post ≠ []) := by
  have hann : announced b < 256 := (Nat.sub_le _ _).trans_lt b.toNat_lt
  constructor
  · intro hd
    by_cases hcut : CutOff (pre ++ (b :: bs ++ post)) pre.length
    · rw [listLength_cutOff hcut] at hd
      cases hd
    cases hf : fieldAt (pre ++ (b :: bs ++ post)) pre.length with
    | none =>
      obtain ⟨e, he, -⟩ := listLength_undefined hcut hf
      rw [he] at hd
      cases hd
    | some field =>
      obtain ⟨w, len'⟩ := field
      rw [listLength_of_field hcut hf, Result.ok.injEq, Cursor.mk.injEq] at hd
      obtain ⟨rfl, -, hw⟩ := hd
      rw [cons_append, cutOff_join] at hcut
      simp only [fieldAt, cons_append, getElem?_join, bind, bind_some, pure] at hf
      split_ifs at hf with hshort
      · obtain ⟨rfl, rfl⟩ := hf
        rw [uint_of_lt (by omega)] at hw
        obtain rfl : bs = [] := length_eq_zero_iff.mp (by omega)
        refine ⟨⟨b, [], rfl, (Nat.sub_eq_zero_of_le hshort).symm, ?_⟩, fun h => absurd rfl h⟩
        rw [if_pos hshort]
      · simp only [bind_eq_some_iff, some.injEq, Prod.mk.injEq] at hf
        obtain ⟨bs', hbs', len', hlen, rfl, rfl⟩ := hf
        rw [uint_of_lt (by omega)] at hw
        have hcount : bs.length = announced b := by omega
        have hbs := bytesAt_append (pre ++ [b]) bs post (by simp; omega)
        simp only [append_assoc, singleton_append, length_append, length_singleton, hcount] at hbs
        obtain rfl : bs' = bs := some.inj (hbs'.symm.trans hbs)
        refine ⟨⟨b, bs', rfl, hcount, ?_⟩, ?_⟩
        · rw [if_neg hshort]
          exact hlen
        · rintro - rfl
          refine hcut ⟨by omega, ?_⟩
          rw [uint_of_lt (by omega)]
          simp
          omega
  · rintro ⟨hfield, hpost⟩
    have hcut : ¬ CutOff (pre ++ (b :: bs ++ post)) pre.length := by
      rw [cons_append, cutOff_join, uint_of_lt (by omega)]
      rintro ⟨hlong, hle⟩
      obtain ⟨b', bs', heq, hcount, -⟩ := hfield
      obtain ⟨rfl, rfl⟩ := heq
      have hne : bs ≠ [] := ne_nil_of_length_pos (hcount ▸ announced_pos hlong)
      have hpos := length_pos_of_ne_nil (hpost hne)
      simp at hle
      omega
    rw [listLength_of_field hcut (fieldAt_of_isLengthField (by simp; omega) hfield),
      uint_of_lt (by simp; omega)]
    rfl

theorem listLength_parses : Parses listLength IsLengthField := by
  intro pre rest len c hB hd
  by_cases hcut : CutOff (pre ++ rest) pre.length
  · rw [listLength_cutOff hcut] at hd
    cases hd
  cases hf : fieldAt (pre ++ rest) pre.length with
  | none =>
    obtain ⟨e, he, -⟩ := listLength_undefined hcut hf
    rw [he] at hd
    cases hd
  | some field =>
    obtain ⟨w, len'⟩ := field
    rw [listLength_of_field hcut hf, Result.ok.injEq] at hd
    obtain ⟨rfl, rfl⟩ := hd
    obtain ⟨field, post, rfl, rfl, hfield⟩ := isLengthField_of_fieldAt hB hf
    simp only [length_append] at hB
    refine ⟨field, post, rfl, by rw [uint_of_lt (by omega)], hfield, ?_⟩
    intro pre' post' hpre hpost
    -- the first byte and the sizes are the same, so the field is not cut off here either
    have hcut' : ¬ CutOff (pre' ++ (field ++ post')) pre'.length := by
      obtain ⟨b, bs, rfl, -, -⟩ := hfield
      rw [cons_append, cutOff_join] at hcut ⊢
      simpa [hpre, hpost] using hcut
    rw [listLength_of_field hcut' (fieldAt_of_isLengthField (by omega) hfield),
      uint_of_lt (by omega)]

theorem octetString_parses : Parses octetString fun val enc =>
    ∃ field, enc = field ++ val ∧ IsLengthField val.length field := by
  refine Parses.restoring <| Parses.of_size
    (g := fun n p => do
      let len ← listLength
      if n ≤ uint (p + len) then throw .eof
      copyBytes len) fun n p => ?_
  refine (listLength_parses.bind (M := fun len val enc => enc = val ∧ val.length = len) ?_).mono ?_
  · intro len
    split_ifs
    · exact .throw _ _
    · exact copyBytes_parses len
  · rintro val _ ⟨len, field, _, rfl, hfield, rfl, rfl⟩
    exact ⟨field, rfl, hfield⟩

section Containers

variable {α : Type} {P : Bytes → Prop}

theorem refill_parses {d : α → Decoder α} {fresh : α}
    (h : ∀ old, Parses (d old) fun _ => P) (n : Nat) (old : List α) :
    Parses (refill d fresh n old) fun _ => Repeated P n := by
  induction n generalizing old with
  | zero =>
    refine (Parses.pure []).mono ?_
    rintro _ _ ⟨-, rfl⟩
    exact .nil
  | succ n ih =>
    refine ((h _).bind fun a => (ih old.tail).map).mono ?_
    rintro _ _ ⟨a, x, y, rfl, hx, as, -, hy⟩
    exact .cons hx hy

theorem each_parses {d : α → Decoder α} (h : ∀ old, Parses (d old) fun _ => P) (n : Nat)
    (old : List.Vector α n) : Parses (each d n old) fun _ => Repeated P n := by
  induction n with
  | zero =>
    refine (Parses.pure old).mono ?_
    rintro _ _ ⟨-, rfl⟩
    exact .nil
  | succ n ih =>
    refine ((h old.head).bind fun a => (ih old.tail).map).mono ?_
    rintro _ _ ⟨a, x, y, rfl, hx, as, -, hy⟩
    exact .cons hx hy

end Containers

namespace Ty

mutual

/-- A value decoder that succeeds has moved over one encoding of its type. -/
theorem decode_parses : ∀ (t : Ty) (old : t.Val), Parses (t.decode old) fun _ => t.IsEncoding
  | .bool, _ => by
    refine uint8_parses.map.mono ?_
    rintro _ _ ⟨b, -, rfl⟩
    rfl
  | .uint w, _ | .sint w, _ => by
    refine (word_parses w.octets).map.mono ?_
    rintro _ _ ⟨bs, -, rfl, h⟩
    exact h
  | .octets, _ => by
    refine octetString_parses.mono ?_
    rintro val _ ⟨field, rfl, h⟩
    exact ⟨val.length, field, val, rfl, h, rfl⟩
  | .bitmap n, old => by
    have hbyte : Parses uint8 fun _ enc => enc.length = 1 :=
      uint8_parses.mono fun _ _ h => by simp [h]
    refine (each_parses (fun _ => hbyte) n old).map.mono ?_
    rintro _ _ ⟨bs, -, h⟩
    exact (Repeated.length_eq h).trans (Nat.mul_one n)
  | .array n t, old => each_parses (decode_parses t) n old
  | .list t, old => by
    refine Parses.restoring ?_
    refine (listLength_parses.bind fun len => refill_parses (decode_parses t) len old).mono ?_
    rintro _ _ ⟨len, field, body, rfl, hfield, hbody⟩
    exact ⟨len, field, body, rfl, hfield, hbody⟩
  | .seq ts, old => decodeSeq_parses ts old
  | .variant t ts, old => by
    refine (uint8_parses.bind (M := fun selector _ enc => match selector.toNat with
      | 0 => IsEncoding t enc
      | i + 1 => IsAltEncoding ts i enc) fun selector => ?_).mono ?_
    · cases selector.toNat with
      | zero =>
        refine (decode_parses t t.fresh).map.mono ?_
        rintro _ _ ⟨v, -, h⟩
        exact h
      | succ i =>
        refine ((decodeAlt_parses ts i).bind (M := fun _ _ enc => enc = []) fun v => ?_).mono ?_
        · cases v <;> exact (Parses.pure _).mono fun _ _ h => h.2
        · rintro _ _ ⟨v, x, _, rfl, hx, rfl⟩
          simpa using hx
    · rintro _ _ ⟨selector, _, y, rfl, rfl, hy⟩
      exact ⟨selector, [selector], y, rfl, rfl, hy⟩

theorem decodeSeq_parses : ∀ (ts : List Ty) (old : SeqVal ts),
    Parses (decodeSeq ts old) fun _ => IsSeqEncoding ts
  | [], _ => by
    refine (Parses.pure ()).mono ?_
    rintro _ _ ⟨-, rfl⟩
    rfl
  | t :: ts, old => by
    refine ((decode_parses t old.1).bind fun v =>
      ((decodeSeq_parses ts old.2).map)).mono ?_
    rintro _ _ ⟨v, x, y, rfl, hx, vs, -, hy⟩
    exact ⟨x, y, rfl, hx, hy⟩

theorem decodeAlt_parses : ∀ (ts : List Ty) (i : Nat),
    Parses (decodeAlt ts i) fun _ => IsAltEncoding ts i
  | [], _ => by
    refine (Parses.pure none).mono ?_
    rintro _ _ ⟨-, rfl⟩
    rfl
  | t :: _, 0 => by
    refine (decode_parses t t.fresh).map.mono ?_
    rintro _ _ ⟨v, -, h⟩
    exact h
  | _ :: ts, i + 1 => by
    refine (decodeAlt_parses ts i).map.mono ?_
    rintro _ _ ⟨v, -, h⟩
    exact h

end

end Ty

/-! ## Elements -/

namespace Tag

variable {α : Type}

/-- The type of an element on the wire. -/
def typeBytes : Tag → Bytes
  | .tlv type => [type]
  | .tlv4 type => lengthBytes type.toNat 4
  | .oui _ _ _ => [100]

/-- What stands inside the declared length in front of the value. -/
def ouiBytes : Tag → Bytes
  | .tlv _ => []
  | .tlv4 _ => []
  | .oui a b c => [a, b, c]

/-- The parts of an element in their order, read without looking at them. -/
def parts : Tag → Decoder α → Decoder (Bytes × Nat × Bytes × α)
  | .tlv _, value => do
      let tp ← uint8
      let len ← listLength
      let v ← value
      return ([tp], len, [], v)
  | .tlv4 _, value => do
      let tp ← word 4
      let len ← listLength
      let v ← value
      return (tp, len, [], v)
  | .oui _ _ _, value => do
      let tp ← uint8
      let len ← listLength
      let a ← uint8
      let b ← uint8
      let c ← uint8
      let v ← value
      return ([tp], len, [a, b, c], v)

variable {c c' : Cursor UInt8} {tag : Tag} {value : Decoder α} {v : α}

theorem word_length {k : Nat} {bs : Bytes} (h : word k c = .ok bs c') : bs.length = k := by
  simp only [word, copyBytes] at h
  split_ifs at h with heof hfit
  cases h
  simp
  omega

/-- An element is accepted exactly if its parts can be read and are the expected ones. -/
theorem get_some :
    tag.get value c = .ok (some v) c' ↔
      ∃ len, tag.parts value c = .ok (tag.typeBytes, len, tag.ouiBytes, v) c' ∧
        tag.ouiBytes.length ≤ len := by
  cases tag with
  | tlv type =>
    refine baseTlv_some.trans ⟨?_, ?_⟩
    · rintro ⟨s, len, s', htp, hlen, hv⟩
      refine ⟨len, ?_, Nat.zero_le _⟩
      simp only [parts, bind_ok]
      exact ⟨type, s, htp, len, s', hlen, v, c', hv, rfl⟩
    · simp only [parts, bind_ok]
      rintro ⟨len, ⟨tp, s, htp, len, s', hlen, v, c', hv, ⟨⟩⟩, -⟩
      exact ⟨s, len, s', htp, hlen, hv⟩
  | tlv4 type =>
    refine baseTlv_some.trans ⟨?_, ?_⟩
    · rintro ⟨s, len, s', htp, hlen, hv⟩
      obtain ⟨bs, hbs, htp⟩ := map_ok.mp htp
      have hbytes : bs = lengthBytes type.toNat 4 := by
        rw [← htp, ← word_length hbs, lengthBytes_bigEndian]
      refine ⟨len, ?_, Nat.zero_le _⟩
      simp only [parts, bind_ok]
      exact ⟨bs, s, hbs, len, s', hlen, v, c', hv, by rw [hbytes]; rfl⟩
    · simp only [parts, bind_ok]
      rintro ⟨len, ⟨tp, s, htp, len, s', hlen, v, c', hv, ⟨⟩⟩, -⟩
      have htype : bigEndian (lengthBytes type.toNat 4) = type.toNat := by
        rw [bigEndian_lengthBytes]
        exact Nat.mod_eq_of_lt type.toNat_lt
      exact ⟨s, len, s', map_ok.mpr ⟨_, htp, htype⟩, hlen, hv⟩
  | oui x y z =>
    refine getOui_some.trans ⟨?_, ?_⟩
    · rintro ⟨s, len, s₁, s₂, s₃, s₄, htp, hlen, hlong, hx, hy, hz, hv⟩
      refine ⟨len, ?_, hlong⟩
      simp only [parts, bind_ok]
      exact ⟨100, s, htp, len, s₁, hlen, x, s₂, hx, y, s₃, hy, z, s₄, hz, v, c', hv, rfl⟩
    · simp only [parts, bind_ok]
      rintro ⟨len, ⟨tp, s, htp, len, s₁, hlen, x, s₂, hx, y, s₃, hy, z, s₄, hz, v, c', hv, ⟨⟩⟩,
        hlong⟩
      exact ⟨s, len, s₁, s₂, s₃, s₄, htp, hlen, hlong, hx, hy, hz, hv⟩

/-- What the parts of an element are on the wire. -/
theorem parts_parses {P : Bytes → Prop} (h : Parses value fun _ => P)
    (tag : Tag) : Parses (tag.parts value) fun x enc => ∃ field body,
      enc = x.1 ++ (field ++ (x.2.2.1 ++ body)) ∧ IsLengthField x.2.1 field ∧ P body := by
  cases tag with
  | tlv type =>
    refine (uint8_parses.bind fun tp => listLength_parses.bind fun len =>
      h.bind fun v => Parses.pure _).mono ?_
    rintro _ _ ⟨tp, _, _, rfl, rfl, len, field, _, rfl, hfield, v, body, _, rfl, hbody, rfl, rfl⟩
    exact ⟨field, body, by simp, hfield, hbody⟩
  | tlv4 type =>
    refine ((word_parses 4).bind fun tp => listLength_parses.bind fun len =>
      h.bind fun v => Parses.pure _).mono ?_
    rintro _ _ ⟨tp, _, _, rfl, ⟨rfl, -⟩, len, field, _, rfl, hfield, v, body, _, rfl, hbody, rfl,
      rfl⟩
    exact ⟨field, body, by simp, hfield, hbody⟩
  | oui a b c =>
    refine (uint8_parses.bind fun tp => listLength_parses.bind fun len => uint8_parses.bind fun a =>
      uint8_parses.bind fun b => uint8_parses.bind fun c => h.bind fun v =>
      Parses.pure _).mono ?_
    rintro _ _ ⟨tp, _, _, rfl, rfl, len, field, _, rfl, hfield, a, _, _, rfl, rfl,
      b, _, _, rfl, rfl,
      c, _, _, rfl, rfl, v, body, _, rfl, hbody, rfl, rfl⟩
    exact ⟨field, body, by simp, hfield, hbody⟩

/-- The element at `pos` was decoded to `v` up to `stop`, and no byte outside it matters. -/
def Delimited (tag : Tag) (value : Decoder α) (buf : Bytes) (pos : Nat) (v : α)
    (c : Cursor UInt8) (stop : Nat) : Prop :=
  c.pos = stop ∧ ∀ buf' : Bytes, buf'.length = buf.length →
    (∀ i, pos ≤ i → i < stop → buf'[i]? = buf[i]?) →
    tag.get value ⟨buf', pos⟩ = .ok (some v) ⟨buf', stop⟩

end Tag

theorem listLength_lt {buf : Bytes} {pos : Nat}
    (h : listLength ⟨buf, pos⟩ = .ok len c) : pos < buf.length := by
  by_contra hpos
  have hnone : buf[pos]? = none := getElem?_eq_none (by omega)
  rw [listLength_cutOff (fun b hb => by rw [hnone] at hb; cases hb)] at h
  cases h

/-- The length field in front of some bytes is the one the decoder reads. -/
theorem listLength_unique (pre : Bytes) (post : Bytes)
    (hB : (pre ++ (field ++ post)).length < 2 ^ 32) (hfield : IsLengthField len field)
    (h : listLength ⟨pre ++ (field ++ post), pre.length⟩ = .ok len' c) :
    len' = len ∧ c.pos = pre.length + field.length := by
  obtain ⟨field', post', heq, rfl, hfield', -⟩ := listLength_parses pre _ _ _ hB h
  obtain rfl := IsLengthField.prefixFree ⟨len, hfield⟩ ⟨len', hfield'⟩ heq
  exact ⟨hfield'.unique hfield, rfl⟩

/-- When the declared length of an accepted element delimits its value: exactly if the bytes it
covers are one encoding of the value's type. -/
theorem tlv_delimited_iff (tag : Tag) (t : Ty) (old v : t.Val) (buf : Bytes) (pos len w : Nat)
    (c : Cursor UInt8) (hbuf : buf.length < 2 ^ 32)
    (hlen : listLength ⟨buf, pos + tag.typeBytes.length⟩ =
      .ok len ⟨buf, pos + tag.typeBytes.length + w⟩)
    (hok : tag.get (t.decode old) ⟨buf, pos⟩ = .ok (some v) c) :
    tag.Delimited (t.decode old) buf pos v c (pos + tag.typeBytes.length + w + len) ↔
      pos + tag.typeBytes.length + w + len ≤ buf.length ∧
      t.IsEncoding ((buf.drop (pos + tag.typeBytes.length + w + tag.ouiBytes.length)).take
        (len - tag.ouiBytes.length)) := by
  have hpos := listLength_lt hlen
  obtain ⟨pre, rest, rfl, rfl⟩ : ∃ pre rest, buf = pre ++ rest ∧ pos = pre.length :=
    ⟨buf.take pos, buf.drop pos, (take_append_drop _ _).symm, by simp; omega⟩
  obtain ⟨len', hparts, hlong⟩ := Tag.get_some.mp hok
  -- type, length field, what stands in front of the value, and bytes of the value format
  obtain ⟨_, post, rfl, rfl, ⟨field, body, rfl, hfield, hbody⟩, hlocal⟩ :=
    Tag.parts_parses (t.decode_parses old) tag pre rest _ c hbuf hparts
  have hfield' : len = len' ∧ w = field.length := by
    have hunique := listLength_unique (pre ++ tag.typeBytes)
      (tag.ouiBytes ++ body ++ post) (by simpa using hbuf) hfield (by simpa using hlen)
    exact ⟨hunique.1, by simpa using hunique.2⟩
  obtain ⟨rfl, rfl⟩ := hfield'
  -- the bytes behind the header, from which both the value and the declared length are counted
  have hdrop : (pre ++ (tag.typeBytes ++ (field ++ (tag.ouiBytes ++ body)) ++ post)).drop
      (pre.length + tag.typeBytes.length + field.length + tag.ouiBytes.length) = body ++ post := by
    have : pre ++ (tag.typeBytes ++ (field ++ (tag.ouiBytes ++ body)) ++ post) =
        (pre ++ tag.typeBytes ++ field ++ tag.ouiBytes) ++ (body ++ post) := by simp
    rw [this]
    exact drop_left' (by simp [Nat.add_assoc])
  rw [hdrop]
  constructor
  · rintro ⟨hstop, -⟩
    simp only [length_append] at hstop ⊢
    have hbodylen : len - tag.ouiBytes.length = body.length := by omega
    rw [hbodylen, take_left]
    exact ⟨by omega, hbody⟩
  · rintro ⟨hfits, henc⟩
    have heq := t.isEncoding_prefixFree henc hbody (take_append_drop _ (body ++ post))
    have hbodylen := congrArg length heq
    simp only [length_take, length_append] at hbodylen hfits
    have hstop : pre.length + (tag.typeBytes ++ (field ++ (tag.ouiBytes ++ body))).length =
        pre.length + tag.typeBytes.length + field.length + len := by
      simp only [length_append]
      omega
    refine ⟨hstop, fun buf' hsize hagree => ?_⟩
    rw [← hstop] at hagree ⊢
    obtain ⟨pre', post', rfl, hpre, hpost⟩ := exists_same_middle hsize hagree
    rw [← hpre]
    exact Tag.get_some.mpr ⟨len, hlocal pre' post' hpre hpost, hlong⟩

/-- A status element whose declared length is that of its value. -/
theorem tlv_delimited_status :
    (Tag.tlv 3).Delimited (Ty.decode (.uint .one) 0#8) [3, 1, 2, 5] 0 2#8 ⟨[3, 1, 2, 5], 3⟩ 3 :=
  (tlv_delimited_iff (.tlv 3) (.uint .one) 0#8 2#8 [3, 1, 2, 5] 0 1 1 ⟨[3, 1, 2, 5], 3⟩ (by decide)
    rfl rfl).2 ⟨by decide, rfl⟩

/-- A status element that declares five bytes is left after one, and one that declares none is read
beyond its end; both are accepted. -/
theorem tlv_not_delimited :
    (listLength ⟨[3, 5, 0, 9, 9, 9, 9, 4], 1⟩ = .ok 5 ⟨[3, 5, 0, 9, 9, 9, 9, 4], 2⟩ ∧
      (Tag.tlv 3).get (Ty.decode (.uint .one) 0#8) ⟨[3, 5, 0, 9, 9, 9, 9, 4], 0⟩ =
        .ok (some 0#8) ⟨[3, 5, 0, 9, 9, 9, 9, 4], 3⟩) ∧
    listLength ⟨[3, 0, 4, 1, 0], 1⟩ = .ok 0 ⟨[3, 0, 4, 1, 0], 2⟩ ∧
      (Tag.tlv 3).get (Ty.decode (.uint .one) 0#8) ⟨[3, 0, 4, 1, 0], 0⟩ =
        .ok (some 4#8) ⟨[3, 0, 4, 1, 0], 3⟩ :=
  ⟨⟨rfl, rfl⟩, rfl, rfl⟩

end Odtone.Wire
