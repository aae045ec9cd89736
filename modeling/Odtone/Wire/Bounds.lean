import Odtone.Wire.Message

/-! # Where length fields lead

What the length codec and the string decoder of `archive.cpp` do on *every* input, well formed or
not. A length field is described by its own bytes first (`fieldAt`), without reference to the
decoder; `listLength_eq` then says what the decoder makes of it in each case. Everything else is
read off from there: the range in which the length codec round-trips, and which buffers a string
decode, and the identifiers at the front of a frame, can be read from without leaving the buffer.

The source adds positions in 32-bit arithmetic, so a position behind a field is `uint (pos + w)`.
-/

namespace Odtone.Wire

open List Option

variable {buf : Bytes} {pos : Nat}

theorem uint_le (n : Nat) : uint n ≤ n := Nat.mod_le _ _

@[simp] theorem uint_add_left (m n : Nat) : uint (uint m + n) = uint (m + n) :=
  Nat.mod_add_mod _ _ _

/-! ## The value of a length field -/

/-- What `list_length` makes of the length bytes behind a marker byte. The shifts of the source
accumulate (0, 8, 16 and 24 bits), so three bytes land too high and the first two of four are lost;
five or more reach the undefined shift. -/
def declared : Bytes → Option Nat
  | [a] => some (a.toNat + 128)
  | [a, b] => some (a.toNat * 2 ^ 8 + b.toNat + 128)
  | [a, b, c] => some (a.toNat * 2 ^ 24 + b.toNat * 2 ^ 16 + c.toNat + 128)
  | [_, _, c, d] => some (c.toNat * 2 ^ 24 + d.toNat + 128)
  | _ => none

/-- The number of length bytes a marker byte announces. -/
def announced (b : UInt8) : Nat := b.toNat - 128

/-- The bytes `buf[pos], ..., buf[pos + n - 1]`. -/
def bytesAt (buf : Bytes) (pos : Nat) : Nat → Option Bytes
  | 0 => some []
  | n + 1 => do
      let b ← buf[uint pos]?
      let bs ← bytesAt buf (pos + 1) n
      return b :: bs

/-- The length field at `pos`: its width and the length it stands for. -/
def fieldAt (buf : Bytes) (pos : Nat) : Option (Nat × Nat) := do
  let b ← buf[pos]?
  if b.toNat ≤ 128 then return (1, b.toNat)
  let bs ← bytesAt buf (pos + 1) (announced b)
  let len ← declared bs
  return (1 + announced b, len)

/-- The buffer ends inside the length field at `pos`, or right behind a field of several bytes. -/
def CutOff (buf : Bytes) (pos : Nat) : Prop :=
  ∀ b, buf[pos]? = some b → 128 < b.toNat ∧ buf.length ≤ uint (pos + 1 + announced b)

/-- Behaviour the source leaves undefined. -/
def Error.Undefined (e : Error) : Prop := e = .shift ∨ e = .outOfBounds

/-! ### The decoding loop -/

/-- The value the loop of `iarchive::list_length` has after the bytes, from round `i` on. -/
def accumulate : Nat → Nat → Bytes → Nat
  | _, len, [] => len
  | i, len, b :: bs => accumulate (i + 1) (uint (len <<< (i * 8)) ||| b.toNat) bs

variable {n len : Nat} {bs : Bytes} {m : UInt8}

/-- Up to four rounds the loop reads the bytes at its position, if they exist. -/
theorem getLengthLoop_eq (buf : Bytes) (pos : Nat) (i len : Nat) (hi : i + n ≤ 4) :
    (∀ bs, bytesAt buf pos n = some bs →
      getLengthLoop n i len ⟨buf, uint pos⟩ = .ok (accumulate i len bs) ⟨buf, uint (pos + n)⟩) ∧
    (bytesAt buf pos n = none →
      ∃ p, getLengthLoop n i len ⟨buf, uint pos⟩ = .error .outOfBounds ⟨buf, p⟩) := by
  induction n generalizing i len pos with
  | zero => simp [bytesAt, getLengthLoop, accumulate]; rfl
  | succ n ih =>
    have hshift : ¬ 32 ≤ i * 8 := by omega
    cases hb : buf[uint pos]? with
    | none => simp [bytesAt, getLengthLoop, hshift, hb]
    | some b =>
      have ih := ih (pos + 1) (i + 1) (uint (len <<< (i * 8)) ||| b.toNat) (by omega)
      simp only [bytesAt, getLengthLoop, hshift, if_false, hb, uint_add_left]
      cases hbs : bytesAt buf (pos + 1) n with
      | none => simpa [hbs] using ih.2 hbs
      | some bs => simpa [hbs, accumulate, Nat.add_assoc, Nat.add_comm 1 n] using ih.1 bs hbs

theorem getLengthLoop_wide (buf : Bytes) (i len : Nat) (hi : i ≤ 4) (hn : 4 < i + n) (p : Nat) :
    ∃ e q, getLengthLoop n i len ⟨buf, p⟩ = .error e ⟨buf, q⟩ ∧ e.Undefined := by
  induction n generalizing i len p with
  | zero => omega
  | succ n ih =>
    by_cases hshift : 32 ≤ i * 8
    · exact ⟨.shift, p, by simp [getLengthLoop, hshift], .inl rfl⟩
    · cases hb : buf[p]? with
      | none => exact ⟨.outOfBounds, p, by simp [getLengthLoop, hshift, hb], .inr rfl⟩
      | some b =>
        simp only [getLengthLoop, hshift, if_false, hb]
        exact ih (i + 1) _ (by omega) (by omega) _

/-- One round of the loop: the high bits are lost, the byte fills the low ones. -/
theorem shift_or_byte (x : Nat) (b : UInt8) {k : Nat} (hk : 8 ≤ k) (hk' : k ≤ 32) :
    uint (x <<< k) ||| b.toNat = x % 2 ^ (32 - k) * 2 ^ k + b.toNat := by
  have hb : b.toNat < 2 ^ k := lt_of_lt_of_le b.toNat_lt (Nat.pow_le_pow_right (by decide) hk)
  have hx : uint (x <<< k) = (x % 2 ^ (32 - k)) <<< k := by
    rw [uint, Nat.shiftLeft_eq, Nat.shiftLeft_eq, ← Nat.mul_mod_mul_right, ← pow_add,
      Nat.sub_add_cancel hk']
  rw [hx, ← Nat.shiftLeft_add_eq_or_of_lt hb, Nat.shiftLeft_eq]

/-- The closed form of the loop for each of the four defined widths. -/
theorem declared_eq_accumulate (h : 0 < bs.length) (h' : bs.length ≤ 4) :
    declared bs = some (uint (accumulate 0 0 bs + 128)) := by
  have h0 : ∀ b : UInt8, uint (0 <<< (0 * 8)) ||| b.toNat = b.toNat := fun b => by simp [uint]
  have h1 (x) (b : UInt8) := shift_or_byte x b (k := (0 + 1) * 8) (by decide) (by decide)
  have h2 (x) (b : UInt8) := shift_or_byte x b (k := (0 + 1 + 1) * 8) (by decide) (by decide)
  have h3 (x) (b : UInt8) := shift_or_byte x b (k := (0 + 1 + 1 + 1) * 8) (by decide) (by decide)
  rcases bs with _ | ⟨a, _ | ⟨b, _ | ⟨c, _ | ⟨d, _ | ⟨_, _⟩⟩⟩⟩⟩
  · cases h
  · have ha := a.toNat_lt
    simp only [declared, accumulate, h0, some.injEq]
    unfold uint
    omega
  · have ha := a.toNat_lt
    have hb := b.toNat_lt
    simp only [declared, accumulate, h0, h1, some.injEq]
    unfold uint
    omega
  · have ha := a.toNat_lt
    have hb := b.toNat_lt
    have hc := c.toNat_lt
    simp only [declared, accumulate, h0, h1, h2, some.injEq]
    unfold uint
    omega
  · have hc := c.toNat_lt
    have hd := d.toNat_lt
    simp only [declared, accumulate, h0, h1, h2, h3, some.injEq]
    unfold uint
    omega
  · simp only [length_cons] at h'
    omega

/-! ### The decoder -/

variable {b : UInt8}

theorem announced_pos (h : 128 < b.toNat) : 0 < announced b := Nat.sub_pos_of_lt h

theorem toNat_and_marker (h : 128 < b.toNat) : (b &&& 0x7F).toNat = announced b := by
  have hb : b.toNat < 256 := b.toNat_lt
  have hand : (b &&& 0x7F).toNat = b.toNat &&& 127 := UInt8.toNat_and _ _
  have hmod : b.toNat &&& 127 = b.toNat % 128 := Nat.and_two_pow_sub_one_eq_mod b.toNat 7
  unfold announced
  omega

/-- A field that is cut off is refused, and the position stays. -/
theorem listLength_cutOff (h : CutOff buf pos) :
    listLength ⟨buf, pos⟩ = .error .eof ⟨buf, pos⟩ := by
  cases hb : buf[pos]? with
  | none => simp [listLength, Cursor.restoring, hb]
  | some b =>
    obtain ⟨hlong, hcut⟩ := h b hb
    simp [listLength, Cursor.restoring, hb, hlong, toNat_and_marker hlong, hcut]

/-- A complete field of several bytes is read by the loop. -/
theorem listLength_long (hb : buf[pos]? = some b) (hlong : 128 < b.toNat)
    (h : uint (pos + 1 + announced b) < buf.length) :
    listLength ⟨buf, pos⟩ = match getLengthLoop (announced b) 0 0 ⟨buf, uint (pos + 1)⟩ with
      | .ok len c => .ok (uint (len + 128)) c
      | .error e c => .error e { c with pos := pos } := by
  simp only [listLength, Cursor.restoring, hb, hlong, if_true, toNat_and_marker hlong,
    uint_add_left, Nat.not_le.mpr h, if_false]
  simp only [bind, EStateM.bind, pure, EStateM.pure]
  cases getLengthLoop (announced b) 0 0 ⟨buf, uint (pos + 1)⟩ with
  | ok | error => simp only

theorem bytesAt_length (h : bytesAt buf pos n = some bs) : bs.length = n := by
  induction n generalizing pos bs with
  | zero => simp_all [bytesAt]
  | succ n ih =>
    simp only [bytesAt, bind, bind_eq_some_iff, pure, some.injEq] at h
    obtain ⟨b, -, bs', hbs', rfl⟩ := h
    simp [ih hbs']

/-- What `list_length` returns for a complete field. -/
theorem listLength_of_field {w : Nat} (hcut : ¬ CutOff buf pos)
    (h : fieldAt buf pos = some (w, len)) :
    listLength ⟨buf, pos⟩ = .ok len ⟨buf, uint (pos + w)⟩ := by
  simp only [CutOff, not_forall] at hcut
  obtain ⟨b, hb, hcut⟩ := hcut
  by_cases hshort : b.toNat ≤ 128
  · simp only [fieldAt, hb, bind, bind_some, hshort, if_true, pure, some.injEq, Prod.mk.injEq] at h
    obtain ⟨rfl, rfl⟩ := h
    simp [listLength, Cursor.restoring, hb, Nat.not_lt.mpr hshort]
  · have hlong : 128 < b.toNat := Nat.lt_of_not_le hshort
    have hroom : uint (pos + 1 + announced b) < buf.length :=
      Nat.lt_of_not_le fun hle => hcut ⟨hlong, hle⟩
    simp only [fieldAt, hb, bind, bind_some, hshort, if_false, pure,
      bind_eq_some_iff, some.injEq, Prod.mk.injEq] at h
    obtain ⟨bs, hbs, len', hlen, rfl, rfl⟩ := h
    have hcount := bytesAt_length hbs
    have hle : bs.length ≤ 4 := by
      rcases bs with _ | ⟨_, _ | ⟨_, _ | ⟨_, _ | ⟨_, _ | ⟨_, _⟩⟩⟩⟩⟩ <;> simp [declared] at hlen ⊢
    have hpos : 0 < bs.length := hcount ▸ announced_pos hlong
    rw [declared_eq_accumulate hpos hle, some.injEq] at hlen
    rw [listLength_long hb hlong hroom, (getLengthLoop_eq buf (pos + 1) 0 0 (by omega)).1 bs hbs]
    simp only [hlen, Nat.add_assoc]

/-- A field that is neither cut off nor of a defined value is undefined behaviour. -/
theorem listLength_undefined (hcut : ¬ CutOff buf pos) (h : fieldAt buf pos = none) :
    ∃ e, listLength ⟨buf, pos⟩ = .error e ⟨buf, pos⟩ ∧ e.Undefined := by
  simp only [CutOff, not_forall] at hcut
  obtain ⟨b, hb, hcut⟩ := hcut
  by_cases hshort : b.toNat ≤ 128
  · simp [fieldAt, hb, hshort] at h
  · have hlong : 128 < b.toNat := Nat.lt_of_not_le hshort
    have hroom : uint (pos + 1 + announced b) < buf.length :=
      Nat.lt_of_not_le fun hle => hcut ⟨hlong, hle⟩
    rw [listLength_long hb hlong hroom]
    by_cases hwide : 4 < announced b
    · obtain ⟨e, q, he, hu⟩ := getLengthLoop_wide buf 0 0 (by decide)
        (by omega : 4 < 0 + announced b) (uint (pos + 1))
      exact ⟨e, by rw [he], hu⟩
    · have hloop := getLengthLoop_eq buf (pos + 1) 0 0 (by omega : 0 + announced b ≤ 4)
      cases hbs : bytesAt buf (pos + 1) (announced b) with
      | none =>
        obtain ⟨q, hq⟩ := hloop.2 hbs
        exact ⟨.outOfBounds, by rw [hq], .inr rfl⟩
      | some bs =>
        have hcount := bytesAt_length hbs
        have hpos : 0 < bs.length := hcount ▸ announced_pos hlong
        have hval := declared_eq_accumulate hpos (by omega)
        simp [fieldAt, hb, hshort, hbs, hval] at h

/-! ## The length codec -/

theorem bytesAt_append (pre bs rest : Bytes) (h : pre.length + bs.length ≤ 2 ^ 32) :
    bytesAt (pre ++ (bs ++ rest)) pre.length bs.length = some bs := by
  induction bs generalizing pre with
  | nil => rfl
  | cons b bs ih =>
    simp only [length_cons] at h
    have hb : (pre ++ b :: (bs ++ rest))[uint pre.length]? = some b := by
      rw [uint_of_lt (by omega)]
      exact getElem?_join pre _ b
    have ih := ih (pre ++ [b]) (by simp; omega)
    simp only [length_append, length_singleton, append_assoc, singleton_append] at ih
    simp [bytesAt, hb, ih]

/-- A marker byte and the length bytes it announces, at the front of a buffer. -/
theorem fieldAt_marker (rest : Bytes) (hm : m.toNat = 128 + bs.length) (h : 0 < bs.length) :
    fieldAt (m :: (bs ++ rest)) 0 = (declared bs).map fun len => (1 + bs.length, len) := by
  have hlt := m.toNat_lt
  have hann : announced m = bs.length := by unfold announced; omega
  have hbs : bytesAt (m :: (bs ++ rest)) (0 + 1) bs.length = some bs :=
    bytesAt_append [m] bs rest (by simp; omega)
  have hlong : ¬ m.toNat ≤ 128 := by omega
  simp only [fieldAt, getElem?_cons_zero, bind, bind_some, hlong, if_false, hann, hbs, pure]
  cases declared bs <;> rfl

/-- What the decoder returns for such a field when something follows it. -/
theorem listLength_marker (bs : Bytes) (b : UInt8) (rest : Bytes)
    (hm : m.toNat = 128 + bs.length) (h : 0 < bs.length) (hlen : declared bs = some len) :
    listLength ⟨m :: (bs ++ b :: rest), 0⟩ = .ok len ⟨m :: (bs ++ b :: rest), 1 + bs.length⟩ := by
  have hlt := m.toNat_lt
  have hcut : ¬ CutOff (m :: (bs ++ b :: rest)) 0 := by
    intro hcut
    have hle := (hcut m rfl).2
    have hann : announced m = bs.length := by unfold announced; omega
    rw [hann, uint_of_lt (by omega)] at hle
    simp at hle
    omega
  have hfield := fieldAt_marker (b :: rest) hm h
  rw [hlen] at hfield
  rw [listLength_of_field hcut hfield, uint_of_lt (by omega), Nat.zero_add]

/-- Three length bytes are written for the range above two. -/
theorem putListLength_three (h : 128 + 2 ^ 16 ≤ len) (h' : len < 128 + 2 ^ 24) :
    putListLength len = .ok [0x83, UInt8.ofNat ((len - 128) / 2 ^ 16),
      UInt8.ofNat ((len - 128) / 2 ^ 8), UInt8.ofNat (len - 128)] := by
  have h₁ : (len - 128) >>> 8 ≠ 0 := by rw [Nat.shiftRight_eq_div_pow]; omega
  have h₂ : (len - 128) >>> 16 ≠ 0 := by rw [Nat.shiftRight_eq_div_pow]; omega
  have h₃ : (len - 128) >>> 24 = 0 := by rw [Nat.shiftRight_eq_div_pow]; omega
  have ho : lengthOctets (len - 128) 4 0 = .ok 3 := by simp [lengthOctets, h₁, h₂, h₃]
  rw [putListLength, if_neg (by omega), ho]
  simp only [lengthBytes, bind, Except.bind, pure, Except.pure, Nat.shiftRight_eq_div_pow,
    show (0x80 : UInt8) ||| UInt8.ofNat 3 = 0x83 by decide]
  simp

/-- The loop of the encoder never ends with a fourth length byte: the shift that would end it is
as wide as the value. -/
theorem putListLength_four (h : 128 + 2 ^ 24 ≤ len) : putListLength len = .error .shift := by
  have h₁ : (len - 128) >>> 8 ≠ 0 := by rw [Nat.shiftRight_eq_div_pow]; omega
  have h₂ : (len - 128) >>> 16 ≠ 0 := by rw [Nat.shiftRight_eq_div_pow]; omega
  have h₃ : (len - 128) >>> 24 ≠ 0 := by rw [Nat.shiftRight_eq_div_pow]; omega
  have ho : lengthOctets (len - 128) 4 0 = .error .shift := by simp [lengthOctets, h₁, h₂, h₃]
  rw [putListLength, if_neg (by omega), ho]
  rfl

/-- Writing a length with at most two length bytes and reading it back. -/
theorem listLength_lengthField (h : len < 128 + 2 ^ 16) (b : UInt8) (rest : Bytes) :
    listLength ⟨lengthField len ++ b :: rest, 0⟩ =
      .ok len ⟨lengthField len ++ b :: rest, (lengthField len).length⟩ := by
  unfold lengthField
  split_ifs with h₁ h₂
  · simp [listLength, Cursor.restoring, toNat_ofNat_byte (show len < 256 by omega),
      Nat.not_lt.mpr h₁, uint]
  · refine listLength_marker [_] _ _ rfl Nat.one_pos ?_
    rw [declared, toNat_ofNat_byte h₂, Nat.sub_add_cancel (by omega)]
  · refine listLength_marker [_, _] _ _ rfl Nat.two_pos ?_
    rw [declared, toNat_ofNat_byte (by omega), UInt8.toNat_ofNat', some.injEq]
    omega

/-- The length codec on all 32-bit lengths: the field can be written and is read back, and the
decoder stops right behind it, exactly for the lengths with at most two length bytes. -/
theorem listLength_codec_iff (len : UInt32) :
    (∃ field, putListLength len.toNat = .ok field ∧ ∀ b rest,
      listLength ⟨field ++ b :: rest, 0⟩ = .ok len.toNat ⟨field ++ b :: rest, field.length⟩) ↔
    len.toNat < 128 + 2 ^ 16 := by
  constructor
  · rintro ⟨field, hput, hget⟩
    by_contra hlen
    by_cases hfour : 128 + 2 ^ 24 ≤ len.toNat
    · rw [putListLength_four hfour] at hput
      cases hput
    · -- the decoder moves the leading byte up to bit 24, beyond the length that was written
      rw [putListLength_three (by omega) (by omega), Except.ok.injEq] at hput
      subst hput
      have hthree := listLength_marker (m := 0x83) [UInt8.ofNat ((len.toNat - 128) / 2 ^ 16),
        UInt8.ofNat ((len.toNat - 128) / 2 ^ 8), UInt8.ofNat (len.toNat - 128)] 0
        [] rfl (by simp) rfl
      have hval := hthree.symm.trans (hget 0 [])
      simp only [EStateM.Result.ok.injEq] at hval
      rw [toNat_ofNat_byte (by omega)] at hval
      omega
  · intro hlen
    exact ⟨lengthField len.toNat, putListLength_eq hlen, listLength_lengthField hlen⟩

/-- The first length the codec gets wrong is read back as `2 ^ 24 + 128`. -/
theorem listLength_codec_65664 :
    putListLength 65664 = .ok [0x83, 1, 0, 0] ∧
    listLength ⟨[0x83, 1, 0, 0] ++ [0], 0⟩ = .ok 16777344 ⟨[0x83, 1, 0, 0, 0], 4⟩ :=
  ⟨rfl, rfl⟩

/-! ## String decodes

The check of the source compares the start of the length field plus the length with the size of the
buffer. That is the right check for fields of one byte only; behind a wider field the string may
end up to four bytes behind the buffer although the check passed. -/

/-- A string decode at `pos` is refused or has its bytes inside the buffer: its length field is cut
off; or the field has a defined value and the string reaches the end of the buffer when measured
from the start of the field, or fits the buffer when measured from its end. -/
def StringFits (buf : Bytes) (pos : Nat) : Prop :=
  CutOff buf pos ∨ ∃ w len, fieldAt buf pos = some (w, len) ∧
    (buf.length ≤ uint (pos + len) ∨ uint (pos + w) + len ≤ buf.length)

/-- A string decode at `pos` throws `iarchive_eof_error` and leaves the position, or reads inside
the buffer only (anything else is the error `outOfBounds`) and stops at most at its end. -/
def StringInside (buf : Bytes) (pos : Nat) : Prop :=
  octetString ⟨buf, pos⟩ = .error .eof ⟨buf, pos⟩ ∨
    ∃ val p, octetString ⟨buf, pos⟩ = .ok val ⟨buf, p⟩ ∧ p ≤ buf.length

theorem octetString_of_length_error {e : Error} (h : listLength ⟨buf, pos⟩ = .error e ⟨buf, pos⟩) :
    octetString ⟨buf, pos⟩ = .error e ⟨buf, pos⟩ := by
  simp [octetString, Cursor.restoring, bind, EStateM.bind, h]

/-- The three outcomes of a string decode behind a complete length field. -/
theorem octetString_of_length {w len : Nat}
    (h : listLength ⟨buf, pos⟩ = .ok len ⟨buf, uint (pos + w)⟩) :
    octetString ⟨buf, pos⟩ = if buf.length ≤ uint (pos + len) then .error .eof ⟨buf, pos⟩
      else if uint (pos + w) + len ≤ buf.length then
        .ok ((buf.drop (uint (pos + w))).take len) ⟨buf, uint (pos + w + len)⟩
      else .error .outOfBounds ⟨buf, pos⟩ := by
  simp only [octetString, Cursor.restoring, bind, EStateM.bind, h]
  split_ifs with heof hfits
  · rfl
  all_goals simp [copyBytes, hfits]

/-- Where the bytes of a decoded string stood. -/
theorem octetString_ok {val : Bytes} {c : Cursor UInt8} (h : octetString ⟨buf, pos⟩ = .ok val c) :
    ¬ CutOff buf pos ∧ ∃ w len, fieldAt buf pos = some (w, len) ∧
      uint (pos + w) + len ≤ buf.length ∧ val = (buf.drop (uint (pos + w))).take len ∧
      c = ⟨buf, uint (pos + w + len)⟩ := by
  by_cases hcut : CutOff buf pos
  · rw [octetString_of_length_error (listLength_cutOff hcut)] at h
    cases h
  refine ⟨hcut, ?_⟩
  cases hf : fieldAt buf pos with
  | none =>
    obtain ⟨e, he, -⟩ := listLength_undefined hcut hf
    rw [octetString_of_length_error he] at h
    cases h
  | some field =>
    obtain ⟨w, len⟩ := field
    rw [octetString_of_length (listLength_of_field hcut hf)] at h
    split_ifs at h with heof hfits
    cases h
    exact ⟨w, len, rfl, hfits, rfl, rfl⟩

theorem stringInside_of_fits (h : StringFits buf pos) : StringInside buf pos := by
  by_cases hcut : CutOff buf pos
  · exact .inl (octetString_of_length_error (listLength_cutOff hcut))
  obtain ⟨w, len, hf, h⟩ := h.resolve_left hcut
  have hstring := octetString_of_length (listLength_of_field hcut hf)
  by_cases heof : buf.length ≤ uint (pos + len)
  · exact .inl (by rw [hstring, if_pos heof])
  · have hfit := h.resolve_left heof
    rw [if_neg heof, if_pos hfit] at hstring
    refine .inr ⟨_, _, hstring, ?_⟩
    rw [← uint_add_left]
    exact (uint_le _).trans hfit

theorem octetString_undefined (h : ¬ StringFits buf pos) :
    ∃ e, octetString ⟨buf, pos⟩ = .error e ⟨buf, pos⟩ ∧ e.Undefined := by
  rw [StringFits, not_or] at h
  obtain ⟨hcut, h⟩ := h
  cases hf : fieldAt buf pos with
  | none =>
    obtain ⟨e, he, hu⟩ := listLength_undefined hcut hf
    exact ⟨e, octetString_of_length_error he, hu⟩
  | some field =>
    obtain ⟨w, len⟩ := field
    have hno : ¬ (buf.length ≤ uint (pos + len) ∨ uint (pos + w) + len ≤ buf.length) :=
      fun h' => h ⟨w, len, hf, h'⟩
    rw [not_or] at hno
    refine ⟨.outOfBounds, ?_, .inr rfl⟩
    rw [octetString_of_length (listLength_of_field hcut hf), if_neg hno.1, if_neg hno.2]

theorem stringInside_iff (buf : Bytes) (pos : Nat) : StringInside buf pos ↔ StringFits buf pos := by
  refine ⟨fun h => ?_, stringInside_of_fits⟩
  by_contra hno
  obtain ⟨e, he, hu⟩ := octetString_undefined hno
  rcases h with h | ⟨val, p, h, -⟩
  · rw [he] at h
    cases h
    rcases hu with hu | hu <;> cases hu
  · rw [he] at h
    cases h

/-! ## The identifiers of a frame -/

/-- The identifier element at `pos`, if one stands there, keeps to the buffer: its declared length
is cut off or defined, and then the string behind it fits. -/
def IdFits (type : UInt8) (buf : Bytes) (pos : Nat) : Prop :=
  buf[pos]? = some type → CutOff buf (pos + 1) ∨
    ∃ w len, fieldAt buf (pos + 1) = some (w, len) ∧ StringFits buf (pos + 1 + w)

/-- A complete identifier element stands at `pos` and ends at `stop`. -/
def IdSpans (type : UInt8) (buf : Bytes) (pos stop : Nat) : Prop :=
  buf[pos]? = some type ∧ ¬ CutOff buf (pos + 1) ∧ ∃ w len, fieldAt buf (pos + 1) = some (w, len) ∧
    ¬ CutOff buf (pos + 1 + w) ∧ ∃ w' len', fieldAt buf (pos + 1 + w) = some (w', len') ∧
      pos + 1 + w + w' + len' = stop ∧ stop ≤ buf.length

section Identifiers

variable {type : UInt8} {stop : Nat}

theorem uint8_of_get (hbuf : buf.length < 2 ^ 32) (h : buf[pos]? = some b) :
    uint8 ⟨buf, pos⟩ = .ok b ⟨buf, pos + 1⟩ := by
  have hpos : pos < buf.length := (List.getElem?_eq_some_iff.mp h).1
  have huint : uint (pos + 1) = pos + 1 := uint_of_lt (by omega)
  simp [uint8, huint, h, show ¬ buf.length < pos + 1 by omega]

theorem uint8_eof (hbuf : buf.length + 1 < 2 ^ 32) :
    uint8 ⟨buf, buf.length⟩ = .error .eof ⟨buf, buf.length⟩ := by
  simp [uint8, uint_of_lt hbuf]

variable {α : Type} {value : Decoder α} {w len : Nat} {e : Error} {fm : Frame}

theorem tlv_eof (hbuf : buf.length + 1 < 2 ^ 32) :
    tlv type value ⟨buf, buf.length⟩ = .error .eof ⟨buf, buf.length⟩ := by
  simp only [tlv, getTlv, bind, EStateM.bind, baseTlv_error (uint8_eof hbuf)]

theorem tlv_other (hbuf : buf.length < 2 ^ 32) (h : buf[pos]? = some b) (hb : b ≠ type) :
    tlv type value ⟨buf, pos⟩ = .error .badTlv ⟨buf, pos⟩ := by
  simp only [tlv, getTlv, bind, EStateM.bind, baseTlv_other (uint8_of_get hbuf h) hb]
  rfl

theorem tlv_of_length_error (hbuf : buf.length < 2 ^ 32) (htype : buf[pos]? = some type)
    (h : listLength ⟨buf, pos + 1⟩ = .error e ⟨buf, pos + 1⟩) :
    tlv type octetString ⟨buf, pos⟩ = .error e ⟨buf, pos⟩ := by
  simp only [tlv, getTlv, bind, EStateM.bind, baseTlv_same (uint8_of_get hbuf htype), h]

section

variable (hbuf : buf.length + 128 < 2 ^ 32)
include hbuf

/-- A complete field ends inside the buffer. -/
theorem field_end_le (hcut : ¬ CutOff buf pos) (h : fieldAt buf pos = some (w, len)) :
    0 < w ∧ pos + w ≤ buf.length := by
  simp only [CutOff, not_forall] at hcut
  obtain ⟨b, hb, hcut⟩ := hcut
  have hpos : pos < buf.length := (List.getElem?_eq_some_iff.mp hb).1
  have hann : announced b < 128 := by have := b.toNat_lt; unfold announced; omega
  by_cases hshort : b.toNat ≤ 128
  · simp only [fieldAt, hb, bind, bind_some, hshort, if_true, pure, some.injEq, Prod.mk.injEq] at h
    omega
  · simp only [fieldAt, hb, bind, bind_some, hshort, if_false, pure,
      bind_eq_some_iff, some.injEq, Prod.mk.injEq] at h
    obtain ⟨-, -, -, -, rfl, -⟩ := h
    rw [not_and, Nat.not_le, uint_of_lt (by omega)] at hcut
    omega

/-- The declared length of an identifier element is read, then its string. -/
theorem tlv_of_field (htype : buf[pos]? = some type) (hcut : ¬ CutOff buf (pos + 1))
    (hf : fieldAt buf (pos + 1) = some (w, len)) :
    tlv type octetString ⟨buf, pos⟩ = match octetString ⟨buf, pos + 1 + w⟩ with
      | .error e c => .error e { c with pos := pos }
      | .ok val c => .ok val c := by
  have hw := field_end_le hbuf hcut hf
  have hlen := listLength_of_field hcut hf
  rw [uint_of_lt (by omega)] at hlen
  have htp := uint8_of_get (by omega : buf.length < 2 ^ 32) htype
  simp only [tlv, getTlv, bind, EStateM.bind, baseTlv_same htp, hlen]
  cases octetString ⟨buf, pos + 1 + w⟩ <;> rfl

/-- A complete identifier element is read to its end. -/
theorem tlv_of_idSpans (h : IdSpans type buf pos stop) :
    ∃ val, tlv type octetString ⟨buf, pos⟩ = .ok val ⟨buf, stop⟩ := by
  obtain ⟨htype, hcut, w, len, hf, hcut', w', len', hf', rfl, hstop⟩ := h
  have hw' := field_end_le hbuf hcut' hf'
  have hstring := octetString_of_length (listLength_of_field hcut' hf')
  rw [uint_of_lt (by omega), uint_of_lt (by omega), uint_of_lt (by omega), if_neg (by omega),
    if_pos hstop] at hstring
  exact ⟨_, by rw [tlv_of_field hbuf htype hcut hf, hstring]⟩

/-- An element that fits but does not span is refused. -/
theorem tlv_refused (hpos : pos ≤ buf.length) (hfit : IdFits type buf pos)
    (hspan : ∀ stop, ¬ IdSpans type buf pos stop) :
    ∃ e, tlv type octetString ⟨buf, pos⟩ = .error e ⟨buf, pos⟩ ∧ (e = .eof ∨ e = .badTlv) := by
  rcases Nat.eq_or_lt_of_le hpos with rfl | hlt
  · exact ⟨.eof, tlv_eof (by omega), .inl rfl⟩
  obtain ⟨b, hb⟩ : ∃ b, buf[pos]? = some b := ⟨_, getElem?_eq_getElem hlt⟩
  by_cases htype : b = type
  · subst htype
    rcases hfit hb with hcut | ⟨w, len, hf, hstring⟩
    · exact ⟨.eof, tlv_of_length_error (by omega) hb (listLength_cutOff hcut), .inl rfl⟩
    · by_cases hcut : CutOff buf (pos + 1)
      · exact ⟨.eof, tlv_of_length_error (by omega) hb (listLength_cutOff hcut), .inl rfl⟩
      rcases stringInside_of_fits hstring with heof | ⟨val, p, hok, hp⟩
      · exact ⟨.eof, by rw [tlv_of_field hbuf hb hcut hf, heof], .inl rfl⟩
      · obtain ⟨hcut', w', len', hf', hle, -, -⟩ := octetString_ok hok
        have hw' := field_end_le hbuf hcut' hf'
        rw [uint_of_lt (by omega)] at hle
        exact absurd ⟨hb, hcut, w, len, hf, hcut', w', len', hf', rfl, hle⟩ (hspan _)
  · exact ⟨.badTlv, tlv_other (by omega) hb htype, .inr rfl⟩

/-- An element that does not fit runs into undefined behaviour. -/
theorem tlv_undefined (hfit : ¬ IdFits type buf pos) :
    ∃ e c, tlv type octetString ⟨buf, pos⟩ = .error e c ∧ e.Undefined := by
  rw [IdFits, Classical.not_imp, not_or] at hfit
  obtain ⟨htype, hcut, hstring⟩ := hfit
  cases hf : fieldAt buf (pos + 1) with
  | none =>
    obtain ⟨e, he, hu⟩ := listLength_undefined hcut hf
    exact ⟨e, _, tlv_of_length_error (by omega) htype he, hu⟩
  | some field =>
    obtain ⟨w, len⟩ := field
    have hno : ¬ StringFits buf (pos + 1 + w) := fun h => hstring ⟨w, len, hf, h⟩
    obtain ⟨e, he, hu⟩ := octetString_undefined hno
    exact ⟨e, _, by rw [tlv_of_field hbuf htype hcut hf, he], hu⟩

end

/-- The source identifier fits, and if it is complete the destination identifier behind it. -/
def IdsFit (buf : Bytes) : Prop :=
  IdFits 1 buf 0 ∧ ∀ stop, IdSpans 1 buf 0 stop → IdFits 2 buf stop

/-- Building a message from the frame: the only failures are the two exceptions of the decoder, and
the service TLVs are taken from a position inside the payload. -/
def IdsInside (fm : Frame) : Prop :=
  (∀ e, Message.ofFrame fm = .error e → e = .eof ∨ e = .badTlv) ∧
  ∀ ids c, Message.decodeIds ⟨fm.payload.take fm.plength.toNat, 0⟩ = .ok ids c →
    c.pos ≤ fm.plength.toNat

theorem ofFrame_error :
    Message.ofFrame fm = .error e ↔
      ∃ c, Message.decodeIds ⟨fm.payload.take fm.plength.toNat, 0⟩ = .error e c := by
  simp only [Message.ofFrame]
  cases Message.decodeIds ⟨fm.payload.take fm.plength.toNat, 0⟩ with
  | error | ok => simp

/-- Reading the identifiers, from the reading of each. -/
theorem decodeIds_eq :
    Message.decodeIds ⟨buf, 0⟩ = match tlv 1 octetString ⟨buf, 0⟩ with
      | .error e c => .error e c
      | .ok src c => match tlv 2 octetString c with
        | .error e c' => .error e c'
        | .ok dst c' => .ok (src, dst) c' := by
  simp only [Message.decodeIds, tlvSourceId, tlvDestinationId, bind, EStateM.bind]
  cases tlv 1 octetString ⟨buf, 0⟩ with
  | error e c => rfl
  | ok src c =>
    dsimp only
    cases tlv 2 octetString c <;> rfl

theorem idsInside_of_fit (h : IdsFit (fm.payload.take fm.plength.toNat)) : IdsInside fm := by
  have hlen : (fm.payload.take fm.plength.toNat).length ≤ fm.plength.toNat := length_take_le _ _
  have hlt : fm.plength.toNat < 2 ^ 16 := fm.plength.toNat_lt
  simp only [IdsInside, ofFrame_error, decodeIds_eq]
  generalize fm.payload.take fm.plength.toNat = ar at h hlen
  obtain ⟨hsrc, hdst⟩ := h
  by_cases hspan : ∃ stop, IdSpans 1 ar 0 stop
  · obtain ⟨stop, hspan⟩ := hspan
    obtain ⟨src, hsrc⟩ := tlv_of_idSpans (by omega) hspan
    have hstop : stop ≤ ar.length := by
      obtain ⟨-, -, -, -, -, -, -, -, -, -, h⟩ := hspan
      exact h
    by_cases hspan' : ∃ stop', IdSpans 2 ar stop stop'
    · obtain ⟨stop', hspan'⟩ := hspan'
      obtain ⟨dst, hdst⟩ := tlv_of_idSpans (by omega) hspan'
      have hstop' : stop' ≤ ar.length := by
        obtain ⟨-, -, -, -, -, -, -, -, -, -, h⟩ := hspan'
        exact h
      rw [hsrc]
      simp only [hdst]
      exact ⟨by simp, by rintro _ _ ⟨⟩; exact hstop'.trans hlen⟩
    · obtain ⟨e, he, hkind⟩ := tlv_refused (by omega) hstop (hdst stop hspan) (not_exists.mp hspan')
      rw [hsrc]
      simp only [he]
      exact ⟨by rintro _ ⟨_, ⟨⟩⟩; exact hkind, by simp⟩
  · obtain ⟨e, he, hkind⟩ := tlv_refused (by omega) (Nat.zero_le _) hsrc (not_exists.mp hspan)
    rw [he]
    exact ⟨by rintro _ ⟨_, ⟨⟩⟩; exact hkind, by simp⟩

theorem ofFrame_undefined (h : ¬ IdsFit (fm.payload.take fm.plength.toNat)) :
    ∃ e, Message.ofFrame fm = .error e ∧ e.Undefined := by
  have hlen : (fm.payload.take fm.plength.toNat).length ≤ fm.plength.toNat := length_take_le _ _
  have hlt : fm.plength.toNat < 2 ^ 16 := fm.plength.toNat_lt
  simp only [ofFrame_error, decodeIds_eq]
  generalize fm.payload.take fm.plength.toNat = ar at h hlen
  by_cases hsrc : IdFits 1 ar 0
  · have hdst : ∃ stop, IdSpans 1 ar 0 stop ∧ ¬ IdFits 2 ar stop := by
      simpa [IdsFit, hsrc] using h
    obtain ⟨stop, hspan, hdst⟩ := hdst
    obtain ⟨src, hsrc⟩ := tlv_of_idSpans (by omega) hspan
    obtain ⟨e, c, he, hu⟩ := tlv_undefined (by omega) hdst
    exact ⟨e, ⟨c, by rw [hsrc]; simp only [he]⟩, hu⟩
  · obtain ⟨e, c, he, hu⟩ := tlv_undefined (by omega) hsrc
    exact ⟨e, ⟨c, by rw [he]⟩, hu⟩

end Identifiers

/-- Decoding stays inside the buffer: a string decode at any position of any buffer, and the
identifiers at the front of any frame, exactly under the conditions above on their length fields. -/
theorem decoding_inside_iff (buf : Bytes) (pos : UInt32) (fm : Frame) :
    (StringInside buf pos.toNat ↔ StringFits buf pos.toNat) ∧
    (IdsInside fm ↔ IdsFit (fm.payload.take fm.plength.toNat)) := by
  refine ⟨stringInside_iff buf pos.toNat, fun h => ?_, idsInside_of_fit⟩
  by_contra hno
  obtain ⟨e, he, hu⟩ := ofFrame_undefined hno
  rcases h.1 e he with rfl | rfl <;> rcases hu with hu | hu <;> cases hu

set_option maxRecDepth 4000 in
/-- A length field of two bytes and a string one byte longer than what is left of the buffer, on
its own and as the source identifier of a received frame. -/
theorem octetString_leaves_buffer :
    octetString ⟨0x81 :: 0x01 :: replicate 128 0, 0⟩ =
      .error .outOfBounds ⟨0x81 :: 0x01 :: replicate 128 0, 0⟩ ∧
    ((Frame.cast ([0x10, 0, 0x14, 0x01, 0, 9, 0, 133, 1, 0x81, 0x02, 0x81, 0x01] ++
      replicate 128 0)).map Message.ofFrame) = some (.error .outOfBounds) :=
  ⟨rfl, rfl⟩

end Odtone.Wire
