import Odtone.Support.Cursor
import Mathlib.Data.Nat.Bitwise
import Mathlib.Tactic.Ring
import Mathlib.Tactic.Positivity

/-! # Archives

The byte archives of `lib/odtone/mih/archive.cpp`. An input archive is a cursor over bytes whose
position is a 32-bit `uint`; every sum the source forms in `uint` is taken modulo `2^32` here. An
output archive always writes at the end of its buffer (each write resizes the buffer to the new
position), so an encoder is the list of bytes it appends.

## Undefined behaviour

The length decoder and encoder shift a 32-bit value by a multiple of eight that can reach 32, and
the string decoder compares the *start* of the length field plus the length with the buffer size,
so a copy may run past the end of the buffer. Both are undefined in the source. They are modelled
as the errors `shift` and `outOfBounds`, which no `catch` of the source sees.
-/

namespace Odtone.Wire

open List

/-- What an archive operation can fail with. -/
inductive Error where
  /-- `iarchive_eof_error` -/
  | eof
  /-- `bad_tlv` -/
  | badTlv
  /-- `bad_truncate_cast` -/
  | badTruncateCast
  /-- a shift by at least the width of the operand: undefined -/
  | shift
  /-- an access behind the end of the buffer: undefined -/
  | outOfBounds
deriving DecidableEq

abbrev Bytes := List UInt8

/-- `uint` arithmetic. -/
def uint (n : Nat) : Nat := n % 2 ^ 32

variable {n len v : Nat} {bs val : Bytes} {P : Bytes → Prop}

theorem uint_of_lt (h : n < 2 ^ 32) : uint n = n := Nat.mod_eq_of_lt h

/-- An input archive in use. -/
abbrev Decoder (α : Type) := Cursor.Reader Error UInt8 α

/-- Specification of a decoder on words whose end fits `uint`. -/
abbrev Reads {α : Type} (d : Decoder α) (P : Bytes → Prop) (enc : Bytes) (a : α) : Prop :=
  Cursor.Reads (2 ^ 32) d P enc a

/-! ## Length fields -/

/-- The loop `do ++n; while (len >> (n * 8));` of `oarchive::list_length`, entered with `n`. The
first argument bounds the rounds; four of them reach the undefined shift. -/
def lengthOctets (len : Nat) : Nat → Nat → Except Error Nat
  | 0, _ => .error .shift
  | fuel + 1, n =>
    if 32 ≤ (n + 1) * 8 then .error .shift
    else if len >>> ((n + 1) * 8) ≠ 0 then lengthOctets len fuel (n + 1)
    else .ok (n + 1)

/-- The loop `while (n--) _buf[pos++] = (len >> (n * 8)) & 0xFF;` of `oarchive::list_length`. -/
def lengthBytes (len : Nat) : Nat → Bytes
  | 0 => []
  | n + 1 => UInt8.ofNat (len >>> (n * 8)) :: lengthBytes len n

/-- `oarchive::list_length(len)` -/
def putListLength (len : Nat) : Except Error Bytes :=
  if len ≤ 128 then .ok [UInt8.ofNat len]
  else do
    let n ← lengthOctets (len - 128) 4 0
    return (0x80 ||| UInt8.ofNat n) :: lengthBytes (len - 128) n

/-- The loop `for (i = 0; i < n; ++i) len = (len << (i * 8)) | _buf[pos++];` of
`iarchive::list_length`: `k` rounds are left and `i` are done. -/
def getLengthLoop : Nat → Nat → Nat → Decoder Nat
  | 0, _, len => pure len
  | k + 1, i, len => fun c =>
    if 32 ≤ i * 8 then .error .shift c
    else match c.buf[c.pos]? with
      | none => .error .outOfBounds c
      | some b => getLengthLoop k (i + 1) (uint (len <<< (i * 8)) ||| b.toNat)
          { c with pos := uint (c.pos + 1) }

/-- `iarchive::list_length()`. It works on a copy of the position and stores it only at the end, so
a failure leaves the archive where it was. -/
def listLength : Decoder Nat := Cursor.restoring fun c =>
  match c.buf[c.pos]? with
  | none => .error .eof c
  | some n =>
    let c := { c with pos := uint (c.pos + 1) }
    if 128 < n.toNat then
      let n := (n &&& 0x7F).toNat
      if c.buf.length ≤ uint (c.pos + n) then .error .eof c
      else (do
        let len ← getLengthLoop n 0 0
        return uint (len + 128) : Decoder Nat) c
    else .ok n.toNat c

/-! ## Byte strings -/

/-- Copy `len` bytes from the position on: `std::copy(_buf.begin() + _pos, ...)`. -/
def copyBytes (len : Nat) : Decoder Bytes := fun c =>
  if c.pos + len ≤ c.buf.length then
    .ok ((c.buf.drop c.pos).take len) { c with pos := uint (c.pos + len) }
  else .error .outOfBounds c

/-- `iarchive::operator&(octet_string&)`, and the identical `operator&(std::vector<uint8>&)`. The
length is checked against the buffer from the start of the length field, not from its end. -/
def octetString : Decoder Bytes := Cursor.restoring fun c => (do
    let len ← listLength
    if c.buf.length ≤ uint (c.pos + len) then throw .eof
    copyBytes len : Decoder Bytes) c

/-- `truncate_cast<uint>` -/
def truncateUint (n : Nat) : Except Error Nat :=
  if n < 2 ^ 32 then .ok n else .error .badTruncateCast

/-- `oarchive::operator&(octet_string&)`, and the identical `operator&(std::vector<uint8>&)`. -/
def putOctetString (val : Bytes) : Except Error Bytes := do
  let len ← truncateUint val.length
  let field ← putListLength len
  return field ++ val

/-- `iarchive::operator&(uint8&)` -/
def uint8 : Decoder UInt8 := fun c =>
  if c.buf.length < uint (c.pos + 1) then .error .eof c
  else match c.buf[c.pos]? with
    | none => .error .outOfBounds c
    | some b => .ok b { c with pos := uint (c.pos + 1) }

/-- The wider unsigned integers: `iarchive::operator&(uint16&)` and its siblings check the end of
the buffer, then take `k` bytes. -/
def word (k : Nat) : Decoder Bytes := fun c =>
  if c.buf.length < uint (c.pos + k) then .error .eof c else copyBytes k c

/-- Bytes joined in network order. -/
def bigEndian (bs : Bytes) : Nat := bs.foldl (fun n b => n <<< 8 ||| b.toNat) 0

/-! ## Round trips

Below `128 + 2^16` a length field has at most two length bytes, the range in which the decoder
inverts the encoder. -/

/-- The length field of a length below `128 + 2^16`. -/
def lengthField (len : Nat) : Bytes :=
  if len ≤ 128 then [UInt8.ofNat len]
  else if len - 128 < 256 then [0x81, UInt8.ofNat (len - 128)]
  else [0x82, UInt8.ofNat ((len - 128) / 256), UInt8.ofNat (len - 128)]

theorem lengthField_length_pos (len : Nat) : 0 < (lengthField len).length := by
  unfold lengthField
  split_ifs <;> simp

theorem putListLength_eq (h : len < 128 + 2 ^ 16) : putListLength len = .ok (lengthField len) := by
  unfold putListLength lengthField
  split_ifs with h₁ h₂
  · rfl
  · have hs : (len - 128) >>> 8 = 0 := by rw [Nat.shiftRight_eq_div_pow]; omega
    have ho : lengthOctets (len - 128) 4 0 = .ok 1 := by simp [lengthOctets, hs]
    rw [ho]
    simp only [lengthBytes, bind, Except.bind, pure, Except.pure]
    rfl
  · have hd : (len - 128) >>> 8 = (len - 128) / 256 := Nat.shiftRight_eq_div_pow _ 8
    have hs : (len - 128) / 256 ≠ 0 := by omega
    have hs' : (len - 128) >>> 16 = 0 := by rw [Nat.shiftRight_eq_div_pow]; omega
    have ho : lengthOctets (len - 128) 4 0 = .ok 2 := by simp [lengthOctets, hd, hs, hs']
    rw [ho]
    simp only [lengthBytes, bind, Except.bind, pure, Except.pure, Nat.one_mul, hd]
    rfl

theorem toNat_ofNat_byte (h : n < 256) : (UInt8.ofNat n).toNat = n := UInt8.toNat_ofNat_of_lt' h

theorem listLength_reads_short (h : len ≤ 128) :
    Reads listLength (fun _ => True) [UInt8.ofNat len] len := by
  refine Cursor.Reads.restoring fun pre post hB _ => ?_
  have hpos : uint (pre.length + 1) = pre.length + 1 := uint_of_lt (by simp at hB; omega)
  simp [toNat_ofNat_byte (show len < 256 by omega), hpos, Nat.not_lt.mpr h]

/-- The byte at the join of two pieces of a buffer is the first one of the second piece. -/
theorem getElem?_join (pre post : Bytes) (b : UInt8) :
    (pre ++ b :: post)[pre.length]? = some b := by
  simp

theorem getLengthLoop_reads_succ {k i : Nat} {b : UInt8} (hi : i * 8 < 32)
    (h : Reads (getLengthLoop k (i + 1) (uint (len <<< (i * 8)) ||| b.toNat)) P bs v) :
    Reads (getLengthLoop (k + 1) i len) P (b :: bs) v := by
  intro pre post hB hP
  have hpos : uint (pre.length + 1) = pre.length + 1 := uint_of_lt (by simp at hB; omega)
  have hrest := h (pre ++ [b]) post (by simpa using hB) hP
  simp only [append_assoc, cons_append, nil_append, length_append, length_singleton] at hrest
  simp only [getLengthLoop, Nat.not_le.mpr hi, if_false, cons_append, getElem?_join, hpos,
    hrest, length_cons, Nat.add_assoc, Nat.add_comm bs.length]

/-- A length field of a marker byte and `n` length bytes can be read when something follows it. -/
theorem listLength_reads_long {mark : UInt8}
    (hm : mark = 0x80 ||| UInt8.ofNat n) (hn : 0 < n ∧ n < 128) (hbs : bs.length = n)
    (h : Reads (getLengthLoop n 0 0) (· ≠ []) bs v) :
    Reads listLength (· ≠ []) (mark :: bs) (uint (v + 128)) := by
  refine Cursor.Reads.restoring fun pre post hB hpost => ?_
  have hmark : mark.toNat = 128 + n := by
    rw [hm, UInt8.toNat_or, toNat_ofNat_byte (by omega)]
    exact (Nat.two_pow_add_eq_or_of_lt (i := 7) hn.2 1).symm
  have hcount : (mark &&& 0x7F).toNat = n := by
    rw [UInt8.toNat_and, hmark]
    change (128 + n) &&& (2 ^ 7 - 1) = n
    rw [Nat.and_two_pow_sub_one_eq_mod]
    omega
  have hp : 0 < post.length := length_pos_of_ne_nil hpost
  simp only [length_append, length_cons, hbs] at hB
  have hpos : uint (pre.length + 1) = pre.length + 1 := uint_of_lt (by omega)
  have hend : uint (pre.length + 1 + n) = pre.length + 1 + n := uint_of_lt (by omega)
  have hroom : ¬ pre.length + (n + post.length + 1) ≤ pre.length + 1 + n := by omega
  have hloop := (h.map (f := fun len => uint (len + 128))) (pre ++ [mark]) post
    (by simp [hbs]; omega) hpost
  simp only [append_assoc, cons_append, nil_append, length_append, length_singleton, hbs] at hloop
  simp only [cons_append, getElem?_join, hmark, show 128 < 128 + n by omega, if_true,
    hcount, hpos, hend, length_append, length_cons, hbs, hroom, if_false,
    bind_pure_comp, hloop]
  rw [Nat.add_assoc, Nat.add_comm 1]

/-- Reading a length field back. A field of several bytes is read only if something follows. -/
theorem listLength_reads (h : len < 128 + 2 ^ 16) :
    Reads listLength (fun post => 128 < len → post ≠ []) (lengthField len) len := by
  unfold lengthField
  split_ifs with h₁ h₂
  · exact (listLength_reads_short h₁).mono fun _ _ => trivial
  · have hlow : uint (0 <<< (0 * 8)) ||| (UInt8.ofNat (len - 128)).toNat = len - 128 := by
      simp [uint, toNat_ofNat_byte h₂]
    have hloop : Reads (getLengthLoop 1 0 0) (· ≠ []) [UInt8.ofNat (len - 128)] (len - 128) :=
      getLengthLoop_reads_succ (by decide) (by rw [hlow]; exact Cursor.Reads.pure _)
    have hread := listLength_reads_long (show 0x81 = 0x80 ||| UInt8.ofNat 1 by decide) (by decide)
      rfl hloop
    rw [Nat.sub_add_cancel (by omega), uint_of_lt (by omega)] at hread
    exact hread.mono fun _ (hpost : 128 < len → _) => hpost (by omega)
  · have hhigh : uint (0 <<< (0 * 8)) ||| (UInt8.ofNat ((len - 128) / 256)).toNat =
        (len - 128) / 256 := by
      simp [uint, toNat_ofNat_byte (show (len - 128) / 256 < 256 by omega)]
    have hlow : uint (((len - 128) / 256) <<< ((0 + 1) * 8)) |||
        (UInt8.ofNat (len - 128)).toNat = len - 128 := by
      have hs : ((len - 128) / 256) <<< 8 = (len - 128) / 256 * 256 := Nat.shiftLeft_eq _ 8
      rw [uint_of_lt (by simp [hs]; omega), UInt8.toNat_ofNat',
        ← Nat.shiftLeft_add_eq_or_of_lt (Nat.mod_lt _ (by decide)), hs]
      omega
    have hloop : Reads (getLengthLoop 2 0 0) (· ≠ [])
        [UInt8.ofNat ((len - 128) / 256), UInt8.ofNat (len - 128)] (len - 128) :=
      getLengthLoop_reads_succ (by decide) (by
        rw [hhigh]
        exact getLengthLoop_reads_succ (by decide) (by rw [hlow]; exact Cursor.Reads.pure _))
    have hread := listLength_reads_long (show 0x82 = 0x80 ||| UInt8.ofNat 2 by decide) (by decide)
      rfl hloop
    rw [Nat.sub_add_cancel (by omega), uint_of_lt (by omega)] at hread
    exact hread.mono fun _ (hpost : 128 < len → _) => hpost (by omega)

/-- Copying the bytes that stand at the position. -/
theorem copyBytes_reads (val : Bytes) : Reads (copyBytes val.length) P val val := by
  intro pre post hB _
  have hfit : pre.length + val.length ≤ (pre ++ (val ++ post)).length := by simp
  have hpos : uint (pre.length + val.length) = pre.length + val.length :=
    uint_of_lt (by simpa using hB)
  simp only [copyBytes, hfit, if_true, drop_left, take_left, hpos]

/-- A byte string of less than `128 + 2^16` bytes is encoded behind its length field. -/
theorem putOctetString_eq (h : val.length < 128 + 2 ^ 16) :
    putOctetString val = .ok (lengthField val.length ++ val) := by
  have hlen : truncateUint val.length = .ok val.length := if_pos (by omega)
  simp only [putOctetString, hlen, putListLength_eq h, bind, Except.bind, pure, Except.pure]

/-- Reading such a byte string back, whatever follows it. -/
theorem octetString_reads (h : val.length < 128 + 2 ^ 16) :
    Reads octetString P (lengthField val.length ++ val) val := by
  refine Cursor.Reads.restoring fun pre post hB hP => ?_
  have hfield := lengthField_length_pos val.length
  simp only [length_append] at hB
  have hroom : ¬ (pre ++ (lengthField val.length ++ val ++ post)).length ≤
      uint (pre.length + val.length) := by
    rw [uint_of_lt (by omega)]
    simp only [length_append]
    omega
  have hcopy := (listLength_reads h).bind
    (f := fun len => if (pre ++ (lengthField val.length ++ val ++ post)).length ≤
      uint (pre.length + len) then (do throw .eof; copyBytes len) else copyBytes len)
    (by rw [if_neg hroom]; exact copyBytes_reads val (P := P))
    (fun _ _ hlen => by simp [ne_nil_of_length_pos (show 0 < val.length by omega)])
  simpa using hcopy pre post (by simpa [Nat.add_assoc] using hB) hP

/-! ## Network order -/

theorem bigEndian_nil : bigEndian [] = 0 := rfl

theorem shift_or_eq (n : Nat) (b : UInt8) : n <<< 8 ||| b.toNat = n * 256 + b.toNat := by
  rw [← Nat.shiftLeft_add_eq_or_of_lt (show b.toNat < 2 ^ 8 from b.toNat_lt), Nat.shiftLeft_eq]

theorem foldl_bigEndian (n : Nat) (bs : Bytes) :
    bs.foldl (fun n b => n <<< 8 ||| b.toNat) n = n * 256 ^ bs.length + bigEndian bs := by
  induction bs generalizing n with
  | nil => simp [bigEndian]
  | cons b bs ih =>
    have hb : bigEndian (b :: bs) = (0 <<< 8 ||| b.toNat) * 256 ^ bs.length + bigEndian bs :=
      ih (0 <<< 8 ||| b.toNat)
    rw [foldl_cons, ih, hb, length_cons, pow_succ', shift_or_eq, shift_or_eq]
    ring

theorem bigEndian_cons (b : UInt8) (bs : Bytes) :
    bigEndian (b :: bs) = b.toNat * 256 ^ bs.length + bigEndian bs := by
  rw [bigEndian, foldl_cons, foldl_bigEndian, shift_or_eq, Nat.zero_mul, Nat.zero_add]

theorem bigEndian_lt (bs : Bytes) : bigEndian bs < 256 ^ bs.length := by
  induction bs with
  | nil => simp [bigEndian]
  | cons b bs ih =>
    have hb : b.toNat + 1 ≤ 256 := b.toNat_lt
    have hmul := Nat.mul_le_mul_right (256 ^ bs.length) hb
    rw [bigEndian_cons, length_cons, pow_succ']
    rw [Nat.add_mul, Nat.one_mul] at hmul
    omega

theorem lengthBytes_length (v k : Nat) : (lengthBytes v k).length = k := by
  induction k with
  | zero => rfl
  | succ k ih => simp [lengthBytes, ih]

theorem two_pow_octets (k : Nat) : (2 : Nat) ^ (k * 8) = 256 ^ k := by
  rw [Nat.mul_comm, pow_mul]
  norm_num

theorem lengthBytes_add_mul (a v k : Nat) : lengthBytes (a * 256 ^ k + v) k = lengthBytes v k := by
  induction k generalizing a v with
  | zero => rfl
  | succ k ih =>
    have hhigh : (256 ^ k * (a * 256) + v) / 256 ^ k = a * 256 + v / 256 ^ k :=
      Nat.mul_add_div (by positivity) _ _
    rw [pow_succ', ← Nat.mul_assoc]
    simp only [lengthBytes, ih, Nat.shiftRight_eq_div_pow, two_pow_octets]
    rw [Nat.mul_comm (a * 256), hhigh]
    congr 1
    rw [← UInt8.toNat_inj, UInt8.toNat_ofNat', UInt8.toNat_ofNat']
    omega

/-- Splitting the value of some bytes gives the bytes back. -/
theorem lengthBytes_bigEndian (bs : Bytes) : lengthBytes (bigEndian bs) bs.length = bs := by
  induction bs with
  | nil => rfl
  | cons b bs ih =>
    have hhigh : bigEndian (b :: bs) >>> (bs.length * 8) = b.toNat := by
      rw [Nat.shiftRight_eq_div_pow, two_pow_octets, bigEndian_cons, Nat.mul_comm,
        Nat.mul_add_div (by positivity), Nat.div_eq_of_lt (bigEndian_lt bs), Nat.add_zero]
    simp only [length_cons, lengthBytes, hhigh]
    rw [bigEndian_cons, lengthBytes_add_mul, ih]
    simp

theorem bigEndian_lengthBytes (v k : Nat) : bigEndian (lengthBytes v k) = v % 256 ^ k := by
  induction k with
  | zero => rw [lengthBytes, bigEndian_nil, pow_zero, Nat.mod_one]
  | succ k ih =>
    rw [lengthBytes, bigEndian_cons, lengthBytes_length, ih, UInt8.toNat_ofNat',
      Nat.shiftRight_eq_div_pow, two_pow_octets, Nat.mod_pow_succ (b := 256), Nat.mul_comm,
      Nat.add_comm]

end Odtone.Wire
