import Odtone.Java.Header
import Odtone.Support.Fill
import Odtone.Wire.Extent

/-! # The length fields of the Java sensor

`Serialization` of the Java SAP writes a length field in three places: in front of the value of a
TLV, in front of the value of an information element, and in front of the elements of a list. Here
the three functions are followed and what they write is given to `list_length` of the C++ archive.

One octet behind the marker byte is where they still agree, as far as the Java side gets it right.
With more octets the two sides mean different things: Java writes as many octets `0xff` as fit and
the remainder, C++ reads digits.
-/

namespace Odtone.Java

open Wire (Bytes)
open List Except
open Fill

/-! ## The functions -/

/-- `Math.ceil((double) n / 255)`. The quotient is either a whole number or further away from one
than a `double` is imprecise. -/
def octets (n : Nat) : Nat := (n + 254) / 255

/-- `out[i] = (byte) 0x80; out[i] = (byte) (out[i] | nOctets)` -/
def writeMarker (i nOctets : Nat) : Fill.Writer UInt8 Unit := do
  write i 0x80
  modifyAt i (· ||| UInt8.ofNat nOctets)

/-- The loop that copies the elements of a list to the positions from `i` on. -/
def writeElements : Nat → List Bytes → Fill.Writer UInt8 Unit
  | _, [] => pure ()
  | i, e :: es => do
      writeFrom i e
      writeElements (i + e.length) es

/-- The block in `try` of `encoding_List`. -/
def encodingListLong (lst : List Bytes) : Except Unit Bytes :=
  let valueSize := (lst.map length).sum
  let appendedSize := lst.length - 128
  let nOctetsLength := octets appendedSize
  if 0xff < nOctetsLength then .error ()
  else fresh 0 (1 + nOctetsLength + valueSize) do
    writeMarker 0 nOctetsLength
    writeFrom 1 (replicate (nOctetsLength - 2) 0xff)
    if 1 < nOctetsLength then
      write nOctetsLength (uint8 (.ofNat (nOctetsLength * 255 - appendedSize)))
    else write nOctetsLength (UInt8.ofNat appendedSize)
    writeElements (nOctetsLength + 1) lst

/-- `encoding_List`. An exception is caught and nothing is returned. -/
def encodingList (lst : List Bytes) : Except Unit Bytes :=
  let valueSize := (lst.map length).sum
  let size := lst.length
  if size < 128 then
    fresh 0 (1 + valueSize) do
      write 0 (UInt8.ofNat size)
      writeElements 1 lst
  else (encodingListLong lst).tryCatch fun _ => .ok []

/-- `serialize_to_tlv` -/
def serializeToTlv (tlv : UInt32) (value : Bytes) : Except Unit Bytes :=
  if value.length ≤ 128 then
    fresh 0 (value.length + 2) do
      write 0 (uint8 tlv)
      write 1 (uint8 (.ofNat value.length))
      writeFrom 2 value
  else
    let nOctets := octets (value.length - 128)
    if 0x7f < nOctets then .ok []
    else fresh 0 (value.length + 1 + nOctets + 1) do
      write 0 (uint8 tlv)
      writeMarker 1 nOctets
      writeFrom 2 (replicate (nOctets - 1) 0xff)
      write (nOctets + 1) (UInt8.ofInt (value.length - (255 * ((nOctets : Int) - 2) + 128)))
      writeFrom (nOctets + 2) value

/-- The class `UInt32` -/
def uint32 (value : UInt32) : Bytes :=
  [((0xff000000 &&& value) >>> 24).toUInt8, ((0x00ff0000 &&& value) >>> 16).toUInt8,
    ((0x0000ff00 &&& value) >>> 8).toUInt8, (0x000000ff &&& value).toUInt8]

/-- `serializeInfoElements` -/
def serializeInfoElements (type : UInt32) (value : Bytes) : Except Unit Bytes :=
  if value.length ≤ 128 then
    fresh 0 (value.length + 1 + 4) do
      writeFrom 0 (uint32 type)
      write 4 (UInt8.ofNat value.length)
      writeFrom 5 value
  else
    let nOctets := octets (value.length - 128)
    fresh 0 (value.length + 4 + nOctets + 1) do
      writeFrom 0 (uint32 type)
      writeMarker 4 nOctets
      writeFrom 5 (replicate (nOctets - 1) 0xff)
      write (nOctets + 4) (UInt8.ofInt (value.length - (255 * ((nOctets : Int) - 1) + 128)))
      writeFrom (nOctets + 5) value

/-! ## What they write -/

/-- The marker byte -/
def marker (n : Nat) : UInt8 := 0x80 ||| UInt8.ofNat n

/-- The length field of a TLV with a value of `len` bytes. -/
def tlvField (len : Nat) : Bytes :=
  if len ≤ 128 then [uint8 (.ofNat len)]
  else
    let n := octets (len - 128)
    [marker n] ++ replicate (n - 1) 0xff ++ [UInt8.ofInt (len - (255 * ((n : Int) - 2) + 128))]

/-- The length field of an information element. -/
def infoField (len : Nat) : Bytes :=
  if len ≤ 128 then [UInt8.ofNat len]
  else
    let n := octets (len - 128)
    [marker n] ++ replicate (n - 1) 0xff ++ [UInt8.ofInt (len - (255 * ((n : Int) - 1) + 128))]

/-- The length field of a list. For 128 elements the length overwrites the marker; the octet before
the last one is left at zero. -/
def listField (size : Nat) : Bytes :=
  if size < 128 then [UInt8.ofNat size]
  else if size = 128 then [0]
  else
    let n := octets (size - 128)
    if 1 < n then
      [marker n] ++ replicate (n - 2) 0xff ++ [0] ++ [uint8 (.ofNat (n * 255 - (size - 128)))]
    else [marker n] ++ [UInt8.ofNat (size - 128)]

section

variable {N i n : Nat} {as value : Bytes} {lst : List Bytes}

theorem takes_writeMarker (hi : as.length = i) (h : i < N) :
    Takes N 0 (writeMarker i n) as (as ++ [marker n]) :=
  .bind (.write hi h) (.modifyAt (· ||| UInt8.ofNat n) hi)

theorem takes_writeElements (hi : as.length = i) (h : i + (lst.map length).sum ≤ N) :
    Takes N 0 (writeElements i lst) as (as ++ lst.flatten) := by
  induction lst generalizing as i with
  | nil =>
    rw [flatten_nil, append_nil]
    exact .pure
  | cons e es ih =>
    rw [map_cons, sum_cons] at h
    rw [flatten_cons, ← append_assoc]
    exact .bind (.writeFrom hi (by omega)) (ih (by simp [hi]) (by omega))

theorem octets_pos (h : 0 < n) : 0 < octets n := by
  unfold octets
  omega

theorem serializeToTlv_eq (tlv : UInt32) (h : octets (value.length - 128) ≤ 0x7f) :
    serializeToTlv tlv value = .ok ([uint8 tlv] ++ tlvField value.length ++ value) := by
  unfold serializeToTlv tlvField
  split_ifs with hshort
  · refine Takes.fresh ?_ (by simp)
    exact .bind (.write rfl (by omega)) (.bind (.write rfl (by omega)) (.writeFrom rfl (by omega)))
  · have hn := octets_pos (n := value.length - 128) (by omega)
    simp only [Nat.not_lt.mpr h, if_false, ← append_assoc]
    generalize octets (value.length - 128) = n at *
    refine Takes.fresh ?_ (by simp; omega)
    refine .bind (.write rfl (by omega)) (.bind (takes_writeMarker rfl (by omega)) ?_)
    refine .bind (.writeFrom rfl (by simp; omega)) (.bind (.write (by simp; omega) (by omega)) ?_)
    exact .writeFrom (by simp; omega) (by omega)

theorem serializeInfoElements_eq (type : UInt32) :
    serializeInfoElements type value = .ok (uint32 type ++ infoField value.length ++ value) := by
  have htype : (uint32 type).length = 4 := rfl
  unfold serializeInfoElements infoField
  split_ifs with hshort
  · refine Takes.fresh ?_ (by simp [htype]; omega)
    refine .bind (.writeFrom rfl (by omega)) (.bind (.write htype (by omega)) ?_)
    exact .writeFrom (by simp [htype]) (by omega)
  · have hn := octets_pos (n := value.length - 128) (by omega)
    simp only [← append_assoc]
    generalize octets (value.length - 128) = n at *
    refine Takes.fresh ?_ (by simp [htype]; omega)
    refine .bind (.writeFrom rfl (by omega)) (.bind (takes_writeMarker htype (by omega)) ?_)
    refine .bind (.writeFrom (by simp [htype]) (by simp; omega))
      (.bind (.write (by simp [htype]; omega) (by omega)) ?_)
    exact .writeFrom (by simp [htype]; omega) (by omega)

theorem encodingListLong_eq (hlen : 128 ≤ lst.length) (h : octets (lst.length - 128) ≤ 0xff) :
    encodingListLong lst = .ok (listField lst.length ++ lst.flatten) := by
  have hvalue : lst.flatten.length = (lst.map length).sum := length_flatten
  have hshort : ¬ lst.length < 128 := Nat.not_lt.mpr hlen
  by_cases hsize : lst.length = 128
  · simp only [encodingListLong, listField, hsize, show octets (128 - 128) = 0 from rfl]
    refine Takes.fresh ?_ (by simp [hvalue]; omega)
    refine .bind (takes_writeMarker rfl (by omega)) (.bind (.writeFrom rfl (by simp)) ?_)
    -- the length is written over the marker
    have hover : Takes (1 + 0 + (lst.map length).sum) 0 (write 0 0) ([] ++ [marker 0])
        ([] ++ [0]) :=
      .modifyAt (fun _ => 0) rfl
    exact .bind hover (takes_writeElements rfl (by omega))
  · have hn := octets_pos (n := lst.length - 128) (by omega)
    simp only [encodingListLong, listField, hshort, hsize, Nat.not_lt.mpr h, if_false]
    generalize octets (lst.length - 128) = n at *
    split_ifs with hlong
    · refine Takes.fresh ?_ (by simp [hvalue]; omega)
      refine .bind (takes_writeMarker rfl (by omega)) (.bind (.writeFrom rfl (by simp; omega)) ?_)
      refine .skip (by simp; omega) (.bind (.write (by simp; omega) (by omega)) ?_)
      exact takes_writeElements (by simp; omega) (by omega)
    · obtain rfl : n = 1 := by omega
      refine Takes.fresh ?_ (by simp [hvalue]; omega)
      refine .bind (takes_writeMarker rfl (by omega)) (.bind (.writeFrom rfl (by simp; omega)) ?_)
      exact .bind (.write rfl (by omega)) (takes_writeElements rfl (by omega))

theorem encodingList_eq (h : octets (lst.length - 128) ≤ 0xff) :
    encodingList lst = .ok (listField lst.length ++ lst.flatten) := by
  by_cases hshort : lst.length < 128
  · have hvalue : lst.flatten.length = (lst.map length).sum := length_flatten
    simp only [encodingList, listField, hshort, if_true]
    refine Takes.fresh ?_ (by simp [hvalue]; omega)
    exact .bind (.write rfl (by omega)) (takes_writeElements rfl (by omega))
  · simp only [encodingList, hshort, if_false, encodingListLong_eq (Nat.le_of_not_lt hshort) h]
    rfl

end

/-! ## What they mean -/

open Wire (IsLengthField declared announced fieldAt CutOff listLength)

theorem toNat_marker (n : Nat) : (marker n).toNat = 128 + n % 128 := by
  have hsplit : n % 2 ^ 8 = (n / 128 % 2) * 128 + n % 128 := by omega
  rw [marker, UInt8.toNat_or, UInt8.toNat_ofNat', hsplit]
  obtain hhigh | hhigh := Nat.mod_two_eq_zero_or_one (n / 128)
  · rw [hhigh, Nat.zero_mul, Nat.zero_add]
    exact (Nat.two_pow_add_eq_or_of_lt (i := 7) (Nat.mod_lt n (by decide)) 1).symm
  · rw [hhigh, Nat.one_mul, Nat.two_pow_add_eq_or_of_lt (i := 7) (Nat.mod_lt n (by decide)) 1,
      ← Nat.or_assoc]
    rfl

/-- A marker and the octets it was written for are a length field if there are less than 128. -/
theorem isLengthField_marker {n len : Nat} {bs : Bytes} (hbs : bs.length = n) (hn : 0 < n) :
    IsLengthField len (marker n :: bs) ↔ n < 128 ∧ declared bs = some len := by
  have hmark := toNat_marker n
  generalize marker n = b at hmark
  have hann : announced b = n % 128 := by unfold announced; omega
  constructor
  · rintro ⟨b', bs', heq, hcount, hlen⟩
    obtain ⟨rfl, rfl⟩ := heq
    have hlt : n < 128 := by omega
    have hlong : ¬ b.toNat ≤ 128 := by omega
    rw [if_neg hlong] at hlen
    exact ⟨hlt, hlen⟩
  · rintro ⟨hlt, hlen⟩
    have hlong : ¬ b.toNat ≤ 128 := by omega
    refine ⟨b, bs, rfl, by omega, ?_⟩
    rw [if_neg hlong]
    exact hlen

variable {len : Nat}

theorem isLengthField_single {b : UInt8} (h : b.toNat ≤ 128) :
    IsLengthField len [b] ↔ b.toNat = len := by
  constructor
  · rintro ⟨b', bs', heq, -, hlen⟩
    obtain ⟨rfl, -⟩ := heq
    rwa [if_pos h] at hlen
  · intro hlen
    refine ⟨b, [], rfl, (Nat.sub_eq_zero_of_le h).symm, ?_⟩
    rwa [if_pos h]

theorem length_le_of_declared {bs : Bytes} {v : Nat} (h : declared bs = some v) :
    bs.length ≤ 4 := by
  match bs, h with
  | [], _ => decide
  | [_], _ => simp
  | [_, _], _ => simp
  | [_, _, _], _ => simp
  | [_, _, _, _], _ => simp

/-- Several octets of which the first are `0xff` stand for a length of at least 65408. -/
theorem le_of_declared_replicate {n v : Nat} {last : UInt8} (hn : 1 < n)
    (h : declared (replicate (n - 1) 0xff ++ [last]) = some v) : n ≤ 4 ∧ 65408 ≤ v := by
  have hle := length_le_of_declared h
  simp only [length_append, length_replicate, length_singleton] at hle
  have hn4 : n ≤ 4 := by omega
  refine ⟨hn4, ?_⟩
  interval_cases n <;>
  · simp [declared, replicate] at h
    omega

theorem octets_eq_one {n : Nat} : octets n = 1 ↔ 0 < n ∧ n ≤ 255 := by
  unfold octets
  omega

theorem toNat_uint8 {n : Nat} (h : n < 256) : (uint8 (.ofNat n)).toNat = n :=
  (HeaderFields.uint16_toNat (h.trans (by decide))).2.trans (Nat.mod_eq_of_lt h)

/-- A field of several octets `0xff` and a remainder stands for the length it was written for if the
remainder is its only octet and the right one. -/
theorem isLengthField_octets {last : UInt8} (h : 128 < len) : let n := octets (len - 128)
    IsLengthField len ([marker n] ++ replicate (n - 1) 0xff ++ [last]) ↔
      len ≤ 383 ∧ last.toNat + 128 = len := by
  intro n
  have hpos : 0 < n := octets_pos (by omega)
  have hbound : len ≤ 128 + n * 255 := by unfold n octets; omega
  rw [append_assoc, singleton_append, isLengthField_marker (by simp; omega) hpos]
  obtain hn | hn : n = 1 ∨ 1 < n := by omega
  · have hle : len ≤ 383 := by omega
    simp [hn, hle, declared]
  · have hlt : 383 < len := by unfold n octets at hn; omega
    constructor
    · rintro ⟨-, hdecl⟩
      obtain ⟨hn4, hlarge⟩ := le_of_declared_replicate hn hdecl
      omega
    · rintro ⟨hle, -⟩
      omega

theorem toNat_ofInt (x : Int) : ((UInt8.ofInt x).toNat : Int) = x % 256 := by
  rw [UInt8.ofInt, Wire.toNat_ofNat_byte (by omega)]
  omega

/-- The octet of a TLV is one too small. -/
theorem isLengthField_tlvField : IsLengthField len (tlvField len) ↔ len ≤ 128 := by
  unfold tlvField
  split_ifs with hshort
  · have hlen := toNat_uint8 (show len < 256 by omega)
    simp only [isLengthField_single (hlen.trans_le hshort), hlen, hshort]
  · refine (isLengthField_octets (by omega)).trans ?_
    have hlast := toNat_ofInt (len - (255 * ((octets (len - 128) : Int) - 2) + 128))
    have hone : len ≤ 383 → octets (len - 128) = 1 := fun hle => octets_eq_one.mpr (by omega)
    omega

theorem isLengthField_infoField : IsLengthField len (infoField len) ↔ len ≤ 383 := by
  unfold infoField
  split_ifs with hshort
  · have hlen : (UInt8.ofNat len).toNat = len := Wire.toNat_ofNat_byte (by omega)
    simp only [isLengthField_single (hlen.trans_le hshort), hlen, true_iff]
    omega
  · refine (isLengthField_octets (by omega)).trans ?_
    have hlast := toNat_ofInt (len - (255 * ((octets (len - 128) : Int) - 1) + 128))
    have hone : len ≤ 383 → octets (len - 128) = 1 := fun hle => octets_eq_one.mpr (by omega)
    omega

theorem isLengthField_listField {size : Nat} :
    IsLengthField size (listField size) ↔ size < 128 ∨ 128 < size ∧ size ≤ 383 := by
  unfold listField
  split_ifs with hshort hsize
  · have hlen : (UInt8.ofNat size).toNat = size := Wire.toNat_ofNat_byte (by omega)
    simp only [isLengthField_single (hlen.trans_le hshort.le), hlen, hshort, true_or]
  · rw [isLengthField_single (by decide)]
    simp [hsize]
  · have hpos : 0 < octets (size - 128) := octets_pos (by omega)
    obtain hn | hn : octets (size - 128) = 1 ∨ 1 < octets (size - 128) := by omega
    · obtain ⟨-, hle⟩ := octets_eq_one.mp hn
      have hlast : (UInt8.ofNat (size - 128)).toNat = size - 128 := Wire.toNat_ofNat_byte (by omega)
      simp only [hn, lt_irrefl, if_false]
      rw [singleton_append, isLengthField_marker (n := 1) rfl Nat.one_pos]
      simp only [declared, hlast, Option.some.injEq]
      omega
    · have hlow : 128 + (octets (size - 128) - 1) * 255 < size := by unfold octets at hn ⊢; omega
      have hhigh : size ≤ 128 + octets (size - 128) * 255 := by unfold octets; omega
      generalize octets (size - 128) = n at *
      simp only [hn, if_true]
      rw [append_assoc, append_assoc, singleton_append, isLengthField_marker (by simp; omega) hpos]
      constructor
      · rintro ⟨-, hdecl⟩
        have hle := length_le_of_declared hdecl
        simp only [length_append, length_replicate, length_cons, length_nil]
          at hle
        have hlast := toNat_uint8 (n := n * 255 - (size - 128)) (by omega)
        have hn4 : n ≤ 4 := by omega
        interval_cases n
        all_goals
          simp [declared, hlast] at hdecl
          omega
      · omega

/-! ## The two sides -/

/-- A call of one of the three functions. -/
inductive Encoding where
  | tlv (type : UInt32) (value : Bytes)
  | infoElement (type : UInt32) (value : Bytes)
  | list (elements : List Bytes)

namespace Encoding

/-- What is returned. -/
def output : Encoding → Except Unit Bytes
  | tlv type value => serializeToTlv type value
  | infoElement type value => serializeInfoElements type value
  | list elements => encodingList elements

/-- The bytes in front of the length field. -/
def head : Encoding → Bytes
  | tlv type _ => [uint8 type]
  | infoElement type _ => uint32 type
  | list _ => []

/-- The bytes behind the length field. -/
def contents : Encoding → Bytes
  | tlv _ value => value
  | infoElement _ value => value
  | list elements => elements.flatten

/-- What the length field should stand for. -/
def count : Encoding → Nat
  | tlv _ value => value.length
  | infoElement _ value => value.length
  | list elements => elements.length

/-- The call is not refused with an empty result. -/
def Accepted (e : Encoding) : Prop := ∃ out, e.output = .ok out ∧ out ≠ []

/-- In front of `rest`, `list_length` returns the count and stops at the first byte of the
contents. -/
def Agrees (e : Encoding) (rest : Bytes) : Prop :=
  ∃ out, e.output = .ok out ∧ listLength ⟨out ++ rest, e.head.length⟩ =
    .ok e.count ⟨out ++ rest, out.length - e.contents.length⟩

/-- The lengths for which the two sides agree. Behind the length field of a list with more than 128
elements there must be a byte. -/
def Small (rest : Bytes) : Encoding → Prop
  | tlv _ value => value.length ≤ 128
  | infoElement _ value => value.length ≤ 383
  | list elements => elements.length < 128 ∨
      128 < elements.length ∧ elements.length ≤ 383 ∧ elements.flatten ++ rest ≠ []

variable {e : Encoding} {field rest : Bytes}

theorem agrees_of_output (hout : e.output = .ok (e.head ++ field ++ e.contents)) (hne : field ≠ [])
    (hhead : e.head.length ≤ 4) (hfield : field.length ≤ 65536) :
    e.Agrees rest ↔ IsLengthField e.count field ∧ (1 < field.length → e.contents ++ rest ≠ []) := by
  obtain ⟨b, bs, rfl⟩ := exists_cons_of_ne_nil hne
  have hbuf : e.head ++ b :: bs ++ e.contents ++ rest =
      e.head ++ (b :: bs ++ (e.contents ++ rest)) := by simp
  have hpos : (e.head ++ b :: bs ++ e.contents).length - e.contents.length =
      e.head.length + (bs.length + 1) := by simp; omega
  have hlong : 1 < (b :: bs).length ↔ bs ≠ [] := by simp [length_pos_iff]
  rw [length_cons] at hfield
  rw [hlong, ← Wire.listLength_ok_iff e.head _ bs b (by omega), Agrees]
  constructor
  · rintro ⟨out, hout', hd⟩
    obtain rfl := ok.inj (hout.symm.trans hout')
    rwa [hbuf, hpos] at hd
  · intro hd
    refine ⟨_, hout, ?_⟩
    rwa [hbuf, hpos]

theorem length_tlvField (h : len ≤ 65535) : 0 < (tlvField len).length ∧
    (tlvField len).length ≤ 65536 ∧ (1 < (tlvField len).length ↔ 128 < len) := by
  unfold tlvField
  split_ifs with hshort
  · simp [hshort]
  · simp only [octets, length_append, length_replicate, length_singleton]
    omega

theorem length_infoField (h : len ≤ 65535) : 0 < (infoField len).length ∧
    (infoField len).length ≤ 65536 ∧ (1 < (infoField len).length ↔ 128 < len) := by
  unfold infoField
  split_ifs with hshort
  · simp [hshort]
  · simp only [octets, length_append, length_replicate, length_singleton]
    omega

theorem length_listField {size : Nat} (h : size ≤ 65535) : 0 < (listField size).length ∧
    (listField size).length ≤ 65536 ∧ (1 < (listField size).length ↔ 128 < size) := by
  unfold listField
  dsimp only
  split_ifs with hshort hsize hlong
  · simp [hshort.le]
  · simp [hsize]
  · simp only [octets, length_append, length_replicate, length_singleton] at hlong ⊢
    omega
  · simp only [length_append, length_singleton]
    omega

/-- When the two sides agree on a length field. -/
theorem agrees_iff (e : Encoding) (rest : Bytes) (hcount : e.count ≤ 65535) (hacc : e.Accepted) :
    e.Agrees rest ↔ e.Small rest := by
  obtain ⟨out, hout, hne⟩ := hacc
  cases e with
  | tlv type value =>
    have hn : octets (value.length - 128) ≤ 0x7f := by
      by_contra hn
      have hlong : ¬ value.length ≤ 128 := by unfold octets at hn; omega
      simp only [output, serializeToTlv, hlong, if_false, Nat.lt_of_not_le hn, if_true] at hout
      exact hne (ok.inj hout).symm
    have hlayout : (tlv type value).output =
        .ok ((tlv type value).head ++ tlvField value.length ++ (tlv type value).contents) :=
      serializeToTlv_eq type hn
    obtain ⟨hpos, hle, hlong⟩ := length_tlvField (show value.length ≤ 65535 from hcount)
    rw [agrees_of_output hlayout (ne_nil_of_length_pos hpos) (by decide : 1 ≤ 4) hle, hlong]
    simp only [count, Small, isLengthField_tlvField]
    refine and_iff_left_of_imp fun hshort hlt => ?_
    omega
  | infoElement type value =>
    have hlayout : (infoElement type value).output = .ok ((infoElement type value).head ++
        infoField value.length ++ (infoElement type value).contents) :=
      serializeInfoElements_eq type
    obtain ⟨hpos, hle, hlong⟩ := length_infoField (show value.length ≤ 65535 from hcount)
    rw [agrees_of_output hlayout (ne_nil_of_length_pos hpos) (by decide : 4 ≤ 4) hle, hlong]
    simp only [count, Small, isLengthField_infoField]
    refine and_iff_left_of_imp fun _ hlt => append_ne_nil_of_left_ne_nil ?_ rest
    exact ne_nil_of_length_pos (Nat.zero_lt_of_lt hlt)
  | list elements =>
    have hn : octets (elements.length - 128) ≤ 0xff := by
      by_contra hn
      have hlong : ¬ elements.length < 128 := by unfold octets at hn; omega
      simp only [output, encodingList, hlong, if_false, encodingListLong, Nat.lt_of_not_le hn,
        if_true] at hout
      exact hne (ok.inj hout).symm
    have hlayout : (list elements).output =
        .ok ((list elements).head ++ listField elements.length ++ (list elements).contents) :=
      encodingList_eq hn
    obtain ⟨hpos, hle, hlong⟩ := length_listField (show elements.length ≤ 65535 from hcount)
    rw [agrees_of_output hlayout (ne_nil_of_length_pos hpos) (by decide : 0 ≤ 4) hle, hlong]
    simp only [count, contents, Small, isLengthField_listField]
    constructor
    · rintro ⟨hshort | ⟨hlt, hle⟩, hrest⟩
      · exact .inl hshort
      · exact .inr ⟨hlt, hle, hrest hlt⟩
    · rintro (hshort | ⟨hlt, hle, hrest⟩)
      · exact ⟨.inl hshort, fun hlt => by omega⟩
      · exact ⟨.inr ⟨hlt, hle⟩, fun _ => hrest⟩

/-- An information element with one octet behind the marker. -/
theorem agrees_infoElement_200 : Agrees (.infoElement 0x10000001 (replicate 200 7)) [] := by
  have hlen : (replicate 200 (7 : UInt8)).length = 200 := length_replicate
  refine (agrees_iff (.infoElement 0x10000001 (replicate 200 7)) [] ?_ ?_).2 ?_
  · exact hlen.trans_le (by decide)
  · exact ⟨_, serializeInfoElements_eq _, cons_ne_nil _ _⟩
  · exact hlen.trans_le (by decide)

set_option maxRecDepth 2000 in
/-- For a value of 129 bytes the length field of a TLV says 128, and a list of 128 elements has the
length field of an empty one. -/
theorem list_length_tlv_129 :
    let value := replicate 129 (7 : UInt8)
    let elements := replicate 128 [(7 : UInt8)]
    (∃ out, serializeToTlv 1 value = .ok out ∧ listLength ⟨out, 1⟩ = .ok 128 ⟨out, 3⟩) ∧
      ∃ out, encodingList elements = .ok out ∧ listLength ⟨out, 0⟩ = .ok 0 ⟨out, 1⟩ :=
  ⟨⟨_, serializeToTlv_eq 1 (by decide), rfl⟩, _, encodingList_eq (by decide), rfl⟩

end Encoding

end Odtone.Java
