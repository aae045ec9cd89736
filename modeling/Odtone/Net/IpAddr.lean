import Odtone.Net.AddressMac
import Odtone.Support.Tokens

/-! # Text form of IP addresses

`ip_addr::address` writes an address as text and reads it back, token by token. A group of an IPv6
address is read into an array of four digits from the left, so that a group of fewer digits gets
zeros behind it and not in front of it; and the tokens are what stands between colons, so that `::`
leaves nothing behind. The text that the class itself writes has neither.
-/

namespace Odtone.Net

open Hex (digit? value)
open List
open Tokens (tokens)

/-- `ip_addr::type_ip_enum` -/
inductive IpType where
  | none
  | ipv4
  | ipv6
deriving DecidableEq

/-- The class `ip_addr` -/
structure IpAddr where
  type : IpType
  addr : List UInt8
deriving DecidableEq

namespace IpAddr

/-! ## Writing -/

/-- The text of a number in a `std::stringstream`. -/
def decimal (n : Nat) : List UInt8 := (Nat.toDigits 10 n).map fun c => UInt8.ofNat c.toNat

/-- A half byte as `to_string_hex` writes it. -/
def hexChar (v : UInt8) : UInt8 := if v < 10 then 0x30 + v else 0x61 + v - 10

/-- `to_string_hex` of one byte -/
def toStringHex (b : UInt8) : List UInt8 := [hexChar ((b &&& 0xF0) >>> 4), hexChar (b &&& 0x0F)]

/-- The numbers of an IPv4 address, with a dot in front of all but the first one. -/
def dotted : List UInt8 → List UInt8
  | [] => []
  | b :: bs => decimal b.toNat ++ bs.flatMap fun b => 0x2e :: decimal b.toNat

/-- The groups of an IPv6 address. Behind the end of the string there is a zero. -/
def groups : List UInt8 → List (List UInt8)
  | [] => []
  | [b] => [toStringHex b ++ toStringHex 0]
  | b :: b' :: bs => (toStringHex b ++ toStringHex b') :: groups bs

/-- `address()` -/
def address (x : IpAddr) : List UInt8 :=
  match x.type with
  | .ipv4 => dotted x.addr
  | .ipv6 => (AddressMac.colons (groups x.addr)).dropLast
  | .none => []

/-! ## Reading -/

def isspace (c : UInt8) : Bool := c == 0x20 || (0x09 ≤ c && c ≤ 0x0d)

def isdigit (c : UInt8) : Bool := 0x30 ≤ c && c ≤ 0x39

/-- `buffer >> value` for an `unsigned int`. Where there is no number the value is zero, where it is
too large it is the largest one. -/
def extractUint (str : List UInt8) : Nat :=
  let str := str.dropWhile isspace
  let negative := str.head? == some 0x2d
  let str := if negative || str.head? == some 0x2b then str.tail else str
  let value := (str.takeWhile isdigit).foldl (fun n c => n * 10 + (c.toNat - 0x30)) 0
  if 2 ^ 32 ≤ value then 2 ^ 32 - 1
  else if negative then (2 ^ 32 - value) % 2 ^ 32
  else value

/-- `tmp[j]` after the loop over the characters. -/
def digitAt (str : List UInt8) (j : Nat) : UInt8 := (str[j]?).elim 0 AddressMac.hexToInt

/-- The two bytes of a group. More than four characters are written behind the array. -/
def readGroup (str : List UInt8) : Except Unit (List UInt8) :=
  if 4 < str.length then .error ()
  else .ok [(digitAt str 0 <<< 4) ||| digitAt str 1, (digitAt str 2 <<< 4) ||| digitAt str 3]

/-- `address(const octet_string&)`; the error is a write outside of the array. -/
def setAddress (x : IpAddr) (text : List UInt8) : Except Unit IpAddr :=
  match x.type with
  | .ipv4 => .ok { x with addr := (tokens 0x2e text).map fun str => UInt8.ofNat (extractUint str) }
  | .ipv6 => do
      let gs ← (tokens 0x3a text).mapM readGroup
      return { x with addr := gs.flatten }
  | .none => .ok x

/-! ## IPv4 -/

theorem dotted_eq (bs : List UInt8) :
    dotted bs = intercalate [0x2e] (bs.map fun b => decimal b.toNat) := by
  cases bs with
  | nil => rfl
  | cons b bs =>
    rw [dotted, map_cons]
    induction bs generalizing b with
    | nil => simp
    | cons b' bs ih =>
      rw [map_cons, intercalate_cons_cons, ← ih]
      simp

/-- The text of a byte is a token that is read as this byte. -/
theorem decimal_byte : ∀ b : UInt8, decimal b.toNat ≠ [] ∧ 0x2e ∉ decimal b.toNat ∧
    extractUint (decimal b.toNat) = b.toNat :=
  Hex.forall_char (by decide +kernel)

theorem setAddress_dotted (old bs : List UInt8) :
    setAddress ⟨.ipv4, old⟩ (dotted bs) = .ok ⟨.ipv4, bs⟩ := by
  have htokens : tokens 0x2e (dotted bs) = bs.map fun b => decimal b.toNat := by
    rw [dotted_eq]
    refine Tokens.tokens_intercalate fun g hg => ?_
    obtain ⟨b, -, rfl⟩ := mem_map.mp hg
    exact ⟨(decimal_byte b).1, (decimal_byte b).2.1⟩
  simp [setAddress, htokens, Function.comp_def, (decimal_byte _).2.2]

/-! ## Groups -/

/-- A group of an IPv6 address -/
def IsGroup (g : List UInt8) : Prop :=
  g ≠ [] ∧ g.length ≤ 4 ∧ ∀ c ∈ g, (digit? c).isSome

/-- The two bytes of a number -/
def wordBytes (w : Nat) : List UInt8 := [UInt8.ofNat (w / 256), UInt8.ofNat w]

/-- The number that is read for a group: the digits are at the left. -/
def misvalue (g : List UInt8) : Nat := value g * 16 ^ (4 - g.length)

variable {g : List UInt8} {gs : List (List UInt8)} {ws ws' : List Nat}

theorem wordBytes_digits {a b c d : Nat} (ha : a < 16) (hb : b < 16) (hc : c < 16) (hd : d < 16) :
    [UInt8.ofNat a <<< 4 ||| UInt8.ofNat b, UInt8.ofNat c <<< 4 ||| UInt8.ofNat d] =
      wordBytes (((a * 16 + b) * 16 + c) * 16 + d) := by
  rw [Hex.join_digits ha hb, Hex.join_digits hc hd, wordBytes]
  congr 1
  · congr 1
    omega
  · congr 1
    rw [← UInt8.toNat_inj, UInt8.toNat_ofNat', UInt8.toNat_ofNat']
    omega

/-- The digit at a place of a group, zero behind its end. -/
def valueAt (g : List UInt8) (j : Nat) : Nat := (g[j]?.bind digit?).getD 0

theorem digitAt_eq (h : ∀ c ∈ g, (digit? c).isSome) (j : Nat) :
    digitAt g j = UInt8.ofNat (valueAt g j) ∧ valueAt g j < 16 := by
  unfold digitAt valueAt
  cases hc : g[j]? with
  | none => exact ⟨rfl, by decide⟩
  | some c =>
    obtain ⟨v, hv⟩ := Option.isSome_iff_exists.mp (h c (mem_of_getElem? hc))
    rw [Option.bind_some, hv]
    exact ⟨AddressMac.hexToInt_of_digit hv, Hex.digit?_lt hv⟩

theorem misvalue_eq (hlen : g.length ≤ 4) : misvalue g =
    ((valueAt g 0 * 16 + valueAt g 1) * 16 + valueAt g 2) * 16 + valueAt g 3 := by
  match g, hlen with
  | [], _ => rfl
  | [a], _ =>
    simp [misvalue, value, valueAt]
    omega
  | [a, b], _ =>
    simp [misvalue, value, valueAt]
    omega
  | [a, b, c], _ => simp [misvalue, value, valueAt]
  | [a, b, c, d], _ => simp [misvalue, value, valueAt]

theorem readGroup_eq (h : IsGroup g) : readGroup g = .ok (wordBytes (misvalue g)) := by
  obtain ⟨-, hlen, hdigits⟩ := h
  have hat := digitAt_eq hdigits
  rw [readGroup, if_neg (Nat.not_lt.mpr hlen), (hat 0).1, (hat 1).1, (hat 2).1, (hat 3).1,
    wordBytes_digits (hat 0).2 (hat 1).2 (hat 2).2 (hat 3).2, misvalue_eq hlen]

theorem mapM_readGroup (h : ∀ g ∈ gs, IsGroup g) :
    gs.mapM readGroup = .ok (gs.map fun g => wordBytes (misvalue g)) := by
  induction gs with
  | nil => rfl
  | cons g gs ih =>
    obtain ⟨hg, hgs⟩ := forall_mem_cons.mp h
    rw [mapM_cons, readGroup_eq hg, ih hgs]
    rfl

theorem misvalue_lt (h : IsGroup g) : misvalue g < 65536 := by
  have hat := digitAt_eq h.2.2
  rw [misvalue_eq h.2.1]
  have h0 := (hat 0).2
  have h1 := (hat 1).2
  have h2 := (hat 2).2
  have h3 := (hat 3).2
  omega

theorem value_le_misvalue (g : List UInt8) : value g ≤ misvalue g :=
  Nat.le_mul_of_pos_right _ (Nat.pow_pos (by decide))

/-- A group is read correctly if it is written with four digits or stands for zero. -/
theorem misvalue_eq_value_iff (hlen : g.length ≤ 4) :
    misvalue g = value g ↔ g.length = 4 ∨ value g = 0 := by
  unfold misvalue
  constructor
  · intro h
    by_contra hne
    have hpow : 16 ^ 1 ≤ 16 ^ (4 - g.length) := Nat.pow_le_pow_right (by decide) (by omega)
    have hmul := Nat.mul_le_mul_left (value g) hpow
    omega
  · rintro (h | h)
    · simp [h]
    · simp [h]

theorem wordBytes_injective {w w' : Nat} (hw : w < 65536) (hw' : w' < 65536)
    (h : wordBytes w = wordBytes w') : w = w' := by
  simp only [wordBytes, cons.injEq, ← UInt8.toNat_inj, UInt8.toNat_ofNat', and_true] at h
  omega

theorem flatMap_wordBytes_inj (hws : ∀ w ∈ ws, w < 65536) (hws' : ∀ w ∈ ws', w < 65536)
    (h : ws.flatMap wordBytes = ws'.flatMap wordBytes) : ws = ws' := by
  induction ws generalizing ws' with
  | nil =>
    cases ws' with
    | nil => rfl
    | cons w' ws' => simp [wordBytes] at h
  | cons w ws ih =>
    cases ws' with
    | nil => simp [wordBytes] at h
    | cons w' ws' =>
      obtain ⟨hfirst, hrest⟩ := append_inj h rfl
      obtain ⟨hw, hws⟩ := forall_mem_cons.mp hws
      obtain ⟨hw', hws'⟩ := forall_mem_cons.mp hws'
      rw [wordBytes_injective hw hw' hfirst, ih hws hws' hrest]

/-! ## IPv6 -/

/-- A textual form of an IPv6 address: groups of one to four digits, of which one run of zeros may
be left out. -/
structure Text where
  /-- the groups in front of `::`, or all of them -/
  front : List (List UInt8)
  /-- the groups behind `::` -/
  back : Option (List (List UInt8))
  isGroup : ∀ g ∈ front ++ back.getD [], IsGroup g
  size : back.elim (front.length = 8) fun back => front.length + back.length ≤ 7

namespace Text

def text (t : Text) : List UInt8 :=
  match t.back with
  | none => intercalate [0x3a] t.front
  | some back => intercalate [0x3a] t.front ++ 0x3a :: 0x3a :: intercalate [0x3a] back

/-- The eight numbers of the address -/
def words (t : Text) : List Nat :=
  match t.back with
  | none => t.front.map value
  | some back =>
    t.front.map value ++ replicate (8 - (t.front.length + back.length)) 0 ++ back.map value

/-- The sixteen bytes of the address -/
def bytes (t : Text) : List UInt8 := t.words.flatMap wordBytes

/-- No group is left out, and each is written with four digits or is zero. -/
def Plain (t : Text) : Prop := t.back = none ∧ ∀ g ∈ t.front, g.length = 4 ∨ value g = 0

theorem length_words (t : Text) : t.words.length = 8 := by
  have hsize := t.size
  unfold words
  cases hback : t.back with
  | none => simpa [hback] using hsize
  | some back =>
    simp only [hback, Option.elim_some] at hsize
    simp
    omega

end Text

theorem IsGroup.token (h : IsGroup g) : g ≠ [] ∧ 0x3a ∉ g := by
  refine ⟨h.1, fun hc => ?_⟩
  have := h.2.2 _ hc
  cases this

theorem Text.tokens_text (t : Text) : tokens 0x3a t.text = t.front ++ t.back.getD [] := by
  have hgroups := t.isGroup
  have hfront : tokens 0x3a (intercalate [0x3a] t.front) = t.front :=
    Tokens.tokens_intercalate fun g hg => (hgroups g (mem_append_left _ hg)).token
  unfold text
  cases hback : t.back with
  | none => simpa using hfront
  | some back =>
    rw [hback] at hgroups
    have hback : tokens 0x3a (intercalate [0x3a] back) = back :=
      Tokens.tokens_intercalate fun g hg => (hgroups g (mem_append_right _ hg)).token
    have hnone : tokens 0x3a ((0x3a : UInt8) :: intercalate [0x3a] back) = back :=
      (Tokens.tokens_append [] _).trans hback
    rw [Tokens.tokens_append, hfront, hnone]
    rfl

theorem setAddress_text (old : List UInt8) (t : Text) : setAddress ⟨.ipv6, old⟩ t.text =
    .ok ⟨.ipv6, ((t.front ++ t.back.getD []).map misvalue).flatMap wordBytes⟩ := by
  simp only [setAddress, t.tokens_text, mapM_readGroup t.isGroup]
  simp [bind, Except.bind, pure, Except.pure, flatMap_def, Function.comp_def]

theorem Text.lt_of_mem_words (t : Text) {w : Nat} (hw : w ∈ t.words) : w < 65536 := by
  have hvalue (g : List UInt8) (hg : g ∈ t.front ++ t.back.getD []) : value g < 65536 :=
    (value_le_misvalue g).trans_lt (misvalue_lt (t.isGroup g hg))
  unfold words at hw
  cases hback : t.back with
  | none =>
    rw [hback] at hw hvalue
    obtain ⟨g, hg, rfl⟩ := mem_map.mp hw
    exact hvalue g (mem_append_left _ hg)
  | some back =>
    rw [hback] at hw hvalue
    simp only [mem_append, mem_map, mem_replicate] at hw
    obtain (⟨g, hg, rfl⟩ | ⟨-, rfl⟩) | ⟨g, hg, rfl⟩ := hw
    · exact hvalue g (mem_append_left _ hg)
    · decide
    · exact hvalue g (mem_append_right _ hg)

/-- The numbers that are read are those of the address exactly if the text is plain. -/
theorem Text.map_misvalue_eq_iff (t : Text) :
    (t.front ++ t.back.getD []).map misvalue = t.words ↔ t.Plain := by
  have hlen := t.length_words
  have hsize := t.size
  have hgroups := t.isGroup
  unfold Plain words at *
  cases hback : t.back with
  | none =>
    simp only [hback, Option.getD_none, append_nil, map_inj_left, true_and] at hgroups ⊢
    exact forall₂_congr fun g hg => misvalue_eq_value_iff (hgroups g hg).2.1
  | some back =>
    simp only [hback, Option.elim_some] at hlen hsize
    simp only [Option.getD_some, reduceCtorEq, false_and, iff_false]
    intro heq
    have hcount := congrArg length heq
    rw [hlen, length_map, length_append] at hcount
    omega

theorem setAddress_text_iff (old : List UInt8) (t : Text) :
    setAddress ⟨.ipv6, old⟩ t.text = .ok ⟨.ipv6, t.bytes⟩ ↔ t.Plain := by
  have hmis : ∀ w ∈ (t.front ++ t.back.getD []).map misvalue, w < 65536 := by
    intro w hw
    obtain ⟨g, hg, rfl⟩ := mem_map.mp hw
    exact misvalue_lt (t.isGroup g hg)
  rw [setAddress_text, ← t.map_misvalue_eq_iff, Text.bytes]
  constructor
  · intro h
    exact flatMap_wordBytes_inj hmis (fun _ => t.lt_of_mem_words) (congrArg addr (Except.ok.inj h))
  · intro h
    rw [h]

/-! ## There and back -/

theorem toStringHex_eq : ∀ b : UInt8,
    toStringHex b = [Hex.lower (b.toNat / 16), Hex.lower (b.toNat % 16)] :=
  Hex.forall_char (by decide +kernel)

/-- A group of four digits is read back. -/
theorem readGroup_hex (a b : UInt8) :
    IsGroup (toStringHex a ++ toStringHex b) ∧
      readGroup (toStringHex a ++ toStringHex b) = .ok [a, b] := by
  have ha : a.toNat < 256 := a.toNat_lt
  have hb : b.toNat < 256 := b.toNat_lt
  have hah := Hex.digit?_lower (show a.toNat / 16 < 16 by omega)
  have hal := Hex.digit?_lower (show a.toNat % 16 < 16 by omega)
  have hbh := Hex.digit?_lower (show b.toNat / 16 < 16 by omega)
  have hbl := Hex.digit?_lower (show b.toNat % 16 < 16 by omega)
  rw [toStringHex_eq, toStringHex_eq]
  constructor
  · exact ⟨by simp, by simp, by simp [hah, hal, hbh, hbl]⟩
  · simp [readGroup, digitAt, AddressMac.group_eq hah hal, AddressMac.group_eq hbh hbl,
      Nat.div_add_mod']

theorem isGroup_of_mem_groups {bs : List UInt8} (hg : g ∈ groups bs) : IsGroup g := by
  fun_induction groups bs with
  | case1 => cases hg
  | case2 b =>
    rw [mem_singleton.mp hg]
    exact (readGroup_hex b 0).1
  | case3 b b' bs ih =>
    obtain rfl | hg := mem_cons.mp hg
    · exact (readGroup_hex b b').1
    · exact ih hg

theorem mapM_readGroup_groups (bs : List UInt8) : ∃ gs, (groups bs).mapM readGroup = .ok gs ∧
    gs.flatten = bs ++ replicate (bs.length % 2) 0 := by
  fun_induction groups bs with
  | case1 => exact ⟨[], rfl, rfl⟩
  | case2 b =>
    refine ⟨[[b, 0]], ?_, rfl⟩
    rw [mapM_cons, (readGroup_hex b 0).2]
    rfl
  | case3 b b' bs ih =>
    obtain ⟨gs, hgs, hflat⟩ := ih
    refine ⟨[b, b'] :: gs, ?_, ?_⟩
    · rw [mapM_cons, (readGroup_hex b b').2, hgs]
      rfl
    · simp [hflat]
      omega

theorem setAddress_groups (old bs : List UInt8) :
    setAddress ⟨.ipv6, old⟩ (address ⟨.ipv6, bs⟩) =
      .ok ⟨.ipv6, bs ++ replicate (bs.length % 2) 0⟩ := by
  have htokens : tokens 0x3a (address ⟨.ipv6, bs⟩) = groups bs := by
    rw [address, AddressMac.dropLast_colons]
    exact Tokens.tokens_intercalate fun g hg => (isGroup_of_mem_groups hg).token
  obtain ⟨gs, hgs, hflat⟩ := mapM_readGroup_groups bs
  simp only [setAddress, htokens, hgs, ← hflat]
  rfl

/-- The text of an address in dotted form is read correctly, that of an IPv6 address if it is plain;
and every address with whole groups is read back. -/
theorem address_text (old bs : List UInt8) (t : Text) (x : IpAddr) :
    setAddress ⟨.ipv4, old⟩ (dotted bs) = .ok ⟨.ipv4, bs⟩ ∧
      (setAddress ⟨.ipv6, old⟩ t.text = .ok ⟨.ipv6, t.bytes⟩ ↔ t.Plain) ∧
      (x.setAddress x.address = .ok x ↔ (x.type = .ipv6 → x.addr.length % 2 = 0)) := by
  refine ⟨setAddress_dotted old bs, setAddress_text_iff old t, ?_⟩
  obtain ⟨type, addr⟩ := x
  cases type with
  | none => simp [setAddress]
  | ipv4 => simp [address, setAddress_dotted]
  | ipv6 =>
    rw [setAddress_groups]
    simp

/-- `1:2:3:4:5:6:7:8` is stored as `1000:2000:...:8000`, and `::1` as the two bytes `1000`. -/
theorem setAddress_misplaces :
    setAddress ⟨.ipv6, []⟩ [0x31, 0x3a, 0x32, 0x3a, 0x33, 0x3a, 0x34, 0x3a, 0x35, 0x3a, 0x36, 0x3a,
        0x37, 0x3a, 0x38] =
      .ok ⟨.ipv6, [0x10, 0, 0x20, 0, 0x30, 0, 0x40, 0, 0x50, 0, 0x60, 0, 0x70, 0, 0x80, 0]⟩ ∧
    setAddress ⟨.ipv6, []⟩ [0x3a, 0x3a, 0x31] = .ok ⟨.ipv6, [0x10, 0]⟩ :=
  ⟨rfl, rfl⟩

end IpAddr

end Odtone.Net
