import Mathlib.Data.List.Forall2
import Odtone.Support.Fill
import Odtone.Support.Hex

/-! # Text form of MAC addresses

`address_mac::from_string` reads six groups of two hexadecimal digits with colons between them. Its
loop has an exit at each character that does not fit, and what it has read is accepted if the exit
was taken in the last group and the string has ended. A last group that is cut off meets this as
well: then the last byte keeps its initial zero.

A string is the list of its characters, and the function sees those in front of the first zero.
-/

namespace Odtone.Net

open Hex (digit?)
open List Option

/-- The class `address_mac` -/
@[ext]
structure AddressMac where
  address : List UInt8
  length_address : address.length = 6

namespace AddressMac

/-- `address_mac()` -/
def empty : AddressMac := ⟨replicate 6 0, rfl⟩

/-! ## Reading -/

/-- `*str` -/
def peek (str : List UInt8) : UInt8 := str.headD 0

/-- `std::isxdigit` -/
def isxdigit (c : UInt8) : Bool := (digit? c).isSome

/-- `hex_to_int` -/
def hexToInt (c : UInt8) : UInt8 :=
  if 0x61 ≤ c then c - 0x61 + 0xA
  else if 0x41 ≤ c then c - 0x41 + 0xA
  else c - 0x30

/-- The variables of `from_string` -/
structure Scan where
  i : Nat
  address : List UInt8
  str : List UInt8
deriving DecidableEq

/-- The loop of `from_string`, with `n` rounds left. -/
def scan : Nat → Scan → Scan
  | 0, s => s
  | n + 1, s =>
    if !isxdigit (peek s.str) then s
    else
      let hi := hexToInt (peek s.str)
      let s := { s with str := s.str.tail }
      if !isxdigit (peek s.str) then s
      else
        let lo := hexToInt (peek s.str)
        let s := { s with str := s.str.tail, address := s.address.set s.i (hi <<< 4 ||| lo) }
        if peek s.str ≠ 0x3a then s
        else scan n { s with i := s.i + 1, str := s.str.tail }

theorem length_scan (n : Nat) (s : Scan) : (scan n s).address.length = s.address.length := by
  induction n generalizing s with
  | zero => rfl
  | succ n ih =>
    simp only [scan]
    split_ifs
    · rfl
    · rfl
    · exact length_set
    · exact (ih _).trans length_set

/-- `from_string(const char*)` -/
def fromCStr (str : List UInt8) : AddressMac :=
  let s := scan 6 ⟨0, empty.address, str⟩
  if s.i + 1 ≠ 6 ∨ peek s.str ≠ 0 then empty
  else ⟨s.address, length_scan 6 _⟩

/-- `c_str()`, without the terminating zero. -/
def cStr (str : List UInt8) : List UInt8 := str.takeWhile (· ≠ 0)

/-- `from_string(const std::string&)` -/
def fromString (str : List UInt8) : AddressMac := fromCStr (cStr str)

/-! ## Writing -/

/-- A half byte as `to_string` writes it. -/
def nibble (t : UInt8) : UInt8 := if t < 10 then t + 0x30 else t + (0x61 - 10)

/-- `to_string` -/
def toString (m : AddressMac) : List UInt8 :=
  (m.address.flatMap fun b : UInt8 => [nibble (b >>> 4), nibble (b &&& 0x0f), 0x3a]).dropLast

/-! ## Six groups -/

/-- Each group with the colon behind it. -/
def colons (gs : List (List UInt8)) : List UInt8 := gs.flatMap (· ++ [0x3a])

/-- The string is six groups of two digits with colons between them, and they stand for the bytes of
the address. -/
def IsText (str : List UInt8) (m : AddressMac) : Prop :=
  ∃ gs, str = intercalate [0x3a] gs ∧ Forall₂ Hex.IsByte gs m.address

/-- The string ends inside the sixth group; the bytes of the first five groups are `bs`. -/
def IsCutOff (str bs : List UInt8) : Prop :=
  ∃ gs tail, bs.length = 5 ∧ Forall₂ Hex.IsByte gs bs ∧ str = colons gs ++ tail ∧
    tail.length ≤ 1 ∧ ∀ c ∈ tail, (digit? c).isSome

/-! ## What is read -/

variable {gs : List (List UInt8)} {g bs r str : List UInt8} {b : UInt8} {n : Nat}

theorem hexToInt_of_digit {x : UInt8} {u : Nat} (hx : digit? x = some u) :
    hexToInt x = UInt8.ofNat u := by
  have hall : ∀ c, (digit? c).all (fun v => hexToInt c == UInt8.ofNat v) = true :=
    Hex.forall_char (by decide +kernel)
  simpa [hx] using hall x

/-- Two digits are read as the byte they stand for. -/
theorem group_eq {x y : UInt8} {u v : Nat} (hx : digit? x = some u) (hy : digit? y = some v) :
    hexToInt x <<< 4 ||| hexToInt y = UInt8.ofNat (u * 16 + v) := by
  rw [hexToInt_of_digit hx, hexToInt_of_digit hy,
    Hex.join_digits (Hex.digit?_lt hx) (Hex.digit?_lt hy)]

section Rounds

variable {i : Nat} {a : List UInt8} {x y : UInt8}

theorem scan_noDigit (h : ¬ isxdigit (peek str)) : scan (n + 1) ⟨i, a, str⟩ = ⟨i, a, str⟩ := by
  simp [scan, h]

theorem scan_oneDigit (hx : isxdigit x) (h : ¬ isxdigit (peek r)) :
    scan (n + 1) ⟨i, a, x :: r⟩ = ⟨i, a, r⟩ := by
  simp [scan, peek, hx] at h ⊢
  simp [h]

theorem scan_twoDigits (hx : isxdigit x) (hy : isxdigit y) (h : peek r ≠ 0x3a) :
    scan (n + 1) ⟨i, a, x :: y :: r⟩ = ⟨i, a.set i (hexToInt x <<< 4 ||| hexToInt y), r⟩ := by
  simp [scan, peek, hx, hy] at h ⊢
  simp [h]

theorem scan_colon (hx : isxdigit x) (hy : isxdigit y) :
    scan (n + 1) ⟨i, a, x :: y :: 0x3a :: r⟩ =
      scan n ⟨i + 1, a.set i (hexToInt x <<< 4 ||| hexToInt y), r⟩ := by
  simp [scan, peek, hx, hy]

/-- The loop passes groups with colons behind them and then stops, before the last round within a
group of which it may have read some digits. -/
theorem scan_stops (n i : Nat) (a str : List UInt8) :
    ∃ gs bs front, Forall₂ Hex.IsByte gs bs ∧ str = colons gs ++ front ++ (scan n ⟨i, a, str⟩).str ∧
      (scan n ⟨i, a, str⟩).i = i + bs.length ∧
      (bs.length = n ∨ front.length ≤ 2 ∧ ∀ c ∈ front, isxdigit c) := by
  induction n generalizing i a str with
  | zero => exact ⟨[], [], [], .nil, rfl, rfl, .inl rfl⟩
  | succ n ih =>
    have hpeek {str : List UInt8} (h : isxdigit (peek str)) :
        ∃ c r, str = c :: r ∧ isxdigit c := by
      cases str with
      | nil => cases h
      | cons c r => exact ⟨c, r, rfl, h⟩
    by_cases hstr : isxdigit (peek str)
    · obtain ⟨x, r, rfl, hx⟩ := hpeek hstr
      by_cases hr : isxdigit (peek r)
      · obtain ⟨y, r, rfl, hy⟩ := hpeek hr
        by_cases hcolon : peek r = 0x3a
        · obtain ⟨r, rfl⟩ : ∃ r', r = 0x3a :: r' := by
            cases r with
            | nil => cases hcolon
            | cons c r => exact ⟨r, congrArg (· :: r) hcolon⟩
          obtain ⟨u, hu⟩ := isSome_iff_exists.mp hx
          obtain ⟨v, hv⟩ := isSome_iff_exists.mp hy
          rw [scan_colon hx hy]
          obtain ⟨gs, bs, front, hgs, hstr, hi, hfront⟩ :=
            ih (i + 1) (a.set i (hexToInt x <<< 4 ||| hexToInt y)) r
          refine ⟨[x, y] :: gs, _ :: bs, front, .cons ⟨x, y, u, v, rfl, hu, hv, rfl⟩ hgs, ?_⟩
          refine ⟨congrArg ([x, y, 0x3a] ++ ·) hstr, ?_, ?_⟩
          · rw [hi, length_cons]
            omega
          · rw [length_cons, Nat.add_right_cancel_iff]
            exact hfront
        · rw [scan_twoDigits hx hy hcolon]
          exact ⟨[], [], [x, y], .nil, rfl, rfl, .inr ⟨le_rfl, by simp [hx, hy]⟩⟩
      · rw [scan_oneDigit hx hr]
        exact ⟨[], [], [x], .nil, rfl, rfl, .inr ⟨by simp, by simp [hx]⟩⟩
    · rw [scan_noDigit hstr]
      exact ⟨[], [], [], .nil, rfl, rfl, .inr ⟨by decide, by simp⟩⟩

end Rounds

/-- The variables of the loop after the bytes `bs`. -/
def after (bs str : List UInt8) : Scan := ⟨bs.length, Fill.pad 6 0 bs, str⟩

/-- A group with a colon behind it is one round of the loop. -/
theorem scan_group (hg : Hex.IsByte g b) (hbs : bs.length < 6) :
    scan (n + 1) (after bs (g ++ [0x3a] ++ r)) = scan n (after (bs ++ [b]) r) := by
  obtain ⟨x, y, u, v, rfl, hx, hy, rfl⟩ := hg
  refine (scan_colon (isSome_of_eq_some hx) (isSome_of_eq_some hy)).trans ?_
  rw [group_eq hx hy, Fill.set_pad rfl hbs, after, length_append, length_singleton]
  rfl

theorem scan_colons (h : Forall₂ Hex.IsByte gs bs) (cs : List UInt8)
    (hlen : cs.length + bs.length ≤ 6) :
    scan (bs.length + n) (after cs (colons gs ++ r)) = scan n (after (cs ++ bs) r) := by
  induction h generalizing cs with
  | nil => simp [colons]
  | @cons g b gs bs hg h ih =>
    rw [length_cons] at hlen
    have hstr : colons (g :: gs) ++ r = g ++ [0x3a] ++ (colons gs ++ r) := by simp [colons]
    have hround := scan_group (n := bs.length + n) (r := colons gs ++ r) hg
      (show cs.length < 6 by omega)
    rw [hstr, length_cons, Nat.add_right_comm, hround, ih _ (by simp; omega)]
    simp

/-- Five groups with colons behind them lead to the last round. -/
theorem scan_five (h : Forall₂ Hex.IsByte gs bs) (hlen : bs.length = 5) :
    scan 6 ⟨0, empty.address, colons gs ++ r⟩ = scan 1 (after bs r) := by
  have h := scan_colons (n := 1) (r := r) h [] (by rw [hlen]; decide)
  rwa [hlen] at h

theorem intercalate_colons (gs : List (List UInt8)) (g : List UInt8) :
    intercalate [0x3a] (gs ++ [g]) = colons gs ++ g := by
  induction gs with
  | nil => simp [colons, intercalate]
  | cons h gs ih =>
    obtain ⟨k, ks, hks⟩ : ∃ k ks, gs ++ [g] = k :: ks := exists_cons_of_ne_nil (concat_ne_nil g gs)
    rw [cons_append, hks, intercalate_cons_cons, ← hks, ih]
    simp [colons]

theorem dropLast_colons (gs : List (List UInt8)) :
    (colons gs).dropLast = intercalate [0x3a] gs := by
  obtain rfl | ⟨hs, g, rfl⟩ := eq_nil_or_concat gs
  · rfl
  · rw [concat_eq_append, intercalate_colons]
    simp [colons, ← append_assoc]

variable {m : AddressMac}

/-- Six groups are five with a colon behind them and one more. -/
theorem isText_iff : IsText str m ↔ ∃ gs g bs b, str = colons gs ++ g ∧
    bs.length = 5 ∧ Forall₂ Hex.IsByte gs bs ∧ Hex.IsByte g b ∧ m.address = bs ++ [b] := by
  constructor
  · rintro ⟨gs, rfl, hgs⟩
    have hsplit : m.address = m.address.take 5 ++ m.address.drop 5 := (take_append_drop 5 _).symm
    obtain ⟨b, hb⟩ := length_eq_one_iff.mp
      (show (m.address.drop 5).length = 1 by simp [m.length_address])
    have hlen : (m.address.take 5).length = 5 := by simp [m.length_address]
    rw [hsplit] at hgs
    have hfive := forall₂_take_append gs _ _ hgs
    have hlast := forall₂_drop_append gs _ _ hgs
    rw [hlen] at hfive hlast
    rw [hb] at hlast
    obtain ⟨g, _, hg, hnil, hdrop⟩ := forall₂_cons_right_iff.mp hlast
    obtain rfl := forall₂_nil_right_iff.mp hnil
    refine ⟨gs.take 5, g, m.address.take 5, b, ?_, hlen, hfive, hg, hb ▸ hsplit⟩
    rw [← intercalate_colons, ← hdrop, take_append_drop]
  · rintro ⟨gs, g, bs, b, rfl, -, hgs, hg, hm⟩
    refine ⟨gs ++ [g], (intercalate_colons gs g).symm, ?_⟩
    rw [hm]
    exact rel_append hgs (.cons hg .nil)

theorem fromCStr_of_scan {a : List UInt8} (h : scan 6 ⟨0, empty.address, str⟩ = ⟨5, a, []⟩) :
    (fromCStr str).address = a := by
  simp [fromCStr, h, peek]

/-- Five groups and a complete one are accepted. -/
theorem fromCStr_complete (h : Forall₂ Hex.IsByte gs bs) (hlen : bs.length = 5)
    (hg : Hex.IsByte g b) : (fromCStr (colons gs ++ g)).address = bs ++ [b] := by
  obtain ⟨x, y, u, v, rfl, hx, hy, rfl⟩ := hg
  apply fromCStr_of_scan
  rw [scan_five h hlen, after, scan_twoDigits (isSome_of_eq_some hx)
    (isSome_of_eq_some hy) (by decide), group_eq hx hy, Fill.set_pad rfl (by omega),
    Fill.pad_of_length (by simp [hlen]), hlen]

/-- So is a string that ends within the sixth group; the sixth byte stays zero. -/
theorem fromCStr_cutOff (h : IsCutOff str bs) : (fromCStr str).address = bs ++ [0] := by
  obtain ⟨gs, tail, hlen, hgs, rfl, htail, hdigits⟩ := h
  apply fromCStr_of_scan
  have hpad : Fill.pad 6 (0 : UInt8) bs = bs ++ [0] := by
    rw [Fill.pad_default (by omega), Fill.pad_of_length (by simp [hlen])]
  rw [scan_five hgs hlen, after, hpad, hlen]
  match tail with
  | [] => exact scan_noDigit (by decide)
  | [x] => exact scan_oneDigit (hdigits x (by simp)) (by decide)

theorem IsCutOff.fromCStr_eq_empty_iff (h : IsCutOff str bs) :
    fromCStr str = empty ↔ ∀ b ∈ bs, b = 0 := by
  have hlen : bs.length = 5 := by
    obtain ⟨_, _, hlen, -⟩ := h
    exact hlen
  rw [AddressMac.ext_iff, fromCStr_cutOff h, empty, eq_replicate_iff]
  simp [hlen, or_imp]

theorem fromCStr_of_isText (h : IsText str m) : fromCStr str = m := by
  obtain ⟨gs, g, bs, b, rfl, hlen, hgs, hg, hm⟩ := isText_iff.mp h
  ext1
  rw [fromCStr_complete hgs hlen hg, hm]

theorem fromCStr_cases (hzero : 0 ∉ str) :
    fromCStr str = empty ∨ (∃ m, IsText str m) ∨ ∃ bs, IsCutOff str bs := by
  by_cases hacc : (scan 6 ⟨0, empty.address, str⟩).i + 1 ≠ 6 ∨
      peek (scan 6 ⟨0, empty.address, str⟩).str ≠ 0
  · exact .inl (if_pos hacc)
  · right
    obtain ⟨gs, bs, front, hgs, hstr, hi, hfront⟩ := scan_stops 6 0 empty.address str
    generalize scan 6 ⟨0, empty.address, str⟩ = c at *
    push Not at hacc
    have hlen : bs.length = 5 := by omega
    have hend : c.str = [] := by
      cases hc : c.str with
      | nil => rfl
      | cons d r =>
        refine absurd ?_ hzero
        rw [hstr, hc, ← show d = 0 by simpa [hc, peek] using hacc.2]
        simp
    obtain hfull | ⟨hle, hdigits⟩ := hfront
    · omega
    rw [hend, append_nil] at hstr
    obtain htwo | htail : front.length = 2 ∨ front.length ≤ 1 := by omega
    · obtain ⟨x, y, rfl⟩ := length_eq_two.mp htwo
      obtain ⟨u, hu⟩ := isSome_iff_exists.mp (hdigits x (by simp))
      obtain ⟨v, hv⟩ := isSome_iff_exists.mp (hdigits y (by simp))
      refine .inl ⟨⟨bs ++ [UInt8.ofNat (u * 16 + v)], by simp [hlen]⟩, isText_iff.mpr ?_⟩
      exact ⟨gs, [x, y], bs, _, hstr, hlen, hgs, ⟨x, y, u, v, rfl, hu, hv, rfl⟩, rfl⟩
    · exact .inr ⟨bs, gs, front, hlen, hgs, hstr, htail, hdigits⟩

/-! ## What should be read -/

/-- The answer for a string: the bytes that are written, or the empty address. -/
def Exact (str : List UInt8) (m : AddressMac) : Prop :=
  IsText str m ∨ (¬ ∃ m', IsText str m') ∧ m = empty

/-- The strings that are read as an address they do not stand for: the sixth group is cut off, or a
complete address is followed by a zero. In both cases the address is not the empty one. -/
def Misread (str : List UInt8) : Prop :=
  (∃ bs, IsCutOff (cStr str) bs ∧ ∃ b ∈ bs, b ≠ 0) ∨ 0 ∈ str ∧ ∃ m, IsText (cStr str) m ∧ m ≠ empty

theorem length_colons (h : Forall₂ Hex.IsByte gs bs) : (colons gs).length = 3 * bs.length := by
  induction h with
  | nil => rfl
  | cons hg _ ih =>
    simp only [colons, flatMap_cons, length_append, hg.length_eq, length_cons, length_nil] at ih ⊢
    omega

theorem IsCutOff.not_isText (h : IsCutOff str bs) : ¬ IsText str m := by
  intro ht
  obtain ⟨gs, tail, hlen, hgs, rfl, htail, -⟩ := h
  obtain ⟨gs', g, bs', b, heq, hlen', hgs', hg, -⟩ := isText_iff.mp ht
  have hlength := congrArg length heq
  rw [length_append, length_append, length_colons hgs, length_colons hgs', hlen, hlen',
    hg.length_eq] at hlength
  omega

theorem zero_notMem_colons (h : Forall₂ Hex.IsByte gs bs) : 0 ∉ colons gs := by
  induction h with
  | nil => exact not_mem_nil
  | cons hg _ ih => simpa [colons, hg.zero_notMem] using ih

theorem IsText.zero_notMem (h : IsText str m) : 0 ∉ str := by
  obtain ⟨gs, g, bs, b, rfl, -, hgs, hg, -⟩ := isText_iff.mp h
  rw [mem_append, not_or]
  exact ⟨zero_notMem_colons hgs, hg.zero_notMem⟩

theorem cStr_of_zero_notMem (h : 0 ∉ str) : cStr str = str := by
  refine takeWhile_eq_self_iff.mpr fun c hc => decide_eq_true ?_
  rintro rfl
  exact h hc

theorem zero_notMem_cStr (str : List UInt8) : 0 ∉ cStr str := by
  intro h
  simpa using mem_takeWhile_imp h

theorem isText_toString (m : AddressMac) : IsText m.toString m := by
  have hnibble : ∀ b : UInt8, nibble (b >>> 4) = Hex.lower (b.toNat / 16) ∧
      nibble (b &&& 0x0f) = Hex.lower (b.toNat % 16) := Hex.forall_char (by decide +kernel)
  have hgroup : ∀ b : UInt8, Hex.IsByte [nibble (b >>> 4), nibble (b &&& 0x0f)] b := by
    intro b
    rw [(hnibble b).1, (hnibble b).2]
    exact Hex.isByte_lower b
  refine ⟨m.address.map fun b : UInt8 => [nibble (b >>> 4), nibble (b &&& 0x0f)], ?_, ?_⟩
  · rw [← dropLast_colons, colons, flatMap_map]
    rfl
  · rw [forall₂_map_left_iff]
    exact forall₂_same.mpr fun b _ => hgroup b

/-- Reading is exact but for the strings that are misread, and reads back what is written. -/
theorem fromString_exact_iff (str : List UInt8) (m : AddressMac) :
    (Exact str (fromString str) ↔ ¬ Misread str) ∧ fromString m.toString = m := by
  constructor
  · constructor
    · rintro (htext | ⟨hno, hempty⟩) hmis
      · rw [Misread, cStr_of_zero_notMem htext.zero_notMem] at hmis
        obtain ⟨bs, hcut, -⟩ | ⟨hzero, -⟩ := hmis
        · exact hcut.not_isText htext
        · exact htext.zero_notMem hzero
      · obtain ⟨bs, hcut, b, hb, hne⟩ | ⟨-, m', htext, hne⟩ := hmis
        · exact hne (hcut.fromCStr_eq_empty_iff.mp hempty b hb)
        · exact hne ((fromCStr_of_isText htext).symm.trans hempty)
    · intro hmis
      by_cases htext : ∃ m, IsText str m
      · obtain ⟨m, htext⟩ := htext
        have hm : fromString str = m := by
          rw [fromString, cStr_of_zero_notMem htext.zero_notMem, fromCStr_of_isText htext]
        exact .inl (hm ▸ htext)
      · refine .inr ⟨htext, ?_⟩
        obtain hempty | ⟨m', hm'⟩ | ⟨bs, hcut⟩ := fromCStr_cases (zero_notMem_cStr str)
        · exact hempty
        · by_contra hne
          rw [fromString, fromCStr_of_isText hm'] at hne
          refine hmis (.inr ⟨?_, m', hm', hne⟩)
          by_contra hzero
          rw [cStr_of_zero_notMem hzero] at hm'
          exact htext ⟨m', hm'⟩
        · refine hcut.fromCStr_eq_empty_iff.mpr fun b hb => ?_
          by_contra hne
          exact hmis (.inl ⟨bs, hcut, b, hb, hne⟩)
  · rw [fromString, cStr_of_zero_notMem (isText_toString m).zero_notMem,
      fromCStr_of_isText (isText_toString m)]

/-- `aa:bb:cc:dd:ee:` is read as an address. -/
theorem fromString_not_exact :
    let str : List UInt8 := [0x61, 0x61, 0x3a, 0x62, 0x62, 0x3a, 0x63, 0x63, 0x3a, 0x64, 0x64, 0x3a,
      0x65, 0x65, 0x3a]
    (fromString str).address = [0xaa, 0xbb, 0xcc, 0xdd, 0xee, 0x00] ∧
      ¬ Exact str (fromString str) := by
  intro str
  have haddr : (fromString str).address = [0xaa, 0xbb, 0xcc, 0xdd, 0xee, 0x00] := by decide
  refine ⟨haddr, ?_⟩
  rintro (htext | ⟨-, hempty⟩)
  · obtain ⟨gs, g, bs, b, hstr, hlen, hgs, hg, -⟩ := isText_iff.mp htext
    have hlength := congrArg length hstr
    rw [length_append, length_colons hgs, hlen, hg.length_eq] at hlength
    exact absurd hlength (by decide)
  · rw [hempty] at haddr
    exact absurd haddr (by decide)

end AddressMac

end Odtone.Net
