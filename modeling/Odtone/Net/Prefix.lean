import Mathlib.Data.Nat.Bitwise

/-! # IPv6 prefixes

`prefix_v6`, its comparisons and `match`. Those that order prefixes are the ones of a total order
and `match` compares the leading bits, but `operator!=` asks for both lengths and bytes to
differ. -/

namespace Odtone.Net

/-- `address_v6::bytes_type` -/
abbrev BytesV6 := Vector UInt8 16

/-- A prefix; the constructors take no length over 128. -/
structure PrefixV6 where
  length : UInt8
  bytes : BytesV6
  length_le : length.toNat ≤ 128

namespace PrefixV6

/-- `prefix_v6(const bytes_type&, uint)` -/
def ofBytes (addr : BytesV6) (length : Nat) : PrefixV6 :=
  if h : 128 < length then ⟨0, .replicate 16 0, by decide⟩
  else ⟨.ofNat length, addr, by rw [UInt8.toNat_ofNat']; omega⟩

variable (p q : PrefixV6) (a : BytesV6)

/-- `operator!=` -/
def ne : Bool := p.length ≠ q.length && p.bytes ≠ q.bytes

/-- `operator<`; `boost::array` compares lexicographically. -/
def lt : Bool := p.length < q.length || (p.length = q.length && p.bytes < q.bytes)

/-- `operator<=` -/
def le : Bool := p.length < q.length || (p.length = q.length && p.bytes ≤ q.bytes)

/-- `operator==` -/
def eq : Bool := p.length = q.length && p.bytes = q.bytes

/-- `operator>` -/
def gt : Bool := p.length > q.length || (p.length = q.length && p.bytes > q.bytes)

/-- `0xff << (8 - bit_offset)` as an `uchar` -/
def mask (bitOffset : Nat) : UInt8 := .ofNat (0xff <<< (8 - bitOffset))

/-- `match` -/
def isMatch : Bool :=
  let byteOffset := p.length.toNat / 8
  let bitOffset := p.length.toNat % 8
  if p.bytes.toList.take byteOffset ≠ a.toList.take byteOffset then false
  else if h : bitOffset ≠ 0 then
    have : byteOffset < 16 := by have := p.length_le; omega
    p.bytes[byteOffset] &&& mask bitOffset = a[byteOffset] &&& mask bitOffset
  else true

/-- The first `n` bits of two addresses are equal; the bits of a byte count from the top. -/
def SameBits (n : Nat) (x y : BytesV6) : Prop :=
  ∀ j (_ : j < 16), ∀ t < 8, 8 * j + t < n → x[j].toNat.testBit (7 - t) = y[j].toNat.testBit (7 - t)

theorem exactly_one : [lt p q, eq p q, gt p q].count true = 1 := by
  by_cases hl : p.length = q.length
  · by_cases hb : p.bytes = q.bytes
    · simp [lt, eq, gt, hl, hb, Vector.lt_irrefl]
    · obtain h | h : p.bytes < q.bytes ∨ q.bytes < p.bytes := by grind
      all_goals simp [lt, eq, gt, hl, hb, h, Vector.lt_asymm h]
  · obtain h | h := UInt8.lt_or_lt_of_ne hl
    all_goals simp [lt, eq, gt, hl, h, UInt8.lt_asymm h]

theorem le_eq_not_gt : le p q = !gt p q := by
  by_cases hl : p.length = q.length
  · simp [le, gt, hl, ← Vector.not_lt]
  · obtain h | h := UInt8.lt_or_lt_of_ne hl
    all_goals simp [le, gt, hl, h, UInt8.lt_asymm h]

theorem ne_eq_not_eq_iff : ne p q = !eq p q ↔ (p.length = q.length ↔ p.bytes = q.bytes) := by
  by_cases hl : p.length = q.length <;> by_cases hb : p.bytes = q.bytes <;> simp [ne, eq, hl, hb]

theorem testBit_mask {k i : Nat} (hk : k ≤ 8) :
    (mask k).toNat.testBit i = decide (8 - k ≤ i ∧ i < 8) := by
  rw [mask, UInt8.toNat_ofNat', Nat.testBit_mod_two_pow, Nat.testBit_shiftLeft,
    Nat.testBit_two_pow_sub_one (n := 8)]
  grind

theorem and_mask_eq_iff {x y : UInt8} {k : Nat} (hk : k ≤ 8) :
    x &&& mask k = y &&& mask k ↔ ∀ j < k, x.toNat.testBit (7 - j) = y.toNat.testBit (7 - j) := by
  rw [← UInt8.toNat_inj, UInt8.toNat_and, UInt8.toNat_and]
  constructor
  · intro h j hj
    have h := congrArg (·.testBit (7 - j)) h
    simpa [testBit_mask hk, show 8 - k ≤ 7 - j ∧ 7 - j < 8 by omega] using h
  · refine fun h => Nat.eq_of_testBit_eq fun i => ?_
    rw [Nat.testBit_and, Nat.testBit_and, testBit_mask hk]
    by_cases hi : 8 - k ≤ i ∧ i < 8
    · have h := h (7 - i) (by omega)
      rw [show 7 - (7 - i) = i by omega] at h
      rw [h]
    · rw [decide_eq_false hi, Bool.and_false, Bool.and_false]

theorem byte_eq_iff {x y : UInt8} :
    x = y ↔ ∀ j < 8, x.toNat.testBit (7 - j) = y.toNat.testBit (7 - j) := by
  rw [← and_mask_eq_iff le_rfl, show mask 8 = -1 from rfl, UInt8.and_neg_one, UInt8.and_neg_one]

theorem take_eq_iff {x y : BytesV6} {n : Nat} :
    x.toList.take n = y.toList.take n ↔ ∀ j (_ : j < 16), j < n → x[j] = y[j] := by
  constructor
  · intro h j hj hn
    have hbyte := List.getElem_of_eq h (i := j) (by simp; omega)
    rwa [List.getElem_take, List.getElem_take] at hbyte
  · refine fun h => List.ext_getElem (by simp) fun j hj _ => ?_
    rw [List.length_take, Vector.length_toList, Nat.lt_min] at hj
    rw [List.getElem_take, List.getElem_take]
    exact h j hj.2 hj.1

/-- Whole bytes and the bits under the mask make up the leading bits. -/
theorem isMatch_iff : p.isMatch a ↔ SameBits p.length.toNat p.bytes a := by
  have hle := p.length_le
  dsimp only [isMatch]
  constructor
  · intro h j hj t ht hlt
    split_ifs at h with hne hrest
    all_goals have hbytes := take_eq_iff.mp (not_not.mp hne) j hj
    · by_cases hn : j < p.length.toNat / 8
      · rw [hbytes hn]
      · obtain rfl : j = p.length.toNat / 8 := by omega
        exact (and_mask_eq_iff (by omega)).mp (of_decide_eq_true h) t (by omega)
    · rw [hbytes (by omega)]
  · intro h
    have hbytes := take_eq_iff.mpr fun j hj (hn : j < p.length.toNat / 8) =>
      byte_eq_iff.mpr fun t ht => h j hj t ht (by omega)
    rw [if_neg (not_not.mpr hbytes)]
    split_ifs with hrest
    · rw [decide_eq_true_iff, and_mask_eq_iff (by omega)]
      exact fun t ht => h _ _ t (by omega) (by omega)
    · rfl

/-- What the operators on two prefixes should say, and `match` on the first one. -/
structure Laws : Prop where
  exactly_one : [lt p q, eq p q, gt p q].count true = 1
  ne : ne p q = !eq p q
  le : le p q = !gt p q
  isMatch (a : BytesV6) : p.isMatch a ↔ SameBits p.length.toNat p.bytes a

theorem laws_iff : Laws p q ↔ (p.length = q.length ↔ p.bytes = q.bytes) :=
  ⟨fun h => (ne_eq_not_eq_iff p q).mp h.ne,
    fun h => ⟨exactly_one p q, (ne_eq_not_eq_iff p q).mpr h, le_eq_not_gt p q, isMatch_iff p⟩⟩

/-- Two networks of one length are neither equal nor different. -/
theorem not_laws_sample : ¬ Laws (ofBytes (.replicate 16 0) 64) (ofBytes (.replicate 16 1) 64) := by
  intro h
  exact absurd h.ne (by decide)

variable {p q a} in
/-- Of two prefixes that match an address the shorter one matches all those of the other. -/
theorem isMatch_of_common (hle : q.length.toNat ≤ p.length.toNat) (hp : p.isMatch a)
    (hq : q.isMatch a) (b : BytesV6) (hb : p.isMatch b) : q.isMatch b := by
  rw [isMatch_iff] at *
  intro j hj t ht hlt
  have hab := (hp j hj t ht (by omega)).symm.trans (hb j hj t ht (by omega))
  exact (hq j hj t ht hlt).trans hab

/-- The addresses that two prefixes match are nested or disjoint. -/
theorem isMatch_nested : (∀ a, p.isMatch a → q.isMatch a) ∨ (∀ a, q.isMatch a → p.isMatch a) ∨
    ∀ a, p.isMatch a → ¬ q.isMatch a := by
  by_cases hcommon : ∃ a, p.isMatch a ∧ q.isMatch a
  · obtain ⟨a, hp, hq⟩ := hcommon
    rcases Nat.le_total q.length.toNat p.length.toNat with hle | hle
    · exact .inl (isMatch_of_common hle hp hq)
    · exact .inr (.inl (isMatch_of_common hle hq hp))
  · exact .inr (.inr fun a hp hq => hcommon ⟨a, hp, hq⟩)

end PrefixV6

end Odtone.Net
