import Mathlib.Data.List.TakeWhile
import Odtone.Support.Bits

/-! # Hexadecimal digits

Characters are bytes. `digit?` is the value of a digit of either case, `lower` writes one; two
digits make a byte, and a text may start with a number in digits.
-/

namespace Hex

open List

/-- The value of a hexadecimal digit. -/
def digit? (c : UInt8) : Option Nat :=
  if 0x30 ≤ c ∧ c ≤ 0x39 then some (c.toNat - 0x30)
  else if 0x41 ≤ c ∧ c ≤ 0x46 then some (c.toNat - 0x41 + 10)
  else if 0x61 ≤ c ∧ c ≤ 0x66 then some (c.toNat - 0x61 + 10)
  else none

/-- The digit of a value, in lower case. -/
def lower (n : Nat) : UInt8 := if n < 10 then 0x30 + UInt8.ofNat n else 0x61 + UInt8.ofNat n - 10

/-- Two digits and the byte they stand for. -/
def IsByte (cs : List UInt8) (b : UInt8) : Prop :=
  ∃ x y u v, cs = [x, y] ∧ digit? x = some u ∧ digit? y = some v ∧ b = UInt8.ofNat (u * 16 + v)

/-- A property of all characters is checked on the numbers below 256. -/
theorem forall_char {P : UInt8 → Prop} (h : ∀ n < 256, P (UInt8.ofNat n)) (c : UInt8) : P c :=
  Bits.forall_of_lt h c.toNat_lt

theorem digit?_lower {n : Nat} (h : n < 16) : digit? (lower n) = some n := by
  have hall : ∀ n < 16, digit? (lower n) = some n := by decide
  exact hall n h

theorem digit?_lt {c : UInt8} {v : Nat} (h : digit? c = some v) : v < 16 := by
  have hall : ∀ c, (digit? c).all (· < 16) = true := forall_char (by decide +kernel)
  simpa [h] using hall c

theorem join_digits {u v : Nat} (hu : u < 16) (hv : v < 16) :
    UInt8.ofNat u <<< 4 ||| UInt8.ofNat v = UInt8.ofNat (u * 16 + v) := by
  have hall : ∀ u < 16, ∀ v < 16,
      UInt8.ofNat u <<< 4 ||| UInt8.ofNat v = UInt8.ofNat (u * 16 + v) := by
    decide +kernel
  exact hall u hu v hv

/-! ## Numbers in a text -/

/-- The number that digits are written for. -/
def value (ds : List UInt8) : Nat := ds.foldl (fun n c => n * 16 + (digit? c).getD 0) 0

/-- The digits of a number, behind a `0x` if there is one. -/
def leadingDigits : List UInt8 → List UInt8
  | z :: x :: u =>
    if z = 0x30 ∧ (x = 0x78 ∨ x = 0x58) then z :: u.takeWhile fun c => (digit? c).isSome
    else (z :: x :: u).takeWhile fun c => (digit? c).isSome
  | t => t.takeWhile fun c => (digit? c).isSome

/-- The number at the start of a text as `%x` stores it in an `int`: blanks and a sign are skipped,
and `strtoul` saturates at 64 bits. -/
def scan (arg : List UInt8) : Option Int :=
  let s := arg.dropWhile fun c => c == 0x20 || (0x09 ≤ c && c ≤ 0x0d)
  let ds := leadingDigits (if s.head? = some 0x2b ∨ s.head? = some 0x2d then s.tail else s)
  let ul := if 2 ^ 64 ≤ value ds then 2 ^ 64 - 1
    else if s.head? = some 0x2d then 2 ^ 64 - value ds else value ds
  if ds = [] then none else some (BitVec.ofNat 32 ul).toInt

section Scan

variable {ds : List UInt8}

theorem ne_of_digit {c d : UInt8} (hc : (digit? c).isSome) (hd : digit? d = none) : c ≠ d := by
  rintro rfl
  simp [hd] at hc

theorem leadingDigits_eq_self (h : ∀ c ∈ ds, (digit? c).isSome) : leadingDigits ds = ds := by
  fun_cases leadingDigits ds with
  | case1 z x u hx =>
    have hx' := h x (by simp)
    exact absurd hx.2 (by simp [ne_of_digit hx' (by decide : digit? 0x78 = none),
      ne_of_digit hx' (by decide : digit? 0x58 = none)])
  | case2 | case3 => exact takeWhile_eq_self_iff.mpr h

/-- Nothing but digits is read as their number. -/
theorem scan_digits (hne : ds ≠ []) (h : ∀ c ∈ ds, (digit? c).isSome) (hv : value ds < 256) :
    scan ds = some (value ds : Int) := by
  obtain ⟨c, cs, rfl⟩ := exists_cons_of_ne_nil hne
  have hc := h c (by simp)
  have hblank : ∀ c : UInt8, (digit? c).isSome → (c == 0x20 || (0x09 ≤ c && c ≤ 0x0d)) = false :=
    forall_char (by decide +kernel)
  have hplus : c ≠ 0x2b := ne_of_digit hc (by decide)
  have hminus : c ≠ 0x2d := ne_of_digit hc (by decide)
  have hint : (BitVec.ofNat 32 (value (c :: cs))).toInt = value (c :: cs) := by
    rw [BitVec.toInt_eq_toNat_of_lt] <;> simp <;> omega
  simp only [scan, dropWhile_cons, hblank c hc, Bool.false_eq_true, if_false, head?_cons,
    Option.some.injEq, hplus, hminus, or_self, leadingDigits_eq_self h,
    show ¬ 2 ^ 64 ≤ value (c :: cs) by omega, hne, hint]

end Scan

theorem isByte_lower (b : UInt8) : IsByte [lower (b.toNat / 16), lower (b.toNat % 16)] b := by
  have hb : b.toNat < 256 := b.toNat_lt
  refine ⟨_, _, _, _, rfl, digit?_lower (by omega), digit?_lower (by omega), ?_⟩
  rw [Nat.div_add_mod', UInt8.ofNat_toNat]

theorem IsByte.length_eq {cs : List UInt8} {b : UInt8} (h : IsByte cs b) : cs.length = 2 := by
  obtain ⟨x, y, u, v, rfl, -, -, -⟩ := h
  rfl

theorem IsByte.zero_notMem {cs : List UInt8} {b : UInt8} (h : IsByte cs b) : 0 ∉ cs := by
  obtain ⟨x, y, u, v, rfl, hx, hy, -⟩ := h
  have hne {c : UInt8} {n : Nat} (hc : digit? c = some n) : 0 ≠ c := by
    rintro rfl
    cases hc
  simp [hne hx, hne hy]

end Hex
