import Mathlib.Data.Vector.Basic
import Mathlib.Data.UInt

/-! # Bitmaps

Sets of small numbers as arrays of bytes, bit `i` of the set being bit `i % 8` of byte `i / 8`.
Every operation is described by the bits of its result, and two bitmaps with the same bits are
equal. -/

/-- A bitmap of `n` bytes. -/
abbrev Bitmap (n : Nat) := List.Vector UInt8 n

namespace Bitmap

open List

variable {n : Nat}

/-- The bitmap without a bit. -/
def empty (n : Nat) : Bitmap n := List.Vector.replicate n 0

/-- The bitmap with all bits. -/
def full (n : Nat) : Bitmap n := List.Vector.replicate n 0xff

/-- A byte of the bitmap. -/
def byte (b : Bitmap n) (k : Nat) : UInt8 := b.toList.getD k 0

def get (b : Bitmap n) (i : Nat) : Bool := (b.byte (i / 8)).toNat.testBit (i % 8)

/-- The byte in which only bit `i % 8` is set. -/
def mask (i : Nat) : UInt8 := 1 <<< UInt8.ofNat (i % 8)

def set (b : Bitmap n) (i : Nat) : Bitmap n :=
  ⟨b.toList.modify (i / 8) (· ||| mask i), by simp⟩

def clear (b : Bitmap n) (i : Nat) : Bitmap n :=
  ⟨b.toList.modify (i / 8) (· &&& ~~~mask i), by simp⟩

def merge (b c : Bitmap n) : Bitmap n := List.Vector.map₂ (· ||| ·) b c

def common (b c : Bitmap n) : Bitmap n := List.Vector.map₂ (· &&& ·) b c

def except (b c : Bitmap n) : Bitmap n := List.Vector.map₂ (fun x y => x &&& ~~~y) b c

/-- Set the bits of `b` among `is` in an empty bitmap, one after the other. -/
def copy (is : List Nat) (b : Bitmap n) : Bitmap n :=
  is.foldl (fun c i => if b.get i then c.set i else c) (empty n)

/-! ## Bytes -/

variable {b c : Bitmap n} {i j : Nat} {α : Type}

theorem byte_of_le {k : Nat} (h : n ≤ k) : b.byte k = 0 := by
  simp [byte, getD_eq_getElem?_getD, h]

@[simp] theorem byte_replicate (x : UInt8) (k : Nat) :
    byte (List.Vector.replicate n x) k = if k < n then x else 0 := by
  rw [byte]
  delta List.Vector.replicate
  simp only [List.Vector.toList_mk, List.getD_eq_getElem?_getD, List.getElem?_replicate]
  split_ifs <;> rfl

@[simp] theorem byte_modify (b : Bitmap n) (i k : Nat) (f : UInt8 → UInt8)
    (h : (b.toList.modify i f).length = n) :
    byte ⟨b.toList.modify i f, h⟩ k = if k < n ∧ k = i then f (b.byte k) else b.byte k := by
  simp only [byte, List.Vector.toList_mk, getD_eq_getElem?_getD, getElem?_modify]
  rcases Nat.lt_or_ge k n with hk | hk
  · by_cases hi : i = k
    · simp [hi, hk]
    · simp [hi, Ne.symm hi]
  · simp [Nat.not_lt.mpr hk]

@[simp] theorem byte_map₂ (b c : Bitmap n) (f : UInt8 → UInt8 → UInt8) (k : Nat) :
    byte (List.Vector.map₂ f b c) k = if k < n then f (b.byte k) (c.byte k) else 0 := by
  obtain ⟨b, hb⟩ := b
  obtain ⟨c, hc⟩ := c
  simp only [byte, List.Vector.map₂, List.Vector.toList_mk, List.getD_eq_getElem?_getD,
    List.getElem?_zipWith]
  split_ifs with hk
  · simp [List.getElem?_eq_getElem (show k < b.length by omega),
      List.getElem?_eq_getElem (show k < c.length by omega)]
  · simp [List.getElem?_eq_none (show b.length ≤ k by omega)]

/-! ## Bits -/

theorem get_of_le (h : 8 * n ≤ i) : b.get i = false := by
  simp [get, byte_of_le (show n ≤ i / 8 by omega)]

theorem testBit_mask (i : Nat) (hj : j < 8) : (mask i).toNat.testBit j = decide (j = i % 8) := by
  have hall : ∀ k < 8, ∀ j < 8, ((1 : UInt8) <<< UInt8.ofNat k).toNat.testBit
    j = decide (j = k) := by
    decide
  exact hall (i % 8) (Nat.mod_lt _ (by decide)) j hj

theorem testBit_not (x : UInt8) (hj : j < 8) : (~~~x).toNat.testBit j = !x.toNat.testBit j := by
  have h := BitVec.getLsbD_not (x := x.toBitVec) (i := j)
  simp only [hj, decide_true, Bool.true_and] at h
  simpa [BitVec.getLsbD] using h

@[simp] theorem get_empty (i : Nat) : (empty n).get i = false := by
  simp [get, empty]

theorem get_full (h : i < 8 * n) : (full n).get i = true := by
  have hall : ∀ k < 8, (0xff : UInt8).toNat.testBit k = true := by decide
  simp only [get, full, byte_replicate, show i / 8 < n by omega, if_true]
  exact hall (i % 8) (Nat.mod_lt _ (by decide))

theorem get_set (b : Bitmap n) (h : i < 8 * n) (j : Nat) :
    (b.set i).get j = (b.get j || decide (j = i)) := by
  have hj : j % 8 < 8 := Nat.mod_lt _ (by decide)
  simp only [get, set, byte_modify]
  split_ifs with hij
  · rw [UInt8.toNat_or, Nat.testBit_or, testBit_mask i hj]
    congr 2
    rw [eq_iff_iff]
    omega
  · simp [show j ≠ i by omega]

theorem get_clear (b : Bitmap n) (i j : Nat) :
    (b.clear i).get j = (b.get j && !decide (j = i)) := by
  have hj : j % 8 < 8 := Nat.mod_lt _ (by decide)
  simp only [get, clear, byte_modify]
  split_ifs with hij
  · rw [UInt8.toNat_and, Nat.testBit_and, testBit_not _ hj, testBit_mask i hj]
    congr 3
    rw [eq_iff_iff]
    omega
  · by_cases hi : j = i
    · simp [hi, byte_of_le (show n ≤ i / 8 by omega)]
    · simp [hi]

@[simp] theorem get_merge (b c : Bitmap n) (i : Nat) :
    (b.merge c).get i = (b.get i || c.get i) := by
  simp only [get, merge, byte_map₂]
  split_ifs with h
  · rw [UInt8.toNat_or, Nat.testBit_or]
  · simp [byte_of_le (Nat.le_of_not_lt h)]

@[simp] theorem get_common (b c : Bitmap n) (i : Nat) :
    (b.common c).get i = (b.get i && c.get i) := by
  simp only [get, common, byte_map₂]
  split_ifs with h
  · rw [UInt8.toNat_and, Nat.testBit_and]
  · simp [byte_of_le (Nat.le_of_not_lt h)]

@[simp] theorem get_except (b c : Bitmap n) (i : Nat) :
    (b.except c).get i = (b.get i && !c.get i) := by
  have hi : i % 8 < 8 := Nat.mod_lt _ (by decide)
  simp only [get, except, byte_map₂]
  split_ifs with h
  · rw [UInt8.toNat_and, Nat.testBit_and, testBit_not _ hi]
  · simp [byte_of_le (Nat.le_of_not_lt h)]

/-- Bitmaps are equal if they have the same bits. -/
theorem ext_get (h : ∀ i < 8 * n, b.get i = c.get i) : b = c := by
  have hbyte : ∀ k < n, b.byte k = c.byte k := by
    intro k hk
    apply UInt8.toNat_inj.mp
    apply Nat.eq_of_testBit_eq
    intro j
    rcases Nat.lt_or_ge j 8 with hj | hj
    · have hbit := h (8 * k + j) (by omega)
      simpa only [get, show (8 * k + j) / 8 = k by omega, show (8 * k + j) % 8 = j by omega]
        using hbit
    · have hlt : ∀ x : UInt8, x.toNat < 2 ^ j := fun x =>
        lt_of_lt_of_le x.toNat_lt (Nat.pow_le_pow_right (by decide) hj)
      rw [Nat.testBit_lt_two_pow (hlt _), Nat.testBit_lt_two_pow (hlt _)]
  apply List.Vector.eq
  apply ext_getElem (by simp)
  intro k hk hk'
  have hb := hbyte k (by simpa using hk)
  simpa [byte, getD_eq_getElem?_getD, getElem?_eq_getElem hk, getElem?_eq_getElem hk'] using hb

theorem eq_iff_get : b = c ↔ ∀ i : Fin (8 * n), b.get i = true ↔ c.get i = true := by
  constructor
  · rintro rfl i
    rfl
  · intro h
    exact ext_get fun i hi => Bool.eq_iff_iff.mpr (h ⟨i, hi⟩)

theorem get_foldl_set (b : Bitmap n) (is : List Nat) (hlt : ∀ i ∈ is, i < 8 * n) (c : Bitmap n)
    (j : Nat) :
    (is.foldl (fun c i => if b.get i then c.set i else c) c).get j =
      (c.get j || (decide (j ∈ is) && b.get j)) := by
  induction is generalizing c with
  | nil => simp
  | cons i is ih =>
    rw [foldl_cons, ih fun k hk => hlt k (mem_cons_of_mem _ hk)]
    have hi : i < 8 * n := hlt i mem_cons_self
    by_cases hb : b.get i
    · by_cases hj : j = i
      · subst hj
        simp [hb, get_set c hi]
      · simp [hb, get_set c hi, hj]
    · by_cases hj : j = i
      · subst hj
        simp [hb]
      · simp [hb, hj]

theorem get_copy {is : List Nat} (hlt : ∀ i ∈ is, i < 8 * n) (b : Bitmap n) (j : Nat) :
    (copy is b).get j = (decide (j ∈ is) && b.get j) := by
  rw [copy, get_foldl_set b is hlt, get_empty, Bool.false_or]

/-- Copying every bit gives the bitmap. -/
@[simp] theorem copy_range (b : Bitmap n) : copy (range (8 * n)) b = b := by
  apply ext_get
  intro i hi
  rw [get_copy fun k hk => mem_range.mp hk]
  simp [hi]

theorem ne_empty_iff : b ≠ empty n ↔ ∃ i, b.get i = true := by
  constructor
  · intro h
    by_contra hnone
    refine h (ext_get fun i _ => ?_)
    rw [get_empty]
    exact Bool.eq_false_of_not_eq_true fun hi => hnone ⟨i, hi⟩
  · rintro ⟨i, hi⟩ rfl
    simp at hi

/-! ## Folds -/

theorem get_foldl_common (f : α → Bitmap n) (l : List α) (b : Bitmap n) (i : Nat) :
    (l.foldl (fun b a => b.common (f a)) b).get i = (b.get i && l.all fun a => (f a).get i) := by
  induction l generalizing b with
  | nil => simp
  | cons a l ih => rw [foldl_cons, ih, get_common, all_cons, Bool.and_assoc]

theorem get_foldl_merge (f : α → Bitmap n) (l : List α) (b : Bitmap n) (i : Nat) :
    (l.foldl (fun b a => b.merge (f a)) b).get i = (b.get i || l.any fun a => (f a).get i) := by
  induction l generalizing b with
  | nil => simp
  | cons a l ih => rw [foldl_cons, ih, get_merge, any_cons, Bool.or_assoc]

end Bitmap
