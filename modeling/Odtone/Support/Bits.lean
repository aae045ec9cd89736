import Mathlib.Data.Nat.Bitwise

/-! # Bit fields

Fields packed into a byte under a mask, and 16-bit words split into two bytes. Writing a field
replaces the bits under its mask; `Field.get_put` and `Field.get_put_of_disjoint` say what a reader
of the same field, or of a field under a disjoint mask, sees afterwards.
-/

namespace Bits

/-- A field of a byte: the bits under `mask`, read and written with an offset of `shift` bits. -/
structure Field where
  mask : UInt8
  shift : UInt8
deriving DecidableEq

namespace Field

variable {F G : Field} {h v : UInt8}

def get (F : Field) (h : UInt8) : UInt8 := (h &&& F.mask) >>> F.shift

def put (F : Field) (h v : UInt8) : UInt8 := (h &&& ~~~F.mask) ||| (v <<< F.shift)

/-- The value `v` lies under the mask once shifted, and no bit of it is lost by the shift. -/
def Fits (F : Field) (v : UInt8) : Prop :=
  (v <<< F.shift) &&& F.mask = v <<< F.shift ∧ (v <<< F.shift) >>> F.shift = v
deriving Decidable

/-- The bits under the mask of a field after a write to it. -/
theorem put_and_mask (hv : F.Fits v) : F.put h v &&& F.mask = v <<< F.shift := by
  obtain ⟨hx, -⟩ := hv
  rw [← UInt8.toBitVec_inj] at *
  ext i hi
  have hx := congrArg (·.getLsbD i) hx
  simp [put] at hx ⊢
  grind

/-- The bits under a disjoint mask after a write. -/
theorem put_and_of_disjoint (hFG : F.mask &&& G.mask = 0) (hv : F.Fits v) :
    F.put h v &&& G.mask = h &&& G.mask := by
  obtain ⟨hx, -⟩ := hv
  rw [← UInt8.toBitVec_inj] at *
  ext i hi
  have hm := congrArg (·.getLsbD i) hFG
  have hx := congrArg (·.getLsbD i) hx
  simp [put] at hm hx ⊢
  grind

theorem get_put (hv : F.Fits v) : F.get (F.put h v) = v := by
  rw [get, put_and_mask hv, hv.2]

theorem get_put_of_disjoint (hFG : F.mask &&& G.mask = 0) (hv : F.Fits v) :
    G.get (F.put h v) = G.get h := by
  rw [get, put_and_of_disjoint hFG hv, get]

end Field

/-- A property of all bytes below a bound is checked on the numbers below it. -/
theorem forall_of_lt {b : Nat} {P : UInt8 → Prop} (h : ∀ n < b, P (UInt8.ofNat n)) {v : UInt8}
    (hv : v.toNat < b) : P v := by
  simpa using h v.toNat hv

/-- Two bytes joined in network order. -/
def join (hi lo : UInt8) : UInt16 := (hi.toUInt16 <<< 8) ||| lo.toUInt16

theorem toNat_join (hi lo : UInt8) : (join hi lo).toNat = hi.toNat * 256 + lo.toNat := by
  have hhi : hi.toNat < 256 := hi.toNat_lt
  have hlo : lo.toNat < 2 ^ 8 := lo.toNat_lt
  simp only [join, UInt16.toNat_or, UInt16.toNat_shiftLeft, UInt8.toNat_toUInt16,
    UInt16.reduceToNat, Nat.reduceMod]
  rw [Nat.mod_eq_of_lt (by rw [Nat.shiftLeft_eq]; omega), ← Nat.shiftLeft_add_eq_or_of_lt hlo,
    Nat.shiftLeft_eq]

/-- Splitting a word and joining its bytes again. -/
theorem join_split (v : UInt16) : join (v >>> 8).toUInt8 (v &&& 0xff).toUInt8 = v := by
  have hv : v.toNat < 65536 := v.toNat_lt
  rw [← UInt16.toNat_inj, toNat_join]
  simp only [UInt16.toNat_toUInt8, UInt16.toNat_shiftRight, UInt16.toNat_and, UInt16.reduceToNat,
    Nat.reduceMod]
  rw [show v.toNat &&& 255 = v.toNat % 256 from Nat.and_two_pow_sub_one_eq_mod _ 8,
    Nat.shiftRight_eq_div_pow]
  omega

/-- Four bytes joined in network order. -/
def join32 (a b c d : UInt8) : UInt32 :=
  a.toUInt32 <<< 24 ||| b.toUInt32 <<< 16 ||| c.toUInt32 <<< 8 ||| d.toUInt32

theorem shiftLeft_or_bytes {a b c d : Nat} (hb : b < 256) (hc : c < 256) (hd : d < 256) :
    a <<< 24 ||| b <<< 16 ||| c <<< 8 ||| d = a * 16777216 + b * 65536 + c * 256 + d := by
  rw [Nat.or_assoc, Nat.or_assoc, ← Nat.shiftLeft_add_eq_or_of_lt (show d < 2 ^ 8 from hd),
    ← Nat.shiftLeft_add_eq_or_of_lt (b := c <<< 8 + d) (by rw [Nat.shiftLeft_eq]; omega),
    ← Nat.shiftLeft_add_eq_or_of_lt (by simp only [Nat.shiftLeft_eq]; omega)]
  simp only [Nat.shiftLeft_eq]
  omega

theorem join32_split (v : UInt32) : join32 (v >>> 24).toUInt8 (v >>> 16 &&& 0xff).toUInt8
    (v >>> 8 &&& 0xff).toUInt8 (v &&& 0xff).toUInt8 = v := by
  have hv : v.toNat < 4294967296 := v.toNat_lt
  have hmask (n : Nat) : n &&& 255 = n % 256 := Nat.and_two_pow_sub_one_eq_mod n 8
  have hfits (x k : Nat) (hk : k ≤ 24) : (x % 2 ^ 8) <<< k % 2 ^ 32 = (x % 2 ^ 8) <<< k := by
    refine Nat.mod_eq_of_lt ?_
    rw [Nat.shiftLeft_eq]
    calc x % 2 ^ 8 * 2 ^ k < 2 ^ 8 * 2 ^ k :=
          Nat.mul_lt_mul_of_pos_right (Nat.mod_lt _ (by decide)) (Nat.two_pow_pos k)
      _ ≤ 2 ^ 8 * 2 ^ 24 := Nat.mul_le_mul_left _ (Nat.pow_le_pow_right (by decide) hk)
      _ = 2 ^ 32 := rfl
  rw [← UInt32.toNat_inj]
  simp only [join32, UInt32.toNat_or, UInt32.toNat_shiftLeft, UInt8.toNat_toUInt32,
    UInt32.toNat_toUInt8, UInt32.toNat_shiftRight, UInt32.toNat_and, UInt32.reduceToNat,
    Nat.reduceMod, hmask, Nat.shiftRight_eq_div_pow]
  rw [hfits _ 24 (by decide), hfits _ 16 (by decide), hfits _ 8 (by decide),
    shiftLeft_or_bytes (by omega) (by omega) (by omega)]
  omega

end Bits
