import Mathlib.Data.Nat.Bitwise
import Odtone.Support.Loop

/-! # The Internet checksum

`checksum` adds the words of a chunk to a 32-bit sum and folds the carries back in before it keeps
16 bits of it. The words are those of the host: how two bytes make one up is left open.
-/

namespace Odtone.Net.Checksum

open List

/-- What `update` must not come to, and the exception of the source. -/
inductive Fault where
  /-- `errc::invalid_argument` -/
  | invalidArgument
  /-- the loop goes on -/
  | diverges
deriving DecidableEq

/-- A round of `while (sum >> 16)`. -/
def carry (sum : Nat) : Option Nat :=
  if sum >>> 16 = 0 then none else some ((sum &&& 0xffff) + sum >>> 16)

/-- `update(const uint16*, size_t)`; every round lowers the sum, so that no more rounds than it says
are needed. -/
def updateWords (sum : UInt16) (data : List UInt16) : Except Fault UInt16 :=
  let sum := data.foldl (fun sum w => (sum + w.toNat) % 2 ^ 32) sum.toNat
  match Loop.run carry (sum + 1) sum with
  | some sum => .ok (.ofNat sum)
  | none => .error .diverges

/-- `final` -/
def final (sum : UInt16) : UInt16 := ~~~sum

variable (word : UInt8 → UInt8 → UInt16)

/-- A buffer as words -/
def words : List UInt8 → List UInt16
  | [] | [_] => []
  | b₀ :: b₁ :: bs => word b₀ b₁ :: words bs

/-- `update(const void*, size_t)` -/
def update (sum : UInt16) (data : List UInt8) : Except Fault UInt16 :=
  if data.length % 2 ≠ 0 then .error .invalidArgument else updateWords sum (words word data)

/-! ## One's complement addition -/

/-- Addition with the carry added at the other end. -/
def addCarry (a b : UInt16) : UInt16 :=
  .ofNat ((a.toNat + b.toNat) % 2 ^ 16 + (a.toNat + b.toNat) / 2 ^ 16)

/-- The word that a sum comes to when its carries are folded in: only zero becomes zero. -/
def folded (n : Nat) : Nat := if n = 0 then 0 else (n - 1) % 65535 + 1

theorem carry_eq (n : Nat) :
    carry n = if n < 2 ^ 16 then none else some (n % 2 ^ 16 + n / 2 ^ 16) := by
  rw [carry, Nat.shiftRight_eq_div_pow, Nat.and_two_pow_sub_one_eq_mod n 16]
  simp only [Nat.div_eq_zero_iff_lt (Nat.two_pow_pos 16)]

theorem folded_of_lt {n : Nat} (h : n < 2 ^ 16) : folded n = n := by
  unfold folded
  split_ifs <;> omega

theorem folded_carry (n : Nat) : folded (n % 2 ^ 16 + n / 2 ^ 16) = folded n := by
  unfold folded
  split_ifs <;> omega

theorem folded_folded_add (n m : Nat) : folded (folded n + m) = folded (n + m) := by
  unfold folded
  split_ifs <;> omega

theorem run_carry (n : Nat) : Loop.run carry (n + 1) n = some (folded n) := by
  induction n using Nat.strong_induction_on with
  | h n ih =>
    by_cases hn : n < 2 ^ 16
    · rw [Loop.run_of_none (by rw [carry_eq, if_pos hn]), folded_of_lt hn]
    · have hlt : n % 2 ^ 16 + n / 2 ^ 16 < n := by omega
      rw [Loop.run_of_some (by rw [carry_eq, if_neg hn]), Loop.run_mono hlt (ih _ hlt),
        folded_carry]

theorem toNat_addCarry (a b : UInt16) : (addCarry a b).toNat = folded (a.toNat + b.toNat) := by
  have ha := a.toNat_lt
  have hb := b.toNat_lt
  have hlt : (a.toNat + b.toNat) % 2 ^ 16 + (a.toNat + b.toNat) / 2 ^ 16 < 2 ^ 16 := by omega
  rw [addCarry, UInt16.toNat_ofNat', Nat.mod_eq_of_lt hlt, ← folded_carry, folded_of_lt hlt]

theorem toNat_foldl_addCarry (ws : List UInt16) (a : UInt16) :
    (ws.foldl addCarry a).toNat = folded (a.toNat + (ws.map UInt16.toNat).sum) := by
  induction ws generalizing a with
  | nil => exact (folded_of_lt a.toNat_lt).symm
  | cons w ws ih =>
    rw [foldl_cons, ih, toNat_addCarry, folded_folded_add, map_cons, sum_cons, Nat.add_assoc]

/-! ## Chunks -/

/-- A chunk of at most 32767 words does not overflow the sum. -/
theorem foldl_sum {ws : List UInt16} {n : Nat} (h : n + 65535 * ws.length < 2 ^ 32) :
    ws.foldl (fun sum w => (sum + w.toNat) % 2 ^ 32) n = n + (ws.map UInt16.toNat).sum := by
  induction ws generalizing n with
  | nil => rfl
  | cons w ws ih =>
    have hw := w.toNat_lt
    rw [length_cons] at h
    rw [foldl_cons, Nat.mod_eq_of_lt (by omega), ih (by omega), map_cons, sum_cons, Nat.add_assoc]

theorem updateWords_eq {ws : List UInt16} (h : ws.length ≤ 32767) (a : UInt16) :
    updateWords a ws = .ok (ws.foldl addCarry a) := by
  have ha := a.toNat_lt
  simp only [updateWords, foldl_sum (show a.toNat + 65535 * ws.length < 2 ^ 32 by omega), run_carry]
  rw [← toNat_foldl_addCarry, UInt16.ofNat_toNat]

/-- The chunks `update` is called with. -/
structure Chunk where
  bytes : List UInt8
  even : bytes.length % 2 = 0
  length_le : bytes.length ≤ 65535

/-- A checksum updated with one chunk after another. -/
def updates (a : UInt16) (chunks : List Chunk) : Except Fault UInt16 :=
  chunks.foldlM (fun sum c => update word sum c.bytes) a

theorem length_words (bs : List UInt8) : (words word bs).length = bs.length / 2 := by
  fun_induction words word bs with grind

theorem words_append {bs : List UInt8} (h : bs.length % 2 = 0) (bs' : List UInt8) :
    words word (bs ++ bs') = words word bs ++ words word bs' := by
  fun_induction words word bs with grind [words]

theorem updates_eq (chunks : List Chunk) (a : UInt16) :
    updates word a chunks = .ok ((words word (chunks.flatMap Chunk.bytes)).foldl addCarry a) := by
  induction chunks generalizing a with
  | nil => rfl
  | cons c chunks ih =>
    have hlen := c.length_le
    have hstep : update word a c.bytes = .ok ((words word c.bytes).foldl addCarry a) := by
      rw [update, if_neg (not_not.mpr c.even)]
      exact updateWords_eq (by rw [length_words]; omega) a
    rw [flatMap_cons, words_append word c.even, foldl_append, ← ih, updates, foldlM_cons, hstep]
    rfl

theorem updates_final :
    (∀ chunks, (updates word 0 chunks).map final =
      .ok (~~~(words word (chunks.flatMap Chunk.bytes)).foldl addCarry 0)) ∧
    (∀ chunks chunks', chunks.flatMap Chunk.bytes = chunks'.flatMap Chunk.bytes →
      updates word 0 chunks = updates word 0 chunks') ∧
    ∀ sum, ∃ left, Loop.run carry (sum + 1) sum = some left := by
  refine ⟨fun chunks => ?_, fun chunks chunks' h => ?_, fun sum => ⟨_, run_carry sum⟩⟩
  · rw [updates_eq]
    rfl
  · rw [updates_eq, updates_eq, h]

/-! ## Verification -/

/-- The sum of a packet, wherever the checksum stands in it and however it is cut. -/
theorem updates_carrier {pre post : List UInt8} {b₀ b₁ : UInt8} (heven : pre.length % 2 = 0)
    {packet rest : List Chunk} (hpacket : packet.flatMap Chunk.bytes = pre ++ b₀ :: b₁ :: post)
    (hrest : rest.flatMap Chunk.bytes = pre ++ post) :
    updates word 0 packet = (updates word 0 rest).map (addCarry · (word b₀ b₁)) := by
  simp only [updates_eq, Except.map, hpacket, hrest, words_append word heven]
  refine congrArg Except.ok (UInt16.toNat_inj.mp ?_)
  rw [toNat_addCarry, toNat_foldl_addCarry, toNat_foldl_addCarry, folded_folded_add]
  simp only [words, map_append, map_cons, sum_append, sum_cons]
  congr 1
  omega

/-- A packet verifies exactly if the checksum in it is the one of the rest, or is the other zero. -/
theorem verifies_iff {pre post : List UInt8} {b₀ b₁ : UInt8} (heven : pre.length % 2 = 0)
    {packet rest : List Chunk} (hpacket : packet.flatMap Chunk.bytes = pre ++ b₀ :: b₁ :: post)
    (hrest : rest.flatMap Chunk.bytes = pre ++ post) :
    (updates word 0 packet).map final = .ok 0 ↔
      (updates word 0 rest).map final = .ok (word b₀ b₁) ∨
      (updates word 0 rest).map final = .ok 0 ∧ word b₀ b₁ = 0xffff := by
  rw [updates_carrier word heven hpacket hrest, updates_eq]
  generalize (words word (rest.flatMap Chunk.bytes)).foldl addCarry 0 = a
  generalize word b₀ b₁ = c
  have ha := a.toNat_lt
  have hc := c.toNat_lt
  simp only [Except.map, Except.ok.injEq, final, ← UInt16.toNat_inj, UInt16.toNat_not,
    toNat_addCarry, folded, UInt16.size, UInt16.reduceToNat]
  split_ifs
  · rw [false_iff]
    omega
  · omega

/-- A header of three words in one chunk, with its checksum in the middle, and the two other words
in two. -/
theorem verifies_header :
    (updates (fun b₀ b₁ => .ofNat (256 * b₀.toNat + b₁.toNat)) 0
      [⟨[0x45, 0, 0x7a, 0xe8, 0x40, 0x17], rfl, by decide⟩]).map final = .ok 0 :=
  (@verifies_iff _ [0x45, 0] [0x40, 0x17] _ _ rfl _
    [⟨[0x45, 0], rfl, by decide⟩, ⟨[0x40, 0x17], rfl, by decide⟩] rfl rfl).mpr (.inl (by decide))

end Odtone.Net.Checksum
