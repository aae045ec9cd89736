import Odtone.Wire.Message
import Mathlib.Tactic.IntervalCases

/-! # Header fields as lenses

The eight header bytes hold thirteen fields, eleven of which have a setter. `Frame.get_call` says in
one equation what every getter returns after every setter. Two setters write more than their own
field: `mask_opcode` is `0x0d`, so the operation code takes the upper bit of the action identifier
with it, and `mask_tid` is `0xff`, so the transaction identifier clears the reserved bits in front
of it. `Frame.lenses_iff` says which calls, and which sequences of calls, are free of this.
-/

namespace Odtone.Wire

open Bits (Field)
open List Bits

namespace Frame

/-! ## The remaining accessors of a frame -/

def sidField : Field := ⟨0xf0, 4⟩
def opcodeField : Field := ⟨0x0d, 2⟩
def aidField : Field := ⟨0x03, 0⟩
def rsvd1Field : Field := ⟨0x01, 0⟩
def rsvd2Field : Field := ⟨0xf0, 4⟩

def sid (f : Frame) : UInt8 := sidField.get f.hdr2
def opcode (f : Frame) : UInt8 := opcodeField.get f.hdr2
def aid (f : Frame) : UInt16 := Bits.join (aidField.get f.hdr2) f.hdr3
def rsvd1 (f : Frame) : Bool := rsvd1Field.get f.hdr1 != 0
def rsvd2 (f : Frame) : UInt8 := rsvd2Field.get f.hdr4

def setSid (f : Frame) (v : UInt8) : Frame := { f with hdr2 := sidField.put f.hdr2 v }
def setOpcode (f : Frame) (v : UInt8) : Frame := { f with hdr2 := opcodeField.put f.hdr2 v }
def setAid (f : Frame) (v : UInt16) : Frame :=
  { f with hdr2 := aidField.put f.hdr2 (v >>> 8).toUInt8, hdr3 := (v &&& 0xff).toUInt8 }

end Frame

/-- `message::sid()` -/
def Message.sid (m : Message) : UInt16 := (m.mid &&& (0xf000 : UInt16)) >>> 12

/-- `message::opcode()` -/
def Message.opcode (m : Message) : UInt16 := (m.mid &&& (0x0c00 : UInt16)) >>> 10

/-- `message::aid()` -/
def Message.aid (m : Message) : UInt16 := m.mid &&& (0x03ff : UInt16)

/-- The fields of a header. -/
inductive HeaderField where
  | version | ackreq | ackrsp | uir | m | fn | rsvd1 | sid | opcode | aid | rsvd2 | tid | plength
deriving DecidableEq

/-- What the getter of a field returns. -/
def Frame.get (f : Frame) : HeaderField → UInt16
  | .version => f.version.toUInt16
  | .ackreq => f.ackreq.toUInt16
  | .ackrsp => f.ackrsp.toUInt16
  | .uir => f.uir.toUInt16
  | .m => f.m.toUInt16
  | .fn => f.fn.toUInt16
  | .rsvd1 => f.rsvd1.toUInt16
  | .sid => f.sid.toUInt16
  | .opcode => f.opcode.toUInt16
  | .aid => f.aid
  | .rsvd2 => f.rsvd2.toUInt16
  | .tid => f.tid
  | .plength => f.plength

/-- A call of a setter. -/
inductive Setter where
  | version (v : UInt8)
  | ackreq (v : Bool)
  | ackrsp (v : Bool)
  | uir (v : Bool)
  | m (v : Bool)
  | fn (v : UInt8)
  | sid (v : UInt8)
  | opcode (v : UInt8)
  | aid (v : UInt16)
  | tid (v : UInt16)
  | plength (v : UInt16)
deriving DecidableEq

namespace Setter

def call : Setter → Frame → Frame
  | .version v, f => f.setVersion v
  | .ackreq v, f => f.setAckreq v
  | .ackrsp v, f => f.setAckrsp v
  | .uir v, f => f.setUir v
  | .m v, f => f.setM v
  | .fn v, f => f.setFn v
  | .sid v, f => f.setSid v
  | .opcode v, f => f.setOpcode v
  | .aid v, f => f.setAid v
  | .tid v, f => f.setTid v
  | .plength v, f => f.setPlength v

/-- The field a setter is for. -/
def field : Setter → HeaderField
  | .version _ => .version
  | .ackreq _ => .ackreq
  | .ackrsp _ => .ackrsp
  | .uir _ => .uir
  | .m _ => .m
  | .fn _ => .fn
  | .sid _ => .sid
  | .opcode _ => .opcode
  | .aid _ => .aid
  | .tid _ => .tid
  | .plength _ => .plength

theorem rsvd2_ne_field (s : Setter) : .rsvd2 ≠ s.field := by cases s <;> simp [field]

/-- The value a setter is called with. -/
def value : Setter → UInt16
  | .version v | .fn v | .sid v | .opcode v => v.toUInt16
  | .ackreq v | .ackrsp v | .uir v | .m v => v.toUInt16
  | .aid v | .tid v | .plength v => v

/-- The value has as many bits as the field. -/
def InRange : Setter → Prop
  | .version v | .sid v => v < 16
  | .fn v => v < 128
  | .opcode v => v < 4
  | .aid v => v < 1024
  | .tid v => v < 4096
  | .ackreq _ | .ackrsp _ | .uir _ | .m _ | .plength _ => True

instance : (s : Setter) → Decidable s.InRange
  | .version v | .sid v => inferInstanceAs (Decidable (v < 16))
  | .fn v => inferInstanceAs (Decidable (v < 128))
  | .opcode v => inferInstanceAs (Decidable (v < 4))
  | .aid v => inferInstanceAs (Decidable (v < 1024))
  | .tid v => inferInstanceAs (Decidable (v < 4096))
  | .ackreq _ | .ackrsp _ | .uir _ | .m _ | .plength _ => inferInstanceAs (Decidable True)

end Setter

/-! ## One call -/

namespace Frame

theorem sidField_fits {v : UInt8} (h : v < 16) : sidField.Fits v := forall_of_lt (by decide) h

theorem opcodeField_fits {v : UInt8} (h : v < 4) : opcodeField.Fits v := forall_of_lt (by decide) h

variable {v : UInt16} {F : Field}

/-- The upper byte of a word in a range of `n` times 256. -/
theorem highByte_lt {n : Nat} (h : v.toNat < n * 256) (hn : n ≤ 256) :
    (v >>> 8).toUInt8.toNat < n := by
  rw [UInt16.toNat_toUInt8, UInt16.toNat_shiftRight]
  change v.toNat >>> 8 % 2 ^ 8 < n
  rw [Nat.shiftRight_eq_div_pow]
  omega

theorem aidField_fits (h : v < 1024) : aidField.Fits (v >>> 8).toUInt8 :=
  forall_of_lt (b := 4) (by decide) (highByte_lt h (by decide))

/-- What the setter of the first field leaves of another field that holds `v`. -/
def leaves : HeaderField → HeaderField → UInt16 → UInt16
  | .opcode, .aid, v => v &&& 0xfeff
  | .tid, .rsvd2, _ => 0
  | _, _, v => v

variable {f : Frame} {s : Setter} {g : HeaderField}

theorem flag_get_put (hF : F.Fits 0 ∧ F.Fits 1) (h : UInt8) (v : Bool) :
    (F.get (F.put h v.toUInt8) != 0) = v := by
  rw [Field.get_put (flag_fits hF v), flag_ne_zero]

/-- A setter makes its getter return the value. -/
theorem get_call_self (hs : s.InRange) : (s.call f).get s.field = s.value := by
  cases s with
  | version v => exact congrArg UInt8.toUInt16 (Field.get_put (versionField_fits hs))
  | ackreq v | ackrsp v | uir v | m v => exact congrArg Bool.toUInt16 (flag_get_put (by decide) _ v)
  | fn v => exact congrArg UInt8.toUInt16 (Field.get_put (fnField_fits hs))
  | sid v => exact congrArg UInt8.toUInt16 (Field.get_put (sidField_fits hs))
  | opcode v => exact congrArg UInt8.toUInt16 (Field.get_put (opcodeField_fits hs))
  | aid v =>
    refine (congrArg (join · _) (Field.get_put (aidField_fits hs))).trans ?_
    exact join_split v
  | tid v =>
    refine (congrArg (join · _) (Field.get_put (tidField_fits _))).trans ?_
    exact join_split v
  | plength v => exact join_split v

/-- The lowest bit of its mask does not reach the value of the operation code. -/
theorem opcodeField_get (h : UInt8) : opcodeField.get h = Field.get ⟨0x0c, 2⟩ h := by
  rw [← UInt8.toBitVec_inj]
  ext i hi
  simp [Field.get, opcodeField]
  interval_cases i <;> simp

theorem aidField_get_put (h v : UInt8) :
    aidField.get (opcodeField.put h v) = aidField.get h &&& 0x02 := by
  rw [← UInt8.toBitVec_inj]
  ext i hi
  simp [Field.get, Field.put, aidField, opcodeField]
  interval_cases i <;> simp

theorem join_and (h l : UInt8) :
    join (aidField.get h &&& 0x02) l = join (aidField.get h) l &&& 0xfeff := by
  rw [← UInt16.toBitVec_inj]
  ext i hi
  simp [Field.get, aidField, join]
  interval_cases i <;> simp

/-- A write to the operation code clears a bit of the action identifier. -/
theorem aid_setOpcode (v : UInt8) : (f.setOpcode v).aid = f.aid &&& 0xfeff := by
  change join (aidField.get (opcodeField.put f.hdr2 v)) f.hdr3 = _
  rw [aidField_get_put, join_and]
  rfl

/-- A write to the transaction identifier clears the reserved bits in front of it. -/
theorem rsvd2_setTid (hv : v < 4096) : (f.setTid v).rsvd2 = 0 := by
  have hhigh : (v >>> 8).toUInt8.toNat < 16 := highByte_lt hv (by decide)
  have hput : tidField.put f.hdr4 (v >>> 8).toUInt8 = (v >>> 8).toUInt8 := by
    simp [Field.put, tidField, show (0xff : UInt8) = -1 from rfl]
  change rsvd2Field.get (tidField.put f.hdr4 (v >>> 8).toUInt8) = 0
  rw [hput]
  exact forall_of_lt (P := fun b => rsvd2Field.get b = 0) (by decide) hhigh

/-- The fields of the first byte. -/
def firstByte : HeaderField → Option Field
  | .version => versionField
  | .ackreq => ackreqField
  | .ackrsp => ackrspField
  | .uir => uirField
  | .m => mField
  | _ => none

/-- A write to a field of the first byte reaches no getter with a disjoint mask. -/
theorem get_put_hdr0 {v : UInt8} (hv : F.Fits v) (hg : ∀ G ∈ firstByte g, F.mask &&& G.mask = 0) :
    ({ f with hdr0 := F.put f.hdr0 v } : Frame).get g = f.get g := by
  cases g with
  | version => exact congrArg UInt8.toUInt16 (Field.get_put_of_disjoint (hg _ rfl) hv)
  | ackreq | ackrsp | uir | m =>
    exact congrArg (fun b : UInt8 => (b != 0).toUInt16) (Field.get_put_of_disjoint (hg _ rfl) hv)
  | _ => rfl

theorem firstByte_disjoint {g g' : HeaderField} (hF : F ∈ firstByte g) (hg : g' ≠ g) :
    ∀ G ∈ firstByte g', F.mask &&& G.mask = 0 := by
  cases g <;> cases hF <;> cases g' <;> first | exact absurd rfl hg | decide

/-- What every getter returns after every setter. -/
theorem get_call (hs : s.InRange) (g : HeaderField) :
    (s.call f).get g = if g = s.field then s.value else leaves s.field g (f.get g) := by
  split_ifs with hg
  · rw [hg, get_call_self hs]
  cases s with
  | version v => exact get_put_hdr0 (versionField_fits hs) (firstByte_disjoint rfl hg)
  | ackreq v | ackrsp v | uir v | m v =>
    exact get_put_hdr0 (flag_fits (by decide) v) (firstByte_disjoint rfl hg)
  | fn v =>
    cases g with
    | fn => exact absurd rfl hg
    | rsvd1 =>
      exact congrArg (fun b : UInt8 => (b != 0).toUInt16)
        (Field.get_put_of_disjoint (by decide) (fnField_fits hs))
    | _ => rfl
  | sid v =>
    have hfit := sidField_fits hs
    cases g with
    | sid => exact absurd rfl hg
    | opcode => exact congrArg UInt8.toUInt16 (Field.get_put_of_disjoint (by decide) hfit)
    | aid => exact congrArg (join · _) (Field.get_put_of_disjoint (by decide) hfit)
    | _ => rfl
  | opcode v =>
    cases g with
    | opcode => exact absurd rfl hg
    | sid =>
      exact congrArg UInt8.toUInt16 (Field.get_put_of_disjoint (by decide) (opcodeField_fits hs))
    | aid => exact aid_setOpcode v
    | _ => rfl
  | aid v =>
    have hfit := aidField_fits hs
    cases g with
    | aid => exact absurd rfl hg
    | sid => exact congrArg UInt8.toUInt16 (Field.get_put_of_disjoint (by decide) hfit)
    | opcode =>
      change (opcodeField.get (aidField.put _ _)).toUInt16 = (opcodeField.get _).toUInt16
      rw [opcodeField_get, opcodeField_get, Field.get_put_of_disjoint (by decide) hfit]
    | _ => rfl
  | tid v =>
    cases g with
    | tid => exact absurd rfl hg
    | rsvd2 => exact congrArg UInt8.toUInt16 (rsvd2_setTid hs)
    | _ => rfl
  | plength v =>
    cases g with
    | plength => exact absurd rfl hg
    | _ => rfl

end Frame

/-- The lens laws of a setter call: the getter of its field returns the value, all others return
what they returned before. -/
def Setter.Lens (s : Setter) (f : Frame) : Prop :=
  (s.call f).get s.field = s.value ∧ ∀ g, g ≠ s.field → (s.call f).get g = f.get g

/-- The bits a setter clears besides its own field are clear already. -/
def Setter.Spares (s : Setter) (f : Frame) : Prop :=
  (s.field = .opcode → f.aid &&& 0x0100 = 0) ∧ (s.field = .tid → f.rsvd2 = 0)
deriving Decidable

namespace Frame

variable {f : Frame} {s : Setter} {g : HeaderField} {ss : List Setter}

theorem and_eq_self_iff (v : UInt16) : v &&& 0xfeff = v ↔ v &&& 0x0100 = 0 := by
  rw [← UInt16.toBitVec_inj, ← UInt16.toBitVec_inj]
  constructor <;> intro h <;> ext i hi
  all_goals
    have hbit := congrArg (·.getLsbD i) h
    simp at hbit ⊢
    interval_cases i <;> simp_all

theorem leaves_eq_self {a : HeaderField} {v : UInt16} (haid : a = .opcode → g ≠ .aid)
    (hrsvd : a = .tid → g ≠ .rsvd2) : leaves a g v = v := by
  unfold leaves
  split
  · exact absurd rfl (haid rfl)
  · exact absurd rfl (hrsvd rfl)
  · rfl

theorem lens_iff (hs : s.InRange) : s.Lens f ↔ s.Spares f := by
  have hcall (g) (hg : g ≠ s.field) : (s.call f).get g = leaves s.field g (f.get g) := by
    rw [get_call hs, if_neg hg]
  constructor
  · rintro ⟨-, h⟩
    constructor
    · intro ho
      have haid := h .aid (by rw [ho]; decide)
      rw [hcall .aid (by rw [ho]; decide), ho] at haid
      exact (and_eq_self_iff _).mp haid
    · intro ht
      have hrsvd := h .rsvd2 (by rw [ht]; decide)
      rw [hcall .rsvd2 (by rw [ht]; decide), ht] at hrsvd
      exact UInt8.toUInt16_inj.mp hrsvd.symm
  · rintro ⟨haid, hrsvd⟩
    refine ⟨get_call_self hs, fun g hg => ?_⟩
    rw [hcall g hg]
    by_cases ho : s.field = .opcode ∧ g = .aid
    · obtain ⟨ho, rfl⟩ := ho
      rw [ho]
      exact (and_eq_self_iff _).mpr (haid ho)
    · by_cases ht : s.field = .tid ∧ g = .rsvd2
      · obtain ⟨ht, rfl⟩ := ht
        rw [ht]
        exact congrArg UInt8.toUInt16 (hrsvd ht).symm
      · exact leaves_eq_self (fun h => fun hg => ho ⟨h, hg⟩) fun h => fun hg => ht ⟨h, hg⟩

/-! ## Sequences of calls -/

def calls (f : Frame) (ss : List Setter) : Frame := ss.foldl (fun f s => s.call f) f

/-- The value last written to a field, or the one it had in the beginning. -/
def lastWritten (f : Frame) (g : HeaderField) (ss : List Setter) : UInt16 :=
  ss.foldl (fun v s => if g = s.field then s.value else v) (f.get g)

/-- The calls since the setter of a field was last called, the latest first. -/
def callsSince (g : HeaderField) (ss : List Setter) : List Setter :=
  ss.reverse.takeWhile (·.field ≠ g)

/-- Every field ends at its last written value. -/
def KeepsLast (f : Frame) (ss : List Setter) : Prop :=
  ∀ g, (f.calls ss).get g = f.lastWritten g ss

/-- No operation code is set behind the last action identifier, unless that identifier lacks the bit
it clears; and no transaction identifier is set, unless the reserved bits are clear. -/
def Undisturbed (f : Frame) (ss : List Setter) : Prop :=
  (f.lastWritten .aid ss &&& 0x0100 = 0 ∨ ∀ s ∈ callsSince .aid ss, s.field ≠ .opcode) ∧
  (f.rsvd2 = 0 ∨ ∀ s ∈ ss, s.field ≠ .tid)
deriving Decidable

@[simp] theorem calls_concat : f.calls (ss ++ [s]) = s.call (f.calls ss) := by simp [calls]

@[simp] theorem lastWritten_concat :
    f.lastWritten g (ss ++ [s]) = if g = s.field then s.value else f.lastWritten g ss := by
  simp [lastWritten]

@[simp] theorem callsSince_concat :
    callsSince g (ss ++ [s]) = if g = s.field then [] else s :: callsSince g ss := by
  rw [callsSince, reverse_append, reverse_singleton, singleton_append, takeWhile_cons]
  by_cases hg : g = s.field
  · simp [hg]
  · simp [hg, Ne.symm hg, callsSince]

section

variable (hss : ∀ s ∈ ss, s.InRange)
include hss

theorem calls_get_of_ne (haid : g ≠ .aid) (hrsvd : g ≠ .rsvd2) :
    (f.calls ss).get g = f.lastWritten g ss := by
  induction ss using reverseRecOn with
  | nil => rfl
  | append_singleton ss s ih =>
    rw [calls_concat, get_call (hss s (by simp)), lastWritten_concat,
      leaves_eq_self (fun _ => haid) (fun _ => hrsvd), ih fun s hs => hss s (by simp [hs])]

/-- The action identifier after a sequence of calls. -/
theorem calls_get_aid : (f.calls ss).get .aid = if ∀ s ∈ callsSince .aid ss, s.field ≠ .opcode
      then f.lastWritten .aid ss else f.lastWritten .aid ss &&& 0xfeff := by
  induction ss using reverseRecOn with
  | nil => rfl
  | append_singleton ss s ih =>
    have ih := ih fun s hs => hss s (by simp [hs])
    rw [calls_concat, get_call (hss s (by simp)), lastWritten_concat, callsSince_concat]
    by_cases haid : HeaderField.aid = s.field
    · simp [haid]
    · rw [if_neg haid, if_neg haid, if_neg haid, ih]
      by_cases ho : s.field = .opcode
      · -- once cleared, the bit stays clear
        simp only [ho, leaves, forall_mem_cons, ne_eq, not_true_eq_false, false_and, if_false]
        split_ifs
        · rfl
        · rw [UInt16.and_assoc, UInt16.and_self]
      · rw [leaves_eq_self (fun h => absurd h ho) fun _ => by decide]
        simp only [forall_mem_cons, ne_eq, ho, not_false_eq_true, true_and]

theorem calls_get_rsvd2 :
    (f.calls ss).get .rsvd2 = if ∀ s ∈ ss, s.field ≠ .tid then f.get .rsvd2 else 0 := by
  induction ss using reverseRecOn with
  | nil => rfl
  | append_singleton ss s ih =>
    have ih := ih fun s hs => hss s (by simp [hs])
    rw [calls_concat, get_call (hss s (by simp)), if_neg s.rsvd2_ne_field, ih]
    by_cases ht : s.field = .tid
    · have hno : ¬ ∀ s' ∈ ss ++ [s], s'.field ≠ .tid := fun h => h s (by simp) ht
      rw [ht, if_neg hno]
      rfl
    · have hiff : (∀ s' ∈ ss ++ [s], s'.field ≠ .tid) ↔ ∀ s' ∈ ss, s'.field ≠ .tid := by
        rw [forall_mem_append, forall_mem_singleton]
        exact and_iff_left ht
      rw [leaves_eq_self (by simp) fun h => absurd h ht, if_congr hiff rfl rfl]

end

theorem lastWritten_rsvd2 : f.lastWritten .rsvd2 ss = f.get .rsvd2 := by
  induction ss using reverseRecOn with
  | nil => rfl
  | append_singleton ss s ih =>
    rw [lastWritten_concat, ih, if_neg s.rsvd2_ne_field]

theorem keepsLast_iff (hss : ∀ s ∈ ss, s.InRange) : f.KeepsLast ss ↔ f.Undisturbed ss := by
  have haid : (f.calls ss).get .aid = f.lastWritten .aid ss ↔
      f.lastWritten .aid ss &&& 0x0100 = 0 ∨ ∀ s ∈ callsSince .aid ss, s.field ≠ .opcode := by
    rw [calls_get_aid hss, ← and_eq_self_iff]
    split_ifs with h
    · exact ⟨fun _ => .inr h, fun _ => rfl⟩
    · exact ⟨.inl, fun h' => h'.resolve_right h⟩
  have hrsvd : (f.calls ss).get .rsvd2 = f.lastWritten .rsvd2 ss ↔
      f.rsvd2 = 0 ∨ ∀ s ∈ ss, s.field ≠ .tid := by
    rw [calls_get_rsvd2 hss, lastWritten_rsvd2]
    split_ifs with h
    · exact ⟨fun _ => .inr h, fun _ => rfl⟩
    · rw [eq_comm]
      exact ⟨fun h' => .inl (UInt8.toUInt16_inj.mp h'),
        fun h' => congrArg UInt8.toUInt16 (h'.resolve_right h)⟩
  refine ⟨fun h => ⟨haid.mp (h .aid), hrsvd.mp (h .rsvd2)⟩, fun h g => ?_⟩
  by_cases hg : g = .aid
  · exact hg ▸ haid.mpr h.1
  · by_cases hg' : g = .rsvd2
    · exact hg' ▸ hrsvd.mpr h.2
    · exact calls_get_of_ne hss hg hg'

/-! ## Frames and messages -/

/-- A frame and a message with its message identifier have the same parts of it. -/
def AgreesWithMessage (f : Frame) : Prop :=
  f.sid.toUInt16 = Message.sid { mid := f.mid } ∧
  f.opcode.toUInt16 = Message.opcode { mid := f.mid } ∧ f.aid = Message.aid { mid := f.mid }

theorem agreesWithMessage (f : Frame) : f.AgreesWithMessage := by
  refine ⟨?_, ?_, ?_⟩ <;> rw [← UInt16.toBitVec_inj] <;> ext i hi
  · simp [sid, Message.sid, mid, join, Field.get, sidField]
    interval_cases i <;> simp
  · simp [opcode, Message.opcode, mid, join, Field.get, opcodeField]
    interval_cases i <;> simp
  · simp [aid, Message.aid, mid, join, Field.get, aidField]
    interval_cases i <;> simp

/-- When the header fields are independent: exactly the calls that spare the bits of their
neighbours are lenses, a sequence of calls leaves each field at its last written value exactly if no
such bit is lost, and the parts of the message identifier are those of a message. -/
theorem lenses_iff (f : Frame) (s : Setter) (ss : List Setter) (hs : s.InRange)
    (hss : ∀ s ∈ ss, s.InRange) :
    (s.Lens f ↔ s.Spares f) ∧ (f.KeepsLast ss ↔ f.Undisturbed ss) ∧ f.AgreesWithMessage :=
  ⟨lens_iff hs, keepsLast_iff hss, agreesWithMessage f⟩

/-- The header of a request as `message::get_frame` builds it, with the parts of the message
identifier set one by one. -/
theorem lenses_of_zero :
    (Setter.tid 0xabc).Lens (Frame.zero []) ∧
    (Frame.zero []).KeepsLast [.version 1, .ackreq true, .fn 127, .sid 1, .opcode 1, .aid 0x3ff,
      .tid 0xabc, .plength 65535] :=
  have h := lenses_iff (Frame.zero []) (.tid 0xabc) [.version 1, .ackreq true, .fn 127, .sid 1,
    .opcode 1, .aid 0x3ff, .tid 0xabc, .plength 65535] (by decide) (by decide)
  ⟨h.1.mpr (by decide), h.2.1.mpr (by decide)⟩

/-- Setting the operation code changes the action identifier 256 into 0, and setting the transaction
identifier clears the reserved bits. -/
theorem setters_not_lenses :
    ((Setter.opcode 1).call ((Frame.zero []).setAid 0x100)).aid = 0 ∧
    ((Frame.zero []).setAid 0x100).aid = 0x100 ∧
    ((Setter.tid 7).call { Frame.zero [] with hdr4 := 0xf0 }).rsvd2 = 0 ∧
    ({ Frame.zero [] with hdr4 := 0xf0 } : Frame).rsvd2 = 15 := by
  decide

end Frame

end Odtone.Wire
