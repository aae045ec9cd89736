import Odtone.Wire.Extent

/-! # Round trips of values and elements

A value whose lengths are in the range of the length codec is read back wherever its encoding stands
(`Ty.decode_reads`), unless the encoding ends with a length field of several bytes and nothing
follows: at the very end of the buffer such a field cannot be read. Only a list of more than 128
elements that take no bytes ends in that way (`Ty.OpenEnded`).

The types of the source have no such elements (`Ty.Wf`), so that their values are read back
(`Ty.decode_reads_of_wf`), and so are the elements that carry them (`Tag.get_reads`).
-/

namespace Odtone.Wire

open List Except Bool

namespace Ty

mutual

/-- Every encoding of the type has at least one byte. -/
def Solid : Ty → Bool
  | .bool => true
  | .uint _ => true
  | .sint _ => true
  | .octets => true
  | .bitmap n => 0 < n
  | .array n t => 0 < n && Solid t
  | .list _ => true
  | .seq ts => SolidSeq ts
  | .variant _ _ => true

def SolidSeq : List Ty → Bool
  | [] => false
  | t :: ts => Solid t || SolidSeq ts

end

mutual

/-- The types the templates of the source can be instantiated at. -/
def Wf : Ty → Bool
  | .bool => true
  | .uint _ => true
  | .sint _ => true
  | .octets => true
  | .bitmap _ => true
  | .array _ t => Wf t
  | .list t => Wf t && Solid t
  | .seq ts => WfAll ts
  | .variant t ts => ts.length < 12 && Wf t && WfAll ts

def WfAll : List Ty → Bool
  | [] => true
  | t :: ts => Wf t && WfAll ts

end

mutual

/-- The variants have at most the twelve alternatives the templates are written for. -/
def Narrow : Ty → Bool
  | .bool => true
  | .uint _ => true
  | .sint _ => true
  | .octets => true
  | .bitmap _ => true
  | .array _ t => Narrow t
  | .list t => Narrow t
  | .seq ts => NarrowAll ts
  | .variant t ts => ts.length < 12 && Narrow t && NarrowAll ts

def NarrowAll : List Ty → Bool
  | [] => true
  | t :: ts => Narrow t && NarrowAll ts

end

mutual

/-- All strings and lists of the value are shorter than `b`. -/
def LengthsBelow (b : Nat) : (t : Ty) → t.Val → Prop
  | .bool, _ => True
  | .uint _, _ => True
  | .sint _, _ => True
  | .octets, v => length v < b
  | .bitmap _, _ => True
  | .array _ t, v => v.toList.Forall (LengthsBelow b t)
  | .list t, v => v.length < b ∧ Forall (LengthsBelow b t) v
  | .seq ts, v => LengthsBelowSeq b ts v
  | .variant t _, .inl v => LengthsBelow b t v
  | .variant _ ts, .inr v => LengthsBelowAlt b ts v

def LengthsBelowSeq (b : Nat) : (ts : List Ty) → SeqVal ts → Prop
  | [], _ => True
  | t :: ts, v => LengthsBelow b t v.1 ∧ LengthsBelowSeq b ts v.2

def LengthsBelowAlt (b : Nat) : (ts : List Ty) → AltVal ts → Prop
  | t :: _, .inl v => LengthsBelow b t v
  | _ :: ts, .inr v => LengthsBelowAlt b ts v

end

mutual

/-- The encoding of the value ends with a length field of several bytes. -/
def OpenEnded : (t : Ty) → t.Val → Bool
  | .bool, _ => false
  | .uint _, _ => false
  | .sint _, _ => false
  | .octets, _ => false
  | .bitmap _, _ => false
  | .array _ t, v => v.toList.getLast?.any (OpenEnded t)
  | .list t, v => if Solid t then v.getLast?.any (OpenEnded t) else 128 < v.length
  | .seq ts, v => OpenEndedSeq ts v
  | .variant t _, .inl v => OpenEnded t v
  | .variant _ ts, .inr v => OpenEndedAlt ts v

def OpenEndedSeq : (ts : List Ty) → SeqVal ts → Bool
  | [], _ => false
  | t :: ts, v => if SolidSeq ts then OpenEndedSeq ts v.2 else OpenEnded t v.1

def OpenEndedAlt : (ts : List Ty) → AltVal ts → Bool
  | t :: _, .inl v => OpenEnded t v
  | _ :: ts, .inr v => OpenEndedAlt ts v

end

end Ty

/-! ## Successful encodings -/

theorem putListLength_pos {len : Nat} {field : Bytes} (h : putListLength len = .ok field) :
    0 < field.length := by
  unfold putListLength at h
  split_ifs at h
  · cases h
    simp
  · obtain ⟨n, -, h⟩ := bind_eq_ok.mp h
    cases h
    simp

theorem length_lt_putOctetString {val enc : Bytes} (h : putOctetString val = .ok enc) :
    val.length < enc.length := by
  obtain ⟨len, -, h⟩ := bind_eq_ok.mp h
  obtain ⟨field, hfield, h⟩ := bind_eq_ok.mp h
  cases h
  have := putListLength_pos hfield
  rw [length_append]
  omega

variable {encs : List Bytes} {α : Type}

theorem mapM_length_le {f : α → Except Error Bytes} {vs : List α}
    (hf : ∀ v enc, f v = .ok enc → enc ≠ []) (h : vs.mapM f = .ok encs) :
    vs.length ≤ encs.flatten.length := by
  have hparts := mapM_eq_ok h
  clear h
  induction hparts with
  | nil => simp
  | @cons enc v encs vs hv _ ih =>
    have hpos := length_pos_of_ne_nil (hf v enc hv)
    simp only [length_cons, flatten_cons, length_append]
    omega

theorem flatten_eq_nil {f : α → Except Error Bytes} {vs : List α} {solid : Bool}
    (hf : ∀ v enc, f v = .ok enc → (enc = [] ↔ solid = false)) (h : vs.mapM f = .ok encs) :
    encs.flatten = [] ↔ vs = [] ∨ solid = false := by
  have hparts := mapM_eq_ok h
  clear h
  induction hparts with
  | nil => simp
  | @cons enc v encs vs hv _ ih =>
    simp only [flatten_cons, append_eq_nil_iff, ih, hf v enc hv]
    simpa using Or.inr

namespace Ty

mutual

/-- An encoding is empty only if all encodings of the type are. -/
theorem encode_eq_nil : ∀ (t : Ty) (v : t.Val) {enc : Bytes}, t.encode v = .ok enc →
    (enc = [] ↔ t.Solid = false)
  | .bool, v, enc, h => by cases h; simp [Solid]
  | .uint w, v, enc, h | .sint w, v, enc, h => by
    cases h
    cases w <;> simp [lengthBytes, Width.octets, Solid]
  | .octets, v, enc, h => by
    simp [Solid, ne_nil_of_length_pos (Nat.zero_lt_of_lt (length_lt_putOctetString h))]
  | .bitmap n, v, enc, h => by
    cases h
    have hlen : (List.Vector.toList v).length = n := List.Vector.toList_length _
    rw [reverse_eq_nil_iff, ← length_eq_zero_iff, hlen]
    simp [Solid]
  | .array n t, v, enc, h => by
    obtain ⟨encs, hencs, h⟩ := bind_eq_ok.mp h
    cases h
    have hlen : (List.Vector.toList v).length = n := List.Vector.toList_length _
    rw [flatten_eq_nil (fun v enc => encode_eq_nil t v) hencs, ← length_eq_zero_iff, hlen]
    simp [Solid, or_iff_not_imp_left, Nat.pos_iff_ne_zero]
  | .list t, v, enc, h => by
    obtain ⟨len, -, h⟩ := bind_eq_ok.mp h
    obtain ⟨field, hfield, h⟩ := bind_eq_ok.mp h
    obtain ⟨encs, -, h⟩ := bind_eq_ok.mp h
    cases h
    simp [Solid, ne_nil_of_length_pos (putListLength_pos hfield)]
  | .seq ts, v, enc, h => encodeSeq_eq_nil ts v h
  | .variant t ts, .inl v, enc, h => by
    obtain ⟨enc, -, h⟩ := bind_eq_ok.mp h
    cases h
    simp [Solid]
  | .variant t ts, .inr v, enc, h => by
    obtain ⟨⟨i, enc⟩, -, h⟩ := bind_eq_ok.mp h
    cases h
    simp [Solid]

theorem encodeSeq_eq_nil : ∀ (ts : List Ty) (v : SeqVal ts) {enc : Bytes},
    encodeSeq ts v = .ok enc → (enc = [] ↔ SolidSeq ts = false)
  | [], v, enc, h => by cases h; simp [SolidSeq]
  | t :: ts, v, enc, h => by
    obtain ⟨x, hx, h⟩ := bind_eq_ok.mp h
    obtain ⟨y, hy, h⟩ := bind_eq_ok.mp h
    cases h
    rw [append_eq_nil_iff, encode_eq_nil t v.1 hx, encodeSeq_eq_nil ts v.2 hy, SolidSeq,
      or_eq_false_iff]

end

theorem encode_ne_nil (t : Ty) (v : t.Val) {enc : Bytes} (hs : t.Solid = true)
    (h : t.encode v = .ok enc) : enc ≠ [] := by
  rw [Ne, encode_eq_nil t v h, hs]
  decide

end Ty

/-! ## Integers -/

variable {P : Bytes → Prop}

theorem word_reads (val : Bytes) : Reads (word val.length) P val val := by
  intro pre post hB hP
  have hroom : ¬ (pre ++ (val ++ post)).length < uint (pre.length + val.length) := by
    simp only [length_append] at hB ⊢
    rw [uint_of_lt (by omega)]
    omega
  rw [word, if_neg hroom]
  exact copyBytes_reads val pre post hB hP

theorem fromTwos_eq {n : Nat} (v : BitVec n) : fromTwos v = v := by
  unfold fromTwos
  split_ifs
  · change -(~~~v + 1#n) = v
    rw [← BitVec.neg_eq_not_add, BitVec.neg_neg]
  · rfl

theorem toTwos_eq {n : Nat} (v : BitVec n) : toTwos v = v := by
  unfold toTwos
  split_ifs
  · change ~~~(-v) + 1#n = v
    rw [← BitVec.neg_eq_not_add, BitVec.neg_neg]
  · rfl

/-- An integer is the value of its bytes. -/
theorem ofNat_bigEndian {k : Nat} (v : BitVec (8 * k)) :
    BitVec.ofNat (8 * k) (bigEndian (lengthBytes v.toNat k)) = v := by
  have hv : v.toNat < 256 ^ k := by
    have hpow : 256 ^ k = 2 ^ (8 * k) := by rw [← two_pow_octets, Nat.mul_comm]
    exact hpow ▸ v.isLt
  rw [bigEndian_lengthBytes, Nat.mod_eq_of_lt hv, BitVec.ofNat_toNat, BitVec.setWidth_eq]

theorem uint_reads {k : Nat} (v : BitVec (8 * k)) :
    Reads ((fun bs => BitVec.ofNat (8 * k) (bigEndian bs)) <$> word k) P
      (lengthBytes v.toNat k) v := by
  have h := (word_reads (lengthBytes v.toNat k) (P := P)).map
    (f := fun bs => BitVec.ofNat (8 * k) (bigEndian bs))
  rwa [lengthBytes_length, ofNat_bigEndian] at h

theorem sint_reads {k : Nat} (v : BitVec (8 * k)) :
    Reads ((fun bs => fromTwos (BitVec.ofNat (8 * k) (bigEndian bs))) <$> word k) P
      (lengthBytes (toTwos v).toNat k) v := by
  have h := (word_reads (lengthBytes v.toNat k) (P := P)).map
    (f := fun bs => fromTwos (BitVec.ofNat (8 * k) (bigEndian bs)))
  rw [toTwos_eq]
  rwa [lengthBytes_length, ofNat_bigEndian, fromTwos_eq] at h

/-! ## Containers -/

abbrev ReadsAhead (d : Decoder α) (ahead : Bool) (enc : Bytes) (a : α) : Prop :=
  Cursor.ReadsAhead (2 ^ 32) d ahead enc a

/-- A length field of several bytes cannot be read at the very end of the buffer. -/
theorem listLength_readsAhead {len : Nat} (hlen : len < 128 + 2 ^ 16) :
    ReadsAhead listLength (decide (128 < len)) (lengthField len) len := by
  refine ⟨(listLength_reads hlen).mono fun _ hpost hlong => hpost (decide_eq_true hlong),
    fun hlong => ?_⟩
  rw [decide_eq_true_eq] at hlong
  have hfield : ∃ b bs, lengthField len = b :: bs ∧ 128 < b.toNat ∧ announced b = bs.length := by
    unfold lengthField
    split_ifs with h₁ h₂
    · omega
    · exact ⟨_, _, rfl, by decide, (by decide : announced 0x81 = 1)⟩
    · exact ⟨_, _, rfl, by decide, (by decide : announced 0x82 = 2)⟩
  obtain ⟨b, bs, hfield, hb, hcount⟩ := hfield
  intro pre hB
  rw [hfield] at hB ⊢
  refine ⟨_, _, listLength_cutOff (cutOff_join.mpr ⟨hb, ?_⟩)⟩
  simp only [length_append, length_cons] at hB ⊢
  rw [hcount, uint_of_lt (by omega)]
  omega

section Containers

variable {d : α → Decoder α}

theorem any_getLast?_eq_false {p : α → Bool} {vs : List α} (h : vs.Forall fun v => p v = false) :
    vs.getLast?.any p = false := by
  cases hx : vs.getLast? with
  | none => rfl
  | some x => exact forall_iff_forall_mem.mp h x (mem_of_getLast? hx)

/-- Elements one after the other. The last one has to do with what follows the container; the others
are followed by the next element. -/
theorem refill_reads (fresh : α) {ends : α → Bool} {vs : List α}
    (h : Forall₂ (fun enc v => ∀ old, ReadsAhead (d old) (ends v) enc v) encs vs)
    (hne : (∀ enc ∈ encs, enc ≠ []) ∨ ∀ v ∈ vs, ends v = false) (old : List α) :
    ReadsAhead (refill d fresh vs.length old) (vs.getLast?.any ends) encs.flatten vs := by
  induction h generalizing old with
  | nil => exact .closed (.pure _)
  | @cons enc v encs vs hd hs ih =>
    have hne' := hne.imp (fun h => (forall_mem_cons.mp h).2) fun h => (forall_mem_cons.mp h).2
    have hrest := (ih hne' old.tail).map (f := (v :: ·))
    refine (hd _).bind hrest (fun hnil => ?_) fun hcons => ?_
    · cases hs with
      | nil => exact ⟨rfl, rfl⟩
      | @cons enc' v' encs vs _ _ =>
        rcases hne with hne | hne
        · exact absurd (append_eq_nil_iff.mp hnil).1 (hne _ (.tail _ (.head _)))
        · have hlast : (v' :: vs).getLast?.any ends = false :=
            any_getLast?_eq_false (forall_iff_forall_mem.mpr fun x hx => hne x (.tail _ hx))
          exact ⟨hlast, by rw [hne v (.head _)]; simpa using hlast⟩
    · cases hs with
      | nil => exact absurd rfl hcons
      | cons => simp

theorem toList_each (d : α → Decoder α) (fresh : α) {n : Nat} (old : List.Vector α n) :
    List.Vector.toList <$> each d n old = refill d fresh n old.toList := by
  induction n with
  | zero =>
    rw [each, map_pure, refill]
    exact congrArg pure (List.Vector.toList_nil ▸ congrArg _ (Subsingleton.elim old .nil))
  | succ n ih =>
    have hold : old.toList = old.head :: old.tail.toList := by
      rw [← List.Vector.toList_cons, List.Vector.cons_head_tail]
    rw [each, hold, refill]
    simp only [map_bind, map_pure, List.Vector.toList_cons, headD_cons, tail_cons, ← ih,
      bind_map_left]

theorem each_reads (fresh : α) {ends : α → Bool} {n : Nat} {vs : List.Vector α n}
    (h : Forall₂ (fun enc v => ∀ old, ReadsAhead (d old) (ends v) enc v) encs vs.toList)
    (hne : (∀ enc ∈ encs, enc ≠ []) ∨ ∀ v ∈ vs.toList, ends v = false) (old : List.Vector α n) :
    ReadsAhead (each d n old) (vs.toList.getLast?.any ends) encs.flatten vs := by
  refine .of_map List.Vector.toList_injective ?_
  have hread := refill_reads fresh h hne old.toList
  rwa [vs.toList_length, ← toList_each d fresh] at hread

/-- Bytes read into the elements of a bitmap, the last one first. -/
theorem bitmap_reads {n : Nat} (v old : List.Vector UInt8 n) :
    Reads ((fun bs : List.Vector UInt8 n =>
      (⟨bs.toList.reverse, by simp⟩ : List.Vector UInt8 n)) <$>
        each (fun _ => uint8) n old) P v.toList.reverse v := by
  let w : List.Vector UInt8 n := ⟨v.toList.reverse, by simp⟩
  have hbytes : List.Forall₂ (fun enc b => ∀ _ : UInt8, ReadsAhead uint8 false enc b)
      (w.toList.map fun b => [b]) w.toList := by
    rw [forall₂_map_left_iff, forall₂_same]
    exact fun b _ _ => .closed (uint8_reads b)
  have h := (each_reads 0 hbytes (.inr fun _ _ => rfl) old).reads.map
    (f := fun bs : List.Vector UInt8 n => (⟨bs.toList.reverse, by simp⟩ : List.Vector UInt8 n))
  have hflat : (w.toList.map fun b => [b]).flatten = v.toList.reverse := by
    rw [← flatMap_def, flatMap_singleton']
    rfl
  have hval : (⟨w.toList.reverse, by simp⟩ : List.Vector UInt8 n) = v := by
    apply Subtype.ext
    simp [w, List.Vector.toList]
  rw [hflat, hval] at h
  exact h.mono fun _ _ hlast => by simp at hlast

theorem octets_reads {val enc : Bytes} (h : putOctetString val = .ok enc)
    (hlen : val.length < 128 + 2 ^ 16) : Reads octetString P enc val := by
  rw [putOctetString_eq hlen] at h
  cases h
  exact octetString_reads hlen

end Containers

/-! ## Values -/

theorem uint_ok {n m : Nat} (h : truncateUint n = .ok m) : m = n := by
  unfold truncateUint at h
  split_ifs at h
  cases h
  rfl

theorem forall₂_of_forall {R S : Bytes → α → Prop} {Q : α → Prop} {vs : List α}
    (h : Forall₂ R encs vs) (hQ : vs.Forall Q)
    (hRS : ∀ enc v, R enc v → Q v → S enc v) : Forall₂ S encs vs := by
  induction h with
  | nil => exact .nil
  | cons hv _ ih =>
    rw [forall_cons] at hQ
    exact .cons (hRS _ _ hv hQ.1) (ih hQ.2)

theorem forall_mem_of_forall₂ {R : Bytes → α → Prop} {Q : Bytes → Prop} {vs : List α}
    (h : Forall₂ R encs vs) (hRQ : ∀ enc v, R enc v → Q enc) : ∀ enc ∈ encs, Q enc := by
  induction h with
  | nil => simp
  | cons hv _ ih => exact forall_mem_cons.mpr ⟨hRQ _ _ hv, ih⟩

/-- Each piece is at most as long as all of them. -/
theorem forall_of_bound {R : Bytes → α → Prop} {Q : α → Prop} {vs : List α} {b : Nat}
    (h : Forall₂ R encs vs) (hb : encs.flatten.length < b)
    (hRQ : ∀ enc v, R enc v → enc.length < b → Q v) : vs.Forall Q := by
  induction h with
  | nil => trivial
  | cons hv _ ih =>
    simp only [flatten_cons, length_append] at hb
    exact (forall_cons _ _ _).mpr ⟨hRQ _ _ hv (by omega), ih (by omega)⟩

namespace Ty

theorem encodeAlt_lt {ts : List Ty} {v : AltVal ts} {i : Nat} {enc : Bytes}
    (h : encodeAlt ts v = .ok (i, enc)) : i < ts.length := by
  induction ts generalizing i with
  | nil => cases v
  | cons t ts ih =>
    cases v with
    | inl v =>
      obtain ⟨x, -, h⟩ := bind_eq_ok.mp h
      cases h
      simp
    | inr v =>
      obtain ⟨⟨j, x⟩, hx, h⟩ := bind_eq_ok.mp h
      cases h
      simpa using ih hx

mutual

/-- A type whose encodings are empty has no length fields. -/
theorem openEnded_of_not_solid : ∀ (t : Ty) (v : t.Val), t.Solid = false → t.OpenEnded v = false
  | .bool, _, h => by cases h
  | .uint _, _, h => by cases h
  | .sint _, _, h => by cases h
  | .octets, _, h => by cases h
  | .bitmap _, _, _ => rfl
  | .array n t, v, h => by
    have hlen : (List.Vector.toList v).length = n := List.Vector.toList_length _
    rw [OpenEnded]
    cases hx : (List.Vector.toList v).getLast? with
    | none => rfl
    | some x =>
      have hn : 0 < n := hlen ▸ length_pos_of_mem (mem_of_getLast? hx)
      exact openEnded_of_not_solid t x (by simpa [Solid, hn] using h)
  | .list _, _, h => by cases h
  | .seq ts, v, h => openEndedSeq_of_not_solid ts v h
  | .variant _ _, _, h => by cases h

theorem openEndedSeq_of_not_solid : ∀ (ts : List Ty) (v : SeqVal ts), SolidSeq ts = false →
    OpenEndedSeq ts v = false
  | [], _, _ => rfl
  | t :: ts, v, h => by
    simp only [SolidSeq, or_eq_false_iff] at h
    rw [OpenEndedSeq, h.2]
    exact openEnded_of_not_solid t v.1 h.1

end

/-- The pieces of a container are all followed by bytes, or it does not matter what follows. -/
theorem solid_or_not_openEnded {t : Ty} {vs : List t.Val} (h : vs.mapM (encode t) = .ok encs) :
    (∀ enc ∈ encs, enc ≠ []) ∨ ∀ v ∈ vs, t.OpenEnded v = false := by
  cases hs : t.Solid with
  | true =>
    exact .inl (forall_mem_of_forall₂ (mapM_eq_ok h) fun enc v => encode_ne_nil t v hs)
  | false => exact .inr fun v _ => openEnded_of_not_solid t v hs

section Reads

variable {b : Nat} (hle : b ≤ 128 + 2 ^ 16)

include hle

-- the bound is used through the recursion
set_option linter.unusedSectionVars false in
mutual

/-- A value whose lengths are in the range of the length codec is read back. -/
theorem decode_reads : ∀ (t : Ty) (v old : t.Val) {enc : Bytes}, t.Narrow = true →
    t.LengthsBelow b v → t.encode v = .ok enc → ReadsAhead (t.decode old) (t.OpenEnded v) enc v
  | .bool, v, old, enc, _, _, h => by
    cases h
    have hv : (v.toUInt8 != 0) = v := by cases v <;> rfl
    have hmap := (uint8_reads v.toUInt8 (P := fun _ => True)).map (f := fun b => b != 0)
    rw [hv] at hmap
    exact .closed hmap
  | .uint w, v, old, enc, _, _, h => by
    cases h
    exact .closed (uint_reads v)
  | .sint w, v, old, enc, _, _, h => by
    cases h
    exact .closed (sint_reads v)
  | .octets, v, old, enc, _, hb, h => .closed (octets_reads h (hb.trans_le hle))
  | .bitmap n, v, old, enc, _, _, h => by
    cases h
    exact .closed (bitmap_reads v old)
  | .array n t, v, old, enc, hn, hb, h => by
    obtain ⟨encs, hencs, h⟩ := bind_eq_ok.mp h
    cases h
    refine each_reads t.fresh ?_ (solid_or_not_openEnded hencs) old
    exact forall₂_of_forall (mapM_eq_ok hencs) hb fun enc x hx hb old =>
      decode_reads t x old hn hb hx
  | .list t, v, old, enc, hn, hb, h => by
    obtain ⟨len, hcount, h⟩ := bind_eq_ok.mp h
    obtain ⟨field, hfield, h⟩ := bind_eq_ok.mp h
    obtain ⟨encs, hencs, h⟩ := bind_eq_ok.mp h
    cases h
    obtain rfl := uint_ok hcount
    have hlen : length v < 128 + 2 ^ 16 := hb.1.trans_le hle
    rw [putListLength_eq hlen] at hfield
    cases hfield
    have hflat := flatten_eq_nil (fun v enc => encode_eq_nil t v) hencs
    have hreads := forall₂_of_forall (mapM_eq_ok hencs) hb.2 fun enc x hx hb old =>
      decode_reads t x old hn hb hx
    refine .restoring ((listLength_readsAhead hlen).bind
      (refill_reads t.fresh hreads (solid_or_not_openEnded hencs) old) (fun hnil => ?_)
      fun hcons => ?_)
    · rcases hflat.mp hnil with rfl | hs
      · exact ⟨rfl, ite_self _⟩
      · refine ⟨any_getLast?_eq_false (forall_iff_forall_mem.mpr fun x _ => ?_), ?_⟩
        · exact openEnded_of_not_solid t x hs
        · simp [OpenEnded, hs]
    · have hs : t.Solid = true := by simpa using fun hs => hcons (hflat.mpr (.inr hs))
      rw [OpenEnded, if_pos hs]
  | .seq ts, v, old, enc, hn, hb, h => decodeSeq_reads ts v old hn hb h
  | .variant t ts, .inl v, old, enc, hn, hb, h => by
    obtain ⟨x, hx, h⟩ := bind_eq_ok.mp h
    cases h
    simp only [Narrow, and_eq_true] at hn
    exact .after (uint8_reads 0) ((decode_reads t v t.fresh hn.1.2 hb hx).map )
  | .variant t ts, .inr v, old, enc, hn, hb, h => by
    obtain ⟨⟨i, x⟩, hx, h⟩ := bind_eq_ok.mp h
    cases h
    simp only [Narrow, and_eq_true, decide_eq_true_eq] at hn
    have hi := encodeAlt_lt hx
    refine .after (uint8_reads (UInt8.ofNat (i + 1))) ?_
    rw [toNat_ofNat_byte (by omega)]
    have hval := (decodeAlt_reads ts v hn.2 hb hx).bind
      (f := fun w => match w with
        | some v => (pure (Sum.inr v) : Decoder (Val (.variant t ts)))
        | none => pure old) (.closed (.pure _)) (fun _ => ⟨rfl, rfl⟩) fun h => absurd rfl h
    rw [append_nil] at hval
    exact hval

theorem decodeSeq_reads : ∀ (ts : List Ty) (v old : SeqVal ts) {enc : Bytes}, NarrowAll ts = true →
    LengthsBelowSeq b ts v → encodeSeq ts v = .ok enc →
    ReadsAhead (decodeSeq ts old) (OpenEndedSeq ts v) enc v
  | [], v, old, enc, _, _, h => by
    cases h
    exact .closed (.pure _)
  | t :: ts, v, old, enc, hn, hb, h => by
    obtain ⟨x, hx, h⟩ := bind_eq_ok.mp h
    obtain ⟨y, hy, h⟩ := bind_eq_ok.mp h
    cases h
    simp only [NarrowAll, and_eq_true] at hn
    have hrest := (decodeSeq_reads ts v.2 old.2 hn.2 hb.2 hy).map (f := fun vs => (v.1, vs))
    refine (decode_reads t v.1 old.1 hn.1 hb.1 hx).bind hrest (fun hnil => ?_) fun hcons => ?_
    · have hs := (encodeSeq_eq_nil ts v.2 hy).mp hnil
      exact ⟨openEndedSeq_of_not_solid ts v.2 hs, by rw [OpenEndedSeq, hs]; rfl⟩
    · have hs : SolidSeq ts = true := by simpa using mt (encodeSeq_eq_nil ts v.2 hy).mpr hcons
      rw [OpenEndedSeq, if_pos hs]

/-- The alternative written is the one read under its number. -/
theorem decodeAlt_reads : ∀ (ts : List Ty) (v : AltVal ts) {i : Nat} {enc : Bytes},
    NarrowAll ts = true → LengthsBelowAlt b ts v → encodeAlt ts v = .ok (i, enc) →
    ReadsAhead (decodeAlt ts i) (OpenEndedAlt ts v) enc (some v)
  | t :: ts, .inl v, i, enc, hn, hb, h => by
    obtain ⟨x, hx, h⟩ := bind_eq_ok.mp h
    cases h
    simp only [NarrowAll, and_eq_true] at hn
    exact (decode_reads t v t.fresh hn.1 hb hx).map
  | t :: ts, .inr v, i, enc, hn, hb, h => by
    obtain ⟨⟨j, x⟩, hx, h⟩ := bind_eq_ok.mp h
    cases h
    simp only [NarrowAll, and_eq_true] at hn
    exact (decodeAlt_reads ts v hn.2 hb hx).map

end

end Reads

/-! ### Types of the source -/

mutual

theorem narrow_of_wf : ∀ t : Ty, t.Wf = true → t.Narrow = true
  | .bool, _ => rfl
  | .uint _, _ => rfl
  | .sint _, _ => rfl
  | .octets, _ => rfl
  | .bitmap _, _ => rfl
  | .array _ t, h => narrow_of_wf t h
  | .list t, h => by
    simp only [Wf, and_eq_true] at h
    exact narrow_of_wf t h.1
  | .seq ts, h => narrowAll_of_wf ts h
  | .variant t ts, h => by
    simp only [Wf, and_eq_true] at h
    simp only [Narrow, and_eq_true]
    exact ⟨⟨h.1.1, narrow_of_wf t h.1.2⟩, narrowAll_of_wf ts h.2⟩

theorem narrowAll_of_wf : ∀ ts : List Ty, WfAll ts = true → NarrowAll ts = true
  | [], _ => rfl
  | t :: ts, h => by
    simp only [WfAll, and_eq_true] at h
    simp only [NarrowAll, and_eq_true]
    exact ⟨narrow_of_wf t h.1, narrowAll_of_wf ts h.2⟩

end

mutual

/-- The lengths of a value are at most that of its encoding, which ends with bytes of the value. -/
theorem lengths_of_wf : ∀ (t : Ty) (v : t.Val) {enc : Bytes} {b : Nat}, t.Wf = true →
    t.encode v = .ok enc → enc.length < b → t.LengthsBelow b v ∧ t.OpenEnded v = false
  | .bool, _, _, _, _, _, _ => ⟨trivial, rfl⟩
  | .uint _, _, _, _, _, _, _ => ⟨trivial, rfl⟩
  | .sint _, _, _, _, _, _, _ => ⟨trivial, rfl⟩
  | .octets, _, _, _, _, h, hlen => ⟨(length_lt_putOctetString h).trans hlen, rfl⟩
  | .bitmap _, _, _, _, _, _, _ => ⟨trivial, rfl⟩
  | .array n t, v, enc, b, hwf, h, hlen => by
    obtain ⟨encs, hencs, h⟩ := bind_eq_ok.mp h
    cases h
    have hall := forall_of_bound (mapM_eq_ok hencs) hlen fun enc x hx hlen =>
      lengths_of_wf t x hwf hx hlen
    exact ⟨hall.imp fun _ => And.left, any_getLast?_eq_false (hall.imp fun _ => And.right)⟩
  | .list t, v, enc, b, hwf, h, hlen => by
    obtain ⟨len, hcount, h⟩ := bind_eq_ok.mp h
    obtain ⟨field, hfield, h⟩ := bind_eq_ok.mp h
    obtain ⟨encs, hencs, h⟩ := bind_eq_ok.mp h
    cases h
    simp only [Wf, and_eq_true] at hwf
    have hle := mapM_length_le (fun v enc => encode_ne_nil t v hwf.2) hencs
    rw [length_append] at hlen
    have hall := forall_of_bound (mapM_eq_ok hencs) (b := b) (by omega) fun enc x hx hlen =>
      lengths_of_wf t x hwf.1 hx hlen
    refine ⟨⟨by omega, hall.imp fun _ => And.left⟩, ?_⟩
    rw [OpenEnded, if_pos hwf.2]
    exact any_getLast?_eq_false (hall.imp fun _ => And.right)
  | .seq ts, v, enc, b, hwf, h, hlen => lengthsSeq_of_wf ts v hwf h hlen
  | .variant t ts, .inl v, enc, b, hwf, h, hlen => by
    obtain ⟨x, hx, h⟩ := bind_eq_ok.mp h
    cases h
    simp only [Wf, and_eq_true] at hwf
    rw [length_cons] at hlen
    exact lengths_of_wf t v hwf.1.2 hx (by omega)
  | .variant t ts, .inr v, enc, b, hwf, h, hlen => by
    obtain ⟨⟨i, x⟩, hx, h⟩ := bind_eq_ok.mp h
    cases h
    simp only [Wf, and_eq_true] at hwf
    rw [length_cons] at hlen
    exact lengthsAlt_of_wf ts v hwf.2 hx (by omega)

theorem lengthsSeq_of_wf :
    ∀ (ts : List Ty) (v : SeqVal ts) {enc : Bytes} {b : Nat}, WfAll ts = true →
    encodeSeq ts v = .ok enc → enc.length < b → LengthsBelowSeq b ts v ∧ OpenEndedSeq ts v = false
  | [], _, _, _, _, _, _ => ⟨trivial, rfl⟩
  | t :: ts, v, enc, b, hwf, h, hlen => by
    obtain ⟨x, hx, h⟩ := bind_eq_ok.mp h
    obtain ⟨y, hy, h⟩ := bind_eq_ok.mp h
    cases h
    simp only [WfAll, and_eq_true] at hwf
    rw [length_append] at hlen
    obtain ⟨hb, hends⟩ := lengths_of_wf t v.1 hwf.1 hx (b := b) (by omega)
    obtain ⟨hbs, hendss⟩ := lengthsSeq_of_wf ts v.2 hwf.2 hy (b := b) (by omega)
    refine ⟨⟨hb, hbs⟩, ?_⟩
    rw [OpenEndedSeq, hends, hendss, ite_self]

theorem lengthsAlt_of_wf : ∀ (ts : List Ty) (v : AltVal ts) {i : Nat} {enc : Bytes} {b : Nat},
    WfAll ts = true → encodeAlt ts v = .ok (i, enc) → enc.length < b →
    LengthsBelowAlt b ts v ∧ OpenEndedAlt ts v = false
  | t :: ts, .inl v, i, enc, b, hwf, h, hlen => by
    obtain ⟨x, hx, h⟩ := bind_eq_ok.mp h
    cases h
    simp only [WfAll, and_eq_true] at hwf
    exact lengths_of_wf t v hwf.1 hx hlen
  | t :: ts, .inr v, i, enc, b, hwf, h, hlen => by
    obtain ⟨⟨j, x⟩, hx, h⟩ := bind_eq_ok.mp h
    cases h
    simp only [WfAll, and_eq_true] at hwf
    exact lengthsAlt_of_wf ts v hwf.2 hx hlen

end

/-- A value of a type of the source whose encoding is short is read back, whatever follows. -/
theorem decode_reads_of_wf (t : Ty) (v old : t.Val) {enc : Bytes} (hwf : t.Wf = true)
    (h : t.encode v = .ok enc) (hlen : enc.length < 128 + 2 ^ 16) :
    Reads (t.decode old) P enc v := by
  obtain ⟨hb, hends⟩ := lengths_of_wf t v hwf h hlen
  refine (decode_reads le_rfl t v old (narrow_of_wf t hwf) hb h).reads.mono fun _ _ hopen => ?_
  rw [hends] at hopen
  cases hopen

end Ty

/-! ## Elements -/

namespace Tag

/-- The bytes of an element whose value is encoded as `enc`. -/
def element (tag : Tag) (enc : Bytes) : Bytes :=
  tag.typeBytes ++ (lengthField (tag.ouiBytes ++ enc).length ++ (tag.ouiBytes ++ enc))

theorem put_eq (tag : Tag) {enc : Bytes} (h : enc.length ≤ 65535) :
    tag.put (.ok enc) = .ok (tag.element enc) := by
  cases tag with
  | tlv type =>
    simp only [put, putTlv, putOctetString_eq (show enc.length < 128 + 2 ^ 16 by omega), bind,
      Except.bind, pure, Except.pure]
    rfl
  | tlv4 type =>
    simp only [put, putOctetString_eq (show enc.length < 128 + 2 ^ 16 by omega), bind,
      Except.bind, pure, Except.pure]
    rfl
  | oui a b c =>
    have hlen : (a :: b :: c :: enc).length < 128 + 2 ^ 16 := by simp; omega
    simp only [put, putOctetString_eq hlen, bind, Except.bind, pure, Except.pure]
    rfl

theorem word_reads_type (type : UInt32) :
    Reads (bigEndian <$> word 4) (fun _ => True) (lengthBytes type.toNat 4) type.toNat := by
  have h := (word_reads (lengthBytes type.toNat 4) (P := fun _ => True)).map (f := bigEndian)
  have htype : type.toNat % 256 ^ 4 = type.toNat := Nat.mod_eq_of_lt type.toNat_lt
  rwa [lengthBytes_length, bigEndian_lengthBytes, htype] at h

/-- An element is read back wherever it stands. -/
theorem get_reads (tag : Tag) {value : Decoder α} {enc : Bytes} {v : α} (hlen : enc.length ≤ 65535)
    (h : Reads value P enc v) : Reads (tag.get value) P (tag.element enc) (some v) := by
  cases tag with
  | tlv type => exact baseTlv_reads (uint8_reads type) (show enc.length < 128 + 2 ^ 16 by omega) h
  | tlv4 type =>
    exact baseTlv_reads (word_reads_type type) (show enc.length < 128 + 2 ^ 16 by omega) h
  | oui a b c =>
    intro pre post hB hP
    have hlong : (a :: b :: c :: enc).length < 128 + 2 ^ 16 := by simp; omega
    have hparts : Reads (parts (.oui a b c) value) P (element (.oui a b c) enc)
        ([100], (a :: b :: c :: enc).length, [a, b, c], v) := by
      have hval := h.map (f := fun v => (([100] : Bytes), (a :: b :: c :: enc).length,
        ([a, b, c] : Bytes), v))
      have hc := (uint8_reads c (P := fun _ => True)).bind
        (f := fun c => value >>= fun v => pure ([100], _, [a, b, c], v)) hval fun _ _ => trivial
      have hb := (uint8_reads b (P := fun _ => True)).bind
        (f := fun b => uint8 >>= fun c => value >>= fun v => pure ([100], _, [a, b, c], v)) hc
        fun _ _ => trivial
      have ha := (uint8_reads a (P := fun _ => True)).bind
        (f := fun a => uint8 >>= fun b => uint8 >>= fun c => value >>= fun v =>
          pure ([100], _, [a, b, c], v)) hb fun _ _ => trivial
      have hbody := (listLength_reads hlong).bind
        (f := fun len => uint8 >>= fun a => uint8 >>= fun b => uint8 >>= fun c =>
          value >>= fun v => pure ([100], len, [a, b, c], v)) ha fun _ _ _ => by simp
      exact (uint8_reads 100 (P := fun _ => True)).bind
        hbody
        fun _ _ => trivial
    exact get_some.mpr ⟨_, hparts pre post hB hP, by simp [ouiBytes]⟩

end Tag

end Odtone.Wire
