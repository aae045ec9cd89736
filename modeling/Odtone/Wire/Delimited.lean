import Odtone.Wire.RoundTrip
import Odtone.Wire.Types

/-! # Encodings determine values

The decoder does not read back a string with three length bytes, but the encoding of one still tells
which it is: no two values of the types a link is made of have encodings that begin the same bytes.
-/

namespace Odtone.Wire

open List Except

theorem lengthOctets_eq_ok {len fuel n k : Nat} (h : lengthOctets len fuel n = .ok k) :
    n < k ∧ k < 4 ∧ len < 256 ^ k := by
  induction fuel generalizing n with
  | zero => cases h
  | succ fuel ih =>
    unfold lengthOctets at h
    split_ifs at h with hwide hmore
    · have hk := ih h
      omega
    · cases h
      refine ⟨Nat.lt_succ_self n, by omega, ?_⟩
      rw [← two_pow_octets]
      exact Nat.lt_of_div_eq_zero (Nat.two_pow_pos _)
        (Nat.shiftRight_eq_div_pow .. ▸ of_not_not hmore)

/-- The length that a length field at the front stands for. -/
def fieldLength : Bytes → Nat
  | [] => 0
  | b :: bs => if b ≤ 128 then b.toNat else 128 + bigEndian (bs.take (b.toNat - 128))

theorem fieldLength_putListLength {len : Nat} {field : Bytes} (rest : Bytes)
    (h : putListLength len = .ok field) : fieldLength (field ++ rest) = len := by
  unfold putListLength at h
  split_ifs at h with hshort
  · cases h
    have hbyte := toNat_ofNat_byte (show len < 256 by omega)
    simp [fieldLength, UInt8.le_iff_toNat_le, hbyte, hshort]
  · obtain ⟨n, hn, h⟩ := bind_eq_ok.mp h
    cases h
    obtain ⟨hpos, hlt, hlen⟩ := lengthOctets_eq_ok hn
    have hmark : ((0x80 : UInt8) ||| UInt8.ofNat n).toNat = 128 + n :=
      (show ∀ n < 4, ((0x80 : UInt8) ||| UInt8.ofNat n).toNat = 128 + n by decide) n hlt
    have htake : (lengthBytes (len - 128) n ++ rest).take n = lengthBytes (len - 128) n :=
      take_left' (lengthBytes_length ..)
    rw [cons_append, fieldLength, if_neg (by rw [UInt8.le_iff_toNat_le, hmark]; simp; omega), hmark,
      Nat.add_sub_cancel_left, htake, bigEndian_lengthBytes, Nat.mod_eq_of_lt hlen]
    omega

namespace Ty

/-- Values of the type whose encodings are at the front of the same bytes are equal. -/
def Delimited (t : Ty) : Prop := ∀ ⦃v w : t.Val⦄ ⦃a b x y : Bytes⦄, t.encode v = .ok a →
  t.encode w = .ok b → a ++ x = b ++ y → v = w ∧ a = b

theorem delimited_uint (w : Width) : Delimited (.uint w) := by
  intro v v' a b x y hv hw heq
  cases hv
  cases hw
  have hbytes := (append_inj heq (by simp [lengthBytes_length])).1
  have hval := congrArg (fun bs => BitVec.ofNat (8 * w.octets) (bigEndian bs)) hbytes
  exact ⟨(ofNat_bigEndian v).symm.trans (hval.trans (ofNat_bigEndian v')), hbytes⟩

theorem delimited_octets : Delimited .octets := by
  intro (v : Bytes) (w : Bytes) a b x y hv hw heq
  obtain ⟨m, hm, hv⟩ := bind_eq_ok.mp hv
  obtain ⟨f, hf, hv⟩ := bind_eq_ok.mp hv
  obtain ⟨n, hn, hw⟩ := bind_eq_ok.mp hw
  obtain ⟨g, hg, hw⟩ := bind_eq_ok.mp hw
  cases hv
  cases hw
  rw [append_assoc, append_assoc] at heq
  obtain rfl : m = n := by
    rw [← fieldLength_putListLength (v ++ x) hf, heq, fieldLength_putListLength _ hg]
  cases hf.symm.trans hg
  have hlen : v.length = w.length := by
    unfold truncateUint at hm hn
    split_ifs at hm hn
    exact (ok.inj hm).trans (ok.inj hn).symm
  have hval := (append_inj (append_cancel_left heq) hlen).1
  exact ⟨hval, congrArg (f ++ ·) hval⟩

theorem delimited_seq {ts : List Ty} (h : ∀ t ∈ ts, t.Delimited) : Delimited (.seq ts) := by
  induction ts with
  | nil =>
    intro v w a b x y hv hw heq
    cases hv
    cases hw
    exact ⟨rfl, rfl⟩
  | cons t ts ih =>
    intro v w a b x y hv hw heq
    obtain ⟨a₁, ha₁, hv⟩ := bind_eq_ok.mp hv
    obtain ⟨a₂, ha₂, hv⟩ := bind_eq_ok.mp hv
    obtain ⟨b₁, hb₁, hw⟩ := bind_eq_ok.mp hw
    obtain ⟨b₂, hb₂, hw⟩ := bind_eq_ok.mp hw
    cases hv
    cases hw
    rw [append_assoc, append_assoc] at heq
    obtain ⟨hfst, rfl⟩ := h t (by simp) ha₁ hb₁ heq
    obtain ⟨hsnd, rfl⟩ := ih (fun t ht => h t (by simp [ht])) ha₂ hb₂ (append_cancel_left heq)
    exact ⟨Prod.ext hfst hsnd, rfl⟩

theorem delimited_alt {ts : List Ty} (h : ∀ t ∈ ts, t.Delimited) {v w : AltVal ts} {i : Nat}
    {a b x y : Bytes} (hv : encodeAlt ts v = .ok (i, a)) (hw : encodeAlt ts w = .ok (i, b))
    (heq : a ++ x = b ++ y) : v = w ∧ a = b := by
  induction ts generalizing i with
  | nil => cases v
  | cons t ts ih =>
    rcases v with v | v <;> rcases w with w | w
    all_goals
      obtain ⟨p, hv', hv⟩ := bind_eq_ok.mp hv
      obtain ⟨q, hw', hw⟩ := bind_eq_ok.mp hw
      cases hv
    · cases hw
      exact (h t (by simp) hv' hw' heq).imp_left (congrArg _)
    · cases hw
    · cases hw
    · obtain ⟨hindex, rfl⟩ := Prod.mk.inj (ok.inj hw)
      obtain ⟨j, b⟩ := q
      obtain rfl := Nat.succ.inj hindex
      exact (ih (fun t ht => h t (by simp [ht])) hv' hw').imp_left (congrArg _)

theorem encode_variant (t : Ty) (ts : List Ty) (v : AltVal (t :: ts)) :
    encode (.variant t ts) v =
      (do let (i, enc) ← encodeAlt (t :: ts) v; return UInt8.ofNat i :: enc) := by
  cases v with
  | inl v =>
    simp only [encode, encodeAlt, bind_assoc, pure_bind]
    rfl
  | inr v =>
    simp only [encode, encodeAlt, bind_assoc, pure_bind]

theorem delimited_variant {t : Ty} {ts : List Ty} (hn : (t :: ts).length ≤ 256)
    (h : ∀ t' ∈ t :: ts, t'.Delimited) : Delimited (.variant t ts) := by
  intro v w a b x y hv hw heq
  obtain ⟨⟨i, a⟩, hv', hv⟩ := bind_eq_ok.mp ((encode_variant t ts v).symm.trans hv)
  obtain ⟨⟨j, b⟩, hw', hw⟩ := bind_eq_ok.mp ((encode_variant t ts w).symm.trans hw)
  cases hv
  cases hw
  obtain ⟨hij, htail⟩ := cons.inj heq
  have hi := toNat_ofNat_byte ((encodeAlt_lt hv').trans_le hn)
  have hj := toNat_ofNat_byte ((encodeAlt_lt hw').trans_le hn)
  obtain rfl : i = j := hi.symm.trans ((congrArg UInt8.toNat hij).trans hj)
  obtain ⟨rfl, rfl⟩ := delimited_alt h hv' hw' htail
  exact ⟨rfl, rfl⟩

theorem delimited_linkAddr : linkAddr.Delimited := by
  have hname : Delimited (.seq [.octets]) := delimited_seq (by simpa using delimited_octets)
  refine delimited_variant (by decide) ?_
  simp only [forall_mem_cons]
  refine ⟨delimited_seq ?_, delimited_seq ?_, delimited_seq ?_, hname, hname, hname, nofun⟩
  all_goals
    simp only [forall_mem_cons]
    simp [delimited_uint, delimited_octets, uint8, uint16, uint32]

theorem delimited_linkTupleId : linkTupleId.Delimited := by
  refine delimited_seq ?_
  simp only [forall_mem_cons]
  refine ⟨delimited_uint .one, delimited_linkAddr, delimited_variant (by decide) ?_, nofun⟩
  simp only [forall_mem_cons]
  exact ⟨delimited_seq nofun, delimited_linkAddr, nofun⟩

end Ty

end Odtone.Wire
