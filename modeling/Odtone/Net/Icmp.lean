import Odtone.Net.AddressMac

/-! # Parsing router solicitations

`icmp_rs_parse` walks over the options behind the header of a router solicitation, up to the first
source link layer option, and returns the address in it. The functions are followed with every
access they make: a null pointer that is dereferenced, a byte outside of the buffer and a failed
assertion are outcomes of their own.

What may stand behind the header is described by `Opt`, a complete option with a length that is not
zero. Any byte string is a sequence of such options up to the first link layer option, up to a place
where an option is truncated, or up to where the walk should stop; these are the three outcomes.
-/

namespace Odtone.Net.Icmp

open List

/-! ## The functions -/

/-- What the functions must not do. -/
inductive Fault where
  /-- a null pointer is dereferenced -/
  | null
  /-- a byte outside of the buffer is accessed -/
  | outOfBounds
  /-- `BOOST_ASSERT` fails -/
  | assertion
deriving DecidableEq

/-- A pointer into the buffer is given by the bytes from there on. -/
abbrev Ptr := List UInt8

/-- The byte `i` behind a pointer. -/
def Ptr.read (p : Ptr) (i : Nat) : Except Fault UInt8 :=
  match p[i]? with
  | some b => .ok b
  | none => .error .outOfBounds

/-- `option::cast(void*, size_t)`; the length is what is left of the buffer. -/
def optionCast (data : Ptr) : Except Fault (Option Ptr) :=
  if data.length < 2 then .ok none
  else do
    let length ← data.read 1
    return if data.length < length.toNat * 8 then none else some data

/-- `opt_source_link_layer::cast(option*)` -/
def sourceLinkLayerCast : Option Ptr → Except Fault (Option Ptr)
  | none => .ok none
  | some opt => do
      if (← opt.read 0) ≠ 1 then return none
      return if (← opt.read 1).toNat * 8 < 8 then none else some opt

/-- `option::size` -/
def optionSize : Option Ptr → Except Fault Nat
  | none => .error .null
  | some opt => do return (← opt.read 1).toNat * 8

/-- `opt_link_layer::to_mac` -/
def toMac (opt : Ptr) : Except Fault AddressMac := do
  let size ← optionSize opt
  if size ≠ 8 then throw .assertion
  if h : 8 ≤ opt.length then return ⟨(opt.drop 2).take 6, by simp; omega⟩
  else throw .outOfBounds

/-- The loop of `icmp_rs_parse` from a position on. Each round moves forward, so that as many rounds
as there are bytes left are enough. -/
def rsOptions : Nat → Ptr → Except Fault (Option AddressMac)
  | 0, _ => .ok none
  | n + 1, rest =>
    if rest.length = 0 then .ok none
    else do
      let opt ← optionCast rest
      let sll ← sourceLinkLayerCast opt
      let len ← optionSize opt
      if len = 0 then return none
      match sll with
      | some sll => return some (← toMac sll)
      | none => rsOptions n (rest.drop len)

/-- `icmp_rs_parse`; `none` if it returns false. -/
def icmpRsParse (buffer : Ptr) : Except Fault (Option AddressMac) :=
  -- `header::cast`
  if buffer.length < 8 then .ok none
  else do
    if (← buffer.read 0) ≠ 133 then return none
    rsOptions buffer.length (buffer.drop 8)

/-! ## Options -/

/-- A complete option with a length that is not zero. -/
structure Opt where
  type : UInt8
  units : UInt8
  body : List UInt8
  units_pos : 0 < units.toNat
  length_body : body.length + 2 = units.toNat * 8

namespace Opt

def bytes (o : Opt) : List UInt8 := o.type :: o.units :: o.body

@[simp] theorem length_bytes (o : Opt) : o.bytes.length = o.units.toNat * 8 := by
  simp [bytes, o.length_body]

/-- The address in a source link layer option. -/
def mac (o : Opt) : AddressMac := ⟨o.body.take 6, by
  have h := o.length_body
  have hpos := o.units_pos
  simp
  omega⟩

end Opt

/-- The option at the front is truncated. -/
def Truncated (rest : List UInt8) : Prop :=
  rest ≠ [] ∧ ∀ units ∈ rest[1]?, rest.length < units.toNat * 8

/-- There is no option at the front: the buffer ends, or there is a length of zero. -/
def Ended (rest : List UInt8) : Prop := rest = [] ∨ rest[1]? = some 0

/-- A byte string starts with an option, or it is truncated, or it ends. -/
theorem front_cases (rest : List UInt8) :
    (∃ o r, rest = Opt.bytes o ++ r) ∨ Truncated rest ∨ Ended rest := by
  match rest with
  | [] => exact .inr (.inr (.inl rfl))
  | [b] => exact .inr (.inl ⟨by simp, by simp⟩)
  | type :: units :: tail =>
    by_cases hzero : units = 0
    · exact .inr (.inr (.inr (by simp [hzero])))
    · have hpos : 0 < units.toNat := by
        rw [Nat.pos_iff_ne_zero]
        exact fun h => hzero (UInt8.toNat_inj.mp h)
      by_cases hlen : (type :: units :: tail).length < units.toNat * 8
      · exact .inr (.inl ⟨by simp, by simpa using hlen⟩)
      · simp only [length_cons] at hlen
        refine .inl ⟨⟨type, units, tail.take (units.toNat * 8 - 2), hpos, ?_⟩,
          tail.drop (units.toNat * 8 - 2), ?_⟩
        · simp
          omega
        · simp [Opt.bytes]

/-! ## One round -/

section Rounds

variable {n : Nat} {rest r : List UInt8} {o : Opt}

theorem read_type (o : Opt) (r : List UInt8) : Ptr.read (o.bytes ++ r) 0 = .ok o.type := rfl

theorem read_units (o : Opt) (r : List UInt8) : Ptr.read (o.bytes ++ r) 1 = .ok o.units := rfl

theorem optionCast_bytes (o : Opt) (r : List UInt8) :
    optionCast (o.bytes ++ r) = .ok (some (o.bytes ++ r)) := by
  have hpos := o.units_pos
  have hlen : ¬ (o.bytes ++ r).length < 2 := by
    rw [length_append, o.length_bytes]
    omega
  have hfits : ¬ (o.bytes ++ r).length < o.units.toNat * 8 := by simp
  simp only [optionCast, hlen, if_false, read_units, bind, Except.bind, hfits]
  rfl

theorem optionSize_bytes (o : Opt) (r : List UInt8) :
    optionSize (some (o.bytes ++ r)) = .ok (o.units.toNat * 8) := rfl

theorem rsOptions_other (h : o.type ≠ 1) : rsOptions (n + 1) (o.bytes ++ r) = rsOptions n r := by
  have hpos := o.units_pos
  have hne : (o.bytes ++ r).length ≠ 0 := by
    rw [length_append, o.length_bytes]
    omega
  have hsize : o.units.toNat * 8 ≠ 0 := by omega
  have hsll : sourceLinkLayerCast (some (o.bytes ++ r)) = .ok none := by
    simp [sourceLinkLayerCast, read_type, h, bind, Except.bind]
    rfl
  have hdrop : (o.bytes ++ r).drop (o.units.toNat * 8) = r := by
    rw [← o.length_bytes, drop_left]
  simp only [rsOptions, hne, if_false, optionCast_bytes, hsll, optionSize_bytes, bind, Except.bind,
    hsize, hdrop]

theorem toMac_bytes (o : Opt) (r : List UInt8) :
    toMac (o.bytes ++ r) = if o.units = 1 then .ok o.mac else .error .assertion := by
  have hunits : o.units = 1 ↔ o.units.toNat = 1 := by rw [← UInt8.toNat_inj]; rfl
  split_ifs with hone
  · have hsize : o.units.toNat * 8 = 8 := by rw [hunits.mp hone]
    have hbody : o.body.length = 6 := by have := o.length_body; omega
    have hroom : 8 ≤ (o.bytes ++ r).length := by simp [hsize]
    have hmac : ((o.bytes ++ r).drop 2).take 6 = o.body.take 6 := by
      simp [Opt.bytes, hbody, take_of_length_le]
    simp only [toMac, optionSize_bytes, bind, Except.bind, hsize, hroom, dite_true, hmac]
    rfl
  · have hsize : o.units.toNat * 8 ≠ 8 := fun h => hone (hunits.mpr (by omega))
    simp only [toMac, optionSize_bytes, bind, Except.bind, ne_eq, hsize, not_false_eq_true, if_true]
    rfl

theorem rsOptions_sourceLinkLayer (h : o.type = 1) : rsOptions (n + 1) (o.bytes ++ r) =
    if o.units = 1 then .ok (some o.mac) else .error .assertion := by
  have hpos := o.units_pos
  have hlen : (o.bytes ++ r).length = o.units.toNat * 8 + r.length := by
    rw [length_append, o.length_bytes]
  have hne : (o.bytes ++ r).length ≠ 0 := by omega
  have hsize : o.units.toNat * 8 ≠ 0 := by omega
  have hsmall : ¬ o.units.toNat * 8 < 8 := by omega
  have hsll : sourceLinkLayerCast (some (o.bytes ++ r)) = .ok (some (o.bytes ++ r)) := by
    simp only [sourceLinkLayerCast, read_type, read_units, h, bind, Except.bind, hsmall, if_false]
    rfl
  simp only [rsOptions, hne, if_false, optionCast_bytes, hsll, optionSize_bytes, bind, Except.bind,
    hsize, toMac_bytes]
  split_ifs <;> rfl

theorem rsOptions_truncated (h : Truncated rest) : rsOptions (n + 1) rest = .error .null := by
  obtain ⟨hne, hcut⟩ := h
  have hcast : optionCast rest = .ok none := by
    unfold optionCast
    split_ifs with hshort
    · rfl
    · obtain ⟨type, units, tail, rfl⟩ : ∃ type units tail, rest = type :: units :: tail := by
        match rest with
        | [] => simp at hshort
        | [_] => simp at hshort
        | type :: units :: tail => exact ⟨type, units, tail, rfl⟩
      have hlt : (type :: units :: tail).length < units.toNat * 8 := hcut units rfl
      simp only [Ptr.read, getElem?_cons_succ, getElem?_cons_zero, bind, Except.bind, hlt,
        if_true]
      rfl
  have hlen : rest.length ≠ 0 := by simpa using hne
  simp only [rsOptions, hlen, if_false, hcast, sourceLinkLayerCast, optionSize, bind, Except.bind]

theorem rsOptions_ended (h : Ended rest) : rsOptions n rest = .ok none := by
  obtain rfl | hzero := h
  · cases n <;> rfl
  · cases n with
    | zero => rfl
    | succ n =>
      obtain ⟨type, tail, rfl⟩ : ∃ type tail, rest = type :: 0 :: tail := by
        match rest, hzero with
        | type :: units :: tail, hzero => exact ⟨type, tail, by simpa using hzero⟩
      have hcast : optionCast (type :: 0 :: tail) = .ok (some (type :: 0 :: tail)) := rfl
      have hsll : sourceLinkLayerCast (some (type :: 0 :: tail)) = .ok none := by
        by_cases htype : type = 1 <;>
        simp [sourceLinkLayerCast, Ptr.read, htype, bind, Except.bind, pure, Except.pure]
      simp only [rsOptions, length_cons, Nat.add_one_ne_zero, if_false, hcast, hsll, bind,
        Except.bind]
      rfl

end Rounds

/-! ## The walk -/

/-- Options one after the other. -/
def chain (opts : List Opt) : List UInt8 := opts.flatMap Opt.bytes

/-- None of them is a source link layer option. -/
def Others (opts : List Opt) : Prop := ∀ o ∈ opts, o.type ≠ 1

variable {n : Nat} {opts : List Opt} {rest r : List UInt8}

/-- Every byte string is options up to a source link layer option, up to a truncated option, or up
to an end. -/
theorem exists_chain (rest : List UInt8) : ∃ opts r, Others opts ∧ rest = chain opts ++ r ∧
    ((∃ sll r', sll.type = 1 ∧ r = Opt.bytes sll ++ r') ∨ Truncated r ∨ Ended r) := by
  induction hk : rest.length using Nat.strong_induction_on generalizing rest with
  | _ k ih =>
    obtain ⟨o, r, rfl⟩ | hstop := front_cases rest
    · by_cases htype : o.type = 1
      · exact ⟨[], _, by simp [Others], rfl, .inl ⟨o, r, htype, rfl⟩⟩
      · have hlt : r.length < k := by
          have := o.units_pos
          rw [← hk, length_append, o.length_bytes]
          omega
        obtain ⟨opts, r', hothers, rfl, hr'⟩ := ih _ hlt r rfl
        refine ⟨o :: opts, r', ?_, by simp [chain], hr'⟩
        exact forall_mem_cons.mpr ⟨htype, hothers⟩
    · exact ⟨[], rest, by simp [Others], rfl, .inr hstop⟩

theorem rsOptions_chain (h : Others opts) :
    rsOptions (opts.length + n) (chain opts ++ r) = rsOptions n r := by
  induction opts with
  | nil => simp [chain]
  | cons o opts ih =>
    obtain ⟨ho, hopts⟩ := forall_mem_cons.mp h
    have hchain : chain (o :: opts) ++ r = o.bytes ++ (chain opts ++ r) := by simp [chain]
    rw [hchain, length_cons, Nat.add_right_comm, rsOptions_other ho, ih hopts]

theorem length_le_chain (opts : List Opt) : opts.length ≤ (chain opts).length := by
  induction opts with
  | nil => exact le_rfl
  | cons o opts ih =>
    have hpos := o.units_pos
    have hlen : (chain (o :: opts)).length = o.units.toNat * 8 + (chain opts).length := by
      simp [chain]
    rw [length_cons, hlen]
    omega

/-- There are enough rounds for what comes behind the other options. -/
theorem exists_rounds (h : Others opts) (hn : (chain opts ++ r).length ≤ n) :
    ∃ k, r.length ≤ k ∧ rsOptions n (chain opts ++ r) = rsOptions k r := by
  have hle := length_le_chain opts
  rw [length_append] at hn
  have hrounds := rsOptions_chain (n := n - opts.length) (r := r) h
  rw [Nat.add_sub_cancel' (by omega)] at hrounds
  exact ⟨n - opts.length, by omega, hrounds⟩

/-! ## Solicitations -/

/-- The buffer is a router solicitation followed by options of which the first source link layer
option is `sll`. What comes behind it does not matter. -/
def Solicits (buffer : List UInt8) (sll : Opt) : Prop :=
  ∃ hdr opts r, hdr.length = 8 ∧ hdr.head? = some 133 ∧ Others opts ∧ sll.type = 1 ∧
    buffer = hdr ++ (chain opts ++ (sll.bytes ++ r))

/-- The buffer is a router solicitation followed by other options and a truncated one. -/
def CutOff (buffer : List UInt8) : Prop :=
  ∃ hdr opts r, hdr.length = 8 ∧ hdr.head? = some 133 ∧ Others opts ∧ Truncated r ∧
    buffer = hdr ++ (chain opts ++ r)

/-- What is to be returned: the address of the first source link layer option. -/
def Correct (buffer : List UInt8) (res : Except Fault (Option AddressMac)) : Prop :=
  (∃ sll, Solicits buffer sll ∧ res = .ok (some sll.mac)) ∨
    (¬ ∃ sll, Solicits buffer sll) ∧ res = .ok none

variable {hdr buffer : List UInt8}

theorem icmpRsParse_header (hlen : hdr.length = 8) (htype : hdr.head? = some 133) :
    icmpRsParse (hdr ++ rest) = rsOptions (hdr ++ rest).length rest := by
  obtain ⟨tail, rfl⟩ : ∃ tail, hdr = 133 :: tail := by
    cases hdr with
    | nil => cases htype
    | cons b tail => exact ⟨tail, congrArg (· :: tail) (Option.some.inj htype)⟩
  have hroom : ¬ (133 :: tail ++ rest).length < 8 := by
    rw [length_append, hlen]
    omega
  have hdrop : (133 :: tail ++ rest).drop 8 = rest := by rw [← hlen, drop_left]
  simp only [icmpRsParse, hroom, if_false, hdrop]
  rfl

theorem icmpRsParse_other (h : ¬ ∃ hdr rest, hdr.length = 8 ∧ hdr.head? = some 133 ∧
    buffer = hdr ++ rest) : icmpRsParse buffer = .ok none := by
  unfold icmpRsParse
  split_ifs with hshort
  · rfl
  · obtain ⟨b, tail, rfl⟩ : ∃ b tail, buffer = b :: tail := by
      cases buffer with
      | nil => exact absurd (by decide) hshort
      | cons b tail => exact ⟨b, tail, rfl⟩
    have hb : b ≠ 133 := by
      rintro rfl
      refine h ⟨(133 :: tail).take 8, (133 :: tail).drop 8, ?_, rfl, ?_⟩
      · rw [length_take]
        omega
      · exact (take_append_drop 8 _).symm
    simp only [Ptr.read, getElem?_cons_zero, bind, Except.bind, ne_eq, hb, not_false_eq_true,
      if_true]
    rfl

theorem icmpRsParse_solicits {sll : Opt} (h : Solicits buffer sll) : icmpRsParse buffer =
    if sll.units = 1 then .ok (some sll.mac) else .error .assertion := by
  obtain ⟨hdr, opts, r, hlen, htype, hopts, hsll, rfl⟩ := h
  rw [icmpRsParse_header hlen htype]
  obtain ⟨k, hk, hrounds⟩ := exists_rounds (r := sll.bytes ++ r) hopts
    (n := (hdr ++ (chain opts ++ (sll.bytes ++ r))).length) (by simp)
  obtain ⟨k, rfl⟩ : ∃ j, k = j + 1 := by
    have hpos := sll.units_pos
    rw [length_append, sll.length_bytes] at hk
    exact ⟨k - 1, by omega⟩
  rw [hrounds, rsOptions_sourceLinkLayer hsll]

theorem icmpRsParse_cutOff (h : CutOff buffer) : icmpRsParse buffer = .error .null := by
  obtain ⟨hdr, opts, r, hlen, htype, hopts, hcut, rfl⟩ := h
  rw [icmpRsParse_header hlen htype]
  obtain ⟨k, hk, hrounds⟩ := exists_rounds (r := r) hopts
    (n := (hdr ++ (chain opts ++ r)).length) (by simp)
  obtain ⟨k, rfl⟩ : ∃ j, k = j + 1 := by
    have hpos := length_pos_of_ne_nil hcut.1
    exact ⟨k - 1, by omega⟩
  rw [hrounds, rsOptions_truncated hcut]

/-- Every buffer is one of the two, or false is returned for it. -/
theorem icmpRsParse_cases (buffer : List UInt8) :
    (∃ sll, Solicits buffer sll) ∨ CutOff buffer ∨ icmpRsParse buffer = .ok none := by
  by_cases hhdr : ∃ hdr rest, hdr.length = 8 ∧ hdr.head? = some 133 ∧ buffer = hdr ++ rest
  · obtain ⟨hdr, rest, hlen, htype, rfl⟩ := hhdr
    obtain ⟨opts, r, hopts, rfl, ⟨sll, r', hsll, rfl⟩ | hcut | hend⟩ := exists_chain rest
    · exact .inl ⟨sll, hdr, opts, r', hlen, htype, hopts, hsll, rfl⟩
    · exact .inr (.inl ⟨hdr, opts, r, hlen, htype, hopts, hcut, rfl⟩)
    · obtain ⟨k, -, hrounds⟩ := exists_rounds (r := r) hopts
        (n := (hdr ++ (chain opts ++ r)).length) (by simp)
      rw [icmpRsParse_header hlen htype, hrounds, rsOptions_ended hend]
      exact .inr (.inr rfl)
  · exact .inr (.inr (icmpRsParse_other hhdr))

/-- Parsing meets no fault and returns the right answer exactly if no option in front of the first
source link layer option is truncated and that option has eight bytes. -/
theorem icmpRsParse_correct_iff (buffer : List UInt8) : Correct buffer (icmpRsParse buffer) ↔
    ¬ CutOff buffer ∧ ∀ sll, Solicits buffer sll → sll.units = 1 := by
  constructor
  · intro h
    constructor
    · intro hcut
      rw [icmpRsParse_cutOff hcut] at h
      obtain ⟨_, -, h⟩ | ⟨-, h⟩ := h <;> cases h
    · intro sll hsll
      rw [icmpRsParse_solicits hsll] at h
      by_contra hne
      rw [if_neg hne] at h
      obtain ⟨_, -, h⟩ | ⟨-, h⟩ := h <;> cases h
  · rintro ⟨hcut, hunits⟩
    obtain ⟨sll, hsll⟩ | hcut' | hnone := icmpRsParse_cases buffer
    · refine .inl ⟨sll, hsll, ?_⟩
      rw [icmpRsParse_solicits hsll, if_pos (hunits sll hsll)]
    · exact absurd hcut' hcut
    · refine .inr ⟨?_, hnone⟩
      rintro ⟨sll, hsll⟩
      rw [icmpRsParse_solicits hsll, if_pos (hunits sll hsll)] at hnone
      cases hnone

/-- Nine bytes are enough for the first fault; a link layer option of sixteen bytes makes the
other. -/
theorem icmpRsParse_faults :
    icmpRsParse [133, 0, 0, 0, 0, 0, 0, 0, 1] = .error .null ∧
      icmpRsParse [133, 0, 0, 0, 0, 0, 0, 0, 1, 2, 0xaa, 0xbb, 0xcc, 0xdd, 0xee, 0xff, 0, 0, 0, 0,
        0, 0, 0, 0] = .error .assertion :=
  ⟨rfl, rfl⟩

end Odtone.Net.Icmp
