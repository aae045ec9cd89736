import Odtone.Support.Bits
import Odtone.Support.Loop

/-! # Domain names

`parse_domain_name` walks over a domain name in the payload of a message. A label is copied, and at
a pointer the walk goes on at the byte it points to, which is taken for the length of a label
whatever it is. Positions are counted from the payload on, so that the header is in front of
position `0`.

The walk ends exactly if it does not come to the same position twice. -/

namespace Odtone.Dns

open List

/-- The payload of the message `fm`, as the parsers index it: the header lies in front of it, and
what is beyond the end of the message reads as zero. -/
def payload (fm : List UInt8) (i : Int) : UInt8 :=
  if i < -12 then 0 else fm[(i + 12).toNat]?.getD 0

/-- The `n` bytes from position `a` on. -/
def bytesAt (p : Int → UInt8) (a : Int) (n : Nat) : List UInt8 :=
  (range n).map fun k : Nat => p (a + k)

/-- `parse_uint16`: the value, and the position behind it. -/
def parseUint16 (p : Int → UInt8) (pos : Int) : UInt16 × Int :=
  (Bits.join (p pos) (p (pos + 1)), pos + 2)

/-- Where a pointer leads: offsets count from the header on. -/
def target (p : Int → UInt8) (pos : Int) : Int :=
  ((parseUint16 p pos).1 &&& 0x3fff).toNat - 12

/-- The character between labels. -/
def dot : UInt8 := 46

/-- The locals of `parse_domain_name` at the head of its loop. -/
structure NameLoop where
  tmp : Int
  pos : Int
  pointer : Bool := false
  qname : List UInt8 := []
deriving DecidableEq

/-- The inner loop, the dot behind the label and the increment of `tmp`. -/
def NameLoop.copy (p : Int → UInt8) (s : NameLoop) (nlen : UInt8) : NameLoop :=
  { s with
    tmp := s.tmp + nlen.toNat + 1
    qname := s.qname ++ bytesAt p (s.tmp + 1) nlen.toNat ++ [dot] }

/-- A round of the loop in `parse_domain_name`. -/
def nameRound (p : Int → UInt8) (s : NameLoop) : Option NameLoop :=
  let nlen := p s.tmp
  if nlen = 0 then none
  else if nlen >>> 6 = 3 then
    let s :=
      { s with
        pos := if s.pointer then s.pos else s.pos + 2
        tmp := target p s.tmp
        pointer := true }
    some (s.copy p (p s.tmp))
  else
    let s := { s with pos := if s.pointer then s.pos else s.pos + (nlen.toNat + 1) }
    some (s.copy p nlen)

/-- `parse_domain_name(p, pos)`, in at most `fuel` rounds: the name, and the position behind it. -/
def parseDomainName (p : Int → UInt8) (fuel : Nat) (pos : Int) : Option (List UInt8 × Int) :=
  (Loop.run (nameRound p) fuel { tmp := pos, pos }).map fun s =>
    (s.qname.dropLast, if s.pointer then s.pos else s.pos + 1)

/-! ## Rounds -/

section Rounds

variable {p : Int → UInt8} {s : NameLoop}

theorem shiftRight_eq_three_iff (b : UInt8) : b >>> 6 = 3 ↔ 192 ≤ b.toNat := by
  have hb : b.toNat < 256 := UInt8.toNat_lt b
  rw [← UInt8.toNat_inj, UInt8.toNat_shiftRight]
  simp only [UInt8.reduceToNat, Nat.reduceMod, Nat.shiftRight_eq_div_pow]
  omega

theorem nameRound_of_zero (h : p s.tmp = 0) : nameRound p s = none := by
  rw [nameRound, if_pos h]

theorem nameRound_of_pointer (h : 192 ≤ (p s.tmp).toNat) : nameRound p s = some (NameLoop.copy p
      { s with
        pos := if s.pointer then s.pos else s.pos + 2
        tmp := target p s.tmp
        pointer := true } (p (target p s.tmp))) := by
  have hne : p s.tmp ≠ 0 := by
    intro h0
    rw [h0] at h
    exact absurd h (by decide)
  rw [nameRound, if_neg hne, if_pos ((shiftRight_eq_three_iff _).mpr h)]

theorem nameRound_of_label (hne : p s.tmp ≠ 0) (h : (p s.tmp).toNat < 192) : nameRound p s =
    some (NameLoop.copy p
      { s with pos := if s.pointer then s.pos else s.pos + ((p s.tmp).toNat + 1) } (p s.tmp)) := by
  rw [nameRound, if_neg hne, if_neg fun h' => by
    have := (shiftRight_eq_three_iff _).mp h'
    omega]

end Rounds

/-! ## The walk over the positions -/

/-- From the head of the loop at a position to the next. -/
def hop (p : Int → UInt8) (i : Int) : Option Int :=
  if p i = 0 then none
  else if 192 ≤ (p i).toNat then some (target p i + (p (target p i)).toNat + 1)
  else some (i + (p i).toNat + 1)

theorem hop_tmp (p : Int → UInt8) (s : NameLoop) :
    hop p s.tmp = (nameRound p s).map NameLoop.tmp := by
  unfold hop
  split_ifs with h0 hp
  · rw [nameRound_of_zero h0]
    rfl
  · rw [nameRound_of_pointer hp]
    rfl
  · rw [nameRound_of_label h0 (not_le.mp hp)]
    rfl

theorem run_hop (p : Int → UInt8) (fuel : Nat) (s : NameLoop) :
    Loop.run (hop p) fuel s.tmp = (Loop.run (nameRound p) fuel s).map NameLoop.tmp := by
  have hfollows : Loop.Follows (nameRound p) (hop p) (fun _ => True) NameLoop.tmp :=
    { keeps := fun _ _ _ _ => trivial
      image := fun s _ => hop_tmp p s }
  exact hfollows.run_eq trivial fuel

theorem target_mem (p : Int → UInt8) (i : Int) : -12 ≤ target p i ∧ target p i < 16384 := by
  have hle : ((parseUint16 p i).1 &&& 0x3fff).toNat ≤ 0x3fff := by
    rw [UInt16.toNat_and]
    exact Nat.and_le_right
  unfold target
  omega

variable {fm : List UInt8} {i : Int}

theorem payload_ne_zero (h : payload fm i ≠ 0) : -12 ≤ i ∧ i < fm.length := by
  unfold payload at h
  split at h
  · exact absurd rfl h
  · next hi =>
    refine ⟨not_lt.mp hi, ?_⟩
    by_contra hlen
    refine h ?_
    rw [getElem?_eq_none (by omega)]
    rfl

/-- The positions a walk can get to, its start apart. -/
def reachable (fm : List UInt8) : Finset Int :=
  (Finset.range (fm.length + 16700)).image fun k : Nat => (k : Int) - 12

theorem mem_reachable (h : -12 ≤ i) (h' : i < fm.length + 16641) : i ∈ reachable fm :=
  Finset.mem_image.mpr ⟨(i + 12).toNat, Finset.mem_range.mpr (by omega), by omega⟩

theorem hop_mem {j : Int} (h : hop (payload fm) i = some j) : j ∈ reachable fm := by
  unfold hop at h
  split_ifs at h with h0 hp
  · cases h
    have ht := target_mem (payload fm) i
    have hlen := UInt8.toNat_lt (payload fm (target (payload fm) i))
    exact mem_reachable (by omega) (by omega)
  · cases h
    have hi := payload_ne_zero h0
    exact mem_reachable (by omega) (by omega)

/-- The parser of domain names returns exactly if the walk over the message does not come to a
position twice. -/
theorem parseDomainName_returns_iff (fm : List UInt8) (pos : Int) :
    (∃ fuel r, parseDomainName (payload fm) fuel pos = some r) ↔
      ¬ ∃ i j t, 0 < j ∧ Loop.after (hop (payload fm)) i pos = some t ∧
        Loop.after (hop (payload fm)) j t = some t := by
  rw [← Loop.halts_iff_not_returns (insert pos (reachable fm))]
  · refine exists_congr fun fuel => ?_
    have hrun := run_hop (payload fm) fuel { tmp := pos, pos }
    simp [parseDomainName, hrun]
  · intro k t h
    refine Loop.after_induct (· ∈ insert pos (reachable fm)) ?_ ?_ h
    · exact Finset.mem_insert_self _ _
    · exact fun i j _ hj => Finset.mem_insert_of_mem (hop_mem hj)

/-- A label and behind it a pointer back to the label. -/
theorem parseDomainName_loops : ¬ ∃ fuel r,
    parseDomainName (payload (replicate 12 0 ++ [1, 97, 0xC0, 12])) fuel 0 = some r := by
  rintro ⟨fuel, r, h⟩
  obtain ⟨s, hs, -⟩ := Option.map_eq_some_iff.mp h
  have hrun := run_hop (payload (replicate 12 0 ++ [1, 97, 0xC0, 12])) fuel { tmp := 0, pos := 0 }
  rw [hs, Loop.run_of_returns (i := 1) (t := 2) (by decide) Nat.one_pos (by decide)] at hrun
  cases hrun

end Odtone.Dns
