import Odtone.Nlwrap.Walk

/-! # Progress through a beacon

Where the reads always succeed, whatever stands behind the buffer, the parser of information
elements returns exactly if the walk does not stall: every element moves the outer loop on, but a
vendor tuple moves the inner loop by a length that may be zero. -/

namespace Odtone.Nlwrap

open Except Loop

/-! ## Reads that always succeed -/

section Total

variable {ε : Type} {read : Nat → Except ε UInt8} {mem : Nat → UInt8}
  (hread : ∀ i, read i = .ok (mem i))

include hread

/-- The `k` bytes of a memory from index `a` on. -/
def bytesAt (mem : Nat → UInt8) (a k : Nat) : List UInt8 := (List.range k).map fun i => mem (a + i)

theorem readBytes_total (a k : Nat) : readBytes read a k = .ok (bytesAt mem a k) := by
  unfold readBytes bytesAt
  generalize List.range k = is
  induction is with
  | nil => rfl
  | cons i is ih =>
    rw [List.mapM_cons, hread, ih]
    rfl

theorem rates_total (data len : Nat) (s : Parser) : ∃ t, rates read data len s = .ok t := by
  refine (exists_foldlM_ok (fun s r => ?_) _ s).mpr fun _ _ => trivial
  rw [rate, exists_bind_of_ok (hread _)]
  exact iff_of_true ⟨_, rfl⟩ trivial

theorem vendor_total (data len : Nat) (msg : GenlMsg) :
    ∃ msg', vendor read data len msg = .ok msg' := by
  unfold vendor
  split
  · rw [bind_pure_comp, exists_map_ok]
    rw [knownCipher, exists_bind_of_ok (readBytes_total hread data 3), hread]
    split_ifs
    all_goals exact ⟨_, rfl⟩
  · exact ⟨msg, rfl⟩

theorem interworking_total (data len : Nat) (msg : GenlMsg) :
    ∃ msg', interworking read data len msg = .ok msg' := by
  rw [interworking, exists_bind_of_ok (hread _), hessid]
  split_ifs
  · exact exists_map_ok.mpr ⟨_, readBytes_total hread _ _⟩
  · exact exists_map_ok.mpr ⟨_, readBytes_total hread _ _⟩
  · exact ⟨_, rfl⟩

theorem switch_total (s : Parser) (id len : UInt8) : ∃ t, switch read s id len = .ok t := by
  unfold switch
  split
  · rw [bind_pure_comp, exists_map_ok]
    exact ⟨_, readBytes_total hread _ _⟩
  · rw [bind_pure_comp, exists_map_ok]
    exact rates_total hread _ _ _
  · exact ⟨_, rfl⟩
  · rw [bind_pure_comp, exists_map_ok]
    exact vendor_total hread _ _ _
  · rw [bind_pure_comp, exists_map_ok]
    exact interworking_total hread _ _ _
  all_goals exact ⟨_, rfl⟩

theorem round_total (s : Parser) : ∃ r, round read s = .ok r := by
  unfold round
  split
  · unfold elementRound
    split
    · exact ⟨_, rfl⟩
    · rw [exists_bind_of_ok (hread _)]
      split
      · exact ⟨_, rfl⟩
      · rw [exists_bind_of_ok (hread _), bind_pure_comp, exists_map_ok]
        exact switch_total hread _ _ _
  · rw [tupleRound, exists_bind_of_ok (hread _)]
    split
    · rw [exists_bind_of_ok (hread _), bind_pure_comp, exists_map_ok, tupleJump, hread]
      split_ifs
      all_goals exact ⟨_, rfl⟩
    · exact ⟨_, rfl⟩

end Total

/-! ## Progress of the walk -/

namespace Point

variable {mem : Nat → UInt8} {n : Nat} {p q : Point}

/-- A vendor tuple of length zero, with services still to be announced. -/
def Stalls (mem : Nat → UInt8) (p : Point) : Prop :=
  ∃ tuple, p.tuple = some (tuple, false) ∧ tuple < stop mem p.ie ∧
    mem (tuple + 1) = 221 ∧ mem (tuple + 3) = 0 ∧ p.announced.all = false

/-- What is left of the walk: elements count more than the tuples of one element. -/
def rank (mem : Nat → UInt8) (n : Nat) (p : Point) : Nat :=
  match p.tuple with
  | none => (n + 3 - p.ie) * 512
  | some (tuple, last) => (n + 2 - p.ie) * 512 + (if last then 0 else stop mem p.ie - tuple) + 1

theorem rank_of_element (htuple : p.tuple = none) : p.rank mem n = (n + 3 - p.ie) * 512 := by
  rw [rank, htuple]

theorem rank_of_tuple {tuple : Nat} {last : Bool} (htuple : p.tuple = some (tuple, last)) :
    p.rank mem n = (n + 2 - p.ie) * 512 + (if last then 0 else stop mem p.ie - tuple) + 1 := by
  rw [rank, htuple]

theorem rank_enter (htuple : p.tuple = none) (h : Header mem n p.ie) :
    (p.enter mem).rank mem n < p.rank mem n := by
  have hlen : (mem (p.ie + 1)).toNat < 256 := UInt8.toNat_lt _
  obtain ⟨h, -⟩ := h
  rw [rank_of_element htuple]
  unfold enter
  split
  · rw [rank_of_tuple rfl, stop]
    simp only [Bool.false_eq_true, if_false]
    omega
  · rw [rank_of_tuple rfl, stop]
    simp only [Bool.false_eq_true, if_false]
    omega
  · rw [rank_of_element rfl, stop]
    dsimp only
    omega

theorem add_of_vendor (a : Announced) : a.add 221 = a := rfl

theorem rank_skip {tuple : Nat} (htuple : p.tuple = some (tuple, false))
    (h : tuple < stop mem p.ie) (hstalls : ¬ p.Stalls mem) :
    (p.skip mem tuple).rank mem n < p.rank mem n := by
  rw [rank_of_tuple htuple, rank_of_tuple rfl]
  simp only [Bool.false_eq_true, if_false]
  have hie : (p.skip mem tuple).ie = p.ie := rfl
  rw [hie]
  by_cases hall : (p.announced.add (mem (tuple + 1))).all = true
  · rw [if_pos hall]
    omega
  · rw [if_neg hall]
    have hpos : 0 < jump mem tuple := by
      unfold jump
      split_ifs with hk
      · rw [hk, add_of_vendor] at hall
        rw [Nat.pos_iff_ne_zero]
        intro hzero
        exact hstalls ⟨tuple, htuple, h, hk, UInt8.toNat_inj.mp hzero, by simpa using hall⟩
      · exact Nat.one_pos
    omega

theorem rank_next (hstalls : ¬ p.Stalls mem) (h : p.next mem n = some q) :
    q.rank mem n < p.rank mem n := by
  rcases htuple : p.tuple with _ | ⟨tuple, last⟩
  · by_cases hh : Header mem n p.ie
    · rw [next_of_header htuple hh] at h
      cases h
      exact rank_enter htuple hh
    · rw [next_of_not_header htuple hh] at h
      cases h
  · by_cases hgo : tuple < stop mem p.ie ∧ last = false
    · obtain ⟨hgo, rfl⟩ := hgo
      rw [next_of_tuple htuple hgo] at h
      cases h
      exact rank_skip htuple hgo hstalls
    · rw [next_of_last htuple hgo] at h
      cases h
      rw [rank_of_tuple htuple, rank_of_element rfl, stop]
      dsimp only
      omega

/-- A walk that stalls stays where it is. -/
theorem next_of_stalls (h : p.Stalls mem) : p.next mem n = some p := by
  obtain ⟨tuple, htuple, hgo, hk, hzero, hall⟩ := h
  rw [next_of_tuple htuple hgo, skip, hk, add_of_vendor, hall, jump, if_pos hk, hzero]
  exact congrArg some (by rw [show tuple + (0 : UInt8).toNat = tuple from rfl, ← htuple])

theorem not_stalls_of_run {j : Nat} (h : run (next mem n) j p = some q) {k : Nat} {r : Point}
    (hr : after (next mem n) k p = some r) : ¬ r.Stalls mem := by
  intro hstalls
  rw [run_of_returns hr Nat.one_pos (after_next rfl (next_of_stalls hstalls))] at h
  cases h

/-- The walk ends, within as many rounds as its rank, exactly if it does not stall. -/
theorem run_iff_not_stalls : (∃ q, run (next mem n) (p.rank mem n + 1) p = some q) ↔
      ∀ k q, after (next mem n) k p = some q → ¬ q.Stalls mem := by
  constructor
  · rintro ⟨q, h⟩ k r hr
    exact not_stalls_of_run h hr
  · intro hno
    exact run_of_rank (rank mem n) fun k r q hr => rank_next (hno k r hr)

end Point

/-- The parser returns when the walk over the buffer ends. -/
theorem parseInformationElements_total {ε : Type} {read : Nat → Except ε UInt8}
    {mem : Nat → UInt8} (hread : ∀ i, read i = .ok (mem i)) (n fuel : Nat) (msg : GenlMsg) :
    ∃ s : Option Parser, parseInformationElements read fuel msg n = .ok (s.map Parser.msg) ∧
      runE (round read) fuel { ie := 0, ielen := n, msg } = .ok s ∧
      run (Point.next mem n) fuel msg.start = s.map Parser.point := by
  choose f hf using round_total hread
  have hshows : Shows read mem := fun i v h => by
    rw [hread] at h
    exact (ok.inj h).symm
  have hfollows : Follows f (Point.next mem n) (Parser.Inv n) Parser.point :=
    { keeps := fun s t hs h => hs.round (by rw [hf, h])
      image := fun s hs => round_point hshows hs (hf s) }
  have hrun := runE_eq_ok hf fuel { ie := 0, ielen := n, msg }
  refine ⟨run f fuel { ie := 0, ielen := n, msg }, ?_, hrun, hfollows.run_eq (inv_start msg n) fuel⟩
  rw [parseInformationElements, hrun]
  rfl

/-- Reads that return `fill` beyond the end of the buffer. -/
def filled (b : List UInt8) (fill : UInt8) (i : Nat) : Except Unit UInt8 := .ok (byteAt b fill i)

/-- Whatever stands behind the buffer, the parser returns, within a number of rounds that is linear
in the size of the buffer, exactly if the walk over it does not stall. -/
theorem parseInformationElements_returns_iff (b : List UInt8) (fill : UInt8) (msg : GenlMsg) :
    (∃ msg', parseInformationElements (filled b fill) ((b.length + 3) * 512 + 1) msg b.length =
        .ok (some msg')) ↔
      ∀ k p, Loop.after (Point.next (byteAt b fill) b.length) k msg.start = some p →
        ¬ p.Stalls (byteAt b fill) := by
  have hrank : msg.start.rank (byteAt b fill) b.length + 1 = (b.length + 3) * 512 + 1 := rfl
  have hread : ∀ i, filled b fill i = .ok (byteAt b fill i) := fun _ => rfl
  obtain ⟨s, hs, -, hrun⟩ :=
    parseInformationElements_total hread b.length ((b.length + 3) * 512 + 1) msg
  rw [← Point.run_iff_not_stalls, hrank, hs, hrun]
  cases s with
  | none | some => simp

/-- A vendor tuple of length zero holds the parser forever. -/
theorem parseInformationElements_hangs : ¬ ∃ fuel msg,
    parseInformationElements (filled [108, 4, 0, 221, 0, 0] 0) fuel {} 6 = .ok (some msg) := by
  rintro ⟨fuel, msg, h⟩
  have hread : ∀ i, filled [108, 4, 0, 221, 0, 0] 0 i = .ok (byteAt [108, 4, 0, 221, 0, 0] 0 i) :=
    fun _ => rfl
  obtain ⟨s, hs, -, hrun⟩ := parseInformationElements_total hread 6 fuel {}
  have hstalls : Point.Stalls (byteAt [108, 4, 0, 221, 0, 0] 0)
      ⟨0, some (2, false), GenlMsg.announced {}⟩ := ⟨2, rfl, by decide, rfl, rfl, rfl⟩
  rw [run_of_returns (i := 1) rfl Nat.one_pos
    (after_next rfl (Point.next_of_stalls hstalls))] at hrun
  rw [Option.map_eq_none_iff.mp hrun.symm] at hs
  cases hs.symm.trans h

end Odtone.Nlwrap
