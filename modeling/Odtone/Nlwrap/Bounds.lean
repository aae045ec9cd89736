import Odtone.Nlwrap.Walk

/-! # Reads inside of a beacon

The parser of information elements stays inside of the buffer exactly if what it looks at from every
point of the walk lies inside. The header of an element is not counted against the length of the
buffer, the tests within an element are made against the length that the element announces, and the
look-ahead at a tuple against nothing.
-/

namespace Odtone.Nlwrap

open Except List

namespace Point

variable (mem : Nat → UInt8) (n : Nat)

/-- What the parser looks at within an element, tuples apart, lies inside of the buffer. -/
def ElementFits (ie : Nat) : Prop :=
  match Element.ofByte (mem ie) with
  | .ssid | .rates => stop mem ie ≤ n
  | .vendor => 4 ≤ (mem (ie + 1)).toNat → ie + 5 ≤ n ∧
      ([mem (ie + 2), mem (ie + 3), mem (ie + 4)] ∈ [msOui, ieee80211Oui] → ie + 6 ≤ n)
  | .interworking => ie + 3 ≤ n ∧ (mem (ie + 1) ∈ [7, 9] → stop mem ie ≤ n)
  | _ => True

/-- What the parser looks at from a point lies inside of the buffer: of a tuple the second byte, and
of a vendor tuple the fourth. -/
def Fits (p : Point) : Prop :=
  match p.tuple with
  | none => Header mem n p.ie → ElementFits mem n p.ie
  | some (tuple, last) => tuple < stop mem p.ie → last = false →
      tuple + 1 < n ∧ (mem (tuple + 1) = 221 → tuple + 3 < n)

end Point

/-- Reads that stay inside of the buffer. -/
def inside (b : List UInt8) (i : Nat) : Except Unit UInt8 :=
  match b[i]? with
  | some v => .ok v
  | none => .error ()

section Inside

variable {b : List UInt8}

variable {i a k data len : Nat} {s : Parser} {msg : GenlMsg}

theorem inside_eq_ok {v : UInt8} : inside b i = .ok v ↔ i < b.length ∧ v = byteAt b 0 i := by
  unfold inside byteAt
  rcases lt_or_ge i b.length with hi | hi
  · simp [hi, eq_comm]
  · simp [not_lt.mpr hi]

theorem inside_shows : Shows (inside b) (byteAt b 0) := fun _ _ h => (inside_eq_ok.mp h).2

theorem exists_inside : (∃ v, inside b i = .ok v) ↔ i < b.length := by
  simp [inside_eq_ok]

theorem readBytes_inside {bs : List UInt8} :
    readBytes (inside b) a k = .ok bs ↔ (∀ i ∈ range k, a + i < b.length) ∧
        bs = (range k).map fun i => byteAt b 0 (a + i) := by
  unfold readBytes
  generalize range k = is
  induction is generalizing bs with
  | nil =>
    rw [mapM_nil]
    simp [pure, Except.pure, eq_comm]
  | cons i is ih =>
    rw [mapM_cons, forall_mem_cons]
    simp only [Except.bind_eq_ok, inside_eq_ok, ih]
    simp [pure, Except.pure, eq_comm, and_assoc]

theorem forall_range_iff : (∀ i ∈ range k, a + i < b.length) ↔ k = 0 ∨ a + k ≤ b.length := by
  simp only [mem_range]
  constructor
  · intro h
    rcases Nat.eq_zero_or_pos k with hk | hk
    · exact .inl hk
    · have := h (k - 1) (by omega)
      omega
  · intro h i hi
    omega

theorem exists_readBytes :
    (∃ bs, readBytes (inside b) a k = .ok bs) ↔ k = 0 ∨ a + k ≤ b.length := by
  simp only [readBytes_inside, exists_and_left, exists_eq, and_true, forall_range_iff]

theorem exists_rates :
    (∃ t, rates (inside b) data len s = .ok t) ↔ len = 0 ∨ data + len ≤ b.length := by
  rw [← forall_range_iff]
  refine Except.exists_foldlM_ok (fun s r => ?_) _ s
  unfold rate
  rw [Except.exists_bind_ok]
  simp [inside_eq_ok, pure, Except.pure]

theorem exists_knownCipher :
    (∃ known, knownCipher (inside b) data = .ok known) ↔ data + 3 ≤ b.length ∧
      ([byteAt b 0 data, byteAt b 0 (data + 1), byteAt b 0 (data + 2)] ∈ [msOui, ieee80211Oui] →
        data + 4 ≤ b.length) := by
  have houi : (range 3).map (fun i => byteAt b 0 (data + i)) =
    [byteAt b 0 data, byteAt b 0 (data + 1), byteAt b 0 (data + 2)] := rfl
  unfold knownCipher
  simp only [exists_bind_ok, readBytes_inside, forall_range_iff, houi]
  generalize [byteAt b 0 data, byteAt b 0 (data + 1), byteAt b 0 (data + 2)] = oui
  have hcipher : (∃ known, (if oui = msOui then (fun b => decide (b < 6)) <$> inside b (data + 3)
      else if oui = ieee80211Oui then (fun b => decide (b < 7)) <$> inside b (data + 3)
      else pure false) = .ok known) ↔ (oui ∈ [msOui, ieee80211Oui] → data + 4 ≤ b.length) := by
    split_ifs with hms hieee
    · rw [exists_map_ok, exists_inside, hms]
      exact ⟨fun h _ => h, fun h => h (by simp)⟩
    · rw [exists_map_ok, exists_inside, hieee]
      exact ⟨fun h _ => h, fun h => h (by simp)⟩
    · simp [hms, hieee, pure, Except.pure]
  constructor
  · rintro ⟨_, ⟨h, rfl⟩, hk⟩
    exact ⟨by omega, hcipher.mp hk⟩
  · rintro ⟨h, hk⟩
    exact ⟨oui, ⟨.inr h, rfl⟩, hcipher.mpr hk⟩

theorem exists_vendor :
    (∃ msg', vendor (inside b) data len msg = .ok msg') ↔ (4 ≤ len → data + 3 ≤ b.length ∧
      ([byteAt b 0 data, byteAt b 0 (data + 1), byteAt b 0 (data + 2)] ∈ [msOui, ieee80211Oui] →
        data + 4 ≤ b.length)) := by
  unfold vendor
  split
  next hlen =>
    rw [Except.exists_bind_ok, ← exists_knownCipher]
    simp [pure, Except.pure, hlen]
  next hlen => simp [pure, Except.pure, hlen]

theorem exists_interworking : (∃ msg', interworking (inside b) data len msg = .ok msg') ↔
      data + 1 ≤ b.length ∧ (len = 7 ∨ len = 9 → data + len ≤ b.length) := by
  have hhessid (msg : GenlMsg) : (∃ msg', hessid (inside b) data len msg = .ok msg') ↔
      (len = 7 ∨ len = 9 → data + len ≤ b.length) := by
    unfold hessid
    split_ifs with h7 h9
    · rw [exists_map_ok, exists_readBytes]
      omega
    · rw [exists_map_ok, exists_readBytes]
      omega
    · simp [h7, h9, pure, Except.pure]
  rw [interworking, exists_bind_ok]
  simp only [hhessid, inside_eq_ok]
  constructor
  · rintro ⟨options, ⟨h, -⟩, h'⟩
    exact ⟨h, h'⟩
  · rintro ⟨h, h'⟩
    exact ⟨_, ⟨h, rfl⟩, h'⟩

/-- The switch succeeds exactly if what it looks at is in the buffer. -/
theorem exists_switch (hie : s.ie + 2 ≤ b.length) :
    (∃ t, switch (inside b) s (byteAt b 0 s.ie) (byteAt b 0 (s.ie + 1)) = .ok t) ↔
      Point.ElementFits (byteAt b 0) b.length s.ie := by
  unfold switch Point.ElementFits Point.stop
  cases Element.ofByte (byteAt b 0 s.ie) with
  | ssid =>
    rw [bind_pure_comp, exists_map_ok, exists_readBytes]
    omega
  | rates =>
    dsimp only
    rw [bind_pure_comp, exists_map_ok, exists_rates]
    omega
  | vendor =>
    dsimp only
    rw [bind_pure_comp, exists_map_ok, exists_vendor]
  | interworking =>
    have hmem (v : UInt8) : v ∈ [(7 : UInt8), 9] ↔ v.toNat = 7 ∨ v.toNat = 9 := by
      simp [← UInt8.toNat_inj]
    dsimp only
    rw [bind_pure_comp, exists_map_ok, exists_interworking, hmem]
  | rsn | advertProto | other => simp [pure, Except.pure]

theorem exists_elementRound (hinv : s.Inv b.length) (htuples : s.tuples = none) :
    (∃ r, elementRound (inside b) s = .ok r) ↔ s.point.Fits (byteAt b 0) b.length := by
  have htotal := hinv.total
  have hfits : s.point.Fits (byteAt b 0) b.length ↔
      (Point.Header (byteAt b 0) b.length s.ie → Point.ElementFits (byteAt b 0) b.length s.ie) := by
    rw [Point.Fits, show s.point.tuple = none from htuples]
    rfl
  rw [hfits, hinv.header_iff]
  unfold elementRound
  split
  next hlen => simp [pure, Except.pure, hlen]
  next hlen =>
    have hl : inside b (s.ie + 1) = .ok (byteAt b 0 (s.ie + 1)) := inside_eq_ok.mpr ⟨by omega, rfl⟩
    have hid : inside b s.ie = .ok (byteAt b 0 s.ie) := inside_eq_ok.mpr ⟨by omega, rfl⟩
    rw [exists_bind_of_ok hl]
    split
    next hbig => simp [pure, Except.pure, hbig]
    next hsmall =>
      rw [exists_bind_of_ok hid, bind_pure_comp, exists_map_ok, exists_switch (by omega)]
      simp [hlen, hsmall]

theorem exists_tupleRound (hinv : s.Inv b.length) {tuple : Nat} {complete : Bool}
    (htuples : s.tuples = some (tuple, complete)) :
    (∃ r, tupleRound (inside b) s tuple complete = .ok r) ↔ s.point.Fits (byteAt b 0) b.length := by
  have htotal := hinv.total
  have hheader := hinv.header (by rw [htuples]; rfl)
  have hfits : s.point.Fits (byteAt b 0) b.length ↔
      (tuple < Point.stop (byteAt b 0) s.ie ∧ complete = false → tuple + 1 < b.length ∧
        (byteAt b 0 (tuple + 1) = 221 → tuple + 3 < b.length)) := by
    rw [Point.Fits, show s.point.tuple = some (tuple, complete) from htuples, and_imp]
    rfl
  have hl : inside b (s.ie + 1) = .ok (byteAt b 0 (s.ie + 1)) := inside_eq_ok.mpr ⟨by omega, rfl⟩
  have hjump : (∃ jump, tupleJump (inside b) tuple (byteAt b 0 (tuple + 1)) = .ok jump) ↔
      (byteAt b 0 (tuple + 1) = 221 → tuple + 3 < b.length) := by
    unfold tupleJump
    split_ifs with hk
    · simp [hk, exists_inside]
    · simp [hk, pure, Except.pure]
  rw [hfits, Point.stop]
  unfold tupleRound
  rw [Except.exists_bind_of_ok hl]
  by_cases hgo : tuple < s.ie + 2 + (byteAt b 0 (s.ie + 1)).toNat ∧ complete = false
  · rw [if_pos hgo, Except.exists_bind_ok]
    simp only [inside_eq_ok, bind_pure_comp, Except.exists_map_ok]
    constructor
    · rintro ⟨kind, ⟨hk, rfl⟩, h⟩ -
      exact ⟨hk, hjump.mp h⟩
    · intro h
      exact ⟨_, ⟨(h hgo).1, rfl⟩, hjump.mpr (h hgo).2⟩
  · rw [if_neg hgo]
    simp [hgo, pure, Except.pure]

theorem exists_round (hinv : s.Inv b.length) :
    (∃ r, round (inside b) s = .ok r) ↔ s.point.Fits (byteAt b 0) b.length := by
  unfold round
  split
  next htuples => exact exists_elementRound hinv htuples
  next htuples => exact exists_tupleRound hinv htuples

end Inside

/-- The parser reads only bytes of the buffer, exactly if from every point of the walk over it what
is looked at lies inside. -/
theorem parseInformationElements_inside_iff (b : List UInt8) (msg : GenlMsg) :
    (∀ fuel, ∃ r, parseInformationElements (inside b) fuel msg b.length = .ok r) ↔
      ∀ k p, Loop.after (Point.next (byteAt b 0) b.length) k msg.start = some p →
        p.Fits (byteAt b 0) b.length := by
  refine (forall_congr' fun fuel => exists_map_ok).trans ?_
  exact Loop.runE_ok_iff (fun s t hs => hs.round) (fun s r hs h => round_point inside_shows hs h)
    (fun s hs => exists_round hs) (inv_start msg b.length)

/-- A vendor element of four bytes that is cut off behind two of them, and an advertisement protocol
element at the end of the buffer. -/
theorem parseInformationElements_leaves_buffer :
    parseInformationElements (inside [221, 4, 0x00, 0x50]) 1 {} 4 = .error () ∧
    parseInformationElements (inside [108, 1, 0]) 2 {} 3 = .error () :=
  ⟨rfl, rfl⟩

end Odtone.Nlwrap
