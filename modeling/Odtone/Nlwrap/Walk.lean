import Odtone.Nlwrap.GenlMsg

/-! # The walk over a beacon

Which bytes a parser of information elements looks at depends on little of what it parses: on the
element it is in, on the tuple it is at, and on which services have been announced. `Point` is that
part of a parser, and `Point.next` the walk over the bytes that every run of the parser follows.
-/

namespace Odtone.Nlwrap

open Except

/-! ## Points of the walk -/

/-- Which of the services of an MIHF have been announced. -/
structure Announced where
  information : Bool
  command : Bool
  event : Bool
deriving DecidableEq

namespace Announced

def all (a : Announced) : Bool := a.information && a.command && a.event

/-- The services that a tuple adds. -/
def add (a : Announced) (kind : UInt8) : Announced :=
  if kind = 1 then { a with information := true }
  else if kind = 2 then { a with command := true, event := true }
  else a

end Announced

/-- A point of the walk: the element, within an element with tuples the tuple and whether it is the
last, and the services announced so far. -/
structure Point where
  ie : Nat
  tuple : Option (Nat × Bool)
  announced : Announced
deriving DecidableEq

namespace Point

variable (mem : Nat → UInt8) (n : Nat)

/-- The index behind the element at `ie`. -/
def stop (ie : Nat) : Nat := ie + 2 + (mem (ie + 1)).toNat

/-- From one tuple to the next: a vendor tuple says how far, all others are one byte apart. -/
def jump (tuple : Nat) : Nat :=
  if mem (tuple + 1) = 221 then (mem (tuple + 3)).toNat else 1

/-- There is a header at `ie`, and the buffer is not shorter than the element it announces. The two
bytes of the header are not counted. -/
def Header (ie : Nat) : Prop := ie + 2 ≤ n ∧ ie + (mem (ie + 1)).toNat ≤ n
deriving Decidable

/-- Into the element: to its first tuple, or behind it if it is of another kind. -/
def enter (p : Point) : Point :=
  match Element.ofByte (mem p.ie) with
  | .interworking | .advertProto => { p with tuple := some (p.ie + 2, false) }
  | _ => { p with ie := stop mem p.ie, tuple := none }

/-- From a tuple to the next, which is the last if all services have been announced. -/
def skip (p : Point) (tuple : Nat) : Point :=
  let announced := p.announced.add (mem (tuple + 1))
  { p with tuple := some (tuple + jump mem tuple, announced.all), announced }

/-- The walk over the elements of a buffer of `n` bytes, and over the tuples in them. -/
def next (p : Point) : Option Point :=
  match p.tuple with
  | none => if Header mem n p.ie then some (p.enter mem) else none
  | some (tuple, last) =>
    some (if tuple < stop mem p.ie ∧ last = false then p.skip mem tuple
      else { p with ie := stop mem p.ie, tuple := none })

variable {mem n} {p : Point}

theorem next_of_header (htuple : p.tuple = none) (h : Header mem n p.ie) :
    p.next mem n = some (p.enter mem) := by
  rw [next, htuple, if_pos h]

theorem next_of_not_header (htuple : p.tuple = none) (h : ¬ Header mem n p.ie) :
    p.next mem n = none := by
  rw [next, htuple, if_neg h]

theorem next_of_tuple {tuple : Nat} (htuple : p.tuple = some (tuple, false))
    (h : tuple < stop mem p.ie) : p.next mem n = some (p.skip mem tuple) := by
  simp only [next, htuple]
  rw [if_pos ⟨h, trivial⟩]

theorem next_of_last {tuple : Nat} {last : Bool} (htuple : p.tuple = some (tuple, last))
    (h : ¬ (tuple < stop mem p.ie ∧ last = false)) :
    p.next mem n = some { p with ie := stop mem p.ie, tuple := none } := by
  simp only [next, htuple]
  exact congrArg some (if_neg h)

end Point

/-! ## The parser follows the walk -/

def GenlMsg.announced (msg : GenlMsg) : Announced where
  information := msg.ieHasMihInformationService.isSome
  command := msg.ieHasMihCommandService.isSome
  event := msg.ieHasMihEventService.isSome

/-- The fields that elements of other kinds leave alone: the network, the rate and the services. -/
def GenlMsg.contents (msg : GenlMsg) :
    Option (List UInt8) × Option Nat × Option Bool × Option Bool × Option Bool :=
  (msg.ieSsid, msg.ieMaxDataRate, msg.ieHasMihInformationService, msg.ieHasMihCommandService,
    msg.ieHasMihEventService)

/-- The point a parser is at. -/
def Parser.point (s : Parser) : Point := ⟨s.ie, s.tuples, s.msg.announced⟩

/-- `ie` and `ielen` move together, and a tuple is in an element whose header is in the buffer. -/
structure Parser.Inv (n : Nat) (s : Parser) : Prop where
  total : s.ie + s.ielen = n
  header : s.tuples.isSome → 2 ≤ s.ielen

namespace GenlMsg

variable {msg msg' : GenlMsg}

theorem announced_congr (h : msg'.contents = msg.contents) : msg'.announced = msg.announced := by
  simp only [contents, Prod.mk.injEq] at h
  obtain ⟨-, -, hinformation, hcommand, hevent⟩ := h
  simp only [announced, hinformation, hcommand, hevent]

@[simp] theorem all_announced (msg : GenlMsg) : msg.announced.all = msg.complete := rfl

theorem announced_announce (msg : GenlMsg) (kind : UInt8) :
    (msg.announce kind).announced = msg.announced.add kind := by
  unfold announce Announced.add
  split_ifs
  · rfl
  · rfl
  · rfl

end GenlMsg

/-- `read` returns the bytes of `mem`, as far as it returns any. -/
def Shows {ε : Type} (read : Nat → Except ε UInt8) (mem : Nat → UInt8) : Prop :=
  ∀ i v, read i = .ok v → v = mem i

section Follow

variable {ε : Type} {read : Nat → Except ε UInt8} {mem : Nat → UInt8} {n : Nat} {s t : Parser}
  {data len : Nat}

/-- The loop over the rates writes only the maximal rate. -/
theorem rates_keeps (h : rates read data len s = .ok t) :
    t.ie = s.ie ∧ t.ielen = s.ielen ∧ t.tuples = s.tuples ∧ t.msg.announced = s.msg.announced := by
  unfold rates at h
  generalize List.range len = rs at h
  induction rs generalizing s with
  | nil =>
    cases h
    exact ⟨rfl, rfl, rfl, rfl⟩
  | cons r rs ih =>
    obtain ⟨u, hu, h⟩ := bind_eq_ok.mp h
    obtain ⟨b, -, hu⟩ := bind_eq_ok.mp hu
    cases hu
    obtain ⟨hie, hielen, htuples, hmsg⟩ := ih h
    rw [hie, hielen, htuples, hmsg]
    split
    all_goals exact ⟨rfl, rfl, rfl, rfl⟩

theorem vendor_keeps (h : vendor read data len msg = .ok msg') : msg'.contents = msg.contents := by
  unfold vendor at h
  split at h
  · obtain ⟨known, -, h⟩ := bind_eq_ok.mp h
    cases h
    split
    · rfl
    · rfl
  · cases h
    rfl

theorem hessid_keeps (h : hessid read data len msg = .ok msg') : msg'.contents = msg.contents := by
  unfold hessid at h
  split_ifs at h
  · obtain ⟨addr, -, rfl⟩ := map_eq_ok.mp h
    rfl
  · obtain ⟨addr, -, rfl⟩ := map_eq_ok.mp h
    rfl
  · cases h
    rfl

theorem interworking_keeps (h : interworking read data len msg = .ok msg') :
    msg'.contents = msg.contents := by
  obtain ⟨options, -, h⟩ := bind_eq_ok.mp h
  exact (hessid_keeps h).trans rfl

theorem Parser.point_advance (s : Parser) :
    (s.advance (mem (s.ie + 1))).point =
      { s.point with ie := Point.stop mem s.ie, tuple := none } := by
  simp only [Parser.point, Parser.advance, Point.stop]
  congr 1
  omega

/-- Behind the switch, the walk goes on at the next element or at the first tuple. -/
theorem switch_point (h : switch read s (mem s.ie) (mem (s.ie + 1)) = .ok t) :
    t.point = s.point.enter mem := by
  unfold switch at h
  unfold Point.enter
  rw [show s.point.ie = s.ie from rfl]
  cases hid : Element.ofByte (mem s.ie) with
  | ssid =>
    rw [hid] at h
    obtain ⟨ssid, -, h⟩ := bind_eq_ok.mp h
    cases h
    exact Parser.point_advance _
  | rates =>
    rw [hid] at h
    obtain ⟨u, hu, h⟩ := bind_eq_ok.mp h
    cases h
    obtain ⟨hie, -, htuples, hmsg⟩ := rates_keeps hu
    rw [← hie, Parser.point_advance]
    simp only [Parser.point, hie, hmsg]
  | rsn | other =>
    rw [hid] at h
    cases h
    exact Parser.point_advance _
  | vendor =>
    rw [hid] at h
    obtain ⟨msg, hmsg, h⟩ := bind_eq_ok.mp h
    cases h
    refine (Parser.point_advance _).trans ?_
    simp only [Parser.point, GenlMsg.announced_congr (vendor_keeps hmsg)]
  | interworking =>
    rw [hid] at h
    obtain ⟨msg, hmsg, h⟩ := bind_eq_ok.mp h
    cases h
    simp only [Parser.point, GenlMsg.announced_congr (interworking_keeps hmsg)]
  | advertProto =>
    rw [hid] at h
    cases h
    rfl

theorem Parser.Inv.header_iff (hinv : s.Inv n) :
    Point.Header mem n s.ie ↔ ¬ s.ielen < 2 ∧ ¬ s.ielen < (mem (s.ie + 1)).toNat := by
  have htotal := hinv.total
  unfold Point.Header
  omega

variable {r : Option Parser} {tuple : Nat}

section

variable (hread : Shows read mem)
include hread

/-- A round that does not fail leads to the next point of the walk. -/
theorem elementRound_point (hinv : s.Inv n)
    (htuples : s.tuples = none) (h : elementRound read s = .ok r) :
    s.point.next mem n = r.map Parser.point := by
  unfold elementRound at h
  split at h
  next hlen =>
    cases h
    exact Point.next_of_not_header htuples fun hh => (hinv.header_iff.mp hh).1 hlen
  next hlen =>
    obtain ⟨len, hl, h⟩ := bind_eq_ok.mp h
    cases hread _ _ hl
    split at h
    next hbig =>
      cases h
      exact Point.next_of_not_header htuples fun hh => (hinv.header_iff.mp hh).2 hbig
    next hsmall =>
      obtain ⟨id, hid, h⟩ := bind_eq_ok.mp h
      cases hread _ _ hid
      obtain ⟨t, ht, h⟩ := bind_eq_ok.mp h
      cases h
      rw [Point.next_of_header htuples (hinv.header_iff.mpr ⟨hlen, hsmall⟩), Option.map_some,
        switch_point ht]

theorem tupleJump_eq {jump : UInt8}
    (h : tupleJump read tuple (mem (tuple + 1)) = .ok jump) :
    jump.toNat = Point.jump mem tuple := by
  unfold tupleJump at h
  unfold Point.jump
  split_ifs at h ⊢
  · cases hread _ _ h
    rfl
  · cases h
    rfl

theorem tupleRound_point {complete : Bool} (htuples : s.tuples = some (tuple, complete))
    (h : tupleRound read s tuple complete = .ok r) : s.point.next mem n = r.map Parser.point := by
  replace h := bind_eq_ok.mp h
  obtain ⟨len, hl, h⟩ := h
  cases hread _ _ hl
  by_cases hgo : tuple < s.ie + 2 + (mem (s.ie + 1)).toNat ∧ complete = false
  · rw [if_pos hgo] at h
    obtain ⟨hgo, rfl⟩ := hgo
    obtain ⟨kind, hk, h⟩ := bind_eq_ok.mp h
    cases hread _ _ hk
    obtain ⟨jump, hj, h⟩ := bind_eq_ok.mp h
    cases h
    rw [Point.next_of_tuple htuples hgo, Option.map_some]
    simp only [Parser.point, Point.skip, GenlMsg.announced_announce, ← GenlMsg.all_announced,
      tupleJump_eq hread hj]
  · rw [if_neg hgo] at h
    cases h
    exact (Point.next_of_last htuples hgo).trans (congrArg some (Parser.point_advance s).symm)

theorem round_point (hinv : s.Inv n)
    (h : round read s = .ok r) : s.point.next mem n = r.map Parser.point := by
  unfold round at h
  split at h
  next htuples => exact elementRound_point hread hinv htuples h
  next htuples => exact tupleRound_point hread htuples h

end

theorem Parser.Inv.congr (hinv : s.Inv n) (hie : t.ie = s.ie) (hielen : t.ielen = s.ielen)
    (htuples : t.tuples = s.tuples) : t.Inv n := by
  refine ⟨?_, ?_⟩
  · rw [hie, hielen, hinv.total]
  · rw [htuples, hielen]
    exact hinv.header

theorem Parser.Inv.advance (hinv : s.Inv n) (len : UInt8) : (s.advance len).Inv n where
  total := by
    have htotal := hinv.total
    simp only [Parser.advance]
    omega
  header := by simp [Parser.advance]

theorem Parser.Inv.switch (hinv : s.Inv n) (hlen : 2 ≤ s.ielen) {id len : UInt8}
    (h : switch read s id len = .ok t) : t.Inv n := by
  unfold Nlwrap.switch at h
  cases hid : Element.ofByte id with
  | ssid =>
    rw [hid] at h
    obtain ⟨ssid, -, h⟩ := bind_eq_ok.mp h
    cases h
    refine Parser.Inv.advance ?_ len
    exact hinv.congr rfl rfl rfl
  | rates =>
    rw [hid] at h
    obtain ⟨u, hu, h⟩ := bind_eq_ok.mp h
    cases h
    obtain ⟨hie, hielen, htuples, -⟩ := rates_keeps hu
    exact (hinv.congr hie hielen htuples).advance len
  | rsn =>
    rw [hid] at h
    cases h
    refine Parser.Inv.advance ?_ len
    exact hinv.congr rfl rfl rfl
  | vendor =>
    rw [hid] at h
    obtain ⟨msg, -, h⟩ := bind_eq_ok.mp h
    cases h
    refine Parser.Inv.advance ?_ len
    exact hinv.congr rfl rfl rfl
  | interworking =>
    rw [hid] at h
    obtain ⟨msg, -, h⟩ := bind_eq_ok.mp h
    cases h
    exact ⟨hinv.total, fun _ => hlen⟩
  | advertProto =>
    rw [hid] at h
    cases h
    exact ⟨hinv.total, fun _ => hlen⟩
  | other =>
    rw [hid] at h
    cases h
    exact hinv.advance len

theorem Parser.Inv.round (hinv : s.Inv n) (h : round read s = .ok (some t)) : t.Inv n := by
  unfold Nlwrap.round at h
  split at h
  next htuples =>
    unfold elementRound at h
    split at h
    next hlen => cases h
    next hlen =>
      obtain ⟨len, -, h⟩ := bind_eq_ok.mp h
      split at h
      next hbig => cases h
      next hsmall =>
        obtain ⟨id, -, h⟩ := bind_eq_ok.mp h
        obtain ⟨u, hu, h⟩ := bind_eq_ok.mp h
        cases h
        exact hinv.switch (not_lt.mp hlen) hu
  next tuple complete htuples =>
    obtain ⟨len, -, h⟩ := bind_eq_ok.mp h
    split at h
    next hgo =>
      obtain ⟨kind, -, h⟩ := bind_eq_ok.mp h
      obtain ⟨jump, -, h⟩ := bind_eq_ok.mp h
      cases h
      exact ⟨hinv.total, fun _ => hinv.header (by rw [htuples]; rfl)⟩
    next =>
      cases h
      exact hinv.advance len

end Follow

/-- A byte of the buffer, and `fill` beyond its end. -/
def byteAt (b : List UInt8) (fill : UInt8) (i : Nat) : UInt8 := b[i]?.getD fill

/-- The point at which the walk over a buffer starts. -/
def GenlMsg.start (msg : GenlMsg) : Point := ⟨0, none, msg.announced⟩

theorem inv_start (msg : GenlMsg) (n : Nat) : Parser.Inv n { ie := 0, ielen := n, msg } where
  total := by simp
  header := by simp

end Odtone.Nlwrap
