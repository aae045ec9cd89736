import Odtone.Nlwrap.Progress

/-! # What a beacon says

A beacon is a sequence of information elements, each with a number, a length and a body. It names a
network, the rates it supports and, in the tuples of its advertisement protocol elements, the
services of an MIHF.

The network and the rates are reported as they are, except that rates which are all zero are not
reported. The services are those of the bytes the walk over the tuples comes by. It goes from byte
to byte and not from tuple to tuple, takes the first byte of the next element with it, and walks
over interworking elements as well. -/

namespace Odtone.Nlwrap

open Loop

/-! ## Beacons -/

/-- An information element. -/
structure Ie where
  id : UInt8
  body : List UInt8
  fits : body.length < 256

/-- The rate a byte stands for, in Mb/s. -/
def toRate (b : UInt8) : Nat := (b &&& 0x7f).toNat / 2

namespace Ie

def element (e : Ie) : Element := .ofByte e.id

def bytes (e : Ie) : List UInt8 := e.id :: UInt8.ofNat e.body.length :: e.body

/-- The rates an element supports. -/
def rates (e : Ie) : List Nat := if e.element = .rates then e.body.map toRate else []

end Ie

/-- The protocol identifiers of two-byte tuples. -/
def protocolIds : List UInt8 → List UInt8
  | _ :: id :: rest => id :: protocolIds rest
  | _ => []

namespace Ie

/-- The protocols an element advertises. -/
def protocols (e : Ie) : List UInt8 := if e.element = .advertProto then protocolIds e.body else []

/-- The tuples of an advertisement protocol element have two bytes each. -/
def TwoByteTuples (e : Ie) : Prop :=
  e.element = .advertProto → e.body.length % 2 = 0 ∧ 221 ∉ protocolIds e.body
deriving Decidable

end Ie

/-- The bytes of a beacon. -/
def beacon (es : List Ie) : List UInt8 := es.flatMap Ie.bytes

/-- The body of the last SSID element. -/
def lastSsid (es : List Ie) : Option (List UInt8) :=
  (es.filter fun e => e.element = .ssid).getLast?.map Ie.body

def allRates (es : List Ie) : List Nat := es.flatMap Ie.rates

/-- Some element advertises the protocol. -/
def Advertises (es : List Ie) (protocol : UInt8) : Prop := ∃ e ∈ es, protocol ∈ e.protocols
deriving Decidable

/-- A message reports what a beacon says. -/
structure Faithful (es : List Ie) (msg : GenlMsg) : Prop where
  ssid : msg.ieSsid = lastSsid es
  rate : msg.ieMaxDataRate = (allRates es).max?
  information : msg.ieHasMihInformationService = some true ↔ Advertises es 1
  command : msg.ieHasMihCommandService = some true ↔ Advertises es 2
  event : msg.ieHasMihEventService = some true ↔ Advertises es 2

/-- The memory from the start of a buffer on. -/
def memory (b : List UInt8) (beyond : Nat → UInt8) (i : Nat) : UInt8 := b[i]?.getD (beyond i)

/-! ## Services on the walk -/

/-- A kind of tuple announces a service. -/
structure Announced.Service (has : Announced → Bool) (kind : UInt8) : Prop where
  add : ∀ a k, has (a.add k) = (has a || decide (k = kind))

namespace Point

variable {mem : Nat → UInt8} {n : Nat} {p q : Point} {has : Announced → Bool} {kind : UInt8}

/-- On the walk from `p`, a byte `kind` stands where the kind of a tuple is read. -/
def Meets (mem : Nat → UInt8) (n : Nat) (p : Point) (kind : UInt8) : Prop :=
  ∃ j q tuple, Loop.after (next mem n) j p = some q ∧ q.tuple = some (tuple, false) ∧
    tuple < stop mem q.ie ∧ mem (tuple + 1) = kind

theorem announced_next (h : p.next mem n = some q) :
    q.announced = p.announced ∨ ∃ tuple, p.tuple = some (tuple, false) ∧ tuple < stop mem p.ie ∧
      q.announced = p.announced.add (mem (tuple + 1)) := by
  rcases htuple : p.tuple with _ | ⟨tuple, last⟩
  · by_cases hh : Header mem n p.ie
    · rw [next_of_header htuple hh] at h
      cases h
      left
      unfold enter
      split
      all_goals rfl
    · rw [next_of_not_header htuple hh] at h
      cases h
  · by_cases hgo : tuple < stop mem p.ie ∧ last = false
    · obtain ⟨hgo, rfl⟩ := hgo
      rw [next_of_tuple htuple hgo] at h
      cases h
      exact .inr ⟨tuple, rfl, hgo, rfl⟩
    · rw [next_of_last htuple hgo] at h
      cases h
      exact .inl rfl

theorem Meets.of_next (h : p.next mem n = some q) (hq : Meets mem n q kind) :
    Meets mem n p kind := by
  obtain ⟨j, r, tuple, hr, hmeets⟩ := hq
  exact ⟨j + 1, r, tuple, by rw [after_succ, h]; exact hr, hmeets⟩

variable (hs : Announced.Service has kind)
include hs

/-- A service announced on the walk is one that is met. -/
theorem meets_of_announced (hp : has p.announced = false) {j : Nat}
    (h : after (next mem n) j p = some q) (hq : has q.announced = true) : Meets mem n p kind := by
  induction j generalizing p with
  | zero =>
    cases h
    rw [hp] at hq
    cases hq
  | succ j ih =>
    obtain ⟨r, hr, h⟩ := Option.bind_eq_some_iff.mp h
    cases hannounced : has r.announced with
    | false => exact (ih hannounced h).of_next hr
    | true =>
      rcases announced_next hr with heq | ⟨tuple, htuple, hstop, heq⟩
      · rw [heq, hp] at hannounced
        cases hannounced
      · rw [heq, hs.add, hp, Bool.false_or, decide_eq_true_iff] at hannounced
        exact ⟨0, p, tuple, rfl, htuple, hstop, hannounced⟩

theorem announced_mono (hp : has p.announced = true) {j : Nat}
    (h : after (next mem n) j p = some q) : has q.announced = true := by
  refine after_induct (fun p => has p.announced = true) hp (fun r r' hr hnext => ?_) h
  rcases announced_next hnext with heq | ⟨tuple, -, -, heq⟩
  · rw [heq, hr]
  · rw [heq, hs.add, hr, Bool.true_or]

/-- A service that is met is announced when the walk ends. -/
theorem announced_of_meets (hmeets : Meets mem n p kind) {k : Nat}
    (h : run (next mem n) k p = some q) : has q.announced = true := by
  induction k generalizing p with
  | zero => cases h
  | succ k ih =>
    obtain ⟨j, r, tuple, hr, htuple, hstop, hkind⟩ := hmeets
    rw [run] at h
    cases hnext : p.next mem n with
    | none =>
      cases j with
      | zero =>
        cases hr
        rw [next_of_tuple htuple hstop] at hnext
        cases hnext
      | succ j =>
        rw [after_succ, hnext] at hr
        cases hr
    | some p' =>
      rw [hnext] at h
      cases j with
      | zero =>
        cases hr
        rw [next_of_tuple htuple hstop] at hnext
        cases hnext
        have hadd : has (p.skip mem tuple).announced = true := by
          rw [skip, hs.add, hkind, decide_eq_true rfl, Bool.or_true]
        obtain ⟨-, i, hi⟩ := run_eq_some h
        exact announced_mono hs hadd hi
      | succ j =>
        rw [after_succ, hnext] at hr
        exact ih ⟨j, r, tuple, hr, htuple, hstop, hkind⟩ h

theorem announced_iff_meets (hp : has p.announced = false) {k : Nat}
    (h : run (next mem n) k p = some q) : has q.announced = true ↔ Meets mem n p kind := by
  obtain ⟨-, j, hj⟩ := run_eq_some h
  exact ⟨meets_of_announced hs hp hj, fun hmeets => announced_of_meets hs hmeets h⟩

end Point

end Odtone.Nlwrap
