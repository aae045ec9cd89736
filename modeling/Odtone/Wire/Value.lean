import Odtone.Wire.Bounds
import Mathlib.Data.Vector.Basic

/-! # Value types

The serializable types of `inc/odtone/mih/types/` as a universe: every one of them is built from the
archive operators for booleans, integers and strings by the templates of
`inc/odtone/mih/detail/archive.hpp` (arrays, vectors and lists, variants) and by `serialize` methods
that list the members of a sequence. Enumerations and percentages are one-byte integers.

A decoder gets the previous content of its destination, because a variant with an unknown selector
keeps it. A vector or list is resized and keeps the elements it has room for; new elements, and the
alternatives of a variant, are default constructed before they are decoded.
-/

namespace Odtone.Wire

/-- The integer sizes of the archives, in bytes. -/
inductive Width where
  | one | two | four | eight
deriving DecidableEq

def Width.octets : Width → Nat
  | .one => 1
  | .two => 2
  | .four => 4
  | .eight => 8

/-- Serializable types. The information element containers, which parse elements of their own up to
the declared length, are left out. -/
inductive Ty where
  | bool
  | uint (w : Width)
  | sint (w : Width)
  /-- `octet_string` and `std::vector<uint8>` -/
  | octets
  /-- `bitmap<8 * n, E>` -/
  | bitmap (n : Nat)
  /-- `boost::array<T, n>` -/
  | array (n : Nat) (t : Ty)
  /-- `std::vector<T>` and `std::list<T>` -/
  | list (t : Ty)
  /-- a sequence: a `serialize` method that lists its members -/
  | seq (ts : List Ty)
  /-- `boost::variant<T, Ts...>` -/
  | variant (t : Ty) (ts : List Ty)

namespace Ty

mutual

/-- The values of a type. An integer is its two's complement representation. -/
def Val : Ty → Type
  | .bool => Bool
  | .uint w => BitVec (8 * w.octets)
  | .sint w => BitVec (8 * w.octets)
  | .octets => Bytes
  | .bitmap n => List.Vector UInt8 n
  | .array n t => List.Vector t.Val n
  | .list t => List t.Val
  | .seq ts => SeqVal ts
  | .variant t ts => t.Val ⊕ AltVal ts

/-- The members of a sequence. -/
def SeqVal : List Ty → Type
  | [] => Unit
  | t :: ts => t.Val × SeqVal ts

/-- A value of one of the alternatives. -/
def AltVal : List Ty → Type
  | [] => Empty
  | t :: ts => t.Val ⊕ AltVal ts

end

mutual

/-- A default constructed value. -/
def fresh : (t : Ty) → t.Val
  | .bool => false
  | .uint _ => BitVec.ofNat _ 0
  | .sint _ => BitVec.ofNat _ 0
  | .octets => []
  | .bitmap n => List.Vector.replicate n 0
  | .array n t => List.Vector.replicate n t.fresh
  | .list _ => []
  | .seq ts => freshSeq ts
  | .variant t _ => .inl t.fresh

def freshSeq : (ts : List Ty) → SeqVal ts
  | [] => ()
  | t :: ts => (t.fresh, freshSeq ts)

end

end Ty

/-! ## Decoding -/

/-- `iarchive::operator&(sint32&)` and its siblings: `-sint32(~tmp + 1)` for a set sign bit. The
negation wraps. -/
def fromTwos {n : Nat} (tmp : BitVec n) : BitVec n := if tmp.msb then -(~~~tmp + 1) else tmp

/-- `oarchive::operator&(sint32)` and its siblings: a negative value is negated, complemented and
increased. -/
def toTwos {n : Nat} (val : BitVec n) : BitVec n := if val.slt 0 then ~~~(-val) + 1 else val

/-- Resize a container to `n` elements, then decode into them one after the other. -/
def refill {α : Type} (d : α → Decoder α) (fresh : α) : (n : Nat) → List α → Decoder (List α)
  | 0, _ => pure []
  | n + 1, old => do
      let a ← d (old.headD fresh)
      let as ← refill d fresh n old.tail
      return a :: as

/-- Decode into the elements of an array. -/
def each {α : Type} (d : α → Decoder α) : (n : Nat) → List.Vector α n → Decoder (List.Vector α n)
  | 0, old => pure old
  | n + 1, old => do
      let a ← d old.head
      let as ← each d n old.tail
      return a ::ᵥ as

namespace Ty

mutual

/-- `iarchive::operator&` into a variable with the given content. -/
def decode : (t : Ty) → t.Val → Decoder t.Val
  | .bool, _ => (· != 0) <$> uint8
  | .uint w, _ => (fun bs => BitVec.ofNat _ (bigEndian bs)) <$> word w.octets
  | .sint w, _ => (fun bs => fromTwos (BitVec.ofNat _ (bigEndian bs))) <$> word w.octets
  | .octets, _ => octetString
  | .bitmap n, old => (fun bs => ⟨bs.toList.reverse, by simp⟩) <$> each (fun _ => uint8) n old
  | .array n t, old => each (decode t) n old
  | .list t, old => Cursor.restoring do
      let len ← listLength
      refill (decode t) t.fresh len old
  | .seq ts, old => decodeSeq ts old
  | .variant t ts, old => do
      let selector ← uint8
      match selector.toNat with
      | 0 => .inl <$> decode t t.fresh
      | i + 1 => do
          -- a selector without a case leaves the variant as it is
          match ← decodeAlt ts i with
          | some v => return .inr v
          | none => return old

/-- The members of a sequence in their order. -/
def decodeSeq : (ts : List Ty) → SeqVal ts → Decoder (SeqVal ts)
  | [], _ => pure ()
  | t :: ts, old => do
      let v ← decode t old.1
      let vs ← decodeSeq ts old.2
      return (v, vs)

/-- The case of the alternative with the given number, if there is one. -/
def decodeAlt : (ts : List Ty) → Nat → Decoder (Option (AltVal ts))
  | [], _ => pure none
  | t :: _, 0 => (fun v => some (.inl v)) <$> decode t t.fresh
  | _ :: ts, i + 1 => (fun v => v.map .inr) <$> decodeAlt ts i

end

/-! ## Encoding -/

mutual

/-- `oarchive::operator&` -/
def encode : (t : Ty) → t.Val → Except Error Bytes
  | .bool, v => .ok [v.toUInt8]
  | .uint w, v => .ok (lengthBytes v.toNat w.octets)
  | .sint w, v => .ok (lengthBytes (toTwos v).toNat w.octets)
  | .octets, v => putOctetString v
  | .bitmap _, v => .ok v.toList.reverse
  | .array _ t, v => do
      let parts ← v.toList.mapM (encode t)
      return parts.flatten
  | .list t, v => do
      let len ← truncateUint v.length
      let field ← putListLength len
      let parts ← v.mapM (encode t)
      return field ++ parts.flatten
  | .seq ts, v => encodeSeq ts v
  | .variant t _, .inl v => do
      let enc ← encode t v
      return 0 :: enc
  | .variant _ ts, .inr v => do
      let (i, enc) ← encodeAlt ts v
      return UInt8.ofNat (i + 1) :: enc

def encodeSeq : (ts : List Ty) → SeqVal ts → Except Error Bytes
  | [], _ => .ok []
  | t :: ts, v => do
      let enc ← encode t v.1
      let rest ← encodeSeq ts v.2
      return enc ++ rest

/-- The number of the alternative held, `which()`, and its encoding. -/
def encodeAlt : (ts : List Ty) → AltVal ts → Except Error (Nat × Bytes)
  | t :: _, .inl v => do
      let enc ← encode t v
      return (0, enc)
  | _ :: ts, .inr v => do
      let (i, enc) ← encodeAlt ts v
      return (i + 1, enc)

end

end Ty

end Odtone.Wire
