import Odtone.Wire.Header
import Odtone.Support.Prog

/-! # The header of the Java sensor

`MIH_Protocol_Header` of the Java SAP packs the same eight bytes as a frame of the C++ library. Here
its setters and its getter are followed, and what they write is read by the getters of a frame.
`FN` keeps two of seven bits and `MID` drops the two upper bits of the action identifier; all other
fields arrive.

An `int` of Java is its bit pattern, a `byte` too: the casts to `byte` cut off all bits in which the
sign extension of an operand could show.
-/

namespace Odtone.Java

open Wire (Frame)

/-! ## Datatypes -/

/-- The class `UInt8`: `bs[0]` -/
def uint8 (value : UInt32) : UInt8 := (0xff &&& value).toUInt8

/-- The class `UInt16`: `bs[0]` and `bs[1]` -/
structure UInt16Bytes where
  bs0 : UInt8 := 0
  bs1 : UInt8 := 0
deriving DecidableEq

/-- `UInt16(int value)` -/
def uint16 (value : UInt32) : UInt16Bytes where
  bs0 := ((0xff00 &&& value) >>> 8).toUInt8
  bs1 := (0xff &&& value).toUInt8

/-! ## The class -/

/-- `MIH_Protocol_Header`; a reference that has not been set is `none`. -/
structure MihProtocolHeader where
  rsvd2 : UInt8 := 0
  variablePayloadLength : UInt16Bytes := {}
  ackreq : Bool := false
  ackrsp : Bool := false
  fn : Option UInt8 := none
  m : Bool := false
  mid : Option UInt16Bytes := none
  rsvd1 : Bool := false
  transactionID : Option UInt16Bytes := none
  uir : Bool := false
  version : Option UInt8 := none
deriving DecidableEq

namespace MihProtocolHeader

variable (h : MihProtocolHeader)

/-- `Version(UInt8)` -/
def setVersion (value : UInt8) : MihProtocolHeader := { h with version := some (value &&& 0x0f) }

/-- `FN(UInt8)` -/
def setFN (value : UInt8) : MihProtocolHeader := { h with fn := some (value &&& 0x03) }

/-- `MID(int, int, int)`: of the action identifier only the lower byte is taken. -/
def setMID (sid opcode aid : UInt32) : MihProtocolHeader :=
  let mid0 := (0x00 : UInt8) ||| ((sid.toUInt8 &&& 0x0f) <<< 4)
  let mid0 := mid0 ||| ((opcode.toUInt8 &&& 0x03) <<< 2)
  { h with mid := some { bs0 := mid0, bs1 := (0x00 : UInt8) ||| aid.toUInt8 } }

/-- `Rsvd2(int)` -/
def setRsvd2 (value : UInt32) : MihProtocolHeader :=
  { h with rsvd2 := 0x00 ||| (uint8 value &&& 0x0f) }

/-- `TransactionID(int)` -/
def setTransactionID (value : UInt32) : MihProtocolHeader :=
  { h with transactionID := some (uint16 value) }

/-- `VariablePayloadLength(int)` -/
def setVariablePayloadLength (value : UInt32) : MihProtocolHeader :=
  { h with variablePayloadLength := uint16 value }

/-- `Set_MIH_Protocol_Header` -/
def setMihProtocolHeader (version : UInt32) (ackreq ackrsp uir m : Bool) (fn : UInt32)
    (rsvd1 : Bool) (mid : Option UInt16Bytes) (rsvd2 tid vpl : UInt32) : MihProtocolHeader :=
  let h := { h.setVersion (uint8 version) with ackreq, ackrsp, uir, m }
  let h := { h.setFN (uint8 fn) with rsvd1, mid }
  ((h.setRsvd2 rsvd2).setTransactionID tid).setVariablePayloadLength vpl

/-- A reference is followed; for `null` this is an exception. -/
def deref {α : Type} : Option α → EStateM Unit Frame α
  | some a => pure a
  | none => throw ()

/-- The block in `try` of `get_MIH_Protocol_Header`, on the eight bytes of `Header`. -/
def populate : EStateM Unit Frame Unit := do
  let version ← deref h.version
  modify fun f => { f with hdr0 := (f.hdr0 ||| version) <<< 4 }
  modify fun f => { f with hdr0 := f.hdr0 ||| (if h.ackreq then 0x08 else 0x00) }
  modify fun f => { f with hdr0 := f.hdr0 ||| (if h.ackrsp then 0x04 else 0x00) }
  modify fun f => { f with hdr0 := f.hdr0 ||| (if h.uir then 0x02 else 0x00) }
  modify fun f => { f with hdr0 := f.hdr0 ||| (if h.m then 0x01 else 0x00) }
  let fn ← deref h.fn
  modify fun f => { f with hdr1 := (0x00 ||| fn) <<< 1 }
  modify fun f => { f with hdr1 := f.hdr1 ||| (if h.rsvd1 then 0x01 else 0x00) }
  let mid ← deref h.mid
  modify fun f => { f with hdr2 := 0x00 ||| mid.bs0, hdr3 := 0x00 ||| mid.bs1 }
  modify fun f => { f with hdr4 := (0x00 ||| h.rsvd2) <<< 4 }
  let tid ← deref h.transactionID
  modify fun f => { f with hdr4 := f.hdr4 ||| (tid.bs0 &&& 0x0f), hdr5 := f.hdr5 ||| tid.bs1 }
  modify fun f => { f with
    hdr6 := f.hdr6 ||| h.variablePayloadLength.bs0, hdr7 := f.hdr7 ||| h.variablePayloadLength.bs1 }

/-- `get_MIH_Protocol_Header`: an exception ends it early. -/
def getMihProtocolHeader : Frame := (h.populate (.zero [])).state

end MihProtocolHeader

/-! ## What a frame reads -/

/-- The values of the fields. -/
structure HeaderFields where
  version : Nat
  ackreq : Bool
  ackrsp : Bool
  uir : Bool
  m : Bool
  fn : Nat
  sid : Nat
  opcode : Nat
  aid : Nat
  tid : Nat
  plength : Nat
deriving DecidableEq

namespace HeaderFields

/-- The values that the fields of a header can hold. -/
@[mk_iff]
structure InRange (x : HeaderFields) : Prop where
  version : x.version < 16
  fn : x.fn < 128
  sid : x.sid < 16
  opcode : x.opcode < 4
  aid : x.aid < 1024
  tid : x.tid < 4096
  plength : x.plength < 65536

instance (x : HeaderFields) : Decidable x.InRange := decidable_of_iff' _ (inRange_iff x)

/-- The fields are set, the identifier of the message first. The reserved fields are set beside
them. -/
def fill (x : HeaderFields) (rsvd1 : Bool) (rsvd2 : Nat) : MihProtocolHeader :=
  let h := MihProtocolHeader.setMID {} (.ofNat x.sid) (.ofNat x.opcode) (.ofNat x.aid)
  h.setMihProtocolHeader (.ofNat x.version) x.ackreq x.ackrsp x.uir x.m (.ofNat x.fn) rsvd1 h.mid
    (.ofNat rsvd2) (.ofNat x.tid) (.ofNat x.plength)

/-- The header of `fill` as bytes -/
def header (x : HeaderFields) (rsvd1 : Bool) (rsvd2 : Nat) : Frame :=
  (x.fill rsvd1 rsvd2).getMihProtocolHeader

/-- What the getters of a frame return. -/
def ofFrame (f : Frame) : HeaderFields where
  version := f.version.toNat
  ackreq := f.ackreq
  ackrsp := f.ackrsp
  uir := f.uir
  m := f.m
  fn := f.fn.toNat
  sid := f.sid.toNat
  opcode := f.opcode.toNat
  aid := f.aid.toNat
  tid := f.tid.toNat
  plength := f.plength.toNat

/-! ## Byte by byte -/

/-- The first byte -/
def firstByte (version : Nat) (ackreq ackrsp uir m : Bool) : UInt8 :=
  (0 ||| (uint8 (.ofNat version) &&& 0x0f)) <<< 4 ||| (if ackreq then 0x08 else 0x00) |||
    (if ackrsp then 0x04 else 0x00) ||| (if uir then 0x02 else 0x00) ||| (if m then 0x01 else 0x00)

/-- The second byte -/
def secondByte (fn : Nat) (rsvd1 : Bool) : UInt8 :=
  (0 ||| (uint8 (.ofNat fn) &&& 0x03)) <<< 1 ||| (if rsvd1 then 0x01 else 0x00)

/-- The third byte -/
def thirdByte (sid opcode : Nat) : UInt8 :=
  (0 : UInt8) ||| ((0 : UInt8) ||| (((UInt32.ofNat sid).toUInt8 &&& 0x0f) <<< 4) |||
    (((UInt32.ofNat opcode).toUInt8 &&& 0x03) <<< 2))

/-- The fifth byte, where `bs0` is the upper byte of the transaction identifier. -/
def fifthByte (rsvd2 : Nat) (bs0 : UInt8) : UInt8 :=
  ((0 : UInt8) ||| (0 ||| (uint8 (.ofNat rsvd2) &&& 0x0f))) <<< 4 ||| (bs0 &&& 0x0f)

variable {x : HeaderFields} {rsvd1 : Bool} {rsvd2 : Nat}

theorem header_eq : x.header rsvd1 rsvd2 =
    { hdr0 := firstByte x.version x.ackreq x.ackrsp x.uir x.m
      hdr1 := secondByte x.fn rsvd1
      hdr2 := thirdByte x.sid x.opcode
      hdr3 := 0 ||| (0 ||| (UInt32.ofNat x.aid).toUInt8)
      hdr4 := fifthByte rsvd2 (uint16 (.ofNat x.tid)).bs0
      hdr5 := 0 ||| (uint16 (.ofNat x.tid)).bs1
      hdr6 := 0 ||| (uint16 (.ofNat x.plength)).bs0
      hdr7 := 0 ||| (uint16 (.ofNat x.plength)).bs1
      payload := [] } :=
  rfl

theorem uint16_toNat {n : Nat} (h : n < 65536) :
    (uint16 (.ofNat n)).bs0.toNat = n / 256 ∧ (uint16 (.ofNat n)).bs1.toNat = n % 256 := by
  have hmask (k : Nat) : 0xff &&& k = k % 256 := by
    rw [Nat.and_comm]
    exact Nat.and_two_pow_sub_one_eq_mod k 8
  have hn : (UInt32.ofNat n).toNat = n := UInt32.toNat_ofNat_of_lt (h.trans (by decide))
  constructor
  · simp only [uint16, UInt32.toNat_toUInt8, UInt32.toNat_shiftRight, UInt32.toNat_and,
      UInt32.reduceToNat, Nat.reduceMod, Nat.shiftRight_and_distrib, hn]
    rw [show 65280 >>> 8 = 0xff from rfl, hmask, Nat.shiftRight_eq_div_pow]
    omega
  · simp only [uint16, UInt32.toNat_toUInt8, UInt32.toNat_and, UInt32.reduceToNat, hmask, hn]
    omega

theorem plength_header (h : x.plength < 65536) :
    (x.header rsvd1 rsvd2).plength.toNat = x.plength := by
  obtain ⟨hhi, hlo⟩ := uint16_toNat h
  simp only [header_eq, Frame.plength, Bits.toNat_join, UInt8.zero_or, hhi, hlo]
  omega

/-- The reserved bits in front of the transaction identifier are read as part of it. -/
theorem tid_header (h : x.tid < 4096) (hr : rsvd2 < 16) :
    (x.header rsvd1 rsvd2).tid.toNat = rsvd2 * 4096 + x.tid := by
  obtain ⟨hhi, hlo⟩ := uint16_toNat (h.trans (by decide))
  have hall : ∀ r < 16, ∀ t < 16,
      (Frame.tidField.get (fifthByte r (UInt8.ofNat t))).toNat = r * 16 + t := by
    decide +kernel
  have hfifth := hall rsvd2 hr (uint16 (.ofNat x.tid)).bs0.toNat (by omega)
  rw [UInt8.ofNat_toNat, hhi] at hfifth
  simp only [header_eq, Frame.tid, Bits.toNat_join, hfifth, UInt8.zero_or, hlo]
  omega

/-- The action identifier loses its two upper bits. -/
theorem aid_header (hsid : x.sid < 16) (hopcode : x.opcode < 4) :
    (x.header rsvd1 rsvd2).aid.toNat = x.aid % 256 := by
  have hall : ∀ sid < 16, ∀ opcode < 4, Frame.aidField.get (thirdByte sid opcode) = 0 := by
    decide +kernel
  simp only [header_eq, Frame.aid, Bits.toNat_join, hall _ hsid _ hopcode, UInt8.zero_or,
    UInt32.toNat_toUInt8]
  simp

/-- What the getters of a frame make of the header. -/
theorem ofFrame_header (h : x.InRange) (hr : rsvd2 < 16) : ofFrame (x.header rsvd1 rsvd2) =
    { x with fn := x.fn % 4, aid := x.aid % 256, tid := rsvd2 * 4096 + x.tid } := by
  have hfirst : ∀ v < 16, ∀ ackreq ackrsp uir m : Bool, let b := firstByte v ackreq ackrsp uir m
      (Frame.versionField.get b).toNat = v ∧ (Frame.ackreqField.get b != 0) = ackreq ∧
        (Frame.ackrspField.get b != 0) = ackrsp ∧ (Frame.uirField.get b != 0) = uir ∧
        (Frame.mField.get b != 0) = m := by
    decide +kernel
  have hsecond : ∀ v < 128, ∀ r, (Frame.fnField.get (secondByte v r)).toNat = v % 4 := by
    decide +kernel
  have hthird : ∀ sid < 16, ∀ opcode < 4, (Frame.sidField.get (thirdByte sid opcode)).toNat = sid ∧
      (Frame.opcodeField.get (thirdByte sid opcode)).toNat = opcode := by
    decide +kernel
  obtain ⟨hversion, hackreq, hackrsp, huir, hm⟩ :=
    hfirst x.version h.version x.ackreq x.ackrsp x.uir x.m
  obtain ⟨hsid, hopcode⟩ := hthird x.sid h.sid x.opcode h.opcode
  rw [mk.injEq]
  exact ⟨hversion, hackreq, hackrsp, huir, hm, hsecond x.fn h.fn rsvd1, hsid, hopcode,
    aid_header h.sid h.opcode, tid_header h.tid hr, plength_header h.plength⟩

/-- When the two sides agree on a header: the fragment number has two bits and the action identifier
eight, and the reserved bits next to the transaction identifier are clear. -/
theorem ofFrame_header_eq_iff (x : HeaderFields) (rsvd1 : Bool) (rsvd2 : Nat) (h : x.InRange)
    (hr : rsvd2 < 16) :
    ofFrame (x.header rsvd1 rsvd2) = x ↔ x.fn < 4 ∧ x.aid < 256 ∧ rsvd2 = 0 := by
  rw [ofFrame_header h hr]
  constructor
  · intro heq
    have hfn := congrArg fn heq
    have haid := congrArg aid heq
    have htid := congrArg tid heq
    dsimp only at hfn haid htid
    omega
  · rintro ⟨hfn, haid, rfl⟩
    rw [Nat.mod_eq_of_lt hfn, Nat.mod_eq_of_lt haid, Nat.zero_mul, Nat.zero_add]

/-- A capability discovery of the sensor, fragment 3 -/
def sample : HeaderFields := ⟨1, true, false, true, false, 3, 1, 1, 1, 4095, 300⟩

theorem ofFrame_header_sample : ofFrame (sample.header true 0) = sample :=
  (ofFrame_header_eq_iff sample true 0 (by decide) (by decide)).2 (by decide)

/-- Fragment 4 arrives as fragment 0, and the action identifier 256 as 0. -/
theorem ofFrame_header_ne :
    let x := { sample with fn := 4 }
    let y := { sample with aid := 256 }
    (x.InRange ∧ ofFrame (x.header false 0) = { x with fn := 0 }) ∧
      y.InRange ∧ ofFrame (y.header false 0) = { y with aid := 0 } := by
  decide +kernel

end HeaderFields

end Odtone.Java
