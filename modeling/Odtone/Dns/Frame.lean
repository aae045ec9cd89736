import Odtone.Dns.Name

/-! # Frames of the DNS

The header of a DNS message as `frame.hpp` accesses it: setters that replace the bits under a mask,
and getters that read them. The setters of `aa`, `tc` and `rd` have the mask of `qr`, and the
operation code is shifted by 6 instead of 3 in both directions.
-/

namespace Odtone.Dns

open Bits (Field)

/-- A frame: the bytes of its buffer, of which the first twelve are `hdr`. -/
abbrev Frame := List UInt8

namespace Frame

/-- `hdr[i]` -/
def hdr (fm : Frame) (i : Nat) : UInt8 := fm[i]?.getD 0

/-- `uint8(b)` of a flag. -/
def bit (b : Bool) : UInt8 := if b then 1 else 0

def maskQr : UInt8 := 0x80
def maskOpcode : UInt8 := 0x78
def maskAa : UInt8 := 0x04
def maskTc : UInt8 := 0x02
def maskRd : UInt8 := 0x01
def maskRa : UInt8 := 0x80
def maskZ : UInt8 := 0x40
def maskRcode : UInt8 := 0x0f

/-! ## Setters -/

/-- `hdr[i] = (hdr[i] & ~mask) | (v << shift)` -/
def setField (fm : Frame) (i : Nat) (F : Field) (v : UInt8) : Frame := fm.set i (F.put (fm.hdr i) v)

/-- A field of two bytes: `tid`, `nquery`, `nanswer`, `nauth`, `nadd`. -/
def setUint16 (fm : Frame) (i : Nat) (v : UInt16) : Frame :=
  (fm.set i (v >>> 8).toUInt8).set (i + 1) (v &&& 0xff).toUInt8

def setTid (fm : Frame) (tid : UInt16) : Frame := fm.setUint16 0 tid
def setQr (fm : Frame) (qr : Bool) : Frame := fm.setField 2 ⟨maskQr, 7⟩ (bit qr)
def setOpcode (fm : Frame) (opcode : UInt8) : Frame := fm.setField 2 ⟨maskOpcode, 6⟩ opcode
def setAa (fm : Frame) (aa : Bool) : Frame := fm.setField 2 ⟨maskQr, 2⟩ (bit aa)
def setTc (fm : Frame) (tc : Bool) : Frame := fm.setField 2 ⟨maskQr, 1⟩ (bit tc)
def setRd (fm : Frame) (rd : Bool) : Frame := fm.setField 2 ⟨maskQr, 0⟩ (bit rd)
def setRa (fm : Frame) (ra : Bool) : Frame := fm.setField 3 ⟨maskRa, 7⟩ (bit ra)
def setZ (fm : Frame) (z : Bool) : Frame := fm.setField 3 ⟨maskZ, 6⟩ (bit z)
def setRcode (fm : Frame) (rcode : UInt8) : Frame := fm.setField 3 ⟨maskRcode, 0⟩ rcode
def setNquery (fm : Frame) (nquery : UInt16) : Frame := fm.setUint16 4 nquery
def setNanswer (fm : Frame) (nanswer : UInt16) : Frame := fm.setUint16 6 nanswer
def setNauth (fm : Frame) (nauth : UInt16) : Frame := fm.setUint16 8 nauth
def setNadd (fm : Frame) (nadd : UInt16) : Frame := fm.setUint16 10 nadd

/-! ## Getters -/

/-- `(hdr[i] & mask) >> shift` -/
def getField (fm : Frame) (i : Nat) (F : Field) : UInt8 := F.get (fm.hdr i)

def uint16 (fm : Frame) (i : Nat) : UInt16 := Bits.join (fm.hdr i) (fm.hdr (i + 1))

def tid (fm : Frame) : UInt16 := fm.uint16 0
def qr (fm : Frame) : Bool := fm.getField 2 ⟨maskQr, 7⟩ ≠ 0
def opcode (fm : Frame) : UInt8 := fm.getField 2 ⟨maskOpcode, 6⟩
def aa (fm : Frame) : Bool := fm.getField 2 ⟨maskAa, 2⟩ ≠ 0
def tc (fm : Frame) : Bool := fm.getField 2 ⟨maskTc, 1⟩ ≠ 0
def rd (fm : Frame) : Bool := fm.getField 2 ⟨maskRd, 0⟩ ≠ 0
def ra (fm : Frame) : Bool := fm.getField 3 ⟨maskRa, 7⟩ ≠ 0
def z (fm : Frame) : Bool := fm.getField 3 ⟨maskZ, 6⟩ ≠ 0
def rcode (fm : Frame) : UInt8 := fm.getField 3 ⟨maskRcode, 0⟩
def nquery (fm : Frame) : UInt16 := fm.uint16 4
def nanswer (fm : Frame) : UInt16 := fm.uint16 6
def nauth (fm : Frame) : UInt16 := fm.uint16 8
def nadd (fm : Frame) : UInt16 := fm.uint16 10

/-! ## Bytes behind the setters -/

section Bytes

variable {fm : Frame} {i j : Nat}

@[simp] theorem length_setUint16 (v : UInt16) : (fm.setUint16 i v).length = fm.length := by
  simp [setUint16]

@[simp] theorem length_setField (F : Field) (v : UInt8) :
    (fm.setField i F v).length = fm.length := by
  simp [setField]

theorem hdr_setUint16_of_ne (hi : i ≠ j) (hi' : i + 1 ≠ j) (v : UInt16) :
    (fm.setUint16 i v).hdr j = fm.hdr j := by
  simp [setUint16, hdr, hi, hi']

theorem hdr_setField_of_ne (hi : i ≠ j) (F : Field) (v : UInt8) :
    (fm.setField i F v).hdr j = fm.hdr j := by
  simp [setField, hdr, hi]

theorem hdr_setField_self (hi : i < fm.length) (F : Field) (v : UInt8) :
    (fm.setField i F v).hdr i = F.put (fm.hdr i) v := by
  simp [setField, hdr, hi]

theorem uint16_setUint16_self (hi : i + 1 < fm.length) (v : UInt16) :
    (fm.setUint16 i v).uint16 i = v := by
  have hi' : i < fm.length := by omega
  have h0 : (fm.setUint16 i v).hdr i = (v >>> 8).toUInt8 := by simp [setUint16, hdr, hi']
  have h1 : (fm.setUint16 i v).hdr (i + 1) = (v &&& 0xff).toUInt8 := by simp [setUint16, hdr, hi]
  rw [uint16, h0, h1, Bits.join_split]

theorem uint16_setUint16_of_ne (hi : i + 2 ≤ j ∨ j + 2 ≤ i) (v : UInt16) :
    (fm.setUint16 i v).uint16 j = fm.uint16 j := by
  rw [uint16, hdr_setUint16_of_ne (by omega) (by omega), hdr_setUint16_of_ne (by omega) (by omega),
    uint16]

theorem uint16_setField_of_ne (hi : i < j ∨ j + 2 ≤ i) (F : Field) (v : UInt8) :
    (fm.setField i F v).uint16 j = fm.uint16 j := by
  rw [uint16, hdr_setField_of_ne (by omega), hdr_setField_of_ne (by omega), uint16]

end Bytes

end Frame

end Odtone.Dns
