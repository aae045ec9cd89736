import Odtone.Support.Bits
import Odtone.Wire.Tlv

/-! # Frames

The eight header bytes of `inc/odtone/mih/frame.hpp` and the bytes behind them. Setters and getters
are the masks and shifts of the source. Its debug assertions on the range of a value are not part of
a release build and are left out; a value out of range simply leaks into the neighbouring bits.
-/

namespace Odtone.Wire

open Bits (Field)

/-- A frame: the array `hdr[8]` and the bytes that follow it in memory. -/
structure Frame where
  hdr0 : UInt8
  hdr1 : UInt8
  hdr2 : UInt8
  hdr3 : UInt8
  hdr4 : UInt8
  hdr5 : UInt8
  hdr6 : UInt8
  hdr7 : UInt8
  payload : Bytes
deriving DecidableEq

namespace Frame

/-! ## Header fields -/

def versionField : Field := ⟨0xf0, 4⟩
def ackreqField : Field := ⟨0x08, 3⟩
def ackrspField : Field := ⟨0x04, 2⟩
def uirField : Field := ⟨0x02, 1⟩
def mField : Field := ⟨0x01, 0⟩
def fnField : Field := ⟨0xfe, 1⟩
def tidField : Field := ⟨0xff, 0⟩

def version (f : Frame) : UInt8 := versionField.get f.hdr0
def ackreq (f : Frame) : Bool := ackreqField.get f.hdr0 != 0
def ackrsp (f : Frame) : Bool := ackrspField.get f.hdr0 != 0
def uir (f : Frame) : Bool := uirField.get f.hdr0 != 0
def m (f : Frame) : Bool := mField.get f.hdr0 != 0
def fn (f : Frame) : UInt8 := fnField.get f.hdr1
def mid (f : Frame) : UInt16 := Bits.join f.hdr2 f.hdr3
def tid (f : Frame) : UInt16 := Bits.join (tidField.get f.hdr4) f.hdr5
def plength (f : Frame) : UInt16 := Bits.join f.hdr6 f.hdr7

/-- `frame::length()`, the header included. -/
def length (f : Frame) : Nat := 8 + f.plength.toNat

def setVersion (f : Frame) (v : UInt8) : Frame := { f with hdr0 := versionField.put f.hdr0 v }
def setAckreq (f : Frame) (v : Bool) : Frame := { f with hdr0 := ackreqField.put f.hdr0 v.toUInt8 }
def setAckrsp (f : Frame) (v : Bool) : Frame := { f with hdr0 := ackrspField.put f.hdr0 v.toUInt8 }
def setUir (f : Frame) (v : Bool) : Frame := { f with hdr0 := uirField.put f.hdr0 v.toUInt8 }
def setM (f : Frame) (v : Bool) : Frame := { f with hdr0 := mField.put f.hdr0 v.toUInt8 }
def setFn (f : Frame) (v : UInt8) : Frame := { f with hdr1 := fnField.put f.hdr1 v }
def setMid (f : Frame) (v : UInt16) : Frame :=
  { f with hdr2 := (v >>> 8).toUInt8, hdr3 := (v &&& 0xff).toUInt8 }
def setTid (f : Frame) (v : UInt16) : Frame :=
  { f with hdr4 := tidField.put f.hdr4 (v >>> 8).toUInt8, hdr5 := (v &&& 0xff).toUInt8 }
def setPlength (f : Frame) (v : UInt16) : Frame :=
  { f with hdr6 := (v >>> 8).toUInt8, hdr7 := (v &&& 0xff).toUInt8 }

/-! ## Buffers -/

/-- `frame_vla::size(n)` followed by `zero()`: a cleared header. -/
def zero (payload : Bytes) : Frame := ⟨0, 0, 0, 0, 0, 0, 0, 0, payload⟩

/-- The bytes of a frame in memory. -/
def bytes (f : Frame) : Bytes :=
  f.hdr0 :: f.hdr1 :: f.hdr2 :: f.hdr3 :: f.hdr4 :: f.hdr5 :: f.hdr6 :: f.hdr7 :: f.payload

/-- `frame::cast(buff, len)`: refuse a buffer shorter than the header, or than the header and the
payload length it announces. Bytes behind the payload are accepted. -/
def cast : Bytes → Option Frame
  | h0 :: h1 :: h2 :: h3 :: h4 :: h5 :: h6 :: h7 :: rest =>
    let f : Frame := ⟨h0, h1, h2, h3, h4, h5, h6, h7, rest⟩
    if 8 + rest.length < f.length then none else some f
  | _ => none

/-- A frame whose payload has the announced length is accepted at its own length. -/
theorem cast_bytes {f : Frame} (h : f.payload.length = f.plength.toNat) : cast f.bytes = some f :=
  if_neg (by simp [length, plength] at h ⊢; omega)

/-! ## Range of the fields -/

theorem versionField_fits {v : UInt8} (h : v < 16) : versionField.Fits v :=
  Bits.forall_of_lt (by decide) h

theorem fnField_fits {v : UInt8} (h : v < 128) : fnField.Fits v := Bits.forall_of_lt (by decide) h

theorem tidField_fits (v : UInt8) : tidField.Fits v := by
  simp [Field.Fits, tidField, show (0xff : UInt8) = -1 from rfl]

/-- A flag fits every field that can hold the value one. -/
theorem flag_fits {F : Field} (h : F.Fits 0 ∧ F.Fits 1) (b : Bool) : F.Fits b.toUInt8 := by
  cases b
  · exact h.1
  · exact h.2

theorem flag_ne_zero (b : Bool) : (b.toUInt8 != 0) = b := by cases b <;> rfl

end Frame

end Odtone.Wire
