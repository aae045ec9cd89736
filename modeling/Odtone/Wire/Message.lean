import Odtone.Wire.Frame

/-! # Messages

The class `message` of `inc/odtone/mih/message.hpp` and `lib/odtone/mih/message.cpp`: header fields,
the two identifiers, and the service specific TLVs as the bytes of the payload archive.

`message_roundTrip` is the result of this layer: a message whose encoded payload fits the 16-bit
length field of the header survives the wire unchanged.
-/

namespace Odtone.Wire

open Bits (Field)
open List Wire.Frame

/-- An MIH message. -/
structure Message where
  version : UInt8 := 1
  ackreq : Bool := false
  ackrsp : Bool := false
  uir : Bool := false
  m : Bool := false
  fn : UInt8 := 0
  mid : UInt16 := 0
  tid : UInt16 := 0
  source : Bytes := []
  destination : Bytes := []
  payload : Bytes := []
deriving DecidableEq

namespace Message

/-- `truncate_cast<uint16>` -/
def truncateUint16 (n : Nat) : Except Error UInt16 :=
  if n < 2 ^ 16 then .ok (UInt16.ofNat n) else .error .badTruncateCast

/-- The archive `get_frame` fills: source identifier, destination identifier, service TLVs. -/
def encodePayload (m : Message) : Except Error Bytes := do
  let src ← putTlv 1 (putOctetString m.source)
  let dst ← putTlv 2 (putOctetString m.destination)
  return src ++ dst ++ m.payload

/-- The header setters of `get_frame`, in their order. -/
def header (m : Message) (plength : UInt16) (payload : Bytes) : Frame :=
  ((((((((Frame.zero payload).setVersion m.version).setAckreq m.ackreq).setAckrsp m.ackrsp).setUir
    m.uir).setM m.m).setFn m.fn).setMid m.mid).setTid m.tid |>.setPlength plength

/-- `message::get_frame(frame_vla&)` -/
def getFrame (m : Message) : Except Error Bytes := do
  let ar ← m.encodePayload
  let plength ← truncateUint16 ar.length
  return (m.header plength ar).bytes

/-- The two identifiers at the front of a payload. -/
def decodeIds : Decoder (Bytes × Bytes) := do
  let src ← tlvSourceId
  let dst ← tlvDestinationId
  return (src, dst)

/-- `message::operator=(const frame&)`. Only the announced `plength` bytes are looked at. -/
def ofFrame (fm : Frame) : Except Error Message :=
  let ar := fm.payload.take fm.plength.toNat
  match decodeIds ⟨ar, 0⟩ with
  | .error e _ => .error e
  | .ok (src, dst) c => .ok {
      version := fm.version, ackreq := fm.ackreq, ackrsp := fm.ackrsp, uir := fm.uir, m := fm.m
      fn := fm.fn, mid := fm.mid, tid := fm.tid, source := src, destination := dst
      payload := ar.drop c.pos }

/-! ## The header round trip -/

section Header

variable {msg : Message} {plength : UInt16} {payload : Bytes}

/-- The first byte of the header; the version must not leak into the flags. -/
theorem header_bits :
    (msg.version < 16 → (msg.header plength payload).version = msg.version) ∧
    (msg.header plength payload).ackreq = msg.ackreq ∧
    (msg.header plength payload).ackrsp = msg.ackrsp ∧
    (msg.header plength payload).uir = msg.uir ∧ (msg.header plength payload).m = msg.m := by
  have hq := flag_fits (F := ackreqField) (by decide) msg.ackreq
  have hs := flag_fits (F := ackrspField) (by decide) msg.ackrsp
  have hu := flag_fits (F := uirField) (by decide) msg.uir
  have hm := flag_fits (F := mField) (by decide) msg.m
  simp only [Frame.version, Frame.ackreq, Frame.ackrsp, Frame.uir, Frame.m, header, setPlength,
    setTid, setMid, setFn, setM, setUir, setAckrsp, setAckreq, setVersion]
  refine ⟨fun hv => ?_, ?_, ?_, ?_, ?_⟩
  · rw [Field.get_put_of_disjoint (by decide) hm, Field.get_put_of_disjoint (by decide) hu,
      Field.get_put_of_disjoint (by decide) hs, Field.get_put_of_disjoint (by decide) hq,
      Field.get_put (versionField_fits hv)]
  · rw [Field.get_put_of_disjoint (by decide) hm, Field.get_put_of_disjoint (by decide) hu,
      Field.get_put_of_disjoint (by decide) hs, Field.get_put hq, flag_ne_zero]
  · rw [Field.get_put_of_disjoint (by decide) hm, Field.get_put_of_disjoint (by decide) hu,
      Field.get_put hs, flag_ne_zero]
  · rw [Field.get_put_of_disjoint (by decide) hm, Field.get_put hu, flag_ne_zero]
  · rw [Field.get_put hm, flag_ne_zero]

theorem header_fn (hf : msg.fn < 128) : (msg.header plength payload).fn = msg.fn :=
  Field.get_put (fnField_fits hf)

@[simp] theorem header_mid : (msg.header plength payload).mid = msg.mid := Bits.join_split _

@[simp] theorem header_tid : (msg.header plength payload).tid = msg.tid := by
  change Bits.join (tidField.get (tidField.put 0 _)) _ = _
  rw [Field.get_put (tidField_fits _)]
  exact Bits.join_split _

@[simp] theorem header_plength : (msg.header plength payload).plength = plength :=
  Bits.join_split _

@[simp] theorem header_payload : (msg.header plength payload).payload = payload := rfl

end Header

/-! ## The payload round trip -/

/-- Size of the length field of a length, one byte up to 128 and a marker byte with the big-endian
bytes of the excess above that. -/
def lengthFieldSize (len : Nat) : Nat := if len ≤ 128 then 1 else 2 + Nat.log2 (len - 128) / 8

/-- Size of the TLV of an identifier of `len` bytes. -/
def idElementSize (len : Nat) : Nat :=
  1 + lengthFieldSize (lengthFieldSize len + len) + lengthFieldSize len + len

/-- Size of the payload of a message on the wire. -/
def payloadSize (m : Message) : Nat :=
  idElementSize m.source.length + idElementSize m.destination.length + m.payload.length

theorem lengthField_length {len : Nat} (h : len < 128 + 2 ^ 16) :
    (lengthField len).length = lengthFieldSize len := by
  unfold lengthField lengthFieldSize
  split_ifs with h₁ h₂
  · rfl
  · have hlog : (len - 128).log2 < 8 := (Nat.log2_lt (by omega)).2 (by omega)
    simp [Nat.div_eq_of_lt hlog]
  · have hlog : (len - 128).log2 < 16 := (Nat.log2_lt (by omega)).2 (by omega)
    have hlog' : 8 ≤ (len - 128).log2 := (Nat.le_log2 (by omega)).2 (by omega)
    simp only [length_cons, length_nil]
    omega

variable {id : Bytes} {m : Message}

/-- The size bound keeps the nested lengths of an identifier in the range of the length codec. -/
theorem idElement_bounds (h : idElementSize id.length ≤ 65535) :
    id.length < 128 + 2 ^ 16 ∧ (lengthField id.length ++ id).length < 128 + 2 ^ 16 := by
  unfold idElementSize at h
  have hid : id.length < 128 + 2 ^ 16 := by omega
  refine ⟨hid, ?_⟩
  rw [length_append, lengthField_length hid]
  omega

theorem idElement_length {type : UInt8} (h : idElementSize id.length ≤ 65535) :
    (idElement type id).length = idElementSize id.length := by
  obtain ⟨hid, hval⟩ := idElement_bounds h
  have hval' := hval
  rw [length_append, lengthField_length hid] at hval'
  simp only [idElement, length_cons, length_append, lengthField_length hid,
    lengthField_length hval', idElementSize]
  omega

section

variable (h : m.payloadSize ≤ 65535)
include h

theorem idElementSize_le :
    idElementSize m.source.length ≤ 65535 ∧ idElementSize m.destination.length ≤ 65535 := by
  unfold payloadSize at h
  omega

theorem encodePayload_eq :
    m.encodePayload = .ok (idElement 1 m.source ++ idElement 2 m.destination ++ m.payload) := by
  obtain ⟨hs, hd⟩ := idElementSize_le h
  simp only [encodePayload, putTlv_id_eq (idElement_bounds hs).2,
    putTlv_id_eq (idElement_bounds hd).2, bind, Except.bind, pure, Except.pure]

theorem encoded_length :
    (idElement 1 m.source ++ idElement 2 m.destination ++ m.payload).length = m.payloadSize := by
  obtain ⟨hs, hd⟩ := idElementSize_le h
  simp only [length_append, idElement_length hs, idElement_length hd, payloadSize]

/-- The identifiers are read back from the front of the payload, whatever follows. -/
theorem decodeIds_reads {P : Bytes → Prop} :
    Reads decodeIds P (idElement 1 m.source ++ idElement 2 m.destination)
      (m.source, m.destination) := by
  obtain ⟨hs, hd⟩ := idElementSize_le h
  have hdst : Reads (tlvDestinationId >>= fun dst => pure (m.source, dst)) P
      (idElement 2 m.destination) (m.source, m.destination) := by
    rw [bind_pure_comp]
    exact (tlv_id_reads (idElement_bounds hd).2).map
  exact (tlv_id_reads (P := fun _ => True) (idElement_bounds hs).2).bind hdst fun _ _ => trivial

end

/-- The wire round trip: a message whose version and fragment number fit their fields and whose
encoded payload fits the length field can be framed, the frame is accepted at its own length, and
decoding it gives the message back. -/
theorem message_roundTrip (m : Message) (hv : m.version < 16) (hf : m.fn < 128)
    (hp : m.payloadSize ≤ 65535) :
    ∃ buff fm, m.getFrame = .ok buff ∧ buff.length = 8 + m.payloadSize ∧
      Frame.cast buff = some fm ∧ ofFrame fm = .ok m := by
  set ar := idElement 1 m.source ++ idElement 2 m.destination ++ m.payload with har
  have hlen : ar.length = m.payloadSize := encoded_length hp
  set fm := m.header (UInt16.ofNat ar.length) ar with hfm
  have hpl : fm.plength.toNat = ar.length := by
    rw [hfm, header_plength]
    exact UInt16.toNat_ofNat_of_lt' (show ar.length < 65536 by omega)
  refine ⟨fm.bytes, fm, ?_, ?_, cast_bytes hpl.symm, ?_⟩
  · have hcast : truncateUint16 ar.length = .ok (UInt16.ofNat ar.length) := if_pos (by omega)
    simp only [getFrame, encodePayload_eq hp, bind, Except.bind, ← har, hcast,
      pure, Except.pure, hfm]
  · rw [← hlen]
    simp only [bytes, length_cons, hfm, header_payload]
    omega
  · have hids := (decodeIds_reads hp (P := fun _ => True)).run m.payload
      (by simp only [har, length_append] at hlen ⊢; omega) trivial
    have har' : fm.payload.take fm.plength.toNat = ar := by
      rw [hpl, hfm, header_payload, take_length]
    rw [← har] at hids
    simp only [ofFrame, har', hids]
    simp only [hfm, header_bits.1 hv, header_bits, header_fn hf, header_mid, header_tid, har,
      drop_left]

/-- A request with an empty destination and a two-byte service payload. -/
theorem message_roundTrip_request :
    ∃ buff fm, getFrame
        { mid := 0x1401, tid := 7, fn := 127, source := [0x61], payload := [3, 0] } =
        .ok buff ∧ buff.length = 8 + 9 ∧ Frame.cast buff = some fm ∧
      ofFrame fm = .ok
        { mid := 0x1401, tid := 7, fn := 127, source := [0x61], payload := [3, 0] } :=
  message_roundTrip { mid := 0x1401, tid := 7, fn := 127, source := [0x61], payload := [3, 0] }
    (by decide) (by decide) (by decide)

end Message

end Odtone.Wire
