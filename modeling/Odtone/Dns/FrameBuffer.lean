import Odtone.Dns.RoundTrip

/-! # The buffer of a DNS frame

`get_frame` asks for a buffer of twelve bytes and the bytes it has counted, and gets twelve more. It
counts neither the lengths of the labels nor one byte of each resource record, the data of a record
by its announced length, and everything modulo 2^16. The buffer is right where these differences
cancel out, and the payload stays inside it where the bytes left out are not more than the bytes
added.
-/

namespace Odtone.Dns

open List

namespace Message

/-- The size of the buffer the payload is copied into. -/
def bufferSize (m : Message) : Nat := (m.setHeader (newFrame m.serialize.len)).length

/-- The buffer is a header and the serialized payload. -/
def BufferExact (m : Message) : Prop := m.bufferSize = 12 + m.serialize.bytes.length

/-- The payload is copied inside the buffer. -/
def CopyInside (m : Message) : Prop := ∃ fm, m.getFrame = some fm

/-- The data of the resource records. -/
def dataBytes (m : Message) : Nat := (m.records.map (·.rrData.length)).sum

/-- The lengths the resource records announce for their data. -/
def announcedBytes (m : Message) : Nat := (m.records.map (·.rrLen.toNat)).sum

theorem length_encoded (m : Message) :
    m.encoded.length + m.announcedBytes = m.counted + m.uncounted + m.dataBytes := by
  have hrecords (rrs : List ResourceRecord) :
      (rrs.flatMap ResourceRecord.encoded).length + (rrs.map (·.rrLen.toNat)).sum =
        (rrs.map ResourceRecord.counted).sum + (rrs.map ResourceRecord.uncounted).sum +
          (rrs.map (·.rrData.length)).sum := by
    induction rrs with
    | nil => rfl
    | cons rr rrs ih =>
      have hrr := rr.length_encoded
      simp only [flatMap_cons, length_append, map_cons, sum_cons]
      omega
  have hrest := hrecords m.records
  rw [encoded, length_append, length_flatMap_encoded fun q _ => q.encoded_length, announcedBytes,
    dataBytes, counted, uncounted]
  omega

theorem bufferSize_eq (m : Message) : m.bufferSize = 24 + m.counted % 65536 := by
  rw [bufferSize, serialize_eq, length_setHeader, newFrame, length_replicate, UInt16.toNat_ofNat']
  omega

theorem copyInside_iff (m : Message) : m.CopyInside ↔ 12 +
    m.serialize.bytes.length ≤ m.bufferSize := by
  rw [CopyInside, getFrame, bufferSize]
  split_ifs with h
  · exact iff_of_true ⟨_, rfl⟩ h
  · exact iff_of_false (by simp) h

/-- When the buffer of a frame is its header and its payload: exactly if the bytes that are not
counted are twelve, the data has the announced length on the whole and the count does not wrap, or
these three cancel out. The payload stays inside the buffer exactly if there are not more of
them. -/
theorem frameBuffer_iff (m : Message) :
    (m.BufferExact ∧ m.CopyInside ↔
      m.uncounted + m.dataBytes + 65536 * (m.counted / 65536) = 12 + m.announcedBytes) ∧
    (m.CopyInside ↔
      m.uncounted + m.dataBytes + 65536 * (m.counted / 65536) ≤ 12 + m.announcedBytes) := by
  have hlen := m.length_encoded
  rw [copyInside_iff, BufferExact, bufferSize_eq, serialize_eq]
  dsimp only
  omega

/-- The buffer of a query for `a.b` is ten bytes too long, and a name of thirteen labels is copied
beyond it. -/
theorem frameBuffer_not_exact :
    sampleQuery.bufferSize = 31 ∧ sampleQuery.serialize.bytes.length = 9 ∧
      longQuery.bufferSize = 42 ∧ longQuery.serialize.bytes.length = 31 := by
  decide

end Message

end Odtone.Dns
