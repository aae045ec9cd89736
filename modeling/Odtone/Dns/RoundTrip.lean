import Odtone.Dns.Message
import Odtone.Dns.Decompress

/-! # Round trip of DNS messages

A message comes back from its frame exactly if it is no response, its operation code has a single
bit, and what `get_frame` does not count fits into the twelve bytes that the buffer has more than it
asks for.
-/

namespace Odtone.Dns

open Bits (Field)
open List Dns.Frame ResourceRecord Option

/-! ## Bytes in memory -/

/-- The bytes `bs` stand at position `pos`. -/
def Holds (p : Int → UInt8) (pos : Int) (bs : List UInt8) : Prop :=
  bytesAt p pos bs.length = bs
deriving Decidable

section Holds

variable {p : Int → UInt8} {pos : Int}

theorem bytesAt_add (a : Int) (m n : Nat) :
    bytesAt p a (m + n) = bytesAt p a m ++ bytesAt p (a + m) n := by
  simp [bytesAt, range_add, Function.comp_def, Int.add_assoc]

theorem holds_append {a b : List UInt8} :
    Holds p pos (a ++ b) ↔ Holds p pos a ∧ Holds p (pos + a.length) b := by
  unfold Holds
  rw [length_append, bytesAt_add]
  constructor
  · intro h
    exact append_inj h (bytesAt_length _ _)
  · rintro ⟨ha, hb⟩
    rw [ha, hb]

theorem holds_cons {v : UInt8} {b : List UInt8} :
    Holds p pos (v :: b) ↔ p pos = v ∧ Holds p (pos + 1) b := by
  rw [← singleton_append, holds_append]
  simp [Holds, bytesAt]

theorem holds_payload {hdr bs rest : List UInt8} (hhdr : hdr.length = 12) :
    Holds (payload (hdr ++ bs ++ rest)) 0 bs := by
  unfold Holds bytesAt
  refine ext_getElem (by simp) fun k hk hk' => ?_
  simp only [getElem_map, getElem_range, payload]
  rw [if_neg (by omega), show ((0 : Int) + k + 12).toNat = 12 + k by omega, append_assoc,
    getElem?_append_right (by omega), hhdr, Nat.add_sub_cancel_left,
    getElem?_append_left hk', getElem?_eq_getElem hk']
  rfl

end Holds

/-! ## Encoded records -/

/-- Labels with their lengths, up to the terminator. -/
def encodedName (ls : List (List UInt8)) : List UInt8 :=
  ls.flatMap (fun l => UInt8.ofNat l.length :: l) ++ [0]

def Question.labels (q : Question) : List (List UInt8) := q.domain.splitOn dot

def ResourceRecord.labels (rr : ResourceRecord) : List (List UInt8) := rr.name.splitOn dot

def Question.encoded (q : Question) : List UInt8 :=
  encodedName q.labels ++ (putUint16 q.qtype ++ putUint16 q.qclass)

def ResourceRecord.encoded (rr : ResourceRecord) : List UInt8 :=
  encodedName rr.labels ++ (putUint16 rr.rtype ++ putUint16 rr.rclass ++ putUint32 rr.ttl ++
    putUint16 rr.rrLen ++ rr.rrData)

/-- The bytes of a record that `get_frame` counts. -/
def Question.counted (q : Question) : Nat := (q.labels.map length).sum + 5

def ResourceRecord.counted (rr : ResourceRecord) : Nat :=
  (rr.labels.map length).sum + 10 + rr.rrLen.toNat

/-- The bytes of a record that `get_frame` does not count: the lengths of the labels and, in a
resource record, the terminator of the name. -/
def Question.uncounted (q : Question) : Nat := q.labels.length

def ResourceRecord.uncounted (rr : ResourceRecord) : Nat := rr.labels.length + 1

namespace Message

def records (m : Message) : List ResourceRecord := m.answer ++ m.auth ++ m.add

def encoded (m : Message) : List UInt8 :=
  m.query.flatMap Question.encoded ++ m.records.flatMap ResourceRecord.encoded

def counted (m : Message) : Nat :=
  (m.query.map Question.counted).sum + (m.records.map ResourceRecord.counted).sum

def uncounted (m : Message) : Nat :=
  (m.query.map Question.uncounted).sum + (m.records.map ResourceRecord.uncounted).sum

end Message

section Serialize

variable (pl : Payload)

theorem foldl_label (ls : List (List UInt8)) :
    ls.foldl Payload.label pl =
      { bytes := pl.bytes ++ ls.flatMap (fun l => UInt8.ofNat l.length :: l)
        len := pl.len + UInt16.ofNat (ls.map length).sum } := by
  induction ls generalizing pl with
  | nil => simp
  | cons l ls ih => simp [ih, Payload.label, UInt16.ofNat_add, UInt16.add_assoc]

theorem serializeQueryRecord_eq (q : Question) : serializeQueryRecord pl q =
    { bytes := pl.bytes ++ q.encoded, len := pl.len + UInt16.ofNat q.counted } := by
  simp [serializeQueryRecord, Payload.name, foldl_label, Question.encoded, encodedName,
    Question.counted, Question.labels, UInt16.ofNat_add, UInt16.add_assoc]

theorem serializeResourceRecord_eq (rr : ResourceRecord) : serializeResourceRecord pl rr =
    { bytes := pl.bytes ++ rr.encoded, len := pl.len + UInt16.ofNat rr.counted } := by
  simp [serializeResourceRecord, Payload.name, foldl_label, encoded, encodedName,
    counted, labels, UInt16.ofNat_add, UInt16.add_assoc]

/-- A loop that serializes records one behind the other. -/
theorem foldl_serialize {α : Type} {f : Payload → α → Payload} {encoded : α → List UInt8}
    {counted : α → Nat} (hf : ∀ pl a, f pl a =
      { bytes := pl.bytes ++ encoded a, len := pl.len + UInt16.ofNat (counted a) }) (as : List α) :
    as.foldl f pl =
      { bytes := pl.bytes ++ as.flatMap encoded
        len := pl.len + UInt16.ofNat (as.map counted).sum } := by
  induction as generalizing pl with
  | nil => simp
  | cons a as ih => simp [ih, hf, UInt16.ofNat_add, UInt16.add_assoc]

theorem Message.serialize_eq (m : Message) :
    m.serialize = { bytes := m.encoded, len := UInt16.ofNat m.counted } := by
  simp [serialize, foldl_serialize _ serializeQueryRecord_eq,
    foldl_serialize _ serializeResourceRecord_eq, encoded, counted, records, UInt16.ofNat_add,
    UInt16.add_assoc]

theorem encodedName_length (ls : List (List UInt8)) :
    (encodedName ls).length = (ls.map length).sum + ls.length + 1 := by
  induction ls with
  | nil => rfl
  | cons l ls ih =>
    simp only [encodedName, length_append, length_flatMap, map_cons, sum_cons, length_cons] at ih ⊢
    omega

theorem Question.encoded_length (q : Question) : q.encoded.length = q.counted + q.uncounted := by
  simp only [encoded, length_append, encodedName_length, counted, uncounted, putUint16,
    length_cons, length_nil]
  omega

/-- What is missing in the count of a record is made up for by its data. -/
theorem ResourceRecord.length_encoded (rr : ResourceRecord) :
    rr.encoded.length + rr.rrLen.toNat = rr.counted + rr.uncounted + rr.rrData.length := by
  simp only [encoded, length_append, encodedName_length, counted, uncounted, putUint16,
    putUint32, length_cons, length_nil]
  omega

theorem ResourceRecord.encoded_length (rr : ResourceRecord)
    (h : rr.rrLen.toNat = rr.rrData.length) : rr.encoded.length = rr.counted + rr.uncounted := by
  have hlen := rr.length_encoded
  omega

theorem length_flatMap_encoded {α : Type} {encoded : α → List UInt8} {counted uncounted : α → Nat}
    {as : List α} (h : ∀ a ∈ as, (encoded a).length = counted a + uncounted a) :
    (as.flatMap encoded).length = (as.map counted).sum + (as.map uncounted).sum := by
  induction as with
  | nil => rfl
  | cons a as ih =>
    obtain ⟨ha, has⟩ := forall_mem_cons.mp h
    simp only [flatMap_cons, length_append, ha, ih has, map_cons, sum_cons]
    omega

end Serialize

/-! ## Parsed records -/

/-- With enough rounds for the names in it, a parser returns `a` and moves the position to
`pos'`. -/
def Settles {α : Type} (f : Nat → Parser α) (pos : Int) (a : α) (pos' : Int) : Prop :=
  ∃ enough, ∀ fuel, enough ≤ fuel → f fuel pos = some (a, pos')

namespace Settles

variable {α β : Type} {pos pos' pos'' : Int} {a : α} {b : β}

theorem bind {f : Nat → Parser α} {g : Nat → α → Parser β} (hf : Settles f pos a pos')
    (hg : Settles (fun fuel => g fuel a) pos' b pos'') :
    Settles (fun fuel => f fuel >>= g fuel) pos b pos'' := by
  obtain ⟨n, hn⟩ := hf
  obtain ⟨n', hn'⟩ := hg
  refine ⟨max n n', fun fuel h => ?_⟩
  have hf := hn fuel ((le_max_left _ _).trans h)
  have hg := hn' fuel ((le_max_right _ _).trans h)
  change (f fuel pos).bind (fun r => g fuel r.1 r.2) = _
  rw [hf]
  exact hg

theorem pure : Settles (fun _ => Pure.pure a) pos a pos := ⟨0, fun _ _ => rfl⟩

theorem modifyGet {f : Int → α × Int} (h : f pos = (a, pos')) :
    Settles (fun _ => MonadStateOf.modifyGet f) pos a pos' :=
  ⟨0, fun _ _ => congrArg some h⟩

end Settles

section Records

variable {p : Int → UInt8} {pos : Int}

/-- A label of 1 to 63 bytes and what stands behind it. -/
theorem holds_label {l rest : List UInt8} (hne : l ≠ []) (hle : l.length ≤ 63)
    (h : Holds p pos (UInt8.ofNat l.length :: (l ++ rest))) :
    p pos ≠ 0 ∧ (p pos).toNat = l.length ∧ bytesAt p (pos + 1) (p pos).toNat = l ∧
      Holds p (pos + (p pos).toNat + 1) rest := by
  rw [holds_cons, holds_append] at h
  obtain ⟨hl, hbytes, hrest⟩ := h
  have hlen : (p pos).toNat = l.length := by
    rw [hl, UInt8.toNat_ofNat']
    omega
  refine ⟨fun h0 => ?_, hlen, by rw [hlen]; exact hbytes, ?_⟩
  · rw [h0] at hlen
    exact hne (length_eq_zero_iff.mp hlen.symm)
  · rwa [hlen, Int.add_right_comm]

theorem name_of_holds {ls : List (List UInt8)} (hls : ∀ l ∈ ls, l ≠ [] ∧ l.length ≤ 63)
    (h : Holds p pos (encodedName ls)) :
    Name p pos ls (pos + (encodedName ls).length) ∧ Plain p pos := by
  induction ls generalizing pos with
  | nil =>
    have h0 : p pos = 0 := (holds_cons.mp h).1
    exact ⟨.root h0, .root h0⟩
  | cons l ls ih =>
    obtain ⟨⟨hne, hle⟩, hls⟩ := forall_mem_cons.mp hls
    have hcons : encodedName (l :: ls) = UInt8.ofNat l.length :: (l ++ encodedName ls) := by
      simp [encodedName]
    obtain ⟨hpos, hlen, hbytes, hrest⟩ := holds_label hne hle (hcons ▸ h)
    obtain ⟨hname, hplain⟩ := ih hls hrest
    refine ⟨?_, .label hpos (by omega) hplain⟩
    have := Name.label hpos (by omega) hname
    rw [hbytes] at this
    convert this using 1
    rw [hcons]
    simp only [length_cons, length_append]
    omega

theorem parseDomainName_mono {fuel fuel' : Nat} {r : List UInt8 × Int} (hle : fuel ≤ fuel')
    (h : parseDomainName p fuel pos = some r) : parseDomainName p fuel' pos = some r := by
  obtain ⟨s, hs, rfl⟩ := map_eq_some_iff.mp h
  rw [parseDomainName, Loop.run_mono hle hs, map_some]

theorem settles_name {name : List UInt8} (hname : ∀ l ∈ name.splitOn dot, l ≠ [] ∧ l.length ≤ 63)
    (h : Holds p pos (encodedName (name.splitOn dot))) :
    Settles (parseDomainName p) pos name (pos + (encodedName (name.splitOn dot)).length) := by
  obtain ⟨hn, hplain⟩ := name_of_holds hname h
  obtain ⟨fuel, hfuel⟩ := hn.parse_eq_iff.mpr ⟨_, hn.spells_iff.mpr (.inl hplain), rfl⟩
  rw [dropLast_dotted, intercalate_splitOn] at hfuel
  exact ⟨fuel, fun fuel' hle => parseDomainName_mono hle hfuel⟩

theorem parseUint16_of_holds {v : UInt16} (h : Holds p pos (putUint16 v)) :
    parseUint16 p pos = (v, pos + (putUint16 v).length) := by
  obtain ⟨h0, h⟩ := holds_cons.mp h
  obtain ⟨h1, -⟩ := holds_cons.mp h
  exact Prod.ext ((congrArg₂ Bits.join h0 h1).trans (Bits.join_split v)) rfl

theorem settles_uint16 {v : UInt16} (h : Holds p pos (putUint16 v)) :
    Settles (fun _ => MonadStateOf.modifyGet (parseUint16 p)) pos v (pos + (putUint16 v).length) :=
  .modifyGet (parseUint16_of_holds h)

theorem settles_uint32 {v : UInt32} (h : Holds p pos (putUint32 v)) :
    Settles (fun _ => MonadStateOf.modifyGet (parseUint32 p)) pos v
      (pos + (putUint32 v).length) := by
  simp only [putUint32, holds_cons] at h
  obtain ⟨h0, h1, h2, h3, -⟩ := h
  have hsplit := Bits.join32_split v
  rw [← h0, ← h1, ← h2, ← h3, show pos + 1 + 1 + 1 = pos + 3 by omega,
    show pos + 1 + 1 = pos + 2 by omega] at hsplit
  exact .modifyGet (Prod.ext hsplit rfl)

theorem settles_data {bs : List UInt8} {n : Nat} (hn : n = bs.length) (h : Holds p pos bs) :
    Settles (fun _ => MonadStateOf.modifyGet (parseData p n)) pos bs (pos + bs.length) := by
  subst hn
  exact .modifyGet (Prod.ext h rfl)

/-- The names of a record are labels of 1 to 63 bytes with dots between them. -/
def Question.Valid (q : Question) : Prop := ∀ l ∈ q.labels, l ≠ [] ∧ l.length ≤ 63
deriving Decidable

structure ResourceRecord.Valid (rr : ResourceRecord) : Prop where
  labels : ∀ l ∈ rr.labels, l ≠ [] ∧ l.length ≤ 63
  data : rr.rrLen.toNat = rr.rrData.length

theorem settles_question {q : Question} (hq : q.Valid) (h : Holds p pos q.encoded) :
    Settles (parseQuestion p) pos q (pos + q.encoded.length) := by
  obtain ⟨hname, h⟩ := holds_append.mp h
  obtain ⟨htype, hclass⟩ := holds_append.mp h
  have hend : pos + q.encoded.length = pos + (encodedName q.labels).length +
      (putUint16 q.qtype).length + (putUint16 q.qclass).length := by
    simp only [Question.encoded, length_append]
    omega
  rw [hend]
  exact (settles_name hq hname).bind <| (settles_uint16 htype).bind <|
    (settles_uint16 hclass).bind .pure

theorem settles_resourceRecord {rr : ResourceRecord} (hrr : rr.Valid) (h : Holds p pos rr.encoded) :
    Settles (parseResourceRecord p) pos rr (pos + rr.encoded.length) := by
  obtain ⟨hname, h⟩ := holds_append.mp h
  obtain ⟨h, hdata⟩ := holds_append.mp h
  obtain ⟨h, hlen⟩ := holds_append.mp h
  obtain ⟨h, httl⟩ := holds_append.mp h
  obtain ⟨htype, hclass⟩ := holds_append.mp h
  have hend : pos + rr.encoded.length = pos + (encodedName rr.labels).length +
      (putUint16 rr.rtype).length + (putUint16 rr.rclass).length + (putUint32 rr.ttl).length +
      (putUint16 rr.rrLen).length + rr.rrData.length := by
    simp only [encoded, length_append]
    omega
  rw [hend]
  simp only [length_append, Int.natCast_add, ← Int.add_assoc] at hclass httl hlen hdata
  exact (settles_name hrr.labels hname).bind <| (settles_uint16 htype).bind <|
    (settles_uint16 hclass).bind <| (settles_uint32 httl).bind <| (settles_uint16 hlen).bind <|
    (settles_data hrr.data hdata).bind .pure

/-- A loop parses records that stand one behind the other. -/
theorem settles_records {α : Type} {parse : Nat → Parser α} {encoded : α → List UInt8} {rs : List α}
    (hparse : ∀ r ∈ rs, ∀ pos, Holds p pos (encoded r) →
      Settles parse pos r (pos + (encoded r).length))
    (h : Holds p pos (rs.flatMap encoded)) :
    Settles (fun fuel => parseRecords (parse fuel) rs.length) pos rs
      (pos + (rs.flatMap encoded).length) := by
  induction rs generalizing pos with
  | nil => exact ⟨0, fun _ _ => by simp [parseRecords]; rfl⟩
  | cons r rs ih =>
    obtain ⟨hr, hrs⟩ := forall_mem_cons.mp hparse
    rw [flatMap_cons] at h ⊢
    obtain ⟨hfirst, hrest⟩ := holds_append.mp h
    have hend : pos + (encoded r ++ rs.flatMap encoded).length =
        pos + (encoded r).length + (rs.flatMap encoded).length := by
      simp only [length_append]
      omega
    rw [hend]
    exact (hr pos hfirst).bind ((ih hrs hrest).bind .pure)

end Records

/-! ## Headers -/

namespace Frame

/-- The flags in the first byte, as the setters leave them in a cleared header. -/
def flags (qr : Bool) (opcode : UInt8) (aa tc rd : Bool) : UInt8 :=
  Field.put ⟨maskQr, 0⟩ (Field.put ⟨maskQr, 1⟩ (Field.put ⟨maskQr, 2⟩
    (Field.put ⟨maskOpcode, 6⟩ (Field.put ⟨maskQr, 7⟩ 0 (bit qr)) opcode) (bit aa)) (bit tc))
    (bit rd)

/-- The flags in the second byte. -/
def flags' (ra z : Bool) (rcode : UInt8) : UInt8 :=
  Field.put ⟨maskRcode, 0⟩ (Field.put ⟨maskZ, 6⟩ (Field.put ⟨maskRa, 7⟩ 0 (bit ra)) (bit z)) rcode

/-- The setters behind `qr` and `opcode` clear the bit of `qr` again, and of the operation code
neither the setter nor the getter reaches more than one bit. -/
theorem get_flags {opcode : UInt8} (h : opcode.toNat < 16) (qr aa tc rd : Bool) :
    let v := flags qr opcode aa tc rd
    Field.get ⟨maskQr, 7⟩ v = 0 ∧ Field.get ⟨maskOpcode, 6⟩ v = opcode % 2 ∧
    Field.get ⟨maskAa, 2⟩ v = bit aa ∧ Field.get ⟨maskTc, 1⟩ v = bit tc ∧
    Field.get ⟨maskRd, 0⟩ v = bit rd := by
  obtain ⟨n, hn, rfl⟩ : ∃ n < 16, opcode = UInt8.ofNat n := ⟨_, h, UInt8.ofNat_toNat.symm⟩
  revert n qr aa tc rd
  decide

theorem get_flags' {rcode : UInt8} (h : rcode.toNat < 16) (ra z : Bool) :
    let v := flags' ra z rcode
    Field.get ⟨maskRa, 7⟩ v = bit ra ∧ Field.get ⟨maskZ, 6⟩ v = bit z ∧
    Field.get ⟨maskRcode, 0⟩ v = rcode := by
  obtain ⟨n, hn, rfl⟩ : ∃ n < 16, rcode = UInt8.ofNat n := ⟨_, h, UInt8.ofNat_toNat.symm⟩
  revert n ra z
  decide

theorem bit_ne_zero (b : Bool) : decide (bit b ≠ 0) = b := by
  cases b with
  | false => rfl
  | true => rfl

end Frame

section Header

attribute [local simp] Message.setHeader Frame.setTid Frame.setQr Frame.setOpcode Frame.setAa
  Frame.setTc Frame.setRd Frame.setRa Frame.setZ Frame.setRcode Frame.setNquery Frame.setNanswer
  Frame.setNauth Frame.setNadd

variable {m : Message} {fm : Frame}

@[simp] theorem Message.length_setHeader : (m.setHeader fm).length = fm.length := by simp

theorem flags_setHeader (hlen : 12 ≤ fm.length) (h2 : fm.hdr 2 = 0) :
    (m.setHeader fm).hdr 2 = flags m.qr m.opcode m.aa m.tc m.rd := by
  have hlt : 2 < fm.length := by omega
  simp [hdr_setUint16_of_ne, hdr_setField_of_ne, hdr_setField_self, hlt, h2, flags]

theorem flags'_setHeader (hlen : 12 ≤ fm.length) (h3 : fm.hdr 3 = 0) :
    (m.setHeader fm).hdr 3 = flags' m.ra m.z m.rcode := by
  have hlt : 3 < fm.length := by omega
  simp [hdr_setUint16_of_ne, hdr_setField_of_ne, hdr_setField_self, hlt, h3, flags']

theorem counters_setHeader (hlen : 12 ≤ fm.length) :
    (m.setHeader fm).tid = m.tid ∧ (m.setHeader fm).nquery = m.nquery ∧
    (m.setHeader fm).nanswer = m.nanswer ∧ (m.setHeader fm).nauth = m.nauth ∧
    (m.setHeader fm).nadd = m.nadd := by
  have h1 : 1 < fm.length := by omega
  have h5 : 5 < fm.length := by omega
  have h7 : 7 < fm.length := by omega
  have h9 : 9 < fm.length := by omega
  have h11 : 11 < fm.length := by omega
  refine ⟨?_, ?_, ?_, ?_, ?_⟩
  all_goals
    simp [tid, nquery, nanswer, nauth, nadd,
      uint16_setUint16_self, uint16_setUint16_of_ne, uint16_setField_of_ne, h1, h5,
      h7, h9, h11]

end Header

/-! ## Round trip -/

/-- The header fields that a message has in common with a frame. -/
structure Message.HeaderOf (m : Message) (fm : Frame) : Prop where
  tid : fm.tid = m.tid
  qr : fm.qr = false
  opcode : fm.opcode = m.opcode % 2
  aa : fm.aa = m.aa
  tc : fm.tc = m.tc
  rd : fm.rd = m.rd
  ra : fm.ra = m.ra
  z : fm.z = m.z
  rcode : fm.rcode = m.rcode
  nquery : fm.nquery = m.nquery
  nanswer : fm.nanswer = m.nanswer
  nauth : fm.nauth = m.nauth
  nadd : fm.nadd = m.nadd

namespace Message

/-- The counters are the sizes of the sections, and the records have names and data as they can be
written. -/
structure WellFormed (m : Message) : Prop where
  opcode : m.opcode.toNat < 16
  rcode : m.rcode.toNat < 16
  nquery : m.nquery.toNat = m.query.length
  nanswer : m.nanswer.toNat = m.answer.length
  nauth : m.nauth.toNat = m.auth.length
  nadd : m.nadd.toNat = m.add.length
  query : ∀ q ∈ m.query, q.Valid
  records : ∀ rr ∈ m.records, rr.Valid

/-- The message is written without leaving the buffer, and read back. -/
def RoundTrips (m : Message) : Prop :=
  ∃ fm, m.getFrame = some fm ∧ ∃ fuel, ofFrame fuel fm = some m

variable {m : Message} {fm : Frame}

theorem encoded_length (h : m.WellFormed) : m.encoded.length = m.counted + m.uncounted := by
  rw [encoded, length_append, length_flatMap_encoded fun q _ => q.encoded_length,
    length_flatMap_encoded fun rr hrr => rr.encoded_length (h.records rr hrr).data,
    counted, uncounted]
  omega

/-- The cleared buffer with the header in it. -/
def written (m : Message) : Frame := m.setHeader (newFrame (UInt16.ofNat m.counted))

/-- A frame: the header, the records and what is left of the buffer. -/
theorem getFrame_parts (hframe : m.getFrame = some fm) : ∃ hdr rest,
    hdr.length = 12 ∧ (∀ i < 12, Frame.hdr hdr i = m.written.hdr i) ∧ fm = hdr ++
    m.encoded ++ rest := by
  have hframe : (if 12 + m.encoded.length ≤ m.written.length then
      some (m.written.take 12 ++ m.encoded ++ m.written.drop (12 + m.encoded.length)) else none) =
      some fm := by
    rw [← hframe, getFrame, serialize_eq]
    rfl
  split at hframe
  · refine ⟨_, _, ?_, ?_, (some.inj hframe).symm⟩
    · rw [length_take]
      omega
    · intro i hi
      rw [hdr, getElem?_take_of_lt hi, hdr]
  · cases hframe

theorem hdr_getFrame (hframe : m.getFrame = some fm) {i : Nat} (hi : i < 12) :
    fm.hdr i = m.written.hdr i := by
  obtain ⟨hdr, rest, hlen, hhdr, rfl⟩ := getFrame_parts hframe
  rw [← hhdr i hi, Frame.hdr, append_assoc, getElem?_append_left (by omega), Frame.hdr]

/-- The header is that of the message, up to the flags that get lost. -/
theorem headerOf_getFrame (h : m.WellFormed) (hframe : m.getFrame = some fm) : m.HeaderOf fm := by
  have hhdr {i : Nat} (hi : i < 12) := hdr_getFrame hframe hi
  have hlen : 12 ≤ (newFrame (UInt16.ofNat m.counted)).length := by simp [newFrame]
  have hzero (i : Nat) : (newFrame (UInt16.ofNat m.counted)).hdr i = 0 := by
    rw [hdr, newFrame, getElem?_replicate]
    split
    · rfl
    · rfl
  have huint16 {i : Nat} (hi : i + 1 < 12) : fm.uint16 i = m.written.uint16 i := by
    rw [uint16, hhdr (by omega), hhdr hi, uint16]
  obtain ⟨htid, hquery, hanswer, hauth, hadd⟩ := counters_setHeader hlen
  have h2 := (hhdr (by decide)).trans (flags_setHeader hlen (hzero 2))
  have h3 := (hhdr (by decide)).trans (flags'_setHeader hlen (hzero 3))
  obtain ⟨hqr, hopcode, haa, htc, hrd⟩ := get_flags h.opcode m.qr m.aa m.tc m.rd
  obtain ⟨hra, hz, hrcode⟩ := get_flags' h.rcode m.ra m.z
  exact
    { tid := (huint16 (by decide)).trans htid
      qr := by simp [Frame.qr, Frame.getField, h2, hqr]
      opcode := by rw [Frame.opcode, Frame.getField, h2, hopcode]
      aa := by rw [Frame.aa, Frame.getField, h2, haa, Frame.bit_ne_zero]
      tc := by rw [Frame.tc, Frame.getField, h2, htc, Frame.bit_ne_zero]
      rd := by rw [Frame.rd, Frame.getField, h2, hrd, Frame.bit_ne_zero]
      ra := by rw [Frame.ra, Frame.getField, h3, hra, Frame.bit_ne_zero]
      z := by rw [Frame.z, Frame.getField, h3, hz, Frame.bit_ne_zero]
      rcode := by rw [Frame.rcode, Frame.getField, h3, hrcode]
      nquery := (huint16 (by decide)).trans hquery
      nanswer := (huint16 (by decide)).trans hanswer
      nauth := (huint16 (by decide)).trans hauth
      nadd := (huint16 (by decide)).trans hadd }

/-- What is not counted fits into the buffer exactly if it is not longer than a header and the
counter does not overflow. -/
theorem getFrame_eq_some (h : m.WellFormed) :
    (∃ fm, m.getFrame = some fm) ↔ m.uncounted ≤ 12 ∧ m.counted < 65536 := by
  rw [getFrame, serialize_eq]
  simp only [encoded_length h, length_setHeader, newFrame, length_replicate, UInt16.toNat_ofNat']
  split_ifs with hfits
  · refine iff_of_true ⟨_, rfl⟩ ?_
    omega
  · refine iff_of_false (by simp) ?_
    omega

theorem holds_getFrame (hframe : m.getFrame = some fm) : Holds (payload fm) 0 m.encoded := by
  obtain ⟨hdr, rest, hlen, -, rfl⟩ := getFrame_parts hframe
  exact holds_payload hlen

/-- With enough rounds for the names, the records of a message are read back. -/
theorem ofFrame_getFrame (h : m.WellFormed) (hframe : m.getFrame = some fm) :
    ∃ fuel, ofFrame fuel fm = some { m with qr := false, opcode := m.opcode % 2 } := by
  have hh := headerOf_getFrame h hframe
  have hholds := holds_getFrame hframe
  have hrecords := h.records
  simp only [encoded, records, flatMap_append, holds_append] at hholds
  simp only [records, forall_mem_append] at hrecords
  obtain ⟨hquery, ⟨hanswer, hauth⟩, hadd⟩ := hholds
  obtain ⟨⟨hvanswer, hvauth⟩, hvadd⟩ := hrecords
  simp only [length_append, Int.natCast_add, ← Int.add_assoc] at hadd
  have hmessage : ∃ pos, Settles (fun fuel => parseMessage fuel fm) 0
      { m with qr := false, opcode := m.opcode % 2 } pos := by
    simp only [parseMessage, hh.tid, hh.qr, hh.opcode, hh.aa, hh.tc, hh.rd, hh.ra, hh.z, hh.rcode,
      hh.nquery, hh.nanswer, hh.nauth, hh.nadd, h.nquery, h.nanswer, h.nauth, h.nadd]
    refine ⟨_, (settles_records ?_ hquery).bind <| (settles_records ?_ hanswer).bind <|
      (settles_records ?_ hauth).bind <| (settles_records ?_ hadd).bind .pure⟩
    · exact fun q hq pos => settles_question (h.query q hq)
    · exact fun rr hrr pos => settles_resourceRecord (hvanswer rr hrr)
    · exact fun rr hrr pos => settles_resourceRecord (hvauth rr hrr)
    · exact fun rr hrr pos => settles_resourceRecord (hvadd rr hrr)
  obtain ⟨pos, fuel, hfuel⟩ := hmessage
  have hread : parseMessage fuel fm 0 = some (_, pos) := hfuel fuel le_rfl
  refine ⟨fuel, ?_⟩
  rw [ofFrame, StateT.run'_eq, StateT.run, hread]
  rfl

theorem header_of_ofFrame {fuel : Nat} {m : Message} (h : ofFrame fuel fm = some m) :
    m.qr = fm.qr ∧ m.opcode = fm.opcode := by
  obtain ⟨⟨m', pos⟩, hr, rfl⟩ := map_eq_some_iff.mp h
  obtain ⟨_, -, hr⟩ := bind_eq_some_iff.mp hr
  obtain ⟨_, -, hr⟩ := bind_eq_some_iff.mp hr
  obtain ⟨_, -, hr⟩ := bind_eq_some_iff.mp hr
  obtain ⟨_, -, hr⟩ := bind_eq_some_iff.mp hr
  cases hr
  exact ⟨rfl, rfl⟩

end Message

/-- A well-formed message comes back from its frame exactly if it is a query, its operation code is
0 or 1, its labels and resource records are not more than twelve, and the bytes that are counted are
less than 2^16. -/
theorem message_frame_roundTrip_iff (m : Message) (h : m.WellFormed) :
    m.RoundTrips ↔ m.qr = false ∧ m.opcode.toNat < 2 ∧ m.uncounted ≤ 12 ∧ m.counted < 65536 := by
  constructor
  · rintro ⟨fm, hframe, fuel, hm⟩
    obtain ⟨hqr, hop⟩ := Message.header_of_ofFrame hm
    have hheader := Message.headerOf_getFrame h hframe
    refine ⟨hqr.trans hheader.qr, ?_, (Message.getFrame_eq_some h).mp ⟨fm, hframe⟩⟩
    have hmod := congrArg UInt8.toNat (hop.trans hheader.opcode)
    have : m.opcode.toNat % 2 < 2 := Nat.mod_lt _ (by decide)
    rw [hmod]
    exact this
  · rintro ⟨hqr, hop, hfits⟩
    obtain ⟨fm, hframe⟩ := (Message.getFrame_eq_some h).mpr hfits
    obtain ⟨fuel, hfuel⟩ := Message.ofFrame_getFrame h hframe
    refine ⟨fm, hframe, fuel, hfuel.trans ?_⟩
    have hmod : m.opcode % 2 = m.opcode := by
      rw [← UInt8.toNat_inj, UInt8.toNat_mod]
      exact Nat.mod_eq_of_lt hop
    rw [hmod, ← hqr]

/-- A query for the addresses of `a.b`. -/
def sampleQuery : Message :=
  { tid := 7, rd := true, nquery := 1
    query := [{ domain := [97, dot, 98], qtype := 1, qclass := 1 }] }

theorem sampleQuery_wellFormed : sampleQuery.WellFormed where
  opcode := by decide
  rcode := by decide
  nquery := rfl
  nanswer := rfl
  nauth := rfl
  nadd := rfl
  query := by decide
  records := by simp [sampleQuery, Message.records]

theorem message_frame_roundTrip_query : sampleQuery.RoundTrips :=
  (message_frame_roundTrip_iff sampleQuery sampleQuery_wellFormed).mpr
    ⟨rfl, by decide, by decide, by decide⟩

/-- A query for a name of thirteen labels. -/
def longQuery : Message :=
  { sampleQuery with
    query := [{ domain := intercalate [dot] (replicate 13 [97]), qtype := 1, qclass := 1 }] }

/-- A response is read back as a query, and a name of thirteen labels is copied beyond the
buffer. -/
theorem message_frame_not_roundTrip :
    ({ sampleQuery with qr := true }.WellFormed ∧ ¬ { sampleQuery with qr := true }.RoundTrips) ∧
    longQuery.WellFormed ∧ longQuery.getFrame = none := by
  have hresponse : { sampleQuery with qr := true }.WellFormed := { sampleQuery_wellFormed with }
  have hlong : longQuery.WellFormed := { sampleQuery_wellFormed with query := by decide }
  refine ⟨⟨hresponse, ?_⟩, hlong, ?_⟩
  · rintro ⟨fm, hframe, fuel, hm⟩
    have hqr := (Message.header_of_ofFrame hm).1.trans
      (Message.headerOf_getFrame hresponse hframe).qr
    cases hqr
  · rcases eq_none_or_eq_some longQuery.getFrame with h | h
    · exact h
    · exact absurd ((Message.getFrame_eq_some hlong).mp h) (by decide)

end Odtone.Dns
