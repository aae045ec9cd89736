import Odtone.Wire.RoundTrip

/-! # The value codec

The operators of `oarchive` on a buffer. The position is a 32-bit `uint`: a write that would end
behind `2^32` shrinks the buffer and goes beyond its end, and otherwise a value is appended as
`Ty.encode` has it (`Ty.put_eq_ok`).

What is written is read back, with anything behind it, exactly if the encoding is shorter than
`2^32` bytes and does not end with a length field of several bytes (`Ty.roundTrips_iff`). -/

namespace Odtone.Wire

open List Except

/-! ## Writing -/

/-- `_buf.resize(_pos + n)`, `n` writes from `_pos` on, and `_pos += n`. -/
def append (bs buf : Bytes) : Except Error Bytes :=
  if uint (buf.length + bs.length) < buf.length + bs.length then .error .outOfBounds
  else .ok (buf ++ bs)

/-- `oarchive::list_length(len)` -/
def writeListLength (len : Nat) (buf : Bytes) : Except Error Bytes := do
  let field ← putListLength len
  append field buf

namespace Ty

/-- `which()` -/
def which : (ts : List Ty) → AltVal ts → Nat
  | _ :: _, .inl _ => 0
  | _ :: ts, .inr v => which ts v + 1

mutual

/-- `oarchive::operator&` -/
def put : (t : Ty) → t.Val → Bytes → Except Error Bytes
  | .bool, v, buf => append [v.toUInt8] buf
  | .uint w, v, buf => append (lengthBytes v.toNat w.octets) buf
  | .sint w, v, buf => append (lengthBytes (toTwos v).toNat w.octets) buf
  | .octets, v, buf => do
      let len ← truncateUint (length v)
      let buf ← writeListLength len buf
      append v buf
  | .bitmap _, v, buf => v.toList.reverse.foldlM (fun buf b => append [b] buf) buf
  | .array _ t, v, buf => v.toList.foldlM (fun buf x => put t x buf) buf
  | .list t, v, buf => do
      let len ← truncateUint v.length
      let buf ← writeListLength len buf
      foldlM (fun buf x => put t x buf) buf v
  | .seq ts, v, buf => putSeq ts v buf
  | .variant t _, .inl v, buf => do
      let buf ← append [0] buf
      put t v buf
  | .variant _ ts, .inr v, buf => do
      let buf ← append [UInt8.ofNat (which ts v + 1)] buf
      putAlt ts v buf

def putSeq : (ts : List Ty) → SeqVal ts → Bytes → Except Error Bytes
  | [], _, buf => .ok buf
  | t :: ts, v, buf => do
      let buf ← put t v.1 buf
      putSeq ts v.2 buf

def putAlt : (ts : List Ty) → AltVal ts → Bytes → Except Error Bytes
  | t :: _, .inl v, buf => put t v buf
  | _ :: ts, .inr v, buf => putAlt ts v buf

end

end Ty

/-- A writer that appends what an encoder returns, as far as the position can go. -/
def Appends (write : Bytes → Except Error Bytes) (enc : Except Error Bytes) : Prop :=
  ∀ buf buf', buf.length < 2 ^ 32 →
    (write buf = .ok buf' ↔ ∃ bs, enc = .ok bs ∧ buf' = buf ++ bs ∧ buf'.length < 2 ^ 32)

namespace Appends

variable {f g : Bytes → Except Error Bytes} {x y : Except Error Bytes}

theorem append (bs : Bytes) : Appends (append bs) (.ok bs) := by
  intro buf buf' _
  have hwrap : uint (buf.length + bs.length) < buf.length + bs.length ↔
      ¬ (buf ++ bs).length < 2 ^ 32 := by
    rw [length_append, uint]
    omega
  rw [Wire.append]
  split_ifs with h
  · constructor
    · rintro ⟨⟩
    · rintro ⟨_, ⟨⟩, rfl, hlt⟩
      exact absurd hlt (hwrap.mp h)
  · constructor
    · rintro ⟨⟩
      exact ⟨bs, rfl, rfl, not_not.mp (hwrap.not.mp h)⟩
    · rintro ⟨_, ⟨⟩, rfl, -⟩
      rfl

theorem nil : Appends .ok (.ok []) := by
  intro buf buf' hbuf
  constructor
  · rintro ⟨⟩
    exact ⟨[], rfl, by simp, hbuf⟩
  · rintro ⟨_, ⟨⟩, rfl, -⟩
    simp

theorem bind (hf : Appends f x) (hg : Appends g y) : Appends (fun buf => f buf >>= g) (do
    let a ← x
    let b ← y
    return a ++ b) := by
  intro buf buf' hbuf
  simp only [bind_eq_ok]
  constructor
  · rintro ⟨mid, hmid, hend⟩
    obtain ⟨a, rfl, rfl, hlt⟩ := (hf buf mid hbuf).mp hmid
    obtain ⟨b, rfl, rfl, hlt'⟩ := (hg _ buf' hlt).mp hend
    exact ⟨a ++ b, ⟨a, rfl, b, rfl, rfl⟩, append_assoc _ _ _, hlt'⟩
  · rintro ⟨_, ⟨a, rfl, b, rfl, ⟨⟩⟩, rfl, hlt⟩
    have hmid : (buf ++ a).length < 2 ^ 32 := by
      simp only [length_append] at hlt ⊢
      omega
    refine ⟨buf ++ a, (hf buf _ hbuf).mpr ⟨a, rfl, rfl, hmid⟩, ?_⟩
    exact (hg _ _ hmid).mpr ⟨b, rfl, (append_assoc _ _ _).symm, hlt⟩

variable {α : Type}

/-- What is computed before anything is written. -/
theorem bind_left {z : Except Error α} {f : α → Bytes → Except Error Bytes}
    {x : α → Except Error Bytes} (h : ∀ a, Appends (f a) (x a)) :
    Appends (fun buf => z >>= fun a => f a buf) (z >>= x) := by
  intro buf buf' hbuf
  cases z with
  | error e => simp [Bind.bind, Except.bind]
  | ok a => exact h a buf buf' hbuf

theorem foldlM {f : α → Bytes → Except Error Bytes} {x : α → Except Error Bytes} (vs : List α)
    (h : ∀ v ∈ vs, Appends (f v) (x v)) :
    Appends (fun buf => vs.foldlM (fun buf v => f v buf) buf) (do
      let parts ← vs.mapM x
      return parts.flatten) := by
  induction vs with
  | nil => exact nil
  | cons v vs ih =>
    obtain ⟨hv, hvs⟩ := forall_mem_cons.mp h
    have hcons := hv.bind (ih hvs)
    simp only [foldlM_cons, mapM_cons]
    simpa using hcons

end Appends

theorem writeListLength_appends (len : Nat) :
    Appends (writeListLength len) (putListLength len) := by
  have h := Appends.bind_left (z := putListLength len) Appends.append
  rwa [show putListLength len >>= ok = putListLength len from bind_pure _] at h

namespace Ty

theorem encodeAlt_which {ts : List Ty} {v : AltVal ts} {i : Nat} {enc : Bytes}
    (h : encodeAlt ts v = .ok (i, enc)) : i = which ts v := by
  induction ts generalizing i with
  | nil => cases v
  | cons t ts ih =>
    cases v with
    | inl v =>
      obtain ⟨x, -, h⟩ := bind_eq_ok.mp h
      cases h
      rfl
    | inr v =>
      obtain ⟨⟨j, x⟩, hx, h⟩ := bind_eq_ok.mp h
      cases h
      exact congrArg (· + 1) (ih hx)

mutual

theorem put_appends : ∀ (t : Ty) (v : t.Val), Appends (t.put v) (t.encode v)
  | .bool, _ => .append _
  | .uint _, _ => .append _
  | .sint _, _ => .append _
  | .octets, v => .bind_left fun len => (writeListLength_appends len).bind (.append v)
  | .bitmap n, v => by
    have h := Appends.foldlM (List.Vector.toList v).reverse fun b _ => .append [b]
    have hbytes : ∀ bs : Bytes, (do
        let parts ← bs.mapM fun b => (.ok [b] : Except Error Bytes)
        return parts.flatten) = ok bs := by
      intro bs
      rw [show (fun b : UInt8 => (.ok [b] : Except Error Bytes)) = fun b => pure [b] from rfl,
        mapM_pure, pure_bind, ← flatMap_def, flatMap_singleton']
      rfl
    rwa [hbytes] at h
  | .array _ t, v => .foldlM v.toList fun x _ => put_appends t x
  | .list t, v => by
    have h := Appends.bind_left (z := truncateUint (length v)) fun len =>
      (writeListLength_appends len).bind (.foldlM v fun x _ => put_appends t x)
    simp only [bind_assoc, pure_bind] at h
    exact h
  | .seq ts, v => putSeq_appends ts v
  | .variant t _, .inl v => (Appends.append [0]).bind (put_appends t v)
  | .variant t ts, .inr v => by
    have h := (Appends.append [UInt8.ofNat (which ts v + 1)]).bind (putAlt_appends ts v)
    have henc : encode (.variant t ts) (.inr v) = (do
        let a ← .ok [UInt8.ofNat (which ts v + 1)]
        let b ← (encodeAlt ts v).map Prod.snd
        return a ++ b) := by
      cases hv : encodeAlt ts v with
      | error e => simp [encode, hv, Except.map, bind, Except.bind]
      | ok r => simp [encode, hv, Except.map, bind, Except.bind, encodeAlt_which hv]
    rw [henc]
    exact h

theorem putSeq_appends : ∀ (ts : List Ty) (v : SeqVal ts), Appends (putSeq ts v) (encodeSeq ts v)
  | [], _ => .nil
  | t :: ts, v => (put_appends t v.1).bind (putSeq_appends ts v.2)

theorem putAlt_appends : ∀ (ts : List Ty) (v : AltVal ts),
    Appends (putAlt ts v) ((encodeAlt ts v).map Prod.snd)
  | t :: ts, .inl v => by
    have henc : (encodeAlt (t :: ts) (.inl v)).map Prod.snd = encode t v := by
      cases hv : encode t v <;>
        simp [encodeAlt, hv, Except.map, bind, Except.bind, pure, Except.pure]
    exact (congrArg (Appends (put t v)) henc).mpr (put_appends t v)
  | t :: ts, .inr v => by
    have henc : (encodeAlt (t :: ts) (.inr v)).map Prod.snd = (encodeAlt ts v).map Prod.snd := by
      cases hv : encodeAlt ts v <;>
        simp [encodeAlt, hv, Except.map, bind, Except.bind, pure, Except.pure]
    exact (congrArg (Appends (putAlt ts v)) henc).mpr (putAlt_appends ts v)

end

/-! ## Sizes -/

mutual

/-- The number of bytes of a value. -/
def size : (t : Ty) → t.Val → Nat
  | .bool, _ => 1
  | .uint w, _ => w.octets
  | .sint w, _ => w.octets
  | .octets, v => (lengthField (length v)).length + length v
  | .bitmap n, _ => n
  | .array _ t, v => (v.toList.map (size t)).sum
  | .list t, v => (lengthField v.length).length + (map (size t) v).sum
  | .seq ts, v => sizeSeq ts v
  | .variant t _, .inl v => 1 + size t v
  | .variant _ ts, .inr v => 1 + sizeAlt ts v

def sizeSeq : (ts : List Ty) → SeqVal ts → Nat
  | [], _ => 0
  | t :: ts, v => size t v.1 + sizeSeq ts v.2

def sizeAlt : (ts : List Ty) → AltVal ts → Nat
  | t :: _, .inl v => size t v
  | _ :: ts, .inr v => sizeAlt ts v

end

theorem mapM_size {f : α → Except Error Bytes} {k : α → Nat} (vs : List α)
    (h : ∀ v ∈ vs, ∃ enc, f v = .ok enc ∧ enc.length = k v) :
    ∃ encs, vs.mapM f = .ok encs ∧ encs.flatten.length = (vs.map k).sum := by
  induction vs with
  | nil => exact ⟨[], rfl, rfl⟩
  | cons v vs ih =>
    obtain ⟨⟨enc, henc, hlen⟩, hvs⟩ := forall_mem_cons.mp h
    obtain ⟨encs, hencs, hlens⟩ := ih hvs
    refine ⟨enc :: encs, ?_, by simp [hlen, hlens]⟩
    rw [mapM_cons, henc, hencs]
    rfl

section Sizes

variable {b : Nat} (hle : b ≤ 128 + 2 ^ 16)

include hle

-- the bound is used through the recursion
set_option linter.unusedSectionVars false in
mutual

/-- Values whose lengths are in the range of the length codec are encoded. -/
theorem encode_size : ∀ (t : Ty) (v : t.Val), t.LengthsBelow b v →
    ∃ enc, t.encode v = .ok enc ∧ enc.length = t.size v
  | .bool, v, _ => ⟨_, rfl, rfl⟩
  | .uint w, v, _ | .sint w, v, _ => ⟨_, rfl, lengthBytes_length _ _⟩
  | .octets, v, hb => ⟨_, putOctetString_eq (hb.trans_le hle), length_append⟩
  | .bitmap n, v, _ => by
    have hlen : (List.Vector.toList v).length = n := List.Vector.toList_length _
    exact ⟨_, rfl, by rw [length_reverse, hlen]; rfl⟩
  | .array n t, v, hb => by
    obtain ⟨encs, hencs, hlen⟩ := mapM_size
      (List.Vector.toList v) fun x hx => encode_size t x (List.forall_iff_forall_mem.mp hb x hx)
    refine ⟨encs.flatten, ?_, hlen⟩
    rw [encode, hencs]
    rfl
  | .list t, v, hb => by
    obtain ⟨encs, hencs, hlen⟩ := mapM_size v
      fun x hx => encode_size t x (forall_iff_forall_mem.mp hb.2 x hx)
    have hcount : length v < 128 + 2 ^ 16 := hb.1.trans_le hle
    have htrunc : truncateUint (length v) = .ok (length v) := if_pos (by omega)
    refine ⟨lengthField (length v) ++ encs.flatten, ?_, ?_⟩
    · simp only [encode, htrunc, putListLength_eq hcount, hencs, bind, Except.bind,
        pure, Except.pure]
    · rw [length_append, hlen, size]
  | .seq ts, v, hb => encodeSeq_size ts v hb
  | .variant t ts, .inl v, hb => by
    obtain ⟨enc, henc, hlen⟩ := encode_size t v hb
    refine ⟨0 :: enc, ?_, ?_⟩
    · simp only [encode, henc, bind, Except.bind, pure, Except.pure]
    · rw [length_cons, hlen, size, Nat.add_comm]
  | .variant t ts, .inr v, hb => by
    obtain ⟨i, enc, henc, hlen⟩ := encodeAlt_size ts v hb
    refine ⟨UInt8.ofNat (i + 1) :: enc, ?_, ?_⟩
    · simp only [encode, henc, bind, Except.bind, pure, Except.pure]
    · rw [length_cons, hlen, size, Nat.add_comm]

theorem encodeSeq_size : ∀ (ts : List Ty) (v : SeqVal ts), LengthsBelowSeq b ts v →
    ∃ enc, encodeSeq ts v = .ok enc ∧ enc.length = sizeSeq ts v
  | [], v, _ => ⟨[], rfl, rfl⟩
  | t :: ts, v, hb => by
    obtain ⟨x, hx, hxlen⟩ := encode_size t v.1 hb.1
    obtain ⟨y, hy, hylen⟩ := encodeSeq_size ts v.2 hb.2
    refine ⟨x ++ y, ?_, ?_⟩
    · simp only [encodeSeq, hx, hy, bind, Except.bind, pure, Except.pure]
    · rw [length_append, hxlen, hylen, sizeSeq]

theorem encodeAlt_size : ∀ (ts : List Ty) (v : AltVal ts), LengthsBelowAlt b ts v →
    ∃ i enc, encodeAlt ts v = .ok (i, enc) ∧ enc.length = sizeAlt ts v
  | t :: ts, .inl v, hb => by
    obtain ⟨enc, henc, hlen⟩ := encode_size t v hb
    refine ⟨0, enc, ?_, hlen⟩
    simp only [encodeAlt, henc, bind, Except.bind, pure, Except.pure]
  | t :: ts, .inr v, hb => by
    obtain ⟨i, enc, henc, hlen⟩ := encodeAlt_size ts v hb
    refine ⟨i + 1, enc, ?_, hlen⟩
    simp only [encodeAlt, henc, bind, Except.bind, pure, Except.pure]

end

end Sizes

/-! ## Round trips -/

/-- What an archive writes for the value is read back, with anything behind it and into a variable
with any content. -/
def RoundTrips (t : Ty) (v : t.Val) : Prop :=
  ∃ enc, t.put v [] = .ok enc ∧
    ∀ post old, t.decode old ⟨enc ++ post, 0⟩ = .ok v ⟨enc ++ post, enc.length⟩

/-- A value whose strings and lists have at most 65535 elements goes through the archives exactly if
it has less than `2^32` bytes and does not end with a length field of several bytes. -/
theorem roundTrips_iff (t : Ty) (v : t.Val) (hn : t.Narrow = true) (hb : t.LengthsBelow 65536 v) :
    t.RoundTrips v ↔ t.size v < 2 ^ 32 ∧ t.OpenEnded v = false := by
  have hle : 65536 ≤ 128 + 2 ^ 16 := by decide
  obtain ⟨enc, henc, hlen⟩ := encode_size hle t v hb
  have hput : ∀ enc', t.put v [] = .ok enc' ↔ enc' = enc ∧ t.size v < 2 ^ 32 := by
    intro enc'
    rw [put_appends t v [] enc' (by decide), henc, ← hlen]
    constructor
    · rintro ⟨_, ⟨⟩, rfl, hlt⟩
      exact ⟨rfl, hlt⟩
    · rintro ⟨rfl, hlt⟩
      exact ⟨_, rfl, rfl, hlt⟩
  constructor
  · rintro ⟨enc', hwrite, hread⟩
    obtain ⟨rfl, hlt⟩ := (hput enc').mp hwrite
    refine ⟨hlt, ?_⟩
    by_contra hopen
    have hrej := (decode_reads hle t v v hn hb henc).rejects (by simpa using hopen)
    obtain ⟨e, c, he⟩ := hrej [] (by simpa [hlen] using hlt)
    have hok := hread [] v
    rw [append_nil] at hok
    cases hok.symm.trans he
  · rintro ⟨hlt, hopen⟩
    refine ⟨enc, (hput enc).mpr ⟨rfl, hlt⟩, fun post old => ?_⟩
    exact (decode_reads hle t v old hn hb henc).reads.run post (by omega) (by simp [hopen])

/-- A number, a list and a string. -/
theorem roundTrips_record :
    RoundTrips (.seq [.uint .two, .list .bool, .octets]) (258#16, [true, false], [1, 2, 3], ()) :=
  (roundTrips_iff (.seq [.uint .two, .list .bool, .octets])
    (258#16, [true, false], [1, 2, 3], ()) rfl
    ⟨trivial, ⟨by decide, trivial, trivial⟩, (by decide : 3 < 65536), trivial⟩).mpr ⟨by decide, rfl⟩

/-- A list of 129 empty sequences, whose length field is all there is. -/
theorem not_roundTrips_empty_elements :
    Narrow (.list (.seq [])) = true ∧ LengthsBelow 65536 (.list (.seq [])) (replicate 129 ()) ∧
      ¬ RoundTrips (.list (.seq [])) (replicate 129 ()) := by
  have hwrite : put (.list (.seq [])) (replicate 129 ()) [] = .ok [0x81, 1] := by decide +kernel
  refine ⟨rfl, ⟨length_replicate.trans_lt (by decide), ?_⟩, ?_⟩
  · exact forall_iff_forall_mem.mpr fun _ _ => trivial
  · rintro ⟨enc, hput, hread⟩
    cases hwrite.symm.trans hput
    cases (show decode (.list (.seq [])) [] ⟨[0x81, 1], 0⟩ = .error .eof ⟨[0x81, 1], 0⟩
      from rfl).symm.trans (hread [] [])

end Ty

end Odtone.Wire
