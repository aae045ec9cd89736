import Odtone.Dns.RoundTrip

/-! # NAPTR and SRV records

`parse_naptr_record` and `parse_srv_record` are given the data of a resource record, which
`message::operator=` has cut out of the message. The name at its end may have pointers, which count
from the start of the message; the parser takes them for positions in the record data. What it finds
there has nothing to do with the name, and may be outside of the data. The service of a NAPTR record
is lost in any case, because its constructor assigns the member to itself.
-/

namespace Odtone.Dns

open List Option

structure NaptrRecord where
  order : UInt16
  preference : UInt16
  flags : List UInt8
  service : List UInt8
  regex : List UInt8
  replacement : List UInt8
deriving DecidableEq

structure SrvRecord where
  priority : UInt16
  weight : UInt16
  port : UInt16
  target : List UInt8
deriving DecidableEq

/-- `parse_string`: a length and so many bytes. -/
def parseString (p : Int → UInt8) (pos : Int) : List UInt8 × Int :=
  (bytesAt p (pos + 1) (p pos).toNat, pos + 1 + (p pos).toNat)

/-- `naptr_record::naptr_record`, with `_service = _service`. -/
def naptrRecord (order preference : UInt16) (flags _service regex replacement : List UInt8) :
    NaptrRecord :=
  { order, preference, flags, service := [], regex, replacement }

section Parse

variable (p : Int → UInt8) (fuel : Nat)

def parseNaptrRecord : Parser NaptrRecord := do
  let order ← modifyGet (parseUint16 p)
  let preference ← modifyGet (parseUint16 p)
  let flags ← modifyGet (parseString p)
  let service ← modifyGet (parseString p)
  let regex ← modifyGet (parseString p)
  let replacement ← parseDomainName p fuel
  pure (naptrRecord order preference flags service regex replacement)

def parseSrvRecord : Parser SrvRecord := do
  let priority ← modifyGet (parseUint16 p)
  let weight ← modifyGet (parseUint16 p)
  let port ← modifyGet (parseUint16 p)
  let target ← parseDomainName p fuel
  pure { priority, weight, port, target }

end Parse

/-- Applied to the data of a record, a parser returns `a`, whatever else is in memory. -/
def ParsesTo {α : Type} (parse : (Int → UInt8) → Nat → Parser α) (data : List UInt8)
    (a : α) : Prop :=
  ∀ p, Holds p 0 data → ∃ fuel pos, parse p fuel 0 = some (a, pos)

/-! ## Names in record data -/

def encodedLabels (ls : List (List UInt8)) : List UInt8 :=
  ls.flatMap fun l => UInt8.ofNat l.length :: l

/-- The position a pointer of the two bytes leads to. -/
def pointerTarget (a b : UInt8) : Int := (Bits.join a b &&& 0x3fff).toNat - 12

/-- What the parser spells at the target of a pointer. -/
def SpellsAt (p : Int → UInt8) (g : Int) (x : List UInt8) : Prop :=
  ∃ y, x = bytesAt p (g + 1) (p g).toNat ++ dot :: y ∧ Spells p (g + (p g).toNat + 1) y

/-- The name behind the first `k` bytes of the data has no pointer. -/
def Uncompressed (data : List UInt8) (k : Nat) (ls : List (List UInt8)) : Prop :=
  data.drop k = encodedName ls

/-- The name behind the first `k` bytes of the data ends with a pointer, and the bytes of the data
at the position it names happen to spell the rest of the name (or a lone dot for the empty name). -/
def Coincides (data : List UInt8) (k : Nat) (ls : List (List UInt8)) : Prop :=
  ∃ ls₁ ls₂ a b, ls = ls₁ ++ ls₂ ∧ data.drop k = encodedLabels ls₁ ++ [a, b] ∧ 192 ≤ a.toNat ∧
    ∀ p, Holds p 0 data → SpellsAt p (pointerTarget a b) (dotted ls₂) ∨
      ls = [] ∧ SpellsAt p (pointerTarget a b) [dot]

section Names

variable {p q : Int → UInt8} {i j e : Int} {ls ls₁ ls₂ : List (List UInt8)} {x y : List UInt8}

theorem spellsAt_iff (hp : 192 ≤ (p i).toNat) : Spells p i x ↔ SpellsAt p (target p i) x := by
  constructor
  · exact fun h => h.of_pointer hp
  · rintro ⟨y, rfl, hy⟩
    exact .pointer hp hy

theorem encodedName_eq (ls : List (List UInt8)) : encodedName ls = encodedLabels ls ++ [0] := rfl

@[simp] theorem dotted_append : dotted (ls₁ ++ ls₂) = dotted ls₁ ++ dotted ls₂ :=
  flatMap_append

/-- Labels of 1 to 63 bytes are spelled as they are. -/
theorem spells_labels (hls : ∀ l ∈ ls, l ≠ [] ∧ l.length ≤ 63) (h : Holds p i (encodedLabels ls)) :
    Spells p i x ↔ ∃ y, x = dotted ls ++ y ∧ Spells p (i + (encodedLabels ls).length) y := by
  induction ls generalizing i x with
  | nil => simp [encodedLabels]
  | cons l ls ih =>
    obtain ⟨⟨hne, hle⟩, hls⟩ := forall_mem_cons.mp hls
    have hcons : encodedLabels (l :: ls) = UInt8.ofNat l.length :: (l ++ encodedLabels ls) := by
      simp [encodedLabels]
    obtain ⟨hpos, hlen, hbytes, hrest⟩ := holds_label hne hle (hcons ▸ h)
    have hend : i + ((encodedLabels (l :: ls)).length : Int) =
        i + (p i).toNat + 1 + (encodedLabels ls).length := by
      rw [hcons]
      simp only [length_cons, length_append]
      omega
    rw [hend]
    constructor
    · intro hs
      obtain ⟨y, rfl, hy⟩ := hs.of_label hpos (by omega)
      obtain ⟨z, rfl, hz⟩ := (ih hls hrest).mp hy
      exact ⟨z, by rw [hbytes]; simp, hz⟩
    · rintro ⟨z, rfl, hz⟩
      have hs := Spells.label hpos (by omega) ((ih hls hrest).mpr ⟨z, rfl, hz⟩)
      rw [hbytes] at hs
      simpa using hs

/-- The bytes of a name: its labels up to the terminator or to a pointer, which ends it. -/
theorem Name.shape (h : Name q j ls e) :
    (Holds q j (encodedName ls) ∧ e = j + (encodedName ls).length) ∨
      ∃ ls₁ ls₂ a b, ls = ls₁ ++ ls₂ ∧ Holds q j (encodedLabels ls₁ ++ [a, b]) ∧ 192 ≤ a.toNat ∧
        e = j + (encodedLabels ls₁ ++ [a, b]).length := by
  induction h with
  | @root i h =>
    refine .inl ⟨?_, by simp [encodedName]⟩
    simpa [encodedName, Holds, bytesAt] using h
  | @pointer i e ls hp hlt h ih =>
    refine .inr ⟨[], ls, q i, q (i + 1), rfl, ?_, hp, by simp [encodedLabels]⟩
    simp [encodedLabels, Holds, bytesAt, range_succ]
  | @label i e ls hne hle h ih =>
    have hnext : i + ((q i).toNat : Int) + 1 = i + 1 + (bytesAt q (i + 1) (q i).toNat).length := by
      rw [bytesAt_length]
      omega
    -- a label in front of the bytes of the rest
    have hcons : ∀ {bs : List UInt8}, Holds q (i + (q i).toNat + 1) bs →
        Holds q i (UInt8.ofNat (bytesAt q (i + 1) (q i).toNat).length ::
          (bytesAt q (i + 1) (q i).toNat ++ bs)) := by
      intro bs hbs
      rw [holds_cons, holds_append, ← hnext]
      refine ⟨?_, ?_, hbs⟩
      · rw [bytesAt_length, UInt8.ofNat_toNat]
      · rw [Holds, bytesAt_length]
    rcases ih with ⟨hbs, he⟩ | ⟨ls₁, ls₂, a, b, rfl, hbs, ha, he⟩
    · refine .inl ⟨?_, ?_⟩
      · simpa [encodedName] using hcons hbs
      · rw [he, hnext]
        simp [encodedName]
        omega
    · refine .inr ⟨_ :: ls₁, ls₂, a, b, rfl, ?_, ha, ?_⟩
      · simpa [encodedLabels] using hcons hbs
      · rw [he, hnext]
        simp [encodedLabels]
        omega

theorem Name.labels (h : Name q j ls e) : ∀ l ∈ ls, l ≠ [] ∧ l.length ≤ 63 := by
  induction h with
  | root h => simp
  | pointer hp hlt h ih => exact ih
  | @label i e ls hne hle h ih =>
    refine forall_mem_cons.mpr ⟨⟨?_, ?_⟩, ih⟩
    · exact (Name.label hne hle h).ne_nil_of_mem _ mem_cons_self
    · rwa [bytesAt_length]

theorem spells_encodedName (hls : ∀ l ∈ ls, l ≠ [] ∧ l.length ≤ 63)
    (h : Holds p i (encodedName ls)) : Spells p i (dotted ls) := by
  rw [encodedName_eq, holds_append] at h
  have hzero : p (i + (encodedLabels ls).length) = 0 := by simpa [Holds, bytesAt] using h.2
  exact (spells_labels hls h.1).mpr ⟨[], by simp, .stop hzero⟩

theorem spells_pointer {a b : UInt8} (hls : ∀ l ∈ ls, l ≠ [] ∧ l.length ≤ 63)
    (h : Holds p i (encodedLabels ls ++ [a, b])) (ha : 192 ≤ a.toNat) :
    Spells p i x ↔ ∃ y, x = dotted ls ++ y ∧ SpellsAt p (pointerTarget a b) y := by
  obtain ⟨hlabels, hptr⟩ := holds_append.mp h
  obtain ⟨hfst, hsnd⟩ := holds_cons.mp hptr
  replace hsnd := (holds_cons.mp hsnd).1
  have hgoal : target p (i + (encodedLabels ls).length) = pointerTarget a b := by
    rw [target, parseUint16, hfst, hsnd, pointerTarget]
  simp only [spells_labels hls hlabels, spellsAt_iff (hfst ▸ ha), hgoal]

end Names

section Data

variable {q : Int → UInt8} {i : Int} {n k : Nat} {ls : List (List UInt8)} {data : List UInt8}

theorem holds_drop {p : Int → UInt8} (h : Holds p 0 data) (hk : k ≤ data.length) :
    Holds p k (data.drop k) := by
  rw [← take_append_drop k data, holds_append] at h
  simpa [hk] using h.2

theorem drop_of_holds {bs : List UInt8} (h : Holds q (i + k) bs) (hn : n = k + bs.length) :
    (bytesAt q i n).drop k = bs := by
  rw [hn, bytesAt_add, drop_append_of_le_length (bytesAt_length _ _).ge,
    drop_of_length_le (bytesAt_length _ _).le, nil_append]
  exact h

/-- The name at the end of record data that was cut out of a message. -/
theorem Name.parses_iff (hk : k ≤ n) (h : Name q (i + k) ls (i + n)) :
    (∀ p, Holds p 0 (bytesAt q i n) →
      ∃ fuel pos, parseDomainName p fuel k = some (intercalate [dot] ls, pos)) ↔
      Uncompressed (bytesAt q i n) k ls ∨ Coincides (bytesAt q i n) k ls := by
  have hlen : k ≤ (bytesAt q i n).length := by rwa [bytesAt_length]
  simp only [parseDomainName_iff, ← dropLast_dotted]
  constructor
  · intro hparse
    rcases h.shape with ⟨hbs, he⟩ | ⟨ls₁, ls₂, a, b, rfl, hbs, ha, he⟩
    · exact .inl (drop_of_holds hbs (by omega))
    · have hdrop : (bytesAt q i n).drop k = _ := drop_of_holds hbs (by omega)
      refine .inr ⟨ls₁, ls₂, a, b, rfl, hdrop, ha, fun p hp => ?_⟩
      have hown : Holds p k (encodedLabels ls₁ ++ [a, b]) := hdrop ▸ holds_drop hp hlen
      have hls₁ : ∀ l ∈ ls₁, l ≠ [] ∧ l.length ≤ 63 := fun l hl =>
        h.labels l (mem_append_left _ hl)
      obtain ⟨x, hs, hname⟩ := hparse p hp
      obtain ⟨y, hxy, hy⟩ := (spells_pointer hls₁ hown ha).mp hs
      rcases (h.dropLast_eq_iff hs.ends).mp hname.symm with hx | ⟨hx, hnil⟩
      · rw [hxy, dotted_append] at hx
        exact .inl (append_cancel_left hx ▸ hy)
      · obtain rfl : ls₁ = [] := (append_eq_nil_iff.mp hnil).1
        rw [hxy, dotted_nil, nil_append] at hx
        exact .inr ⟨hnil, hx ▸ hy⟩
  · rintro (hdrop | ⟨ls₁, ls₂, a, b, rfl, hdrop, ha, hspells⟩) p hp
    · exact ⟨_, spells_encodedName h.labels (hdrop ▸ holds_drop hp hlen), rfl⟩
    · have hown : Holds p k (encodedLabels ls₁ ++ [a, b]) := hdrop ▸ holds_drop hp hlen
      have hls₁ : ∀ l ∈ ls₁, l ≠ [] ∧ l.length ≤ 63 := fun l hl =>
        h.labels l (mem_append_left _ hl)
      rcases hspells p hp with hy | ⟨hnil, hy⟩
      · exact ⟨_, (spells_pointer hls₁ hown ha).mpr ⟨_, rfl, hy⟩, by rw [dotted_append]⟩
      · refine ⟨_, (spells_pointer hls₁ hown ha).mpr ⟨_, rfl, hy⟩, ?_⟩
        rw [hnil, (append_eq_nil_iff.mp hnil).1]
        rfl

end Data

/-! ## Records in a message -/

/-- `<character-string>` -/
def encodedString (s : List UInt8) : List UInt8 := UInt8.ofNat s.length :: s

/-- The data of a NAPTR record in front of the replacement. -/
def NaptrRecord.fields (r : NaptrRecord) : List UInt8 :=
  putUint16 r.order ++ (putUint16 r.preference ++ (encodedString r.flags ++
    (encodedString r.service ++ encodedString r.regex)))

/-- The data of an SRV record in front of the target. -/
def SrvRecord.fields (r : SrvRecord) : List UInt8 :=
  putUint16 r.priority ++ (putUint16 r.weight ++ putUint16 r.port)

/-- The bytes from position `i` to `e` of a message encode `r`, whose replacement has the labels
`ls`. -/
structure NaptrRecord.At (p : Int → UInt8) (i e : Int) (r : NaptrRecord) (ls : List (List UInt8)) :
    Prop where
  fields : Holds p i r.fields
  strings : r.flags.length < 256 ∧ r.service.length < 256 ∧ r.regex.length < 256
  name : Name p (i + r.fields.length) ls e
  replacement : r.replacement = intercalate [dot] ls

/-- The bytes from position `i` to `e` of a message encode `r`, whose target has the labels `ls`. -/
structure SrvRecord.At (p : Int → UInt8) (i e : Int) (r : SrvRecord) (ls : List (List UInt8)) :
    Prop where
  fields : Holds p i r.fields
  name : Name p (i + r.fields.length) ls e
  target : r.target = intercalate [dot] ls

section Records

variable {p : Int → UInt8} {fuel : Nat} {pos : Int}

theorem parseString_of_holds {s : List UInt8} (hs : s.length < 256)
    (h : Holds p pos (encodedString s)) :
    parseString p pos = (s, pos + (encodedString s).length) := by
  obtain ⟨hlen, hbytes⟩ := holds_cons.mp h
  have hn : (p pos).toNat = s.length := by
    rw [hlen, UInt8.toNat_ofNat', Nat.mod_eq_of_lt hs]
  rw [parseString, hn]
  refine Prod.ext hbytes ?_
  simp only [encodedString, length_cons]
  omega

theorem modifyGet_bind {α β : Type} {f : Int → α × Int} {g : α → Parser β} {a : α} {pos' : Int}
    (h : f pos = (a, pos')) : (modifyGet f >>= g : Parser β) pos = g a pos' := by
  change g (f pos).1 (f pos).2 = _
  rw [h]

theorem parseNaptrRecord_of_holds {r : NaptrRecord} (h : Holds p pos r.fields)
    (hs : r.flags.length < 256 ∧ r.service.length < 256 ∧ r.regex.length < 256) :
    parseNaptrRecord p fuel pos = (parseDomainName p fuel (pos + r.fields.length)).map fun x =>
      (naptrRecord r.order r.preference r.flags r.service r.regex x.1, x.2) := by
  obtain ⟨horder, h⟩ := holds_append.mp h
  obtain ⟨hpreference, h⟩ := holds_append.mp h
  obtain ⟨hflags, h⟩ := holds_append.mp h
  obtain ⟨hservice, hregex⟩ := holds_append.mp h
  rw [parseNaptrRecord, modifyGet_bind (parseUint16_of_holds horder),
    modifyGet_bind (parseUint16_of_holds hpreference),
    modifyGet_bind (parseString_of_holds hs.1 hflags),
    modifyGet_bind (parseString_of_holds hs.2.1 hservice),
    modifyGet_bind (parseString_of_holds hs.2.2 hregex), map_eq_bind]
  simp only [NaptrRecord.fields, length_append, Int.natCast_add, ← Int.add_assoc]
  rfl

theorem parseSrvRecord_of_holds {r : SrvRecord} (h : Holds p pos r.fields) :
    parseSrvRecord p fuel pos = (parseDomainName p fuel (pos + r.fields.length)).map fun x =>
      ({ r with target := x.1 }, x.2) := by
  obtain ⟨hpriority, h⟩ := holds_append.mp h
  obtain ⟨hweight, hport⟩ := holds_append.mp h
  rw [parseSrvRecord, modifyGet_bind (parseUint16_of_holds hpriority),
    modifyGet_bind (parseUint16_of_holds hweight), modifyGet_bind (parseUint16_of_holds hport),
    map_eq_bind]
  simp only [SrvRecord.fields, length_append, Int.natCast_add, ← Int.add_assoc]
  rfl

variable {q : Int → UInt8} {i : Int} {n : Nat} {ls : List (List UInt8)} {data : List UInt8}

theorem Name.lt {j e : Int} (h : Name q j ls e) : j < e := by
  induction h with
  | root | label | pointer => omega

theorem holds_fields {bs : List UInt8} (h : Holds q i bs) (hn : bs.length ≤ n)
    (hp : Holds p 0 (bytesAt q i n)) : Holds p 0 bs := by
  obtain ⟨m, rfl⟩ := Nat.exists_eq_add_of_le hn
  rw [bytesAt_add, show bytesAt q i bs.length = bs from h, holds_append] at hp
  exact hp.1

/-- A parser that reads a name behind `k` bytes and makes a record of it. -/
theorem parsesTo_iff {α : Type} {parse : (Int → UInt8) → Nat → Parser α} {k : Nat} {r : α}
    {z : List UInt8} {f : List UInt8 → α} {A : Prop}
    (hparse : ∀ p fuel, Holds p 0 (bytesAt q i n) →
      parse p fuel 0 = (parseDomainName p fuel k).map fun x => (f x.1, x.2))
    (hf : ∀ x, f x = r ↔ A ∧ x = z) :
    ParsesTo parse (bytesAt q i n) r ↔
      A ∧ ∀ p, Holds p 0 (bytesAt q i n) → ∃ fuel pos,
      parseDomainName p fuel k = some (z, pos) := by
  have hone : ∀ p, Holds p 0 (bytesAt q i n) → ((∃ fuel pos, parse p fuel 0 = some (r, pos)) ↔
      A ∧ ∃ fuel pos, parseDomainName p fuel k = some (z, pos)) := by
    intro p hp
    constructor
    · rintro ⟨fuel, pos, h⟩
      rw [hparse p fuel hp] at h
      obtain ⟨⟨x, pos'⟩, hx, heq⟩ := map_eq_some_iff.mp h
      obtain ⟨hA, rfl⟩ := (hf x).mp (Prod.mk.inj heq).1
      exact ⟨hA, fuel, pos', hx⟩
    · rintro ⟨hA, fuel, pos, hx⟩
      refine ⟨fuel, pos, ?_⟩
      rw [hparse p fuel hp, hx, map_some, (hf z).mpr ⟨hA, rfl⟩]
  -- the data can stand in memory as they stand in the message
  have hself : Holds (fun k => q (i + k)) 0 (bytesAt q i n) := by
    rw [Holds, bytesAt_length]
    simp [bytesAt]
  constructor
  · exact fun h => ⟨((hone _ hself).mp (h _ hself)).1, fun p hp => ((hone p hp).mp (h p hp)).2⟩
  · rintro ⟨hA, h⟩ p hp
    exact (hone p hp).mpr ⟨hA, h p hp⟩

theorem NaptrRecord.At.parsesTo_iff {r : NaptrRecord} (h : r.At q i (i + n) ls) :
    ParsesTo parseNaptrRecord (bytesAt q i n) r ↔
      r.service = [] ∧ (Uncompressed (bytesAt q i n) r.fields.length ls ∨
        Coincides (bytesAt q i n) r.fields.length ls) := by
  have hlt := h.name.lt
  have hn : r.fields.length ≤ n := by omega
  rw [← h.name.parses_iff hn, ← h.replacement]
  refine Dns.parsesTo_iff
    (f := naptrRecord r.order r.preference r.flags r.service r.regex) (fun p fuel hp => ?_)
    fun x => ?_
  · rw [parseNaptrRecord_of_holds (holds_fields h.fields hn hp) h.strings, zero_add]
  · cases r
    simp [naptrRecord, eq_comm]

theorem SrvRecord.At.parsesTo_iff {r : SrvRecord} (h : r.At q i (i + n) ls) :
    ParsesTo parseSrvRecord (bytesAt q i n) r ↔ Uncompressed (bytesAt q i n) r.fields.length ls ∨
        Coincides (bytesAt q i n) r.fields.length ls := by
  have hlt := h.name.lt
  have hn : r.fields.length ≤ n := by omega
  rw [← h.name.parses_iff hn, ← h.target, ← true_and (∀ p, Holds p 0 (bytesAt q i n) → _)]
  refine Dns.parsesTo_iff (f := fun x => { r with target := x }) (fun p fuel hp => ?_) fun x => ?_
  · rw [parseSrvRecord_of_holds (holds_fields h.fields hn hp), zero_add]
  · cases r
    simp

end Records

/-- `message::operator=` takes the data of the record from position `i` of the payload. -/
def ResourceRecord.TakenFrom (fuel : Nat) (fm : Frame) (rr : ResourceRecord) (i : Int) : Prop :=
  ∃ pos, parseResourceRecord (payload fm) fuel pos = some (rr, i + rr.rrLen.toNat)

section Taken

variable {fm : Frame} {fuel : Nat} {rr : ResourceRecord}

theorem parseResourceRecord_data {p : Int → UInt8} {pos e : Int}
    (h : parseResourceRecord p fuel pos = some (rr, e)) :
    rr.rrData = bytesAt p (e - rr.rrLen.toNat) rr.rrLen.toNat := by
  obtain ⟨x, -, hr⟩ := bind_eq_some_iff.mp h
  obtain ⟨rfl, rfl⟩ := Prod.mk.inj (some.inj hr)
  exact congrArg (bytesAt p · _) (add_sub_cancel_right _ _).symm

theorem mem_parseRecords {α : Type} {parse : Parser α} {n : Nat} {pos e : Int} {rs : List α} {r : α}
    (h : parseRecords parse n pos = some (rs, e)) (hr : r ∈ rs) :
    ∃ pos' e', parse pos' = some (r, e') := by
  induction n generalizing pos rs with
  | zero =>
    cases h
    cases hr
  | succ n ih =>
    obtain ⟨⟨r', pos₁⟩, hfirst, h⟩ := bind_eq_some_iff.mp h
    obtain ⟨⟨rs', pos₂⟩, hrest, h⟩ := bind_eq_some_iff.mp h
    cases h
    rcases mem_cons.mp hr with rfl | hr
    · exact ⟨pos, pos₁, hfirst⟩
    · exact ih hrest hr

theorem takenFrom_of_mem {m : Message} (hm : Message.ofFrame fuel fm = some m)
    (hrr : rr ∈ m.records) : ∃ i, rr.TakenFrom fuel fm i := by
  suffices h : ∃ pos e, parseResourceRecord (payload fm) fuel pos = some (rr, e) by
    obtain ⟨pos, e, h⟩ := h
    exact ⟨e - rr.rrLen.toNat, pos, by rwa [sub_add_cancel]⟩
  obtain ⟨⟨m', pos⟩, hr, rfl⟩ := map_eq_some_iff.mp hm
  obtain ⟨_, -, hr⟩ := bind_eq_some_iff.mp hr
  obtain ⟨_, hanswer, hr⟩ := bind_eq_some_iff.mp hr
  obtain ⟨_, hauth, hr⟩ := bind_eq_some_iff.mp hr
  obtain ⟨_, hadd, hr⟩ := bind_eq_some_iff.mp hr
  cases hr
  rcases mem_append.mp hrr with hrr | hrr
  · rcases mem_append.mp hrr with hrr | hrr
    · exact mem_parseRecords hanswer hrr
    · exact mem_parseRecords hauth hrr
  · exact mem_parseRecords hadd hrr

end Taken

/-- The record data of a message give back an SRV record exactly if its target has no pointer or the
bytes the pointer leads to in the data happen to spell the rest. For a NAPTR record, moreover, the
service has to be empty. -/
theorem recordData_parses_iff (fuel : Nat) (fm : Frame) (m : Message) (rr : ResourceRecord)
    (hm : Message.ofFrame fuel fm = some m) (hrr : rr ∈ m.records) :
    (∃ i, rr.TakenFrom fuel fm i) ∧
    ∀ i, rr.TakenFrom fuel fm i → ∀ ls : List (List UInt8),
      (∀ r : NaptrRecord, r.At (payload fm) i (i + rr.rrLen.toNat) ls →
        (ParsesTo parseNaptrRecord rr.rrData r ↔
          r.service = [] ∧ (Uncompressed rr.rrData r.fields.length ls ∨
            Coincides rr.rrData r.fields.length ls))) ∧
      (∀ r : SrvRecord, r.At (payload fm) i (i + rr.rrLen.toNat) ls →
        (ParsesTo parseSrvRecord rr.rrData r ↔
          Uncompressed rr.rrData r.fields.length ls ∨ Coincides rr.rrData r.fields.length ls)) := by
  refine ⟨takenFrom_of_mem hm hrr, ?_⟩
  rintro i ⟨pos, hpos⟩ ls
  have hdata := parseResourceRecord_data hpos
  rw [add_sub_cancel_right] at hdata
  rw [hdata]
  exact ⟨fun r h => h.parsesTo_iff, fun r h => h.parsesTo_iff⟩

/-- An answer: a NAPTR record without a service, whose replacement is spelled out. -/
def plainRecord : Frame :=
  [0, 0, 0, 0, 0, 0, 0, 1, 0, 0, 0, 0] ++
  [0, 0, 35, 0, 1, 0, 0, 0, 0, 0, 11, 0, 1, 0, 2, 1, 115, 0, 0, 1, 97, 0]

def plainNaptr : NaptrRecord :=
  { order := 1, preference := 2, flags := [115], service := [], regex := [], replacement := [97] }

theorem plainNaptr_at : plainNaptr.At (payload plainRecord) 11 22 [[97]] where
  fields := by decide
  strings := by decide
  name := .label (by decide) (by decide) (.root (by decide))
  replacement := rfl

theorem recordData_parses_plain : ∃ m rr, Message.ofFrame 2 plainRecord = some m ∧
    rr ∈ m.records ∧ ParsesTo parseNaptrRecord rr.rrData plainNaptr := by
  refine ⟨_, _, rfl, .head _, ?_⟩
  have hiff := (recordData_parses_iff 2 plainRecord _ _ rfl (.head _)).2 11 ⟨0, rfl⟩ [[97]]
  exact (hiff.1 plainNaptr plainNaptr_at).mpr ⟨rfl, .inl rfl⟩

/-- Two answers: an SRV record whose target is a pointer to its own name, and a NAPTR record. -/
def sampleRecords : Frame :=
  [0, 0, 0, 0, 0, 0, 0, 2, 0, 0, 0, 0] ++
  [1, 97, 0, 0, 33, 0, 1, 0, 0, 0, 0, 0, 8, 0, 0, 0, 0, 0, 0, 0xC0, 12] ++
  [0, 0, 35, 0, 1, 0, 0, 0, 0, 0, 10, 0, 1, 0, 2, 1, 115, 1, 120, 0, 0]

def sampleSrv : SrvRecord := { priority := 0, weight := 0, port := 0, target := [97] }

def sampleNaptr : NaptrRecord :=
  { order := 1, preference := 2, flags := [115], service := [120], regex := [], replacement := [] }

theorem sampleSrv_at : sampleSrv.At (payload sampleRecords) 13 21 [[97]] where
  fields := by decide
  name := .pointer (by decide) (by decide) (.label (by decide) (by decide) (.root (by decide)))
  target := rfl

theorem sampleNaptr_at : sampleNaptr.At (payload sampleRecords) 32 42 [] where
  fields := by decide
  strings := by decide
  name := .root (by decide)
  replacement := rfl

/-- The target is lost, and so is the service. -/
theorem recordData_misparsed : ∃ m rr rr', Message.ofFrame 2 sampleRecords = some m ∧
    rr ∈ m.records ∧ rr.TakenFrom 2 sampleRecords 13 ∧
    sampleSrv.At (payload sampleRecords) 13 (13 + rr.rrLen.toNat) [[97]] ∧
    ¬ ParsesTo parseSrvRecord rr.rrData sampleSrv ∧
    rr' ∈ m.records ∧ rr'.TakenFrom 2 sampleRecords 32 ∧
    sampleNaptr.At (payload sampleRecords) 32 (32 + rr'.rrLen.toNat) [] ∧
    ¬ ParsesTo parseNaptrRecord rr'.rrData sampleNaptr := by
  refine ⟨_, _, _, rfl, .head _, ⟨0, rfl⟩, sampleSrv_at, ?_, .tail _ (.head _), ⟨21, rfl⟩,
    sampleNaptr_at, fun h => ?_⟩
  · intro h
    obtain ⟨fuel, pos, hparse⟩ := h (fun k => payload sampleRecords (13 + k)) (by decide)
    rw [parseSrvRecord_of_holds (r := sampleSrv) (by decide)] at hparse
    obtain ⟨⟨x, pos'⟩, hname, heq⟩ := map_eq_some_iff.mp hparse
    obtain ⟨y, hspells, hy⟩ := parseDomainName_iff.mp ⟨fuel, pos', hname⟩
    -- at the target of the pointer is the high byte of the priority
    obtain ⟨z, rfl, hz⟩ := hspells.of_pointer (by decide)
    obtain rfl := hz.of_zero (by decide)
    have htarget : x = [97] := congrArg SrvRecord.target (Prod.mk.inj heq).1
    exact absurd (hy.symm.trans htarget) (by decide)
  · have hservice := (sampleNaptr_at.parsesTo_iff.mp h).1
    cases hservice

end Odtone.Dns
