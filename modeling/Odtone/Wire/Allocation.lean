import Odtone.Wire.InPlace
import Odtone.Wire.Types

/-! # What decoding allocates

A vector, list or string is resized to the length that its length field declares. The string
decoders compare the length with the size of the buffer first, counted from the start of the field
and not from its end; the others compare it with nothing. `Ty.resizes_bounded_iff` says for which
datagrams every `resize` stays within the bytes that are left: for those in which every length field
on the way is affordable. -/

namespace Odtone.Wire

open List

/-! ## Length fields -/

/-- A length field that the decoder gets to: what it is the length of, and where it stands. -/
structure Field where
  kind : Container
  pos : Nat
deriving DecidableEq

/-- A list is affordable if it declares no more elements than there are bytes behind its length
field. So is a string, and also one that ends behind the buffer if it started with its length
field. -/
def Field.Affordable (buf : Bytes) (f : Field) : Prop :=
  ¬ CutOff buf f.pos → ∀ w len, fieldAt buf f.pos = some (w, len) →
    f.kind = .string ∧ buf.length ≤ uint (f.pos + len) ∨ len ≤ buf.length - uint (f.pos + w)

section Walk

variable {α β : Type}

/-- Go on where the decoder returns. -/
def behind (d : Decoder α) (next : α → Cursor UInt8 → List Field) (c : Cursor UInt8) : List Field :=
  match d c with
  | .ok a c' => next a c'
  | .error _ _ => []

/-- The fields of elements that stand one after the other. -/
def fieldsEach (fields : α → Cursor UInt8 → List Field) (d : α → Decoder α) :
    List α → Cursor UInt8 → List Field
  | [], _ => []
  | x :: xs, c => fields x c ++ behind (d x) (fun _ => fieldsEach fields d xs) c

end Walk

namespace Ty

mutual

/-- The length fields between the position and the end of a value, or the point where it cannot be
decoded. -/
def fields : (t : Ty) → t.Val → Cursor UInt8 → List Field
  | .bool, _, _ => []
  | .uint _, _, _ => []
  | .sint _, _, _ => []
  | .octets, _, c => [⟨.string, c.pos⟩]
  | .bitmap _, _, _ => []
  | .array _ t, old, c => fieldsEach (fields t) (decode t) old.toList c
  | .list t, old, c => ⟨.list, c.pos⟩ ::
      behind listLength (fun len => fieldsEach (fields t) (decode t) (resize t.fresh len old)) c
  | .seq ts, old, c => fieldsSeq ts old c
  | .variant t ts, _, c => behind Wire.uint8 (fun selector => match selector.toNat with
      | 0 => fields t t.fresh
      | i + 1 => fieldsAlt ts i) c

def fieldsSeq : (ts : List Ty) → SeqVal ts → Cursor UInt8 → List Field
  | [], _, _ => []
  | t :: ts, old, c => fields t old.1 c ++ behind (decode t old.1) (fun _ => fieldsSeq ts old.2) c

def fieldsAlt : (ts : List Ty) → Nat → Cursor UInt8 → List Field
  | [], _, _ => []
  | t :: _, 0, c => fields t t.fresh c
  | _ :: ts, i + 1, c => fieldsAlt ts i c

end

end Ty

/-! ## Fields and resizes -/

/-- Every `resize` stays within the bytes that are left if and only if the fields are affordable. -/
def Accounts (buf : Bytes) (resizes : List Resize) (fields : List Field) : Prop :=
  (∀ r ∈ resizes, r.elements ≤ r.left) ↔ ∀ f ∈ fields, f.Affordable buf

section Accounts

variable {α β : Type} {buf : Bytes}

theorem Accounts.nil : Accounts buf [] [] := by simp [Accounts]

theorem Accounts.of_affordable {f : Field} (h : f.Affordable buf) : Accounts buf [] [f] := by
  simpa [Accounts] using h

theorem Accounts.singleton {r : Resize} {f : Field} (h : f.Affordable buf ↔ r.elements ≤ r.left) :
    Accounts buf [r] [f] := by
  simpa [Accounts] using h.symm

variable {f : Filler α} {fs : List Field} {fields : α → Cursor UInt8 → List Field}
  {d : α → Decoder α} {pos : Nat}

theorem Accounts.append {rs rs' : List Resize} {fs' : List Field} (h : Accounts buf rs fs)
    (h' : Accounts buf rs' fs') : Accounts buf (rs ++ rs') (fs ++ fs') := by
  unfold Accounts at h h' ⊢
  rw [forall_mem_append, forall_mem_append, h, h']

theorem Accounts.both {ar : IArchive} {r : Filled α} {d : Decoder α} {rest : β}
    {next : IArchive → Filled β} {fields : Cursor UInt8 → List Field} (hagrees : Agrees ar r d)
    (h : Accounts ar.buf r.resizes fs)
    (hnext : ∀ ar', Accounts ar'.buf (next ar').resizes (fields ar'.cursor)) :
    Accounts ar.buf (r.both rest next).resizes (fs ++ behind d (fun _ => fields) ar.cursor) := by
  unfold Filled.both behind
  cases hr : r.thrown with
  | some e =>
    rw [hagrees.error e hr, append_nil]
    exact h
  | none =>
    rw [hagrees.ok hr]
    have hbuf : r.ar.buf = ar.buf := by rw [hagrees.frame]
    exact h.append (hbuf ▸ hnext r.ar)

theorem assign_accounts (d : Decoder α) (old : α) (ar : IArchive) :
    Accounts ar.buf (assign d old ar).resizes [] := by
  unfold assign
  split <;> exact .nil

theorem fillEach_accounts (hagrees : ∀ old ar, Agrees ar (f old ar) (d old))
    (h : ∀ old ar, Accounts ar.buf (f old ar).resizes (fields old ar.cursor)) (old : List α)
    (ar : IArchive) :
      Accounts ar.buf (fillEach f old ar).resizes (fieldsEach fields d old ar.cursor) := by
  induction old generalizing ar with
  | nil => exact .nil
  | cons x xs ih => exact .both (hagrees x ar) (h x ar) ih

/-- What it means for a length field that it is affordable, in terms of its value. -/
theorem affordable_of_read (kind : Container) {buf : Bytes} {len pos' : Nat}
    (h : listLength ⟨buf, pos⟩ = .ok len ⟨buf, pos'⟩) : Field.Affordable buf ⟨kind, pos⟩ ↔
      kind = .string ∧ buf.length ≤ uint (pos + len) ∨ len ≤ buf.length - pos' := by
  have hcut : ¬ CutOff buf pos := fun hcut => by cases (listLength_cutOff hcut).symm.trans h
  rcases hf : fieldAt buf pos with _ | ⟨w, len'⟩
  · obtain ⟨e, he, -⟩ := listLength_undefined hcut hf
    cases he.symm.trans h
  · cases (listLength_of_field hcut hf).symm.trans h
    constructor
    · intro haff
      exact haff hcut w len hf
    · intro haff _ w' len'' hf'
      cases hf.symm.trans hf'
      exact haff

/-- A length field that cannot be read asks for nothing. -/
theorem affordable_of_error (kind : Container) {buf : Bytes} {e : Error} {c : Cursor UInt8}
    (h : listLength ⟨buf, pos⟩ = .error e c) : Field.Affordable buf ⟨kind, pos⟩ := by
  intro hcut w len hf
  cases (listLength_of_field hcut hf).symm.trans h

theorem fillList_accounts (hagrees : ∀ old ar, Agrees ar (f old ar) (d old))
    (h : ∀ old ar, Accounts ar.buf (f old ar).resizes (fields old ar.cursor))
    (fresh : α) (old : List α) (ar : IArchive) : Accounts ar.buf (fillList f fresh old ar).resizes
      (⟨.list, ar.cursor.pos⟩ ::
      behind listLength (fun len => fieldsEach fields d (resize fresh len old)) ar.cursor) := by
  unfold fillList behind
  rcases read_cases kept_listLength ar with ⟨len, pos, hread, hlen⟩ | ⟨e, pos, hread, hlen⟩
  · have heach := fillEach_accounts hagrees h (resize fresh len old) { ar with pos }
    have hfirst : Accounts ar.buf [.due .list ar { ar with pos } len] [⟨.list, ar.cursor.pos⟩] :=
      .singleton ((affordable_of_read .list hlen).trans (or_iff_right fun h => by cases h.1))
    rw [hread, hlen]
    dsimp only
    split
    all_goals exact hfirst.append heach
  · rw [hread, hlen]
    exact .of_affordable (affordable_of_error .list hlen)

theorem fillOctets_accounts (old : Bytes) (ar : IArchive) :
    Accounts ar.buf (fillOctets old ar).resizes [⟨.string, ar.cursor.pos⟩] := by
  unfold fillOctets
  rcases read_cases kept_listLength ar with ⟨len, pos, hread, hlen⟩ | ⟨e, pos, hread, hlen⟩
  · have haff := affordable_of_read .string hlen
    rw [hread]
    dsimp only
    split_ifs with hend
    · exact .of_affordable (haff.mpr (.inl ⟨rfl, hend⟩))
    · have hfirst : Accounts ar.buf [.due .string ar { ar with pos } len]
        [⟨.string, ar.cursor.pos⟩] :=
        .singleton (haff.trans (or_iff_right fun h => hend h.2))
      split
      all_goals exact hfirst
  · rw [hread]
    exact .of_affordable (affordable_of_error .string hlen)

theorem fieldsEach_nil (d : α → Decoder α) (xs : List α) (c : Cursor UInt8) :
    fieldsEach (fun _ _ => []) d xs c = [] := by
  induction xs generalizing c with
  | nil => rfl
  | cons x xs ih =>
    rw [fieldsEach, behind]
    cases d x c with
    | ok a c' => exact ih c'
    | error e c' => rfl

theorem fillBitmap_accounts {n : Nat} (old : List.Vector UInt8 n) (ar : IArchive) :
    Accounts ar.buf (fillBitmap old ar).resizes [] := by
  have heach : Accounts ar.buf (fillBitmap old ar).resizes
      (fieldsEach (fun _ _ => []) (fun _ => uint8) old.toList.reverse ar.cursor) :=
    fillEach_accounts (fun old _ => assign_agrees kept_uint8 old) (assign_accounts uint8) _ ar
  rwa [fieldsEach_nil] at heach

theorem fillVariant_accounts {first : IArchive → Filled α}
    {alt : Nat → IArchive → Option (Filled β)} {fields : Cursor UInt8 → List Field}
    {fields' : Nat → Cursor UInt8 → List Field}
    (hfirst : ∀ ar, Accounts ar.buf (first ar).resizes (fields ar.cursor))
    (halt : ∀ i ar, Accounts ar.buf ((alt i ar).elim [] (·.resizes)) (fields' i ar.cursor))
    {next : UInt8 → Cursor UInt8 → List Field} (hzero : ∀ s, s.toNat = 0 → next s = fields)
    (hsucc : ∀ s i, s.toNat = i + 1 → next s = fields' i) (old : α ⊕ β) (ar : IArchive) :
    Accounts ar.buf (fillVariant first alt old ar).resizes (behind uint8 next ar.cursor) := by
  unfold fillVariant behind
  rcases read_cases kept_uint8 ar with ⟨selector, pos, hread, hsel⟩ | ⟨e, pos, hread, hsel⟩
  · rw [hread, hsel]
    dsimp only
    cases hn : selector.toNat with
    | zero =>
      rw [hzero selector hn]
      exact hfirst { ar with pos }
    | succ i =>
      have hi := halt i { ar with pos }
      rw [hsucc selector i hn]
      dsimp only
      cases hr : alt i { ar with pos } with
      | none | some =>
        rw [hr] at hi
        exact hi
  · rw [hread, hsel]
    exact .nil

end Accounts

namespace Ty

mutual

theorem fill_accounts : ∀ (t : Ty) (old : t.Val) (ar : IArchive),
    Accounts ar.buf (t.fill old ar).resizes (t.fields old ar.cursor)
  | .bool, _, _ => assign_accounts _ _ _
  | .uint _, _, _ => assign_accounts _ _ _
  | .sint _, _, _ => assign_accounts _ _ _
  | .octets, old, ar => fillOctets_accounts old ar
  | .bitmap n, old, ar => fillBitmap_accounts old ar
  | .array _ t, old, ar => fillEach_accounts (fill_agrees t) (fill_accounts t) _ ar
  | .list t, old, ar => fillList_accounts (fill_agrees t) (fill_accounts t) t.fresh old ar
  | .seq ts, old, ar => fillSeq_accounts ts old ar
  | .variant t ts, old, ar => by
    rw [fill, fields]
    refine fillVariant_accounts (fill_accounts t t.fresh) (fillAlt_accounts ts) (fun s hs => ?_)
      (fun s i hs => ?_) old ar
    all_goals simp only [hs]

theorem fillSeq_accounts : ∀ (ts : List Ty) (old : SeqVal ts) (ar : IArchive),
    Accounts ar.buf (fillSeq ts old ar).resizes (fieldsSeq ts old ar.cursor)
  | [], _, _ => .nil
  | t :: ts, old, ar =>
    .both (fill_agrees t old.1 ar) (fill_accounts t old.1 ar) (fillSeq_accounts ts old.2)

theorem fillAlt_accounts : ∀ (ts : List Ty) (i : Nat) (ar : IArchive),
    Accounts ar.buf ((fillAlt ts i ar).elim [] (·.resizes)) (fieldsAlt ts i ar.cursor)
  | [], _, _ => .nil
  | t :: ts, 0, ar => fill_accounts t t.fresh ar
  | t :: ts, i + 1, ar => by
    have h := fillAlt_accounts ts i ar
    rw [fillAlt, fieldsAlt]
    cases hr : fillAlt ts i ar with
    | none | some =>
      rw [hr] at h
      exact h

end

/-- Decoding resizes no container to more elements than there are bytes left if and only if every
length field on the way is affordable. -/
theorem resizes_bounded_iff (t : Ty) (old : t.Val) (ar : IArchive) :
    (∀ r ∈ (t.fill old ar).resizes, r.elements ≤ r.left) ↔
      ∀ f ∈ t.fields old ar.cursor, f.Affordable ar.buf :=
  fill_accounts t old ar

/-- A list of link identifiers in four bytes asks for 65663 elements with one byte left, and a
string whose length field takes two bytes asks for one byte more than is left. -/
theorem resizes_not_bounded :
    (linkIdList.fill [] ⟨[0x82, 0xFF, 0xFF, 0], 0, 0, 4⟩).resizes = [⟨.list, 0, 65663, 1⟩] ∧
    (octets.fill [] ⟨0x81 :: replicate 128 0, 0, 0, 129⟩).resizes = [⟨.string, 0, 128, 127⟩] := by
  decide +kernel

end Ty

end Odtone.Wire
