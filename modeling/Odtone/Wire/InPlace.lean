import Odtone.Wire.RoundTrip

/-! # Decoding in place

The decoders of the archives write into a variable while they read, and an exception leaves both the
variable and the archive in some state. Here a decoder returns them in every case, together with the
calls of `resize` on the way; `Ty.fill_agrees` says that `Ty.decode` is what remains of it if the
variable is forgotten on failure.

An archive has an origin, from which its positions count. The value of an element is read through an
archive of its own, which has the position of the element as its origin and shares the position in
the buffer with the outer one. -/

namespace Odtone.Wire

open Cursor

/-- `iarchive`. The position is shared with the archives made from it. -/
structure IArchive where
  buf : Bytes
  pos : UInt32
  origin : UInt32
  length : UInt32
deriving DecidableEq

namespace IArchive

variable {α : Type}

def cursor (ar : IArchive) : Cursor UInt8 := ⟨ar.buf, ar.pos.toNat⟩

/-- `iarchive::position()` -/
def position (ar : IArchive) : UInt32 := ar.pos - ar.origin

/-- `iarchive::position(pos)` -/
def setPosition (ar : IArchive) (pos : UInt32) : IArchive := { ar with pos := ar.origin + pos }

/-- Apply one of the operators that read a value in one go. -/
def read (ar : IArchive) (d : Decoder α) : Except Error α × IArchive :=
  match d ar.cursor with
  | .ok a c => (.ok a, { ar with pos := .ofNat c.pos })
  | .error e c => (.error e, { ar with pos := .ofNat c.pos })

end IArchive

/-- What is resized. -/
inductive Container where
  | list | string
deriving DecidableEq

/-- A call of `resize`: the length field it is due to, the number of elements, and the number of
bytes left in the buffer behind the field. -/
structure Resize where
  kind : Container
  field : UInt32
  elements : Nat
  left : Nat
deriving DecidableEq

/-- The state in which a decoder returns or throws. -/
structure Filled (α : Type) where
  thrown : Option Error := none
  val : α
  ar : IArchive
  resizes : List Resize := []

/-- A decoder into a variable. -/
abbrev Filler (α : Type) := α → IArchive → Filled α

/-- The variable is part of another one. -/
def Filled.map {α β : Type} (f : α → β) (r : Filled α) : Filled β := { r with val := f r.val }

/-- Go on with the other part of the variable, which is `rest`, unless an exception was thrown. -/
def Filled.both {α β : Type} (r : Filled α) (rest : β) (next : IArchive → Filled β) :
    Filled (α × β) :=
  match r.thrown with
  | some _ => r.map (·, rest)
  | none =>
    let r' := next r.ar
    { r' with val := (r.val, r'.val), resizes := r.resizes ++ r'.resizes }

/-- An operator that assigns its result at the end. -/
def assign {α : Type} (d : Decoder α) : Filler α := fun old ar =>
  match ar.read d with
  | (.ok v, ar) => { val := v, ar }
  | (.error e, ar) => { thrown := some e, val := old, ar }

/-- Decode into the elements of a container one after the other. -/
def fillEach {α : Type} (f : Filler α) : Filler (List α)
  | [], ar => { val := [], ar }
  | x :: xs, ar => ((f x ar).both xs (fillEach f xs)).map fun (x, xs) => x :: xs

/-- `resize(n)` -/
def resize {α : Type} (fresh : α) (n : Nat) (old : List α) : List α :=
  old.take n ++ List.replicate (n - old.length) fresh

/-- The `resize` of a container whose length field stands at the position of `ar` and ends at that
of `ar'`. -/
def Resize.due (kind : Container) (ar ar' : IArchive) (len : Nat) : Resize :=
  { kind, field := ar.pos, elements := len, left := ar'.buf.length - ar'.pos.toNat }

/-- `iarchive::operator&(octet_string&)` -/
def fillOctets : Filler Bytes := fun old ar =>
  match ar.read listLength with
  | (.error e, ar') => { thrown := some e, val := old, ar := ar' }
  | (.ok len, ar') =>
    if ar.buf.length ≤ uint (ar.pos.toNat + len) then
      { thrown := some .eof, val := old, ar := { ar' with pos := ar.pos } }
    else
      let resizes := [.due .string ar ar' len]
      match ar'.read (copyBytes len) with
      | (.ok bs, ar'') => { val := bs, ar := ar'', resizes }
      -- the copy reads behind the buffer
      | (.error e, _) => { thrown := some e, val := old, ar, resizes }

theorem length_fillEach {α : Type} (f : Filler α) (xs : List α) (ar : IArchive) :
    (fillEach f xs ar).val.length = xs.length := by
  induction xs generalizing ar with
  | nil => rfl
  | cons x xs ih =>
    rw [fillEach, Filled.both]
    split
    · rfl
    · exact congrArg (· + 1) (ih _)

/-- Decode into the elements of an array. -/
def fillArray {α : Type} {n : Nat} (f : Filler α) : Filler (List.Vector α n) := fun old ar =>
  let r := fillEach f old.toList ar
  { r with val := ⟨r.val, (length_fillEach f _ _).trans old.toList_length⟩ }

theorem length_reverse_toList {n : Nat} (v : List.Vector UInt8 n) :
    v.toList.reverse.length = n := by
  simp

/-- The bytes of a bitmap are decoded from the last one on. -/
def fillBitmap {n : Nat} : Filler (List.Vector UInt8 n) := fun old ar =>
  let r := fillArray (assign uint8) ⟨old.toList.reverse, length_reverse_toList old⟩ ar
  { r with val := ⟨r.val.toList.reverse, by simp⟩ }

/-- `serialize<std::vector<T>>` and `serialize<std::list<T>>`. When an element throws, the container
is cleared and the position put back. -/
def fillList {α : Type} (f : Filler α) (fresh : α) : Filler (List α) := fun old ar =>
  match ar.read listLength with
  | (.error e, ar') => { thrown := some e, val := old, ar := ar' }
  | (.ok len, ar') =>
    let r := fillEach f (resize fresh len old) ar'
    let resizes := .due .list ar ar' len :: r.resizes
    match r.thrown with
    | none => { val := r.val, ar := r.ar, resizes }
    | some e => { thrown := some e, val := [], ar := r.ar.setPosition ar.position, resizes }

/-- `serialize<boost::variant<T, Ts...>>`: the alternatives are default constructed before they are
decoded, and a selector without a case leaves the variant as it is. -/
def fillVariant {α β : Type} (first : IArchive → Filled α)
    (alt : Nat → IArchive → Option (Filled β)) :
    Filler (α ⊕ β) := fun old ar =>
  match ar.read uint8 with
  | (.error e, ar) => { thrown := some e, val := old, ar }
  | (.ok selector, ar) =>
    match selector.toNat with
    | 0 => (first ar).map .inl
    | i + 1 =>
      match alt i ar with
      | some r => r.map .inr
      | none => { val := old, ar }

namespace Ty

mutual

/-- `iarchive::operator&` -/
def fill : (t : Ty) → Filler t.Val
  | .bool => assign ((· != 0) <$> uint8)
  | .uint w => assign ((fun bs => BitVec.ofNat _ (bigEndian bs)) <$> word w.octets)
  | .sint w => assign ((fun bs => fromTwos (BitVec.ofNat _ (bigEndian bs))) <$> word w.octets)
  | .octets => fillOctets
  | .bitmap _ => fillBitmap
  | .array _ t => fillArray (fill t)
  | .list t => fillList (fill t) t.fresh
  | .seq ts => fillSeq ts
  | .variant t ts => fillVariant (fill t t.fresh) (fillAlt ts)

def fillSeq : (ts : List Ty) → Filler (SeqVal ts)
  | [] => fun old ar => { val := old, ar }
  | t :: ts => fun old ar => (fill t old.1 ar).both old.2 (fillSeq ts old.2)

/-- The case of the alternative with the given number, if there is one. -/
def fillAlt : (ts : List Ty) → Nat → IArchive → Option (Filled (AltVal ts))
  | [], _, _ => none
  | t :: _, 0, ar => some ((fill t t.fresh ar).map .inl)
  | _ :: ts, i + 1, ar => (fillAlt ts i ar).map (Filled.map .inr)

end

end Ty

/-! ## The value decoders -/

/-- A decoder that leaves the buffer alone and the position in the range of `uint`. -/
def Kept {α : Type} (d : Decoder α) : Prop :=
  ∀ c : Cursor UInt8, c.pos < 2 ^ 32 → match d c with
    | .ok _ c' => c'.buf = c.buf ∧ c'.pos < 2 ^ 32
    | .error _ c' => c'.buf = c.buf ∧ c'.pos < 2 ^ 32

section Read

variable {α β : Type} {d : Decoder α}

theorem uint_lt (n : Nat) : uint n < 2 ^ 32 := Nat.mod_lt _ (by decide)

theorem kept_uint8 : Kept uint8 := by
  intro c hc
  unfold uint8
  split_ifs
  · exact ⟨rfl, hc⟩
  · cases c.buf[c.pos]? with
    | none => exact ⟨rfl, hc⟩
    | some b => exact ⟨rfl, uint_lt _⟩

theorem kept_copyBytes (k : Nat) : Kept (copyBytes k) := by
  intro c hc
  unfold copyBytes
  split_ifs
  · exact ⟨rfl, uint_lt _⟩
  · exact ⟨rfl, hc⟩

theorem kept_word (k : Nat) : Kept (word k) := by
  intro c hc
  unfold word
  split_ifs
  · exact ⟨rfl, hc⟩
  · exact kept_copyBytes k c hc

theorem Kept.map (h : Kept d) (f : α → β) : Kept (f <$> d) := by
  intro c hc
  have hd := h c hc
  change match EStateM.map f d c with | .ok _ c' => _ | .error _ c' => _
  rw [EStateM.map]
  cases hr : d c <;> rw [hr] at hd <;> exact hd

theorem Kept.bind (h : Kept d) {f : α → Decoder β} (hf : ∀ a, Kept (f a)) : Kept (d >>= f) := by
  intro c hc
  have hd := h c hc
  cases hr : d c with
  | ok a c' =>
    rw [hr] at hd
    have hfa := hf a c' hd.2
    rw [bind_of_ok hr]
    cases hr' : f a c' with
    | ok | error =>
      rw [hr'] at hfa
      exact ⟨hfa.1.trans hd.1, hfa.2⟩
  | error e c' =>
    rw [hr] at hd
    rw [bind_of_error hr]
    exact hd

theorem kept_listLength : Kept listLength := by
  rintro ⟨buf, pos⟩ hc
  by_cases hcut : CutOff buf pos
  · rw [listLength_cutOff hcut]
    exact ⟨rfl, hc⟩
  cases hf : fieldAt buf pos with
  | none =>
    obtain ⟨e, he, -⟩ := listLength_undefined hcut hf
    rw [he]
    exact ⟨rfl, hc⟩
  | some field =>
    rw [listLength_of_field hcut hf]
    exact ⟨rfl, uint_lt _⟩

/-- An operator applied to an archive. -/
theorem read_cases (h : Kept d) (ar : IArchive) :
    (∃ a pos, ar.read d = (.ok a, { ar with pos }) ∧ d ar.cursor = .ok a ⟨ar.buf, pos.toNat⟩) ∨
      ∃ e pos, ar.read d = (.error e, { ar with pos }) ∧
      d ar.cursor = .error e ⟨ar.buf, pos.toNat⟩ := by
  have hc := h ar.cursor ar.pos.toNat_lt
  unfold IArchive.read
  cases hd : d ar.cursor with
  | ok a c =>
    rw [hd] at hc
    refine .inl ⟨a, .ofNat c.pos, rfl, ?_⟩
    rw [UInt32.toNat_ofNat_of_lt' hc.2, ← show c.buf = ar.buf from hc.1]
  | error e c =>
    rw [hd] at hc
    refine .inr ⟨e, .ofNat c.pos, rfl, ?_⟩
    rw [UInt32.toNat_ofNat_of_lt' hc.2, ← show c.buf = ar.buf from hc.1]

end Read

/-- The decoder in place, started on `ar`, does what the value decoder `d` does. -/
structure Agrees {α : Type} (ar : IArchive) (r : Filled α) (d : Decoder α) : Prop where
  ok : r.thrown = none → d ar.cursor = .ok r.val r.ar.cursor
  error : ∀ e, r.thrown = some e → d ar.cursor = .error e r.ar.cursor
  frame : r.ar = { ar with pos := r.ar.pos }

section Agrees

variable {α β : Type} {ar : IArchive} {r : Filled α} {d : Decoder α}

theorem Agrees.of_ok (hr : r.thrown = none) (hd : d ar.cursor = .ok r.val r.ar.cursor)
    (hframe : r.ar = { ar with pos := r.ar.pos }) : Agrees ar r d where
  ok _ := hd
  error e he := by cases hr.symm.trans he
  frame := hframe

theorem Agrees.of_error {e : Error} (hr : r.thrown = some e)
    (hd : d ar.cursor = .error e r.ar.cursor) (hframe : r.ar = { ar with pos := r.ar.pos }) :
    Agrees ar r d where
  ok hnone := by cases hr.symm.trans hnone
  error e' he := by
    cases hr.symm.trans he
    exact hd
  frame := hframe

theorem Agrees.pure (a : α) : Agrees ar { val := a, ar } (Pure.pure a) := .of_ok rfl rfl rfl

theorem Agrees.map (h : Agrees ar r d) (f : α → β) : Agrees ar (r.map f) (f <$> d) where
  ok hr := map_of_ok (h.ok hr)
  error e hr := map_of_error (h.error e hr)
  frame := h.frame

theorem Agrees.of_map {f : α → β} (hf : Function.Injective f) (h : Agrees ar (r.map f) (f <$> d)) :
    Agrees ar r d where
  ok hr := by
    obtain ⟨a, hd, ha⟩ := map_ok.mp (h.ok hr)
    rw [hd, hf ha]
    rfl
  error e hr := by
    have hmap := h.error e hr
    cases hd : d ar.cursor with
    | ok a c =>
      rw [map_of_ok hd] at hmap
      cases hmap
    | error e' c =>
      rw [map_of_error hd] at hmap
      cases hmap
      rfl
  frame := h.frame

theorem Agrees.after {x : Decoder β} {k : β → Decoder α} {b : β} {pos : UInt32}
    (hx : x ar.cursor = .ok b ⟨ar.buf, pos.toNat⟩) (h : Agrees { ar with pos } r (k b)) :
    Agrees ar r (x >>= k) where
  ok hr := (bind_of_ok hx).trans (h.ok hr)
  error e hr := (bind_of_ok hx).trans (h.error e hr)
  frame := h.frame

/-- Two parts of a variable, one after the other. -/
theorem Agrees.both {d' : Decoder β} {next : IArchive → Filled β} (h : Agrees ar r d) (rest : β)
    (hnext : ∀ ar', Agrees ar' (next ar') d') : Agrees ar (r.both rest next) (do
      let a ← d
      let b ← d'
      return (a, b)) := by
  unfold Filled.both
  cases hr : r.thrown with
  | some e =>
    exact .of_error hr (bind_of_error (h.error e hr)) h.frame
  | none =>
    have hn := hnext r.ar
    have hfirst := h.ok hr
    refine ⟨fun hnone => ?_, fun e he => ?_, ?_⟩
    · exact (bind_of_ok hfirst).trans (bind_of_ok (hn.ok hnone))
    · exact (bind_of_ok hfirst).trans (bind_of_error (hn.error e he))
    · have hframe := hn.frame
      rw [h.frame] at hframe ⊢
      exact hframe

theorem assign_agrees (h : Kept d) (old : α) : Agrees ar (assign d old ar) d := by
  rcases read_cases h ar with ⟨a, pos, hread, hd⟩ | ⟨e, pos, hread, hd⟩
  · rw [assign, hread]
    exact .of_ok rfl hd rfl
  · rw [assign, hread]
    exact .of_error rfl hd rfl

end Agrees

section Containers

variable {α : Type} {f : Filler α} {d : α → Decoder α}

/-- A position is put back into the archive it is from. -/
theorem setPosition_position {ar ar' : IArchive} (h : ar' = { ar with pos := ar'.pos }) :
    ar'.setPosition ar.position = ar := by
  rw [h]
  simp [IArchive.setPosition, IArchive.position, UInt32.add_comm ar.origin]

theorem resize_succ (fresh : α) (n : Nat) (old : List α) :
    resize fresh (n + 1) old = old.headD fresh :: resize fresh n old.tail := by
  cases old with
  | nil => simp [resize, List.replicate_succ]
  | cons x old => simp [resize]

section

variable (h : ∀ old ar, Agrees ar (f old ar) (d old)) (fresh : α)
include h

theorem fillEach_agrees (n : Nat) (old : List α) (ar : IArchive) :
    Agrees ar (fillEach f (resize fresh n old) ar) (refill d fresh n old) := by
  induction n generalizing old ar with
  | zero =>
    rw [show resize fresh 0 old = [] by simp [resize]]
    exact .pure []
  | succ n ih =>
    rw [resize_succ, fillEach, refill]
    have hboth := ((h (old.headD fresh) ar).both (resize fresh n old.tail) (ih old.tail)).map
      fun (x, xs) => x :: xs
    simpa using hboth

theorem fillList_agrees (old : List α) (ar : IArchive) :
    Agrees ar (fillList f fresh old ar) (restoring do
      let len ← listLength
      refill d fresh len old) := by
  unfold fillList
  rcases read_cases kept_listLength ar with ⟨len, pos, hread, hlen⟩ | ⟨e, pos, hread, hlen⟩
  · have heach := fillEach_agrees h fresh len old { ar with pos }
    rw [hread]
    dsimp only
    generalize fillEach f (resize fresh len old) { ar with pos } = r at heach ⊢
    have hback : r.ar.setPosition ar.position = ar := setPosition_position heach.frame
    cases hr : r.thrown with
    | none =>
      have hall : (listLength >>= fun len => refill d fresh len old) ar.cursor = .ok _ _ :=
        (bind_of_ok hlen).trans (heach.ok hr)
      exact .of_ok rfl (restoring_ok.mpr hall) heach.frame
    | some e =>
      have hfail : (listLength >>= fun len => refill d fresh len old) ar.cursor = .error e _ :=
        (bind_of_ok hlen).trans (heach.error e hr)
      rw [hback]
      refine .of_error rfl ((restoring_of_error hfail).trans ?_) rfl
      rw [heach.frame]
      rfl
  · rw [hread]
    have hpos : pos.toNat = ar.pos.toNat := pos_of_restoring_error hlen
    refine .of_error rfl ((restoring_of_error (bind_of_error hlen)).trans ?_) rfl
    exact congrArg _ (congrArg _ hpos.symm)

include fresh in
theorem fillArray_agrees {n : Nat} (old : List.Vector α n) (ar : IArchive) :
    Agrees ar (fillArray f old ar) (each d n old) := by
  have heach := fillEach_agrees h fresh n old.toList ar
  rw [show resize fresh n old.toList = old.toList by simp [resize],
    ← toList_each d fresh old] at heach
  exact heach.of_map List.Vector.toList_injective

end

theorem each_const (d : Decoder α) {n : Nat} (old old' : List.Vector α n) :
    each (fun _ => d) n old = each (fun _ => d) n old' := by
  induction n with
  | zero => rw [Subsingleton.elim old old']
  | succ n ih => rw [each, each, ih old.tail old'.tail]

theorem fillBitmap_agrees {n : Nat} (old : List.Vector UInt8 n) (ar : IArchive) :
    Agrees ar (fillBitmap old ar)
      ((fun bs => ⟨bs.toList.reverse, by simp⟩) <$> each (fun _ => uint8) n old) := by
  have harray := fillArray_agrees (fun old ar => assign_agrees kept_uint8 old) 0
    (⟨old.toList.reverse, by simp⟩ : List.Vector UInt8 n) ar
  have hconst := each_const uint8 (⟨old.toList.reverse, by simp⟩ : List.Vector UInt8 n) old
  exact hconst ▸ harray.map fun bs : List.Vector UInt8 n =>
    (⟨bs.toList.reverse, by simp⟩ : List.Vector UInt8 n)

theorem octetString_of_ok {buf : Bytes} {pos pos' len : Nat}
    (h : listLength ⟨buf, pos⟩ = .ok len ⟨buf, pos'⟩) :
    octetString ⟨buf, pos⟩ = if buf.length ≤ uint (pos + len) then .error .eof ⟨buf, pos⟩
      else match copyBytes len ⟨buf, pos'⟩ with
        | .ok bs c => .ok bs c
        | .error e c => .error e { c with pos } := by
  simp only [octetString, restoring, bind, EStateM.bind, h]
  split_ifs
  · rfl
  · cases copyBytes len ⟨buf, pos'⟩ <;> rfl

theorem fillOctets_agrees (old : Bytes) (ar : IArchive) :
    Agrees ar (fillOctets old ar) octetString := by
  unfold fillOctets
  rcases read_cases kept_listLength ar with ⟨len, pos, hread, hlen⟩ | ⟨e, pos, hread, hlen⟩
  · rw [hread]
    dsimp only
    have hstring := octetString_of_ok hlen
    split_ifs with hend
    · rw [if_pos hend] at hstring
      exact .of_error rfl hstring rfl
    · rw [if_neg hend] at hstring
      rcases read_cases (kept_copyBytes len) { ar with pos } with
        ⟨bs, pos', hread', hcopy⟩ | ⟨e, pos', hread', hcopy⟩
      · rw [hread']
        rw [show copyBytes len ⟨ar.buf, pos.toNat⟩ = _ from hcopy] at hstring
        exact .of_ok rfl hstring rfl
      · rw [hread']
        rw [show copyBytes len ⟨ar.buf, pos.toNat⟩ = _ from hcopy] at hstring
        exact .of_error rfl hstring rfl
  · rw [hread]
    have hpos : pos.toNat = ar.pos.toNat := pos_of_restoring_error hlen
    rw [hpos] at hlen
    refine .of_error rfl ((octetString_of_length_error hlen).trans ?_) rfl
    exact congrArg _ (congrArg _ hpos.symm)

/-- A numbered alternative in place: both know it, or both do not. -/
def AltAgrees {β : Type} (ar : IArchive) (r : Option (Filled β)) (d : Decoder (Option β)) : Prop :=
  (∃ r' d', r = some r' ∧ d = some <$> d' ∧ Agrees ar r' d') ∨ r = none ∧ d = pure none

theorem fillVariant_agrees {β : Type} {first : IArchive → Filled α} {d : Decoder α}
    {alt : Nat → IArchive → Option (Filled β)} {d' : Nat → Decoder (Option β)}
    (hfirst : ∀ ar, Agrees ar (first ar) d) (halt : ∀ i ar, AltAgrees ar (alt i ar) (d' i))
    {old : α ⊕ β} {k : UInt8 → Decoder (α ⊕ β)} (hzero : ∀ s, s.toNat = 0 → k s = .inl <$> d)
    (hsucc : ∀ s i, s.toNat = i + 1 → k s = (fun v => v.elim old .inr) <$> d' i) (ar : IArchive) :
    Agrees ar (fillVariant first alt old ar) (uint8 >>= k) := by
  unfold fillVariant
  rcases read_cases kept_uint8 ar with ⟨selector, pos, hread, hsel⟩ | ⟨e, pos, hread, hsel⟩
  · rw [hread]
    dsimp only
    refine .after hsel ?_
    cases hn : selector.toNat with
    | zero =>
      rw [hzero selector hn]
      exact (hfirst _).map _
    | succ i =>
      rw [hsucc selector i hn]
      dsimp only
      rcases halt i { ar with pos } with ⟨r, d₁, hr, hd, hagrees⟩ | ⟨hr, hd⟩
      · rw [hr, hd, Functor.map_map]
        exact hagrees.map _
      · rw [hr, hd]
        exact .pure old
  · rw [hread]
    exact .of_error rfl (bind_of_error hsel) rfl

end Containers

namespace Ty

mutual

/-- The decoders in place do what the value decoders do. -/
theorem fill_agrees : ∀ (t : Ty) (old : t.Val) (ar : IArchive),
    Agrees ar (t.fill old ar) (t.decode old)
  | .bool, old, _ => assign_agrees (kept_uint8.map _) old
  | .uint w, old, _ | .sint w, old, _ => assign_agrees ((kept_word w.octets).map _) old
  | .octets, old, ar => fillOctets_agrees old ar
  | .bitmap _, old, ar => fillBitmap_agrees old ar
  | .array _ t, old, ar => fillArray_agrees (fill_agrees t) t.fresh old ar
  | .list t, old, ar => fillList_agrees (fill_agrees t) t.fresh old ar
  | .seq ts, old, ar => fillSeq_agrees ts old ar
  | .variant t ts, old, ar => by
    rw [fill, decode]
    refine fillVariant_agrees (fill_agrees t t.fresh) (fillAlt_agrees ts) (fun s hs => ?_)
      (fun s i hs => ?_) ar
    · simp only [hs]
      rfl
    · simp only [hs, ← bind_pure_comp]
      exact bind_congr fun v => by cases v <;> rfl

theorem fillSeq_agrees : ∀ (ts : List Ty) (old : SeqVal ts) (ar : IArchive),
    Agrees ar (fillSeq ts old ar) (decodeSeq ts old)
  | [], old, _ => .pure old
  | t :: ts, old, ar => (fill_agrees t old.1 ar).both old.2 (fillSeq_agrees ts old.2)

theorem fillAlt_agrees : ∀ (ts : List Ty) (i : Nat) (ar : IArchive),
    AltAgrees ar (fillAlt ts i ar) (decodeAlt ts i)
  | [], _, _ => .inr ⟨rfl, rfl⟩
  | t :: ts, 0, ar =>
    .inl ⟨_, .inl <$> decode t t.fresh, rfl, comp_map _ _ _, (fill_agrees t t.fresh ar).map _⟩
  | t :: ts, i + 1, ar => by
    rw [fillAlt, decodeAlt]
    rcases fillAlt_agrees ts i ar with ⟨r, d, hr, hd, hagrees⟩ | ⟨hr, hd⟩
    · rw [hr, hd, Functor.map_map]
      exact .inl ⟨r.map .inr, .inr <$> d, rfl, comp_map _ _ _, hagrees.map _⟩
    · rw [hr, hd]
      exact .inr ⟨rfl, rfl⟩

end

end Ty

end Odtone.Wire
