import Odtone.Dns.Name

/-! # Decompression of domain names

`Name p i ls e` says that position `i` holds a domain name as RFC 1035 has them, with the labels
`ls`, and that `e` is the position behind the bytes it has there. `Spells p i x` says what
`parse_domain_name` copies together from position `i` on.

The two agree if every pointer of the name leads to a label. A pointer that leads to a pointer is
followed once, and the second one then taken for a label of at least 192 bytes; one that leads to
the end of a name is read on behind it. -/

namespace Odtone.Dns

open List Loop NameLoop

/-! ## Names -/

/-- A domain name: labels up to a zero byte or a pointer to an earlier name. -/
inductive Name (p : Int → UInt8) : Int → List (List UInt8) → Int → Prop
  | root {i : Int} (h : p i = 0) : Name p i [] (i + 1)
  | label {i e : Int} {ls : List (List UInt8)} (hne : p i ≠ 0) (hle : (p i).toNat ≤ 63)
      (h : Name p (i + (p i).toNat + 1) ls e) : Name p i (bytesAt p (i + 1) (p i).toNat :: ls) e
  | pointer {i e : Int} {ls : List (List UInt8)} (hp : 192 ≤ (p i).toNat) (hlt : target p i < i)
      (h : Name p (target p i) ls e) : Name p i ls (i + 2)

/-- All pointers of the name at a position lead to labels. -/
inductive Plain (p : Int → UInt8) : Int → Prop
  | root {i : Int} (h : p i = 0) : Plain p i
  | label {i : Int} (hne : p i ≠ 0) (hle : (p i).toNat ≤ 63) (h : Plain p (i + (p i).toNat + 1)) :
      Plain p i
  | pointer {i : Int} (hp : 192 ≤ (p i).toNat) (hne : p (target p i) ≠ 0)
      (hle : (p (target p i)).toNat ≤ 63) (h : Plain p (target p i)) : Plain p i

/-- The labels with a dot behind each. -/
def dotted (ls : List (List UInt8)) : List UInt8 := ls.flatMap (· ++ [dot])

@[simp] theorem dotted_nil : dotted [] = [] := rfl

@[simp] theorem dotted_cons (l : List UInt8) (ls : List (List UInt8)) :
    dotted (l :: ls) = l ++ dot :: dotted ls := by
  simp [dotted]

theorem dropLast_dotted (ls : List (List UInt8)) : (dotted ls).dropLast = intercalate [dot] ls := by
  induction ls with
  | nil => rfl
  | cons l ls ih =>
    cases ls with
    | nil => simp [intercalate]
    | cons l' ls =>
      rw [dotted_cons, dropLast_append_of_ne_nil (by simp), dropLast_cons_of_ne_nil (by simp), ih]
      simp [intercalate, intersperse]

/-! ## What the parser spells -/

/-- The bytes at a position, as the parser takes them: a length, so many bytes and a dot, over and
over until the length is zero; a pointer is followed to a length. -/
inductive Spells (p : Int → UInt8) : Int → List UInt8 → Prop
  | stop {i : Int} (h : p i = 0) : Spells p i []
  | label {i : Int} {x : List UInt8} (hne : p i ≠ 0) (hlt : (p i).toNat < 192)
      (h : Spells p (i + (p i).toNat + 1) x) :
      Spells p i (bytesAt p (i + 1) (p i).toNat ++ dot :: x)
  | pointer {i : Int} {x : List UInt8} (hp : 192 ≤ (p i).toNat)
      (h : Spells p (target p i + (p (target p i)).toNat + 1) x) :
      Spells p i (bytesAt p (target p i + 1) (p (target p i)).toNat ++ dot :: x)

/-- The first pointer of the name that does not lead to a label leads to a pointer, and the bytes
there, taken as a length and what follows, happen to spell the rest of the name. -/
inductive Misread (p : Int → UInt8) : Int → List (List UInt8) → Prop
  | label {i : Int} {ls : List (List UInt8)} (hne : p i ≠ 0) (hle : (p i).toNat ≤ 63)
      (h : Misread p (i + (p i).toNat + 1) ls) : Misread p i (bytesAt p (i + 1) (p i).toNat :: ls)
  | pointer {i : Int} {ls : List (List UInt8)} (hp : 192 ≤ (p i).toNat) (hne : p (target p i) ≠ 0)
      (hle : (p (target p i)).toNat ≤ 63) (h : Misread p (target p i) ls) : Misread p i ls
  | chain {i : Int} {ls : List (List UInt8)} {x : List UInt8} (hp : 192 ≤ (p i).toNat)
      (ht : 192 ≤ (p (target p i)).toNat)
      (h : Spells p (target p i + (p (target p i)).toNat + 1) x)
      (heq : dotted ls = bytesAt p (target p i + 1) (p (target p i)).toNat ++ dot :: x) :
      Misread p i ls

section Spelling

variable {p : Int → UInt8} {i e : Int} {ls : List (List UInt8)} {x : List UInt8}

theorem ne_zero_of_pointer (h : 192 ≤ (p i).toNat) : p i ≠ 0 := by
  intro h0
  rw [h0] at h
  exact absurd h (by decide)

theorem bytesAt_length (a : Int) (n : Nat) : (bytesAt p a n).length = n := by
  simp [bytesAt]

namespace Spells

theorem of_zero (h0 : p i = 0) (h : Spells p i x) : x = [] := by
  cases h with
  | stop => rfl
  | label hne => exact absurd h0 hne
  | pointer hp => exact absurd h0 (ne_zero_of_pointer hp)

theorem of_label (hne : p i ≠ 0) (hlt : (p i).toNat < 192) (h : Spells p i x) :
    ∃ y, x = bytesAt p (i + 1) (p i).toNat ++ dot :: y ∧ Spells p (i + (p i).toNat + 1) y := by
  cases h with
  | stop h0 => exact absurd h0 hne
  | label _ _ h => exact ⟨_, rfl, h⟩
  | pointer hp => omega

theorem of_pointer (hp : 192 ≤ (p i).toNat) (h : Spells p i x) :
    ∃ y, x = bytesAt p (target p i + 1) (p (target p i)).toNat ++ dot :: y ∧
      Spells p (target p i + (p (target p i)).toNat + 1) y := by
  cases h with
  | stop h0 => exact absurd h0 (ne_zero_of_pointer hp)
  | label _ hlt => omega
  | pointer _ h => exact ⟨_, rfl, h⟩

/-- A text is empty or ends with a dot. -/
theorem ends (h : Spells p i x) : x = [] ∨ ∃ y, x = y ++ [dot] := by
  have hcons {y : List UInt8} (hy : y = [] ∨ ∃ z, y = z ++ [dot]) (l : List UInt8) :
      ∃ z, l ++ dot :: y = z ++ [dot] := by
    rcases hy with rfl | ⟨z, rfl⟩
    · exact ⟨l, rfl⟩
    · exact ⟨l ++ dot :: z, by simp⟩
  induction h with
  | stop => exact .inl rfl
  | label _ _ _ ih | pointer _ _ ih => exact .inr (hcons ih _)

theorem iff_of_pointer_to_label (hp : 192 ≤ (p i).toNat) (hne : p (target p i) ≠ 0)
    (hle : (p (target p i)).toNat ≤ 63) : Spells p i x ↔ Spells p (target p i) x := by
  constructor
  · intro h
    obtain ⟨y, rfl, hy⟩ := h.of_pointer hp
    exact .label hne (by omega) hy
  · intro h
    obtain ⟨y, rfl, hy⟩ := h.of_label hne (by omega)
    exact .pointer hp hy

end Spells

theorem Name.of_zero (h0 : p i = 0) (h : Name p i ls e) : ls = [] := by
  cases h with
  | root => rfl
  | label hne => exact absurd h0 hne
  | pointer hp => exact absurd h0 (ne_zero_of_pointer hp)

/-- What a name begins with: its end, a label or a pointer. -/
theorem Name.head (h : Name p i ls e) :
    p i = 0 ∨ (p i ≠ 0 ∧ (p i).toNat ≤ 63) ∨ 192 ≤ (p i).toNat := by
  cases h with
  | root h0 => exact .inl h0
  | label hne hle => exact .inr (.inl ⟨hne, hle⟩)
  | pointer hp => exact .inr (.inr hp)

theorem plain_of_label (hne : p i ≠ 0) (hle : (p i).toNat ≤ 63) :
    Plain p i ↔ Plain p (i + (p i).toNat + 1) := by
  refine ⟨fun h => ?_, .label hne hle⟩
  cases h with
  | root h0 => exact absurd h0 hne
  | label _ _ h => exact h
  | pointer hp => omega

theorem misread_of_label (hne : p i ≠ 0) (hle : (p i).toNat ≤ 63) :
    Misread p i (bytesAt p (i + 1) (p i).toNat :: ls) ↔ Misread p (i + (p i).toNat + 1) ls := by
  refine ⟨fun h => ?_, .label hne hle⟩
  cases h with
  | label _ _ h => exact h
  | pointer | chain => omega

theorem plain_of_pointer (hp : 192 ≤ (p i).toNat) :
    Plain p i ↔ p (target p i) ≠ 0 ∧ (p (target p i)).toNat ≤ 63 ∧ Plain p (target p i) := by
  refine ⟨fun h => ?_, fun ⟨hne, hle, h⟩ => .pointer hp hne hle h⟩
  cases h with
  | root h0 => exact absurd h0 (ne_zero_of_pointer hp)
  | label _ hle => omega
  | pointer _ hne hle h => exact ⟨hne, hle, h⟩

theorem misread_of_pointer (hp : 192 ≤ (p i).toNat) : Misread p i ls ↔
    (p (target p i) ≠ 0 ∧ (p (target p i)).toNat ≤ 63 ∧ Misread p (target p i) ls) ∨
    (192 ≤ (p (target p i)).toNat ∧
      ∃ x, dotted ls = bytesAt p (target p i + 1) (p (target p i)).toNat ++ dot :: x ∧
        Spells p (target p i + (p (target p i)).toNat + 1) x) := by
  constructor
  · intro h
    cases h with
    | label _ hle => omega
    | pointer _ hne hle h => exact .inl ⟨hne, hle, h⟩
    | chain _ ht h heq => exact .inr ⟨ht, _, heq, h⟩
  · rintro (⟨hne, hle, h⟩ | ⟨ht, x, heq, h⟩)
    · exact .pointer hp hne hle h
    · exact .chain hp ht h heq

/-- The parser spells a name exactly if all its pointers lead to labels, or by accident. -/
theorem Name.spells_iff (h : Name p i ls e) :
    Spells p i (dotted ls) ↔ Plain p i ∨ Misread p i ls := by
  induction h with
  | root h0 => exact iff_of_true (.stop h0) (.inl (.root h0))
  | label hne hle h ih =>
    rw [plain_of_label hne hle, misread_of_label hne hle, ← ih, dotted_cons]
    constructor
    · intro hs
      obtain ⟨y, hy, hs⟩ := hs.of_label hne (by omega)
      cases append_cancel_left hy
      exact hs
    · exact .label hne (by omega)
  | pointer hp hlt h ih =>
    rw [plain_of_pointer hp, misread_of_pointer hp]
    rcases h.head with h0 | ⟨hne, hle⟩ | ht
    · -- the end of a name spells a dot, which is not in the name
      cases h.of_zero h0
      refine iff_of_false (fun hs => ?_) ?_
      · obtain ⟨y, hy, -⟩ := hs.of_pointer hp
        simp at hy
      · rintro (⟨hne, -⟩ | ⟨hne, -⟩ | ⟨ht, -⟩)
        · exact hne h0
        · exact hne h0
        · exact ne_zero_of_pointer ht h0
    · rw [Spells.iff_of_pointer_to_label hp hne hle, ih]
      constructor
      · rintro (h | h)
        · exact .inl ⟨hne, hle, h⟩
        · exact .inr (.inl ⟨hne, hle, h⟩)
      · rintro (⟨-, -, h⟩ | ⟨-, -, h⟩ | ⟨ht, -⟩)
        · exact .inl h
        · exact .inr h
        · omega
    · constructor
      · intro hs
        obtain ⟨y, hy, hs⟩ := hs.of_pointer hp
        exact .inr (.inr ⟨ht, y, hy, hs⟩)
      · rintro (⟨-, hle, -⟩ | ⟨-, hle, -⟩ | ⟨-, x, heq, hs⟩)
        · omega
        · omega
        · rw [heq]
          exact .pointer hp hs

theorem Name.ne_nil_of_mem (h : Name p i ls e) : ∀ l ∈ ls, l ≠ [] := by
  induction h with
  | root => simp
  | label hne hle _ ih =>
    refine forall_mem_cons.mpr ⟨fun hnil => hne ?_, ih⟩
    have hlen := congrArg length hnil
    rw [bytesAt_length] at hlen
    exact UInt8.toNat_inj.mp hlen
  | pointer _ _ _ ih => exact ih

theorem dotted_ends (l : List UInt8) (ls : List (List UInt8)) :
    ∃ y, dotted (l :: ls) = l ++ y ++ [dot] := by
  induction ls generalizing l with
  | nil => exact ⟨[], by simp⟩
  | cons l' ls ih =>
    obtain ⟨y, hy⟩ := ih l'
    exact ⟨dot :: (l' ++ y), by rw [dotted_cons, hy]; simp⟩

/-- Two texts that agree without their last dot agree, unless one of them is only a dot. -/
theorem Name.dropLast_eq_iff (h : Name p i ls e) (hx : x = [] ∨ ∃ y, x = y ++ [dot]) :
    x.dropLast = (dotted ls).dropLast ↔ x = dotted ls ∨ x = [dot] ∧ ls = [] := by
  cases ls with
  | nil =>
    rcases hx with rfl | ⟨y, rfl⟩
    · simp
    · simp
  | cons l ls =>
    obtain ⟨z, hz⟩ := dotted_ends l ls
    have hl : l ≠ [] := h.ne_nil_of_mem l (by simp)
    rw [hz]
    rcases hx with rfl | ⟨y, rfl⟩
    · simp [hl]
    · simp [-append_assoc]

theorem Spells.zero_of_nil (h : Spells p i x) (hx : x = []) : p i = 0 := by
  cases h with
  | stop h0 => exact h0
  | label | pointer => simp at hx

theorem spells_dot_iff : Spells p i [dot] ↔
    192 ≤ (p i).toNat ∧ p (target p i) = 0 ∧ p (target p i + 1) = 0 := by
  have hdot {l y : List UInt8} (h : [dot] = l ++ dot :: y) : l.length = 0 ∧ y = [] := by
    have hlen := congrArg length h
    simp only [length_cons, length_nil, length_append] at hlen
    exact ⟨by omega, length_eq_zero_iff.mp (by omega)⟩
  constructor
  · intro h
    by_cases hp : 192 ≤ (p i).toNat
    · obtain ⟨y, hy, h⟩ := h.of_pointer hp
      obtain ⟨hl, rfl⟩ := hdot hy
      rw [bytesAt_length] at hl
      have h0 := h.zero_of_nil rfl
      rw [hl] at h0
      exact ⟨hp, UInt8.toNat_inj.mp hl, by simpa using h0⟩
    · by_cases h0 : p i = 0
      · cases h.of_zero h0
      · obtain ⟨y, hy, -⟩ := h.of_label h0 (not_le.mp hp)
        have hl := (hdot hy).1
        rw [bytesAt_length] at hl
        exact absurd (UInt8.toNat_inj.mp hl) h0
  · rintro ⟨hp, h0, h1⟩
    have h := Spells.pointer hp (Spells.stop (by rw [h0]; simpa using h1))
    rw [h0] at h
    exact h

theorem Name.eq_nil_of_spells_dot (h : Name p i ls e) (hs : Spells p i [dot]) : ls = [] := by
  obtain ⟨hp, h0, -⟩ := spells_dot_iff.mp hs
  cases h with
  | root => rfl
  | label _ hle => omega
  | pointer _ _ h => exact h.of_zero h0

end Spelling

/-! ## The parser -/

section Parser

variable {p : Int → UInt8} {i e : Int} {ls : List (List UInt8)} {x : List UInt8} {s t : NameLoop}

/-- The loop is left with the text spelled from where it starts. -/
theorem spells_of_run {fuel : Nat} (h : run (nameRound p) fuel s = some t) :
    ∃ x, t.qname = s.qname ++ x ∧ Spells p s.tmp x := by
  induction fuel generalizing s with
  | zero => cases h
  | succ fuel ih =>
    by_cases h0 : p s.tmp = 0
    · rw [run_of_none (nameRound_of_zero h0)] at h
      cases h
      exact ⟨[], by simp, .stop h0⟩
    · rcases lt_or_ge (p s.tmp).toNat 192 with hlt | hp
      · rw [run_of_some (nameRound_of_label h0 hlt)] at h
        obtain ⟨x, hx, hs⟩ := ih h
        exact ⟨_, by rw [hx]; simp [copy], .label h0 hlt hs⟩
      · rw [run_of_some (nameRound_of_pointer hp)] at h
        obtain ⟨x, hx, hs⟩ := ih h
        exact ⟨_, by rw [hx]; simp [copy], .pointer hp hs⟩

theorem Spells.run (h : Spells p i x) (hs : s.tmp = i) :
    ∃ fuel t, run (nameRound p) fuel s = some t ∧ t.qname = s.qname ++ x := by
  induction h generalizing s with
  | stop h0 =>
    subst hs
    exact ⟨1, s, run_of_none (nameRound_of_zero h0), by simp⟩
  | label hne hlt h ih =>
    subst hs
    obtain ⟨fuel, t, ht, hq⟩ := ih (s := copy p
      { s with pos := if s.pointer then s.pos else s.pos + ((p s.tmp).toNat + 1) } (p s.tmp)) rfl
    refine ⟨fuel + 1, t, (run_of_some (nameRound_of_label hne hlt)).trans ht, ?_⟩
    rw [hq]
    simp [copy]
  | pointer hp h ih =>
    subst hs
    obtain ⟨fuel, t, ht, hq⟩ := ih (s := copy p
      { s with
        pos := if s.pointer then s.pos else s.pos + 2
        tmp := target p s.tmp
        pointer := true } (p (target p s.tmp))) rfl
    refine ⟨fuel + 1, t, (run_of_some (nameRound_of_pointer hp)).trans ht, ?_⟩
    rw [hq]
    simp [copy]

/-- Behind a pointer the position does not move. -/
theorem run_nameRound_pointer {fuel : Nat} (hs : s.pointer = true)
    (h : run (nameRound p) fuel s = some t) : t.pointer = true ∧ t.pos = s.pos := by
  induction fuel generalizing s with
  | zero => cases h
  | succ fuel ih =>
    by_cases h0 : p s.tmp = 0
    · rw [run_of_none (nameRound_of_zero h0)] at h
      cases h
      exact ⟨hs, rfl⟩
    · rcases lt_or_ge (p s.tmp).toNat 192 with hlt | hp
      · rw [run_of_some (nameRound_of_label h0 hlt)] at h
        obtain ⟨hptr, hpos⟩ := ih (by exact hs) h
        exact ⟨hptr, by simp [hpos, copy, hs]⟩
      · rw [run_of_some (nameRound_of_pointer hp)] at h
        obtain ⟨hptr, hpos⟩ := ih rfl h
        exact ⟨hptr, by simp [hpos, copy, hs]⟩

/-- Where the loop is left, the position is the one behind the name. -/
theorem Name.run_pos {fuel : Nat} (hname : Name p i ls e) (htmp : s.tmp = i) (hpos : s.pos = i)
    (hs : s.pointer = false) (h : run (nameRound p) fuel s = some t) :
    (if t.pointer then t.pos else t.pos + 1) = e := by
  induction hname generalizing s fuel with
  | root h0 =>
    cases fuel with
    | zero => cases h
    | succ fuel =>
      rw [run_of_none (nameRound_of_zero (by rw [htmp, h0]))] at h
      cases h
      simp [hs, hpos]
  | label hne hle _ ih =>
    cases fuel with
    | zero => cases h
    | succ fuel =>
      subst htmp
      rw [run_of_some (nameRound_of_label hne (by omega))] at h
      refine ih rfl ?_ (by exact hs) h
      simp only [copy, hs, hpos, Bool.false_eq_true, if_false]
      omega
  | pointer hp _ _ _ =>
    cases fuel with
    | zero => cases h
    | succ fuel =>
      subst htmp
      rw [run_of_some (nameRound_of_pointer hp)] at h
      obtain ⟨hptr, hpos'⟩ := run_nameRound_pointer rfl h
      simp [hptr, hpos', copy, hs, hpos]

/-- What the parser returns, if it does, is the spelled text without the last dot. -/
theorem parseDomainName_iff {q : List UInt8} :
    (∃ fuel pos, parseDomainName p fuel i = some (q, pos)) ↔ ∃ x, Spells p i x ∧
    q = x.dropLast := by
  constructor
  · rintro ⟨fuel, pos, hparse⟩
    obtain ⟨t, ht, heq⟩ := Option.map_eq_some_iff.mp hparse
    obtain ⟨x, hx, hs⟩ := spells_of_run ht
    refine ⟨x, hs, ?_⟩
    rw [← (Prod.mk.inj heq).1, hx]
    rfl
  · rintro ⟨x, hs, rfl⟩
    obtain ⟨fuel, t, ht, hq⟩ := hs.run (s := { tmp := i, pos := i }) rfl
    refine ⟨fuel, if t.pointer then t.pos else t.pos + 1, ?_⟩
    rw [parseDomainName, ht, Option.map_some, hq]
    rfl

/-- The position is the one behind the name. -/
theorem Name.parse_eq_iff (h : Name p i ls e) {q : List UInt8} :
    (∃ fuel, parseDomainName p fuel i = some (q, e)) ↔ ∃ x, Spells p i x ∧ q = x.dropLast := by
  rw [← parseDomainName_iff]
  refine exists_congr fun fuel => ⟨fun hq => ⟨e, hq⟩, fun ⟨pos, hq⟩ => ?_⟩
  obtain ⟨t, ht, heq⟩ := Option.map_eq_some_iff.mp hq
  rw [hq, ← (Prod.mk.inj heq).2, h.run_pos rfl rfl rfl ht]

end Parser

/-- The parser returns the labels of a name, joined by dots, and the position behind the name,
exactly if all pointers of the name lead to labels, or by one of two accidents: the first pointer
that leads to a pointer leads to bytes that spell the rest of the name, or the name is a single
pointer to the end of a name, with another zero behind it. -/
theorem parseDomainName_decompresses_iff (fm : List UInt8) (i e : Int) (ls : List (List UInt8))
    (h : Name (payload fm) i ls e) :
    (∃ fuel, parseDomainName (payload fm) fuel i = some (intercalate [dot] ls, e)) ↔
      Plain (payload fm) i ∨ Misread (payload fm) i ls ∨
        (192 ≤ (payload fm i).toNat ∧ payload fm (target (payload fm) i) = 0 ∧
          payload fm (target (payload fm) i + 1) = 0) := by
  rw [h.parse_eq_iff, ← or_assoc, ← h.spells_iff, ← spells_dot_iff, ← dropLast_dotted]
  constructor
  · rintro ⟨x, hs, heq⟩
    rcases (h.dropLast_eq_iff hs.ends).mp heq.symm with rfl | ⟨rfl, -⟩
    · exact .inl hs
    · exact .inr hs
  · rintro (hs | hs)
    · exact ⟨_, hs, rfl⟩
    · cases h.eq_nil_of_spells_dot hs
      exact ⟨_, hs, rfl⟩

/-- A label, and behind it a pointer to it. -/
def sampleNames : List UInt8 := replicate 12 0 ++ [1, 97, 0, 0xC0, 12]

theorem parseDomainName_decompresses_pointer :
    ∃ fuel, parseDomainName (payload sampleNames) fuel 3 = some ([97], 5) := by
  have hroot : Name (payload sampleNames) 2 [] 3 := .root (by decide)
  have hlabel : Name (payload sampleNames) 0 [[97]] 3 := .label (by decide) (by decide) hroot
  have hplain : Plain (payload sampleNames) 3 :=
    .pointer (by decide) (by decide) (by decide)
      (.label (by decide) (by decide) (.root (by decide)))
  exact (parseDomainName_decompresses_iff sampleNames 3 5 [[97]]
    (.pointer (by decide) (by decide) hlabel)).mpr (.inl hplain)

/-- The name `b` with a pointer to the end of another name at its end, and a pointer to a pointer to
the name `a`. -/
theorem parseDomainName_runs_on :
    (Name (payload (replicate 12 0 ++ [0, 0, 1, 98, 0xC0, 12])) 2 [[98]] 6 ∧
      parseDomainName (payload (replicate 12 0 ++ [0, 0, 1, 98, 0xC0, 12])) 4 2 =
        some ([98, dot], 6)) ∧
    Name (payload (sampleNames ++ [0xC0, 15])) 5 [[97]] 7 ∧
      ∃ q, parseDomainName (payload (sampleNames ++ [0xC0, 15])) 4 5 = some (q, 7) ∧
        q.length = 192 := by
  have hroot : Name (payload (replicate 12 0 ++ [0, 0, 1, 98, 0xC0, 12])) 0 [] 1 :=
    .root (by decide)
  have htail : Name (payload (replicate 12 0 ++ [0, 0, 1, 98, 0xC0, 12])) 4 [] 6 :=
    .pointer (by decide) (by decide) hroot
  have hend : Name (payload (sampleNames ++ [0xC0, 15])) 2 [] 3 := .root (by decide)
  have hname : Name (payload (sampleNames ++ [0xC0, 15])) 0 [[97]] 3 :=
    .label (by decide) (by decide) hend
  have hfirst : Name (payload (sampleNames ++ [0xC0, 15])) 3 [[97]] 5 :=
    .pointer (by decide) (by decide) hname
  exact ⟨⟨.label (by decide) (by decide) htail, by decide⟩, .pointer (by decide) (by decide) hfirst,
    _, rfl, rfl⟩

end Odtone.Dns
