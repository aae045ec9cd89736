import Mathlib.Data.List.Basic

/-! # Readers over a buffer with a position

A reader consumes a fixed buffer from a position it moves forward, and may fail. A failing reader
still leaves a position behind, so "the position is restored on failure" is a property of a reader
and not a convention of the model.

`Reads B d P enc a` is the specification used for round trips: wherever `enc` ends before `B` in a
buffer and whatever follows it, as long as the rest satisfies `P`, the reader `d` started at the
beginning of `enc` returns `a` and stops right behind `enc`. The rest matters because a length field
may only be readable when something comes after it.
-/

universe u v w

namespace Except

open List

variable {ε : Type u} {α β : Type v} {f : α → Except ε β} {x : Except ε α}

theorem bind_eq_ok {b : β} : (x >>= f) = .ok b ↔ ∃ a, x = .ok a ∧ f a = .ok b := by
  cases x with
  | error | ok => simp [bind, Except.bind]

theorem map_eq_ok {f : α → β} {b : β} : x.map f = .ok b ↔ ∃ a, x = .ok a ∧ f a = b := by
  cases x with
  | error | ok => simp [Except.map]

/-- All elements are mapped successfully, in order. -/
theorem mapM_eq_ok {as : List α} {bs : List β} (h : as.mapM f = .ok bs) :
    Forall₂ (fun b a => f a = .ok b) bs as := by
  induction as generalizing bs with
  | nil =>
    cases h
    exact .nil
  | cons a as ih =>
    rw [mapM_cons] at h
    obtain ⟨b, hb, h⟩ := bind_eq_ok.mp h
    obtain ⟨bs, hbs, h⟩ := bind_eq_ok.mp h
    cases h
    exact .cons hb (ih hbs)

theorem exists_bind_ok : (∃ b, (x >>= f) = .ok b) ↔ ∃ a, x = .ok a ∧ ∃ b, f a = .ok b := by
  simp only [bind_eq_ok]
  exact ⟨fun ⟨b, a, ha, hb⟩ => ⟨a, ha, b, hb⟩, fun ⟨a, ha, b, hb⟩ => ⟨b, a, ha, hb⟩⟩

theorem exists_bind_of_ok {a : α} (h : x = .ok a) :
    (∃ b, (x >>= f) = .ok b) ↔ ∃ b, f a = .ok b := by
  rw [h]
  exact Iff.rfl

theorem exists_map_ok {f : α → β} : (∃ b, f <$> x = .ok b) ↔ ∃ a, x = .ok a := by
  cases x with
  | error | ok => simp [Functor.map, Except.map]

/-- A fold succeeds exactly if its steps do, where this does not depend on what they start from. -/
theorem exists_foldlM_ok {f : β → α → Except ε β} {p : α → Prop}
    (hf : ∀ b a, (∃ c, f b a = .ok c) ↔ p a) (as : List α) (b : β) :
    (∃ c, as.foldlM f b = .ok c) ↔ ∀ a ∈ as, p a := by
  induction as generalizing b with
  | nil => exact ⟨fun _ _ h => (not_mem_nil h).elim, fun _ => ⟨b, rfl⟩⟩
  | cons a as ih =>
    rw [foldlM_cons, exists_bind_ok, forall_mem_cons, ← hf b a]
    constructor
    · rintro ⟨c, hc, h⟩
      exact ⟨⟨c, hc⟩, (ih c).mp h⟩
    · rintro ⟨⟨c, hc⟩, h⟩
      exact ⟨c, hc, (ih c).mpr h⟩

end Except

/-- A buffer together with the index of the next element to read. -/
structure Cursor (β : Type u) where
  buf : List β
  pos : Nat
deriving DecidableEq

namespace Cursor

variable {β : Type} {ε : Type} {α γ : Type}

/-- Fallible readers; the cursor survives a failure. -/
abbrev Reader (ε β α : Type) := EStateM ε (Cursor β) α

/-- Run `d`; if it fails, put the position back where it was and fail again. -/
def restoring (d : Reader ε β α) : Reader ε β α := fun c =>
  match d c with
  | .ok a c' => .ok a c'
  | .error e c' => .error e { c' with pos := c.pos }

variable {d : Reader ε β α} {c c' : Cursor β} {f : α → Reader ε β γ}

theorem bind_ok {b : γ} : (d >>= f) c = .ok b c' ↔ ∃ a s, d c = .ok a s ∧ f a s = .ok b c' := by
  change EStateM.bind d f c = _ ↔ _
  rw [EStateM.bind]
  cases d c with
  | ok | error => simp

theorem map_ok {f : α → γ} {b : γ} : (f <$> d) c = .ok b c' ↔ ∃ a, d c = .ok a c' ∧ f a = b := by
  change EStateM.map f d c = _ ↔ _
  rw [EStateM.map]
  cases d c with
  | ok a s => simp [and_comm]
  | error e s => simp

theorem restoring_ok {a : α} : restoring d c = .ok a c' ↔ d c = .ok a c' := by
  unfold restoring
  cases d c with
  | ok | error => simp

theorem bind_of_ok {a : α} (h : d c = .ok a c') : (d >>= f) c = f a c' := by
  change EStateM.bind d f c = _
  rw [EStateM.bind, h]

theorem bind_of_error {e : ε} (h : d c = .error e c') : (d >>= f) c = .error e c' := by
  change EStateM.bind d f c = _
  rw [EStateM.bind, h]

theorem map_of_ok {f : α → γ} {a : α} (h : d c = .ok a c') : (f <$> d) c = .ok (f a) c' := by
  change EStateM.map f d c = _
  rw [EStateM.map, h]

theorem map_of_error {f : α → γ} {e : ε} (h : d c = .error e c') : (f <$> d) c = .error e c' := by
  change EStateM.map f d c = _
  rw [EStateM.map, h]

theorem restoring_of_error {e : ε} (h : d c = .error e c') :
    restoring d c = .error e { c' with pos := c.pos } := by
  rw [restoring, h]

theorem pos_of_restoring_error {e : ε} (h : restoring d c = .error e c') : c'.pos = c.pos := by
  unfold restoring at h
  cases hd : d c with
  | ok a s =>
    rw [hd] at h
    cases h
  | error e s =>
    rw [hd] at h
    cases h
    rfl

/-- `d` reads the encoding `enc` of `a` in every buffer in which it ends before `B` and the elements
behind it satisfy `P`. -/
def Reads (B : Nat) (d : Reader ε β α) (P : List β → Prop) (enc : List β) (a : α) : Prop :=
  ∀ pre post : List β, (pre ++ enc).length < B → P post → d ⟨pre ++ (enc ++ post), pre.length⟩ =
      .ok a ⟨pre ++ (enc ++ post), pre.length + enc.length⟩

namespace Reads

variable {B : Nat} {P Q : List β → Prop} {enc enc' : List β} {a : α}

theorem pure (a : α) : Reads B (Pure.pure a : Reader ε β α) P [] a := fun _ _ _ _ => rfl

/-- A stronger condition on the rest may be assumed. -/
theorem mono (h : Reads B d P enc a) (hPQ : ∀ post, Q post → P post) : Reads B d Q enc a :=
  fun pre post hB hQ => h pre post hB (hPQ post hQ)

/-- Reading in sequence: the second encoding is part of what the first reader sees as the rest. -/
theorem bind {c : γ} (h : Reads B d P enc a)
    (hf : Reads B (f a) Q enc' c) (hPQ : ∀ post, Q post → P (enc' ++ post)) :
    Reads B (d >>= f) Q (enc ++ enc') c := by
  intro pre post hB hQ
  have hd := h pre (enc' ++ post) (by simp only [List.length_append] at hB ⊢; omega) (hPQ post hQ)
  have hfa := hf (pre ++ enc) post (by simpa using hB) hQ
  simp only [List.append_assoc, List.length_append] at hd hfa hB ⊢
  change EStateM.bind d f _ = _
  simp only [EStateM.bind, hd, hfa, Nat.add_assoc]

theorem map {f : α → γ} (h : Reads B d P enc a) : Reads B (f <$> d) P enc (f a) := by
  intro pre post hB hP
  change EStateM.map f d _ = _
  simp only [EStateM.map, h pre post hB hP]

theorem of_map {f : α → γ} (hf : Function.Injective f) (h : Reads B (f <$> d) P enc (f a)) :
    Reads B d P enc a := by
  intro pre post hB hP
  obtain ⟨a', hd, heq⟩ := map_ok.mp (h pre post hB hP)
  rw [hd, hf heq]

theorem restoring (h : Reads B d P enc a) : Reads B (Cursor.restoring d) P enc a := by
  intro pre post hB hP
  simp only [Cursor.restoring, h pre post hB hP]

/-- The use of a specification in a buffer shorter than `B`. -/
theorem within (h : Reads B d P enc a) (pre post : List β) (hB : (pre ++ (enc ++ post)).length < B)
    (hP : P post) : d ⟨pre ++ (enc ++ post), pre.length⟩ =
      .ok a ⟨pre ++ (enc ++ post), pre.length + enc.length⟩ :=
  h pre post (by simp only [List.length_append] at hB ⊢; omega) hP

/-- The use of a specification: a reader started on a fresh buffer. -/
theorem run (h : Reads B d P enc a) (post : List β) (hB : enc.length < B)
    (hP : P post) : d ⟨enc ++ post, 0⟩ = .ok a ⟨enc ++ post, enc.length⟩ := by
  simpa using h [] post (by simpa using hB) hP

end Reads

/-- `d` fails on `enc` if nothing follows it. -/
def Rejects (B : Nat) (d : Reader ε β α) (enc : List β) : Prop :=
  ∀ pre : List β, (pre ++ enc).length < B → ∃ e c, d ⟨pre ++ enc, pre.length⟩ = .error e c

namespace Rejects

variable {B : Nat} {P : List β → Prop} {enc enc' : List β} {a : α}

theorem bind_left (h : Rejects B d enc) (f : α → Reader ε β γ) : Rejects B (d >>= f) enc := by
  intro pre hB
  obtain ⟨e, c, he⟩ := h pre hB
  refine ⟨e, c, ?_⟩
  change EStateM.bind d f _ = _
  simp only [EStateM.bind, he]

/-- Failure of the second of two readers. -/
theorem bind (h : Reads B d P enc a) (hf : Rejects B (f a) enc') (hP : P enc') :
    Rejects B (d >>= f) (enc ++ enc') := by
  intro pre hB
  have hd := h pre enc' (by simp only [List.length_append] at hB ⊢; omega) hP
  obtain ⟨e, c, he⟩ := hf (pre ++ enc) (by simpa using hB)
  refine ⟨e, c, ?_⟩
  simp only [List.append_assoc, List.length_append] at he
  change EStateM.bind d f _ = _
  simp only [EStateM.bind, hd, he]

theorem map (h : Rejects B d enc) (f : α → γ) : Rejects B (f <$> d) enc := by
  rw [← bind_pure_comp]
  exact h.bind_left _

theorem of_map {f : α → γ} (h : Rejects B (f <$> d) enc) : Rejects B d enc := by
  intro pre hB
  obtain ⟨e, c, he⟩ := h pre hB
  change EStateM.map f d _ = _ at he
  rw [EStateM.map] at he
  cases hd : d ⟨pre ++ enc, pre.length⟩ with
  | ok a s =>
    rw [hd] at he
    cases he
  | error e s => exact ⟨e, s, rfl⟩

theorem restoring (h : Rejects B d enc) : Rejects B (Cursor.restoring d) enc := by
  intro pre hB
  obtain ⟨e, c, he⟩ := h pre hB
  exact ⟨e, { c with pos := pre.length }, by simp only [Cursor.restoring, he]⟩

end Rejects

/-- `d` reads the encoding `enc` of `a`; if `ahead`, then something has to follow. -/
structure ReadsAhead (B : Nat) (d : Reader ε β α) (ahead : Bool) (enc : List β) (a : α) : Prop where
  reads : Reads B d (fun post => ahead = true → post ≠ []) enc a
  rejects : ahead = true → Rejects B d enc

namespace ReadsAhead

variable {B : Nat} {e e' e₂ : Bool} {enc enc' : List β} {a : α}

theorem closed (h : Reads B d (fun _ => True) enc a) : ReadsAhead B d false enc a :=
  ⟨h.mono fun _ _ => trivial, nofun⟩

theorem map {f : α → γ} (h : ReadsAhead B d e enc a) : ReadsAhead B (f <$> d) e enc (f a) :=
  ⟨h.reads.map, fun he => (h.rejects he).map f⟩

theorem of_map {f : α → γ} (hf : Function.Injective f) (h : ReadsAhead B (f <$> d) e enc (f a)) :
    ReadsAhead B d e enc a :=
  ⟨h.reads.of_map hf, fun he => (h.rejects he).of_map⟩

theorem restoring (h : ReadsAhead B d e enc a) : ReadsAhead B (Cursor.restoring d) e enc a :=
  ⟨h.reads.restoring, fun he => (h.rejects he).restoring⟩

/-- In sequence: the second encoding follows the first, if it is not empty. -/
theorem bind {c : γ} (h : ReadsAhead B d e enc a) (hf : ReadsAhead B (f a) e' enc' c)
    (hnil : enc' = [] → e' = false ∧ e₂ = e) (hcons : enc' ≠ [] → e₂ = e') :
    ReadsAhead B (d >>= f) e₂ (enc ++ enc') c := by
  by_cases h' : enc' = []
  · obtain ⟨rfl, rfl⟩ := hnil h'
    refine ⟨h.reads.bind (hf.reads.mono fun _ _ => nofun) fun post hpost => ?_, fun he => ?_⟩
    · rwa [h', List.nil_append]
    · rw [h', List.append_nil]
      exact (h.rejects he).bind_left f
  · obtain rfl := hcons h'
    exact ⟨h.reads.bind hf.reads fun _ _ _ => by simp [h'],
      fun he => .bind h.reads (hf.rejects he) fun _ => h'⟩

theorem after {c : γ} (h : Reads B d (fun _ => True) enc a) (hf : ReadsAhead B (f a) e enc' c) :
    ReadsAhead B (d >>= f) e (enc ++ enc') c :=
  ⟨h.bind hf.reads fun _ _ => trivial, fun he => .bind h (hf.rejects he) trivial⟩

end ReadsAhead

/-- A list of the same size that agrees with `pre ++ (enc ++ post)` on the place of `enc` has `enc`
there. -/
theorem exists_same_middle {pre enc post buf : List β}
    (hlen : buf.length = (pre ++ (enc ++ post)).length)
    (h : ∀ i, pre.length ≤ i → i < pre.length + enc.length → buf[i]? = (pre ++ (enc ++ post))[i]?) :
    ∃ pre' post', buf = pre' ++ (enc ++ post') ∧ pre'.length = pre.length ∧
      post'.length = post.length := by
  simp only [List.length_append] at hlen
  refine ⟨buf.take pre.length, buf.drop (pre.length + enc.length),
    ?_, by simp; omega, by simp; omega⟩
  have hmiddle : (buf.drop pre.length).take enc.length = enc := by
    apply List.ext_getElem?
    intro i
    rcases Nat.lt_or_ge i enc.length with hi | hi
    · rw [List.getElem?_take_of_lt hi, List.getElem?_drop, h _ (by omega) (by omega),
        List.getElem?_append_right (by omega), List.getElem?_append_left (by omega)]
      congr 1
      omega
    · rw [List.getElem?_eq_none (by simp; omega), List.getElem?_eq_none hi]
  calc buf = buf.take pre.length ++ buf.drop pre.length := (List.take_append_drop _ _).symm
    _ = _ := by
        rw [← List.take_append_drop enc.length (buf.drop pre.length), hmiddle, List.drop_drop]

/-! ## Consumption

`Parses B d L` describes what a reader takes on inputs it accepts, whatever they are: the elements
it has moved over form a word `enc` with `L a enc` for the value `a` returned, and nothing else of
the buffer matters for the result. -/

/-- If `d` succeeds in a buffer shorter than `B`, it has moved over a word of `L`, and it returns
the same in every buffer of the same size that has this word at the same place. -/
def Parses (B : Nat) (d : Reader ε β α) (L : α → List β → Prop) : Prop :=
  ∀ pre rest a c, (pre ++ rest).length < B → d ⟨pre ++ rest, pre.length⟩ = .ok a c →
    ∃ enc post, rest = enc ++ post ∧ c = ⟨pre ++ rest, pre.length + enc.length⟩ ∧ L a enc ∧
      ∀ pre' post', pre'.length = pre.length → post'.length = post.length →
        d ⟨pre' ++ (enc ++ post'), pre'.length⟩ =
          .ok a ⟨pre' ++ (enc ++ post'), pre'.length + enc.length⟩

namespace Parses

variable {B : Nat} {L : α → List β → Prop}

theorem pure (a : α) : Parses B (Pure.pure a : Reader ε β α) fun a' enc => a' = a ∧ enc = [] := by
  rintro pre rest _ _ - ⟨⟩
  exact ⟨[], rest, rfl, rfl, ⟨rfl, rfl⟩, fun _ _ _ _ => rfl⟩

theorem mono {M : α → List β → Prop} (h : Parses B d L) (hLM : ∀ a enc, L a enc → M a enc) :
    Parses B d M := by
  intro pre rest a c hB hd
  obtain ⟨enc, post, hrest, hc, hL, hlocal⟩ := h pre rest a c hB hd
  exact ⟨enc, post, hrest, hc, hLM a enc hL, hlocal⟩

/-- Readers in sequence take words one after the other. -/
theorem bind {M : α → γ → List β → Prop} (h : Parses B d L) (hf : ∀ a, Parses B (f a) (M a)) :
    Parses B (d >>= f) fun b enc => ∃ a x y, enc = x ++ y ∧ L a x ∧ M a b y := by
  intro pre rest b c hB hd
  change EStateM.bind d f _ = _ at hd
  cases hda : d ⟨pre ++ rest, pre.length⟩ with
  | error e c' => simp [EStateM.bind, hda] at hd
  | ok a c' =>
    obtain ⟨x, post, rfl, rfl, hL, hlocal⟩ := h pre rest a c' hB hda
    simp only [EStateM.bind, hda] at hd
    have hd' : f a ⟨(pre ++ x) ++ post, (pre ++ x).length⟩ = .ok b c := by
      simpa using hd
    obtain ⟨y, post, rfl, rfl, hM, hlocal'⟩ := hf a (pre ++ x) post b c (by simpa using hB) hd'
    refine ⟨x ++ y, post, by simp, by simp [Nat.add_assoc], ⟨a, x, y, rfl, hL, hM⟩, ?_⟩
    intro pre' post' hpre hpost
    have h₁ := hlocal pre' (y ++ post') hpre (by simp [hpost])
    have h₂ := hlocal' (pre' ++ x) post' (by simp [hpre]) hpost
    simp only [List.append_assoc, List.length_append] at h₁ h₂ ⊢
    change EStateM.bind d f _ = _
    simp only [EStateM.bind, h₁, h₂, Nat.add_assoc]

theorem map {f : α → γ} (h : Parses B d L) :
    Parses B (f <$> d) fun b enc => ∃ a, b = f a ∧ L a enc := by
  have hbind := h.bind fun a => Parses.pure (f a)
  refine hbind.mono ?_
  rintro _ _ ⟨a, x, _, rfl, hL, rfl, rfl⟩
  exact ⟨a, rfl, by simpa using hL⟩

theorem throw (e : ε) (L : α → List β → Prop) : Parses B (EStateM.throw e : Reader ε β α) L := by
  rintro pre rest a c - ⟨⟩

/-- A reader that looks at the size of its buffer and at its position first. -/
theorem of_size {g : Nat → Nat → Reader ε β α} (h : ∀ n p, Parses B (g n p) L) :
    Parses B (fun c => g c.buf.length c.pos c) L := by
  intro pre rest a c hB hd
  obtain ⟨enc, post, rfl, hc, hL, hlocal⟩ := h _ _ pre rest a c hB hd
  refine ⟨enc, post, rfl, hc, hL, fun pre' post' hpre hpost => ?_⟩
  have hsize : (pre' ++ (enc ++ post')).length = (pre ++ (enc ++ post)).length := by
    simp [hpre, hpost]
  simpa only [hsize, hpre] using hlocal pre' post' hpre hpost

theorem restoring (h : Parses B d L) : Parses B (Cursor.restoring d) L := by
  intro pre rest a c hB hd
  cases hda : d ⟨pre ++ rest, pre.length⟩ with
  | error e c' => simp [Cursor.restoring, hda] at hd
  | ok a' c' =>
    simp only [Cursor.restoring, hda, EStateM.Result.ok.injEq] at hd
    obtain ⟨rfl, rfl⟩ := hd
    obtain ⟨enc, post, hrest, hc, hL, hlocal⟩ := h pre rest a' c' hB hda
    refine ⟨enc, post, hrest, hc, hL, fun pre' post' hpre hpost => ?_⟩
    simp only [Cursor.restoring, hlocal pre' post' hpre hpost]

end Parses

end Cursor
