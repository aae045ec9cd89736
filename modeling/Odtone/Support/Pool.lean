import Mathlib.Data.List.Nodup

/-! # Keyed pools

A pool is a list of pointers whose objects are told apart by a key. The key is read from the object,
so an assignment to an object can change what the pool means; the lemmas say what an operation needs
of the keys.

A program keeps its pool in a container of some library, which acts on the elements as a pool does
only if it is used as it asks for. `Container` leaves open what it does otherwise, and `Tracked`
records whether it has acted as a pool so far.
-/

namespace Pool

open List

variable {K : Type} [DecidableEq K] {f g : Nat → K} {l : List Nat} {k : K} {p q : Nat}

/-- No two pointers in the pool have the same key. -/
def Distinct (f : Nat → K) (l : List Nat) : Prop := (l.map f).Nodup

/-- The pointer with the key `k`. -/
def find (f : Nat → K) (l : List Nat) (k : K) : Option Nat := l.find? fun p => f p = k

/-- Add a pointer, unless its key is taken. -/
def add (f : Nat → K) (l : List Nat) (p : Nat) : List Nat :=
  if (find f l (f p)).isSome then l else p :: l

/-- Delete the pointer with the key of `p`. -/
def del (f : Nat → K) (l : List Nat) (p : Nat) : List Nat := l.filter fun q => f q ≠ f p

theorem find_eq_none : find f l k = none ↔ ∀ p ∈ l, f p ≠ k := by
  simp [find]

theorem mem_of_find (h : find f l k = some p) : p ∈ l := mem_of_find?_eq_some h

theorem key_of_find (h : find f l k = some p) : f p = k := by
  simpa using find?_some h

@[simp] theorem mem_del : q ∈ del f l p ↔ q ∈ l ∧ f q ≠ f p := by
  simp [del]

/-- What is left when several pointers are deleted. -/
theorem mem_foldl_del {dels : List Nat} :
    q ∈ dels.foldl (del f) l ↔ q ∈ l ∧ ∀ p ∈ dels, f q ≠ f p := by
  induction dels generalizing l with
  | nil => simp
  | cons p dels ih =>
    rw [foldl_cons, ih, mem_del, forall_mem_cons, and_assoc]

theorem foldl_del_sublist {dels : List Nat} : (dels.foldl (del f) l).Sublist l := by
  induction dels generalizing l with
  | nil => exact Sublist.refl l
  | cons p dels ih => exact (ih).trans filter_sublist

theorem mem_add (h : q ∈ add f l p) : q = p ∨ q ∈ l := by
  unfold add at h
  split at h
  · exact .inr h
  · exact mem_cons.mp h

theorem mem_add_of_mem (h : q ∈ l) : q ∈ add f l p := by
  unfold add
  split
  · exact h
  · exact mem_cons_of_mem p h

namespace Distinct

variable (h : Distinct f l)
include h

omit [DecidableEq K] in
theorem congr (hf : ∀ p ∈ l, g p = f p) : Distinct g l := by
  unfold Distinct
  rwa [map_congr_left hf]

theorem del : Distinct f (Pool.del f l p) := h.sublist (filter_sublist.map f)

theorem add : Distinct f (Pool.add f l p) := by
  unfold Pool.add
  split
  · exact h
  · next hnone =>
      refine nodup_cons.mpr ⟨fun hmem => ?_, h⟩
      obtain ⟨q, hq, hk⟩ := mem_map.mp hmem
      exact find_eq_none.mp (Option.not_isSome_iff_eq_none.mp hnone) q hq hk

omit [DecidableEq K] in
/-- In a pool with distinct keys equal keys mean equal pointers. -/
theorem eq_of_key (hp : p ∈ l) (hq : q ∈ l) (hk : f p = f q) : p = q :=
  inj_on_of_nodup_map h hp hq hk

theorem mem_foldl_del {dels : List Nat} (hdels : dels ⊆ l) :
    q ∈ dels.foldl (Pool.del f) l ↔ q ∈ l ∧ q ∉ dels := by
  rw [Pool.mem_foldl_del]
  refine and_congr_right fun hq => ⟨fun hne hmem => hne q hmem rfl, fun hnot p hp hk => ?_⟩
  exact hnot (h.eq_of_key hq (hdels hp) hk ▸ hp)

/-- What `find` returns is the pointer with that key. -/
theorem find_eq_some (hp : p ∈ l) (hk : f p = k) : find f l k = some p := by
  cases hf : find f l k with
  | none => exact absurd hk (find_eq_none.mp hf p hp)
  | some q => rw [h.eq_of_key (mem_of_find hf) hp ((key_of_find hf).trans hk.symm)]

end Distinct

/-! ## Containers -/

/-- A container of pointers, as far as a pool makes use of it: the elements in the order of an
iteration, and what inserting and erasing make of it where `f` tells the elements apart. -/
class Container (C : Type) where
  empty : C
  toList : C → List Nat
  insert {K : Type} [DecidableEq K] (f : Nat → K) (c : C) (p : Nat) : C
  erase {K : Type} [DecidableEq K] (f : Nat → K) (c : C) (p : Nat) : C
  toList_empty : toList empty = []

export Container (toList)

/-- The pool itself. -/
instance instContainerList : Container (List Nat) where
  empty := []
  toList l := l
  insert := add
  erase := Pool.del
  toList_empty := rfl

/-- A container that knows whether every operation so far has had the effect it has on a pool. -/
structure Tracked (C : Type) where
  set : C
  exact : Bool

section Tracked

variable {C : Type} [Container C]

instance instContainerTracked : Container (Tracked C) where
  empty := ⟨Container.empty, true⟩
  toList c := toList c.set
  insert f c p :=
    let d := Container.insert f c.set p
    ⟨d, c.exact && toList d = add f (toList c.set) p⟩
  erase f c p :=
    let d := Container.erase f c.set p
    ⟨d, c.exact && toList d = Pool.del f (toList c.set) p⟩
  toList_empty := Container.toList_empty

end Tracked

/-! ## Comparators -/

section Comparator

variable {α : Type} {r : α → α → Bool} {T : Set α}

/-- What an ordered set asks of its comparator, on the elements it is used with. -/
structure StrictWeakOn (r : α → α → Bool) (T : Set α) : Prop where
  irrefl : ∀ a ∈ T, r a a = false
  asymm : ∀ a ∈ T, ∀ b ∈ T, r a b = true → r b a = false
  trans : ∀ a ∈ T, ∀ b ∈ T, ∀ c ∈ T, r a b = true → r b c = true → r a c = true
  incomp_trans : ∀ a ∈ T, ∀ b ∈ T, ∀ c ∈ T, r a b = false → r b a = false →
    r b c = false → r c b = false → r a c = false ∧ r c a = false

omit [DecidableEq K] in
/-- A comparator that only says whether two keys differ orders nothing but equal keys. -/
theorem strictWeakOn_iff_of_ne {key : α → K} (hr : ∀ a b, r a b = true ↔ key a ≠ key b) :
    StrictWeakOn r T ↔ ∀ a ∈ T, ∀ b ∈ T, key a = key b := by
  have hf : ∀ a b, r a b = false ↔ key a = key b := fun a b => by
    rw [← Bool.not_eq_true, hr, not_ne_iff]
  refine ⟨fun h a ha b hb => ?_, fun h => ?_⟩
  · by_contra hne
    exact hne ((hf b a).mp (h.asymm a ha b hb ((hr a b).mpr hne))).symm
  · have hfalse : ∀ a ∈ T, ∀ b ∈ T, r a b = false := fun a ha b hb => (hf a b).mpr (h a ha b hb)
    exact ⟨fun a ha => hfalse a ha a ha, fun a ha b hb _ => hfalse b hb a ha,
      fun a ha b hb c _ hab => absurd hab (by simp [hfalse a ha b hb]),
      fun a ha _ _ c hc _ _ _ _ => ⟨hfalse a ha c hc, hfalse c hc a ha⟩⟩

end Comparator

end Pool
