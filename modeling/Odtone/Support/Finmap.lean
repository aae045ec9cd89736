import Mathlib.Data.Finmap

/-! # Maps of what there is

A finite map built up from a list of keys with optional values, by inserting those that there
are. -/

namespace Finmap

open List Option

variable {κ α : Type} [DecidableEq κ]

/-- Insert a value if there is one. -/
def insertSome (m : Finmap fun _ : κ => α) (e : κ × Option α) : Finmap fun _ : κ => α :=
  match e.2 with
  | none => m
  | some a => m.insert e.1 a

/-- The map of the values there are in the list. -/
def ofOptions (es : List (κ × Option α)) : Finmap fun _ : κ => α := es.foldl insertSome ∅

theorem lookup_insertSome (m : Finmap fun _ : κ => α) (e : κ × Option α) (k : κ) :
    (m.insertSome e).lookup k = if k = e.1 then e.2.or (m.lookup k) else m.lookup k := by
  unfold insertSome
  cases e.2 with
  | none => rw [none_or, ite_self]
  | some a =>
    by_cases hk : k = e.1
    · rw [if_pos hk, hk, lookup_insert, some_or]
    · rw [if_neg hk, lookup_insert_of_ne _ hk]

variable {es : List (κ × Option α)}

variable {k : κ} {e : κ × Option α} {m : Finmap fun _ : κ => α}

theorem lookup_foldl_insertSome_of_not_mem (m : Finmap fun _ : κ => α)
    (hk : k ∉ es.map Prod.fst) : (es.foldl insertSome m).lookup k = m.lookup k := by
  induction es generalizing m with
  | nil => rfl
  | cons e es ih =>
    obtain ⟨hne, hk⟩ := not_or.mp fun h => hk (mem_cons.mpr h)
    rw [foldl_cons, ih _ hk, lookup_insertSome, if_neg hne]

theorem lookup_foldl_insertSome_of_mem (m : Finmap fun _ : κ => α)
    (hes : (es.map Prod.fst).Nodup) (he : e ∈ es) (hm : m.lookup e.1 = none) :
    (es.foldl insertSome m).lookup e.1 = e.2 := by
  induction es generalizing m with
  | nil => cases he
  | cons e' es ih =>
    obtain ⟨hmem, hnodup⟩ := nodup_cons.mp hes
    rw [foldl_cons]
    rcases mem_cons.mp he with rfl | he
    · rw [lookup_foldl_insertSome_of_not_mem _ hmem, lookup_insertSome, if_pos rfl, hm, or_none]
    · have hne : e.1 ≠ e'.1 := fun h => hmem (h ▸ mem_map_of_mem he)
      exact ih _ hnodup he (by rw [lookup_insertSome, if_neg hne, hm])

theorem lookup_ofOptions_of_not_mem (hk : k ∉ es.map Prod.fst) : (ofOptions es).lookup k = none :=
  (lookup_foldl_insertSome_of_not_mem ∅ hk).trans (lookup_empty k)

theorem lookup_ofOptions_of_mem (hes : (es.map Prod.fst).Nodup) (he : e ∈ es) :
    (ofOptions es).lookup e.1 = e.2 :=
  lookup_foldl_insertSome_of_mem ∅ hes he (lookup_empty e.1)

/-- The map is `m` if its values are those of `m`, and `m` has no other keys. -/
theorem ofOptions_eq_iff (hes : (es.map Prod.fst).Nodup) (hm : ∀ k ∈ m, k ∈ es.map Prod.fst) :
    ofOptions es = m ↔ ∀ e ∈ es, e.2 = m.lookup e.1 := by
  constructor
  · rintro rfl e he
    exact (lookup_ofOptions_of_mem hes he).symm
  · intro h
    refine ext_lookup fun k => ?_
    by_cases hk : k ∈ es.map Prod.fst
    · obtain ⟨e, he, rfl⟩ := mem_map.mp hk
      rw [lookup_ofOptions_of_mem hes he, h e he]
    · rw [lookup_ofOptions_of_not_mem hk, eq_comm, lookup_eq_none]
      exact fun hmem => hk (hm k hmem)

theorem ofOptions_eq_empty (h : ∀ e ∈ es, e.2 = none) :
    ofOptions es = (∅ : Finmap fun _ : κ => α) := by
  have hfold (m : Finmap fun _ : κ => α) : es.foldl insertSome m = m := by
    induction es generalizing m with
    | nil => rfl
    | cons e es ih =>
      obtain ⟨he, hes⟩ := forall_mem_cons.mp h
      rw [foldl_cons, ih hes, insertSome, he]
  exact hfold ∅

theorem card_keys_pos : m.keys.card > 0 ↔ m ≠ ∅ := by
  rw [gt_iff_lt, Finset.card_pos]
  constructor
  · rintro ⟨k, hk⟩ rfl
    exact absurd (mem_keys.mp hk) notMem_empty
  · intro hne
    by_contra hkeys
    refine hne (ext_lookup fun k => ?_)
    rw [lookup_empty, lookup_eq_none]
    exact fun hk => hkeys ⟨k, mem_keys.mpr hk⟩

end Finmap
