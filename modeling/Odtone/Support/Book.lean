import Mathlib.Data.List.Nodup

/-! # Ordered books

A finite map as the list of its entries in the order of the keys, the order in which `std::map` goes
through them. Assigning to a key replaces its entry or puts a new one in its place. -/

/-- Where keys are unique, looking up a key finds the element that has it. -/
theorem List.find?_key_eq_some {α κ : Type} [DecidableEq κ] {l : List α} {key : α → κ}
    (hl : (l.map key).Nodup) {k : κ} {a : α} :
    l.find? (fun b => key b = k) = some a ↔ a ∈ l ∧ key a = k := by
  constructor
  · intro h
    exact ⟨mem_of_find?_eq_some h, by simpa using find?_some h⟩
  · rintro ⟨ha, hkey⟩
    have hsome : (l.find? fun b => key b = k).isSome :=
      find?_isSome.mpr ⟨a, ha, decide_eq_true hkey⟩
    obtain ⟨b, hb⟩ := Option.isSome_iff_exists.mp hsome
    have hbkey : key b = k := by simpa using find?_some hb
    rw [hb, inj_on_of_nodup_map hl (mem_of_find?_eq_some hb) ha (hbkey.trans hkey.symm)]

/-- Entries with their keys. -/
abbrev Book (κ α : Type) := List (κ × α)

namespace Book

open List

variable {κ α : Type} [DecidableEq κ]

/-- The entry of a key. -/
def get? (b : Book κ α) (k : κ) : Option α := (b.find? fun e => e.1 = k).map Prod.snd

def keys (b : Book κ α) : List κ := b.map Prod.fst

/-- `b[k] = a` -/
def insert [LT κ] [DecidableLT κ] (k : κ) (a : α) : Book κ α → Book κ α
  | [] => [(k, a)]
  | e :: b =>
    if e.1 = k then (k, a) :: b
    else if k < e.1 then (k, a) :: e :: b
    else e :: insert k a b

/-- Change the entry of a key, if there is one. -/
def modify (k : κ) (f : α → α) (b : Book κ α) : Book κ α :=
  b.map fun e => if e.1 = k then (e.1, f e.2) else e

def erase (k : κ) (b : Book κ α) : Book κ α := b.filter fun e => e.1 ≠ k

@[simp] theorem get?_nil (k : κ) : get? ([] : Book κ α) k = none := rfl

variable (b : Book κ α)

theorem get?_cons (e : κ × α) (k : κ) :
    get? (e :: b) k = if e.1 = k then some e.2 else get? b k := by
  simp only [get?, find?_cons]
  split_ifs with h <;> simp [h]

@[simp] theorem get?_insert [LT κ] [DecidableLT κ] (k j : κ) (a : α) :
    (b.insert k a).get? j = if k = j then some a else b.get? j := by
  induction b with
  | nil => simp [insert, get?_cons]
  | cons e b ih =>
    unfold insert
    split_ifs with h₁ h₂ <;> simp_all [get?_cons]

@[simp] theorem get?_modify (k j : κ) (f : α → α) :
    (b.modify k f).get? j = if j = k then (b.get? j).map f else b.get? j := by
  induction b with
  | nil => simp [modify]
  | cons e b ih =>
    simp only [modify, map_cons, get?_cons] at ih ⊢
    rw [ih]
    by_cases h : e.1 = k <;> by_cases h' : e.1 = j <;> by_cases hj : j = k <;> simp_all

theorem get?_map (f : α → α) (k : κ) : get? (b.map fun e => (e.1, f e.2)) k = (b.get? k).map f := by
  induction b with
  | nil => rfl
  | cons e b ih =>
    rw [map_cons, get?_cons, get?_cons, ih]
    split_ifs <;> rfl

@[simp] theorem get?_erase (k j : κ) :
    (b.erase k).get? j = if j = k then none else b.get? j := by
  induction b with
  | nil => simp [erase]
  | cons e b ih =>
    rw [erase, filter_cons]
    by_cases he : e.1 = k
    · rw [if_neg (by simpa using he)]
      refine Eq.trans ih ?_
      by_cases hj : j = k
      · rw [if_pos hj, if_pos hj]
      · rw [if_neg hj, if_neg hj, get?_cons, if_neg fun h => hj (h.symm.trans he)]
    · rw [if_pos (by simpa using he), get?_cons, get?_cons]
      refine (congrArg _ ih).trans ?_
      by_cases hj : e.1 = j
      · rw [if_pos hj, if_pos hj, if_neg fun h => he (hj.trans h)]
      · rw [if_neg hj, if_neg hj]

/-! As functions of the key, with `Function.update`: -/

theorem get?_insert_eq_update [LT κ] [DecidableLT κ] (k : κ) (a : α) :
    (b.insert k a).get? = Function.update b.get? k (some a) := by
  funext j
  rw [get?_insert, Function.update_apply]
  simp only [eq_comm]

theorem get?_modify_eq_update (k : κ) (f : α → α) :
    (b.modify k f).get? = Function.update b.get? k ((b.get? k).map f) := by
  funext j
  rw [get?_modify, Function.update_apply]
  split_ifs with h
  · rw [h]
  · rfl

theorem get?_erase_eq_update (k : κ) : (b.erase k).get? = Function.update b.get? k none := by
  funext j
  rw [get?_erase, Function.update_apply]

variable {b}

variable {k : κ}

theorem get?_eq_none : b.get? k = none ↔ ∀ e ∈ b, e.1 ≠ k := by
  simp [get?]

theorem erase_of_get?_eq_none (h : b.get? k = none) : b.erase k = b :=
  filter_eq_self.mpr fun e he => by simpa using get?_eq_none.mp h e he

theorem get?_of_mem (hb : b.keys.Nodup) {e : κ × α} (he : e ∈ b) : b.get? e.1 = some e.2 := by
  rw [get?, (find?_key_eq_some hb).mpr ⟨he, rfl⟩, Option.map_some]

/-- Taking out the entry of a key leaves the others. -/
theorem perm_erase (hb : b.keys.Nodup) (k : κ) :
    b.Perm ((b.get? k).toList.map (Prod.mk k) ++ b.erase k) := by
  induction b with
  | nil => exact .nil
  | cons e b ih =>
    obtain ⟨he, hb⟩ := nodup_cons.mp hb
    rw [get?_cons]
    by_cases hk : e.1 = k
    · subst hk
      have hnone : get? b e.1 = none := get?_eq_none.mpr fun e' he' h =>
        he (h ▸ mem_map_of_mem he')
      have herase : erase e.1 (e :: b) = b := by
        rw [erase, filter_cons_of_neg (by simp)]
        exact erase_of_get?_eq_none hnone
      rw [if_pos rfl, herase]
      exact .refl _
    · have herase : erase k (e :: b) = e :: erase k b := filter_cons_of_pos (by simpa using hk)
      rw [if_neg hk, herase]
      exact ((ih hb).cons e).trans perm_middle.symm

theorem perm_insert [LT κ] [DecidableLT κ] (h : b.get? k = none) (a : α) :
    (b.insert k a).Perm ((k, a) :: b) := by
  induction b with
  | nil => exact .refl _
  | cons e b ih =>
    have hk : e.1 ≠ k := get?_eq_none.mp h e mem_cons_self
    rw [get?_cons, if_neg hk] at h
    rw [insert, if_neg hk]
    split_ifs
    · exact .refl _
    · exact ((ih h).cons e).trans (.swap ..)

theorem insert_last [LT κ] [DecidableLT κ] (h : ∀ e ∈ b, e.1 ≠ k ∧ ¬ k < e.1) (a : α) :
    b.insert k a = b ++ [(k, a)] := by
  induction b with
  | nil => rfl
  | cons e b ih =>
    obtain ⟨⟨hne, hlt⟩, hb⟩ := forall_mem_cons.mp h
    rw [insert, if_neg hne, if_neg hlt, ih hb, cons_append]

theorem get?_isSome : (b.get? k).isSome ↔ k ∈ b.keys := by
  simp [get?, keys, find?_isSome]

end Book
