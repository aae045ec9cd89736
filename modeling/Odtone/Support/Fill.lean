import Mathlib.Data.List.Basic

/-! # Filling an array

A program that fills a fresh array writes at absolute positions, mostly from the front to the back,
and leaves the default value where it does not write. A write outside the array is an exception.

`pad N d as` is an array of `N` elements that has been filled up to `as`, and `Takes N d m as bs`
says that a program takes it from `as` to `bs`. A whole program is followed as if it appended to a
list.
-/

namespace Fill

open List

variable {α : Type}

/-- A program on an array; the exception is an index out of bounds. -/
abbrev Writer (α : Type) := EStateM Unit (List α)

/-- `out[i] = f(out[i])` -/
def modifyAt (i : Nat) (f : α → α) : Writer α Unit := fun out =>
  if i < out.length then .ok () (out.modify i f) else .error () out

/-- `out[i] = a` -/
def write (i : Nat) (a : α) : Writer α Unit := modifyAt i fun _ => a

/-- The loop that copies a list to the positions from `i` on. -/
def writeFrom : Nat → List α → Writer α Unit
  | _, [] => pure ()
  | i, a :: as => do
      write i a
      writeFrom (i + 1) as

/-- A program is run on a fresh array of `n` elements. -/
def fresh (d : α) (n : Nat) (m : Writer α Unit) : Except Unit (List α) :=
  match m (replicate n d) with
  | .ok _ out => .ok out
  | .error e _ => .error e

/-! ## What has been filled -/

/-- An array of `N` elements filled up to `as`. -/
def pad (N : Nat) (d : α) (as : List α) : List α := as ++ replicate (N - as.length) d

variable {N i : Nat} {d a : α} {as bs cs : List α} {m : Writer α Unit}

theorem pad_of_length (h : as.length = N) : pad N d as = as := by
  simp [pad, h]

/-- Where nothing is written the default value stays. -/
theorem pad_default (h : as.length < N) : pad N d as = pad N d (as ++ [d]) := by
  obtain ⟨k, hk⟩ : ∃ k, N - as.length = k + 1 := ⟨N - as.length - 1, by omega⟩
  simp [pad, hk, replicate_succ, show N - (as.length + 1) = k by omega]

theorem modify_append_cons (f : α → α) : (as ++ a :: bs).modify as.length f = as ++ f a :: bs := by
  induction as with
  | nil => rfl
  | cons b as ih => simpa using ih

theorem set_pad (hi : as.length = i) (h : i < N) : (pad N d as).set i a = pad N d (as ++ [a]) := by
  rw [pad_default (by omega), ← hi]
  simp [pad]

/-- The program fills an array of `N` elements further, from `as` to `bs`. -/
def Takes (N : Nat) (d : α) (m : Writer α Unit) (as bs : List α) : Prop :=
  m (pad N d as) = .ok () (pad N d bs)

namespace Takes

theorem pure : Takes N d (pure ()) as as := rfl

theorem bind {k : Unit → Writer α Unit} (h : Takes N d m as bs) (hk : Takes N d (k ()) bs cs) :
    Takes N d (m >>= k) as cs := by
  simp only [Takes, Bind.bind, EStateM.bind] at *
  rw [h]
  exact hk

theorem skip (h : as.length < N) (hm : Takes N d m (as ++ [d]) bs) : Takes N d m as bs := by
  rw [Takes, pad_default h]
  exact hm

theorem modifyAt (f : α → α) (hi : as.length = i) :
    Takes N d (modifyAt i f) (as ++ a :: bs) (as ++ f a :: bs) := by
  have hlt : as.length < (pad N d (as ++ a :: bs)).length := by simp [pad]
  rw [Takes, ← hi, Fill.modifyAt, if_pos hlt]
  simp [pad, modify_append_cons]

theorem write (hi : as.length = i) (h : i < N) : Takes N d (write i a) as (as ++ [a]) :=
  skip (hi.symm ▸ h) (modifyAt (fun _ => a) hi)

theorem writeFrom (hi : as.length = i) (h : i + bs.length ≤ N) :
    Takes N d (writeFrom i bs) as (as ++ bs) := by
  induction bs generalizing as i with
  | nil =>
    rw [append_nil]
    exact pure
  | cons b bs ih =>
    rw [length_cons] at h
    rw [← singleton_append, ← append_assoc]
    exact bind (write hi (by omega)) (ih (by simp [hi]) (by omega))

/-- A fresh array is filled to its end. -/
theorem fresh (h : Takes N d m [] as) (hN : as.length = N) : fresh d N m = .ok as := by
  rw [Takes, pad_of_length hN] at h
  have h : m (replicate N d) = .ok () as := h
  rw [Fill.fresh, h]

end Takes

end Fill
