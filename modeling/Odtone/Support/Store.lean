import Mathlib.Logic.Function.Basic

/-! # Stores

Heap objects addressed by pointers. A store knows the next unused pointer; every pointer has a
cell, those beyond the next one hold the default they started with. Pointers are never reused, so
two allocations never alias.
-/

/-- Cells addressed by natural numbers, with the next pointer to hand out. -/
structure Store (α : Type) where
  next : Nat
  cell : Nat → α

namespace Store

variable {α : Type} {s : Store α} {p q : Nat} {a b : α}

/-- The store in which every cell holds `a`. Pointers start at `1`, so that `0` is never handed
out. -/
def empty (a : α) : Store α := ⟨1, fun _ => a⟩

def get (s : Store α) (p : Nat) : α := s.cell p

def set (s : Store α) (p : Nat) (a : α) : Store α :=
  { s with cell := Function.update s.cell p a }

/-- Allocate a cell holding `a`; its pointer is `s.next`. -/
def push (s : Store α) (a : α) : Store α :=
  { next := s.next + 1, cell := Function.update s.cell s.next a }

/-- Apply a function to one cell. -/
def update (s : Store α) (p : Nat) (f : α → α) : Store α := s.set p (f (s.get p))

@[simp] theorem next_set : (s.set p a).next = s.next := rfl

@[simp] theorem next_push : (s.push a).next = s.next + 1 := rfl

@[simp] theorem next_update {f : α → α} : (s.update p f).next = s.next := rfl

@[simp] theorem get_set_self : (s.set p a).get p = a := Function.update_self ..

@[simp] theorem get_push_next : (s.push a).get s.next = a := Function.update_self ..

@[simp] theorem get_update_self {f : α → α} : (s.update p f).get p = f (s.get p) :=
  Function.update_self ..

theorem get_set_of_ne (h : q ≠ p) : (s.set p a).get q = s.get q := Function.update_of_ne h ..

theorem get_update_of_ne {f : α → α} (h : q ≠ p) : (s.update p f).get q = s.get q :=
  Function.update_of_ne h ..

theorem get_push_of_ne (h : q ≠ s.next) : (s.push a).get q = s.get q := Function.update_of_ne h ..

theorem get_push_of_lt (h : q < s.next) : (s.push a).get q = s.get q :=
  get_push_of_ne (Nat.ne_of_lt h)

theorem get_set (s : Store α) (p q : Nat) (a : α) :
    (s.set p a).get q = if q = p then a else s.get q := Function.update_apply ..

@[simp] theorem set_get_self : s.set p (s.get p) = s := by
  cases s
  simp [set, get]

end Store
