import Mathlib.Logic.Equiv.Basic
import Mathlib.Data.Set.Insert

/-! # Intrusive lists

The operations of `list_node` write the pointers of nodes in place. A ring stays one when nodes are
pushed and removed. `swap` and `reverse` write to the nodes they are given only, never to the
neighbours, so that they leave no ring behind unless there is nothing to do.
-/

namespace Odtone.ListNode

open Function

variable {ν : Type} [DecidableEq ν]

/-- The pointers of all nodes. -/
@[ext]
structure Heap (ν : Type) where
  next : ν → ν
  prev : ν → ν

namespace Heap

variable (h : Heap ν) (this node y : ν)

def setNext (x v : ν) : Heap ν := { h with next := Function.update h.next x v }

def setPrev (x v : ν) : Heap ν := { h with prev := Function.update h.prev x v }

/-- `push_front` -/
def pushFront : Heap ν :=
  let h := h.setPrev (h.next this) node
  let h := h.setPrev node this
  let h := h.setNext node (h.next this)
  h.setNext this node

/-- `push_back` -/
def pushBack : Heap ν :=
  let h := h.setNext (h.prev this) node
  let h := h.setNext node this
  let h := h.setPrev node (h.prev this)
  h.setPrev this node

/-- `remove` -/
def remove : Heap ν :=
  let h := h.setNext (h.prev this) (h.next this)
  h.setPrev (h.next this) (h.prev this)

/-- `swap` -/
def swap : Heap ν :=
  let n := h.next this
  let p := h.prev this
  let h := h.setNext this (h.next y)
  let h := h.setPrev this (h.prev y)
  let h := h.setNext y n
  h.setPrev y p

/-- `reverse` -/
def reverse : Heap ν :=
  let n := h.next this
  let h := h.setNext this (h.prev this)
  h.setPrev this n

end Heap

/-- Calls of the operations -/
inductive Op (ν : Type) where
  | pushFront (this node : ν)
  | pushBack (this node : ν)
  | popFront (this : ν)
  | popBack (this : ν)
  | remove (this : ν)
  | swap (this y : ν)
  | reverse (this : ν)

/-- The pointers and the nodes that are linked. A node that was removed is not, unless it was alone
and still is a ring of its own. -/
structure State (ν : Type) where
  heap : Heap ν
  linked : Set ν

namespace State

variable (s : State ν)

def push (node : ν) (h : Heap ν) : State ν := ⟨h, insert node s.linked⟩

def unlink (node : ν) : State ν :=
  ⟨s.heap.remove node, {x ∈ s.linked | x = node → s.heap.next node = node}⟩

def step : Op ν → State ν
  | .pushFront this node => s.push node (s.heap.pushFront this node)
  | .pushBack this node => s.push node (s.heap.pushBack this node)
  | .popFront this => s.unlink (s.heap.next this)
  | .popBack this => s.unlink (s.heap.prev this)
  | .remove this => s.unlink this
  | .swap this y => { s with heap := s.heap.swap this y }
  | .reverse this => { s with heap := s.heap.reverse this }

/-- Next and previous are the inverse of each other on the linked nodes. -/
def Rings : Prop := ∀ x ∈ s.linked, s.heap.next x ∈ s.linked ∧ s.heap.prev x ∈ s.linked ∧
    s.heap.prev (s.heap.next x) = x ∧ s.heap.next (s.heap.prev x) = x

/-- What an operation should do beyond keeping the rings. -/
def Does (s' : State ν) : Op ν → Prop
  | .swap x y => ∀ z ∈ s.linked, s'.heap.next (Equiv.swap x y z) = Equiv.swap x y (s.heap.next z) ∧
        s'.heap.prev (Equiv.swap x y z) = Equiv.swap x y (s.heap.prev z)
  | .reverse x => ∀ n : Nat, let z := s.heap.next^[n] x
      s'.heap.next z = s.heap.prev z ∧ s'.heap.prev z = s.heap.next z
  | _ => True

/-- The operations are used on linked nodes, and what is pushed is not in another ring. -/
def Uses : Op ν → Prop
  | .pushFront this node | .pushBack this node =>
    this ∈ s.linked ∧ node ≠ this ∧ (node ∈ s.linked → s.heap.next node = node)
  | .popFront this | .popBack this | .remove this | .reverse this => this ∈ s.linked
  | .swap this y => this ∈ s.linked ∧ y ∈ s.linked

/-- There is nothing to swap or to reverse. -/
def Idle : Op ν → Prop
  | .swap this y => this = y
  | .reverse this => s.heap.next this = s.heap.prev this
  | _ => True

/-- Every call of a run meets a condition on the state it is made in. -/
def Meets (P : State ν → Op ν → Prop) : State ν → List (Op ν) → Prop
  | _, [] => True
  | s, op :: ops => P s op ∧ Meets P (s.step op) ops

/-- In all states of a run there are rings, and every call does what it should. -/
def Sound : State ν → List (Op ν) → Prop
  | s, [] => s.Rings
  | s, op :: ops => s.Rings ∧ s.Does (s.step op) op ∧ Sound (s.step op) ops

variable {s} {this node y : ν}

theorem Rings.unlink (h : s.Rings) (hu : node ∈ s.linked) : (s.unlink node).Rings := by
  intro x hx
  simp only [Rings, State.unlink, Heap.remove, Heap.setNext, Heap.setPrev, update_apply,
    Set.mem_ofPred_eq] at h hx ⊢
  grind

omit [DecidableEq ν] in
/-- Where next and previous are the same, there are at most two nodes in the ring. -/
theorem Rings.iterate (h : s.Rings) (hthis : this ∈ s.linked)
    (heq : s.heap.next this = s.heap.prev this) (n : Nat) :
    s.heap.next^[n] this ∈ s.linked ∧
      s.heap.next (s.heap.next^[n] this) = s.heap.prev (s.heap.next^[n] this) := by
  induction n with
  | zero => exact ⟨hthis, heq⟩
  | succ n ih =>
    obtain ⟨hnext, -, hprev, hback⟩ := h _ ih.1
    rw [iterate_succ_apply', hprev]
    exact ⟨hnext, by rw [ih.2, hback]⟩

theorem heap_swap_self (h : Heap ν) : h.swap this this = h := by
  simp [Heap.swap, Heap.setNext, Heap.setPrev]

theorem heap_reverse {h : Heap ν} (heq : h.next this = h.prev this) : h.reverse this = h := by
  simp only [Heap.reverse, Heap.setNext, Heap.setPrev, heq, update_eq_self]
  rw [← heq, update_eq_self]

/-- Neither operation reaches the neighbours. -/
theorem Rings.does_iff (h : s.Rings) {op : Op ν} (hu : s.Uses op) :
    s.Does (s.step op) op ↔ s.Idle op := by
  cases op with
  | swap x y =>
    constructor
    · intro hd
      by_contra hne
      obtain ⟨-, hmem, -, hback⟩ := h y hu.2
      have hx := hd x hu.1
      have hy := hd y hu.2
      have hz := hd _ hmem
      simp only [step, Heap.swap, Heap.setNext, Heap.setPrev, update_apply,
        Equiv.swap_apply_def, Idle] at hx hy hz hne
      grind
    · rintro rfl z -
      simp [step, heap_swap_self]
  | reverse x =>
    constructor
    · intro hd
      have hnext := hd 1
      have hx := h x hu
      have hy := h _ hx.1
      simp only [step, Heap.reverse, Heap.setNext, Heap.setPrev, update_apply, iterate_one] at hnext
      unfold Idle
      grind
    · intro heq n
      have hz := (h.iterate hu heq n).2
      rw [step, heap_reverse heq]
      exact ⟨hz, hz.symm⟩
  | _ => exact Iff.rfl

theorem Rings.step (h : s.Rings) {op : Op ν} (hu : s.Uses op) (hi : s.Idle op) :
    (s.step op).Rings := by
  cases op with
  | pushFront this node | pushBack this node =>
    obtain ⟨hthis, hne, halone⟩ := hu
    intro x hx
    simp only [Rings, State.step, push, Heap.pushFront, Heap.pushBack, Heap.setNext, Heap.setPrev,
      update_apply, Set.mem_insert_iff] at h hx ⊢
    grind
  | popFront => exact h.unlink (h _ hu).1
  | popBack => exact h.unlink (h _ hu).2.1
  | remove => exact h.unlink hu
  | swap x y =>
    cases hi
    rwa [State.step, heap_swap_self]
  | reverse x => rwa [State.step, heap_reverse hi]

theorem sound_iff {ops : List (Op ν)} (h : s.Rings) (hu : Meets Uses s ops) :
    Sound s ops ↔ Meets Idle s ops := by
  induction ops generalizing s with
  | nil => exact iff_of_true h trivial
  | cons op ops ih =>
    refine ⟨fun ⟨_, hd, hs⟩ => ?_, fun ⟨hi, hs⟩ => ?_⟩
    · have hi := (h.does_iff hu.1).mp hd
      exact ⟨hi, (ih (h.step hu.1 hi) hu.2).mp hs⟩
    · exact ⟨h, (h.does_iff hu.1).mpr hi, (ih (h.step hu.1 hi) hu.2).mpr hs⟩

/-- A ring of three nodes -/
def three : State (Fin 3) := ⟨⟨(· + 1), (· - 1)⟩, Set.univ⟩

theorem rings_three : three.Rings := fun x _ =>
  ⟨trivial, trivial, (show ∀ x : Fin 3, x + 1 - 1 = x by decide) x,
    (show ∀ x : Fin 3, x - 1 + 1 = x by decide) x⟩

theorem sound_three : Sound three [.popFront 0, .pushBack 0 1] := by
  have hu : Meets Uses three [.popFront 0, .pushBack 0 1] :=
    ⟨trivial, ⟨⟨trivial, fun h => absurd h (by decide)⟩, by decide,
      fun h => absurd (h.2 rfl) (by decide)⟩, trivial⟩
  exact (sound_iff rings_three hu).mpr ⟨trivial, trivial, trivial⟩

/-- Either operation breaks it. -/
theorem three_broken : three.Rings ∧ Meets Uses three [.swap 0 1] ∧ Meets Uses three [.reverse 0] ∧
    ¬ (three.step (.swap 0 1)).Rings ∧ ¬ (three.step (.reverse 0)).Rings :=
  ⟨rings_three, ⟨⟨trivial, trivial⟩, trivial⟩, ⟨trivial, trivial⟩,
    fun h => absurd (h 0 trivial).2.2.1 (by decide),
    fun h => absurd (h 0 trivial).2.2.1 (by decide)⟩

end State

end Odtone.ListNode
