import Odtone.Support.Prog

/-! # Computations seen through an abstraction

`abs` forgets a part of the state, and `E` says that what is forgotten has not mattered so far.
`Follows abs E x y` says that `x` does what `y` does on the abstract state, provided that `E` holds
where `x` ends, whether it returns or fails. Since `E` is never regained, it holds all along then.
-/

namespace EStateM

variable {ε St St' α β : Type}

/-- The result with the state changed by `f`. -/
def Result.view (f : St → St') : Result ε St α → Result ε St' α
  | .ok a s => .ok a (f s)
  | .error e s => .error e (f s)

variable (abs : St → St') (E : St → Prop)

/-- The state `s'` that follows `s` is seen as `t`. -/
def SeenAs (s s' : St) (t : St') : Prop := E s' → E s ∧ t = abs s'

/-- `f` on the states is `g` on the abstract ones. -/
def Agrees (f : St → St) (g : St' → St') : Prop := ∀ s, SeenAs abs E s (f s) (g (abs s))

/-- What a computation that starts in `s` results in is seen as `r'`. -/
def Result.SeenAs (s : St) (r : Result ε St α) (r' : Result ε St' α) : Prop :=
  E r.state → E s ∧ r' = r.view abs

/-- `x` on the states is `y` on the abstract ones. -/
def Follows (x : EStateM ε St α) (y : EStateM ε St' α) : Prop :=
  ∀ s, Result.SeenAs abs E s (x s) (y (abs s))

variable {abs E} {f : St → St} {g : St' → St'} {x : EStateM ε St α} {y : EStateM ε St' α} {s : St}

theorem Agrees.id : Agrees abs E (fun s => s) fun s => s := fun _ hs => ⟨hs, rfl⟩

theorem Agrees.comp {f' : St → St} {g' : St' → St'} (h : Agrees abs E f g)
    (h' : Agrees abs E f' g') : Agrees abs E (fun s => f' (f s)) fun s => g' (g s) := by
  intro s hs
  obtain ⟨hf, heq'⟩ := h' (f s) hs
  obtain ⟨hE, heq⟩ := h s hf
  exact ⟨hE, (congrArg g' heq).trans heq'⟩

theorem Agrees.foldl {δ : Type} {f : St → δ → St} {g : St' → δ → St'}
    (h : ∀ d, Agrees abs E (f · d) (g · d)) (l : List δ) :
    Agrees abs E (l.foldl f) (l.foldl g) := by
  induction l with
  | nil => exact fun s hs => ⟨hs, rfl⟩
  | cons d l ih =>
    intro s hs
    obtain ⟨hd, heq⟩ := ih (f s d) hs
    obtain ⟨hE, hg⟩ := h d s hd
    exact ⟨hE, (congrArg (l.foldl g) hg).trans heq⟩

namespace Result.SeenAs

theorem ok (h : Agrees abs E f g) (a : α) :
    Result.SeenAs (ε := ε) abs E s (.ok a (f s)) (.ok a (g (abs s))) :=
  fun hs => ⟨(h s hs).1, congrArg (Result.ok a) (h s hs).2⟩

/-- A computation after a change of the state. -/
theorem call (h : Agrees abs E f g) (hx : Follows abs E x y) :
    Result.SeenAs abs E s (x (f s)) (y (g (abs s))) := by
  intro hs
  obtain ⟨hf, heq⟩ := hx (f s) hs
  obtain ⟨hE, hg⟩ := h s hf
  exact ⟨hE, (congrArg y hg).trans heq⟩

end Result.SeenAs

namespace Follows

variable {k : α → EStateM ε St β} {k' : α → EStateM ε St' β}

theorem pure (a : α) : Follows (ε := ε) abs E (fun s => .ok a s) fun s => .ok a s :=
  fun _ => .ok .id a

/-- The next computation depends on the result of this one. -/
theorem bind (hx : Follows abs E x y) (hk : ∀ a, Follows abs E (k a) (k' a)) :
    Follows abs E (EStateM.bind x k) (EStateM.bind y k') := by
  intro s hs
  have h := hx s
  unfold EStateM.bind at hs ⊢
  cases hr : x s with
  | ok a s' =>
    rw [hr] at h hs
    obtain ⟨hE, heq⟩ := hk a s' hs
    obtain ⟨hE, hy⟩ := h hE
    rw [hy]
    exact ⟨hE, heq⟩
  | error e s' =>
    rw [hr] at h hs
    obtain ⟨hE, hy⟩ := h hs
    rw [hy]
    exact ⟨hE, rfl⟩

theorem state (hx : Follows abs E x y) (hE : E (x s).state) :
    (y (abs s)).state = abs (x s).state := by
  rw [(hx s hE).2]
  cases x s <;> rfl

theorem after {f : α → St → St} {g : α → St' → St'} (hx : Follows abs E x y)
    (hf : ∀ a, Agrees abs E (f a) (g a)) : Follows abs E (x.after f) (y.after g) := by
  have heq {St : Type} (x : EStateM ε St α) (f : α → St → St) :
      x.after f = EStateM.bind x fun a s => .ok () (f a s) := by
    funext s
    simp only [EStateM.after, EStateM.bind]
    cases x s <;> rfl
  rw [heq, heq]
  exact hx.bind fun a s => .ok (hf a) ()

/-- Programs, if every operation does. -/
theorem prog {I : Interface} {h : (o : I.Op) → EStateM ε St (I.Res o)}
    {h' : (o : I.Op) → EStateM ε St' (I.Res o)} (hh : ∀ o, Follows abs E (h o) (h' o))
    (x : Prog I ε α) : Follows abs E (x.run h) (x.run h') := by
  induction x with
  | pure | throw => exact fun s hs => ⟨hs, rfl⟩
  | op o k ih =>
    intro s hs
    have ho := hh o s
    simp only [Prog.run] at hs ⊢
    cases hr : h o s with
    | ok _ s' | error _ s' =>
      rw [hr] at ho hs
      obtain ⟨hE, heq⟩ := ih _ s' hs
      obtain ⟨hE, hy⟩ := ho hE
      rw [hy]
      exact ⟨hE, heq⟩

variable {ι : Type} {step : ι → EStateM ε St Unit} {step' : ι → EStateM ε St' Unit}
  (h : ∀ i, Follows abs E (step i) (step' i)) {s' : St} {is : List ι}
include h

theorem steps (hs : Steps step s is s') (hE : E s') : E s ∧ Steps step' (abs s) is (abs s') := by
  induction hs with
  | nil s => exact ⟨hE, .nil _⟩
  | @cons i is s s₁ s₂ heq _ ih =>
    obtain ⟨hE, hsteps⟩ := ih hE
    have hi := h i s
    rw [heq] at hi
    obtain ⟨hE, hy⟩ := hi hE
    exact ⟨hE, .cons hy hsteps⟩

theorem along {P : ι → St' → Prop} (hs : Steps step s is s') (hE : E s')
    (hP : Along step (fun i s => P i (abs s)) is s) : Along step' P is (abs s) := by
  induction hs with
  | nil s => trivial
  | @cons i is s s₁ s₂ heq hrest ih =>
    obtain ⟨hi, hP⟩ := hP
    have hy := h i s
    rw [heq] at hP hy
    refine ⟨hi, ?_⟩
    rw [(hy (steps h hrest hE).1).2]
    exact ih hE hP

end Follows

end EStateM
