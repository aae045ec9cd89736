import Mathlib.Logic.Relation

/-! # Programs over an interface

A program is a tree of operations of an interface, with exceptions. What an operation does is left
to the interpreter, so the same program can be run against different worlds, and a statement that
quantifies over all programs says what a component guarantees against every client it may have.

An operation may fail; the continuation sees the failure, which is what lets a program catch it.
`Prog.run` interprets a program in a state monad whose state survives exceptions.
-/

universe u

/-- An interface: operations, and the type of the answer to each. -/
structure Interface where
  Op : Type
  Res : Op → Type

/-- Programs over the interface `I` with exceptions `ε` and result `α`. -/
inductive Prog (I : Interface) (ε α : Type) where
  | pure (a : α)
  | throw (e : ε)
  | op (o : I.Op) (k : Except ε (I.Res o) → Prog I ε α)

namespace Prog

open EStateM

variable {I : Interface} {ε α β : Type} {St : Type}

def bind : Prog I ε α → (α → Prog I ε β) → Prog I ε β
  | .pure a, f => f a
  | .throw e, _ => .throw e
  | .op o k, f => .op o fun r => (k r).bind f

/-- Run `x`; if it fails, continue with `h`. -/
def tryCatch : Prog I ε α → (ε → Prog I ε α) → Prog I ε α
  | .pure a, _ => .pure a
  | .throw e, h => h e
  | .op o k, h => .op o fun r => (k r).tryCatch h

instance : Monad (Prog I ε) where
  pure := .pure
  bind := bind

instance : MonadExceptOf ε (Prog I ε) where
  throw := .throw
  tryCatch := tryCatch

/-- Perform one operation, passing its failure on. -/
def perform (o : I.Op) : Prog I ε (I.Res o) :=
  .op o fun
    | .ok r => .pure r
    | .error e => .throw e

/-- Interpret a program, given what each operation does. -/
def run (h : (o : I.Op) → EStateM ε St (I.Res o)) : Prog I ε α → EStateM ε St α
  | .pure a => fun s => .ok a s
  | .throw e => fun s => .error e s
  | .op o k => fun s =>
    match h o s with
    | .ok r s' => (k (.ok r)).run h s'
    | .error e s' => (k (.error e)).run h s'

section Run

variable {h : (o : I.Op) → EStateM ε St (I.Res o)}

theorem run_bind (x : Prog I ε α) (f : α → Prog I ε β) :
    (x >>= f).run h = x.run h >>= fun a => (f a).run h := by
  change (x.bind f).run h = EStateM.bind (x.run h) _
  funext s
  induction x generalizing s with
  | pure | throw => rfl
  | op o k ih =>
    simp only [Prog.bind, run, EStateM.bind]
    cases h o s with
    | ok _ s' | error _ s' => exact ih _ s'

@[simp] theorem run_perform (o : I.Op) : (perform o : Prog I ε _).run h = h o := by
  funext s
  simp only [perform, run]
  cases h o s <;> rfl

theorem run_tryCatch (x : Prog I ε α) (c : ε → Prog I ε α) (s : St) :
    (MonadExcept.tryCatch x c).run h s = match x.run h s with
      | .ok a s' => .ok a s'
      | .error e s' => (c e).run h s' := by
  change (x.tryCatch c).run h s = _
  induction x generalizing s with
  | pure | throw => rfl
  | op o k ih =>
    simp only [Prog.tryCatch, run]
    cases h o s with
    | ok _ s' | error _ s' => exact ih _ s'

end Run

/-! ## Postconditions

`Post h x s Q E` says that `x`, started in `s`, returns with `Q` or fails with `E`. -/

section Post

variable {h : (o : I.Op) → EStateM ε St (I.Res o)} {x : Prog I ε α} {f : α → Prog I ε β} {s : St}
  {Q Q' : α → St → Prop} {E E' : ε → St → Prop}

variable (h) in
def Post (x : Prog I ε α) (s : St) (Q : α → St → Prop) (E : ε → St → Prop) : Prop :=
  match x.run h s with
  | .ok a s' => Q a s'
  | .error e s' => E e s'

theorem post_bind {R : β → St → Prop} :
    Post h (x >>= f) s R E ↔ Post h x s (fun a s' => Post h (f a) s' R E) E := by
  rw [Post, Post, run_bind]
  change (match EStateM.bind (x.run h) _ s with | .ok a s' => R a s' | .error e s' => E e s') ↔ _
  unfold EStateM.bind
  cases x.run h s <;> rfl

theorem post_tryCatch {c : ε → Prog I ε α} :
    Post h (MonadExcept.tryCatch x c) s Q E ↔ Post h x s Q (fun e s' => Post h (c e) s' Q E) := by
  rw [Post, Post, run_tryCatch]
  cases x.run h s <;> rfl

theorem Post.mono (hx : Post h x s Q E) (hQ : ∀ a s', Q a s' → Q' a s')
    (hE : ∀ e s', E e s' → E' e s') : Post h x s Q' E' := by
  unfold Post at hx ⊢
  cases hrun : x.run h s with
  | ok a s' =>
    rw [hrun] at hx
    exact hQ a s' hx
  | error e s' =>
    rw [hrun] at hx
    exact hE e s' hx

end Post

end Prog

/-! ## Explicit state passing -/

section After

variable {ε α β St : Type} {x : EStateM ε St α} {s s' : St}

variable {a : α} {e : ε} {c : ε → EStateM ε St α}

theorem EStateM.bind_of_ok {f : α → EStateM ε St β} (h : x s = .ok a s') :
    (x >>= f) s = f a s' := by
  change EStateM.bind x f s = _
  rw [EStateM.bind, h]

theorem EStateM.bind_of_error {f : α → EStateM ε St β} (h : x s = .error e s') :
    (x >>= f) s = .error e s' := by
  change EStateM.bind x f s = _
  rw [EStateM.bind, h]

theorem EStateM.tryCatch_of_ok (h : x s = .ok a s') : tryCatch x c s = .ok a s' := by
  change EStateM.tryCatch x c s = _
  delta EStateM.tryCatch
  rw [h]

/-- The state is as the failure has left it. -/
theorem EStateM.tryCatch_of_error (h : x s = .error e s') : tryCatch x c s = c e s' := by
  change EStateM.tryCatch x c s = _
  delta EStateM.tryCatch
  rw [h]
  rfl

/-- Run `x` and change the state it returns with by `f`; a failure is passed on. -/
def EStateM.after (x : EStateM ε St α) (f : α → St → St) : EStateM ε St Unit := fun s =>
  match x s with
  | .ok a s' => .ok () (f a s')
  | .error e s' => .error e s'

theorem EStateM.after_of_ok {f : α → St → St} (h : x s = .ok a s') :
    x.after f s = .ok () (f a s') := by
  simp only [after, h]

theorem EStateM.after_of_error {f : α → St → St} (h : x s = .error e s') :
    x.after f s = .error e s' := by
  simp only [after, h]

end After

/-! ## Computations that keep a relation

`Keeps R x` says that `x` relates every state it starts in to the state it ends in, whether it
returns or fails. For a preorder `R` this composes, and a program keeps what each of its operations
keeps. -/

section Keeps

variable {I : Interface} {ε α β : Type} {St : Type} {R : St → St → Prop}

/-- The state a result carries. -/
def EStateM.Result.state : EStateM.Result ε St α → St
  | .ok _ s => s
  | .error _ s => s

@[simp] theorem EStateM.Result.state_ok (a : α) (s : St) :
    (EStateM.Result.ok a s : EStateM.Result ε St α).state = s := rfl

@[simp] theorem EStateM.Result.state_error (e : ε) (s : St) :
    (EStateM.Result.error e s : EStateM.Result ε St α).state = s := rfl

def EStateM.Result.fault? : EStateM.Result ε St α → Option ε
  | .ok _ _ => none
  | .error e _ => some e

/-- Has the computation succeeded? -/
def EStateM.Result.isOk : EStateM.Result ε St α → Bool
  | .ok _ _ => true
  | .error _ _ => false

theorem EStateM.Result.eq_ok_of_isOk {r : EStateM.Result ε St Unit} (h : r.isOk = true) :
    r = .ok () r.state := by
  cases r with
  | ok _ s => rfl
  | error _ s => cases h

/-- `x` relates the states before and after it. -/
def Keeps (R : St → St → Prop) (x : EStateM ε St α) : Prop := ∀ s, R s (x s).state

namespace Keeps

theorem result (h : Keeps R x) {s : St} {r : EStateM.Result ε St α} (heq : x s = r) :
    R s r.state := heq ▸ h s

/-- A program keeps what its operations keep. -/
theorem run [Std.Refl R] [IsTrans St R] {h : (o : I.Op) → EStateM ε St (I.Res o)}
    (hh : ∀ o, Keeps R (h o)) (x : Prog I ε α) : Keeps R (x.run h) := by
  induction x with
  | pure | throw => exact fun s => refl_of R s
  | op o k ih =>
    intro s
    have hs := hh o s
    simp only [Prog.run]
    cases heq : h o s with
    | ok _ s' | error _ s' =>
      rw [heq] at hs
      exact trans_of R hs (ih _ s')

end Keeps

end Keeps

/-! ## Runs

A system reacts to inputs one after another, and a failure that an input leaves ends it. -/

section Runs

variable {ι ε St : Type} (step : ι → EStateM ε St Unit)

/-- React to the inputs in order, up to the first failure. -/
def EStateM.runAll : List ι → St → St
  | [], s => s
  | i :: is, s =>
    match step i s with
    | .ok _ s' => runAll is s'
    | .error _ s' => s'

/-- Every input of the run comes in a state that meets `C`. -/
def EStateM.Along (C : ι → St → Prop) : List ι → St → Prop
  | [], _ => True
  | i :: is, s => C i s ∧ match step i s with
      | .ok _ s' => Along C is s'
      | .error _ _ => True

instance EStateM.Along.decidable {C : ι → St → Prop} [∀ i s, Decidable (C i s)] :
    (is : List ι) → (s : St) → Decidable (Along step C is s)
  | [], _ => isTrue trivial
  | i :: is, s =>
    have : Decidable (match step i s with
        | .ok _ s' => Along step C is s'
        | .error _ _ => True) :=
      match step i s with
      | .ok _ s' => Along.decidable is s'
      | .error _ _ => isTrue trivial
    inferInstanceAs (Decidable (C i s ∧ _))

variable {step} {C : ι → St → Prop} {P Q : St → Prop}

theorem EStateM.along_of_forall {is : List ι} (h : ∀ i ∈ is, ∀ s, C i s) (s : St) :
    Along step C is s := by
  induction is generalizing s with
  | nil => exact trivial
  | cons i is ih =>
    obtain ⟨hi, hrest⟩ := List.forall_mem_cons.mp h
    refine ⟨hi s, ?_⟩
    split
    · exact ih hrest _
    · exact trivial

/-- If every reaction to an input that meets `C` keeps `P` as long as it succeeds, and leaves `Q` in
any case, then `Q` holds at the end of every run whose inputs meet `C`. -/
theorem EStateM.runAll_along_induct (hP : ∀ i s s', C i s → P s → step i s = .ok () s' → P s')
    (hQ : ∀ i s, C i s → P s → Q (step i s).state) (hPQ : ∀ s, P s → Q s) (is : List ι) {s : St}
    (hs : P s) (hC : Along step C is s) : Q (runAll step is s) := by
  induction is generalizing s with
  | nil => exact hPQ s hs
  | cons i is ih =>
    obtain ⟨hi, hrest⟩ := hC
    unfold runAll
    cases heq : step i s with
    | ok _ s' =>
      rw [heq] at hrest
      exact ih (hP i s s' hi hs heq) hrest
    | error e s' =>
      have h := hQ i s hi hs
      rwa [heq] at h

/-- If every reaction keeps `P` as long as it succeeds, and leaves `Q` in any case, then `Q` holds
at the end of every run. -/
theorem EStateM.runAll_induct (hP : ∀ i s s', P s → step i s = .ok () s' → P s')
    (hQ : ∀ i s, P s → Q (step i s).state) (hPQ : ∀ s, P s → Q s) (is : List ι) {s : St}
    (hs : P s) : Q (runAll step is s) :=
  runAll_along_induct (fun i s s' _ => hP i s s') (fun i s _ => hQ i s)
    hPQ is hs (along_of_forall (fun _ _ _ => trivial) s)

/-- If a reaction to an input that meets `C` keeps `P`, successful or not, then `P` holds at the end
of every run whose inputs meet `C`. -/
theorem EStateM.runAll_along (hP : ∀ i s, C i s → P s → P (step i s).state)
    (is : List ι) {s : St} (hs : P s) (hC : Along step C is s) : P (runAll step is s) := by
  refine runAll_along_induct (fun i s s' hi h heq => ?_) hP (fun _ h => h) is hs hC
  have := hP i s hi h
  rwa [heq] at this

variable (step) in
/-- `s'` is reached from `s` by reacting to the inputs, none of which fails. -/
inductive EStateM.Steps : St → List ι → St → Prop
  | nil (s : St) : Steps s [] s
  | cons {i : ι} {is : List ι} {s s' s'' : St} :
      step i s = .ok () s' → Steps s' is s'' → Steps s (i :: is) s''

theorem EStateM.Steps.induct {is : List ι} (h : Steps step s is s')
    (hP : ∀ i s s', P s → step i s = .ok () s' → P s') (hs : P s) : P s' := by
  induction h with
  | nil s => exact hs
  | cons heq _ ih => exact ih (hP _ _ _ hs heq)

/-- The same, for a run whose inputs all come in states that meet `C`. -/
theorem EStateM.Steps.induct_along {is : List ι} (h : Steps step s is s')
    (hC : Along step C is s) (hP : ∀ i s s', C i s → P s → step i s = .ok () s' → P s')
    (hs : P s) : P s' := by
  induction h with
  | nil s => exact hs
  | cons heq _ ih =>
    obtain ⟨hi, hrest⟩ := hC
    rw [heq] at hrest
    exact ih hrest (hP _ _ _ hi hs heq)

theorem EStateM.steps_runAll (is : List ι) {s : St}
    (h : Along step (fun i s => (step i s).isOk = true) is s) :
    Steps step s is (runAll step is s) := by
  induction is generalizing s with
  | nil => exact .nil s
  | cons i is ih =>
    obtain ⟨hi, hrest⟩ := h
    cases heq : step i s with
    | error e s' =>
      rw [heq] at hi
      cases hi
    | ok _ s' =>
      have hrun : runAll step (i :: is) s = runAll step is s' := by
        simp only [runAll, heq]
      rw [heq] at hrest
      rw [hrun]
      exact .cons heq (ih hrest)

/-- If the reaction to an input that meets `C` succeeds and keeps `P`, then every run whose inputs
meet `C` succeeds and ends in `P`. -/
theorem EStateM.exists_steps (hP : ∀ i s, C i s → P s → ∃ s', step i s = .ok () s' ∧ P s')
    (is : List ι) {s : St} (hs : P s) (hC : Along step C is s) :
    ∃ s', Steps step s is s' ∧ P s' := by
  induction is generalizing s with
  | nil => exact ⟨s, .nil s, hs⟩
  | cons i is ih =>
    obtain ⟨hi, hrest⟩ := hC
    obtain ⟨s₁, heq, hs₁⟩ := hP i s hi hs
    rw [heq] at hrest
    obtain ⟨s₂, hsteps, hs₂⟩ := ih hs₁ hrest
    exact ⟨s₂, .cons heq hsteps, hs₂⟩

end Runs
