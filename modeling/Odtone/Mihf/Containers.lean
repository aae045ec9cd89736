import Odtone.Mihf.Step
import Odtone.Support.Simulation

/-! # Pools in containers

The node of the source keeps its transactions in a `std::set`. What that makes of a comparator which
is no order is the library's business: with the usual one a transaction can stay in the set after it
has been erased, and two of one key can get in. As long as no such thing has happened, the node does
what it does with sets for its pools, whatever the container.
-/

namespace Odtone.Mihf

open EStateM Pool

variable {σ C : Type} [Container C]

namespace Node

/-- The node with the elements of the containers for its pools. -/
def abs (s : Node σ C) : Node σ := { s with src := toList s.src, dst := toList s.dst }

/-- Every operation on the two pools so far has had the effect that it has on a set of keys. -/
def Exact (s : Node σ (Tracked C)) : Prop := s.src.exact = true ∧ s.dst.exact = true
deriving Decidable

theorem abs_start (svc : σ) (tid : UInt16) : (start svc tid : Node σ C).abs = initial svc tid := by
  simp only [abs, start, Container.toList_empty]
  rfl

/-- `f` is `g` with sets for the pools. -/
abbrev Same (f : Node σ (Tracked C) → Node σ (Tracked C)) (g : Node σ → Node σ) : Prop :=
  Agrees abs Exact f g

end Node

/-- `x` is `y` with sets for the pools. -/
abbrev Mimics {α : Type} (x : MOn (Tracked C) σ α) (y : M σ α) : Prop :=
  Follows Node.abs Node.Exact x y

/-! ## The operations on the pools -/

namespace Node

theorem same_of_eq {f : Node σ (Tracked C) → Node σ (Tracked C)} {g : Node σ → Node σ}
    (h : ∀ s, (f s).src = s.src ∧ (f s).dst = s.dst ∧ g s.abs = (f s).abs) : Same f g := by
  intro s hs
  obtain ⟨hsrc, hdst, heq⟩ := h s
  rw [Exact, hsrc, hdst] at hs
  exact ⟨hs, heq⟩

/-- An operation on the pool of the source transactions. -/
theorem same_src {f : Node σ (Tracked C) → Tracked C} {g : Node σ → List Ptr}
    (h : ∀ s, (f s).exact = (s.src.exact && toList (f s) = g s.abs)) :
    Same (fun s => { s with src := f s }) fun s => { s with src := g s } := by
  rintro s ⟨hsrc, hdst⟩
  obtain ⟨hexact, heq⟩ := Bool.and_eq_true_iff.mp ((h s).symm.trans hsrc)
  exact ⟨⟨hexact, hdst⟩, congrArg (fun l => { s.abs with src := l }) (of_decide_eq_true heq).symm⟩

/-- An operation on the pool of the destination transactions. -/
theorem same_dst {f : Node σ (Tracked C) → Tracked C} {g : Node σ → List Ptr}
    (h : ∀ s, (f s).exact = (s.dst.exact && toList (f s) = g s.abs)) :
    Same (fun s => { s with dst := f s }) fun s => { s with dst := g s } := by
  rintro s ⟨hsrc, hdst⟩
  obtain ⟨hexact, heq⟩ := Bool.and_eq_true_iff.mp ((h s).symm.trans hdst)
  exact ⟨⟨hsrc, hexact⟩, congrArg (fun l => { s.abs with dst := l }) (of_decide_eq_true heq).symm⟩

variable (p : Ptr)

theorem same_addSrc : Same (σ := σ) (C := C) (·.addSrc p) (·.addSrc p) := same_src fun _ => rfl

theorem same_addDst : Same (σ := σ) (C := C) (·.addDst p) (·.addDst p) := same_dst fun _ => rfl

theorem same_delSrc : Same (σ := σ) (C := C) (·.delSrc p) (·.delSrc p) := same_src fun _ => rfl

theorem same_delDst : Same (σ := σ) (C := C) (·.delDst p) (·.delDst p) := same_dst fun _ => rfl

theorem same_ite {c : Node σ → Prop} [DecidablePred c] {f : Node σ (Tracked C) → Node σ (Tracked C)}
    {g : Node σ → Node σ} (h : Same f g) :
    Same (fun s => if c s.abs then f s else s) fun s => if c s then g s else s := by
  intro s hs
  dsimp only at hs ⊢
  split_ifs at hs ⊢
  · exact h s hs
  · exact ⟨hs, rfl⟩

theorem same_poolSrc : Same (σ := σ) (C := C) (·.poolSrc p) (·.poolSrc p) :=
  same_ite (c := fun s => (s.srcs.get p).transactionStatus = .ongoing) (same_addSrc p)

theorem same_poolDst : Same (σ := σ) (C := C) (·.poolDst p) (·.poolDst p) :=
  same_ite (c := fun s => (s.dsts.get p).transactionStatus = .ongoing) (same_addDst p)

theorem same_delFinishedSrc : Same (σ := σ) (C := C) (·.delFinishedSrc p) (·.delFinishedSrc p) :=
  same_ite (c := fun s => (s.srcs.get p).Finished = true) (same_delSrc p)

theorem same_delFinishedDst : Same (σ := σ) (C := C) (·.delFinishedDst p) (·.delFinishedDst p) :=
  same_ite (c := fun s => (s.dsts.get p).Finished = true) (same_delDst p)

theorem same_putSrc (x : Machine SrcState) :
    Same (σ := σ) (C := C) (·.putSrc p x) (·.putSrc p x) := same_of_eq fun _ => ⟨rfl, rfl, rfl⟩

theorem same_putDst (x : Machine DstState) :
    Same (σ := σ) (C := C) (·.putDst p x) (·.putDst p x) := same_of_eq fun _ => ⟨rfl, rfl, rfl⟩

theorem same_onSrc (f : Machine SrcState → Machine SrcState) :
    Same (σ := σ) (C := C) (·.onSrc p f) (·.onSrc p f) := same_of_eq fun _ => ⟨rfl, rfl, rfl⟩

theorem same_onDst (f : Machine DstState → Machine DstState) :
    Same (σ := σ) (C := C) (·.onDst p f) (·.onDst p f) := same_of_eq fun _ => ⟨rfl, rfl, rfl⟩

theorem same_callSrc (x : Machine SrcState) :
    Same (σ := σ) (C := C) (·.callSrc p x) (·.callSrc p x) := same_of_eq fun _ => ⟨rfl, rfl, rfl⟩

theorem same_callDst (x : Machine DstState) :
    Same (σ := σ) (C := C) (·.callDst p x) (·.callDst p x) := same_of_eq fun _ => ⟨rfl, rfl, rfl⟩

theorem same_newSrc : Same (σ := σ) (C := C) (·.newSrc p) (·.newSrc p) :=
  same_of_eq fun _ => ⟨rfl, rfl, rfl⟩

theorem same_newDst : Same (σ := σ) (C := C) (·.newDst p) (·.newDst p) :=
  same_of_eq fun _ => ⟨rfl, rfl, rfl⟩

theorem same_receive (m : MetaMessage) : Same (σ := σ) (C := C)
    (fun s => { s with msgs := s.msgs.push m }) fun s => { s with msgs := s.msgs.push m } :=
  same_of_eq fun _ => ⟨rfl, rfl, rfl⟩

theorem same_logIn : Same (σ := σ) (C := C) (·.logIn p) (·.logIn p) :=
  same_of_eq fun _ => ⟨rfl, rfl, rfl⟩

theorem same_logOut : Same (σ := σ) (C := C) (·.logOut p) (·.logOut p) :=
  same_of_eq fun _ => ⟨rfl, rfl, rfl⟩

end Node

/-! ## Transactions -/

/-- A test of what is not in the pools. -/
theorem mimics_ite {c : Node σ → Prop} [DecidablePred c] {α : Type} {x x' : MOn (Tracked C) σ α}
    {y y' : M σ α} (hx : Mimics x y) (hx' : Mimics x' y') :
    Mimics (fun s => if c s.abs then x s else x' s) fun s => if c s then y s else y' s := by
  intro s
  dsimp only
  split
  · exact hx s
  · exact hx' s

section Run

open Node

variable {process : Ptr → Ptr → MOn (Tracked C) σ Bool} {process' : Ptr → Ptr → M σ Bool}
  (hproc : ∀ i o, Mimics (process i o) (process' i o))
include hproc

theorem mimics_runSrc (p : Ptr) : Mimics (runSrc process p) (runSrc process' p) :=
  mimics_ite (c := fun s => (s.srcMachine p).srcRun.2 = true)
    (fun _ => .call (same_callSrc p _) ((hproc _ _).after fun _ => same_onSrc p _))
    fun _ => .ok (same_putSrc p _) ()

theorem mimics_runDst (p : Ptr) : Mimics (runDst process p) (runDst process' p) :=
  mimics_ite (c := fun s => (s.dstMachine p).dstRun.2 = true)
    (fun _ => .call (same_callDst p _)
      ((hproc _ _).after fun rsp => same_onDst p (·.dstResume rsp)))
    fun _ => .ok (same_putDst p _) ()

theorem mimics_runSrcIfOngoing (p : Ptr) :
    Mimics (runSrcIfOngoing process p) (runSrcIfOngoing process' p) :=
  mimics_ite (c := fun s => (s.srcs.get p).transactionStatus = .ongoing) (mimics_runSrc hproc p)
    (.pure ())

theorem mimics_runDstIfOngoing (p : Ptr) :
    Mimics (runDstIfOngoing process p) (runDstIfOngoing process' p) :=
  mimics_ite (c := fun s => (s.dsts.get p).transactionStatus = .ongoing) (mimics_runDst hproc p)
    (.pure ())

theorem mimics_newDstTransaction (i : Ptr) :
    Mimics (newDstTransaction process i) (newDstTransaction process' i) := fun s =>
  .call (same_newDst i) ((mimics_runDst hproc s.dsts.next).after fun _ => same_poolDst _)

theorem mimics_newSrcTransaction (o : Ptr) :
    Mimics (newSrcTransaction process o) (newSrcTransaction process' o) := fun s =>
  .call (same_newSrc o) ((mimics_runSrc hproc s.srcs.next).after fun _ => same_poolSrc _)

/-! ## Messages -/

theorem mimics_messageIn (i : Ptr) : Mimics (messageIn process i) (messageIn process' i) := by
  intro s
  have hmsgs : s.abs.msgs = s.msgs := rfl
  have hsrc (k : Id × UInt16) : (s.abs.logIn i).findSrc k = (s.logIn i).findSrc k := rfl
  have hdst (k : Id × UInt16) : (s.abs.logIn i).findDst k = (s.logIn i).findDst k := rfl
  simp only [messageIn, hmsgs, hsrc, hdst]
  split
  · cases (s.logIn i).findSrc ((s.msgs.get i).source, (s.msgs.get i).tid) with
    | none => exact .call (same_logIn i) (mimics_newDstTransaction hproc i)
    | some p =>
      have hin := (same_logIn (σ := σ) (C := C) i).comp (same_onSrc p (Machine.srcIn i))
      dsimp only
      split
      · exact .ok (hin.comp (same_delFinishedSrc p)) ()
      · exact .call hin ((mimics_runSrcIfOngoing hproc p).after fun _ => same_delFinishedSrc p)
  · cases (s.logIn i).findDst ((s.msgs.get i).source, (s.msgs.get i).tid) with
    | none => exact .call (same_logIn i) (mimics_newDstTransaction hproc i)
    | some p =>
      exact .call ((same_logIn i).comp (same_onDst p (Machine.dstIn i)))
        ((mimics_runDstIfOngoing hproc p).after fun _ =>
          (same_onDst p Machine.dstInAck).comp (same_delFinishedDst p))

theorem mimics_messageOut (o : Ptr) : Mimics (messageOut process o) (messageOut process' o) := by
  intro s
  have hmsgs : (s.abs.logOut o).msgs = (s.logOut o).msgs := rfl
  have hsrc (k : Id × UInt16) : (s.abs.logOut o).findSrc k = (s.logOut o).findSrc k := rfl
  have hdst (k : Id × UInt16) : (s.abs.logOut o).findDst k = (s.logOut o).findDst k := rfl
  have hnew := Result.SeenAs.call (s := s) (same_logOut o) (mimics_newSrcTransaction hproc o)
  have hold (p : Ptr) := Result.SeenAs.call (s := s)
    ((same_logOut o).comp (same_onSrc p (Machine.out o)))
    ((mimics_runSrcIfOngoing hproc p).after fun _ => same_delFinishedSrc p)
  simp only [messageOut, hmsgs, hsrc, hdst]
  split
  · cases (s.logOut o).findDst _ with
    | none => exact hnew
    | some p =>
      exact .call ((same_logOut o).comp (same_onDst p (Machine.out o)))
        ((mimics_runDstIfOngoing hproc p).after fun _ => same_delFinishedDst p)
  · cases (s.logOut o).findSrc _ with
    | none => exact hnew
    | some p => exact hold p
  · cases (s.logOut o).findSrc _ with
    | none => exact hnew
    | some p => exact hold p
  · exact .ok (same_logOut o) ()

end Run

/-! ## Ticks -/

section Dec

section

variable {S : Type} (cell : Node σ C → Ptr → Transaction S)
  (on : Node σ C → Ptr → (Machine S → Machine S) → Node σ C) (run : Ptr → MOn C σ Unit) (p : Ptr)

omit [Container C] in
theorem decOne_eq_bind : decOne cell on run p = EStateM.bind (decLife cell on run p) fun _ s₁ =>
    EStateM.bind (decTimer cell on run p) (fun _ s₂ =>
      .ok ((cell s₁ p).transactionStopWhen = 0 && (cell s₁ p).transactionStatus = .ongoing ||
        (cell s₂ p).transactionStatus ≠ .ongoing) s₂) s₁ := by
  funext s
  simp only [decOne, EStateM.bind]
  cases decLife cell on run p s with
  | error e s₁ => rfl
  | ok _ s₁ => cases hr : decTimer cell on run p s₁ <;> simp only [hr]

omit [Container C] in
theorem decLoop_eq_bind (l : List Ptr) : decLoop cell on run (p :: l) =
    EStateM.bind (decOne cell on run p) fun del => EStateM.bind (decLoop cell on run l)
      fun dels s => .ok (if del then dels ++ [p] else dels) s := by
  funext s
  simp only [decLoop, EStateM.bind]
  cases decOne cell on run p s with
  | error e s₁ => rfl
  | ok del s₁ => cases hr : decLoop cell on run l s₁ <;> simp only [hr]

theorem tick_eq_bind (process : Ptr → Ptr → MOn C σ Bool) :
    tick process = EStateM.bind (decSrc process) fun _ => decDst process := by
  funext s
  simp only [tick, EStateM.bind]
  cases decSrc process s <;> rfl

end

variable {S : Type} {cell : Node σ (Tracked C) → Ptr → Transaction S}
  {cell' : Node σ → Ptr → Transaction S}
  {on : Node σ (Tracked C) → Ptr → (Machine S → Machine S) → Node σ (Tracked C)}
  {on' : Node σ → Ptr → (Machine S → Machine S) → Node σ}
  {run : Ptr → MOn (Tracked C) σ Unit} {run' : Ptr → M σ Unit}
  (hcell : ∀ s p, cell' s.abs p = cell s p) (hon : ∀ p f, Node.Same (on · p f) (on' · p f))
  (hrun : ∀ p, Mimics (run p) (run' p))

include hcell in
theorem mimics_test (c : Transaction S → Prop) [DecidablePred c] {α : Type} (p : Ptr)
    {x x' : MOn (Tracked C) σ α} {y y' : M σ α} (hx : Mimics x y) (hx' : Mimics x' y') :
    Mimics (fun s => if c (cell s p) then x s else x' s)
      fun s => if c (cell' s p) then y s else y' s := by
  have h := mimics_ite (c := fun s => c (cell' s p)) hx hx'
  simpa only [hcell] using h

include hcell hon hrun

theorem mimics_decLife (p : Ptr) : Mimics (decLife cell on run p) (decLife cell' on' run' p) := by
  intro s
  have h := Result.SeenAs.call (s := s) (hon p Machine.decStop)
    (mimics_test hcell (·.transactionStopWhen = 0) p (hrun p) (.pure ()))
  exact h

theorem mimics_decTimer (p : Ptr) :
    Mimics (decTimer cell on run p) (decTimer cell' on' run' p) := by
  have hack : Mimics (fun s => run p (on s p .ackRequestor)) fun s =>
    run' p (on' s p .ackRequestor) :=
    fun s => .call (hon p Machine.ackRequestor) (hrun p)
  have hring (s : Node σ (Tracked C)) := Result.SeenAs.call (s := s) (hon p .decRetransmission)
    (mimics_test hcell (·.retransmissionWhen = 0) p hack (.pure ()))
  exact mimics_test hcell (·.ackRequestorStatus = .ongoing) p hring (.pure ())

theorem mimics_decOne (p : Ptr) : Mimics (decOne cell on run p) (decOne cell' on' run' p) := by
  rw [decOne_eq_bind, decOne_eq_bind]
  refine (mimics_decLife hcell hon hrun p).bind fun _ s₁ => ?_
  simp only [hcell]
  refine ((mimics_decTimer hcell hon hrun p).bind fun _ s₂ => ?_) s₁
  simp only [hcell]
  exact .ok .id _

theorem mimics_decLoop (l : List Ptr) :
    Mimics (decLoop cell on run l) (decLoop cell' on' run' l) := by
  induction l with
  | nil => exact .pure []
  | cons p l ih =>
    rw [decLoop_eq_bind, decLoop_eq_bind]
    exact (mimics_decOne hcell hon hrun p).bind fun del => ih.bind fun dels => .pure _

end Dec

section Knot

open Node

variable {process : Ptr → Ptr → MOn (Tracked C) σ Bool} {process' : Ptr → Ptr → M σ Bool}
  (hproc : ∀ i o, Mimics (process i o) (process' i o))
include hproc

theorem mimics_tick : Mimics (tick process) (tick process') := by
  have hsrcs (s : Node σ (Tracked C)) (p : Ptr) : s.abs.srcs.get p = s.srcs.get p := rfl
  have hdsts (s : Node σ (Tracked C)) (p : Ptr) : s.abs.dsts.get p = s.dsts.get p := rfl
  have hsrc : Mimics (decSrc process) (decSrc process') := fun s =>
    ((mimics_decLoop hsrcs same_onSrc (mimics_runSrc hproc) (toList s.src)).after
      fun dels => .foldl same_delSrc dels) s
  have hdst : Mimics (decDst process) (decDst process') := fun s =>
    ((mimics_decLoop hdsts same_onDst (mimics_runDst hproc) (toList s.dst)).after
      fun dels => .foldl same_delDst dels) s
  rw [tick_eq_bind, tick_eq_bind]
  exact hsrc.bind fun _ => hdst

end Knot

/-! ## Reactions -/

theorem mimics_perform {out : Ptr → MOn (Tracked C) σ Unit} {out' : Ptr → M σ Unit}
    (hout : ∀ p, Mimics (out p) (out' p)) (o : Op σ) : Mimics (perform out o) (perform out' o) := by
  cases o with
  | messageOut p =>
    exact mimics_ite (c := fun s => p < s.msgs.next) (hout p) fun s hs => ⟨hs, rfl⟩
  | _ => exact fun s hs => ⟨hs, rfl⟩

section

variable (handler : Handler σ) (n : Nat)

theorem mimics_process (i o : Ptr) :
    Mimics (C := C) (process handler n i o) (process handler n i o) := by
  induction n generalizing i o with
  | zero => exact fun s hs => ⟨hs, rfl⟩
  | succ n ih => exact .prog (mimics_perform (mimics_messageOut ih)) _

theorem mimics_processLocked (i o : Ptr) :
    Mimics (C := C) (processLocked handler i o) (processLocked handler i o) := by
  have hout (_ : Ptr) : Mimics (C := C) (σ := σ) (α := Unit) (.error .deadlock ·)
      (.error .deadlock ·) := fun _ hs => ⟨hs, rfl⟩
  exact .prog (mimics_perform hout) _

/-- A reaction of the node with containers is that of the node with sets. -/
theorem mimics_step (i : Input σ) : Mimics (C := C) (step handler n i) (step handler n i) := by
  cases i with
  | recv m =>
    intro s
    have h := Result.SeenAs.call (s := s) (Node.same_receive m)
      (mimics_messageIn (mimics_process handler n) s.msgs.next)
    exact h
  | act x => exact .prog (mimics_perform (mimics_messageOut (mimics_process handler n))) x
  | tick => exact mimics_tick (mimics_processLocked handler)

variable {handler n} {s s' : Node σ (Tracked C)} {svc : σ} {tid : UInt16}

/-- A run of the node with containers is one of the node with sets. -/
theorem Node.Exact.steps {is : List (Input σ)} (hE : s'.Exact)
    (h : Steps (step handler n) s is s') : s.Exact ∧ Steps (step handler n) s.abs is s'.abs :=
  Follows.steps (mimics_step handler n) h hE

theorem Node.Exact.reached {is : List (Input σ)} (hE : s.Exact)
    (h : Steps (step handler n) (start svc tid) is s) :
    Steps (step handler n) (initial svc tid) is s.abs :=
  abs_start (C := Tracked C) svc tid ▸ (hE.steps h).2

theorem Node.Exact.step {i : Input σ} (hE : s'.Exact) (h : step handler n i s = .ok () s') :
    s.Exact ∧ Mihf.step handler n i s.abs = .ok () s'.abs := by
  have hi := mimics_step handler n i s
  rw [h] at hi
  exact hi hE

end

end Odtone.Mihf
