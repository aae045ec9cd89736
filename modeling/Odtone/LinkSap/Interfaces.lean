import Odtone.Mihf.Services

/-! # The interfaces of the link SAP

`link_sap::update` keeps the state of every interface and tells the local MIHF of a change. States
are `boost::logic::tribool`s, and so is the result of comparing two of them: narrowed to a `bool`,
it is false if one of them is indeterminate. So the change from an indeterminate state is not told.
The updates of a run, and the indications sent in it, are listed with the latest first.
-/

namespace Odtone.LinkSap

open Mihf (LinkId LinkTupleId)

/-- `nic::interface`; an indeterminate state is `none`. -/
structure Interface (ι : Type) where
  id : ι
  link : LinkId
  up : Option Bool

inductive Indication where
  | linkUp (lid : LinkTupleId)
  | linkDown (lid : LinkTupleId) (rc : UInt8)

def Indication.up : Indication → Bool
  | linkUp _ => true
  | linkDown .. => false

/-- With the reason `link_dn_reason_explicit_disconnect`. -/
def indication (l : LinkId) : Bool → Indication
  | true => .linkUp { l with }
  | false => .linkDown { l with } 0

theorem up_indication (l : LinkId) (b : Bool) : (indication l b).up = b := by cases b <;> rfl

/-- `link_sap`, with the indications it has sent and the interface each was sent for. -/
structure Sap (ι : Type) where
  ifmap : Book ι (Interface ι) := []
  sent : List (ι × Indication) := []

/-- `!=` of two `tribool`s, as a `bool` -/
def differ : Option Bool → Option Bool → Bool
  | some x, some y => x != y
  | _, _ => false

variable {ι : Type} [DecidableEq ι] [LT ι] [DecidableLT ι]

def update (s : Sap ι) (it : Interface ι) : Sap ι :=
  let prev := s.ifmap.get? it.id
  let msg := it.up.map fun up => (it.id, indication it.link up)
  { ifmap := s.ifmap.insert it.id { prev.getD it with up := it.up }
    sent := (if prev.all (differ ·.up it.up) then msg.toList else []) ++ s.sent }

def run : List (Interface ι) → Sap ι
  | [] => {}
  | it :: its => update (run its) it

/-- The stored state of an interface. -/
def Sap.state (s : Sap ι) (i : ι) : Option (Option Bool) := (s.ifmap.get? i).map (·.up)

/-- The indications sent for an interface. -/
def Sap.told (s : Sap ι) (i : ι) : List Bool :=
  s.sent.filterMap fun m => if m.1 = i then some m.2.up else none

/-- The last determinate state of an interface. -/
def lastUp (i : ι) : List (Interface ι) → Option Bool
  | [] => none
  | it :: its => (if it.id = i then it.up else none).or (lastUp i its)

/-- After the update with `it`, the indications for every interface alternate, and the last one for
this interface is for its state. -/
def Follows (it : Interface ι) (its : List (Interface ι)) : Prop :=
  (∀ i, ((run (it :: its)).told i).IsChain (· ≠ ·)) ∧
    ∀ b, it.up = some b → ((run (it :: its)).told it.id).head? = some b

/-- An interface that was indeterminate comes back in the state it had before. -/
def Returns (it : Interface ι) (its : List (Interface ι)) : Prop :=
  ∀ b, it.up = some b → (run its).state it.id = some none → lastUp it.id its = some b

/-- At every update of a run. -/
def Throughout (P : Interface ι → List (Interface ι) → Prop) : List (Interface ι) → Prop
  | [] => True
  | it :: its => P it its ∧ Throughout P its

variable {its : List (Interface ι)} {it : Interface ι} {i : ι}

theorem told_cons : (run (it :: its)).told i =
    (if it.id = i ∧ ((run its).state i).all (differ · it.up) then it.up.toList else []) ++
      (run its).told i := by
  have hmsg : ((it.up.map fun up => (it.id, indication it.link up)).toList.filterMap fun m =>
      if m.1 = i then some m.2.up else none) = if it.id = i then it.up.toList else [] := by
    cases it.up <;> by_cases h : it.id = i <;> simp [h, up_indication]
  rw [run, Sap.told, update, List.filterMap_append, apply_ite (List.filterMap _), hmsg]
  by_cases h : it.id = i
  · simp [h, Sap.told, Sap.state, Option.all_map]
  · simp [h, Sap.told]

theorem state_cons : (run (it :: its)).state i =
    if it.id = i then some it.up else (run its).state i := by
  rw [run, Sap.state, update, Book.get?_insert]
  split_ifs <;> rfl

/-- The last indication is for the last determinate state, and that is the state unless it is
indeterminate. -/
structure Kept (state : Option (Option Bool)) (told : List Bool) (last : Option Bool) : Prop where
  alternate : told.IsChain (· ≠ ·)
  head_eq : told.head? = last
  state_eq : state ≠ some none → last = state.join

theorem Kept.step {state told last} (h : Kept state told last) {up : Option Bool}
    (hup : ∀ b, up = some b → state = some none → last = some b) :
    Kept (some up) ((if state.all (differ · up) then up.toList else []) ++ told) (up.or last) := by
  obtain ⟨halt, rfl, hstate⟩ := h
  cases up with
  | none => exact ⟨by simpa using halt, by simp, by simp⟩
  | some b =>
    rcases state with _ | _ | a
    · -- the interface is new
      have hnil : told = [] := by simpa using hstate
      subst hnil
      exact ⟨.singleton b, rfl, fun _ => rfl⟩
    · exact ⟨by simpa [differ] using halt, by simpa [differ] using hup b rfl rfl, fun _ => rfl⟩
    · by_cases hab : a = b
      · exact ⟨by simpa [differ, hab] using halt, by simpa [differ, hab] using hstate, fun _ => rfl⟩
      · have hne : ∀ c ∈ told.head?, b ≠ c := by simp_all [eq_comm]
        simpa [differ, hab] using Kept.mk (halt.cons hne) rfl fun _ => rfl

theorem follows_iff (its : List (Interface ι)) :
    Throughout Follows its ↔ Throughout Returns its := by
  suffices (Throughout Follows its ↔ Throughout Returns its) ∧ (Throughout Returns its →
      ∀ i, Kept ((run its).state i) ((run its).told i) (lastUp i its)) from this.1
  induction its with
  | nil => exact ⟨.rfl, fun _ i => ⟨.nil, rfl, fun _ => rfl⟩⟩
  | cons it its ih =>
    have hkept (hit : Returns it its) (h : Throughout Returns its) (i) :
        Kept ((run (it :: its)).state i) ((run (it :: its)).told i) (lastUp i (it :: its)) := by
      rw [state_cons, told_cons, lastUp]
      by_cases hi : it.id = i
      · subst hi
        simpa using (ih.2 h it.id).step hit
      · simpa [hi] using ih.2 h i
    refine ⟨?_, fun h => hkept h.1 h.2⟩
    rw [Throughout, Throughout, ih.1]
    refine and_congr_left fun h => ⟨fun hf b hb hs => ?_, fun hit => ?_⟩
    · have hlast := hf.2 b hb
      rw [told_cons, hs, hb] at hlast
      simpa [differ, (ih.2 h it.id).head_eq] using hlast
    · refine ⟨fun i => (hkept hit h i).alternate, fun b hb => ?_⟩
      rw [(hkept hit h it.id).head_eq]
      simp [lastUp, hb]

/-- Up, indeterminate, down: the last indication says that the link is up. -/
theorem down_not_told : ¬ Throughout Follows ([some false, none, some true].map fun up =>
    (⟨0, ⟨Wire.Ty.linkType.fresh, Wire.Ty.linkAddr.fresh⟩, up⟩ : Interface Nat)) := by
  rintro ⟨h, -⟩
  cases h.2 false rfl

end Odtone.LinkSap
