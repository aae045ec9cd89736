import Odtone.Sap80211.Thresholds

/-! # What a threshold check should do

The threshold in position `k` of the list is read in round `k`. It is crossed if there is a value
and the value lies beyond it. A check should report the thresholds crossed, in order, and remove
those of them that are one-shot.

That is what happens if every parameter can be read. If reading one throws, the thresholds removed
before it stay removed while their reports are dropped, and for a parameter that is not known the
loop asks again and again until reading it throws. -/

namespace Odtone.Sap80211

open List Sweep

/-- The report of a threshold that is crossed. -/
def crossing (fi : Interface) (t : ThresholdCrossData) : Option LinkParamReport :=
  match linkGetParameter fi t.type with
  | .ok (some p) =>
    if t.th.crossed p.value then some ⟨⟨t.type, p.value⟩, some t.th, t⟩ else none
  | _ => none

/-- The reports of the thresholds crossed, in order. -/
def reportsOf (fi : Nat → Interface) (l : List ThresholdCrossData) : List LinkParamReport :=
  l.zipIdx.filterMap fun p => crossing (fi p.2) p.1

/-- The thresholds but for the one-shot ones that are crossed. -/
def remaining (fi : Nat → Interface) (l : List ThresholdCrossData) : List ThresholdCrossData :=
  (l.zipIdx.filter fun p => !((crossing (fi p.2) p.1).isSome && p.1.oneShot)).map Prod.fst

/-- A check, with parameter reports subscribed, returns and does what it should. -/
def CheckCorrect (fi : Nat → Interface) (l : List ThresholdCrossData) : Prop :=
  ∃ n, globalThresholdsCheck fi n true l = .returned (remaining fi l) (reportsOf fi l)

/-- The thresholds before position `k` have their parameters read. -/
def ReadUpTo (fi : Nat → Interface) (l : List ThresholdCrossData) (k : Nat) : Prop :=
  ∀ i < k, ∀ t, l[i]? = some t → ∃ p, linkGetParameter (fi i) t.type = .ok (some p)

/-- Reading the parameter of the threshold in position `k` throws, maybe after some rounds in which
there is no value for it. -/
def ThrowsAt (fi : Nat → Interface) (l : List ThresholdCrossData) (k : Nat) : Prop :=
  ∃ t, l[k]? = some t ∧ ∃ m, (∀ i < m, linkGetParameter (fi (k + i)) t.type = .ok none) ∧
    linkGetParameter (fi (k + m)) t.type = .error .exception

variable {fi : Nat → Interface} {l : List ThresholdCrossData}

section Round

variable {k : Nat} {t : ThresholdCrossData}

/-- A round reads the parameter and passes on how that ends. -/
theorem checkRound_eq (fi : Nat → Interface) (k : Nat) (t : ThresholdCrossData) :
    checkRound fi k t = (linkGetParameter (fi k) t.type).map (Option.map fun _ =>
      ⟨crossing (fi k) t, (crossing (fi k) t).isSome && t.oneShot⟩) := by
  cases h : linkGetParameter (fi k) t.type with
  | error e =>
    simp only [checkRound, h]
    rfl
  | ok r =>
    cases r with
    | none =>
      simp only [checkRound, h]
      rfl
    | some p =>
      cases hc : t.th.crossed p.value with
      | true | false =>
        simp [checkRound, crossing, h, hc, Except.map, bind, Except.bind, pure, Except.pure]

theorem checkRound_eq_error {e : Failure} :
    checkRound fi k t = .error e ↔ linkGetParameter (fi k) t.type = .error e := by
  rw [checkRound_eq]
  cases linkGetParameter (fi k) t.type with
  | error | ok => simp [Except.map]

theorem checkRound_eq_none :
    checkRound fi k t = .ok none ↔ linkGetParameter (fi k) t.type = .ok none := by
  rw [checkRound_eq]
  cases linkGetParameter (fi k) t.type with
  | error | ok => simp [Except.map]

theorem checkRound_eq_some : (∃ v, checkRound fi k t = .ok (some v)) ↔
      ∃ p, linkGetParameter (fi k) t.type = .ok (some p) := by
  rw [checkRound_eq]
  cases linkGetParameter (fi k) t.type with
  | error e => simp [Except.map]
  | ok r =>
    cases r with
    | none | some => simp [Except.map]

theorem verdict_checkRound (fi : Nat → Interface) (k : Nat) (t : ThresholdCrossData) :
    verdict (checkRound fi) k t = ⟨crossing (fi k) t, (crossing (fi k) t).isSome && t.oneShot⟩ := by
  rw [verdict, checkRound_eq]
  cases h : linkGetParameter (fi k) t.type with
  | error e => simp [Except.map, crossing, h]
  | ok r =>
    cases r with
    | none => simp [Except.map, crossing, h]
    | some p => simp [Except.map]

end Round

theorem emitted_eq (fi : Nat → Interface) (l : List ThresholdCrossData) :
    emitted (checkRound fi) 0 l = reportsOf fi l := by
  simp only [emitted, reportsOf, verdict_checkRound]

theorem survivors_eq (fi : Nat → Interface) (l : List ThresholdCrossData) :
    survivors (checkRound fi) 0 l = remaining fi l := by
  simp only [survivors, remaining, verdict_checkRound]

theorem decides_iff (pre rest : List ThresholdCrossData) :
    Sweep.Decides (checkRound fi) 0 pre ↔ ReadUpTo fi (pre ++ rest) pre.length := by
  constructor
  · intro h i hi t ht
    rw [getElem?_append_left hi] at ht
    have := h i t ht
    rw [Nat.zero_add] at this
    exact checkRound_eq_some.mp this
  · intro h i t ht
    have hi : i < pre.length := (List.getElem?_eq_some_iff.mp ht).1
    have ht' : (pre ++ rest)[i]? = some t := by rwa [getElem?_append_left hi]
    rw [Nat.zero_add]
    exact checkRound_eq_some.mpr (h i hi t ht')

/-! ## Thresholds that are not crossed -/

theorem reportsOf_eq_nil_iff :
    reportsOf fi l = [] ↔ ∀ k t, l[k]? = some t → crossing (fi k) t = none := by
  rw [reportsOf, filterMap_eq_nil_iff]
  constructor
  · intro h k t ht
    exact h (t, k) (mk_mem_zipIdx_iff_getElem?.mpr ht)
  · rintro h ⟨t, k⟩ hp
    exact h k t (mk_mem_zipIdx_iff_getElem?.mp hp)

theorem remaining_of_not_crossed (h : ∀ k t, l[k]? = some t → crossing (fi k) t = none) :
    remaining fi l = l := by
  have hall : ∀ p ∈ l.zipIdx, (!((crossing (fi p.2) p.1).isSome && p.1.oneShot)) = true := by
    rintro ⟨t, k⟩ hp
    rw [h k t (mk_mem_zipIdx_iff_getElem?.mp hp)]
    rfl
  rw [remaining, filter_eq_self.mpr hall]
  exact zipIdx_map_fst 0 l

/-! ## The check -/

/-- If every parameter is read, the check does what it should. -/
theorem check_of_read (h : ReadUpTo fi l l.length) : CheckCorrect fi l := by
  have hd : Sweep.Decides (checkRound fi) 0 l := by
    rw [decides_iff l [], append_nil]
    exact h
  refine ⟨l.length, ?_⟩
  rw [globalThresholdsCheck, sweep_done hd, survivors_eq, emitted_eq]
  rfl

/-- A check that meets a parameter it cannot read either runs on, or has lost its reports. -/
theorem check_of_unread {pre rest rest' : List ThresholdCrossData}
    {t : ThresholdCrossData} {n : Nat} {rpts : List LinkParamReport}
    (hpre : Sweep.Decides (checkRound fi) 0 pre)
    (hfirst : ¬ ∃ v, checkRound fi pre.length t = .ok (some v))
    (h : globalThresholdsCheck fi n true (pre ++ t :: rest) = .returned rest' rpts) :
    rpts = [] ∧ ThrowsAt fi (pre ++ t :: rest) pre.length := by
  rw [globalThresholdsCheck] at h
  generalize hr : sweep (checkRound fi) n 0 ⟨pre ++ t :: rest, 0, []⟩ = r at h
  have hnot : ∀ s, r ≠ .running s := by
    rintro s rfl
    cases h
  have hmore := sweep_add pre.length hr hnot
  rw [Nat.add_comm, sweep_start _ _ hpre] at hmore
  -- after the round without a value there is never one
  have hstay : checkRound fi pre.length t = .ok none → ∀ j v, checkRound fi j t ≠ .ok (some v) := by
    intro hnone j v hv
    have hunknown : ¬ linkParameterKnown t.type := fun hk =>
      linkGetParameter_ne_none hk _ (checkRound_eq_none.mp hnone)
    obtain ⟨p, hp⟩ := checkRound_eq_some.mp ⟨v, hv⟩
    exact linkGetParameter_ne_some hunknown _ p hp
  rcases sweep_blocked _ _ _ (not_exists.mp hfirst) hstay with
    hrun | ⟨m, -, e, hm, he, hfail⟩
  · exact absurd (hmore.symm.trans hrun) (hnot _)
  · obtain rfl := hmore.symm.trans hfail
    cases e with
    | crash => cases h
    | exception =>
      cases h
      exact ⟨rfl, t, getElem?_it _ _ _, m, fun i hi => checkRound_eq_none.mp (hm i hi),
        checkRound_eq_error.mp he⟩

theorem checkCorrect_iff (fi : Nat → Interface) (l : List ThresholdCrossData) :
    CheckCorrect fi l ↔ ReadUpTo fi l l.length ∨
      (∀ k t, l[k]? = some t → crossing (fi k) t = none) ∧
        ∃ k, ReadUpTo fi l k ∧ ThrowsAt fi l k := by
  constructor
  · rintro ⟨n, h⟩
    rcases decides_or_first (checkRound fi) 0 l with hl | ⟨pre, t, rest, rfl, hpre, hfirst⟩
    · have := (decides_iff l []).mp hl
      rw [append_nil] at this
      exact .inl this
    · rw [Nat.zero_add] at hfirst
      obtain ⟨hnil, hthrows⟩ := check_of_unread hpre hfirst h
      exact .inr ⟨reportsOf_eq_nil_iff.mp hnil, pre.length,
        (decides_iff pre (t :: rest)).mp hpre, hthrows⟩
  · rintro (hread | ⟨hno, k, hread, t, ht, m, hstay, hthrow⟩)
    · exact check_of_read hread
    · obtain ⟨hk, hget⟩ := List.getElem?_eq_some_iff.mp ht
      obtain ⟨pre, rest, rfl, rfl⟩ : ∃ pre rest, l = pre ++ t :: rest ∧ pre.length = k := by
        refine ⟨l.take k, l.drop (k + 1), ?_, length_take_of_le (Nat.le_of_lt hk)⟩
        rw [← hget, getElem_cons_drop, take_append_drop]
      have hpre : remaining fi pre = pre := by
        refine remaining_of_not_crossed fun j u hu => hno j u ?_
        rwa [List.getElem?_append_left (List.getElem?_eq_some_iff.mp hu).1]
      refine ⟨pre.length + (m + 1), ?_⟩
      have hround : ∀ i < m, checkRound fi (pre.length + i) t = .ok none := fun i hi =>
        checkRound_eq_none.mpr (hstay i hi)
      -- what has been removed before the exception is gone, and nothing is reported
      rw [globalThresholdsCheck, sweep_start _ _ ((decides_iff pre (t :: rest)).mpr hread),
        sweep_stays 1 hround, sweep_error (checkRound_eq_error.mpr hthrow),
        survivors_eq, hpre, remaining_of_not_crossed hno, reportsOf_eq_nil_iff.mpr hno]
      rfl

end Odtone.Sap80211
