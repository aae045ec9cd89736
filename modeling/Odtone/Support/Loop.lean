import Mathlib.Data.Finset.Card

/-! # Loops

A loop is given by what one round of it does: the state in front of the next round, or nothing when
the loop is left. `run` makes a bounded number of rounds; a loop that is not left within any bound
does not end. A round may also fail, and `runE` then fails with it.

A loop halts if a rank sinks with every round, and a loop over finitely many states halts exactly if
it never comes back to a state. Whether it does can be read off any image of the states on which the
rounds can be followed.
-/

namespace Loop

open Option

variable {σ τ ε : Type*}

/-- The state in front of round `k`, if the loop gets there. -/
def after (next : σ → Option σ) : Nat → σ → Option σ
  | 0, s => some s
  | k + 1, s => (next s).bind (after next k)

/-- The state in which the loop is left, if it is left within `k` rounds. -/
def run (next : σ → Option σ) : Nat → σ → Option σ
  | 0, _ => none
  | k + 1, s =>
    match next s with
    | none => some s
    | some t => run next k t

section Pure

variable {next : σ → Option σ} {s t u : σ}

@[simp] theorem after_zero : after next 0 s = some s := rfl

theorem after_succ (k : Nat) : after next (k + 1) s = (next s).bind (after next k) := rfl

theorem after_add {j k : Nat} (h : after next j s = some t) :
    after next (j + k) s = after next k t := by
  induction j generalizing s with
  | zero =>
    cases h
    rw [Nat.zero_add]
  | succ j ih =>
    obtain ⟨u, hu, h⟩ := bind_eq_some_iff.mp h
    rw [Nat.add_right_comm, after_succ, hu]
    exact ih h

variable {k : Nat}

theorem after_next (h : after next k s = some t) (ht : next t = some u) :
    after next (k + 1) s = some u := by
  rw [after_add h, after_succ, ht]
  rfl

theorem run_of_none (h : next s = none) : run next (k + 1) s = some s := by
  rw [run, h]

theorem run_of_some (h : next s = some t) : run next (k + 1) s = run next k t := by
  rw [run, h]

/-- What holds in front of the loop and is kept by its rounds holds in front of every round. -/
theorem after_induct (inv : σ → Prop) (hs : inv s)
    (hnext : ∀ t u, inv t → next t = some u → inv u) (h : after next k s = some t) : inv t := by
  induction k generalizing s with
  | zero =>
    cases h
    exact hs
  | succ k ih =>
    obtain ⟨u, hu, h⟩ := bind_eq_some_iff.mp h
    exact ih (hnext s u hs hu) h

theorem run_eq_none : run next k s = none ↔ (after next k s).isSome := by
  induction k generalizing s with
  | zero => simp [run]
  | succ k ih =>
    rw [run, after_succ]
    cases next s with
    | none => simp
    | some t => exact ih

/-- The state in which a loop is left is one it gets to and has no next round in. -/
theorem run_eq_some (h : run next k s = some t) : next t = none ∧ ∃ j, after next j s = some t := by
  induction k generalizing s with
  | zero => cases h
  | succ k ih =>
    rw [run] at h
    cases hs : next s with
    | none =>
      rw [hs] at h
      cases h
      exact ⟨hs, 0, rfl⟩
    | some u =>
      rw [hs] at h
      obtain ⟨ht, j, hj⟩ := ih h
      exact ⟨ht, j + 1, by rw [after_succ, hs]; exact hj⟩

theorem run_mono {j k : Nat} (hjk : j ≤ k) (h : run next j s = some t) : run next k s = some t := by
  induction k generalizing j s with
  | zero =>
    cases Nat.le_zero.mp hjk
    cases h
  | succ k ih =>
    cases j with
    | zero => cases h
    | succ j =>
      rw [run] at h ⊢
      cases hs : next s with
      | none => rwa [hs] at h
      | some u =>
        rw [hs] at h
        exact ih (Nat.le_of_succ_le_succ hjk) h

/-- A loop that comes back to a state is never left. -/
theorem run_of_returns {i j : Nat} (ht : after next i s = some t) (hj : 0 < j)
    (hret : after next j t = some t) (k : Nat) : run next k s = none := by
  have hcycle (m : Nat) : after next (m * j) t = some t := by
    induction m with
    | zero => simp
    | succ m ih => rw [Nat.succ_mul, after_add ih, hret]
  rcases eq_none_or_eq_some (run next k s) with h | ⟨u, h⟩
  · exact h
  · have hle : k ≤ i + k * j := (Nat.le_mul_of_pos_right k hj).trans (Nat.le_add_left _ _)
    have hnone : run next (i + k * j) s = none :=
      run_eq_none.mpr (by rw [after_add ht, hcycle]; rfl)
    rw [run_mono hle h] at hnone
    cases hnone

/-- If every round lowers a rank, the loop is left within as many rounds. -/
theorem run_of_rank (rank : σ → Nat)
    (hrank : ∀ k t u, after next k s = some t → next t = some u → rank u < rank t) :
    ∃ t, run next (rank s + 1) s = some t := by
  obtain ⟨r, hr⟩ : ∃ r, r = rank s := ⟨_, rfl⟩
  induction r using Nat.strong_induction_on generalizing s with
  | h r ih =>
    cases hs : next s with
    | none => exact ⟨s, run_of_none hs⟩
    | some t =>
      have hlt : rank t < rank s := hrank 0 s t rfl hs
      obtain ⟨u, hu⟩ := ih (rank t) (hr ▸ hlt)
        (fun k v w hv => hrank (k + 1) v w (by rw [after_succ, hs]; exact hv)) rfl
      exact ⟨u, by rw [run_of_some hs]; exact run_mono hlt hu⟩

variable (S : Finset σ) (hS : ∀ k t, after next k s = some t → t ∈ S)
include hS

/-- A loop over finitely many states that is not left within one round more than there are states
comes back to one of them. -/
theorem returns_of_run_eq_none (h : run next S.card.succ s = none) :
    ∃ i j t, 0 < j ∧ after next i s = some t ∧ after next j t = some t := by
  have hsome (k : Nat) (hk : k ≤ S.card) : ∃ t, after next k s = some t := by
    rcases eq_none_or_eq_some (run next k s) with hk' | ⟨t, hk'⟩
    · exact isSome_iff_exists.mp (run_eq_none.mp hk')
    · rw [run_mono (Nat.le_succ_of_le hk) hk'] at h
      cases h
  have : Nonempty σ := ⟨s⟩
  choose! f hf using hsome
  obtain ⟨i, hi, j, hj, hne, heq⟩ := Finset.exists_ne_map_eq_of_card_lt_of_maps_to
    (by simp)
    (fun k hk => hS k _ (hf k (Nat.le_of_lt_succ (Finset.mem_range.mp hk))))
  have hi := hf i (Nat.le_of_lt_succ (Finset.mem_range.mp hi))
  have hj := hf j (Nat.le_of_lt_succ (Finset.mem_range.mp hj))
  -- the later of the two rounds is a return to the state of the earlier one
  rcases Nat.lt_or_gt_of_ne hne with hlt | hlt
  · refine ⟨i, j - i, f i, Nat.sub_pos_of_lt hlt, hi, ?_⟩
    rw [← after_add hi, Nat.add_sub_cancel' hlt.le, hj, heq]
  · refine ⟨j, i - j, f j, Nat.sub_pos_of_lt hlt, hj, ?_⟩
    rw [← after_add hj, Nat.add_sub_cancel' hlt.le, hi, heq]

/-- A loop over finitely many states is left exactly if it never comes back to a state. -/
theorem halts_iff_not_returns : (∃ k t, run next k s = some t) ↔
      ¬ ∃ i j t, 0 < j ∧ after next i s = some t ∧ after next j t = some t := by
  constructor
  · rintro ⟨k, t, h⟩ ⟨i, j, u, hj, hu, hret⟩
    rw [run_of_returns hu hj hret] at h
    cases h
  · intro hno
    rcases eq_none_or_eq_some (run next S.card.succ s) with h | ⟨t, h⟩
    · exact absurd (returns_of_run_eq_none S hS h) hno
    · exact ⟨_, t, h⟩

end Pure

/-! ## Rounds that may fail -/

/-- Rounds of a loop until it is left, `k` of them are made or one fails. -/
def runE (body : σ → Except ε (Option σ)) : Nat → σ → Except ε (Option σ)
  | 0, _ => .ok none
  | k + 1, s =>
    match body s with
    | .error e => .error e
    | .ok none => .ok (some s)
    | .ok (some t) => runE body k t

section Failing

variable {body : σ → Except ε (Option σ)}

/-- Where no round fails, the loop is the one without failures. -/
theorem runE_eq_ok {f : σ → Option σ} (h : ∀ s, body s = .ok (f s)) (k : Nat) (s : σ) :
    runE body k s = .ok (run f k s) := by
  induction k generalizing s with
  | zero => rfl
  | succ k ih =>
    rw [runE, run, h s]
    cases f s with
    | none => rfl
    | some t => exact ih t

/-- What holds in front of the loop and is kept by its rounds holds where the loop is left. -/
theorem runE_induct (inv : σ → Prop) {s t : σ} (hs : inv s)
    (hnext : ∀ u v, inv u → body u = .ok (some v) → inv v) (h : runE body k s = .ok (some t)) :
    inv t ∧ body t = .ok none := by
  induction k generalizing s with
  | zero => cases h
  | succ k ih =>
    rw [runE] at h
    split at h
    next => cases h
    next hb =>
      cases h
      exact ⟨hs, hb⟩
    next v hb => exact ih (hnext s v hs hb) h

end Failing

/-! ## Images of a loop -/

/-- States that keep an invariant of the rounds are followed by their images. -/
structure Follows (f : σ → Option σ) (g : τ → Option τ) (inv : σ → Prop) (φ : σ → τ) : Prop where
  keeps : ∀ s t, inv s → f s = some t → inv t
  image : ∀ s, inv s → g (φ s) = (f s).map φ

namespace Follows

variable {f : σ → Option σ} {g : τ → Option τ} {inv : σ → Prop} {φ : σ → τ} {s : σ}

theorem run_eq (h : Follows f g inv φ) (hs : inv s) (k : Nat) :
    run g k (φ s) = (run f k s).map φ := by
  induction k generalizing s with
  | zero => rfl
  | succ k ih =>
    rw [run, run, h.image s hs]
    cases ht : f s with
    | none => rfl
    | some t => exact ih (h.keeps s t hs ht)

end Follows

/-- If a round fails exactly outside of `fit`, and the other rounds are followed by their images,
then a loop does not fail exactly if the images it gets to are all in `fit`. -/
theorem runE_ok_iff {body : σ → Except ε (Option σ)} {g : τ → Option τ} {inv : σ → Prop}
    {φ : σ → τ} {fit : τ → Prop} {s : σ} (hinv : ∀ s t, inv s → body s = .ok (some t) → inv t)
    (himage : ∀ s r, inv s → body s = .ok r → g (φ s) = r.map φ)
    (hfit : ∀ s, inv s → ((∃ r, body s = .ok r) ↔ fit (φ s))) (hs : inv s) :
    (∀ k, ∃ r, runE body k s = .ok r) ↔ ∀ k p, after g k (φ s) = some p → fit p := by
  constructor
  · intro hok k
    induction k generalizing s with
    | zero =>
      rintro p ⟨⟩
      obtain ⟨r, hr⟩ := hok 1
      refine (hfit s hs).mp ?_
      cases h : body s with
      | error e => simp [runE, h] at hr
      | ok r => exact ⟨r, rfl⟩
    | succ k ih =>
      intro p hp
      obtain ⟨q, hq, hp⟩ := bind_eq_some_iff.mp hp
      cases h : body s with
      | error e =>
        obtain ⟨r, hr⟩ := hok 1
        simp [runE, h] at hr
      | ok r =>
        rw [himage s r hs h] at hq
        obtain ⟨t, rfl, rfl⟩ := map_eq_some_iff.mp hq
        refine ih (hinv s t hs h) (fun j => ?_) p hp
        obtain ⟨r, hr⟩ := hok (j + 1)
        exact ⟨r, by rwa [runE, h] at hr⟩
  · intro hfits k
    induction k generalizing s with
    | zero => exact ⟨none, rfl⟩
    | succ k ih =>
      obtain ⟨r, hr⟩ := (hfit s hs).mpr (hfits 0 _ rfl)
      cases r with
      | none => exact ⟨some s, by rw [runE, hr]⟩
      | some t =>
        have himg := himage s _ hs hr
        obtain ⟨u, hu⟩ := ih (hinv s t hs hr)
          fun j p hp => hfits (j + 1) p (by rw [after_succ, himg]; exact hp)
        exact ⟨u, by rw [runE, hr]; exact hu⟩

end Loop
