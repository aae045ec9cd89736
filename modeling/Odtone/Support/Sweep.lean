import Mathlib.Data.List.Basic

/-! # Erasing while iterating

A loop with an iterator looks at the element under it, may fail, may emit something, and then erases
the element, moves past it, or leaves everything as it is and looks again. `sweep` is that loop with
a number of rounds; what it does with an element may depend on the round.

A stretch of the list with a verdict on every element is worked off in as many rounds, and what has
become of it is described without an iterator (`sweep_stretch`). If no element is left in place, the
loop looks at a prefix of the list, each element once (`looked_isPrefix`). -/

namespace Sweep

open List

variable {α β ε : Type}

/-- The variables of the loop: what has been emitted, and the iterator as a position. -/
structure State (α β : Type) where
  list : List α
  it : Nat
  out : List β

/-- What is done with an element: something may be emitted, and it is erased or kept. -/
structure Verdict (β : Type) where
  emit : Option β
  erase : Bool

/-- The element under the iterator has been dealt with. -/
def State.next (s : State α β) (v : Verdict β) : State α β where
  list := if v.erase then s.list.eraseIdx s.it else s.list
  it := if v.erase then s.it else s.it + 1
  out := s.out ++ v.emit.toList

/-- How the loop stands after some rounds. -/
inductive Result (α β ε : Type) where
  | done (s : State α β)
  | failed (e : ε) (s : State α β)
  | running (s : State α β)

def Result.state : Result α β ε → State α β
  | .done s | .failed _ s | .running s => s

/-- What a round does with an element; without a verdict the iterator stays where it is. -/
abbrev Body (α β ε : Type) := Nat → α → Except ε (Option (Verdict β))

/-- The loop from round `k` on, for at most `n` rounds. -/
def sweep (f : Body α β ε) : Nat → Nat → State α β → Result α β ε
  | 0, _, s => if s.it < s.list.length then .running s else .done s
  | n + 1, k, s =>
    match s.list[s.it]? with
    | none => .done s
    | some a =>
      match f k a with
      | .error e => .failed e s
      | .ok none => sweep f n (k + 1) s
      | .ok (some v) => sweep f n (k + 1) (s.next v)

/-- The elements the loop looks at, one in each round. -/
def looked (f : Body α β ε) : Nat → Nat → State α β → List α
  | 0, _, _ => []
  | n + 1, k, s =>
    match s.list[s.it]? with
    | none => []
    | some a =>
      match f k a with
      | .error _ => [a]
      | .ok none => a :: looked f n (k + 1) s
      | .ok (some v) => a :: looked f n (k + 1) (s.next v)

variable {f : Body α β ε} {n k : Nat} {kept rest : List α} {out : List β} {a : α}

/-! ## Single rounds -/

section Rounds

theorem getElem?_it (kept : List α) (a : α) (rest : List α) :
    (kept ++ a :: rest)[kept.length]? = some a := by
  simp

theorem next_it (v : Verdict β) (kept : List α) (a : α) (rest : List α) (out : List β) :
    State.next ⟨kept ++ a :: rest, kept.length, out⟩ v =
      let kept' := if v.erase then kept else kept ++ [a]
      ⟨kept' ++ rest, kept'.length, out ++ v.emit.toList⟩ := by
  cases h : v.erase with
  | true => simp [State.next, h, eraseIdx_append_of_length_le]
  | false => simp [State.next, h]

theorem sweep_end : sweep f n k ⟨kept, kept.length, out⟩ = .done ⟨kept, kept.length, out⟩ := by
  cases n with
  | zero | succ => simp [sweep]

theorem sweep_error {e : ε} (h : f k a = .error e) :
    sweep f (n + 1) k ⟨kept ++ a :: rest, kept.length, out⟩ =
      .failed e ⟨kept ++ a :: rest, kept.length, out⟩ := by
  simp only [sweep, getElem?_it, h]

theorem sweep_stay (h : f k a = .ok none) :
    sweep f (n + 1) k ⟨kept ++ a :: rest, kept.length, out⟩ =
      sweep f n (k + 1) ⟨kept ++ a :: rest, kept.length, out⟩ := by
  simp only [sweep, getElem?_it, h]

theorem sweep_verdict {v : Verdict β} (h : f k a = .ok (some v)) :
    sweep f (n + 1) k ⟨kept ++ a :: rest, kept.length, out⟩ =
      let kept' := if v.erase then kept else kept ++ [a]
      sweep f n (k + 1) ⟨kept' ++ rest, kept'.length, out ++ v.emit.toList⟩ := by
  simp only [sweep, getElem?_it, h, next_it]

/-- A loop that is over is so with more rounds. -/
theorem sweep_add {s : State α β} {r : Result α β ε} (m : Nat) (h : sweep f n k s = r)
    (hr : ∀ t, r ≠ .running t) : sweep f (n + m) k s = r := by
  induction n generalizing k s with
  | zero =>
    rw [sweep] at h
    split_ifs at h with hit
    · exact absurd h.symm (hr s)
    · have hnone : s.list[s.it]? = none := getElem?_eq_none (Nat.not_lt.mp hit)
      cases m with
      | zero => simp only [sweep, hit, if_false, h]
      | succ m => simp only [sweep, hnone, h]
  | succ n ih =>
    rw [Nat.add_right_comm]
    rw [sweep] at h ⊢
    split at h
    · exact h
    · split at h
      · exact h
      all_goals exact ih h

/-- What every verdict preserves holds when the loop stops. -/
theorem sweep_invariant (P : State α β → Prop)
    (hP : ∀ s k a v, s.list[s.it]? = some a → f k a = .ok (some v) → P s → P (s.next v))
    (n k : Nat) {s : State α β} (hs : P s) : P (sweep f n k s).state := by
  induction n generalizing k s with
  | zero =>
    rw [sweep]
    split_ifs with hit
    · exact hs
    · exact hs
  | succ n ih =>
    rw [sweep]
    split
    · exact hs
    · rename_i a ha
      split
      · exact hs
      · exact ih _ hs
      · rename_i v hv
        exact ih _ (hP s k a v ha hv hs)

/-- Rounds that leave the element under the iterator in place. -/
theorem sweep_stays {m : Nat} (n : Nat) (h : ∀ i < m, f (k + i) a = .ok none) :
    sweep f (m + n) k ⟨kept ++ a :: rest, kept.length, out⟩ =
      sweep f n (k + m) ⟨kept ++ a :: rest, kept.length, out⟩ := by
  induction m generalizing k with
  | zero => rw [Nat.zero_add, Nat.add_zero]
  | succ m ih =>
    have hk : f k a = .ok none := h 0 m.succ_pos
    rw [Nat.add_right_comm, sweep_stay hk, ih, Nat.add_assoc k 1 m, Nat.add_comm 1 m]
    intro i hi
    rw [Nat.add_assoc, Nat.add_comm 1 i]
    exact h (i + 1) (Nat.succ_lt_succ hi)

/-- The element under the iterator is looked at until reading it fails, if a round that leaves it in
place is followed by no verdict on it. -/
theorem sweep_blocked (kept rest : List α) (out : List β) (hk : ∀ v, f k a ≠ .ok (some v))
    (hstay : f k a = .ok none → ∀ j v, f j a ≠ .ok (some v)) :
    let s : State α β := ⟨kept ++ a :: rest, kept.length, out⟩
    sweep f n k s = .running s ∨ ∃ m < n, ∃ e, (∀ i < m, f (k + i) a = .ok none) ∧
      f (k + m) a = .error e ∧ sweep f n k s = .failed e s := by
  induction n generalizing k with
  | zero => exact .inl (by simp [sweep])
  | succ n ih =>
    cases hf : f k a with
    | error e =>
      exact .inr ⟨0, n.succ_pos, e, fun i hi => absurd hi i.not_lt_zero, hf, sweep_error hf⟩
    | ok v =>
      obtain rfl : v = none := by
        cases v with
        | none => rfl
        | some v => exact absurd hf (hk v)
      simp only [sweep_stay hf]
      rcases ih (hstay hf (k + 1)) (fun _ => hstay hf) with h | ⟨m, hm, e, hnone, he, h⟩
      · exact .inl h
      · refine .inr ⟨m + 1, Nat.succ_lt_succ hm, e, ?_, ?_, h⟩
        · intro i hi
          cases i with
          | zero => exact hf
          | succ i =>
            rw [← Nat.add_assoc, Nat.add_right_comm]
            exact hnone i (Nat.lt_of_succ_lt_succ hi)
        · rwa [← Nat.add_assoc, Nat.add_right_comm]

end Rounds

/-! ## What a stretch of rounds has done -/

/-- The verdict of a round. An element without one is kept, and nothing is emitted. -/
def verdict (f : Body α β ε) (k : Nat) (a : α) : Verdict β :=
  match f k a with
  | .ok (some v) => v
  | _ => ⟨none, false⟩

/-- The elements left of a list whose first element is looked at in round `k`. -/
def survivors (f : Body α β ε) (k : Nat) (l : List α) : List α :=
  ((l.zipIdx k).filter fun p => !(verdict f p.2 p.1).erase).map Prod.fst

/-- What is emitted for a list whose first element is looked at in round `k`. -/
def emitted (f : Body α β ε) (k : Nat) (l : List α) : List β :=
  (l.zipIdx k).filterMap fun p => (verdict f p.2 p.1).emit

/-- In the rounds from `k` on, one for each element, there is a verdict on it. -/
def Decides (f : Body α β ε) (k : Nat) (l : List α) : Prop :=
  ∀ i a, l[i]? = some a → ∃ v, f (k + i) a = .ok (some v)

section Stretch

variable {l : List α}

theorem verdict_of_ok {v : Verdict β} (h : f k a = .ok (some v)) : verdict f k a = v := by
  rw [verdict, h]

theorem survivors_cons (f : Body α β ε) (k : Nat) (a : α) (l : List α) :
    survivors f k (a :: l) =
      (if (verdict f k a).erase then [] else [a]) ++ survivors f (k + 1) l := by
  cases h : (verdict f k a).erase with
  | true | false => simp [survivors, zipIdx_cons, h]

theorem emitted_cons (f : Body α β ε) (k : Nat) (a : α) (l : List α) :
    emitted f k (a :: l) = (verdict f k a).emit.toList ++ emitted f (k + 1) l := by
  cases h : (verdict f k a).emit with
  | none | some => simp [emitted, zipIdx_cons, h]

theorem decides_nil : Decides f k [] := by
  intro i a hi
  simp at hi

theorem decides_cons :
    Decides f k (a :: l) ↔ (∃ v, f k a = .ok (some v)) ∧ Decides f (k + 1) l := by
  constructor
  · intro h
    refine ⟨h 0 a rfl, fun i b hi => ?_⟩
    rw [Nat.add_right_comm]
    exact h (i + 1) b hi
  · rintro ⟨ha, hl⟩ i b hi
    cases i with
    | zero =>
      obtain rfl : a = b := Option.some.inj hi
      exact ha
    | succ i =>
      rw [← Nat.add_assoc, Nat.add_right_comm]
      exact hl i b hi

/-- A stretch of the list on which there are verdicts is worked off in as many rounds. -/
theorem sweep_stretch (n : Nat) (kept rest : List α) (out : List β) (h : Decides f k l) :
    sweep f (l.length + n) k ⟨kept ++ (l ++ rest), kept.length, out⟩ =
      let kept' := kept ++ survivors f k l
      sweep f n (k + l.length) ⟨kept' ++ rest, kept'.length, out ++ emitted f k l⟩ := by
  induction l generalizing k kept out with
  | nil => simp [survivors, emitted]
  | cons a l ih =>
    obtain ⟨⟨v, ha⟩, hl⟩ := decides_cons.mp h
    have hfuel : (a :: l).length + n = l.length + n + 1 := by
      rw [length_cons]
      omega
    have hround : k + (a :: l).length = k + 1 + l.length := by
      rw [length_cons]
      omega
    rw [hfuel, hround, cons_append, sweep_verdict ha, ih _ _ hl, survivors_cons,
      emitted_cons, verdict_of_ok ha]
    cases v.erase with
    | true | false => simp

/-- The loop from its first round on, where the list starts with such a stretch. -/
theorem sweep_start (n : Nat) (rest : List α) (h : Decides f 0 l) :
    sweep f (l.length + n) 0 ⟨l ++ rest, 0, []⟩ = sweep f n l.length
        ⟨survivors f 0 l ++ rest, (survivors f 0 l).length, emitted f 0 l⟩ := by
  have hs := sweep_stretch n [] rest [] h
  simp only [nil_append, length_nil, Nat.zero_add] at hs
  exact hs

/-- The loop over a list with a verdict on every element. -/
theorem sweep_done (h : Decides f 0 l) :
    sweep f l.length 0 ⟨l, 0, []⟩ =
      .done ⟨survivors f 0 l, (survivors f 0 l).length, emitted f 0 l⟩ := by
  have hs := sweep_start 0 [] h
  simp only [append_nil, Nat.add_zero] at hs
  rw [hs]
  exact sweep_end

/-- Either there is a verdict on every element, or there is a first one without. -/
theorem decides_or_first (f : Body α β ε) (k : Nat) (l : List α) :
    Decides f k l ∨ ∃ pre a rest, l = pre ++ a :: rest ∧ Decides f k pre ∧
      ¬ ∃ v, f (k + pre.length) a = .ok (some v) := by
  induction l generalizing k with
  | nil => exact .inl decides_nil
  | cons a l ih =>
    by_cases ha : ∃ v, f k a = .ok (some v)
    · rcases ih (k + 1) with hl | ⟨pre, b, rest, rfl, hpre, hb⟩
      · exact .inl (decides_cons.mpr ⟨ha, hl⟩)
      · refine .inr ⟨a :: pre, b, rest, rfl, decides_cons.mpr ⟨ha, hpre⟩, ?_⟩
        rwa [length_cons, Nat.add_comm pre.length, ← Nat.add_assoc]
    · exact .inr ⟨[], a, l, rfl, decides_nil, ha⟩

/-- If no element is ever left in place, the loop is over after a round for each. -/
theorem sweep_ne_running (h : ∀ a ∈ l, ∀ j, f j a ≠ .ok none) (t : State α β) :
    sweep f l.length 0 ⟨l, 0, []⟩ ≠ .running t := by
  rcases decides_or_first f 0 l with hl | ⟨pre, a, rest, rfl, hpre, hfirst⟩
  · rw [sweep_done hl]
    nofun
  · rw [Nat.zero_add] at hfirst
    rw [length_append, length_cons, sweep_start _ _ hpre]
    cases hf : f pre.length a with
    | error e =>
      rw [sweep_error hf]
      nofun
    | ok v =>
      cases v with
      | none => exact absurd hf (h a mem_append_cons_self pre.length)
      | some v => exact absurd ⟨v, hf⟩ hfirst

/-- If no element is ever left in place, the loop looks at each element at most once, in order. -/
theorem looked_isPrefix (h : ∀ a ∈ l, ∀ j, f j a ≠ .ok none) (n k : Nat) (kept : List α)
    (out : List β) : looked f n k ⟨kept ++ l, kept.length, out⟩ <+: l := by
  induction n generalizing k l kept out with
  | zero => exact nil_prefix
  | succ n ih =>
    cases l with
    | nil => simp [looked]
    | cons a l =>
      obtain ⟨ha, hl⟩ := forall_mem_cons.mp h
      cases hf : f k a with
      | error e =>
        simp only [looked, getElem?_it, hf]
        exact ⟨l, rfl⟩
      | ok v =>
        cases v with
        | none => exact absurd hf (ha k)
        | some v =>
          simp only [looked, getElem?_it, hf, next_it]
          exact (prefix_cons_inj a).mpr (ih hl _ _ _)

end Stretch

/-! ## A loop that only erases -/

/-- Erase the elements that satisfy `p`. -/
def eraseWhere (p : α → Bool) (l : List α) : List α :=
  (sweep (fun _ a => .ok (some ⟨none, p a⟩) : Body α Empty Empty) l.length 0 ⟨l, 0, []⟩).state.list

/-- Where the round plays no part, what is left is a filtered list. -/
theorem survivors_eq_filter {p : α → Bool} (h : ∀ k a, (verdict f k a).erase = p a) (k : Nat)
    (l : List α) : survivors f k l = l.filter fun a => !p a := by
  induction l generalizing k with
  | nil => rfl
  | cons a l ih =>
    rw [survivors_cons, ih, h k a, filter_cons]
    cases p a with
    | true => rfl
    | false => rfl

theorem eraseWhere_eq_filter (p : α → Bool) (l : List α) :
    eraseWhere p l = l.filter fun a => !p a := by
  rw [eraseWhere, sweep_done fun _ _ _ => ⟨_, rfl⟩]
  exact survivors_eq_filter (fun _ _ => rfl) 0 l

end Sweep
