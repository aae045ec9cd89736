import Odtone.Sap.User

/-! # The search for a transaction identifier

`async_send_` looks for a free transaction identifier by counting up from the largest one in use,
from `0xffe` back to one, while it holds the mutex of the SAP. The search goes through all the
identifiers there are, so it ends exactly if one of them is free. Requests that are never confirmed
keep their identifiers, and nothing bounds how many of them there are.
-/

namespace Odtone.Sap

open List Loop EStateM Option

variable {η : Type} {rmap : Rmap η} {rand first : UInt16}

/-- The identifiers `async_send_` counts through. -/
def InCycle (id : UInt16) : Prop := 1 ≤ id.toNat ∧ id.toNat < 0x0fff

/-- The search ends, with an identifier that is not in use and is one of those counted through or
the random one it started from. -/
def TidFound (rmap : Rmap η) (rand : UInt16) : Prop :=
  ∃ k id, Loop.run (nextId rmap) k (firstId rmap rand) = some id ∧ rmap.get? id = none ∧
    (InCycle id ∨ id = rand &&& 0x0fff)

/-- Some identifier is free. -/
def TidFree (rmap : Rmap η) : Prop := ∃ id, InCycle id ∧ rmap.get? id = none

/-! ## A search that does not end -/

variable {id : UInt16}

theorem wrapId_of_lt (h : id.toNat < 0x0fff) : wrapId id = id :=
  if_neg (UInt16.not_le.mpr h)

theorem nextId_of_isSome (h : (rmap.get? id).isSome) :
    nextId rmap id = some (wrapId (id + 1)) := if_pos h

theorem toNat_add_one (h : id.toNat < 0x0fff) : (id + 1).toNat = id.toNat + 1 := by
  rw [UInt16.toNat_add]
  exact Nat.mod_eq_of_lt (show id.toNat + 1 < 65536 by omega)

section

variable (hall : ∀ k, (after (nextId rmap) k first).isSome)
include hall

/-- What a search that does not end gets to is in use. -/
theorem isSome_of_after {k : Nat} (h : after (nextId rmap) k first = some id) :
    (rmap.get? id).isSome := by
  have hnext := hall (k + 1)
  rw [after_add h, after_succ] at hnext
  by_contra hfree
  rw [nextId, if_neg hfree] at hnext
  cases hnext

/-- It counts up to the end of the cycle. -/
theorem after_counts {k : Nat} (hk : first.toNat + k < 0x0fff) :
    ∃ id, after (nextId rmap) k first = some id ∧ id.toNat = first.toNat + k := by
  induction k with
  | zero => exact ⟨first, rfl, rfl⟩
  | succ k ih =>
    obtain ⟨id, hid, hval⟩ := ih (by omega)
    have hnext := nextId_of_isSome (isSome_of_after hall hid)
    have hsucc : (id + 1).toNat = id.toNat + 1 := toNat_add_one (by omega)
    rw [wrapId_of_lt (by omega)] at hnext
    exact ⟨id + 1, after_next hid hnext, by omega⟩

theorem after_wraps (hfirst : first.toNat < 0x0fff) :
    after (nextId rmap) (0x0fff - first.toNat) first = some 1 := by
  obtain ⟨id, hid, hval⟩ := after_counts hall (k := 0x0ffe - first.toNat) (by omega)
  have hwrap : wrapId (id + 1) = 1 := by
    refine if_pos (UInt16.le_iff_toNat_le.mpr ?_)
    rw [toNat_add_one (by omega)]
    change 0x0fff ≤ _
    omega
  have hnext := nextId_of_isSome (isSome_of_after hall hid)
  rw [hwrap] at hnext
  have h := after_next hid hnext
  rwa [show 0x0ffe - first.toNat + 1 = 0x0fff - first.toNat by omega] at h

/-- So it goes through all the identifiers. -/
theorem after_reaches (hfirst : first.toNat < 0x0fff) (hid : InCycle id) :
    ∃ k, after (nextId rmap) k first = some id := by
  obtain ⟨hlow, hhigh⟩ := hid
  by_cases hle : first.toNat ≤ id.toNat
  · obtain ⟨id', h, hval⟩ := after_counts hall (k := id.toNat - first.toNat) (by omega)
    exact ⟨_, h.trans (congrArg some (UInt16.toNat_inj.mp (by omega)))⟩
  · have hone := after_wraps hall hfirst
    have hall' (k) : (after (nextId rmap) k 1).isSome := by
      rw [← after_add hone]
      exact hall _
    have hval1 : (1 : UInt16).toNat = 1 := rfl
    obtain ⟨id', h, hval⟩ := after_counts hall' (k := id.toNat - 1) (by omega)
    refine ⟨_, (after_add hone).trans (h.trans (congrArg some (UInt16.toNat_inj.mp ?_)))⟩
    omega

end

theorem firstId_lt : (firstId rmap rand).toNat < 0x0fff := wrapId_lt _

theorem exists_run_of_free (h : TidFree rmap) :
    ∃ k id, run (nextId rmap) k (firstId rmap rand) = some id := by
  by_contra hno
  have hall (k) : (after (nextId rmap) k (firstId rmap rand)).isSome := by
    refine run_eq_none.mp (eq_none_iff_forall_ne_some.mpr fun id hid => ?_)
    exact hno ⟨k, id, hid⟩
  obtain ⟨id, hcycle, hfree⟩ := h
  obtain ⟨k, hk⟩ := after_reaches hall firstId_lt hcycle
  have hused := isSome_of_after hall hk
  rw [hfree] at hused
  cases hused

/-! ## When the search ends -/

/-- All identifiers in use could have been found by the search. -/
def InRange (rmap : Rmap η) : Prop := ∀ e ∈ rmap, e.1.toNat < 0x0fff

theorem inCycle_one : InCycle 1 := ⟨by decide, by decide⟩

theorem inCycle_wrapId (h : 1 ≤ id.toNat) : InCycle (wrapId id) := by
  refine ⟨?_, wrapId_lt id⟩
  unfold wrapId
  split_ifs
  · decide
  · exact h

section

variable (h : InRange rmap)
include h

theorem firstId_cases :
    InCycle (firstId rmap rand) ∨ rmap = [] ∧ firstId rmap rand = rand &&& 0x0fff := by
  unfold firstId
  cases hlast : rmap.getLast? with
  | none =>
    by_cases hrand : 0x0fff ≤ rand &&& 0x0fff
    · refine .inl ?_
      rw [wrapId, if_pos hrand]
      exact inCycle_one
    · exact .inr ⟨getLast?_eq_none_iff.mp hlast, if_neg hrand⟩
  | some e =>
    have hlt := h e (mem_of_getLast? hlast)
    exact .inl (inCycle_wrapId (by rw [toNat_add_one hlt]; omega))

theorem after_cases {k : Nat} (hid : after (nextId rmap) k (firstId rmap rand) = some id) :
    InCycle id ∨ rmap = [] ∧ id = rand &&& 0x0fff := by
  refine after_induct (fun id => InCycle id ∨ rmap = [] ∧ id = rand &&& 0x0fff)
    (firstId_cases h) (fun t u ht hu => .inl ?_) hid
  unfold nextId at hu
  split_ifs at hu with hused
  rcases ht with ⟨-, hlt⟩ | ⟨hnil, -⟩
  · rw [← some.inj hu]
    exact inCycle_wrapId (by rw [toNat_add_one hlt]; omega)
  · rw [hnil] at hused
    cases hused

theorem tidFree_of_run {k : Nat}
    (hrun : run (nextId rmap) k (firstId rmap rand) = some id) : TidFree rmap := by
  obtain ⟨hnext, j, hj⟩ := run_eq_some hrun
  rcases after_cases h hj with hcycle | ⟨hnil, -⟩
  · exact ⟨id, hcycle, get?_of_nextId hnext⟩
  · exact ⟨1, inCycle_one, by rw [hnil]; rfl⟩

theorem tidFound_iff : TidFound rmap rand ↔ TidFree rmap := by
  constructor
  · rintro ⟨k, id, hrun, -, -⟩
    exact tidFree_of_run h hrun
  · intro hfree
    obtain ⟨k, id, hrun⟩ : ∃ k id, run (nextId rmap) k (firstId rmap rand) = some id :=
      exists_run_of_free hfree
    obtain ⟨hnext, j, hj⟩ := run_eq_some hrun
    exact ⟨k, id, hrun, get?_of_nextId hnext, (after_cases h hj).imp_right And.right⟩

end

namespace User

/-- The identifiers in use have been found by the search. -/
theorem inRange_of_steps {userId : Wire.Bytes} {events : List (UserEvent η)} {s : User η}
    (h : Steps step { userId := userId } events s) : InRange s.rmap := by
  refine h.induct (P := fun s => InRange s.rmap) (fun e s s' hs hstep => ?_)
    fun e he => absurd he not_mem_nil
  have hinsert {rand id : UInt16} (hid : freeId s.rmap rand = some id) (r : Registered η) :
      InRange (s.rmap.insert id r) := by
    intro e he
    rcases mem_cons.mp ((Book.perm_insert (get?_of_freeId hid) r).mem_iff.mp he) with rfl | he
    · obtain ⟨-, j, hj⟩ := run_eq_some hid
      exact after_lt hj
    · exact hs e he
  have houtcome := step_outcome (s := s) e
  rw [hstep] at houtcome
  cases houtcome with
  | requested _ _ _ _ _ hid | unsentRequest _ _ _ _ hid => exact hinsert hid _
  | failed | confirmed => exact fun e he => hs e (mem_of_mem_filter he)
  | sent | unsent | nothingSent | failedOwn | completed | nothingReceived | general => exact hs

/-- In every reachable state, the search of the next request ends with a free identifier exactly if
one of the identifiers from one to `0xffe` is free. -/
theorem tidSearch_ends_iff {userId : Wire.Bytes} {events : List (UserEvent η)} {s : User η}
    (h : Steps step { userId := userId } events s) (rand : UInt16) :
    TidFound s.rmap rand ↔ TidFree s.rmap :=
  tidFound_iff (inRange_of_steps h)

/-- A request that is not answered. -/
def sampleRequest : UserEvent Unit := .send 1 { mid := 0x1401 } none

/-- The second request finds an identifier. -/
theorem tidSearch_ends_second :
    Steps step {} [sampleRequest] (runAll step [sampleRequest] {}) ∧
    TidFound (runAll step [sampleRequest] {}).rmap 1 :=
  have h : Steps step {} [sampleRequest] (runAll step [sampleRequest] {}) :=
    steps_runAll _ (by decide +kernel)
  ⟨h, (tidSearch_ends_iff h 1).mpr ⟨2, ⟨by decide, by decide⟩, by decide +kernel⟩⟩

/-! ### Unanswered requests -/

/-- The map after `n` requests none of which is answered. -/
def unanswered (n : Nat) : Rmap Unit := (range n).map fun i => (UInt16.ofNat (i + 1), ⟨i, none⟩)

theorem unanswered_succ (n : Nat) :
    unanswered (n + 1) = unanswered n ++ [(UInt16.ofNat (n + 1), ⟨n, none⟩)] := by
  simp [unanswered, range_succ]

theorem toNat_lt_of_unanswered {n : Nat} (hn : n < 0x0fff) {e : UInt16 × Registered Unit}
    (he : e ∈ unanswered n) : 1 ≤ e.1.toNat ∧ e.1.toNat ≤ n := by
  obtain ⟨i, hi, rfl⟩ := mem_map.mp he
  have hi := mem_range.mp hi
  rw [UInt16.toNat_ofNat_of_lt' (show i + 1 < 65536 by omega)]
  omega

theorem isSome_unanswered {n : Nat} (hlow : 1 ≤ id.toNat) (hhigh : id.toNat ≤ n) :
    ((unanswered n).get? id).isSome := by
  refine Book.get?_isSome.mpr (mem_map.mpr ⟨(id, ⟨id.toNat - 1, none⟩), ?_, rfl⟩)
  refine mem_map.mpr ⟨id.toNat - 1, mem_range.mpr (by omega), ?_⟩
  rw [Nat.sub_add_cancel hlow, UInt16.ofNat_toNat]

theorem freeId_unanswered {n : Nat} (hn : n < 0x0ffe) :
    freeId (unanswered n) 1 = some (UInt16.ofNat (n + 1)) := by
  have hval : (UInt16.ofNat (n + 1)).toNat = n + 1 :=
    UInt16.toNat_ofNat_of_lt' (show n + 1 < 65536 by omega)
  have hfirst : firstId (unanswered n) 1 = UInt16.ofNat (n + 1) := by
    cases n with
    | zero => rfl
    | succ n =>
      have hlast : (unanswered (n + 1)).getLast? = some (UInt16.ofNat (n + 1), ⟨n, none⟩) := by
        rw [unanswered_succ, getLast?_append]
        rfl
      rw [firstId, hlast, ← wrapId_of_lt (show (UInt16.ofNat (n + 1 + 1)).toNat < 0x0fff by omega),
        UInt16.ofNat_add (n + 1)]
      rfl
  have hfree : (unanswered n).get? (UInt16.ofNat (n + 1)) = none := by
    refine Book.get?_eq_none.mpr fun e he heq => ?_
    have := (toNat_lt_of_unanswered (by omega) he).2
    rw [heq] at this
    omega
  rw [freeId, hfirst]
  exact run_of_none (if_neg (by rw [hfree]; exact Bool.false_ne_true))

/-- Unanswered requests take one identifier after the other. -/
theorem steps_unanswered {n m : Nat} (hnm : m + n < 0x0fff) {s : User Unit}
    (hs : s.rmap = unanswered m ∧ s.calls = m) :
    ∃ s', Steps step s (replicate n sampleRequest) s' ∧ s'.rmap = unanswered (m + n) := by
  induction n generalizing m s with
  | zero => exact ⟨s, .nil s, hs.1⟩
  | succ n ih =>
    obtain ⟨hmap, hcalls⟩ := hs
    have hid : freeId s.rmap 1 = some (UInt16.ofNat (m + 1)) := by
      rw [hmap, freeId_unanswered (by omega)]
    have hnext : (s.registering (UInt16.ofNat (m + 1)) none).rmap = unanswered (m + 1) := by
      have hlast : ∀ e ∈ unanswered m, e.1 ≠ UInt16.ofNat (m + 1) ∧
        ¬ UInt16.ofNat (m + 1) < e.1 := by
        intro e he
        have hle := (toNat_lt_of_unanswered (by omega) he).2
        rw [ne_eq, ← UInt16.toNat_inj, UInt16.lt_iff_toNat_lt,
          UInt16.toNat_ofNat_of_lt' (show m + 1 < 65536 by omega)]
        omega
      rw [unanswered_succ, ← Book.insert_last hlast, ← hmap, ← hcalls]
      rfl
    obtain ⟨s₁, hstep, hs₁⟩ : ∃ s₁, step sampleRequest s = .ok () s₁ ∧
        (s₁.rmap = unanswered (m + 1) ∧ s₁.calls = m + 1) := by
      have hop : opcode ({ mid := 0x1401 } : Wire.Message).mid = .request := by decide
      rcases asyncSend_request none hop hid with ⟨fm, -, hsend⟩ | hsend
      all_goals exact ⟨_, hsend, hnext, congrArg (· + 1) hcalls⟩
    obtain ⟨s', hsteps, hs'⟩ := ih (by omega) hs₁
    refine ⟨s', .cons hstep hsteps, ?_⟩
    rwa [show m + (n + 1) = m + 1 + n by omega]

/-- After 4094 requests without an answer, the search of the next one never ends, whatever number it
draws. -/
theorem tidSearch_never_ends :
    ∃ s, Steps step ({} : User Unit) (replicate 4094 sampleRequest) s ∧
      ∀ rand k, Loop.run (nextId s.rmap) k (firstId s.rmap rand) = none := by
  obtain ⟨s, hsteps, hmap⟩ := steps_unanswered (n := 4094) (by decide)
    (s := ({} : User Unit)) ⟨rfl, rfl⟩
  refine ⟨s, hsteps, fun rand k => eq_none_iff_forall_ne_some.mpr fun id hrun => ?_⟩
  obtain ⟨t, ⟨hlow, hhigh⟩, hfree⟩ := tidFree_of_run (inRange_of_steps hsteps) hrun
  have hused : ((unanswered 4094).get? t).isSome := isSome_unanswered hlow (by omega)
  rw [← show s.rmap = unanswered 4094 from hmap, hfree] at hused
  cases hused

end User

end Odtone.Sap
