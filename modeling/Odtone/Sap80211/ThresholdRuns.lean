import Mathlib.Data.List.Perm.Basic
import Odtone.Sap80211.Check
import Odtone.Sap80211.Configure

/-! # Runs of the Link SAP

A run is any interleaving of threshold configurations, link events, subscriptions and checks; a
check may come at any time, as its timer task may be late. A run carries what was inserted into the
list of thresholds and what was reported.

Only supported parameters are ever stored, which is why a check ends: for those there is a value or
a failure. A one-shot threshold leaves the list when it is reported, so it is not reported more
often than it was inserted. -/

namespace Odtone.Sap80211

open List LinkParamReport Option

def Item.inserted : Item → Option ThresholdCrossData
  | cross t => some t
  | _ => none

/-- The thresholds a request inserts. -/
def insertions (paramList : List LinkCfgParam) : List ThresholdCrossData :=
  (requested paramList).filterMap Item.inserted

/-- The SAP is in state `s`, after `ins` was inserted and `rpts` reported. -/
inductive Run : List ThresholdCrossData → LinkSap → List LinkParamReport → Prop where
  | start : Run [] {} []
  | configure {ins s rpts} (h : Run ins s rpts) (paramList : List LinkCfgParam) :
      Run (ins ++ insertions paramList) (s.handleLinkConfigureThresholds paramList).1 rpts
  | linkUp {ins s rpts} (h : Run ins s rpts) : Run ins s.linkUp rpts
  | linkDown {ins s rpts} (h : Run ins s rpts) : Run ins s.linkDown rpts
  | subscribe {ins s rpts} (h : Run ins s rpts) (reports : Bool) :
      Run ins (s.handleEventSubscribe reports) rpts
  | unsubscribe {ins s rpts} (h : Run ins s rpts) (reports : Bool) :
      Run ins (s.handleEventUnsubscribe reports) rpts
  | check {ins s rpts l rptList} (h : Run ins s rpts) (fi : Nat → Interface) (n : Nat)
      (hc : globalThresholdsCheck fi n s.subscribed s.thCrossList = .returned l rptList) :
      Run ins { s with thCrossList := l } (rpts ++ rptList)

/-! ## Configurations -/

section Configure

variable {e : ThresholdCrossData}

/-- What is inserted has a supported type. -/
theorem supported_of_cross {param : LinkCfgParam} (h : Item.cross e ∈ param.items) :
    linkParameterSupported e.type := by
  unfold LinkCfgParam.items at h
  split_ifs at h with hsup hcancel hnil
  · simp at h
  · simp at h
  · simp at h
  · cases hp : param.timerInterval with
    | some period => simp [hp] at h
    | none =>
      simp only [hp, List.mem_map, Item.cross.injEq] at h
      obtain ⟨th, -, rfl⟩ := h
      simpa using hsup

theorem mem_edit {ls : Lists} {i : Item} (h : e ∈ (i.edit ls).thCrossList) :
    e ∈ ls.thCrossList ∨ i = .cross e := by
  cases i with
  | unsupported | periodic => exact .inl h
  | cancelAll | cancel => exact .inl (mem_of_mem_filter h)
  | cross t =>
    rcases mem_append.mp h with h | h
    · exact .inl h
    · exact .inr (by rw [mem_singleton.mp h])

/-- An item adds a threshold only by inserting it. -/
theorem count_edit_le (ls : Lists) (i : Item) :
    (i.edit ls).thCrossList.count e ≤ ls.thCrossList.count e + i.inserted.toList.count e := by
  cases i with
  | unsupported | periodic => exact Nat.le_add_right _ _
  | cancelAll | cancel => exact Nat.le_add_right_of_le (filter_sublist.count_le e)
  | cross t => exact Nat.le_of_eq count_append

theorem mem_foldl_edit {items : List Item} {ls : Lists}
    (h : e ∈ (items.foldl Item.edit ls).thCrossList) : e ∈ ls.thCrossList ∨ .cross e ∈ items := by
  induction items generalizing ls with
  | nil => exact .inl h
  | cons i items ih =>
    rcases ih h with h | h
    · rcases mem_edit h with h | rfl
      · exact .inl h
      · exact .inr mem_cons_self
    · exact .inr (mem_cons_of_mem i h)

theorem thCrossList_handleLinkConfigureThresholds (s : LinkSap) (paramList : List LinkCfgParam) :
    (s.handleLinkConfigureThresholds paramList).1.thCrossList =
      ((requested paramList).foldl Item.edit s.lists).thCrossList :=
  congrArg Lists.thCrossList (s.lists_handleLinkConfigureThresholds paramList)

theorem count_foldl_edit_le (items : List Item) (ls : Lists) :
    (items.foldl Item.edit ls).thCrossList.count e ≤
      ls.thCrossList.count e + (items.filterMap Item.inserted).count e := by
  induction items generalizing ls with
  | nil => exact Nat.le_add_right _ _
  | cons i items ih =>
    have hcons : (i :: items).filterMap Item.inserted =
        i.inserted.toList ++ items.filterMap Item.inserted := by
      cases h : i.inserted with
      | none | some => simp [h]
    have hstep := count_edit_le (e := e) ls i
    have hrest := ih (i.edit ls)
    rw [foldl_cons, hcons, count_append]
    omega

end Configure

/-! ## Checks -/

section Check

variable {fi : Nat → Interface} {n : Nat} {subscribed : Bool} {l l' : List ThresholdCrossData}
  {rptList : List LinkParamReport}

/-- However a check returns, an invariant of the loop holds of the list it leaves, with the reports
it has made or with none. -/
theorem check_invariant (P : Sweep.State ThresholdCrossData LinkParamReport → Prop)
    (hP : ∀ s k t v, s.list[s.it]? = some t → checkRound fi k t = .ok (some v) → P s → P (s.next v))
    (hl : P ⟨l, 0, []⟩) (h : globalThresholdsCheck fi n subscribed l = .returned l' rptList) :
    ∃ s, P s ∧ l' = s.list ∧ (rptList = s.out ∨ rptList = []) := by
  unfold globalThresholdsCheck at h
  split_ifs at h with hsub
  · cases h
    exact ⟨_, hl, rfl, .inr rfl⟩
  · have hs := Sweep.sweep_invariant P hP n 0 hl
    generalize Sweep.sweep (checkRound fi) n 0 ⟨l, 0, []⟩ = r at h hs
    cases r with
    | done s =>
      cases h
      exact ⟨s, hs, rfl, .inl rfl⟩
    | failed e s =>
      cases e with
      | exception =>
        cases h
        exact ⟨s, hs, rfl, .inr rfl⟩
      | crash => cases h
    | running s => cases h

/-- A check only takes thresholds away. -/
theorem check_sublist (h : globalThresholdsCheck fi n subscribed l = .returned l' rptList) :
    l'.Sublist l := by
  have hP : ∀ (s : Sweep.State ThresholdCrossData LinkParamReport) (v : Sweep.Verdict _),
      s.list.Sublist l → (s.next v).list.Sublist l := by
    intro s v hs
    rw [Sweep.State.next]
    split_ifs with herase
    · exact (eraseIdx_sublist s.list s.it).trans hs
    · exact hs
  obtain ⟨s, hs, rfl, -⟩ := check_invariant (fun s => s.list.Sublist l)
    (fun s _ _ v _ _ hs => hP s v hs) (Sublist.refl l) h
  exact hs

theorem source_of_crossing {fi : Interface} {t : ThresholdCrossData} {r : LinkParamReport}
    (h : crossing fi t = some r) : r.source = t := by
  unfold crossing at h
  split at h
  · split_ifs at h with hc
    rw [← some.inj h]
  · cases h

/-- A one-shot threshold that is reported is removed. -/
theorem count_next_le {s : Sweep.State ThresholdCrossData LinkParamReport} {k : Nat}
    {t e : ThresholdCrossData} {v : Sweep.Verdict LinkParamReport} (he : e.oneShot)
    (ht : s.list[s.it]? = some t) (hv : checkRound fi k t = .ok (some v)) :
    ((s.next v).out.map source).count e + (s.next v).list.count e ≤
      (s.out.map source).count e + s.list.count e := by
  obtain rfl : v = ⟨crossing (fi k) t, (crossing (fi k) t).isSome && t.oneShot⟩ := by
    rw [← Sweep.verdict_of_ok hv, verdict_checkRound]
  obtain ⟨hit, hget⟩ := List.getElem?_eq_some_iff.mp ht
  have hsub : (s.list.eraseIdx s.it).count e ≤ s.list.count e :=
    (eraseIdx_sublist s.list s.it).count_le e
  cases hc : crossing (fi k) t with
  | none => simp [Sweep.State.next]
  | some r =>
    have hsource := source_of_crossing hc
    by_cases hte : t = e
    · obtain rfl := hte
      have hperm := (getElem_cons_eraseIdx_perm hit).count_eq t
      rw [hget, count_cons_self] at hperm
      simp only [Sweep.State.next, isSome_some, he, Bool.and_self, if_true,
        toList_some, map_append, map_cons, map_nil, hsource,
        count_append, count_singleton_self]
      omega
    · have hlist : (s.next ⟨some r, (some r).isSome && t.oneShot⟩).list.count e ≤
          s.list.count e := by
        rw [Sweep.State.next]
        split_ifs with herase
        · exact hsub
        · exact Nat.le_refl _
      have hout : ((s.out ++ [r]).map source).count e =
          (s.out.map source).count e := by
        rw [map_append, map_singleton, hsource, count_append,
          count_singleton, if_neg (by simpa using hte), Nat.add_zero]
      exact Nat.add_le_add (Nat.le_of_eq hout) hlist

theorem count_check_le {e : ThresholdCrossData} (he : e.oneShot)
    (h : globalThresholdsCheck fi n subscribed l = .returned l' rptList) :
    (rptList.map source).count e + l'.count e ≤ l.count e := by
  obtain ⟨s, hs, rfl, hout⟩ := check_invariant
    (fun s => (s.out.map source).count e + s.list.count e ≤ l.count e)
    (fun s k t v ht hv hs => Nat.le_trans (count_next_le he ht hv) hs) (by simp) h
  rcases hout with rfl | rfl
  · exact hs
  · exact Nat.le_trans (Nat.add_le_add_right (Nat.zero_le _) _) hs

end Check

/-! ## Whole runs -/

namespace Run

variable {ins : List ThresholdCrossData} {s : LinkSap} {rpts : List LinkParamReport}

/-- Only supported parameters are stored. -/
theorem supported (h : Run ins s rpts) : ∀ t ∈ s.thCrossList, linkParameterSupported t.type := by
  induction h with
  | start => exact forall_mem_nil _
  | @configure ins s rpts _ paramList ih =>
    intro t ht
    rw [thCrossList_handleLinkConfigureThresholds] at ht
    rcases mem_foldl_edit ht with ht | ht
    · exact ih t ht
    · obtain ⟨param, -, hi⟩ := mem_flatMap.mp ht
      exact supported_of_cross hi
  | linkUp _ ih | linkDown _ ih | subscribe _ _ ih | unsubscribe _ _ ih => exact ih
  | check _ _ _ hc ih => exact fun t ht => ih t ((check_sublist hc).subset ht)

/-- A one-shot threshold is reported and stored no more often than it was inserted. -/
theorem count_le (h : Run ins s rpts) {e : ThresholdCrossData} (he : e.oneShot) :
    (rpts.map source).count e + s.thCrossList.count e ≤ ins.count e := by
  induction h with
  | start => exact Nat.le_refl _
  | @configure ins s rpts _ paramList ih =>
    have hedit := count_foldl_edit_le (e := e) (requested paramList) s.lists
    rw [thCrossList_handleLinkConfigureThresholds, count_append, insertions]
    calc (rpts.map source).count e + _
        ≤ (rpts.map source).count e + (s.thCrossList.count e + _) :=
          Nat.add_le_add_left hedit _
      _ ≤ _ := by
          rw [← Nat.add_assoc]
          exact Nat.add_le_add_right ih _
  | linkUp _ ih | linkDown _ ih | subscribe _ _ ih | unsubscribe _ _ ih => exact ih
  | @check ins s rpts l rptList _ fi n hc ih =>
    rw [map_append, count_append, Nat.add_assoc]
    exact Nat.le_trans (Nat.add_le_add_left (count_check_le he hc) _) ih

end Run

/-- In a reachable state a check is over after one pass over the list: it looks at the thresholds in
order, each at most once, and is over after as many rounds as there are thresholds. -/
theorem globalThresholdsCheck_ends {ins : List ThresholdCrossData} {s : LinkSap}
    {rpts : List LinkParamReport} (h : Run ins s rpts) (fi : Nat → Interface) :
    (∀ n, Sweep.looked (checkRound fi) n 0 ⟨s.thCrossList, 0, []⟩ <+: s.thCrossList) ∧
      ∀ n ≥ s.thCrossList.length,
        globalThresholdsCheck fi n s.subscribed s.thCrossList =
            globalThresholdsCheck fi s.thCrossList.length s.subscribed s.thCrossList ∧
          globalThresholdsCheck fi n s.subscribed s.thCrossList ≠ .running := by
  have hread : ∀ t ∈ s.thCrossList, ∀ k, checkRound fi k t ≠ .ok none := by
    intro t ht k hnone
    exact linkGetParameter_ne_none (known_of_supported (h.supported t ht)) _
      (checkRound_eq_none.mp hnone)
  refine ⟨fun n => Sweep.looked_isPrefix hread n 0 [] [], fun n hn => ?_⟩
  have hover := Sweep.sweep_ne_running hread
  obtain ⟨m, rfl⟩ := Nat.exists_eq_add_of_le hn
  have hmore := Sweep.sweep_add m rfl hover
  unfold globalThresholdsCheck
  rw [hmore]
  refine ⟨rfl, ?_⟩
  split_ifs with hsub
  · nofun
  · split
    · nofun
    · nofun
    · nofun
    · rename_i t ht
      exact absurd ht (hover t)

/-- The interface of a station with a signal of 70 %. -/
def sampleInterface : Interface where
  getPoaInfo := .ok ⟨.percentage 70, true, none⟩
  getCurrentDataRate _ := .error .exception
  link := .ok ⟨1, 0⟩

def sampleParam : LinkCfgParam := ⟨.ieee80211 .rssi, none, .oneShot, [⟨50, .aboveThreshold⟩]⟩

theorem globalThresholdsCheck_ends_sample :
    let s := ((LinkSap.handleEventSubscribe {} true).handleLinkConfigureThresholds [sampleParam]).1
    s.subscribed ∧ s.thCrossList.length = 1 ∧
      globalThresholdsCheck (fun _ => sampleInterface) 1 s.subscribed s.thCrossList ≠ .running :=
  ⟨rfl, rfl, ((globalThresholdsCheck_ends ((Run.start.subscribe true).configure [sampleParam])
    (fun _ => sampleInterface)).2 1 (by decide)).2⟩

/-- A check does what it should if and only if every parameter is read, or nothing is crossed and an
exception stops it. In any run a one-shot threshold is reported no more often than it was
inserted. -/
theorem threshold_reports_iff (fi : Nat → Interface) (l : List ThresholdCrossData) :
    (CheckCorrect fi l ↔ ReadUpTo fi l l.length ∨
      (∀ k t, l[k]? = some t → crossing (fi k) t = none) ∧ ∃ k, ReadUpTo fi l k ∧ ThrowsAt fi l k) ∧
    ∀ ins s rpts, Run ins s rpts → ∀ e : ThresholdCrossData, e.oneShot →
      (rpts.map LinkParamReport.source).count e ≤ ins.count e := by
  refine ⟨checkCorrect_iff fi l, fun ins s rpts h e he => ?_⟩
  exact Nat.le_trans (Nat.le_add_right _ _) (h.count_le he)

/-- The first threshold is one-shot and crossed; then the association is lost. The threshold is
removed and not reported. -/
theorem threshold_reports_lost :
    let lost : Interface := { sampleInterface with getPoaInfo := .error .exception }
    let fi : Nat → Interface := fun k => if k = 0 then sampleInterface else lost
    let t : ThresholdCrossData := ⟨true, .ieee80211 .rssi, ⟨50, .aboveThreshold⟩⟩
    let u : ThresholdCrossData := ⟨false, .gen .signalStrength, ⟨20, .belowThreshold⟩⟩
    globalThresholdsCheck fi 2 true [t, u] = .returned [u] [] ∧
      reportsOf fi [t, u] = [⟨⟨.ieee80211 .rssi, 70⟩, some t.th, t⟩] ∧
      ¬ CheckCorrect fi [t, u] := by
  intro lost fi t u
  refine ⟨rfl, rfl, fun h => ?_⟩
  rcases (checkCorrect_iff fi [t, u]).mp h with hread | ⟨hno, -⟩
  · obtain ⟨p, hp⟩ := hread 1 (by decide) u rfl
    cases hp
  · cases hno 0 t rfl

end Odtone.Sap80211
