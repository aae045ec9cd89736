import Odtone.Sap80211.Thresholds

/-! # What a threshold configuration asks for

A configuration is a list of items: a parameter that is not supported, all thresholds of a type to
cancel, one threshold to cancel, a parameter to report periodically, or a threshold to insert. Each
has one edit of the two lists and one status. The handler makes every edit, and leaves out the
status of the periodic reports. -/

namespace Odtone.Sap80211

open List

inductive Item where
  | unsupported (type : LinkParamType)
  | cancelAll (type : LinkParamType)
  | cancel (type : LinkParamType) (th : Threshold)
  | periodic (type : LinkParamType) (period : UInt16)
  | cross (t : ThresholdCrossData)
deriving DecidableEq

/-- The two lists of the SAP. -/
structure Lists where
  thCrossList : List ThresholdCrossData
  periodRptList : List PeriodicReportData
deriving DecidableEq

namespace Item

/-- The lists once an item has been carried out. -/
def edit (ls : Lists) : Item → Lists
  | unsupported _ => ls
  | cancelAll type =>
    ⟨ls.thCrossList.filter fun t => t.type ≠ type, ls.periodRptList.filter fun p => p.type ≠ type⟩
  | cancel type th =>
    { ls with thCrossList := ls.thCrossList.filter fun t => ¬ (t.type = type ∧ t.th = th) }
  | periodic type period =>
    { ls with periodRptList := ls.periodRptList ++ [⟨type, period, true⟩] }
  | cross t => { ls with thCrossList := ls.thCrossList ++ [t] }

/-- The status of an item. -/
def status : Item → LinkCfgStatus
  | unsupported type => ⟨type, none, false⟩
  | cancelAll type => ⟨type, none, true⟩
  | cancel type th => ⟨type, some th, true⟩
  | periodic type _ => ⟨type, none, true⟩
  | cross t => ⟨t.type, some t.th, true⟩

def isPeriodic : Item → Bool
  | periodic _ _ => true
  | _ => false

end Item

/-- What a parameter of the request asks for. -/
def LinkCfgParam.items (param : LinkCfgParam) : List Item :=
  if !linkParameterSupported param.type then [.unsupported param.type]
  else if param.action = .cancel then
    if param.thresholdList = [] then [.cancelAll param.type]
    else param.thresholdList.map (.cancel param.type)
  else
    match param.timerInterval with
    | some period => [.periodic param.type period]
    | none => param.thresholdList.map fun th => .cross ⟨param.action = .oneShot, param.type, th⟩

/-! ## The handler carries out the items -/

namespace Config

/-- The loop has carried out an item. -/
def perform (c : Config) (i : Item) : Config where
  thCrossList := (i.edit ⟨c.thCrossList, c.periodRptList⟩).thCrossList
  periodRptList := (i.edit ⟨c.thCrossList, c.periodRptList⟩).periodRptList
  statusList := if i.isPeriodic then c.statusList else c.statusList ++ [i.status]

variable (c : Config) (type : LinkParamType) (th : Threshold)

theorem cancelAll_push : (c.cancelAll type).push type none true = c.perform (.cancelAll type) := by
  simp [cancelAll, push, perform, Item.edit, Item.isPeriodic, Item.status,
    Sweep.eraseWhere_eq_filter]

theorem cancel_push :
    (c.cancel type th).push type (some th) true = c.perform (.cancel type th) := by
  have hmatch : ∀ t : ThresholdCrossData, (t.type = type && t.th.thresholdVal = th.thresholdVal &&
        t.th.thresholdXDir = th.thresholdXDir : Bool) = decide (t.type = type ∧ t.th = th) := by
    intro t
    rw [← Bool.decide_and, ← Bool.decide_and, decide_eq_decide, Threshold.ext_iff]
    exact and_assoc
  simp only [cancel, push, perform, Item.edit, Item.isPeriodic, Item.status, hmatch,
    Sweep.eraseWhere_eq_filter, decide_not, Bool.false_eq_true, if_false]

theorem configure_eq (param : LinkCfgParam) : c.configure param = param.items.foldl perform c := by
  unfold configure LinkCfgParam.items
  split_ifs with hsup hcancel hlen hnil hnil
  · rfl
  · exact cancelAll_push c param.type
  · exact absurd (length_eq_zero_iff.mp hlen) hnil
  · exact absurd (length_eq_zero_iff.mpr hnil) hlen
  · rw [foldl_map]
    simp only [cancel_push]
  · cases param.timerInterval with
    | some period => rfl
    | none =>
      rw [foldl_map]
      rfl

theorem foldl_perform (items : List Item) :
    items.foldl perform c = let ls := items.foldl Item.edit ⟨c.thCrossList, c.periodRptList⟩
      ⟨ls.thCrossList, ls.periodRptList,
        c.statusList ++ (items.filter fun i => !i.isPeriodic).map Item.status⟩ := by
  induction items generalizing c with
  | nil => simp
  | cons i items ih =>
    rw [foldl_cons, ih, filter_cons]
    cases hi : i.isPeriodic with
    | true | false => simp [perform, hi]

end Config

/-- What a request asks for, in order. -/
def requested (paramList : List LinkCfgParam) : List Item := paramList.flatMap LinkCfgParam.items

namespace LinkSap

def lists (s : LinkSap) : Lists := ⟨s.thCrossList, s.periodRptList⟩

theorem foldl_configure (paramList : List LinkCfgParam) (c : Config) :
    paramList.foldl Config.configure c = (requested paramList).foldl Config.perform c := by
  rw [requested, foldl_flatMap]
  congr 1
  funext c param
  exact c.configure_eq param

variable (s : LinkSap) (paramList : List LinkCfgParam)

theorem lists_handleLinkConfigureThresholds : (s.handleLinkConfigureThresholds paramList).1.lists =
      (requested paramList).foldl Item.edit s.lists := by
  simp only [handleLinkConfigureThresholds, foldl_configure, Config.foldl_perform, lists]

end LinkSap

/-- A parameter asks for a periodic report if it is supported, does not cancel and has an
interval. -/
theorem LinkCfgParam.no_periodic_iff (param : LinkCfgParam) : (∀ i ∈ param.items, !i.isPeriodic) ↔
      (linkParameterSupported param.type → param.action ≠ .cancel →
      param.timerInterval = none) := by
  unfold items
  split_ifs with hsup hcancel hnil
  · simp_all [Item.isPeriodic]
  · simp [Item.isPeriodic, hcancel]
  · simp [Item.isPeriodic, hcancel]
  · cases param.timerInterval with
    | some period => simp_all [Item.isPeriodic]
    | none => simp [Item.isPeriodic]

/-- The confirm has the statuses of what was requested, and the lists reflect it, if and only if no
periodic report is configured. -/
theorem handleLinkConfigureThresholds_correct_iff (s : LinkSap) (paramList : List LinkCfgParam) :
    ((s.handleLinkConfigureThresholds paramList).2 = (requested paramList).map Item.status ∧
      (s.handleLinkConfigureThresholds paramList).1.lists =
        (requested paramList).foldl Item.edit s.lists) ↔
      ∀ param ∈ paramList, linkParameterSupported param.type → param.action ≠ .cancel →
        param.timerInterval = none := by
  have hstatuses : ((requested paramList).filter fun i => !i.isPeriodic).map Item.status =
      (requested paramList).map Item.status ↔ ∀ i ∈ requested paramList, !i.isPeriodic := by
    constructor
    · intro h
      have hlen := congrArg length h
      rw [length_map, length_map] at hlen
      exact length_filter_eq_length_iff.mp hlen
    · intro h
      rw [filter_eq_self.mpr h]
  rw [s.lists_handleLinkConfigureThresholds]
  -- every item but a periodic report has its status
  simp only [LinkSap.handleLinkConfigureThresholds, LinkSap.foldl_configure, Config.foldl_perform,
    nil_append, and_true]
  rw [hstatuses, requested]
  simp only [forall_mem_flatMap, LinkCfgParam.no_periodic_iff]

/-- A periodic report is configured, and the confirm has no status at all. -/
theorem handleLinkConfigureThresholds_omits :
    let param : LinkCfgParam := ⟨.ieee80211 .rssi, some 1000, .normal, []⟩
    let answer := LinkSap.handleLinkConfigureThresholds {} [param]
    answer.1.periodRptList = [⟨.ieee80211 .rssi, 1000, true⟩] ∧ answer.2 = [] ∧
      (requested [param]).map Item.status = [⟨.ieee80211 .rssi, none, true⟩] := by
  decide

end Odtone.Sap80211
