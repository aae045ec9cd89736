import Odtone.Support.Cursor
import Odtone.Support.Sweep

/-! # Thresholds of the 802.11 Link SAP

The Link SAP keeps two lists: the thresholds whose crossing is reported, and the parameters that are
reported periodically. `handle_link_configure_thresholds` edits both, and the periodic task
`global_thresholds_check` reads the parameter of every threshold and reports those crossed.

A parameter is read from the interface, which may answer differently each time it is asked, may
throw and, where it divides by the number of packets sent, may end the process. -/

namespace Odtone.Sap80211

open Except

/-! ## Parameters and thresholds -/

/-- `link_param_gen`, an octet -/
inductive LinkParamGen where
  | dataRate
  | signalStrength
  | sinr
  | throughput
  | packetErrorRate
  | other (code : UInt8)
deriving DecidableEq

/-- `link_param_802_11`, an octet -/
inductive LinkParam80211 where
  | rssi
  | noQos
  | multicastPacketLossRate
  | other (code : UInt8)
deriving DecidableEq

/-- `link_param_type`: a variant, of which the SAP tells two alternatives from the rest. -/
inductive LinkParamType where
  | gen (p : LinkParamGen)
  | qos (p : UInt8)
  | gg (p : UInt8)
  | edge (p : UInt8)
  | eth (p : UInt8)
  | ieee80211 (p : LinkParam80211)
  | c2k (p : UInt8)
  | ffd (p : UInt8)
  | hrpd (p : UInt8)
  | ieee80216 (p : UInt8)
  | ieee80220 (p : UInt8)
  | ieee80222 (p : UInt8)
deriving DecidableEq

/-- `threshold_x_dir`, an octet -/
inductive XDir where
  | aboveThreshold
  | belowThreshold
  | other (code : UInt8)
deriving DecidableEq

@[ext]
structure Threshold where
  thresholdVal : UInt16
  thresholdXDir : XDir
deriving DecidableEq

/-- The comparisons of `global_thresholds_check`. -/
def Threshold.crossed (th : Threshold) (uintval : UInt16) : Bool :=
  match th.thresholdXDir with
  | .aboveThreshold => uintval > th.thresholdVal
  | .belowThreshold => uintval < th.thresholdVal
  | .other _ => false

/-- An element of `th_cross_list`. -/
structure ThresholdCrossData where
  oneShot : Bool
  type : LinkParamType
  th : Threshold
deriving DecidableEq

/-- An element of `period_rpt_list`, with what is known of its timer task. -/
structure PeriodicReportData where
  type : LinkParamType
  period : UInt16
  running : Bool
deriving DecidableEq

/-- `link_param`; the values of the SAP are all of the alternative `link_param_val`. -/
structure LinkParam where
  type : LinkParamType
  value : UInt16
deriving DecidableEq

/-- `link_param_report`, with the threshold it was made for. -/
structure LinkParamReport where
  param : LinkParam
  thold : Option Threshold
  source : ThresholdCrossData
deriving DecidableEq

/-! ## Reading a parameter -/

/-- How reading a parameter ends without one. -/
inductive Failure where
  /-- An exception, all of which are a `std::exception` -/
  | exception
  /-- A division by zero -/
  | crash
deriving DecidableEq

/-- `sig_strength` -/
inductive SigStrength where
  | dbm (v : Int8)
  | percentage (v : UInt8)
deriving DecidableEq

/-- The signal as the value of a parameter: a `sint8` is converted to `uint16`. -/
def SigStrength.paramVal : SigStrength → UInt16
  | .dbm v => v.toInt16.toUInt16
  | .percentage v => v.toUInt16

/-- The part of `poa_info` that is read, with the address if it is a MAC address. -/
structure PoaInfo where
  signal : SigStrength
  qos0 : Bool
  poaAddr : Option (List UInt8)
deriving DecidableEq

structure RtnlLink where
  txErrors : UInt64
  txPackets : UInt64
deriving DecidableEq

/-- What `if_80211` answers at one time. -/
structure Interface where
  getPoaInfo : Except Failure PoaInfo
  getCurrentDataRate : List UInt8 → Except Failure UInt32
  link : Except Failure RtnlLink

/-- `if_80211::get_packet_error_rate` -/
def Interface.getPacketErrorRate (fi : Interface) : Except Failure UInt32 := do
  let link ← fi.link
  if link.txPackets = 0 then throw .crash
  return (link.txErrors / link.txPackets).toUInt32

def linkParameterSupported : LinkParamType → Bool
  | .ieee80211 p => p = .rssi
  | .gen p => p = .dataRate || p = .signalStrength || p = .packetErrorRate
  | _ => false

def linkGetParameter (fi : Interface) (pt : LinkParamType) : Except Failure (Option LinkParam) := do
  let apInfo ← fi.getPoaInfo
  match pt with
  | .ieee80211 .rssi => return some ⟨pt, apInfo.signal.paramVal⟩
  | .ieee80211 .noQos => return some ⟨pt, if apInfo.qos0 then 0 else 1⟩
  | .gen .dataRate =>
    match apInfo.poaAddr with
    | none => throw .exception
    | some addr => return some ⟨pt, (← fi.getCurrentDataRate addr).toUInt16⟩
  | .gen .signalStrength => return some ⟨pt, apInfo.signal.paramVal⟩
  | .gen .packetErrorRate => return some ⟨pt, (← fi.getPacketErrorRate).toUInt16⟩
  | _ => return none

/-- The parameters `link_get_parameter` has a value for. -/
def linkParameterKnown : LinkParamType → Bool
  | .ieee80211 p => p = .rssi || p = .noQos
  | .gen p => p = .dataRate || p = .signalStrength || p = .packetErrorRate
  | _ => false

variable {pt : LinkParamType}

theorem known_of_supported (h : linkParameterSupported pt) : linkParameterKnown pt := by
  cases pt with
  | ieee80211 p =>
    obtain rfl : p = .rssi := of_decide_eq_true h
    rfl
  | gen p => exact h
  | _ => cases h

/-- A known parameter is read, or reading it fails. -/
theorem linkGetParameter_ne_none (h : linkParameterKnown pt)
    (fi : Interface) : linkGetParameter fi pt ≠ .ok none := by
  intro hn
  obtain ⟨apInfo, -, hn⟩ := bind_eq_ok.mp hn
  cases pt with
  | ieee80211 p =>
    cases p with
    | rssi | noQos => cases hn
    | multicastPacketLossRate | other => cases h
  | gen p =>
    cases p with
    | dataRate =>
      cases hp : apInfo.poaAddr with
      | none =>
        rw [hp] at hn
        cases hn
      | some addr =>
        rw [hp] at hn
        obtain ⟨v, -, hn⟩ := bind_eq_ok.mp hn
        cases hn
    | signalStrength => cases hn
    | packetErrorRate =>
      obtain ⟨v, -, hn⟩ := bind_eq_ok.mp hn
      cases hn
    | sinr | throughput | other => cases h
  | _ => cases h

/-- There is never a value for any other parameter. -/
theorem linkGetParameter_ne_some (h : ¬ linkParameterKnown pt)
    (fi : Interface) (p : LinkParam) : linkGetParameter fi pt ≠ .ok (some p) := by
  intro hs
  obtain ⟨apInfo, -, hs⟩ := bind_eq_ok.mp hs
  cases pt with
  | ieee80211 p =>
    cases p with
    | rssi | noQos => exact h rfl
    | multicastPacketLossRate | other => cases hs
  | gen p =>
    cases p with
    | dataRate | signalStrength | packetErrorRate => exact h rfl
    | sinr | throughput | other => cases hs
  | _ => cases hs

/-! ## The periodic check -/

/-- A round of the loop, with the interface as it answers in that round. -/
def checkRound (fi : Nat → Interface) : Sweep.Body ThresholdCrossData LinkParamReport Failure :=
  fun k t => do
    match ← linkGetParameter (fi k) t.type with
    | none => return none
    | some statusParam =>
      let value := if t.th.crossed statusParam.value then some statusParam.value else none
      return some {
        emit := value.map fun v => { param := ⟨t.type, v⟩, thold := some t.th, source := t }
        erase := value.isSome && t.oneShot }

/-- How the check stands after some rounds. -/
inductive Check where
  /-- It has returned; nothing is dispatched if the list of reports is empty. -/
  | returned (thCrossList : List ThresholdCrossData) (rptList : List LinkParamReport)
  | crashed
  | running

/-- `global_thresholds_check`, for at most `n` rounds of its loop. -/
def globalThresholdsCheck (fi : Nat → Interface) (n : Nat) (subscribed : Bool)
    (thCrossList : List ThresholdCrossData) : Check :=
  if !subscribed then .returned thCrossList []
  else
    match Sweep.sweep (checkRound fi) n 0 ⟨thCrossList, 0, []⟩ with
    | .done s => .returned s.list s.out
    -- what has been erased stays so, and the reports are lost
    | .failed .exception s => .returned s.list []
    | .failed .crash _ => .crashed
    | .running _ => .running

/-! ## Configuration -/

/-- `th_action`, an octet -/
inductive ThAction where
  | normal
  | oneShot
  | cancel
  | other (code : UInt8)
deriving DecidableEq

structure LinkCfgParam where
  type : LinkParamType
  timerInterval : Option UInt16
  action : ThAction
  thresholdList : List Threshold
deriving DecidableEq

/-- `link_cfg_status`; a `thold` that is not set is left as it was built. -/
structure LinkCfgStatus where
  type : LinkParamType
  thold : Option Threshold
  status : Bool
deriving DecidableEq

/-- What `handle_link_configure_thresholds` edits. -/
structure Config where
  thCrossList : List ThresholdCrossData
  periodRptList : List PeriodicReportData
  statusList : List LinkCfgStatus
deriving DecidableEq

namespace Config

def push (c : Config) (type : LinkParamType) (thold : Option Threshold) (status : Bool) : Config :=
  { c with statusList := c.statusList ++ [⟨type, thold, status⟩] }

def cancelAll (c : Config) (type : LinkParamType) : Config :=
  { c with
    thCrossList := Sweep.eraseWhere (fun t => t.type = type) c.thCrossList
    periodRptList := Sweep.eraseWhere (fun p => p.type = type) c.periodRptList }

def cancel (c : Config) (type : LinkParamType) (th : Threshold) : Config :=
  { c with
    thCrossList := Sweep.eraseWhere
      (fun t => t.type = type && t.th.thresholdVal = th.thresholdVal &&
        t.th.thresholdXDir = th.thresholdXDir) c.thCrossList }

def insertPeriodic (c : Config) (type : LinkParamType) (period : UInt16) : Config :=
  { c with periodRptList := c.periodRptList ++ [⟨type, period, true⟩] }

def insert (c : Config) (param : LinkCfgParam) (th : Threshold) : Config :=
  { c with thCrossList := c.thCrossList ++ [⟨param.action = .oneShot, param.type, th⟩] }

/-- A round of the loop over the parameters. -/
def configure (c : Config) (param : LinkCfgParam) : Config :=
  if !linkParameterSupported param.type then c.push param.type none false
  else if param.action = .cancel then
    if param.thresholdList.length = 0 then (c.cancelAll param.type).push param.type none true
    else param.thresholdList.foldl
      (fun c th => (c.cancel param.type th).push param.type (some th) true) c
  else
    match param.timerInterval with
    | some period => c.insertPeriodic param.type period
    | none => param.thresholdList.foldl
        (fun c th => (c.insert param th).push param.type (some th) true) c

end Config

/-- The state of the SAP, as far as the thresholds go. -/
structure LinkSap where
  thCrossList : List ThresholdCrossData := []
  periodRptList : List PeriodicReportData := []
  /-- `threshold_check_task->running()` -/
  checkRunning : Bool := false
  /-- `evt_link_parameters_report` in `subscribed_event_list` -/
  subscribed : Bool := false
deriving DecidableEq

namespace LinkSap

/-- `handle_link_configure_thresholds`, with the status list of the confirm -/
def handleLinkConfigureThresholds (s : LinkSap) (paramList : List LinkCfgParam) :
    LinkSap × List LinkCfgStatus :=
  let c := paramList.foldl Config.configure ⟨s.thCrossList, s.periodRptList, []⟩
  let checkRunning :=
    if c.thCrossList.length > 0 && !s.checkRunning then true
    else if c.thCrossList.length = 0 && s.checkRunning then false
    else s.checkRunning
  ({ s with thCrossList := c.thCrossList, periodRptList := c.periodRptList, checkRunning },
    c.statusList)

/-- `dispatch_link_up` -/
def linkUp (s : LinkSap) : LinkSap :=
  { s with
    checkRunning := s.checkRunning || s.thCrossList.length > 0
    periodRptList := s.periodRptList.map fun p => { p with running := true } }

/-- `dispatch_link_down` -/
def linkDown (s : LinkSap) : LinkSap :=
  { s with
    checkRunning := s.checkRunning && !(s.thCrossList.length > 0)
    periodRptList := s.periodRptList.map fun p => { p with running := false } }

/-- `handle_event_subscribe`, for a request with or without parameter reports -/
def handleEventSubscribe (s : LinkSap) (reports : Bool) : LinkSap :=
  { s with subscribed := s.subscribed || reports }

def handleEventUnsubscribe (s : LinkSap) (reports : Bool) : LinkSap :=
  { s with subscribed := s.subscribed && !reports }

end LinkSap

end Odtone.Sap80211
