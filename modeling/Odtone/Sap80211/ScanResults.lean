import Odtone.Sap80211.Thresholds

/-! # Scan results of the 802.11 Link SAP

A scan dump is collected result by result into `scan_results_data`, together with the position of
the result of the network the interface is associated with. Then the strongest result of every other
network is announced: `dispatch_strongest_scan_results` sorts the results and goes over them. The
position was recorded before the sort.

`std::sort` may leave results of equal strength in any order, so that its outcome is a relation.
-/

namespace Odtone.Sap80211

open List Option

/-- `poa_info`, with the network. -/
structure ScanResult extends PoaInfo where
  networkId : List UInt8
deriving DecidableEq

/-- The members of a `genl_msg` that are not just handed on. -/
structure ScanMsg where
  isScanCmd : Bool
  ieSsid : Option (List UInt8)
  bssFrequency : Option Nat
  bssBssid : Option (List UInt8)
  bssSignalMbm : Option Int
  ieMaxDataRate : Option Nat
  bssStatus : Option Nat
  bssQosCapable : Option Bool
deriving DecidableEq

/-- `NL80211_BSS_STATUS_ASSOCIATED` -/
def bssStatusAssociated : Nat := 1

def ScanMsg.isAssociated (m : ScanMsg) : Bool := m.bssStatus == some bssStatusAssociated

/-- The `poa_info` of a message with all required elements. -/
def ScanMsg.info? (m : ScanMsg) : Option ScanResult :=
  if !m.isScanCmd then none
  else
    match m.ieSsid, m.bssFrequency, m.bssBssid, m.bssSignalMbm, m.ieMaxDataRate with
    | some ssid, some _, some bssid, some mbm, some _ =>
      some ⟨⟨.dbm (.ofInt mbm), m.bssQosCapable == some true, some bssid⟩, ssid⟩
    | _, _, _, _, _ => none

/-- `scan_results_data` -/
structure ScanResultsData where
  l : List ScanResult := []
  associatedIndex : Option Nat := none
deriving DecidableEq

/-- `handle_scan_results` -/
def handleScanResults (d : ScanResultsData) (m : ScanMsg) : ScanResultsData :=
  match m.info? with
  | none => d
  | some i =>
    { l := d.l ++ [i]
      associatedIndex := if m.isAssociated then some d.l.length else d.associatedIndex }

/-- The data after the messages of a dump. -/
def scanDump (ms : List ScanMsg) : ScanResultsData := ms.foldl handleScanResults {}

/-- `compare_poa_strength` -/
def comparePoaStrength (a b : ScanResult) : Except String Bool :=
  match a.signal, b.signal with
  | .dbm a, .dbm b => .ok (a > b)
  -- four octets are read of the one of a percentage, which no scan result has
  | .percentage a, .percentage b => .ok (a > b)
  | _, _ => .error "SIG_STRENGTH info not available for sorting"

/-- What `std::sort` may make of a list. -/
def IsSort (l sorted : List ScanResult) : Prop :=
  sorted.Perm l ∧ sorted.Pairwise fun a b => comparePoaStrength b a = .ok false

local instance lawfulBEq_networkId : LawfulBEq (List UInt8) := inferInstance

/-- The loop of `dispatch_strongest_scan_results`, with the keys that are set in `announced`. -/
def announce (announced : List (List UInt8)) : List ScanResult → List ScanResult
  | [] => []
  | i :: l =>
    if i.networkId ∈ announced then announce announced l
    else i :: announce (i.networkId :: announced) l

/-- The key that is set in front of the loop. -/
def marked (associatedIndex : Option Nat) (sorted : List ScanResult) : List (List UInt8) :=
  (associatedIndex.bind (sorted[·]?)).toList.map (·.networkId)

/-- `dispatch_strongest_scan_results` behind the sort. -/
def dispatchStrongest (associatedIndex : Option Nat) (sorted : List ScanResult) : List ScanResult :=
  announce (marked associatedIndex sorted) sorted

/-! ## What is required -/

/-- The networks with a result that is marked associated. -/
def associated (ms : List ScanMsg) : List (List UInt8) :=
  ((ms.filter ScanMsg.isAssociated).filterMap ScanMsg.info?).map (·.networkId)

/-- No signal of the network is greater than that of the result. -/
def IsStrongest (ms : List ScanMsg) (i : ScanResult) : Prop :=
  ∀ j ∈ ms.filterMap ScanMsg.info?, j.networkId = i.networkId →
    ∃ s t, i.signal = .dbm s ∧ j.signal = .dbm t ∧ t ≤ s

/-- One strongest result is announced of every other network, and none of the associated one. -/
structure AnnouncesBest (ms : List ScanMsg) (out : List ScanResult) : Prop where
  others : ∀ i ∈ ms.filterMap ScanMsg.info?, i.networkId ∉ associated ms →
    ∃ j ∈ ms.filterMap ScanMsg.info?, IsStrongest ms j ∧
      out.filter (·.networkId = i.networkId) = [j]
  associated : ∀ n ∈ associated ms, out.filter (·.networkId = n) = []

variable {ms : List ScanMsg} {l sorted : List ScanResult} {seen : List (List UInt8)}

theorem foldl_handleScanResults_l (d : ScanResultsData) :
    (ms.foldl handleScanResults d).l = d.l ++ ms.filterMap ScanMsg.info? := by
  induction ms generalizing d with
  | nil => simp
  | cons m ms ih =>
    rw [foldl_cons, ih, handleScanResults]
    cases h : m.info? <;> simp [h]

/-! ## What is announced -/

/-- Of a network that is not in `announced` the first result is announced, and of one that is,
none. -/
theorem announce_filter (n : List UInt8) : (announce seen l).filter (·.networkId = n) =
      if n ∈ seen then [] else (l.find? (·.networkId = n)).toList := by
  induction l generalizing seen with
  | nil => simp [announce]
  | cons i l ih =>
    by_cases hi : i.networkId ∈ seen
    · rw [announce, if_pos hi, ih]
      by_cases hn : i.networkId = n
      · simp [← hn, hi]
      · simp [hn]
    · rw [announce, if_neg hi, filter_cons, ih]
      by_cases hn : i.networkId = n
      · simp [← hn, hi]
      · simp [hn, Ne.symm hn]

variable {i : ScanResult}

theorem signal_of_info {m : ScanMsg} (h : m.info? = some i) : ∃ s, i.signal = .dbm s := by
  unfold ScanMsg.info? at h
  split_ifs at h
  split at h
  · cases h
    exact ⟨_, rfl⟩
  · cases h

theorem IsSort.mem_iff (hsort : IsSort (scanDump ms).l sorted) :
    i ∈ sorted ↔ i ∈ ms.filterMap ScanMsg.info? := by
  rw [hsort.1.mem_iff, scanDump, foldl_handleScanResults_l]
  rfl

/-- The first result of a network in the sorted list is one of its strongest. -/
theorem IsSort.isStrongest (hsort : IsSort (scanDump ms).l sorted)
    (h : sorted.find? (·.networkId = i.networkId) = some i) : IsStrongest ms i := by
  have hdbm {j : ScanResult} (hj : j ∈ sorted) : ∃ s, j.signal = .dbm s := by
    obtain ⟨m, -, hm⟩ := mem_filterMap.mp (hsort.mem_iff.mp hj)
    exact signal_of_info hm
  intro j hj hn
  rw [← hsort.mem_iff] at hj
  obtain ⟨s, hs⟩ := hdbm (mem_of_find?_eq_some h)
  obtain ⟨t, ht⟩ := hdbm hj
  refine ⟨s, t, hs, ht, ?_⟩
  obtain ⟨-, before, after, hl, hbefore⟩ := find?_eq_some_iff_append.mp h
  have hsorted := hsort.2
  rw [hl, pairwise_append, pairwise_cons] at hsorted
  rw [hl, mem_append, mem_cons] at hj
  obtain hj | rfl | hj := hj
  · exact absurd (hbefore j hj) (by simp [hn])
  · cases hs.symm.trans ht
    exact Int8.le_refl s
  · have hcmp := hsorted.2.1.1 j hj
    rw [comparePoaStrength, ht, hs] at hcmp
    simpa using hcmp

theorem exists_find?_eq_some (hi : i ∈ sorted) : ∃ j,
    sorted.find? (·.networkId = i.networkId) = some j ∧ j.networkId = i.networkId := by
  have hsome : (sorted.find? (·.networkId = i.networkId)).isSome :=
    find?_isSome.mpr ⟨i, hi, by simp⟩
  obtain ⟨j, hj⟩ := isSome_iff_exists.mp hsome
  exact ⟨j, hj, by simpa using find?_some hj⟩

theorem exists_of_mem_marked {idx : Option Nat} {n : List UInt8} (h : n ∈ marked idx sorted) :
    ∃ i ∈ sorted, i.networkId = n := by
  obtain ⟨i, hi, rfl⟩ := mem_map.mp h
  obtain ⟨k, -, hk⟩ := bind_eq_some_iff.mp (mem_toList.mp hi)
  exact ⟨i, mem_of_getElem? hk, rfl⟩

/-- Without an associated network no position is recorded. -/
theorem foldl_associatedIndex (h : associated ms = []) (d : ScanResultsData) :
    (ms.foldl handleScanResults d).associatedIndex = d.associatedIndex := by
  induction ms generalizing d with
  | nil => rfl
  | cons m ms ih =>
    simp only [associated, filter_cons] at h ih
    rw [foldl_cons, handleScanResults]
    cases hm : m.info? with
    | none => exact ih (by split_ifs at h <;> simpa [hm] using h) d
    | some i =>
      split_ifs at h with ha
      · simp [hm] at h
      · rw [ih h, if_neg ha]

/-- The networks that are marked are the associated ones. -/
theorem mem_marked_iff :
    (∀ n, n ∈ marked (scanDump ms).associatedIndex sorted ↔ n ∈ associated ms) ↔
      associated ms = [] ∨ ∃ k i, (scanDump ms).associatedIndex = some k ∧ sorted[k]? = some i ∧
        ∀ n, n ∈ associated ms ↔ n = i.networkId := by
  constructor
  · intro h
    cases hi : (scanDump ms).associatedIndex.bind (sorted[·]?) with
    | none =>
      refine .inl (eq_nil_iff_forall_not_mem.mpr fun n hn => ?_)
      simpa [marked, hi] using (h n).mpr hn
    | some i =>
      obtain ⟨k, hk, hs⟩ := bind_eq_some_iff.mp hi
      exact .inr ⟨k, i, hk, hs, fun n => (h n).symm.trans (by simp [marked, hi])⟩
  · rintro (h | ⟨k, i, hk, hs, h⟩) n
    · rw [marked, scanDump, foldl_associatedIndex h, h]
      rfl
    · simp [marked, hk, hs, h]

/-- The announcements are the required ones exactly if no network is associated, or the sort has
left a result of the one that is at the recorded position. -/
theorem announcesBest_iff (hsort : IsSort (scanDump ms).l sorted) :
    AnnouncesBest ms (dispatchStrongest (scanDump ms).associatedIndex sorted) ↔
      associated ms = [] ∨ ∃ k i, (scanDump ms).associatedIndex = some k ∧ sorted[k]? = some i ∧
        ∀ n, n ∈ associated ms ↔ n = i.networkId := by
  rw [← mem_marked_iff]
  constructor
  · refine fun hbest n => ⟨fun hn => ?_, fun hn => ?_⟩
    · -- no result of a marked network is announced
      by_contra hother
      obtain ⟨i, hi, rfl⟩ := exists_of_mem_marked hn
      obtain ⟨j, -, -, hj⟩ := hbest.others i (hsort.mem_iff.mp hi) hother
      rw [dispatchStrongest, announce_filter, if_pos hn] at hj
      cases hj
    · by_contra hmark
      have hnone := hbest.associated n hn
      obtain ⟨i, hi, rfl⟩ := mem_map.mp hn
      have hmem := (filter_sublist.filterMap ScanMsg.info?).subset hi
      obtain ⟨j, hj, -⟩ := exists_find?_eq_some (hsort.mem_iff.mpr hmem)
      rw [dispatchStrongest, announce_filter, if_neg hmark, hj] at hnone
      cases hnone
  · refine fun hmark => ⟨fun i hi hn => ?_, fun n hn => ?_⟩
    · obtain ⟨j, hj, hjn⟩ := exists_find?_eq_some (hsort.mem_iff.mpr hi)
      refine ⟨j, hsort.mem_iff.mp (mem_of_find?_eq_some hj), hsort.isStrongest (hjn ▸ hj), ?_⟩
      rw [dispatchStrongest, announce_filter, if_neg ((hmark _).not.mpr hn), hj]
      rfl
    · rw [dispatchStrongest, announce_filter, if_pos ((hmark n).mpr hn)]

/-- A result with all elements. -/
def ScanMsg.result (ssid : UInt8) (mbm : Int) (associated : Bool) : ScanMsg :=
  ⟨true, some [ssid], some 2412, some [], some mbm, some 54,
    if associated then some 1 else none, none⟩

/-- Of two networks the associated one is weaker and first in the dump: its result is announced, and
that of the other network is not. -/
theorem weak_associated_announced :
    IsSort (scanDump [.result 1 (-70) true, .result 2 (-40) false]).l
      (scanDump [.result 2 (-40) false, .result 1 (-70) true]).l ∧
    ¬ AnnouncesBest [.result 1 (-70) true, .result 2 (-40) false]
      (dispatchStrongest (scanDump [.result 1 (-70) true, .result 2 (-40) false]).associatedIndex
        (scanDump [.result 2 (-40) false, .result 1 (-70) true]).l) := by
  refine ⟨⟨Perm.swap _ _ _, by decide⟩, fun h => ?_⟩
  exact absurd (h.associated [1] (by decide)) (by decide)

/-- The associated network is the strongest. -/
theorem announcesBest_of_first :
    AnnouncesBest [.result 1 (-40) true, .result 2 (-70) false]
      (dispatchStrongest (some 0) (scanDump [.result 1 (-40) true, .result 2 (-70) false]).l) :=
  (announcesBest_iff ⟨Perm.refl _, by decide⟩).mpr (.inr ⟨0, _, rfl, rfl, fun _ => mem_singleton⟩)

end Odtone.Sap80211
