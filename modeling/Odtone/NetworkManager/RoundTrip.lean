import Odtone.NetworkManager.AllOrNothing
import Odtone.Support.Finmap

/-! # Settings that survive a restart

What a group is after a restart can be read off its tables: a key comes back with its value if
`to_map` writes the member it is read into under the same key. This is so for all the keys of seven
groups and for all but one of `802-3-ethernet`, whose black list comes back under another key; and
`wimax` is not read at all.
-/

namespace Odtone.NetworkManager

open List Finmap ConnectionSettings

theorem Variant.read_eq_ok {t : SettingType} {v : Variant} (h : v.1 = t) :
    ∃ x, v.read t = .ok x ∧ Sigma.mk t x = v := by
  obtain ⟨t', x⟩ := v
  obtain rfl : t' = t := h
  exact ⟨x, by simp [Variant.read], rfl⟩

namespace Group

variable {μ : Type} (g : Group μ)

/-- No member is read from or written to two keys, no key is written twice, and everything that is
read is archived. -/
structure WellFormed : Prop where
  reads_members : (g.reads.map Prod.snd).Nodup
  writes_members : (g.writes.map Prod.snd).Nodup
  writes_keys : (g.writes.map Prod.fst).Nodup
  archived : ∀ e ∈ g.reads, e.2 ∈ g.archived

/-- The keys of the map are among those that are read, with values of the declared types. -/
structure Accepts (p : SettingPairs) : Prop where
  keys : ∀ k ∈ p, k ∈ g.reads.map Prod.fst
  types : ∀ e ∈ g.reads, ∀ v, p.lookup e.1 = some v → v.1 = g.type e.2

variable {g}

/-! ## Reading -/

/-- The value of a member as a variant. -/
def Record.variant (r : g.Record) (m : μ) : Option Variant := (r m).map (Sigma.mk (g.type m))

section Reading

variable [DecidableEq μ]

theorem settingValue_eq_ok {p : SettingPairs} {k : String} {m : μ} (r : g.Record)
    (htype : ∀ v, p.lookup k = some v → v.1 = g.type m) (hr : r m = none) :
    ∃ r' : g.Record, g.settingValue p k m r = .ok r' ∧ Record.variant r' m = p.lookup k ∧
      ∀ m', m' ≠ m → r' m' = r m' := by
  unfold settingValue
  cases hv : p.lookup k with
  | none => exact ⟨r, rfl, by rw [Record.variant, hr, Option.map_none], fun _ _ => rfl⟩
  | some v =>
    obtain ⟨x, hx, hxv⟩ := Variant.read_eq_ok (htype v hv)
    refine ⟨Function.update r m (some x), by simp [hx, Except.map], ?_, fun m' hm' => ?_⟩
    · rw [Record.variant, Function.update_self, Option.map_some, hxv]
    · rw [Function.update_of_ne hm']

/-- `from_map` reads every member from its key. -/
theorem foldlM_settingValue {p : SettingPairs} {es : List (String × μ)} (r : g.Record)
    (hes : (es.map Prod.snd).Nodup)
    (htypes : ∀ e ∈ es, ∀ v, p.lookup e.1 = some v → v.1 = g.type e.2)
      (hr : ∀ e ∈ es, r e.2 = none) :
    ∃ r' : g.Record, es.foldlM (fun r e => g.settingValue p e.1 e.2 r) r = .ok r' ∧
      (∀ e ∈ es, Record.variant r' e.2 = p.lookup e.1) ∧ ∀ m, m ∉ es.map Prod.snd → r' m = r m := by
  induction es generalizing r with
  | nil => exact ⟨r, rfl, fun _ he => absurd he not_mem_nil, fun _ _ => rfl⟩
  | cons e es ih =>
    obtain ⟨hmem, hnodup⟩ := nodup_cons.mp hes
    obtain ⟨htype, htypes⟩ := forall_mem_cons.mp htypes
    obtain ⟨he, hrest⟩ := forall_mem_cons.mp hr
    have hne {e'} (he' : e' ∈ es) : e'.2 ≠ e.2 := fun h => hmem (h ▸ mem_map_of_mem he')
    obtain ⟨r₁, h₁, hvalue, hother⟩ := settingValue_eq_ok r htype he
    obtain ⟨r₂, h₂, hvalues, hothers⟩ := ih r₁ hnodup htypes
      fun e' he' => (hother e'.2 (hne he')).trans (hrest e' he')
    refine ⟨r₂, ?_, forall_mem_cons.mpr ⟨?_, hvalues⟩, fun m hm => ?_⟩
    · rw [foldlM_cons, h₁]
      exact h₂
    · rw [Record.variant, hothers e.2 hmem]
      exact hvalue
    · obtain ⟨hm, hms⟩ := not_or.mp fun h => hm (mem_cons.mpr h)
      rw [hothers m hms, hother m hm]

/-- The members have been read from the map. -/
structure Reads (p : SettingPairs) (r : g.Record) : Prop where
  value : ∀ e ∈ g.reads, Record.variant r e.2 = p.lookup e.1
  other : ∀ m, m ∉ g.reads.map Prod.snd → r m = none

theorem fromMap_eq_ok (hg : g.WellFormed) {p : SettingPairs} (hp : g.Accepts p) :
    ∃ r, g.fromMap p = .ok r ∧ Reads p r := by
  obtain ⟨r, hr, hvalue, hother⟩ := foldlM_settingValue g.empty hg.reads_members hp.types
    fun _ _ => rfl
  exact ⟨r, hr, hvalue, hother⟩

end Reading

/-! ## Writing -/

theorem toMap_eq (r : g.Record) :
    g.toMap r = .ofOptions (g.writes.map fun e => (e.1, Record.variant r e.2)) := by
  have hstep (p : SettingPairs) (e : String × μ) :
      g.mapValue r p e.1 e.2 = p.insertSome (e.1, Record.variant r e.2) := by
    rw [mapValue, insertSome, Record.variant]
    cases r e.2 <;> rfl
  rw [toMap, ofOptions, foldl_map]
  simp only [hstep]

theorem lookup_toMap (hg : g.WellFormed) (r : g.Record) {e : String × μ} (he : e ∈ g.writes) :
    (g.toMap r).lookup e.1 = Record.variant r e.2 := by
  rw [toMap_eq]
  refine lookup_ofOptions_of_mem ?_ (mem_map.mpr ⟨e, he, rfl⟩)
  rw [map_map]
  exact hg.writes_keys

theorem lookup_toMap_of_not_mem (r : g.Record) {k : String} (hk : k ∉ g.writes.map Prod.fst) :
    (g.toMap r).lookup k = none := by
  rw [toMap_eq]
  refine lookup_ofOptions_of_not_mem ?_
  rw [map_map]
  exact hk

/-! ## A group after a restart -/

section Restart

variable [DecidableEq μ] {p : SettingPairs} {r : g.Record}

theorem variant_restored (hg : g.WellFormed) {e : String × μ} (he : e ∈ g.reads) :
    Record.variant (g.restored r) e.2 = Record.variant r e.2 := by
  rw [Record.variant, Record.variant, restored, if_pos (hg.archived e he)]

/-- A group whose keys are all written as they are read comes back as it was. -/
theorem toMap_restored (hg : g.WellFormed) (hp : g.Accepts p) (hr : Reads p r)
    (hsame : ∀ e ∈ g.reads, e.1 ∈ p → e ∈ g.writes) : g.toMap (g.restored r) = p := by
  refine ext_lookup fun k => ?_
  by_cases hk : k ∈ p
  · obtain ⟨e, he, rfl⟩ := mem_map.mp (hp.keys k hk)
    rw [lookup_toMap hg _ (hsame e he hk), variant_restored hg he, hr.value e he]
  · rw [lookup_eq_none.mpr hk]
    by_cases hw : k ∈ g.writes.map Prod.fst
    · obtain ⟨e, he, rfl⟩ := mem_map.mp hw
      rw [lookup_toMap hg _ he, Record.variant, restored]
      suffices h : r e.2 = none by simp [h]
      by_cases hread : e.2 ∈ g.reads.map Prod.snd
      · obtain ⟨e', he', hmem⟩ := mem_map.mp hread
        -- the member is read from another key, which is not in the map either
        have hvalue := hr.value e' he'
        rw [hmem] at hvalue
        rcases Option.eq_none_or_eq_some (r e.2) with h | ⟨x, h⟩
        · exact h
        · rw [Record.variant, h, Option.map_some] at hvalue
          have hin : e'.1 ∈ p := mem_iff.mpr ⟨_, hvalue.symm⟩
          have heq : e' = e := inj_on_of_nodup_map hg.writes_members (hsame e' he' hin) he hmem
          exact absurd (heq ▸ hin) hk
      · exact hr.other e.2 hread
    · exact lookup_toMap_of_not_mem _ hw

end Restart

/-- What `connection_settings::to_map` puts into the map for a group. -/
def stored (r : g.Record) : Option SettingPairs :=
  if (g.toMap r).keys.card > 0 then some (g.toMap r) else none

theorem put_eq (r : g.Record) (m : SettingsMap) : g.put r m = m.insertSome (g.key, g.stored r) := by
  simp only [put, stored, insertSome]
  split_ifs <;> rfl

section Restart

variable [DecidableEq μ] {m : SettingsMap}

/-- The group is in the map with acceptable keys and at least one of them, or it is not there. -/
structure Fits (g : Group μ) (m : SettingsMap) : Prop where
  accepts : ∀ p, m.lookup g.key = some p → g.Accepts p
  nonempty : ∀ p, m.lookup g.key = some p → p ≠ ∅

theorem stored_empty : g.stored (g.restored g.empty) = none := by
  have h : g.toMap (g.restored g.empty) = ∅ := by
    rw [toMap_eq]
    refine ofOptions_eq_empty fun e he => ?_
    obtain ⟨e', -, rfl⟩ := mem_map.mp he
    exact congrArg (Option.map _) (ite_self none)
  rw [stored, h]
  rfl

/-- What is found of a group in the map is put back after a restart if all its keys are written as
they are read, and is not if one is not written. -/
theorem find_eq_ok (hg : g.WellFormed) (hm : g.Fits m) : ∃ r, g.find m = .ok r ∧
    ((∀ p, m.lookup g.key = some p → ∀ e ∈ g.reads, e.1 ∈ p → e ∈ g.writes) →
      g.stored (g.restored r) = m.lookup g.key) ∧
    ((∃ p, m.lookup g.key = some p ∧ ∃ k ∈ p, k ∉ g.writes.map Prod.fst) →
      g.stored (g.restored r) ≠ m.lookup g.key) := by
  unfold find
  cases hp : m.lookup g.key with
  | none => exact ⟨g.empty, rfl, fun _ => stored_empty, fun ⟨p, h, _⟩ => nomatch h⟩
  | some p =>
    obtain ⟨r, hr, hreads⟩ := fromMap_eq_ok hg (hm.accepts p hp)
    refine ⟨r, hr, fun hsame => ?_, fun ⟨p', hp', k, hk, hw⟩ heq => ?_⟩
    · have hback := toMap_restored hg (hm.accepts p hp) hreads (hsame p rfl)
      rw [stored, hback, if_pos (card_keys_pos.mpr (hm.nonempty p hp))]
    · cases hp'
      rw [stored] at heq
      split_ifs at heq
      have hlookup := lookup_toMap_of_not_mem (g.restored r) hw
      rw [Option.some.inj heq] at hlookup
      exact absurd hk (lookup_eq_none.mp hlookup)

theorem find_of_reads_eq_writes (hg : g.WellFormed) (hsame : g.reads = g.writes) (hm : g.Fits m) :
    ∃ r, g.find m = .ok r ∧ g.stored (g.restored r) = m.lookup g.key := by
  obtain ⟨r, hr, hkept, -⟩ := find_eq_ok hg hm
  exact ⟨r, hr, hkept fun p _ e he _ => hsame ▸ he⟩

end Restart

end Group

/-! ## The tables -/

theorem settingsConnection_wf : settingsConnection.WellFormed :=
  ⟨by decide, by decide, by decide, by decide⟩

theorem settingsIpv4_wf : settingsIpv4.WellFormed := ⟨by decide, by decide, by decide, by decide⟩

theorem settingsIpv6_wf : settingsIpv6.WellFormed := ⟨by decide, by decide, by decide, by decide⟩

theorem settingsEthernet_wf : settingsEthernet.WellFormed :=
  ⟨by decide, by decide, by decide, by decide⟩

theorem settingsWireless_wf : settingsWireless.WellFormed :=
  ⟨by decide, by decide, by decide, by decide⟩

theorem settingsWirelessSecurity_wf : settingsWirelessSecurity.WellFormed :=
  ⟨by decide, by decide, by decide, by decide⟩

theorem settings8021x_wf : settings8021x.WellFormed := ⟨by decide, by decide, by decide, by decide⟩

theorem settingsEthernet_find {m : SettingsMap} (hm : settingsEthernet.Fits m) :
    ∃ r, settingsEthernet.find m = .ok r ∧
      (settingsEthernet.stored (settingsEthernet.restored r) = m.lookup settingsEthernet.key ↔
        ∀ p, m.lookup settingsEthernet.key = some p → "mac-address-blacklist" ∉ p) := by
  obtain ⟨r, hr, hkept, hlost⟩ := Group.find_eq_ok settingsEthernet_wf hm
  refine ⟨r, hr, fun heq p hp hk => ?_, fun h => hkept fun p hp e he hin => ?_⟩
  · exact hlost ⟨p, hp, _, hk, by decide⟩ heq
  · -- the black list is the one key that is not written as it is read
    exact (by decide : ∀ e ∈ settingsEthernet.reads, e.1 ≠ "mac-address-blacklist" →
      e ∈ settingsEthernet.writes) e he fun hname => h p hp (hname ▸ hin)

/-! ## The settings of a connection -/

/-- The keys of the groups, in the order of `connection_settings::to_map`. -/
def groupKeys : List String :=
  [settingsConnection.key, settingsIpv4.key, settingsIpv6.key, settingsEthernet.key,
    settingsWireless.key, settingsWirelessSecurity.key, settingsWimax.key, settings8021x.key]

/-- The groups are among the eight, none is empty, and their keys are among those that are read,
with values of the declared types. -/
structure SettingsMap.Valid (m : SettingsMap) : Prop where
  keys : ∀ k ∈ m, k ∈ groupKeys
  con : settingsConnection.Fits m
  ipv4 : settingsIpv4.Fits m
  ipv6 : settingsIpv6.Fits m
  wimax : settingsWimax.Fits m
  ethernet : settingsEthernet.Fits m
  wireless : settingsWireless.Fits m
  wirelessSecurity : settingsWirelessSecurity.Fits m
  x8021 : settings8021x.Fits m

namespace ConnectionSettings

/-- What `to_map` puts under each of the keys. -/
def parts (s : ConnectionSettings) : List (String × Option SettingPairs) :=
  [(settingsConnection.key, settingsConnection.stored s.setCon),
    (settingsIpv4.key, settingsIpv4.stored s.setIpv4),
    (settingsIpv6.key, settingsIpv6.stored s.setIpv6),
    (settingsEthernet.key, settingsEthernet.stored s.setEthernet),
    (settingsWireless.key, settingsWireless.stored s.setWireless),
    (settingsWirelessSecurity.key, settingsWirelessSecurity.stored s.setWirelessSecurity),
    (settingsWimax.key, settingsWimax.stored s.setWimax),
    (settings8021x.key, settings8021x.stored s.set8021x)]

theorem toMap_eq (s : ConnectionSettings) : s.toMap = .ofOptions s.parts := by
  simp only [toMap, Group.put_eq]
  rfl

theorem toMap_eq_iff (s : ConnectionSettings) {m : SettingsMap} (hm : m.Valid) :
    s.toMap = m ↔ ∀ e ∈ s.parts, e.2 = m.lookup e.1 := by
  have hkeys : s.parts.map Prod.fst = groupKeys := rfl
  rw [toMap_eq, ofOptions_eq_iff]
  · rw [hkeys]
    decide
  · rw [hkeys]
    exact hm.keys

end ConnectionSettings

/-- The map has neither a group that is not read nor the key that is written under another name. -/
def SettingsMap.Unaffected (m : SettingsMap) : Prop :=
  m.lookup "wimax" = none ∧
    ∀ p, m.lookup "802-3-ethernet" = some p → "mac-address-blacklist" ∉ p

/-- Every valid map can be stored, and it is the same map after a restart if nothing in it is
affected. -/
theorem ConnectionSettings.fromMap_eq_ok {m : SettingsMap} (hm : m.Valid) :
    ∃ s, fromMap m = .ok s ∧ (s.restored.toMap = m ↔ m.Unaffected) := by
  obtain ⟨con, hcon, hcon'⟩ := Group.find_of_reads_eq_writes settingsConnection_wf rfl hm.con
  obtain ⟨ipv4, hipv4, hipv4'⟩ := Group.find_of_reads_eq_writes settingsIpv4_wf rfl hm.ipv4
  obtain ⟨ipv6, hipv6, hipv6'⟩ := Group.find_of_reads_eq_writes settingsIpv6_wf rfl hm.ipv6
  obtain ⟨ethernet, hethernet, hethernet'⟩ := settingsEthernet_find hm.ethernet
  obtain ⟨wireless, hwireless, hwireless'⟩ :=
    Group.find_of_reads_eq_writes settingsWireless_wf rfl hm.wireless
  obtain ⟨security, hsecurity, hsecurity'⟩ :=
    Group.find_of_reads_eq_writes settingsWirelessSecurity_wf rfl hm.wirelessSecurity
  obtain ⟨x8021, hx8021, hx8021'⟩ := Group.find_of_reads_eq_writes settings8021x_wf rfl hm.x8021
  refine ⟨⟨con, ipv4, ipv6, settingsWimax.empty, ethernet, wireless, security, x8021⟩, ?_, ?_⟩
  · rw [fromMap, hcon, hipv4, hipv6, hethernet, hwireless, hsecurity, hx8021]
    rfl
  rw [toMap_eq_iff _ hm]
  simp only [parts, restored, forall_mem_cons, hcon', hipv4',
    hipv6', hwireless', hsecurity', hx8021', hethernet', Group.stored_empty, true_and]
  constructor
  · rintro ⟨heth, hwimax, -⟩
    exact ⟨hwimax.symm, heth⟩
  · rintro ⟨hwimax, heth⟩
    exact ⟨heth, hwimax.symm, fun e he => absurd he not_mem_nil⟩

namespace Settings

end Settings

namespace Group

variable {μ : Type} {g : Group μ} {m : SettingsMap} {group key : String} {v : Variant}

/-- The group takes a key and a value of a type, if they come in a group of its name. -/
def Takes (g : Group μ) (group key : String) (t : SettingType) : Prop :=
  g.key = group → key ∈ g.reads.map Prod.fst ∧ ∀ e ∈ g.reads, e.1 = key → t = g.type e.2
deriving Decidable

theorem Fits.insert (hm : g.Fits m) (h : g.Takes group key v.1) :
    g.Fits (m.insert group (.singleton key v)) := by
  by_cases hgroup : g.key = group
  · obtain ⟨hkey, htype⟩ := h hgroup
    subst hgroup
    have hsome {p : SettingPairs}
        (hp : (m.insert g.key (.singleton key v)).lookup g.key = some p) :
        p = .singleton key v := by
      rw [lookup_insert] at hp
      exact (Option.some.inj hp).symm
    refine ⟨fun p hp => ⟨fun k hmem => ?_, fun e he w hw => ?_⟩, fun p hp hempty => ?_⟩
    · rw [hsome hp] at hmem
      rwa [(mem_singleton _ _ _).mp hmem]
    · rw [hsome hp] at hw
      have hmem : e.1 ∈ (.singleton key v : SettingPairs) := mem_iff.mpr ⟨w, hw⟩
      have heq : e.1 = key := (mem_singleton _ _ _).mp hmem
      rw [heq, lookup_singleton_eq] at hw
      exact Option.some.inj hw ▸ htype e he heq
    · rw [hsome hp] at hempty
      exact notMem_empty (hempty ▸ (mem_singleton _ _ _).mpr rfl)
  · have hother : (m.insert group (.singleton key v)).lookup g.key = m.lookup g.key :=
      lookup_insert_of_ne _ hgroup
    exact ⟨fun p hp => hm.accepts p (hother ▸ hp), fun p hp => hm.nonempty p (hother ▸ hp)⟩

end Group

/-- A valid map with one more group that has one key. -/
theorem SettingsMap.Valid.insert {m : SettingsMap} (hm : m.Valid) (group key : String)
    (v : Variant) (hgroup : group ∈ groupKeys)
    (h : settingsConnection.Takes group key v.1 ∧ settingsIpv4.Takes group key v.1 ∧
      settingsIpv6.Takes group key v.1 ∧ settingsWimax.Takes group key v.1 ∧
      settingsEthernet.Takes group key v.1 ∧ settingsWireless.Takes group key v.1 ∧
      settingsWirelessSecurity.Takes group key v.1 ∧ settings8021x.Takes group key v.1) :
    SettingsMap.Valid (m.insert group (.singleton key v)) := by
  obtain ⟨hcon, hipv4, hipv6, hwimax, hethernet, hwireless, hsecurity, hx8021⟩ := h
  refine ⟨fun k hk => ?_, hm.con.insert hcon, hm.ipv4.insert hipv4, hm.ipv6.insert hipv6,
    hm.wimax.insert hwimax, hm.ethernet.insert hethernet, hm.wireless.insert hwireless,
    hm.wirelessSecurity.insert hsecurity, hm.x8021.insert hx8021⟩
  rcases mem_insert.mp hk with rfl | hk
  · exact hgroup
  · exact hm.keys k hk

namespace Settings

end Settings

end Odtone.NetworkManager
