import Odtone.NetworkManager.Confinement
import Odtone.NetworkManager.Supplicant
import Odtone.Support.Bitmap
import Odtone.Support.Cursor

/-! # Translation to an IP configuration

`NetworkManager::l3_conf` translates the groups ipv4 and ipv6 of stored settings. The rows of
addresses and routes, and the bytes of IPv6 addresses, are as many as the caller gave. To access one
that is not there is a failure of the model.
-/

namespace Odtone.NetworkManager

open List

inductive L3Fault where
  | thrown (what : String)
  /-- an element is accessed outside of its vector -/
  | outside
deriving DecidableEq

inductive IpAddr where
  | ipv4 (word : UInt32)
  | ipv6 (bytes : List UInt8)

/-- `mih::ip_info` -/
structure IpInfo where
  ipaddr : IpAddr
  ipprefixlen : UInt8
  gateway : IpAddr

/-- The arguments of `Device::l3_conf`. -/
structure L3Conf where
  cfgMethods : Bitmap 4 := Bitmap.empty 4
  addressList : List IpInfo := []
  routeList : List IpInfo := []
  dnsList : List IpAddr := []
  domainList : List String := []

def ip4Info : List UInt32 → Except L3Fault IpInfo
  | address :: len :: gateway :: _ => .ok ⟨.ipv4 address, len.toUInt8, .ipv4 gateway⟩
  | _ => .error .outside

/-- `mih::ip_addr(mih::ip_addr::ipv6, &bytes[0], 16)` -/
def ip6Addr (bytes : List UInt8) : Except L3Fault IpAddr :=
  if 16 ≤ bytes.length then .ok (.ipv6 (bytes.take 16)) else .error .outside

def ip6Info (address : List UInt8) (len : UInt32) (gateway : List UInt8) :
    Except L3Fault IpInfo := do
  return ⟨← ip6Addr address, len.toUInt8, ← ip6Addr gateway⟩

/-- What is different for the two groups. -/
structure Family where
  key : String
  /-- The bit a method sets, for those that are supported. -/
  method : String → Option (Option Nat)
  unsupported : String → String
  /-- The bit that every other field sets. -/
  manual : Nat
  addressType : SettingType
  addresses : addressType.Val → Except L3Fault (List IpInfo)
  routeType : SettingType
  routes : routeType.Val → Except L3Fault (List IpInfo)
  dnsType : SettingType
  dns : dnsType.Val → Except L3Fault (List IpAddr)

def Family.ipv4 : Family where
  key := "ipv4"
  method m :=
    if iequals m "auto" then some (some 1)
    else if iequals m "manual" then some (some 0)
    else if iequals m "disabled" then some none
    else none
  unsupported _ := "Unsupported ipv4 method specified"
  manual := 0
  addressType := .uint32Lists
  addresses := mapM ip4Info
  routeType := .uint32Lists
  routes := mapM ip4Info
  dnsType := .uint32s
  dns words := .ok (map .ipv4 words)

def Family.ipv6 : Family where
  key := "ipv6"
  method m :=
    if iequals m "auto" || iequals m "dhcp" then some (some 12)
    else if iequals m "manual" then some (some 13)
    else if iequals m "ignore" then some none
    else none
  unsupported m := "Unsupported ipv6 method specified: \"" ++ m ++ "\""
  manual := 13
  addressType := .ip6Addresses
  addresses := mapM fun r => ip6Info r.1 r.2.1 r.2.2
  routeType := .ip6Routes
  routes := mapM fun r => ip6Info r.1 r.2.1 r.2.2.1
  dnsType := .byteLists
  dns := mapM ip6Addr

/-- `from_variant` -/
def fromVariant (t : SettingType) (v : Variant) : Except L3Fault t.Val :=
  (v.read t).mapError fun _ => .thrown "org.freedesktop.DBus.Error.InvalidArgs"

/-- A field of a group; one that is absent adds nothing. -/
def field {α : Type} {t : SettingType} (read : t.Val → Except L3Fault (List α)) (p : SettingPairs)
    (k : String) : Except L3Fault (List α) :=
  (p.lookup k).elim (.ok []) fun v => fromVariant t v >>= read

namespace Family

def methods (f : Family) (p : SettingPairs) : Except L3Fault (Option Nat) :=
  match p.lookup "method" with
  | none => .error (.thrown (f.key ++ " settings are missing a \"method\" setting."))
  | some v => do
    let method ← fromVariant .string v
    (f.method method).elim (.error (.thrown (f.unsupported method))) .ok

def parse (f : Family) (p : SettingPairs) (c : L3Conf) : Except L3Fault L3Conf := do
  let bit ← f.methods p
  let addresses ← field f.addresses p "addresses"
  let routes ← field f.routes p "routes"
  let dns ← field f.dns p "dns"
  let domains ← field (t := .strings) .ok p "dns-search"
  let given := ["addresses", "routes", "dns", "dns-search"].any fun k => (p.lookup k).isSome
  return {
    cfgMethods := (bit.toList ++ if given then [f.manual] else []).foldl .set c.cfgMethods
    addressList := c.addressList ++ addresses
    routeList := c.routeList ++ routes
    dnsList := c.dnsList ++ dns
    domainList := c.domainList ++ domains }

/-- The part of `l3_conf` for one group. -/
def conf (f : Family) (m : SettingsMap) (c : L3Conf) : Except L3Fault L3Conf :=
  (m.lookup f.key).elim (.ok c) (f.parse · c)

end Family

/-- What `NetworkManager::l3_conf` hands to the device. -/
def l3Conf (m : SettingsMap) : Except L3Fault L3Conf := do
  Family.ipv6.conf m (← Family.ipv4.conf m {})

/-! ## Accesses -/

/-- Accesses are outside of a vector exactly if the condition does not hold. -/
def Within {α : Type} (x : Except L3Fault α) (C : Prop) : Prop :=
  C ∧ (∃ a, x = .ok a) ∨ ¬ C ∧ x = .error .outside

namespace Within

variable {α β : Type} {x : Except L3Fault α} {C D : Prop}

theorem ok (a : α) : Within (.ok a) True := .inl ⟨trivial, a, rfl⟩

theorem bind {f : α → Except L3Fault β} (hx : Within x C) (hf : ∀ a, Within (f a) D) :
    Within (x >>= f) (C ∧ D) := by
  rcases hx with ⟨hC, a, rfl⟩ | ⟨hC, rfl⟩
  · exact (hf a).imp (.imp_left (⟨hC, ·⟩)) (.imp_left (mt And.right))
  · exact .inr ⟨fun h => hC h.1, rfl⟩

theorem congr (hx : Within x C) (h : C ↔ D) : Within x D := propext h ▸ hx

theorem mapM {f : α → Except L3Fault β} {C : α → Prop} (h : ∀ r, Within (f r) (C r))
    (rows : List α) : Within (rows.mapM f) (∀ r ∈ rows, C r) := by
  induction rows with
  | nil => exact .inl ⟨by simp, [], rfl⟩
  | cons r rows ih =>
    rw [mapM_cons]
    exact ((h r).bind fun _ => ih.bind fun _ => ok _).congr (by simp)

theorem field {t : SettingType} {read : t.Val → Except L3Fault (List β)} {C : t.Val → Prop}
    (h : ∀ y, Within (read y) (C y)) {p : SettingPairs} {k : String}
    (ht : ∀ v, p.lookup k = some v → v.1 = t) :
    Within (field read p k) (∀ y, p.lookup k = some ⟨t, y⟩ → C y) := by
  unfold NetworkManager.field
  cases hv : p.lookup k with
  | none => exact .inl ⟨by simp, [], rfl⟩
  | some v =>
    obtain ⟨t', y⟩ := v
    obtain rfl := ht _ hv
    have hC : C y ↔ ∀ z, some (⟨t', y⟩ : Variant) = some ⟨t', z⟩ → C z :=
      ⟨fun hy z hz => by cases hz; exact hy, fun hy => hy y rfl⟩
    have hread : fromVariant t' ⟨t', y⟩ = .ok y := by
      simp [fromVariant, Variant.read, Except.mapError]
    rw [Option.elim_some, hread]
    exact (h y).congr hC

end Within

theorem within_ip4Info (r : List UInt32) : Within (ip4Info r) (3 ≤ r.length) := by
  match r with
  | [] | [_] | [_, _] => exact .inr ⟨by simp, rfl⟩
  | _ :: _ :: _ :: _ => exact .inl ⟨by simp, _, rfl⟩

theorem within_ip6Addr (bytes : List UInt8) : Within (ip6Addr bytes) (16 ≤ bytes.length) := by
  unfold ip6Addr
  split_ifs with h
  · exact .inl ⟨h, _, rfl⟩
  · exact .inr ⟨h, rfl⟩

theorem within_ip6Info (address : List UInt8) (len : UInt32) (gateway : List UInt8) :
    Within (ip6Info address len gateway) (16 ≤ address.length ∧ 16 ≤ gateway.length) :=
  ((within_ip6Addr address).bind fun _ => (within_ip6Addr gateway).bind fun _ => .ok _).congr
    (by simp)

/-! ## Stored settings -/

/-- Every value of the type that a key has satisfies the condition. -/
def Each {t : SettingType} (m : SettingsMap) (group key : String) (C : t.Val → Prop) : Prop :=
  ∀ p, m.lookup group = some p → ∀ x, p.lookup key = some ⟨t, x⟩ → C x

/-- The rows of the group ipv4 have an address, a length and a gateway. -/
def Fits4 (m : SettingsMap) : Prop :=
  let fits (rows : List (List UInt32)) := ∀ r ∈ rows, 3 ≤ r.length
  Each (t := .uint32Lists) m "ipv4" "addresses" fits ∧
    Each (t := .uint32Lists) m "ipv4" "routes" fits

/-- The addresses, gateways and name servers of the group ipv6 have sixteen bytes. -/
def Fits6 (m : SettingsMap) : Prop :=
  (Each (t := .ip6Addresses) m "ipv6" "addresses"
    fun rows : List (List UInt8 × UInt32 × List UInt8) =>
      ∀ r ∈ rows, 16 ≤ r.1.length ∧ 16 ≤ r.2.2.length) ∧
  (Each (t := .ip6Routes) m "ipv6" "routes"
    fun rows : List (List UInt8 × UInt32 × List UInt8 × UInt32) =>
      ∀ r ∈ rows, 16 ≤ r.1.length ∧ 16 ≤ r.2.2.1.length) ∧
  Each (t := .byteLists) m "ipv6" "dns" fun rows : List (List UInt8) => ∀ r ∈ rows, 16 ≤ r.length

theorem Group.types_of_find {μ : Type} [DecidableEq μ] {g : Group μ} {m : SettingsMap}
    {r : g.Record} (h : g.find m = .ok r) {l : List (String × SettingType)}
    (hl : l ⊆ g.reads.map fun e => (e.1, g.type e.2)) {p : SettingPairs}
    (hp : m.lookup g.key = some p) : ∀ e ∈ l, ∀ v, p.lookup e.1 = some v → v.1 = e.2 := by
  rw [Group.find, hp] at h
  suffices hreads : ∀ e ∈ g.reads, ∀ v, p.lookup e.1 = some v → v.1 = g.type e.2 by
    intro e he
    obtain ⟨e', he', rfl⟩ := mem_map.mp (hl he)
    exact hreads e' he'
  refine (Except.exists_foldlM_ok (fun r e => ?_) g.reads g.empty).mp ⟨r, h⟩
  unfold settingValue
  cases p.lookup e.1 with
  | none => simp
  | some v => by_cases hv : v.1 = g.type e.2 <;> simp [Variant.read, hv, Except.map]

namespace Family

variable {f : Family} {m : SettingsMap}

/-- The method is supported, if the group is there. -/
def Supported (f : Family) (m : SettingsMap) : Prop :=
  ∀ p, m.lookup f.key = some p → ∃ bit, f.methods p = .ok bit

theorem methods_ne_outside (p : SettingPairs) : f.methods p ≠ .error .outside := by
  unfold methods fromVariant
  cases p.lookup "method" with
  | none => simp
  | some v =>
    cases hv : v.read .string with
    | error e => simp [hv, Except.mapError, bind, Except.bind]
    | ok method => cases hbit : f.method method <;>
        simp [hv, hbit, Except.mapError, bind, Except.bind]

/-- The values of the keys that are read have the type they are read at. -/
def Typed (f : Family) (m : SettingsMap) : Prop :=
  ∀ p, m.lookup f.key = some p → ∀ e ∈ [("addresses", f.addressType), ("routes", f.routeType),
    ("dns", f.dnsType), ("dns-search", .strings)], ∀ v, p.lookup e.1 = some v → v.1 = e.2

variable {A : f.addressType.Val → Prop} {R : f.routeType.Val → Prop} {D : f.dnsType.Val → Prop}
  (hA : ∀ x, Within (f.addresses x) (A x)) (hR : ∀ x, Within (f.routes x) (R x))
  (hD : ∀ x, Within (f.dns x) (D x)) (ht : f.Typed m) (c : L3Conf)
include hA hR hD ht

theorem within_parse {p : SettingPairs} (hp : m.lookup f.key = some p) {bit : Option Nat}
    (hbit : f.methods p = .ok bit) : Within (f.parse p c) (Each m f.key "addresses" A ∧
      Each m f.key "routes" R ∧ Each m f.key "dns" D) := by
  have ht := ht p hp
  simp only [forall_mem_cons] at ht
  obtain ⟨haddresses, hroutes, hdns, hdomains, -⟩ := ht
  rw [parse, hbit]
  refine ((Within.ok bit).bind fun _ => (Within.field hA haddresses).bind fun _ =>
    (Within.field hR hroutes).bind fun _ => (Within.field hD hdns).bind fun _ =>
    (Within.field (fun x => .ok x) hdomains).bind fun _ => .ok _).congr ?_
  simp [Each, hp]

theorem conf_cases : (¬ f.Supported m ∧ ∃ what, f.conf m c = .error (.thrown what)) ∨
    f.Supported m ∧ Within (f.conf m c) (Each m f.key "addresses" A ∧ Each m f.key "routes" R ∧
      Each m f.key "dns" D) := by
  cases hp : m.lookup f.key with
  | none =>
    refine .inr ⟨by simp [Supported, hp], .inl ⟨by simp [Each, hp], c, ?_⟩⟩
    rw [conf, hp]
    rfl
  | some p =>
    rw [conf, hp, Option.elim_some]
    cases hmethods : f.methods p with
    | ok bit =>
      exact .inr ⟨by simp [Supported, hp, hmethods], within_parse hA hR hD ht c hp hmethods⟩
    | error e =>
      cases e with
      | thrown what =>
        refine .inl ⟨by simp [Supported, hp, hmethods], what, ?_⟩
        rw [parse, hmethods]
        rfl
      | outside => exact absurd hmethods (f.methods_ne_outside p)

end Family

/-- No absent optional is read and no element outside of its vector. -/
structure TranslatedSafely (m : SettingsMap) : Prop where
  supplicant : ∀ s, ConnectionSettings.fromMap m = .ok s → ∀ a, s.supplicantConf ≠ .error a
  l3 : l3Conf m ≠ .error .outside

theorem l3Conf_ne_outside_iff {m : SettingsMap} (h₄ : Family.ipv4.Typed m)
    (h₆ : Family.ipv6.Typed m) : l3Conf m ≠ .error .outside ↔
      (Family.ipv4.Supported m → Fits4 m ∧ (Family.ipv6.Supported m → Fits6 m)) := by
  have hfits₄ := Family.conf_cases (f := .ipv4) (Within.mapM within_ip4Info)
    (Within.mapM within_ip4Info) (fun _ => .ok _) h₄ {}
  have hfits₆ := Family.conf_cases (f := .ipv6)
    (Within.mapM fun r => within_ip6Info r.1 r.2.1 r.2.2)
    (Within.mapM fun r => within_ip6Info r.1 r.2.1 r.2.2.1) (Within.mapM within_ip6Addr) h₆
  change ∀ c, _ ∨ _ ∧ Within _ (Fits6 m) at hfits₆
  unfold l3Conf
  rcases hfits₄ with ⟨hs, what, hc⟩ | ⟨hs, ⟨⟨haddr, hroute, -⟩, c, hc⟩ | ⟨hfit, hc⟩⟩
  · simp [hc, hs, bind, Except.bind]
  · have hfit : Fits4 m := ⟨haddr, hroute⟩
    rcases hfits₆ c with ⟨hs', what, hc'⟩ | ⟨hs', ⟨hfit', c', hc'⟩ | ⟨hfit', hc'⟩⟩ <;>
      simp [*, bind, Except.bind]
  · have hfit : ¬ Fits4 m := fun h => hfit ⟨h.1, h.2, fun _ _ _ _ => trivial⟩
    simp [hc, hs, hfit, bind, Except.bind]

theorem Settings.fromMap_of_addConnection {st st' : Settings} {m : SettingsMap} {path : String}
    (h : addConnection m st = .ok path st') : ∃ s, ConnectionSettings.fromMap m = .ok s := by
  cases hs : ConnectionSettings.fromMap m with
  | ok s => exact ⟨s, rfl⟩
  | error e =>
    simp only [addConnection, newConnection, writeSettings, hs] at h
    split at h
    · cases h
    · split at h <;> cases h

/-- Settings that `AddConnection` has accepted are translated safely exactly if `key-mgmt` is given
with LEAP, the type of the connection and a `ca-cert` beside `phase2-ca-cert` are given with 802.1X,
and the rows and addresses of groups with a supported method are long enough. -/
theorem translatedSafely_iff (m : SettingsMap) (st : Settings) {st' : Settings} {path : String}
    (h : Settings.addConnection m st = .ok path st') : TranslatedSafely m ↔
      (∀ s, ConnectionSettings.fromMap m = .ok s →
        (s.isLeap → s.keyMgmt.isSome) ∧ (s.is8021x → (s.setCon .type).isSome ∧
          ((s.set8021x .phase2CaCert).isSome → (s.set8021x .caCert).isSome))) ∧
      (Family.ipv4.Supported m → Fits4 m ∧ (Family.ipv6.Supported m → Fits6 m)) := by
  obtain ⟨s, hs⟩ := Settings.fromMap_of_addConnection h
  simp only [ConnectionSettings.fromMap, Except.bind_eq_ok] at hs
  obtain ⟨-, -, r₄, h₄, r₆, h₆, -⟩ := hs
  have htyped₄ : Family.ipv4.Typed m := fun _ => Group.types_of_find h₄ (by decide)
  have htyped₆ : Family.ipv6.Typed m := fun _ => Group.types_of_find h₆ (by decide)
  rw [← l3Conf_ne_outside_iff htyped₄ htyped₆]
  exact ⟨fun h =>
    ⟨fun s hs => ConnectionSettings.supplicantConf_ne_error_iff.mp (h.supplicant s hs),
    h.l3⟩, fun h =>
    ⟨fun s hs => ConnectionSettings.supplicantConf_ne_error_iff.mpr (h.1 s hs), h.2⟩⟩

/-- A connection with one row of addresses. -/
def sampleRow (row : List UInt32) : SettingsMap :=
  (Settings.sampleProperties "home").insert "ipv4"
    ((Finmap.singleton "method" ⟨.string, "manual"⟩).insert "addresses" ⟨.uint32Lists, [row]⟩)

theorem translatedSafely_home :
    let address : List UInt8 := replicate 16 0xfe
    let row : List UInt8 × UInt32 × List UInt8 := (address, 64, address)
    TranslatedSafely (((sampleRow [0x0a000002, 24, 0x0a000001]).insert "ipv6"
      ((Finmap.singleton "method" ⟨.string, "manual"⟩).insert "addresses"
        ⟨.ip6Addresses, [row]⟩)).insert "802-11-wireless-security"
      ((Finmap.singleton "key-mgmt" ⟨.string, "wpa-psk"⟩).insert "auth-alg"
        ⟨.string, "leap"⟩)) := by
  refine (translatedSafely_iff _ Settings.sampleSettings rfl).mpr
    ⟨fun s hs => ?_, fun _ => ⟨⟨?_, ?_⟩, fun _ => ⟨?_, ?_, ?_⟩⟩⟩
  · obtain rfl := Except.ok.inj (hs.symm.trans rfl)
    exact ⟨fun _ => rfl, fun h => absurd h (by decide)⟩
  all_goals
    refine fun p hp x hx => ?_
    cases hp
    cases hx
  all_goals decide

/-- The row is read though it is empty. -/
theorem emptyRow_read :
    (Settings.addConnection (sampleRow []) Settings.sampleSettings).isOk = true ∧
      ¬ TranslatedSafely (sampleRow []) :=
  ⟨rfl, fun h => h.l3 rfl⟩

end Odtone.NetworkManager
