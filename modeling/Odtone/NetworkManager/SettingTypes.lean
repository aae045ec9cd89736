import Mathlib.Data.Finmap

/-! # Connection settings

The settings of a connection come from D-Bus as a map of groups, each a map from keys to variants.
`connection_settings` keeps them in one `struct` a group, whose members are optional, and stores
them in a file. There are three tables for each group: which key `from_map` reads into which member,
which members `serialize` archives, and which key `to_map` writes a member to.

A group is its tables here, and a `struct` assigns to every member of its group a value of its type
or none. The archives are taken to be lossless: a member that is archived is read back as it was,
and one that is not is as the constructor leaves it. -/

namespace Odtone.NetworkManager

/-! ## Values -/

/-- The types of members. -/
inductive SettingType where
  | string
  | boolean
  | int32
  | uint32
  | uint64
  | bytes
  | strings
  | uint32s
  | uint32Lists
  | byteLists
  | stringMap
  | ip6Addresses
  | ip6Routes
deriving DecidableEq

namespace SettingType

def Val : SettingType → Type
  | string => String
  | boolean => Bool
  | int32 => Int32
  | uint32 => UInt32
  | uint64 => UInt64
  | bytes => List UInt8
  | strings => List String
  | uint32s => List UInt32
  | uint32Lists => List (List UInt32)
  | byteLists => List (List UInt8)
  | stringMap => Finmap fun _ : String => String
  | ip6Addresses => List (List UInt8 × UInt32 × List UInt8)
  | ip6Routes => List (List UInt8 × UInt32 × List UInt8 × UInt32)

end SettingType

/-- `DBus::Variant`, with a value of one of these types -/
abbrev Variant := (t : SettingType) × t.Val

abbrev SettingPairs := Finmap fun _ : String => Variant

abbrev SettingsMap := Finmap fun _ : String => SettingPairs

inductive SettingError where
  | typeMismatch
deriving DecidableEq

/-- `it >> v` for a variable of type `t` -/
def Variant.read (t : SettingType) (v : Variant) : Except SettingError t.Val :=
  if h : v.1 = t then .ok (h ▸ v.2) else .error .typeMismatch

/-! ## Groups -/

structure Group (μ : Type) where
  key : String
  type : μ → SettingType
  /-- The keys that `from_map` reads. -/
  reads : List (String × μ)
  archived : List μ
  /-- The keys that `to_map` writes; in all groups but one they are those that are read. -/
  writes : List (String × μ) := reads

namespace Group

variable {μ : Type} [DecidableEq μ] (g : Group μ)

/-- The members of the `struct`. -/
abbrev Record : Type := (m : μ) → Option (g.type m).Val

/-- The `struct` after its default constructor. -/
def empty : g.Record := fun _ => none

/-- `setting_value` -/
def settingValue (p : SettingPairs) (key : String) (m : μ) (r : g.Record) :
    Except SettingError g.Record :=
  match p.lookup key with
  | none => .ok r
  | some v => (v.read (g.type m)).map fun x => Function.update r m (some x)

/-- `from_map` of a `struct` that has been constructed -/
def fromMap (p : SettingPairs) : Except SettingError g.Record :=
  g.reads.foldlM (fun r e => g.settingValue p e.1 e.2 r) g.empty

/-- `map_value` -/
def mapValue (r : g.Record) (p : SettingPairs) (key : String) (m : μ) : SettingPairs :=
  match r m with
  | none => p
  | some x => p.insert key ⟨g.type m, x⟩

/-- `to_map` -/
def toMap (r : g.Record) : SettingPairs := g.writes.foldl (fun p e => g.mapValue r p e.1 e.2) ∅

/-- What `serialize` reads back of what it has written. -/
def restored (r : g.Record) : g.Record := fun m => if m ∈ g.archived then r m else none

end Group

/-! ### connection -/

inductive ConnectionMember where
  | id | uuid | type | permissions | autoconnect | timestamp | readOnly | zone | master
  | slaveType
deriving DecidableEq

def ConnectionMember.settingType : ConnectionMember → SettingType
  | .id | .uuid | .type | .zone | .master | .slaveType => .string
  | .permissions => .strings
  | .autoconnect | .readOnly => .boolean
  | .timestamp => .uint64

/-- `settings_connection` -/
def settingsConnection : Group ConnectionMember where
  key := "connection"
  type := ConnectionMember.settingType
  reads := [
    ("id", .id), ("uuid", .uuid), ("type", .type), ("permissions", .permissions),
    ("autoconnect", .autoconnect), ("timestamp", .timestamp), ("read-only", .readOnly),
    ("zone", .zone), ("master", .master), ("slave-type", .slaveType)]
  archived := [
    .id, .uuid, .type, .permissions, .autoconnect, .timestamp, .readOnly, .zone, .master,
    .slaveType]

/-! ### ipv4 -/

inductive Ipv4Member where
  | method | dns | dnsSearch | addresses | routes | ignoreAutoRoutes | ignoreAutoDns
  | dhcpClientId | dhcpSendHostname | dhcpHostname | neverDefault | mayFail
deriving DecidableEq

def Ipv4Member.settingType : Ipv4Member → SettingType
  | .method | .dhcpClientId | .dhcpHostname => .string
  | .dns => .uint32s
  | .dnsSearch => .strings
  | .addresses | .routes => .uint32Lists
  | .ignoreAutoRoutes | .ignoreAutoDns | .dhcpSendHostname | .neverDefault | .mayFail => .boolean

/-- `settings_ipv4` -/
def settingsIpv4 : Group Ipv4Member where
  key := "ipv4"
  type := Ipv4Member.settingType
  reads := [
    ("method", .method), ("dns", .dns), ("dns-search", .dnsSearch), ("addresses", .addresses),
    ("routes", .routes), ("ignore-auto-routes", .ignoreAutoRoutes),
    ("ignore-auto-dns", .ignoreAutoDns), ("dhcp-client-id", .dhcpClientId),
    ("dhcp-send-hostname", .dhcpSendHostname), ("dhcp-hostname", .dhcpHostname),
    ("never-default", .neverDefault), ("may-fail", .mayFail)]
  archived := [
    .method, .dns, .dnsSearch, .addresses, .routes, .ignoreAutoRoutes, .ignoreAutoDns,
    .dhcpClientId, .dhcpSendHostname, .dhcpHostname, .neverDefault, .mayFail]

/-! ### ipv6 -/

inductive Ipv6Member where
  | method | dns | dnsSearch | ignoreAutoRoutes | ignoreAutoDns | neverDefault | mayFail
  | ip6Privacy | addresses | routes
deriving DecidableEq

def Ipv6Member.settingType : Ipv6Member → SettingType
  | .method => .string
  | .dns => .byteLists
  | .dnsSearch => .strings
  | .ignoreAutoRoutes | .ignoreAutoDns | .neverDefault | .mayFail => .boolean
  | .ip6Privacy => .int32
  | .addresses => .ip6Addresses
  | .routes => .ip6Routes

/-- `settings_ipv6` -/
def settingsIpv6 : Group Ipv6Member where
  key := "ipv6"
  type := Ipv6Member.settingType
  reads := [
    ("method", .method), ("dns", .dns), ("dns-search", .dnsSearch), ("addresses", .addresses),
    ("routes", .routes), ("ignore-auto_routes", .ignoreAutoRoutes),
    ("ignore-auto_dns", .ignoreAutoDns), ("never-default", .neverDefault), ("may-fail", .mayFail),
    ("ip6-privacy", .ip6Privacy)]
  archived := [
    .method, .dns, .dnsSearch, .addresses, .routes, .ignoreAutoRoutes, .ignoreAutoDns,
    .neverDefault, .mayFail, .ip6Privacy]

/-! ### wimax -/

inductive WimaxMember where
  | networkName | macAddress
deriving DecidableEq

def WimaxMember.settingType : WimaxMember → SettingType
  | .networkName => .string
  | .macAddress => .bytes

/-- `settings_wimax` -/
def settingsWimax : Group WimaxMember where
  key := "wimax"
  type := WimaxMember.settingType
  reads := [
    ("network-name", .networkName), ("mac-address", .macAddress)]
  archived := [
    .networkName, .macAddress]

/-! ### 802-1x -/

inductive Member8021x where
  | eap | identity | anonymousIdentity | pacFile | caCert | caPath | subjectMatch
  | altsubjectMatches | clientCert | phase1Peapver | phase1Peaplabel | phase1FastProvisioning
  | phase2Auth | phase2Autheap | phase2CaCert | phase2CaPath | phase2SubjectMatch
  | phase2AltsubjectMatches | phase2ClientCert | password | passwordFlags | passwordRaw
  | passwordRawFlags | privateKey | privateKeyPassword | privateKeyPasswordFlags
  | phase2PrivateKey | phase2PrivateKeyPassword | phase2PrivateKeyPasswordFlags | systemCaCerts
deriving DecidableEq

def Member8021x.settingType : Member8021x → SettingType
  | .eap | .altsubjectMatches | .phase2AltsubjectMatches => .strings
  | .identity | .anonymousIdentity | .pacFile | .caPath | .subjectMatch | .phase1Peapver
  | .phase1Peaplabel | .phase1FastProvisioning | .phase2Auth | .phase2Autheap
  | .phase2CaPath | .phase2SubjectMatch | .password | .privateKeyPassword
  | .phase2PrivateKeyPassword => .string
  | .caCert | .clientCert | .phase2CaCert | .phase2ClientCert | .passwordRaw | .privateKey
  | .phase2PrivateKey => .bytes
  | .passwordFlags | .passwordRawFlags | .privateKeyPasswordFlags
  | .phase2PrivateKeyPasswordFlags => .uint32
  | .systemCaCerts => .boolean

/-- `settings_8021x` -/
def settings8021x : Group Member8021x where
  key := "802-1x"
  type := Member8021x.settingType
  reads := [
    ("eap", .eap), ("identity", .identity), ("anonymous-identity", .anonymousIdentity),
    ("pac-file", .pacFile), ("ca-cert", .caCert), ("ca-path", .caPath),
    ("subject-match", .subjectMatch), ("altsubject-matches", .altsubjectMatches),
    ("client-cert", .clientCert), ("phase1-peapver", .phase1Peapver),
    ("phase1-peaplabel", .phase1Peaplabel), ("phase1-fast-provisioning", .phase1FastProvisioning),
    ("phase2-auth", .phase2Auth), ("phase2-autheap", .phase2Autheap),
    ("phase2-ca-cert", .phase2CaCert), ("phase2-ca-path", .phase2CaPath),
    ("phase2-subject-match", .phase2SubjectMatch),
    ("phase2-altsubject-matches", .phase2AltsubjectMatches),
    ("phase2-client-cert", .phase2ClientCert), ("password", .password),
    ("password-flags", .passwordFlags), ("password-raw", .passwordRaw),
    ("password-raw-flags", .passwordRawFlags), ("private-key", .privateKey),
    ("private-key-password", .privateKeyPassword),
    ("private-key-password-flags", .privateKeyPasswordFlags),
    ("phase2-private-key", .phase2PrivateKey),
    ("phase2-private-key-password", .phase2PrivateKeyPassword),
    ("phase2-private-key-password-flags", .phase2PrivateKeyPasswordFlags),
    ("system-ca-certs", .systemCaCerts)]
  archived := [
    .eap, .identity, .anonymousIdentity, .pacFile, .caCert, .caPath, .subjectMatch,
    .altsubjectMatches, .clientCert, .phase1Peapver, .phase1Peaplabel, .phase1FastProvisioning,
    .phase2Auth, .phase2Autheap, .phase2CaCert, .phase2CaPath, .phase2SubjectMatch,
    .phase2AltsubjectMatches, .phase2ClientCert, .password, .passwordFlags, .passwordRaw,
    .passwordRawFlags, .privateKey, .privateKeyPassword, .privateKeyPasswordFlags,
    .phase2PrivateKey, .phase2PrivateKeyPassword, .phase2PrivateKeyPasswordFlags, .systemCaCerts]

/-! ### 802-3-ethernet -/

inductive EthernetMember where
  | port | speed | duplex | autoNegotiate | macAddress | clonedMacAddress | macAddressBlacklist
  | mtu | s390Subchannels | s390Nettype | s390Options
deriving DecidableEq

def EthernetMember.settingType : EthernetMember → SettingType
  | .port | .duplex | .s390Nettype => .string
  | .speed | .mtu => .uint32
  | .autoNegotiate => .boolean
  | .macAddress | .clonedMacAddress => .bytes
  | .macAddressBlacklist | .s390Subchannels => .strings
  | .s390Options => .stringMap

/-- `settings_ethernet` -/
def settingsEthernet : Group EthernetMember where
  key := "802-3-ethernet"
  type := EthernetMember.settingType
  reads := [
    ("port", .port), ("speed", .speed), ("duplex", .duplex), ("auto-negotiate", .autoNegotiate),
    ("mac-address", .macAddress), ("cloned-mac-address", .clonedMacAddress),
    ("mac-address-blacklist", .macAddressBlacklist), ("mtu", .mtu),
    ("s390-subchannels", .s390Subchannels), ("s390-nettype", .s390Nettype),
    ("s390-options", .s390Options)]
  archived := [
    .port, .speed, .duplex, .autoNegotiate, .macAddress, .clonedMacAddress, .macAddressBlacklist,
    .mtu, .s390Subchannels, .s390Nettype, .s390Options]
  writes := [
    ("port", .port), ("speed", .speed), ("duplex", .duplex), ("auto-negotiate", .autoNegotiate),
    ("mac-address", .macAddress), ("cloned-mac-address", .clonedMacAddress),
    ("mac_address-blacklist", .macAddressBlacklist), ("mtu", .mtu),
    ("s390-subchannels", .s390Subchannels), ("s390-nettype", .s390Nettype),
    ("s390-options", .s390Options)]

/-! ### 802-11-wireless -/

inductive WirelessMember where
  | ssid | mode | band | channel | bssid | rate | txPower | macAddress | clonedMacAddress
  | macAddressBlacklist | mtu | seenBssids | security
deriving DecidableEq

def WirelessMember.settingType : WirelessMember → SettingType
  | .ssid | .bssid | .macAddress | .clonedMacAddress => .bytes
  | .mode | .band | .security => .string
  | .channel | .rate | .txPower | .mtu => .uint32
  | .macAddressBlacklist | .seenBssids => .strings

/-- `settings_wireless` -/
def settingsWireless : Group WirelessMember where
  key := "802-11-wireless"
  type := WirelessMember.settingType
  reads := [
    ("ssid", .ssid), ("mode", .mode), ("band", .band), ("channel", .channel), ("bssid", .bssid),
    ("rate", .rate), ("tx-power", .txPower), ("mac-address", .macAddress),
    ("cloned-mac-address", .clonedMacAddress), ("mac-address-blacklist", .macAddressBlacklist),
    ("mtu", .mtu), ("seen-bssids", .seenBssids), ("security", .security)]
  archived := [
    .ssid, .mode, .band, .channel, .bssid, .rate, .txPower, .macAddress, .clonedMacAddress,
    .macAddressBlacklist, .mtu, .seenBssids, .security]

/-! ### 802-11-wireless-security -/

inductive WirelessSecurityMember where
  | keyMgmt | wepTxKeyidx | authAlg | proto | pairwise | group | leapUsername | wepKey0 | wepKey1
  | wepKey2 | wepKey3 | wepKeyFlags | wepKeyType | psk | pskFlags | leapPassword
  | leapPasswordFlags
deriving DecidableEq

def WirelessSecurityMember.settingType : WirelessSecurityMember → SettingType
  | .keyMgmt | .authAlg | .leapUsername | .wepKey0 | .wepKey1 | .wepKey2 | .wepKey3 | .psk
  | .leapPassword => .string
  | .wepTxKeyidx | .wepKeyFlags | .wepKeyType | .pskFlags | .leapPasswordFlags => .uint32
  | .proto | .pairwise | .group => .strings

/-- `settings_wireless_security` -/
def settingsWirelessSecurity : Group WirelessSecurityMember where
  key := "802-11-wireless-security"
  type := WirelessSecurityMember.settingType
  reads := [
    ("key-mgmt", .keyMgmt), ("wep-tx-keyidx", .wepTxKeyidx), ("auth-alg", .authAlg),
    ("proto", .proto), ("pairwise", .pairwise), ("group", .group), ("leap-username", .leapUsername),
    ("wep-key0", .wepKey0), ("wep-key1", .wepKey1), ("wep-key2", .wepKey2), ("wep-key3", .wepKey3),
    ("wep-key-flags", .wepKeyFlags), ("wep-key-type", .wepKeyType), ("psk", .psk),
    ("psk-flags", .pskFlags), ("leap-password", .leapPassword),
    ("leap-password-flags", .leapPasswordFlags)]
  archived := [
    .keyMgmt, .wepTxKeyidx, .authAlg, .proto, .pairwise, .group, .leapUsername, .wepKey0, .wepKey1,
    .wepKey2, .wepKey3, .wepKeyFlags, .wepKeyType, .psk, .pskFlags, .leapPassword,
    .leapPasswordFlags]

/-! ## All groups -/

/-- `connection_settings` -/
structure ConnectionSettings where
  setCon : settingsConnection.Record := settingsConnection.empty
  setIpv4 : settingsIpv4.Record := settingsIpv4.empty
  setIpv6 : settingsIpv6.Record := settingsIpv6.empty
  setWimax : settingsWimax.Record := settingsWimax.empty
  setEthernet : settingsEthernet.Record := settingsEthernet.empty
  setWireless : settingsWireless.Record := settingsWireless.empty
  setWirelessSecurity : settingsWirelessSecurity.Record := settingsWirelessSecurity.empty
  set8021x : settings8021x.Record := settings8021x.empty

/-- One branch of `connection_settings::from_map`. -/
def Group.find {μ : Type} [DecidableEq μ] (g : Group μ) (m : SettingsMap) :
    Except SettingError g.Record :=
  match m.lookup g.key with
  | none => .ok g.empty
  | some p => g.fromMap p

/-- One step of `connection_settings::to_map`. -/
def Group.put {μ : Type} (g : Group μ) (r : g.Record) (m : SettingsMap) : SettingsMap :=
  let s := g.toMap r
  if s.keys.card > 0 then m.insert g.key s else m

namespace ConnectionSettings

/-- `connection_settings::from_map`, which has no branch for `wimax` -/
def fromMap (m : SettingsMap) : Except SettingError ConnectionSettings := do
  let setCon ← settingsConnection.find m
  let setIpv4 ← settingsIpv4.find m
  let setIpv6 ← settingsIpv6.find m
  let setEthernet ← settingsEthernet.find m
  let setWireless ← settingsWireless.find m
  let setWirelessSecurity ← settingsWirelessSecurity.find m
  let set8021x ← settings8021x.find m
  return { setCon, setIpv4, setIpv6, setEthernet, setWireless, setWirelessSecurity, set8021x }

/-- What `connection_settings::serialize` reads back of what it has written. -/
def restored (s : ConnectionSettings) : ConnectionSettings where
  setCon := settingsConnection.restored s.setCon
  setIpv4 := settingsIpv4.restored s.setIpv4
  setIpv6 := settingsIpv6.restored s.setIpv6
  setWimax := settingsWimax.restored s.setWimax
  setEthernet := settingsEthernet.restored s.setEthernet
  setWireless := settingsWireless.restored s.setWireless
  setWirelessSecurity := settingsWirelessSecurity.restored s.setWirelessSecurity
  set8021x := settings8021x.restored s.set8021x

/-- `connection_settings::to_map` -/
def toMap (s : ConnectionSettings) : SettingsMap :=
  settings8021x.put s.set8021x <| settingsWimax.put s.setWimax <|
  settingsWirelessSecurity.put s.setWirelessSecurity <| settingsWireless.put s.setWireless <|
  settingsEthernet.put s.setEthernet <| settingsIpv6.put s.setIpv6 <|
  settingsIpv4.put s.setIpv4 <| settingsConnection.put s.setCon ∅

end ConnectionSettings

end Odtone.NetworkManager
