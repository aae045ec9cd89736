import Odtone.NetworkManager.SettingTypes
import Odtone.Support.Hex

/-! # Translation to wpa_supplicant

`Connection::supplicant_conf` fills a map with what wpa_supplicant is to be configured with. It is
the list of its assignments here, in their order: a key has the value last assigned to it.

A value is the bytes of a string. Taking the value of an optional that is absent is a failure of the
model, in the place where the source does it.
-/

namespace Odtone.NetworkManager

open List Option

/-- The bytes of a `std::string`. -/
def text (s : String) : List UInt8 := s.toUTF8.data.toList

/-- `boost::to_upper` -/
def toUpper (s : List UInt8) : List UInt8 :=
  s.map fun c => if 0x61 ≤ c ∧ c ≤ 0x7a then c - 0x20 else c

/-- `boost::iequals` -/
def iequals (a b : String) : Bool := toUpper (text a) == toUpper (text b)

/-- `boost::join` -/
def join (sep : String) (l : List String) : List UInt8 := (text sep).intercalate (l.map text)

/-! ## Keys -/

/-- `hex2byte` -/
def hex2byte (hex : List UInt8) : UInt8 := UInt8.ofNat ((Hex.scan hex).getD 0 % 0x100).toNat

/-- `hex2bin` -/
def hex2bin : List UInt8 → List UInt8
  | [] | [_] => []
  | x :: y :: hex => hex2byte [x, y] :: hex2bin hex

/-- `get_key` -/
def getKey (key : List UInt8) (keyType : UInt32) : List UInt8 :=
  if keyType = 0 then
    if key.length = 10 ∨ key.length = 26 then hex2bin key
    else if key.length = 5 ∨ key.length = 13 then key
    else []
  else []

/-! ## The translation -/

/-- Optionals whose value is taken without a test. -/
inductive Absent where
  | keyMgmt
  | type
  | caCert
deriving DecidableEq

/-- `boost::optional::get` -/
def Absent.get {α : Type} (a : Absent) (o : Option α) : Except Absent α := o.elim (.error a) .ok

/-- Keys of the map with the value assigned to them, if one is. -/
abbrev Supp := List (String × Option (List UInt8))

/-- The value of a key at the end. -/
def Supp.get (supp : Supp) (key : String) : Option (List UInt8) :=
  ((supp.filter (·.1 = key)).filterMap (·.2)).getLast?

/-- What stands behind `k_file_discriminator`. -/
def filePath (v : List UInt8) : Option (List UInt8) :=
  if (text "file://").isPrefixOf v then some (v.drop 7) else none

/-- The parts that are present, with a blank between them. -/
def spaced (parts : List (Option (List UInt8))) : Option (List UInt8) :=
  if parts.all (·.isNone) then none else some ([0x20].intercalate (parts.filterMap id))

/-- `setting_wireless` -/
def suppWireless (w : settingsWireless.Record) : Supp := [ ("scan_ssid", text "1"),
  ("ssid", w .ssid),
  ("bssid", (w .bssid : Option (List UInt8)).map fun v => [0x3a].intercalate
    (v.map fun b => [Hex.lower (b.toNat / 16), Hex.lower (b.toNat % 16)])),
  ("key_mgmt", text "NONE")]

/-- `wep_key0` to `wep_key3` -/
def wepKeys (w : settingsWirelessSecurity.Record) : List (String × Option String) := [
  ("wep_key0", w .wepKey0), ("wep_key1", w .wepKey1), ("wep_key2", w .wepKey2),
  ("wep_key3", w .wepKey3)]

/-- `setting_wireless_security` with a `key-mgmt` -/
def suppSecurity (w : settingsWirelessSecurity.Record) (keyMgmt : String) : Supp :=
  let wpa := iequals keyMgmt "wpa-none" || iequals keyMgmt "wpa-psk" || iequals keyMgmt "wpa-eap"
  let upper (v : Option (List String)) : Option (List UInt8) :=
    if wpa then v.map fun l => toUpper (join " " l) else none
  let wep := iequals keyMgmt "none"
  let keyType : UInt32 := getD (w .wepKeyType) 1
  [ ("key_mgmt", some (toUpper (text keyMgmt))), ("proto", upper (w .proto)),
    ("pairwise", upper (w .pairwise)),
    ("group", upper (w .group))] ++
  ((wepKeys w).map fun e =>
    (e.1, if wep then e.2.map fun k => getKey (text k) keyType else none)) ++
  [("wep_tx_keyidx", if wep then (w .wepTxKeyidx : Option UInt32).map fun n =>
      text (toString n.toNat)
    else none)]

/-- `auth-alg` leap -/
def suppLeap (w : settingsWirelessSecurity.Record) : Supp := [
  ("identity", (w .leapUsername : Option String).map text),
  ("password", (w .leapPassword : Option String).map text),
  ("eap", text "LEAP")]

/-- `8021x`, for a connection of the type -/
def supp8021x (x : settings8021x.Record) (type : Option String) : Except Absent Supp := do
  let named (name : String) (v : Option (List UInt8)) := v.map (text name ++ ·)
  let str (v : Option String) := v.map text
  let strs (v : Option (List String)) (sep : String) := v.map (join sep)
  let file (v : Option (List UInt8)) := v.bind filePath
  let type ← Absent.type.get type
  let wired (v : String) := if iequals type "802-3-ethernet" then some (text v) else none
  -- the test is of `phase2-ca-cert`, but `ca-cert` is taken
  let cert2 ← Option.elim (x .phase2CaCert) (.ok none) fun _ =>
    (Absent.caCert.get (x .caCert)).map filePath
  return [ ("password", (str (x .password)).or (x .passwordRaw)), ("key_mgmt", wired "IEEE8021X"),
    ("eapol_flags", wired "0"),
    ("ap_scan", wired "0"),
    ("eap", (strs (x .eap) " ").map toUpper),
    ("fragment_size", text "1300"),
    ("phase1", spaced [
      named "peapver=" (str (x .phase1Peapver)), named "peaplabel=" (str (x .phase1Peaplabel)),
      named "fast_provisioning=" (str (x .phase1FastProvisioning))]),
    ("phase2", spaced [
      named "auth=" ((str (x .phase2Auth)).map toUpper),
      named "autheap=" ((str (x .phase2Autheap)).map toUpper)]),
    ("pac_file", str (x .pacFile)),
    ("ca_path2", str (x .caPath)),
    ("ca_path2", str (x .phase2CaPath)),
    ("ca_cert", file (x .caCert)),
    ("ca_cert2", cert2),
    ("subject_match", str (x .subjectMatch)),
    ("subject_match2", str (x .phase2SubjectMatch)),
    ("altsubject_match", strs (x .altsubjectMatches) ";"),
    ("altsubject_match2", strs (x .phase2AltsubjectMatches) ";"),
    ("private_key", file (x .privateKey)),
    ("private_key_passwd", (file (x .privateKey)).bind fun _ => str (x .privateKeyPassword)),
    ("client_cert", (file (x .privateKey)).bind fun _ => x .clientCert),
    ("private_key2", file (x .phase2PrivateKey)),
    ("private_key_passwd2",
      (file (x .phase2PrivateKey)).bind fun _ => str (x .phase2PrivateKeyPassword)),
    ("client_cert2", (file (x .phase2PrivateKey)).bind fun _ => x .phase2ClientCert),
    ("identity", str (x .identity)),
    ("anonymous_identity", str (x .anonymousIdentity))]

namespace ConnectionSettings

def keyMgmt (s : ConnectionSettings) : Option String := s.setWirelessSecurity .keyMgmt

def wepKeyType (s : ConnectionSettings) : Option UInt32 := s.setWirelessSecurity .wepKeyType

def psk (s : ConnectionSettings) : Option String := s.setWirelessSecurity .psk

def isLeap (s : ConnectionSettings) : Bool :=
  Option.any (fun a => iequals a "leap") (s.setWirelessSecurity .authAlg)

/-- The branch that goes on to `8021x` is taken. -/
def is8021x (s : ConnectionSettings) : Bool :=
  !s.isLeap && s.keyMgmt.any fun k => iequals k "ieee8021x" || iequals k "wpa-eap"

/-- What is assigned in the branches under `auth-alg`. -/
def suppAuth (s : ConnectionSettings) : Except Absent Supp := do
  if s.isLeap then
    if s.keyMgmt.isSome || !iequals (← Absent.keyMgmt.get s.keyMgmt) "ieee8021x" then
      return suppLeap s.setWirelessSecurity
    else return []
  else if s.is8021x then supp8021x s.set8021x (s.setCon .type)
  else return []

/-- The last branch. -/
def suppPsk (s : ConnectionSettings) : Supp := [ ("psk", s.psk.map fun psk =>
    if (text psk).length = 64 then hex2bin (text psk) else text psk)]

/-- `Connection::supplicant_conf` -/
def supplicantConf (s : ConnectionSettings) : Except Absent Supp := do
  return suppWireless s.setWireless ++ s.keyMgmt.elim [] (suppSecurity s.setWirelessSecurity) ++
    (← s.suppAuth) ++ s.suppPsk

/-- The value of a key in the map that is returned. -/
def conf (s : ConnectionSettings) (key : String) : Option (List UInt8) :=
  s.supplicantConf.toOption.bind (·.get key)

end ConnectionSettings

/-! ## Key material -/

/-- Pairs of digits and the bytes they stand for. -/
def IsHexOf (hex bin : List UInt8) : Prop :=
  ∃ gs : List (List UInt8), hex = gs.flatten ∧ Forall₂ Hex.IsByte gs bin

theorem hex2byte_eq {cs : List UInt8} {b : UInt8} (h : Hex.IsByte cs b) : hex2byte cs = b := by
  obtain ⟨x, y, u, v, rfl, hx, hy, rfl⟩ := h
  have hu := Hex.digit?_lt hx
  have hv := Hex.digit?_lt hy
  have hvalue : Hex.value [x, y] = u * 16 + v := by simp [Hex.value, hx, hy]
  have hscan := Hex.scan_digits (cons_ne_nil x [y]) (by simp [hx, hy]) (by rw [hvalue]; omega)
  have hmod : ((u * 16 + v : Nat) % 0x100 : Int).toNat = u * 16 + v := by omega
  rw [hex2byte, hscan, hvalue, getD_some, hmod]

theorem hex2bin_eq {hex bin : List UInt8} (h : IsHexOf hex bin) : hex2bin hex = bin := by
  obtain ⟨gs, rfl, hgs⟩ := h
  induction hgs with
  | nil => rfl
  | @cons g b gs bs hg hgs ih =>
    have hbyte := hex2byte_eq hg
    obtain ⟨x, y, u, v, rfl, -, -, -⟩ := hg
    simp [hex2bin, hbyte, ih]

theorem length_hex2bin (hex : List UInt8) : (hex2bin hex).length = hex.length / 2 := by
  fun_induction hex2bin hex with
  | case1 => rfl
  | case2 => simp
  | case3 x y hex ih =>
    simp only [length_cons, ih]
    omega

/-! ## The value of a key -/

namespace Supp

variable {supp supp' : Supp} {key : String}

theorem get_append : (supp ++ supp').get key = (supp'.get key).or (supp.get key) := by
  simp [get, getLast?_append]

theorem get_of_disjoint {l : List String} (hkey : key ∈ l) (h : supp.all (·.1 ∉ l) = true) :
    supp.get key = none := by
  have hfilter : supp.filter (·.1 = key) = [] := by
    refine filter_eq_nil_iff.mpr fun e he hek => ?_
    have hne : e.1 ∉ l := by simpa using all_eq_true.mp h e he
    exact hne (of_decide_eq_true hek ▸ hkey)
  simp [get, hfilter]

end Supp

namespace ConnectionSettings

variable {s : ConnectionSettings} {key : String}

/-- The optionals that are read without a test are given. -/
def Given (s : ConnectionSettings) : Prop :=
  (s.isLeap → s.keyMgmt.isSome) ∧ (s.is8021x → (s.setCon .type).isSome ∧
    ((s.set8021x .phase2CaCert).isSome → (s.set8021x .caCert).isSome))

/-- The branches under `auth-alg` fail, or assign no key material. -/
theorem suppAuth_cases (s : ConnectionSettings) :
    (¬ s.Given ∧ ∃ a, s.suppAuth = .error a) ∨ s.Given ∧ ∃ auth, s.suppAuth = .ok auth ∧
      auth.all (·.1 ∉ ["wep_key0", "wep_key1", "wep_key2", "wep_key3", "psk"]) = true := by
  have hexcl : s.isLeap → ¬ s.is8021x := by simp +contextual [is8021x]
  unfold suppAuth Given
  by_cases hleap : s.isLeap
  · cases hk : s.keyMgmt with
    | none => exact .inl ⟨by simp [hleap], .keyMgmt, by simp [hleap]; rfl⟩
    | some k => exact .inr ⟨by simp [hexcl hleap], _, by simp [hleap]; rfl, rfl⟩
  · by_cases hx : s.is8021x
    · simp only [hleap, hx, supp8021x]
      cases htype : s.setCon .type with
      | none => exact .inl ⟨by simp, .type, rfl⟩
      | some type =>
        cases hp : s.set8021x .phase2CaCert with
        | none => exact .inr ⟨by simp, _, rfl, rfl⟩
        | some p =>
          cases hc : s.set8021x .caCert with
          | none => exact .inl ⟨by simp, .caCert, rfl⟩
          | some c => exact .inr ⟨by simp, _, rfl, rfl⟩
    · exact .inr ⟨by simp [hleap, hx], [], by simp [hleap, hx]; rfl, rfl⟩

theorem supplicantConf_ne_error_iff : (∀ a, s.supplicantConf ≠ .error a) ↔ s.Given := by
  unfold supplicantConf
  rcases s.suppAuth_cases with ⟨hno, a, heq⟩ | ⟨hyes, auth, heq, -⟩
  · exact ⟨fun h => absurd (by rw [heq]; rfl) (h a), fun h => absurd h hno⟩
  · rw [heq]
    exact ⟨fun _ => hyes, fun _ _ => nofun⟩

/-- The value of a key for which nothing is assigned under `auth-alg`. -/
theorem conf_eq (h : s.Given) (hk : key ∈ ["wep_key0", "wep_key1", "wep_key2", "wep_key3", "psk"]) :
    s.conf key = (s.suppPsk.get key).or
      (((s.keyMgmt.elim [] (suppSecurity s.setWirelessSecurity) : Supp).get key).or
        ((suppWireless s.setWireless).get key)) := by
  rcases s.suppAuth_cases with ⟨hno, -⟩ | ⟨-, auth, heq, hauth⟩
  · exact absurd h hno
  · have hconf : s.supplicantConf = .ok (suppWireless s.setWireless ++
        s.keyMgmt.elim [] (suppSecurity s.setWirelessSecurity) ++ auth ++ s.suppPsk) := by
      rw [supplicantConf, heq]
      rfl
    simp only [conf, hconf, Except.toOption, bind_some, Supp.get_append,
      Supp.get_of_disjoint hk hauth, none_or]

theorem given_of_conf {v : List UInt8} (h : s.conf key = some v) : s.Given := by
  refine supplicantConf_ne_error_iff.mp fun a ha => ?_
  rw [conf, ha] at h
  cases h

/-! ## Key material -/

theorem conf_psk (h : s.Given) {psk : String} (hpsk : s.psk = some psk) :
    s.conf "psk" = some (if (text psk).length = 64 then hex2bin (text psk) else text psk) := by
  rw [conf_eq h (by simp), suppPsk, hpsk]
  rfl

/-- With `key-mgmt` none nothing is taken that may be absent. -/
theorem given_of_none {k : String} (hk : s.keyMgmt = some k) (hnone : iequals k "none") :
    s.Given := by
  have hne : iequals k "ieee8021x" = false ∧ iequals k "wpa-eap" = false := by
    simp only [iequals, beq_iff_eq] at hnone ⊢
    rw [hnone]
    decide
  simp [Given, is8021x, hk, hne]

theorem conf_wepKey {k : String} (hk : s.keyMgmt = some k) (hnone : iequals k "none")
    {e : String × Option String} (he : e ∈ wepKeys s.setWirelessSecurity) {key : String}
    (hkey : e.2 = some key) : s.conf e.1 = some (getKey (text key) (s.wepKeyType.getD 1)) := by
  have hmem : e.1 ∈ ["wep_key0", "wep_key1", "wep_key2", "wep_key3"] := mem_map_of_mem he
  have hsec : (suppSecurity s.setWirelessSecurity k).get e.1 =
      some (getKey (text key) (s.wepKeyType.getD 1)) := by
    simp only [wepKeys, mem_cons, not_mem_nil, or_false] at he
    rcases he with rfl | rfl | rfl | rfl <;>
      simp [suppSecurity, wepKeys, Supp.get, hnone] <;>
      exact congrArg (Option.map fun k => getKey (text k) _) hkey
  have hpsk : s.suppPsk.get e.1 = none := Supp.get_of_disjoint hmem rfl
  rw [conf_eq (given_of_none hk hnone) (mem_append_left ["psk"] hmem), hpsk, hk, Option.elim_some,
    hsec]
  rfl

/-- Keys that are hexadecimal, as far as they are taken for it. -/
def IsHexKey (key bin : List UInt8) : Prop :=
  (key.length = 10 ∨ key.length = 26) ∧ IsHexOf key bin

/-- The keys are in the map as they are to be: decoded if they are hexadecimal. -/
structure KeysExact (s : ConnectionSettings) : Prop where
  wep : ∀ k, s.keyMgmt = some k → iequals k "none" → s.wepKeyType.getD 0 = 0 →
    ∀ e ∈ wepKeys s.setWirelessSecurity, ∀ key, e.2 = some key →
      ((text key).length = 5 ∨ (text key).length = 13 → s.conf e.1 = some (text key)) ∧
      ∀ bin, IsHexKey (text key) bin → s.conf e.1 = some bin
  psk : ∀ psk, s.psk = some psk →
    (∀ bin, (text psk).length = 64 → IsHexOf (text psk) bin → s.conf "psk" = some bin) ∧
    (¬ ((text psk).length = 64 ∧ ∃ bin, IsHexOf (text psk) bin) → s.conf "psk" = some (text psk))

/-- The keys are translated exactly if `wep-key-type` is given where a WEP key is, the optionals
that are read without a test are given where a `psk` is, and a `psk` of 64 characters is
hexadecimal. -/
theorem keysExact_iff (s : ConnectionSettings) : s.KeysExact ↔
    (∀ k, s.keyMgmt = some k → iequals k "none" → s.wepKeyType = none →
      ∀ e ∈ wepKeys s.setWirelessSecurity, ∀ key, e.2 = some key →
        ¬ ((text key).length = 5 ∨ (text key).length = 13) ∧ ¬ ∃ bin, IsHexKey (text key) bin) ∧
    ∀ psk, s.psk = some psk → s.Given ∧
      ((text psk).length = 64 → ∃ bin, IsHexOf (text psk) bin) := by
  constructor
  · rintro ⟨hwep, hpsk⟩
    refine ⟨fun k hk hnone htype e he key hkey => ?_, fun psk h => ?_⟩
    · obtain ⟨hplain, hhex⟩ := hwep k hk hnone (by simp [htype]) e he key hkey
      -- without a type the key is taken for a passphrase, and left empty
      have hempty : s.conf e.1 = some [] := by
        rw [conf_wepKey hk hnone he hkey, htype]
        rfl
      refine ⟨fun hlen => ?_, fun ⟨bin, hbin⟩ => ?_⟩
      · have hnil := some.inj (hempty.symm.trans (hplain hlen))
        simp [← hnil] at hlen
      · have hnil := some.inj (hempty.symm.trans (hhex bin hbin))
        have hlen := length_hex2bin (text key)
        rw [hex2bin_eq hbin.2, ← hnil, length_nil] at hlen
        have := hbin.1
        omega
    · obtain ⟨hhex, hplain⟩ := hpsk psk h
      have hok : s.Given := by
        by_cases hform : (text psk).length = 64 ∧ ∃ bin, IsHexOf (text psk) bin
        · obtain ⟨hlen, bin, hbin⟩ := hform
          exact given_of_conf (hhex bin hlen hbin)
        · exact given_of_conf (hplain hform)
      refine ⟨hok, fun hlen => ?_⟩
      by_contra hne
      have hconf := (conf_psk hok h).symm.trans (hplain fun hform => hne hform.2)
      rw [if_pos hlen, some.injEq] at hconf
      have := length_hex2bin (text psk)
      rw [hconf] at this
      omega
  · rintro ⟨hwep, hpsk⟩
    refine ⟨fun k hk hnone htype e he key hkey => ?_, fun psk h => ?_⟩
    · cases ht : s.wepKeyType with
      | none =>
        obtain ⟨hplain, hhex⟩ := hwep k hk hnone ht e he key hkey
        exact ⟨fun hlen => absurd hlen hplain, fun bin hbin => absurd ⟨bin, hbin⟩ hhex⟩
      | some t =>
        obtain rfl : t = 0 := by simpa [ht] using htype
        rw [conf_wepKey hk hnone he hkey, ht, getD_some, getKey, if_pos rfl]
        refine ⟨fun hlen => ?_, fun bin hbin => ?_⟩
        · rw [if_neg (by omega), if_pos hlen]
        · rw [if_pos hbin.1, hex2bin_eq hbin.2]
    · obtain ⟨hok, hlen⟩ := hpsk psk h
      rw [conf_psk hok h]
      refine ⟨fun bin h64 hbin => by rw [if_pos h64, hex2bin_eq hbin], fun hne => ?_⟩
      rw [if_neg fun h64 => hne ⟨h64, hlen h64⟩]

/-- A WEP key without a `wep-key-type`. -/
theorem wepKey_lost :
    ¬ KeysExact { setWirelessSecurity := Function.update (Function.update
      settingsWirelessSecurity.empty .keyMgmt (some "none")) .wepKey0 (some "12345") } := by
  intro h
  have hkey := (h.wep "none" rfl (by decide) rfl _ mem_cons_self "12345" rfl).1 (by decide)
  exact absurd hkey (by decide)

end ConnectionSettings

end Odtone.NetworkManager
