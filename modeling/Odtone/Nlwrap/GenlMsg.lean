import Odtone.Support.Cursor
import Odtone.Support.Loop

/-! # Information elements of a scan result

`genl_msg::parse_information_elements` of the netlink wrapper walks over the information elements
of a beacon, and within two kinds of them over advertisement protocol tuples. The two loops are one
machine here, whose rounds start at the head of one of them.

The bytes are reached through `read`, which may refuse an index, so that what is read is a property
of the parser and not of the model.
-/

namespace Odtone.Nlwrap

/-- The fields of a `genl_msg` that information elements are parsed into. -/
structure GenlMsg where
  ieSsid : Option (List UInt8) := none
  ieMaxDataRate : Option Nat := none
  ieHasSecurityFeatures : Option Bool := none
  ieHasMihCapabilities : Option Bool := none
  ieHasInternetAccess : Option Bool := none
  ieHasEmergencyServices : Option Bool := none
  ieHessid : Option (List UInt8) := none
  ieHasMihEventService : Option Bool := none
  ieHasMihCommandService : Option Bool := none
  ieHasMihInformationService : Option Bool := none
deriving DecidableEq

/-- The cases of the switch on `ie[0]`. -/
inductive Element
  | ssid
  | rates
  | rsn
  | vendor
  | interworking
  | advertProto
  | other
deriving DecidableEq

/-- The labels of the cases: `IE_SSID`, `IE_SUPP_RATES` and `IE_EXT_SUPP_RATES`, `IE_RSN`,
`IE_VENDOR`, `IE_INTERWORKING`, `IE_ADVERT_PROTO`. -/
def Element.ofByte (b : UInt8) : Element :=
  if b = 0 then .ssid
  else if b = 1 ∨ b = 50 then .rates
  else if b = 48 then .rsn
  else if b = 221 then .vendor
  else if b = 107 then .interworking
  else if b = 108 then .advertProto
  else .other

/-- `ms_oui` -/
def msOui : List UInt8 := [0x00, 0x50, 0xf2]

/-- `ieee80211_oui` -/
def ieee80211Oui : List UInt8 := [0x00, 0x0f, 0xac]

/-- The locals of `parse_information_elements` and the message it fills. Inside of the loop over
tuples, `tuples` has its locals `tuple` and `complete`. -/
structure Parser where
  ie : Nat
  ielen : Int
  maxRate : Nat := 0
  tuples : Option (Nat × Bool) := none
  msg : GenlMsg := {}
deriving DecidableEq

/-- The two assignments at the end of the outer loop, with `len` in `ie[1]`. -/
def Parser.advance (s : Parser) (len : UInt8) : Parser :=
  { s with ie := s.ie + (len.toNat + 2), ielen := s.ielen - (len.toNat + 2), tuples := none }

section Rounds

variable {ε : Type} (read : Nat → Except ε UInt8)

/-- The `n` bytes from index `a` on. -/
def readBytes (a n : Nat) : Except ε (List UInt8) :=
  (List.range n).mapM fun i => read (a + i)

/-- One round of the loop over the rates. -/
def rate (data : Nat) (s : Parser) (r : Nat) : Except ε Parser := do
  let b ← read (data + r)
  let rate := (b &&& 0x7f).toNat / 2
  pure (if rate > s.maxRate then
      { s with maxRate := rate, msg := { s.msg with ieMaxDataRate := some rate } }
    else s)

/-- `case IE_SUPP_RATES: case IE_EXT_SUPP_RATES:` -/
def rates (data len : Nat) (s : Parser) : Except ε Parser :=
  (List.range len).foldlM (rate read data) s

/-- The condition in `case IE_VENDOR:`. Both calls of `memcmp` compare the same three bytes. -/
def knownCipher (data : Nat) : Except ε Bool := do
  let oui ← readBytes read data 3
  if oui = msOui then (fun b => decide (b < 6)) <$> read (data + 3)
  else if oui = ieee80211Oui then (fun b => decide (b < 7)) <$> read (data + 3)
  else pure false

/-- `case IE_VENDOR:` -/
def vendor (data len : Nat) (msg : GenlMsg) : Except ε GenlMsg :=
  if 4 ≤ len then do
    let known ← knownCipher read data
    pure (if known then { msg with ieHasSecurityFeatures := some true } else msg)
  else pure msg

/-- The fields that depend on the first byte of an interworking element. -/
def GenlMsg.withOptions (msg : GenlMsg) (options : UInt8) : GenlMsg :=
  { msg with
    ieHasMihCapabilities := some true
    ieHasInternetAccess :=
      if options &&& 0x10 ≠ 0 then some true else msg.ieHasInternetAccess
    ieHasEmergencyServices :=
      if options &&& 0xc0 ≠ 0 then some true else msg.ieHasEmergencyServices }

/-- The `HESSID` of an interworking element: `ETH_NLEN` bytes at one of two places. -/
def hessid (data len : Nat) (msg : GenlMsg) : Except ε GenlMsg :=
  if len = 7 then
    (fun addr => { msg with ieHessid := some addr }) <$> readBytes read (data + 1) 6
  else if len = 9 then
    (fun addr => { msg with ieHessid := some addr }) <$> readBytes read (data + 3) 6
  else pure msg

/-- `case IE_INTERWORKING:`, which runs into `case IE_ADVERT_PROTO:`. -/
def interworking (data len : Nat) (msg : GenlMsg) : Except ε GenlMsg := do
  let options ← read data
  hessid read data len (msg.withOptions options)

/-- The switch on `ie[0]`, up to the end of the round or to the head of the loop over tuples. -/
def switch (s : Parser) (id len : UInt8) : Except ε Parser :=
  match Element.ofByte id with
  | .ssid => do
    let ssid ← readBytes read (s.ie + 2) len.toNat
    pure ({ s with msg := { s.msg with ieSsid := some ssid } }.advance len)
  | .rates => do
    let s ← rates read (s.ie + 2) len.toNat s
    pure (s.advance len)
  | .rsn => pure ({ s with msg := { s.msg with ieHasSecurityFeatures := some true } }.advance len)
  | .vendor => do
    let msg ← vendor read (s.ie + 2) len.toNat s.msg
    pure ({ s with msg }.advance len)
  | .interworking => do
    let msg ← interworking read (s.ie + 2) len.toNat s.msg
    pure { s with msg, tuples := some (s.ie + 2, false) }
  | .advertProto => pure { s with tuples := some (s.ie + 2, false) }
  | .other => pure (s.advance len)

/-- The outer loop: the test in front of a round, and the round. -/
def elementRound (s : Parser) : Except ε (Option Parser) :=
  if s.ielen < 2 then pure none
  else do
    let len ← read (s.ie + 1)
    if s.ielen < len.toNat then pure none
    else do
      let id ← read s.ie
      let s ← switch read s id len
      pure (some s)

/-- `ie_has_mih_information_service && ie_has_mih_command_service && ie_has_mih_event_service`, each
of which tells whether the optional has a value. -/
def GenlMsg.complete (msg : GenlMsg) : Bool :=
  msg.ieHasMihInformationService.isSome && msg.ieHasMihCommandService.isSome &&
    msg.ieHasMihEventService.isSome

/-- The switch on `tuple[1]`: the fields it sets. -/
def GenlMsg.announce (msg : GenlMsg) (kind : UInt8) : GenlMsg :=
  if kind = 1 then { msg with ieHasMihInformationService := some true }
  else if kind = 2 then
    { msg with ieHasMihCommandService := some true, ieHasMihEventService := some true }
  else msg

/-- The `jump` behind a tuple. -/
def tupleJump (tuple : Nat) (kind : UInt8) : Except ε UInt8 :=
  if kind = 221 then read (tuple + 3) else pure 1

/-- The inner loop: the test in front of a round, and the round. When the loop is left, so is the
switch. -/
def tupleRound (s : Parser) (tuple : Nat) (complete : Bool) : Except ε (Option Parser) := do
  let len ← read (s.ie + 1)
  if tuple < s.ie + 2 + len.toNat ∧ complete = false then do
    let kind ← read (tuple + 1)
    let jump ← tupleJump read tuple kind
    let msg := s.msg.announce kind
    pure (some { s with msg, tuples := some (tuple + jump.toNat, msg.complete) })
  else pure (some (s.advance len))

/-- A round of the loop the parser is in. -/
def round (s : Parser) : Except ε (Option Parser) :=
  match s.tuples with
  | none => elementRound read s
  | some (tuple, complete) => tupleRound read s tuple complete

/-- `genl_msg::parse_information_elements(ie, ielen)` on the message `msg`, in at most `fuel` rounds
of its two loops. -/
def parseInformationElements (fuel : Nat) (msg : GenlMsg) (ielen : Nat) :
    Except ε (Option GenlMsg) :=
  Option.map Parser.msg <$> Loop.runE (round read) fuel { ie := 0, ielen, msg }

end Rounds

end Odtone.Nlwrap
