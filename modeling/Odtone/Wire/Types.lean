import Odtone.Wire.Params

/-! # MIH data types

The types of `inc/odtone/mih/types/` that the services of the MIHF read and write, as members of the
universe `Ty`, with the elements that carry them (`tlv_types.hpp`). An enumeration is one byte, the
empty type `null` is the empty sequence, and derived classes are written with the members of their
bases first. Information element containers are not in the universe.
-/

namespace Odtone.Wire

namespace Ty

mutual

/-- Values can be compared. -/
def decEq : (t : Ty) → DecidableEq t.Val
  | .bool => inferInstanceAs (DecidableEq Bool)
  | .uint _ => inferInstanceAs (DecidableEq (BitVec _))
  | .sint _ => inferInstanceAs (DecidableEq (BitVec _))
  | .octets => inferInstanceAs (DecidableEq Bytes)
  | .bitmap n => inferInstanceAs (DecidableEq (List.Vector UInt8 n))
  | .array n t =>
    have := decEq t
    inferInstanceAs (DecidableEq (List.Vector t.Val n))
  | .list t =>
    have := decEq t
    inferInstanceAs (DecidableEq (List t.Val))
  | .seq ts => decEqSeq ts
  | .variant t ts =>
    have := decEq t
    have := decEqAlt ts
    inferInstanceAs (DecidableEq (t.Val ⊕ AltVal ts))

def decEqSeq : (ts : List Ty) → DecidableEq (SeqVal ts)
  | [] => inferInstanceAs (DecidableEq Unit)
  | t :: ts =>
    have := decEq t
    have := decEqSeq ts
    inferInstanceAs (DecidableEq (t.Val × SeqVal ts))

def decEqAlt : (ts : List Ty) → DecidableEq (AltVal ts)
  | [] => inferInstanceAs (DecidableEq Empty)
  | t :: ts =>
    have := decEq t
    have := decEqAlt ts
    inferInstanceAs (DecidableEq (t.Val ⊕ AltVal ts))

end

instance (t : Ty) : DecidableEq t.Val := decEq t

/-! ## Base types -/

def uint8 : Ty := .uint .one
def uint16 : Ty := .uint .two
def uint32 : Ty := .uint .four
def enumeration : Ty := .uint .one
def percentage : Ty := .uint .one
def null : Ty := .seq []
def status : Ty := enumeration
def id : Ty := .octets

/-- `boost::variant<null, T>` -/
def orNull (t : Ty) : Ty := .variant null [t]

/-! ## Addresses and links -/

/-- `transport_addr`, with `mac_addr` and `ip_addr` -/
def transportAddr : Ty := .seq [uint16, .octets]

def l2_3gppCellId3g : Ty := .seq [uint8, uint8, uint8, uint32]
def l2_3gppCellId2g : Ty := .seq [uint8, uint8, uint8, uint16, uint16]

def linkAddr : Ty :=
  .variant transportAddr [l2_3gppCellId3g, l2_3gppCellId2g, .seq [.octets], .seq [.octets],
    .seq [.octets]]

def linkType : Ty := enumeration
def linkId : Ty := .seq [linkType, linkAddr]
def linkTupleId : Ty := .seq [linkType, linkAddr, orNull linkAddr]

def linkEvtList : Ty := .bitmap 4
def linkCmdList : Ty := .bitmap 4
def mihEvtList : Ty := .bitmap 4
def mihCmdList : Ty := .bitmap 4
def iqTypeList : Ty := .bitmap 8
def transportList : Ty := .bitmap 2

def sigStrength : Ty := .variant (.sint .one) [percentage]

def linkDetInfo : Ty :=
  .seq [linkTupleId, .octets, .octets, sigStrength, uint16, uint32, .bitmap 1, .bitmap 4]

/-! ## Link parameters -/

def linkParamType : Ty := .variant enumeration (List.replicate 11 uint8)
def threshold : Ty := .seq [uint16, enumeration]
def pkDelayList : Ty := .list (.seq [uint8, uint16])

def qosParamVal : Ty :=
  .variant uint8 [pkDelayList, pkDelayList, pkDelayList, pkDelayList, pkDelayList]

def linkParam : Ty := .seq [linkParamType, .variant uint16 [qosParamVal]]
def linkParamTypeList : Ty := .list linkParamType
def linkParamList : Ty := .list linkParam
def linkStatesReq : Ty := .bitmap 2
def linkDescReq : Ty := .bitmap 2
def devStatesReq : Ty := .bitmap 2
def linkStatusReq : Ty := .seq [linkStatesReq, linkParamTypeList, linkDescReq]
def linkStatesRspList : Ty := .list (.variant enumeration [uint16])
def linkDescRspList : Ty := .list (.variant uint8 [uint8])
def linkStatusRsp : Ty := .seq [linkStatesRspList, linkParamList, linkDescRspList]
def statusRspList : Ty := .list (.seq [linkId, linkStatusRsp])

def linkCfgParamList : Ty :=
  .list (.seq [linkParamType, orNull uint16, enumeration, .list threshold])

def linkCfgStatusList : Ty := .list (.seq [linkParamType, threshold, .bool])

/-! ## Link actions -/

def linkAction : Ty := .seq [enumeration, .bitmap 1]
def linkAcResult : Ty := enumeration
def linkScanRspList : Ty := .list (.seq [linkAddr, .octets, sigStrength])
def linkActionList : Ty := .list (.seq [linkId, orNull linkAddr, linkAction, uint16])
def linkActionRspList : Ty := .list (.seq [linkId, linkAcResult, orNull linkScanRspList])

/-! ## Configuration and capabilities -/

def configurationList : Ty := .list (.seq [.octets, .octets])
def ipSubnetInfo : Ty := .seq [uint8, transportAddr]
def ipInfoList : Ty := .list (.seq [transportAddr, ipSubnetInfo])
def ipAddrList : Ty := .list transportAddr
def fqdnList : Ty := .list .octets
def ipCfgMethods : Ty := .bitmap 4

def networkType : Ty := .seq [orNull linkType, orNull (.bitmap 8), orNull .octets]
def netTypeAddrList : Ty := .list (.seq [networkType, linkAddr])
def mbbHoSuppList : Ty := .list (.seq [networkType, networkType, .bool])
def linkIdList : Ty := .list linkId

def mosInfo : Ty := .seq [id, transportAddr, uint16]
def mosDscv : Ty := .seq [.list mosInfo, .list mosInfo, .list mosInfo]

end Ty

/-! ## Elements -/

/-- A parameter of the services: the type of its element and that of its value. -/
structure Element where
  type : UInt8
  ty : Ty

namespace Element

/-- `tlv_x(val)` with a value to write -/
def put (e : Element) (val : e.ty.Val) : Arg := .mandatory (.tlv e.type) e.ty val

/-- `tlv_x(val)` with a `boost::optional` to write -/
def putOptional (e : Element) (val : Option e.ty.Val) : Arg := .optional (.tlv e.type) e.ty val

/-- `tlv_x(val)` with a variable to read into -/
def get (e : Element) : Decoder e.ty.Val :=
  mandatoryOf ((Tag.tlv e.type).get (e.ty.decode e.ty.fresh))

/-- `tlv_x(val)` with a `boost::optional` to read into -/
def getOptional (e : Element) : Decoder (Option e.ty.Val) :=
  optionalOf ((Tag.tlv e.type).get (e.ty.decode e.ty.fresh)) none

abbrev status : Element := ⟨3, Ty.status⟩
abbrev linkType : Element := ⟨4, Ty.linkType⟩
abbrev eventList : Element := ⟨5, Ty.mihEvtList⟩
abbrev commandList : Element := ⟨6, Ty.mihCmdList⟩
abbrev queryTypeList : Element := ⟨7, Ty.iqTypeList⟩
abbrev transportOptionList : Element := ⟨8, Ty.transportList⟩
abbrev netTypeAddrList : Element := ⟨9, Ty.netTypeAddrList⟩
abbrev mbbHoSuppList : Element := ⟨10, Ty.mbbHoSuppList⟩
abbrev linkIdentifier : Element := ⟨13, Ty.linkTupleId⟩
abbrev newLinkIdentifier : Element := ⟨14, Ty.linkTupleId⟩
abbrev oldAccessRouter : Element := ⟨15, Ty.linkAddr⟩
abbrev newAccessRouter : Element := ⟨16, Ty.linkAddr⟩
abbrev ipCfgMethods : Element := ⟨19, Ty.ipCfgMethods⟩
abbrev timeInterval : Element := ⟨21, Ty.uint16⟩
abbrev devStatesReq : Element := ⟨24, Ty.devStatesReq⟩
abbrev linkIdList : Element := ⟨25, Ty.linkIdList⟩
abbrev getStatusReqSet : Element := ⟨27, Ty.linkStatusReq⟩
abbrev getStatusRspList : Element := ⟨28, Ty.statusRspList⟩
abbrev linkCfgParamList : Element := ⟨29, Ty.linkCfgParamList⟩
abbrev linkCfgStatusList : Element := ⟨30, Ty.linkCfgStatusList⟩
abbrev linkActionList : Element := ⟨38, Ty.linkActionList⟩
abbrev linkActionRspList : Element := ⟨39, Ty.linkActionRspList⟩
abbrev linkDetInfoList : Element := ⟨58, Ty.list Ty.linkDetInfo⟩
abbrev poa : Element := ⟨60, Ty.linkAddr⟩
abbrev linkEvtList : Element := ⟨101, Ty.linkEvtList⟩
abbrev linkCmdList : Element := ⟨102, Ty.linkCmdList⟩
abbrev linkParametersReq : Element := ⟨103, Ty.linkParamTypeList⟩
abbrev linkParametersStatusList : Element := ⟨104, Ty.linkParamList⟩
abbrev linkStatesReq : Element := ⟨105, Ty.linkStatesReq⟩
abbrev linkStatesRsp : Element := ⟨106, Ty.linkStatesRspList⟩
abbrev linkDescriptorReq : Element := ⟨107, Ty.linkDescReq⟩
abbrev linkDescriptorRsp : Element := ⟨108, Ty.linkDescRspList⟩
abbrev linkAction : Element := ⟨109, Ty.linkAction⟩
abbrev linkAcResult : Element := ⟨110, Ty.linkAcResult⟩
abbrev linkScanRspList : Element := ⟨111, Ty.linkScanRspList⟩
abbrev linkDetInfo : Element := ⟨112, Ty.linkDetInfo⟩
abbrev interfaceTypeAddr : Element := ⟨113, Ty.linkId⟩
abbrev mosDscv : Element := ⟨114, Ty.mosDscv⟩
abbrev configurationList : Element := ⟨115, Ty.configurationList⟩
abbrev ipAddrList : Element := ⟨116, Ty.ipInfoList⟩
abbrev ipRouteList : Element := ⟨117, Ty.ipInfoList⟩
abbrev ipDnsList : Element := ⟨118, Ty.ipAddrList⟩
abbrev fqdnList : Element := ⟨119, Ty.fqdnList⟩

end Element

end Odtone.Wire
