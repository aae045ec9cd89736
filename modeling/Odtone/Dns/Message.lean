import Odtone.Dns.Frame

/-! # Messages of the DNS

`message::get_frame` writes a message into a buffer whose size it counts while it serializes the
records, and the constructor from a frame parses it back from a running position. Neither the length
bytes of the labels nor the terminator of the name of a resource record are counted, while the
buffer has room for a second header. -/

namespace Odtone.Dns

structure Question where
  domain : List UInt8
  qtype : UInt16
  qclass : UInt16
deriving DecidableEq

structure ResourceRecord where
  name : List UInt8
  rtype : UInt16
  rclass : UInt16
  ttl : UInt32
  rrLen : UInt16
  rrData : List UInt8
deriving DecidableEq

structure Message where
  tid : UInt16 := 0
  qr : Bool := false
  opcode : UInt8 := 0
  aa : Bool := false
  tc : Bool := false
  rd : Bool := false
  ra : Bool := false
  z : Bool := false
  rcode : UInt8 := 0
  nquery : UInt16 := 0
  nanswer : UInt16 := 0
  nauth : UInt16 := 0
  nadd : UInt16 := 0
  query : List Question := []
  answer : List ResourceRecord := []
  auth : List ResourceRecord := []
  add : List ResourceRecord := []
deriving DecidableEq

/-! ## Writing -/

/-- The locals `payload` and `payload_len` of `get_frame`. -/
structure Payload where
  bytes : List UInt8 := []
  len : UInt16 := 0
deriving DecidableEq

namespace Payload

/-- The body of the loop over the labels. -/
def label (pl : Payload) (tmp : List UInt8) : Payload where
  bytes := pl.bytes ++ UInt8.ofNat tmp.length :: tmp
  len := pl.len + UInt16.ofNat tmp.length

/-- A domain name, split at its dots, and the terminator. -/
def name (pl : Payload) (domain : List UInt8) : Payload :=
  let pl := (domain.splitOn dot).foldl label pl
  { pl with bytes := pl.bytes ++ [0] }

end Payload

def putUint16 (v : UInt16) : List UInt8 := [(v >>> 8).toUInt8, (v &&& 0xff).toUInt8]

def putUint32 (v : UInt32) : List UInt8 :=
  [(v >>> 24).toUInt8, (v >>> 16 &&& 0xff).toUInt8, (v >>> 8 &&& 0xff).toUInt8,
    (v &&& 0xff).toUInt8]

def serializeQueryRecord (pl : Payload) (query : Question) : Payload :=
  let pl := pl.name query.domain
  { bytes := pl.bytes ++ (putUint16 query.qtype ++ putUint16 query.qclass)
    len := pl.len + 5 }

def serializeResourceRecord (pl : Payload) (rr : ResourceRecord) : Payload :=
  let pl := pl.name rr.name
  { bytes := pl.bytes ++ (putUint16 rr.rtype ++ putUint16 rr.rclass ++ putUint32 rr.ttl ++
      putUint16 rr.rrLen ++ rr.rrData)
    len := pl.len + 10 + rr.rrLen }

namespace Message

/-- The loops over the four record lists. -/
def serialize (m : Message) : Payload :=
  let pl := m.query.foldl serializeQueryRecord {}
  let pl := m.answer.foldl serializeResourceRecord pl
  let pl := m.auth.foldl serializeResourceRecord pl
  m.add.foldl serializeResourceRecord pl

/-- The setters, in the order of `get_frame`. -/
def setHeader (m : Message) (fm : Frame) : Frame :=
  let fm := fm.setTid m.tid
  let fm := fm.setQr m.qr
  let fm := fm.setOpcode m.opcode
  let fm := fm.setAa m.aa
  let fm := fm.setTc m.tc
  let fm := fm.setRd m.rd
  let fm := fm.setRa m.ra
  let fm := fm.setZ m.z
  let fm := fm.setRcode m.rcode
  let fm := fm.setNquery m.nquery
  let fm := fm.setNanswer m.nanswer
  let fm := fm.setNauth m.nauth
  fm.setNadd m.nadd

/-- `fm.size(12 + payload_len)` and `fm.zero()`: the buffer has room for the header of a frame and
as many bytes more. -/
def newFrame (len : UInt16) : Frame := List.replicate (12 + (12 + len.toNat)) 0

/-- `message::get_frame`. Nothing is returned if the payload is copied beyond the buffer. -/
def getFrame (m : Message) : Option Frame :=
  let pl := m.serialize
  let fm := m.setHeader (newFrame pl.len)
  if 12 + pl.bytes.length ≤ fm.length then
    some (fm.take 12 ++ pl.bytes ++ fm.drop (12 + pl.bytes.length))
  else none

end Message

/-! ## Parsing -/

/-- Parsers that move `pos`. -/
abbrev Parser := StateT Int Option

/-- `parse_uint32` -/
def parseUint32 (p : Int → UInt8) (pos : Int) : UInt32 × Int :=
  (Bits.join32 (p pos) (p (pos + 1)) (p (pos + 2)) (p (pos + 3)), pos + 4)

/-- `parse_data` -/
def parseData (p : Int → UInt8) (len : Nat) (pos : Int) : List UInt8 × Int :=
  (bytesAt p pos len, pos + len)

section Parse

variable (p : Int → UInt8) (fuel : Nat)

def parseQuestion : Parser Question := do
  let domain ← parseDomainName p fuel
  let qtype ← modifyGet (parseUint16 p)
  let qclass ← modifyGet (parseUint16 p)
  pure { domain, qtype, qclass }

def parseResourceRecord : Parser ResourceRecord := do
  let name ← parseDomainName p fuel
  let rtype ← modifyGet (parseUint16 p)
  let rclass ← modifyGet (parseUint16 p)
  let ttl ← modifyGet (parseUint32 p)
  let rrLen ← modifyGet (parseUint16 p)
  let rrData ← modifyGet (parseData p rrLen.toNat)
  pure { name, rtype, rclass, ttl, rrLen, rrData }

/-- A loop that parses `n` records. -/
def parseRecords {α : Type} (parse : Parser α) : Nat → Parser (List α)
  | 0 => pure []
  | n + 1 => do
    let r ← parse
    let rs ← parseRecords parse n
    pure (r :: rs)

/-- `message::operator=`: the header, and the loops over the four sections. -/
def parseMessage (fm : Frame) : Parser Message := do
  let query ← parseRecords (parseQuestion (payload fm) fuel) fm.nquery.toNat
  let answer ← parseRecords (parseResourceRecord (payload fm) fuel) fm.nanswer.toNat
  let auth ← parseRecords (parseResourceRecord (payload fm) fuel) fm.nauth.toNat
  let add ← parseRecords (parseResourceRecord (payload fm) fuel) fm.nadd.toNat
  pure
    { tid := fm.tid, qr := fm.qr, opcode := fm.opcode, aa := fm.aa, tc := fm.tc, rd := fm.rd
      ra := fm.ra, z := fm.z, rcode := fm.rcode, nquery := fm.nquery, nanswer := fm.nanswer
      nauth := fm.nauth, nadd := fm.nadd, query, answer, auth, add }

/-- `message::message(fm)`, with at most `fuel` rounds for each domain name. -/
def Message.ofFrame (fm : Frame) : Option Message := (parseMessage fuel fm).run' 0

end Parse

end Odtone.Dns
