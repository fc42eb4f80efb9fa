import Inet.Common.Buffer
import Inet.Common.TCPIPchecksum
import Inet.Ipv4.IPv4Route

/-!
# The serializer of IGMP messages

The two functions of the serializer, over the buffers of the serializers. A query is told to be of
the first version by a zero code, and of the second one by the size of the buffer. `getSourceList()`
of a new query is an empty vector, and the parser assigns to its elements.
-/

namespace Inet.IGMPSerializer

open Buffer
open Inet.Ipv4 (IPv4Address)

structure GroupRecord where
  recordType : ℤ
  groupAddress : IPv4Address
  sourceList : List IPv4Address

structure V3Query where
  groupAddress : IPv4Address
  maxRespCode : UInt8
  suppressRouterProc : Bool
  robustnessVariable : UInt8
  queryIntervalCode : UInt8
  sourceList : List IPv4Address

inductive IGMPMessage where
  | IGMPv1Query (groupAddress : IPv4Address)
  | IGMPv2Query (groupAddress : IPv4Address) (maxRespTime : UInt8)
  | IGMPv3Query (query : V3Query)
  | IGMPv1Report (groupAddress : IPv4Address)
  | IGMPv2Report (groupAddress : IPv4Address)
  | IGMPv2Leave (groupAddress : IPv4Address)
  | IGMPv3Report (groupRecord : List GroupRecord)

open IGMPMessage

def IGMP_MEMBERSHIP_QUERY : UInt8 := 0x11
def IGMPV1_MEMBERSHIP_REPORT : UInt8 := 0x12
def IGMPV2_MEMBERSHIP_REPORT : UInt8 := 0x16
def IGMPV2_LEAVE_GROUP : UInt8 := 0x17
def IGMPV3_MEMBERSHIP_REPORT : UInt8 := 0x22

/-- The type, a zero code and a zero checksum. -/
def writeHeader (type : UInt8) (b : Buffer) : Buffer :=
  ((b.writeByte type).writeByte 0).writeUint16 0

def writeGroupRecord (b : Buffer) (gr : GroupRecord) : Buffer :=
  let b := b.writeByte (UInt8.ofInt gr.recordType)
  let b := b.writeByte 0    -- aux data len
  let b := b.writeUint16 (BitVec.ofNat 16 gr.sourceList.length)
  let b := b.writeUint32 gr.groupAddress
  gr.sourceList.foldl Buffer.writeUint32 b

/-- The byte with the suppress flag and the robustness variable. -/
def robustnessByte (query : V3Query) : UInt8 :=
  (if query.suppressRouterProc then 0x8 else 0) ||| query.robustnessVariable

/-- The `switch` over the type. -/
def writeMessage (b : Buffer) : IGMPMessage → Result Buffer
  | IGMPv1Query groupAddress =>
    .ok ((writeHeader IGMP_MEMBERSHIP_QUERY b).writeUint32 groupAddress)
  | IGMPv2Query groupAddress maxRespTime =>
    let b := (writeHeader IGMP_MEMBERSHIP_QUERY b).writeUint32 groupAddress
    .ok (b.writeByteTo 1 maxRespTime)
  | IGMPv3Query query => do
      let b := (writeHeader IGMP_MEMBERSHIP_QUERY b).writeUint32 query.groupAddress
      let b := b.writeByteTo 1 query.maxRespCode
      assert (query.robustnessVariable ≤ 7) "v3pkt->getRobustnessVariable() <= 7"
      let b := b.writeByte (robustnessByte query)
      let b := b.writeByte query.queryIntervalCode
      let b := b.writeUint16 (BitVec.ofNat 16 query.sourceList.length)
      .ok (query.sourceList.foldl Buffer.writeUint32 b)
  | IGMPv1Report groupAddress =>
    .ok ((writeHeader IGMPV1_MEMBERSHIP_REPORT b).writeUint32 groupAddress)
  | IGMPv2Report groupAddress =>
    .ok ((writeHeader IGMPV2_MEMBERSHIP_REPORT b).writeUint32 groupAddress)
  | IGMPv2Leave groupAddress =>
    .ok ((writeHeader IGMPV2_LEAVE_GROUP b).writeUint32 groupAddress)
  | IGMPv3Report groupRecord =>
    let b := (writeHeader IGMPV3_MEMBERSHIP_REPORT b).writeUint16 0    -- reserved
    let b := b.writeUint16 (BitVec.ofNat 16 groupRecord.length)
    .ok (groupRecord.foldl writeGroupRecord b)

def serialize (pkt : IGMPMessage) (b : Buffer) : Result Buffer := do
  let startPos := b.pos
  let b ← writeMessage b pkt
  let igmp := (b.buf.drop startPos).take (b.pos - startPos)
  .ok (b.writeUint16To 2 (TCPIPchecksum.checksum igmp))

def readGroupRecord (b : Buffer) : GroupRecord × Buffer :=
  let (recordType, b) := b.readByte
  let (auxDataLen, b) := b.readByte
  let (gac, b) := b.readUint16
  let (groupAddress, b) := b.readUint32
  let (sourceList, b) := b.readElements Buffer.readUint32 gac.toNat
  (⟨recordType.toNat, groupAddress, sourceList⟩, b.accessNBytes (4 * auxDataLen.toNat))

/-- What the parser makes of a type. -/
inductive Packet where
  | igmpMessage (pkt : IGMPMessage)
  | rawPacket (bytes : Bytes)

structure Deserialized where
  packet : Packet
  byteLength : ℕ
  bitError : Bool := false

/-- A message of 8 bytes that ends with its group. -/
def readGroupMessage (message : IPv4Address → IGMPMessage) (b : Buffer) : Deserialized × Buffer :=
  let (groupAddress, b) := b.readUint32
  (⟨.igmpMessage (message groupAddress), 8, false⟩, b)

/-- The source list of the new query is empty, and `getSourceList()[i]` is no element of it. -/
def readV3Query (startPos : ℕ) (code : UInt8) (b : Buffer) : Result (Deserialized × Buffer) :=
  let (groupAddress, b) := b.readUint32
  let (x, b) := b.readByte
  let (queryIntervalCode, b) := b.readByte
  let (vs, b) := b.readUint16
  if 0 < vs.toNat ∧ b.errorFound = false then .error .outOfRange
  else
    .ok (⟨.igmpMessage (IGMPv3Query ⟨groupAddress, code, x &&& 0x8 != 0, x &&& 7, queryIntervalCode,
      []⟩), b.pos - startPos, false⟩, b)

def readV3Report (startPos : ℕ) (b : Buffer) : Deserialized × Buffer :=
  let (_, b) := b.readUint16    -- reserved
  let (s, b) := b.readUint16
  let (groupRecord, b) := b.readElements readGroupRecord s.toNat    -- the array is cut to these
  (⟨.igmpMessage (IGMPv3Report groupRecord), b.pos - startPos, false⟩, b)

/-- The remaining bytes as they are; of no bytes there is no packet that could be marked. -/
def readRawPacket (b : Buffer) : Result (Deserialized × Buffer) :=
  let bytes := b.buf.drop b.pos
  if bytes.isEmpty then .error .outOfRange
  else .ok (⟨.rawPacket bytes, bytes.length, true⟩, b.accessNBytes bytes.length)

/-- The `switch` over the type. -/
def readMessage (startPos : ℕ) (type code : UInt8) (b : Buffer) : Result (Deserialized × Buffer) :=
  if type = IGMP_MEMBERSHIP_QUERY then
    if code = 0 then .ok (readGroupMessage IGMPv1Query b)
    else if b.bufsize - startPos = 8 then
      .ok (readGroupMessage (fun groupAddress => IGMPv2Query groupAddress code) b)
    else readV3Query startPos code b
  else if type = IGMPV1_MEMBERSHIP_REPORT then .ok (readGroupMessage IGMPv1Report b)
  else if type = IGMPV2_MEMBERSHIP_REPORT then .ok (readGroupMessage IGMPv2Report b)
  else if type = IGMPV2_LEAVE_GROUP then .ok (readGroupMessage IGMPv2Leave b)
  else if type = IGMPV3_MEMBERSHIP_REPORT then .ok (readV3Report startPos b)
  else readRawPacket (b.seek startPos)

def deserialize (b : Buffer) : Result Deserialized := do
  let startPos := b.pos
  let igmp := b.buf.drop startPos
  let (type, b) := b.readByte
  let (code, b) := b.readByte
  let (_, b) := b.readUint16    -- chksum
  let (d, b) ← readMessage startPos type code b
  if b.errorFound || TCPIPchecksum.checksum (igmp.take d.byteLength) != 0 then
    .ok { d with bitError := true }
  else .ok d

end Inet.IGMPSerializer
