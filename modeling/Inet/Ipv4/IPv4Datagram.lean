import Inet.Common.ByteArray
import Inet.Ipv4.IPv4Route

/-!
# IPv4 datagrams

`IPv4Datagram` with the fields that fragmentation and reassembly use. Its byte length is that of a
`cPacket`: encapsulating a packet adds the packet's length, decapsulating takes it away. Offsets
and lengths are `int`s of the source.
-/

namespace Inet.Ipv4

/-- An encapsulated `cPacket`, with the bytes of a `RawPacket`. -/
structure Packet where
  byteLength : ℤ
  rawBytes : Option Bytes := none
deriving DecidableEq

structure IPv4Datagram where
  byteLength : ℤ := 0
  headerLength : ℤ := 20
  srcAddress : IPv4Address := 0
  destAddress : IPv4Address := 0
  transportProtocol : ℤ := 0
  timeToLive : ℤ := 0
  identification : ℤ := 0
  moreFragments : Bool := false
  dontFragment : Bool := false
  /-- In bytes, a multiple of 8. -/
  fragmentOffset : ℤ := 0
  /-- `-1` stands for the byte length. -/
  totalLengthField : ℤ := -1
  totalPayloadLength : ℤ := 0
  encapsulated : Option Packet := none
deriving DecidableEq

namespace IPv4Datagram

def encapsulate (datagram : IPv4Datagram) (packet : Packet) : Result IPv4Datagram :=
  match datagram.encapsulated with
  | none =>
    .ok { datagram with
      byteLength := datagram.byteLength + packet.byteLength, encapsulated := some packet }
  | some _ => .error (.cRuntimeError "encapsulate(): another packet already encapsulated")

/-- `decapsulate` on a datagram that has a payload; without one the source gets `nullptr`. -/
def decapsulate (datagram : IPv4Datagram) : Result (Packet × IPv4Datagram) :=
  match datagram.encapsulated with
  | none => .error .nullPointer
  | some packet =>
    if datagram.byteLength < packet.byteLength then
      .error (.cRuntimeError "decapsulate(): packet length is smaller than encapsulated packet")
    else
      .ok (packet, { datagram with
        byteLength := datagram.byteLength - packet.byteLength, encapsulated := none })

/-- `setTotalPayloadLength` with the length of the payload, an `unsigned int`. -/
def setTotalPayloadLength (datagram : IPv4Datagram) : IPv4Datagram :=
  match datagram.encapsulated with
  | none => datagram
  | some packet => { datagram with totalPayloadLength := packet.byteLength % 2 ^ 32 }

/-- The bytes of the datagram behind its header. -/
def payloadLength (datagram : IPv4Datagram) : ℤ := datagram.byteLength - datagram.headerLength

/-- The offset behind the last byte. -/
def rangeEnd (datagram : IPv4Datagram) : ℤ := datagram.fragmentOffset + datagram.payloadLength

end IPv4Datagram

end Inet.Ipv4
