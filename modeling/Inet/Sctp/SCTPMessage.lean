import Inet.Common.NetworkOrder

/-!
# Parsed SCTP packets

The chunk classes of `SCTPMessage.msg`, with the fields that the parser sets. A
`byteLength` is the length the code records for the chunk. An array that grows keeps its
elements, and the new ones are zero.
-/

namespace Inet.Sctp

/-- `ADD_PADDING(x)` for a length. -/
def addPadding (x : ℕ) : ℕ := (x + 3) / 4 * 4

/-- `ADD_PADDING(x)` for an `int`, which may be negative. -/
def addPaddingInt (x : ℤ) : ℤ := (x + 3) / 4 * 4

/-- `setXArraySize(size)`; the parameter is unsigned. -/
def setArraySize {α : Type} (zero : α) (xs : List α) (size : ℤ) : List α :=
  let n := (size % 2 ^ 32).toNat
  xs.take n ++ List.replicate (n - xs.length) zero

/-- `setXArraySize(size)`, after which the first elements are set to `new`. -/
def refill {α : Type} (zero : α) (xs : List α) (size : ℤ) (new : List α) : List α :=
  new ++ (setArraySize zero xs size).drop new.length

inductive ChunkType where
  | DATA | INIT | INIT_ACK | SACK | HEARTBEAT | HEARTBEAT_ACK | ABORT | SHUTDOWN
  | SHUTDOWN_ACK | ERRORTYPE | COOKIE_ECHO | COOKIE_ACK | SHUTDOWN_COMPLETE | AUTH
  | ASCONF_ACK | PKTDROP | RE_CONFIG | FORWARD_TSN | ASCONF
deriving DecidableEq

/-- The chunk types that the parser has a case for. -/
def ChunkType.ofCode : ℕ → Option ChunkType
  | 0 => some DATA
  | 1 => some INIT
  | 2 => some INIT_ACK
  | 3 => some SACK
  | 4 => some HEARTBEAT
  | 5 => some HEARTBEAT_ACK
  | 6 => some ABORT
  | 7 => some SHUTDOWN
  | 8 => some SHUTDOWN_ACK
  | 9 => some ERRORTYPE
  | 10 => some COOKIE_ECHO
  | 11 => some COOKIE_ACK
  | 14 => some SHUTDOWN_COMPLETE
  | 15 => some AUTH
  | 128 => some ASCONF_ACK
  | 129 => some PKTDROP
  | 130 => some RE_CONFIG
  | 192 => some FORWARD_TSN
  | 193 => some ASCONF
  | _ => none

inductive ParameterType where
  | INIT_PARAM_IPV4 | INIT_PARAM_IPV6 | INIT_PARAM_COOKIE | SUPPORTED_ADDRESS_TYPES
  | OUTGOING_RESET_REQUEST_PARAMETER | INCOMING_RESET_REQUEST_PARAMETER
  | SSN_TSN_RESET_REQUEST_PARAMETER | STREAM_RESET_RESPONSE_PARAMETER
  | RANDOM | CHUNKS | HMAC_ALGO | SUPPORTED_EXTENSIONS | FORWARD_TSN_SUPPORTED_PARAMETER
  | ADD_IP_ADDRESS | DELETE_IP_ADDRESS | ERROR_CAUSE_INDICATION | SET_PRIMARY_ADDRESS
  | SUCCESS_INDICATION
deriving DecidableEq

/-- The parameter types that some loop of the parser has a case for. -/
def ParameterType.ofCode : ℕ → Option ParameterType
  | 5 => some INIT_PARAM_IPV4
  | 6 => some INIT_PARAM_IPV6
  | 7 => some INIT_PARAM_COOKIE
  | 12 => some SUPPORTED_ADDRESS_TYPES
  | 13 => some OUTGOING_RESET_REQUEST_PARAMETER
  | 14 => some INCOMING_RESET_REQUEST_PARAMETER
  | 15 => some SSN_TSN_RESET_REQUEST_PARAMETER
  | 16 => some STREAM_RESET_RESPONSE_PARAMETER
  | 32770 => some RANDOM
  | 32771 => some CHUNKS
  | 32772 => some HMAC_ALGO
  | 32776 => some SUPPORTED_EXTENSIONS
  | 49152 => some FORWARD_TSN_SUPPORTED_PARAMETER
  | 49153 => some ADD_IP_ADDRESS
  | 49154 => some DELETE_IP_ADDRESS
  | 49155 => some ERROR_CAUSE_INDICATION
  | 49156 => some SET_PRIMARY_ADDRESS
  | 49157 => some SUCCESS_INDICATION
  | _ => none

/-- An `L3Address` that a chunk carries. -/
inductive L3Address where
  | unspecified
  | ipv4 (address : Uint32)
  | ipv6 (d₀ d₁ d₂ d₃ : Uint32)
deriving DecidableEq

structure SCTPDataChunk where
  uBit : Bool
  bBit : Bool
  eBit : Bool
  iBit : Bool
  tsn : Uint32
  sid : Uint16
  ssn : Uint16
  ppid : Uint32
  /-- The encapsulated `SCTPSimpleMessage`. -/
  data : Option Bytes
  byteLength : ℤ
deriving DecidableEq

/-- `SCTPInitChunk` and `SCTPInitAckChunk`; only the second one has a `cookie`. -/
structure SCTPInitChunk where
  initTag : Uint32
  a_rwnd : Uint32
  noOutStreams : Uint16
  noInStreams : Uint16
  initTSN : Uint32
  /-- Read by the serializer; the parser leaves it as it is. -/
  forwardTsn : Bool := false
  ipv4Supported : Bool := false
  ipv6Supported : Bool := false
  addresses : List L3Address := []
  cookie : Bytes := []
  unrecognizedParameters : Bytes := []
  chunkTypes : List Uint16 := []
  sepChunks : List Uint16 := []
  hmacTypes : List Uint16 := []
  random : Bytes := []
  byteLength : ℤ
deriving DecidableEq

structure SCTPSackChunk where
  cumTsnAck : Uint32
  a_rwnd : Uint32
  gapStart : List Uint32
  gapStop : List Uint32
  dupTsns : List Uint32
  byteLength : ℤ
deriving DecidableEq

/-- `SCTPHeartbeatChunk` and `SCTPHeartbeatAckChunk`. -/
structure SCTPHeartbeatChunk where
  remoteAddr : L3Address := .unspecified
  timeField : Uint32 := 0
  info : Bytes := []
deriving DecidableEq

structure SCTPCookie where
  creationTime : Uint32
  localTag : Uint32
  peerTag : Uint32
  localTieTag : Bytes
  peerTieTag : Bytes
deriving DecidableEq

structure SCTPForwardTsnChunk where
  newCumTsn : Uint32
  sid : List Uint16 := []
  ssn : List Uint16 := []
deriving DecidableEq

structure SCTPAuthenticationChunk where
  sharedKey : Uint16
  hMacIdentifier : Uint16
  hMacOk : Bool
  HMAC : Bytes
deriving DecidableEq

/-- `SCTPAddIPParameter`, `SCTPDeleteIPParameter` or `SCTPSetPrimaryIPParameter`. -/
structure AsconfParameter where
  parameterType : Uint16
  requestCorrelationId : Uint32
  addressParam : L3Address
deriving DecidableEq

structure SCTPAsconfChunk where
  serialNumber : Uint32
  addressParam : L3Address := .unspecified
  asconfParams : List AsconfParameter := []
deriving DecidableEq

inductive AsconfResponse where
  | errorCause (parameterType : Uint16) (responseCorrelationId : Uint32)
      (errorCauseType : Uint16)
  | successIndication (parameterType : Uint16) (responseCorrelationId : Uint32)
deriving DecidableEq

structure SCTPAsconfAckChunk where
  serialNumber : Uint32
  asconfResponse : List AsconfResponse := []
deriving DecidableEq

inductive StreamResetParameter where
  | outgoingSSNResetRequest (srReqSn srResSn lastTsn : Uint32) (streamNumbers : Bytes)
  | incomingSSNResetRequest (srReqSn : Uint32) (streamNumbers : Bytes)
  | ssnTsnResetRequest (srReqSn : Uint32)
  | streamResetResponse (srResSn result sendersNextTsn receiversNextTsn : Uint32)
deriving DecidableEq

structure SCTPStreamResetChunk where
  parameters : List StreamResetParameter := []
deriving DecidableEq

inductive SCTPChunk where
  | data (chunk : SCTPDataChunk)
  | init (chunk : SCTPInitChunk)
  | initAck (chunk : SCTPInitChunk)
  | sack (chunk : SCTPSackChunk)
  | heartbeat (chunk : SCTPHeartbeatChunk) (byteLength : ℤ)
  | heartbeatAck (chunk : SCTPHeartbeatChunk) (byteLength : ℤ)
  | abort (T_Bit : Bool) (byteLength : ℤ)
  | cookieEcho (stateCookie : Option SCTPCookie) (byteLength : ℤ)
  | cookieAck (byteLength : ℤ)
  | shutdown (cumTsnAck : Uint32) (byteLength : ℤ)
  | shutdownAck (byteLength : ℤ)
  | shutdownComplete (TBit : Bool) (byteLength : ℤ)
  /-- The parameter is an `UNSUPPORTED_HMAC` cause of the given length. -/
  | error (unsupportedHmac : Option ℕ) (byteLength : ℤ)
  | forwardTsn (chunk : SCTPForwardTsnChunk) (byteLength : ℤ)
  | auth (chunk : SCTPAuthenticationChunk) (byteLength : ℤ)
  | asconf (chunk : SCTPAsconfChunk) (byteLength : ℤ)
  | asconfAck (chunk : SCTPAsconfAckChunk) (byteLength : ℤ)
  | reConfig (chunk : SCTPStreamResetChunk) (byteLength : ℤ)
deriving DecidableEq

def SCTPChunk.byteLength : SCTPChunk → ℤ
  | data chunk => chunk.byteLength
  | init chunk => chunk.byteLength
  | initAck chunk => chunk.byteLength
  | sack chunk => chunk.byteLength
  | heartbeat _ n | heartbeatAck _ n | abort _ n | cookieEcho _ n | cookieAck n
  | shutdown _ n | shutdownAck n | shutdownComplete _ n | error _ n | forwardTsn _ n
  | auth _ n | asconf _ n | asconfAck _ n | reConfig _ n => n

structure SCTPMessage where
  srcPort : Uint16 := 0
  destPort : Uint16 := 0
  tag : Uint32 := 0
  checksumOk : Bool := false
  byteLength : ℤ := 0
  chunks : List SCTPChunk := []
deriving DecidableEq

def SCTPMessage.addChunk (msg : SCTPMessage) (chunk : SCTPChunk) : SCTPMessage :=
  { msg with
    byteLength := msg.byteLength + addPaddingInt chunk.byteLength
    chunks := msg.chunks ++ [chunk] }

end Inet.Sctp
