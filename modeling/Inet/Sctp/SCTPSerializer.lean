import Inet.Library.LoopStack
import Inet.Sctp.SCTPMessage

/-!
# `SCTPSerializer::parse`

The chunk loop of `parse` and the parameter loops nested in it, over the memory of
the packet buffer. One round is one iteration of the innermost loop. The chunk loop moves
`chunkPtr` at the end of an iteration; here it does so when the iteration enters an
inner loop, which does not look at it. A `PKTDROP` chunk makes `parse` call itself on the
bytes behind the chunk, with the same memory and a message of its own.

The memory is read with bounds checks. The parameters that are copied to blocks of
`malloc(64)` are checked against the size of the block.
-/

namespace Inet.Sctp.SCTPSerializer

open LoopStack

/-- A computation in `uint32`. -/
def toUint32 (x : ℤ) : ℕ := (x % 2 ^ 32).toNat

def crc_c : List Uint32 :=
  [0x00000000, 0xF26B8303, 0xE13B70F7, 0x1350F3F4, 0xC79A971F, 0x35F1141C, 0x26A1E7E8,
   0xD4CA64EB, 0x8AD958CF, 0x78B2DBCC, 0x6BE22838, 0x9989AB3B, 0x4D43CFD0, 0xBF284CD3,
   0xAC78BF27, 0x5E133C24, 0x105EC76F, 0xE235446C, 0xF165B798, 0x030E349B, 0xD7C45070,
   0x25AFD373, 0x36FF2087, 0xC494A384, 0x9A879FA0, 0x68EC1CA3, 0x7BBCEF57, 0x89D76C54,
   0x5D1D08BF, 0xAF768BBC, 0xBC267848, 0x4E4DFB4B, 0x20BD8EDE, 0xD2D60DDD, 0xC186FE29,
   0x33ED7D2A, 0xE72719C1, 0x154C9AC2, 0x061C6936, 0xF477EA35, 0xAA64D611, 0x580F5512,
   0x4B5FA6E6, 0xB93425E5, 0x6DFE410E, 0x9F95C20D, 0x8CC531F9, 0x7EAEB2FA, 0x30E349B1,
   0xC288CAB2, 0xD1D83946, 0x23B3BA45, 0xF779DEAE, 0x05125DAD, 0x1642AE59, 0xE4292D5A,
   0xBA3A117E, 0x4851927D, 0x5B016189, 0xA96AE28A, 0x7DA08661, 0x8FCB0562, 0x9C9BF696,
   0x6EF07595, 0x417B1DBC, 0xB3109EBF, 0xA0406D4B, 0x522BEE48, 0x86E18AA3, 0x748A09A0,
   0x67DAFA54, 0x95B17957, 0xCBA24573, 0x39C9C670, 0x2A993584, 0xD8F2B687, 0x0C38D26C,
   0xFE53516F, 0xED03A29B, 0x1F682198, 0x5125DAD3, 0xA34E59D0, 0xB01EAA24, 0x42752927,
   0x96BF4DCC, 0x64D4CECF, 0x77843D3B, 0x85EFBE38, 0xDBFC821C, 0x2997011F, 0x3AC7F2EB,
   0xC8AC71E8, 0x1C661503, 0xEE0D9600, 0xFD5D65F4, 0x0F36E6F7, 0x61C69362, 0x93AD1061,
   0x80FDE395, 0x72966096, 0xA65C047D, 0x5437877E, 0x4767748A, 0xB50CF789, 0xEB1FCBAD,
   0x197448AE, 0x0A24BB5A, 0xF84F3859, 0x2C855CB2, 0xDEEEDFB1, 0xCDBE2C45, 0x3FD5AF46,
   0x7198540D, 0x83F3D70E, 0x90A324FA, 0x62C8A7F9, 0xB602C312, 0x44694011, 0x5739B3E5,
   0xA55230E6, 0xFB410CC2, 0x092A8FC1, 0x1A7A7C35, 0xE811FF36, 0x3CDB9BDD, 0xCEB018DE,
   0xDDE0EB2A, 0x2F8B6829, 0x82F63B78, 0x709DB87B, 0x63CD4B8F, 0x91A6C88C, 0x456CAC67,
   0xB7072F64, 0xA457DC90, 0x563C5F93, 0x082F63B7, 0xFA44E0B4, 0xE9141340, 0x1B7F9043,
   0xCFB5F4A8, 0x3DDE77AB, 0x2E8E845F, 0xDCE5075C, 0x92A8FC17, 0x60C37F14, 0x73938CE0,
   0x81F80FE3, 0x55326B08, 0xA759E80B, 0xB4091BFF, 0x466298FC, 0x1871A4D8, 0xEA1A27DB,
   0xF94AD42F, 0x0B21572C, 0xDFEB33C7, 0x2D80B0C4, 0x3ED04330, 0xCCBBC033, 0xA24BB5A6,
   0x502036A5, 0x4370C551, 0xB11B4652, 0x65D122B9, 0x97BAA1BA, 0x84EA524E, 0x7681D14D,
   0x2892ED69, 0xDAF96E6A, 0xC9A99D9E, 0x3BC21E9D, 0xEF087A76, 0x1D63F975, 0x0E330A81,
   0xFC588982, 0xB21572C9, 0x407EF1CA, 0x532E023E, 0xA145813D, 0x758FE5D6, 0x87E466D5,
   0x94B49521, 0x66DF1622, 0x38CC2A06, 0xCAA7A905, 0xD9F75AF1, 0x2B9CD9F2, 0xFF56BD19,
   0x0D3D3E1A, 0x1E6DCDEE, 0xEC064EED, 0xC38D26C4, 0x31E6A5C7, 0x22B65633, 0xD0DDD530,
   0x0417B1DB, 0xF67C32D8, 0xE52CC12C, 0x1747422F, 0x49547E0B, 0xBB3FFD08, 0xA86F0EFC,
   0x5A048DFF, 0x8ECEE914, 0x7CA56A17, 0x6FF599E3, 0x9D9E1AE0, 0xD3D3E1AB, 0x21B862A8,
   0x32E8915C, 0xC083125F, 0x144976B4, 0xE622F5B7, 0xF5720643, 0x07198540, 0x590AB964,
   0xAB613A67, 0xB831C993, 0x4A5A4A90, 0x9E902E7B, 0x6CFBAD78, 0x7FAB5E8C, 0x8DC0DD8F,
   0xE330A81A, 0x115B2B19, 0x020BD8ED, 0xF0605BEE, 0x24AA3F05, 0xD6C1BC06, 0xC5914FF2,
   0x37FACCF1, 0x69E9F0D5, 0x9B8273D6, 0x88D28022, 0x7AB90321, 0xAE7367CA, 0x5C18E4C9,
   0x4F48173D, 0xBD23943E, 0xF36E6F75, 0x0105EC76, 0x12551F82, 0xE03E9C81, 0x34F4F86A,
   0xC69F7B69, 0xD5CF889D, 0x27A40B9E, 0x79B737BA, 0x8BDCB4B9, 0x988C474D, 0x6AE7C44E,
   0xBE2DA0A5, 0x4C4623A6, 0x5F16D052, 0xAD7D5351]

/-- `CRC32C(c, d)`. -/
def CRC32C (c : Uint32) (d : UInt8) : Uint32 :=
  (c >>> 8) ^^^ crc_c.getD ((c ^^^ d.toBitVec.setWidth 32) &&& 0xFF).toNat 0

/-- The bytes of `h` are put together in reverse, and `htonl` reverses them again. -/
def checksum (buf : Bytes) : Uint32 :=
  let res := buf.foldl CRC32C (~~~ 0)
  let h := ~~~ res
  byteSwap (byteSwap h)

/-- The digest is not implemented: it is zero for every input. -/
def hmacSha1 : Bytes := List.replicate 20 0

/-- An access to the last of `length` bytes of a block of `malloc(64)`. -/
def checkBlock (length : ℕ) : Result Unit :=
  if length ≤ 64 then .ok () else .error .outOfRange

/-- The variables of the parameter loop of `INIT` and `INIT_ACK`. -/
structure InitLoop where
  chunk : SCTPInitChunk
  chkcounter : ℕ := 0
  stopProcessing : Bool := false
  rplen : ℕ := 0
  cplen : ℕ := 0
  hplen : ℕ := 0
deriving DecidableEq

/-- The inner loops, with the chunk that each one fills. -/
inductive ParameterLoop where
  | init (ack : Bool) (vars : InitLoop)
  | heartbeat (chunk : SCTPHeartbeatChunk)
  | heartbeatAck (chunk : SCTPHeartbeatChunk)
  | forwardTsn (chunk : SCTPForwardTsnChunk)
  | asconf (chunk : SCTPAsconfChunk)
  | asconfAck (chunk : SCTPAsconfAckChunk)
  | reConfig (chunk : SCTPStreamResetChunk)
deriving DecidableEq

/-- One parameter of an `INIT` or `INIT_ACK` chunk, at the address `p`. -/
def parseInitParameter (ack : Bool) (mem : Bytes) (p : ℕ) (paramType : Uint16) (length : ℕ)
    (vars : InitLoop) : Result InitLoop :=
  let chunk := vars.chunk
  match ParameterType.ofCode paramType.toNat, ack with
  | some .SUPPORTED_ADDRESS_TYPES, _ => do
    let type₁ ← ntohs mem (p + 4)
    let type₂ ← ntohs mem (p + 6)
    .ok { vars with chunk := { chunk with
      ipv4Supported := type₁ == 5 || type₂ == 5
      ipv6Supported := type₁ == 6 || type₂ == 6
      byteLength := chunk.byteLength + 8 } }
  | some .INIT_PARAM_IPV4, _ => do
    let address ← ntohl mem (p + 4)
    .ok { vars with chunk := { chunk with
      addresses := chunk.addresses ++ [.ipv4 address]
      byteLength := chunk.byteLength + 8 } }
  | some .INIT_PARAM_IPV6, _ => do
    let d₀ ← hostLong mem (p + 4)
    let d₁ ← hostLong mem (p + 8)
    let d₂ ← hostLong mem (p + 12)
    let d₃ ← hostLong mem (p + 16)
    .ok { vars with chunk := { chunk with
      addresses := chunk.addresses ++ [.ipv6 d₀ d₁ d₂ d₃]
      byteLength := chunk.byteLength + 20 } }
  | some .SUPPORTED_EXTENSIONS, _ => do
    -- `chkcounter` is not reset, so a second such parameter is read further behind
    let types ← readBytes mem (p + 4 + vars.chkcounter) (length - 4)
    .ok { vars with
      chkcounter := vars.chkcounter + (length - 4)
      chunk := { chunk with
        sepChunks := chunk.sepChunks ++ types.map (·.toBitVec.setWidth 16)
        byteLength := chunk.byteLength + addPadding (max 4 length) } }
  | some .FORWARD_TSN_SUPPORTED_PARAMETER, _ =>
    .ok { vars with chunk := { chunk with
      chunkTypes := chunk.chunkTypes ++ [49152]
      byteLength := chunk.byteLength + if ack then 1 else (length : ℤ) } }
  | some .RANDOM, _ => do
    let rlen : ℤ := length - 4
    let bytes ← readBytes mem (p + 4) rlen.toNat
    checkBlock length
    .ok { vars with
      rplen := length
      chunk := { chunk with
        random := refill 0 chunk.random rlen bytes
        byteLength := chunk.byteLength + length } }
  | some .HMAC_ALGO, _ => do
    let num : ℤ := ((length : ℤ) - 4).tdiv 2
    let idents ← readShorts mem (p + 4) 2 num.toNat
    checkBlock (4 + 2 * num.toNat)
    .ok { vars with
      hplen := length
      chunk := { chunk with
        hmacTypes := refill 0 chunk.hmacTypes num idents
        byteLength := chunk.byteLength + (4 + 2 * num) } }
  | some .CHUNKS, _ => do
    let num : ℤ := length - 4
    let types ← readBytes mem (p + 4) num.toNat
    checkBlock length
    .ok { vars with
      cplen := length
      chunk := { chunk with
        chunkTypes := refill 0 chunk.chunkTypes num (types.map (·.toBitVec.setWidth 16))
        byteLength := chunk.byteLength + addPadding length } }
  | some .INIT_PARAM_COOKIE, true => do
    let cookieLen : ℤ := length - 4
    let bytes ← readBytes mem (p + 4) cookieLen.toNat
    .ok { vars with chunk := { chunk with
      cookie := refill 0 chunk.cookie cookieLen bytes
      byteLength := chunk.byteLength + (cookieLen + 4) } }
  | _, _ => do
    -- the bits of an unknown type say whether to go on and whether to report it
    let vars := { vars with stopProcessing := vars.stopProcessing || !paramType.getLsbD 15 }
    if paramType.getLsbD 14 then
      let bytes ← readBytes mem p (addPadding length)
      .ok { vars with chunk := { chunk with
        unrecognizedParameters := chunk.unrecognizedParameters ++ bytes } }
    else
      .ok { vars with chunk := { chunk with
        byteLength := chunk.byteLength + addPadding length } }

/-- `setInfoArraySize(infoLen)` and the copy of the heartbeat information. -/
def parseInfo (mem : Bytes) (p : ℕ) (infoLen : ℤ) (info : Bytes) : Result Bytes := do
  let bytes ← readBytes mem (p + 4) infoLen.toNat
  .ok (refill 0 info infoLen bytes)

/-- One parameter of an `ASCONF` chunk behind the address parameter. -/
def parseAsconfParameter (mem : Bytes) (p : ℕ) (paramType : Uint16) (chunk : SCTPAsconfChunk) :
    Result SCTPAsconfChunk :=
  match ParameterType.ofCode paramType.toNat with
  | some .ADD_IP_ADDRESS | some .DELETE_IP_ADDRESS | some .SET_PRIMARY_ADDRESS => do
    let correlationId ← ntohl mem (p + 4)
    let address ← ntohl mem (p + 12)
    .ok { chunk with
      asconfParams := chunk.asconfParams ++ [⟨paramType, correlationId, .ipv4 address⟩] }
  | _ => .ok chunk

def parseAsconfAckParameter (mem : Bytes) (p : ℕ) (paramType : Uint16)
    (chunk : SCTPAsconfAckChunk) : Result SCTPAsconfAckChunk :=
  match ParameterType.ofCode paramType.toNat with
  | some .ERROR_CAUSE_INDICATION => do
    let correlationId ← ntohl mem (p + 4)
    let cause ← ntohs mem (p + 8)
    .ok { asconfResponse := chunk.asconfResponse ++ [.errorCause paramType correlationId cause]
          serialNumber := chunk.serialNumber }
  | some .SUCCESS_INDICATION => do
    let correlationId ← ntohl mem (p + 4)
    .ok { asconfResponse := chunk.asconfResponse ++ [.successIndication paramType correlationId]
          serialNumber := chunk.serialNumber }
  | _ => .ok chunk

/-- `SCTPStreamResetChunk::addParameter`. -/
def addParameter (chunk : SCTPStreamResetChunk) (parameter : StreamResetParameter) :
    Result SCTPStreamResetChunk :=
  if chunk.parameters.length < 2 then .ok ⟨chunk.parameters ++ [parameter]⟩
  else .error (.cRuntimeError "Not more than two parameters allowed!")

/-- The stream numbers of a reset request, of which only the first byte is read. -/
def readStreamNumbers (mem : Bytes) (offset : ℕ) : ℕ → Result Bytes
  | 0 => .ok []
  | count + 1 => do
    let b ← readByte mem offset
    let bs ← readStreamNumbers mem (offset + 2) count
    .ok (b :: bs)

def parseReConfigParameter (mem : Bytes) (p cLen parptr : ℕ) (paramType : Uint16)
    (length : ℕ) (chunk : SCTPStreamResetChunk) : Result SCTPStreamResetChunk :=
  match ParameterType.ofCode paramType.toNat with
  | some .OUTGOING_RESET_REQUEST_PARAMETER => do
    let srReqSn ← ntohl mem (p + 4)
    let srResSn ← ntohl mem (p + 8)
    let lastTsn ← ntohl mem (p + 12)
    let streamNumbers ← readStreamNumbers mem (p + 16) ((length - 16 + 1) / 2)
    addParameter chunk (.outgoingSSNResetRequest srReqSn srResSn lastTsn streamNumbers)
  | some .INCOMING_RESET_REQUEST_PARAMETER => do
    let srReqSn ← ntohl mem (p + 4)
    -- the numbers are read behind the header of an outgoing request
    let streamNumbers ← readStreamNumbers mem (p + 16) ((length - 8 + 1) / 2)
    addParameter chunk (.incomingSSNResetRequest srReqSn streamNumbers)
  | some .SSN_TSN_RESET_REQUEST_PARAMETER => do
    let srReqSn ← ntohl mem (p + 4)
    addParameter chunk (.ssnTsnResetRequest srReqSn)
  | some .STREAM_RESET_RESPONSE_PARAMETER => do
    let srResSn ← ntohl mem (p + 4)
    let result ← ntohl mem (p + 8)
    if cLen > 4 + parptr + 12 then
      let sendersNextTsn ← ntohl mem (p + 12)
      let receiversNextTsn ← ntohl mem (p + 16)
      addParameter chunk
        (.streamResetResponse srResSn result sendersNextTsn receiversNextTsn)
    else
      addParameter chunk (.streamResetResponse srResSn result 0 0)
  | _ => .ok chunk

namespace ParameterLoop

/-- The size of the fixed part of the chunk, behind which the parameters begin. -/
def headerSize : ParameterLoop → ℕ
  | init _ _ => 20
  | heartbeat _ => 4
  | heartbeatAck _ => 4
  | forwardTsn _ => 8
  | asconf _ => 8
  | asconfAck _ => 8
  | reConfig _ => 4

def stopProcessing : ParameterLoop → Bool
  | init _ vars => vars.stopProcessing
  | _ => false

/-- What an iteration adds to `parptr`, or to `streamptr`. -/
def advance (paramType : Uint16) (length : ℕ) : ParameterLoop → ℕ
  | heartbeat _ =>
    if paramType = 1 then (addPaddingInt (length - 4) + 4).toNat else addPadding length
  | heartbeatAck _ =>
    if paramType = 1 then (addPaddingInt (length - 4) + 4).toNat else length
  | forwardTsn _ => 4
  | init _ _ | asconf _ | asconfAck _ | reConfig _ => addPadding length

/-- The body of the loop, at the parameter at the address `p`. -/
def parseParameter (mem : Bytes) (p cLen parptr : ℕ) (paramType : Uint16) (length : ℕ) :
    ParameterLoop → Result ParameterLoop
  | init ack vars => do
    let vars ← parseInitParameter ack mem p paramType length vars
    .ok (init ack vars)
  | heartbeat chunk =>
    if paramType = 1 then do
      let info ← parseInfo mem p (length - 4) chunk.info
      .ok (heartbeat { chunk with info })
    else .ok (heartbeat chunk)
  | heartbeatAck chunk =>
    if paramType = 1 then do
      assert (length ≥ 4 && length + 4 == cLen)
        "ilen >= 4 && ilen == cLen - size_heartbeat_ack_chunk"
      let address ← ntohl mem (p + 8)
      let time ← ntohl mem (p + 24)
      let info ← parseInfo mem p (length - 4) chunk.info
      .ok (heartbeatAck { remoteAddr := .ipv4 address, timeField := time, info })
    else .ok (heartbeatAck chunk)
  | forwardTsn chunk =>
    -- the two fields of a stream are where a parameter has its type and its length
    .ok (forwardTsn { chunk with
      sid := chunk.sid ++ [paramType]
      ssn := chunk.ssn ++ [BitVec.ofNat 16 length] })
  | asconf chunk => do
    let chunk ← parseAsconfParameter mem p paramType chunk
    .ok (asconf chunk)
  | asconfAck chunk => do
    let chunk ← parseAsconfAckParameter mem p paramType chunk
    .ok (asconfAck chunk)
  | reConfig chunk => do
    let chunk ← parseReConfigParameter mem p cLen parptr paramType length chunk
    .ok (reConfig chunk)

/-- The code behind the loop, up to `addChunk`. -/
def finish (cLen : ℕ) : ParameterLoop → Result SCTPChunk
  | init false vars => do
    if vars.chunk.hmacTypes ≠ [] then
      checkBlock vars.rplen
      checkBlock vars.cplen
      checkBlock vars.hplen
    .ok (.init vars.chunk)
  -- the lengths are cut to the size of the block first
  | init true vars => .ok (.initAck vars.chunk)
  | heartbeat chunk => .ok (.heartbeat chunk cLen)
  | heartbeatAck chunk => .ok (.heartbeatAck chunk cLen)
  | forwardTsn chunk => .ok (.forwardTsn chunk cLen)
  | asconf chunk => .ok (.asconf chunk cLen)
  | asconfAck chunk => .ok (.asconfAck chunk cLen)
  | reConfig chunk => .ok (.reConfig chunk cLen)

end ParameterLoop

/-- How a case of the `switch` on the chunk type ends. -/
inductive Parsed where
  /-- With the memory and the chunk to add, if any. -/
  | done (mem : Bytes) (chunk : Option SCTPChunk)
  /-- In front of a parameter loop that starts at `parptr`. -/
  | parameters (loop : ParameterLoop) (parptr : ℕ)
  /-- In front of the call of `parse` for a dropped packet. -/
  | droppedPacket
  /-- With `continue`, which leaves `chunkPtr` where it is. -/
  | repeated
deriving DecidableEq

/-- `throw cRuntimeError(text)` unless the length is accepted. -/
def assertLength (accepted : Bool) (text : String) : Result Unit :=
  if accepted then .ok () else .error (.cRuntimeError text)

def parseData (mem : Bytes) (chunk woPadding cLen : ℕ) : Result Parsed := do
  assertLength (cLen ≠ 0) "Incoming SCTP packet contains data chunk with length==0"
  let flags ← readByte mem (chunk + 1)
  let tsn ← ntohl mem (chunk + 4)
  let sid ← ntohs mem (chunk + 8)
  let ssn ← ntohs mem (chunk + 10)
  let ppid ← ntohl mem (chunk + 12)
  let data ← (if woPadding > 16 then do
      let bytes ← readBytes mem (chunk + 16) (woPadding - 16)
      .ok (some bytes)
    else .ok none : Result (Option Bytes))
  let byteLength : ℤ := 16 + (woPadding - 16 : ℕ)
  .ok (.done mem (some (.data
    { uBit := flags &&& 0x04 != 0, bBit := flags &&& 0x02 != 0, eBit := flags &&& 0x01 != 0
      iBit := flags &&& 0x08 != 0, tsn, sid, ssn, ppid, data, byteLength })))

/-- The fixed part of `INIT` and `INIT_ACK`. -/
def parseInit (ack : Bool) (mem : Bytes) (chunk : ℕ) : Result Parsed := do
  let initTag ← ntohl mem (chunk + 4)
  let a_rwnd ← ntohl mem (chunk + 8)
  let noOutStreams ← ntohs mem (chunk + 12)
  let noInStreams ← ntohs mem (chunk + 14)
  let initTSN ← ntohl mem (chunk + 16)
  .ok (.parameters (.init ack { chunk :=
    { initTag, a_rwnd, noOutStreams, noInStreams, initTSN, byteLength := 20 } }) 0)

def parseSack (mem : Bytes) (chunk cLen : ℕ) : Result Parsed := do
  let cumTsnAck ← ntohl mem (chunk + 4)
  let a_rwnd ← ntohl mem (chunk + 8)
  let ngaps := (← ntohs mem (chunk + 12)).toNat
  let ndups := (← ntohs mem (chunk + 14)).toNat
  let starts ← readShorts mem (chunk + 16) 4 ngaps
  let stops ← readShorts mem (chunk + 18) 4 ngaps
  let dups := chunk + 16 + ngaps * 4
  let high ← readShorts mem dups 4 ndups
  let low ← readShorts mem (dups + 2) 4 ndups
  .ok (.done mem (some (.sack
    { cumTsnAck, a_rwnd
      gapStart := starts.map (·.setWidth 32 + cumTsnAck)
      gapStop := stops.map (·.setWidth 32 + cumTsnAck)
      dupTsns := List.zipWith (fun h l => h ++ l) high low
      byteLength := cLen })))

def parseCookieEcho (mem : Bytes) (chunk woPadding cLen : ℕ) : Result Parsed := do
  let stateCookie ← (if cLen > 4 then do
      let creationTime ← ntohl mem (chunk + 4)
      let localTag ← ntohl mem (chunk + 8)
      let peerTag ← ntohl mem (chunk + 12)
      let localTieTag ← readBytes mem (chunk + 16) 32
      let peerTieTag ← readBytes mem (chunk + 48) 32
      .ok (some { creationTime, localTag, peerTag, localTieTag, peerTieTag })
    else .ok none : Result (Option SCTPCookie))
  .ok (.done mem (some (.cookieEcho stateCookie woPadding)))

/-- The cause code is compared as it stands. -/
def parseError (mem : Bytes) (chunk : ℕ) : Result Parsed := do
  let causeCode ← hostShort mem (chunk + 4)
  if causeCode = 261 then
    let length := (← hostShort mem (chunk + 6)).toNat
    .ok (.done mem (some (.error (some length) (4 + addPadding length))))
  else
    .ok (.done mem (some (.error none 4)))

/-- The comparison of the digest with the array; `getHMAC` fails behind its end. -/
def hmacMatches : Bytes → Bytes → Result Bool
  | [], _ => .ok true
  | _ :: _, [] => .error .outOfRange
  | r :: rs, h :: hs => if r ≠ h then .ok false else hmacMatches rs hs

def parseAuth (mem : Bytes) (chunk woPadding cLen : ℕ) : Result Parsed := do
  let sharedKey ← ntohs mem (chunk + 4)
  let hMacIdentifier ← ntohs mem (chunk + 6)
  let HMAC ← (if cLen > 8 then readBytes mem (chunk + 8) (woPadding - 8) else .ok [] : Result Bytes)
  let hMacOk ← hmacMatches hmacSha1 HMAC
  -- the digest is zeroed in the buffer before it is computed again
  .ok (.done (memcpy mem (chunk + 8) (List.replicate HMAC.length 0))
    (some (.auth { sharedKey, hMacIdentifier, hMacOk, HMAC } woPadding)))

def parseAsconf (mem : Bytes) (chunk cLen : ℕ) : Result Parsed := do
  let serialNumber ← ntohl mem (chunk + 4)
  if cLen > 8 then
    let parlen := addPadding (← ntohs mem (chunk + 10)).toNat
    let paramType ← ntohs mem (chunk + 8)
    if paramType ≠ 5 then
      assertLength (parlen ≠ 0) "ParamLen == 0."
      .ok .repeated
    else
      let address ← ntohl mem (chunk + 12)
      .ok (.parameters (.asconf { serialNumber, addressParam := .ipv4 address }) parlen)
  else
    .ok (.parameters (.asconf { serialNumber }) 0)

/-- The `switch` on the chunk type, for the chunk at the address `chunk`. -/
def parseChunk (mem : Bytes) (chunk woPadding cLen : ℕ) : Option ChunkType → Result Parsed
  | some .DATA => parseData mem chunk woPadding cLen
  | some .INIT => parseInit false mem chunk
  | some .INIT_ACK => parseInit true mem chunk
  | some .SACK => parseSack mem chunk cLen
  | some .HEARTBEAT => .ok (.parameters (.heartbeat {}) 0)
  | some .HEARTBEAT_ACK => .ok (.parameters (.heartbeatAck {}) 0)
  | some .ABORT => do
    let flags ← readByte mem (chunk + 1)
    .ok (.done mem (some (.abort (flags &&& 0x01 != 0) woPadding)))
  | some .COOKIE_ECHO => parseCookieEcho mem chunk woPadding cLen
  | some .COOKIE_ACK => .ok (.done mem (some (.cookieAck cLen)))
  | some .SHUTDOWN => do
    let cumTsnAck ← ntohl mem (chunk + 4)
    .ok (.done mem (some (.shutdown cumTsnAck cLen)))
  | some .SHUTDOWN_ACK => .ok (.done mem (some (.shutdownAck cLen)))
  | some .SHUTDOWN_COMPLETE => do
    let flags ← readByte mem (chunk + 1)
    .ok (.done mem (some (.shutdownComplete (flags &&& 0x01 != 0) cLen)))
  | some .ERRORTYPE => parseError mem chunk
  | some .FORWARD_TSN => do
    let newCumTsn ← ntohl mem (chunk + 4)
    .ok (.parameters (.forwardTsn { newCumTsn }) 0)
  | some .AUTH => parseAuth mem chunk woPadding cLen
  | some .ASCONF => parseAsconf mem chunk cLen
  | some .ASCONF_ACK => do
    let serialNumber ← ntohl mem (chunk + 4)
    .ok (.parameters (.asconfAck { serialNumber }) 0)
  | some .RE_CONFIG => .ok (.parameters (.reConfig {}) 0)
  | some .PKTDROP => do
    -- the chunk for the upper layer is filled and not added
    let _ ← readByte mem (chunk + 1)
    let _ ← ntohl mem (chunk + 4)
    let _ ← ntohl mem (chunk + 8)
    let _ ← ntohs mem (chunk + 12)
    .ok .droppedPacket
  | none => .ok (.done mem none)

/-- What an iteration of the chunk loop adds to `chunkPtr`; an `ABORT` chunk sets `cLen` to
the length without padding. -/
def chunkAdvance (chunkType : Option ChunkType) (woPadding : ℕ) : ℕ :=
  if chunkType = some .ABORT then woPadding else addPadding woPadding

/-- The buffer, and the message that is being filled. -/
structure State where
  mem : Bytes
  dest : SCTPMessage
deriving DecidableEq

/-- A program point of `parse`. `caller` is the message of the call that this one is
nested in. -/
inductive Frame where
  /-- In front of the common header. -/
  | call (buf bufsize : ℕ) (caller : Option SCTPMessage)
  /-- At the head of the chunk loop. -/
  | chunks (buf bufsize chunkPtr : ℕ) (caller : Option SCTPMessage)
  /-- At the head of a parameter loop of the chunk at the address `chunk`. -/
  | parameters (loop : ParameterLoop) (chunk cLen parptr : ℕ)
deriving DecidableEq

def parseCommonHeader (mem : Bytes) (buf bufsize : ℕ) : Result SCTPMessage := do
  let tempChecksum ← hostLong mem (buf + 8)
  let packet ← readBytes mem buf bufsize
  let chksum := checksum (memcpy packet 8 [0, 0, 0, 0])
  let srcPort ← ntohs mem buf
  let destPort ← ntohs mem (buf + 2)
  let tag ← ntohl mem (buf + 4)
  .ok { srcPort, destPort, tag, checksumOk := tempChecksum == chksum, byteLength := 12 }

/-- The end of an iteration of the chunk loop; `next` is the position of the next chunk. -/
def Parsed.conclude (s : State) (buf bufsize chunkPtr next cLen : ℕ)
    (caller : Option SCTPMessage) : Parsed → State × Move Frame
  | done mem none => ({ s with mem }, .again (.chunks buf bufsize next caller))
  | done mem (some c) =>
    ({ mem, dest := s.dest.addChunk c }, .again (.chunks buf bufsize next caller))
  | parameters loop parptr =>
    (s, .enter (.parameters loop (buf + 12 + chunkPtr) cLen parptr)
      (.chunks buf bufsize next caller))
  | droppedPacket =>
    ({ s with dest := {} },
      .enter (.call (buf + 12 + chunkPtr + 16) (toUint32 (bufsize - 12 - chunkPtr - 16))
        (some s.dest)) (.chunks buf bufsize next caller))
  | repeated => (s, .again (.chunks buf bufsize chunkPtr caller))

/-- One iteration of the innermost loop. -/
def round (s : State) : Frame → Result (State × Move Frame)
  | .call buf bufsize caller => do
    let dest ← parseCommonHeader s.mem buf bufsize
    .ok ({ s with dest }, .again (.chunks buf bufsize 0 caller))
  | .chunks buf bufsize chunkPtr caller =>
    if chunkPtr < toUint32 (bufsize - 12) then do
      let chunk := buf + 12 + chunkPtr
      let chunkType := ChunkType.ofCode (← readByte s.mem chunk).toNat
      let woPadding := (← ntohs s.mem (chunk + 2)).toNat
      let cLen := addPadding woPadding
      let parsed ← parseChunk s.mem chunk woPadding cLen chunkType
      let next := toUint32 (chunkPtr + chunkAdvance chunkType woPadding)
      .ok (parsed.conclude s buf bufsize chunkPtr next cLen caller)
    else
      .ok ({ s with dest := caller.getD s.dest }, .leave)
  | .parameters loop chunk cLen parptr =>
    if loop.headerSize + parptr < cLen ∧ ¬ loop.stopProcessing then do
      let p := chunk + loop.headerSize + parptr
      let paramType ← ntohs s.mem p
      let length := (← ntohs s.mem (p + 2)).toNat
      let loop' ← loop.parseParameter s.mem p cLen parptr paramType length
      .ok (s, .again (.parameters loop' chunk cLen (parptr + loop.advance paramType length)))
    else do
      let c ← loop.finish cLen
      .ok ({ s with dest := s.dest.addChunk c }, .leave)

/-- `parse(buf, bufsize, dest)`, for a buffer of its own. -/
def parse (buf : Bytes) : Config State Frame :=
  ⟨{ mem := buf, dest := {} }, [.call 0 buf.length none]⟩

end Inet.Sctp.SCTPSerializer
