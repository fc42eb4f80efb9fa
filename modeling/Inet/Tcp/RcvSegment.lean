import Inet.Tcp.VirtualDataRcvQueue

/-!
# Processing of an incoming TCP segment

`processSegment1stThru8th` follows the steps of RFC 793 for a segment that arrives in a
synchronized state: the check of the sequence number, the RST, SYN and ACK bits, the segment text,
and the FIN bit. The receive side of the connection is modelled with all it reads and writes. The
send side, which runs in between, is represented by the values it leaves in the variables that
both sides use.
-/

namespace Inet.Tcp

/-- The states of the connection in which `processSegment1stThru8th` is called. -/
inductive TCPState where
  | SYN_RCVD
  | ESTABLISHED
  | CLOSE_WAIT
  | LAST_ACK
  | FIN_WAIT_1
  | FIN_WAIT_2
  | CLOSING
  | TIME_WAIT
deriving DecidableEq

/-- The event codes that `processSegment1stThru8th` returns. -/
inductive TCPEventCode where
  | IGNORE
  | CLOSE
  | RCV_ACK
  | RCV_FIN
  | RCV_FIN_ACK
  | RCV_RST
  | RCV_UNEXP_SYN
deriving DecidableEq

/-- The variables that the processing of a segment reads and the send side writes. -/
structure SendVariables where
  sndUna : Uint32
  sndNxt : Uint32
  sndMax : Uint32
  afterRto : Bool := false
  sendFin : Bool := false
  sndFinSeq : Uint32 := 0
  finAckRcvd : Bool := false
  /-- The window, which is updated whenever a segment is sent. -/
  rcvWnd : Uint32

structure TCPStateVariables extends SendVariables where
  rcvNxt : Uint32
  finRcvd : Bool := false
  rcvFinSeq : Uint32 := 0
  maxRcvBuffer : Uint32
  ackNow : Bool := false
  sackEnabled : Bool := false
  sndSack : Bool := false
  sndDsack : Bool := false
  startSeqno : Uint32 := 0
  endSeqno : Uint32 := 0

/-- The connection, with the receive queue that stores no data. The other receive queues keep the
sequence numbers in the same way. -/
structure TCPConnection where
  fsm : TCPState
  state : TCPStateVariables
  receiveQueue : TCPVirtualDataRcvQueue Region
  useDataNotification : Bool := false

/-- What the rest of the connection does while a segment is processed. -/
structure Surroundings where
  /-- PAWS finds that the segment is too old. -/
  pawsRejects : Bool := false
  /-- The variables when the sequence number is checked. -/
  atCheck : SendVariables
  /-- The answer of `processAckInEstabEtc`, and the variables after it. -/
  ackOk : Bool := true
  afterAck : SendVariables
  /-- The variables after an ACK has been sent or scheduled for the segment. -/
  atEnd : SendVariables

namespace TCPVirtualDataRcvQueue

variable {μ : Type}

def createRegionFromSegment (tcpseg : TCPSegment μ) : Region :=
  ⟨tcpseg.sequenceNo, tcpseg.endSeq⟩

def insertBytesFromSegment (queue : TCPVirtualDataRcvQueue Region) (tcpseg : TCPSegment μ) :
    Result (TCPVirtualDataRcvQueue Region) :=
  queue.insertRegion (createRegionFromSegment tcpseg)

/-- The loop that extracts everything up to `seq`; the packets go to the application. -/
def extractAll (seq : Uint32) :
    ℕ → TCPVirtualDataRcvQueue Region → Result (TCPVirtualDataRcvQueue Region)
  | 0, _ => .error .outOfFuel
  | fuel + 1, queue => do
      let (msg, queue) ← queue.extractTo seq
      match msg with
      | some _ => extractAll seq fuel queue
      | none => .ok queue

end TCPVirtualDataRcvQueue

/-- The event, the connection and the segment after processing. `accepted` records whether the
text of the segment has been inserted into the receive queue. -/
structure Processed (μ : Type) where
  event : TCPEventCode
  conn : TCPConnection
  tcpseg : TCPSegment μ
  accepted : Bool := false

namespace TCPConnection

variable {μ : Type}

def withSendVariables (conn : TCPConnection) (vars : SendVariables) : TCPConnection :=
  { conn with state := { conn.state with toSendVariables := vars } }

def isSegmentAcceptable (conn : TCPConnection) (tcpseg : TCPSegment μ) : Bool :=
  let state := conn.state
  let len := BitVec.ofNat 32 tcpseg.payloadLength
  let seqNo := tcpseg.sequenceNo
  let ackNo := tcpseg.ackNo
  let rcvWndEnd := state.rcvNxt + state.rcvWnd
  let ret :=
    if len = 0 then
      if state.rcvWnd = 0 then seqNo == state.rcvNxt
      -- accept an ACK on end of window
      else seqLE state.rcvNxt seqNo && seqLE seqNo rcvWndEnd
    else if state.rcvWnd = 0 then false
    else
      (seqLE state.rcvNxt seqNo && seqLess seqNo rcvWndEnd) ||
        (seqLess state.rcvNxt (seqNo + len) && seqLE (seqNo + len) rcvWndEnd)
  if !ret && len == 0 then
    if !state.afterRto then seqLess state.sndUna ackNo && seqLE ackNo state.sndNxt
    else seqLess state.sndUna ackNo && seqLE ackNo state.sndMax
  else ret

def hasEnoughSpaceForSegmentInReceiveQueue (conn : TCPConnection) (tcpseg : TCPSegment μ) :
    Bool :=
  let firstSeq := conn.receiveQueue.getFirstSeqNo
  seqLE firstSeq tcpseg.sequenceNo && seqLE tcpseg.endSeq (firstSeq + conn.state.maxRcvBuffer)

/-- An unacceptable segment is answered with an ACK, which reports a duplicate. -/
def rejectSegment (conn : TCPConnection) (tcpseg : TCPSegment μ) : TCPConnection :=
  if !tcpseg.rstBit && !tcpseg.synBit && decide (tcpseg.payloadLength > 0) &&
      conn.state.sackEnabled && seqLess tcpseg.endSeq conn.state.rcvNxt then
    { conn with state := { conn.state with
      startSeqno := tcpseg.sequenceNo, endSeqno := tcpseg.endSeq, sndDsack := true } }
  else conn

/-- The event code of a FIN that has been passed. -/
def finEvent (conn : TCPConnection) : TCPEventCode :=
  if conn.fsm = .FIN_WAIT_1 ∧ conn.state.finAckRcvd then .RCV_FIN_ACK else .RCV_FIN

/-- The text of the segment has not moved `rcv_nxt`. -/
def noteOutOfOrder (conn : TCPConnection) (tcpseg : TCPSegment μ) (oldUsedRcvBuffer : Uint32) :
    TCPConnection :=
  if conn.state.sackEnabled then
    let duplicate : Bool := oldUsedRcvBuffer = conn.receiveQueue.getAmountOfBufferedBytes
    { conn with state := { conn.state with
      startSeqno := tcpseg.sequenceNo
      endSeqno := tcpseg.endSeq
      sndDsack := conn.state.sndDsack || duplicate
      sndSack := conn.state.sndSack || !duplicate } }
  else conn

/-- `process_READ_REQUEST`: all data in order goes to the application. -/
def processReadRequest (conn : TCPConnection) : Result TCPConnection := do
  let receiveQueue ← conn.receiveQueue.extractAll conn.state.rcvNxt
    (conn.receiveQueue.regionList.length + 1)
  .ok { conn with receiveQueue }

/-- Forward the data to the application, unless it asks for it itself. -/
def forwardData (conn : TCPConnection) : Result TCPConnection :=
  if conn.useDataNotification then .ok conn else conn.processReadRequest

/-- If the segment has filled the gap up to a FIN that came before, pass that FIN. -/
def passStoredFin (conn : TCPConnection) (event : TCPEventCode) : TCPEventCode × TCPConnection :=
  if conn.state.finRcvd && conn.state.rcvNxt == conn.state.rcvFinSeq then
    (conn.finEvent, { conn with state := { conn.state with
      ackNow := true, rcvNxt := conn.state.rcvFinSeq + 1 } })
  else (event, conn)

def usedRcvBuffer (conn : TCPConnection) : Uint32 :=
  conn.state.maxRcvBuffer - conn.receiveQueue.getAmountOfFreeBytes conn.state.maxRcvBuffer

/-- The text of a segment that has been trimmed to the window and fits into the receive queue. -/
def insertText (conn : TCPConnection) (tcpseg : TCPSegment μ) (event : TCPEventCode) :
    Result (TCPEventCode × TCPConnection) := do
  let oldUsedRcvBuffer := conn.usedRcvBuffer
  let oldRcvNxt := conn.state.rcvNxt
  let receiveQueue ← conn.receiveQueue.insertBytesFromSegment tcpseg
  let conn := { conn with
    receiveQueue, state := { conn.state with rcvNxt := receiveQueue.rcvNxt } }
  if oldRcvNxt = conn.state.rcvNxt then
    .ok (event, conn.noteOutOfOrder tcpseg oldUsedRcvBuffer)
  else do
    let conn ← conn.forwardData
    .ok (conn.passStoredFin event)

/-- Eighth step, the FIN bit. -/
def processFin (conn : TCPConnection) (tcpseg : TCPSegment μ) (event : TCPEventCode) :
    TCPEventCode × TCPConnection :=
  if tcpseg.finBit then
    let finSeq := tcpseg.endSeq
    if conn.state.rcvNxt = finSeq then
      (conn.finEvent, { conn with state := { conn.state with
        ackNow := true, rcvNxt := conn.state.rcvNxt + 1 } })
    else
      (event, { conn with state := { conn.state with
        ackNow := true, finRcvd := true, rcvFinSeq := finSeq } })
  else (event, conn)

/-- If text or FIN have moved `rcv_nxt` and the queue is not empty, the ACK bears a SACK. -/
def noteAdvance (conn : TCPConnection) (tcpseg : TCPSegment μ) (oldRcvNxt : Uint32) :
    TCPConnection :=
  if oldRcvNxt ≠ conn.state.rcvNxt ∧ conn.state.sackEnabled ∧
      conn.receiveQueue.regionList.length ≠ 0 then
    { conn with state := { conn.state with
      startSeqno := tcpseg.sequenceNo, endSeqno := tcpseg.endSeq, sndSack := true,
      ackNow := true } }
  else conn

/-- The CLOSE that has been deferred until our own FIN was sent comes before any other event. -/
def deferredClose (conn : TCPConnection) (event : TCPEventCode) : TCPEventCode :=
  if (conn.fsm = .ESTABLISHED ∨ conn.fsm = .SYN_RCVD) ∧ conn.state.sendFin ∧
      conn.state.sndNxt = conn.state.sndFinSeq + 1 then
    .CLOSE
  else event

/-- A segment with one byte may be a persist probe. -/
def noteProbe (conn : TCPConnection) (tcpseg : TCPSegment μ) : TCPConnection :=
  if tcpseg.payloadLength = 1 then { conn with state := { conn.state with ackNow := true } }
  else conn

/-- The states in which segment text is processed. -/
def takesText (conn : TCPConnection) : Bool :=
  conn.fsm == .SYN_RCVD || conn.fsm == .ESTABLISHED || conn.fsm == .FIN_WAIT_1 ||
    conn.fsm == .FIN_WAIT_2

/-- Eighth step and the end. -/
def processFinAndFinish (conn : TCPConnection) (tcpseg : TCPSegment μ) (oldRcvNxt : Uint32)
    (atEnd : SendVariables) (event : TCPEventCode) (accepted : Bool) : Processed μ :=
  let (event, conn) := conn.processFin tcpseg event
  let conn := (conn.noteAdvance tcpseg oldRcvNxt).withSendVariables atEnd
  { event := conn.deferredClose event, conn, tcpseg, accepted }

/-- Seventh step, the segment text, and what follows. -/
def processText (conn : TCPConnection) (tcpseg : TCPSegment μ) (atEnd : SendVariables)
    (event : TCPEventCode) : Result (Processed μ) :=
  let oldRcvNxt := conn.state.rcvNxt
  if conn.takesText ∧ tcpseg.payloadLength > 0 then do
    let conn := conn.noteProbe tcpseg
    let tcpseg ← tcpseg.truncateSegment conn.state.rcvNxt (conn.state.rcvNxt + conn.state.rcvWnd)
    if conn.hasEnoughSpaceForSegmentInReceiveQueue tcpseg then do
      let (event, conn) ← conn.insertText tcpseg event
      .ok (conn.processFinAndFinish tcpseg oldRcvNxt atEnd event true)
    else
      -- the buffer has run out, the segment is dropped
      .ok { event := .IGNORE, conn, tcpseg }
  else .ok (conn.processFinAndFinish tcpseg oldRcvNxt atEnd event false)

/-- The event code after the ACK of a segment has been processed. -/
def ackEvent (conn : TCPConnection) : TCPEventCode :=
  if conn.fsm = .SYN_RCVD then .RCV_ACK
  else if conn.fsm = .FIN_WAIT_1 ∧ conn.state.finAckRcvd then .RCV_ACK
  else if conn.fsm = .CLOSING ∧ conn.state.finAckRcvd then .RCV_ACK
  else .IGNORE

/-- Fifth step, the ACK field, and what follows. -/
def processAck (conn : TCPConnection) (tcpseg : TCPSegment μ) (env : Surroundings) :
    Result (Processed μ) :=
  if conn.fsm = .SYN_RCVD ∧
      !(seqLE conn.state.sndUna tcpseg.ackNo && seqLE tcpseg.ackNo conn.state.sndNxt) then
    .ok { event := .IGNORE, conn, tcpseg }
  else if conn.fsm ≠ .TIME_WAIT ∧ !env.ackOk then
    .ok { event := .IGNORE, conn := conn.withSendVariables env.afterAck, tcpseg }
  else
    let conn := conn.withSendVariables env.afterAck
    if conn.fsm = .LAST_ACK ∧ conn.state.sendFin ∧ tcpseg.ackNo = conn.state.sndFinSeq + 1 then
      .ok { event := .RCV_ACK, conn, tcpseg }
    else conn.processText tcpseg env.atEnd conn.ackEvent

def processSegment1stThru8th (conn : TCPConnection) (tcpseg : TCPSegment μ)
    (env : Surroundings) : Result (Processed μ) :=
  let conn := conn.withSendVariables env.atCheck
  if env.pawsRejects || !conn.isSegmentAcceptable tcpseg then
    .ok { event := .IGNORE, conn := conn.rejectSegment tcpseg, tcpseg }
  else if tcpseg.rstBit then .ok { event := .RCV_RST, conn, tcpseg }
  else if tcpseg.synBit then do
    assert (conn.isSegmentAcceptable tcpseg) "isSegmentAcceptable(tcpseg)"
    .ok { event := .RCV_UNEXP_SYN, conn, tcpseg }
  else if !tcpseg.ackBit then .ok { event := .IGNORE, conn, tcpseg }
  else conn.processAck tcpseg env

end TCPConnection

end Inet.Tcp
