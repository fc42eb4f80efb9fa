import Inet.Tcp.SackUtil

/-!
# Sending data with selective acknowledgments

`sendSegment` sends up to the given number of bytes from `snd_nxt` on. After a retransmission
timeout it first moves `snd_nxt` over the octets that have been sacked or sent again.
`sendData` and `retransmitData` call it in a loop; how much is left to send is computed from the
old `snd_nxt`.
-/

namespace Inet.Tcp

def TCP_OPTION_TS_SIZE : Uint32 := 12

namespace TCPVirtualDataSendQueue

/-- The sequence number and the length of the segment. -/
def createSegmentWithBytes (queue : TCPVirtualDataSendQueue) (fromSeq numBytes : Uint32) :
    Result (Uint32 × Uint32) := do
  assert (seqLE queue.begin fromSeq && seqLE (fromSeq + numBytes) queue.end)
    "seqLE(begin, fromSeq) && seqLE(fromSeq + numBytes, end)"
  .ok (fromSeq, numBytes)

end TCPVirtualDataSendQueue

/-- The header options that `writeHeaderOptions` has to write into the next segment: the
timestamp, and if SACKs are to be reported, the number of blocks there are. -/
structure HeaderOptions where
  tsEnabled : Bool := false
  sacks : Option ℕ := none
deriving DecidableEq

namespace HeaderOptions

def TCP_OPTIONS_MAX_SIZE : ℕ := 40

/-- The length of the options. A SACK option takes as many blocks as fit and is aligned with NOPs;
the timestamp has NOPs of its own if SACKs are not to be reported. -/
def length (options : HeaderOptions) : ℕ :=
  match options.sacks with
  | none => if options.tsEnabled then 12 else 0
  | some blocks =>
    let used := if options.tsEnabled then 10 else 0
    let n := min blocks ((TCP_OPTIONS_MAX_SIZE - used - 2) / 8)
    if n = 0 then used else (if options.tsEnabled then 10 else 2) + (8 * n + 2)

theorem length_le (options : HeaderOptions) : options.length ≤ TCP_OPTIONS_MAX_SIZE := by
  rw [length]
  split
  · split_ifs <;> decide
  · dsimp only [TCP_OPTIONS_MAX_SIZE]
    split_ifs <;> omega

/-- `addSacks` resets its flags. -/
def written (options : HeaderOptions) : HeaderOptions := { options with sacks := none }

end HeaderOptions

/-- The send side together with what it writes into the headers. -/
structure DataSender extends Sender where
  options : HeaderOptions := {}
deriving DecidableEq

namespace DataSender

/-- `snd_nxt` is moved over the octets that need not be sent again. -/
def forward (conn : DataSender) : Result DataSender :=
  if conn.state.sackEnabled && conn.state.afterRto then do
    let forward ← conn.rexmitQueue.checkRexmitQueueForSackedOrRexmittedSegments conn.state.sndNxt
    .ok { conn with state := { conn.state with sndNxt := conn.state.sndNxt + forward } }
  else .ok conn

/-- The number of bytes that fit into the segment and are there. -/
def limitBytes (conn : DataSender) (bytes : Uint32) : Uint32 :=
  let buffered := conn.sendQueue.getBytesAvailable conn.state.sndNxt
  let bytes := if bytes.toNat > buffered then BitVec.ofNat 32 buffered else bytes
  let optionsLen := BitVec.ofNat 32 conn.options.length
  if bytes + optionsLen > conn.state.sndMss then conn.state.sndMss - optionsLen else bytes

/-- The segment behind the header has been sent. -/
def advance (conn : DataSender) (bytes : Uint32) : DataSender :=
  let sndNxt := conn.state.sndNxt + bytes
  let afterRto := conn.state.afterRto && !seqGE sndNxt conn.state.sndMax
  let fin := conn.state.sendFin && sndNxt == conn.state.sndFinSeq
  { conn with
    options := conn.options.written
    state := { conn.state with
      sentBytes := bytes
      afterRto
      sndNxt := if fin then conn.state.sndFinSeq + 1 else sndNxt } }

def sendSegment (conn : DataSender) (bytes : Uint32) : Result DataSender := do
  let conn ← conn.forward
  assert (decide (conn.options.length < conn.state.sndMss.toNat)) "options_len < state->snd_mss"
  let bytes := conn.limitBytes bytes
  let _ ← conn.sendQueue.createSegmentWithBytes conn.state.sndNxt bytes
  let rexmitQueue ← if conn.state.sackEnabled then
      conn.rexmitQueue.enqueueSentData conn.state.sndNxt (conn.state.sndNxt + bytes)
    else .ok conn.rexmitQueue
  .ok ({ conn with rexmitQueue }.advance bytes)

/-- What is left to send after a segment, in an `ulong`. -/
def remaining (conn : DataSender) (bytesToSend : BitVec 64) : BitVec 64 :=
  bytesToSend - conn.state.sentBytes.setWidth 64

/-- The loop of `sendData` over whole segments. -/
def sendLoop (effectiveMaxBytesSend : Uint32) :
    ℕ → DataSender → BitVec 64 → Result (DataSender × BitVec 64)
  | 0, _, _ => .error .outOfFuel
  | fuel + 1, conn, bytesToSend =>
    if bytesToSend ≥ effectiveMaxBytesSend.setWidth 64 then do
      let conn ← conn.sendSegment conn.state.sndMss
      sendLoop effectiveMaxBytesSend fuel conn (conn.remaining bytesToSend)
    else .ok (conn, bytesToSend)

/-- `sendData` starts from `snd_max`, if not after a retransmission timeout. -/
def startOfData (conn : DataSender) : DataSender :=
  if !conn.state.afterRto then
    { conn with state := { conn.state with sndNxt := conn.state.sndMax } }
  else conn

/-- What a segment with the usual options takes. -/
def effectiveMaxBytesSend (conn : DataSender) : Uint32 :=
  if conn.options.tsEnabled then conn.state.sndMss - TCP_OPTION_TS_SIZE else conn.state.sndMss

/-- The number of bytes that `sendData` is going to send, `none` if it does not send any. -/
def bytesToSend (conn : DataSender) (fullSegmentsOnly : Bool) (congestionWindow : Uint32) :
    Option (BitVec 64) :=
  let buffered := conn.sendQueue.getBytesAvailable conn.state.sndNxt
  let maxWindow := min conn.state.sndWnd.toNat congestionWindow.toNat
  let effectiveWin : ℤ := maxWindow - (conn.state.sndNxt - conn.state.sndUna).toNat
  let bytes := min effectiveWin.toNat buffered
  if buffered = 0 then none
  else if effectiveWin ≤ 0 then none
  else if fullSegmentsOnly && decide (bytes < conn.effectiveMaxBytesSend.toNat) then none
  else some (BitVec.ofNat 64 bytes)

/-- A single segment, or whole segments only. -/
def sendWhole (conn : DataSender) (bytesToSend : BitVec 64) : Result (DataSender × BitVec 64) :=
  if bytesToSend ≤ conn.state.sndMss.setWidth 64 then do
    let conn ← conn.sendSegment (bytesToSend.setWidth 32)
    .ok (conn, conn.remaining bytesToSend)
  else
    sendLoop conn.effectiveMaxBytesSend (conn.sendQueue.getBytesAvailable conn.state.sndNxt + 2)
      conn bytesToSend

/-- The last segment could be less than `snd_mss`. -/
def sendLast (conn : DataSender) (bytesToSend : BitVec 64) : Result DataSender :=
  let buffered := conn.sendQueue.getBytesAvailable conn.state.sndNxt
  if bytesToSend.toNat = buffered ∧ buffered ≠ 0 then
    conn.sendSegment (bytesToSend.setWidth 32)
  else .ok conn

/-- The highest sequence number sent is remembered. -/
def rememberMax (conn : DataSender) : DataSender :=
  if seqGreater conn.state.sndNxt conn.state.sndMax then
    { conn with state := { conn.state with sndMax := conn.state.sndNxt } }
  else conn

def sendData (conn : DataSender) (fullSegmentsOnly : Bool) (congestionWindow : Uint32) :
    Result (Bool × DataSender) :=
  let conn := conn.startOfData
  match conn.bytesToSend fullSegmentsOnly congestionWindow with
  | none => .ok (false, conn)
  | some bytesToSend => do
      let (conn, bytesToSend) ← conn.sendWhole bytesToSend
      let conn ← conn.sendLast bytesToSend
      .ok (true, conn.rememberMax)

/-- The number of bytes that `retransmitData` passes to `sendSegment`. -/
def rexmitBytes (conn : DataSender) (bytesToSend : Uint32) : Uint32 :=
  let bytes := if bytesToSend ≤ conn.state.sndMss then bytesToSend else conn.state.sndMss
  let buffered := BitVec.ofNat 32 (conn.sendQueue.getBytesAvailable conn.state.sndNxt)
  if bytes ≤ buffered then bytes else buffered

/-- The loop of `retransmitData`. -/
def rexmitLoop : ℕ → DataSender → Uint32 → Result DataSender
  | 0, _, _ => .error .outOfFuel
  | fuel + 1, conn, bytesToSend =>
    if bytesToSend > 0 then do
      let conn ← conn.sendSegment (conn.rexmitBytes bytesToSend)
      if conn.state.sendFin && conn.state.sndNxt == conn.state.sndFinSeq + 1 then .ok conn
      else rexmitLoop fuel conn (bytesToSend - conn.state.sentBytes)
    else .ok conn

def retransmitData (conn : DataSender) : Result DataSender :=
  let conn := { conn with state := { conn.state with sndNxt := conn.state.sndUna } }
  let bytesToSend := conn.state.sndMax - conn.state.sndNxt
  if bytesToSend == 0 && conn.state.sendFin && conn.state.sndFinSeq == conn.sendQueue.end then
    -- the FIN is sent again, without data
    .ok { conn with state := { conn.state with
      sndNxt := conn.sendQueue.end + 1, sndMax := conn.sendQueue.end + 1 } }
  else do
    assert (bytesToSend != 0) "bytesToSend != 0"
    rexmitLoop (conn.sendQueue.getBytesAvailable conn.state.sndNxt + 2) conn bytesToSend

end DataSender

end Inet.Tcp
