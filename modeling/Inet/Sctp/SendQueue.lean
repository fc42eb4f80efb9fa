import Inet.Sctp.SCTPMessage

/-!
# The send queues of an association

Messages of the application wait in two queues for each stream. A send opportunity
fragments the messages at the front of the queues, takes one message or fragment
from the stream that the scheduler chooses, and gives it the next TSN.

A scheduler is any choice of a stream, together with the stream that it leaves in
`lastStreamScheduled`: one of the schedulers of the source does not record its choice.
The numbers that only other parts of the code read (the counters of queued bytes,
PR-SCTP parameters, SACK flags) are left out.
-/

namespace Inet.Sctp

/-- A message of the application, or a fragment of it with the same number. -/
structure SCTPDataMsg where
  msgNum : ℕ
  sid : ℕ
  ordered : Bool
  fragment : Bool := false
  bBit : Bool := false
  eBit : Bool := false
  booksize : ℕ
  data : Bytes

/-- What a DATA chunk says, apart from its TSN, and the message it belongs to. -/
structure Fragment where
  msgNum : ℕ
  sid : ℕ
  ordered : Bool
  ssn : ℕ
  bbit : Bool
  ebit : Bool
  data : Bytes
deriving DecidableEq

/-- `SCTPDataVariables` of a chunk that has been sent. -/
structure SentData extends Fragment where
  tsn : Uint32

structure SCTPSendStream where
  streamQ : List SCTPDataMsg := []
  unorderedStreamQ : List SCTPDataMsg := []
  /-- A `uint16`. -/
  nextStreamSeqNum : ℕ := 0

structure SendParameters where
  outboundStreams : ℕ
  fragPoint : ℕ
  /-- What is added to the length of a message for its `booksize`. -/
  header : ℕ
  padding : Bool

structure SendState where
  sendStreams : ℕ → SCTPSendStream := fun _ => {}
  lastMsgWasFragment : Bool := false
  lastStreamScheduled : ℕ := 0
  nextTSN : Uint32
  msgNum : ℕ := 0
  /-- The messages that have been accepted from the application. -/
  accepted : List SCTPDataMsg := []
  /-- The chunks that have left, in this order. -/
  sent : List SentData := []

namespace SCTPSendStream

/-- The queue that the next message of the stream is taken from. -/
def nextQueue (stream : SCTPSendStream) : List SCTPDataMsg :=
  if stream.unorderedStreamQ ≠ [] then stream.unorderedStreamQ else stream.streamQ

def setNextQueue (stream : SCTPSendStream) (q : List SCTPDataMsg) : SCTPSendStream :=
  if stream.unorderedStreamQ ≠ [] then { stream with unorderedStreamQ := q }
  else { stream with streamQ := q }

/-- A new message goes to the end of its queue. -/
def insert (stream : SCTPSendStream) (msg : SCTPDataMsg) : SCTPSendStream :=
  if msg.ordered then { stream with streamQ := stream.streamQ ++ [msg] }
  else { stream with unorderedStreamQ := stream.unorderedStreamQ ++ [msg] }

end SCTPSendStream

namespace SendQueue

variable (params : SendParameters)

def booksizeOf (length : ℕ) : ℕ :=
  if params.padding then addPadding (length + params.header) else length + params.header

/-- The message is longer than `fragPoint`, if its padding counts as well. The two sides are
`int32` in the code. -/
def mustBeFragmented (msg : SCTPDataMsg) : Bool :=
  toInt (addPadding (msg.data.length + 16)) > toInt params.fragPoint + 16

/-- The pieces of `size` bytes and the rest, in at most `fuel` cuts. -/
def split (size : ℕ) : ℕ → Bytes → List Bytes
  | 0, data => [data]
  | fuel + 1, data =>
    if data.length ≤ size then [data]
    else data.take size :: split size fuel (data.drop size)

/-- The fragments of a message for the pieces of its data. -/
def fragmentsOf (msg : SCTPDataMsg) : Bool → List Bytes → List SCTPDataMsg
  | _, [] => []
  | first, d :: ds =>
    { msg with
      fragment := true, bBit := first, eBit := ds.isEmpty
      booksize := booksizeOf params d.length, data := d } :: fragmentsOf msg false ds

/-- The front of a queue, as `fragmentOutboundDataMsgs` leaves it. -/
def fragmentFront : List SCTPDataMsg → List SCTPDataMsg
  | [] => []
  | msg :: q =>
    if mustBeFragmented params msg then
      fragmentsOf params msg true (split params.fragPoint msg.data.length msg.data) ++ q
    else msg :: q

def fragmentStream (stream : SCTPSendStream) : SCTPSendStream :=
  stream.setNextQueue (fragmentFront params stream.nextQueue)

/-- Whether the front of some queue is to be fragmented and longer than `length`. -/
def anyToFragment (s : SendState) (length : ℕ) : Bool :=
  (List.range params.outboundStreams).any fun sid =>
    (s.sendStreams sid).nextQueue.head?.any fun msg =>
      mustBeFragmented params msg && length ≤ msg.data.length

/-- A division by a `fragPoint` of zero does not return, and the offset, a `uint32`, never
reaches the end of a message of 2³² bytes. -/
def fragmentOutboundDataMsgs (s : SendState) : Result SendState :=
  if params.fragPoint = 0 ∧ anyToFragment params s 0 then
    .error (.cRuntimeError "division by zero")
  else if anyToFragment params s (2 ^ 32) then .error .outOfFuel
  else
    .ok { s with sendStreams := fun sid =>
      if sid < params.outboundStreams then fragmentStream params (s.sendStreams sid)
      else s.sendStreams sid }

/-- The choice of a scheduler: a stream, and the value of `lastStreamScheduled` behind it. -/
structure Choice where
  sid : Option ℕ
  lastStreamScheduled : ℕ

/-- The stream is only changed if no fragmented message has to be finished. -/
def nextStream (s : SendState) (choice : Choice) : Option ℕ × SendState :=
  if s.lastMsgWasFragment then (some s.lastStreamScheduled, s)
  else (choice.sid, { s with lastStreamScheduled := choice.lastStreamScheduled })

/-- A message that is not fragmented is its own first and last fragment. -/
def withBits (msg : SCTPDataMsg) : SCTPDataMsg :=
  if msg.fragment then msg else { msg with bBit := true, eBit := true }

/-- The front message of the stream, if there is room for it. -/
def popMessage (s : SendState) (sid : ℕ) (availableSpace availableCwnd : ℤ) :
    SendState × Option SCTPDataMsg :=
  let stream := s.sendStreams sid
  match stream.nextQueue with
  | [] => (s, none)
  | msg :: q =>
    if toInt (addPadding (msg.data.length + 16)) ≤ availableSpace ∧
        toInt msg.booksize ≤ availableCwnd then
      let s := { s with
        sendStreams := Function.update s.sendStreams sid (stream.setNextQueue q)
        lastMsgWasFragment := msg.fragment && !msg.eBit }
      (s, some (withBits msg))
    else (s, none)

def dequeueOutboundDataMsg (s : SendState) (availableSpace availableCwnd : ℤ) (choice : Choice) :
    Result (SendState × Option SCTPDataMsg) := do
  let s ← fragmentOutboundDataMsgs params s
  match nextStream s choice with
  | (none, s) => .ok (s, none)
  | (some sid, s) =>
    if sid < params.outboundStreams then .ok (popMessage s sid availableSpace availableCwnd)
    else .error .invalidIterator

/-- The SSN of the chunk, and the next one of the stream. -/
def makeDataVarFromDataMsg (stream : SCTPSendStream) (msg : SCTPDataMsg) :
    SCTPSendStream × Fragment :=
  let fragment (ssn : ℕ) : Fragment :=
    { msgNum := msg.msgNum, sid := msg.sid, ordered := msg.ordered, ssn
      bbit := msg.bBit, ebit := msg.eBit, data := msg.data }
  if msg.ordered then
    let nextSSN := if msg.eBit then stream.nextStreamSeqNum + 1 else stream.nextStreamSeqNum
    ({ stream with nextStreamSeqNum := if nextSSN > 65535 then 0 else nextSSN },
      fragment stream.nextStreamSeqNum)
  else (stream, fragment 0)

/-- The part of `sendOnPath` that sends new data. -/
def sendData (s : SendState) (availableSpace availableCwnd : ℤ) (choice : Choice) :
    Result SendState := do
  let (s, datMsg) ← dequeueOutboundDataMsg params s availableSpace availableCwnd choice
  match datMsg with
  | none => .ok s
  | some msg =>
    let (stream, fragment) := makeDataVarFromDataMsg (s.sendStreams msg.sid) msg
    .ok { s with
      sendStreams := Function.update s.sendStreams msg.sid stream
      nextTSN := s.nextTSN + 1
      sent := s.sent ++ [{ fragment with tsn := s.nextTSN }] }

/-- `process_SEND`, for a message that is not dropped at once. -/
def processSend (s : SendState) (sid : ℕ) (ordered : Bool) (data : Bytes) : Result SendState :=
  if sid < params.outboundStreams then
    let msg : SCTPDataMsg :=
      { msgNum := s.msgNum + 1, sid, ordered, booksize := booksizeOf params data.length, data }
    .ok { s with
      sendStreams := Function.update s.sendStreams sid ((s.sendStreams sid).insert msg)
      msgNum := s.msgNum + 1
      accepted := s.accepted ++ [msg] }
  else .error (.cRuntimeError "Stream with id %d not found")

inductive Event where
  | send (sid : ℕ) (ordered : Bool) (data : Bytes)
  | sendOpportunity (availableSpace availableCwnd : ℤ) (choice : Choice)

def step (s : SendState) : Event → Result SendState
  | .send sid ordered data => processSend params s sid ordered data
  | .sendOpportunity availableSpace availableCwnd choice =>
    sendData params s availableSpace availableCwnd choice

end SendQueue

end Inet.Sctp
