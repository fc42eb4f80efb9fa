import Inet.Sctp.GapList
import Inet.Sctp.SCTPMessage
import Inet.Library.KeyedList

/-!
# The receive queues of an association

A stream keeps the fragments of ordered and of unordered messages in two queues until
their messages can be put together, and complete messages in a delivery queue until
`pushUlp` passes them to the application. The queues are maps from the TSN of a chunk to
the chunk, in the plain order of the numbers.

`received` is a ghost: it names the received chunks whose payload is in the chunk.
-/

namespace Inet.Sctp

/-- `SCTPDataVariables` of a chunk that has been received. -/
structure SCTPDataVariables where
  tsn : Uint32
  sid : ℕ
  /-- A `uint16`. -/
  ssn : ℕ
  ordered : Bool
  bbit : Bool
  ebit : Bool
  /-- The length in bits, a `uint32`. -/
  len : ℕ
  userData : Bytes
  received : List ℕ

/-- The key of a chunk in a queue. -/
def SCTPDataVariables.key (chunk : SCTPDataVariables) : ℕ := chunk.tsn.toNat

abbrev SCTPQueue := List SCTPDataVariables

namespace SCTPQueue

def getChunk (queue : SCTPQueue) (tsn : Uint32) : Option SCTPDataVariables :=
  KeyedList.lookup SCTPDataVariables.key queue tsn.toNat

/-- The queue without the chunk at `tsn`. -/
def erase (queue : SCTPQueue) (tsn : Uint32) : SCTPQueue :=
  KeyedList.erase SCTPDataVariables.key queue tsn.toNat

/-- The chunk at its own TSN, in the place of the one that is there. -/
def set (queue : SCTPQueue) (chunk : SCTPDataVariables) : SCTPQueue :=
  KeyedList.insert SCTPDataVariables.key chunk (erase queue chunk.tsn)

/-- Every chunk is inserted under its own TSN. There is no queue if the TSN is taken. -/
def checkAndInsertChunk (queue : SCTPQueue) (chunk : SCTPDataVariables) : Option SCTPQueue :=
  if (getChunk queue chunk.tsn).isSome then none
  else some (KeyedList.insert SCTPDataVariables.key chunk queue)

/-- The callers use the chunk without a test. -/
def getAndExtractChunk (queue : SCTPQueue) (tsn : Uint32) :
    Result (SCTPDataVariables × SCTPQueue) :=
  if queue = [] then .error .nullPointer
  else match getChunk queue tsn with
    | none => .error .invalidIterator
    | some chunk => .ok (chunk, erase queue tsn)

def dequeueChunkBySSN (queue : SCTPQueue) (ssn : ℕ) : Option (SCTPDataVariables × SCTPQueue) :=
  match queue.find? fun chunk => chunk.ssn = ssn ∧ chunk.bbit ∧ chunk.ebit with
  | none => none
  | some chunk => some (chunk, erase queue chunk.tsn)

variable {queue : SCTPQueue} {chunk : SCTPDataVariables} {tsn : Uint32}

theorem key_eq {c : SCTPDataVariables} : c.key = tsn.toNat ↔ c.tsn = tsn :=
  ⟨BitVec.eq_of_toNat_eq, congrArg BitVec.toNat⟩

theorem getChunk_eq_some (h : KeyedList.Sorted SCTPDataVariables.key queue) :
    getChunk queue tsn = some chunk ↔ chunk ∈ queue ∧ chunk.tsn = tsn := by
  rw [getChunk, KeyedList.lookup_eq_some h, key_eq]

theorem getChunk_eq_none : getChunk queue tsn = none ↔ ∀ c ∈ queue, c.tsn ≠ tsn := by
  rw [getChunk, KeyedList.lookup_eq_none]
  exact forall₂_congr fun c _ => not_congr key_eq

theorem mem_erase {c : SCTPDataVariables} : c ∈ erase queue tsn ↔ c ∈ queue ∧ c.tsn ≠ tsn := by
  rw [erase, KeyedList.mem_erase, ne_eq, key_eq]

theorem checkAndInsertChunk_of_fresh (h : ∀ c ∈ queue, c.tsn ≠ chunk.tsn) :
    checkAndInsertChunk queue chunk =
      some (KeyedList.insert SCTPDataVariables.key chunk queue) := by
  rw [checkAndInsertChunk, getChunk_eq_none.mpr h]
  rfl

theorem sorted_insert_of_fresh (hsorted : KeyedList.Sorted SCTPDataVariables.key queue)
    (h : ∀ c ∈ queue, c.tsn ≠ chunk.tsn) :
    KeyedList.Sorted SCTPDataVariables.key
      (KeyedList.insert SCTPDataVariables.key chunk queue) :=
  hsorted.insert fun c hc heq => h c hc (BitVec.eq_of_toNat_eq heq)

end SCTPQueue

/-- `bytes` with `data` written over it from the index `offset` on. -/
def overwrite (bytes : Bytes) (offset : ℕ) (data : Bytes) : Bytes :=
  bytes.take offset ++ data ++ bytes.drop (offset + data.length)

/-- The first fragment of a message with the next one behind its data. -/
def SCTPDataVariables.add (firstVar processVar : SCTPDataVariables) : SCTPDataVariables :=
  { firstVar with
    len := (firstVar.len + processVar.len) % 2 ^ 32
    userData :=
      if 0 < firstVar.userData.length ∧ 0 < processVar.userData.length then
        overwrite (firstVar.userData ++ List.replicate processVar.userData.length 0)
          (firstVar.len / 8) (processVar.userData.take (processVar.len / 8))
      else firstVar.userData
    received := firstVar.received ++ processVar.received }

structure SCTPReceiveStream where
  expectedStreamSeqNum : ℕ := 0
  deliveryQ : SCTPQueue := []
  orderedQ : SCTPQueue := []
  unorderedQ : SCTPQueue := []

namespace SCTPReceiveStream

open SCTPQueue

/-- Down from `begintsn` to the first fragment, or to a TSN that is not there. -/
def firstFragment (queue : SCTPQueue) : ℕ → Uint32 → Result Uint32
  | 0, _ => .error .outOfFuel
  | fuel + 1, begintsn =>
    if (getChunk queue begintsn).any (fun chunk => !chunk.bbit) then
      firstFragment queue fuel (begintsn - 1)
    else .ok begintsn

/-- Up from `endtsn` to the last fragment, or to a TSN that is not there. -/
def lastFragment (queue : SCTPQueue) : ℕ → Uint32 → Result Uint32
  | 0, _ => .error .outOfFuel
  | fuel + 1, endtsn =>
    if (getChunk queue endtsn).any (fun chunk => !chunk.ebit) then
      lastFragment queue fuel (endtsn + 1)
    else .ok endtsn

/-- The loop that adds the fragments up to `endtsn` to the first one. -/
def addFragments (endtsn : Uint32) :
    ℕ → SCTPQueue → SCTPDataVariables → Uint32 → Result (SCTPQueue × SCTPDataVariables)
  | 0, _, _, _ => .error .outOfFuel
  | fuel + 1, queue, firstVar, begintsn =>
    let begintsn := begintsn + 1
    if begintsn ≤ endtsn then do
      let (processVar, queue) ← getAndExtractChunk queue begintsn
      addFragments endtsn fuel queue (firstVar.add processVar) begintsn
    else .ok (queue, firstVar)

/-- The first fragment stays in the queue while the others are added to it. -/
def reassemble (queue : SCTPQueue) (tsn : Uint32) : Result (SCTPQueue × Uint32) := do
  let begintsn ← firstFragment queue (queue.length + 1) tsn
  match getChunk queue begintsn with
  | none => .ok (queue, tsn)
  | some firstVar =>
    let endtsn ← lastFragment queue (queue.length + 1) begintsn
    if (getChunk queue endtsn).isSome then
      let (queue, firstVar) ← addFragments endtsn (queue.length + 1) queue firstVar begintsn
      .ok (set queue { firstVar with ebit := true }, firstVar.tsn)
    else .ok (queue, tsn)

def nextStreamSeqNum (ssn : ℕ) : ℕ := if ssn + 1 > 65535 then 0 else ssn + 1

def enqueueUnordered (stream : SCTPReceiveStream) (dchunk : SCTPDataVariables) :
    Result (SCTPReceiveStream × ℕ) := do
  let (unorderedQ, delivery) := match checkAndInsertChunk stream.unorderedQ dchunk with
    | some unorderedQ => (unorderedQ, 3)
    | none => (stream.unorderedQ, 0)
  let (unorderedQ, reassembled) ← reassemble unorderedQ dchunk.tsn
  match getChunk unorderedQ reassembled with
  | none => .error .nullPointer
  | some chunk =>
    -- the B bit is tested twice, and the E bit is not
    if chunk.bbit && chunk.bbit then
      let (chunk, unorderedQ) ← getAndExtractChunk unorderedQ reassembled
      match checkAndInsertChunk stream.deliveryQ chunk with
      | some deliveryQ => .ok ({ stream with unorderedQ, deliveryQ }, 2)
      | none => .ok ({ stream with unorderedQ }, delivery)
    else .ok ({ stream with unorderedQ }, delivery)

/-- The ordered queue with a new chunk, and what `enqueueNewDataChunk` returns for it. -/
def insertOrdered (orderedQ : SCTPQueue) (dchunk : SCTPDataVariables) : Result (SCTPQueue × ℕ) := do
  let (orderedQ, delivery) := match checkAndInsertChunk orderedQ dchunk with
    | some orderedQ => (orderedQ, 1)
    | none => (orderedQ, 0)
  if !dchunk.bbit || !dchunk.ebit then
    let (orderedQ, _) ← reassemble orderedQ dchunk.tsn
    .ok (orderedQ, 3)
  else .ok (orderedQ, delivery)

/-- The next ordered message leaves the ordered queue, if it is there. The second value says
whether the delivery queue has taken it. -/
def dequeueNext (stream : SCTPReceiveStream) : Option (SCTPReceiveStream × Bool) :=
  match dequeueChunkBySSN stream.orderedQ stream.expectedStreamSeqNum with
  | none => none
  | some (chunk, orderedQ) =>
    match checkAndInsertChunk stream.deliveryQ chunk with
    | some deliveryQ =>
      some ({ stream with
        orderedQ, deliveryQ
        expectedStreamSeqNum := nextStreamSeqNum stream.expectedStreamSeqNum }, true)
    | none => some ({ stream with orderedQ }, false)

def enqueueOrdered (stream : SCTPReceiveStream) (dchunk : SCTPDataVariables) :
    Result (SCTPReceiveStream × ℕ) := do
  let (orderedQ, delivery) ← insertOrdered stream.orderedQ dchunk
  match dequeueNext { stream with orderedQ } with
  | none => .ok ({ stream with orderedQ }, delivery)
  | some (stream, inserted) => .ok (stream, if inserted then 2 else delivery)

def enqueueNewDataChunk (stream : SCTPReceiveStream) (dchunk : SCTPDataVariables) :
    Result (SCTPReceiveStream × ℕ) :=
  if dchunk.ordered then enqueueOrdered stream dchunk
  else if dchunk.bbit && dchunk.ebit then
    match checkAndInsertChunk stream.deliveryQ dchunk with
    | some deliveryQ => .ok ({ stream with deliveryQ }, 2)
    | none => .ok (stream, 0)
  else enqueueUnordered stream dchunk

/-- The loop of `putInDeliveryQ`, which shortens the ordered queue in every round. -/
def putInDeliveryQLoop : ℕ → SCTPReceiveStream → SCTPReceiveStream
  | 0, stream => stream
  | fuel + 1, stream =>
    match dequeueNext stream with
    | none => stream
    | some (stream, _) => putInDeliveryQLoop fuel stream

def putInDeliveryQ (stream : SCTPReceiveStream) : SCTPReceiveStream :=
  putInDeliveryQLoop stream.orderedQ.length stream

/-- The messages that the loop takes out of the ordered queue although the delivery queue has their
TSNs already. -/
def lostInDelivery : ℕ → SCTPReceiveStream → List SCTPDataVariables
  | 0, _ => []
  | fuel + 1, stream =>
    match dequeueChunkBySSN stream.orderedQ stream.expectedStreamSeqNum, dequeueNext stream with
    | some (chunk, _), some (stream, inserted) =>
      (if inserted then [] else [chunk]) ++ lostInDelivery fuel stream
    | _, _ => []

end SCTPReceiveStream

structure ReceiveParameters where
  inboundStreams : ℕ
  /-- A `uint32`. -/
  messagesToPush : ℕ

/-- The part of an association that passes messages up. -/
structure ReceiveState where
  receiveStreams : ℕ → SCTPReceiveStream := fun _ => {}
  pushMessagesLeft : ℤ := 0
  nextRSid : ℕ := 0
  /-- The messages that have been passed to the application. -/
  passed : List SCTPDataVariables := []

namespace ReceiveState

open SCTPReceiveStream

/-- The end of `processDataArrived`, for a new chunk. -/
def acceptChunk (s : ReceiveState) (chunk : SCTPDataVariables) : Result ReceiveState := do
  let (stream, delivery) ← enqueueNewDataChunk (s.receiveStreams chunk.sid) chunk
  let stream := if 0 < delivery ∧ delivery < 3 then putInDeliveryQ stream else stream
  .ok { s with receiveStreams := Function.update s.receiveStreams chunk.sid stream }

/-- The loop over the delivery queue of a stream: what stays there, the number of messages
that may still be passed, and the messages passed. -/
def pushMessages (restrict : Bool) : SCTPQueue → ℤ → SCTPQueue × ℤ × List SCTPDataVariables
  | [], left => ([], left, [])
  | chunk :: queue, left =>
    if !restrict || left > 0 then
      let (queue, left, chunks) :=
        pushMessages restrict queue (if left > 0 then left - 1 else left)
      (queue, left, chunk :: chunks)
    else (chunk :: queue, left, [])

/-- No message is lost between the two. -/
theorem pushMessages_append (restrict : Bool) (queue : SCTPQueue) (left : ℤ) :
    (pushMessages restrict queue left).2.2 ++ (pushMessages restrict queue left).1 = queue := by
  induction queue generalizing left with
  | nil => rfl
  | cons c queue ih =>
    rw [pushMessages]
    split_ifs with hpush hleft
    · rw [List.cons_append, ih]
    · rw [List.cons_append, ih]
    · rfl

def pushStream (restrict : Bool) (s : ReceiveState) (sid : ℕ) : ReceiveState :=
  let stream := s.receiveStreams sid
  let (deliveryQ, left, chunks) := pushMessages restrict stream.deliveryQ s.pushMessagesLeft
  { s with
    receiveStreams := Function.update s.receiveStreams sid { stream with deliveryQ }
    pushMessagesLeft := left
    passed := s.passed ++ chunks }

/-- The number of messages that may be passed up, if it is positive. -/
def messagesLeft (params : ReceiveParameters) (s : ReceiveState) : ℤ :=
  if s.pushMessagesLeft ≤ 0 then toInt params.messagesToPush else s.pushMessagesLeft

/-- All streams are looked at once, from `nextRSid` on. -/
def pushUlp (params : ReceiveParameters) (s : ReceiveState) : Result ReceiveState :=
  if params.inboundStreams = 0 then .error .invalidIterator
  else
    let s := { s with
      receiveStreams := fun sid =>
        if sid < params.inboundStreams then putInDeliveryQ (s.receiveStreams sid)
        else s.receiveStreams sid
      pushMessagesLeft := messagesLeft params s }
    let sids := (List.range params.inboundStreams).map fun i =>
      (s.nextRSid + i) % params.inboundStreams
    let s := sids.foldl (pushStream (s.pushMessagesLeft > 0)) s
    .ok { s with nextRSid := (s.nextRSid + 1) % params.inboundStreams }

end ReceiveState

end Inet.Sctp
