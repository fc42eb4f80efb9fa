import Inet.Library.Ledger
import Inet.Sctp.QueueContents
import Inet.Sctp.RevokableGapList

/-!
# A receiver that reneges

A receiver whose buffer is full makes room for a TSN by dropping chunks with higher ones, which
it has acknowledged but which are revokable. It walks down the TSNs of the gap list, looks for a
chunk that is called by each, and takes the TSN out of the list. A chunk that has been put
together from several fragments is called by its first TSN, so that the others stay in the list.

`payload` and `ackPos` are ghosts, like `received` in the chunks: positions count the TSNs from
the initial cumulative ack on.
-/

namespace Inet.Sctp

open SerialNumber Intervals Run SCTPReceiveStream
open List

def ssnGt (ssn1 ssn2 : ℕ) : Bool :=
  (ssn1 < ssn2 && ssn2 - ssn1 > 32768) || (ssn1 > ssn2 && ssn1 - ssn2 < 32768)

namespace SCTPReceiveStream

/-- The chunk with the TSN, from the queue of its kind or from the delivery queue, and the
stream without it. -/
def takeChunk (stream : SCTPReceiveStream) (uBit : Bool) (tsn : Uint32) :
    Option (SCTPDataVariables × SCTPReceiveStream) :=
  match SCTPQueue.getChunk (stream.queueFor !uBit) tsn with
  | some chunk =>
    if uBit then some (chunk, { stream with unorderedQ := SCTPQueue.erase stream.unorderedQ tsn })
    else some (chunk, { stream with orderedQ := SCTPQueue.erase stream.orderedQ tsn })
  | none =>
    match SCTPQueue.getChunk stream.deliveryQ tsn with
    | some chunk => some (chunk, { stream with deliveryQ := SCTPQueue.erase stream.deliveryQ tsn })
    | none => none

/-- The stream waits for the SSN again if it is before the one expected. -/
def rewind (stream : SCTPReceiveStream) (ssn : ℕ) : SCTPReceiveStream :=
  { stream with
    expectedStreamSeqNum :=
      if ssnGt stream.expectedStreamSeqNum ssn then ssn else stream.expectedStreamSeqNum }

end SCTPReceiveStream

structure ReceiverParameters extends ReceiveParameters where
  localRwnd : BitVec 64
  messageAcceptLimit : Uint32 := 0
  localMsgRwnd : Uint32 := 0
  bytesToAddPerRcvdChunk : Uint32 := 0

/-- The part of an association that acknowledges chunks and keeps them. -/
structure Receiver extends ReceiveState where
  gapList : SCTPGapList
  dupList : List Uint32 := []
  newChunkReceived : Bool := false
  queuedReceivedBytes : BitVec 64 := 0
  bufferedMessages : Uint32 := 0
  /-- The position of the cumulative ack. -/
  ackPos : ℕ := 0
  /-- The payload received with the TSN at a position. -/
  payload : ℕ → Bytes := fun _ => []

namespace Receiver

/-- The position of a TSN, behind the cumulative ack. -/
def position (s : Receiver) (tsn : Uint32) : ℕ := s.ackPos + (tsn - s.gapList.cumAckTSN).toNat

def makeVarFromMsg (dataChunk : SCTPDataChunk) (userData : Bytes) (position : ℕ) :
    SCTPDataVariables where
  tsn := dataChunk.tsn
  sid := dataChunk.sid.toNat
  ssn := dataChunk.ssn.toNat
  ordered := !dataChunk.uBit
  bbit := dataChunk.bBit
  ebit := dataChunk.eBit
  len := 8 * userData.length % 2 ^ 32
  userData := userData
  received := [position]

/-- The first stream, in the order of their ids, that has a chunk with the TSN. -/
def findChunk (params : ReceiverParameters) (s : Receiver) (uBit : Bool) (tsn : Uint32) :
    Option (ℕ × SCTPDataVariables × SCTPReceiveStream) :=
  (List.range params.inboundStreams).findSome? fun sid =>
    (takeChunk (s.receiveStreams sid) uBit tsn).map fun found => (sid, found)

/-- One round of the loop of `makeRoomForTsn`, with the number of bits that it makes free. -/
def dropChunk (params : ReceiverParameters) (s : Receiver) (uBit : Bool) (tryTSN : Uint32) :
    Result (Receiver × ℕ) :=
  match findChunk params s uBit tryTSN with
  | none => .ok (s, 0)
  | some (sid, chunk, stream) => do
    let gapList ← s.gapList.removeFromGapList tryTSN
    .ok ({ s with
      receiveStreams := Function.update s.receiveStreams sid (stream.rewind chunk.ssn)
      gapList
      bufferedMessages := s.bufferedMessages - 1
      queuedReceivedBytes := s.queuedReceivedBytes - BitVec.ofNat 64 (chunk.len / 8) }, chunk.len)

def makeRoomLoop (params : ReceiverParameters) (tsn : Uint32) (length : ℕ) (uBit : Bool) :
    ℕ → Uint32 → ℕ → Receiver → Result (Receiver × Bool)
  | 0, _, _, _ => .error .outOfFuel
  | fuel + 1, tryTSN, sum, s =>
    if sum < length ∧ tryTSN > s.gapList.cumAckTSN then
      if tsnGt tsn tryTSN then .ok (s, false)
      else do
        let (s, len) ← dropChunk params s uBit tryTSN
        makeRoomLoop params tsn length uBit fuel (tryTSN - 1) ((sum + len) % 2 ^ 32) s
    else .ok (s, true)

/-- The TSNs that are tried are positive and descend. -/
def makeRoomForTsn (params : ReceiverParameters) (s : Receiver) (tsn : Uint32) (length : ℕ)
    (uBit : Bool) : Result (Receiver × Bool) :=
  makeRoomLoop params tsn length uBit (s.gapList.getHighestTSNReceived.toNat + 1)
    s.gapList.getHighestTSNReceived 0 s

def tsnIsDuplicate (s : Receiver) (tsn : Uint32) : Bool :=
  tsn ∈ s.dupList || s.gapList.tsnInGapList tsn

/-- `push_back` and `unique` on a list without repetitions. -/
def noteDuplicate (s : Receiver) (tsn : Uint32) : Receiver :=
  { s with
    dupList := if s.dupList.getLast? = some tsn then s.dupList else s.dupList ++ [tsn] }

/-- The receiver is out of buffer space. -/
def bufferFull (params : ReceiverParameters) (s : Receiver) : Bool :=
  (params.messageAcceptLimit > 0 && params.localMsgRwnd - s.bufferedMessages ≤ 0) ||
    (params.messageAcceptLimit = 0 && ((params.localRwnd - s.queuedReceivedBytes -
        (s.bufferedMessages * params.bytesToAddPerRcvdChunk).setWidth 64).setWidth 32).toInt ≤ 0)

/-- The second value says whether the chunk is accepted. -/
def checkRoom (params : ReceiverParameters) (s : Receiver) (dataChunk : SCTPDataChunk)
    (userData : Bytes) : Result (Receiver × Bool) :=
  if bufferFull params s then
    if tsnGt dataChunk.tsn s.gapList.getHighestTSNReceived then .ok (s, false)
    else if dataChunk.tsn < s.gapList.getHighestTSNReceived then
      makeRoomForTsn params s dataChunk.tsn (8 * userData.length % 2 ^ 32) dataChunk.uBit
    else .ok (s, true)
  else .ok (s, true)

/-- The gap list takes the TSN. -/
def acknowledge (s : Receiver) (tsn : Uint32) : Result Receiver := do
  let after ← s.gapList.updateGapList tsn s.newChunkReceived true
  let gapList := after.list.tryToAdvanceCumAckTSN.1
  .ok { s with
    gapList
    newChunkReceived := after.newChunkReceived
    ackPos := s.position gapList.cumAckTSN }

/-- The counters without the messages that `putInDeliveryQ` loses. -/
def discard (s : Receiver) (lost : List SCTPDataVariables) : Receiver :=
  { s with
    queuedReceivedBytes :=
      s.queuedReceivedBytes - BitVec.ofNat 64 (lost.map fun chunk => chunk.len / 8).sum
    bufferedMessages := s.bufferedMessages - BitVec.ofNat 32 lost.length }

/-- A new chunk goes into the queues of its stream. -/
def enqueue (s : Receiver) (chunk : SCTPDataVariables) (position : ℕ) : Result Receiver := do
  let (stream, ret) ← enqueueNewDataChunk (s.receiveStreams chunk.sid) chunk
  let lost := if 0 < ret ∧ ret < 3 then lostInDelivery stream.orderedQ.length stream else []
  let stream := if 0 < ret ∧ ret < 3 then putInDeliveryQ stream else stream
  .ok <| discard { s with
    receiveStreams := Function.update s.receiveStreams chunk.sid stream
    payload := Function.update s.payload position chunk.userData
    queuedReceivedBytes :=
      if 0 < ret then s.queuedReceivedBytes + BitVec.ofNat 64 chunk.userData.length
      else s.queuedReceivedBytes
    bufferedMessages :=
      if 0 < ret ∧ ret < 3 then s.bufferedMessages + 1 else s.bufferedMessages
    newChunkReceived := false } lost

def accept (params : ReceiverParameters) (s : Receiver) (dataChunk : SCTPDataChunk)
    (userData : Bytes) : Result Receiver := do
  let t ← s.acknowledge dataChunk.tsn
  if params.inboundStreams ≤ dataChunk.sid.toNat then .ok t
  else if t.newChunkReceived then
    let position := s.position dataChunk.tsn
    t.enqueue (makeVarFromMsg dataChunk userData position) position
  else .ok t

def processDataArrived (params : ReceiverParameters) (s : Receiver) (dataChunk : SCTPDataChunk) :
    Result Receiver :=
  match dataChunk.data with
  | none => .error .nullPointer
  | some userData =>
    let s := { s with newChunkReceived := false }
    -- a chunk without data aborts the association
    if userData = [] then .ok s
    else if tsnLe dataChunk.tsn s.gapList.cumAckTSN || s.tsnIsDuplicate dataChunk.tsn then
      .ok (s.noteDuplicate dataChunk.tsn)
    else do
      let (s, room) ← s.checkRoom params dataChunk userData
      if room then s.accept params dataChunk userData else .ok s

/-- The counters follow the messages that are passed to the application. -/
def pushUlp (params : ReceiverParameters) (s : Receiver) : Result Receiver := do
  let t ← s.toReceiveState.pushUlp params.toReceiveParameters
  let lost := (List.range params.inboundStreams).flatMap fun sid =>
    lostInDelivery (s.receiveStreams sid).orderedQ.length (s.receiveStreams sid)
  let chunks := t.passed.drop s.passed.length
  .ok { (s.discard lost).discard chunks with toReceiveState := t }

/-- A SACK, which `pushUlp` may send too, empties the list of duplicates. -/
inductive Event where
  | processDataArrived (dataChunk : SCTPDataChunk)
  | pushUlp
  | createSack

def step (params : ReceiverParameters) (s : Receiver) : Event → Result Receiver
  | .processDataArrived dataChunk => s.processDataArrived params dataChunk
  | .pushUlp => s.pushUlp params
  | .createSack => .ok { s with dupList := [] }

def initial (cumAckTSN : Uint32) : Receiver := { gapList := SCTPGapList.initial cumAckTSN }

/-- The TSN at a position has been acknowledged: it is at or below the cumulative TSN, or in the
gap list. -/
def Acked (s : Receiver) (x : ℕ) : Prop :=
  0 < x ∧ (x ≤ s.ackPos ∨ x < s.ackPos + 2 ^ 32 ∧
    s.gapList.tsnInGapList (ofPos s.gapList.cumAckTSN (x - s.ackPos)) = true)
deriving Decidable

/-- The chunk has the payload received with a position in the place where it belongs. -/
def HasPayload (s : Receiver) (x : ℕ) (chunk : SCTPDataVariables) : Prop :=
  ∃ xs ys, chunk.received = xs ++ x :: ys ∧ chunk.userData =
    (xs.map s.payload).flatten ++ s.payload x ++ (ys.map s.payload).flatten

/-- The payload has been passed to the application, or it is in exactly one chunk of exactly one
stream, in one of its three queues. -/
def Kept (s : Receiver) (x : ℕ) : Prop :=
  (∃ chunk ∈ s.passed, s.HasPayload x chunk) ∨ ∃ chunk, s.HasPayload x chunk ∧ ∀ sid,
      (chunks (s.receiveStreams sid)).filter (fun c => x ∈ c.received) =
        if sid = chunk.sid then [chunk] else []

/-- No acknowledged data is lost. -/
def KeepsAcked (s : Receiver) : Prop := ∀ x, s.Acked x → s.Kept x

instance (list : SCTPGapList) (removedTSN : Uint32) :
    Decidable (list.Safe (.removeFromGapList removedTSN)) :=
  inferInstanceAs (Decidable (_ ∧ _ ∧ _))

/-- If the round reaches a chunk, it is one that has a single TSN, and the gap list can lose that
one. -/
def DropsOne (params : ReceiverParameters) (s : Receiver) (uBit : Bool) (tryTSN : Uint32) : Prop :=
  ∀ found ∈ findChunk params s uBit tryTSN, found.2.1.received.length = 1 ∧
    s.gapList.Safe (.removeFromGapList tryTSN)
deriving Decidable

/-- This is so in all rounds of the loop of `makeRoomForTsn`. -/
def RoomRegular (params : ReceiverParameters) (tsn : Uint32) (length : ℕ) (uBit : Bool) :
    ℕ → Uint32 → ℕ → Receiver → Prop
  | 0, _, _, _ => True
  | fuel + 1, tryTSN, sum, s =>
    sum < length → tryTSN > s.gapList.cumAckTSN → tsnGt tsn tryTSN = false →
      DropsOne params s uBit tryTSN ∧ ∀ t len, dropChunk params s uBit tryTSN = .ok (t, len) →
          RoomRegular params tsn length uBit fuel (tryTSN - 1) ((sum + len) % 2 ^ 32) t

instance RoomRegular.decidable {params : ReceiverParameters} {tsn : Uint32} {length : ℕ}
    {uBit : Bool} : ∀ (fuel : ℕ) (tryTSN : Uint32) (sum : ℕ) (s : Receiver),
      Decidable (RoomRegular params tsn length uBit fuel tryTSN sum s)
  | 0, _, _, _ => .isTrue trivial
  | fuel + 1, tryTSN, sum, s =>
    match hdrop : dropChunk params s uBit tryTSN with
    | .error _ => decidable_of_iff (sum < length → tryTSN > s.gapList.cumAckTSN →
        tsnGt tsn tryTSN = false → DropsOne params s uBit tryTSN) (by simp [RoomRegular, hdrop])
    | .ok (t, len) =>
      have : Decidable (RoomRegular params tsn length uBit fuel (tryTSN - 1)
          ((sum + len) % 2 ^ 32) t) :=
        RoomRegular.decidable fuel (tryTSN - 1) ((sum + len) % 2 ^ 32) t
      decidable_of_iff (sum < length → tryTSN > s.gapList.cumAckTSN → tsnGt tsn tryTSN = false →
        DropsOne params s uBit tryTSN ∧ RoomRegular params tsn length uBit fuel (tryTSN - 1)
          ((sum + len) % 2 ^ 32) t) (by simp [RoomRegular, hdrop])

/-- The gap list takes the TSN as it should, and the chunk can be put together with the others of
its kind. -/
structure AcceptRegular (s : Receiver) (dataChunk : SCTPDataChunk) (userData : Bytes) : Prop where
  length : s.gapList.combinedGapList.gaps.length < MAX_GAP_COUNT
  harmless : s.gapList.combinedGapList.ZeroBlockHarmless dataChunk.tsn s.gapList.cumAckTSN
  fits : FragmentFits ((s.receiveStreams dataChunk.sid.toNat).queueFor !dataChunk.uBit)
    (makeVarFromMsg dataChunk userData 0)

structure ArrivalRegular (params : ReceiverParameters) (s : Receiver) (dataChunk : SCTPDataChunk)
    (userData : Bytes) : Prop where
  sid : dataChunk.sid.toNat < params.inboundStreams
  half : dataChunk.tsn - s.gapList.cumAckTSN ≠ 0x80000000#32
  bits : 8 * userData.length < 2 ^ 32
  window : ∀ sid < params.inboundStreams, ∀ x ∈ received (s.receiveStreams sid),
    s.position dataChunk.tsn < x + 2 ^ 32
  room : bufferFull params s = true → dataChunk.tsn < s.gapList.getHighestTSNReceived →
    RoomRegular params dataChunk.tsn (8 * userData.length % 2 ^ 32) dataChunk.uBit
      (s.gapList.getHighestTSNReceived.toNat + 1) s.gapList.getHighestTSNReceived 0 s
  accept : ∀ t, s.checkRoom params dataChunk userData = .ok (t, true) →
    t.AcceptRegular dataChunk userData

/-- A condition on the arrival of chunks whose TSN is new. -/
def Regular (params : ReceiverParameters) (s : Receiver) : Event → Prop
  | .processDataArrived dataChunk => ∀ userData, dataChunk.data = some userData →
      tsnLe dataChunk.tsn s.gapList.cumAckTSN = false → s.tsnIsDuplicate dataChunk.tsn = false →
      ArrivalRegular params s dataChunk userData
  | .pushUlp => True
  | .createSack => True

end Receiver

section

variable {base : Uint32} {payload : ℕ → Bytes} {sid : ℕ} {stream stream' : SCTPReceiveStream}
  {chunk : SCTPDataVariables} {uBit : Bool} {tsn : Uint32}

namespace SCTPReceiveStream

theorem Holds.rewind (h : Holds base payload sid stream) (ssn : ℕ) :
    Holds base payload sid (stream.rewind ssn) :=
  ⟨h.delivery, h.ordered, h.unordered, h.deliveryOrdered, h.deliveryUnordered, h.orderedUnordered⟩

/-- The chunk that is taken leaves the stream, and all others stay. -/
theorem Holds.takeChunk (h : Holds base payload sid stream)
    (htake : takeChunk stream uBit tsn = some (chunk, stream')) :
    chunk ∈ chunks stream ∧ chunk.tsn = tsn ∧ Holds base payload sid stream' ∧
      (received stream).Perm (chunk.received ++ received stream') := by
  have hcases : (chunk ∈ stream.unorderedQ ∧ chunk.tsn = tsn ∧
        stream' = { stream with unorderedQ := SCTPQueue.erase stream.unorderedQ chunk.tsn }) ∨
      (chunk ∈ stream.orderedQ ∧ chunk.tsn = tsn ∧
        stream' = { stream with orderedQ := SCTPQueue.erase stream.orderedQ chunk.tsn }) ∨
      (chunk ∈ stream.deliveryQ ∧ chunk.tsn = tsn ∧
        stream' = { stream with deliveryQ := SCTPQueue.erase stream.deliveryQ chunk.tsn }) := by
    rw [SCTPReceiveStream.takeChunk] at htake
    cases hget : SCTPQueue.getChunk (stream.queueFor !uBit) tsn with
    | some c =>
      rw [hget] at htake
      cases uBit with
      | true =>
        cases htake
        obtain ⟨hc, rfl⟩ := h.unordered.getChunk hget
        exact .inl ⟨hc, rfl, rfl⟩
      | false =>
        cases htake
        obtain ⟨hc, rfl⟩ := h.ordered.getChunk hget
        exact .inr (.inl ⟨hc, rfl, rfl⟩)
    | none =>
      rw [hget] at htake
      cases hget' : SCTPQueue.getChunk stream.deliveryQ tsn with
      | none =>
        rw [hget'] at htake
        cases htake
      | some c =>
        rw [hget'] at htake
        cases htake
        obtain ⟨hc, rfl⟩ := h.delivery.getChunk hget'
        exact .inr (.inr ⟨hc, rfl, rfl⟩)
  have hsub : ∀ queue : SCTPQueue, SCTPQueue.Names (SCTPQueue.erase queue chunk.tsn) queue :=
    fun queue => .of_subset fun c hc => (SCTPQueue.mem_erase.mp hc).1
  obtain ⟨hc, rfl, rfl⟩ | ⟨hc, rfl, rfl⟩ | ⟨hc, rfl, rfl⟩ := hcases
  · refine ⟨mem_append_right _ (mem_append_right _ hc), rfl, ⟨h.delivery, h.ordered,
      h.unordered.erase _, h.deliveryOrdered, ?_, ?_⟩, perm_iff_count.mpr fun x => ?_⟩
    · exact (h.deliveryUnordered.symm.of_names (hsub _)).symm
    · exact (h.orderedUnordered.symm.of_names (hsub _)).symm
    · have hcount := (h.unordered.received_erase hc).count_eq x
      simp only [received, count_append] at hcount ⊢
      omega
  · refine ⟨mem_append_right _ (mem_append_left _ hc), rfl, ⟨h.delivery,
      h.ordered.erase _, h.unordered, ?_, h.deliveryUnordered,
      h.orderedUnordered.of_names (hsub _)⟩,
      perm_iff_count.mpr fun x => ?_⟩
    · exact (h.deliveryOrdered.symm.of_names (hsub _)).symm
    · have hcount := (h.ordered.received_erase hc).count_eq x
      simp only [received, count_append] at hcount ⊢
      omega
  · refine ⟨mem_append_left _ hc, rfl, ⟨h.delivery.erase _, h.ordered, h.unordered,
      h.deliveryOrdered.of_names (hsub _), h.deliveryUnordered.of_names (hsub _),
      h.orderedUnordered⟩, perm_iff_count.mpr fun x => ?_⟩
    have hcount := (h.delivery.received_erase hc).count_eq x
    simp only [received, count_append] at hcount ⊢
    omega

theorem Holds.congr {payload' : ℕ → Bytes} (h : Holds base payload sid stream)
    (heq : ∀ x ∈ received stream, payload' x = payload x) : Holds base payload' sid stream := by
  have hchunk : ∀ c ∈ chunks stream, c.Intact base payload' := by
    intro c hc
    refine (h.intact hc).congr fun x hx => heq x ?_
    rw [received_eq]
    exact mem_flatMap.mpr ⟨c, hc, hx⟩
  exact
    { h with
      delivery := { h.delivery with
        intact := fun c hc => hchunk c (mem_append_left _ hc) }
      ordered := { h.ordered with
        intact := fun c hc => hchunk c (mem_append_right _ (mem_append_left _ hc)) }
      unordered := { h.unordered with
        intact := fun c hc => hchunk c (mem_append_right _ (mem_append_right _ hc)) } }

end SCTPReceiveStream

end

section

variable {base : Uint32} {payload : ℕ → Bytes} {owed : ℕ → Prop} {s t : ReceiveState} {sid : ℕ}

namespace ReceiveState

/-- The positions whose payload is in the queues of a stream. -/
def held (s : ReceiveState) (sid : ℕ) : List ℕ := received (s.receiveStreams sid)

/-- The positions that are owed have been passed to the application or are in the queues. -/
structure Stored (base : Uint32) (payload : ℕ → Bytes) (owed : ℕ → Prop) (s : ReceiveState) :
    Prop where
  streams : ∀ sid, Holds base payload sid (s.receiveStreams sid)
  passed : ∀ c ∈ s.passed, c.Intact base payload
  ledger : Ledger owed (SCTPQueue.received s.passed) s.held

theorem held_update (s : ReceiveState) (sid : ℕ) (stream : SCTPReceiveStream) :
    (fun sid' => received (Function.update s.receiveStreams sid stream sid')) =
      Function.update s.held sid (received stream) :=
  Function.comp_update received s.receiveStreams sid stream

theorem holds_update (h : ∀ sid', Holds base payload sid' (s.receiveStreams sid'))
    {stream : SCTPReceiveStream} (hstream : Holds base payload sid stream) (sid' : ℕ) :
    Holds base payload sid' (Function.update s.receiveStreams sid stream sid') := by
  by_cases heq : sid' = sid
  · subst heq
    rwa [Function.update_self]
  · rw [Function.update_of_ne heq]
    exact h sid'

theorem Stored.pushStream (h : Stored base payload owed s) (restrict : Bool) (sid : ℕ) :
    Stored base payload owed (pushStream restrict s sid) ∧
      ∀ sid', (ReceiveState.pushStream restrict s sid).held sid' ⊆ s.held sid' := by
  have hsplit := pushMessages_append restrict (s.receiveStreams sid).deliveryQ s.pushMessagesLeft
  rw [ReceiveState.pushStream]
  generalize pushMessages restrict (s.receiveStreams sid).deliveryQ s.pushMessagesLeft = pushed
    at hsplit ⊢
  obtain ⟨rest, left, ys⟩ := pushed
  have hsplit : ys ++ rest = (s.receiveStreams sid).deliveryQ := hsplit
  have hstream := h.streams sid
  have hrest : rest ⊆ (s.receiveStreams sid).deliveryQ :=
    hsplit ▸ subset_append_right ys rest
  have hholds : Holds base payload sid { s.receiveStreams sid with deliveryQ := rest } :=
    { hstream with
      delivery :=
        { sorted := (pairwise_append.mp (hsplit ▸ hstream.delivery.sorted)).2.1
          intact := fun c hc => hstream.delivery.intact c (hrest hc)
          sid := fun c hc => hstream.delivery.sid c (hrest hc) }
      deliveryOrdered := hstream.deliveryOrdered.of_names (.of_subset hrest)
      deliveryUnordered := hstream.deliveryUnordered.of_names (.of_subset hrest) }
  have hperm : (s.held sid).Perm (SCTPQueue.received ys ++
      received { s.receiveStreams sid with deliveryQ := rest }) := by
    refine List.Perm.of_eq ?_
    simp only [held, received, ← hsplit, SCTPQueue.received, flatMap_append, append_assoc]
  have hledger := h.ledger.pass hperm
  rw [← held_update] at hledger
  refine ⟨⟨holds_update h.streams hholds, fun c hc => ?_, ?_⟩, fun sid' x hx => ?_⟩
  · obtain hc | hc := mem_append.mp hc
    · exact h.passed c hc
    · exact hstream.delivery.intact c (hsplit ▸ mem_append_left rest hc)
  · show Ledger owed (SCTPQueue.received (s.passed ++ ys)) _
    rw [SCTPQueue.received, flatMap_append]
    exact hledger
  · have hx : x ∈ Function.update s.held sid
        (received { s.receiveStreams sid with deliveryQ := rest }) sid' := by
      rw [← held_update]
      exact hx
    rw [Ledger.mem_update] at hx
    split_ifs at hx with heq
    · exact heq ▸ hperm.mem_iff.mpr (mem_append_right _ hx)
    · exact hx

theorem Stored.pushUlp (h : Stored base payload owed s) {params : ReceiveParameters}
    (hrun : pushUlp params s = .ok t) :
    Stored base payload owed t ∧ ∀ sid, t.held sid ⊆ s.held sid := by
  rw [ReceiveState.pushUlp] at hrun
  split_ifs at hrun
  cases hrun
  have hput : ∀ sid, Holds base payload sid (if sid < params.inboundStreams then
        putInDeliveryQ (s.receiveStreams sid) else s.receiveStreams sid) ∧
      (received (if sid < params.inboundStreams then
        putInDeliveryQ (s.receiveStreams sid) else s.receiveStreams sid)).Perm (s.held sid) := by
    intro sid
    split_ifs
    · exact (h.streams sid).putInDeliveryQ
    · exact ⟨h.streams sid, List.Perm.refl _⟩
  have hfold : ∀ (restrict : Bool) (sids : List ℕ) (s : ReceiveState),
      Stored base payload owed s →
      Stored base payload owed (sids.foldl (ReceiveState.pushStream restrict) s) ∧
        ∀ sid, (sids.foldl (ReceiveState.pushStream restrict) s).held sid ⊆ s.held sid := by
    intro restrict sids
    induction sids with
    | nil => exact fun s hs => ⟨hs, fun sid x hx => hx⟩
    | cons sid sids ih =>
      intro s hs
      obtain ⟨hs', hsub⟩ := hs.pushStream restrict sid
      obtain ⟨hs'', hsub'⟩ := ih _ hs'
      exact ⟨hs'', fun sid' x hx => hsub sid' (hsub' sid' hx)⟩
  have hstart : Stored base payload owed
      { s with
        receiveStreams := fun sid =>
          if sid < params.inboundStreams then putInDeliveryQ (s.receiveStreams sid)
          else s.receiveStreams sid
        pushMessagesLeft := messagesLeft params s } :=
    ⟨fun sid => (hput sid).1, h.passed, h.ledger.perm fun sid => (hput sid).2⟩
  obtain ⟨hstored, hsub⟩ := hfold _ _ _ hstart
  exact ⟨⟨hstored.streams, hstored.passed, hstored.ledger⟩,
    fun sid x hx => (hput sid).2.mem_iff.mp (hsub sid hx)⟩

end ReceiveState

end

namespace Receiver

section

variable {base tryTSN : Uint32} {params : ReceiverParameters} {s t : Receiver} {k : List (ℕ × ℕ)}
  {uBit : Bool} {d x : ℕ} {dataChunk : SCTPDataChunk} {c : SCTPDataVariables}

structure Good (base : Uint32) (params : ReceiverParameters) (s : Receiver) : Prop where
  gap : ∃ k, s.gapList.Revokable k
  cum : s.gapList.cumAckTSN = ofPos base s.ackPos
  stored : s.Stored base s.payload s.Acked
  outside : ∀ sid, params.inboundStreams ≤ sid → s.held sid = []
  window : ∀ sid, ∀ y ∈ s.held sid, ∀ x, s.Acked x → x < y + 2 ^ 32
  new : s.newChunkReceived = false

theorem acked_iff (h : s.gapList.Revokable k) :
    s.Acked x ↔ 0 < x ∧ (x ≤ s.ackPos ∨ s.ackPos < x ∧ x - s.ackPos ∈ cover k) := by
  rw [Acked]
  refine and_congr_right fun _ => ?_
  by_cases hle : x ≤ s.ackPos
  · simp [hle]
  · rw [or_iff_right hle, or_iff_right hle]
    have hlt : s.ackPos < x := not_le.mp hle
    constructor
    · rintro ⟨hx, hin⟩
      exact ⟨hlt, (h.tsnInGapList (by omega)).mp hin⟩
    · rintro ⟨-, hmem⟩
      have hbound := h.above.lt hmem
      exact ⟨by omega, (h.tsnInGapList (by omega)).mpr hmem⟩

theorem Good.acked_lt (h : Good base params s) (hx : s.Acked x) : x < s.ackPos + 2 ^ 31 := by
  obtain ⟨k, hk⟩ := h.gap
  obtain ⟨-, hle | ⟨hlt, hmem⟩⟩ := (acked_iff hk).mp hx
  · omega
  · have := hk.above.lt hmem
    omega

/-- A TSN behind the cumulative ack names a held chunk only if it is the one at its position. -/
theorem Good.first_eq (h : Good base params s) {sid : ℕ} (hc : c ∈ chunks (s.receiveStreams sid))
    (htsn : c.tsn = ofPos s.gapList.cumAckTSN d)
    (hwindow : ∀ y ∈ s.held sid, s.ackPos + d < y + 2 ^ 32) :
    ∃ xs, c.received = (s.ackPos + d) :: xs := by
  obtain ⟨y, xs, hreceived, hy⟩ := ((h.stored.streams sid).intact hc).first
  have hheld : y ∈ s.held sid := by
    show y ∈ received _
    rw [received_eq]
    exact mem_flatMap.mpr ⟨c, hc, hreceived ▸ mem_cons_self⟩
  have hlt := h.acked_lt (h.stored.ledger.owed_of_held hheld)
  have heq : ofPos base y = ofPos base (s.ackPos + d) := by
    rw [← hy, htsn, h.cum, ofPos_ofPos]
  obtain rfl := eq_of_ofPos_eq heq (by omega) (hwindow y hheld)
  exact ⟨xs, hreceived⟩

/-- What a round of the loop does to the rest of the state. -/
structure Shrinks (s t : Receiver) : Prop where
  ackPos : t.ackPos = s.ackPos
  cum : t.gapList.cumAckTSN = s.gapList.cumAckTSN
  acked : ∀ x, t.Acked x → s.Acked x
  held : ∀ sid, t.held sid ⊆ s.held sid

theorem Shrinks.refl (s : Receiver) : Shrinks s s :=
  ⟨rfl, rfl, fun _ hx => hx, fun _ _ hx => hx⟩

theorem Shrinks.trans {u : Receiver} (h : Shrinks s t) (h' : Shrinks t u) : Shrinks s u :=
  ⟨h'.ackPos.trans h.ackPos, h'.cum.trans h.cum, fun x hx => h.acked x (h'.acked x hx),
    fun sid _ hx => h.held sid (h'.held sid hx)⟩

section

variable (h : Good base params s)

include h

/-- The state with a TSN above the cumulative ack less in the gap list, and without its payload in
a stream. -/
theorem Good.removed {gapList : SCTPGapList} {k' : List (ℕ × ℕ)} {sid : ℕ}
    {stream : SCTPReceiveStream} {queued : BitVec 64} {buffered : Uint32}
    (hk : s.gapList.Revokable k) (hcum : gapList.cumAckTSN = s.gapList.cumAckTSN)
    (hk' : gapList.Revokable k') (hcover : ∀ x, x ∈ cover k' ↔ x ∈ cover k ∧ x ≠ d)
    (hd : 0 < d) (hstream : Holds base s.payload sid stream)
    (hledger : Ledger (fun x => s.Acked x ∧ x ≠ s.ackPos + d) (SCTPQueue.received s.passed)
      (Function.update s.held sid (received stream)))
    (hsub : received stream ⊆ s.held sid) {ssn : ℕ}
    (ht : t = { s with
      receiveStreams := Function.update s.receiveStreams sid (stream.rewind ssn)
      gapList
      bufferedMessages := buffered
      queuedReceivedBytes := queued }) :
    Good base params t ∧ Shrinks s t := by
  subst ht
  have hheld : ∀ sid', received (Function.update s.receiveStreams sid (stream.rewind ssn) sid') =
      Function.update s.held sid (received stream) sid' :=
    congrFun (ReceiveState.held_update s.toReceiveState sid (stream.rewind ssn))
  set t : Receiver := { s with
    receiveStreams := Function.update s.receiveStreams sid (stream.rewind ssn)
    gapList
    bufferedMessages := buffered
    queuedReceivedBytes := queued } with ht
  have hacked : ∀ x, t.Acked x ↔ s.Acked x ∧ x ≠ s.ackPos + d := by
    intro x
    rw [acked_iff hk', acked_iff hk]
    simp only [ht, hcover]
    constructor
    · rintro ⟨hpos, hle | ⟨hlt, hmem, hne⟩⟩
      · exact ⟨⟨hpos, .inl hle⟩, by omega⟩
      · exact ⟨⟨hpos, .inr ⟨hlt, hmem⟩⟩, by omega⟩
    · rintro ⟨⟨hpos, hle | ⟨hlt, hmem⟩⟩, hne⟩
      · exact ⟨hpos, .inl hle⟩
      · exact ⟨hpos, .inr ⟨hlt, hmem, by omega⟩⟩
  have hkept : ∀ sid', t.held sid' ⊆ s.held sid' := by
    intro sid' x hx
    have hx : x ∈ received (Function.update s.receiveStreams sid (stream.rewind ssn) sid') := hx
    rw [hheld, Ledger.mem_update] at hx
    split_ifs at hx with heq
    · exact heq ▸ hsub hx
    · exact hx
  refine ⟨⟨⟨k', hk'⟩, hcum.trans h.cum, ⟨?_, h.stored.passed, ?_⟩, fun sid' hsid' => ?_,
    fun sid' y hy x hx => ?_, h.new⟩, ⟨rfl, hcum, fun x hx => ((hacked x).mp hx).1, hkept⟩⟩
  · exact ReceiveState.holds_update h.stored.streams (hstream.rewind ssn)
  · exact (funext hheld ▸ hledger).congr hacked
  · exact eq_nil_of_subset_nil (h.outside sid' hsid' ▸ hkept sid')
  · exact h.window sid' y (hkept sid' hy) x ((hacked x).mp hx).1

/-- The round takes the TSN out of the gap list and its payload out of the queues. -/
theorem Good.dropChunk {len : ℕ} (htry : tryTSN = ofPos s.gapList.cumAckTSN d) (hd : 0 < d)
    (hwindow : ∀ sid, ∀ y ∈ s.held sid, s.ackPos + d < y + 2 ^ 32)
    (hone : DropsOne params s uBit tryTSN)
    (hrun : dropChunk params s uBit tryTSN = .ok (t, len)) :
    Good base params t ∧ Shrinks s t := by
  rw [Receiver.dropChunk] at hrun
  cases hfind : findChunk params s uBit tryTSN with
  | none =>
    rw [hfind] at hrun
    cases hrun
    exact ⟨h, .refl s⟩
  | some found =>
    obtain ⟨hlength, hsafe⟩ := hone found hfind
    obtain ⟨sid, chunk, stream⟩ := found
    rw [hfind] at hrun
    obtain ⟨gapList, hremove, hok⟩ := bind_eq_ok.mp hrun
    obtain ⟨sid', hsid', htake⟩ := exists_of_findSome?_eq_some hfind
    obtain ⟨⟨chunk', stream'⟩, htake, heq⟩ := Option.map_eq_some_iff.mp htake
    cases heq
    obtain ⟨hc, htsn, hholds, hperm⟩ := (h.stored.streams sid).takeChunk htake
    obtain ⟨xs, hreceived⟩ := h.first_eq hc (htsn.trans htry) (hwindow sid)
    obtain rfl : xs = [] := by simpa [hreceived] using hlength
    rw [hreceived] at hperm
    have hheld : s.ackPos + d ∈ s.held sid := hperm.mem_iff.mpr mem_cons_self
    obtain ⟨k, hk⟩ := h.gap
    have hmem : d ∈ cover k := by
      obtain ⟨-, hle | ⟨-, hmem⟩⟩ := (acked_iff hk).mp (h.stored.ledger.owed_of_held hheld)
      · omega
      · rwa [Nat.add_sub_cancel_left] at hmem
    subst htry
    obtain ⟨hcum, hk'⟩ := hk.remove (hk.above.lt hmem).2 hsafe hremove
    cases hok
    exact h.removed hk hcum hk' (fun x => mem_cover_erase) hd hholds
      (h.stored.ledger.drop hperm)
      (fun x hx => hperm.mem_iff.mpr (mem_cons_of_mem _ hx)) rfl

theorem Good.makeRoomLoop {tsn : Uint32} {length fuel sum : ℕ}
    {room : Bool} (htry : tryTSN = ofPos s.gapList.cumAckTSN d)
    (hwindow : ∀ sid, ∀ y ∈ s.held sid, s.ackPos + d < y + 2 ^ 32)
    (hregular : RoomRegular params tsn length uBit fuel tryTSN sum s)
    (hrun : makeRoomLoop params tsn length uBit fuel tryTSN sum s = .ok (t, room)) :
    Good base params t ∧ Shrinks s t := by
  induction fuel generalizing s tryTSN d sum with
  | zero => cases hrun
  | succ fuel ih =>
    rw [Receiver.makeRoomLoop] at hrun
    split_ifs at hrun with htest hgt
    · cases hrun
      exact ⟨h, .refl _⟩
    · obtain ⟨⟨s', len⟩, hdrop, hrun⟩ := bind_eq_ok.mp hrun
      have hd : 0 < d := by
        apply Nat.pos_of_ne_zero
        rintro rfl
        rw [htry, ofPos_zero] at htest
        exact absurd htest.2 (BitVec.lt_irrefl _)
      obtain ⟨hone, hrest⟩ := hregular htest.1 htest.2 (Bool.eq_false_iff.mpr hgt)
      obtain ⟨hgood, hshrinks⟩ := h.dropChunk htry hd hwindow hone hdrop
      have htry' : tryTSN - 1 = ofPos s'.gapList.cumAckTSN (d - 1) := by
        rw [htry, SCTPSimpleGapList.ofPos_pred hd, hshrinks.cum]
      have hwindow' : ∀ sid, ∀ y ∈ s'.held sid, s'.ackPos + (d - 1) < y + 2 ^ 32 := by
        intro sid y hy
        have := hwindow sid y (hshrinks.held sid hy)
        rw [hshrinks.ackPos]
        omega
      obtain ⟨hgood', hshrinks'⟩ := ih hgood htry' hwindow' (hrest s' len hdrop) hrun
      exact ⟨hgood', hshrinks.trans hshrinks'⟩
    · cases hrun
      exact ⟨h, .refl _⟩

theorem Good.checkRoom {userData : Bytes} {room : Bool}
    (hregular : ArrivalRegular params s dataChunk userData)
    (hrun : checkRoom params s dataChunk userData = .ok (t, room)) :
    Good base params t ∧ Shrinks s t := by
  rw [Receiver.checkRoom] at hrun
  split_ifs at hrun with hfull hgt hlt
  · cases hrun
    exact ⟨h, .refl _⟩
  · obtain ⟨k, hk⟩ := h.gap
    obtain heq | ⟨d, hmem, heq⟩ := hk.highest
    · refine h.makeRoomLoop (d := 0) (heq.trans (ofPos_zero _).symm) (fun sid y hy => ?_)
        (hregular.room hfull hlt) hrun
      obtain hzero | hpos := Nat.eq_zero_or_pos s.ackPos
      · omega
      · exact h.window sid y hy _ ((acked_iff hk).mpr ⟨hpos, .inl le_rfl⟩)
    · refine h.makeRoomLoop heq (fun sid y hy => h.window sid y hy _ ?_)
        (hregular.room hfull hlt) hrun
      have hpos := hk.above.lt hmem
      refine (acked_iff hk).mpr ⟨by omega, .inr ⟨by omega, ?_⟩⟩
      rwa [Nat.add_sub_cancel_left]
  · cases hrun
    exact ⟨h, .refl _⟩
  · cases hrun
    exact ⟨h, .refl _⟩

/-- The gap list takes a new TSN, and nothing else changes. -/
theorem Good.acknowledge {tsn : Uint32}
    (hd : 0 < (tsn - s.gapList.cumAckTSN).toNat ∧ (tsn - s.gapList.cumAckTSN).toNat < 2 ^ 31)
    (hnew : ¬ s.Acked (s.position tsn))
    (hlength : s.gapList.combinedGapList.gaps.length < MAX_GAP_COUNT)
    (hharmless : s.gapList.combinedGapList.ZeroBlockHarmless tsn s.gapList.cumAckTSN) :
    ∃ gapList ackPos, s.acknowledge tsn = .ok { s with gapList, newChunkReceived := true, ackPos } ∧
      (∃ k, gapList.Revokable k) ∧ gapList.cumAckTSN = ofPos base ackPos ∧
      ∀ x, Acked { s with gapList, newChunkReceived := true, ackPos } x ↔
        s.Acked x ∨ x = s.position tsn := by
  obtain ⟨k, hk⟩ := h.gap
  have htsn : ofPos s.gapList.cumAckTSN (tsn - s.gapList.cumAckTSN).toNat = tsn :=
    ofPos_toNat_sub _ _
  rw [position] at hnew ⊢
  generalize (tsn - s.gapList.cumAckTSN).toNat = d at hd hnew htsn ⊢
  subst htsn
  have hfresh : d ∉ cover k := by
    intro hmem
    refine hnew ((acked_iff hk).mpr ⟨by omega, .inr ⟨by omega, ?_⟩⟩)
    rwa [Nat.add_sub_cancel_left]
  have hlen : k.length < MAX_GAP_COUNT := by
    rwa [hk.combined, SCTPSimpleGapList.length_gapsAt] at hlength
  obtain ⟨C, m, gapList, hupdate, hadvance, hC, hcum, hm, hpoints⟩ :=
    hk.update hd hfresh hlen hharmless s.newChunkReceived
  have hmove : s.position gapList.cumAckTSN = s.ackPos + C := by
    rw [position, hcum, toNat_ofPos_sub_base (by omega)]
  refine ⟨gapList, s.ackPos + C, ?_, ⟨m, hm⟩, ?_, fun x => ?_⟩
  · rw [Receiver.acknowledge, hupdate, ok_bind]
    simp only [hadvance, hmove]
  · rw [hcum, h.cum, ofPos_ofPos]
  · rw [acked_iff hm, acked_iff hk]
    simp only
    by_cases hle : x ≤ s.ackPos
    · omega
    · have hx := hpoints (x - s.ackPos)
      have hsub : x - s.ackPos - C = x - (s.ackPos + C) := by omega
      have hlow : x - s.ackPos ≤ C ↔ x ≤ s.ackPos + C := by omega
      have hhigh : C < x - s.ackPos ↔ s.ackPos + C < x := by omega
      have heq : x - s.ackPos = d ↔ x = s.ackPos + d := by omega
      rw [hsub, hlow, hhigh, heq] at hx
      have hpos : 0 < x := by omega
      have hlt : s.ackPos < x := not_le.mp hle
      have hzero : ¬ x - s.ackPos = 0 := by omega
      simp only [hpos, true_and, hx, hzero, false_or, hle, hlt]

/-- The payload of a new TSN goes into the queues. -/
theorem Good.accept {userData : Bytes}
    (hsid : dataChunk.sid.toNat < params.inboundStreams) (hbits : 8 * userData.length < 2 ^ 32)
    (hdata : userData ≠ []) (hd : 0 < (dataChunk.tsn - s.gapList.cumAckTSN).toNat ∧
      (dataChunk.tsn - s.gapList.cumAckTSN).toNat < 2 ^ 31)
    (hnew : ¬ s.Acked (s.position dataChunk.tsn))
    (hwindow : ∀ sid, ∀ y ∈ s.held sid, s.position dataChunk.tsn < y + 2 ^ 32)
    (hregular : s.AcceptRegular dataChunk userData)
    (hrun : accept params s dataChunk userData = .ok t) : Good base params t := by
  obtain ⟨gapList, ackPos, hacknowledge, hgap, hcum, hacked⟩ :=
    h.acknowledge hd hnew hregular.length hregular.harmless
  rw [Receiver.accept, hacknowledge, ok_bind, if_neg (not_le.mpr hsid), if_pos rfl] at hrun
  obtain ⟨⟨stream, ret⟩, henqueue, hok⟩ := bind_eq_ok.mp hrun
  have hx : s.position dataChunk.tsn = s.ackPos + (dataChunk.tsn - s.gapList.cumAckTSN).toNat := rfl
  set x := s.position dataChunk.tsn
  set chunk := makeVarFromMsg dataChunk userData x
  let payload := Function.update s.payload x userData
  have hsame : ∀ y, s.Acked y → payload y = s.payload y :=
    fun y hy => Function.update_of_ne (fun heq : y = x => hnew (heq ▸ hy)) userData s.payload
  have hstreams : ∀ sid, Holds base payload sid (s.receiveStreams sid) := fun sid =>
    (h.stored.streams sid).congr fun y hy => hsame y (h.stored.ledger.owed_of_held hy)
  have htsn : dataChunk.tsn = ofPos s.gapList.cumAckTSN
      (dataChunk.tsn - s.gapList.cumAckTSN).toNat := (ofPos_toNat_sub _ _).symm
  have hfresh : Fresh base payload chunk.sid (s.receiveStreams chunk.sid) chunk := by
    refine ⟨⟨⟨x, [], rfl, ?_⟩, ?_, ?_, length_pos_of_ne_nil hdata⟩, rfl, fun c hc heq => ?_⟩
    · show dataChunk.tsn = ofPos base x
      rw [hx, ← ofPos_ofPos, ← h.cum]
      exact htsn
    · show userData = ([x].map (Function.update s.payload x userData)).flatten
      simp
    · exact Nat.mod_eq_of_lt hbits
    · obtain ⟨xs, hreceived⟩ := h.first_eq hc (heq.trans htsn) (hwindow chunk.sid)
      refine hnew (h.stored.ledger.owed_of_held (i := chunk.sid) ?_)
      show x ∈ received _
      rw [received_eq]
      exact mem_flatMap.mpr ⟨c, hc, hreceived ▸ mem_cons_self⟩
  obtain ⟨hholds, hperm⟩ := (hstreams chunk.sid).enqueueNewDataChunk hfresh hregular.fits henqueue
  have hput : Holds base payload chunk.sid
        (if 0 < ret ∧ ret < 3 then putInDeliveryQ stream else stream) ∧
      (received (if 0 < ret ∧ ret < 3 then putInDeliveryQ stream else stream)).Perm
        (x :: s.held chunk.sid) := by
    split_ifs
    · obtain ⟨hholds', hperm'⟩ := hholds.putInDeliveryQ
      exact ⟨hholds', hperm'.trans hperm⟩
    · exact ⟨hholds, hperm⟩
  cases hok
  generalize (if 0 < ret ∧ ret < 3 then putInDeliveryQ stream else stream) = stream' at hput ⊢
  have hheld : ∀ sid, received (Function.update s.receiveStreams chunk.sid stream' sid) =
      Function.update s.held chunk.sid (received stream') sid :=
    congrFun (ReceiveState.held_update s.toReceiveState chunk.sid stream')
  refine ⟨hgap, hcum, ⟨?_, fun c hc => ?_, ?_⟩, fun sid hle => ?_, fun sid y hy z hz => ?_, rfl⟩
  · exact ReceiveState.holds_update hstreams hput.1
  · refine (h.stored.passed c hc).congr fun y hy => hsame y (h.stored.ledger.owed_of_out ?_)
    exact mem_flatMap.mpr ⟨c, hc, hy⟩
  · exact (funext hheld ▸ h.stored.ledger.add hnew hput.2).congr hacked
  · have hne : sid ≠ chunk.sid := fun heq => absurd (heq ▸ hsid) (not_lt.mpr hle)
    exact (hheld sid).trans ((Function.update_of_ne hne _ _).trans (h.outside sid hle))
  · have hy : y ∈ received (Function.update s.receiveStreams chunk.sid stream' sid) := hy
    have hz := (hacked z).mp hz
    have hfar : z < s.ackPos + 2 ^ 31 ∨ z = x := hz.imp_left h.acked_lt
    have hold : ∀ sid', y ∈ s.held sid' → z < y + 2 ^ 32 := by
      intro sid' hy
      obtain hz | rfl := hz
      · exact h.window sid' y hy z hz
      · exact hwindow sid' y hy
    rw [hheld, Ledger.mem_update] at hy
    split_ifs at hy
    · obtain rfl | hy := mem_cons.mp (hput.2.mem_iff.mp hy)
      · omega
      · exact hold _ hy
    · exact hold _ hy

theorem Good.processDataArrived (hregular : Regular params s (.processDataArrived dataChunk))
    (hrun : s.processDataArrived params dataChunk = .ok t) : Good base params t := by
  rw [Receiver.processDataArrived] at hrun
  cases hdata : dataChunk.data with
  | none =>
    rw [hdata] at hrun
    cases hrun
  | some userData =>
    have hreset : { s with newChunkReceived := false } = s := by rw [← h.new]
    simp only [hdata, hreset] at hrun
    split_ifs at hrun with hempty hold
    · cases hrun
      exact h
    · cases hrun
      exact ⟨h.gap, h.cum, h.stored, h.outside, h.window, h.new⟩
    · obtain ⟨hle, hduplicate⟩ := Bool.or_eq_false_iff.mp (Bool.eq_false_iff.mpr hold)
      have harrival := hregular userData hdata hle hduplicate
      obtain ⟨⟨s', room⟩, hcheck, hrun⟩ := bind_eq_ok.mp hrun
      obtain ⟨hgood, hshrinks⟩ := h.checkRoom harrival hcheck
      have hrun : (if room = true then s'.accept params dataChunk userData else .ok s') =
        .ok t := hrun
      split_ifs at hrun with hroom
      · subst hroom
        have hposition : s'.position dataChunk.tsn = s.position dataChunk.tsn := by
          rw [position, position, hshrinks.ackPos, hshrinks.cum]
        have hnew : ¬ s.Acked (s.position dataChunk.tsn) := by
          obtain ⟨k, hk⟩ := h.gap
          intro hacked
          obtain ⟨-, hlow | ⟨-, hmem⟩⟩ := (acked_iff hk).mp hacked
          · rw [position] at hlow
            rw [tsnLe, tsnGe_eq, SerialNumber.le, decide_eq_false_iff_not] at hle
            bv_omega
          · rw [position, Nat.add_sub_cancel_left] at hmem
            have hin := (hk.tsnInGapList (BitVec.isLt _)).mpr hmem
            rw [ofPos_toNat_sub] at hin
            rw [tsnIsDuplicate, hin, Bool.or_true] at hduplicate
            cases hduplicate
        refine hgood.accept harrival.sid harrival.bits hempty ?_ ?_ ?_
          (harrival.accept s' hcheck) hrun
        · rw [hshrinks.cum]
          have hhalf := harrival.half
          rw [tsnLe, tsnGe_eq, SerialNumber.le, decide_eq_false_iff_not] at hle
          bv_omega
        · rw [hposition]
          exact fun hacked => hnew (hshrinks.acked _ hacked)
        · intro sid y hy
          rw [hposition]
          by_cases hsid : sid < params.inboundStreams
          · exact harrival.window sid hsid y (hshrinks.held sid hy)
          · rw [hgood.outside sid (not_lt.mp hsid)] at hy
            cases hy
      · cases hrun
        exact hgood

theorem Good.pushUlp (hrun : s.pushUlp params = .ok t) : Good base params t := by
  obtain ⟨u, hpush, hok⟩ := bind_eq_ok.mp hrun
  cases hok
  obtain ⟨hstored, hsub⟩ := h.stored.pushUlp hpush
  refine ⟨h.gap, h.cum, hstored, fun sid hsid => ?_, fun sid y hy => h.window sid y (hsub sid hy),
    h.new⟩
  exact eq_nil_of_subset_nil (h.outside sid hsid ▸ hsub sid)

theorem Good.step {event : Event} (hregular : Regular params s event)
    (hrun : step params s event = .ok t) : Good base params t := by
  cases event with
  | processDataArrived dataChunk => exact h.processDataArrived hregular hrun
  | pushUlp => exact h.pushUlp hrun
  | createSack =>
    cases hrun
    exact ⟨h.gap, h.cum, h.stored, h.outside, h.window, h.new⟩

end

theorem good_initial (params : ReceiverParameters) (cumAckTSN : Uint32) :
    Good cumAckTSN params (initial cumAckTSN) := by
  have hgap := SCTPGapList.Revokable.initial cumAckTSN
  have hacked : ∀ x, ¬ (initial cumAckTSN).Acked x := by
    intro x hx
    obtain ⟨hpos, hle | ⟨-, hmem⟩⟩ := (acked_iff hgap).mp hx
    · exact absurd hle (not_le.mpr hpos)
    · simp at hmem
  refine ⟨⟨[], hgap⟩, (ofPos_zero _).symm, ⟨fun sid => ⟨.nil, .nil, .nil, ?_, ?_, ?_⟩, ?_, ?_⟩,
    fun _ _ => rfl, fun sid y hy => ?_, rfl⟩
  · exact fun c hc => absurd hc not_mem_nil
  · exact fun c hc => absurd hc not_mem_nil
  · exact fun c hc => absurd hc not_mem_nil
  · exact fun c hc => absurd hc not_mem_nil
  · refine ⟨fun x => ⟨fun hx => absurd hx (hacked x), ?_⟩, fun _ => nodup_nil, ?_, ?_⟩
    · rintro (hx | ⟨sid, hx⟩)
      · cases hx
      · cases hx
    · exact fun i j x hx => absurd hx not_mem_nil
    · exact fun i x hx => absurd hx not_mem_nil
  · cases hy

theorem hasPayload_of_mem (h : c.Intact base s.payload) (hx : x ∈ c.received) :
    s.HasPayload x c := by
  obtain ⟨xs, ys, hreceived⟩ := append_of_mem hx
  refine ⟨xs, ys, hreceived, ?_⟩
  rw [h.data, hreceived, map_append, map_cons, flatten_append, flatten_cons, append_assoc]

/-- A position occurs once in the chunks of a stream, and so it is in one of them. -/
theorem filter_received {l : List SCTPDataVariables}
    (h : (l.flatMap SCTPDataVariables.received).Nodup) (hc : c ∈ l) (hx : x ∈ c.received) :
    l.filter (fun c => x ∈ c.received) = [c] := by
  induction l with
  | nil => cases hc
  | cons b l ih =>
    rw [flatMap_cons, nodup_append] at h
    obtain ⟨-, hrest, hapart⟩ := h
    cases hc with
    | head =>
      rw [filter_cons_of_pos (p := fun c : SCTPDataVariables => decide (x ∈ c.received))
        (decide_eq_true hx), List.cons.injEq]
      refine ⟨rfl, filter_eq_nil_iff.mpr fun d hd hxd => ?_⟩
      exact hapart x hx x (mem_flatMap.mpr ⟨d, hd, of_decide_eq_true hxd⟩) rfl
    | tail _ hc =>
      have hb : ¬ decide (x ∈ b.received) = true := fun hxb =>
        hapart x (of_decide_eq_true hxb) x (mem_flatMap.mpr ⟨c, hc, hx⟩) rfl
      rw [filter_cons_of_neg (p := fun c : SCTPDataVariables => decide (x ∈ c.received))
        hb]
      exact ih hrest hc

theorem Good.keepsAcked (h : Good base params s) : s.KeepsAcked := by
  intro x hx
  by_cases hout : x ∈ SCTPQueue.received s.passed
  · obtain ⟨c, hc, hxc⟩ := mem_flatMap.mp hout
    exact .inl ⟨c, hc, hasPayload_of_mem (h.stored.passed c hc) hxc⟩
  · obtain ⟨sid, hheld, hothers⟩ := h.stored.ledger.held_of_owed hx hout
    have hheld : x ∈ received (s.receiveStreams sid) := hheld
    have hnodup : (received (s.receiveStreams sid)).Nodup := h.stored.ledger.nodup sid
    rw [received_eq] at hheld hnodup
    obtain ⟨c, hc, hxc⟩ := mem_flatMap.mp hheld
    have hstream := h.stored.streams sid
    refine .inr ⟨c, hasPayload_of_mem (hstream.intact hc) hxc, fun sid' => ?_⟩
    split_ifs with heq
    · obtain rfl : sid = sid' := (hstream.sid_eq hc).symm.trans heq.symm
      exact filter_received hnodup hc hxc
    · rw [hstream.sid_eq hc] at heq
      refine filter_eq_nil_iff.mpr fun d hd hxd => hothers sid' heq ?_
      show x ∈ received _
      rw [received_eq]
      exact mem_flatMap.mpr ⟨d, hd, of_decide_eq_true hxd⟩

end

/-- As long as `makeRoomForTsn` reaches no chunk with several TSNs, and nothing wraps around, no
acknowledged data is lost. -/
theorem keepsAcked_of_regular (params : ReceiverParameters) (cumAckTSN : Uint32)
    (events : List Event)
    (hregular : Admissible (step params) (Regular params) (initial cumAckTSN) events) :
    Throughout (step params) KeepsAcked (initial cumAckTSN) events :=
  (throughout_of_step (fun _ _ _ hs hok hrun => hs.step hok hrun)
    (good_initial params cumAckTSN) hregular).mono fun _ hs => hs.keepsAcked

def arrival (tsn : Uint32) (ssn : Uint16) (bBit eBit : Bool) (userData : Bytes) : Event :=
  .processDataArrived
    { uBit := false, bBit, eBit, iBit := false, tsn, sid := 0, ssn, ppid := 0,
      data := some userData, byteLength := 16 + userData.length }

/-- A receive buffer of two bytes. -/
def smallReceiver : ReceiverParameters :=
  { inboundStreams := 1, messagesToPush := 0, localRwnd := 2 }

/-- The second message arrives in two fragments and fills the buffer, before the first one. -/
def fragmentEvents : List Event :=
  [arrival 2 1 true false [20], arrival 3 1 false true [30], arrival 1 0 true true [10]]

/-- Room is made by dropping the second message, but only its first TSN leaves the gap list. -/
theorem not_keepsAcked_of_fragmentEvents :
    ¬ Throughout (step smallReceiver) KeepsAcked (initial 0) fragmentEvents := by
  intro h
  have hexec : (exec (step smallReceiver) (initial 0) fragmentEvents).map (fun s =>
      (decide (s.Acked 3), s.passed.length, (chunks (s.receiveStreams 0)).map (·.received))) =
      .ok (true, 0, [[1]]) := by
    decide +kernel
  have hothers : ∀ sid, (exec (step smallReceiver) (initial 0) fragmentEvents).map (fun s =>
      chunks (s.receiveStreams (sid + 1))) = .ok [] := fun sid => rfl
  cases hrun : exec (step smallReceiver) (initial 0) fragmentEvents with
  | error e =>
    rw [hrun] at hexec
    cases hexec
  | ok t =>
    simp only [hrun, Except.map, Except.ok.injEq, Prod.mk.injEq, decide_eq_true_eq,
      List.length_eq_zero_iff] at hexec hothers
    obtain ⟨hacked, hpassed, hstream⟩ := hexec
    obtain ⟨c, hc, -⟩ | ⟨c, -, hfilter⟩ := h.of_exec hrun 3 hacked
    · rw [hpassed] at hc
      cases hc
    · have hc := hfilter c.sid
      rw [if_pos rfl] at hc
      have hmem : c ∈ (chunks (t.receiveStreams c.sid)).filter fun c => 3 ∈ c.received :=
        hc ▸ List.mem_cons_self
      obtain ⟨hmem, hthree⟩ := List.mem_filter.mp hmem
      cases hsid : c.sid with
      | zero =>
        rw [hsid] at hmem
        have hreceived := List.mem_map_of_mem (f := SCTPDataVariables.received) hmem
        rw [hstream, List.mem_singleton] at hreceived
        rw [hreceived] at hthree
        cases hthree
      | succ sid =>
        rw [hsid, hothers sid] at hmem
        cases hmem

/-- A message of one chunk is dropped to make room for the one before it. -/
def singleEvents : List Event :=
  [arrival 2 1 true true [20, 21], arrival 1 0 true true [10], .pushUlp]

theorem keepsAcked_of_singleEvents :
    Throughout (step smallReceiver) KeepsAcked (initial 0) singleEvents := by
  let first := arrival 2 1 true true [20, 21]
  let second := arrival 1 0 true true [10]
  let after (s : Receiver) (event : Event) : Receiver :=
    ((step smallReceiver s event).toOption).getD s
  have hafter : ∀ s event, (step smallReceiver s event).toOption.isSome = true →
      step smallReceiver s event = .ok (after s event) := by
    intro s event hsome
    simp only [after]
    cases hstep : step smallReceiver s event with
    | ok t => rfl
    | error e =>
      rw [hstep] at hsome
      cases hsome
  have hfirst := hafter (initial 0) first (by decide +kernel)
  have hsecond := hafter (after (initial 0) first) second (by decide +kernel)
  have haccept : ∀ {s t : Receiver} {dataChunk : SCTPDataChunk} {userData : Bytes},
      (s.checkRoom smallReceiver dataChunk userData).map (fun p =>
        (p.1.gapList.combinedGapList.gaps, decide (FragmentFits ((p.1.receiveStreams
          dataChunk.sid.toNat).queueFor !dataChunk.uBit) (makeVarFromMsg dataChunk userData 0)))) =
        .ok ([], true) →
      s.checkRoom smallReceiver dataChunk userData = .ok (t, true) →
        t.AcceptRegular dataChunk userData := by
    intro s t dataChunk userData hmap hcheck
    rw [hcheck] at hmap
    simp only [Except.map, Except.ok.injEq, Prod.mk.injEq, decide_eq_true_eq] at hmap
    refine ⟨hmap.1 ▸ by decide, .inr fun before zero behind heq => ?_, hmap.2⟩
    rw [hmap.1] at heq
    simp at heq
  have hregular : ∀ {s : Receiver} {dataChunk : SCTPDataChunk} {userData : Bytes},
      dataChunk.data = some userData → ArrivalRegular smallReceiver s dataChunk userData →
        Regular smallReceiver s (.processDataArrived dataChunk) := by
    intro s dataChunk userData hdata harrival userData' hdata' _ _
    rw [hdata] at hdata'
    cases hdata'
    exact harrival
  refine keepsAcked_of_regular smallReceiver 0 singleEvents (.cons (hregular rfl ?_) hfirst
    (.cons (hregular rfl ?_) hsecond ⟨trivial, fun _ _ => trivial⟩))
  · exact ⟨by decide, by decide, by decide, by decide +kernel, fun _ _ => by decide +kernel,
      fun t => haccept (by decide +kernel)⟩
  · exact ⟨by decide, by decide +kernel, by decide, by decide +kernel,
      fun _ _ => by decide +kernel, fun t => haccept (by decide +kernel)⟩

end Receiver

end Inet.Sctp
