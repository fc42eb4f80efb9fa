import Inet.Ieee80211.BlockAckRecord

/-!
# Reordering of received MSDUs

`BlockAckReordering` keeps a receive buffer for each Block Ack agreement. A buffer holds the
fragments that have arrived by their sequence number, and an MSDU is passed up when the buffer is
full, when it is the next expected one, or when a BlockAckReq arrives.
-/

namespace Inet.Ieee80211

abbrev Fragments := List Ieee80211DataFrame
abbrev ReorderBuffer := Std.TreeMap ℕ Fragments

/-- `fragments.at(0)->getSequenceNumber()`. -/
def firstSequenceNumber (fragments : Fragments) : Result ℕ :=
  match fragments with
  | [] => .error .outOfRange
  | fragment :: _ => .ok fragment.sequenceNumber

structure ReceiveBuffer where
  buffer : ReorderBuffer := ∅
  bufferSize : ℕ
  length : ℤ := 0
  nextExpectedSequenceNumber : ℕ

namespace ReceiveBuffer

/-- The buffer with the frame, or `none` for `false`. -/
def insertFrame (receiveBuffer : ReceiveBuffer) (dataFrame : Ieee80211DataFrame) :
    Option ReceiveBuffer :=
  let sequenceNumber := dataFrame.sequenceNumber
  if receiveBuffer.length < receiveBuffer.bufferSize ∧
      !isSequenceNumberTooOld sequenceNumber receiveBuffer.nextExpectedSequenceNumber
        receiveBuffer.bufferSize then
    some
      { receiveBuffer with
        buffer := receiveBuffer.buffer.insert sequenceNumber
          (receiveBuffer.buffer.getD sequenceNumber [] ++ [dataFrame])
        length := receiveBuffer.length + 1 }
  else none

def remove (receiveBuffer : ReceiveBuffer) (sequenceNumber : ℕ) : Result ReceiveBuffer :=
  match receiveBuffer.buffer[sequenceNumber]? with
  | some fragments =>
    .ok
      { receiveBuffer with
        length := receiveBuffer.length - fragments.length
        buffer := receiveBuffer.buffer.erase sequenceNumber }
  | none => .error (.cRuntimeError "Unknown sequence number = %d")

def isFull (receiveBuffer : ReceiveBuffer) : Result Bool := do
  assert (receiveBuffer.length ≤ receiveBuffer.bufferSize) "length <= bufferSize"
  .ok (receiveBuffer.length = receiveBuffer.bufferSize)

/-- `passedUp` of the reordering. -/
def passedUp (receiveBuffer : ReceiveBuffer) (sequenceNumber : ℕ) : Result ReceiveBuffer :=
  { receiveBuffer with nextExpectedSequenceNumber := (sequenceNumber + 1) % 4096 }.remove
    sequenceNumber

end ReceiveBuffer

/-- The last fragment that has come without the More Fragments bit tells how many different
fragments there are to be. -/
def isComplete (fragments : Fragments) : Bool :=
  let largestFragmentNumber : ℤ := fragments.foldl
    (fun largest fragment => if !fragment.moreFragments then fragment.fragmentNumber else largest)
    (-1)
  let fragNums := (fragments.map Ieee80211DataFrame.fragmentNumber).dedup
  largestFragmentNumber ≠ -1 ∧ largestFragmentNumber + 1 = fragNums.length

namespace ReceiveBuffer

def collectCompletePrecedingMpdus (receiveBuffer : ReceiveBuffer) (startingSequenceNumber : ℕ) :
    ReorderBuffer :=
  receiveBuffer.buffer.filter fun sequenceNumber fragments =>
    isSequenceNumberLess sequenceNumber startingSequenceNumber
      receiveBuffer.nextExpectedSequenceNumber receiveBuffer.bufferSize && isComplete fragments

/-- The new collection, or `none` for `false`. -/
def addMsduIfComplete (receiveBuffer : ReceiveBuffer) (reorderBuffer : ReorderBuffer)
    (seqNum : ℕ) : Option ReorderBuffer :=
  match receiveBuffer.buffer[seqNum]? with
  | some fragments =>
    if isComplete fragments then some (reorderBuffer.insert seqNum fragments) else none
  | none => none

/-- The loops of `collectConsecutiveCompleteFollowingMpdus`, over the numbers that are left. -/
def addWhileComplete (receiveBuffer : ReceiveBuffer) : List ℕ → ReorderBuffer → ReorderBuffer
  | [], framesToPassUp => framesToPassUp
  | i :: rest, framesToPassUp =>
    match receiveBuffer.addMsduIfComplete framesToPassUp i with
    | some framesToPassUp => receiveBuffer.addWhileComplete rest framesToPassUp
    | none => framesToPassUp

/-- The numbers of the loops: up to 4095 and then from 0 on, if the window wraps. -/
def followingNumbers (startingSequenceNumber bufferSize : ℕ) : List ℕ :=
  if startingSequenceNumber + bufferSize > 4095 then
    List.range' startingSequenceNumber (4096 - startingSequenceNumber) ++
      List.range ((startingSequenceNumber + bufferSize) % 4096)
  else List.range' startingSequenceNumber bufferSize

def collectConsecutiveCompleteFollowingMpdus (receiveBuffer : ReceiveBuffer)
    (startingSequenceNumber : ℕ) : ReorderBuffer :=
  receiveBuffer.addWhileComplete
    (followingNumbers startingSequenceNumber receiveBuffer.bufferSize) ∅

def releaseReceiveBuffer (receiveBuffer : ReceiveBuffer) (reorderBuffer : ReorderBuffer) :
    Result ReceiveBuffer :=
  reorderBuffer.toList.foldlM (fun receiveBuffer it => receiveBuffer.passedUp it.1) receiveBuffer

/-- The second loop of `getEarliestCompleteMsduOrAMsduIfExists`. -/
def earliestOf (receiveBuffer : ReceiveBuffer) (entries : List (ℕ × Fragments))
    (earliest : Fragments × ℕ) : Result (Fragments × ℕ) :=
  entries.foldlM
    (fun earliest it => do
      let currentSeqNum ← firstSequenceNumber it.2
      if isSequenceNumberLess currentSeqNum earliest.2
          receiveBuffer.nextExpectedSequenceNumber receiveBuffer.bufferSize && isComplete it.2 then
        .ok (it.2, currentSeqNum)
      else .ok earliest)
    earliest

def getEarliestCompleteMsduOrAMsduIfExists (receiveBuffer : ReceiveBuffer) : Result Fragments :=
  match receiveBuffer.buffer.toList.find? fun it => isComplete it.2 with
  | none => .ok []
  | some first => do
      let earliestSeqNum ← firstSequenceNumber first.2
      let earliest ← receiveBuffer.earliestOf receiveBuffer.buffer.toList
        (first.2, earliestSeqNum)
      .ok earliest.1

/-- What follows the insertion of a frame: the buffer and the MSDU that is passed up. -/
def passUpEarliest (receiveBuffer : ReceiveBuffer) : Result (ReceiveBuffer × ReorderBuffer) := do
  let earliestCompleteMsduOrAMsdu ← receiveBuffer.getEarliestCompleteMsduOrAMsduIfExists
  match earliestCompleteMsduOrAMsdu with
  | [] => .ok (receiveBuffer, ∅)
  | fragment :: _ => do
      let earliestSequenceNumber := fragment.sequenceNumber
      let full ← receiveBuffer.isFull
      if full ∨ earliestSequenceNumber = receiveBuffer.nextExpectedSequenceNumber then do
        let receiveBuffer ← receiveBuffer.passedUp earliestSequenceNumber
        .ok (receiveBuffer,
          (∅ : ReorderBuffer).insert earliestSequenceNumber earliestCompleteMsduOrAMsdu)
      else .ok (receiveBuffer, ∅)

/-- A request for the numbers from `startingSequenceNumber` on: the buffer and the MSDUs that are
passed up. -/
def passUpRequested (receiveBuffer : ReceiveBuffer) (startingSequenceNumber : ℕ) :
    Result (ReceiveBuffer × ReorderBuffer) := do
  let completePrecedingMpdus := receiveBuffer.collectCompletePrecedingMpdus startingSequenceNumber
  let consecutiveCompleteFollowingMpdus :=
    receiveBuffer.collectConsecutiveCompleteFollowingMpdus startingSequenceNumber
  let numOfMsdusToPassUp := completePrecedingMpdus.size + consecutiveCompleteFollowingMpdus.size
  let receiveBuffer :=
    if numOfMsdusToPassUp = 0 ∧
        isSequenceNumberLess receiveBuffer.nextExpectedSequenceNumber startingSequenceNumber
          receiveBuffer.nextExpectedSequenceNumber receiveBuffer.bufferSize then
      { receiveBuffer with nextExpectedSequenceNumber := startingSequenceNumber }
    else receiveBuffer
  let receiveBuffer ← receiveBuffer.releaseReceiveBuffer completePrecedingMpdus
  let receiveBuffer ← receiveBuffer.releaseReceiveBuffer consecutiveCompleteFollowingMpdus
  .ok (receiveBuffer, consecutiveCompleteFollowingMpdus.toList.foldl
    (fun mpdus it => mpdus.insertIfNew it.1 it.2) completePrecedingMpdus)

end ReceiveBuffer

/-- The receive buffers by TID and originator. -/
structure BlockAckReordering where
  receiveBuffers : Std.TreeMap (ℕ ×ₗ ℕ) ReceiveBuffer := ∅

namespace RecipientBlockAckAgreement

/-- The key of the receive buffer. -/
def id (agreement : RecipientBlockAckAgreement) : ℕ ×ₗ ℕ :=
  toLex (agreement.blockAckRecord.tid, agreement.blockAckRecord.originatorAddress)

/-- The record of the agreement grows, its key stays. -/
theorem blockAckPolicyFrameReceived_ok (agreement : RecipientBlockAckAgreement)
    {dataFrame : Ieee80211DataFrame} (hpolicy : dataFrame.ackPolicy = .BLOCK_ACK) :
    ∃ agreement' : RecipientBlockAckAgreement,
      agreement.blockAckPolicyFrameReceived dataFrame = .ok agreement' ∧
        agreement'.id = agreement.id := by
  refine ⟨{ agreement with
    blockAckRecord := agreement.blockAckRecord.blockAckPolicyFrameReceived dataFrame }, ?_, rfl⟩
  rw [RecipientBlockAckAgreement.blockAckPolicyFrameReceived, assert,
    if_pos (decide_eq_true hpolicy)]
  rfl

end RecipientBlockAckAgreement

namespace BlockAckReordering

def createReceiveBufferIfNecessary (reordering : BlockAckReordering)
    (agreement : RecipientBlockAckAgreement) : ReceiveBuffer :=
  reordering.receiveBuffers.getD agreement.id
    { bufferSize := agreement.bufferSize
      nextExpectedSequenceNumber := agreement.startingSequenceNumber }

def withBuffer (reordering : BlockAckReordering) (id : ℕ ×ₗ ℕ) (receiveBuffer : ReceiveBuffer) :
    BlockAckReordering :=
  { receiveBuffers := reordering.receiveBuffers.insert id receiveBuffer }

def processReceivedQoSFrame (reordering : BlockAckReordering)
    (agreement : RecipientBlockAckAgreement) (dataFrame : Ieee80211DataFrame) :
    Result (BlockAckReordering × RecipientBlockAckAgreement × ReorderBuffer) :=
  let receiveBuffer := reordering.createReceiveBufferIfNecessary agreement
  match receiveBuffer.insertFrame dataFrame with
  | some receiveBuffer => do
      let agreement' ←
        if dataFrame.ackPolicy = .BLOCK_ACK then agreement.blockAckPolicyFrameReceived dataFrame
        else .ok agreement
      let (receiveBuffer, passed) ← receiveBuffer.passUpEarliest
      .ok (reordering.withBuffer agreement.id receiveBuffer, agreement', passed)
  | none => .ok (reordering.withBuffer agreement.id receiveBuffer, agreement, ∅)

def processReceivedBlockAckReq (reordering : BlockAckReordering) (frame : Ieee80211BlockAckReq) :
    Result (BlockAckReordering × ReorderBuffer) :=
  match frame.variant with
  | .basic =>
    let id := toLex (frame.tidInfo, frame.transmitterAddress)
    match reordering.receiveBuffers[id]? with
    | some receiveBuffer => do
        let (receiveBuffer, passed) ← receiveBuffer.passUpRequested frame.startingSequenceNumber
        .ok (reordering.withBuffer id receiveBuffer, passed)
    | none => .ok (reordering, ∅)
  -- the cast to a compressed BlockAck, in place of a request, never succeeds
  | _ => .error (.cRuntimeError "Multi-Tid BlockAckReq is currently an unimplemented feature")

def processReceivedDelba (reordering : BlockAckReordering) (delba : Ieee80211Delba) :
    BlockAckReordering :=
  { receiveBuffers :=
      reordering.receiveBuffers.erase (toLex (delba.tid, delba.transmitterAddress)) }

end BlockAckReordering

end Inet.Ieee80211
