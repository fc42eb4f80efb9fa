import Inet.Common.Basic

/-!
# Frames and sequence numbers of IEEE 802.11

Sequence numbers count modulo 4096 and fragments are numbered from 0 to 15. They are natural
numbers here, as are TIDs and addresses, which are only compared and used as keys. A frame carries
the bounds of its header fields. Only the fields that the Block Ack code reads are kept.
-/

namespace Inet.Ieee80211

def sequenceNumberDistance (number1 number2 : ℕ) : ℕ :=
  (number2 + 4096 - number1) % 4096

def isSequenceNumberTooOld (number nextExpected range : ℕ) : Bool :=
  decide (sequenceNumberDistance nextExpected number > range)

def isSequenceNumberLess (number1 number2 nextExpected range : ℕ) : Bool :=
  let d1 := sequenceNumberDistance nextExpected number1
  let d2 := sequenceNumberDistance nextExpected number2
  if d1 < range ∧ d2 < range then decide (d1 < d2)
  else if d1 < range ∧ d2 ≥ range then false
  else if d1 ≥ range ∧ d2 < range then true
  else decide (d1 < d2)

theorem sequenceNumberDistance_lt (number1 number2 : ℕ) :
    sequenceNumberDistance number1 number2 < 4096 :=
  Nat.mod_lt _ (by decide)

theorem sequenceNumberDistance_add {start i : ℕ} (hstart : start < 4096) (hi : i < 4096) :
    sequenceNumberDistance start ((start + i) % 4096) = i := by
  rw [sequenceNumberDistance]
  omega

theorem add_sequenceNumberDistance {start number : ℕ} (hstart : start < 4096)
    (hnumber : number < 4096) : (start + sequenceNumberDistance start number) % 4096 = number := by
  rw [sequenceNumberDistance]
  omega

/-- A sequence number and a fragment number, ordered by the former first. -/
abbrev SequenceControlField := ℕ ×ₗ ℕ

instance instLawfulEqOrdLex {α β : Type*} [LinearOrder α] [LinearOrder β] : Std.LawfulEqOrd (α ×ₗ β) where
  eq_of_compare h := compare_eq_iff_eq.mp h

/-- `MACAddress::isMulticast`: the lowest bit of the first of six bytes. -/
def isMulticast (address : ℕ) : Bool := address.testBit 40

theorem zero_lt_sequenceNumbers : 0 < 4096 := by decide

theorem zero_lt_fragmentNumbers : 0 < 16 := by decide

inductive AckPolicy where
  | NORMAL_ACK
  | NO_ACK
  | NO_EXPLICIT_ACK
  | BLOCK_ACK
deriving DecidableEq

structure Ieee80211DataFrame where
  receiverAddress : ℕ := 0
  transmitterAddress : ℕ := 0
  tid : ℕ := 0
  sequenceNumber : ℕ
  fragmentNumber : ℕ := 0
  moreFragments : Bool := false
  ackPolicy : AckPolicy := .BLOCK_ACK
  sequenceNumber_lt : sequenceNumber < 4096 := by first | exact zero_lt_sequenceNumbers | decide
  fragmentNumber_lt : fragmentNumber < 16 := by first | exact zero_lt_fragmentNumbers | decide

/-- The variants of BlockAckReq and BlockAck frames. -/
inductive BlockAckVariant where
  | basic
  | compressed
  | multiTid
deriving DecidableEq

structure Ieee80211BlockAckReq where
  variant : BlockAckVariant := .basic
  receiverAddress : ℕ := 0
  transmitterAddress : ℕ := 0
  tidInfo : ℕ := 0
  startingSequenceNumber : ℕ
  startingSequenceNumber_lt : startingSequenceNumber < 4096 := by decide

structure Ieee80211Delba where
  transmitterAddress : ℕ := 0
  tid : ℕ := 0

structure Ieee80211BlockAck where
  variant : BlockAckVariant := .basic
  receiverAddress : ℕ := 0
  transmitterAddress : ℕ := 0
  tidInfo : ℕ := 0
  startingSequenceNumber : ℕ
  /-- One bit vector for each sequence number, with one bit for each fragment. -/
  blockAckBitmap : List (List Bool)
  startingSequenceNumber_lt : startingSequenceNumber < 4096 := by decide

namespace Ieee80211BlockAck

def getBit (blockAck : Ieee80211BlockAck) (seqNum fragNum : ℕ) : Bool :=
  (blockAck.blockAckBitmap.getD seqNum []).getD fragNum false

end Ieee80211BlockAck

end Inet.Ieee80211
