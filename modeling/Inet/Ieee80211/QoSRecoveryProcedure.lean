import Inet.Ieee80211.SequenceNumberAssignment
import Inet.Library.Run

/-!
# Retry counters of a QoS station

`QoSRecoveryProcedure` counts the failed attempts of each frame, in one map for short frames and
protecting RTS frames and in another one for long frames. The keys are made of the TID and the
sequence and fragment numbers. A frame that is acknowledged or dropped is removed from the map of
its length.

`step` runs the recovery procedure of a station that numbers its frames, sends them and hears of
their fate.
-/

namespace Inet.Ieee80211

/-- What the retry counters depend on in a QoS data frame. -/
structure QoSDataFrame where
  receiverAddress : ℕ
  tid : ℕ
  sequenceNumber : ℕ
  fragmentNumber : ℕ
  byteLength : ℕ

abbrev RetryId := ℕ ×ₗ SequenceControlField

abbrev RetryCounter := Std.TreeMap RetryId ℤ

def retryId (tid sequenceNumber fragmentNumber : ℕ) : RetryId :=
  toLex (tid, toLex (sequenceNumber, fragmentNumber))

def QoSDataFrame.id (frame : QoSDataFrame) : RetryId :=
  retryId frame.tid frame.sequenceNumber frame.fragmentNumber

/-- The contention window of an `Edcaf`. -/
structure CwCalculator where
  cw : ℤ
  cwMin : ℤ
  cwMax : ℤ

def CwCalculator.incrementCw (c : CwCalculator) : Result CwCalculator := do
  let newCw ← checkInt (2 * c.cw + 1)
  .ok { c with cw := if newCw > c.cwMax then c.cwMax else newCw }

def CwCalculator.resetCw (c : CwCalculator) : CwCalculator := { c with cw := c.cwMin }

structure QoSRecoveryProcedure where
  cwCalculator : CwCalculator
  shortRetryCounter : RetryCounter := ∅
  longRetryCounter : RetryCounter := ∅
  stationLongRetryCounter : ℤ := 0
  stationShortRetryCounter : ℤ := 0
  shortRetryLimit : ℤ
  longRetryLimit : ℤ
  rtsThreshold : ℤ

namespace QoSRecoveryProcedure

def resetContentionWindow (p : QoSRecoveryProcedure) : QoSRecoveryProcedure :=
  { p with cwCalculator := p.cwCalculator.resetCw }

/-- The contention window after a failure, which the last one of a frame resets. -/
def backOff (p : QoSRecoveryProcedure) (isLast : Bool) : Result QoSRecoveryProcedure :=
  if isLast then .ok p.resetContentionWindow
  else do
    let cwCalculator ← p.cwCalculator.incrementCw
    .ok { p with cwCalculator }

def incrementStationSrc (p : QoSRecoveryProcedure) : Result QoSRecoveryProcedure := do
  let count ← checkInt (p.stationShortRetryCounter + 1)
  backOff { p with stationShortRetryCounter := count } (decide (count = p.shortRetryLimit))

def incrementStationLrc (p : QoSRecoveryProcedure) : Result QoSRecoveryProcedure := do
  let count ← checkInt (p.stationLongRetryCounter + 1)
  backOff { p with stationLongRetryCounter := count } (decide (count = p.longRetryLimit))

def incrementCounter (frame : QoSDataFrame) (retryCounter : RetryCounter) : Result RetryCounter :=
  match retryCounter[frame.id]? with
  | some count => do
      let count ← checkInt (count + 1)
      .ok (retryCounter.insert frame.id count)
  | none => .ok (retryCounter.insert frame.id 1)

/-- The length of a frame selects its map. -/
def isLong (p : QoSRecoveryProcedure) (frame : QoSDataFrame) : Bool :=
  decide ((frame.byteLength : ℤ) ≥ p.rtsThreshold)

def ackFrameReceived (p : QoSRecoveryProcedure) (ackedFrame : QoSDataFrame) :
    QoSRecoveryProcedure :=
  let p :=
    if p.isLong ackedFrame then
      { p with
        stationLongRetryCounter := 0
        longRetryCounter := p.longRetryCounter.erase ackedFrame.id }
    else
      { p with
        stationShortRetryCounter := 0
        shortRetryCounter := p.shortRetryCounter.erase ackedFrame.id }
  p.resetContentionWindow

def retryLimitReached (p : QoSRecoveryProcedure) (frame : QoSDataFrame) : QoSRecoveryProcedure :=
  if p.isLong frame then { p with longRetryCounter := p.longRetryCounter.erase frame.id }
  else { p with shortRetryCounter := p.shortRetryCounter.erase frame.id }

def dataFrameTransmissionFailed (p : QoSRecoveryProcedure) (failedFrame : QoSDataFrame) :
    Result QoSRecoveryProcedure :=
  if p.isLong failedFrame then do
    let p ← p.incrementStationLrc
    let longRetryCounter ← incrementCounter failedFrame p.longRetryCounter
    .ok { p with longRetryCounter }
  else do
    let p ← p.incrementStationSrc
    let shortRetryCounter ← incrementCounter failedFrame p.shortRetryCounter
    .ok { p with shortRetryCounter }

def rtsFrameTransmissionFailed (p : QoSRecoveryProcedure) (protectedFrame : QoSDataFrame) :
    Result QoSRecoveryProcedure := do
  let p ← p.incrementStationSrc
  let shortRetryCounter ← incrementCounter protectedFrame p.shortRetryCounter
  .ok { p with shortRetryCounter }

/-- The short and the long retry count of a frame, without an error if there is none. -/
def retryCount (p : QoSRecoveryProcedure) (id : RetryId) : ℤ :=
  p.shortRetryCounter[id]?.getD 0 + p.longRetryCounter[id]?.getD 0

end QoSRecoveryProcedure

/-- A frame that has been neither acknowledged nor dropped, and its failed attempts. -/
structure InFlight where
  frame : QoSDataFrame
  failures : ℕ := 0

/-- A station that sends frames. The frames in flight are found by their message ids. -/
structure Originator where
  numbering : QoSSequenceNumberAssignment := {}
  recovery : QoSRecoveryProcedure
  inFlight : ℕ → Option InFlight := fun _ => none
  nextId : ℕ := 0

namespace Originator

inductive Event where
  /-- A frame is numbered and sent in fragments of these lengths. -/
  | transmit (receiverAddress tid : ℕ) (byteLengths : List ℕ)
  | dataFailed (id : ℕ)
  | rtsFailed (id : ℕ)
  | acked (id : ℕ)
  | dropped (id : ℕ)

def find (s : Originator) (id : ℕ) : Result InFlight :=
  match s.inFlight id with
  | some f => .ok f
  | none => .error .outOfRange

/-- One more attempt has failed. -/
def fail (s : Originator) (id : ℕ) (f : InFlight) (recovery : QoSRecoveryProcedure) : Originator :=
  { s with
    recovery
    inFlight := Function.update s.inFlight id (some { f with failures := f.failures + 1 }) }

/-- The frame is done with. -/
def finish (s : Originator) (id : ℕ) (recovery : QoSRecoveryProcedure) : Originator :=
  { s with
    recovery
    inFlight := Function.update s.inFlight id none }

def step (s : Originator) : Event → Result Originator
  | .transmit receiverAddress tid byteLengths =>
    let (numbering, sequenceNumber) := s.numbering.assignDataSequenceNumber receiverAddress tid
    .ok { s with
      numbering
      inFlight := fun id =>
        if id < s.nextId then s.inFlight id
        else byteLengths[id - s.nextId]?.map fun byteLength =>
          { frame :=
              { receiverAddress, tid, sequenceNumber
                fragmentNumber := id - s.nextId
                byteLength } }
      nextId := s.nextId + byteLengths.length }
  | .dataFailed id => do
      let f ← s.find id
      let recovery ← s.recovery.dataFrameTransmissionFailed f.frame
      .ok (s.fail id f recovery)
  | .rtsFailed id => do
      let f ← s.find id
      let recovery ← s.recovery.rtsFrameTransmissionFailed f.frame
      .ok (s.fail id f recovery)
  | .acked id => do
      let f ← s.find id
      .ok (s.finish id (s.recovery.ackFrameReceived f.frame))
  | .dropped id => do
      let f ← s.find id
      .ok (s.finish id (s.recovery.retryLimitReached f.frame))

end Originator

end Inet.Ieee80211
