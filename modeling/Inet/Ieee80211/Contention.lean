import Inet.Common.Basic

/-!
# Contention for the channel

`Contention` waits until the medium has been free for an interframe space and a number of backoff
slots. When the medium becomes busy before that, the slots that remain are computed from the time
at which the transmission would have started.

Times are the numbers `SimTime::raw()`. The kernel delivers events in the order of time, and the
message `startTx` at the time it is scheduled for.
-/

namespace Inet.Ieee80211

namespace Contention

inductive State where
  | IDLE | DEFER | IFS_AND_BACKOFF
deriving DecidableEq

inductive EventType where
  | START | MEDIUM_STATE_CHANGED | CORRUPTED_FRAME_RECEIVED | CHANNEL_ACCESS_GRANTED
deriving DecidableEq

end Contention

open Contention.State Contention.EventType

/-- The messages that are scheduled have the time of their arrival. -/
structure Contention where
  /-- `simTime()`. -/
  now : ℤ := 0
  backoffOptimization : Bool := true
  callback : Bool := false
  ifs : ℤ := 0
  eifs : ℤ := 0
  slotTime : ℤ := 0
  fsm : Contention.State := IDLE
  endEifsTime : ℤ := 0
  backoffSlots : ℤ := 0
  scheduledTransmissionTime : ℤ := 0
  lastChannelBusyTime : ℤ := 0
  lastIdleStartTime : ℤ := 0
  backoffOptimizationDelta : ℤ := 0
  mediumFree : Bool := true
  startTxEvent : Option ℤ := none
  channelGrantedEvent : Option ℤ := none
  /-- What `callback->expectedChannelAccess()` was called with last. -/
  expectedChannelAccess : ℤ := -1
  /-- The number of calls of `callback->channelAccessGranted()`. -/
  channelAccessGranted : ℕ := 0
  /-- The time of the last transmission request; the code does not keep it. -/
  requestTime : ℤ := 0
  /-- The interframe space of the last transmission request; the code does not keep it. -/
  requestSpace : ℤ := 0

namespace Contention

def scheduleTransmissionRequestFor (c : Contention) (txStartTime : ℤ) : Contention :=
  { c with startTxEvent := some txStartTime, expectedChannelAccess := txStartTime }

def cancelTransmissionRequest (c : Contention) : Contention :=
  { c with startTxEvent := none, expectedChannelAccess := -1 }

def scheduleTransmissionRequest (c : Contention) : Result Contention := do
  assert c.mediumFree "mediumFree"
  let useEifs := c.endEifsTime > c.now + c.ifs
  let space := if useEifs then c.eifs else c.ifs
  let waitInterval := space + c.backoffSlots * c.slotTime
  let c := { c with requestTime := c.now, requestSpace := space }
  let (c, waitInterval) :=
    if c.backoffOptimization ∧ c.fsm = IDLE then
      let elapsedFreeChannelTime := c.now - c.lastChannelBusyTime
      let elapsedIdleTime := c.now - c.lastIdleStartTime
      let delta := min waitInterval (min elapsedFreeChannelTime elapsedIdleTime)
      ({ c with backoffOptimizationDelta := delta },
        if delta > 0 then waitInterval - delta else waitInterval)
    else (c, waitInterval)
  let c := { c with scheduledTransmissionTime := c.now + waitInterval }
  .ok (c.scheduleTransmissionRequestFor c.scheduledTransmissionTime)

def switchToEifs (c : Contention) : Result Contention :=
  { c with endEifsTime := c.now + c.eifs }.cancelTransmissionRequest.scheduleTransmissionRequest

/-- The slots that remain, rounded up, before the number is converted to `int`. -/
def remainingSlots (c : Contention) : ℤ :=
  let remainingTime := c.scheduledTransmissionTime - c.now
  (remainingTime + c.slotTime - 1).tdiv c.slotTime

def computeRemainingBackoffSlots (c : Contention) : Contention :=
  let remainingSlots := Inet.toInt c.remainingSlots
  -- don't count IFS
  if remainingSlots < c.backoffSlots then { c with backoffSlots := remainingSlots } else c

/-- The transitions; an action comes before the state is changed. -/
def handleWithFSM (c : Contention) (event : EventType) : Result Contention :=
  match c.fsm, event with
  | IDLE, START =>
    if c.mediumFree then do
      let c ← c.scheduleTransmissionRequest
      .ok { c with fsm := IFS_AND_BACKOFF }
    else .ok { c with fsm := DEFER }
  | IDLE, MEDIUM_STATE_CHANGED => .ok c
  | IDLE, CORRUPTED_FRAME_RECEIVED => .ok c
  | DEFER, MEDIUM_STATE_CHANGED =>
    if c.mediumFree then do
      let c ← c.scheduleTransmissionRequest
      .ok { c with fsm := IFS_AND_BACKOFF }
    else .error (.cRuntimeError "Unhandled event")
  | DEFER, CORRUPTED_FRAME_RECEIVED => .ok { c with endEifsTime := c.now + c.eifs }
  | IFS_AND_BACKOFF, CHANNEL_ACCESS_GRANTED =>
    .ok { c with
      lastIdleStartTime := c.now
      fsm := IDLE
      channelGrantedEvent := some c.now }
  | IFS_AND_BACKOFF, MEDIUM_STATE_CHANGED =>
    if !c.mediumFree then
      .ok { c.cancelTransmissionRequest.computeRemainingBackoffSlots with fsm := DEFER }
    else .error (.cRuntimeError "Unhandled event")
  | IFS_AND_BACKOFF, CORRUPTED_FRAME_RECEIVED => c.switchToEifs
  | _, _ => .error (.cRuntimeError "Unhandled event")

/-- `slots` is what `intrand(cw + 1)` returns, a number from `0` to `cw`. -/
def startContention (c : Contention) (cw : ℤ) (ifs eifs slotTime : ℤ) (slots : ℤ) :
    Result Contention := do
  assert (0 ≤ ifs ∧ 0 ≤ eifs ∧ 0 ≤ slotTime ∧ 0 ≤ cw)
    "ifs >= 0 && eifs >= 0 && slotTime >= 0 && cw >= 0"
  let c := { c with channelGrantedEvent := none }
  assert (c.fsm = IDLE) "fsm.getState() == IDLE"
  { c with ifs, eifs, slotTime, callback := true, backoffSlots := slots }.handleWithFSM START

def mediumStateChanged (c : Contention) (mediumFree : Bool) : Result Contention :=
  { c with mediumFree, lastChannelBusyTime := c.now }.handleWithFSM MEDIUM_STATE_CHANGED

def corruptedFrameReceived (c : Contention) : Result Contention :=
  c.handleWithFSM CORRUPTED_FRAME_RECEIVED

/-- `handleMessage` for the two messages. -/
def startTxArrived (c : Contention) : Result Contention :=
  { c with startTxEvent := none }.handleWithFSM CHANNEL_ACCESS_GRANTED

def channelGrantedArrived (c : Contention) : Result Contention :=
  if c.callback then
    .ok { c with
      channelGrantedEvent := none
      channelAccessGranted := c.channelAccessGranted + 1
      callback := false }
  else .error .nullPointer

/-- What happens next. -/
inductive Event where
  | mediumStateChanged (now : ℤ) (mediumFree : Bool)
  | corruptedFrameReceived (now : ℤ)
  | startTx
  | channelGranted

def step (c : Contention) : Event → Result Contention
  | .mediumStateChanged now mediumFree => { c with now }.mediumStateChanged mediumFree
  | .corruptedFrameReceived now => { c with now }.corruptedFrameReceived
  | .startTx => { c with now := c.startTxEvent.getD c.now }.startTxArrived
  | .channelGranted => { c with now := c.channelGrantedEvent.getD c.now }.channelGrantedArrived

/-- No message is overdue at the time of an event. -/
def NotOverdue (c : Contention) (now : ℤ) : Prop :=
  c.now ≤ now ∧ (∀ t ∈ c.startTxEvent, now ≤ t) ∧ ∀ t ∈ c.channelGrantedEvent, now ≤ t

/-- What the kernel and the receiver deliver. The receiver tells about a change of the medium. -/
def Possible (c : Contention) : Event → Prop
  | .mediumStateChanged now mediumFree => c.NotOverdue now ∧ mediumFree ≠ c.mediumFree
  | .corruptedFrameReceived now => c.NotOverdue now
  | .startTx => c.startTxEvent ≠ none
  | .channelGranted => c.channelGrantedEvent ≠ none

end Contention

end Inet.Ieee80211
