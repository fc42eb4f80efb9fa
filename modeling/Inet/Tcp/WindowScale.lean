import Inet.Library.Run
import Inet.Tcp.VirtualDataRcvQueue

/-!
# The window scale of a TCP endpoint

The shift count of the Window Scale option is chosen by `writeHeaderOptions` when a SYN or
SYN+ACK is built, from the distance between the receive queue and the end of the receive
buffer. Later `updateRcvWnd` shifts each window that is advertised by it, and asserts that the
result has 16 bits.

Before the SYN of the peer has arrived the receive queue is as its constructor leaves it, with
`rcv_nxt` at -1, and the distance comes out one too small. `covers_iff` says when this matters:
just in case the size of the buffer is a power of two from `2 ^ 16` on.
-/

namespace Inet.Tcp

/-- The largest window without scaling. -/
def TCP_MAX_WIN : Uint32 := 65535

def MAX_SYN_REXMIT_COUNT : ℕ := 12

/-- The states of a connection up to the exchange of the SYN segments, and the one after it has
been aborted. -/
inductive OpeningState where
  | INIT
  | LISTEN
  | SYN_SENT
  | SYN_RCVD
  | CLOSED
deriving DecidableEq

/-- The variables of the receive window and of its scaling. -/
structure WindowVariables where
  rcvNxt : Uint32 := 0
  rcvWnd : Uint32 := 0
  rcvAdv : Uint32 := 0
  sndMss : Uint32 := 0
  maxRcvBuffer : Uint32 := 0
  usedRcvBuffer : Uint32 := 0
  freeRcvBuffer : Uint32 := 0
  wsSupport : Bool := false
  wsEnabled : Bool := false
  /-- The scale that was set manually, -1 otherwise. -/
  wsManualScale : ℤ := -1
  sndWs : Bool := false
  rcvWs : Bool := false
  rcvWndScale : ℕ := 0
  sndWndScale : ℕ := 0
  synRexmitCount : ℕ := 0

namespace WindowVariables

def updateRcvQueueVars (state : WindowVariables) (receiveQueue : TCPVirtualDataRcvQueue Region) :
    WindowVariables :=
  let free := receiveQueue.getAmountOfFreeBytes state.maxRcvBuffer
  { state with freeRcvBuffer := free, usedRcvBuffer := state.maxRcvBuffer - free }

/-- The window that `updateRcvWnd` settles on. -/
def receiveWindow (state : WindowVariables) : Uint32 :=
  let win := state.freeRcvBuffer
  -- no less than one full-sized segment is advertised
  let win := if win < state.maxRcvBuffer / 4 && win < state.sndMss then 0 else win
  -- the window does not shrink
  let win := if win < state.rcvAdv - state.rcvNxt then state.rcvAdv - state.rcvNxt else win
  if win > TCP_MAX_WIN && !state.wsEnabled then TCP_MAX_WIN else win

/-- The window is advertised. -/
def advertise (state : WindowVariables) (win : Uint32) : WindowVariables :=
  { state with
    rcvAdv :=
      if win > 0 && seqGE (state.rcvNxt + win) state.rcvAdv then state.rcvNxt + win
      else state.rcvAdv
    rcvWnd := win }

/-- The value for the header. -/
def scaleRcvWnd (state : WindowVariables) : Result Uint32 := do
  let scaledRcvWnd ← if state.wsEnabled && state.rcvWndScale != 0 then do
      assert (decide (state.rcvWndScale ≤ 14)) "state->rcv_wnd_scale <= 14"
      pure (state.rcvWnd >>> state.rcvWndScale)
    else pure state.rcvWnd
  assert (scaledRcvWnd == scaledRcvWnd &&& 0xffff)
    "scaled_rcv_wnd == (unsigned short)scaled_rcv_wnd"
  .ok scaledRcvWnd

/-- The scaled window, and the variables after the update. -/
def updateRcvWnd (state : WindowVariables) (receiveQueue : TCPVirtualDataRcvQueue Region) :
    Result (Uint32 × WindowVariables) := do
  let state := state.updateRcvQueueVars receiveQueue
  let state := state.advertise state.receiveWindow
  let scaledRcvWnd ← state.scaleRcvWnd
  .ok (scaledRcvWnd, state)

end WindowVariables

/-- The loop of `writeHeaderOptions`; `left` is what remains of the 14 shifts. -/
def shiftWindow : ℕ → Uint32 → ℕ → ℕ
  | 0, _, scale => scale
  | left + 1, scaledRcvWnd, scale =>
    if scaledRcvWnd > TCP_MAX_WIN then shiftWindow left (scaledRcvWnd >>> 1) (scale + 1)
    else scale

/-- A connection that is being opened. -/
structure Endpoint where
  fsm : OpeningState
  state : WindowVariables
  receiveQueue : TCPVirtualDataRcvQueue Region

/-- The parameters of the module. -/
structure WindowParameters where
  advertisedWindow : ℤ
  windowScalingSupport : Bool := true
  windowScalingFactor : ℤ := -1
  mss : Uint32 := 536

/-- A segment that carries a SYN and no ACK, as far as the opening reads it. -/
structure Syn where
  sequenceNo : Uint32
  payloadLength : ℕ := 0
  windowScale : Option ℕ := none

/-- The SYN, or SYN+ACK, that has been built. -/
structure SentSyn where
  ackBit : Bool
  window : Uint32
  windowScale : Option ℕ

inductive OpeningEvent where
  | OPEN_ACTIVE
  | OPEN_PASSIVE
  | SEND
  | RCV_SYN (tcpseg : Syn)
  | TIMEOUT_SYN_REXMIT

namespace Endpoint

/-- The constructor of the receive queue sets `rcv_nxt` to -1. -/
def createReceiveQueue : TCPVirtualDataRcvQueue Region := { rcvNxt := BitVec.ofInt 32 (-1) }

/-- `initConnection` with `configureStateVariables`. -/
def initConnection (par : WindowParameters) : Result Endpoint :=
  let advertisedWindowPar := par.advertisedWindow
  if !par.windowScalingSupport && (advertisedWindowPar > 65535 || advertisedWindowPar ≤ 0) then
    .error (.cRuntimeError "Invalid advertisedWindow parameter: %ld")
  else
    let window :=
      if par.windowScalingSupport && advertisedWindowPar > 65535 then TCP_MAX_WIN
      else BitVec.ofInt 32 advertisedWindowPar
    .ok
      { fsm := .INIT
        receiveQueue := createReceiveQueue
        state :=
          { rcvWnd := window
            rcvAdv := window
            maxRcvBuffer := BitVec.ofInt 32 advertisedWindowPar
            wsSupport := par.windowScalingSupport
            wsManualScale := par.windowScalingFactor
            sndMss := par.mss } }

/-- The part of `writeHeaderOptions` that writes the Window Scale option of a SYN. -/
def writeHeaderOptions (conn : Endpoint) : Option ℕ × Endpoint :=
  let state := conn.state
  if (conn.fsm = .INIT || conn.fsm = .LISTEN ||
      ((conn.fsm = .SYN_SENT || conn.fsm = .SYN_RCVD) && state.synRexmitCount > 0)) &&
      state.wsSupport && (state.rcvWs || conn.fsm = .INIT ||
        (conn.fsm = .SYN_SENT && state.synRexmitCount > 0)) then
    let rcvWndScale :=
      if state.wsManualScale > -1 then state.wsManualScale.toNat
      else shiftWindow 14 (conn.receiveQueue.getFirstSeqNo + state.maxRcvBuffer - state.rcvNxt) 0
    (some rcvWndScale, { conn with state := { state with
        rcvWndScale, sndWs := true, wsEnabled := state.wsSupport && state.rcvWs } })
  else (none, conn)

/-- `sendSyn` and, with the ACK bit, `sendSynAck`. -/
def sendSyn (conn : Endpoint) (ackBit : Bool) : Result (SentSyn × Endpoint) := do
  let (_, state) ← conn.state.updateRcvWnd conn.receiveQueue
  let (windowScale, conn) := writeHeaderOptions { conn with state }
  .ok ({ ackBit, window := state.rcvWnd, windowScale }, conn)

def goto (fsm : OpeningState) (sent : SentSyn × Endpoint) : Option SentSyn × Endpoint :=
  (some sent.1, { sent.2 with fsm })

def startSynRexmitTimer (conn : Endpoint) : Endpoint :=
  { conn with state := { conn.state with synRexmitCount := 0 } }

/-- The text of the SYN is put into the receive queue if there is space for it; `false` if not. -/
def queueText (conn : Endpoint) (tcpseg : Syn) : Result (Bool × Endpoint) := do
  if tcpseg.payloadLength > 0 then
    let conn := { conn with state := conn.state.updateRcvQueueVars conn.receiveQueue }
    let firstSeq := conn.receiveQueue.getFirstSeqNo
    let endSeq := tcpseg.sequenceNo + BitVec.ofNat 32 tcpseg.payloadLength
    if seqLE firstSeq tcpseg.sequenceNo && seqLE endSeq (firstSeq + conn.state.maxRcvBuffer) then
      let receiveQueue ← conn.receiveQueue.insertRegion ⟨tcpseg.sequenceNo, endSeq⟩
      .ok (true, { conn with receiveQueue })
    else .ok (false, conn)
  else .ok (true, conn)

/-- `processWSOption`. -/
def processWSOption (conn : Endpoint) : Option ℕ → Endpoint
  | none => conn
  | some scale =>
    { conn with state := { conn.state with
      rcvWs := true
      wsEnabled := conn.state.wsSupport && conn.state.sndWs
      sndWndScale := min scale 14 } }

/-- The receive side takes up the sequence numbers of the peer. -/
def acceptSyn (conn : Endpoint) (tcpseg : Syn) : Endpoint :=
  let rcvNxt := tcpseg.sequenceNo + 1
  let conn' := { conn with
    state := { conn.state with rcvNxt, rcvAdv := rcvNxt + conn.state.rcvWnd }
    receiveQueue := .init rcvNxt }
  -- the options are read in LISTEN only
  if conn.fsm = .LISTEN then conn'.processWSOption tcpseg.windowScale else conn'

/-- The SYN bit in `processSegmentInListen` and `processSegmentInSynSent`. -/
def processSyn (conn : Endpoint) (tcpseg : Syn) : Result (Option SentSyn × Endpoint) := do
  let (sent, conn) ← (conn.acceptSyn tcpseg).sendSyn true
  let (queued, conn) ← conn.startSynRexmitTimer.queueText tcpseg
  .ok (some sent, if queued then { conn with fsm := .SYN_RCVD } else conn)

def countSynRexmit (conn : Endpoint) : Endpoint :=
  { conn with state := { conn.state with synRexmitCount := conn.state.synRexmitCount + 1 } }

def processTimeoutSynRexmit (conn : Endpoint) : Result (Option SentSyn × Endpoint) :=
  -- behind the last retransmission the connection is aborted
  if conn.state.synRexmitCount + 1 > MAX_SYN_REXMIT_COUNT then
    .ok (none, { conn.countSynRexmit with fsm := .CLOSED })
  else
    match conn.fsm with
    | .SYN_SENT => do
        let sent ← conn.countSynRexmit.sendSyn false
        .ok (goto .SYN_SENT sent)
    | .SYN_RCVD => do
        let sent ← conn.countSynRexmit.sendSyn true
        .ok (goto .SYN_RCVD sent)
    | _ => .error (.cRuntimeError
        "Internal error: SYN-REXMIT timer expired while in state %s")

/-- What the endpoint sends, and the endpoint after the event. -/
def process (conn : Endpoint) : OpeningEvent → Result (Option SentSyn × Endpoint)
  | .OPEN_ACTIVE =>
    if conn.fsm = .INIT then do
      let sent ← conn.sendSyn false
      let (sent, conn) := goto .SYN_SENT sent
      .ok (sent, conn.startSynRexmitTimer)
    else .error (.cRuntimeError
      "Error processing command OPEN_ACTIVE: connection already exists")
  | .OPEN_PASSIVE =>
    if conn.fsm = .INIT then .ok (none, { conn with fsm := .LISTEN })
    else .error (.cRuntimeError
      "Error processing command OPEN_PASSIVE: connection already exists")
  | .SEND =>
    match conn.fsm with
    | .INIT => .error (.cRuntimeError "Error processing command SEND: connection not open")
    | .LISTEN => do
        let sent ← conn.sendSyn false
        let (sent, conn) := goto .SYN_SENT sent
        .ok (sent, conn.startSynRexmitTimer)
    | .CLOSED => .error (.cRuntimeError "Error processing command SEND: connection closing")
    | _ => .ok (none, conn)
  | .RCV_SYN tcpseg =>
    if conn.fsm = .LISTEN ∨ conn.fsm = .SYN_SENT then conn.processSyn tcpseg
    else .ok (none, conn)
  | .TIMEOUT_SYN_REXMIT => conn.processTimeoutSynRexmit

def step (conn : Endpoint) (event : OpeningEvent) : Result Endpoint :=
  Prod.snd <$> conn.process event

end Endpoint

/-- The shifts end at the first one that fits, or behind the last one. -/
theorem shiftWindow_spec (left : ℕ) (scaledRcvWnd : Uint32) (scale : ℕ) :
    ∃ k ≤ left, shiftWindow left scaledRcvWnd scale = scale + k ∧
      (k < left → scaledRcvWnd.toNat / 2 ^ k ≤ 65535) ∧
      ∀ j < k, 65535 < scaledRcvWnd.toNat / 2 ^ j := by
  induction left generalizing scaledRcvWnd scale with
  | zero => exact ⟨0, le_rfl, rfl, by simp, by simp⟩
  | succ left ih =>
    have hmax : scaledRcvWnd > TCP_MAX_WIN ↔ 65535 < scaledRcvWnd.toNat := by
      rw [gt_iff_lt, BitVec.lt_def]
      rfl
    rw [shiftWindow]
    split_ifs with hlarge
    · obtain ⟨k, hk, hscale, hfits, hbefore⟩ := ih (scaledRcvWnd >>> 1) (scale + 1)
      have hshift (j : ℕ) : (scaledRcvWnd >>> 1).toNat / 2 ^ j =
          scaledRcvWnd.toNat / 2 ^ (j + 1) := by
        rw [BitVec.toNat_ushiftRight, Nat.shiftRight_eq_div_pow, Nat.div_div_eq_div_mul,
          ← Nat.pow_add, Nat.add_comm]
      refine ⟨k + 1, by omega, by rw [hscale]; omega, fun hlt => ?_, fun j hj => ?_⟩
      · rw [← hshift]
        exact hfits (by omega)
      · cases j with
        | zero => simpa using hmax.mp hlarge
        | succ j =>
          rw [← hshift]
          exact hbefore j (by omega)
    · refine ⟨0, Nat.zero_le _, rfl, fun _ => ?_, by simp⟩
      simpa using not_lt.mp (mt hmax.mpr hlarge)

section

variable {maxRcvBuffer : Uint32}

/-- Some shift count that is allowed makes the buffer fit into 16 bits. -/
def Scalable (maxRcvBuffer : Uint32) : Prop := maxRcvBuffer.toNat ≤ 65535 * 2 ^ 14

/-- The sizes that the scale of one byte less does not cover. -/
def IsLargePower (maxRcvBuffer : Uint32) : Prop := ∃ k ≥ 16, maxRcvBuffer.toNat = 2 ^ k

/-- The scale that has been computed from the size of the buffer covers it. -/
theorem shiftWindow_covers (hmax : Scalable maxRcvBuffer) :
    maxRcvBuffer.toNat / 2 ^ shiftWindow 14 maxRcvBuffer 0 ≤ 65535 := by
  obtain ⟨k, hk, hscale, hfits, -⟩ := shiftWindow_spec 14 maxRcvBuffer 0
  rw [hscale, Nat.zero_add]
  obtain hlt | rfl := Nat.lt_or_eq_of_le hk
  · exact hfits hlt
  · exact Nat.div_le_of_le_mul (by rw [Nat.mul_comm]; exact hmax)

/-- A scale that fits one byte less fits the buffer, unless the buffer is the one behind the
largest that it fits. -/
theorem div_le_iff_of_pred {m k : ℕ} (hm : 0 < m) (h : (m - 1) / 2 ^ k ≤ 65535) :
    m / 2 ^ k ≤ 65535 ↔ m ≠ 2 ^ (16 + k) := by
  have hpos : 0 < 2 ^ k := Nat.two_pow_pos k
  have hpow : 2 ^ (16 + k) = 65536 * 2 ^ k := Nat.pow_add 2 16 k
  have hpred : m - 1 < 65536 * 2 ^ k := (Nat.div_lt_iff_lt_mul hpos).mp (by omega)
  have hfits : m / 2 ^ k ≤ 65535 ↔ m < 65536 * 2 ^ k := by
    rw [← Nat.div_lt_iff_lt_mul hpos]
    omega
  rw [hfits, hpow]
  omega

/-- The scale that has been computed from one byte less covers the buffer just in case its size
is not a power of two from `2 ^ 16` on. -/
theorem shiftWindow_pred_covers_iff (hmax : Scalable maxRcvBuffer) :
    maxRcvBuffer.toNat / 2 ^ shiftWindow 14 (maxRcvBuffer - 1) 0 ≤ 65535 ↔
      ¬IsLargePower maxRcvBuffer := by
  unfold Scalable at hmax
  obtain ⟨k, hk, hscale, hfits, hbefore⟩ := shiftWindow_spec 14 (maxRcvBuffer - 1) 0
  rw [hscale, Nat.zero_add]
  by_cases hzero : maxRcvBuffer.toNat = 0
  · have hsmall : ¬IsLargePower maxRcvBuffer := by
      rintro ⟨n, -, hn⟩
      have := Nat.two_pow_pos n
      omega
    simp [hzero, hsmall]
  · have hpred : (maxRcvBuffer - 1).toNat = maxRcvBuffer.toNat - 1 :=
      BitVec.toNat_sub_of_le (by rw [BitVec.le_def]; simp; omega)
    rw [hpred] at hfits hbefore
    have hpredk : (maxRcvBuffer.toNat - 1) / 2 ^ k ≤ 65535 := by
      obtain hlt | rfl := Nat.lt_or_eq_of_le hk
      · exact hfits hlt
      · omega
    rw [div_le_iff_of_pred (by omega) hpredk, not_iff_not]
    constructor
    · intro heq
      exact ⟨16 + k, by omega, heq⟩
    · rintro ⟨n, hn, heq⟩
      -- the loop has shifted a power of two exactly as often as it has bits beyond 16
      obtain ⟨j, rfl⟩ := Nat.exists_eq_add_of_le hn
      rw [heq] at hpredk hbefore ⊢
      have hdiv (i : ℕ) : (2 ^ (16 + j) - 1) / 2 ^ i ≤ 65535 ↔ j ≤ i := by
        have hpos : 0 < 2 ^ i := Nat.two_pow_pos i
        have hlarge : 0 < 2 ^ (16 + j) := Nat.two_pow_pos _
        have hpow : 2 ^ (16 + i) = 65536 * 2 ^ i := Nat.pow_add 2 16 i
        calc (2 ^ (16 + j) - 1) / 2 ^ i ≤ 65535
            ↔ (2 ^ (16 + j) - 1) / 2 ^ i < 65536 := by omega
          _ ↔ 2 ^ (16 + j) - 1 < 65536 * 2 ^ i := Nat.div_lt_iff_lt_mul hpos
          _ ↔ 2 ^ (16 + j) ≤ 2 ^ (16 + i) := by omega
          _ ↔ 16 + j ≤ 16 + i := Nat.pow_le_pow_iff_right (by omega)
          _ ↔ j ≤ i := by omega
      have hjk : j ≤ k := (hdiv k).mp hpredk
      have hkj : ¬j < k := by
        intro hlt
        exact absurd ((hdiv j).mpr le_rfl) (not_le.mpr (hbefore j hlt))
      obtain rfl : j = k := by omega
      rfl

end

namespace WindowVariables

theorem and_eq_self {x : Uint32} (h : x.toNat ≤ 65535) : x &&& 65535#32 = x := by
  apply BitVec.eq_of_toNat_eq
  rw [BitVec.toNat_and]
  show x.toNat &&& (2 ^ 16 - 1) = x.toNat
  rw [Nat.and_two_pow_sub_one_eq_mod]
  exact Nat.mod_eq_of_lt (by omega)

theorem scaleRcvWnd_of_fits {state : WindowVariables} (henabled : state.wsEnabled = true)
    (hscale : state.rcvWndScale ≤ 14)
    (hfits : state.rcvWnd.toNat / 2 ^ state.rcvWndScale ≤ 65535) :
    state.scaleRcvWnd = .ok (state.rcvWnd >>> state.rcvWndScale) := by
  have hshift : (state.rcvWnd >>> state.rcvWndScale).toNat ≤ 65535 := by
    rw [BitVec.toNat_ushiftRight, Nat.shiftRight_eq_div_pow]
    exact hfits
  rw [scaleRcvWnd]
  by_cases hzero : state.rcvWndScale = 0
  · rw [hzero, BitVec.ushiftRight_zero] at hshift ⊢
    simp [and_eq_self hshift]
  · simp [henabled, hzero, hscale, and_eq_self hshift]

/-- The check of `updateRcvWnd` passes for a window within a buffer that the scale covers. -/
theorem updateRcvWnd_of_covers {state : WindowVariables}
    {receiveQueue : TCPVirtualDataRcvQueue Region} (henabled : state.wsEnabled = true)
    (hscale : state.rcvWndScale ≤ 14)
    (hcovers : state.maxRcvBuffer.toNat / 2 ^ state.rcvWndScale ≤ 65535)
    (hwin : (state.updateRcvQueueVars receiveQueue).receiveWindow ≤ state.maxRcvBuffer) :
    ∃ result, state.updateRcvWnd receiveQueue = .ok result := by
  have hscaled := @scaleRcvWnd_of_fits
    ((state.updateRcvQueueVars receiveQueue).advertise
      (state.updateRcvQueueVars receiveQueue).receiveWindow)
    henabled hscale ((Nat.div_le_div_right (BitVec.le_def.mp hwin)).trans hcovers)
  rw [updateRcvWnd, hscaled]
  exact ⟨_, rfl⟩

end WindowVariables

namespace Endpoint

variable {ackBit : Bool}

/-- The scale covers the receive buffer, and with scaling enabled no window within the buffer
fails the check of `updateRcvWnd`. -/
def CoversBuffer (maxRcvBuffer : Uint32) (scale : ℕ) : Prop :=
  (maxRcvBuffer >>> scale).toNat ≤ 65535 ∧
    ∀ (state : WindowVariables) (receiveQueue : TCPVirtualDataRcvQueue Region),
      state.wsEnabled = true → state.rcvWndScale = scale → state.maxRcvBuffer = maxRcvBuffer →
      (state.updateRcvQueueVars receiveQueue).receiveWindow ≤ maxRcvBuffer →
      ∃ result, state.updateRcvWnd receiveQueue = .ok result

/-- A SYN of the peer has arrived before the segment is built. -/
def peerSynKnown (conn : Endpoint) : OpeningEvent → Bool
  | .RCV_SYN _ => true
  | _ => conn.receiveQueue.getFirstSeqNo = conn.state.rcvNxt

/-- What holds of the receive side while the connection opens: the receive queue is as
constructed, or it has been initialised by the SYN of the peer. -/
structure Opens (maxRcvBuffer : Uint32) (conn : Endpoint) : Prop where
  size : conn.state.maxRcvBuffer = maxRcvBuffer
  automatic : conn.state.wsManualScale = -1
  queue : (conn.receiveQueue = createReceiveQueue ∧ conn.state.rcvNxt = 0) ∨
    conn.receiveQueue = .init conn.state.rcvNxt

variable {maxRcvBuffer : Uint32} {conn conn' : Endpoint}

/-- Only these variables matter. -/
theorem Opens.congr (h : Opens maxRcvBuffer conn)
    (hsize : conn'.state.maxRcvBuffer = conn.state.maxRcvBuffer)
    (hmanual : conn'.state.wsManualScale = conn.state.wsManualScale)
    (hnxt : conn'.state.rcvNxt = conn.state.rcvNxt)
    (hqueue : conn'.receiveQueue = conn.receiveQueue) : Opens maxRcvBuffer conn' where
  size := hsize.trans h.size
  automatic := hmanual.trans h.automatic
  queue := by
    rw [hqueue, hnxt]
    exact h.queue

/-- The distance that the scale is computed from. -/
theorem Opens.distance (h : Opens maxRcvBuffer conn) :
    conn.receiveQueue.getFirstSeqNo + conn.state.maxRcvBuffer - conn.state.rcvNxt =
      if conn.receiveQueue.getFirstSeqNo = conn.state.rcvNxt then maxRcvBuffer
      else maxRcvBuffer - 1 := by
  rw [h.size]
  obtain ⟨hqueue, hnxt⟩ | hqueue := h.queue
  · have hfirst : conn.receiveQueue.getFirstSeqNo = BitVec.ofInt 32 (-1) := by
      rw [hqueue]
      rfl
    rw [hfirst, hnxt, if_neg (by decide)]
    bv_omega
  · have hfirst : conn.receiveQueue.getFirstSeqNo = conn.state.rcvNxt := by
      rw [hqueue]
      rfl
    rw [if_pos hfirst, hfirst]
    bv_omega

/-- The scale that is chosen for a SYN that is built from this endpoint. -/
def chosenScale (maxRcvBuffer : Uint32) (conn : Endpoint) : ℕ :=
  shiftWindow 14
    (if conn.receiveQueue.getFirstSeqNo = conn.state.rcvNxt then maxRcvBuffer
      else maxRcvBuffer - 1) 0

theorem Opens.writeHeaderOptions (h : Opens maxRcvBuffer conn) :
    Opens maxRcvBuffer (Endpoint.writeHeaderOptions conn).2 ∧
      ∀ scale, (Endpoint.writeHeaderOptions conn).1 = some scale →
        scale = chosenScale maxRcvBuffer conn ∧
          (Endpoint.writeHeaderOptions conn).2.state.rcvWndScale = scale := by
  have hmanual : ¬conn.state.wsManualScale > -1 := by
    rw [h.automatic]
    decide
  rw [Endpoint.writeHeaderOptions]
  split_ifs
  · refine ⟨h.congr rfl rfl rfl rfl, fun scale hscale => ?_⟩
    cases hscale
    exact ⟨congrArg (shiftWindow 14 · 0) h.distance, rfl⟩
  · exact ⟨h, fun scale hscale => by cases hscale⟩

/-- The window is updated, and the options are written for the same queue. -/
theorem Opens.sendSyn {sent : SentSyn} (h : Opens maxRcvBuffer conn)
    (hsend : conn.sendSyn ackBit = .ok (sent, conn')) :
    Opens maxRcvBuffer conn' ∧ ∀ scale, sent.windowScale = some scale →
      scale = chosenScale maxRcvBuffer conn ∧ conn'.state.rcvWndScale = scale := by
  obtain ⟨⟨scaled, state⟩, hupdate, hsend⟩ := bind_eq_ok.mp hsend
  obtain ⟨scaled', -, hstate⟩ := bind_eq_ok.mp hupdate
  cases hstate
  cases hsend
  exact Opens.writeHeaderOptions (h.congr rfl rfl rfl rfl)

theorem writeHeaderOptions_receiveQueue (conn : Endpoint) :
    (Endpoint.writeHeaderOptions conn).2.receiveQueue = conn.receiveQueue := by
  rw [Endpoint.writeHeaderOptions]
  split_ifs <;> rfl

theorem sendSyn_receiveQueue {sent : SentSyn} (hsend : conn.sendSyn ackBit = .ok (sent, conn')) :
    conn'.receiveQueue = conn.receiveQueue := by
  obtain ⟨⟨scaled, state⟩, -, hsend⟩ := bind_eq_ok.mp hsend
  cases hsend
  exact writeHeaderOptions_receiveQueue _

/-- The text of a SYN is never queued: it begins before the queue does. -/
theorem queueText_of_init {tcpseg : Syn} {queued : Bool}
    (hqueue : conn.receiveQueue = .init (tcpseg.sequenceNo + 1))
    (hrun : conn.queueText tcpseg = .ok (queued, conn')) :
    ∃ state, conn' = { conn with state } ∧ state.maxRcvBuffer = conn.state.maxRcvBuffer ∧
      state.wsManualScale = conn.state.wsManualScale ∧ state.rcvNxt = conn.state.rcvNxt ∧
      state.rcvWndScale = conn.state.rcvWndScale := by
  have hbefore : seqLE conn.receiveQueue.getFirstSeqNo tcpseg.sequenceNo = false := by
    rw [hqueue]
    show decide ((tcpseg.sequenceNo - (tcpseg.sequenceNo + 1)).toNat < 2 ^ 31) = false
    apply decide_eq_false
    bv_omega
  rw [queueText] at hrun
  simp only [hbefore, Bool.false_and, Bool.false_eq_true, if_false] at hrun
  split_ifs at hrun
  · cases hrun
    exact ⟨_, rfl, rfl, rfl, rfl, rfl⟩
  · cases hrun
    exact ⟨_, rfl, rfl, rfl, rfl, rfl⟩

/-- What an event leaves behind: the receive side stays as it should be, and a scale that is
written has been computed from the size of the buffer if a SYN of the peer is known. -/
structure Outcome (maxRcvBuffer : Uint32) (conn : Endpoint) (event : OpeningEvent)
    (sent : Option SentSyn) (conn' : Endpoint) : Prop where
  opens : Opens maxRcvBuffer conn'
  scale : ∀ syn scale, sent = some syn → syn.windowScale = some scale →
    conn'.state.rcvWndScale = scale ∧ scale = shiftWindow 14
        (if peerSynKnown conn event then maxRcvBuffer else maxRcvBuffer - 1) 0

variable {event : OpeningEvent} {sent : Option SentSyn}

theorem Outcome.silent (h : Opens maxRcvBuffer conn') :
    Outcome maxRcvBuffer conn event none conn' where
  opens := h
  scale := fun _ _ hsent => by cases hsent

/-- The SYN is built from `conn₁`, and what follows does not concern the scale. -/
theorem Outcome.sends {conn₁ conn₂ : Endpoint} {syn : SentSyn} (h : Opens maxRcvBuffer conn₁)
    (hsend : conn₁.sendSyn ackBit = .ok (syn, conn₂)) (hknown : peerSynKnown conn event = true ↔
      conn₁.receiveQueue.getFirstSeqNo = conn₁.state.rcvNxt)
    (hopens : Opens maxRcvBuffer conn₂ → Opens maxRcvBuffer conn')
    (hscale : conn'.state.rcvWndScale = conn₂.state.rcvWndScale) :
    Outcome maxRcvBuffer conn event (some syn) conn' where
  opens := hopens (h.sendSyn hsend).1
  scale := by
    intro syn' scale hsyn hwritten
    cases hsyn
    obtain ⟨hchosen, hstored⟩ := (h.sendSyn hsend).2 scale hwritten
    refine ⟨hscale.trans hstored, ?_⟩
    simp only [hknown]
    exact hchosen

@[simp] theorem acceptSyn_receiveQueue (conn : Endpoint) (tcpseg : Syn) :
    (conn.acceptSyn tcpseg).receiveQueue = .init (tcpseg.sequenceNo + 1) := by
  rw [acceptSyn]
  split_ifs
  · cases tcpseg.windowScale <;> rfl
  · rfl

section

variable (h : Opens maxRcvBuffer conn)

include h

theorem Opens.acceptSyn (tcpseg : Syn) :
    Opens maxRcvBuffer (conn.acceptSyn tcpseg) ∧
      (conn.acceptSyn tcpseg).state.rcvNxt = tcpseg.sequenceNo + 1 := by
  rw [Endpoint.acceptSyn]
  split_ifs
  · cases tcpseg.windowScale with
    | none => exact ⟨⟨h.size, h.automatic, .inr rfl⟩, rfl⟩
    | some scale => exact ⟨⟨h.size, h.automatic, .inr rfl⟩, rfl⟩
  · exact ⟨⟨h.size, h.automatic, .inr rfl⟩, rfl⟩

theorem Opens.processSyn {tcpseg : Syn}
    (hrun : conn.processSyn tcpseg = .ok (sent, conn')) :
    Outcome maxRcvBuffer conn (.RCV_SYN tcpseg) sent conn' := by
  obtain ⟨hopens, hnxt⟩ := h.acceptSyn tcpseg
  rw [Endpoint.processSyn] at hrun
  obtain ⟨⟨syn, conn₁⟩, hsend, hrun⟩ := bind_eq_ok.mp hrun
  obtain ⟨⟨queued, conn₂⟩, hqueue, hrun⟩ := bind_eq_ok.mp hrun
  cases hrun
  have hkept : conn₁.startSynRexmitTimer.receiveQueue = .init (tcpseg.sequenceNo + 1) :=
    (sendSyn_receiveQueue hsend).trans (acceptSyn_receiveQueue conn tcpseg)
  obtain ⟨state, rfl, hsize, hmanual, hnxt', hscale⟩ := queueText_of_init hkept hqueue
  refine .sends hopens hsend ?_ (fun h₁ => ?_) ?_
  · rw [acceptSyn_receiveQueue, hnxt]
    exact iff_of_true rfl rfl
  · cases queued
    · exact h₁.congr hsize hmanual hnxt' rfl
    · exact h₁.congr hsize hmanual hnxt' rfl
  · cases queued
    · exact hscale
    · exact hscale

theorem Opens.processTimeoutSynRexmit
    (hrun : conn.processTimeoutSynRexmit = .ok (sent, conn')) :
    Outcome maxRcvBuffer conn .TIMEOUT_SYN_REXMIT sent conn' := by
  have hcount : Opens maxRcvBuffer conn.countSynRexmit := h.congr rfl rfl rfl rfl
  rw [Endpoint.processTimeoutSynRexmit] at hrun
  split_ifs at hrun
  · cases hrun
    exact .silent (hcount.congr rfl rfl rfl rfl)
  · cases hfsm : conn.fsm with
    | SYN_SENT =>
      simp only [hfsm] at hrun
      obtain ⟨⟨syn, conn₁⟩, hsend, hrun⟩ := bind_eq_ok.mp hrun
      cases hrun
      exact .sends hcount hsend decide_eq_true_iff (fun h₁ => h₁.congr rfl rfl rfl rfl) rfl
    | SYN_RCVD =>
      simp only [hfsm] at hrun
      obtain ⟨⟨syn, conn₁⟩, hsend, hrun⟩ := bind_eq_ok.mp hrun
      cases hrun
      exact .sends hcount hsend decide_eq_true_iff (fun h₁ => h₁.congr rfl rfl rfl rfl) rfl
    | _ =>
      simp only [hfsm] at hrun
      cases hrun

theorem Opens.process
    (hrun : conn.process event = .ok (sent, conn')) :
    Outcome maxRcvBuffer conn event sent conn' := by
  cases event with
  | OPEN_ACTIVE =>
    rw [Endpoint.process] at hrun
    split_ifs at hrun
    obtain ⟨⟨syn, conn₁⟩, hsend, hrun⟩ := bind_eq_ok.mp hrun
    cases hrun
    exact .sends h hsend decide_eq_true_iff (fun h₁ => h₁.congr rfl rfl rfl rfl) rfl
  | OPEN_PASSIVE =>
    rw [Endpoint.process] at hrun
    split_ifs at hrun
    cases hrun
    exact .silent (h.congr rfl rfl rfl rfl)
  | SEND =>
    rw [Endpoint.process] at hrun
    cases hfsm : conn.fsm with
    | LISTEN =>
      simp only [hfsm] at hrun
      obtain ⟨⟨syn, conn₁⟩, hsend, hrun⟩ := bind_eq_ok.mp hrun
      cases hrun
      exact .sends h hsend decide_eq_true_iff (fun h₁ => h₁.congr rfl rfl rfl rfl) rfl
    | INIT =>
      simp only [hfsm] at hrun
      cases hrun
    | CLOSED =>
      simp only [hfsm] at hrun
      cases hrun
    | _ =>
      simp only [hfsm] at hrun
      cases hrun
      exact .silent h
  | RCV_SYN tcpseg =>
    rw [Endpoint.process] at hrun
    split_ifs at hrun
    · exact h.processSyn hrun
    · cases hrun
      exact .silent h
  | TIMEOUT_SYN_REXMIT => exact h.processTimeoutSynRexmit hrun

end

theorem Opens.initConnection {par : WindowParameters}
    (hmanual : par.windowScalingFactor = -1) (hinit : initConnection par = .ok conn) :
    Opens (BitVec.ofInt 32 par.advertisedWindow) conn := by
  rw [Endpoint.initConnection] at hinit
  split_ifs at hinit
  all_goals
    cases hinit
    exact ⟨rfl, hmanual, .inl ⟨rfl, rfl⟩⟩

theorem Opens.exec {events : List OpeningEvent} (h : Opens maxRcvBuffer conn)
    (hexec : Run.exec step conn events = .ok conn') : Opens maxRcvBuffer conn' := by
  refine (Run.throughout_of_preserved (fun conn event conn' h hstep => ?_) h).of_exec hexec
  obtain ⟨⟨sent, conn₁⟩, hrun, rfl⟩ := Result.map_eq_ok.mp hstep
  exact (h.process hrun).opens

theorem coversBuffer_iff {scale : ℕ} (hscale : scale ≤ 14) :
    CoversBuffer maxRcvBuffer scale ↔ maxRcvBuffer.toNat / 2 ^ scale ≤ 65535 := by
  have hshift : (maxRcvBuffer >>> scale).toNat = maxRcvBuffer.toNat / 2 ^ scale := by
    rw [BitVec.toNat_ushiftRight, Nat.shiftRight_eq_div_pow]
  constructor
  · intro h
    rw [← hshift]
    exact h.1
  · intro h
    refine ⟨hshift ▸ h, ?_⟩
    rintro state receiveQueue henabled rfl rfl hwin
    exact WindowVariables.updateRcvWnd_of_covers henabled hscale h hwin

/-- In every run of the opening of a connection, with automatic scaling and a receive buffer that
can be scaled, the scale in a SYN or SYN+ACK covers the buffer just in case a SYN of the peer has
arrived before or the size of the buffer is not a power of two from `2 ^ 16` on. -/
theorem covers_iff {par : WindowParameters} {conn₀ : Endpoint} {events : List OpeningEvent}
    {syn : SentSyn} (hmanual : par.windowScalingFactor = -1)
    (hpos : 0 ≤ par.advertisedWindow) (hmax : par.advertisedWindow ≤ 65535 * 2 ^ 14)
    (hinit : initConnection par = .ok conn₀) (hexec : Run.exec step conn₀ events = .ok conn)
    (hrun : conn.process event = .ok (some syn, conn')) (hwritten : syn.windowScale ≠ none) :
    CoversBuffer conn'.state.maxRcvBuffer conn'.state.rcvWndScale ↔
      (peerSynKnown conn event = true ∨ ¬IsLargePower conn'.state.maxRcvBuffer) := by
  have hopens : Opens (BitVec.ofInt 32 par.advertisedWindow) conn :=
    (Opens.initConnection hmanual hinit).exec hexec
  have houtcome := hopens.process hrun
  have hsize := houtcome.opens.size
  have hscalable : Scalable conn'.state.maxRcvBuffer := by
    rw [hsize, Scalable, BitVec.toNat_ofInt]
    omega
  obtain ⟨scale, hscale⟩ := Option.ne_none_iff_exists'.mp hwritten
  obtain ⟨hstored, hchosen⟩ := houtcome.scale syn scale rfl hscale
  have hle : conn'.state.rcvWndScale ≤ 14 := by
    rw [hstored, hchosen]
    obtain ⟨k, hk, heq, -⟩ := shiftWindow_spec 14
      (if peerSynKnown conn event then BitVec.ofInt 32 par.advertisedWindow
        else BitVec.ofInt 32 par.advertisedWindow - 1) 0
    omega
  rw [coversBuffer_iff hle, hstored, hchosen, ← hsize]
  by_cases hknown : peerSynKnown conn event = true
  · rw [if_pos hknown]
    exact iff_of_true (shiftWindow_covers hscalable) (.inl hknown)
  · rw [if_neg hknown, shiftWindow_pred_covers_iff hscalable]
    exact ⟨.inr, fun h => h.resolve_left hknown⟩

/-- A receive buffer of 64 KiB. -/
def buffer64K : WindowParameters := { advertisedWindow := 65536 }

def opened64K : Endpoint where
  fsm := .INIT
  receiveQueue := createReceiveQueue
  state :=
    { rcvWnd := 65535
      rcvAdv := 65535
      maxRcvBuffer := 65536
      wsSupport := true
      sndMss := 536 }

/-- The passively opening endpoint chooses a scale that covers the buffer of 64 KiB. -/
theorem covers_passive : ∃ syn conn', { opened64K with fsm := .LISTEN }.process
      (.RCV_SYN { sequenceNo := 1000, windowScale := some 3 }) = .ok (some syn, conn') ∧
    CoversBuffer conn'.state.maxRcvBuffer conn'.state.rcvWndScale := by
  have hinit : initConnection buffer64K = .ok opened64K := rfl
  have hexec : Run.exec step opened64K [.OPEN_PASSIVE] =
      .ok { opened64K with fsm := .LISTEN } := rfl
  obtain ⟨syn, conn', hrun, hwritten⟩ : ∃ syn conn', { opened64K with fsm := .LISTEN }.process
      (.RCV_SYN { sequenceNo := 1000, windowScale := some 3 }) = .ok (some syn, conn') ∧
        syn.windowScale ≠ none := ⟨_, _, rfl, Option.some_ne_none 1⟩
  exact ⟨syn, conn', hrun,
    (covers_iff rfl (by decide) (by decide) hinit hexec hrun hwritten).mpr (.inl rfl)⟩

/-- The actively opening endpoint chooses the scale 0 for the buffer of 64 KiB. -/
theorem not_covers_active : ∃ conn syn conn', initConnection buffer64K = .ok conn ∧
    conn.process .OPEN_ACTIVE = .ok (some syn, conn') ∧ syn.windowScale = some 0 ∧
      ¬CoversBuffer conn'.state.maxRcvBuffer conn'.state.rcvWndScale :=
  ⟨_, _, _, rfl, rfl, rfl, fun h => absurd h.1 (by decide)⟩

end Endpoint

end Inet.Tcp
