import Inet.Tcp.SackCounters

/-!
# Loss detection with selective acknowledgments

`isLost`, `setPipe` and `nextSeg` of the sender. The loops go through the scoreboard region by
region and ask `isLost` once for each; this is right because the counters behind `isLost` do not
grow with the sequence number and do not change within a region that is not sacked.

On a valid scoreboard `isLost` is the predicate `Scoreboard.isLostAt`, which is antitone.
-/

namespace Inet.Tcp

open SerialNumber (ofPos)
open Stretches (behindLast stretches)

/-- A send queue that stores no data. The others keep the sequence numbers in the same way. -/
structure TCPVirtualDataSendQueue where
  begin : Uint32
  «end» : Uint32
deriving DecidableEq

def TCPVirtualDataSendQueue.getBytesAvailable (queue : TCPVirtualDataSendQueue)
    (fromSeq : Uint32) : ℕ :=
  if seqLess fromSeq queue.end then (queue.end - fromSeq).toNat else 0

/-- The variables of the send side. -/
structure SenderVariables where
  sndUna : Uint32
  sndNxt : Uint32
  sndMax : Uint32
  sndWnd : Uint32 := 0
  sndMss : Uint32
  sackEnabled : Bool := true
  afterRto : Bool := false
  sendFin : Bool := false
  sndFinSeq : Uint32 := 0
  /-- One behind the highest octet that has been retransmitted. -/
  highRxt : Uint32 := 0
  pipe : Uint32 := 0
  sentBytes : Uint32 := 0
deriving DecidableEq

/-- The send side of a connection. -/
structure Sender where
  state : SenderVariables
  sendQueue : TCPVirtualDataSendQueue
  rexmitQueue : TCPSACKRexmitQueue
deriving DecidableEq

/-- The threshold for duplicate ACKs and sacked blocks. -/
def DUPTHRESH : Uint32 := 3

namespace Sender

def isLost (conn : Sender) (seqNum : Uint32) : Result Bool := do
  assert conn.state.sackEnabled "state->sack_enabled"
  assert (seqGE seqNum conn.state.sndUna) "seqGE(seqNum, state->snd_una)"
  let discontiguousSacks ← conn.rexmitQueue.getNumOfDiscontiguousSacks seqNum
  if discontiguousSacks ≥ DUPTHRESH then .ok true
  else do
    let sackedBytes ← conn.rexmitQueue.getAmountOfSackedBytes seqNum
    .ok (sackedBytes ≥ DUPTHRESH * conn.state.sndMss)

/-- What the block of length `length` from `s1` on adds to the pipe. -/
def addToPipe (conn : Sender) (pipe s1 length : Uint32) (sacked : Bool) : Result Uint32 :=
  if !sacked then do
    let lost ← conn.isLost s1
    let pipe := if lost = false then pipe + length else pipe
    .ok (if seqLess s1 conn.state.highRxt then pipe + length else pipe)
  else .ok pipe

/-- The loop of `setPipe`. -/
def setPipeLoop (conn : Sender) : ℕ → Uint32 → Uint32 → Result Uint32
  | 0, _, _ => .error .outOfFuel
  | fuel + 1, s1, pipe =>
    if seqLess s1 conn.state.sndMax then do
      let (length, sacked, _) ← conn.rexmitQueue.checkSackBlock s1
      let pipe ← conn.addToPipe pipe s1 length sacked
      setPipeLoop conn fuel (s1 + length) pipe
    else .ok pipe

/-- The functions below begin with looking up `highRxt`. -/
def setHighRxt (conn : Sender) : Sender :=
  { conn with state := { conn.state with
    highRxt := conn.rexmitQueue.getHighestRexmittedSeqNum } }

def withPipe (conn : Sender) (pipe : Uint32) : Sender :=
  { conn with state := { conn.state with pipe } }

/-- The number of octets that are outstanding bounds the rounds of the loops. -/
def outstanding (conn : Sender) : ℕ := (conn.state.sndMax - conn.state.sndUna).toNat

def setPipe (conn : Sender) : Result Sender := do
  assert conn.state.sackEnabled "state->sack_enabled"
  let conn := conn.setHighRxt
  let pipe ← conn.setPipeLoop (conn.outstanding + 1) conn.state.sndUna 0
  .ok (conn.withPipe pipe)

/-- The loops of rules (1) and (3) of `nextSeg`: the first block that is not sacked decides. The
first step overwrites `shift`, so its initial value does not matter. -/
def searchLoop (conn : Sender) (highestSackedSeqNum : Uint32)
    (answer : Uint32 → Result (Option Uint32)) : ℕ → Uint32 → Result (Option Uint32)
  | 0, _ => .error .outOfFuel
  | fuel + 1, s =>
    if seqLess s conn.state.sndMax && seqLess s highestSackedSeqNum then do
      let (shift, sacked, _) ← conn.rexmitQueue.checkSackBlock s
      if !sacked then answer s
      else searchLoop conn highestSackedSeqNum answer fuel (s + shift)
    else .ok none

/-- Rule (1): the octet has to be lost. -/
def ruleOne (conn : Sender) (highestSackedSeqNum : Uint32) : Result (Option Uint32) :=
  conn.searchLoop highestSackedSeqNum (fun s2 => do
    let lost ← conn.isLost s2
    .ok (if lost then some s2 else none)) (conn.outstanding + 1) conn.state.highRxt

/-- Rule (2): there is unsent data, and the effective window takes a segment. The window is
computed with 64 bits. -/
def ruleTwo (conn : Sender) : Bool :=
  let buffered := conn.sendQueue.getBytesAvailable conn.state.sndMax
  let effectiveWin := conn.state.sndWnd.setWidth 64 - conn.state.pipe.setWidth 64
  buffered > 0 && effectiveWin ≥ conn.state.sndMss.setWidth 64

/-- Rule (3): any octet will do. -/
def ruleThree (conn : Sender) (highestSackedSeqNum : Uint32) : Result (Option Uint32) :=
  conn.searchLoop highestSackedSeqNum (fun s3 => .ok (some s3)) (conn.outstanding + 1)
    conn.state.highRxt

/-- The sequence number, `none` for `false`. -/
def nextSeg (conn : Sender) : Result (Option Uint32 × Sender) := do
  assert conn.state.sackEnabled "state->sack_enabled"
  let conn := conn.setHighRxt
  let highestSackedSeqNum := conn.rexmitQueue.getHighestSackedSeqNum
  let lost ← conn.ruleOne highestSackedSeqNum
  match lost with
  | some s2 => .ok (some s2, conn)
  | none =>
    if conn.ruleTwo then .ok (some conn.state.sndMax, conn)
    else do
      let unsacked ← conn.ruleThree highestSackedSeqNum
      .ok (unsacked, conn)

end Sender

namespace Scoreboard

/-- What `isLost` answers for the octet at place `k`. -/
def isLostAt (board : Scoreboard) (sndMss : Uint32) (k : ℕ) : Bool :=
  decide (3 ≤ stretches Flags.sacked false (board.bytes.drop k)) ||
    decide ((DUPTHRESH * sndMss).toNat ≤ (board.bytes.drop k).countP Flags.sacked)

/-- The octet at place `k` is sacked. -/
def sackedAt (board : Scoreboard) (k : ℕ) : Bool :=
  (board.bytes[k]?.map Flags.sacked).getD false

/-- One behind the highest octet that has been retransmitted, as a place. -/
def highRxt (board : Scoreboard) : ℕ := behindLast Flags.rexmitted board.bytes

/-- One behind the highest octet that has been sacked, as a place. -/
def highestSacked (board : Scoreboard) : ℕ := behindLast Flags.sacked board.bytes

variable {board : Scoreboard} {sndMss : Uint32} {k k' : ℕ}

/-- An octet behind a lost one need not be lost, but one before it is. -/
theorem isLostAt_antitone (h : k ≤ k') (hlost : board.isLostAt sndMss k' = true) :
    board.isLostAt sndMss k = true := by
  have hblocks := Stretches.stretches_drop_antitone (p := Flags.sacked) (l := board.bytes) h
  have hbytes := Stretches.countP_drop_antitone (p := Flags.sacked) (l := board.bytes) h
  simp only [isLostAt, Bool.or_eq_true, decide_eq_true_eq] at hlost ⊢
  omega

/-- Over a part that is not sacked all octets are lost, or none. -/
theorem isLostAt_eq (h : k ≤ k') (hsacked : ∀ j, k ≤ j → j < k' → board.sackedAt j = false) :
    board.isLostAt sndMss k' = board.isLostAt sndMss k := by
  have hnot (j : ℕ) (a : Flags) (hj : k ≤ j) (hj' : j < k') (ha : board.bytes[j]? = some a) :
      a.sacked = false := by
    simpa [sackedAt, ha] using hsacked j hj hj'
  rw [isLostAt, isLostAt, Stretches.stretches_drop_eq h hnot, Stretches.countP_drop_eq h hnot]

end Scoreboard

namespace Sender

variable {conn : Sender} {board : Scoreboard} {k : ℕ}

/-- The scoreboard of the sender is valid: it begins at `snd_una`, and there is less than half of
the sequence space in flight. -/
structure Valid (conn : Sender) (board : Scoreboard) : Prop where
  sackEnabled : conn.state.sackEnabled = true
  represents : TCPSACKRexmitQueue.Represents conn.rexmitQueue board
  begin_eq : board.begin = conn.state.sndUna

theorem Valid.length_lt (h : Valid conn board) : board.bytes.length < 2 ^ 31 := by
  obtain ⟨runs, -, -, -, -, hlen, hbytes⟩ := h.represents
  rw [← hbytes, RunLength.length_expand]
  exact hlen

theorem Valid.isLost (h : Valid conn board) (hk : k ≤ board.bytes.length) :
    conn.isLost (ofPos conn.state.sndUna k) = .ok (board.isLostAt conn.state.sndMss k) := by
  have hlen := h.length_lt
  have hge : seqGE (ofPos conn.state.sndUna k) conn.state.sndUna = true := seqLE_start (by omega)
  have hblocks := Stretches.stretches_le_length (p := Flags.sacked) false (board.bytes.drop k)
  have hbytes := List.countP_le_length (p := Flags.sacked) (l := board.bytes.drop k)
  rw [List.length_drop] at hblocks hbytes
  have hmany : BitVec.ofNat 32 (stretches Flags.sacked false (board.bytes.drop k)) ≥ DUPTHRESH ↔
      3 ≤ stretches Flags.sacked false (board.bytes.drop k) := by
    rw [ge_iff_le, BitVec.le_def, BitVec.toNat_ofNat, Nat.mod_eq_of_lt (by omega)]
    rfl
  have henough : BitVec.ofNat 32 ((board.bytes.drop k).countP Flags.sacked) ≥
      DUPTHRESH * conn.state.sndMss ↔
        (DUPTHRESH * conn.state.sndMss).toNat ≤ (board.bytes.drop k).countP Flags.sacked := by
    rw [ge_iff_le, BitVec.le_def, BitVec.toNat_ofNat, Nat.mod_eq_of_lt (by omega)]
  rw [Sender.isLost, assert_of h.sackEnabled, ok_bind, assert_of hge, ok_bind,
    ← h.begin_eq, h.represents.getNumOfDiscontiguousSacks hk,
    h.represents.getAmountOfSackedBytes hk]
  simp only [ok_bind, hmany, henough, Scoreboard.isLostAt]
  split_ifs with hthree
  · simp [hthree]
  · simp [hthree]

end Sender

end Inet.Tcp
