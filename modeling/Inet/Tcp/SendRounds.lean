import Inet.Tcp.SendData

/-!
# The rounds of sending

What a sequence of `sendSegment` calls sends depends on the marks of the octets from `snd_nxt` to
the end of the send queue. In each round the marked octets at the front are passed over, if a
retransmission timeout is being recovered from, and the segment takes as many of the others as it
holds. The functions below are the loops of `sendData` and `retransmitData` in these terms; their
result is `none` if some round finds nothing to take.
-/

namespace Inet.Tcp

/-- What lies ahead of `snd_nxt`: whether each octet up to the end of the send queue has been
sacked or sent again, how many octets there are before `snd_max`, and the options of the next
segment. -/
structure Ahead where
  marks : List Bool
  afterRto : Bool
  outstanding : ℕ
  options : HeaderOptions

namespace Ahead

/-- The number of octets that are passed over. -/
def skipped (ahead : Ahead) : ℕ :=
  if ahead.afterRto then (ahead.marks.takeWhile id).length else 0

/-- The number of octets that the segment takes. -/
def taken (mss : ℕ) (ahead : Ahead) (bytes : ℕ) : ℕ :=
  min (min bytes (ahead.marks.length - ahead.skipped)) (mss - ahead.options.length)

/-- What lies ahead after the segment. From `snd_max` on nothing is passed over. -/
def next (mss : ℕ) (ahead : Ahead) (bytes : ℕ) : Ahead :=
  let passed := ahead.skipped + ahead.taken mss bytes
  { marks := ahead.marks.drop passed
    afterRto := ahead.afterRto && decide (passed < ahead.outstanding)
    outstanding := ahead.outstanding - passed
    options := ahead.options.written }

variable {mss effectiveMaxBytesSend bytes bytesToSend : ℕ} {ahead : Ahead}

theorem taken_le : ahead.taken mss bytes ≤ bytes :=
  (Nat.min_le_left _ _).trans (Nat.min_le_left _ _)

theorem taken_le_room : ahead.taken mss bytes ≤ mss - ahead.options.length := Nat.min_le_right _ _

theorem length_next : (ahead.next mss bytes).marks.length =
      ahead.marks.length - (ahead.skipped + ahead.taken mss bytes) :=
  List.length_drop

theorem length_next_lt (h : ahead.taken mss bytes ≠ 0) :
    (ahead.next mss bytes).marks.length < ahead.marks.length := by
  have hle : ahead.taken mss bytes ≤ ahead.marks.length - ahead.skipped :=
    (Nat.min_le_left _ _).trans (Nat.min_le_right _ _)
  rw [length_next]
  omega

/-- A single segment. -/
def segment (mss : ℕ) (ahead : Ahead) (bytes : ℕ) : Option Ahead :=
  if ahead.taken mss bytes = 0 then none else some (ahead.next mss bytes)

/-- Whole segments, and what is left to send after them. -/
def sendLoop (mss effectiveMaxBytesSend : ℕ) (ahead : Ahead) (bytesToSend : ℕ) :
    Option (Ahead × ℕ) :=
  if effectiveMaxBytesSend ≤ bytesToSend then
    if _ : ahead.taken mss mss = 0 then none
    else
      (ahead.next mss mss).sendLoop mss effectiveMaxBytesSend
        (bytesToSend - ahead.taken mss mss)
  else some (ahead, bytesToSend)
termination_by ahead.marks.length
decreasing_by exact length_next_lt ‹_›

def sendWhole (mss effectiveMaxBytesSend : ℕ) (ahead : Ahead) (bytesToSend : ℕ) :
    Option (Ahead × ℕ) :=
  if bytesToSend ≤ mss then
    (ahead.segment mss bytesToSend).map fun rest =>
      (rest, bytesToSend - ahead.taken mss bytesToSend)
  else ahead.sendLoop mss effectiveMaxBytesSend bytesToSend

def sendLast (mss : ℕ) (ahead : Ahead) (bytesToSend : ℕ) : Option Ahead :=
  if bytesToSend = ahead.marks.length ∧ ahead.marks.length ≠ 0 then ahead.segment mss bytesToSend
  else some ahead

def sendData (mss effectiveMaxBytesSend : ℕ) (ahead : Ahead) (bytesToSend : ℕ) : Option Ahead := do
  let (rest, left) ← ahead.sendWhole mss effectiveMaxBytesSend bytesToSend
  rest.sendLast mss left

/-- Nothing is sent behind the FIN, which follows the last octet. -/
def rexmitLoop (mss : ℕ) (sendFin : Bool) (ahead : Ahead) (bytesToSend : ℕ) : Option Ahead :=
  if bytesToSend = 0 then some ahead
  else
    let bytes := min (min bytesToSend mss) ahead.marks.length
    if _ : ahead.taken mss bytes = 0 then none
    else if sendFin && (ahead.next mss bytes).marks.isEmpty then some (ahead.next mss bytes)
    else (ahead.next mss bytes).rexmitLoop mss sendFin (bytesToSend - ahead.taken mss bytes)
termination_by ahead.marks.length
decreasing_by exact length_next_lt ‹_›

/-! ### Without a timeout -/

/-- Nothing is passed over, and the options leave room. -/
structure Undisturbed (mss : ℕ) (ahead : Ahead) : Prop where
  afterRto : ahead.afterRto = false
  room : ahead.options.length < mss
  room' : ahead.options.written.length < mss

variable (h : Undisturbed mss ahead)

include h

theorem Undisturbed.skipped : ahead.skipped = 0 := by
  rw [Ahead.skipped, h.afterRto]
  rfl

theorem Undisturbed.taken_ne_zero (hbytes : bytes ≠ 0) (hmarks : ahead.marks.length ≠ 0) :
    ahead.taken mss bytes ≠ 0 := by
  have := h.room
  rw [taken, h.skipped]
  omega

theorem Undisturbed.length_next :
    (ahead.next mss bytes).marks.length = ahead.marks.length - ahead.taken mss bytes := by
  rw [Ahead.length_next, h.skipped, Nat.zero_add]

theorem Undisturbed.next : Undisturbed mss (ahead.next mss bytes) where
  afterRto := by
    rw [Ahead.next, h.afterRto]
    rfl
  room := h.room'
  room' := h.room'

theorem Undisturbed.sendLoop (heff : effectiveMaxBytesSend ≠ 0)
    (hle : bytesToSend ≤ ahead.marks.length) :
    ∃ rest left, ahead.sendLoop mss effectiveMaxBytesSend bytesToSend = some (rest, left) ∧
      Undisturbed mss rest := by
  induction hsize : ahead.marks.length using Nat.strong_induction_on
    generalizing ahead bytesToSend with
  | _ size ih =>
    rw [Ahead.sendLoop]
    split_ifs with hmore hnone
    · exact absurd hnone (h.taken_ne_zero (by have := h.room; omega) (by omega))
    · refine ih _ (hsize ▸ length_next_lt hnone) h.next ?_ rfl
      rw [h.length_next]
      omega
    · exact ⟨_, _, rfl, h⟩

/-- `sendData` always finds something to take. -/
theorem Undisturbed.sendData (heff : effectiveMaxBytesSend ≠ 0) (hbytes : bytesToSend ≠ 0)
    (hle : bytesToSend ≤ ahead.marks.length) :
    (ahead.sendData mss effectiveMaxBytesSend bytesToSend).isSome := by
  obtain ⟨rest, left, hwhole, hrest⟩ :
      ∃ rest left, ahead.sendWhole mss effectiveMaxBytesSend bytesToSend = some (rest, left) ∧
        Undisturbed mss rest := by
    rw [Ahead.sendWhole]
    split_ifs
    · rw [segment, if_neg (h.taken_ne_zero hbytes (by omega))]
      exact ⟨_, _, rfl, h.next⟩
    · exact h.sendLoop heff hle
  rw [Ahead.sendData, hwhole]
  show (rest.sendLast mss left).isSome
  rw [sendLast]
  split_ifs with hlast
  · obtain ⟨rfl, hsome⟩ := hlast
    rw [segment, if_neg (hrest.taken_ne_zero hsome hsome)]
    rfl
  · rfl

/-- `retransmitData` always finds something to take. -/
theorem Undisturbed.rexmitLoop {sendFin : Bool} (hle : bytesToSend ≤ ahead.marks.length) :
    (ahead.rexmitLoop mss sendFin bytesToSend).isSome := by
  induction hsize : ahead.marks.length using Nat.strong_induction_on
    generalizing ahead bytesToSend with
  | _ size ih =>
    have hroom := h.room
    rw [Ahead.rexmitLoop]
    dsimp only
    split_ifs with hdone hnone hfin
    · rfl
    · exact absurd hnone (h.taken_ne_zero (by omega) (by omega))
    · rfl
    · refine ih _ (hsize ▸ length_next_lt hnone) h.next ?_ rfl
      rw [h.length_next]
      omega

end Ahead

end Inet.Tcp
