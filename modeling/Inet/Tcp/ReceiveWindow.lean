import Inet.Tcp.FinReception
import Inet.Tcp.WindowScale

/-!
# The receive window

`rcv_nxt` moves with the text of segments and over the FIN of the peer; `rcv_adv` moves when
`updateRcvWnd` advertises a window, which is whenever a segment is sent. The difference of the
two is unsigned, so `rcv_nxt` must not pass `rcv_adv`.

A FIN that is exactly at `rcv_adv` is passed nevertheless: the window is checked for the text
only. `window_kept_of_inAdvertised` is the run theorem for peers that keep to what has been
advertised, the FIN counted as one byte.
-/

namespace Inet.Tcp

open SerialNumber (ofPos Near ofPos_ofPos ofPos_toNat_sub toNat_ofPos_sub)

variable {μ : Type}

/-- A connection with the variables that `updateRcvWnd` reads. -/
structure WindowConnection where
  conn : TCPConnection
  rcvAdv : Uint32
  sndMss : Uint32 := 536
  wsEnabled : Bool := false
  rcvWndScale : ℕ := 0
  /-- `rcv_nxt` has been moved over a FIN. -/
  finPassed : Bool := false

/-- What happens on the receive side. The processing of one segment is its text, the passing of
the data, of a FIN that came before, and of its own FIN; segments are sent at any point of it. -/
inductive Activity (μ : Type) where
  | text (fsm : TCPState) (tcpseg : TCPSegment μ)
  | read
  | storedFin
  | fin (tcpseg : TCPSegment μ)
  | sendSegment
deriving DecidableEq

namespace WindowConnection

def windowVariables (c : WindowConnection) : WindowVariables where
  rcvNxt := c.conn.state.rcvNxt
  rcvWnd := c.conn.state.rcvWnd
  rcvAdv := c.rcvAdv
  sndMss := c.sndMss
  maxRcvBuffer := c.conn.state.maxRcvBuffer
  wsEnabled := c.wsEnabled
  rcvWndScale := c.rcvWndScale

def updateRcvWnd (c : WindowConnection) : Result WindowConnection := do
  let (_, state) ← c.windowVariables.updateRcvWnd c.conn.receiveQueue
  .ok { c with
    rcvAdv := state.rcvAdv
    conn := { c.conn with state := { c.conn.state with rcvWnd := state.rcvWnd } } }

/-- Seventh step, up to the insertion into the receive queue. -/
def insertBytes (c : WindowConnection) (tcpseg : TCPSegment μ) : Result WindowConnection :=
  if c.conn.takesText ∧ tcpseg.payloadLength > 0 then do
    let conn := c.conn.noteProbe tcpseg
    let tcpseg ← tcpseg.truncateSegment conn.state.rcvNxt (conn.state.rcvNxt + conn.state.rcvWnd)
    if conn.hasEnoughSpaceForSegmentInReceiveQueue tcpseg then do
      let receiveQueue ← conn.receiveQueue.insertBytesFromSegment tcpseg
      let conn' := { conn with
        receiveQueue, state := { conn.state with rcvNxt := receiveQueue.rcvNxt } }
      .ok { c with conn :=
        if conn.state.rcvNxt = conn'.state.rcvNxt then
          conn'.noteOutOfOrder tcpseg conn.usedRcvBuffer
        else conn' }
    else .ok { c with conn }
  else .ok c

/-- The connection behind a step that may have passed a FIN. -/
def afterFin (c : WindowConnection) (conn : TCPConnection) : WindowConnection :=
  { c with conn, finPassed := c.finPassed || conn.state.rcvNxt != c.conn.state.rcvNxt }

def step (c : WindowConnection) : Activity μ → Result WindowConnection
  | .text fsm tcpseg => { c with conn := { c.conn with fsm } }.insertBytes tcpseg
  | .read => do
      let conn ← c.conn.processReadRequest
      .ok { c with conn }
  | .storedFin => .ok (c.afterFin (c.conn.passStoredFin .IGNORE).2)
  | .fin tcpseg => .ok (c.afterFin (c.conn.processFin tcpseg .IGNORE).2)
  | .sendSegment => c.updateRcvWnd

/-- What is left of the window that has been advertised. -/
def remainder (c : WindowConnection) : ℕ := (c.rcvAdv - c.conn.state.rcvNxt).toNat

/-- `rcv_adv` does not move back; when `updateRcvWnd` subtracts, `rcv_nxt` is not behind
`rcv_adv`, and the window that results is not larger than the free buffer or the remainder. -/
def WindowKept (c : WindowConnection) (activity : Activity μ) : Prop :=
  (activity = .sendSegment → seqLE c.conn.state.rcvNxt c.rcvAdv = true) ∧
    ∀ c', c.step activity = .ok c' → seqLE c.rcvAdv c'.rcvAdv = true ∧ (activity = .sendSegment →
          c'.conn.state.rcvWnd.toNat ≤
              max (c.conn.receiveQueue.getAmountOfFreeBytes c.conn.state.maxRcvBuffer).toNat
                c.remainder ∧
            c'.conn.state.rcvWnd.toNat ≤ c.conn.state.maxRcvBuffer.toNat)

/-- The text, or what the window leaves of it, ends at `rcv_adv` or before, no text comes
behind the FIN, and a FIN that is passed is before `rcv_adv`. -/
def InAdvertised (c : WindowConnection) : Activity μ → Prop
  | .text _ tcpseg =>
    c.finPassed = false ∧ tcpseg.payloadLength < 2 ^ 31 ∧ c.conn.state.rcvWnd ≠ 0 ∧
      (seqLE tcpseg.endSeq c.rcvAdv = true ∨
        seqLE (c.conn.state.rcvNxt + c.conn.state.rcvWnd) c.rcvAdv = true)
  | .storedFin =>
    c.conn.state.finRcvd = true → c.conn.state.rcvNxt = c.conn.state.rcvFinSeq →
      c.conn.state.rcvNxt ≠ c.rcvAdv
  | .fin tcpseg =>
    tcpseg.finBit = true → c.conn.state.rcvNxt = tcpseg.endSeq → c.conn.state.rcvNxt ≠ c.rcvAdv
  | .read => True
  | .sendSegment => True

/-- The SYN of the peer has been accepted, and a window has been advertised with it. -/
structure Opened (s0 : Uint32) (c : WindowConnection) : Prop where
  queue : c.conn.receiveQueue = .init s0
  rcvNxt : c.conn.state.rcvNxt = s0
  rcvAdv : c.rcvAdv = c.conn.state.rcvNxt + c.conn.state.rcvWnd
  rcvWnd : c.conn.state.rcvWnd.toNat ≤ c.conn.state.maxRcvBuffer.toNat
  maxRcvBuffer : c.conn.state.maxRcvBuffer.toNat < 2 ^ 30
  finPassed : c.finPassed = false

end WindowConnection

section

variable {state : WindowVariables}

theorem getAmountOfFreeBytes_le (queue : TCPVirtualDataRcvQueue Region) (maxRcvBuffer : Uint32) :
    (queue.getAmountOfFreeBytes maxRcvBuffer).toNat ≤ maxRcvBuffer.toNat := by
  simp only [TCPVirtualDataRcvQueue.getAmountOfFreeBytes]
  split_ifs with h
  · rw [BitVec.toNat_sub_of_le (BitVec.le_of_lt h)]
    exact Nat.sub_le ..
  · exact Nat.zero_le _

/-- The window is at most the free buffer or the remainder. -/
theorem WindowVariables.receiveWindow_le (state : WindowVariables) : state.receiveWindow.toNat ≤
      max state.freeRcvBuffer.toNat (state.rcvAdv - state.rcvNxt).toNat := by
  have hcap : ∀ win : Uint32,
      (if win > TCP_MAX_WIN && !state.wsEnabled then TCP_MAX_WIN else win).toNat ≤ win.toNat := by
    intro win
    split_ifs with h
    · rw [Bool.and_eq_true, decide_eq_true_eq, gt_iff_lt, BitVec.lt_def] at h
      exact h.1.le
    · exact le_rfl
  refine (hcap _).trans ?_
  split_ifs
  · exact le_max_right ..
  · exact Nat.zero_le _
  · exact le_max_right ..
  · exact le_max_left ..

/-- What `updateRcvWnd` does to the window. -/
theorem WindowConnection.updateRcvWnd_spec {c c' : WindowConnection}
    (hok : c.updateRcvWnd = .ok c') :
    ∃ win : Uint32,
      win.toNat ≤ max (c.conn.receiveQueue.getAmountOfFreeBytes c.conn.state.maxRcvBuffer).toNat
        c.remainder ∧
      c' = { c with
        rcvAdv :=
          if win > 0 && seqGE (c.conn.state.rcvNxt + win) c.rcvAdv then c.conn.state.rcvNxt + win
          else c.rcvAdv
        conn := { c.conn with state := { c.conn.state with rcvWnd := win } } } := by
  obtain ⟨⟨scaled, state⟩, hupdate, hok⟩ := bind_eq_ok.mp hok
  obtain ⟨scaled', -, hupdate⟩ := bind_eq_ok.mp hupdate
  cases hupdate
  cases hok
  exact ⟨_, WindowVariables.receiveWindow_le _, rfl⟩

variable {s0 nxt wnd : Uint32} {tcpseg text : TCPSegment μ} {o n lo hi : ℕ}

/-- The ends of a segment that has been trimmed. -/
theorem ends_of_truncateData {truncleft truncright : Uint32}
    (hok : tcpseg.truncateData truncleft truncright = .ok text) :
    text.sequenceNo = tcpseg.sequenceNo + truncleft ∧ text.endSeq = tcpseg.endSeq - truncright := by
  obtain ⟨_, hfits, hok⟩ := bind_eq_ok.mp hok
  have hfits : (truncleft + truncright).toNat ≤ tcpseg.payloadLength :=
    of_decide_eq_true (assert_eq_ok.mp hfits)
  obtain ⟨hseq, hlength⟩ : text.sequenceNo = tcpseg.sequenceNo + truncleft ∧
      text.payloadLength = tcpseg.payloadLength - (truncleft + truncright).toNat := by
    split_ifs at hok
    · obtain ⟨byteArray, -, hok⟩ := bind_eq_ok.mp hok
      cases hok
      exact ⟨rfl, rfl⟩
    · cases hok
      exact ⟨rfl, rfl⟩
  refine ⟨hseq, ?_⟩
  have hrest : BitVec.ofNat 32 (tcpseg.payloadLength - (truncleft + truncright).toNat) =
      BitVec.ofNat 32 tcpseg.payloadLength - (truncleft + truncright) := by
    apply BitVec.eq_of_toNat_eq
    rw [BitVec.toNat_sub, BitVec.toNat_ofNat, BitVec.toNat_ofNat]
    have := (truncleft + truncright).isLt
    omega
  rw [TCPSegment.endSeq, TCPSegment.endSeq, hseq, hlength, hrest]
  grind

/-- A segment with a common part with the window, the part being found by comparisons. -/
theorem truncateSegment_ends (near_begin : Near 32 o lo) (near_end : Near 32 (o + n) hi)
    (hseq : tcpseg.sequenceNo = ofPos s0 o) (hlen : tcpseg.payloadLength = n)
    (hok : tcpseg.truncateSegment (ofPos s0 lo) (ofPos s0 hi) = .ok text) :
    text.sequenceNo = ofPos s0 (max o lo) ∧ text.endSeq = ofPos s0 (min (o + n) hi) := by
  obtain ⟨_, -, hok⟩ := bind_eq_ok.mp hok
  by_cases hcommon : (seqLess tcpseg.sequenceNo (ofPos s0 hi) &&
      seqLess (ofPos s0 lo) tcpseg.endSeq) = true
  · rw [hcommon] at hok
    obtain ⟨hbegin, hend⟩ := ends_of_truncateData hok
    rw [hseq] at hbegin
    rw [TCPSegment.endSeq_eq hseq hlen] at hend
    constructor
    · rw [hbegin, seqLess_ofPos near_begin]
      split_ifs with hlt
      · rw [decide_eq_true_eq] at hlt
        rw [max_eq_right hlt.le]
        grind
      · rw [decide_eq_true_eq] at hlt
        rw [max_eq_left (by omega)]
        exact BitVec.add_zero _
    · rw [hend, seqGreater_ofPos near_end]
      split_ifs with hlt
      · rw [decide_eq_true_eq] at hlt
        rw [min_eq_right hlt.le]
        grind
      · rw [decide_eq_true_eq] at hlt
        rw [min_eq_left (by omega)]
        exact BitVec.sub_zero _
  · rw [Bool.eq_false_of_not_eq_true hcommon] at hok
    cases hok

/-- Of two positions less than a circle apart, one before the other is less than half of the
circle before it, or more than half of the circle behind it. -/
theorem of_seqLess {p q : ℕ} (h : seqLess (ofPos s0 p) (ofPos s0 q) = true)
    (hp : p < q + 2 ^ 32) (hq : q < p + 2 ^ 32) :
    p < q ∧ q < p + 2 ^ 31 ∨ q + 2 ^ 31 < p := by
  rw [seqLess, Bool.and_eq_true, bne_iff_ne, decide_eq_true_eq] at h
  obtain ⟨hne, hlt⟩ := h
  obtain hle | hgt := Nat.lt_or_ge q p |>.symm
  · rw [toNat_ofPos_sub hle (by omega)] at hlt
    have hne : p ≠ q := fun heq => hne (heq ▸ rfl)
    exact .inl ⟨by omega, by omega⟩
  · rw [SerialNumber.toNat_ofPos_sub_of_lt hgt (by omega)] at hlt
    exact .inr (by omega)

/-- What is left of a segment is not empty if the window is open, lies within the window and
ends no later than the segment. -/
theorem truncateSegment_within (hwnd : wnd ≠ 0) (hsmall : wnd.toNat < 2 ^ 31)
    (hlen : tcpseg.payloadLength < 2 ^ 31)
    (hok : tcpseg.truncateSegment nxt (nxt + wnd) = .ok text) :
    ∃ a b, a < b ∧ b ≤ wnd.toNat ∧ text.sequenceNo = ofPos nxt a ∧ text.endSeq = ofPos nxt b ∧
      ∃ e, b ≤ e ∧ e < 2 ^ 31 ∧ tcpseg.endSeq = ofPos nxt e := by
  -- positions from 2 ^ 31 bytes before `rcv_nxt` on
  let s0 : Uint32 := nxt - BitVec.ofNat 32 (2 ^ 31)
  have hnxt : nxt = ofPos s0 (2 ^ 31) := by
    show nxt = nxt - _ + _
    grind
  have hpos (x : ℕ) : ofPos s0 (2 ^ 31 + x) = ofPos nxt x := by
    rw [hnxt, ofPos_ofPos]
  have hend : nxt + wnd = ofPos s0 (2 ^ 31 + wnd.toNat) := by
    rw [hpos, ofPos, BitVec.ofNat_toNat, BitVec.setWidth_eq]
  have hwnd : 0 < wnd.toNat := Nat.pos_of_ne_zero fun h => hwnd (BitVec.eq_of_toNat_eq h)
  obtain ⟨o, ho, hseq⟩ : ∃ o < 2 ^ 32, tcpseg.sequenceNo = ofPos s0 o :=
    ⟨_, (tcpseg.sequenceNo - s0).isLt, (ofPos_toNat_sub ..).symm⟩
  have hpositive : 0 < tcpseg.payloadLength := by
    obtain ⟨_, hpos, -⟩ := bind_eq_ok.mp hok
    exact of_decide_eq_true (assert_eq_ok.mp hpos)
  by_cases hcommon : (seqLess tcpseg.sequenceNo (nxt + wnd) && seqLess nxt tcpseg.endSeq) = true
  · rw [Bool.and_eq_true, TCPSegment.endSeq_eq hseq rfl, hend, hseq] at hcommon
    obtain ⟨hlow, hhigh⟩ := hcommon
    have hlow := of_seqLess hlow (by omega) (by omega)
    have hhigh := of_seqLess (hnxt ▸ hhigh) (by omega) (by omega)
    rw [hend, hnxt] at hok
    obtain ⟨hbegin, hends⟩ := truncateSegment_ends ⟨by omega, by omega⟩ ⟨by omega, by omega⟩
      hseq rfl hok
    refine ⟨max o (2 ^ 31) - 2 ^ 31,
      min (o + tcpseg.payloadLength) (2 ^ 31 + wnd.toNat) - 2 ^ 31, by omega, by omega, ?_, ?_,
      o + tcpseg.payloadLength - 2 ^ 31, by omega, by omega, ?_⟩
    · rw [hbegin, ← hpos]
      exact congrArg (ofPos s0) (by omega)
    · rw [hends, ← hpos]
      exact congrArg (ofPos s0) (by omega)
    · rw [TCPSegment.endSeq_eq hseq rfl, ← hpos]
      exact congrArg (ofPos s0) (by omega)
  · obtain ⟨_, -, hok⟩ := bind_eq_ok.mp hok
    rw [Bool.eq_false_of_not_eq_true hcommon] at hok
    cases hok

end

namespace WindowConnection

variable {s0 : Uint32} {c c' : WindowConnection} {tcpseg : TCPSegment μ}

/-- Before a FIN is passed the receive queue has moved with `rcv_nxt`. All that it holds ends
within what has been advertised, and has once fitted into the buffer. -/
def Stored (s0 : Uint32) (c : WindowConnection) : Prop :=
  ∃ is first next, Layout s0 (At s0) c.conn.receiveQueue is first next ∧
    c.conn.state.rcvNxt = ofPos s0 next ∧
    next ≤ first + c.conn.state.maxRcvBuffer.toNat ∧
    ∀ i ∈ is, i.2 ≤ next + c.remainder ∧ i.2 ≤ first + c.conn.state.maxRcvBuffer.toNat

/-- The invariant of the receive window. -/
structure Inv (s0 : Uint32) (c : WindowConnection) : Prop where
  buffer : c.conn.state.maxRcvBuffer.toNat < 2 ^ 30
  remainder : c.remainder ≤ c.conn.state.maxRcvBuffer.toNat
  rcvWnd : c.conn.state.rcvWnd.toNat ≤ c.conn.state.maxRcvBuffer.toNat
  stored : c.finPassed = false → Stored s0 c

theorem Inv.start (h : Opened s0 c) : Inv s0 c := by
  have hremainder : c.remainder = c.conn.state.rcvWnd.toNat := by
    rw [WindowConnection.remainder, h.rcvAdv]
    congr 1
    grind
  refine ⟨h.maxRcvBuffer, hremainder ▸ h.rcvWnd, h.rcvWnd, fun _ => ⟨[], 0, 0, ?_, ?_, ?_, ?_⟩⟩
  · exact h.queue ▸ Layout.init s0 (At s0)
  · rw [h.rcvNxt, SerialNumber.ofPos_zero]
  · exact Nat.zero_le _
  · simp

theorem Inv.not_passed (h : Inv s0 c) : seqLE c.conn.state.rcvNxt c.rcvAdv = true := by
  have := h.buffer
  have hremainder := h.remainder
  rw [WindowConnection.remainder] at hremainder
  exact decide_eq_true (by omega)

/-- The invariant reads the queue, `rcv_nxt`, `rcv_adv`, the window and the buffer size. -/
theorem Inv.congr (h : Inv s0 c) (hqueue : c'.conn.receiveQueue = c.conn.receiveQueue)
    (hnext : c'.conn.state.rcvNxt = c.conn.state.rcvNxt)
    (hwnd : c'.conn.state.rcvWnd = c.conn.state.rcvWnd)
    (hmax : c'.conn.state.maxRcvBuffer = c.conn.state.maxRcvBuffer)
    (hadv : c'.rcvAdv = c.rcvAdv) (hfin : c'.finPassed = c.finPassed) : Inv s0 c' := by
  obtain ⟨buffer, hremainder, rcvWnd, stored⟩ := h
  have heq : c'.remainder = c.remainder := by
    rw [WindowConnection.remainder, WindowConnection.remainder, hadv, hnext]
  refine ⟨hmax ▸ buffer, by rwa [heq, hmax], by rwa [hwnd, hmax], fun hopen => ?_⟩
  have := stored (hfin ▸ hopen)
  rwa [Stored, hqueue, hnext, hmax, heq]

/-- An update of the window keeps the invariant, and `rcv_adv` does not move back. -/
theorem Inv.updateRcvWnd (h : Inv s0 c) (hok : c.updateRcvWnd = .ok c') :
    Inv s0 c' ∧ seqLE c.rcvAdv c'.rcvAdv = true ∧ c'.conn.state.rcvWnd.toNat ≤
        max (c.conn.receiveQueue.getAmountOfFreeBytes c.conn.state.maxRcvBuffer).toNat
          c.remainder ∧
      c'.conn.state.rcvWnd.toNat ≤ c.conn.state.maxRcvBuffer.toNat := by
  obtain ⟨win, hwin, rfl⟩ := updateRcvWnd_spec hok
  have hfree := getAmountOfFreeBytes_le c.conn.receiveQueue c.conn.state.maxRcvBuffer
  have hmax : win.toNat ≤ c.conn.state.maxRcvBuffer.toNat :=
    hwin.trans (max_le hfree h.remainder)
  by_cases hadv : (win > 0 && seqGE (c.conn.state.rcvNxt + win) c.rcvAdv) = true
  · have hge := hadv
    rw [Bool.and_eq_true] at hge
    have hsum : c.conn.state.rcvNxt + win - c.conn.state.rcvNxt = win := by grind
    -- the new end is not before the old one
    have hle : c.remainder ≤ win.toNat := by
      have hlt := of_decide_eq_true hge.2
      have hdiff : c.conn.state.rcvNxt + win - c.rcvAdv =
          win - (c.rcvAdv - c.conn.state.rcvNxt) := by grind
      have := h.buffer
      have hremainder := h.remainder
      rw [WindowConnection.remainder] at hremainder ⊢
      rw [hdiff, BitVec.toNat_sub] at hlt
      omega
    refine ⟨⟨h.buffer, ?_, hmax, fun hopen => ?_⟩, ?_, hwin, hmax⟩
    · simp only [WindowConnection.remainder, hadv, if_true, hsum]
      exact hmax
    · obtain ⟨is, first, next, hq, hnext, hfirst, hends⟩ := h.stored hopen
      refine ⟨is, first, next, hq, hnext, hfirst, fun i hi => ⟨?_, (hends i hi).2⟩⟩
      simp only [WindowConnection.remainder, hadv, if_true, hsum]
      exact (hends i hi).1.trans (Nat.add_le_add_left hle next)
    · simp only [hadv, if_true]
      exact hge.2
  · refine ⟨⟨h.buffer, ?_, hmax, fun hopen => ?_⟩, ?_, hwin, hmax⟩
    · simpa only [WindowConnection.remainder, hadv, if_false, Bool.false_eq_true] using h.remainder
    · obtain ⟨is, first, next, hq, hnext, hfirst, hends⟩ := h.stored hopen
      refine ⟨is, first, next, hq, hnext, hfirst, fun i hi => ⟨?_, (hends i hi).2⟩⟩
      simpa only [WindowConnection.remainder, hadv, if_false, Bool.false_eq_true]
        using (hends i hi).1
    · simp only [hadv, if_false, Bool.false_eq_true]
      simp [seqLE]

/-- A FIN that is passed before `rcv_adv` keeps the invariant. -/
theorem Inv.afterFin {conn : TCPConnection} (h : Inv s0 c) (hne : c.conn.state.rcvNxt ≠ c.rcvAdv)
    (hnext : conn.state.rcvNxt = c.conn.state.rcvNxt + 1)
    (hwnd : conn.state.rcvWnd = c.conn.state.rcvWnd)
    (hmax : conn.state.maxRcvBuffer = c.conn.state.maxRcvBuffer) : Inv s0 (c.afterFin conn) := by
  have hremainder : (c.afterFin conn).remainder ≤ c.remainder := by
    have hpos : (c.rcvAdv - c.conn.state.rcvNxt).toNat ≠ 0 := by
      intro hzero
      apply hne
      have : c.rcvAdv - c.conn.state.rcvNxt = 0 := BitVec.eq_of_toNat_eq hzero
      grind
    have hone : c.rcvAdv - (c.conn.state.rcvNxt + 1) = c.rcvAdv - c.conn.state.rcvNxt - 1 := by
      grind
    show (c.rcvAdv - conn.state.rcvNxt).toNat ≤ (c.rcvAdv - c.conn.state.rcvNxt).toNat
    rw [hnext, hone, BitVec.toNat_sub_of_le]
    · exact Nat.sub_le ..
    · rw [BitVec.le_def]
      show 1 ≤ _
      omega
  refine ⟨?_, ?_, ?_, fun hopen => ?_⟩
  · exact hmax ▸ h.buffer
  · exact (hremainder.trans h.remainder).trans_eq (congrArg BitVec.toNat hmax.symm)
  · show conn.state.rcvWnd.toNat ≤ conn.state.maxRcvBuffer.toNat
    rw [hwnd, hmax]
    exact h.rcvWnd
  · have hmoved : (conn.state.rcvNxt != c.conn.state.rcvNxt) = true := by
      rw [hnext, bne_iff_ne]
      intro heq
      have : (1 : Uint32) = 0 := by grind
      cases this
    have hclosed : (c.finPassed || conn.state.rcvNxt != c.conn.state.rcvNxt) = false := hopen
    rw [hmoved, Bool.or_true] at hclosed
    cases hclosed

theorem noteOutOfOrder_eq (conn : TCPConnection) (tcpseg : TCPSegment μ) (used : Uint32) :
    (conn.noteOutOfOrder tcpseg used).receiveQueue = conn.receiveQueue ∧
      (conn.noteOutOfOrder tcpseg used).state.rcvNxt = conn.state.rcvNxt ∧
      (conn.noteOutOfOrder tcpseg used).state.rcvWnd = conn.state.rcvWnd ∧
      (conn.noteOutOfOrder tcpseg used).state.maxRcvBuffer = conn.state.maxRcvBuffer := by
  unfold TCPConnection.noteOutOfOrder
  split_ifs <;> exact ⟨rfl, rfl, rfl, rfl⟩

/-- A text behind `rcv_nxt` that ends within what has been advertised, and fits into the buffer,
is stored. -/
theorem Stored.insertRegion {a b : ℕ} {queue : TCPVirtualDataRcvQueue Region} {conn : TCPConnection}
    (h : Stored s0 c) (hbuffer : c.conn.state.maxRcvBuffer.toNat < 2 ^ 30)
    (hremainder : c.remainder ≤ c.conn.state.maxRcvBuffer.toNat) (hab : a < b)
    (hb : b ≤ c.remainder)
    (hfits : seqLE (ofPos c.conn.state.rcvNxt b)
      (c.conn.receiveQueue.getFirstSeqNo + c.conn.state.maxRcvBuffer) = true)
    (hok : c.conn.receiveQueue.insertRegion
      ⟨ofPos c.conn.state.rcvNxt a, ofPos c.conn.state.rcvNxt b⟩ = .ok queue)
    (hqueue : conn.receiveQueue = queue) (hnext : conn.state.rcvNxt = queue.rcvNxt)
    (hmax : conn.state.maxRcvBuffer = c.conn.state.maxRcvBuffer) :
    Stored s0 { c with conn } ∧ { c with conn }.remainder ≤ c.remainder := by
  obtain ⟨is, first, next, hq, hrcv, hfirst, hends⟩ := h
  have hwindow := hq.next_window
  have hadv : c.rcvAdv = ofPos s0 (next + c.remainder) := by
    rw [← ofPos_ofPos, ← hrcv, WindowConnection.remainder, ofPos_toNat_sub]
  rw [hrcv, ofPos_ofPos] at hfits
  rw [hrcv, ofPos_ofPos, ofPos_ofPos] at hok
  have hend : next + b ≤ first + c.conn.state.maxRcvBuffer.toNat := by
    have hsum : ofPos s0 first + c.conn.state.maxRcvBuffer =
        ofPos s0 (first + c.conn.state.maxRcvBuffer.toNat) := by
      rw [SerialNumber.ofPos_add, BitVec.ofNat_toNat, BitVec.setWidth_eq]
    rw [hq.getFirstSeqNo, hsum, seqLE_ofPos (@near_of_window _ _ first (by omega) (by omega))]
      at hfits
    exact of_decide_eq_true hfits
  obtain ⟨queue', next', -, hins, hq', hle, -⟩ :=
    TCPVirtualDataRcvQueue.insertRegion_of_at hq
      (⟨rfl, rfl⟩ : At s0 (⟨ofPos s0 (next + a), ofPos s0 (next + b)⟩ : Region)
        (next + a, next + b))
      ⟨by simp only; omega, by simp only; omega, by simp only; omega⟩ (by simp only; omega)
  obtain rfl := Except.ok.inj (hok.symm.trans hins)
  have hends' : ∀ i ∈ Intervals.insert is (next + a, next + b),
      i.2 ≤ next + c.remainder ∧ i.2 ≤ first + c.conn.state.maxRcvBuffer.toNat := by
    have hbound := @Intervals.endpoints_insert _ _ is (next + a, next + b)
      (fun x => x ≤ next + c.remainder ∧ x ≤ first + c.conn.state.maxRcvBuffer.toNat)
      (fun i hi => ⟨by have := hends i hi; have := hq.proper i hi; omega, hends i hi⟩)
      ⟨by simp only; omega, by simp only; omega⟩
    exact fun i hi => (hbound i hi).2
  have hnextA : next' ≤ next + c.remainder :=
    hq'.next_le (by omega) fun i hi => (hends' i hi).1
  have hnextB : next' ≤ first + c.conn.state.maxRcvBuffer.toNat :=
    hq'.next_le (by omega) fun i hi => (hends' i hi).2
  have hrcv' : conn.state.rcvNxt = ofPos s0 next' := hnext.trans hq'.rcvNxt
  have hrest : { c with conn }.remainder = next + c.remainder - next' := by
    show (c.rcvAdv - conn.state.rcvNxt).toNat = _
    rw [hadv, hrcv', toNat_ofPos_sub hnextA (by omega)]
  refine ⟨⟨_, first, next', hqueue ▸ hq', hrcv', ?_, fun i hi => ?_⟩, by omega⟩
  · show next' ≤ first + conn.state.maxRcvBuffer.toNat
    rw [hmax]
    exact hnextB
  · show i.2 ≤ next' + { c with conn }.remainder ∧ i.2 ≤ first + conn.state.maxRcvBuffer.toNat
    have := hends' i hi
    rw [hmax, hrest]
    omega

/-- The text of a segment keeps the invariant. -/
theorem Inv.insertBytes (h : Inv s0 c) (hopen : c.finPassed = false)
    (hlen : tcpseg.payloadLength < 2 ^ 31) (hwnd : c.conn.state.rcvWnd ≠ 0)
    (hwithin : seqLE tcpseg.endSeq c.rcvAdv = true ∨
      seqLE (c.conn.state.rcvNxt + c.conn.state.rcvWnd) c.rcvAdv = true)
    (hok : c.insertBytes tcpseg = .ok c') : Inv s0 c' ∧ c'.rcvAdv = c.rcvAdv := by
  unfold WindowConnection.insertBytes at hok
  obtain ⟨hqueue, hrcv, hwnd', hmax, -, -⟩ := noteProbe_eq c.conn tcpseg
  by_cases htext : c.conn.takesText = true ∧ tcpseg.payloadLength > 0
  · rw [if_pos htext] at hok
    obtain ⟨text, htrunc, hok⟩ := bind_eq_ok.mp hok
    rw [hrcv, hwnd'] at htrunc
    by_cases hspace : (c.conn.noteProbe tcpseg).hasEnoughSpaceForSegmentInReceiveQueue text = true
    · rw [if_pos hspace] at hok
      obtain ⟨queue, hins, hok⟩ := bind_eq_ok.mp hok
      cases hok
      obtain ⟨a, b, hab, hb, hbegin, hend, e, hbe, he, hseg⟩ := truncateSegment_within hwnd
        (by have := h.rcvWnd; have := h.buffer; omega) hlen htrunc
      have hremainder : b ≤ c.remainder := by
        have hbuffer := h.buffer
        have hless := h.remainder
        have hrcvWnd := h.rcvWnd
        have hadv : c.rcvAdv = ofPos c.conn.state.rcvNxt c.remainder :=
          (ofPos_toNat_sub ..).symm
        have hopened : c.conn.state.rcvNxt + c.conn.state.rcvWnd =
            ofPos c.conn.state.rcvNxt c.conn.state.rcvWnd.toNat := by
          rw [ofPos, BitVec.ofNat_toNat, BitVec.setWidth_eq]
        rw [hseg, hopened, hadv, seqLE_ofPos (near_of_lt (by omega) (by omega)),
          seqLE_ofPos (near_of_lt (by omega) (by omega)), decide_eq_true_eq, decide_eq_true_eq]
          at hwithin
        omega
      let conn' : TCPConnection := { c.conn.noteProbe tcpseg with
        receiveQueue := queue
        state := { (c.conn.noteProbe tcpseg).state with rcvNxt := queue.rcvNxt } }
      rw [TCPConnection.hasEnoughSpaceForSegmentInReceiveQueue, Bool.and_eq_true, hqueue, hmax,
        hend] at hspace
      rw [hqueue, insertBytesFromSegment_eq hbegin hend] at hins
      obtain ⟨hstored, hless⟩ := @Stored.insertRegion s0 c a b queue conn' (h.stored hopen)
        h.buffer h.remainder hab hremainder hspace.2 hins rfl rfl hmax
      have hinv : Inv s0 { c with conn := conn' } := by
        refine ⟨?_, ?_, ?_, fun _ => hstored⟩
        · exact hmax ▸ h.buffer
        · exact (hless.trans h.remainder).trans_eq (congrArg BitVec.toNat hmax.symm)
        · show (c.conn.noteProbe tcpseg).state.rcvWnd.toNat ≤
            (c.conn.noteProbe tcpseg).state.maxRcvBuffer.toNat
          rw [hwnd', hmax]
          exact h.rcvWnd
      refine ⟨?_, rfl⟩
      split_ifs
      · obtain ⟨hqueue', hrcv', hwnd'', hmax'⟩ :=
          noteOutOfOrder_eq conn' text (c.conn.noteProbe tcpseg).usedRcvBuffer
        exact hinv.congr hqueue' hrcv' hwnd'' hmax' rfl rfl
      · exact hinv
    · rw [if_neg hspace] at hok
      cases hok
      exact ⟨h.congr hqueue hrcv hwnd' hmax rfl rfl, rfl⟩
  · rw [if_neg htext] at hok
    cases hok
    exact ⟨h, rfl⟩

/-- Data that goes to the application keeps the invariant. -/
theorem Inv.processReadRequest {conn : TCPConnection} (h : Inv s0 c)
    (hok : c.conn.processReadRequest = .ok conn) : Inv s0 { c with conn } := by
  obtain ⟨queue, hext, hok⟩ := bind_eq_ok.mp hok
  cases hok
  refine ⟨h.buffer, h.remainder, h.rcvWnd, fun hopen => ?_⟩
  obtain ⟨is, first, next, hq, hnext, hfirst, hends⟩ := h.stored hopen
  obtain ⟨queue', is', hext', hq', hcover⟩ := TCPVirtualDataRcvQueue.extractAll_spec hq
  rw [hnext] at hext
  obtain rfl := Except.ok.inj (hext.symm.trans hext')
  refine ⟨is', next, next, hq', hnext, Nat.le_add_right .., fun i hi => ?_⟩
  obtain ⟨j, hj, hle⟩ := hq'.exists_le_end hcover hi
  have hbound := hends j hj
  have := hq.next_window.1
  show i.2 ≤ next + c.remainder ∧ i.2 ≤ next + c.conn.state.maxRcvBuffer.toNat
  omega

theorem Inv.storedFin (h : Inv s0 c) (hok : InAdvertised c (.storedFin : Activity μ)) :
    Inv s0 (c.afterFin (c.conn.passStoredFin .IGNORE).2) := by
  by_cases hpass : (c.conn.state.finRcvd && c.conn.state.rcvNxt == c.conn.state.rcvFinSeq) = true
  · rw [TCPConnection.passStoredFin, if_pos hpass]
    rw [Bool.and_eq_true, beq_iff_eq] at hpass
    exact h.afterFin (hok hpass.1 hpass.2) (congrArg (· + 1) hpass.2.symm) rfl rfl
  · rw [TCPConnection.passStoredFin, if_neg hpass]
    exact h.congr rfl rfl rfl rfl rfl (by simp [WindowConnection.afterFin])

theorem Inv.fin (h : Inv s0 c) (hok : InAdvertised c (.fin tcpseg)) :
    Inv s0 (c.afterFin (c.conn.processFin tcpseg .IGNORE).2) := by
  unfold TCPConnection.processFin
  by_cases hfin : tcpseg.finBit = true
  · rw [if_pos hfin]
    by_cases hpass : c.conn.state.rcvNxt = tcpseg.endSeq
    · simp only [if_pos hpass]
      exact h.afterFin (hok hfin hpass) rfl rfl rfl
    · simp only [if_neg hpass]
      exact h.congr rfl rfl rfl rfl rfl (by simp [WindowConnection.afterFin])
  · rw [if_neg hfin]
    exact h.congr rfl rfl rfl rfl rfl (by simp [WindowConnection.afterFin])

theorem Inv.step {activity : Activity μ} (h : Inv s0 c) (hok : InAdvertised c activity)
    (hstep : c.step activity = .ok c') : Inv s0 c' := by
  cases activity with
  | text fsm tcpseg =>
    obtain ⟨hopen, hlen, hwnd, hwithin⟩ := hok
    have hconn : Inv s0 { c with conn := { c.conn with fsm } } :=
      h.congr rfl rfl rfl rfl rfl rfl
    exact (hconn.insertBytes hopen hlen hwnd hwithin hstep).1
  | read =>
    obtain ⟨conn, hread, hstep⟩ := bind_eq_ok.mp hstep
    cases hstep
    exact h.processReadRequest hread
  | storedFin =>
    cases hstep
    exact h.storedFin hok
  | fin tcpseg =>
    cases hstep
    exact h.fin hok
  | sendSegment => exact (h.updateRcvWnd hstep).1

/-- Only `updateRcvWnd` moves `rcv_adv`. -/
theorem rcvAdv_of_step {activity : Activity μ} (hne : activity ≠ .sendSegment)
    (hstep : c.step activity = .ok c') : c'.rcvAdv = c.rcvAdv := by
  cases activity with
  | text fsm tcpseg =>
    simp only [WindowConnection.step, WindowConnection.insertBytes] at hstep
    split_ifs at hstep
    · obtain ⟨text, -, hstep⟩ := bind_eq_ok.mp hstep
      split_ifs at hstep
      · obtain ⟨queue, -, hstep⟩ := bind_eq_ok.mp hstep
        cases hstep
        rfl
      · cases hstep
        rfl
    · cases hstep
      rfl
  | read =>
    obtain ⟨conn, -, hstep⟩ := bind_eq_ok.mp hstep
    cases hstep
    rfl
  | storedFin =>
    cases hstep
    rfl
  | fin tcpseg =>
    cases hstep
    rfl
  | sendSegment => exact absurd rfl hne

theorem Inv.windowKept (h : Inv s0 c) (activity : Activity μ) : WindowKept c activity := by
  refine ⟨fun _ => h.not_passed, fun c' hstep => ?_⟩
  by_cases hsend : activity = .sendSegment
  · subst hsend
    obtain ⟨-, hadv, hwnd, hmax⟩ := h.updateRcvWnd hstep
    exact ⟨hadv, fun _ => ⟨hwnd, hmax⟩⟩
  · refine ⟨?_, fun hsend' => absurd hsend' hsend⟩
    rw [rcvAdv_of_step hsend hstep]
    simp [seqLE]

/-- The bookkeeping of the window is right along every run in which the peer keeps to what has
been advertised, the FIN counted as one byte. -/
theorem window_kept_of_inAdvertised (s0 : Uint32) (c : WindowConnection) (opened : Opened s0 c)
    (activities : List (Activity μ))
    (within : Run.Admissible step InAdvertised c activities) :
    Run.Admissible step WindowKept c activities :=
  within.mono_of_step (fun _ _ _ h hok hstep => Inv.step h hok hstep)
    (fun _ activity h _ => h.windowKept activity) (Inv.start opened)

instance (c : WindowConnection) : ∀ activity : Activity μ, Decidable (InAdvertised c activity)
  | .text .. => inferInstanceAs (Decidable (_ ∧ _ ∧ _ ∧ _))
  | .storedFin => inferInstanceAs (Decidable (_ → _ → _))
  | .fin _ => inferInstanceAs (Decidable (_ → _ → _))
  | .read => .isTrue trivial
  | .sendSegment => .isTrue trivial

/-- A connection that expects the byte with number 0, with a buffer and a window of 100 bytes. -/
def opened100 : WindowConnection where
  conn :=
    { fsm := .ESTABLISHED
      state := { sndUna := 7, sndNxt := 7, sndMax := 7, rcvWnd := 100, rcvNxt := 0,
                 maxRcvBuffer := 100 }
      receiveQueue := .init 0 }
  rcvAdv := 100

theorem opened_opened100 : Opened 0 opened100 := ⟨rfl, rfl, rfl, le_rfl, by decide, rfl⟩

/-- The processing of a segment with `n` bytes from `o` on, and the ACK for it. -/
def processing (o : Uint32) (n : ℕ) (finBit : Bool) : List (Activity Unit) :=
  let tcpseg : TCPSegment Unit :=
    { sequenceNo := o, payloadLength := n, ackNo := 7, ackBit := true, finBit }
  [.text .ESTABLISHED tcpseg, .read, .storedFin, .fin tcpseg, .sendSegment]

/-- The second half of the data comes first, with the FIN behind 99 bytes. -/
theorem window_kept_of_99_bytes :
    Run.Admissible step WindowKept opened100 (processing 50 49 true ++ processing 0 50 false) :=
  window_kept_of_inAdvertised 0 opened100 opened_opened100 _ (by decide +kernel)

/-- Data that fills the window, with the FIN: `rcv_nxt` passes `rcv_adv`, and a window of 65535
bytes is advertised for the buffer of 100. -/
theorem window_not_kept_of_full_window : Opened 0 opened100 ∧
      ¬ Run.Admissible step WindowKept opened100 (processing 0 100 true) ∧
      ∃ c, Run.exec step opened100 (processing 0 100 true) = .ok c ∧
        c.conn.state.rcvWnd = 65535 := by
  refine ⟨opened_opened100, fun h => ?_, ⟨_, rfl, rfl⟩⟩
  have hsend := ((((h.2 _ rfl).2 _ rfl).2 _ rfl).2 _ rfl).1
  exact Bool.false_ne_true (hsend.1 rfl)

end WindowConnection

end Inet.Tcp
