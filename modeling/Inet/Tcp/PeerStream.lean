import Inet.Tcp.FinReception

/-!
# A connection that receives one stream

A run of the receive side: segments of one stream that ends with a FIN arrive, in any order and
with duplicates and overlaps, and the application reads. The session keeps, next to the
connection, the position of `rcv_nxt` and the ranges of the stream that have been inserted into
the receive queue.

The code computes the place of the FIN from the segment as it is after `truncateSegment`. If a
segment with data and FIN reaches beyond the window, the FIN moves to the end of the window.
As long as no such segment is processed, the FIN is not passed early
(`Session.fin_not_early_of_finFits`).
-/

namespace Inet.Tcp

open SerialNumber (ofPos)

variable {μ : Type}

/-- A segment arrives in a state of the connection, at position `o` of the stream; or the
application reads what is there. -/
inductive Reception (μ : Type) where
  | segment (fsm : TCPState) (tcpseg : TCPSegment μ) (o : ℕ) (env : Surroundings)
  | read

structure Session where
  conn : TCPConnection
  event : TCPEventCode := .IGNORE
  /-- The position of `rcv_nxt`. -/
  next : ℕ := 0
  /-- The ranges of the stream that have been inserted into the receive queue. -/
  accepted : List (ℕ × ℕ) := []

namespace Session

def step (sess : Session) : Reception μ → Result Session
  | .segment fsm tcpseg _ env => do
      let p ← { sess.conn with fsm }.processSegment1stThru8th tcpseg env
      .ok
        { conn := p.conn
          event := p.event
          next := sess.next + (p.conn.state.rcvNxt - sess.conn.state.rcvNxt).toNat
          accepted := p.acceptedRanges sess.next sess.conn.state.rcvNxt sess.accepted }
  | .read => do
      let conn ← sess.conn.processReadRequest
      .ok { sess with conn, event := .IGNORE }

/-- The segments are cut from one stream that begins at `s0` and ends with a FIN at position `F`,
and what the code compares lies within half of the sequence space. -/
def Allowed (s0 : Uint32) (F : ℕ) (sess : Session) : Reception μ → Prop
  | .segment _ tcpseg o env =>
    IsCut s0 F tcpseg o ∧ InSpace sess.conn sess.next o tcpseg.payloadLength env.afterAck.rcvWnd
  | .read => True

instance (s0 : Uint32) (F : ℕ) (tcpseg : TCPSegment μ) (o : ℕ) : Decidable (IsCut s0 F tcpseg o) :=
  decidable_of_iff
    (tcpseg.sequenceNo = ofPos s0 o ∧
      (tcpseg.byteArray.length = 0 ∨ tcpseg.byteArray.length = tcpseg.payloadLength) ∧
      (0 < tcpseg.payloadLength → o + tcpseg.payloadLength ≤ F) ∧
      (tcpseg.finBit = true → o + tcpseg.payloadLength = F))
    ⟨fun ⟨seq, bytes, le, fin⟩ => ⟨seq, bytes, le, fin⟩,
      fun ⟨seq, bytes, le, fin⟩ => ⟨seq, bytes, le, fin⟩⟩

instance (conn : TCPConnection) (next o n : ℕ) (wnd : Uint32) :
    Decidable (InSpace conn next o n wnd) :=
  decidable_of_iff
    ((conn.state.rcvNxt - conn.receiveQueue.getFirstSeqNo).toNat + wnd.toNat < 2 ^ 31 ∧
      next + wnd.toNat < o + 2 ^ 31 ∧
      o + n + (conn.state.rcvNxt - conn.receiveQueue.getFirstSeqNo).toNat < next + 2 ^ 31)
    ⟨fun ⟨window, low, high⟩ => ⟨window, low, high⟩, fun ⟨window, low, high⟩ => ⟨window, low, high⟩⟩

instance (s0 : Uint32) (F : ℕ) (sess : Session) :
    ∀ reception : Reception μ, Decidable (Allowed s0 F sess reception)
  | .segment .. => inferInstanceAs (Decidable (_ ∧ _))
  | .read => .isTrue trivial

/-- A segment with data and FIN whose text is processed ends within the window, or its part
within the window does not fit into the receive queue. -/
def FinInWindow (sess : Session) : Reception μ → Prop
  | .segment fsm tcpseg _ env =>
    { sess.conn with fsm }.reachesText tcpseg env = true →
      FinFits sess.conn tcpseg env.afterAck.rcvWnd
  | .read => True

instance (sess : Session) : ∀ reception : Reception μ, Decidable (FinInWindow sess reception)
  | .segment .. => inferInstanceAs (Decidable (_ = true → _ = true → _ < _ → _ ∨ _))
  | .read => .isTrue trivial

/-- When a FIN is reported, or `rcv_nxt` has passed more than the data of the receive queue, the
whole stream has been accepted and `rcv_nxt` is behind the FIN. -/
def FinNotEarly (s0 : Uint32) (F : ℕ) (sess : Session) : Prop :=
  sess.event = .RCV_FIN ∨ sess.event = .RCV_FIN_ACK ∨
      sess.conn.state.rcvNxt ≠ sess.conn.receiveQueue.rcvNxt →
    sess.conn.state.rcvNxt = ofPos s0 (F + 1) ∧ ∀ x < F, x ∈ Intervals.cover sess.accepted

instance (s0 : Uint32) (F : ℕ) (sess : Session) : Decidable (FinNotEarly s0 F sess) :=
  inferInstanceAs (Decidable (_ ∨ _ ∨ _ → _ ∧ _))

/-- A connection that has received nothing. -/
structure Fresh (s0 : Uint32) (conn : TCPConnection) : Prop where
  queue : conn.receiveQueue = .init s0
  rcvNxt : conn.state.rcvNxt = s0
  finRcvd : conn.state.finRcvd = false

section

variable {s0 : Uint32} {F : ℕ} {sess sess' : Session}

/-- The invariant of a session. -/
structure Inv (s0 : Uint32) (F : ℕ) (sess : Session) : Prop where
  receives : Receives s0 F sess.conn sess.next sess.accepted
  event : sess.event = .RCV_FIN ∨ sess.event = .RCV_FIN_ACK → sess.next = F + 1

theorem Inv.start {conn : TCPConnection} (h : Fresh s0 conn) : Inv s0 F { conn } := by
  have hzero : ofPos s0 0 = s0 := SerialNumber.ofPos_zero s0
  refine ⟨⟨⟨[], 0, 0, .inl ?_, by simp, .inl rfl⟩, h.rcvNxt.trans hzero.symm, ?_⟩, by simp⟩
  · exact h.queue ▸ Layout.init s0 (At s0)
  · intro hrcvd
    rw [h.finRcvd] at hrcvd
    cases hrcvd

theorem Inv.finNotEarly (h : Inv s0 F sess) : FinNotEarly s0 F sess := by
  have hpassed : sess.next = F + 1 → sess.conn.state.rcvNxt = ofPos s0 (F + 1) ∧
      ∀ x < F, x ∈ Intervals.cover sess.accepted := by
    intro hnext
    exact ⟨hnext ▸ h.receives.rcvNxt, h.receives.all_accepted (by omega)⟩
  rintro (hevent | hevent | hne)
  · exact hpassed (h.event (.inl hevent))
  · exact hpassed (h.event (.inr hevent))
  · apply hpassed
    obtain ⟨is, first, qnext, hq, -, rfl | ⟨hnext, -⟩⟩ := h.receives.queue
    · refine absurd (h.receives.rcvNxt.trans ?_) hne
      obtain hq | ⟨-, hblocked⟩ := hq
      · exact hq.rcvNxt.symm
      · rw [hblocked]
    · exact hnext

theorem Inv.segment {fsm : TCPState} {tcpseg : TCPSegment μ} {o : ℕ} {env : Surroundings}
    (h : Inv s0 F sess) (allowed : Allowed s0 F sess (.segment fsm tcpseg o env))
    (fits : FinInWindow sess (.segment fsm tcpseg o env))
    (hstep : sess.step (.segment fsm tcpseg o env) = .ok sess') : Inv s0 F sess' := by
  obtain ⟨hcut, hspace⟩ := allowed
  obtain ⟨p, hproc, hstep⟩ := bind_eq_ok.mp hstep
  cases hstep
  have hconn : Receives s0 F { sess.conn with fsm } sess.next sess.accepted :=
    h.receives.congr rfl rfl rfl rfl
  obtain ⟨next', hadv⟩ := processSegment1stThru8th_spec hconn hcut
    ⟨hspace.window, hspace.low, hspace.high⟩ fits hproc
  have hnext : sess.next + (p.conn.state.rcvNxt - sess.conn.state.rcvNxt).toNat = next' := by
    have hle := hadv.le
    have hnear := hadv.near
    rw [hadv.receives.rcvNxt, h.receives.rcvNxt, SerialNumber.toNat_ofPos_sub hle (by omega)]
    omega
  refine ⟨?_, fun hevent => ?_⟩
  · show Receives s0 F p.conn (sess.next + _) (p.acceptedRanges _ _ _)
    rw [hnext]
    exact hadv.receives
  · exact hnext.trans (hadv.event hevent)

theorem Inv.read (h : Inv s0 F sess) (hstep : sess.step (.read : Reception μ) = .ok sess') :
    Inv s0 F sess' := by
  obtain ⟨conn', hread, hstep⟩ := bind_eq_ok.mp hstep
  cases hstep
  refine ⟨?_, by simp⟩
  obtain hle | hpassed := h.receives.next_le
  · obtain ⟨conn'', hread', hconn⟩ := processReadRequest_spec h.receives hle
    obtain rfl := Except.ok.inj (hread.symm.trans hread')
    exact hconn
  · obtain ⟨e, herr⟩ := processReadRequest_behind_fin (hpassed ▸ h.receives)
    rw [herr] at hread
    cases hread

end

/-- The FIN is not passed before the whole stream is there, if no segment with data and FIN is
cut at the end of the window. -/
theorem fin_not_early_of_finFits (s0 : Uint32) (F : ℕ) (conn : TCPConnection)
    (fresh : Fresh s0 conn) (arrivals : List (Reception μ))
    (allowed : Run.Admissible step (Allowed s0 F) { conn } arrivals)
    (fits : Run.Admissible step FinInWindow { conn } arrivals) :
    Run.Throughout step (FinNotEarly s0 F) { conn } arrivals := by
  refine Run.Throughout.mono (fun _ h => Inv.finNotEarly h)
    (Run.throughout_of_step ?_ (Inv.start fresh) (allowed.and fits))
  intro sess reception sess' h hok hstep
  cases reception with
  | segment fsm tcpseg o env => exact h.segment hok.1 hok.2 hstep
  | read => exact h.read hstep

/-- A connection that expects the stream from `s0` on, with a window of `wnd` bytes. -/
def listening (s0 wnd : Uint32) : TCPConnection :=
  { fsm := .ESTABLISHED
    state :=
      { sndUna := 7, sndNxt := 7, sndMax := 7, rcvWnd := wnd, rcvNxt := s0, maxRcvBuffer := 100 }
    receiveQueue := .init s0 }

/-- The arrival of the segment at `[o, o + n)` while the window is open by `wnd` bytes. -/
def arrival (s0 wnd : Uint32) (o n : ℕ) (finBit : Bool) : Reception Unit :=
  let vars : SendVariables := { sndUna := 7, sndNxt := 7, sndMax := 7, rcvWnd := wnd }
  .segment .ESTABLISHED
    { sequenceNo := ofPos s0 o, payloadLength := n, ackNo := 7, ackBit := true, finBit }
    o { atCheck := vars, afterAck := vars, atEnd := vars }

/-- The FIN comes before the data in front of it, across the wrap of the sequence numbers. -/
theorem fin_not_early_across_wrap :
    Run.Throughout step (FinNotEarly (-2#32) 5) { conn := listening (-2#32) 10 }
      [arrival (-2#32) 10 3 2 true, arrival (-2#32) 10 0 2 false, .read,
        arrival (-2#32) 10 1 3 false, arrival (-2#32) 10 0 2 false] :=
  fin_not_early_of_finFits (-2#32) 5 (listening (-2#32) 10) ⟨rfl, rfl, rfl⟩ _ (by decide)
    (by decide)

/-- One segment with four bytes and the FIN, of which the window takes two bytes: the FIN is
reported, and the last two bytes of the stream have not been accepted. -/
theorem fin_early_of_truncated :
    Run.Admissible step (Allowed 0 4) { conn := listening 0 2 } [arrival 0 2 0 4 true] ∧
      ¬ Run.Throughout step (FinNotEarly 0 4) { conn := listening 0 2 }
        [arrival 0 2 0 4 true] := by
  decide

end Session

end Inet.Tcp
