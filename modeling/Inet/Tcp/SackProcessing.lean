import Inet.Tcp.ReceiveWindow
import Inet.Tcp.SackBlocks

/-!
# Segments that are answered with a SACK

`Outcome` lists what the processing of a segment can do to the receive queue and the flags: nothing
that matters, a duplicate, a text that is stored behind `rcv_nxt`, or a text or a FIN that moves
`rcv_nxt`. In the last case the queue is empty behind it, or the segment has no text. One lemma for
each function from `rejectSegment` to `processSegment1stThru8th`.
-/

namespace Inet.Tcp

open SerialNumber (ofPos Near)
open Intervals (cover)
open TCPConnection (forwardData noteOutOfOrder processAck processText rejectSegment)

variable {μ : Type}

namespace SackConnection

variable {s0 : Uint32} {conn conn' : TCPConnection} {is : List (ℕ × ℕ)} {first next : ℕ}
  {tcpseg text : TCPSegment μ} {accepted : Bool} {p : Processed μ} {atEnd : SendVariables}
  {env : Surroundings} {event event' : TCPEventCode} {old : Uint32} {a b : ℕ}

/-- What the blocks depend on: the queue, `rcv_nxt`, and the size of the buffer. -/
structure Kept (s0 : Uint32) (conn : TCPConnection) (is : List (ℕ × ℕ)) (first next : ℕ) :
    Prop where
  layout : Layout s0 (At s0) conn.receiveQueue is first next
  rcvNxt : conn.state.rcvNxt = ofPos s0 next
  small : conn.state.maxRcvBuffer.toNat < 2 ^ 30
  next_le : next ≤ first + conn.state.maxRcvBuffer.toNat
  fits : ∀ i ∈ is, i.2 ≤ first + conn.state.maxRcvBuffer.toNat
  enabled : conn.state.sackEnabled = true

def Idle (conn : TCPConnection) : Prop :=
  conn.state.sndSack = false ∧ conn.state.sndDsack = false

/-- Two connections differ in what neither the blocks nor the flags depend on. -/
structure Same (conn conn' : TCPConnection) : Prop where
  queue : conn'.receiveQueue = conn.receiveQueue
  rcvNxt : conn'.state.rcvNxt = conn.state.rcvNxt
  maxRcvBuffer : conn'.state.maxRcvBuffer = conn.state.maxRcvBuffer
  enabled : conn'.state.sackEnabled = conn.state.sackEnabled

theorem Kept.same (h : Kept s0 conn is first next) (hsame : Same conn conn') :
    Kept s0 conn' is first next := by
  obtain ⟨hqueue, hnext, hmax, henabled⟩ := hsame
  obtain ⟨layout, rcvNxt, small, next_le, fits, enabled⟩ := h
  exact ⟨hqueue ▸ layout, hnext.trans rcvNxt, hmax ▸ small, hmax ▸ next_le, hmax ▸ fits,
    henabled.trans enabled⟩

/-- What the processing of a segment can do. -/
inductive Outcome (s0 : Uint32) (is : List (ℕ × ℕ)) (first next : ℕ) (conn' : TCPConnection) :
    Prop where
  /-- Nothing that matters here. -/
  | quiet (kept : Kept s0 conn' is first next) (idle : Idle conn')
  /-- A FIN has been passed. If it has no text, data may be left in the queue. -/
  | passed (apart : conn'.receiveQueue.rcvNxt ≠ conn'.state.rcvNxt)
      (enabled : conn'.state.sackEnabled = true)
      (fin : Idle conn' ∨ conn'.state.rcvNxt ≠ ofPos s0 next ∧
        conn'.receiveQueue.regionList ≠ [] ∧ conn'.state.startSeqno = conn'.state.endSeqno)
  /-- A duplicate, which adds nothing to what is stored. -/
  | duplicate (is' : List (ℕ × ℕ)) (kept : Kept s0 conn' is' first next)
      (stays : ∀ i ∈ is, i ∈ is') (dsack : conn'.state.sndDsack = true)
      (ne : conn'.state.startSeqno ≠ conn'.state.endSeqno)
      (whole : dsackBlock conn'.state = ⟨conn'.state.startSeqno, conn'.state.endSeqno⟩)
  /-- A segment behind `rcv_nxt`, which is stored within the region `k`. -/
  | stored (is' : List (ℕ × ℕ)) (j k : ℕ × ℕ) (kept : Kept s0 conn' is' first next)
      (stays : ∀ i ∈ is, i ∈ is' ∨ k.1 ≤ i.1 ∧ i.1 < i.2 ∧ i.2 ≤ k.2) (mem : k ∈ is')
      (above : next < k.1) (low : k.1 ≤ j.1) (lt : j.1 < j.2) (high : j.2 ≤ k.2)
      (start : conn'.state.startSeqno = ofPos s0 j.1)
      (stop : conn'.state.endSeqno = ofPos s0 j.2)
      (sack : conn'.state.sndSack = true) (noDsack : conn'.state.sndDsack = false)
  /-- Everything that was stored is in order now, and has been extracted. -/
  | advanced (next' : ℕ) (kept : Kept s0 conn' [] next' next') (idle : Idle conn')
      (le : next ≤ next') (lt : next' < first + 2 ^ 31) (below : ∀ i ∈ is, i.2 ≤ next')

theorem start_ne_endSeq (hpos : 0 < tcpseg.payloadLength) (hlt : tcpseg.payloadLength < 2 ^ 31) :
    tcpseg.sequenceNo ≠ tcpseg.endSeq := by
  intro h
  have hzero : BitVec.ofNat 32 tcpseg.payloadLength = 0 := by
    rw [TCPSegment.endSeq] at h
    grind
  have := congrArg BitVec.toNat hzero
  rw [BitVec.toNat_ofNat, Nat.mod_eq_of_lt (by omega)] at this
  exact absurd this (by simpa using hpos.ne')

theorem not_seqLess_of_seqLess {a b : Uint32} (h : seqLess a b = true) : seqLess b a = false := by
  rw [seqLess, Bool.and_eq_true, bne_iff_ne, decide_eq_true_eq] at h
  rw [seqLess, Bool.and_eq_false_iff, decide_eq_false_iff_not]
  refine .inr fun hlt => ?_
  have hneg : a - b = -(b - a) := by grind
  have hne : (b - a).toNat ≠ 0 := by
    intro hzero
    have heq : b - a = 0 := BitVec.eq_of_toNat_eq hzero
    exact h.1 (by grind)
  rw [hneg, BitVec.toNat_neg] at hlt
  omega

/-- The D-SACK is the whole segment, unless that lies across `rcv_nxt`. -/
theorem dsackBlock_of_not_across {state : TCPStateVariables}
    (h : seqLess state.startSeqno state.rcvNxt = true →
      seqLess state.endSeqno state.rcvNxt = true) :
    dsackBlock state = ⟨state.startSeqno, state.endSeqno⟩ := by
  refine if_neg fun hacross => ?_
  rw [Bool.and_eq_true] at hacross
  rw [not_seqLess_of_seqLess (h hacross.1)] at hacross
  exact Bool.false_ne_true hacross.2

theorem outcome_rejectSegment (h : Kept s0 conn is first next) (hidle : Idle conn)
    (hlt : tcpseg.payloadLength < 2 ^ 31) :
    Outcome s0 is first next (conn.rejectSegment tcpseg) := by
  unfold rejectSegment
  split_ifs with hreject
  · simp only [Bool.and_eq_true, decide_eq_true_eq] at hreject
    exact .duplicate is (h.same ⟨rfl, rfl, rfl, rfl⟩) (fun _ hi => hi) rfl
      (start_ne_endSeq hreject.1.1.2 hlt) (dsackBlock_of_not_across fun _ => hreject.2)
  · exact .quiet h hidle

/-- The same flags, for the same segment. -/
structure SameFlags (conn conn' : TCPConnection) : Prop where
  sack : conn'.state.sndSack = conn.state.sndSack
  dsack : conn'.state.sndDsack = conn.state.sndDsack
  start : conn'.state.startSeqno = conn.state.startSeqno
  stop : conn'.state.endSeqno = conn.state.endSeqno

theorem processFin_eq (conn : TCPConnection) (tcpseg : TCPSegment μ) (event : TCPEventCode) :
    let conn' := (conn.processFin tcpseg event).2
    conn'.fsm = conn.fsm ∧ conn'.receiveQueue = conn.receiveQueue ∧
      conn'.state.maxRcvBuffer = conn.state.maxRcvBuffer ∧
      conn'.state.sackEnabled = conn.state.sackEnabled ∧ SameFlags conn conn' ∧
      (conn'.state.rcvNxt = conn.state.rcvNxt ∨
        conn.state.rcvNxt = tcpseg.endSeq ∧ conn'.state.rcvNxt = conn.state.rcvNxt + 1) := by
  dsimp only
  unfold TCPConnection.processFin
  by_cases hbit : tcpseg.finBit = true
  · rw [if_pos hbit]
    dsimp only
    by_cases hpass : conn.state.rcvNxt = tcpseg.endSeq
    · rw [if_pos hpass]
      exact ⟨rfl, rfl, rfl, rfl, ⟨rfl, rfl, rfl, rfl⟩, .inr ⟨hpass, rfl⟩⟩
    · rw [if_neg hpass]
      exact ⟨rfl, rfl, rfl, rfl, ⟨rfl, rfl, rfl, rfl⟩, .inl rfl⟩
  · rw [if_neg hbit]
    exact ⟨rfl, rfl, rfl, rfl, ⟨rfl, rfl, rfl, rfl⟩, .inl rfl⟩

/-- The FIN, and what is noted at the end of the processing. -/
theorem processFinAndFinish_eq (conn : TCPConnection) (tcpseg : TCPSegment μ) (old : Uint32)
    (atEnd : SendVariables) (event : TCPEventCode) (accepted : Bool) :
    let conn' := (conn.processFinAndFinish tcpseg old atEnd event accepted).conn
    conn'.fsm = conn.fsm ∧ conn'.receiveQueue = conn.receiveQueue ∧
      conn'.state.maxRcvBuffer = conn.state.maxRcvBuffer ∧
      conn'.state.sackEnabled = conn.state.sackEnabled ∧
      (conn'.state.rcvNxt = conn.state.rcvNxt ∨
        conn.state.rcvNxt = tcpseg.endSeq ∧ conn'.state.rcvNxt = conn.state.rcvNxt + 1) ∧
      (SameFlags conn conn' ∨ conn'.state.rcvNxt ≠ old ∧ conn'.receiveQueue.regionList ≠ [] ∧
        conn'.state.startSeqno = tcpseg.sequenceNo ∧ conn'.state.endSeqno = tcpseg.endSeq) := by
  obtain ⟨hfsm, hqueue, hmax, henabled, hflags, hnext⟩ := processFin_eq conn tcpseg event
  dsimp only
  rw [show (conn.processFinAndFinish tcpseg old atEnd event accepted).conn =
    ((conn.processFin tcpseg event).2.noteAdvance tcpseg old).withSendVariables atEnd from rfl]
  unfold TCPConnection.noteAdvance
  split_ifs with hadvance
  · exact ⟨hfsm, hqueue, hmax, henabled, hnext,
      .inr ⟨Ne.symm hadvance.1, fun hempty => hadvance.2.2 (congrArg List.length hempty), rfl, rfl⟩⟩
  · exact ⟨hfsm, hqueue, hmax, henabled, hnext,
      .inl ⟨hflags.sack, hflags.dsack, hflags.start, hflags.stop⟩⟩

section

variable (h : Kept s0 conn is first next)

include h

/-- What is stored fits into the buffer. -/
theorem Kept.buffered_le : (cover is).ncard ≤ conn.state.maxRcvBuffer.toNat := by
  have hsub : cover is ⊆ Set.Ico first (first + conn.state.maxRcvBuffer.toNat) := by
    rintro x ⟨i, hi, hlow, hhigh⟩
    exact ⟨(h.layout.window i hi).1.trans hlow, hhigh.trans_le (h.fits i hi)⟩
  refine (Set.ncard_le_ncard hsub (Set.finite_Ico _ _)).trans (Nat.le_of_eq ?_)
  rw [← Finset.coe_Ico, Set.ncard_coe_finset, Nat.card_Ico, Nat.add_sub_cancel_left]

theorem Kept.usedRcvBuffer_eq :
    conn.usedRcvBuffer = conn.receiveQueue.getAmountOfBufferedBytes := by
  have hle : conn.receiveQueue.getAmountOfBufferedBytes.toNat ≤ conn.state.maxRcvBuffer.toNat := by
    rw [TCPVirtualDataRcvQueue.buffered_eq h.layout]
    exact h.buffered_le
  unfold TCPConnection.usedRcvBuffer TCPVirtualDataRcvQueue.getAmountOfFreeBytes
  dsimp only
  split_ifs with hfree
  · grind
  · have heq : conn.state.maxRcvBuffer = conn.receiveQueue.getAmountOfBufferedBytes := by
      refine BitVec.eq_of_toNat_eq (Nat.le_antisymm ?_ hle)
      rw [gt_iff_lt, BitVec.lt_def] at hfree
      exact not_lt.mp hfree
    rw [← heq]
    exact BitVec.sub_zero _

/-- A text `[a, b)` behind `rcv_nxt` that fits into the buffer is stored. -/
theorem Kept.insert {queue : TCPVirtualDataRcvQueue Region}
    (hab : a < b) (hnext : next ≤ a) (hfits : b ≤ first + conn.state.maxRcvBuffer.toNat)
    (hok : conn.receiveQueue.insertRegion ⟨ofPos s0 a, ofPos s0 b⟩ = .ok queue)
    (hqueue : conn'.receiveQueue = queue) (hrcv : conn'.state.rcvNxt = queue.rcvNxt)
    (hmax : conn'.state.maxRcvBuffer = conn.state.maxRcvBuffer)
    (henabled : conn'.state.sackEnabled = conn.state.sackEnabled) :
    ∃ next', next ≤ next' ∧ Kept s0 conn' (Intervals.insert is (a, b)) first next' ∧
      ∃ k ∈ Intervals.insert is (a, b), k.1 ≤ a ∧ b ≤ k.2 := by
  have hq := h.layout
  have hwindow := hq.next_window
  have hsmall := h.small
  obtain ⟨queue', next', k, hins, hq', hle, hmem, hlow, hhigh⟩ :=
    TCPVirtualDataRcvQueue.insertRegion_of_at hq
      (⟨rfl, rfl⟩ : At s0 (⟨ofPos s0 a, ofPos s0 b⟩ : Region) (a, b))
      ⟨by simp only; omega, by simp only; omega, by simp only; omega⟩ hab
  obtain rfl := Except.ok.inj (hok.symm.trans hins)
  have hends : ∀ i ∈ Intervals.insert is (a, b),
      i.2 ≤ first + conn.state.maxRcvBuffer.toNat := by
    have hbound := @Intervals.endpoints_insert _ _ is (a, b)
      (fun x => x ≤ first + conn.state.maxRcvBuffer.toNat)
      (fun i hi => ⟨(hq.proper i hi).le.trans (h.fits i hi), h.fits i hi⟩)
      ⟨hab.le.trans hfits, hfits⟩
    exact fun i hi => (hbound i hi).2
  refine ⟨next', hle, ⟨hqueue ▸ hq', hrcv.trans hq'.rcvNxt, hmax ▸ hsmall, ?_, hmax ▸ hends,
    henabled.trans h.enabled⟩, k, hmem, hlow, hhigh⟩
  rw [hmax]
  exact hq'.next_le (Nat.le_add_right ..) hends

/-- A text that has not moved `rcv_nxt`. The duplicate is found by the amount of data. -/
theorem outcome_noteOutOfOrder (hab : a < b) (hnext : next ≤ a)
    (h' : Kept s0 conn' (Intervals.insert is (a, b)) first next) (hidle' : Idle conn')
    (hmem : ∃ k ∈ Intervals.insert is (a, b), k.1 ≤ a ∧ b ≤ k.2)
    (hseq : text.sequenceNo = ofPos s0 a) (hend : text.endSeq = ofPos s0 b) :
    Outcome s0 is first next (conn'.noteOutOfOrder text conn.usedRcvBuffer) := by
  obtain ⟨k, hk, hlow, hhigh⟩ := hmem
  have hq' := h'.layout
  have hwk := hq'.window k hk
  rw [noteOutOfOrder, if_pos h'.enabled, h.usedRcvBuffer_eq]
  by_cases hsame : conn.receiveQueue.getAmountOfBufferedBytes =
      conn'.receiveQueue.getAmountOfBufferedBytes
  · refine .duplicate (Intervals.insert is (a, b)) (h'.same ⟨rfl, rfl, rfl, rfl⟩) ?_ ?_ ?_ ?_
    · have hcard : (cover (Intervals.insert is (a, b))).ncard ≤ (cover is).ncard := by
        rw [← TCPVirtualDataRcvQueue.buffered_eq h.layout,
          ← TCPVirtualDataRcvQueue.buffered_eq hq', hsame]
      have hsub : cover is ⊆ cover (Intervals.insert is (a, b)) :=
        fun x hx => Intervals.mem_cover_insert.mpr (.inl hx)
      have heq := Set.eq_of_subset_of_ncard_le hsub hcard (Intervals.finite_cover _)
      exact fun i hi => h.layout.ascending.mem_of_cover h.layout.proper hq'.ascending hi
        fun x _ => heq ▸ Iff.rfl
    · simp [hsame]
    · show text.sequenceNo ≠ text.endSeq
      rw [hseq, hend]
      have hbounds : first ≤ k.1 ∧ k.1 ≤ k.2 ∧ k.2 < first + 2 ^ 31 := id hwk
      have hge := h.layout.next_window.1
      exact @blockAt_start_ne s0 (a, b) first
        ⟨by simp only; omega, by simp only; omega, by simp only; omega⟩ hab
    · have hbounds : first ≤ k.1 ∧ k.1 ≤ k.2 ∧ k.2 < first + 2 ^ 31 := id hwk
      have hge := h.layout.next_window
      refine dsackBlock_of_not_across fun hless => ?_
      have hless : seqLess text.sequenceNo conn'.state.rcvNxt = true := hless
      rw [hseq, h'.rcvNxt, seqLess_ofPos (@near_of_window _ _ first (by omega) (by omega)),
        decide_eq_true_eq] at hless
      omega
  · refine .stored (Intervals.insert is (a, b)) (a, b) k (h'.same ⟨rfl, rfl, rfl, rfl⟩)
      (fun i hi => ?_) hk ?_ hlow hab hhigh hseq hend ?_ ?_
    · have hlt := h.layout.proper i hi
      exact (Intervals.mem_or_le_of_insert hq'.ascending h.layout.ascending hi hlt hab hk
        ⟨hlow, hhigh⟩).imp_right fun hin => ⟨hin.1, hlt, hin.2⟩
    · by_contra hle
      obtain rfl := hq'.ahead k hk (not_lt.mp hle)
      exact absurd hhigh (by simp only; omega)
    · simp [hsame]
    · simp [hsame, hidle'.2]

end

theorem Outcome.same (h : Outcome s0 is first next conn) (hsame : Same conn conn')
    (hflags : SameFlags conn conn') : Outcome s0 is first next conn' := by
  have hidle : Idle conn → Idle conn' := fun hidle =>
    ⟨hflags.sack.trans hidle.1, hflags.dsack.trans hidle.2⟩
  cases h with
  | quiet kept idle => exact .quiet (kept.same hsame) (hidle idle)
  | passed apart enabled fin =>
    refine .passed ?_ (hsame.enabled.trans enabled) (fin.imp hidle ?_)
    · rwa [hsame.queue, hsame.rcvNxt]
    · rw [hsame.queue, hsame.rcvNxt, hflags.start, hflags.stop]
      exact id
  | duplicate is' kept stays dsack ne whole =>
    refine .duplicate is' (kept.same hsame) stays (hflags.dsack.trans dsack) ?_ ?_
    · rwa [hflags.start, hflags.stop]
    · rw [dsackBlock, hflags.start, hflags.stop, hsame.rcvNxt]
      exact whole
  | stored is' j k kept stays mem above low lt high start stop sack noDsack =>
    exact .stored is' j k (kept.same hsame) stays mem above low lt high
      (hflags.start.trans start) (hflags.stop.trans stop) (hflags.sack.trans sack)
      (hflags.dsack.trans noDsack)
  | advanced next' kept idle le lt below =>
    exact .advanced next' (kept.same hsame) (hidle idle) le lt below

theorem Kept.processReadRequest (h : Kept s0 conn is first next)
    (hok : conn.processReadRequest = .ok conn') :
    ∃ is', Kept s0 conn' is' next next ∧ conn'.state = conn.state ∧ conn'.fsm = conn.fsm ∧
      ∀ x, next ≤ x → (x ∈ cover is' ↔ x ∈ cover is) := by
  obtain ⟨queue, hext, hok⟩ := bind_eq_ok.mp hok
  cases hok
  obtain ⟨queue', is', hext', hq', hcover⟩ := TCPVirtualDataRcvQueue.extractAll_spec h.layout
  rw [h.rcvNxt] at hext
  obtain rfl := Except.ok.inj (hext.symm.trans hext')
  refine ⟨is', ⟨hq', h.rcvNxt, h.small, Nat.le_add_right .., fun i hi => ?_, h.enabled⟩, rfl, rfl,
    hcover⟩
  obtain ⟨j, hj, hle⟩ := hq'.exists_le_end hcover hi
  have hbound := h.fits j hj
  have := h.layout.next_window.1
  show i.2 ≤ next + conn.state.maxRcvBuffer.toNat
  omega

/-- A queue without regions has been extracted up to `rcv_nxt`. -/
theorem Kept.of_empty (h : Kept s0 conn is first next)
    (hempty : conn.receiveQueue.regionList = []) : is = [] ∧ first = next := by
  have hregions := h.layout.regions
  rw [hempty] at hregions
  obtain rfl := List.forall₂_nil_left_iff.mp hregions
  refine ⟨rfl, ?_⟩
  obtain heq | hmem := h.layout.inOrder
  · exact heq.symm
  · cases hmem

theorem forwardData_eq (hok : conn.forwardData = .ok conn') :
    conn'.state = conn.state ∧ conn'.fsm = conn.fsm := by
  unfold forwardData at hok
  split_ifs at hok
  · cases hok
    exact ⟨rfl, rfl⟩
  · obtain ⟨queue, -, hok⟩ := bind_eq_ok.mp hok
    cases hok
    exact ⟨rfl, rfl⟩

theorem Kept.forwardData (h : Kept s0 conn is first next) (hok : conn.forwardData = .ok conn')
    (hempty : conn'.receiveQueue.regionList = []) :
    Kept s0 conn' [] next next ∧ ∀ x ∈ Intervals.cover is, x < next := by
  unfold TCPConnection.forwardData at hok
  split_ifs at hok
  · cases hok
    obtain ⟨rfl, rfl⟩ := h.of_empty hempty
    exact ⟨h, by simp⟩
  · obtain ⟨is', h', -, -, hcover⟩ := h.processReadRequest hok
    obtain ⟨rfl, -⟩ := h'.of_empty hempty
    refine ⟨h', fun x hx => ?_⟩
    by_contra hge
    simpa using (hcover x (not_lt.mp hge)).mpr hx

theorem passStoredFin_eq (conn : TCPConnection) (event : TCPEventCode) :
    let conn' := (conn.passStoredFin event).2
    conn'.fsm = conn.fsm ∧ conn'.receiveQueue = conn.receiveQueue ∧
      conn'.state.maxRcvBuffer = conn.state.maxRcvBuffer ∧
      conn'.state.sackEnabled = conn.state.sackEnabled ∧ SameFlags conn conn' ∧
      (conn'.state.rcvNxt = conn.state.rcvNxt ∨ conn'.state.rcvNxt = conn.state.rcvNxt + 1) := by
  dsimp only
  unfold TCPConnection.passStoredFin
  split_ifs with hpass
  · rw [Bool.and_eq_true, beq_iff_eq] at hpass
    exact ⟨rfl, rfl, rfl, rfl, ⟨rfl, rfl, rfl, rfl⟩, .inr (congrArg (· + 1) hpass.2.symm)⟩
  · exact ⟨rfl, rfl, rfl, rfl, ⟨rfl, rfl, rfl, rfl⟩, .inl rfl⟩

/-- A text that has moved `rcv_nxt`, and what follows up to the FIN. -/
theorem outcome_advance {conn₁ conn₂ : TCPConnection} {is₁ : List (ℕ × ℕ)} {next₁ : ℕ}
    (h₁ : Kept s0 conn₁ is₁ first next₁) (hidle : Idle conn₁) (hlt : next < next₁)
    (hfirst : first ≤ next) (hcover : ∀ i ∈ is, i.2 - 1 ∈ cover is₁)
    (hok : conn₁.forwardData = .ok conn₂) (hA : let conn' :=
        ((conn₂.passStoredFin event).2.processFinAndFinish text old atEnd event' accepted).conn
      conn'.state.rcvNxt = ofPos s0 next ∨ conn'.receiveQueue.regionList = []) : let conn' :=
      ((conn₂.passStoredFin event).2.processFinAndFinish text old atEnd event' accepted).conn
    Outcome s0 is first next conn' := by
  obtain ⟨hstate₂, -⟩ := forwardData_eq hok
  obtain ⟨-, hqueue₃, hmax₃, henabled₃, hflags₃, hnext₃⟩ := passStoredFin_eq conn₂ event
  generalize (conn₂.passStoredFin event).2 = conn₃ at *
  obtain ⟨-, hqueue₄, hmax₄, henabled₄, hnext₄, hflags₄⟩ :=
    processFinAndFinish_eq conn₃ text old atEnd event' accepted
  generalize (conn₃.processFinAndFinish text old atEnd event' accepted).conn = conn₄ at *
  have hrcv₂ : conn₂.state.rcvNxt = ofPos s0 next₁ := by rw [hstate₂, h₁.rcvNxt]
  have hsmall := h₁.small
  have hle₁ := h₁.next_le
  -- `rcv_nxt` has moved with the text, and over two FINs at most
  obtain ⟨d, hd, hrcv₄⟩ : ∃ d ≤ 2, conn₄.state.rcvNxt = ofPos s0 (next₁ + d) := by
    obtain hnext₃ | hnext₃ := hnext₃ <;> obtain hnext₄ | ⟨-, hnext₄⟩ := hnext₄ <;>
      rw [hnext₄, hnext₃, hrcv₂]
    · exact ⟨0, by decide, rfl⟩
    · exact ⟨1, by decide, (SerialNumber.ofPos_succ ..).symm⟩
    · exact ⟨1, by decide, (SerialNumber.ofPos_succ ..).symm⟩
    · exact ⟨2, le_rfl, (BitVec.add_assoc ..).trans (SerialNumber.ofPos_add s0 next₁ 2).symm⟩
  have hne : conn₄.state.rcvNxt ≠ ofPos s0 next := by
    intro heq
    have := (ofPos_eq_iff (@near_of_window _ _ first (by omega) (by omega))).mp
      (hrcv₄.symm.trans heq)
    omega
  have hempty₄ := hA.resolve_left hne
  have hempty : conn₂.receiveQueue.regionList = [] := by rw [← hqueue₃, ← hqueue₄, hempty₄]
  obtain ⟨h₂, hbelow⟩ := h₁.forwardData hok hempty
  have hflags := hflags₄.resolve_right fun hleft => hleft.2.1 hempty₄
  have hidle₄ : Idle conn₄ := by
    rw [Idle, hflags.sack, hflags.dsack, hflags₃.sack, hflags₃.dsack, hstate₂]
    exact hidle
  obtain rfl | hpos := Nat.eq_zero_or_pos d
  · refine .advanced next₁ (h₂.same ⟨?_, ?_, ?_, ?_⟩) hidle₄ hlt.le (by omega) fun i hi => ?_
    · rw [hqueue₄, hqueue₃]
    · rw [hrcv₄, hrcv₂, Nat.add_zero]
    · rw [hmax₄, hmax₃]
    · rw [henabled₄, henabled₃]
    · have := hbelow _ (hcover i hi)
      omega
  · refine .passed (fun heq => ?_) ?_ (.inl hidle₄)
    swap
    · rw [henabled₄, henabled₃, h₂.enabled]
    rw [hqueue₄, hqueue₃, h₂.layout.rcvNxt, hrcv₄] at heq
    have := (ofPos_eq_iff (@near_of_window _ _ first (by omega) (by omega))).mp heq
    omega

theorem Same.noteProbe (conn : TCPConnection) (tcpseg : TCPSegment μ) :
    Same conn (conn.noteProbe tcpseg) ∧ SameFlags conn (conn.noteProbe tcpseg) ∧
      (conn.noteProbe tcpseg).fsm = conn.fsm ∧
      (conn.noteProbe tcpseg).state.rcvWnd = conn.state.rcvWnd := by
  unfold TCPConnection.noteProbe
  split_ifs <;> exact ⟨⟨rfl, rfl, rfl, rfl⟩, ⟨rfl, rfl, rfl, rfl⟩, rfl, rfl⟩

theorem Idle.same (h : Idle conn) (hflags : SameFlags conn conn') : Idle conn' :=
  ⟨hflags.sack.trans h.1, hflags.dsack.trans h.2⟩

section

variable (h : Kept s0 conn is first next) (hidle : Idle conn)

include h hidle

/-- A segment without text: only its FIN can matter. -/
theorem outcome_processFinAndFinish (hold : old = ofPos s0 next)
    (hA : let conn' := (conn.processFinAndFinish tcpseg old atEnd event accepted).conn
      conn'.state.rcvNxt = old ∨ conn'.receiveQueue.regionList = [] ∨ tcpseg.payloadLength = 0) :
    let conn' := (conn.processFinAndFinish tcpseg old atEnd event accepted).conn
    Outcome s0 is first next conn' := by
  obtain ⟨-, hqueue, hmax, henabled, hnext, hflags⟩ :=
    processFinAndFinish_eq conn tcpseg old atEnd event accepted
  dsimp only at hqueue hmax henabled hnext hflags hA ⊢
  subst hold
  obtain heq | ⟨-, hpassed⟩ := hnext
  · have hidle' := hidle.same (hflags.resolve_right fun hmoved => hmoved.1 (heq.trans h.rcvNxt))
    exact .quiet (h.same ⟨hqueue, heq, hmax, henabled⟩) hidle'
  · have hne : ofPos s0 (next + 1) ≠ ofPos s0 next := by
      intro heq
      have hwindow := h.layout.next_window
      have hsmall := h.small
      have hle := h.next_le
      have := (ofPos_eq_iff (@near_of_window _ _ first (by omega) (by omega))).mp heq
      omega
    have hsucc : ofPos s0 next + 1 = ofPos s0 (next + 1) := (SerialNumber.ofPos_succ ..).symm
    rw [h.rcvNxt, hsucc] at hpassed
    refine .passed ?_ (henabled.trans h.enabled) ?_
    · rw [hqueue, hpassed, h.layout.rcvNxt]
      exact hne.symm
    · refine hflags.imp hidle.same ?_
      rintro ⟨hmoved, hleft, hstart, hstop⟩
      have hempty := (hA.resolve_left hmoved).resolve_left hleft
      refine ⟨hmoved, hleft, ?_⟩
      rw [hstart, hstop, TCPSegment.endSeq, hempty]
      exact (BitVec.add_zero _).symm

/-- The seventh step, for a text `[next + a, next + b)` within the window. -/
theorem outcome_insertText (hab : a < b) (hfits : next + b ≤ first + conn.state.maxRcvBuffer.toNat)
    (hseq : text.sequenceNo = ofPos s0 (next + a)) (hend : text.endSeq = ofPos s0 (next + b))
    (hold : old = ofPos s0 next) (hok : conn.insertText text event = .ok (event', conn'))
    (hA : let conn'' := (conn'.processFinAndFinish text old atEnd event' accepted).conn
      conn''.state.rcvNxt = old ∨ conn''.receiveQueue.regionList = []) :
    let conn'' := (conn'.processFinAndFinish text old atEnd event' accepted).conn
    Outcome s0 is first next conn'' := by
  obtain ⟨queue, hins, hok⟩ := bind_eq_ok.mp hok
  rw [insertBytesFromSegment_eq hseq hend] at hins
  obtain ⟨next₁, hle, h₁, hmem⟩ := @Kept.insert s0 conn
    { conn with receiveQueue := queue, state := { conn.state with rcvNxt := queue.rcvNxt } }
    is first next (next + a) (next + b) h queue (by omega) (by omega) hfits hins rfl rfl rfl rfl
  have hnear : Near 32 next next₁ :=
    near_of_window h.layout.next_window h₁.layout.next_window
  have hrcv₁ : queue.rcvNxt = ofPos s0 next₁ := h₁.layout.rcvNxt
  dsimp only at hok
  by_cases hmoved : next = next₁
  · subst hmoved
    rw [if_pos (h.rcvNxt.trans hrcv₁.symm)] at hok
    obtain ⟨rfl, hconn⟩ := Prod.mk.inj (Except.ok.inj hok)
    have hout := outcome_noteOutOfOrder h (by omega) (Nat.le_add_right next a) h₁ hidle hmem
      hseq hend
    have hrcv' : conn'.state.rcvNxt = ofPos s0 next := by
      rw [← hconn, (WindowConnection.noteOutOfOrder_eq ..).2.1]
      exact hrcv₁
    rw [hconn] at hout
    obtain ⟨-, hqueue, hmax, henabled, hnext, hflags⟩ :=
      processFinAndFinish_eq conn' text old atEnd event accepted
    dsimp only at hqueue hmax henabled hnext hflags ⊢
    have hstays := hnext.resolve_right fun hpass => by
      have hwindow := h.layout.next_window
      have hsmall := h.small
      have := (ofPos_eq_iff (@near_of_window _ _ first (by omega) (by omega))).mp
        (hrcv'.symm.trans (hpass.1.trans hend))
      omega
    exact hout.same ⟨hqueue, hstays, hmax, henabled⟩ (hflags.resolve_right fun hmoved =>
      hmoved.1 (hstays.trans (hrcv'.trans hold.symm)))
  · rw [if_neg (fun heq => hmoved ((ofPos_eq_iff hnear).mp
      (h.rcvNxt.symm.trans (heq.trans hrcv₁))))] at hok
    obtain ⟨conn₂, hforward, hok⟩ := bind_eq_ok.mp hok
    have hconn := (Prod.mk.inj (Except.ok.inj hok)).2
    have hcover : ∀ i ∈ is,
        i.2 - 1 ∈ cover (Intervals.insert is (next + a, next + b)) := by
      intro i hi
      have hlt := h.layout.proper i hi
      exact Intervals.mem_cover_insert.mpr
        (.inl (Intervals.mem_cover_of_mem hi (by omega) (by omega)))
    subst hold hconn
    have hout := outcome_advance h₁ hidle (Nat.lt_of_le_of_ne hle hmoved) h.layout.next_window.1
      hcover hforward hA
    exact hout

theorem outcome_processText (hlen : tcpseg.payloadLength < 2 ^ 31)
    (hwnd : 0 < tcpseg.payloadLength → conn.state.rcvWnd ≠ 0)
    (hmax : conn.state.rcvWnd.toNat ≤ conn.state.maxRcvBuffer.toNat)
    (hok : conn.processText tcpseg atEnd event = .ok p)
    (hA : p.conn.state.rcvNxt = conn.state.rcvNxt ∨ p.conn.receiveQueue.regionList = [] ∨
      tcpseg.payloadLength = 0) : Outcome s0 is first next p.conn := by
  unfold processText at hok
  by_cases htext : conn.takesText = true ∧ tcpseg.payloadLength > 0
  · rw [if_pos htext] at hok
    obtain ⟨hprobe, hflags, -, hwnd'⟩ := Same.noteProbe conn tcpseg
    obtain ⟨text, htrunc, hok⟩ := bind_eq_ok.mp hok
    have h' := h.same hprobe
    have hidle' := hidle.same hflags
    by_cases hspace : (conn.noteProbe tcpseg).hasEnoughSpaceForSegmentInReceiveQueue text = true
    · rw [if_pos hspace] at hok
      obtain ⟨⟨event', conn'⟩, hins, hok⟩ := bind_eq_ok.mp hok
      cases hok
      have hsmall := h.small
      obtain ⟨a, b, hab, hb, hbegin, hend, -⟩ := truncateSegment_within (hwnd'.symm ▸ hwnd htext.2)
        (by rw [hwnd']; omega) hlen htrunc
      rw [hwnd'] at hb
      rw [hprobe.rcvNxt, h.rcvNxt, SerialNumber.ofPos_ofPos] at hbegin hend
      have hfits : next + b ≤ first + (conn.noteProbe tcpseg).state.maxRcvBuffer.toNat := by
        have hwindow := h.layout.next_window
        have hle := h.next_le
        have hsum : ofPos s0 first + conn.state.maxRcvBuffer =
            ofPos s0 (first + conn.state.maxRcvBuffer.toNat) := by
          rw [SerialNumber.ofPos_add, BitVec.ofNat_toNat, BitVec.setWidth_eq]
        rw [TCPConnection.hasEnoughSpaceForSegmentInReceiveQueue, Bool.and_eq_true,
          hprobe.queue, hprobe.maxRcvBuffer, hend, h.layout.getFirstSeqNo, hsum,
          seqLE_ofPos (@near_of_window _ _ first (by omega) (by omega)), decide_eq_true_eq]
          at hspace
        rw [hprobe.maxRcvBuffer]
        exact hspace.2
      exact outcome_insertText h' hidle' hab hfits hbegin hend h.rcvNxt hins
        (hA.imp_right fun hleft => hleft.resolve_right htext.2.ne')
    · rw [if_neg hspace] at hok
      cases hok
      exact .quiet h' hidle'
  · rw [if_neg htext] at hok
    cases hok
    exact outcome_processFinAndFinish h hidle h.rcvNxt hA

theorem outcome_processAck (hlen : tcpseg.payloadLength < 2 ^ 31)
    (hwnd : 0 < tcpseg.payloadLength → env.afterAck.rcvWnd ≠ 0)
    (hmax : env.afterAck.rcvWnd.toNat ≤ conn.state.maxRcvBuffer.toNat)
    (hok : conn.processAck tcpseg env = .ok p)
    (hA : p.conn.state.rcvNxt = conn.state.rcvNxt ∨ p.conn.receiveQueue.regionList = [] ∨
      tcpseg.payloadLength = 0) : Outcome s0 is first next p.conn := by
  have h' : Kept s0 (conn.withSendVariables env.afterAck) is first next :=
    h.same ⟨rfl, rfl, rfl, rfl⟩
  unfold processAck at hok
  dsimp only at hok
  split_ifs at hok
  · cases hok
    exact .quiet h hidle
  · cases hok
    exact .quiet h' hidle
  · cases hok
    exact .quiet h' hidle
  · have hidle' : Idle (conn.withSendVariables env.afterAck) := hidle
    exact outcome_processText h' hidle' hlen hwnd hmax hok hA

end

/-- Text is not acceptable if the window is closed. -/
theorem rcvWnd_ne_zero_of_acceptable (h : conn.isSegmentAcceptable tcpseg = true)
    (hpos : 0 < tcpseg.payloadLength) (hlen : tcpseg.payloadLength < 2 ^ 31) :
    conn.state.rcvWnd ≠ 0 := by
  intro hzero
  have hne : BitVec.ofNat 32 tcpseg.payloadLength ≠ 0 := by
    intro heq
    have := congrArg BitVec.toNat heq
    rw [BitVec.toNat_ofNat, Nat.mod_eq_of_lt (by omega)] at this
    exact hpos.ne' this
  unfold TCPConnection.isSegmentAcceptable at h
  dsimp only at h
  rw [if_neg hne, if_pos hzero, beq_eq_false_iff_ne.mpr hne] at h
  exact Bool.false_ne_true h

/-- The processing of a segment, if it does not move `rcv_nxt` over a gap that data lies behind. -/
theorem outcome_processSegment (h : Kept s0 conn is first next) (hidle : Idle conn)
    (hlen : tcpseg.payloadLength < 2 ^ 31)
    (hwnd : env.atCheck.rcvWnd ≠ 0 → env.afterAck.rcvWnd ≠ 0)
    (hmax : env.afterAck.rcvWnd.toNat ≤ conn.state.maxRcvBuffer.toNat)
    (hok : conn.processSegment1stThru8th tcpseg env = .ok p)
    (hA : p.conn.state.rcvNxt = conn.state.rcvNxt ∨ p.conn.receiveQueue.regionList = [] ∨
      tcpseg.payloadLength = 0) : Outcome s0 is first next p.conn := by
  have h' : Kept s0 (conn.withSendVariables env.atCheck) is first next :=
    h.same ⟨rfl, rfl, rfl, rfl⟩
  have hidle' : Idle (conn.withSendVariables env.atCheck) := hidle
  unfold TCPConnection.processSegment1stThru8th at hok
  dsimp only at hok
  split_ifs at hok with hreject
  · cases hok
    exact outcome_rejectSegment h' hidle' hlen
  · cases hok
    exact .quiet h' hidle'
  · obtain ⟨_, -, hok⟩ := bind_eq_ok.mp hok
    cases hok
    exact .quiet h' hidle'
  · cases hok
    exact .quiet h' hidle'
  · rw [Bool.or_eq_true, not_or, Bool.not_eq_true', Bool.not_eq_false] at hreject
    exact outcome_processAck h' hidle' hlen
      (fun hpos => hwnd (rcvWnd_ne_zero_of_acceptable hreject.2 hpos hlen)) hmax hok hA

theorem insertText_fsm (hok : conn.insertText text event = .ok (event', conn')) :
    conn'.fsm = conn.fsm := by
  obtain ⟨queue, -, hok⟩ := bind_eq_ok.mp hok
  dsimp only at hok
  split_ifs at hok
  · cases hok
    unfold noteOutOfOrder
    split_ifs <;> rfl
  · obtain ⟨conn₂, hforward, hok⟩ := bind_eq_ok.mp hok
    obtain rfl := (Prod.mk.inj (Except.ok.inj hok)).2
    exact (passStoredFin_eq conn₂ event).1.trans (forwardData_eq hforward).2

theorem processText_fsm (hok : conn.processText tcpseg atEnd event = .ok p) :
    p.conn.fsm = conn.fsm := by
  have hprobe := (Same.noteProbe conn tcpseg).2.2.1
  unfold processText at hok
  dsimp only at hok
  split_ifs at hok with htext
  · obtain ⟨text, -, hok⟩ := bind_eq_ok.mp hok
    split_ifs at hok
    · obtain ⟨⟨event', conn'⟩, hins, hok⟩ := bind_eq_ok.mp hok
      cases hok
      exact (processFinAndFinish_eq ..).1.trans ((insertText_fsm hins).trans hprobe)
    · cases hok
      exact hprobe
  · cases hok
    exact (processFinAndFinish_eq ..).1

/-- The FSM moves after the processing. -/
theorem processSegment_fsm (hok : conn.processSegment1stThru8th tcpseg env = .ok p) :
    p.conn.fsm = conn.fsm := by
  unfold TCPConnection.processSegment1stThru8th at hok
  dsimp only at hok
  split_ifs at hok
  · cases hok
    unfold rejectSegment
    split_ifs <;> rfl
  · cases hok
    rfl
  · obtain ⟨_, -, hok⟩ := bind_eq_ok.mp hok
    cases hok
    rfl
  · cases hok
    rfl
  · unfold processAck at hok
    dsimp only at hok
    split_ifs at hok
    · cases hok
      rfl
    · cases hok
      rfl
    · cases hok
      rfl
    · have hfsm := processText_fsm hok
      exact hfsm

end SackConnection

end Inet.Tcp
