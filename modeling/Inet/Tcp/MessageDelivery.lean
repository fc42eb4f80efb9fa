import Inet.Library.Run
import Inet.Tcp.MsgBasedRcvQueue

/-!
# Messages end to end

A sender with a `TCPMsgBasedSendQueue`, a receiver with a `TCPMsgBasedRcvQueue`, and a
network that delivers any segment that was ever created, any number of times and in any
order, after the receiver has trimmed it to its window.

In every state the application has been given the messages that end by `rcv_nxt`, each
once and in order, and `rcv_nxt` has passed all that has arrived without a gap
(`delivers_messages`).
-/

namespace Inet.Tcp

open SerialNumber (ofPos Near)
open Intervals (cover)
open List

variable {κ : Type}

section

variable {s0 : Uint32} {table : List (ℕ × Packet κ)} {o n lo hi total : ℕ}

/-- Trimming a list from both ends, when either condition switches once from its end. -/
theorem dropEnds_eq_filter {p q : Payload κ → Bool} {l : List (Payload κ)}
    (hp : Switches p l) (hq : Switches q (l.filter (!p ·)).reverse) :
    TCPSegment.dropEnds p q l = (l.filter (!p ·)).filter (!q ·) := by
  rw [TCPSegment.dropEnds, hp.dropWhile_eq, hq.dropWhile_eq, filter_reverse, reverse_reverse]

section

variable (htable : IsTable total table) (htotal : total < 2 ^ 31)

include htable htotal

/-- The distance of an entry from an earlier position. -/
theorem toNat_entry_sub {m : ℕ × Packet κ} (hm : m ∈ table) {p : ℕ} (hp : p ≤ m.1) :
    ((entry s0 m).endSequenceNo - ofPos s0 p).toNat = m.1 - p := by
  have := htable.le_total m hm
  exact SerialNumber.toNat_ofPos_sub hp (by omega)

/-- The messages that end within `[o, o + n)` and within `[lo, hi)`, by trimming. -/
theorem dropEnds_entries {o' e' : ℕ} (ho : o ≤ o') (he : e' ≤ o + n) (hoe : o' ≤ e') :
    TCPSegment.dropEnds (fun m => (m.endSequenceNo - ofPos s0 o).toNat ≤ o' - o)
        (fun m => (m.endSequenceNo - ofPos s0 o').toNat > e' - o')
        ((table.filter fun m => decide (o < m.1) && decide (m.1 ≤ o + n)).map (entry s0)) =
      (table.filter fun m => decide (o' < m.1) && decide (m.1 ≤ e')).map (entry s0) := by
  obtain ⟨l, hl⟩ : ∃ l, l = table.filter fun m => decide (o < m.1) && decide (m.1 ≤ o + n) :=
    ⟨_, rfl⟩
  have hmem : ∀ m ∈ l, m ∈ table ∧ o < m.1 ∧ m.1 ≤ o + n := by
    intro m hm
    have := mem_filter.mp (hl ▸ hm)
    simpa using this
  have hsub : l.Sublist table := hl ▸ filter_sublist
  have hsorted := htable.increasing.sublist hsub
  have hfront : ∀ m ∈ l, ((entry s0 m).endSequenceNo - ofPos s0 o).toNat = m.1 - o :=
    fun m hm => toNat_entry_sub htable htotal (hmem m hm).1 (hmem m hm).2.1.le
  have hdrop : (l.map (entry s0)).filter
      (fun m => !decide ((m.endSequenceNo - ofPos s0 o).toNat ≤ o' - o)) =
      (l.filter fun m => o' < m.1).map (entry s0) := by
    rw [filter_map]
    congr 1
    refine filter_congr fun m hm => ?_
    have := (hmem m hm).2
    simp only [Function.comp_apply, hfront m hm]
    rw [Bool.eq_iff_iff]
    simp only [Bool.not_eq_true', decide_eq_false_iff_not, decide_eq_true_eq]
    omega
  have hback : ∀ m ∈ l.filter fun m => o' < m.1,
      ((entry s0 m).endSequenceNo - ofPos s0 o').toNat = m.1 - o' := by
    intro m hm
    obtain ⟨hm, hlt⟩ := mem_filter.mp hm
    exact toNat_entry_sub htable htotal (hmem m hm).1 (of_decide_eq_true hlt).le
  rw [← hl, dropEnds_eq_filter, hdrop, filter_map]
  · congr 1
    rw [hl, filter_filter, filter_filter]
    refine filter_congr fun m hm => ?_
    rw [Bool.eq_iff_iff]
    simp only [Function.comp_apply, Bool.and_eq_true, Bool.not_eq_true', decide_eq_true_eq,
      decide_eq_false_iff_not, Nat.not_lt, gt_iff_lt]
    constructor
    · rintro ⟨⟨h₁, h₂⟩, -, -⟩
      rw [toNat_entry_sub htable htotal hm h₂.le] at h₁
      omega
    · rintro ⟨h₁, h₂⟩
      rw [toNat_entry_sub htable htotal hm h₁.le]
      omega
  · refine pairwise_map.mpr (hsorted.imp_of_mem fun ha hb hab => ?_)
    simp only [hfront _ ha, hfront _ hb, decide_eq_true_eq]
    omega
  · rw [hdrop, Switches, pairwise_reverse]
    refine pairwise_map.mpr ((hsorted.sublist filter_sublist).imp_of_mem
      fun ha hb hab => ?_)
    simp only [hback _ ha, hback _ hb, decide_eq_true_eq]
    omega

/-- Trimming a segment gives the segment of the common part, with its messages. -/
theorem truncateSegment_segmentAt (h : TCPSegment.Meets o n lo hi) :
    ∃ tcpseg, (segmentAt s0 table o n).truncateSegment (ofPos s0 lo) (ofPos s0 hi) = .ok tcpseg ∧
      tcpseg.sequenceNo = ofPos s0 (max o lo) ∧
      tcpseg.payloadLength = min (o + n) hi - max o lo ∧
      tcpseg.payloadList =
        (table.filter fun m => decide (max o lo < m.1) && decide (m.1 ≤ min (o + n) hi)).map
          (entry s0) := by
  have hlen : (segmentAt s0 table o n).payloadLength = n := rfl
  obtain ⟨byteArray, htrunc⟩ :=
    @TCPSegment.truncateSegment_spec _ s0 (segmentAt s0 table o n) o n lo hi rfl hlen (.inl rfl) h
  obtain ⟨h₀, h₁, h₂, h₃, -, -⟩ := h
  refine ⟨_, htrunc, rfl, rfl, ?_⟩
  exact dropEnds_entries htable htotal (le_max_left _ _) (min_le_left _ _) (by omega)

end

end

/-- The two ends, the segments created so far, what has gone into one end and come out of the
other, and the trimmed segments that have been inserted. -/
structure System (κ : Type) where
  sender : TCPMsgBasedSendQueue κ
  receiver : TCPMsgBasedRcvQueue κ
  sent : List (TCPSegment (Packet κ)) := []
  enqueued : List (Packet κ) := []
  delivered : List (Packet κ) := []
  arrived : List (TCPSegment (Packet κ)) := []

/-- What may happen next. Positions count the bytes of the stream. -/
inductive Event (κ : Type) where
  /-- The application sends a message. -/
  | enqueue (msg : Packet κ)
  /-- A segment with `n` bytes from position `o` on is created, for the first time or as a
  retransmission. -/
  | create (o n : ℕ)
  /-- The bytes before position `p` are no longer needed. -/
  | discard (p : ℕ)
  /-- A copy of a segment arrives at a receiver with the window `wnd`. -/
  | deliver (index : ℕ) (wnd : Uint32)

namespace System

def start (s0 : Uint32) : System κ := { sender := .init s0, receiver := .init s0 }

/-- The segment carries data, and some of it lies in the open window. -/
def reachesWindow (tcpseg : TCPSegment (Packet κ)) (rcvNxt wnd : Uint32) : Bool :=
  decide (tcpseg.payloadLength > 0) && wnd != 0 && seqLess tcpseg.sequenceNo (rcvNxt + wnd) &&
    seqLess rcvNxt tcpseg.endSeq

/-- A segment arrives. One that does not reach the window is not acceptable and ignored;
any other is trimmed and inserted, and if `rcv_nxt` advances the data is passed up. -/
def deliver (sys : System κ) (tcpseg : TCPSegment (Packet κ)) (wnd : Uint32) :
    Result (System κ) := do
  let rcvNxt := sys.receiver.rcvNxt
  if reachesWindow tcpseg rcvNxt wnd then
    let tcpseg ← tcpseg.truncateSegment rcvNxt (rcvNxt + wnd)
    let receiver ← sys.receiver.insertBytesFromSegment tcpseg
    let sys := { sys with arrived := sys.arrived ++ [tcpseg] }
    if receiver.rcvNxt = rcvNxt then
      .ok { sys with receiver }
    else
      let (msgs, receiver) ← receiver.extractAll (receiver.payloadList.length + 1)
      .ok { sys with receiver, delivered := sys.delivered ++ msgs }
  else
    .ok sys

def step (s0 : Uint32) (sys : System κ) : Event κ → Result (System κ)
  | .enqueue msg => do
      let sender ← sys.sender.enqueueAppData msg
      .ok { sys with sender, enqueued := sys.enqueued ++ [msg] }
  | .create o n => do
      let tcpseg ← sys.sender.createSegmentWithBytes (ofPos s0 o) n
      .ok { sys with sent := sys.sent ++ [tcpseg] }
  | .discard p => do
      let sender ← sys.sender.discardUpTo (ofPos s0 p)
      .ok { sys with sender }
  | .deliver index wnd =>
    match sys.sent[index]? with
    | some tcpseg => sys.deliver tcpseg wnd
    | none => .ok sys

/-- The position of a sequence number. -/
def pos (s0 seq : Uint32) : ℕ := (seq - s0).toNat

/-- Messages have positive length and stay below half of the sequence space in total;
segments and discards lie within the data of the send queue. -/
def Allowed (s0 : Uint32) (sys : System κ) : Event κ → Prop
  | .enqueue msg => 0 < msg.byteLength ∧ totalLength sys.enqueued + msg.byteLength < 2 ^ 31
  | .create o n => pos s0 sys.sender.begin ≤ o ∧ o + n ≤ pos s0 sys.sender.end
  | .discard p => pos s0 sys.sender.begin ≤ p ∧ p ≤ pos s0 sys.sender.end
  | .deliver _ wnd => wnd.toNat < 2 ^ 31

instance (s0 : Uint32) (sys : System κ) : (event : Event κ) → Decidable (sys.Allowed s0 event)
  | .enqueue _ => inferInstanceAs (Decidable (_ ∧ _))
  | .create _ _ => inferInstanceAs (Decidable (_ ∧ _))
  | .discard _ => inferInstanceAs (Decidable (_ ∧ _))
  | .deliver _ wnd => inferInstanceAs (Decidable (wnd.toNat < 2 ^ 31))

/-- The sequence numbers behind the last bytes of messages that start at `seq`. -/
def endSequenceNos : Uint32 → List (Packet κ) → List Uint32
  | _, [] => []
  | seq, msg :: msgs =>
    let endSequenceNo := seq + BitVec.ofNat 32 msg.byteLength
    endSequenceNo :: endSequenceNos endSequenceNo msgs

/-- A byte at this position has arrived. -/
def Arrived (s0 : Uint32) (sys : System κ) (x : ℕ) : Prop :=
  ∃ tcpseg ∈ sys.arrived,
    pos s0 tcpseg.sequenceNo ≤ x ∧ x < pos s0 tcpseg.sequenceNo + tcpseg.payloadLength

structure DeliversMessages (s0 : Uint32) (sys : System κ) : Prop where
  /-- The application has been given the first `k` messages, each once and in order, where
  `k` counts the messages that end by `rcv_nxt`. -/
  delivered : sys.delivered = sys.enqueued.take
    ((endSequenceNos s0 sys.enqueued).countP fun e => seqLE e sys.receiver.rcvNxt)
  /-- `rcv_nxt` is at the first byte that has not arrived. -/
  rcvNxt : ∃ next, sys.receiver.rcvNxt = ofPos s0 next ∧ IsLeast {x | ¬ sys.Arrived s0 x} next

theorem endSequenceNos_eq (s0 : Uint32) (p : ℕ) (msgs : List (Packet κ)) :
    endSequenceNos (ofPos s0 p) msgs = (messageEnds p msgs).map fun m => ofPos s0 m.1 := by
  induction msgs generalizing p with
  | nil => rfl
  | cons msg msgs ih =>
    simp only [endSequenceNos, messageEnds, map_cons, ← SerialNumber.ofPos_add, ih]

theorem segmentAt_concat {s0 : Uint32} {table : List (ℕ × Packet κ)} {o n total : ℕ}
    {m : ℕ × Packet κ} (hn : o + n ≤ total) (hm : total < m.1) :
    segmentAt s0 (table ++ [m]) o n = segmentAt s0 table o n := by
  have hout : (decide (o < m.1) && decide (m.1 ≤ o + n)) = false := by
    rw [Bool.and_eq_false_iff, decide_eq_false_iff_not, decide_eq_false_iff_not]
    omega
  rw [segmentAt, segmentAt, filter_concat_of_false]
  exact hout

/-- The invariant: both queues hold parts of the table of all messages, so does every
segment, what has been delivered is the part of the table up to `rcv_nxt`, and the bytes
behind it that have arrived are stored. -/
structure Inv (s0 : Uint32) (sys : System κ) : Prop where
  sender : ∃ b, SendLayout s0 sys.sender (messageEnds 0 sys.enqueued) b (totalLength sys.enqueued)
  receiver : ∃ is next,
    TCPMsgBasedRcvQueue.RcvLayout s0 sys.receiver (messageEnds 0 sys.enqueued) is next next
      (totalLength sys.enqueued) ∧
    sys.delivered = ((messageEnds 0 sys.enqueued).filter fun m => m.1 ≤ next).map Prod.snd ∧
    ∀ x, sys.Arrived s0 x ↔ x < next ∨ x ∈ cover is
  sent : ∀ tcpseg ∈ sys.sent, ∃ o n, o + n ≤ totalLength sys.enqueued ∧
    tcpseg = segmentAt s0 (messageEnds 0 sys.enqueued) o n

variable {s0 : Uint32} {sys : System κ}

theorem Inv.start (s0 : Uint32) : Inv s0 (start s0 : System κ) := by
  refine ⟨⟨0, SendLayout.init s0⟩, ⟨[], 0, TCPMsgBasedRcvQueue.RcvLayout.init s0, rfl, ?_⟩, ?_⟩
  · simp [System.start, Arrived]
  · simp [System.start]

theorem arrived_concat {receiver : TCPMsgBasedRcvQueue κ} {delivered : List (Packet κ)}
    {tcpseg : TCPSegment (Packet κ)} {x : ℕ} :
    Arrived s0 { sys with receiver, delivered, arrived := sys.arrived ++ [tcpseg] } x ↔
      sys.Arrived s0 x ∨
        pos s0 tcpseg.sequenceNo ≤ x ∧ x < pos s0 tcpseg.sequenceNo + tcpseg.payloadLength := by
  simp only [Arrived, mem_append, mem_singleton, or_and_right, exists_or, exists_eq_left]

theorem Inv.deliversMessages (h : Inv s0 sys) : sys.DeliversMessages s0 := by
  obtain ⟨is, next, hr, hdelivered, harrived⟩ := h.receiver
  have hnext := hr.next_le
  have htotal := hr.total_lt
  have hcount : (endSequenceNos s0 sys.enqueued).countP (fun e => seqLE e sys.receiver.rcvNxt) =
      (messageEnds 0 sys.enqueued).countP fun m => m.1 ≤ next := by
    have hends := endSequenceNos_eq s0 0 sys.enqueued
    rw [SerialNumber.ofPos_zero] at hends
    rw [hends, countP_map]
    refine countP_congr fun m hm => ?_
    rw [Function.comp_apply, hr.layout.rcvNxt]
    exact Bool.eq_iff_iff.mp (seqLE_entry hr.isTable htotal (by omega) hm)
  refine ⟨?_, next, hr.layout.rcvNxt, ?_, fun x hx => ?_⟩
  · rw [hcount, hdelivered, ← (hr.isTable.switches next).take_countP, map_take, messageEnds_snd]
  · intro hnext
    obtain hlt | ⟨i, hi, hle, hlt⟩ := (harrived next).mp hnext
    · exact absurd hlt (lt_irrefl next)
    · -- a stored region that `rcv_nxt` has reached has been extracted
      obtain rfl := hr.layout.ahead i hi hle
      exact absurd hlt (lt_irrefl next)
  · exact not_lt.mp fun hlt => hx ((harrived x).mpr (.inl hlt))

theorem pos_ofPos {p total : ℕ} (hp : p ≤ total) (htotal : total < 2 ^ 31) :
    pos s0 (ofPos s0 p) = p := by
  have := @SerialNumber.toNat_ofPos_sub _ s0 _ _ (Nat.zero_le p) (by omega)
  rwa [SerialNumber.ofPos_zero] at this

theorem Inv.enqueue {msg : Packet κ} (h : Inv s0 sys) (allowed : sys.Allowed s0 (.enqueue msg)) :
    ∃ sys', sys.step s0 (.enqueue msg) = .ok sys' ∧ Inv s0 sys' := by
  obtain ⟨hpos, hroom⟩ := allowed
  obtain ⟨⟨b, hs⟩, ⟨is, next, hr, hdelivered, harrived⟩, hsent⟩ := h
  have htable : messageEnds 0 (sys.enqueued ++ [msg]) = messageEnds 0 sys.enqueued ++
      [(totalLength sys.enqueued + msg.byteLength, msg)] := by
    rw [messageEnds_concat, Nat.zero_add, totalLength_concat]
  obtain ⟨sender, henq, hs'⟩ := hs.enqueueAppData hpos hroom
  refine ⟨{ sys with sender, enqueued := sys.enqueued ++ [msg] }, ?_, ?_, ?_, ?_⟩
  · simp only [step, henq, ok_bind]
  · exact ⟨b, by simpa only [htable, totalLength_concat] using hs'⟩
  · refine ⟨is, next, ?_, ?_, harrived⟩
    · simpa only [htable, totalLength_concat] using hr.concat hpos hroom
    · have hle := hr.next_le
      have hlate : decide (totalLength sys.enqueued + msg.byteLength ≤ next) = false :=
        decide_eq_false (by omega)
      rw [hdelivered, htable, filter_concat_of_false]
      exact hlate
  · intro tcpseg htcpseg
    obtain ⟨o, n, hn, hseg⟩ := hsent tcpseg htcpseg
    refine ⟨o, n, ?_, ?_⟩
    · rw [totalLength_concat]
      omega
    · rw [hseg, htable, segmentAt_concat hn (by simp only; omega)]

theorem Inv.create {o n : ℕ} (h : Inv s0 sys) (allowed : sys.Allowed s0 (.create o n)) :
    ∃ sys', sys.step s0 (.create o n) = .ok sys' ∧ Inv s0 sys' := by
  obtain ⟨hb, he⟩ := allowed
  obtain ⟨⟨b, hs⟩, hr, hsent⟩ := h
  rw [hs.begin, pos_ofPos hs.begin_le hs.total_lt] at hb
  rw [hs.end, pos_ofPos le_rfl hs.total_lt] at he
  refine ⟨{ sys with sent := sys.sent ++ [segmentAt s0 (messageEnds 0 sys.enqueued) o n] }, ?_,
    ⟨b, hs⟩, hr, ?_⟩
  · simp only [step, hs.createSegmentWithBytes hb he, ok_bind]
  · intro tcpseg htcpseg
    obtain hold | hnew := mem_append.mp htcpseg
    · exact hsent tcpseg hold
    · exact ⟨o, n, he, mem_singleton.mp hnew⟩

theorem Inv.discard {p : ℕ} (h : Inv s0 sys) (allowed : sys.Allowed s0 (.discard p)) :
    ∃ sys', sys.step s0 (.discard p) = .ok sys' ∧ Inv s0 sys' := by
  obtain ⟨hb, he⟩ := allowed
  obtain ⟨⟨b, hs⟩, hr, hsent⟩ := h
  rw [hs.begin, pos_ofPos hs.begin_le hs.total_lt] at hb
  rw [hs.end, pos_ofPos le_rfl hs.total_lt] at he
  obtain ⟨sender, hdiscard, hs'⟩ := hs.discardUpTo hb he
  refine ⟨{ sys with sender }, ?_, ⟨p, hs'⟩, hr, hsent⟩
  simp only [step, hdiscard, ok_bind]

/-- For a segment within the stream the test is that it has a common part with the
window. -/
theorem meets_of_reachesWindow {table : List (ℕ × Packet κ)} {o n next total : ℕ} {wnd : Uint32}
    (hn : o + n ≤ total) (hnext : next ≤ total) (htotal : total < 2 ^ 31)
    (hwnd : wnd.toNat < 2 ^ 31)
    (h : reachesWindow (segmentAt s0 table o n) (ofPos s0 next) wnd = true) :
    TCPSegment.Meets o n next (next + wnd.toNat) ∧ 0 < wnd.toNat := by
  have hend : (segmentAt s0 table o n).endSeq = ofPos s0 (o + n) :=
    TCPSegment.endSeq_eq rfl rfl
  have hhi : ofPos s0 next + wnd = ofPos s0 (next + wnd.toNat) := by
    rw [SerialNumber.ofPos_add, BitVec.ofNat_toNat, BitVec.setWidth_eq]
  rw [reachesWindow, hend, hhi] at h
  simp only [Bool.and_eq_true, decide_eq_true_eq, bne_iff_ne] at h
  obtain ⟨⟨⟨hlen, hne⟩, hseq⟩, hfirst⟩ := h
  have hpos : 0 < wnd.toNat := Nat.pos_of_ne_zero fun h => hne (BitVec.eq_of_toNat_eq h)
  have hlen : 0 < n := hlen
  rw [seqLess_ofPos (near_of_lt (by omega) (by omega)), decide_eq_true_eq] at hfirst
  have hseq : seqLess (ofPos s0 o) (ofPos s0 (next + wnd.toNat)) = true := hseq
  -- a window that reaches too far beyond the segment is not taken to meet it
  have hnear : next + wnd.toNat < o + 2 ^ 31 := by
    by_contra hfar
    have hle : seqLE (ofPos s0 o) (ofPos s0 (next + wnd.toNat)) = true := by
      rw [seqLess, Bool.and_eq_true] at hseq
      exact hseq.2
    rw [seqLE, SerialNumber.toNat_ofPos_sub (by omega) (by omega), decide_eq_true_eq] at hle
    omega
  rw [seqLess_ofPos ⟨by simp only [Nat.reduceSub]; omega, hnear⟩, decide_eq_true_eq] at hseq
  exact ⟨⟨hlen, hseq, hfirst, by omega, hnear, by omega⟩, hpos⟩

theorem Inv.deliver {tcpseg : TCPSegment (Packet κ)} {wnd : Uint32} (h : Inv s0 sys)
    (hseg : tcpseg ∈ sys.sent) (hwnd : wnd.toNat < 2 ^ 31) :
    ∃ sys', sys.deliver tcpseg wnd = .ok sys' ∧ Inv s0 sys' := by
  have hinv := h
  obtain ⟨hs, ⟨is, next, hr, hdelivered, harrived⟩, hsent⟩ := h
  obtain ⟨o, n, hn, rfl⟩ := hsent tcpseg hseg
  have hnext := hr.next_le
  rw [System.deliver, hr.layout.rcvNxt]
  by_cases hreach : reachesWindow (segmentAt s0 (messageEnds 0 sys.enqueued) o n)
      (ofPos s0 next) wnd = true
  · rw [if_pos hreach]
    obtain ⟨meets, hopen⟩ := meets_of_reachesWindow hn hnext hr.total_lt hwnd hreach
    have hhi : ofPos s0 next + wnd = ofPos s0 (next + wnd.toNat) := by
      rw [SerialNumber.ofPos_add, BitVec.ofNat_toNat, BitVec.setWidth_eq]
    obtain ⟨tcpseg, htrunc, hseq, hlen, hmsgs⟩ :=
      @truncateSegment_segmentAt _ s0 _ _ _ _ _ _ hr.isTable hr.total_lt meets
    obtain ⟨hpos, hseqlt, hfirst, hrange, -, -⟩ := meets
    have htotal := hr.total_lt
    obtain ⟨receiver, next', hins, hle, hr'⟩ := hr.insertBytesFromSegment (le_max_right _ _)
      (by omega) (by omega) (by omega) hseq hlen hmsgs
    have hnext' := hr'.next_le
    have hstart : pos s0 tcpseg.sequenceNo = max o next := by
      rw [hseq, pos_ofPos (by omega) htotal]
    have hstored : ∀ x, sys.Arrived s0 x ∨ pos s0 tcpseg.sequenceNo ≤ x ∧
        x < pos s0 tcpseg.sequenceNo + tcpseg.payloadLength ↔
        x < next' ∨ x ∈ cover (Intervals.insert is
          (max o next, min (o + n) (next + wnd.toNat))) := by
      intro x
      rw [harrived, hstart, hlen, Nat.add_sub_cancel' (by omega), Intervals.mem_cover_insert,
        or_assoc]
      refine ⟨Or.imp_left fun h => h.trans_le hle, ?_⟩
      rintro (hlt | hmem)
      · obtain hold | hnew := Nat.lt_or_ge x next
        · exact .inl hold
        · exact .inr (Intervals.mem_cover_insert.mp (hr'.layout.mem_cover hnew hlt))
      · exact .inr hmem
    simp only [hhi, htrunc, ok_bind, hins]
    have hsame : receiver.rcvNxt = ofPos s0 next ↔ next' = next := by
      rw [hr'.layout.rcvNxt]
      exact ofPos_eq_iff (near_of_lt (by omega) (by omega))
    by_cases heq : next' = next
    · rw [if_pos (hsame.mpr heq)]
      exact ⟨_, rfl, hs, ⟨_, next, heq ▸ hr', hdelivered, fun x => arrived_concat.trans
        (heq ▸ hstored x)⟩, hsent⟩
    · rw [if_neg (mt hsame.mp heq)]
      obtain ⟨receiver', is', hall, hr'', hcover⟩ := hr'.extractAll
      rw [hall, ok_bind]
      refine ⟨_, rfl, hs, ⟨is', next', hr'', ?_, fun x => ?_⟩, hsent⟩
      · -- the messages up to the old and the new `rcv_nxt`, one after the other
        simp only [hdelivered, ← map_append]
        congr 1
        have happend := (hr.isTable.switches next).filter_append_filter
          (q := fun m => decide (m.1 ≤ next')) fun m _ hm => by
            simp only [decide_eq_true_eq] at hm ⊢
            omega
        rw [← happend]
        congr 1
        refine filter_congr fun m _ => ?_
        rw [Bool.eq_iff_iff]
        simp
      · refine arrived_concat.trans ((hstored x).trans ?_)
        obtain hpassed | hahead := Nat.lt_or_ge x next'
        · exact ⟨fun _ => .inl hpassed, fun _ => .inl hpassed⟩
        · exact or_congr_right (hcover x hahead).symm
  · rw [if_neg hreach]
    exact ⟨sys, rfl, hinv⟩

/-- Messages arrive once and in order, whatever is segmented, resent, duplicated,
reordered and cut off on the way. -/
theorem delivers_messages (s0 : Uint32) (events : List (Event κ))
    (allowed : Run.Admissible (step s0) (Allowed s0) (start s0) events) :
    Run.Always (step s0) (DeliversMessages s0) (start s0 : System κ) events := by
  refine Run.Always.mono (fun _ h => Inv.deliversMessages h)
    (Run.always_of_step ?_ (Inv.start s0) allowed)
  intro sys event h hallowed
  cases event with
  | enqueue msg => exact h.enqueue hallowed
  | create o n => exact h.create hallowed
  | discard p => exact h.discard hallowed
  | deliver index wnd =>
    simp only [step]
    cases hseg : sys.sent[index]? with
    | none => exact ⟨sys, rfl, h⟩
    | some tcpseg => exact h.deliver (List.mem_of_getElem? hseg) hallowed

/-- Two messages in three segments that overlap and arrive in the wrong order, across the
wrap of the sequence numbers. -/
theorem delivers_two_messages :
    Run.Always (step (-2#32)) (DeliversMessages (-2#32)) (start (-2#32) : System Char)
      [.enqueue ⟨3, 'a'⟩, .enqueue ⟨2, 'b'⟩, .create 0 2, .create 1 3, .create 3 2,
        .deliver 2 10, .deliver 1 10, .deliver 0 10, .discard 5, .deliver 1 10] :=
  delivers_messages _ _ (by decide)

end System

end Inet.Tcp
