import Inet.Library.Lists
import Inet.Tcp.Segment

/-!
# The send queue for messages

`TCPMsgBasedSendQueue` numbers the bytes of the enqueued messages one after the other. A
segment can be cut out anywhere; it carries the messages whose last byte it contains.

`messageEnds` is the table of all messages ever enqueued with the positions behind their
last bytes. The queue holds the part of the table behind `begin`, and a segment the part
within its bounds (`createSegmentWithBytes_spec`).
-/

namespace Inet.Tcp

open SerialNumber (ofPos Near)

/-- A packet as far as the queues look at it. -/
structure Packet (κ : Type) where
  byteLength : ℕ
  content : κ

/-- The messages of a send queue with the sequence numbers behind their last bytes. -/
abbrev Payload (κ : Type) := TCPPayloadMessage (Packet κ)

structure TCPMsgBasedSendQueue (κ : Type) where
  begin : Uint32
  «end» : Uint32
  payloadQueue : List (Payload κ) := []

namespace TCPMsgBasedSendQueue

variable {κ : Type}

def init (startSeq : Uint32) : TCPMsgBasedSendQueue κ := { begin := startSeq, «end» := startSeq }

def enqueueAppData (queue : TCPMsgBasedSendQueue κ) (msg : Packet κ) :
    Result (TCPMsgBasedSendQueue κ) := do
  let newEnd := queue.end + BitVec.ofNat 32 msg.byteLength
  if seqLess newEnd queue.begin then throw (.cRuntimeError "Send queue is full")
  .ok { queue with «end» := newEnd, payloadQueue := queue.payloadQueue ++ [⟨newEnd, msg⟩] }

def createSegmentWithBytes (queue : TCPMsgBasedSendQueue κ) (fromSeq : Uint32) (numBytes : ℕ) :
    Result (TCPSegment (Packet κ)) := do
  let toSeq := fromSeq + BitVec.ofNat 32 numBytes
  assert (seqLE queue.begin fromSeq && seqLE toSeq queue.end)
    "seqLE(begin, fromSeq) && seqLE(fromSeq + numBytes, end)"
  let i := queue.payloadQueue.dropWhile fun payload => seqLE payload.endSequenceNo fromSeq
  .ok
    { sequenceNo := fromSeq
      payloadLength := numBytes
      payloadList := i.takeWhile fun payload => seqLE payload.endSequenceNo toSeq }

def discardUpTo (queue : TCPMsgBasedSendQueue κ) (seqNum : Uint32) :
    Result (TCPMsgBasedSendQueue κ) := do
  assert (seqLE queue.begin seqNum && seqLE seqNum queue.end)
    "seqLE(begin, seqNum) && seqLE(seqNum, end)"
  .ok
    { queue with
      begin := seqNum
      payloadQueue := queue.payloadQueue.dropWhile fun payload =>
        seqLE payload.endSequenceNo seqNum }

end TCPMsgBasedSendQueue

variable {κ : Type} {p : ℕ} {msgs : List (Packet κ)} {msg : Packet κ}

/-- The messages of a stream that starts at position `p`, with the positions behind their
last bytes. -/
def messageEnds : ℕ → List (Packet κ) → List (ℕ × Packet κ)
  | _, [] => []
  | p, msg :: msgs => (p + msg.byteLength, msg) :: messageEnds (p + msg.byteLength) msgs

def totalLength (msgs : List (Packet κ)) : ℕ := (msgs.map Packet.byteLength).sum

theorem messageEnds_concat (p : ℕ) (msgs : List (Packet κ)) (msg : Packet κ) :
    messageEnds p (msgs ++ [msg]) =
      messageEnds p msgs ++ [(p + totalLength (msgs ++ [msg]), msg)] := by
  induction msgs generalizing p with
  | nil => simp [messageEnds, totalLength]
  | cons m msgs ih => simp [messageEnds, ih, totalLength, Nat.add_assoc]

theorem totalLength_concat (msgs : List (Packet κ)) (msg : Packet κ) :
    totalLength (msgs ++ [msg]) = totalLength msgs + msg.byteLength := by
  simp [totalLength]

theorem messageEnds_snd (p : ℕ) (msgs : List (Packet κ)) :
    (messageEnds p msgs).map Prod.snd = msgs := by
  induction msgs generalizing p with
  | nil => rfl
  | cons m msgs ih => simp [messageEnds, ih]

/-- A table of messages whose ends strictly increase and lie within `(0, total]`. -/
structure IsTable (total : ℕ) (table : List (ℕ × Packet κ)) : Prop where
  increasing : table.Pairwise fun a b => a.1 < b.1
  pos : ∀ m ∈ table, 0 < m.1
  le_total : ∀ m ∈ table, m.1 ≤ total

theorem IsTable.nil : IsTable 0 ([] : List (ℕ × Packet κ)) :=
  ⟨.nil, by simp, by simp⟩

theorem IsTable.concat {total : ℕ} {table : List (ℕ × Packet κ)} (h : IsTable total table)
    (hmsg : 0 < msg.byteLength) :
    IsTable (total + msg.byteLength) (table ++ [(total + msg.byteLength, msg)]) := by
  refine ⟨List.pairwise_append.mpr ⟨h.increasing, List.pairwise_singleton _ _, ?_⟩, ?_, ?_⟩
  · intro a ha b hb
    obtain rfl := List.mem_singleton.mp hb
    have := h.le_total a ha
    simp only
    omega
  · intro m hm
    obtain hm | hm := List.mem_append.mp hm
    · exact h.pos m hm
    · obtain rfl := List.mem_singleton.mp hm
      exact Nat.add_pos_right _ hmsg
  · intro m hm
    obtain hm | hm := List.mem_append.mp hm
    · exact Nat.le_trans (h.le_total m hm) (Nat.le_add_right _ _)
    · obtain rfl := List.mem_singleton.mp hm
      exact le_rfl

/-- Comparing the ends with a bound switches once along any part of a table. -/
theorem IsTable.switches {total : ℕ} {table : List (ℕ × Packet κ)} (h : IsTable total table)
    (q : ℕ) : List.Switches (fun m => decide (m.1 ≤ q)) table := by
  refine h.increasing.imp fun hab hb => ?_
  simp only [decide_eq_true_eq] at hb ⊢
  omega

theorem IsTable.sublist {total : ℕ} {table l : List (ℕ × Packet κ)} (h : IsTable total table)
    (hl : l.Sublist table) : IsTable total l :=
  ⟨h.increasing.sublist hl, fun m hm => h.pos m (hl.mem hm), fun m hm => h.le_total m (hl.mem hm)⟩

/-- A table entry as the queues store it. -/
def entry (s0 : Uint32) (m : ℕ × Packet κ) : Payload κ := ⟨ofPos s0 m.1, m.2⟩

variable {s0 : Uint32} {total b o n q : ℕ} {table l : List (ℕ × Packet κ)}

section

variable (hl : IsTable total l) (htotal : total < 2 ^ 31) (hq : q < 2 ^ 31)

include hl htotal hq

theorem seqLE_entry {m : ℕ × Packet κ} (hm : m ∈ l) :
    seqLE (entry s0 m).endSequenceNo (ofPos s0 q) = decide (m.1 ≤ q) := by
  have := hl.le_total m hm
  exact seqLE_ofPos (near_of_lt (by omega) (by omega))

theorem switches_entry :
    List.Switches (fun m => seqLE (entry s0 m).endSequenceNo (ofPos s0 q)) l := by
  refine hl.increasing.imp_of_mem fun ha hb hab => ?_
  simp only [seqLE_entry hl htotal hq ha, seqLE_entry hl htotal hq hb]
  simp only [decide_eq_true_eq]
  omega

/-- Skipping the entries that end at `q` or before it. -/
theorem dropWhile_entries :
    (l.map (entry s0)).dropWhile (fun payload => seqLE payload.endSequenceNo (ofPos s0 q)) =
      (l.filter fun m => q < m.1).map (entry s0) := by
  rw [List.dropWhile_map]
  congr 1
  refine (switches_entry hl htotal hq).dropWhile_eq.trans (List.filter_congr fun m hm => ?_)
  rw [seqLE_entry hl htotal hq hm, Bool.eq_iff_iff]
  simp

theorem takeWhile_entries :
    (l.map (entry s0)).takeWhile (fun payload => seqLE payload.endSequenceNo (ofPos s0 q)) =
      (l.filter fun m => m.1 ≤ q).map (entry s0) := by
  rw [List.takeWhile_map]
  congr 1
  refine (switches_entry hl htotal hq).takeWhile_eq.trans (List.filter_congr fun m hm => ?_)
  rw [seqLE_entry hl htotal hq hm]

end

/-- The queue holds the part of the table behind `begin`. -/
structure SendLayout (s0 : Uint32) (queue : TCPMsgBasedSendQueue κ) (table : List (ℕ × Packet κ))
    (b total : ℕ) : Prop where
  isTable : IsTable total table
  begin : queue.begin = ofPos s0 b
  «end» : queue.end = ofPos s0 total
  begin_le : b ≤ total
  total_lt : total < 2 ^ 31
  payloadQueue : queue.payloadQueue = (table.filter fun m => b < m.1).map (entry s0)

/-- The segment `[o, o + n)` with the messages that end within it. -/
def segmentAt (s0 : Uint32) (table : List (ℕ × Packet κ)) (o n : ℕ) : TCPSegment (Packet κ) :=
  { sequenceNo := ofPos s0 o
    payloadLength := n
    payloadList := (table.filter fun m => o < m.1 && m.1 ≤ o + n).map (entry s0) }

namespace SendLayout

variable {queue : TCPMsgBasedSendQueue κ}

theorem init (s0 : Uint32) : SendLayout s0 (.init s0 : TCPMsgBasedSendQueue κ) [] 0 0 := by
  refine ⟨.nil, ?_, ?_, le_rfl, by decide, rfl⟩ <;> simp [TCPMsgBasedSendQueue.init]

section

variable (h : SendLayout s0 queue table b total)

include h

theorem enqueueAppData (hpos : 0 < msg.byteLength)
    (hroom : total + msg.byteLength < 2 ^ 31) :
    ∃ queue', queue.enqueueAppData msg = .ok queue' ∧
      SendLayout s0 queue' (table ++ [(total + msg.byteLength, msg)]) b
        (total + msg.byteLength) := by
  have hend : queue.end + BitVec.ofNat 32 msg.byteLength = ofPos s0 (total + msg.byteLength) := by
    rw [h.end, SerialNumber.ofPos_add]
  have hle := h.begin_le
  have hfull : seqLess (ofPos s0 (total + msg.byteLength)) queue.begin = false := by
    rw [h.begin, seqLess_ofPos (near_of_lt (by omega) (by omega))]
    exact decide_eq_false (by omega)
  refine ⟨{ queue with
      «end» := ofPos s0 (total + msg.byteLength)
      payloadQueue := queue.payloadQueue ++ [⟨ofPos s0 (total + msg.byteLength), msg⟩] },
    ?_, h.isTable.concat hpos, h.begin, rfl, by omega, hroom, ?_⟩
  · simp only [TCPMsgBasedSendQueue.enqueueAppData, hend, hfull]
    rfl
  · simp only [h.payloadQueue, List.filter_append, List.map_append]
    congr 1
    rw [List.filter_cons_of_pos (by simpa using by omega)]
    rfl

theorem createSegmentWithBytes (ho : b ≤ o)
    (hn : o + n ≤ total) :
    queue.createSegmentWithBytes (ofPos s0 o) n = .ok (segmentAt s0 table o n) := by
  have htotal := h.total_lt
  have hto : ofPos s0 o + BitVec.ofNat 32 n = ofPos s0 (o + n) := (SerialNumber.ofPos_add ..).symm
  have hassert : (seqLE queue.begin (ofPos s0 o) && seqLE (ofPos s0 (o + n)) queue.end) = true := by
    rw [h.begin, h.end, seqLE_ofPos (near_of_lt (by omega) (by omega)),
      seqLE_ofPos (near_of_lt (by omega) (by omega))]
    simp [ho, hn]
  have hsub := h.isTable.sublist (List.filter_sublist (p := fun m => decide (b < m.1)))
  simp only [TCPMsgBasedSendQueue.createSegmentWithBytes, hto, assert_of hassert, ok_bind,
    h.payloadQueue]
  rw [dropWhile_entries hsub htotal (by omega),
    takeWhile_entries (hsub.sublist List.filter_sublist) htotal (by omega), List.filter_filter,
    List.filter_filter, segmentAt]
  congr 4
  funext m
  rw [Bool.eq_iff_iff]
  simp only [Bool.and_eq_true, decide_eq_true_eq]
  omega

theorem discardUpTo (hb : b ≤ q) (hq : q ≤ total) :
    ∃ queue', queue.discardUpTo (ofPos s0 q) = .ok queue' ∧ SendLayout s0 queue' table q total := by
  have htotal := h.total_lt
  have hassert : (seqLE queue.begin (ofPos s0 q) && seqLE (ofPos s0 q) queue.end) = true := by
    rw [h.begin, h.end, seqLE_ofPos (near_of_lt (by omega) (by omega)),
      seqLE_ofPos (near_of_lt (by omega) (by omega))]
    simp [hb, hq]
  have hsub := h.isTable.sublist (List.filter_sublist (p := fun m => decide (b < m.1)))
  refine ⟨{ queue with
      begin := ofPos s0 q
      payloadQueue := (table.filter fun m => q < m.1).map (entry s0) },
    ?_, h.isTable, rfl, h.end, hq, htotal, rfl⟩
  · simp only [TCPMsgBasedSendQueue.discardUpTo, assert_of hassert, ok_bind, h.payloadQueue]
    rw [dropWhile_entries hsub htotal (by omega), List.filter_filter]
    congr 4
    funext m
    rw [Bool.eq_iff_iff]
    simp only [Bool.and_eq_true, decide_eq_true_eq]
    omega

end

end SendLayout

end Inet.Tcp
