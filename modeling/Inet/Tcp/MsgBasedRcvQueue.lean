import Inet.Tcp.MsgBasedSendQueue
import Inet.Tcp.VirtualDataRcvQueue

/-!
# The receive queue for messages

`TCPMsgBasedRcvQueue` is the plain region queue with a sorted list of the messages that
have arrived and not been extracted. The list is the part of the sender's table of
messages that ends within the stored regions (`RcvLayout`), so that a message can be
extracted as soon as `rcv_nxt` has passed its end.
-/

namespace Inet.Tcp

open SerialNumber (ofPos Near)
open Intervals (cover)
open List

variable {κ : Type}

/-- A received message with the sequence number behind its last byte. -/
abbrev PayloadItem (κ : Type) := TCPPayloadMessage (Packet κ)

structure TCPMsgBasedRcvQueue (κ : Type) extends TCPVirtualDataRcvQueue Region where
  payloadList : List (PayloadItem κ) := []

namespace TCPMsgBasedRcvQueue

def init (startSeq : Uint32) : TCPMsgBasedRcvQueue κ := { rcvNxt := startSeq }

def createRegionFromSegment (tcpseg : TCPSegment (Packet κ)) : Region :=
  ⟨tcpseg.sequenceNo, tcpseg.endSeq⟩

/-- The loop that moves the messages of a segment to the payload list. The iterator stands
between `before` and `behind`; it only ever moves on. -/
def insertMessages : (before behind : List (PayloadItem κ)) → List (PayloadItem κ) →
    Result (List (PayloadItem κ))
  | before, behind, [] => .ok (before ++ behind)
  | before, behind, msg :: msgs =>
    let before := before ++ behind.takeWhile fun i => seqLess i.endSequenceNo msg.endSequenceNo
    let behind := behind.dropWhile fun i => seqLess i.endSequenceNo msg.endSequenceNo
    -- avoiding duplicates
    if behind.head?.any fun i => i.endSequenceNo == msg.endSequenceNo then
      insertMessages before behind msgs
    else do
      let payloadList := before ++ msg :: behind
      assert (payloadList.head?.all fun front => payloadList.getLast?.all fun back =>
        seqLE front.endSequenceNo back.endSequenceNo)
        "seqLE(payloadList.front().seqNo, payloadList.back().seqNo)"
      insertMessages before (msg :: behind) msgs

def insertBytesFromSegment (queue : TCPMsgBasedRcvQueue κ) (tcpseg : TCPSegment (Packet κ)) :
    Result (TCPMsgBasedRcvQueue κ) := do
  let regions ← queue.insertRegion (createRegionFromSegment tcpseg)
  let payloadList ← insertMessages [] queue.payloadList tcpseg.payloadList
  .ok { regions with payloadList }

def extractBytesUpTo (queue : TCPMsgBasedRcvQueue κ) (seq : Uint32) :
    Result (Option (Packet κ) × TCPMsgBasedRcvQueue κ) := do
  let seq :=
    match queue.payloadList with
    | front :: _ => if seqLess front.endSequenceNo seq then front.endSequenceNo else seq
    | [] => seq
  let (reg, regions) ← queue.extractTo seq
  match reg, queue.payloadList with
  | some reg, front :: rest =>
    if front.endSequenceNo = reg.end then
      .ok (some front.msg, { regions with payloadList := rest })
    else .ok (none, { regions with payloadList := queue.payloadList })
  | _, _ => .ok (none, { regions with payloadList := queue.payloadList })

/-- The loop of the connection, which extracts up to `rcv_nxt` until nothing comes. Each
round but the last takes a message off the payload list, which gives the fuel. -/
def extractAll : ℕ → TCPMsgBasedRcvQueue κ → Result (List (Packet κ) × TCPMsgBasedRcvQueue κ)
  | 0, _ => .error .outOfFuel
  | fuel + 1, queue => do
      let (msg, queue) ← queue.extractBytesUpTo queue.rcvNxt
      match msg with
      | none => .ok ([], queue)
      | some msg => do
          let (msgs, queue) ← extractAll fuel queue
          .ok (msg :: msgs, queue)

section

variable {s0 : Uint32} {total : ℕ} {table done pre l : List (ℕ × Packet κ)}
variable {p q : ℕ × Packet κ → Bool}

section

variable (hl : IsTable total l) (htotal : total < 2 ^ 31)

include hl htotal

theorem seqLess_entry {a b : ℕ × Packet κ}
    (ha : a ∈ l) (hb : b ∈ l) :
    seqLess (entry s0 a).endSequenceNo (entry s0 b).endSequenceNo = decide (a.1 < b.1) := by
  have := hl.le_total a ha
  have := hl.le_total b hb
  exact seqLess_ofPos (near_of_lt (by omega) (by omega))

theorem entry_eq_iff {a b : ℕ × Packet κ}
    (ha : a ∈ l) (hb : b ∈ l) :
    (entry s0 a).endSequenceNo = (entry s0 b).endSequenceNo ↔ a.1 = b.1 := by
  have := hl.le_total a ha
  have := hl.le_total b hb
  exact ofPos_eq_iff (near_of_lt (by omega) (by omega))

/-- The check that the payload list stays sorted, on a part of a table. -/
theorem front_le_back :
    ((l.map (entry s0)).head?.all fun front => (l.map (entry s0)).getLast?.all fun back =>
      seqLE front.endSequenceNo back.endSequenceNo) = true := by
  cases l with
  | nil => rfl
  | cons a l =>
    cases hback : (a :: l).getLast? with
    | none => simp at hback
    | some b =>
      have hb := mem_of_getLast? hback
      have hab : a.1 ≤ b.1 := by
        obtain rfl | hmem := mem_cons.mp hb
        · exact le_rfl
        · exact Nat.le_of_lt ((pairwise_cons.mp hl.increasing).1 b hmem)
      have ha' := hl.le_total a mem_cons_self
      have hb' := hl.le_total b hb
      rw [getLast?_map, hback, map_cons, head?_cons]
      simp only [Option.map_some, Option.all_some, entry]
      rw [seqLE_ofPos (near_of_lt (by omega) (by omega))]
      exact decide_eq_true hab

end

/-- Moving a part of a table into a payload list that is a part of the same table gives
their union. `done` and `pre` are what the iterator has passed and what it will skip. -/
theorem insertMessages_spec (htable : IsTable total (done ++ pre ++ table))
    (htotal : total < 2 ^ 31) :
    insertMessages (done.map (entry s0)) ((pre ++ table.filter p).map (entry s0))
        ((table.filter q).map (entry s0)) =
      .ok ((done ++ pre ++ table.filter fun m => p m || q m).map (entry s0)) := by
  induction table generalizing done pre with
  | nil => simp [insertMessages]
  | cons m table ih =>
    have hmem : m ∈ done ++ pre ++ m :: table := by simp
    cases hq : q m with
    | false =>
      cases hp : p m with
      | false =>
        have hsub : IsTable total (done ++ pre ++ table) :=
          htable.sublist (List.Sublist.append_left (sublist_cons_self _ _) _)
        simpa [hp, hq] using ih hsub
      | true =>
        have := @ih done (pre ++ [m]) (by simpa using htable)
        simpa [hp, hq] using this
    | true =>
      have hpre : ∀ i ∈ pre.map (entry s0),
          seqLess i.endSequenceNo (entry s0 m).endSequenceNo = true := by
        intro i hi
        obtain ⟨a, ha, rfl⟩ := mem_map.mp hi
        have hlt := (pairwise_append.mp htable.increasing).2.2 a (by simp [ha]) m
          mem_cons_self
        rw [seqLess_entry htable htotal (by simp [ha]) hmem]
        exact decide_eq_true hlt
      have hbehind : ∀ a ∈ m :: table, m.1 ≤ a.1 := by
        intro a ha
        obtain rfl | ha := mem_cons.mp ha
        · exact le_rfl
        · have := (pairwise_append.mp htable.increasing).2.1
          exact Nat.le_of_lt ((pairwise_cons.mp this).1 a ha)
      have hrest : ∀ i ∈ ((m :: table).filter p).map (entry s0),
          seqLess i.endSequenceNo (entry s0 m).endSequenceNo = false := by
        intro i hi
        obtain ⟨a, ha, rfl⟩ := mem_map.mp hi
        have ha := mem_of_mem_filter ha
        have hle := hbehind a ha
        rw [seqLess_entry htable htotal (by simp only [mem_append]; exact .inr ha) hmem]
        exact decide_eq_false (by omega)
      have hqs : (m :: table).filter q = m :: table.filter q := filter_cons_of_pos hq
      rw [hqs, map_cons, insertMessages, map_append, takeWhile_append_of_split hpre hrest,
        dropWhile_append_of_split hpre hrest, ← map_append]
      have hnext := @ih (done ++ pre) [m] (by simpa using htable)
      cases hp : p m with
      | true =>
        have hdup : (((m :: table).filter p).map (entry s0)).head?.any
            (fun i => i.endSequenceNo == (entry s0 m).endSequenceNo) = true := by
          simp [hp]
        have hps : (m :: table).filter p = m :: table.filter p := filter_cons_of_pos hp
        rw [if_pos hdup, hps]
        simpa [hp, hq] using hnext
      | false =>
        have hps : (m :: table).filter p = table.filter p :=
          filter_cons_of_neg (by simp [hp])
        have hnew : ¬ (((m :: table).filter p).map (entry s0)).head?.any
            (fun i => i.endSequenceNo == (entry s0 m).endSequenceNo) = true := by
          rw [hps]
          cases hf : table.filter p with
          | nil => simp
          | cons a l =>
            have ha : a ∈ table := mem_of_mem_filter (hf ▸ mem_cons_self)
            have hlt := (pairwise_cons.mp
              (pairwise_append.mp htable.increasing).2.1).1 a ha
            have hne : (entry s0 a).endSequenceNo = (entry s0 m).endSequenceNo ↔
                a.1 = m.1 := entry_eq_iff htable htotal (by simp [ha]) hmem
            simp only [map_cons, head?_cons, Option.any_some, beq_iff_eq, hne]
            omega
        have hsorted : IsTable total (done ++ pre ++ m :: table.filter p) :=
          htable.sublist (List.Sublist.append_left
            (List.Sublist.cons_cons _ filter_sublist) _)
        have hassert := @front_le_back _ s0 _ _ hsorted htotal
        rw [map_append, map_cons] at hassert
        rw [if_neg hnew, hps]
        simp only
        rw [assert_of hassert, ok_bind]
        simpa [hp, hq] using hnext

end

section

variable {s0 : Uint32} {total first next : ℕ} {l : List (ℕ × Packet κ)}
variable {queue : TCPMsgBasedRcvQueue κ} {is : List (ℕ × ℕ)}

/-- What extraction relies on: the stored messages end behind the data extracted so far. -/
structure Pending (s0 : Uint32) (queue : TCPMsgBasedRcvQueue κ) (is : List (ℕ × ℕ))
    (first next total : ℕ) (l : List (ℕ × Packet κ)) : Prop where
  layout : Layout s0 (At s0) queue.toTCPVirtualDataRcvQueue is first next
  payloadList : queue.payloadList = l.map (entry s0)
  isTable : IsTable total l
  behind : ∀ m ∈ l, first < m.1
  total_lt : total < 2 ^ 31
  next_le : next ≤ total

theorem extractTo_of_pending (h : Pending s0 queue is first next total l) {p : ℕ}
    (hfirst : first ≤ p) (hp : p ≤ next) :
    (p ≤ first ∧ queue.extractTo (ofPos s0 p) = .ok (none, queue.toTCPVirtualDataRcvQueue)) ∨
      (first < p ∧ ∃ r queue' is', queue.extractTo (ofPos s0 p) = .ok (some r, queue') ∧
        r.end = ofPos s0 p ∧ Layout s0 (At s0) queue' is' p next ∧
        ∀ x, p ≤ x → (x ∈ cover is' ↔ x ∈ cover is)) := by
  have hnext := h.layout.next_window
  have hends : ∀ i ∈ is, i.2 < p + 2 ^ 31 := fun i hi => by
    have := (h.layout.window i hi).2.2
    omega
  obtain hnone | ⟨hlt, r, queue', is', hext, hr, hrest⟩ :=
    TCPVirtualDataRcvQueue.extractTo_spec (fun _ _ h => h)
      (fun r i m hr => Region.split_of_at hr) h.layout hp (by omega) hends
  · exact .inl hnone
  · exact .inr ⟨hlt, r, queue', is', hext, hr.2, hrest⟩

/-- The front message is extracted when `rcv_nxt` has reached its end. -/
theorem extractBytesUpTo_of_le {m : ℕ × Packet κ}
    (h : Pending s0 queue is first next total (m :: l)) (hm : m.1 ≤ next) :
    ∃ queue' is', queue.extractBytesUpTo queue.rcvNxt = .ok (some m.2, queue') ∧
      Pending s0 queue' is' m.1 next total l ∧
      ∀ x, m.1 ≤ x → (x ∈ cover is' ↔ x ∈ cover is) := by
  have hlt := h.behind m mem_cons_self
  have htotal := h.total_lt
  have hnext := h.next_le
  have hseq : (if seqLess (entry s0 m).endSequenceNo queue.rcvNxt
      then (entry s0 m).endSequenceNo else queue.rcvNxt) = ofPos s0 m.1 := by
    rw [h.layout.rcvNxt, entry, seqLess_ofPos (near_of_lt (by omega) (by omega))]
    split_ifs with hless
    · rfl
    · obtain rfl : next = m.1 := by
        have := mt decide_eq_true hless
        omega
      rfl
  obtain ⟨hle, -⟩ | ⟨-, r, queue', is', hext, hend, layout, hcover⟩ :=
    extractTo_of_pending h hlt.le hm
  · omega
  · refine ⟨{ queue' with payloadList := l.map (entry s0) }, is', ?_, ⟨layout, rfl, ?_, ?_,
      htotal, hnext⟩, hcover⟩
    · simp only [extractBytesUpTo, h.payloadList, map_cons, hseq, hext, ok_bind]
      have hend' : (entry s0 m).endSequenceNo = r.end := hend.symm
      rw [if_pos hend']
      rfl
    · exact h.isTable.sublist (sublist_cons_self _ _)
    · exact (pairwise_cons.mp h.isTable.increasing).1

/-- When no message ends by `rcv_nxt`, the data up to there is dropped and nothing comes. -/
theorem extractBytesUpTo_of_lt (h : Pending s0 queue is first next total l)
    (hl : ∀ m ∈ l.head?, next < m.1) :
    ∃ queue' is', queue.extractBytesUpTo queue.rcvNxt = .ok (none, queue') ∧
      Pending s0 queue' is' next next total l ∧
      ∀ x, next ≤ x → (x ∈ cover is' ↔ x ∈ cover is) := by
  have htotal := h.total_lt
  have hnext := h.next_le
  have hfirst := h.layout.next_window.1
  have behind : ∀ m ∈ l, next < m.1 := by
    cases l with
    | nil => simp
    | cons m l =>
      have hm : next < m.1 := hl m rfl
      intro m' hm'
      obtain rfl | hm' := mem_cons.mp hm'
      · exact hm
      · exact hm.trans ((pairwise_cons.mp h.isTable.increasing).1 m' hm')
  have hseq : (match queue.payloadList with
      | front :: _ => if seqLess front.endSequenceNo queue.rcvNxt then front.endSequenceNo
        else queue.rcvNxt
      | [] => queue.rcvNxt) = ofPos s0 next := by
    rw [h.payloadList, h.layout.rcvNxt]
    cases l with
    | nil => rfl
    | cons m l =>
      have hm := behind m mem_cons_self
      have := h.isTable.le_total m mem_cons_self
      simp only [map_cons, entry, seqLess_ofPos (@near_of_lt m.1 next (by omega) (by omega))]
      rw [if_neg (by simp only [decide_eq_true_eq]; omega)]
  obtain ⟨hle, hext⟩ | ⟨hlt, r, queue', is', hext, hend, layout, hcover⟩ :=
    extractTo_of_pending h hfirst le_rfl
  · obtain rfl : next = first := by omega
    refine ⟨queue, is, ?_, h, fun x _ => Iff.rfl⟩
    simp only [extractBytesUpTo, hseq, hext, ok_bind]
  · refine ⟨{ queue' with payloadList := queue.payloadList }, is', ?_,
      ⟨layout, h.payloadList, h.isTable, behind, htotal, hnext⟩, hcover⟩
    simp only [extractBytesUpTo, hseq, hext, ok_bind]
    cases hpl : queue.payloadList with
    | nil => rfl
    | cons front rest =>
      obtain ⟨m, l', hl', hfront, -⟩ :=
        map_eq_cons_iff.mp (h.payloadList.symm.trans hpl)
      have hm : m ∈ l := hl' ▸ mem_cons_self
      have hlt := behind m hm
      have hle := h.isTable.le_total m hm
      have hne : front.endSequenceNo ≠ r.end := by
        rw [← hfront, hend, entry, ne_eq, ofPos_eq_iff (near_of_lt (by omega) (by omega))]
        omega
      simp only [if_neg hne]

/-- The whole loop hands out the messages that end by `rcv_nxt`, in order, and leaves the
later ones. -/
theorem extractAll_spec {fuel : ℕ} (h : Pending s0 queue is first next total l)
    (hfuel : l.length < fuel) :
    ∃ queue' is',
      extractAll fuel queue = .ok ((l.filter fun m => m.1 ≤ next).map Prod.snd, queue') ∧
      Pending s0 queue' is' next next total (l.filter fun m => next < m.1) ∧
      ∀ x, next ≤ x → (x ∈ cover is' ↔ x ∈ cover is) := by
  induction l generalizing fuel queue is first with
  | nil =>
    obtain ⟨fuel, rfl⟩ := Nat.exists_eq_add_of_lt hfuel
    obtain ⟨queue', is', hext, hpending, hcover⟩ := extractBytesUpTo_of_lt h (by simp)
    exact ⟨queue', is', by simp [extractAll, hext], hpending, hcover⟩
  | cons m l ih =>
    obtain ⟨fuel, rfl⟩ : ∃ k, fuel = k + 1 := ⟨fuel - 1, by omega⟩
    by_cases hm : m.1 ≤ next
    · obtain ⟨queue₁, is₁, hext, hpending, hcover₁⟩ := extractBytesUpTo_of_le h hm
      obtain ⟨queue', is', hall, hrest, hcover⟩ := ih hpending (Nat.lt_of_succ_lt_succ hfuel)
      refine ⟨queue', is', ?_, ?_, fun x hx => (hcover x hx).trans (hcover₁ x (by omega))⟩
      · rw [extractAll, hext, ok_bind]
        simp only [hall, ok_bind]
        rw [filter_cons_of_pos (by simpa using hm), map_cons]
      · rwa [filter_cons_of_neg (by simpa using hm)]
    · obtain ⟨queue', is', hext, hpending, hcover⟩ := extractBytesUpTo_of_lt h (by
        simpa using hm)
      have hle : (m :: l).filter (fun m => decide (m.1 ≤ next)) = [] := by
        refine filter_eq_nil_iff.mpr fun m' hm' => ?_
        have := hpending.behind m' hm'
        simpa using this
      have hgt : (m :: l).filter (fun m => decide (next < m.1)) = m :: l := by
        refine filter_eq_self.mpr fun m' hm' => ?_
        exact decide_eq_true (hpending.behind m' hm')
      refine ⟨queue', is', ?_, ?_, hcover⟩
      · rw [extractAll, hext, ok_bind, hle]
        rfl
      · rwa [hgt]

end

variable {s0 : Uint32} {total first next : ℕ} {table : List (ℕ × Packet κ)}
variable {queue : TCPMsgBasedRcvQueue κ} {is : List (ℕ × ℕ)}

/-- The messages of a table that have been stored and not been extracted. -/
def storedMessages (is : List (ℕ × ℕ)) (first : ℕ) (table : List (ℕ × Packet κ)) :
    List (ℕ × Packet κ) :=
  table.filter fun m => decide (first < m.1) && decide (m.1 - 1 ∈ Intervals.cover is)

/-- The payload list holds the messages whose last byte is stored in a region. -/
structure RcvLayout (s0 : Uint32) (queue : TCPMsgBasedRcvQueue κ) (table : List (ℕ × Packet κ))
    (is : List (ℕ × ℕ)) (first next total : ℕ) : Prop where
  layout : Layout s0 (At s0) queue.toTCPVirtualDataRcvQueue is first next
  payloadList : queue.payloadList = (storedMessages is first table).map (entry s0)
  isTable : IsTable total table
  total_lt : total < 2 ^ 31
  ends_le : ∀ i ∈ is, i.2 ≤ total
  first_le : first ≤ total

namespace RcvLayout

theorem init (s0 : Uint32) : RcvLayout s0 (.init s0 : TCPMsgBasedRcvQueue κ) [] [] 0 0 0 := by
  refine ⟨Layout.init s0 _, rfl, .nil, by decide, by simp, le_rfl⟩

section

variable (h : RcvLayout s0 queue table is first next total)

include h

/-- More messages are enqueued behind what has been received. -/
theorem concat {msg : Packet κ}
    (hmsg : 0 < msg.byteLength) (hroom : total + msg.byteLength < 2 ^ 31) :
    RcvLayout s0 queue (table ++ [(total + msg.byteLength, msg)]) is first next
      (total + msg.byteLength) := by
  refine ⟨h.layout, ?_, h.isTable.concat hmsg, hroom, ?_, ?_⟩
  · have houtside : total + msg.byteLength - 1 ∉ cover is := by
      rintro ⟨i, hi, -, hlt⟩
      have := h.ends_le i hi
      omega
    rw [h.payloadList, storedMessages, storedMessages, filter_append]
    simp [houtside]
  · intro i hi
    exact (h.ends_le i hi).trans (Nat.le_add_right _ _)
  · exact h.first_le.trans (Nat.le_add_right _ _)

/-- Insertion of the part `[o, e)` of the stream with the messages that end within it. -/
theorem insertBytesFromSegment
    {tcpseg : TCPSegment (Packet κ)} {o e : ℕ} (ho : first ≤ o) (hoe : o < e) (he : e ≤ total)
    (hwindow : e < first + 2 ^ 31) (hseq : tcpseg.sequenceNo = ofPos s0 o)
    (hlen : tcpseg.payloadLength = e - o)
    (hmsgs : tcpseg.payloadList =
      (table.filter fun m => decide (o < m.1) && decide (m.1 ≤ e)).map (entry s0)) :
    ∃ queue' next', queue.insertBytesFromSegment tcpseg = .ok queue' ∧ next ≤ next' ∧
      RcvLayout s0 queue' table (Intervals.insert is (o, e)) first next' total := by
  have hregion : At s0 (createRegionFromSegment tcpseg) (o, e) := by
    refine ⟨hseq, ?_⟩
    show tcpseg.endSeq = _
    rw [TCPSegment.endSeq_eq hseq hlen, Nat.add_sub_cancel' hoe.le]
  obtain ⟨regions, next', -, hins, layout, hnext, -⟩ :=
    TCPVirtualDataRcvQueue.insertRegion_of_at h.layout hregion ⟨ho, hoe.le, hwindow⟩ hoe
  have hmerge : insertMessages [] queue.payloadList tcpseg.payloadList =
      .ok ((storedMessages (Intervals.insert is (o, e)) first table).map (entry s0)) := by
    have := @insertMessages_spec _ s0 _ table [] []
      (fun m => decide (first < m.1) && decide (m.1 - 1 ∈ cover is))
      (fun m => decide (o < m.1) && decide (m.1 ≤ e)) h.isTable h.total_lt
    simp only [nil_append, map_nil] at this
    rw [h.payloadList, storedMessages, hmsgs, this, storedMessages]
    congr 2
    -- a last byte is in the new interval just in case the message ends in it
    refine filter_congr fun m hm => ?_
    have hpos := h.isTable.pos m hm
    rw [Bool.eq_iff_iff]
    simp only [Bool.or_eq_true, Bool.and_eq_true, decide_eq_true_eq, Intervals.mem_cover_insert]
    constructor
    · rintro (⟨h₁, h₂⟩ | ⟨h₁, h₂⟩)
      · exact ⟨h₁, .inl h₂⟩
      · exact ⟨by omega, .inr ⟨by omega, by omega⟩⟩
    · rintro ⟨h₁, h₂ | h₂⟩
      · exact .inl ⟨h₁, h₂⟩
      · exact .inr ⟨by omega, by omega⟩
  refine ⟨{ regions with
      payloadList := (storedMessages (Intervals.insert is (o, e)) first table).map (entry s0) },
    next', ?_, hnext, { layout with }, rfl, h.isTable, h.total_lt, ?_, h.first_le⟩
  · simp only [TCPMsgBasedRcvQueue.insertBytesFromSegment, hins, hmerge, ok_bind]
  · have hends := @Intervals.endpoints_insert _ _ is (o, e) (· ≤ total)
      (fun i hi => ⟨(h.layout.proper i hi).le.trans (h.ends_le i hi), h.ends_le i hi⟩)
      ⟨hoe.le.trans he, he⟩
    exact fun i hi => (hends i hi).2

theorem next_le : next ≤ total :=
  h.layout.next_le h.first_le h.ends_le

/-- Extraction hands out the messages that end between `first` and `rcv_nxt`. -/
theorem extractAll : ∃ queue' is',
      extractAll (queue.payloadList.length + 1) queue =
        .ok ((table.filter fun m => decide (first < m.1) && decide (m.1 ≤ next)).map Prod.snd,
          queue') ∧
      RcvLayout s0 queue' table is' next next total ∧
      ∀ x, next ≤ x → (x ∈ cover is' ↔ x ∈ cover is) := by
  have hlayout := h.layout.next_window
  have hsub : (storedMessages is first table).Sublist table := filter_sublist
  have hpending : Pending s0 queue is first next total (storedMessages is first table) := by
    refine ⟨h.layout, h.payloadList, h.isTable.sublist hsub, ?_, h.total_lt, h.next_le⟩
    intro m hm
    have := (mem_filter.mp hm).2
    simp only [Bool.and_eq_true, decide_eq_true_eq] at this
    exact this.1
  have hfuel : (storedMessages is first table).length < queue.payloadList.length + 1 := by
    rw [h.payloadList, length_map]
    exact Nat.lt_succ_self _
  obtain ⟨queue', is', hext, hrest, hcover⟩ := extractAll_spec hpending hfuel
  have hends : ∀ i ∈ is', i.2 ≤ total := by
    intro i hi
    have hproper := hrest.layout.proper i hi
    have hlow := (hrest.layout.window i hi).1
    obtain ⟨j, hj, -, hlt⟩ := (hcover (i.2 - 1) (by omega)).mp
      (Intervals.mem_cover_of_mem hi (by omega) (by omega))
    have := h.ends_le j hj
    omega
  refine ⟨queue', is', ?_, ⟨hrest.layout, ?_, h.isTable, h.total_lt, hends, h.next_le⟩, hcover⟩
  · rw [hext, storedMessages, filter_filter]
    congr 3
    -- what has been passed by `rcv_nxt` and not been extracted is stored
    refine filter_congr fun m hm => ?_
    rw [Bool.eq_iff_iff]
    simp only [Bool.and_eq_true, decide_eq_true_eq]
    constructor
    · rintro ⟨h₁, h₂, -⟩
      exact ⟨h₂, h₁⟩
    · rintro ⟨h₁, h₂⟩
      exact ⟨h₂, h₁, h.layout.mem_cover (by omega) (by omega)⟩
  · rw [hrest.payloadList, storedMessages, storedMessages, filter_filter]
    congr 1
    refine filter_congr fun m hm => ?_
    rw [Bool.eq_iff_iff]
    simp only [Bool.and_eq_true, decide_eq_true_eq]
    constructor
    · rintro ⟨h₁, -, h₂⟩
      exact ⟨h₁, (hcover _ (by omega)).mpr h₂⟩
    · rintro ⟨h₁, h₂⟩
      exact ⟨h₁, by omega, (hcover _ (by omega)).mp h₂⟩

end

end RcvLayout

end TCPMsgBasedRcvQueue

end Inet.Tcp
