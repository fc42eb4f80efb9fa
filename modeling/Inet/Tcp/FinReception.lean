import Inet.Library.Run
import Inet.Tcp.RcvSegment

/-!
# When the FIN of the peer is passed

The segments that arrive are pieces of one stream with a FIN behind its last byte, in any order
and with duplicates and overlaps. `rcv_nxt` may pass the FIN only after all of the stream has been
accepted.

The code computes the place of the FIN from the segment as it is after `truncateSegment`. If a
segment with data and FIN reaches beyond the window, the FIN moves to the end of the window.
As long as no such segment is accepted, the FIN is not passed early
(`fin_not_early_of_finFits`).
-/

namespace Inet.Tcp

open SerialNumber (ofPos Near)
open Intervals (cover mem_cover_cons)
open TCPVirtualDataRcvQueue (extractTo_spec extractTo extractAll insertRegion_of_at)

variable {μ : Type}

section

variable {s0 : Uint32} {queue : TCPVirtualDataRcvQueue Region} {is : List (ℕ × ℕ)}
  {first next : ℕ}

/-- The last byte of a region that is left has been in the queue before. -/
theorem Layout.exists_le_end {is' : List (ℕ × ℕ)} {i : ℕ × ℕ} {p : ℕ}
    (hq : Layout s0 (At s0) queue is' p next)
    (hcover : ∀ x, p ≤ x → (x ∈ cover is' ↔ x ∈ cover is)) (hi : i ∈ is') :
    ∃ j ∈ is, i.2 ≤ j.2 := by
  have hproper := hq.proper i hi
  have hbehind := (hq.window i hi).1
  have hmem : i.2 - 1 ∈ cover is :=
    (hcover _ (by omega)).mp (Intervals.mem_cover_of_mem hi (by omega) (by omega))
  obtain ⟨j, hj, -, hhigh⟩ := hmem
  exact ⟨j, hj, by omega⟩

/-- Everything that `rcv_nxt` has passed leaves the queue. -/
theorem TCPVirtualDataRcvQueue.extractAll_spec (hq : Layout s0 (At s0) queue is first next) :
    ∃ queue' is', queue.extractAll (ofPos s0 next) (queue.regionList.length + 1) = .ok queue' ∧
      Layout s0 (At s0) queue' is' next next ∧
      ∀ x, next ≤ x → (x ∈ cover is' ↔ x ∈ cover is) := by
  have hwindow := hq.next_window
  have hends : ∀ i ∈ is, i.2 < next + 2 ^ 31 := by
    intro i hi
    exact (hq.window i hi).2.2.trans_le (Nat.add_le_add_right hwindow.1 _)
  obtain ⟨hle, hext⟩ | ⟨hlt, r, queue', is', hext, -, hq', hcover⟩ :=
    extractTo_spec (fun _ _ h => h)
      (fun _ _ _ hr h₁ h₂ h₃ => Region.split_of_at hr h₁ h₂ h₃) hq le_rfl (by omega) hends
  · obtain rfl : first = next := Nat.le_antisymm hwindow.1 hle
    exact ⟨queue, is, by simp [extractAll, hext], hq, fun _ _ => Iff.rfl⟩
  · -- the second call finds nothing, so two rounds are enough
    have hends' : ∀ i ∈ is', i.2 < next + 2 ^ 31 := fun i hi => (hq'.window i hi).2.2
    obtain ⟨-, hext'⟩ | ⟨hlt', -⟩ :=
      extractTo_spec (fun _ _ h => h)
        (fun _ _ _ hr h₁ h₂ h₃ => Region.split_of_at hr h₁ h₂ h₃) hq' le_rfl (by omega) hends'
    · have hlen : ∃ n, queue.regionList.length = n + 1 := by
        obtain hnext | hin := hq.inOrder
        · omega
        · have := hq.regions.length_eq
          exact Nat.exists_eq_succ_of_ne_zero
            (this ▸ (List.length_pos_of_mem hin).ne')
      obtain ⟨n, hn⟩ := hlen
      exact ⟨queue', is', by simp [extractAll, hn, hext, hext'], hq', hcover⟩
    · omega

/-- The queue holds nothing but a text without any byte, which is left of a segment when the
window is closed after the check of the sequence number. -/
def Blocked (s0 : Uint32) (next : ℕ) (queue : TCPVirtualDataRcvQueue Region) : Prop :=
  queue = ⟨ofPos s0 next, [⟨ofPos s0 next, ofPos s0 next⟩]⟩

theorem TCPVirtualDataRcvQueue.insertRegion_of_ok {queue' : TCPVirtualDataRcvQueue Region}
    {region : Region} (hok : queue.insertRegion region = .ok queue') :
    queue.outOfRange region = false ∧ (do
        let queue ← queue.merge region
        .ok queue.updateRcvNxt) = .ok queue' := by
  unfold insertRegion at hok
  by_cases hrange : queue.outOfRange region = true
  · rw [if_pos hrange] at hok
    cases hok
  · rw [if_neg hrange] at hok
    exact ⟨Bool.eq_false_of_not_eq_true hrange, hok⟩

/-- Inserting a text without any byte leaves the queue as it is, unless the queue is empty. -/
theorem TCPVirtualDataRcvQueue.insertRegion_empty {queue' : TCPVirtualDataRcvQueue Region}
    (hq : Layout s0 (At s0) queue is first next)
    (hok : queue.insertRegion ⟨ofPos s0 next, ofPos s0 next⟩ = .ok queue') :
    queue'.rcvNxt = ofPos s0 next ∧
      (Layout s0 (At s0) queue' is first next ∨ is = [] ∧ Blocked s0 next queue') := by
  obtain ⟨rcvNxt, regionList⟩ := queue
  have hwindow := hq.next_window
  have hnext : rcvNxt = ofPos s0 next := hq.rcvNxt
  have hself : Near 32 next next := near_of_window hwindow hwindow
  have hat : At s0 (⟨ofPos s0 next, ofPos s0 next⟩ : Region) (next, next) := ⟨rfl, rfl⟩
  cases his : is with
  | nil =>
    obtain rfl := List.forall₂_nil_right_iff.mp (his ▸ hq.regions)
    have hmerge : (⟨rcvNxt, []⟩ : TCPVirtualDataRcvQueue Region).insertRegion
        ⟨ofPos s0 next, ofPos s0 next⟩ = .ok (⟨rcvNxt, [⟨ofPos s0 next, ofPos s0 next⟩]⟩ :
          TCPVirtualDataRcvQueue Region).updateRcvNxt := rfl
    rw [hmerge, hnext, updateRcvNxt_cons hat hself, if_pos le_rfl] at hok
    cases hok
    exact ⟨rfl, .inr ⟨rfl, rfl⟩⟩
  | cons f rest =>
    subst his
    obtain ⟨front, l, hf, -, rfl⟩ := List.forall₂_cons_right_iff.mp hq.regions
    by_cases hle : f.1 ≤ next
    · obtain rfl := hq.ahead f List.mem_cons_self hle
      have hrest : ∀ j ∈ rest, next < j.1 := (List.pairwise_cons.mp hq.ascending).1
      have hproper : ∀ j ∈ rest, j.1 ≤ j.2 := fun j hj =>
        hq.proper.le j (List.mem_cons_of_mem _ hj)
      have hins : Intervals.insert ((first, next) :: rest) (next, next) =
          (first, next) :: rest := by
        have htake := @Intervals.insert_touching _ _ [] (next, next) (first, next) rest
          le_rfl ⟨le_rfl, hwindow.1⟩ hproper fun j hj => ⟨hrest j hj, hrest j hj⟩
        have hhull : Intervals.hull (next, next) (first, next) = (first, next) :=
          Prod.ext (min_eq_right hwindow.1) (max_self next)
        rw [hhull] at htake
        exact htake.trans (@Intervals.insert_between _ _ [] (first, next) rest hwindow.1
          (by simp) hproper hrest)
      obtain ⟨l', r, i, hmerge, hmerged, -⟩ := merge_spec (fun _ _ h => h) (fun _ _ h => h) hq
        (fun r s i j hi hr hs hj => Region.merge_of_at hs hr hj (hq.window i hi)) hat
        ⟨hwindow.1, le_rfl, hwindow.2⟩
      rw [hins] at hmerged
      have hl' : List.Forall₂ (At s0) l' ((first, next) :: rest) :=
        hmerged.regions.imp fun _ _ h => h.elim id id
      obtain ⟨front', l'', hfront, hl'', rfl⟩ := List.forall₂_cons_right_iff.mp hl'
      obtain ⟨-, hok⟩ := insertRegion_of_ok hok
      rw [hmerge, ok_bind, hnext, updateRcvNxt_cons hfront
        (near_of_window hwindow ⟨le_rfl, hwindow.1.trans_lt hwindow.2⟩), if_pos hle] at hok
      cases hok
      exact ⟨rfl, .inl { hq with regions := hl', rcvNxt := rfl }⟩
    · -- the check of the debug build finds that the text is not in front of the first region
      have hrange := (insertRegion_of_ok hok).1
      have hfw := hq.window f List.mem_cons_self
      have hmin : min f.1 next = next := min_eq_right (not_le.mp hle).le
      obtain ⟨back, hback⟩ : ∃ back, (front :: l).getLast? = some back :=
        ⟨_, List.getLast?_eq_some_getLast (List.cons_ne_nil front l)⟩
      have hbegin : seqGE (seqMin (RegionClass.getBegin front) (ofPos s0 next))
          (ofPos s0 next) = true := by
        rw [hf.1, seqMin_ofPos (near_of_window hfw.fst hwindow), hmin, seqGE_ofPos hself]
        simp
      simp only [outOfRange, List.head?_cons, hback, hat.1, hat.2, hbegin, Bool.or_true,
        Bool.true_or] at hrange
      cases hrange

/-- A queue that holds a text without any byte does not take another one. -/
theorem Blocked.insertRegion_eq {a b : ℕ} (h : Blocked s0 next queue) (hle : next ≤ a)
    (hlt : a < next + 2 ^ 31) :
    ∃ e, queue.insertRegion ⟨ofPos s0 a, ofPos s0 b⟩ = .error e := by
  obtain rfl := h
  have hnear : Near 32 next a := near_of_window ⟨le_rfl, by omega⟩ ⟨hle, hlt⟩
  have hrange : (⟨ofPos s0 next, [⟨ofPos s0 next, ofPos s0 next⟩]⟩ :
      TCPVirtualDataRcvQueue Region).outOfRange ⟨ofPos s0 a, ofPos s0 b⟩ = true := by
    have hself : Near 32 next next := near_of_window ⟨le_rfl, by omega⟩ ⟨le_rfl, by omega⟩
    show (seqGE (seqMin (ofPos s0 next) (ofPos s0 a)) (ofPos s0 next) || _ || _ || _) = true
    rw [seqMin_ofPos hnear, min_eq_left hle, seqGE_ofPos hself]
    simp
  exact ⟨_, if_pos hrange⟩

end

/-- The segment is the piece of the stream that begins at position `o`. The FIN is at position
`F`. -/
structure IsCut (s0 : Uint32) (F : ℕ) (tcpseg : TCPSegment μ) (o : ℕ) : Prop where
  seq : tcpseg.sequenceNo = ofPos s0 o
  bytes : tcpseg.byteArray.length = 0 ∨ tcpseg.byteArray.length = tcpseg.payloadLength
  le : 0 < tcpseg.payloadLength → o + tcpseg.payloadLength ≤ F
  fin : tcpseg.finBit = true → o + tcpseg.payloadLength = F

/-- The receive side of the connection: all that `rcv_nxt` has passed and all that is stored has
been accepted, and the position of a FIN that is kept for later is right. Only the FIN puts
`rcv_nxt` ahead of the receive queue. -/
structure Receives (s0 : Uint32) (F : ℕ) (conn : TCPConnection) (next : ℕ)
    (accepted : List (ℕ × ℕ)) : Prop where
  queue : ∃ is first qnext, (Layout s0 (At s0) conn.receiveQueue is first qnext ∨
      is = [] ∧ Blocked s0 qnext conn.receiveQueue) ∧
    (∀ x, x < qnext ∨ x ∈ Intervals.cover is → x ∈ Intervals.cover accepted ∧ x < F) ∧
    (next = qnext ∨ next = F + 1 ∧ qnext = F)
  rcvNxt : conn.state.rcvNxt = ofPos s0 next
  fin : conn.state.finRcvd = true → conn.state.rcvFinSeq = ofPos s0 F ∧ F < next + 2 ^ 31

variable {s0 : Uint32} {F o next : ℕ} {conn conn' : TCPConnection} {accepted : List (ℕ × ℕ)}
  {tcpseg : TCPSegment μ} {event event' : TCPEventCode} {p : Processed μ} {a b start : ℕ}

theorem Receives.congr (h : Receives s0 F conn next accepted)
    (queue : conn'.receiveQueue = conn.receiveQueue)
    (rcvNxt : conn'.state.rcvNxt = conn.state.rcvNxt)
    (finRcvd : conn'.state.finRcvd = conn.state.finRcvd)
    (rcvFinSeq : conn'.state.rcvFinSeq = conn.state.rcvFinSeq) :
    Receives s0 F conn' next accepted where
  queue := queue.symm ▸ h.queue
  rcvNxt := rcvNxt.trans h.rcvNxt
  fin := by
    rw [finRcvd, rcvFinSeq]
    exact h.fin

/-- `rcv_nxt` has passed the FIN or is at most there. -/
theorem Receives.next_le (h : Receives s0 F conn next accepted) : next ≤ F ∨ next = F + 1 := by
  obtain ⟨is, first, qnext, -, hstored, rfl | ⟨rfl, -⟩⟩ := h.queue
  · left
    by_contra hlt
    have := (hstored F (.inl (by omega))).2
    omega
  · exact .inr rfl

theorem Receives.all_accepted (h : Receives s0 F conn next accepted) (hnext : F ≤ next) :
    ∀ x < F, x ∈ cover accepted := by
  intro x hx
  obtain ⟨is, first, qnext, -, hstored, rfl | ⟨-, rfl⟩⟩ := h.queue
  · exact (hstored x (.inl (by omega))).1
  · exact (hstored x (.inl hx)).1

/-- A FIN at position `F` is passed when `rcv_nxt` is there. -/
theorem Receives.passFin (h : Receives s0 F conn F accepted)
    (queue : conn'.receiveQueue = conn.receiveQueue)
    (rcvNxt : conn'.state.rcvNxt = ofPos s0 (F + 1))
    (finRcvd : conn'.state.finRcvd = conn.state.finRcvd)
    (rcvFinSeq : conn'.state.rcvFinSeq = conn.state.rcvFinSeq) :
    Receives s0 F conn' (F + 1) accepted where
  queue := by
    obtain ⟨is, first, qnext, hq, hstored, hnext⟩ := h.queue
    exact ⟨is, first, qnext, queue.symm ▸ hq, hstored, .inr ⟨rfl, by omega⟩⟩
  rcvNxt := rcvNxt
  fin := by
    rw [finRcvd, rcvFinSeq]
    intro hrcvd
    exact ⟨(h.fin hrcvd).1, by omega⟩

/-- The result of a step: `rcv_nxt` is now at `next'`, and the event of a FIN is only returned
when it has passed the FIN. -/
structure Advances (s0 : Uint32) (F : ℕ) (event : TCPEventCode) (conn : TCPConnection)
    (next next' : ℕ) (accepted : List (ℕ × ℕ)) : Prop where
  receives : Receives s0 F conn next' accepted
  le : next ≤ next'
  near : next' ≤ next + 2 ^ 31
  event : event = .RCV_FIN ∨ event = .RCV_FIN_ACK → next' = F + 1

theorem Receives.advances (h : Receives s0 F conn next accepted)
    (hevent : event ≠ .RCV_FIN ∧ event ≠ .RCV_FIN_ACK) :
    Advances s0 F event conn next next accepted := by
  refine ⟨h, le_rfl, Nat.le_add_right _ _, ?_⟩
  rintro (hfin | hfin)
  · exact absurd hfin hevent.1
  · exact absurd hfin hevent.2

/-- The eighth step, with a FIN that is in its place. -/
theorem processFin_spec (h : Advances s0 F event conn start next accepted)
    (hfin : tcpseg.finBit = true → tcpseg.endSeq = ofPos s0 F ∧ F < start + 2 ^ 31) :
    ∃ next', Advances s0 F (conn.processFin tcpseg event).1 (conn.processFin tcpseg event).2
      start next' accepted := by
  unfold TCPConnection.processFin
  by_cases hbit : tcpseg.finBit = true
  · obtain ⟨hseq, hF⟩ := hfin hbit
    have hle := h.le
    have hnext := h.receives.next_le
    have hnear : Near 32 next F := ⟨by omega, by omega⟩
    rw [if_pos hbit, hseq, h.receives.rcvNxt]
    by_cases heq : next = F
    · subst heq
      rw [if_pos rfl]
      refine ⟨next + 1, h.receives.passFin rfl ?_ rfl rfl, by omega, by omega, fun _ => rfl⟩
      exact (SerialNumber.ofPos_succ s0 next).symm
    · rw [if_neg (mt (ofPos_eq_iff hnear).mp heq)]
      exact ⟨next, ⟨h.receives.queue, h.receives.rcvNxt, fun _ => ⟨rfl, by omega⟩⟩, hle, h.near,
        h.event⟩
  · rw [if_neg hbit]
    exact ⟨next, h⟩

theorem passStoredFin_spec (h : Receives s0 F conn next accepted)
    (hevent : event ≠ .RCV_FIN ∧ event ≠ .RCV_FIN_ACK) (hle : start ≤ next)
    (hlt : next < start + 2 ^ 31) :
    ∃ next', Advances s0 F (conn.passStoredFin event).1 (conn.passStoredFin event).2 start next'
      accepted := by
  unfold TCPConnection.passStoredFin
  by_cases hstored : conn.state.finRcvd = true ∧ conn.state.rcvNxt = conn.state.rcvFinSeq
  · obtain ⟨hrcvd, heq⟩ := hstored
    obtain ⟨hseq, hF⟩ := h.fin hrcvd
    have hnext := h.next_le
    rw [h.rcvNxt, hseq, ofPos_eq_iff ⟨by omega, by omega⟩] at heq
    subst heq
    rw [if_pos (by simp [hrcvd, h.rcvNxt, hseq])]
    refine ⟨next + 1, h.passFin rfl ?_ rfl rfl, by omega, by omega, fun _ => rfl⟩
    exact (congrArg (· + 1) hseq).trans (SerialNumber.ofPos_succ s0 next).symm
  · rw [if_neg (by simpa using hstored)]
    refine ⟨next, h, hle, by omega, ?_⟩
    rintro (hfin | hfin)
    · exact absurd hfin hevent.1
    · exact absurd hfin hevent.2

theorem processReadRequest_spec (h : Receives s0 F conn next accepted) (hnext : next ≤ F) :
    ∃ conn', conn.processReadRequest = .ok conn' ∧ Receives s0 F conn' next accepted := by
  unfold TCPConnection.processReadRequest
  rw [h.rcvNxt]
  obtain ⟨is, first, qnext, hq | ⟨-, hblocked⟩, hstored, hcase⟩ := h.queue
  · obtain rfl : next = qnext := by omega
    obtain ⟨queue', is', hext, hq', hcover⟩ := TCPVirtualDataRcvQueue.extractAll_spec hq
    refine ⟨{ conn with receiveQueue := queue' }, by rw [hext]; rfl,
      ⟨is', next, next, .inl hq', ?_, .inl rfl⟩, h.rcvNxt, h.fin⟩
    rintro x (hx | hx)
    · exact hstored x (.inl hx)
    · have hge : next ≤ x := by
        obtain ⟨i, hi, hix, -⟩ := hx
        exact (hq'.window i hi).1.trans hix
      exact hstored x (.inr ((hcover x hge).mp hx))
  · obtain rfl : next = qnext := by omega
    refine ⟨conn, ?_, h⟩
    have hself : seqLE (ofPos s0 next) (ofPos s0 next) = true := by simp [seqLE]
    have hstop : conn.receiveQueue.extractTo (ofPos s0 next) = .ok (none, conn.receiveQueue) := by
      rw [hblocked, extractTo, assert_of hself, ok_bind]
      exact if_pos hself
    rw [extractAll, hstop]
    rfl

/-- Behind the FIN the data cannot be read: `rcv_nxt` is not a position of the queue. -/
theorem processReadRequest_behind_fin (h : Receives s0 F conn (F + 1) accepted) :
    ∃ e, conn.processReadRequest = .error e := by
  obtain ⟨is, first, qnext, hq, hstored, hcase⟩ := h.queue
  have hqueue : conn.receiveQueue.rcvNxt = ofPos s0 qnext := by
    obtain hq | ⟨-, hblocked⟩ := hq
    · exact hq.rcvNxt
    · rw [hblocked]
  have hF : qnext = F := by
    obtain hpassed | ⟨-, hF⟩ := hcase
    · exact absurd (hstored F (.inl (by omega))).2 (lt_irrefl F)
    · exact hF
  have hbehind : seqLE conn.state.rcvNxt conn.receiveQueue.rcvNxt = false := by
    have hnear : Near 32 (F + 1) F := ⟨by omega, by omega⟩
    rw [h.rcvNxt, hqueue, hF, seqLE_ofPos hnear]
    simp
  refine ⟨.assertion "seqLE(seq, rcv_nxt)", ?_⟩
  rw [TCPConnection.processReadRequest, extractAll, extractTo, hbehind]
  rfl

theorem forwardData_spec (h : Receives s0 F conn next accepted) (hnext : next ≤ F) :
    ∃ conn', conn.forwardData = .ok conn' ∧ Receives s0 F conn' next accepted := by
  unfold TCPConnection.forwardData
  by_cases hnotify : conn.useDataNotification = true
  · exact ⟨conn, if_pos hnotify, h⟩
  · rw [if_neg hnotify]
    exact processReadRequest_spec h hnext

theorem Receives.noteOutOfOrder (h : Receives s0 F conn next accepted) (used : Uint32) :
    Receives s0 F (conn.noteOutOfOrder tcpseg used) next accepted := by
  unfold TCPConnection.noteOutOfOrder
  split_ifs
  · exact h.congr rfl rfl rfl rfl
  · exact h

theorem insertBytesFromSegment_eq {queue : TCPVirtualDataRcvQueue Region}
    (hseq : tcpseg.sequenceNo = ofPos s0 a) (hend : tcpseg.endSeq = ofPos s0 b) :
    queue.insertBytesFromSegment tcpseg = queue.insertRegion ⟨ofPos s0 a, ofPos s0 b⟩ := by
  rw [← hseq, ← hend]
  rfl

section

variable (h : Receives s0 F conn next accepted)

include h

/-- The seventh step, for a text `[a, b)` that lies behind `rcv_nxt`. -/
theorem insertText_of_lt
    (hevent : event ≠ .RCV_FIN ∧ event ≠ .RCV_FIN_ACK) (hseq : tcpseg.sequenceNo = ofPos s0 a)
    (hend : tcpseg.endSeq = ofPos s0 b) (hab : a < b) (hnext : next ≤ a) (hF : b ≤ F)
    (hspace : b + (conn.state.rcvNxt - conn.receiveQueue.getFirstSeqNo).toNat < next + 2 ^ 31)
    (hok : conn.insertText tcpseg event = .ok (event', conn')) :
    ∃ next', Advances s0 F event' conn' next next' ((a, b) :: accepted) := by
  obtain ⟨queue₁, hins, hok⟩ := bind_eq_ok.mp hok
  have hregion : At s0 (TCPVirtualDataRcvQueue.createRegionFromSegment tcpseg) (a, b) :=
    ⟨hseq, hend⟩
  obtain ⟨is, first, qnext, hq | ⟨-, hblocked⟩, hstored, hcase⟩ := h.queue
  · obtain rfl : next = qnext := by omega
    have hwindow := hq.next_window
    have hbehind : (conn.state.rcvNxt - conn.receiveQueue.getFirstSeqNo).toNat = next - first := by
      rw [h.rcvNxt, hq.getFirstSeqNo]
      exact SerialNumber.toNat_ofPos_sub hwindow.1 (by omega)
    rw [hbehind] at hspace
    obtain ⟨queue', next', -, hins', hq', hle, -⟩ :=
      insertRegion_of_at hq hregion
        ⟨hwindow.1.trans hnext, hab.le, by simp only; omega⟩ hab
    obtain rfl : queue₁ = queue' := Except.ok.inj (hins.symm.trans hins')
    have hwindow' := hq'.next_window
    have hcover : ∀ x, x ∈ cover (Intervals.insert is (a, b)) →
        x ∈ cover ((a, b) :: accepted) ∧ x < F := by
      intro x hx
      rw [mem_cover_cons]
      obtain hold | hnew := Intervals.mem_cover_insert.mp hx
      · exact ⟨.inr (hstored x (.inr hold)).1, (hstored x (.inr hold)).2⟩
      · exact ⟨.inl hnew, hnew.2.trans_le hF⟩
    have hstored' : ∀ x, x < next' ∨ x ∈ cover (Intervals.insert is (a, b)) →
        x ∈ cover ((a, b) :: accepted) ∧ x < F := by
      rintro x (hx | hx)
      · by_cases hfirst : first ≤ x
        · exact hcover x (hq'.mem_cover hfirst hx)
        · obtain ⟨hmem, hlt⟩ := hstored x (.inl (by omega))
          exact ⟨mem_cover_cons.mpr (.inr hmem), hlt⟩
      · exact hcover x hx
    have hnextF : next' ≤ F := by
      by_contra hlt
      have := (hstored' F (.inl (by omega))).2
      omega
    let conn₁ : TCPConnection := { conn with
      receiveQueue := queue₁, state := { conn.state with rcvNxt := queue₁.rcvNxt } }
    have h₁ : Receives s0 F conn₁ next' ((a, b) :: accepted) := by
      refine ⟨⟨_, first, next', .inl hq', hstored', .inl rfl⟩, hq'.rcvNxt, fun hrcvd => ?_⟩
      obtain ⟨hfinseq, hF'⟩ := h.fin hrcvd
      exact ⟨hfinseq, by omega⟩
    by_cases hmoved : conn.state.rcvNxt = queue₁.rcvNxt
    · have hok : Except.ok (event, conn₁.noteOutOfOrder tcpseg conn.usedRcvBuffer) =
          Except.ok (event', conn') := (if_pos hmoved).symm.trans hok
      cases hok
      have h₂ : Receives s0 F (conn₁.noteOutOfOrder tcpseg conn.usedRcvBuffer) next'
          ((a, b) :: accepted) := h₁.noteOutOfOrder conn.usedRcvBuffer
      have hadv := h₂.advances hevent
      exact ⟨next', hadv.receives, hle, by omega, hadv.event⟩
    · obtain ⟨conn₂, hforward, h₂⟩ := forwardData_spec h₁ hnextF
      have hok : (do
          let conn ← conn₁.forwardData
          .ok (conn.passStoredFin event)) = Except.ok (event', conn') :=
        (if_neg hmoved).symm.trans hok
      rw [hforward, ok_bind] at hok
      obtain ⟨next'', hadv⟩ := passStoredFin_spec h₂ hevent hle (by omega)
      rw [Except.ok.inj hok] at hadv
      exact ⟨next'', hadv⟩
  · obtain rfl : next = qnext := by omega
    obtain ⟨e, herr⟩ := @Blocked.insertRegion_eq _ _ _ a b hblocked hnext (by omega)
    rw [insertBytesFromSegment_eq hseq hend, herr] at hins
    cases hins

theorem Receives.accept (i : ℕ × ℕ) : Receives s0 F conn next (i :: accepted) where
  queue := by
    obtain ⟨is, first, qnext, hq, hstored, hcase⟩ := h.queue
    exact ⟨is, first, qnext, hq, fun x hx =>
      ⟨mem_cover_cons.mpr (.inr (hstored x hx).1), (hstored x hx).2⟩, hcase⟩
  rcvNxt := h.rcvNxt
  fin := h.fin

/-- The seventh step, for a text without any byte. -/
theorem insertText_empty (hevent : event ≠ .RCV_FIN ∧ event ≠ .RCV_FIN_ACK)
    (hseq : tcpseg.sequenceNo = ofPos s0 next) (hend : tcpseg.endSeq = ofPos s0 next)
    (hF : next ≤ F) (hok : conn.insertText tcpseg event = .ok (event', conn')) :
    Advances s0 F event' conn' next next accepted := by
  obtain ⟨queue₁, hins, hok⟩ := bind_eq_ok.mp hok
  rw [insertBytesFromSegment_eq hseq hend] at hins
  obtain ⟨is, first, qnext, hq | ⟨-, hblocked⟩, hstored, hcase⟩ := h.queue
  · obtain rfl : next = qnext := by omega
    obtain ⟨hnext, hq'⟩ := TCPVirtualDataRcvQueue.insertRegion_empty hq hins
    let conn₁ : TCPConnection := { conn with
      receiveQueue := queue₁, state := { conn.state with rcvNxt := queue₁.rcvNxt } }
    have h₁ : Receives s0 F conn₁ next accepted :=
      ⟨⟨is, first, next, hq', hstored, .inl rfl⟩, hnext, h.fin⟩
    have hok : Except.ok (event, conn₁.noteOutOfOrder tcpseg conn.usedRcvBuffer) =
        Except.ok (event', conn') := (if_pos (h.rcvNxt.trans hnext.symm)).symm.trans hok
    cases hok
    exact (h₁.noteOutOfOrder _).advances hevent
  · obtain rfl : next = qnext := by omega
    obtain ⟨e, herr⟩ := @Blocked.insertRegion_eq _ _ _ next next hblocked le_rfl (by omega)
    rw [herr] at hins
    cases hins

theorem insertText_spec
    (hevent : event ≠ .RCV_FIN ∧ event ≠ .RCV_FIN_ACK) (hseq : tcpseg.sequenceNo = ofPos s0 a)
    (hend : tcpseg.endSeq = ofPos s0 b) (hab : a < b ∨ a = b ∧ a = next) (hnext : next ≤ a)
    (hF : b ≤ F)
    (hspace : b + (conn.state.rcvNxt - conn.receiveQueue.getFirstSeqNo).toNat < next + 2 ^ 31)
    (hok : conn.insertText tcpseg event = .ok (event', conn')) :
    ∃ next', Advances s0 F event' conn' next next' ((a, b) :: accepted) := by
  obtain hlt | ⟨rfl, rfl⟩ := hab
  · exact insertText_of_lt h hevent hseq hend hlt hnext hF hspace hok
  · exact ⟨a, insertText_empty (h.accept (a, a)) hevent hseq hend hF hok⟩

theorem Receives.noteAdvance (oldRcvNxt : Uint32) :
    Receives s0 F (conn.noteAdvance tcpseg oldRcvNxt) next accepted := by
  unfold TCPConnection.noteAdvance
  split_ifs
  · exact h.congr rfl rfl rfl rfl
  · exact h

end

theorem deferredClose_eq (conn : TCPConnection) (event : TCPEventCode) :
    conn.deferredClose event = .CLOSE ∨ conn.deferredClose event = event := by
  unfold TCPConnection.deferredClose
  split_ifs
  · exact .inl rfl
  · exact .inr rfl

theorem processFinAndFinish_spec (h : Advances s0 F event conn start next accepted)
    (hfin : tcpseg.finBit = true → tcpseg.endSeq = ofPos s0 F ∧ F < start + 2 ^ 31)
    (oldRcvNxt : Uint32) (atEnd : SendVariables) (inserted : Bool) :
    ∃ next', Advances s0 F (conn.processFinAndFinish tcpseg oldRcvNxt atEnd event inserted).event
      (conn.processFinAndFinish tcpseg oldRcvNxt atEnd event inserted).conn start next'
      accepted := by
  obtain ⟨next', hadv⟩ := processFin_spec h hfin
  refine ⟨next', (hadv.receives.noteAdvance oldRcvNxt).congr rfl rfl rfl rfl, hadv.le, hadv.near,
    fun hevent => hadv.event ?_⟩
  let conn' := ((conn.processFin tcpseg event).2.noteAdvance tcpseg oldRcvNxt).withSendVariables
    atEnd
  have hevent : conn'.deferredClose (conn.processFin tcpseg event).1 = .RCV_FIN ∨
      conn'.deferredClose (conn.processFin tcpseg event).1 = .RCV_FIN_ACK := hevent
  obtain hclose | hsame := deferredClose_eq conn' (conn.processFin tcpseg event).1
  · rw [hclose] at hevent
    simp at hevent
  · rwa [hsame] at hevent

/-- The range of positions of a text that begins at `rcv_nxt` or behind it. -/
def textRange (next : ℕ) (rcvNxt : Uint32) (tcpseg : TCPSegment μ) : ℕ × ℕ :=
  (next + (tcpseg.sequenceNo - rcvNxt).toNat,
    next + (tcpseg.sequenceNo - rcvNxt).toNat + tcpseg.payloadLength)

/-- A segment with data and FIN ends within the window `wnd`, or the part within the window does
not fit into the receive queue. -/
def FinFits (conn : TCPConnection) (tcpseg : TCPSegment μ) (wnd : Uint32) : Prop :=
  tcpseg.finBit = true → 0 < tcpseg.payloadLength →
    seqLE tcpseg.endSeq (conn.state.rcvNxt + wnd) = true ∨ seqLE (conn.state.rcvNxt + wnd)
        (conn.receiveQueue.getFirstSeqNo + conn.state.maxRcvBuffer) = false

theorem IsCut.endSeq_fin (hcut : IsCut s0 F tcpseg o) (hfin : tcpseg.finBit = true) :
    tcpseg.endSeq = ofPos s0 F := by
  rw [TCPSegment.endSeq_eq hcut.seq rfl, hcut.fin hfin]

theorem noteProbe_eq (conn : TCPConnection) (tcpseg : TCPSegment μ) :
    (conn.noteProbe tcpseg).receiveQueue = conn.receiveQueue ∧
      (conn.noteProbe tcpseg).state.rcvNxt = conn.state.rcvNxt ∧
      (conn.noteProbe tcpseg).state.rcvWnd = conn.state.rcvWnd ∧
      (conn.noteProbe tcpseg).state.maxRcvBuffer = conn.state.maxRcvBuffer ∧
      (conn.noteProbe tcpseg).state.finRcvd = conn.state.finRcvd ∧
      (conn.noteProbe tcpseg).state.rcvFinSeq = conn.state.rcvFinSeq := by
  unfold TCPConnection.noteProbe
  split_ifs <;> exact ⟨rfl, rfl, rfl, rfl, rfl, rfl⟩

/-- A segment that can be trimmed has a common part with the window. -/
theorem meets_of_truncateSegment {hi : ℕ} {text : TCPSegment μ}
    (hseq : tcpseg.sequenceNo = ofPos s0 o) (hnext : next ≤ hi) (hlow : hi < o + 2 ^ 31)
    (hhigh : o + tcpseg.payloadLength < next + 2 ^ 31)
    (hok : tcpseg.truncateSegment (ofPos s0 next) (ofPos s0 hi) = .ok text) :
    TCPSegment.Meets o tcpseg.payloadLength next hi := by
  obtain ⟨_, hpos, hok⟩ := bind_eq_ok.mp hok
  have hpos : tcpseg.payloadLength > 0 := of_decide_eq_true (assert_eq_ok.mp hpos)
  by_cases hcommon : (seqLess tcpseg.sequenceNo (ofPos s0 hi) &&
      seqLess (ofPos s0 next) tcpseg.endSeq) = true
  · have near : ∀ {p q : ℕ}, p < q + 2 ^ 31 → q < p + 2 ^ 31 → Near 32 p q :=
      fun hp hq => ⟨hp, hq⟩
    rw [TCPSegment.endSeq_eq hseq rfl, hseq, Bool.and_eq_true] at hcommon
    obtain ⟨hbelow, habove⟩ := hcommon
    rw [seqLess_ofPos (near (by omega) (by omega)), decide_eq_true_eq] at hbelow habove
    exact ⟨hpos, hbelow, habove, hnext, hlow, hhigh⟩
  · rw [Bool.eq_false_of_not_eq_true hcommon] at hok
    cases hok

/-- The part of a segment within the window. -/
theorem truncateSegment_cut {hi : ℕ} (hcut : IsCut s0 F tcpseg o)
    (hm : TCPSegment.Meets o tcpseg.payloadLength next hi) :
    ∃ text, tcpseg.truncateSegment (ofPos s0 next) (ofPos s0 hi) = .ok text ∧
      text.sequenceNo = ofPos s0 (max o next) ∧
      text.payloadLength = min (o + tcpseg.payloadLength) hi - max o next ∧
      text.endSeq = ofPos s0 (min (o + tcpseg.payloadLength) hi) ∧
      text.finBit = tcpseg.finBit := by
  obtain ⟨byteArray, htrunc⟩ := TCPSegment.truncateSegment_spec hcut.seq rfl hcut.bytes hm
  obtain ⟨-, hseq_lt, hlt_end, hrange, -, -⟩ := hm
  refine ⟨_, htrunc, rfl, rfl, ?_, rfl⟩
  refine (TCPSegment.endSeq_eq rfl rfl).trans (congrArg (ofPos s0) ?_)
  show max o next + (min (o + tcpseg.payloadLength) hi - max o next) = _
  omega

/-- The ranges of accepted text after a segment. -/
def Processed.acceptedRanges (p : Processed μ) (next : ℕ) (rcvNxt : Uint32)
    (accepted : List (ℕ × ℕ)) : List (ℕ × ℕ) :=
  if p.accepted then textRange next rcvNxt p.tcpseg :: accepted else accepted

/-- Everything that the step compares lies within half of the sequence space. -/
structure InSpace (conn : TCPConnection) (next o n : ℕ) (wnd : Uint32) : Prop where
  window : (conn.state.rcvNxt - conn.receiveQueue.getFirstSeqNo).toNat + wnd.toNat < 2 ^ 31
  low : next + wnd.toNat < o + 2 ^ 31
  high : o + n + (conn.state.rcvNxt - conn.receiveQueue.getFirstSeqNo).toNat < next + 2 ^ 31

theorem processText_spec (h : Receives s0 F conn next accepted) (hcut : IsCut s0 F tcpseg o)
    (hevent : event ≠ .RCV_FIN ∧ event ≠ .RCV_FIN_ACK)
    (hspace : InSpace conn next o tcpseg.payloadLength conn.state.rcvWnd)
    (hfits : conn.takesText = true → FinFits conn tcpseg conn.state.rcvWnd)
    (atEnd : SendVariables) (hok : conn.processText tcpseg atEnd event = .ok p) :
    ∃ next', Advances s0 F p.event p.conn next next'
      (p.acceptedRanges next conn.state.rcvNxt accepted) := by
  obtain ⟨hwindow, hlow, hhigh⟩ := hspace
  unfold TCPConnection.processText at hok
  by_cases htext : conn.takesText = true ∧ tcpseg.payloadLength > 0
  · have hF := hcut.le htext.2
    obtain ⟨hqueue, hrcv, hwnd, hmax, hfinRcvd, hfinSeq⟩ := noteProbe_eq conn tcpseg
    have h₁ : Receives s0 F (conn.noteProbe tcpseg) next accepted :=
      h.congr hqueue hrcv hfinRcvd hfinSeq
    have hhi : conn.state.rcvNxt + conn.state.rcvWnd =
        ofPos s0 (next + conn.state.rcvWnd.toNat) := by
      rw [h.rcvNxt, SerialNumber.ofPos_add, BitVec.ofNat_toNat, BitVec.setWidth_eq]
    rw [if_pos htext] at hok
    simp only [hrcv, hwnd, hhi] at hok
    rw [h.rcvNxt] at hok ⊢
    obtain ⟨text, htrunc, hok⟩ := bind_eq_ok.mp hok
    have hm := meets_of_truncateSegment hcut.seq (Nat.le_add_right _ _) hlow (by omega) htrunc
    obtain ⟨text', htrunc', hseq, hlen, hend, hbit⟩ := truncateSegment_cut hcut hm
    obtain rfl : text = text' := Except.ok.inj (htrunc.symm.trans htrunc')
    obtain ⟨-, hseq_lt, hlt_end, hrange, -, -⟩ := hm
    by_cases hfree : (conn.noteProbe tcpseg).hasEnoughSpaceForSegmentInReceiveQueue text = true
    · rw [if_pos hfree] at hok
      obtain ⟨⟨event', conn'⟩, hins, hok⟩ := bind_eq_ok.mp hok
      cases hok
      have hspace : min (o + tcpseg.payloadLength) (next + conn.state.rcvWnd.toNat) +
          ((conn.noteProbe tcpseg).state.rcvNxt -
            (conn.noteProbe tcpseg).receiveQueue.getFirstSeqNo).toNat < next + 2 ^ 31 := by
        rw [hrcv, hqueue]
        omega
      obtain ⟨next', hadv⟩ := insertText_spec h₁ hevent hseq hend (by omega)
        (le_max_right _ _) (by omega) hspace hins
      -- the FIN is not moved by the trimming
      have hfin : text.finBit = true → text.endSeq = ofPos s0 F ∧ F < next + 2 ^ 31 := by
        intro hfin
        have hoF := hcut.fin (hbit ▸ hfin)
        refine ⟨?_, by omega⟩
        obtain hle | hfull := hfits htext.1 (hbit ▸ hfin) htext.2
        · have hnear : Near 32 (o + tcpseg.payloadLength) (next + conn.state.rcvWnd.toNat) :=
            ⟨by omega, by omega⟩
          rw [TCPSegment.endSeq_eq hcut.seq rfl, hhi, seqLE_ofPos hnear, decide_eq_true_eq] at hle
          rw [hend, min_eq_left hle, hoF]
        · by_cases hle : o + tcpseg.payloadLength ≤ next + conn.state.rcvWnd.toNat
          · rw [hend, min_eq_left hle, hoF]
          · rw [TCPConnection.hasEnoughSpaceForSegmentInReceiveQueue, hqueue, hmax, hend,
              min_eq_right (by omega), ← hhi, hfull, Bool.and_false] at hfree
            cases hfree
      obtain ⟨next'', hadv'⟩ := processFinAndFinish_spec hadv hfin (ofPos s0 next) atEnd true
      have hrange : textRange next (ofPos s0 next) text =
          (max o next, min (o + tcpseg.payloadLength) (next + conn.state.rcvWnd.toNat)) := by
        rw [textRange, hseq, hlen, SerialNumber.toNat_ofPos_sub (le_max_right o next) (by omega)]
        refine Prod.ext ?_ ?_ <;> simp only <;> omega
      rw [← hrange] at hadv'
      exact ⟨next'', hadv'⟩
    · rw [if_neg hfree] at hok
      cases hok
      exact ⟨next, h₁.advances (by simp)⟩
  · rw [if_neg htext] at hok
    cases hok
    exact processFinAndFinish_spec (h.advances hevent)
      (fun hfin => ⟨hcut.endSeq_fin hfin, by have := hcut.fin hfin; omega⟩) conn.state.rcvNxt atEnd
      false

theorem ackEvent_ne (conn : TCPConnection) :
    conn.ackEvent ≠ .RCV_FIN ∧ conn.ackEvent ≠ .RCV_FIN_ACK := by
  unfold TCPConnection.ackEvent
  split_ifs <;> simp

/-- The segment passes the checks in front of the segment text. -/
def TCPConnection.reachesText (conn : TCPConnection) (tcpseg : TCPSegment μ)
    (env : Surroundings) : Bool :=
  !env.pawsRejects && (conn.withSendVariables env.atCheck).isSegmentAcceptable tcpseg &&
    !tcpseg.rstBit && !tcpseg.synBit && tcpseg.ackBit && env.ackOk && conn.takesText

theorem processAck_spec {env : Surroundings} (h : Receives s0 F conn next accepted)
    (hcut : IsCut s0 F tcpseg o)
    (hspace : InSpace conn next o tcpseg.payloadLength env.afterAck.rcvWnd)
    (hfits : env.ackOk = true → conn.takesText = true → FinFits conn tcpseg env.afterAck.rcvWnd)
    (hok : conn.processAck tcpseg env = .ok p) :
    ∃ next', Advances s0 F p.event p.conn next next'
      (p.acceptedRanges next conn.state.rcvNxt accepted) := by
  have h₁ : Receives s0 F (conn.withSendVariables env.afterAck) next accepted :=
    h.congr rfl rfl rfl rfl
  unfold TCPConnection.processAck at hok
  split_ifs at hok with hsyn hack
  · cases hok
    exact ⟨next, h.advances (by simp)⟩
  · cases hok
    exact ⟨next, h₁.advances (by simp)⟩
  · simp only [] at hok
    split_ifs at hok with hlast
    · cases hok
      exact ⟨next, h₁.advances (by simp)⟩
    · have hfits' : conn.takesText = true → FinFits conn tcpseg env.afterAck.rcvWnd := by
        intro htext
        have hstate : conn.fsm ≠ .TIME_WAIT := by
          intro hstate
          simp [TCPConnection.takesText, hstate] at htext
        exact hfits (by simpa [hstate] using hack) htext
      have hadv := processText_spec h₁ hcut (ackEvent_ne _)
        ⟨hspace.window, hspace.low, hspace.high⟩ hfits' env.atEnd hok
      exact hadv

theorem processSegment1stThru8th_spec {env : Surroundings} (h : Receives s0 F conn next accepted)
    (hcut : IsCut s0 F tcpseg o)
    (hspace : InSpace conn next o tcpseg.payloadLength env.afterAck.rcvWnd)
    (hfits : conn.reachesText tcpseg env = true → FinFits conn tcpseg env.afterAck.rcvWnd)
    (hok : conn.processSegment1stThru8th tcpseg env = .ok p) :
    ∃ next', Advances s0 F p.event p.conn next next'
      (p.acceptedRanges next conn.state.rcvNxt accepted) := by
  have h₁ : Receives s0 F (conn.withSendVariables env.atCheck) next accepted :=
    h.congr rfl rfl rfl rfl
  unfold TCPConnection.processSegment1stThru8th at hok
  simp only [] at hok
  split_ifs at hok with hreject hrst hsyn hack
  · cases hok
    refine ⟨next, Receives.advances ?_ (by simp)⟩
    show Receives s0 F (TCPConnection.rejectSegment _ tcpseg) next accepted
    unfold TCPConnection.rejectSegment
    split_ifs
    · exact h₁.congr rfl rfl rfl rfl
    · exact h₁
  · cases hok
    exact ⟨next, h₁.advances (by simp)⟩
  · obtain ⟨_, -, hok⟩ := bind_eq_ok.mp hok
    cases hok
    exact ⟨next, h₁.advances (by simp)⟩
  · cases hok
    exact ⟨next, h₁.advances (by simp)⟩
  · have hfits' : env.ackOk = true → conn.takesText = true →
        FinFits conn tcpseg env.afterAck.rcvWnd := by
      intro hackOk htext
      apply hfits
      simp only [Bool.or_eq_true, not_or, Bool.not_eq_true, Bool.not_eq_false'] at hreject
      simp_all [TCPConnection.reachesText]
    have hadv := processAck_spec h₁ hcut ⟨hspace.window, hspace.low, hspace.high⟩ hfits' hok
    exact hadv

end Inet.Tcp
