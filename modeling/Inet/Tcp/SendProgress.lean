import Inet.Tcp.SendRounds

/-!
# Progress of the loops that send data

A call of `sendSegment` transmits data if and only if its round finds an octet to take
(`Ahead.taken`). Then `snd_nxt` grows and what lies ahead of it is as the round says, so the loops
follow the rounds and end with them. In a round without an octet to take `snd_nxt` has been moved
to the end of the queue, and an assertion fails.
-/

namespace Inet.Tcp.DataSender

open SerialNumber (ofPos)
open TCPSACKRexmitQueue (Represents marked)

/-- What lies ahead of `snd_nxt`. The octets of the send queue that are not on the scoreboard are
not marked. -/
def ahead (conn : DataSender) : Ahead :=
  let position := (conn.state.sndNxt - conn.state.sndUna).toNat
  let known := (conn.rexmitQueue.denote.bytes.drop position).map marked
  { marks := known ++
      List.replicate (conn.sendQueue.getBytesAvailable conn.state.sndNxt - known.length) false
    afterRto := conn.state.afterRto
    outstanding := (conn.state.sndMax - conn.state.sndUna).toNat - position
    options := conn.options }

/-- The number of octets that a call of `sendSegment` finds. -/
def taken (conn : DataSender) (bytes : Uint32) : ℕ :=
  conn.ahead.taken conn.state.sndMss.toNat bytes.toNat

/-- The state between two calls of `sendSegment`, `n` octets behind `snd_una`: the send queue
holds `E` octets, and those of the scoreboard are the first of them. Only the segment with the FIN
moves `snd_nxt` behind the end. -/
structure Sending (conn : DataSender) (board : Scoreboard) (n E : ℕ) : Prop where
  sackEnabled : conn.state.sackEnabled = true
  represents : Represents conn.rexmitQueue board
  begin_eq : board.begin = conn.state.sndUna
  sndNxt : conn.state.sndNxt = ofPos conn.state.sndUna n
  queue_begin : conn.sendQueue.begin = conn.state.sndUna
  queue_end : conn.sendQueue.end = ofPos conn.state.sndUna E
  covered : board.bytes.length ≤ E
  short : E < 2 ^ 31
  sndMax : (conn.state.sndMax - conn.state.sndUna).toNat ≤ board.bytes.length
  fin : conn.state.sendFin = true → conn.state.sndFinSeq = ofPos conn.state.sndUna E
  place : n ≤ board.bytes.length ∨ n = E + 1 ∧ conn.state.afterRto = false

variable {conn conn' : DataSender} {board : Scoreboard} {n E : ℕ} {bytes : Uint32}

/-- The marks of the octets from the place `n` to the place `E`. -/
def marksFrom (board : Scoreboard) (n E : ℕ) : List Bool :=
  (board.bytes.drop n).map marked ++ List.replicate (E - n - (board.bytes.length - n)) false

theorem length_marksFrom (hcovered : board.bytes.length ≤ E) :
    (marksFrom board n E).length = E - n := by
  rw [marksFrom, List.length_append, List.length_map, List.length_drop, List.length_replicate]
  omega

theorem marksFrom_of_le (hcovered : board.bytes.length ≤ E) (hle : E ≤ n) :
    marksFrom board n E = [] := by
  rw [← List.length_eq_zero_iff, length_marksFrom hcovered, Nat.sub_eq_zero_of_le hle]

/-- The octets that are not on the scoreboard end the marked ones. -/
theorem takeWhile_marksFrom : ((marksFrom board n E).takeWhile id).length =
      ((board.bytes.drop n).takeWhile marked).length := by
  rw [marksFrom]
  generalize E - n - (board.bytes.length - n) = new
  induction board.bytes.drop n with
  | nil => cases new <;> rfl
  | cons flags bytes ih =>
    rw [List.map_cons, List.cons_append, List.takeWhile_cons, List.takeWhile_cons]
    cases hflags : marked flags with
    | false => rfl
    | true => exact congrArg Nat.succ ih

/-- What has been sent does not change the marks behind it. -/
theorem drop_marksFrom {s t : Uint32} {k : ℕ} (hpast : board.offset t = n + k)
    (hcovered : board.bytes.length ≤ E) :
    (marksFrom board n E).drop k = marksFrom (board.enqueueSentData s t) (n + k) E := by
  have hbytes : (board.enqueueSentData s t).bytes.drop (n + k) = board.bytes.drop (n + k) := by
    rw [Scoreboard.enqueueSentData, hpast, List.drop_append, RunLength.drop_updateRange,
      RunLength.length_updateRange, List.drop_replicate]
    simp only [Nat.sub_self, List.replicate_zero, List.append_nil]
  have hlength : (board.enqueueSentData s t).bytes.length - (n + k) =
      board.bytes.length - (n + k) := by
    rw [← List.length_drop, hbytes, List.length_drop]
  rw [marksFrom, marksFrom, hbytes, hlength, List.drop_append, List.drop_replicate,
    ← List.map_drop, List.drop_drop, List.length_map, List.length_drop]
  congr 2
  omega

/-- What a call takes of the octets from `snd_nxt` on. -/
theorem limitBytes_toNat (conn : DataSender) (bytes : Uint32)
    (hshort : conn.sendQueue.getBytesAvailable conn.state.sndNxt < 2 ^ 31)
    (hoptions : conn.options.length < conn.state.sndMss.toNat) :
    (conn.limitBytes bytes).toNat =
      min (min bytes.toNat (conn.sendQueue.getBytesAvailable conn.state.sndNxt))
        (conn.state.sndMss.toNat - conn.options.length) := by
  rw [limitBytes]
  generalize conn.sendQueue.getBytesAvailable conn.state.sndNxt = buffered at hshort ⊢
  have hmax : conn.options.length ≤ 40 := conn.options.length_le
  have hlen : (BitVec.ofNat 32 conn.options.length).toNat = conn.options.length := by
    rw [BitVec.toNat_ofNat, Nat.mod_eq_of_lt (by omega)]
  obtain ⟨most, hmost, hlimit⟩ : ∃ most : Uint32, most.toNat = min bytes.toNat buffered ∧
      most = if bytes.toNat > buffered then BitVec.ofNat 32 buffered else bytes := by
    refine ⟨_, ?_, rfl⟩
    split_ifs with h
    · rw [BitVec.toNat_ofNat, Nat.mod_eq_of_lt (by omega)]
      omega
    · omega
  simp only [← hlimit, gt_iff_lt, BitVec.lt_def, BitVec.toNat_add, hlen]
  split_ifs with h
  · rw [BitVec.toNat_sub, hlen]
    omega
  · omega

/-- The scoreboard refuses an empty segment. -/
theorem enqueueSentData_empty (queue : TCPSACKRexmitQueue) (s : Uint32) :
    ∃ text, queue.enqueueSentData s s = .error (.assertion text) := by
  rw [TCPSACKRexmitQueue.enqueueSentData]
  cases seqLE queue.begin s && seqLE s queue.end with
  | false => exact ⟨_, rfl⟩
  | true =>
    refine ⟨"seqLess(fromSeqNum, toSeqNum)", ?_⟩
    simp [assert, seqLess]

/-- Without octets to be sent the call fails. -/
theorem sendSegment_empty {moved : DataSender} (hforward : conn.forward = .ok moved)
    (hsack : moved.state.sackEnabled = true) (hempty : moved.limitBytes bytes = 0) :
    ∃ text, conn.sendSegment bytes = .error (.assertion text) := by
  have hzero (x : Uint32) : x + 0 = x := BitVec.add_zero x
  rw [sendSegment, hforward, ok_bind]
  by_cases hoptions : decide (moved.options.length < moved.state.sndMss.toNat) = true
  · rw [assert_of hoptions, ok_bind]
    simp only [hempty, hzero, TCPVirtualDataSendQueue.createSegmentWithBytes]
    cases seqLE moved.sendQueue.begin moved.state.sndNxt &&
        seqLE moved.state.sndNxt moved.sendQueue.end with
    | false => exact ⟨_, rfl⟩
    | true =>
      obtain ⟨text, herror⟩ := enqueueSentData_empty moved.rexmitQueue moved.state.sndNxt
      refine ⟨text, ?_⟩
      simp only [assert_true, ok_bind, hsack, if_true, herror]
      rfl
  · rw [Bool.not_eq_true] at hoptions
    exact ⟨_, by rw [hoptions]; rfl⟩

/-- A call that has found octets: what it has sent, and what lies ahead after it. -/
structure Sent (conn conn' : DataSender) (n E : ℕ) (bytes : Uint32) : Prop where
  sending : ∃ board n', Sending conn' board n' E ∧ n < n'
  ahead : conn'.ahead = conn.ahead.next conn.state.sndMss.toNat bytes.toNat
  sentBytes : conn'.state.sentBytes.toNat = conn.taken bytes
  sndMss : conn'.state.sndMss = conn.state.sndMss
  sendFin : conn'.state.sendFin = conn.state.sendFin
  finSent : (conn'.state.sendFin && conn'.state.sndNxt == conn'.state.sndFinSeq + 1) =
    (conn.state.sendFin && conn'.ahead.marks.isEmpty)

namespace Sent

variable (hsent : Sent conn conn' n E bytes)

include hsent

theorem options : conn'.options = conn.options.written := congrArg Ahead.options hsent.ahead

theorem effectiveMaxBytesSend : conn'.effectiveMaxBytesSend = conn.effectiveMaxBytesSend := by
  rw [DataSender.effectiveMaxBytesSend, hsent.options, hsent.sndMss]
  rfl

theorem remaining {bytesToSend : BitVec 64} (hle : conn.taken bytes ≤ bytesToSend.toNat) :
    (conn'.remaining bytesToSend).toNat = bytesToSend.toNat - conn.taken bytes := by
  have hword : (conn'.state.sentBytes.setWidth 64).toNat = conn.taken bytes := by
    have := conn'.state.sentBytes.isLt
    rw [BitVec.toNat_setWidth, Nat.mod_eq_of_lt (by omega), hsent.sentBytes]
  rw [← hword] at hle ⊢
  exact BitVec.toNat_sub_of_le hle

end Sent

/-- With the usual options a segment takes no more than `effectiveMaxBytesSend`. -/
theorem taken_le_effectiveMaxBytesSend (husual : conn.options.written = conn.options)
    (_ : conn.taken bytes ≠ 0) : conn.taken bytes ≤ conn.effectiveMaxBytesSend.toNat := by
  have hroom : conn.taken bytes ≤ conn.state.sndMss.toNat - conn.options.length :=
    Ahead.taken_le_room
  have hmss := conn.state.sndMss.isLt
  rw [← husual, HeaderOptions.length, HeaderOptions.written] at hroom
  rw [effectiveMaxBytesSend]
  dsimp only at hroom
  split_ifs at hroom ⊢ with hts
  · rw [BitVec.toNat_sub]
    show _ ≤ (2 ^ 32 - 12 + conn.state.sndMss.toNat) % 2 ^ 32
    omega
  · exact hroom

theorem effectiveMaxBytesSend_ne_zero
    (hroom : conn.options.written.length < conn.state.sndMss.toNat) :
    conn.effectiveMaxBytesSend.toNat ≠ 0 := by
  have hmss := conn.state.sndMss.isLt
  rw [HeaderOptions.length, HeaderOptions.written] at hroom
  rw [effectiveMaxBytesSend]
  dsimp only at hroom
  split_ifs at hroom ⊢ with hts
  · rw [BitVec.toNat_sub]
    show (2 ^ 32 - 12 + conn.state.sndMss.toNat) % 2 ^ 32 ≠ 0
    omega
  · omega

/-- The code follows its rounds: it returns with what they have reached, or some round finds nothing
and an assertion fails. -/
def Follows {α β : Type} (result : Result α) (reached : α → β → Prop) : Option β → Prop
  | some rest => ∃ a, result = .ok a ∧ reached a rest
  | none => ∃ text, result = .error (.assertion text)

section Follows

variable {α β γ δ : Type} {result : Result α} {reached : α → β → Prop} {rounds : Option β}

theorem Follows.returns_iff (h : Follows result reached rounds) :
    (∃ a, result = .ok a) ↔ rounds.isSome := by
  cases rounds with
  | none =>
    obtain ⟨text, rfl⟩ := h
    simp
  | some rest =>
    obtain ⟨a, rfl, -⟩ := h
    simp

theorem Follows.mono {reached' : α → β → Prop} (h : Follows result reached rounds)
    (himp : ∀ a rest, reached a rest → reached' a rest) : Follows result reached' rounds := by
  cases rounds with
  | none => exact h
  | some rest =>
    obtain ⟨a, ha, hreached⟩ := h
    exact ⟨a, ha, himp a rest hreached⟩

theorem Follows.bind {next : α → Result γ} {reached' : γ → δ → Prop} {nextRounds : β → Option δ}
    (h : Follows result reached rounds)
    (hnext : ∀ a rest, reached a rest → Follows (next a) reached' (nextRounds rest)) :
    Follows (result >>= next) reached' (rounds >>= nextRounds) := by
  cases rounds with
  | none =>
    obtain ⟨text, rfl⟩ := h
    exact ⟨text, rfl⟩
  | some rest =>
    obtain ⟨a, rfl, ha⟩ := h
    exact hnext a rest ha

end Follows

/-- The state that the rounds have reached. -/
def At (mss : Uint32) (E : ℕ) (conn : DataSender) (rest : Ahead) : Prop :=
  conn.state.sndMss = mss ∧ conn.ahead = rest ∧ ∃ board n, Sending conn board n E

namespace Sending

variable (h : Sending conn board n E)

include h

theorem le : n ≤ E + 1 := by
  have := h.covered
  obtain hn | ⟨rfl, -⟩ := h.place
  · omega
  · exact Nat.le_refl _

theorem bytesAvailable : conn.sendQueue.getBytesAvailable conn.state.sndNxt = E - n := by
  have hle := h.le
  have hshort := h.short
  rw [TCPVirtualDataSendQueue.getBytesAvailable, h.queue_end, h.sndNxt,
    seqLess_ofPos (by constructor <;> omega)]
  obtain hlt | hge := Nat.lt_or_ge n E
  · rw [if_pos (by simpa using hlt), SerialNumber.toNat_ofPos_sub (by omega) (by omega)]
  · rw [if_neg (by simpa using hge)]
    omega

theorem offset : (conn.state.sndNxt - conn.state.sndUna).toNat = n := by
  have hle := h.le
  have hshort := h.short
  rw [h.sndNxt, SerialNumber.toNat_ofPos_sub_base (by omega)]

theorem ahead_eq : conn.ahead =
    { marks := marksFrom board n E
      afterRto := conn.state.afterRto
      outstanding := (conn.state.sndMax - conn.state.sndUna).toNat - n
      options := conn.options } := by
  simp only [ahead, marksFrom, h.offset, h.represents.denote_eq, h.bytesAvailable,
    List.length_map, List.length_drop]

theorem length_marks : conn.ahead.marks.length = E - n := by
  rw [h.ahead_eq]
  exact length_marksFrom h.covered

/-- `snd_nxt` is moved over what is skipped. -/
def skip (conn : DataSender) (n : ℕ) : DataSender :=
  { conn with state := { conn.state with
    sndNxt := ofPos conn.state.sndUna (n + conn.ahead.skipped) } }

theorem le_of_afterRto (hrto : conn.state.afterRto = true) : n ≤ board.bytes.length := by
  obtain hn | ⟨-, hnot⟩ := h.place
  · exact hn
  · cases hrto.symm.trans hnot

theorem forward : conn.forward = .ok (skip conn n) := by
  rw [skip, h.ahead_eq, Ahead.skipped]
  cases hrto : conn.state.afterRto with
  | false =>
    rw [DataSender.forward, hrto, Bool.and_false]
    simp [← h.sndNxt]
  | true =>
    have hmoved :=
      h.represents.checkRexmitQueueForSackedOrRexmittedSegments (h.le_of_afterRto hrto)
    rw [h.begin_eq, ← h.sndNxt] at hmoved
    rw [DataSender.forward, hrto, h.sackEnabled, Bool.and_self, if_pos rfl, hmoved,
      ok_bind, if_pos rfl, takeWhile_marksFrom, SerialNumber.ofPos_add, ← h.sndNxt]

theorem skipped_le : n + conn.ahead.skipped ≤ board.bytes.length ∨ conn.ahead.skipped = 0 := by
  rw [h.ahead_eq, Ahead.skipped]
  split_ifs with hrto
  · refine .inl ?_
    have htake := (List.takeWhile_prefix (p := marked) (l := board.bytes.drop n)).length_le
    rw [List.length_drop] at htake
    have hn := h.le_of_afterRto hrto
    rw [takeWhile_marksFrom]
    omega
  · exact .inr rfl

theorem skip_sending : Sending (skip conn n) board (n + conn.ahead.skipped) E := by
  refine ⟨h.sackEnabled, h.represents, h.begin_eq, rfl, h.queue_begin, h.queue_end, h.covered,
    h.short, h.sndMax, h.fin, ?_⟩
  show n + conn.ahead.skipped ≤ board.bytes.length ∨ _
  obtain hle | hnone := h.skipped_le
  · exact .inl hle
  · rw [hnone, Nat.add_zero]
    exact h.place

/-- Whether the FIN has been sent. -/
theorem finSent_eq : (conn.state.sendFin && conn.state.sndNxt == conn.state.sndFinSeq + 1) =
      (conn.state.sendFin && decide (n = E + 1)) := by
  cases hsend : conn.state.sendFin with
  | false => rfl
  | true =>
    have hshort := h.short
    have hlast : conn.state.sndFinSeq + 1 = ofPos conn.state.sndUna (E + 1) := by
      rw [h.fin hsend, SerialNumber.ofPos_succ]
      rfl
    have hway := @SerialNumber.toNat_ofPos_sub_base 32 conn.state.sndUna (E + 1) (by omega)
    rw [← hlast] at hway
    rw [Bool.true_and, Bool.true_and, Bool.beq_eq_decide_eq]
    refine decide_eq_decide.mpr ⟨fun heq => ?_, fun heq => ?_⟩
    · rw [← hway, ← heq, h.offset]
    · rw [h.sndNxt, heq, hlast]

/-- Whether `snd_max` has been reached. -/
theorem seqGE_sndMax {k : ℕ} {sndNxt : Uint32}
    (hnxt : sndNxt = ofPos conn.state.sndUna k) (hk : k ≤ E) :
    seqGE sndNxt conn.state.sndMax =
      decide ((conn.state.sndMax - conn.state.sndUna).toNat ≤ k) := by
  have hshort := h.short
  have hcovered := h.covered
  have hle := h.sndMax
  have hmax := SerialNumber.ofPos_toNat_sub conn.state.sndUna conn.state.sndMax
  have hge := @seqGE_ofPos conn.state.sndUna k (conn.state.sndMax - conn.state.sndUna).toNat
    (near_of_lt (by omega) (by omega))
  rwa [hmax, ← hnxt] at hge

/-- What the call sends after skipping. -/
theorem limitBytes_skip (bytes : Uint32)
    (hoptions : conn.options.length < conn.state.sndMss.toNat) :
    ((skip conn n).limitBytes bytes).toNat = conn.taken bytes := by
  have hshort := h.short
  have hlimit := limitBytes_toNat (skip conn n) bytes
    (by rw [h.skip_sending.bytesAvailable]; omega) hoptions
  rw [h.skip_sending.bytesAvailable] at hlimit
  rw [hlimit, taken, Ahead.taken, h.length_marks, Nat.sub_sub, h.ahead_eq]
  rfl

/-- A call that finds nothing fails. -/
theorem sendSegment_stuck (hnone : conn.taken bytes = 0) :
    ∃ text, conn.sendSegment bytes = .error (.assertion text) := by
  by_cases hoptions : conn.options.length < conn.state.sndMss.toNat
  · refine sendSegment_empty h.forward h.sackEnabled ?_
    rw [← h.limitBytes_skip bytes hoptions] at hnone
    exact BitVec.eq_of_toNat_eq hnone
  · rw [DataSender.sendSegment, h.forward, ok_bind]
    have hfails : decide ((skip conn n).options.length < (skip conn n).state.sndMss.toNat) =
        false := decide_eq_false hoptions
    exact ⟨_, by rw [hfails]; rfl⟩

/-- The state after the segment. -/
theorem advance {queue : TCPSACKRexmitQueue} {sent : Uint32}
    (hto : conn.state.sndNxt + sent = ofPos conn.state.sndUna (n + sent.toNat))
    (hqueue : Represents queue
      (board.enqueueSentData conn.state.sndNxt (conn.state.sndNxt + sent)))
    (hle : n + sent.toNat ≤ E) :
    Sending ({ conn with rexmitQueue := queue }.advance sent)
      (board.enqueueSentData conn.state.sndNxt (conn.state.sndNxt + sent))
      (if conn.state.sendFin = true ∧ n + sent.toNat = E then E + 1 else n + sent.toNat) E := by
  have hshort := h.short
  have hcovered := h.covered
  have hmax := h.sndMax
  have hway : (conn.state.sndNxt + sent - conn.state.sndUna).toNat = n + sent.toNat := by
    rw [hto, SerialNumber.toNat_ofPos_sub_base (by omega)]
  have hlength : (board.enqueueSentData conn.state.sndNxt
      (conn.state.sndNxt + sent)).bytes.length = max board.bytes.length (n + sent.toNat) := by
    simp only [Scoreboard.enqueueSentData, Scoreboard.offset, List.length_append,
      List.length_replicate, RunLength.length_updateRange, h.begin_eq, hway]
    omega
  have sending (n' : ℕ) (sndNxt : Uint32) (hnxt : sndNxt = ofPos conn.state.sndUna n')
      (hplace : n' = n + sent.toNat ∨ n' = E + 1 ∧ n + sent.toNat = E) :
      Sending
        { conn with
          rexmitQueue := queue
          options := conn.options.written
          state := { conn.state with
            sentBytes := sent
            afterRto := conn.state.afterRto && !seqGE (conn.state.sndNxt + sent) conn.state.sndMax
            sndNxt := sndNxt } }
        (board.enqueueSentData conn.state.sndNxt (conn.state.sndNxt + sent)) n' E := by
    refine ⟨h.sackEnabled, hqueue, h.begin_eq, hnxt, h.queue_begin, h.queue_end, by omega, hshort,
      by rw [hlength]; exact hmax.trans (Nat.le_max_left _ _), h.fin, ?_⟩
    obtain rfl | ⟨rfl, hend⟩ := hplace
    · exact .inl (by omega)
    · -- the last octet has been sent, so `snd_nxt` is not before `snd_max`
      refine .inr ⟨rfl, ?_⟩
      rw [h.seqGE_sndMax hto (by omega), decide_eq_true (by omega)]
      exact Bool.and_false _
  have hfin : (conn.state.sendFin && conn.state.sndNxt + sent == conn.state.sndFinSeq) = true ↔
      conn.state.sendFin = true ∧ n + sent.toNat = E := by
    rw [Bool.and_eq_true, beq_iff_eq]
    refine and_congr_right fun hsend => ?_
    rw [h.fin hsend, hto, ofPos_eq_iff (near_of_lt (by omega) (by omega))]
  by_cases hlast : conn.state.sendFin = true ∧ n + sent.toNat = E
  · have hnxt : conn.state.sndFinSeq + 1 = ofPos conn.state.sndUna (E + 1) := by
      rw [h.fin hlast.1, SerialNumber.ofPos_succ]
      rfl
    have hstate := sending (E + 1) _ hnxt (.inr ⟨rfl, hlast.2⟩)
    simpa only [DataSender.advance, hfin.mpr hlast, if_pos hlast, if_true] using hstate
  · have hstate := sending _ _ hto (.inl rfl)
    simpa only [DataSender.advance, if_neg (mt hfin.mp hlast), if_neg hlast] using hstate

/-- A call that finds octets sends them. -/
theorem sendSegment_taken (hsome : conn.taken bytes ≠ 0) :
    ∃ conn', conn.sendSegment bytes = .ok conn' ∧ Sent conn conn' n E bytes := by
  have hoptions : conn.options.length < conn.state.sndMss.toNat := by
    have hroom : conn.taken bytes ≤ conn.state.sndMss.toNat - conn.ahead.options.length :=
      Ahead.taken_le_room
    rw [h.ahead_eq] at hroom
    dsimp only at hroom
    omega
  have hlimit := h.limitBytes_skip bytes hoptions
  have hfound : conn.taken bytes ≤ E - n - conn.ahead.skipped := by
    rw [← h.length_marks]
    exact (Nat.min_le_left _ _).trans (Nat.min_le_right _ _)
  have hskip := h.skip_sending
  have hshort := h.short
  have hcovered := h.covered
  obtain ⟨k, hk⟩ : ∃ k, k = n + conn.ahead.skipped := ⟨_, rfl⟩
  obtain ⟨moved, hmoved⟩ : ∃ moved, moved = skip conn n := ⟨_, rfl⟩
  obtain ⟨sent, hsent⟩ : ∃ sent, sent = moved.limitBytes bytes := ⟨_, rfl⟩
  rw [← hmoved, ← hk] at hskip
  rw [← hmoved, ← hsent] at hlimit
  have hn : k ≤ board.bytes.length := by
    obtain hn | ⟨hn, -⟩ := hskip.place
    · exact hn
    · omega
  have hto : moved.state.sndNxt + sent = ofPos moved.state.sndUna (k + sent.toNat) := by
    rw [SerialNumber.ofPos_add, hskip.sndNxt, BitVec.ofNat_toNat, BitVec.setWidth_eq]
  have hway : (moved.state.sndNxt + sent - moved.state.sndUna).toNat = k + sent.toNat := by
    rw [hto, SerialNumber.toNat_ofPos_sub_base (by omega)]
  have hcreate : moved.sendQueue.createSegmentWithBytes moved.state.sndNxt sent =
      .ok (moved.state.sndNxt, sent) := by
    have hbegin : seqLE moved.sendQueue.begin moved.state.sndNxt = true := by
      rw [hskip.queue_begin, hskip.sndNxt]
      exact seqLE_start (by omega)
    have hend : seqLE (moved.state.sndNxt + sent) moved.sendQueue.end = true := by
      rw [hskip.queue_end, hto, seqLE_ofPos (near_of_lt (by omega) (by omega))]
      exact decide_eq_true (by omega)
    rw [TCPVirtualDataSendQueue.createSegmentWithBytes, hbegin, hend, Bool.and_self, assert_true,
      ok_bind]
  obtain ⟨hfirst, hlast⟩ := Bool.and_eq_true_iff.mp (hskip.represents.inRange hn)
  rw [hskip.begin_eq, ← hskip.sndNxt] at hfirst hlast
  have hgrows : seqLess moved.state.sndNxt (moved.state.sndNxt + sent) = true := by
    rw [hto, hskip.sndNxt, seqLess_ofPos (near_of_lt (by omega) (by omega))]
    exact decide_eq_true (by omega)
  have hwindow : moved.rexmitQueue.WindowTo (moved.state.sndNxt + sent) := by
    obtain ⟨-, hbegin, -⟩ := hskip.represents
    rw [TCPSACKRexmitQueue.WindowTo, hbegin, hskip.begin_eq, hway]
    omega
  obtain ⟨queue, hqueue, hrep⟩ :=
    hskip.represents.enqueueSentData hfirst hlast hgrows hwindow
  have hafter := hskip.advance hto hrep (by omega)
  have hok : conn.sendSegment bytes = .ok ({ moved with rexmitQueue := queue }.advance sent) := by
    have hfits : decide (moved.options.length < moved.state.sndMss.toNat) = true := by
      rw [hmoved]
      exact decide_eq_true hoptions
    rw [DataSender.sendSegment, h.forward, ok_bind, ← hmoved, assert_of hfits, ok_bind]
    simp only [← hsent, hcreate, ok_bind, hskip.sackEnabled, if_true, hqueue]
  have hpassed : k + sent.toNat = n + (conn.ahead.skipped + conn.taken bytes) := by
    omega
  have hmarks : conn.ahead.marks.drop (conn.ahead.skipped + conn.taken bytes) =
      marksFrom (board.enqueueSentData moved.state.sndNxt (moved.state.sndNxt + sent))
        (k + sent.toNat) E := by
    rw [hpassed, h.ahead_eq]
    refine drop_marksFrom ?_ hcovered
    rw [Scoreboard.offset, hskip.begin_eq, hway, hpassed, h.ahead_eq]
  have hsendFin : moved.state.sendFin = conn.state.sendFin := by rw [hmoved]; rfl
  obtain ⟨n', hn'⟩ : ∃ n', n' = if moved.state.sendFin = true ∧ k + sent.toNat = E then E + 1
    else k + sent.toNat := ⟨_, rfl⟩
  rw [← hn'] at hafter
  have hahead : ({ moved with rexmitQueue := queue }.advance sent).ahead =
      conn.ahead.next conn.state.sndMss.toNat bytes.toNat := by
    have hmax := h.sndMax
    have hreached := hskip.seqGE_sndMax hto (by omega)
    have hrest : marksFrom (board.enqueueSentData moved.state.sndNxt (moved.state.sndNxt + sent))
        n' E = conn.ahead.marks.drop (conn.ahead.skipped + conn.taken bytes) := by
      rw [hmarks]
      split_ifs at hn' with hfin
      · rw [marksFrom_of_le hafter.covered (by omega),
          marksFrom_of_le hafter.covered (Nat.le_of_eq hfin.2.symm)]
      · rw [hn']
    have houtstanding : conn.ahead.outstanding =
        (conn.state.sndMax - conn.state.sndUna).toNat - n := by
      rw [h.ahead_eq]
    have hstate : moved.state.afterRto = conn.ahead.afterRto ∧
        (moved.state.sndMax - moved.state.sndUna).toNat =
          (conn.state.sndMax - conn.state.sndUna).toNat ∧
        moved.options = conn.ahead.options := by
      rw [h.ahead_eq, hmoved]
      exact ⟨rfl, rfl, rfl⟩
    obtain ⟨hrto, hway', hoptions'⟩ := hstate
    rw [hafter.ahead_eq, hrest, Ahead.next, Ahead.mk.injEq]
    refine ⟨rfl, ?_, ?_, congrArg HeaderOptions.written hoptions'⟩
    · show (moved.state.afterRto && !seqGE _ _) = _
      rw [hreached, hrto, hway', hpassed, houtstanding, ← decide_not]
      exact congrArg _ (decide_eq_decide.mpr (by rw [taken]; omega))
    · show (moved.state.sndMax - moved.state.sndUna).toNat - n' = _
      rw [hway', houtstanding]
      rw [taken] at hpassed
      split_ifs at hn' <;> omega
  refine ⟨_, hok, ⟨⟨_, n', hafter, ?_⟩, hahead, hlimit, by rw [hmoved]; rfl, hsendFin, ?_⟩⟩
  · split_ifs at hn' <;> omega
  · have hlength := hafter.length_marks
    rw [hafter.finSent_eq]
    show (moved.state.sendFin && _) = _
    rw [hsendFin] at hn' ⊢
    cases hsend : conn.state.sendFin with
    | false => rfl
    | true =>
      rw [Bool.true_and, Bool.true_and, Bool.eq_iff_iff, decide_eq_true_eq,
        List.isEmpty_iff_length_eq_zero, hlength]
      simp only [hsend, true_and] at hn'
      split_ifs at hn' <;> omega

theorem sendSegment_follows : Follows (conn.sendSegment bytes)
      (fun conn' rest => Sent conn conn' n E bytes ∧ conn'.ahead = rest)
      (conn.ahead.segment conn.state.sndMss.toNat bytes.toNat) := by
  rw [Ahead.segment]
  split_ifs with hnone
  · exact h.sendSegment_stuck hnone
  · obtain ⟨conn', hok, hsent⟩ := h.sendSegment_taken hnone
    exact ⟨conn', hok, hsent, hsent.ahead⟩

section SendData

variable {fuel : ℕ} {bytesToSend left : BitVec 64}

/-- Each round moves `snd_nxt` ahead, so the fuel is enough. What has been sent is no more than
what there was to be sent: the first segment may take more than `effectiveMaxBytesSend`, those
behind it may not. -/
theorem sendLoop_follows (hfuel : E + 2 ≤ n + fuel)
    (hfit : conn.state.sndMss.toNat ≤ bytesToSend.toNat ∨ conn.options.written = conn.options) :
    Follows (DataSender.sendLoop conn.effectiveMaxBytesSend fuel conn bytesToSend)
      (fun result rest => At conn.state.sndMss E result.1 rest.1 ∧ result.2.toNat = rest.2)
      (conn.ahead.sendLoop conn.state.sndMss.toNat conn.effectiveMaxBytesSend.toNat
        bytesToSend.toNat) := by
  induction fuel generalizing conn board n bytesToSend with
  | zero =>
    have := h.le
    omega
  | succ fuel ih =>
    have hmore : bytesToSend ≥ conn.effectiveMaxBytesSend.setWidth 64 ↔
        conn.effectiveMaxBytesSend.toNat ≤ bytesToSend.toNat := by
      have := conn.effectiveMaxBytesSend.isLt
      rw [ge_iff_le, BitVec.le_def, BitVec.toNat_setWidth, Nat.mod_eq_of_lt (by omega)]
    rw [DataSender.sendLoop, Ahead.sendLoop]
    simp only [hmore]
    split_ifs with hbytes hnone
    · obtain ⟨text, herror⟩ := h.sendSegment_stuck hnone
      exact ⟨text, by rw [herror]; rfl⟩
    · obtain ⟨conn', hok, hsent⟩ := h.sendSegment_taken hnone
      obtain ⟨board', n', hsending, hlt⟩ := hsent.sending
      have hle : conn.taken conn.state.sndMss ≤ bytesToSend.toNat := by
        obtain hfirst | husual := hfit
        · exact Ahead.taken_le.trans hfirst
        · exact (taken_le_effectiveMaxBytesSend husual hnone).trans hbytes
      have hrest := @ih conn' board' n' hsending (conn'.remaining bytesToSend) (by omega)
        (.inr (by rw [hsent.options]; rfl))
      rw [hsent.remaining hle, hsent.effectiveMaxBytesSend, hsent.sndMss, hsent.ahead] at hrest
      rw [hok, ok_bind]
      exact hrest
    · exact ⟨_, rfl, ⟨rfl, rfl, board, n, h⟩, rfl⟩

theorem sendWhole_follows : Follows (conn.sendWhole bytesToSend)
      (fun result rest => At conn.state.sndMss E result.1 rest.1 ∧ result.2.toNat = rest.2)
      (conn.ahead.sendWhole conn.state.sndMss.toNat conn.effectiveMaxBytesSend.toNat
        bytesToSend.toNat) := by
  have hsingle : bytesToSend ≤ conn.state.sndMss.setWidth 64 ↔
      bytesToSend.toNat ≤ conn.state.sndMss.toNat := by
    have := conn.state.sndMss.isLt
    rw [BitVec.le_def, BitVec.toNat_setWidth, Nat.mod_eq_of_lt (by omega)]
  rw [DataSender.sendWhole, Ahead.sendWhole]
  simp only [hsingle]
  split_ifs with hle
  · have hword : (bytesToSend.setWidth 32).toNat = bytesToSend.toNat := by
      have := conn.state.sndMss.isLt
      rw [BitVec.toNat_setWidth, Nat.mod_eq_of_lt (by omega)]
    have hsegment := @sendSegment_follows conn board n E (bytesToSend.setWidth 32) h
    rw [hword] at hsegment
    rw [Option.map_eq_bind]
    refine hsegment.bind ?_
    rintro conn' rest ⟨hsent, hrest⟩
    obtain ⟨board', n', hsending, -⟩ := hsent.sending
    refine ⟨_, rfl, ⟨hsent.sndMss, hrest, board', n', hsending⟩, ?_⟩
    have hleft := hsent.remaining (Ahead.taken_le.trans (Nat.le_of_eq hword))
    rw [taken, hword] at hleft
    exact hleft
  · have hn := h.le
    refine h.sendLoop_follows ?_ (.inl (Nat.le_of_not_le hle))
    rw [h.bytesAvailable]
    omega

theorem sendLast_follows : Follows (conn.sendLast left) (fun conn' rest => conn'.ahead = rest)
      (conn.ahead.sendLast conn.state.sndMss.toNat left.toNat) := by
  have hshort := h.short
  rw [DataSender.sendLast, Ahead.sendLast, h.bytesAvailable, h.length_marks]
  split_ifs with hlast
  · have hword : (left.setWidth 32).toNat = left.toNat := by
      rw [BitVec.toNat_setWidth, Nat.mod_eq_of_lt (by omega)]
    have hsegment := @sendSegment_follows conn board n E (left.setWidth 32) h
    rw [hword] at hsegment
    exact hsegment.mono fun _ _ hsent => hsent.2
  · exact ⟨conn, rfl, rfl⟩

/-- What `sendData` is going to send is there. -/
theorem bytesToSend_spec {fullSegmentsOnly : Bool}
    {congestionWindow : Uint32} {bytesToSend : BitVec 64}
    (hbytes : conn.bytesToSend fullSegmentsOnly congestionWindow = some bytesToSend) :
    bytesToSend.toNat ≠ 0 ∧ bytesToSend.toNat ≤ conn.ahead.marks.length := by
  have hshort := h.short
  rw [h.length_marks]
  rw [DataSender.bytesToSend, h.bytesAvailable] at hbytes
  split_ifs at hbytes with hnone hwin hfull
  obtain rfl := Option.some.inj hbytes
  rw [BitVec.toNat_ofNat, Nat.mod_eq_of_lt (by omega)]
  omega

/-- Whole segments, and the last one. -/
theorem sendData_follows :
    Follows (conn.sendWhole bytesToSend >>= fun result => result.1.sendLast result.2)
      (fun conn' rest => conn'.ahead = rest)
      (conn.ahead.sendData conn.state.sndMss.toNat conn.effectiveMaxBytesSend.toNat
        bytesToSend.toNat) := by
  refine h.sendWhole_follows.bind ?_
  rintro ⟨conn', left⟩ ⟨rest, left'⟩ ⟨⟨hmss, rfl, board', n', hsending⟩, rfl⟩
  rw [← hmss]
  exact hsending.sendLast_follows

end SendData

variable {fuel : ℕ} {bytesToSend : Uint32}

theorem rexmitBytes_toNat : (conn.rexmitBytes bytesToSend).toNat =
      min (min bytesToSend.toNat conn.state.sndMss.toNat) conn.ahead.marks.length := by
  have hshort := h.short
  have hbuffered : (BitVec.ofNat 32 (E - n)).toNat = E - n := by
    rw [BitVec.toNat_ofNat, Nat.mod_eq_of_lt (by omega)]
  rw [rexmitBytes, h.bytesAvailable, h.length_marks]
  simp only [BitVec.le_def]
  split_ifs <;> omega

/-- What has been sent is no more than what there was to be sent. -/
theorem rexmitLoop_follows (hfuel : E + 2 ≤ n + fuel) :
    Follows (DataSender.rexmitLoop fuel conn bytesToSend) (fun conn' rest => conn'.ahead = rest)
      (conn.ahead.rexmitLoop conn.state.sndMss.toNat conn.state.sendFin bytesToSend.toNat) := by
  induction fuel generalizing conn board n bytesToSend with
  | zero =>
    have := h.le
    omega
  | succ fuel ih =>
    have hmore : bytesToSend > 0 ↔ ¬bytesToSend.toNat = 0 := by
      rw [gt_iff_lt, BitVec.lt_def]
      exact Nat.pos_iff_ne_zero
    rw [DataSender.rexmitLoop, Ahead.rexmitLoop]
    simp only [← h.rexmitBytes_toNat]
    by_cases hbytes : bytesToSend > 0
    · rw [if_pos hbytes, if_neg (hmore.mp hbytes)]
      by_cases hnone : conn.ahead.taken conn.state.sndMss.toNat
          (conn.rexmitBytes bytesToSend).toNat = 0
      · obtain ⟨text, herror⟩ := h.sendSegment_stuck hnone
        rw [dif_pos hnone, herror]
        exact ⟨text, rfl⟩
      · obtain ⟨conn', hok, hsent⟩ := h.sendSegment_taken hnone
        rw [dif_neg hnone, ← hsent.ahead, hok, ok_bind, hsent.finSent]
        split_ifs with hfin
        · exact ⟨conn', rfl, rfl⟩
        · obtain ⟨board', n', hsending, hlt⟩ := hsent.sending
          have hrest := @ih conn' board' n' hsending (bytesToSend - conn'.state.sentBytes)
            (by omega)
          have hle : conn'.state.sentBytes ≤ bytesToSend := by
            rw [BitVec.le_def, hsent.sentBytes]
            refine Ahead.taken_le.trans ?_
            rw [h.rexmitBytes_toNat]
            exact (Nat.min_le_left _ _).trans (Nat.min_le_left _ _)
          rwa [BitVec.toNat_sub_of_le hle, hsent.sentBytes, hsent.sndMss, hsent.sendFin] at hrest
    · rw [if_neg hbytes, if_pos (not_not.mp (mt hmore.mpr hbytes))]
      exact ⟨conn, rfl, rfl⟩

end Sending

/-- The send queue and the scoreboard are valid and begin at `snd_una`, and the variables are in
order. -/
structure Ready (conn : DataSender) : Prop where
  sackEnabled : conn.state.sackEnabled = true
  checkQueue : conn.rexmitQueue.checkQueue = true
  rexmitQueue_begin : conn.rexmitQueue.begin = conn.state.sndUna
  sendQueue_begin : conn.sendQueue.begin = conn.state.sndUna
  sndNxt_le : (conn.state.sndNxt - conn.state.sndUna).toNat ≤
    (conn.state.sndMax - conn.state.sndUna).toNat
  sndMax_le : (conn.state.sndMax - conn.state.sndUna).toNat ≤ conn.rexmitQueue.denote.bytes.length
  covered : conn.rexmitQueue.denote.bytes.length ≤ (conn.sendQueue.end - conn.state.sndUna).toNat
  short : (conn.sendQueue.end - conn.state.sndUna).toNat < 2 ^ 31
  fin : conn.state.sendFin = true → conn.state.sndFinSeq = conn.sendQueue.end

namespace Ready

/-- A run may begin at `snd_una`, at `snd_nxt` and at `snd_max`. -/
theorem sending (ready : Ready conn) {sndNxt : Uint32}
    (hle : (sndNxt - conn.state.sndUna).toNat ≤ (conn.state.sndMax - conn.state.sndUna).toNat) :
    Sending { conn with state := { conn.state with sndNxt := sndNxt } } conn.rexmitQueue.denote
      (sndNxt - conn.state.sndUna).toNat (conn.sendQueue.end - conn.state.sndUna).toNat := by
  have hshort := ready.short
  have hcovered := ready.covered
  have hmax := ready.sndMax_le
  have hboard : conn.rexmitQueue.denote.bytes.length < 2 ^ 31 := by omega
  have hpos (x : Uint32) : x = ofPos conn.state.sndUna (x - conn.state.sndUna).toNat :=
    (SerialNumber.ofPos_toNat_sub _ x).symm
  exact
    { sackEnabled := ready.sackEnabled
      represents := TCPSACKRexmitQueue.represents_denote ready.checkQueue hboard
      begin_eq := ready.rexmitQueue_begin
      sndNxt := hpos sndNxt
      queue_begin := ready.sendQueue_begin
      queue_end := hpos conn.sendQueue.end
      covered := hcovered
      short := hshort
      sndMax := hmax
      fin := fun hfin => (ready.fin hfin).trans (hpos conn.sendQueue.end)
      place := .inl (Nat.le_trans hle hmax) }

theorem startOfRetransmission (ready : Ready conn) :
    Sending { conn with state := { conn.state with sndNxt := conn.state.sndUna } }
      conn.rexmitQueue.denote 0 (conn.sendQueue.end - conn.state.sndUna).toNat := by
  have hfirst : (conn.state.sndUna - conn.state.sndUna).toNat = 0 := by
    rw [BitVec.sub_self]
    rfl
  have hstart := ready.sending (hfirst ▸ Nat.zero_le _)
  rwa [hfirst] at hstart

theorem startOfData (ready : Ready conn) : ∃ n, Sending conn.startOfData conn.rexmitQueue.denote n
      (conn.sendQueue.end - conn.state.sndUna).toNat := by
  rw [DataSender.startOfData]
  split_ifs
  · exact ⟨_, ready.sending (Nat.le_refl _)⟩
  · exact ⟨_, ready.sending ready.sndNxt_le⟩

end Ready

/-- Each round of `sendData` finds octets. -/
def SendDataFinds (conn : DataSender) (fullSegmentsOnly : Bool) (congestionWindow : Uint32) :
    Prop :=
  let conn := conn.startOfData
  ∀ bytesToSend, conn.bytesToSend fullSegmentsOnly congestionWindow = some bytesToSend →
    (conn.ahead.sendData conn.state.sndMss.toNat conn.effectiveMaxBytesSend.toNat
      bytesToSend.toNat).isSome

/-- Each round of `retransmitData` finds octets. -/
def RetransmitDataFinds (conn : DataSender) : Prop :=
  let conn := { conn with state := { conn.state with sndNxt := conn.state.sndUna } }
  (conn.ahead.rexmitLoop conn.state.sndMss.toNat conn.state.sendFin
    (conn.state.sndMax - conn.state.sndUna).toNat).isSome

theorem sendData_returns_iff (ready : Ready conn) (fullSegmentsOnly : Bool)
    (congestionWindow : Uint32) :
    (∃ result, conn.sendData fullSegmentsOnly congestionWindow = .ok result) ↔
      SendDataFinds conn fullSegmentsOnly congestionWindow := by
  obtain ⟨n, hstart⟩ := ready.startOfData
  rw [SendDataFinds, sendData]
  cases hbytes : conn.startOfData.bytesToSend fullSegmentsOnly congestionWindow with
  | none => simp
  | some bytesToSend =>
    have hfollows := @Sending.sendData_follows _ _ _ _ hstart bytesToSend
    simp only [Option.some.injEq, forall_eq']
    rw [← hfollows.returns_iff]
    cases hwhole : conn.startOfData.sendWhole bytesToSend with
    | error e => simp
    | ok result => cases hlast : result.1.sendLast result.2 <;> simp [hlast]

theorem retransmitData_returns_iff (ready : Ready conn)
    (houtstanding : conn.state.sndUna ≠ conn.state.sndMax) :
    (∃ conn', conn.retransmitData = .ok conn') ↔ RetransmitDataFinds conn := by
  have hstart := ready.startOfRetransmission
  have hsome : (conn.state.sndMax - conn.state.sndUna == 0) = false := by
    rw [beq_eq_false_iff_ne]
    intro hnone
    apply houtstanding
    bv_omega
  have hbytes : conn.sendQueue.getBytesAvailable conn.state.sndUna =
      (conn.sendQueue.end - conn.state.sndUna).toNat - 0 := hstart.bytesAvailable
  have hfollows := @Sending.rexmitLoop_follows _ _ _ _ hstart
    (conn.sendQueue.getBytesAvailable conn.state.sndUna + 2)
    (conn.state.sndMax - conn.state.sndUna) (by omega)
  rw [RetransmitDataFinds]
  dsimp only
  rw [← hfollows.returns_iff, retransmitData]
  simp only [hsome, bne, Bool.false_and, Bool.false_eq_true, if_false, Bool.not_false,
    assert_true, ok_bind]

/-- Without a retransmission timeout every round finds octets. -/
theorem finds_of_not_afterRto (ready : Ready conn) (hrto : conn.state.afterRto = false)
    (hroom : conn.options.length < conn.state.sndMss.toNat)
    (hroom' : conn.options.written.length < conn.state.sndMss.toNat) :
    (∀ fullSegmentsOnly congestionWindow,
      SendDataFinds conn fullSegmentsOnly congestionWindow) ∧ RetransmitDataFinds conn := by
  constructor
  · intro fullSegmentsOnly congestionWindow bytesToSend hbytes
    obtain ⟨n, hstart⟩ := ready.startOfData
    obtain ⟨hne, hle⟩ := hstart.bytesToSend_spec hbytes
    have hundisturbed : conn.startOfData.ahead.Undisturbed conn.startOfData.state.sndMss.toNat := by
      rw [DataSender.startOfData, hrto]
      exact ⟨hrto, hroom, hroom'⟩
    exact hundisturbed.sendData (effectiveMaxBytesSend_ne_zero hundisturbed.room') hne hle
  · have hstart := ready.startOfRetransmission
    have hundisturbed : ({ conn with state := { conn.state with
        sndNxt := conn.state.sndUna } } : DataSender).ahead.Undisturbed
        conn.state.sndMss.toNat := ⟨hrto, hroom, hroom'⟩
    refine hundisturbed.rexmitLoop ?_
    rw [hstart.length_marks]
    exact ready.sndMax_le.trans ready.covered

/-- A call that returns has sent at least one octet. -/
theorem sentBytes_ne_zero (hsack : conn.state.sackEnabled = true)
    (hok : conn.sendSegment bytes = .ok conn') : conn'.state.sentBytes ≠ 0 := by
  intro hzero
  obtain ⟨moved, hforward, hrest⟩ := bind_eq_ok.mp hok
  have hmoved : moved.state.sackEnabled = true := by
    rw [forward] at hforward
    split_ifs at hforward
    · obtain ⟨_, -, hforward⟩ := bind_eq_ok.mp hforward
      cases hforward
      exact hsack
    · cases hforward
      exact hsack
  obtain ⟨-, -, hrest⟩ := bind_eq_ok.mp hrest
  obtain ⟨-, -, hrest⟩ := bind_eq_ok.mp hrest
  simp only [hmoved, if_true] at hrest
  obtain ⟨queue, -, hrest⟩ := bind_eq_ok.mp hrest
  have hempty : moved.limitBytes bytes = 0 := by
    rw [← hzero, ← Except.ok.inj hrest]
    rfl
  obtain ⟨text, herror⟩ := sendSegment_empty hforward hmoved hempty
  rw [hok] at herror
  cases herror

/-- A sender with 3 octets in its queue. The first two have been sent. -/
def twoSent : DataSender where
  state :=
    { sndUna := 1000
      sndNxt := 1002
      sndMax := 1002
      sndWnd := 10
      sndMss := 1 }
  sendQueue := { begin := 1000, «end» := 1003 }
  rexmitQueue :=
    { begin := 1000
      «end» := 1002
      rexmitQueue := [⟨1000, 1002, false, false⟩] }

theorem ready_twoSent : Ready twoSent :=
  ⟨rfl, by decide, rfl, rfl, by decide, by decide, by decide, by decide, by decide⟩

/-- A sender after a retransmission timeout: the first of 3 octets has been sent again, and the
others are sacked. -/
def onlySacked : DataSender where
  state :=
    { sndUna := 1000
      sndNxt := 1001
      sndMax := 1003
      sndWnd := 10
      sndMss := 1
      afterRto := true }
  sendQueue := { begin := 1000, «end» := 1003 }
  rexmitQueue :=
    { begin := 1000
      «end» := 1003
      rexmitQueue := [⟨1000, 1001, false, true⟩, ⟨1001, 1003, true, false⟩] }

end Inet.Tcp.DataSender
