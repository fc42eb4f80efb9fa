import Inet.Tcp.SackUtil

/-!
# The pipe of a TCP sender

`setPipe` estimates how many octets are in the network. `rfcPipe` is the sum over the octets that
the estimate is meant to be, and `setsPipe_iff` says when the two agree: as long as the FIN is not
among what is outstanding. The FIN counts for `snd_max`, but it is not in the scoreboard.
-/

namespace Inet.Tcp.Sender

open SerialNumber (ofPos)
open TCPSACKRexmitQueue (Represents)

variable {conn : Sender} {board : Scoreboard} {k m : ℕ} {a : Flags}

/-- What an octet counts: once if it is not lost, and once if it has been retransmitted. -/
def octetPipe (conn : Sender) (board : Scoreboard) (k : ℕ) : ℕ :=
  if board.sackedAt k then 0
  else
    (if conn.isLost (ofPos conn.state.sndUna k) = .ok false then 1 else 0) +
      (if k < board.highRxt then 1 else 0)

/-- The pipe, octet by octet. -/
def rfcPipe (conn : Sender) (board : Scoreboard) : ℕ :=
  ∑ k ∈ Finset.range board.bytes.length, conn.octetPipe board k

/-- The octets of a block all count the same. -/
theorem octetPipe_eq (h : Valid conn board) (hm : k + m ≤ board.bytes.length)
    (hblock : ∀ j, k ≤ j → j < k + m → board.bytes[j]? = some a) {j : ℕ} (hj : k ≤ j)
    (hjm : j < k + m) : conn.octetPipe board j = conn.octetPipe board k := by
  have hsacked (j : ℕ) (hj : k ≤ j) (hjm : j < k + m) : board.sackedAt j = a.sacked := by
    simp [Scoreboard.sackedAt, hblock j hj hjm]
  rw [octetPipe, octetPipe, hsacked j hj hjm, hsacked k le_rfl (by omega)]
  by_cases ha : a.sacked = true
  · rw [if_pos ha, if_pos ha]
  · rw [if_neg ha, if_neg ha]
    have hlost : board.isLostAt conn.state.sndMss j = board.isLostAt conn.state.sndMss k := by
      apply Scoreboard.isLostAt_eq hj
      intro i hi hij
      rw [hsacked i hi (by omega)]
      simpa using ha
    have hhigh : j < board.highRxt ↔ k < board.highRxt :=
      Stretches.lt_behindLast_iff hblock hj hjm
    rw [h.isLost (by omega), h.isLost (by omega), hlost]
    simp only [hhigh]

section

variable (h : Valid conn board) (hhigh : conn.state.highRxt = ofPos conn.state.sndUna board.highRxt)

include h hhigh

/-- The block is counted at once. -/
theorem addToPipe_spec (hpos : 0 < m)
    (hm : k + m ≤ board.bytes.length)
    (hblock : ∀ j, k ≤ j → j < k + m → board.bytes[j]? = some a) (pipe : Uint32) :
    conn.addToPipe pipe (ofPos conn.state.sndUna k) (BitVec.ofNat 32 m) a.sacked =
      .ok (pipe + BitVec.ofNat 32 (∑ j ∈ Finset.Ico k (k + m), conn.octetPipe board j)) := by
  have hsum : ∑ j ∈ Finset.Ico k (k + m), conn.octetPipe board j = m * conn.octetPipe board k := by
    rw [Finset.sum_const_nat (m := conn.octetPipe board k), Nat.card_Ico, Nat.add_sub_cancel_left]
    intro j hj
    obtain ⟨hj, hjm⟩ := Finset.mem_Ico.mp hj
    exact octetPipe_eq h hm hblock hj hjm
  have hlen := h.length_lt
  have hsacked : board.sackedAt k = a.sacked := by
    simp [Scoreboard.sackedAt, hblock k le_rfl (by omega)]
  have hle := Stretches.behindLast_le_length (p := Flags.rexmitted) board.bytes
  have hless : seqLess (ofPos conn.state.sndUna k) conn.state.highRxt =
      decide (k < board.highRxt) := by
    rw [hhigh]
    exact seqLess_ofPos (near_of_lt (by omega) (lt_of_le_of_lt hle hlen))
  have hlost := h.isLost (k := k) (by omega)
  rw [hsum, octetPipe, hsacked, addToPipe, hlost, hless]
  cases a.sacked
  · by_cases hrxt : k < board.highRxt
    · cases board.isLostAt conn.state.sndMss k
      · simp [hrxt, Nat.mul_two, BitVec.ofNat_add, BitVec.add_assoc]
      · simp [hrxt]
    · cases board.isLostAt conn.state.sndMss k
      · simp [hrxt]
      · simp [hrxt]
  · simp

/-- The loop adds up the octets from `k` on, and then runs into the FIN if there is one. -/
theorem setPipeLoop_spec {last : ℕ}
    (hlast : last = board.bytes.length ∨ last = board.bytes.length + 1) (hlt : last < 2 ^ 31)
    (hmax : conn.state.sndMax = ofPos conn.state.sndUna last) (hk : k ≤ board.bytes.length)
    {fuel : ℕ} (hfuel : last - k < fuel) (pipe : Uint32) :
    conn.setPipeLoop fuel (ofPos conn.state.sndUna k) pipe = if last = board.bytes.length then
        .ok (pipe + BitVec.ofNat 32 (∑ j ∈ Finset.Ico k board.bytes.length, conn.octetPipe board j))
      else .error (.assertion "seqLE(begin, fromSeqNum) && seqLess(fromSeqNum, end)") := by
  induction fuel generalizing k pipe with
  | zero => omega
  | succ fuel ih =>
    have hless : seqLess (ofPos conn.state.sndUna k) conn.state.sndMax = decide (k < last) := by
      rw [hmax]
      exact seqLess_ofPos (near_of_lt (by omega) hlt)
    rw [setPipeLoop, hless]
    obtain hkl | rfl := Nat.lt_or_eq_of_le hk
    · obtain ⟨m, a, hpos, hm, hcheck, hblock⟩ := h.represents.checkSackBlock hkl
      rw [h.begin_eq] at hcheck
      rw [if_pos (decide_eq_true (by omega)), hcheck]
      simp only [ok_bind, addToPipe_spec h hhigh hpos hm hblock, ← SerialNumber.ofPos_add]
      rw [ih hm (by omega), BitVec.add_assoc, ← BitVec.ofNat_add,
        Finset.sum_Ico_consecutive _ (by omega) hm]
    · obtain rfl | rfl := hlast
      · rw [if_neg (by simp), if_pos rfl, Finset.Ico_self, Finset.sum_empty]
        simp
      · rw [if_pos (decide_eq_true (by omega)), if_neg (by omega)]
        have hcheck := h.represents.checkSackBlock_end
        rw [h.begin_eq] at hcheck
        rw [hcheck]
        rfl

end

/-- The states of the send side: what is outstanding is the data in the scoreboard, and the FIN once
it has been sent. When the FIN has been acknowledged nothing is outstanding. -/
inductive Reached (conn : Sender) (board : Scoreboard) : Prop
  | data (valid : Valid conn board) (sndMax : conn.state.sndMax = board.end)
  | fin (valid : Valid conn board) (sndMax : conn.state.sndMax = board.end + 1)
      (window : board.bytes.length + 1 < 2 ^ 31)
  | acknowledged (sackEnabled : conn.state.sackEnabled = true)
      (represents : Represents conn.rexmitQueue board) (bytes : board.bytes = [])
      (sndUna : conn.state.sndUna = board.end + 1)
      (sndMax : conn.state.sndMax = board.end + 1)

/-- `setPipe` ends, and the pipe is the sum over the octets. -/
def SetsPipe (conn : Sender) (board : Scoreboard) : Prop :=
  ∃ conn', conn.setPipe = .ok conn' ∧ conn'.state.pipe.toNat = conn.rfcPipe board

theorem octetPipe_le (conn : Sender) (board : Scoreboard) (k : ℕ) : conn.octetPipe board k ≤ 2 := by
  rw [octetPipe]
  split_ifs <;> omega

theorem rfcPipe_lt (h : Valid conn board) : conn.rfcPipe board < 2 ^ 32 := by
  have hlen := h.length_lt
  calc conn.rfcPipe board
      ≤ ∑ _k ∈ Finset.range board.bytes.length, 2 :=
        Finset.sum_le_sum fun k _ => octetPipe_le conn board k
    _ = board.bytes.length * 2 := by
        rw [Finset.sum_const, Finset.card_range, nsmul_eq_mul]
        rfl
    _ < 2 ^ 32 := by omega

theorem setPipe_eq (h : conn.state.sackEnabled = true) : conn.setPipe = (do
      let pipe ← conn.setHighRxt.setPipeLoop (conn.setHighRxt.outstanding + 1)
        conn.setHighRxt.state.sndUna 0
      .ok (conn.setHighRxt.withPipe pipe)) := by
  rw [setPipe, assert_of h]
  rfl

/-- What `setPipe` does on a valid scoreboard, with the FIN behind it or not. -/
theorem setPipe_spec (h : Valid conn board) {last : ℕ}
    (hlast : last = board.bytes.length ∨ last = board.bytes.length + 1) (hlt : last < 2 ^ 31)
    (hmax : conn.state.sndMax = ofPos conn.state.sndUna last) :
    SetsPipe conn board ↔ last = board.bytes.length := by
  have hvalid : Valid conn.setHighRxt board := ⟨h.sackEnabled, h.represents, h.begin_eq⟩
  have hhigh : conn.setHighRxt.state.highRxt = ofPos conn.state.sndUna board.highRxt := by
    rw [← h.begin_eq]
    exact h.represents.getHighestRexmittedSeqNum
  have hrounds : conn.setHighRxt.outstanding = last := by
    show (conn.state.sndMax - conn.state.sndUna).toNat = last
    rw [hmax]
    exact SerialNumber.toNat_ofPos_sub_base (by omega)
  have hloop := setPipeLoop_spec hvalid hhigh hlast hlt hmax (Nat.zero_le _)
    (show last - 0 < conn.setHighRxt.outstanding + 1 by omega) 0
  have hstart : ofPos conn.setHighRxt.state.sndUna 0 = conn.setHighRxt.state.sndUna :=
    SerialNumber.ofPos_zero _
  rw [hstart] at hloop
  rw [SetsPipe, setPipe_eq h.sackEnabled, hloop]
  by_cases hdata : last = board.bytes.length
  · rw [if_pos hdata]
    refine iff_of_true ⟨_, rfl, ?_⟩ hdata
    show (0#32 + BitVec.ofNat 32
      (∑ j ∈ Finset.Ico 0 board.bytes.length, conn.octetPipe board j)).toNat = _
    rw [BitVec.zero_add, BitVec.toNat_ofNat, ← Finset.range_eq_Ico]
    exact Nat.mod_eq_of_lt (rfcPipe_lt h)
  · rw [if_neg hdata]
    exact iff_of_false (fun ⟨_, hrun, _⟩ => by cases hrun) hdata

/-- `setPipe` computes the pipe just in case our FIN is not among what is outstanding: `snd_max` is
the end of the data in the scoreboard, or everything has been acknowledged. -/
theorem setsPipe_iff (h : Reached conn board) : SetsPipe conn board ↔
      (conn.state.sndMax = conn.rexmitQueue.end ∨ conn.state.sndMax = conn.state.sndUna) := by
  have hend (h : Represents conn.rexmitQueue board) : conn.rexmitQueue.end = board.end := by
    obtain ⟨_, -, -, hend, -⟩ := h
    exact hend
  cases h with
  | data valid sndMax =>
    have hmax : conn.state.sndMax = ofPos conn.state.sndUna board.bytes.length := by
      rw [sndMax, ← valid.begin_eq]
      rfl
    rw [setPipe_spec valid (.inl rfl) valid.length_lt hmax, hend valid.represents]
    exact iff_of_true rfl (.inl sndMax)
  | fin valid sndMax window =>
    have hmax : conn.state.sndMax = ofPos conn.state.sndUna (board.bytes.length + 1) := by
      rw [sndMax, ← valid.begin_eq, SerialNumber.ofPos_succ]
      rfl
    rw [setPipe_spec valid (.inr rfl) window hmax, hend valid.represents]
    refine iff_of_false (by omega) ?_
    rintro (heq | heq)
    · rw [sndMax] at heq
      bv_omega
    · rw [sndMax, ← valid.begin_eq, Scoreboard.end] at heq
      bv_omega
  | acknowledged sackEnabled represents bytes sndUna sndMax =>
    have hdone : seqLess conn.setHighRxt.state.sndUna conn.setHighRxt.state.sndMax = false := by
      show seqLess conn.state.sndUna conn.state.sndMax = false
      rw [sndMax, sndUna]
      simp [seqLess]
    have hloop : conn.setHighRxt.setPipeLoop (conn.setHighRxt.outstanding + 1)
        conn.setHighRxt.state.sndUna 0 = .ok 0 := by
      rw [setPipeLoop, hdone]
      rfl
    rw [SetsPipe, setPipe_eq sackEnabled, hloop]
    refine iff_of_true ⟨_, rfl, ?_⟩ (.inr (sndMax.trans sndUna.symm))
    rw [rfcPipe, bytes]
    rfl

/-- A sender with 3 octets in flight, the last one sacked. -/
def threeOctets (sndMax : Uint32) : Sender where
  state :=
    { sndUna := 1000
      sndNxt := sndMax
      sndMax := sndMax
      sndMss := 1
      sendFin := true
      sndFinSeq := 1003 }
  sendQueue := { begin := 1000, «end» := 1003 }
  rexmitQueue :=
    { begin := 1000
      «end» := 1003
      rexmitQueue := [⟨1000, 1001, false, true⟩, ⟨1001, 1002, false, false⟩,
        ⟨1002, 1003, true, false⟩] }

def threeFlags : Scoreboard where
  begin := 1000
  bytes := [⟨false, true⟩, ⟨false, false⟩, ⟨true, false⟩]

theorem valid_threeOctets (sndMax : Uint32) : Valid (threeOctets sndMax) threeFlags where
  sackEnabled := rfl
  represents :=
    ⟨[(1, ⟨false, true⟩), (1, ⟨false, false⟩), (1, ⟨true, false⟩)], rfl, rfl, rfl,
      by simp [RunLength.Proper], by decide, rfl⟩
  begin_eq := rfl

/-- Without a FIN the pipe is right: two octets are not lost, and one of them has been sent
again. -/
theorem setsPipe_threeOctets : SetsPipe (threeOctets 1003) threeFlags :=
  (setsPipe_iff (.data (valid_threeOctets 1003) rfl)).mpr (.inl rfl)

/-- With the FIN in flight the loop runs into the assertion. -/
theorem not_setsPipe_fin : Reached (threeOctets 1004) threeFlags ∧ (threeOctets 1004).setPipe =
      .error (.assertion "seqLE(begin, fromSeqNum) && seqLess(fromSeqNum, end)") :=
  ⟨.fin (valid_threeOctets 1004) rfl (by decide), by decide⟩

example : (threeOctets 1003).rfcPipe threeFlags = 3 := by decide

end Inet.Tcp.Sender
