import Inet.Tcp.SackUtil

/-!
# The next segment of a TCP sender in loss recovery

`nextSeg` looks for an octet between the highest one that has been retransmitted and the highest
one that has been sacked. The first octet that is not sacked decides for all of them, because an
octet before a lost one is lost (`Scoreboard.isLostAt_antitone`).
-/

namespace Inet.Tcp

open SerialNumber (ofPos)
open Stretches (behindLast_append behindLast_replicate)

/-- The octets that the rules (1) and (3) are about, as places. -/
def Scoreboard.candidates (board : Scoreboard) : Set ℕ :=
  {k | board.highRxt ≤ k ∧ k < board.highestSacked ∧ board.sackedAt k = false}

namespace Sender

variable {conn : Sender} {board : Scoreboard} {k : ℕ}

/-- What `nextSeg` returns, `none` for `false`. -/
structure Selects (conn : Sender) (board : Scoreboard) (seqNum : Option Uint32) : Prop where
  /-- Rule (1): if some candidate is lost, the first one is returned. -/
  ruleOne : (∃ k ∈ board.candidates, conn.isLost (ofPos conn.state.sndUna k) = .ok true) →
    ∃ first, IsLeast board.candidates first ∧ seqNum = some (ofPos conn.state.sndUna first)
  ruleTwo : (¬∃ k ∈ board.candidates, conn.isLost (ofPos conn.state.sndUna k) = .ok true) →
    conn.ruleTwo = true → seqNum = some conn.state.sndMax
  /-- Rule (3): if there is a candidate at all, the first one is returned. -/
  ruleThree : (¬∃ k ∈ board.candidates, conn.isLost (ofPos conn.state.sndUna k) = .ok true) →
    conn.ruleTwo = false → board.candidates.Nonempty →
      ∃ first, IsLeast board.candidates first ∧ seqNum = some (ofPos conn.state.sndUna first)
  failure : (¬∃ k ∈ board.candidates, conn.isLost (ofPos conn.state.sndUna k) = .ok true) →
    conn.ruleTwo = false → ¬board.candidates.Nonempty → seqNum = none

section

variable (h : Valid conn board)

include h

/-- The loop ends at the first candidate, or finds that there is none. -/
theorem searchLoop_spec (hmax : conn.state.sndMax = board.end)
    (answer : Uint32 → Result (Option Uint32)) (hk : k ≤ board.bytes.length)
    (hhigh : board.highRxt ≤ k)
    (hbefore : ∀ j, board.highRxt ≤ j → j < k → board.sackedAt j = true)
    {fuel : ℕ} (hfuel : board.bytes.length - k < fuel) :
    let run := conn.searchLoop (ofPos conn.state.sndUna board.highestSacked) answer fuel
      (ofPos conn.state.sndUna k)
    (∃ first, IsLeast board.candidates first ∧ run = answer (ofPos conn.state.sndUna first)) ∨
      (¬board.candidates.Nonempty ∧ run = .ok none) := by
  have hlen := h.length_lt
  have hsacked_le := Stretches.behindLast_le_length (p := Flags.sacked) board.bytes
  have hend : conn.state.sndMax = ofPos conn.state.sndUna board.bytes.length := by
    rw [hmax, ← h.begin_eq]
    rfl
  induction fuel generalizing k with
  | zero => omega
  | succ fuel ih =>
    intro run
    have hcond : (seqLess (ofPos conn.state.sndUna k) conn.state.sndMax &&
        seqLess (ofPos conn.state.sndUna k) (ofPos conn.state.sndUna board.highestSacked)) =
          decide (k < board.highestSacked) := by
      have hle : board.highestSacked ≤ board.bytes.length := hsacked_le
      rw [hend, seqLess_ofPos (near_of_lt (by omega) (by omega)),
        seqLess_ofPos (near_of_lt (by omega) (by omega))]
      by_cases hlt : k < board.highestSacked
      · simp [hlt, lt_of_lt_of_le hlt hle]
      · simp [hlt]
    have hrun : run = conn.searchLoop _ answer (fuel + 1) _ := rfl
    rw [searchLoop, hcond] at hrun
    by_cases hlt : k < board.highestSacked
    · obtain ⟨m, a, hpos, hm, hcheck, hblock⟩ :=
        h.represents.checkSackBlock (lt_of_lt_of_le hlt hsacked_le)
      have hflag (j : ℕ) (hj : k ≤ j) (hjm : j < k + m) : board.sackedAt j = a.sacked := by
        simp [Scoreboard.sackedAt, hblock j hj hjm]
      rw [h.begin_eq] at hcheck
      rw [if_pos (decide_eq_true hlt), hcheck, ok_bind] at hrun
      cases ha : a.sacked with
      | false =>
        left
        refine ⟨k, ⟨⟨hhigh, hlt, ?_⟩, fun j hj => ?_⟩, ?_⟩
        · rw [hflag k le_rfl (by omega), ha]
        · by_contra hjk
          have hsacked := hbefore j hj.1 (by omega)
          rw [hj.2.2] at hsacked
          cases hsacked
        · simpa [ha] using hrun
      | true =>
        simp only [ha, Bool.not_true, Bool.false_eq_true, if_false,
          ← SerialNumber.ofPos_add] at hrun
        rw [hrun]
        apply ih hm (by omega) ?_ (by omega)
        intro j hj hjm
        by_cases hjk : j < k
        · exact hbefore j hj hjk
        · rw [hflag j (by omega) hjm, ha]
    · right
      rw [if_neg (by simpa using hlt)] at hrun
      refine ⟨?_, hrun⟩
      rintro ⟨j, hj, hjs, hnot⟩
      have hsacked := hbefore j hj (by omega)
      rw [hnot] at hsacked
      cases hsacked

theorem Valid.getHighestSackedSeqNum : conn.setHighRxt.rexmitQueue.getHighestSackedSeqNum =
      ofPos conn.state.sndUna board.highestSacked := by
  rw [← h.begin_eq]
  exact h.represents.getHighestSackedSeqNum

/-- The search from the highest retransmitted octet on. -/
theorem Valid.searchLoop (hmax : conn.state.sndMax = board.end)
    (answer : Uint32 → Result (Option Uint32)) :
    (∃ first, IsLeast board.candidates first ∧
      conn.setHighRxt.searchLoop (ofPos conn.state.sndUna board.highestSacked) answer
        (conn.setHighRxt.outstanding + 1) conn.setHighRxt.state.highRxt =
          answer (ofPos conn.state.sndUna first)) ∨
    (¬board.candidates.Nonempty ∧
      conn.setHighRxt.searchLoop (ofPos conn.state.sndUna board.highestSacked) answer
        (conn.setHighRxt.outstanding + 1) conn.setHighRxt.state.highRxt = .ok none) := by
  have hvalid : Valid conn.setHighRxt board := ⟨h.sackEnabled, h.represents, h.begin_eq⟩
  have hlen := h.length_lt
  have hhigh : conn.setHighRxt.state.highRxt = ofPos conn.state.sndUna board.highRxt := by
    rw [← h.begin_eq]
    exact h.represents.getHighestRexmittedSeqNum
  have hrounds : conn.setHighRxt.outstanding = board.bytes.length := by
    show (conn.state.sndMax - conn.state.sndUna).toNat = board.bytes.length
    rw [hmax, ← h.begin_eq]
    exact SerialNumber.toNat_ofPos_sub_base (by omega)
  rw [hhigh]
  exact searchLoop_spec hvalid hmax answer
    (Stretches.behindLast_le_length (p := Flags.rexmitted) board.bytes) le_rfl
    (fun j hj hlt => absurd hlt (not_lt.mpr hj))
    (show board.bytes.length - board.highRxt < conn.setHighRxt.outstanding + 1 by omega)

/-- A candidate is lost if the scoreboard says so. -/
theorem Valid.isLost_candidate (hk : k ∈ board.candidates) :
    conn.isLost (ofPos conn.state.sndUna k) = .ok (board.isLostAt conn.state.sndMss k) := by
  apply h.isLost
  exact (hk.2.1.trans_le (Stretches.behindLast_le_length (p := Flags.sacked) _)).le

/-- Without a lost candidate the rules (2) and (3) decide. -/
theorem Valid.nextSeg_of_not_lost (hmax : conn.state.sndMax = board.end)
    (hnone : ¬∃ k ∈ board.candidates, conn.isLost (ofPos conn.state.sndUna k) = .ok true)
    (hone : conn.setHighRxt.ruleOne (ofPos conn.state.sndUna board.highestSacked) = .ok none) :
    ∃ seqNum conn', conn.nextSeg = .ok (seqNum, conn') ∧ Selects conn board seqNum := by
  rw [Sender.nextSeg, assert_of h.sackEnabled, ok_bind]
  simp only [h.getHighestSackedSeqNum, hone, ok_bind]
  by_cases htwo : conn.ruleTwo = true
  · refine ⟨_, _, if_pos htwo, fun hex => absurd hex hnone, fun _ _ => rfl, ?_, ?_⟩
    · exact fun _ hnot => absurd htwo (by simp [hnot])
    · exact fun _ hnot => absurd htwo (by simp [hnot])
  · obtain ⟨first, hleast, hrun⟩ | ⟨hempty, hrun⟩ := h.searchLoop hmax fun s3 => .ok (some s3)
    · refine ⟨some (ofPos conn.state.sndUna first), conn.setHighRxt, ?_,
        fun hex => absurd hex hnone, fun _ h => absurd h htwo, fun _ _ _ => ⟨first, hleast, rfl⟩,
        fun _ _ hempty => absurd ⟨first, hleast.1⟩ hempty⟩
      exact (if_neg htwo).trans (bind_eq_ok.mpr ⟨_, hrun, rfl⟩)
    · refine ⟨none, conn.setHighRxt, ?_, fun hex => absurd hex hnone,
        fun _ h => absurd h htwo, fun _ _ hsome => absurd hsome hempty, fun _ _ _ => rfl⟩
      exact (if_neg htwo).trans (bind_eq_ok.mpr ⟨_, hrun, rfl⟩)

/-- The rules on a valid scoreboard that ends at `snd_max`. -/
theorem Valid.nextSeg (hmax : conn.state.sndMax = board.end) :
    ∃ seqNum conn', conn.nextSeg = .ok (seqNum, conn') ∧ Selects conn board seqNum := by
  obtain ⟨first, hleast, hrun⟩ | ⟨hempty, hrun⟩ := h.searchLoop hmax fun s2 => do
    let lost ← conn.setHighRxt.isLost s2
    .ok (if lost then some s2 else none)
  · have hfirst : conn.setHighRxt.isLost (ofPos conn.state.sndUna first) =
        .ok (board.isLostAt conn.state.sndMss first) := h.isLost_candidate hleast.1
    have hone : conn.setHighRxt.ruleOne (ofPos conn.state.sndUna board.highestSacked) =
        .ok (if board.isLostAt conn.state.sndMss first then
          some (ofPos conn.state.sndUna first) else none) := by
      refine Eq.trans hrun ?_
      show (do
        let lost ← conn.setHighRxt.isLost (ofPos conn.state.sndUna first)
        .ok (if lost then some (ofPos conn.state.sndUna first) else none)) = _
      rw [hfirst, ok_bind]
    cases hfirstLost : board.isLostAt conn.state.sndMss first with
    | true =>
      rw [hfirstLost, if_pos rfl] at hone
      have hex : ∃ k ∈ board.candidates,
          conn.isLost (ofPos conn.state.sndUna k) = .ok true :=
        ⟨first, hleast.1, hfirstLost ▸ hfirst⟩
      refine ⟨some (ofPos conn.state.sndUna first), conn.setHighRxt, ?_,
        fun _ => ⟨first, hleast, rfl⟩, fun hnone => absurd hex hnone,
        fun hnone => absurd hex hnone, fun hnone => absurd hex hnone⟩
      rw [Sender.nextSeg, assert_of h.sackEnabled, ok_bind]
      simp only [h.getHighestSackedSeqNum, hone, ok_bind]
    | false =>
      rw [hfirstLost] at hone
      refine h.nextSeg_of_not_lost hmax ?_ hone
      rintro ⟨k, hk, hkLost⟩
      -- a lost candidate makes the first one lost
      have hat := Except.ok.inj ((h.isLost_candidate hk).symm.trans hkLost)
      have hbefore := Scoreboard.isLostAt_antitone (hleast.2 hk) hat
      rw [hfirstLost] at hbefore
      cases hbefore
  · exact h.nextSeg_of_not_lost hmax (fun ⟨k, hk, _⟩ => hempty ⟨k, hk⟩) hrun

end

/-- Whichever scoreboard of less than 2^31 octets passes `checkQueue` over `[snd_una, snd_max)`,
and whatever `snd_mss` is: `nextSeg` returns the first octet from `highRxt` on that is not sacked
if some such octet below the highest sacked one is lost. Otherwise, unless rule (2) applies, it
returns this octet if there is one below the highest sacked one, and fails only if there is
none. -/
theorem nextSeg_spec (hsack : conn.state.sackEnabled = true)
    (hcheck : conn.rexmitQueue.checkQueue = true)
    (hbegin : conn.rexmitQueue.begin = conn.state.sndUna)
    (hend : conn.rexmitQueue.end = conn.state.sndMax)
    (hlen : conn.rexmitQueue.denote.bytes.length < 2 ^ 31) :
    ∃ seqNum conn', conn.nextSeg = .ok (seqNum, conn') ∧
      Selects conn conn.rexmitQueue.denote seqNum := by
  have hrepresents := TCPSACKRexmitQueue.represents_denote hcheck hlen
  refine Valid.nextSeg ⟨hsack, hrepresents, hbegin⟩ ?_
  obtain ⟨_, -, -, heq, -⟩ := hrepresents
  rw [← hend, heq]

/-- A sender whose first octet is lost: the three behind it are sacked. -/
def firstLost : Sender where
  state :=
    { sndUna := 1000
      sndNxt := 1004
      sndMax := 1004
      sndMss := 1 }
  sendQueue := { begin := 1000, «end» := 1004 }
  rexmitQueue :=
    { begin := 1000
      «end» := 1004
      rexmitQueue := [⟨1000, 1001, false, false⟩, ⟨1001, 1004, true, false⟩] }

theorem nextSeg_firstLost : ∃ seqNum conn', firstLost.nextSeg = .ok (seqNum, conn') ∧
    Selects firstLost firstLost.rexmitQueue.denote seqNum :=
  nextSeg_spec rfl (by decide) rfl rfl (by decide)

example : Prod.fst <$> firstLost.nextSeg = .ok (some 1000) := by decide

/-- The octets of the scoreboard are 2^31 + 1, and all but the first sixteen are sacked. -/
def farSacked : Sender where
  state :=
    { sndUna := 0
      sndNxt := 0x80000001
      sndMax := 0x80000001
      sndMss := 1000 }
  sendQueue := { begin := 0, «end» := 0x80000001 }
  rexmitQueue :=
    { begin := 0
      «end» := 0x80000001
      rexmitQueue := [⟨0, 0x10, false, false⟩, ⟨0x10, 0x40000000, true, false⟩,
        ⟨0x40000000, 0x80000001, true, false⟩] }

theorem zero_mem_candidates_farSacked : 0 ∈ farSacked.rexmitQueue.denote.candidates := by
  obtain ⟨k, m, n, hk, hn, hbytes⟩ : ∃ k m n : ℕ, 0 < k ∧ 0 < n ∧
      farSacked.rexmitQueue.denote.bytes = List.replicate k ⟨false, false⟩ ++
        (List.replicate m ⟨true, false⟩ ++ (List.replicate n ⟨true, false⟩ ++ [])) := by
    refine ⟨_, _, _, ?_, ?_, rfl⟩
    all_goals decide
  refine ⟨?_, ?_, ?_⟩
  · rw [Scoreboard.highRxt, hbytes]
    simp [behindLast_append, behindLast_replicate]
  · rw [Scoreboard.highestSacked, hbytes]
    simp [behindLast_append, behindLast_replicate, hn.ne']
    omega
  · rw [Scoreboard.sackedAt, hbytes, List.getElem?_append_left (by simpa using hk),
      List.getElem?_replicate, if_pos hk]
    rfl

/-- The end of the scoreboard does not compare as greater than its first octet, so neither loop
looks at any octet. -/
theorem not_selects_farSacked : farSacked.rexmitQueue.checkQueue = true ∧
    ¬∃ seqNum conn', farSacked.nextSeg = .ok (seqNum, conn') ∧
      Selects farSacked farSacked.rexmitQueue.denote seqNum := by
  refine ⟨by decide, ?_⟩
  rintro ⟨seqNum, conn', hnext, hselects⟩
  have hloop (answer : Uint32 → Result (Option Uint32)) (rounds : ℕ) :
      farSacked.searchLoop 0x80000001 answer (rounds + 1) 0 = .ok none := by
    rw [searchLoop, if_neg (by decide)]
  have hnone : farSacked.nextSeg = .ok (none, farSacked) := by
    have hsack : farSacked.state.sackEnabled = true := rfl
    rw [nextSeg, assert_of hsack, ok_bind]
    have hone : farSacked.setHighRxt.ruleOne
        farSacked.setHighRxt.rexmitQueue.getHighestSackedSeqNum = .ok none := hloop _ _
    have hthree : farSacked.setHighRxt.ruleThree
        farSacked.setHighRxt.rexmitQueue.getHighestSackedSeqNum = .ok none := hloop _ _
    dsimp only
    rw [hone, ok_bind]
    dsimp only
    rw [if_neg (by decide), hthree]
    rfl
  rw [hnone] at hnext
  cases hnext
  by_cases hlost : ∃ k ∈ farSacked.rexmitQueue.denote.candidates,
      farSacked.isLost (ofPos farSacked.state.sndUna k) = .ok true
  · obtain ⟨first, -, heq⟩ := hselects.ruleOne hlost
    cases heq
  · obtain ⟨first, -, heq⟩ :=
      hselects.ruleThree hlost (by decide) ⟨0, zero_mem_candidates_farSacked⟩
    cases heq

end Sender

end Inet.Tcp
