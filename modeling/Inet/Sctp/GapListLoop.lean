import Inet.Sctp.GapList

/-!
# The loop of `updateGapList`

The loop and the actions it ends with, on the positions of the TSNs: which blocks are passed,
what filling a hole does (`fillHole_eq_insert`), and what happens behind the last block
(`updateEnd_eq_insert`, `updateEnd_eq_self`).
-/

namespace Inet.Sctp.SCTPSimpleGapList

open SerialNumber Intervals

variable {base c : Uint32} {new : Bool} {C T L : ℕ} {i p : ℕ × ℕ} {l m : List (ℕ × ℕ)}
  {before behind : List Gap} {B : List (ℕ × ℕ)}

/-- What the loop does with one block. -/
theorem updateLoop_cons (hi : Fits C i) (hL : C < L ∧ L ≤ C + 2 ^ 31)
    (hT : C < T ∧ T < C + 2 ^ 31) :
    updateLoop (ofPos base T) c new (ofPos base L) before (gapAt base i :: behind) =
      if ofPos base i.1 = 0 then
        updateLoop (ofPos base T) c new (ofPos base L) (before ++ [gapAt base i]) behind
      else if L ≤ T ∧ T < i.1 then do
        let (c, gaps) ← fillHole (ofPos base T) c (ofPos base L) (ofPos base (i.1 - 1)) before
          (gapAt base i) behind
        .ok ⟨true, c, true, ⟨gaps⟩⟩
      else
        updateLoop (ofPos base T) c new (ofPos base i.2) (before ++ [gapAt base i]) behind := by
  obtain ⟨habove, hproper, hbound⟩ := hi
  have hnear : Near 32 L T := near_of_window hL ⟨hT.1, hT.2.le⟩
  have hnear' : Near 32 T (i.1 - 1) := near_of_window ⟨hT.1, hT.2.le⟩ ⟨by omega, by omega⟩
  have hbetween : (L ≤ T ∧ T ≤ i.1 - 1) ↔ L ≤ T ∧ T < i.1 := by omega
  rw [updateLoop]
  simp only [gapAt, ofPos_pos_iff, ofPos_pred (n := i.1) (by omega),
    tsnBetween_ofPos hnear hnear', ofPos_pred_succ (n := i.2) (by omega), decide_eq_true_eq,
    hbetween, ite_not]

/-- `lo` behind the blocks of a list: the end of the last one that is not skipped. -/
def loAfter (base : Uint32) : ℕ → List (ℕ × ℕ) → ℕ
  | L, [] => L
  | L, i :: l => loAfter base (if ofPos base i.1 = 0 then L else i.2) l

theorem loAfter_concat (L : ℕ) : loAfter base L (l ++ [i]) =
    if ofPos base i.1 = 0 then loAfter base L l else i.2 := by
  induction l generalizing L with
  | nil => rfl
  | cons j l ih => exact ih _

/-- The blocks that begin at the received TSN or before it are passed. -/
theorem updateLoop_pass (hm : ∀ i ∈ m, Fits C i ∧ i.1 ≤ T) (hL : C < L ∧ L ≤ C + 2 ^ 31)
    (hT : C < T ∧ T < C + 2 ^ 31) :
    updateLoop (ofPos base T) c new (ofPos base L) before (gapsAt base m ++ behind) =
      updateLoop (ofPos base T) c new (ofPos base (loAfter base L m))
        (before ++ gapsAt base m) behind := by
  induction m generalizing L before with
  | nil => simp [loAfter]
  | cons i m ih =>
    obtain ⟨⟨hi, hle⟩, hm⟩ := List.forall_mem_cons.mp hm
    have hend : C < i.2 ∧ i.2 ≤ C + 2 ^ 31 :=
      ⟨(Nat.lt_succ_self C).trans (hi.above.trans hi.proper), hi.bound⟩
    have hnot : ¬ (L ≤ T ∧ T < i.1) := by omega
    rw [gapsAt_cons, List.cons_append, updateLoop_cons hi hL hT, if_neg hnot, loAfter]
    by_cases hzero : ofPos base i.1 = 0
    · rw [if_pos hzero, if_pos hzero, ih hm hL, List.append_assoc, List.singleton_append]
    · rw [if_neg hzero, if_neg hzero, ih hm hend, List.append_assoc, List.singleton_append]

/-- Once `lo` is behind the received TSN no block is found. -/
theorem updateLoop_beyond (hm : ∀ i ∈ m, Fits C i ∧ T < i.2) (hL : T < L ∧ L ≤ C + 2 ^ 31)
    (hT : C < T ∧ T < C + 2 ^ 31) :
    ∃ L', T < L' ∧ L' ≤ C + 2 ^ 31 ∧
      updateLoop (ofPos base T) c new (ofPos base L) before (gapsAt base m) =
        updateEnd (ofPos base T) c new (ofPos base L') (before ++ gapsAt base m) := by
  induction m generalizing L before with
  | nil => exact ⟨L, hL.1, hL.2, by simp [updateLoop]⟩
  | cons i m ih =>
    obtain ⟨⟨hi, hlt⟩, hm⟩ := List.forall_mem_cons.mp hm
    have hnot : ¬ (L ≤ T ∧ T < i.1) := by omega
    have hassoc : before ++ gapsAt base (i :: m) = before ++ [gapAt base i] ++ gapsAt base m := by
      simp
    rw [gapsAt_cons, updateLoop_cons hi ⟨hT.1.trans hL.1, hL.2⟩ hT, if_neg hnot, ← gapsAt_cons,
      hassoc]
    by_cases hzero : ofPos base i.1 = 0
    · rw [if_pos hzero]
      exact ih hm hL
    · rw [if_neg hzero]
      exact ih hm ⟨hlt, hi.bound⟩

/-- The actions for a hole, on the positions. -/
theorem fillHole_ofPos (hi : Fits C i) (hL : C < L) (hLT : L ≤ T) (hTi : T < i.1) :
    fillHole (ofPos base T) (ofPos base C) (ofPos base L) (ofPos base (i.1 - 1)) before
        (gapAt base i) behind =
      if L + 1 < i.1 then
        if T + 1 = i.1 then .ok (ofPos base C, before ++ gapAt base (T, i.2) :: behind)
        else if T = L then
          if T = C + 1 then .ok (ofPos base (C + 1), before ++ gapAt base i :: behind)
          else do
            let before ← modifyLastStop (fun _ => ofPos base T) before
            .ok (ofPos base C, before ++ gapAt base i :: behind)
        else
          .ok (ofPos base C,
            (before ++ gapAt base (T, T + 1) :: gapAt base i :: behind).take MAX_GAP_COUNT)
      else if L = C + 1 then .ok (ofPos base (i.2 - 1), before ++ behind)
      else
        (do
          let before ← modifyLastStop (fun _ => ofPos base (i.2 - 1)) before
          .ok (ofPos base C, before ++ behind)) := by
  obtain ⟨habove, hproper, hbound⟩ := hi
  have hinj : ∀ {p q : ℕ}, (C < p ∧ p ≤ C + 2 ^ 31) → (C < q ∧ q ≤ C + 2 ^ 31) →
      (ofPos base p = ofPos base q ↔ p = q) :=
    fun hp hq => ofPos_inj (by decide) (near_of_window hp hq)
  have hsize : ofPos base (i.1 - 1) - ofPos base L + 1 = BitVec.ofNat 32 (i.1 - L) := by
    rw [ofPos_sub_ofPos (by omega)]
    have hlen : i.1 - L = i.1 - 1 - L + 1 := by omega
    rw [hlen, BitVec.ofNat_add]
    rfl
  have hgt : BitVec.ofNat 32 (i.1 - L) > 1 ↔ L + 1 < i.1 := by
    rw [gt_iff_lt, BitVec.lt_def, BitVec.toNat_ofNat, Nat.mod_eq_of_lt (by omega)]
    show 1 < i.1 - L ↔ L + 1 < i.1
    omega
  have hsucc : ofPos base C + 1 = ofPos base (C + 1) := (ofPos_succ base C).symm
  have hTpred : T = i.1 - 1 ↔ T + 1 = i.1 := by omega
  have hhi := hinj (p := T) (q := i.1 - 1) (by omega) (by omega)
  have hlo := hinj (p := T) (q := L) (by omega) (by omega)
  have hack := hinj (p := T) (q := C + 1) (by omega) (by omega)
  have hloack := hinj (p := L) (q := C + 1) (by omega) (by omega)
  unfold fillHole
  simp only [hsize, hgt, hsucc, hhi, hTpred, hlo, hack, hloack]
  rfl

theorem updateEnd_ofPos (hL : C < L ∧ L ≤ C + 2 ^ 31) (hT : C < T ∧ T < C + 2 ^ 31)
    (gaps : List Gap) :
    updateEnd (ofPos base T) (ofPos base C) new (ofPos base L) gaps = if T = L then
        if T = C + 1 then .ok ⟨true, ofPos base T, true, ⟨gaps⟩⟩
        else do
          let gaps ← modifyLastStop (· + 1) gaps
          .ok ⟨true, ofPos base C, true, ⟨gaps⟩⟩
      else if gaps.getLast?.all fun last => tsnGt (ofPos base T) (last.stop + 1) then
        if gaps.length < MAX_GAP_COUNT then
          .ok ⟨true, ofPos base C, true, ⟨gaps ++ [gapAt base (T, T + 1)]⟩⟩
        else .ok ⟨true, ofPos base C, new, ⟨gaps⟩⟩
      else .ok ⟨true, ofPos base C, new, ⟨gaps⟩⟩ := by
  have hinj : ∀ {p q : ℕ}, (C < p ∧ p ≤ C + 2 ^ 31) → (C < q ∧ q ≤ C + 2 ^ 31) →
      (ofPos base p = ofPos base q ↔ p = q) :=
    fun hp hq => ofPos_inj (by decide) (near_of_window hp hq)
  have hsucc : ofPos base C + 1 = ofPos base (C + 1) := (ofPos_succ base C).symm
  have hlo := hinj (p := T) (q := L) (by omega) hL
  have hack := hinj (p := T) (q := C + 1) (by omega) (by omega)
  unfold updateEnd
  simp only [hsucc, hlo, hack]
  rfl

@[simp] theorem modifyLastStop_concat (f : Uint32 → Uint32) (gaps : List Gap) (gap : Gap) :
    modifyLastStop f (gaps ++ [gap]) = .ok (gaps ++ [{ gap with stop := f gap.stop }]) := by
  simp [modifyLastStop]

/-- The cumulative ack and the blocks of a list of intervals, the first of which stands for
the numbers up to the cumulative ack. -/
def wordsAt (base : Uint32) : List (ℕ × ℕ) → Uint32 × List Gap
  | [] => (base, [])
  | i :: l => (ofPos base (i.2 - 1), gapsAt base l)

/-- With `lo` behind the block in front of the hole, filling it adds the TSN. -/
theorem fillHole_eq_insert {Q : List (ℕ × ℕ)} (h : Layout C (B ++ i :: m))
    (hlen : (B ++ i :: m).length < MAX_GAP_COUNT) (hB : (0, C + 1) :: B = Q ++ [p])
    (hpT : p.2 ≤ T) (hTi : T < i.1) :
    fillHole (ofPos base T) (ofPos base C) (ofPos base p.2) (ofPos base (i.1 - 1))
        (gapsAt base B) (gapAt base i) (gapsAt base m) =
      .ok (wordsAt base (insert ((0, C + 1) :: (B ++ i :: m)) (T, T + 1))) := by
  have hfits := h.fits (i := i) (by simp)
  have htake : ∀ gap : Gap, (gapsAt base B ++ gap :: gapAt base i :: gapsAt base m).take
      MAX_GAP_COUNT = gapsAt base B ++ gap :: gapAt base i :: gapsAt base m := by
    intro gap
    apply List.take_of_length_le
    simp only [List.length_append, List.length_cons, length_gapsAt] at hlen ⊢
    omega
  have hsplit : (0, C + 1) :: (B ++ i :: m) = Q ++ p :: i :: m := by
    rw [← List.cons_append, hB, List.append_assoc, List.singleton_append]
  have hasc : Ascending (Q ++ p :: i :: m) := hsplit ▸ h.ascending
  have hprop : Proper (Q ++ p :: i :: m) := hsplit ▸ h.proper_cons
  have hp : C < p.2 := by
    have hmem : p ∈ (0, C + 1) :: B := hB ▸ by simp
    obtain rfl | hmem := List.mem_cons.mp hmem
    · exact Nat.lt_succ_self C
    · have := h.fits (i := p) (by simp [hmem])
      exact (Nat.lt_succ_self C).trans (this.above.trans this.proper)
  have habove : ∀ j ∈ m, i.2 < j.1 := by
    have hassoc : Q ++ p :: i :: m = (Q ++ [p]) ++ i :: m := by simp
    exact (hassoc ▸ hasc).apart.2
  have hfar : T + 1 < i.1 → ∀ j ∈ i :: m, T + 1 < j.1 := by
    intro hlt j hj
    obtain rfl | hj := List.mem_cons.mp hj
    · exact hlt
    · exact hlt.trans (hfits.proper.trans (habove j hj))
  rw [fillHole_ofPos hfits hp hpT hTi, hsplit]
  -- the block in front of the hole is the cumulative ack, or a block `p` of the list
  cases Q with
  | nil =>
    obtain ⟨rfl, rfl⟩ : (0, C + 1) = p ∧ B = [] := by simpa using hB
    by_cases hleft : C + 1 = T <;> by_cases hright : T + 1 = i.1
    · rw [insert_point_both hasc hprop hleft hright, if_neg (by simp only; omega), if_pos rfl]
      rfl
    · rw [insert_point_left hasc hprop hleft (hfar (by omega)), if_pos (by simp only; omega),
        if_neg hright, if_pos hleft.symm, if_pos hleft.symm, hleft]
      rfl
    · rw [insert_point_right hasc hprop (by simp only; omega) hright,
        if_pos (by simp only; omega), if_pos hright]
      rfl
    · rw [insert_point_apart hasc hprop (by simp only; omega) (hfar (by omega)),
        if_pos (by simp only; omega), if_neg hright, if_neg (by simp only; omega), htake]
      rfl
  | cons q A =>
    obtain ⟨rfl, rfl⟩ : (0, C + 1) = q ∧ B = A ++ [p] := by simpa using hB
    have hack : C + 1 < p.2 :=
      (h.fits (i := p) (by simp)).above.trans (h.fits (i := p) (by simp)).proper
    by_cases hleft : p.2 = T <;> by_cases hright : T + 1 = i.1
    · rw [insert_point_both hasc hprop hleft hright, if_neg (by omega), if_neg (by omega)]
      simp [wordsAt, gapAt]
    · rw [insert_point_left hasc hprop hleft (hfar (by omega)), if_pos (by omega),
        if_neg hright, if_pos hleft.symm, if_neg (by omega)]
      simp [wordsAt, gapAt]
    · rw [insert_point_right hasc hprop (by omega) hright, if_pos (by omega), if_pos hright]
      simp [wordsAt]
    · rw [insert_point_apart hasc hprop (by omega) (hfar (by omega)),
        if_pos (by omega), if_neg hright, if_neg (by omega), htake]
      simp [wordsAt]

/-- The last block lies before the received TSN and does not touch it. -/
theorem all_last_iff (hT : C < T ∧ T < C + 2 ^ 31) (hi : C < i.2 ∧ i.2 ≤ C + 2 ^ 31) :
    ((gapsAt base (B ++ [i])).getLast?.all fun last =>
      tsnGt (ofPos base T) (last.stop + 1)) = decide (i.2 < T) := by
  have hnear : Near 32 T i.2 := near_of_window ⟨hT.1, hT.2.le⟩ hi
  simp only [gapsAt_append, gapsAt_cons, gapsAt_nil, List.getLast?_concat, Option.all_some, gapAt]
  rw [ofPos_pred_succ (by omega), tsnGt_ofPos hnear]

/-- With `lo` behind the last block, the end of the list is the right place for the TSN. -/
theorem updateEnd_eq_insert {Q : List (ℕ × ℕ)} (h : Layout C B) (hlen : B.length < MAX_GAP_COUNT)
    (hB : (0, C + 1) :: B = Q ++ [p]) (hpT : p.2 ≤ T) (hT : C < T ∧ T < C + 2 ^ 31) :
    updateEnd (ofPos base T) (ofPos base C) new (ofPos base p.2) (gapsAt base B) =
      .ok ⟨true, (wordsAt base (insert ((0, C + 1) :: B) (T, T + 1))).1, true,
        ⟨(wordsAt base (insert ((0, C + 1) :: B) (T, T + 1))).2⟩⟩ := by
  have hasc : Ascending (Q ++ [p]) := hB ▸ h.ascending
  have hprop : Proper (Q ++ [p]) := hB ▸ h.proper_cons
  rw [hB]
  cases Q with
  | nil =>
    obtain ⟨rfl, rfl⟩ : (0, C + 1) = p ∧ B = [] := by simpa using hB
    rw [updateEnd_ofPos (show C < C + 1 ∧ C + 1 ≤ C + 2 ^ 31 by omega) hT]
    by_cases hleft : C + 1 = T
    · rw [insert_point_left hasc hprop hleft (by simp), if_pos hleft.symm, if_pos hleft.symm]
      rfl
    · rw [insert_point_apart hasc hprop (by simp only; omega) (by simp), if_neg (Ne.symm hleft)]
      rfl
  | cons q A =>
    obtain ⟨rfl, rfl⟩ : (0, C + 1) = q ∧ B = A ++ [p] := by simpa using hB
    have hp : Fits C p := h.fits (by simp)
    have hack : C + 1 < p.2 := hp.above.trans hp.proper
    rw [updateEnd_ofPos ⟨by omega, hp.bound⟩ hT]
    by_cases hleft : p.2 = T
    · have hstop : ofPos base (p.2 - 1) + 1 = ofPos base T := by
        rw [ofPos_pred_succ (by omega), hleft]
      rw [insert_point_left hasc hprop hleft (by simp), if_pos hleft.symm, if_neg (by omega)]
      simp [wordsAt, gapAt]
      exact hstop
    · rw [insert_point_apart hasc hprop (by omega) (by simp), if_neg (Ne.symm hleft),
        all_last_iff hT ⟨by omega, hp.bound⟩, if_pos (by simp only [decide_eq_true_eq]; omega),
        if_pos (by rwa [length_gapsAt])]
      simp [wordsAt]

/-- With `lo` behind the received TSN, and the last block too, nothing changes. -/
theorem updateEnd_eq_self (hi : Fits C i) (hTi : T ≤ i.2) (hne : T ≠ L)
    (hL : C < L ∧ L ≤ C + 2 ^ 31) (hT : C < T ∧ T < C + 2 ^ 31) :
    updateEnd (ofPos base T) (ofPos base C) new (ofPos base L) (gapsAt base (B ++ [i])) =
      .ok ⟨true, ofPos base C, new, ⟨gapsAt base (B ++ [i])⟩⟩ := by
  rw [updateEnd_ofPos hL hT, if_neg hne, all_last_iff hT ⟨by omega, hi.bound⟩,
    if_neg (by simp only [decide_eq_true_eq]; omega)]

/-- Where `lo` is does not matter once a later block is passed. -/
theorem fillHole_lo {L' : ℕ} (hi : Fits C i) (hL : C < L ∧ L < T) (hL' : C < L' ∧ L' < T)
    (hTi : T < i.1) :
    fillHole (ofPos base T) (ofPos base C) (ofPos base L) (ofPos base (i.1 - 1)) before
        (gapAt base i) behind =
      fillHole (ofPos base T) (ofPos base C) (ofPos base L') (ofPos base (i.1 - 1)) before
        (gapAt base i) behind := by
  rw [fillHole_ofPos hi hL.1 hL.2.le hTi, fillHole_ofPos hi hL'.1 hL'.2.le hTi,
    if_pos (show L + 1 < i.1 by omega), if_pos (show L' + 1 < i.1 by omega),
    if_neg (show T ≠ L by omega), if_neg (show T ≠ L' by omega)]

theorem updateEnd_lo {L' : ℕ} (hL : C < L ∧ L < T) (hL' : C < L' ∧ L' < T)
    (hT : C < T ∧ T < C + 2 ^ 31) (gaps : List Gap) :
    updateEnd (ofPos base T) (ofPos base C) new (ofPos base L) gaps =
      updateEnd (ofPos base T) (ofPos base C) new (ofPos base L') gaps := by
  rw [updateEnd_ofPos ⟨hL.1, by omega⟩ hT, updateEnd_ofPos ⟨hL'.1, by omega⟩ hT,
    if_neg (show T ≠ L by omega), if_neg (show T ≠ L' by omega)]

end Inet.Sctp.SCTPSimpleGapList
