import Inet.Library.Lists
import Inet.Sctp.GapListLoop

/-!
# What `updateGapList` adds

`updateGapList` is meant to add one TSN to the acknowledged ones (`AddsExactly`). The loop does
so unless it meets a block that starts at TSN `0`: that block is skipped when the hole is looked
up, and `updateLoop_outcome` goes through the places where the received TSN can be.
`updateGapList_exact_iff` is the result on the words.
-/

namespace Inet.Sctp.SCTPSimpleGapList

open SerialNumber Intervals
open List

/-- The update adds `receivedTSN` and nothing else, leaves a list that passes `check`, and
reports whether the TSN is new. -/
def AddsExactly (list : SCTPSimpleGapList) (receivedTSN cTsnAck : Uint32)
    (newChunkReceived : Bool) (after : Updated) : Prop :=
  after.list.check after.cTsnAck = true ∧ (∀ p, Acked (origin cTsnAck) after.cTsnAck after.list p ↔
      Acked (origin cTsnAck) cTsnAck list p ∨ p = position (origin cTsnAck) receivedTSN) ∧
    (after.newChunkReceived = true ↔ newChunkReceived = true ∨
      ¬ Acked (origin cTsnAck) cTsnAck list (position (origin cTsnAck) receivedTSN))

/-- A block that starts at TSN `0` does no harm when the received TSN is covered by the
cumulative ack, or lies before the hole in front of the block, or fills the first hole from its
lower end without closing it, or lies in the block and the block is the last one, or lies behind
the block without touching it. -/
def ZeroBlockHarmless (list : SCTPSimpleGapList) (receivedTSN cTsnAck : Uint32) : Prop :=
  tsnLe receivedTSN cTsnAck = true ∨
    ∀ before zero behind, list.gaps = before ++ zero :: behind → zero.start = 0 →
      tsnLe receivedTSN ((before.getLast?.map Gap.stop).getD cTsnAck) = true ∨
        (before = [] ∧ receivedTSN = cTsnAck + 1 ∧ receivedTSN + 1 ≠ 0) ∨
        (behind = [] ∧ tsnBetween zero.start receivedTSN zero.stop = true) ∨
        tsnGt receivedTSN (zero.stop + 1) = true

variable {base : Uint32} {new : Bool} {C T : ℕ} {i p : ℕ × ℕ} {l m : List (ℕ × ℕ)}

/-- The end of the blocks `l`, or of the cumulative ack when there are none. -/
def lastEnd (C : ℕ) (l : List (ℕ × ℕ)) : ℕ := (l.getLast?.map Prod.snd).getD (C + 1)

/-- `ZeroBlockHarmless` on the positions. -/
def HarmlessAt (base : Uint32) (C T : ℕ) (l : List (ℕ × ℕ)) : Prop :=
  ∀ A z D, l = A ++ z :: D → ofPos base z.1 = 0 →
    T < lastEnd C A ∨ (A = [] ∧ T = C + 1 ∧ T + 1 ≠ z.1) ∨ (D = [] ∧ z.1 ≤ T ∧ T < z.2) ∨ z.2 < T

/-- The result is the list with the TSN at position `T` added, or the old one if it is there. -/
def Right (base : Uint32) (C T : ℕ) (new : Bool) (l : List (ℕ × ℕ)) (after : Updated) : Prop :=
  (T ∈ cover ((0, C + 1) :: l) ∧ after = ⟨true, ofPos base C, new, ⟨gapsAt base l⟩⟩) ∨
    (T ∉ cover ((0, C + 1) :: l) ∧
      after = ⟨true, (wordsAt base (insert ((0, C + 1) :: l) (T, T + 1))).1, true,
        ⟨(wordsAt base (insert ((0, C + 1) :: l) (T, T + 1))).2⟩⟩)

/-- The result does not pass `check`, or lacks the TSN. -/
def Wrong (base : Uint32) (T : ℕ) (after : Updated) : Prop :=
  after.list.check after.cTsnAck = false ∨ ¬ Acked base after.cTsnAck after.list T

section

variable {A D M Q R : List (ℕ × ℕ)} {z : ℕ × ℕ} {n r : Bool}

theorem lastEnd_eq (h : (0, C + 1) :: M = Q ++ [p]) : lastEnd C M = p.2 := by
  cases Q with
  | nil =>
    obtain ⟨rfl, rfl⟩ : (0, C + 1) = p ∧ M = [] := by simpa using h
    rfl
  | cons q Q =>
    obtain ⟨rfl, rfl⟩ : (0, C + 1) = q ∧ M = Q ++ [p] := by simpa using h
    simp [lastEnd]

theorem exists_last (C : ℕ) (M : List (ℕ × ℕ)) : ∃ Q p, (0, C + 1) :: M = Q ++ [p] :=
  ⟨_, _, (dropLast_append_getLast (cons_ne_nil _ M)).symm⟩

/-- The blocks that are not skipped end where `lo` is. -/
theorem loAfter_eq (h : (0, C + 1) :: M = Q ++ [p]) (hnz : ∀ i ∈ M.getLast?, ofPos base i.1 ≠ 0) :
    loAfter base (C + 1) M = p.2 := by
  cases Q with
  | nil =>
    obtain ⟨rfl, rfl⟩ : (0, C + 1) = p ∧ M = [] := by simpa using h
    rfl
  | cons q Q =>
    obtain ⟨rfl, rfl⟩ : (0, C + 1) = q ∧ M = Q ++ [p] := by simpa using h
    rw [loAfter_concat, if_neg (hnz p (by simp))]

theorem Layout.last_bounds (h : Layout C (M ++ R)) (hM : (0, C + 1) :: M = Q ++ [p]) :
    C < p.2 ∧ p.2 ≤ C + 2 ^ 31 := by
  have hp : p ∈ (0, C + 1) :: M := hM ▸ by simp
  obtain rfl | hp := mem_cons.mp hp
  · exact ⟨Nat.lt_succ_self C, by simp only; omega⟩
  · have hfits := h.fits (mem_append_left R hp)
    exact ⟨(Nat.lt_succ_self C).trans (hfits.above.trans hfits.proper), hfits.bound⟩

/-- A position between the end of `M` and the blocks of `R` is not covered. -/
theorem Layout.not_mem_cover (h : Layout C (M ++ R)) (hM : (0, C + 1) :: M = Q ++ [p])
    (hpT : p.2 ≤ T) (hR : ∀ i ∈ R, T < i.1) : T ∉ cover ((0, C + 1) :: (M ++ R)) := by
  rintro ⟨i, hi, hle, hlt⟩
  rw [← cons_append, hM] at hi
  obtain hi | hi := mem_append.mp hi
  · obtain hi | hi := mem_append.mp hi
    · have hasc : Ascending ((Q ++ [p]) ++ R) := hM ▸ h.ascending
      have hlt' : i.2 < p.1 := (pairwise_append.mp (pairwise_append.mp hasc).1).2.2 i hi p
        mem_cons_self
      have hp : p.1 < p.2 := h.proper_cons p (by rw [← cons_append, hM]; simp)
      omega
    · obtain rfl := mem_singleton.mp hi
      omega
  · have := hR i hi
    omega

/-- At most one block begins at TSN `0`. -/
theorem Layout.eq_of_zero (h : Layout C l) (hi : i ∈ l) (hp : p ∈ l) (hi0 : ofPos base i.1 = 0)
    (hp0 : ofPos base p.1 = 0) : i = p := by
  have hfi := h.fits hi
  have hfp := h.fits hp
  have hbound := hfi.proper.trans_le hfi.bound
  have hbound' := hfp.proper.trans_le hfp.bound
  have heq : i.1 = p.1 :=
    (ofPos_inj (by decide) (near_of_window ⟨(Nat.lt_succ_self C).trans hfi.above, hbound.le⟩
      ⟨(Nat.lt_succ_self C).trans hfp.above, hbound'.le⟩)).mp (hi0.trans hp0.symm)
  have hasc : Ascending l := (pairwise_cons.mp h.ascending).2
  exact hasc.eq_of_mem hi hp ⟨le_rfl, hfi.proper⟩ ⟨heq.ge, heq ▸ hfp.proper⟩

/-- The hole in which the TSN lies is found with the right lower end. -/
theorem updateLoop_hole (h : Layout C (M ++ R)) (hlen : (M ++ R).length < MAX_GAP_COUNT)
    (hM : (0, C + 1) :: M = Q ++ [p]) (hpT : p.2 ≤ T) (hR : ∀ i ∈ R, T < i.1)
    (hnz : ∀ i ∈ R.head?, ofPos base i.1 ≠ 0) (hT : C < T ∧ T < C + 2 ^ 31) :
    ∃ u, updateLoop (ofPos base T) (ofPos base C) new (ofPos base p.2) (gapsAt base M)
      (gapsAt base R) = .ok u ∧ Right base C T new (M ++ R) u := by
  have hnot := h.not_mem_cover hM hpT hR
  have hp := h.last_bounds hM
  cases R with
  | nil =>
    rw [append_nil] at h hlen hnot ⊢
    exact ⟨_, updateEnd_eq_insert h hlen hM hpT hT, .inr ⟨hnot, rfl⟩⟩
  | cons g R =>
    have hg := hR g mem_cons_self
    rw [gapsAt_cons, updateLoop_cons (h.fits (by simp)) hp hT,
      if_neg (hnz g (by simp)), if_pos ⟨hpT, hg⟩, fillHole_eq_insert h hlen hM hpT hg]
    exact ⟨_, rfl, .inr ⟨hnot, rfl⟩⟩

/-- A TSN in the last block that was passed is not added again. -/
theorem updateLoop_inside (h : Layout C (M ++ R)) (hp : p ∈ M) (hM : (0, C + 1) :: M = Q ++ [p])
    (hpT : p.1 ≤ T) (hTp : T < p.2) (hR : ∀ i ∈ R, T < i.1) (hT : C < T ∧ T < C + 2 ^ 31) :
    ∃ u, updateLoop (ofPos base T) (ofPos base C) new (ofPos base p.2) (gapsAt base M)
      (gapsAt base R) = .ok u ∧ Right base C T new (M ++ R) u := by
  have hR' : ∀ i ∈ R, Fits C i ∧ T < i.2 := by
    intro i hi
    have hfits := h.fits (mem_append_right M hi)
    exact ⟨hfits, (hR i hi).trans hfits.proper⟩
  obtain ⟨L, hTL, hL, hloop⟩ := @updateLoop_beyond base (ofPos base C) new C T p.2 R
    (gapsAt base M) hR' ⟨hTp, (h.last_bounds hM).2⟩ hT
  -- the last block of the whole list lies behind the TSN, too
  obtain ⟨B, i, heq⟩ : ∃ B i, M ++ R = B ++ [i] :=
    ⟨_, _, (dropLast_append_getLast (by simp [ne_nil_of_mem hp])).symm⟩
  have hi : i ∈ M ++ R := heq ▸ by simp
  have hTi : T ≤ i.2 := by
    have hpB : p ∈ B ++ [i] := heq ▸ mem_append_left R hp
    have hasc : Ascending (B ++ [i]) := heq ▸ (pairwise_cons.mp h.ascending).2
    obtain hpB | hpB := mem_append.mp hpB
    · exact (hTp.trans ((hasc.apart.1 p hpB).trans (h.fits hi).proper)).le
    · exact mem_singleton.mp hpB ▸ hTp.le
  refine ⟨_, ?_, .inl ⟨⟨p, by simp [hp], hpT, hTp⟩, rfl⟩⟩
  rw [hloop, ← gapsAt_append, heq, updateEnd_eq_self (h.fits hi) hTi hTL.ne ⟨hT.1.trans hTL, hL⟩ hT]

theorem wrong_of_not_check {x : Uint32} {X Y : List Gap} {g : Gap}
    (hg : tsnLe g.start g.stop = true → checkFrom g.stop Y = true → False) :
    Wrong base T ⟨r, x, n, ⟨X ++ g :: Y⟩⟩ := by
  left
  rw [← Bool.not_eq_true]
  intro hcheck
  obtain ⟨hle, hrest⟩ := checkFrom_append hcheck
  exact hg hle hrest

/-- Behind the block `z` there must not begin a block at or before its end. -/
theorem wrong_of_touching {x s : Uint32} {X Y : List Gap} (hz : Fits C z)
    (hT : C < T ∧ T < C + 2 ^ 31) (hTz : T ≤ z.2) :
    Wrong base T ⟨r, x, n, ⟨X ++ gapAt base z :: ⟨ofPos base T, s⟩ :: Y⟩⟩ := by
  refine wrong_of_not_check fun _ hrest => ?_
  have hz2 : C < z.2 ∧ z.2 ≤ C + 2 ^ 31 :=
    ⟨(Nat.lt_succ_self C).trans (hz.above.trans hz.proper), hz.bound⟩
  have hnear : Near 32 T z.2 := near_of_window ⟨hT.1, hT.2.le⟩ hz2
  rw [checkFrom, gapAt, ofPos_pred_succ (by omega), tsnGt_ofPos hnear, Bool.and_eq_true,
    Bool.and_eq_true, decide_eq_true_eq] at hrest
  omega

theorem wrong_of_not_mem (hC : C ≤ 2 ^ 31) (h : Layout C l) (hT : T ∉ cover ((0, C + 1) :: l)) :
    Wrong base T ⟨r, ofPos base C, n, ⟨gapsAt base l⟩⟩ := by
  right
  rw [acked_wordsAt (by omega) fun i hi => ⟨h.proper i hi, by have := h.bound i hi; omega⟩]
  exact hT

/-- The list starts with a hole and a block at TSN `0`, and the TSN is the first of the hole. -/
theorem updateLoop_zero_first (h : Layout C (z :: D)) (hz : ofPos base z.1 = 0) :
    ∃ u, updateLoop (ofPos base (C + 1)) (ofPos base C) new (ofPos base (C + 1)) []
        (gapsAt base (z :: D)) = .ok u ∧
      (C + 2 ≠ z.1 → Right base C (C + 1) new (z :: D) u) ∧
      (C + 2 = z.1 → Wrong base (C + 1) u) := by
  have hfits := h.fits (i := z) mem_cons_self
  have hL : C < C + 1 ∧ C + 1 ≤ C + 2 ^ 31 := by omega
  have hT : C < C + 1 ∧ C + 1 < C + 2 ^ 31 := by omega
  have habove : ∀ j ∈ z :: D, C + 1 < j.1 := fun j hj => (h.fits hj).above
  refine ⟨⟨true, ofPos base (C + 1), true, ⟨gapsAt base (z :: D)⟩⟩, ?_, ?_, ?_⟩
  · rw [gapsAt_cons, updateLoop_cons hfits hL hT, if_pos hz]
    cases D with
    | nil =>
      rw [gapsAt_nil, updateLoop, updateEnd_ofPos hL hT, if_pos rfl, if_pos rfl]
      rfl
    | cons d D =>
      have hd := h.fits (i := d) (by simp)
      have hzd : z.2 < d.1 :=
        (pairwise_cons.mp (pairwise_cons.mp h.ascending).2).1 d mem_cons_self
      have hd0 : ofPos base d.1 ≠ 0 := by
        intro hd0
        have := h.eq_of_zero (by simp) (by simp) hz hd0
        have := hfits.proper
        simp_all only
        omega
      have hproper := hfits.proper
      have hzabove := hfits.above
      rw [gapsAt_cons, updateLoop_cons hd hL hT, if_neg hd0, if_pos (by omega),
        fillHole_ofPos hd (by omega) (by omega) (by omega), if_pos (by omega),
        if_neg (by omega), if_pos rfl, if_pos rfl]
      rfl
  · intro hne
    have hnot : C + 1 ∉ cover ((0, C + 1) :: (z :: D)) :=
      Layout.not_mem_cover (M := []) (Q := []) h rfl le_rfl habove
    refine .inr ⟨hnot, ?_⟩
    have hins : insert ((0, C + 1) :: z :: D) (C + 1, C + 1 + 1) = (0, C + 1 + 1) :: z :: D := by
      refine insert_point_left (l := []) h.ascending h.proper_cons rfl fun j hj => ?_
      have hz1 := hfits.above
      obtain rfl | hj := mem_cons.mp hj
      · omega
      · have := (pairwise_cons.mp (pairwise_cons.mp h.ascending).2).1 j hj
        have := hfits.proper
        omega
    rw [hins]
    rfl
  · intro heq
    have hnear : Near 32 z.1 (C + 1 + 1) := ⟨by omega, by omega⟩
    have hsucc : ofPos base (C + 1) + 1 = ofPos base (C + 1 + 1) := (ofPos_succ base _).symm
    left
    show checkFrom (ofPos base (C + 1)) (gapAt base z :: gapsAt base D) = false
    rw [checkFrom, hsucc, gapAt, tsnGt_ofPos hnear, ← heq]
    simp

/-- The TSN lies in the hole in front of the block at TSN `0`, which is not found. -/
theorem updateLoop_zero_ahead (hC : C ≤ 2 ^ 31) (h : Layout C (M ++ z :: D))
    (hlen : (M ++ z :: D).length < MAX_GAP_COUNT) (hM : (0, C + 1) :: M = Q ++ [p])
    (hpT : p.2 ≤ T) (hTz : T < z.1) (hz : ofPos base z.1 = 0) (hne : T ≠ C + 1)
    (hT : C < T ∧ T < C + 2 ^ 31) :
    ∃ u, updateLoop (ofPos base T) (ofPos base C) new (ofPos base p.2) (gapsAt base M)
      (gapsAt base (z :: D)) = .ok u ∧ Wrong base T u := by
  have hp := h.last_bounds hM
  have hfits := h.fits (i := z) (by simp)
  have hproper := hfits.proper
  have hasc : Ascending (((0, C + 1) :: M) ++ z :: D) := h.ascending
  have hbehind : ∀ j ∈ z :: D, T < j.1 := by
    intro j hj
    obtain rfl | hj := mem_cons.mp hj
    · exact hTz
    · exact hTz.trans (hproper.trans (hasc.apart.2 j hj))
  have hnot := h.not_mem_cover hM hpT hbehind
  have hassoc : gapsAt base M ++ [gapAt base z] = gapsAt base (M ++ [z]) := by simp
  rw [gapsAt_cons, updateLoop_cons hfits hp hT, if_pos hz, hassoc]
  cases D with
  | nil =>
    rw [gapsAt_nil, updateLoop]
    by_cases hlo : T = p.2
    · rw [updateEnd_ofPos hp hT, if_pos hlo, if_neg hne, ← hassoc, modifyLastStop_concat]
      refine ⟨_, rfl, .inr ?_⟩
      rintro (hle | ⟨gap, hgap, hstart, hstop⟩)
      · rw [position_ofPos (by omega)] at hle
        omega
      · have hM' : Layout C M := by
          refine ⟨?_, fun i hi => h.proper i (by simp [hi]), fun i hi => h.bound i (by simp [hi])⟩
          exact (pairwise_append.mp hasc).1
        obtain hgap | hgap := mem_append.mp hgap
        · have hcover : Acked base (ofPos base C) ⟨gapsAt base M⟩ T :=
            .inr ⟨gap, hgap, hstart, hstop⟩
          rw [acked_wordsAt (by omega) fun i hi =>
            ⟨hM'.proper i hi, by have := hM'.bound i hi; omega⟩] at hcover
          obtain ⟨i, hi, hcover⟩ := hcover
          exact hnot ⟨i, mem_append_left [z] hi, hcover⟩
        · obtain rfl := mem_singleton.mp hgap
          have hbound := hfits.bound
          simp only [gapAt] at hstart
          rw [position_ofPos (by omega)] at hstart
          omega
    · exact ⟨_, updateEnd_eq_self hfits (hTz.trans hproper).le hlo hp hT,
        wrong_of_not_mem hC h hnot⟩
  | cons d D =>
    have hzd : z.2 < d.1 := hasc.apart.2 d mem_cons_self
    have hd : Fits C d := h.fits (by simp)
    have hd0 : ofPos base d.1 ≠ 0 := by
      intro hd0
      have heq : z = d := h.eq_of_zero (by simp) (by simp) hz hd0
      exact absurd (heq ▸ hzd) (not_lt.mpr hproper.le)
    rw [gapsAt_cons, updateLoop_cons hd hp hT, if_neg hd0, if_pos (by omega),
      fillHole_ofPos hd hp.1 hpT (by omega), if_pos (by omega), if_neg (by omega)]
    by_cases hlo : T = p.2
    · rw [if_pos hlo, if_neg hne, ← hassoc, modifyLastStop_concat]
      refine ⟨_, rfl, ?_⟩
      rw [append_assoc, singleton_append]
      have hbound := hfits.bound
      have hnear : Near 32 z.1 T := near_of_window ⟨by omega, by omega⟩ ⟨hT.1, hT.2.le⟩
      refine wrong_of_not_check fun hle _ => ?_
      rw [gapAt, tsnLe_ofPos hnear, decide_eq_true_eq] at hle
      omega
    · rw [if_neg hlo, take_of_length_le]
      · refine ⟨_, rfl, ?_⟩
        rw [← hassoc, append_assoc, singleton_append]
        exact wrong_of_touching hfits hT (by omega)
      · simp only [length_append, length_cons, length_nil, length_gapsAt] at hlen ⊢
        omega

/-- The last block that was passed is the one at TSN `0`, and `lo` is still in front of it. -/
theorem updateLoop_zero_last (hC : C ≤ 2 ^ 31) (h : Layout C (A ++ [z] ++ R))
    (hlen : (A ++ [z] ++ R).length < MAX_GAP_COUNT) (hA : (0, C + 1) :: A = Q ++ [p])
    (hzT : z.1 ≤ T) (hz : ofPos base z.1 = 0) (hR : ∀ i ∈ R, T < i.1)
    (hT : C < T ∧ T < C + 2 ^ 31) :
    ∃ u, updateLoop (ofPos base T) (ofPos base C) new (ofPos base p.2) (gapsAt base (A ++ [z]))
        (gapsAt base R) = .ok u ∧
      ((R = [] ∧ T < z.2) ∨ z.2 < T → Right base C T new (A ++ [z] ++ R) u) ∧
      (¬ ((R = [] ∧ T < z.2) ∨ z.2 < T) → Wrong base T u) := by
  have hfits : Fits C z := h.fits (by simp)
  have h' : Layout C (A ++ z :: R) := by simpa using h
  have hp := h'.last_bounds hA
  have hasc : Ascending (((0, C + 1) :: A) ++ z :: R) := h'.ascending
  have hpz : p.2 < z.1 := hasc.apart.1 p (hA ▸ by simp)
  have hlast : (0, C + 1) :: (A ++ [z]) = (Q ++ [p]) ++ [z] := by rw [← hA]; rfl
  have hproper := hfits.proper
  by_cases hbehind : z.2 < T
  · -- the block is passed, and `lo` might as well be behind it
    have hnz : ∀ i ∈ R.head?, ofPos base i.1 ≠ 0 := by
      intro i hi hi0
      have hi : i ∈ R := mem_of_mem_head? hi
      have heq : z = i := h.eq_of_zero (by simp) (by simp [hi]) hz hi0
      exact absurd (heq ▸ hR i hi) (not_lt.mpr hzT)
    obtain ⟨u, hu, hright⟩ := @updateLoop_hole base new C T z (A ++ [z]) (Q ++ [p]) R h hlen hlast
      hbehind.le hR hnz hT
    refine ⟨u, ?_, fun _ => hright, fun hnot => absurd (.inr hbehind) hnot⟩
    cases R with
    | nil =>
      rw [gapsAt_nil, updateLoop] at hu ⊢
      exact (updateEnd_lo ⟨hp.1, by omega⟩ ⟨by omega, hbehind⟩ hT _).trans hu
    | cons g R =>
      have hg : Fits C g := h.fits (by simp)
      have hTg := hR g mem_cons_self
      have hg0 := hnz g (by simp)
      rw [gapsAt_cons, updateLoop_cons hg ⟨by omega, hfits.bound⟩ hT, if_neg hg0,
        if_pos ⟨hbehind.le, hTg⟩] at hu
      rw [gapsAt_cons, updateLoop_cons hg hp hT, if_neg hg0, if_pos ⟨by omega, hTg⟩,
        fillHole_lo hg ⟨hp.1, by omega⟩ ⟨by omega, hbehind⟩ hTg]
      exact hu
  · cases R with
    | nil =>
      rw [append_nil] at h ⊢
      rw [gapsAt_nil, updateLoop]
      refine ⟨_, updateEnd_eq_self hfits (not_lt.mp hbehind) (by omega) hp hT, ?_, ?_⟩
      · intro hin
        have hlt : T < z.2 := by omega
        exact .inl ⟨⟨z, by simp, hzT, hlt⟩, rfl⟩
      · intro hout
        have hge : z.2 ≤ T := not_lt.mp fun hlt => hout (.inl ⟨rfl, hlt⟩)
        have hnot := Layout.not_mem_cover (R := []) (by rwa [append_nil]) hlast hge (by simp)
        rw [append_nil] at hnot
        exact wrong_of_not_mem hC h hnot
    | cons d R =>
      have hd : Fits C d := h.fits (by simp)
      have hTd := hR d mem_cons_self
      have hzd : z.2 < d.1 := hasc.apart.2 d mem_cons_self
      have hd0 : ofPos base d.1 ≠ 0 := by
        intro hd0
        have heq : z = d := h.eq_of_zero (by simp) (by simp) hz hd0
        exact absurd (heq ▸ hzd) (not_lt.mpr hproper.le)
      rw [gapsAt_cons, updateLoop_cons hd hp hT, if_neg hd0, if_pos ⟨by omega, hTd⟩,
        fillHole_ofPos hd hp.1 (by omega) hTd, if_pos (by omega)]
      by_cases hhi : T + 1 = d.1
      · rw [if_pos hhi]
        refine ⟨_, rfl, fun hin => absurd hin (by simp [hbehind]), fun _ => ?_⟩
        simp only [gapsAt_append, gapsAt_cons, gapsAt_nil, append_assoc, singleton_append]
        exact wrong_of_touching hfits hT (not_lt.mp hbehind)
      · rw [if_neg hhi, if_neg (by omega), take_of_length_le]
        · refine ⟨_, rfl, fun hin => absurd hin (by simp [hbehind]), fun _ => ?_⟩
          simp only [gapsAt_append, gapsAt_cons, gapsAt_nil, append_assoc, singleton_append]
          exact wrong_of_touching hfits hT (not_lt.mp hbehind)
        · simp only [length_append, length_cons, length_nil, length_gapsAt]
            at hlen ⊢
          omega

theorem le_lastEnd (h : Layout C (M ++ R)) (hi : i ∈ M) : i.2 ≤ lastEnd C M := by
  obtain ⟨Q, p, hM⟩ := exists_last C M
  have hasc : Ascending ((Q ++ [p]) ++ R) := hM ▸ h.ascending
  have hp : p ∈ (0, C + 1) :: M := hM ▸ by simp
  have hi : i ∈ Q ++ [p] := hM ▸ mem_cons_of_mem _ hi
  rw [lastEnd_eq hM]
  obtain hi | hi := mem_append.mp hi
  · have hlt : i.2 < p.1 :=
      (pairwise_append.mp (pairwise_append.mp hasc).1).2.2 i hi p mem_cons_self
    have hproper : p.1 < p.2 := h.proper_cons p (mem_append_left R hp)
    exact (hlt.trans hproper).le
  · exact (mem_singleton.mp hi).symm ▸ le_rfl

/-- What is harmless about the only block that starts at TSN `0`. -/
theorem harmlessAt_iff (h : Layout C (A ++ z :: D)) (hz : ofPos base z.1 = 0) :
    HarmlessAt base C T (A ++ z :: D) ↔
      T < lastEnd C A ∨ (A = [] ∧ T = C + 1 ∧ T + 1 ≠ z.1) ∨ (D = [] ∧ z.1 ≤ T ∧ T < z.2) ∨
        z.2 < T := by
  refine ⟨fun hsafe => hsafe A z D rfl hz, fun hcond A' z' D' heq hz' => ?_⟩
  have hz'mem : z' ∈ A ++ z :: D := heq ▸ by simp
  obtain rfl : z = z' := h.eq_of_zero (by simp) hz'mem hz hz'
  have hasc : Ascending (A ++ z :: D) := (pairwise_cons.mp h.ascending).2
  have hproper := (h.fits (i := z) (by simp)).proper
  have hA : z ∉ A := fun hmem => absurd (hasc.apart.1 z hmem) (not_lt.mpr hproper.le)
  have hD : z ∉ D := fun hmem => absurd (hasc.apart.2 z hmem) (not_lt.mpr hproper.le)
  obtain ⟨rfl, -, rfl⟩ := (append_cons_inj_of_notMem hA hD).mp heq
  exact hcond

/-- A block at TSN `0` is harmless when the TSN is behind it, or when another block in front of
it ends behind the TSN. -/
theorem harmlessAt_of (h : Layout C l) (hl : ∀ z ∈ l, ofPos base z.1 = 0 →
    z.2 < T ∨ ∃ i ∈ l, i.2 < z.1 ∧ T < i.2) : HarmlessAt base C T l := by
  rintro A z D rfl hz
  obtain hlt | ⟨i, hi, hiz, hTi⟩ := hl z (by simp) hz
  · exact .inr (.inr (.inr hlt))
  · left
    have hasc : Ascending (A ++ z :: D) := (pairwise_cons.mp h.ascending).2
    have hproper := (h.fits (i := z) (by simp)).proper
    have hiproper := (h.fits hi).proper
    obtain hi | hi := mem_append.mp hi
    · exact hTi.trans_le (le_lastEnd h hi)
    · obtain rfl | hi := mem_cons.mp hi
      · omega
      · have := hasc.apart.2 i hi
        omega

/-- The loop after the blocks `M`, the last of which starts at TSN `0`. -/
theorem outcome_of_zero_last (hC : C ≤ 2 ^ 31) (h : Layout C (A ++ [z] ++ R))
    (hlen : (A ++ [z] ++ R).length < MAX_GAP_COUNT) (hz : ofPos base z.1 = 0) (hzT : z.1 ≤ T)
    (hR : ∀ i ∈ R, T < i.1) (hT : C < T ∧ T < C + 2 ^ 31) :
    ∃ u, updateLoop (ofPos base T) (ofPos base C) new
        (ofPos base (loAfter base (C + 1) (A ++ [z]))) (gapsAt base (A ++ [z])) (gapsAt base R) =
        .ok u ∧
      (HarmlessAt base C T (A ++ [z] ++ R) → Right base C T new (A ++ [z] ++ R) u) ∧
      (¬ HarmlessAt base C T (A ++ [z] ++ R) → Wrong base T u) := by
  have h' : Layout C (A ++ z :: R) := by simpa using h
  have hasc : Ascending (((0, C + 1) :: A) ++ z :: R) := h'.ascending
  obtain ⟨Q, p, hA⟩ := exists_last C A
  have hz_fits := h.fits (i := z) (by simp)
  have hproper := hz_fits.proper
  have habove := hz_fits.above
  have hnz : ∀ i ∈ A.getLast?, ofPos base i.1 ≠ 0 := by
    intro i hi hi0
    have hi : i ∈ A := mem_of_getLast? hi
    have heq : i = z := h.eq_of_zero (by simp [hi]) (by simp) hi0 hz
    exact absurd (hasc.apart.1 z (by simp [heq ▸ hi])) (not_lt.mpr hproper.le)
  have hpz : p.2 < z.1 := hasc.apart.1 p (hA ▸ by simp)
  obtain ⟨u, hu, hright, hwrong⟩ := @updateLoop_zero_last base new C T p A Q R z hC h hlen hA hzT
    hz hR hT
  have hiff : HarmlessAt base C T (A ++ [z] ++ R) ↔ (R = [] ∧ T < z.2) ∨ z.2 < T := by
    rw [append_assoc, singleton_append, harmlessAt_iff h' hz, lastEnd_eq hA]
    constructor
    · rintro (hlt | ⟨-, heq, -⟩ | ⟨hnil, -, hlt⟩ | hlt)
      · omega
      · omega
      · exact .inl ⟨hnil, hlt⟩
      · exact .inr hlt
    · rintro (⟨hnil, hlt⟩ | hlt)
      · exact .inr (.inr (.inl ⟨hnil, hzT, hlt⟩))
      · exact .inr (.inr (.inr hlt))
  rw [loAfter_concat, if_pos hz, loAfter_eq hA hnz]
  exact ⟨u, hu, fun hsafe => hright (hiff.mp hsafe), fun hnot => hwrong (mt hiff.mpr hnot)⟩

/-- The loop after the blocks `M`, when the block behind them starts at TSN `0` and the received
TSN lies in the hole in front of it. -/
theorem outcome_of_zero_ahead (hC : C ≤ 2 ^ 31) (h : Layout C (M ++ z :: D))
    (hlen : (M ++ z :: D).length < MAX_GAP_COUNT) (hM : (0, C + 1) :: M = Q ++ [p])
    (hpT : p.2 ≤ T) (hTz : T < z.1) (hz : ofPos base z.1 = 0) (hT : C < T ∧ T < C + 2 ^ 31) :
    ∃ u, updateLoop (ofPos base T) (ofPos base C) new (ofPos base p.2) (gapsAt base M)
        (gapsAt base (z :: D)) = .ok u ∧
      (HarmlessAt base C T (M ++ z :: D) → Right base C T new (M ++ z :: D) u) ∧
      (¬ HarmlessAt base C T (M ++ z :: D) → Wrong base T u) := by
  have hproper := (h.fits (i := z) (by simp)).proper
  have hiff : HarmlessAt base C T (M ++ z :: D) ↔ M = [] ∧ T = C + 1 ∧ T + 1 ≠ z.1 := by
    rw [harmlessAt_iff h hz, lastEnd_eq hM]
    constructor
    · rintro (hlt | hfirst | ⟨-, hle, -⟩ | hlt)
      · omega
      · exact hfirst
      · omega
      · omega
    · exact fun hfirst => .inr (.inl hfirst)
  by_cases hT1 : T = C + 1
  · subst hT1
    cases Q with
    | nil =>
      obtain ⟨rfl, rfl⟩ : (0, C + 1) = p ∧ M = [] := by simpa using hM
      obtain ⟨u, hu, hright, hwrong⟩ := @updateLoop_zero_first base new C D z h hz
      refine ⟨u, hu, fun hsafe => hright (hiff.mp hsafe).2.2, fun hnot => hwrong ?_⟩
      by_contra hne
      exact hnot (hiff.mpr ⟨rfl, rfl, hne⟩)
    | cons q Q =>
      obtain ⟨rfl, rfl⟩ : (0, C + 1) = q ∧ M = Q ++ [p] := by simpa using hM
      have hp := h.fits (i := p) (by simp)
      have := hp.above
      have := hp.proper
      omega
  · obtain ⟨u, hu, hwrong⟩ := updateLoop_zero_ahead hC h hlen hM hpT hTz hz hT1 hT
    exact ⟨u, hu, fun hsafe => absurd (hiff.mp hsafe).2.1 hT1, fun _ => hwrong⟩

/-- The loop after the blocks `M`, the last of which does not start at TSN `0`. -/
theorem outcome_of_last (hC : C ≤ 2 ^ 31) (h : Layout C (M ++ R))
    (hlen : (M ++ R).length < MAX_GAP_COUNT) (hnz : ∀ i ∈ M.getLast?, ofPos base i.1 ≠ 0)
    (hMT : ∀ i ∈ M, i.1 ≤ T) (hR : ∀ i ∈ R, T < i.1) (hT : C < T ∧ T < C + 2 ^ 31) :
    ∃ u, updateLoop (ofPos base T) (ofPos base C) new (ofPos base (loAfter base (C + 1) M))
        (gapsAt base M) (gapsAt base R) = .ok u ∧
      (HarmlessAt base C T (M ++ R) → Right base C T new (M ++ R) u) ∧
      (¬ HarmlessAt base C T (M ++ R) → Wrong base T u) := by
  have hasc : Ascending (M ++ R) := (pairwise_cons.mp h.ascending).2
  obtain ⟨Q, p, hM⟩ := exists_last C M
  rw [loAfter_eq hM hnz]
  by_cases hTp : T < p.2
  · obtain ⟨q, Q, rfl⟩ : ∃ q Q', Q = q :: Q' := by
      apply exists_cons_of_ne_nil
      rintro rfl
      obtain ⟨rfl, -⟩ : (0, C + 1) = p ∧ M = [] := by simpa using hM
      simp only at hTp
      omega
    obtain ⟨rfl, rfl⟩ : (0, C + 1) = q ∧ M = Q ++ [p] := by simpa using hM
    have hp : p ∈ Q ++ [p] := by simp
    have hsafe : HarmlessAt base C T (Q ++ [p] ++ R) := by
      refine harmlessAt_of h fun z hz hz0 => ?_
      obtain rfl | hlt | hlt := hasc.eq_or_lt hz (mem_append_left R hp)
      · exact absurd hz0 (hnz z (by simp))
      · exact .inl (hlt.trans_le (hMT p hp))
      · exact .inr ⟨p, mem_append_left R hp, hlt, hTp⟩
    obtain ⟨u, hu, hright⟩ := updateLoop_inside h hp hM (hMT p hp) hTp hR hT
    exact ⟨u, hu, fun _ => hright, fun hnot => absurd hsafe hnot⟩
  · have hpT := not_lt.mp hTp
    by_cases hzero : ∃ z D, R = z :: D ∧ ofPos base z.1 = 0
    · obtain ⟨z, D, rfl, hz⟩ := hzero
      exact outcome_of_zero_ahead hC h hlen hM hpT (hR z mem_cons_self) hz hT
    · have hnzR : ∀ i ∈ R.head?, ofPos base i.1 ≠ 0 := by
        intro i hi hi0
        obtain ⟨D, rfl⟩ := head?_eq_some_iff.mp hi
        exact hzero ⟨i, D, rfl, hi0⟩
      have hsafe : HarmlessAt base C T (M ++ R) := by
        refine harmlessAt_of h fun z hz hz0 => ?_
        obtain hz | hz := mem_append.mp hz
        · obtain ⟨A, i, rfl⟩ : ∃ A i, M = A ++ [i] :=
            ⟨_, _, (dropLast_append_getLast (ne_nil_of_mem hz)).symm⟩
          obtain hz | hz := mem_append.mp hz
          · have hzi : z.2 < i.1 :=
              (pairwise_append.mp (pairwise_append.mp hasc).1).2.2 z hz i
                mem_cons_self
            exact .inl (hzi.trans_le (hMT i (by simp)))
          · obtain rfl := mem_singleton.mp hz
            exact absurd hz0 (hnz z (by simp))
        · cases R with
          | nil => cases hz
          | cons g R =>
            have hg := h.fits (i := g) (by simp)
            obtain rfl | hz := mem_cons.mp hz
            · exact absurd hz0 (hnzR z (by simp))
            · have hgz : g.2 < z.1 := hasc.apart.2 z hz
              exact .inr ⟨g, by simp, hgz, (hR g mem_cons_self).trans hg.proper⟩
      obtain ⟨u, hu, hright⟩ := updateLoop_hole h hlen hM hpT hR hnzR hT
      exact ⟨u, hu, fun _ => hright, fun hnot => absurd hsafe hnot⟩

/-- The loop does what it is meant to do just in case the block at TSN `0` is harmless. -/
theorem updateLoop_outcome (hC : C ≤ 2 ^ 31) (h : Layout C l) (hlen : l.length < MAX_GAP_COUNT)
    (hT : C < T ∧ T < C + 2 ^ 31) :
    ∃ u, updateLoop (ofPos base T) (ofPos base C) new (ofPos base (C + 1)) [] (gapsAt base l) =
        .ok u ∧
      (HarmlessAt base C T l → Right base C T new l u) ∧
      (¬ HarmlessAt base C T l → Wrong base T u) := by
  have hasc : Ascending l := (pairwise_cons.mp h.ascending).2
  have hswitch : Switches (fun i : ℕ × ℕ => decide (i.1 ≤ T)) l := by
    refine hasc.imp_of_mem fun {i j} hi _ hij hle => ?_
    have := (h.fits hi).proper
    simp only [decide_eq_true_eq] at hle ⊢
    omega
  obtain ⟨M, R, rfl, hM, hR⟩ : ∃ M R, l = M ++ R ∧ (∀ i ∈ M, i.1 ≤ T) ∧ ∀ i ∈ R, T < i.1 :=
    ⟨_, _, hswitch.filter_append.symm, fun i hi => by simpa using (mem_filter.mp hi).2,
      fun i hi => by simpa using (mem_filter.mp hi).2⟩
  have hpass := @updateLoop_pass base (ofPos base C) new C T (C + 1) M [] (gapsAt base R)
    (fun i hi => ⟨h.fits (mem_append_left R hi), hM i hi⟩)
    ⟨Nat.lt_succ_self C, by omega⟩ hT
  rw [gapsAt_append, hpass, nil_append]
  by_cases hzero : ∃ A z, M = A ++ [z] ∧ ofPos base z.1 = 0
  · obtain ⟨A, z, rfl, hz⟩ := hzero
    exact outcome_of_zero_last hC h hlen hz (hM z (by simp)) hR hT
  · refine outcome_of_last hC h hlen (fun i hi hi0 => hzero ?_) hM hR hT
    obtain ⟨A, rfl⟩ := getLast?_eq_some_iff.mp hi
    exact ⟨A, i, rfl, hi0⟩

end

variable {cTsnAck receivedTSN : Uint32} {list : SCTPSimpleGapList} {l : List (ℕ × ℕ)}

theorem lastStop_gapsAt (C : ℕ) (A : List (ℕ × ℕ)) :
    ((gapsAt base A).getLast?.map Gap.stop).getD (ofPos base C) = ofPos base (lastEnd C A - 1) := by
  rw [gapsAt, getLast?_map, lastEnd]
  cases A.getLast? <;> rfl

/-- One block at TSN `0`, in words and in positions. -/
theorem harmless_cond_iff {A D : List (ℕ × ℕ)} {z : ℕ × ℕ} (h : Layout C (A ++ z :: D))
    (hz : ofPos base z.1 = 0) (hT : C < T ∧ T < C + 2 ^ 31) :
    (tsnLe (ofPos base T)
          (((gapsAt base A).getLast?.map Gap.stop).getD (ofPos base C)) = true ∨
        (gapsAt base A = [] ∧ ofPos base T = ofPos base C + 1 ∧ ofPos base T + 1 ≠ 0) ∨
        (gapsAt base D = [] ∧
          tsnBetween (gapAt base z).start (ofPos base T) (gapAt base z).stop = true) ∨
        tsnGt (ofPos base T) ((gapAt base z).stop + 1) = true) ↔
      T < lastEnd C A ∨ (A = [] ∧ T = C + 1 ∧ T + 1 ≠ z.1) ∨ (D = [] ∧ z.1 ≤ T ∧ T < z.2) ∨
        z.2 < T := by
  obtain ⟨habove, hproper, hbound⟩ := h.fits (i := z) (by simp)
  obtain ⟨Q, p, hA⟩ := exists_last C A
  have hp := h.last_bounds hA
  have hpw : C ≤ p.2 - 1 ∧ p.2 - 1 < C + 2 ^ 31 := by omega
  have hTz : Near 32 z.1 T := ⟨by omega, by omega⟩
  have hTz' : Near 32 T (z.2 - 1) := ⟨by omega, by omega⟩
  have hTz2 : Near 32 T z.2 := ⟨by omega, by omega⟩
  have hTp : Near 32 T (p.2 - 1) := ⟨by omega, by omega⟩
  have hsucc : ∀ q, ofPos base q + 1 = ofPos base (q + 1) := fun q => (ofPos_succ base q).symm
  have hnil : ∀ {m : List (ℕ × ℕ)}, gapsAt base m = [] ↔ m = [] := map_eq_nil_iff
  rw [lastStop_gapsAt, lastEnd_eq hA, hnil, hnil, hsucc, hsucc, ← hz]
  simp only [gapAt]
  rw [ofPos_pred_succ (by omega), tsnLe_ofPos hTp, tsnBetween_ofPos hTz hTz', tsnGt_ofPos hTz2,
    ne_eq, ofPos_inj (by decide) ⟨by omega, by omega⟩, ofPos_inj (by decide) ⟨by omega, by omega⟩]
  simp only [decide_eq_true_eq]
  refine or_congr (by omega) (or_congr Iff.rfl (or_congr ?_ Iff.rfl))
  exact and_congr_right fun _ => by omega

theorem harmless_iff (h : Layout C l) (hT : C < T ∧ T < C + 2 ^ 31) :
    ZeroBlockHarmless ⟨gapsAt base l⟩ (ofPos base T) (ofPos base C) ↔ HarmlessAt base C T l := by
  have hnear : Near 32 T C := ⟨by omega, by omega⟩
  have hnot : ¬ tsnLe (ofPos base T) (ofPos base C) = true := by
    rw [tsnLe_ofPos hnear, decide_eq_true_eq]
    omega
  unfold ZeroBlockHarmless
  rw [or_iff_right hnot]
  constructor
  · rintro hall A z D rfl hz
    exact (harmless_cond_iff h hz hT).mp (hall _ _ _ (by simp) hz)
  · intro hall before zero behind heq hz
    obtain ⟨A, l', rfl, rfl, hl'⟩ := map_eq_append_iff.mp heq
    obtain ⟨z, D, rfl, rfl, rfl⟩ := map_eq_cons_iff.mp hl'
    exact (harmless_cond_iff h hz hT).mpr (hall A z D rfl hz)

/-- The intervals after adding a TSN have the form of a list of blocks again. -/
theorem exists_insert_eq (h : Layout C l) (hT : C < T ∧ T < C + 2 ^ 31) :
    ∃ C' m, insert ((0, C + 1) :: l) (T, T + 1) = (0, C' + 1) :: m ∧ C ≤ C' ∧
      C' < C + 2 ^ 31 ∧ Layout C' m ∧ ∀ i ∈ m, i.2 ≤ C + 2 ^ 31 := by
  have hproper := h.proper_cons
  have hasc' : Ascending (insert ((0, C + 1) :: l) (T, T + 1)) := h.ascending.insert hproper.le
  have hproper' : Proper (insert ((0, C + 1) :: l) (T, T + 1)) :=
    hproper.insert (Nat.lt_succ_self T)
  have hbound : ∀ i ∈ insert ((0, C + 1) :: l) (T, T + 1), i.1 ≤ C + 2 ^ 31 ∧ i.2 ≤ C + 2 ^ 31 := by
    refine endpoints_insert (P := (· ≤ C + 2 ^ 31)) ?_ ⟨hT.2.le, hT.2⟩
    refine forall_mem_cons.mpr ⟨⟨Nat.zero_le _, by simp only; omega⟩, fun i hi => ?_⟩
    exact ⟨(h.proper i hi).le.trans (h.bound i hi), h.bound i hi⟩
  obtain ⟨i, hi, hi0, hCi⟩ := hasc'.exists_of_Ico_subset (Nat.succ_pos C) fun x _ hx =>
    mem_cover_insert.mpr (.inl ⟨(0, C + 1), mem_cons_self, Nat.zero_le x, hx⟩)
  -- the interval from `0` on is the first one
  cases heq : insert ((0, C + 1) :: l) (T, T + 1) with
  | nil => exact absurd (heq ▸ hi) not_mem_nil
  | cons q m =>
    rw [heq] at hi hasc' hproper' hbound
    have hq := hproper' q mem_cons_self
    have hhead : q.1 ≤ i.1 := hasc'.head_le hproper'.le hi
    obtain rfl : q = i := hasc'.eq_of_mem (x := 0) mem_cons_self hi
      ⟨by omega, by omega⟩ ⟨hi0, by omega⟩
    have hq2 := (hbound q mem_cons_self).2
    have hform : q = (0, q.2 - 1 + 1) := Prod.ext (by simpa using hi0) (by simp only; omega)
    refine ⟨q.2 - 1, m, by rw [← hform], by omega, by omega, ⟨hform ▸ hasc', ?_, ?_⟩, ?_⟩
    · exact fun j hj => hproper' j (mem_cons_of_mem q hj)
    · intro j hj
      have := (hbound j (mem_cons_of_mem q hj)).2
      omega
    · exact fun j hj => (hbound j (mem_cons_of_mem q hj)).2

/-- A right result adds exactly the TSN. -/
theorem addsExactly_of_right {after : Updated} (h : Layout (2 ^ 31) l)
    (hT : 2 ^ 31 < T ∧ T < 2 ^ 31 + 2 ^ 31)
    (hright : Right (origin cTsnAck) (2 ^ 31) T new l after) :
    AddsExactly ⟨gapsAt (origin cTsnAck) l⟩ (ofPos (origin cTsnAck) T) cTsnAck
      new after := by
  have hacked := @Layout.acked_iff (origin cTsnAck) (2 ^ 31) l h (by omega) h.bound
  rw [ofPos_half] at hacked
  unfold AddsExactly
  rw [position_ofPos (by omega)]
  obtain ⟨hmem, rfl⟩ | ⟨hnot, rfl⟩ := hright
  · refine ⟨h.check, fun p => ?_, ?_⟩
    · rw [ofPos_half, hacked]
      refine ⟨.inl, ?_⟩
      rintro (hp | rfl)
      · exact hp
      · exact hmem
    · rw [hacked]
      exact ⟨.inl, fun h => h.resolve_right (not_not_intro hmem)⟩
  · obtain ⟨C', m, heq, hle, hlt, hlayout, hbound⟩ := exists_insert_eq h hT
    rw [heq]
    refine ⟨hlayout.check, fun p => ?_, ?_⟩
    · rw [hacked]
      refine (hlayout.acked_iff (by omega) hbound p).trans ?_
      rw [← heq, mem_cover_insert]
      refine or_congr Iff.rfl ?_
      simp only
      omega
    · rw [hacked]
      exact ⟨fun _ => .inr hnot, fun _ => rfl⟩

/-- `updateGapList` adds exactly the received TSN just in case a block that starts at TSN `0`
does no harm. -/
theorem updateGapList_exact_iff (list : SCTPSimpleGapList) (receivedTSN cTsnAck : Uint32)
    (newChunkReceived : Bool) (hcheck : list.check cTsnAck = true)
    (hlen : list.gaps.length < MAX_GAP_COUNT)
    (hwindow : ∀ gap ∈ list.gaps, tsnGt gap.start cTsnAck = true ∧ tsnGt gap.stop cTsnAck = true)
    (hreceived : tsnLe receivedTSN cTsnAck = true ∨ tsnGt receivedTSN cTsnAck = true) :
    (∃ after, list.updateGapList receivedTSN cTsnAck newChunkReceived = .ok after ∧
        AddsExactly list receivedTSN cTsnAck newChunkReceived after) ↔
      ZeroBlockHarmless list receivedTSN cTsnAck := by
  obtain ⟨l, hlayout, hgaps⟩ := exists_layout hcheck hwindow
  obtain ⟨gaps⟩ := list
  obtain rfl : gaps = gapsAt (origin cTsnAck) l := hgaps
  unfold updateGapList
  by_cases hle : tsnLe receivedTSN cTsnAck = true
  · rw [if_pos hle]
    have hcovered : Acked (origin cTsnAck) cTsnAck ⟨gapsAt (origin cTsnAck) l⟩
        (position (origin cTsnAck) receivedTSN) := by
      left
      rw [tsnLe_iff] at hle
      have hack := @position_ofPos (origin cTsnAck) (2 ^ 31) (by decide)
      rw [ofPos_half] at hack
      exact hack.symm ▸ hle.2
    refine ⟨fun _ => .inl hle, fun _ => ⟨_, rfl, hcheck, fun p => ?_, ?_⟩⟩
    · refine ⟨.inl, ?_⟩
      rintro (hp | rfl)
      · exact hp
      · exact hcovered
    · simp [hcovered]
  · have hT : 2 ^ 31 < position (origin cTsnAck) receivedTSN ∧
        position (origin cTsnAck) receivedTSN < 2 ^ 31 + 2 ^ 31 :=
      ⟨tsnGt_iff.mp (hreceived.resolve_left hle), BitVec.isLt _⟩
    have hwords := ofPos_position (origin cTsnAck) receivedTSN
    have hlen' : l.length < MAX_GAP_COUNT := by rwa [length_gapsAt] at hlen
    have hsucc : ofPos (origin cTsnAck) (2 ^ 31 + 1) = cTsnAck + 1 :=
      (ofPos_succ _ _).trans (congrArg (· + 1#32) (ofPos_half cTsnAck))
    obtain ⟨after, hloop, hright, hwrong⟩ :=
      @updateLoop_outcome (origin cTsnAck) newChunkReceived _ _ _ le_rfl hlayout hlen' hT
    have hiff := @harmless_iff (origin cTsnAck) _ _ _ hlayout hT
    rw [ofPos_half, hwords] at hiff
    rw [hwords, hsucc, ofPos_half] at hloop
    rw [if_neg hle, hiff]
    constructor
    · rintro ⟨after', hafter, hexact⟩
      obtain rfl : after = after' := Except.ok.inj (hloop.symm.trans hafter)
      by_contra hnot
      obtain hcheck' | hacked := hwrong hnot
      · rw [hexact.1] at hcheck'
        cases hcheck'
      · exact hacked ((hexact.2.1 _).mpr (.inr rfl))
    · intro hsafe
      have hadds := addsExactly_of_right hlayout hT (hright hsafe)
      rw [hwords] at hadds
      exact ⟨after, hloop, hadds⟩

/-- A block that straddles the wrap and grows at its upper end. -/
theorem updateGapList_exact_across_wrap :
    ∃ after, updateGapList ⟨[⟨0xfffffffe#32, 1#32⟩]⟩ 2#32 0xfffffff0#32 false = .ok after ∧
      AddsExactly ⟨[⟨0xfffffffe#32, 1#32⟩]⟩ 2#32 0xfffffff0#32 false after := by
  refine (updateGapList_exact_iff ⟨[⟨0xfffffffe#32, 1#32⟩]⟩ 2#32 0xfffffff0#32 false (by decide)
    (by decide) (by decide) (by decide)).mpr (.inr fun before zero behind heq hzero => ?_)
  have hmem : zero ∈ [(⟨0xfffffffe#32, 1#32⟩ : Gap)] := by
    rw [show [(⟨0xfffffffe#32, 1#32⟩ : Gap)] = before ++ zero :: behind from heq]
    simp
  obtain rfl := List.mem_singleton.mp hmem
  exact absurd hzero (by decide)

/-- With the cumulative ack three before the wrap and a block at TSN `0`, the last TSN before the
wrap is not added. -/
theorem updateGapList_not_exact_of_zero : check ⟨[⟨0#32, 0#32⟩]⟩ 0xfffffffd#32 = true ∧
      ∃ after, updateGapList ⟨[⟨0#32, 0#32⟩]⟩ 0xffffffff#32 0xfffffffd#32 false = .ok after ∧
        ¬ AddsExactly ⟨[⟨0#32, 0#32⟩]⟩ 0xffffffff#32 0xfffffffd#32 false after := by
  refine ⟨by decide, ⟨true, 0xfffffffd#32, false, ⟨[⟨0#32, 0#32⟩]⟩⟩, by decide, ?_⟩
  rintro ⟨-, hset, -⟩
  have hacked := (hset _).mpr (.inr rfl)
  revert hacked
  unfold Acked
  decide

end Inet.Sctp.SCTPSimpleGapList
