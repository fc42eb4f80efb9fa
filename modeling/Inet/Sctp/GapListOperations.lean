import Inet.Sctp.GapListUpdate

/-!
# The other operations of a gap list

Looking up, dropping and removing TSNs, and all operations of `SCTPSimpleGapList` on lists whose
first block may begin right behind the cumulative ack (`Above`), as `forwardCumAckTSN` leaves
them. For `updateGapList` such a block is a further cumulative ack (`updateLoop_prepend`).
-/

namespace Inet.Sctp.SCTPSimpleGapList

open SerialNumber Intervals
open List

def tsnInGapList (list : SCTPSimpleGapList) (tsn : Uint32) : Bool :=
  list.gaps.any fun gap => tsnBetween gap.start tsn gap.stop

def forwardCumAckTSN (list : SCTPSimpleGapList) (cTsnAck : Uint32) : SCTPSimpleGapList :=
  ⟨list.gaps.dropWhile fun gap => tsnGe cTsnAck gap.start⟩

/-- The reference argument and the list after `tryToAdvanceCumAckTSN`, with its return value. -/
structure Advanced where
  progress : Bool
  cTsnAck : Uint32
  list : SCTPSimpleGapList

/-- The rounds that are left of the loop over the blocks. Shifting the blocks down does not
change `NumGaps`: the last block stays in its place, too. -/
def advanceLoop : ℕ → Bool → Uint32 → List Gap → Advanced
  | 0, progress, cTsnAck, gaps => ⟨progress, cTsnAck, ⟨gaps⟩⟩
  | _ + 1, progress, cTsnAck, [] => ⟨progress, cTsnAck, ⟨[]⟩⟩
  | counter + 1, progress, cTsnAck, gap :: gaps =>
    if cTsnAck + 1 = gap.start then
      advanceLoop counter true gap.stop (gaps ++ [(gap :: gaps).getLast (List.cons_ne_nil _ _)])
    else advanceLoop counter progress cTsnAck (gap :: gaps)

def tryToAdvanceCumAckTSN (list : SCTPSimpleGapList) (cTsnAck : Uint32) : Advanced :=
  advanceLoop list.gaps.length false cTsnAck list.gaps

/-- The block `gap` has the TSN. With a single TSN in it the blocks behind it are shifted down
from the entry behind the last one, which a full array does not have. -/
def removeFromGap (removedTSN : Uint32) (before : List Gap) (gap : Gap) (behind : List Gap) :
    Result (List Gap) :=
  let gapsize := (gap.stop - gap.start + 1).toInt
  if gapsize > 1 then
    if gap.stop = removedTSN then
      .ok (before ++ { gap with stop := gap.stop - 1 } :: behind)
    else if gap.start = removedTSN then
      .ok (before ++ { gap with start := gap.start + 1 } :: behind)
    else
      .ok ((before ++ ⟨gap.start, removedTSN - 1⟩ :: ⟨removedTSN + 1, gap.stop⟩ :: behind).take
        MAX_GAP_COUNT)
  else if (before ++ gap :: behind).length < MAX_GAP_COUNT then .ok (before ++ behind)
  else .error .outOfRange

/-- The loop over the blocks, which are given from the last to the first. -/
def removeLoop (removedTSN : Uint32) : List Gap → List Gap → Result (List Gap)
  | [], behind => .ok behind
  | gap :: before, behind =>
    if tsnBetween gap.start removedTSN gap.stop then
      removeFromGap removedTSN before.reverse gap behind
    else removeLoop removedTSN before (gap :: behind)

def removeFromGapList (list : SCTPSimpleGapList) (removedTSN : Uint32) :
    Result SCTPSimpleGapList := do
  let gaps ← removeLoop removedTSN list.gaps.reverse []
  .ok ⟨gaps⟩

variable {base : Uint32} {C T : ℕ} {i : ℕ × ℕ} {l m : List (ℕ × ℕ)}

/-- The blocks are separated and lie above the position `C`, in half of the number space. -/
structure Above (C : ℕ) (l : List (ℕ × ℕ)) : Prop where
  ascending : Ascending l
  proper : Proper l
  above : ∀ i ∈ l, C < i.1
  bound : ∀ i ∈ l, i.2 ≤ 2 ^ 31

theorem Above.lt (h : Above C l) (hT : T ∈ cover l) : C < T ∧ T < 2 ^ 31 := by
  obtain ⟨i, hi, hle, hlt⟩ := hT
  exact ⟨(h.above i hi).trans_le hle, hlt.trans_le (h.bound i hi)⟩

theorem Above.mono {C' : ℕ} (h : Above C l) (hC : C' ≤ C) : Above C' l :=
  ⟨h.ascending, h.proper, fun i hi => hC.trans_lt (h.above i hi), h.bound⟩

/-- `tsnBetween` is exact for a block of less than half the number space. -/
theorem tsnBetween_gapAt (hi : i.1 < i.2 ∧ i.2 ≤ 2 ^ 31) {x : ℕ} (hx : x < 2 ^ 32) :
    tsnBetween (gapAt base i).start (ofPos base x) (gapAt base i).stop =
      decide (i.1 ≤ x ∧ x < i.2) := by
  simp only [tsnBetween, tsnGe_eq, gapAt, le]
  rw [← Bool.decide_and, decide_eq_decide]
  by_cases hlow : i.1 ≤ x
  · rw [toNat_ofPos_sub hlow (by omega)]
    by_cases hhigh : x ≤ i.2 - 1
    · rw [toNat_ofPos_sub hhigh (by omega)]
      omega
    · rw [toNat_ofPos_sub_of_lt (by omega) (by omega)]
      omega
  · rw [toNat_ofPos_sub_of_lt (by omega) (by omega), toNat_ofPos_sub (by omega) (by omega)]
    omega

theorem Above.tsnInGapList (h : Above C l) {x : ℕ} (hx : x < 2 ^ 32) :
    tsnInGapList ⟨gapsAt base l⟩ (ofPos base x) = true ↔ x ∈ cover l := by
  simp only [SCTPSimpleGapList.tsnInGapList, gapsAt, any_map, any_eq_true, Function.comp_apply]
  refine exists_congr fun i => and_congr_right fun hi => ?_
  rw [tsnBetween_gapAt ⟨h.proper i hi, h.bound i hi⟩ hx, decide_eq_true_eq]

/-- Dropping the blocks in front is cutting off whole blocks. -/
theorem Above.forwardCumAckTSN (h : Above C l) (hT : T < 2 ^ 31) :
    forwardCumAckTSN ⟨gapsAt base l⟩ (ofPos base T) =
      ⟨gapsAt base (l.filter fun i => T < i.1)⟩ := by
  have hge : ∀ i ∈ l, tsnGe (ofPos base T) (gapAt base i).start = decide (i.1 ≤ T) := by
    intro i hi
    have hbound := (h.proper i hi).trans_le (h.bound i hi)
    show tsnGe (ofPos base T) (ofPos base i.1) = decide (i.1 ≤ T)
    rw [tsnGe_eq, le_ofPos (by decide) ⟨by omega, by omega⟩]
  have hswitch : l.Switches ((fun gap => tsnGe (ofPos base T) gap.start) ∘ gapAt base) := by
    refine h.ascending.imp_of_mem fun {i j} hi hj hij hle => ?_
    have := h.proper i hi
    rw [Function.comp_apply, hge j hj, decide_eq_true_eq] at hle
    rw [Function.comp_apply, hge i hi, decide_eq_true_eq]
    omega
  rw [SCTPSimpleGapList.forwardCumAckTSN, gapsAt, dropWhile_map, hswitch.dropWhile_eq]
  congr 2
  refine filter_congr fun i hi => ?_
  rw [Function.comp_apply, hge i hi, ← decide_not, decide_eq_decide]
  exact Nat.not_le

theorem Above.filter (h : Above C l) : Above T (l.filter fun i => T < i.1) where
  ascending := h.ascending.filter _
  proper := fun i hi => h.proper i (mem_of_mem_filter hi)
  above := fun _ hi => of_decide_eq_true (mem_filter.mp hi).2
  bound := fun i hi => h.bound i (mem_of_mem_filter hi)

theorem advanceLoop_eq_self {progress : Bool} {gaps : List Gap} {c : Uint32}
    (h : ∀ gap ∈ gaps.head?, c + 1 ≠ gap.start) (n : ℕ) :
    advanceLoop n progress c gaps = ⟨progress, c, ⟨gaps⟩⟩ := by
  induction n with
  | zero => rfl
  | succ n ih =>
    cases gaps with
    | nil => rfl
    | cons gap gaps => rw [advanceLoop, if_neg (h gap rfl), ih]

/-- With a hole behind the cumulative ack there is nothing to advance. -/
theorem Above.tryToAdvanceCumAckTSN (h : Above C l) (hC : C < 2 ^ 31) (hnot : C + 1 ∉ cover l) :
    tryToAdvanceCumAckTSN ⟨gapsAt base l⟩ (ofPos base C) =
      ⟨false, ofPos base C, ⟨gapsAt base l⟩⟩ := by
  refine advanceLoop_eq_self (fun gap hgap heq => hnot ?_) _
  cases l with
  | nil => cases hgap
  | cons i l =>
    obtain rfl : gapAt base i = gap := Option.some.inj hgap
    have hproper := h.proper i mem_cons_self
    have hbound := h.bound i mem_cons_self
    have habove := h.above i mem_cons_self
    have hstart : ofPos base (C + 1) = ofPos base i.1 := (ofPos_succ base C).trans heq
    have hpos : C + 1 = i.1 := (ofPos_inj (by decide) ⟨by omega, by omega⟩).mp hstart
    exact mem_cover_of_mem mem_cons_self hpos.ge (hpos ▸ hproper)

theorem gapsize_gapAt (hi : 0 < i.1 ∧ i.1 < i.2 ∧ i.2 ≤ 2 ^ 31) :
    ((gapAt base i).stop - (gapAt base i).start + 1).toInt > 1 ↔ i.1 + 1 < i.2 := by
  have hsize : (gapAt base i).stop - (gapAt base i).start + 1 = BitVec.ofNat 32 (i.2 - i.1) := by
    have hlen : i.2 - i.1 = i.2 - 1 - i.1 + 1 := by omega
    rw [hlen, BitVec.ofNat_add]
    exact congrArg (· + 1#32) (ofPos_sub_ofPos (by omega))
  rw [hsize, BitVec.toInt_eq_toNat_of_lt, BitVec.toNat_ofNat, Nat.mod_eq_of_lt]
  · omega
  · omega
  · rw [BitVec.toNat_ofNat, Nat.mod_eq_of_lt (by omega)]
    omega

/-- Taking the point `T` out of the block `i` is not just cutting off one end of it. -/
def Divides (T : ℕ) (i : ℕ × ℕ) : Prop :=
  i.1 = T ∧ T + 1 = i.2 ∨ i.1 < T ∧ T + 1 < i.2

/-- The block with the TSN loses it. -/
theorem removeFromGap_gapAt {before behind : List Gap} (hi : 0 < i.1 ∧ i.1 < i.2 ∧ i.2 ≤ 2 ^ 31)
    (hT : i.1 ≤ T ∧ T < i.2)
    (hlen : Divides T i → (before ++ gapAt base i :: behind).length < MAX_GAP_COUNT) :
    removeFromGap (ofPos base T) before (gapAt base i) behind =
      .ok (before ++ (gapsAt base (punch T i) ++ behind)) := by
  have hstop : (gapAt base i).stop = ofPos base T ↔ i.2 - 1 = T :=
    ofPos_inj (by decide) ⟨by omega, by omega⟩
  have hstart : (gapAt base i).start = ofPos base T ↔ i.1 = T :=
    ofPos_inj (by decide) ⟨by omega, by omega⟩
  have htake : i.1 < T ∧ T + 1 < i.2 → ∀ gaps : List Gap,
      gaps.length = (before ++ gapAt base i :: behind).length + 1 →
      gaps.take MAX_GAP_COUNT = gaps := by
    intro hinside gaps hgaps
    have hroom := hlen (.inr hinside)
    exact take_of_length_le (by omega)
  have hpred : i.1 < T → ofPos base T - 1#32 = ofPos base (T - 1) :=
    fun hlt => ofPos_pred (Nat.zero_lt_of_lt hlt)
  simp only [removeFromGap, gapsize_gapAt hi, hstop, hstart, punch, if_pos hT]
  by_cases hone : i.1 + 1 < i.2
  · rw [if_pos hone]
    by_cases hlast : i.2 - 1 = T
    · have hempty : ¬ T + 1 < i.2 := by omega
      have hfirst : i.1 < T := by omega
      rw [if_pos hlast]
      simp [hempty, hfirst, gapAt, hlast, hpred hfirst]
    · rw [if_neg hlast]
      by_cases hfirst : i.1 = T
      · have hrest : T + 1 < i.2 := by omega
        rw [if_pos hfirst]
        simp [hrest, hfirst, gapAt, ofPos_succ]
      · have hlower : i.1 < T := by omega
        have hupper : T + 1 < i.2 := by omega
        rw [if_neg hfirst, htake ⟨hlower, hupper⟩ _
          (by simp only [length_append, length_cons]; omega)]
        simp [hlower, hupper, gapAt, ofPos_succ, hpred hlower]
  · have hlower : ¬ i.1 < T := by omega
    have hupper : ¬ T + 1 < i.2 := by omega
    rw [if_neg hone, if_pos (hlen (.inl ⟨by omega, by omega⟩))]
    simp [hlower, hupper]

/-- The blocks behind the last one with the TSN are passed. -/
theorem removeLoop_pass {t : Uint32} {gaps : List Gap}
    (h : ∀ gap ∈ gaps, tsnBetween gap.start t gap.stop = false) (before behind : List Gap) :
    removeLoop t (gaps.reverse ++ before) behind = removeLoop t before (gaps ++ behind) := by
  induction gaps generalizing before with
  | nil => rfl
  | cons gap gaps ih =>
    rw [reverse_cons, append_assoc, ih fun g hg => h g (mem_cons_of_mem _ hg),
      singleton_append, removeLoop, if_neg (by simp [h gap mem_cons_self])]
    rfl

theorem tsnBetween_eq_false (hl : ∀ j ∈ l, j.1 < j.2 ∧ j.2 ≤ 2 ^ 31) (hT : T < 2 ^ 32)
    (hnot : T ∉ cover l) {gap : Gap} (hgap : gap ∈ gapsAt base l) :
    tsnBetween gap.start (ofPos base T) gap.stop = false := by
  obtain ⟨j, hj, rfl⟩ := mem_map.mp hgap
  rw [tsnBetween_gapAt (hl j hj) hT, decide_eq_false_iff_not]
  exact fun h => hnot (mem_cover_of_mem hj h.1 h.2)

theorem removeLoop_at {A D : List (ℕ × ℕ)} (hi : i.1 < i.2 ∧ i.2 ≤ 2 ^ 31)
    (hT : i.1 ≤ T ∧ T < i.2) (hD : ∀ j ∈ D, (j.1 < j.2 ∧ j.2 ≤ 2 ^ 31) ∧ T < j.1) :
    removeLoop (ofPos base T) (gapsAt base (A ++ i :: D)).reverse [] =
      removeFromGap (ofPos base T) (gapsAt base A) (gapAt base i) (gapsAt base D) := by
  have hnot : T ∉ cover D := by
    rintro ⟨j, hj, hle, -⟩
    exact absurd (hD j hj).2 (not_lt.mpr hle)
  have hpass := removeLoop_pass (fun gap hgap => @tsnBetween_eq_false base T D
    (fun j hj => (hD j hj).1) (by omega) hnot gap hgap) (gapAt base i :: (gapsAt base A).reverse) []
  rw [gapsAt_append, gapsAt_cons, reverse_append, reverse_cons, append_assoc, singleton_append,
    hpass, removeLoop, tsnBetween_gapAt hi (by omega), if_pos (decide_eq_true hT),
    reverse_reverse, append_nil]

theorem removeLoop_eq_self (hl : ∀ j ∈ l, j.1 < j.2 ∧ j.2 ≤ 2 ^ 31) (hT : T < 2 ^ 32)
    (hnot : T ∉ cover l) :
    removeLoop (ofPos base T) (gapsAt base l).reverse [] = .ok (gapsAt base l) := by
  have hpass := removeLoop_pass (fun gap hgap => @tsnBetween_eq_false base T l hl hT hnot gap hgap) [] []
  rwa [append_nil, append_nil] at hpass

/-- The blocks around the one with a point. -/
theorem Above.exists_block (h : Above C l) (hT : T ∈ cover l) :
    ∃ A i D, l = A ++ i :: D ∧ (i.1 ≤ T ∧ T < i.2) ∧ T ∉ cover A ∧ ∀ j ∈ D, T < j.1 := by
  obtain ⟨i, hi, hle, hlt⟩ := hT
  obtain ⟨A, D, rfl⟩ := append_of_mem hi
  obtain ⟨hA, hD⟩ := h.ascending.apart
  refine ⟨A, i, D, rfl, ⟨hle, hlt⟩, ?_, fun j hj => hlt.trans (hD j hj)⟩
  rintro ⟨j, hj, -, hjlt⟩
  have := hA j hj
  omega

theorem Above.removeFromGapList_of_divides (h : Above C l) (hT : T < 2 ^ 32)
    (hlen : ∀ i ∈ l, Divides T i → l.length < MAX_GAP_COUNT) :
    removeFromGapList ⟨gapsAt base l⟩ (ofPos base T) = .ok ⟨gapsAt base (erase l T)⟩ := by
  have hblocks : ∀ j ∈ l, j.1 < j.2 ∧ j.2 ≤ 2 ^ 31 := fun j hj => ⟨h.proper j hj, h.bound j hj⟩
  rw [SCTPSimpleGapList.removeFromGapList]
  by_cases hmem : T ∈ cover l
  · obtain ⟨A, i, D, rfl, hin, hA, hD⟩ := h.exists_block hmem
    have hi : i ∈ A ++ i :: D := by simp
    have habove := h.above i hi
    have hnot : T ∉ cover D := by
      rintro ⟨j, hj, hle, -⟩
      exact absurd (hD j hj) (not_lt.mpr hle)
    have hsplit : Intervals.erase (A ++ i :: D) T = A ++ (punch T i ++ D) := by
      rw [Intervals.erase, flatMap_append, flatMap_cons, ← Intervals.erase,
        ← Intervals.erase, erase_of_not_mem hA, erase_of_not_mem hnot]
    rw [removeLoop_at (hblocks i hi) hin fun j hj => ⟨hblocks j (by simp [hj]), hD j hj⟩,
      removeFromGap_gapAt ⟨by omega, hblocks i hi⟩ hin fun hdiv => by simpa using hlen i hi hdiv,
      ok_bind, hsplit, gapsAt_append, gapsAt_append]
  · rw [removeLoop_eq_self hblocks hT hmem, ok_bind, erase_of_not_mem hmem]

theorem Above.removeFromGapList (h : Above C l) (hT : T < 2 ^ 31)
    (hlen : T ∈ cover l → l.length < MAX_GAP_COUNT) :
    removeFromGapList ⟨gapsAt base l⟩ (ofPos base T) = .ok ⟨gapsAt base (erase l T)⟩ := by
  refine h.removeFromGapList_of_divides (by omega) fun i hi hdiv => hlen ⟨i, hi, ?_⟩
  unfold Divides at hdiv
  omega

theorem Above.erase (h : Above C l) : Above C (erase l T) where
  ascending := h.ascending.erase
  proper := h.proper.erase
  above := by
    intro j hj
    obtain ⟨i, hi, hj⟩ := mem_flatMap.mp hj
    exact (h.above i hi).trans_le (mem_punch hj).1
  bound := by
    intro j hj
    obtain ⟨i, hi, hj⟩ := mem_flatMap.mp hj
    exact (mem_punch hj).2.trans (h.bound i hi)

/-- The result of an update whose cumulative ack is the end of one more block, which begins at
`start` behind the cumulative ack `c`. -/
def Updated.prepend (start c : Uint32) (u : Updated) : Updated :=
  ⟨u.result, c, u.newChunkReceived, ⟨⟨start, u.cTsnAck⟩ :: u.list.gaps⟩⟩

theorem modifyLastStop_cons (f : Uint32 → Uint32) (gap : Gap) {gaps : List Gap} (h : gaps ≠ []) :
    modifyLastStop f (gap :: gaps) = modifyLastStop f gaps >>= fun gaps => .ok (gap :: gaps) := by
  obtain ⟨init, last, rfl⟩ : ∃ init last, gaps = init ++ [last] :=
    ⟨_, _, (dropLast_append_getLast h).symm⟩
  rw [← cons_append, modifyLastStop_concat, modifyLastStop_concat]
  rfl

section Prepend

variable {t c s e lo hi : Uint32} {new : Bool} {before behind : List Gap} {gap : Gap}

theorem eq_lo_of_gapsize (hin : tsnBetween lo t hi = true) (hsize : ¬ hi - lo + 1 > 1) :
    t = lo := by
  simp only [tsnBetween, tsnGe_eq, le, Bool.and_eq_true, decide_eq_true_eq] at hin
  bv_omega

/-- No TSN lies between a TSN and the one before it. -/
theorem tsnBetween_succ_self (c t : Uint32) : tsnBetween (c + 1) t c = false := by
  rw [← Bool.not_eq_true]
  intro hin
  simp only [tsnBetween, tsnGe_eq, le, Bool.and_eq_true, decide_eq_true_eq] at hin
  bv_omega

theorem tsnGt_succ (h : tsnGt t e = true) (hne : t ≠ e + 1) : tsnGt t (e + 1) = true := by
  simp only [tsnGt_eq, lt, le, Bool.and_eq_true, bne_iff_ne, decide_eq_true_eq] at h ⊢
  exact ⟨hne.symm, by bv_omega⟩

theorem fillHole_prepend (hT : t ≠ c + 1) (hin : tsnBetween lo t hi = true)
    (hlen : (before ++ gap :: behind).length + 1 < MAX_GAP_COUNT)
    (hlo : t = lo → (before = [] ↔ lo = e + 1)) :
    fillHole t c lo hi (⟨s, e⟩ :: before) gap behind =
      fillHole t e lo hi before gap behind >>= fun (c', gaps) => .ok (c, ⟨s, c'⟩ :: gaps) := by
  have hextend : ∀ (x y : Uint32) (after : List Gap), t = lo → (lo = e + 1 → y = x) →
      (modifyLastStop (fun _ => x) (⟨s, e⟩ :: before) >>= fun before =>
          (.ok (c, before ++ after) : Result (Uint32 × List Gap))) =
        (if lo = e + 1 then .ok (y, before ++ after)
          else modifyLastStop (fun _ => x) before >>= fun before => .ok (e, before ++ after)) >>=
          fun (c', gaps) => .ok (c, ⟨s, c'⟩ :: gaps) := by
    intro x y after heq hxy
    by_cases hnil : before = []
    · have hend := (hlo heq).mp hnil
      rw [if_pos hend, hnil, hxy hend]
      rfl
    · rw [if_neg (mt (hlo heq).mpr hnil), modifyLastStop_cons _ _ hnil]
      cases modifyLastStop (fun _ => x) before <;> rfl
  unfold fillHole
  by_cases hsize : hi - lo + 1 > 1
  · by_cases hhi : t = hi
    · simp only [if_pos hsize, if_pos hhi]
      rfl
    · by_cases heq : t = lo
      · subst heq
        simp only [if_pos hsize, if_neg hhi, if_neg hT]
        exact hextend t (e + 1) (gap :: behind) rfl Eq.symm
      · have htake : (before ++ ⟨t, t⟩ :: gap :: behind).take MAX_GAP_COUNT =
            before ++ ⟨t, t⟩ :: gap :: behind := by
          apply take_of_length_le
          simp only [length_append, length_cons] at hlen ⊢
          omega
        have htake' : ((⟨s, e⟩ :: before) ++ ⟨t, t⟩ :: gap :: behind).take MAX_GAP_COUNT =
            (⟨s, e⟩ :: before) ++ ⟨t, t⟩ :: gap :: behind := by
          apply take_of_length_le
          simp only [length_append, length_cons] at hlen ⊢
          omega
        simp only [if_pos hsize, if_neg hhi, if_neg heq, htake, htake']
        rfl
  · obtain rfl := eq_lo_of_gapsize hin hsize
    simp only [if_neg hsize, if_neg hT]
    exact hextend gap.stop gap.stop behind rfl fun _ => rfl

theorem updateEnd_prepend (hT : t ≠ c + 1) (hgt : tsnGt t e = true)
    (hlen : before.length + 1 < MAX_GAP_COUNT) (hnil : before = [] → lo = e + 1)
    (hlo : t = lo → lo = e + 1 → before = []) :
    updateEnd t c new lo (⟨s, e⟩ :: before) =
      updateEnd t e new lo before >>= fun u => .ok (u.prepend s c) := by
  unfold updateEnd
  by_cases heq : t = lo
  · subst heq
    simp only [if_true, if_neg hT]
    by_cases hend : t = e + 1
    · rw [if_pos hend, hlo rfl hend, hend]
      rfl
    · rw [if_neg hend, modifyLastStop_cons _ _ (mt hnil hend)]
      cases modifyLastStop (· + 1) before <;> rfl
  · simp only [if_neg heq]
    have hall : ((⟨s, e⟩ :: before).getLast?.all fun last => tsnGt t (last.stop + 1)) =
        before.getLast?.all fun last => tsnGt t (last.stop + 1) := by
      cases before with
      | nil => exact tsnGt_succ hgt fun h => heq (h.trans (hnil rfl).symm)
      | cons gap before => rfl
    have hroom : (Gap.mk s e :: before).length < MAX_GAP_COUNT ∧ before.length < MAX_GAP_COUNT := by
      rw [length_cons]
      omega
    rw [hall]
    by_cases hnew : before.getLast?.all fun last => tsnGt t (last.stop + 1)
    · rw [if_pos hnew, if_pos hnew, if_pos hroom.1, if_pos hroom.2]
      rfl
    · rw [if_neg hnew, if_neg hnew]
      rfl

/-- A block right behind the cumulative ack is extended as the cumulative ack would be. -/
theorem updateLoop_prepend (hT : t ≠ c + 1) (hgt : tsnGt t e = true)
    (hlen : before.length + behind.length + 1 < MAX_GAP_COUNT)
    (hbehind : ∀ gap ∈ behind, gap.stop ≠ e) (hnil : before = [] → lo = e + 1)
    (hlo : t = lo → lo = e + 1 → before = [])
    (hzero : before = [] → t = lo → ∀ gap ∈ behind.head?, gap.start > 0) :
    updateLoop t c new lo (⟨s, e⟩ :: before) behind =
      updateLoop t e new lo before behind >>= fun u => .ok (u.prepend s c) := by
  induction behind generalizing lo before with
  | nil => exact updateEnd_prepend hT hgt hlen hnil hlo
  | cons gap behind ih =>
    obtain ⟨hgap, hbehind⟩ := forall_mem_cons.mp hbehind
    have hlen' : (before ++ [gap]).length + behind.length + 1 < MAX_GAP_COUNT := by
      simp only [length_append, length_cons, length_nil] at hlen ⊢
      omega
    have hne : before ++ [gap] ≠ [] := by simp
    simp only [updateLoop]
    by_cases hpos : gap.start > 0
    · rw [if_pos hpos, if_pos hpos]
      by_cases hin : tsnBetween lo t (gap.start - 1) = true
      · rw [if_pos hin, if_pos hin, fillHole_prepend hT hin
          (by simp only [length_append, length_cons] at hlen ⊢; omega)
          fun heq => ⟨hnil, hlo heq⟩]
        cases fillHole t e lo (gap.start - 1) before gap behind <;> rfl
      · rw [if_neg hin, if_neg hin]
        refine ih hlen' hbehind (fun h => absurd h hne) (fun _ hend => ?_) fun h => absurd h hne
        exact absurd ((BitVec.add_left_inj 1#32).mp hend) hgap
    · rw [if_neg hpos, if_neg hpos]
      refine ih hlen' hbehind (fun h => absurd h hne) (fun heq hend => ?_) fun h => absurd h hne
      exact absurd (hzero (hlo heq hend) heq gap rfl) hpos

end Prepend

/-- What `updateGapList` asks of the list to add a TSN above the cumulative ack. -/
structure Accepts (list : SCTPSimpleGapList) (receivedTSN cTsnAck : Uint32) : Prop where
  room : list.gaps.length < MAX_GAP_COUNT
  harmless : list.ZeroBlockHarmless receivedTSN cTsnAck
  /-- The received TSN is not TSN `0` in a block right behind the cumulative ack. -/
  ahead : receivedTSN = 0 → receivedTSN = cTsnAck + 1 → ∀ gap ∈ list.gaps, gap.start ≠ 0

/-- A list without a block at TSN `0` accepts every TSN. -/
theorem Accepts.of_ne_zero {list : SCTPSimpleGapList} {receivedTSN cTsnAck : Uint32}
    (hlen : list.gaps.length < MAX_GAP_COUNT) (hzero : ∀ gap ∈ list.gaps, gap.start ≠ 0) :
    Accepts list receivedTSN cTsnAck := by
  refine ⟨hlen, .inr fun before zero behind heq hz => ?_, fun _ _ => hzero⟩
  exact absurd hz (hzero zero (heq ▸ by simp))

/-- The TSN at position `T` is added to the blocks `l` above the cumulative ack at `C`, which
may advance to `C'` over it and what follows without a hole. -/
structure Grows (C T : ℕ) (l : List (ℕ × ℕ)) (C' : ℕ) (m : List (ℕ × ℕ)) : Prop where
  above : Above C' m
  le : C ≤ C'
  mem : ∀ x, C' < x → (x ∈ cover m ↔ x ∈ cover l ∨ x = T)
  passed : ∀ x, C < x → x ≤ C' → x ∈ cover l ∨ x = T
  next : C < C' → T = C + 1 ∧ T ∉ cover l ∧ C' + 1 ∉ cover l
  advances : T = C + 1 → T ∉ cover l → C < C'

theorem Grows.refl (h : Above C l) (hT : T ∈ cover l) : Grows C T l C l where
  above := h
  le := le_rfl
  mem := fun _ _ => ⟨.inl, fun hx => hx.elim id fun heq => heq ▸ hT⟩
  passed := fun _ hlt hle => absurd (hlt.trans_le hle) (lt_irrefl C)
  next := fun hlt => absurd hlt (lt_irrefl C)
  advances := fun _ hnot => absurd hT hnot

theorem Layout.above (h : Layout C l) (hbound : ∀ i ∈ l, i.2 ≤ 2 ^ 31) : Above C l where
  ascending := (pairwise_cons.mp h.ascending).2
  proper := h.proper
  above := fun _ hi => (Nat.lt_succ_self C).trans (h.fits hi).above
  bound := hbound

theorem Layout.not_mem (h : Layout C l) : C + 1 ∉ cover l := by
  rintro ⟨i, hi, hle, -⟩
  exact absurd (h.fits hi).above (not_lt.mpr hle)

/-- The first block begins right behind the cumulative ack, or there is a hole. -/
theorem Above.cases (h : Above C l) : Layout C l ∨
    ∃ E l', l = (C + 1, E + 1) :: l' ∧ C < E ∧ Layout E l' := by
  have hbound : ∀ i ∈ l, ∀ D, i.2 ≤ D + 2 ^ 31 :=
    fun i hi D => (h.bound i hi).trans (Nat.le_add_left _ D)
  cases l with
  | nil => exact .inl ⟨pairwise_singleton _ _, h.proper, fun i hi => hbound i hi C⟩
  | cons i l =>
    have hproper := h.proper i mem_cons_self
    have habove := h.above i mem_cons_self
    obtain ⟨hfirst, hrest⟩ := pairwise_cons.mp h.ascending
    by_cases hnext : i.1 = C + 1
    · have hi : i = (C + 1, i.2 - 1 + 1) := Prod.ext hnext (by simp only; omega)
      refine .inr ⟨i.2 - 1, l, by rw [← hi], by omega, ⟨?_, ?_, ?_⟩⟩
      · exact pairwise_cons.mpr ⟨fun j hj => by have := hfirst j hj; simp only; omega, hrest⟩
      · exact fun j hj => h.proper j (mem_cons_of_mem i hj)
      · exact fun j hj => hbound j (mem_cons_of_mem i hj) _
    · refine .inl ⟨pairwise_cons.mpr ⟨fun j hj => ?_, h.ascending⟩, h.proper,
        fun j hj => hbound j hj C⟩
      have := h.ascending.head_le h.proper.le hj
      simp only
      omega

theorem Right.exists_layout {new : Bool} {u : Updated} (h : Layout C l)
    (hbound : ∀ i ∈ l, i.2 ≤ 2 ^ 31) (hT : C < T ∧ T < 2 ^ 31) (hright : Right base C T new l u) :
    ∃ C' m new', u = ⟨true, ofPos base C', new', ⟨gapsAt base m⟩⟩ ∧ Layout C' m ∧ C ≤ C' ∧
      (∀ i ∈ m, i.2 ≤ 2 ^ 31) ∧
      ∀ x, x ∈ cover ((0, C' + 1) :: m) ↔ x ∈ cover ((0, C + 1) :: l) ∨ x = T := by
  obtain ⟨hmem, rfl⟩ | ⟨-, rfl⟩ := hright
  · exact ⟨C, l, new, rfl, h, le_rfl, hbound, fun x =>
      ⟨.inl, fun hx => hx.elim id fun heq => heq ▸ hmem⟩⟩
  · obtain ⟨C', m, heq, hle, -, hlayout, -⟩ := exists_insert_eq h ⟨hT.1, by omega⟩
    have hpoints : ∀ x, x ∈ cover ((0, C' + 1) :: m) ↔ x ∈ cover ((0, C + 1) :: l) ∨ x = T := by
      intro x
      rw [← heq, mem_cover_insert]
      refine or_congr Iff.rfl ?_
      simp only
      omega
    refine ⟨C', m, true, by rw [heq]; rfl, hlayout, hle, fun i hi => ?_, hpoints⟩
    have hproper := hlayout.proper i hi
    -- the last position of a new block is an old one or the added one
    obtain ⟨j, hj, -, hlt⟩ | hlast := (hpoints (i.2 - 1)).mp
      (mem_cover_of_mem (mem_cons_of_mem _ hi) (by omega) (by omega))
    · obtain rfl | hj := mem_cons.mp hj
      · simp only at hlt
        omega
      · have := hbound j hj
        omega
    · omega

theorem Grows.of_layout {C' : ℕ} (h : Layout C l) (hm : Layout C' m) (hle : C ≤ C')
    (hbound : ∀ i ∈ m, i.2 ≤ 2 ^ 31)
    (hpoints : ∀ x, x ∈ cover ((0, C' + 1) :: m) ↔ x ∈ cover ((0, C + 1) :: l) ∨ x = T) :
    Grows C T l C' m := by
  simp only [mem_cover_cons] at hpoints
  have hbehind : ∀ x, C < x → (x ∈ cover l ∨ x = T ↔ x ≤ C' ∨ x ∈ cover m) := by
    intro x hx
    have hlow : ¬ (0 ≤ x ∧ x < C + 1) := by omega
    have hack : (0 ≤ x ∧ x < C' + 1) ↔ x ≤ C' := by omega
    rw [← hack, hpoints x, or_assoc, or_iff_right hlow]
  have hnot : C' + 1 ∉ cover m := hm.not_mem
  have hnext : C < C' → T = C + 1 := fun hlt =>
    (((hbehind (C + 1) (Nat.lt_succ_self C)).mpr (.inl hlt)).resolve_left h.not_mem).symm
  refine ⟨hm.above hbound, hle, fun x hx => ?_, fun x hlt hx => ?_,
    fun hlt => ⟨hnext hlt, fun hmem => ?_, fun hmem => ?_⟩, fun heq _ => ?_⟩
  · rw [hbehind x (hle.trans_lt hx), or_iff_right (not_le.mpr hx)]
  · exact (hbehind x hlt).mpr (.inl hx)
  · exact h.not_mem (hnext hlt ▸ hmem)
  · have := (hbehind (C' + 1) (Nat.lt_succ_of_le hle)).mp (.inl hmem)
    exact hnot (this.resolve_left (by omega))
  · by_contra hge
    obtain rfl : C = C' := le_antisymm hle (not_lt.mp hge)
    have := (hbehind T (heq ▸ Nat.lt_succ_self C)).mp (.inr rfl)
    exact hnot (heq ▸ this.resolve_left (by omega))

section Adjacent

variable {E : ℕ} {new : Bool}

/-- Where `lo` is does not matter when the received TSN lies behind it. -/
theorem updateLoop_lo {L L' : ℕ} {before : List Gap} (hm : ∀ i ∈ m, Fits C i)
    (hL : C < L ∧ L < T) (hL' : C < L' ∧ L' < T) (hT : C < T ∧ T < C + 2 ^ 31) :
    updateLoop (ofPos base T) (ofPos base C) new (ofPos base L) before (gapsAt base m) =
      updateLoop (ofPos base T) (ofPos base C) new (ofPos base L') before (gapsAt base m) := by
  induction m generalizing before with
  | nil => exact updateEnd_lo hL hL' hT before
  | cons i m ih =>
    obtain ⟨hi, hm⟩ := forall_mem_cons.mp hm
    rw [gapsAt_cons, updateLoop_cons hi ⟨hL.1, by omega⟩ hT,
      updateLoop_cons hi ⟨hL'.1, by omega⟩ hT, ih hm]
    by_cases hTi : T < i.1
    · rw [fillHole_lo hi hL hL' hTi, if_pos (show L ≤ T ∧ T < i.1 from ⟨hL.2.le, hTi⟩),
        if_pos (show L' ≤ T ∧ T < i.1 from ⟨hL'.2.le, hTi⟩)]
    · rw [if_neg (show ¬ (L ≤ T ∧ T < i.1) from fun h => hTi h.2),
        if_neg (show ¬ (L' ≤ T ∧ T < i.1) from fun h => hTi h.2)]

theorem updateEnd_inside {B : List (ℕ × ℕ)} {L : ℕ} (hTi : T ≤ i.2) (hne : T ≠ L)
    (hi : C < i.2 ∧ i.2 ≤ C + 2 ^ 31) (hL : C < L ∧ L ≤ C + 2 ^ 31)
    (hT : C < T ∧ T < C + 2 ^ 31) :
    updateEnd (ofPos base T) (ofPos base C) new (ofPos base L) (gapsAt base (B ++ [i])) =
      .ok ⟨true, ofPos base C, new, ⟨gapsAt base (B ++ [i])⟩⟩ := by
  rw [updateEnd_ofPos hL hT, if_neg hne, all_last_iff hT hi,
    if_neg (by simp only [decide_eq_true_eq]; omega)]

/-- The loop passes the block right behind the cumulative ack. -/
theorem updateLoop_first (hzero : ofPos base (C + 1) ≠ 0) :
    updateLoop (ofPos base T) (ofPos base C) new (ofPos base (C + 1)) []
        (gapsAt base ((C + 1, E + 1) :: l)) =
      updateLoop (ofPos base T) (ofPos base C) new (ofPos base (E + 1))
        [gapAt base (C + 1, E + 1)] (gapsAt base l) := by
  have hpos : (gapAt base (C + 1, E + 1)).start > 0 := (ofPos_pos_iff _).mpr hzero
  have hpred : (gapAt base (C + 1, E + 1)).start - 1 = ofPos base C :=
    ofPos_pred (Nat.succ_pos C)
  have hbetween : tsnBetween (ofPos base (C + 1)) (ofPos base T) (ofPos base C) = false := by
    rw [ofPos_succ]
    exact tsnBetween_succ_self _ _
  have hstop : (gapAt base (C + 1, E + 1)).stop + 1 = ofPos base (E + 1) :=
    (ofPos_succ base E).symm
  rw [gapsAt_cons, updateLoop, if_pos hpos]
  simp only [hpred, hbetween, hstop, Bool.false_eq_true, if_false, nil_append]

theorem updateLoop_first_zero (hzero : ofPos base (C + 1) = 0) :
    updateLoop (ofPos base T) (ofPos base C) new (ofPos base (C + 1)) []
        (gapsAt base ((C + 1, E + 1) :: l)) =
      updateLoop (ofPos base T) (ofPos base C) new (ofPos base (C + 1))
        [gapAt base (C + 1, E + 1)] (gapsAt base l) := by
  have hpos : ¬ (gapAt base (C + 1, E + 1)).start > 0 := fun h => (ofPos_pos_iff _).mp h hzero
  rw [gapsAt_cons, updateLoop, if_neg hpos]
  rfl

/-- A block at TSN `0` right behind the cumulative ack is harmless when it is the last one and has
the received TSN behind its first one, or when the received TSN lies apart from it. -/
theorem Accepts.first_zero (hT : C < T ∧ T < 2 ^ 31) (hE : C < E ∧ E + 1 ≤ 2 ^ 31)
    (hok : Accepts ⟨gapsAt base ((C + 1, E + 1) :: l)⟩ (ofPos base T) (ofPos base C))
    (hzero : ofPos base (C + 1) = 0) :
    (l = [] ∧ C + 1 < T ∧ T ≤ E) ∨ E + 1 < T := by
  have hnear : Near 32 T C := ⟨by omega, by omega⟩
  have hnear' : Near 32 T (E + 1) := ⟨by omega, by omega⟩
  have hnot : ¬ tsnLe (ofPos base T) (ofPos base C) = true := by
    rw [tsnLe_ofPos hnear, decide_eq_true_eq]
    omega
  have hfirst : T ≠ C + 1 := by
    rintro rfl
    exact hok.ahead hzero (ofPos_succ base C) (gapAt base (C + 1, E + 1)) mem_cons_self hzero
  have hword : ofPos base T ≠ ofPos base C + 1 := by
    intro heq
    exact hfirst ((ofPos_inj (by decide) ⟨by omega, by omega⟩).mp
      (heq.trans (ofPos_succ base C).symm))
  obtain hle | ⟨-, heq, -⟩ | ⟨hlast, hin⟩ | hgt :=
    hok.harmless.resolve_left hnot [] (gapAt base (C + 1, E + 1)) (gapsAt base l) rfl hzero
  · exact absurd hle hnot
  · exact absurd heq hword
  · rw [tsnBetween_gapAt ⟨by simp only; omega, hE.2⟩ (by omega), decide_eq_true_eq] at hin
    exact .inl ⟨map_eq_nil_iff.mp hlast, by simp only at hin; omega⟩
  · have hstop : (gapAt base (C + 1, E + 1)).stop + 1 = ofPos base (E + 1) :=
      (ofPos_succ base E).symm
    rw [hstop, tsnGt_ofPos hnear', decide_eq_true_eq] at hgt
    exact .inr hgt

/-- A TSN in the block right behind the cumulative ack changes nothing. -/
theorem updateLoop_inside_first (h : Above C ((C + 1, E + 1) :: l)) (hE : C < E)
    (hl : Layout E l) (hT : C < T ∧ T ≤ E)
    (hok : Accepts ⟨gapsAt base ((C + 1, E + 1) :: l)⟩ (ofPos base T) (ofPos base C)) :
    updateLoop (ofPos base T) (ofPos base C) new (ofPos base (C + 1)) []
        (gapsAt base ((C + 1, E + 1) :: l)) =
      .ok ⟨true, ofPos base C, new, ⟨gapsAt base ((C + 1, E + 1) :: l)⟩⟩ := by
  have hbound := h.bound _ mem_cons_self
  simp only at hbound
  have hT' : C < T ∧ T < C + 2 ^ 31 := by omega
  obtain ⟨B, i, hlast⟩ : ∃ B i, (C + 1, E + 1) :: l = B ++ [i] :=
    ⟨_, _, (dropLast_append_getLast (cons_ne_nil _ l)).symm⟩
  have hi : i ∈ (C + 1, E + 1) :: l := hlast ▸ by simp
  have hTi : T ≤ i.2 ∧ C < i.2 ∧ i.2 ≤ C + 2 ^ 31 := by
    have hbound' := h.bound i hi
    obtain rfl | hi := mem_cons.mp hi
    · simp only
      omega
    · have := (hl.fits hi).above.trans (hl.fits hi).proper
      omega
  by_cases hzero : ofPos base (C + 1) = 0
  · have hends := hok.first_zero ⟨hT.1, by omega⟩ ⟨hE, hbound⟩ hzero
    obtain ⟨rfl, hlt, -⟩ := hends.resolve_right (by omega)
    rw [updateLoop_first_zero hzero]
    exact updateEnd_inside (B := []) (by simp only; omega) hlt.ne' (by simp only; omega)
      ⟨Nat.lt_succ_self C, by omega⟩ hT'
  · have hm : ∀ j ∈ l, Fits C j ∧ T < j.2 := by
      intro j hj
      obtain ⟨habove, hproper, -⟩ := hl.fits hj
      have := h.bound j (mem_cons_of_mem _ hj)
      exact ⟨⟨by omega, hproper, by omega⟩, by omega⟩
    obtain ⟨L, hTL, hL, hloop⟩ := @updateLoop_beyond base (ofPos base C) new C T (E + 1) l
      [gapAt base (C + 1, E + 1)] hm ⟨by omega, by omega⟩ hT'
    rw [updateLoop_first hzero]
    refine hloop.trans ?_
    have hall : [gapAt base (C + 1, E + 1)] ++ gapsAt base l = gapsAt base (B ++ [i]) := by
      rw [← hlast]
      rfl
    rw [hall, updateEnd_inside hTi.1 hTL.ne hTi.2 ⟨by omega, hL⟩ hT', hlast]

/-- Behind the block right behind the cumulative ack the list is harmless as one that begins with
the end of the block. -/
theorem Accepts.rest (hC : C < 2 ^ 31) (hT : E < T ∧ T < 2 ^ 31) (hCE : C < E) (hl : Layout E l)
    (hok : Accepts ⟨gapsAt base ((C + 1, E + 1) :: l)⟩ (ofPos base T) (ofPos base C)) :
    HarmlessAt base E T l ∧
      (ofPos base T = ofPos base (E + 1) → ∀ gap ∈ (gapsAt base l).head?, gap.start > 0) := by
  have hnot : ∀ D, D < T → D < 2 ^ 31 → ¬ tsnLe (ofPos base T) (ofPos base D) = true := by
    intro D hD hlt
    rw [tsnLe_ofPos ⟨by omega, by omega⟩, decide_eq_true_eq]
    omega
  have hzero := hok.harmless.resolve_left (hnot C (hCE.trans hT.1) hC)
  constructor
  · refine (harmless_iff hl ⟨hT.1, by omega⟩).mp (.inr fun before zero behind heq hz => ?_)
    have hsplit : gapsAt base ((C + 1, E + 1) :: l) =
        (gapAt base (C + 1, E + 1) :: before) ++ zero :: behind := by
      rw [gapsAt_cons, cons_append]
      exact congrArg _ heq
    obtain hle | ⟨hnil, -⟩ | hlast | hgt := hzero _ zero behind hsplit hz
    · rw [getLast?_cons] at hle
      refine .inl ?_
      cases hbefore : before.getLast? with
      | none => simpa [hbefore, gapAt] using hle
      | some gap => simpa [hbefore] using hle
    · exact absurd hnil (cons_ne_nil _ _)
    · exact .inr (.inr (.inl hlast))
    · exact .inr (.inr (.inr hgt))
  · intro heq gap hgap
    obtain rfl : T = E + 1 := (ofPos_inj (by decide) ⟨by omega, by omega⟩).mp heq
    cases l with
    | nil => cases hgap
    | cons z l =>
      obtain rfl : gapAt base z = gap := Option.some.inj hgap
      obtain ⟨habove, hproper, hbound⟩ := hl.fits (i := z) mem_cons_self
      rw [ofPos_pos_iff]
      intro hz
      obtain hle | ⟨hnil, -⟩ | ⟨-, hin⟩ | hgt :=
        hzero [gapAt base (C + 1, E + 1)] (gapAt base z) (gapsAt base l) rfl hz
      · exact hnot E (Nat.lt_succ_self E) (by omega) hle
      · exact absurd hnil (cons_ne_nil _ _)
      · rw [tsnBetween, tsnGe_eq, Bool.and_eq_true, gapAt, le_ofPos (by decide)
          ⟨by omega, by omega⟩, decide_eq_true_eq] at hin
        omega
      · rw [gapAt, ofPos_pred_succ (by omega), tsnGt_ofPos ⟨by omega, by omega⟩,
          decide_eq_true_eq] at hgt
        omega

theorem updateLoop_behind_first (h : Above C ((C + 1, E + 1) :: l)) (hC : C < 2 ^ 31)
    (hE : C < E) (hl : Layout E l) (hT : E < T ∧ T < 2 ^ 31)
    (hok : Accepts ⟨gapsAt base ((C + 1, E + 1) :: l)⟩ (ofPos base T) (ofPos base C)) :
    ∃ u, Right base E T new l u ∧
      updateLoop (ofPos base T) (ofPos base C) new (ofPos base (C + 1)) []
          (gapsAt base ((C + 1, E + 1) :: l)) =
        .ok (u.prepend (ofPos base (C + 1)) (ofPos base C)) := by
  have hbound := h.bound _ mem_cons_self
  simp only at hbound
  have hlen : l.length + 1 < MAX_GAP_COUNT := by
    have := hok.room
    rwa [length_gapsAt, length_cons] at this
  obtain ⟨hsafe, hfirst⟩ := hok.rest hC hT hE hl
  obtain ⟨u, hu, hright, -⟩ := @updateLoop_outcome base new E T l (by omega) hl (by omega)
    ⟨hT.1, by omega⟩
  refine ⟨u, hright hsafe, ?_⟩
  have hpass : updateLoop (ofPos base T) (ofPos base C) new (ofPos base (C + 1)) []
      (gapsAt base ((C + 1, E + 1) :: l)) =
      updateLoop (ofPos base T) (ofPos base C) new (ofPos base (E + 1))
        [gapAt base (C + 1, E + 1)] (gapsAt base l) := by
    by_cases hzero : ofPos base (C + 1) = 0
    · have hlt := (hok.first_zero ⟨by omega, hT.2⟩ ⟨hE, hbound⟩ hzero).resolve_left (by omega)
      rw [updateLoop_first_zero hzero]
      refine updateLoop_lo (fun i hi => ?_) ⟨by omega, by omega⟩ ⟨by omega, hlt⟩
        ⟨by omega, by omega⟩
      obtain ⟨habove, hproper, -⟩ := hl.fits hi
      have := h.bound i (mem_cons_of_mem _ hi)
      exact ⟨by omega, hproper, by omega⟩
    · exact updateLoop_first hzero
  have hne : ofPos base T ≠ ofPos base C + 1 := by
    intro heq
    have := (ofPos_inj (by decide) ⟨by omega, by omega⟩).mp (heq.trans (ofPos_succ base C).symm)
    omega
  have hgt : tsnGt (ofPos base T) (ofPos base E) = true := by
    rw [tsnGt_ofPos ⟨by omega, by omega⟩]
    exact decide_eq_true hT.1
  rw [hpass]
  refine (@updateLoop_prepend _ _ _ _ _ _ [] _ hne hgt ?_ ?_ (fun _ => ofPos_succ base E)
    (fun _ _ => rfl) fun _ => hfirst).trans ?_
  · rwa [length_gapsAt, length_nil, Nat.zero_add]
  · intro gap hgap
    obtain ⟨i, hi, rfl⟩ := mem_map.mp hgap
    obtain ⟨habove, hproper, -⟩ := hl.fits hi
    have := h.bound i (mem_cons_of_mem _ hi)
    intro heq
    have := (ofPos_inj (by decide) ⟨by omega, by omega⟩).mp heq
    omega
  · rw [hu]
    rfl

end Adjacent

theorem Grows.prepend {E E' : ℕ} (h : Above C ((C + 1, E + 1) :: l)) (hE : C < E)
    (hm : Layout E' m) (hle : E ≤ E') (hbound : ∀ i ∈ m, i.2 ≤ 2 ^ 31)
    (hpoints : ∀ x, x ∈ cover ((0, E' + 1) :: m) ↔ x ∈ cover ((0, E + 1) :: l) ∨ x = T)
    (hT : T < 2 ^ 31) :
    Grows C T ((C + 1, E + 1) :: l) C ((C + 1, E' + 1) :: m) := by
  have hE' : E' + 1 ≤ 2 ^ 31 := by
    obtain hmem | rfl := (hpoints E').mp
      (mem_cover_of_mem mem_cons_self (Nat.zero_le _) (Nat.lt_succ_self E'))
    · rw [mem_cover_cons] at hmem
      obtain ⟨-, hlt⟩ | hmem := hmem
      · have := h.bound _ mem_cons_self
        simp only at this hlt
        omega
      · have := h.lt (mem_cover_cons.mpr (.inr hmem))
        omega
    · exact hT
  refine ⟨⟨?_, ?_, ?_, ?_⟩, le_rfl, fun x hx => ?_, fun x hlt hx => absurd (hlt.trans_le hx)
    (lt_irrefl C), fun hlt => absurd hlt (lt_irrefl C), fun heq hnot => ?_⟩
  · exact pairwise_cons.mpr (pairwise_cons.mp hm.ascending)
  · exact forall_mem_cons.mpr ⟨by simp only; omega, hm.proper⟩
  · refine forall_mem_cons.mpr ⟨Nat.lt_succ_self C, fun i hi => ?_⟩
    have := (hm.fits hi).above
    omega
  · exact forall_mem_cons.mpr ⟨hE', hbound⟩
  · have := hpoints x
    simp only [mem_cover_cons] at this ⊢
    have hlow : ∀ D, (C + 1 ≤ x ∧ x < D) ↔ (0 ≤ x ∧ x < D) := fun D => by omega
    rw [hlow, hlow, this]
  · refine absurd (mem_cover_of_mem mem_cons_self ?_ ?_) hnot
    · exact heq.ge
    · simp only
      omega

theorem Above.updateGapList {new : Bool} (h : Above C l) (hC : C < 2 ^ 31) (hT : C < T ∧ T < 2 ^ 31)
    (hok : Accepts ⟨gapsAt base l⟩ (ofPos base T) (ofPos base C)) :
    ∃ C' m new', updateGapList ⟨gapsAt base l⟩ (ofPos base T) (ofPos base C) new =
        .ok ⟨true, ofPos base C', new', ⟨gapsAt base m⟩⟩ ∧ Grows C T l C' m := by
  have hnot : ¬ tsnLe (ofPos base T) (ofPos base C) = true := by
    rw [tsnLe_ofPos ⟨by omega, by omega⟩, decide_eq_true_eq]
    omega
  have hT' : C < T ∧ T < C + 2 ^ 31 := ⟨hT.1, by omega⟩
  have hsucc : ofPos base C + 1 = ofPos base (C + 1) := (ofPos_succ base C).symm
  rw [SCTPSimpleGapList.updateGapList, if_neg hnot, hsucc]
  obtain hl | ⟨E, l, rfl, hE, hl⟩ := h.cases
  · obtain ⟨u, hu, hright, -⟩ := @updateLoop_outcome base new C T l hC.le hl
      (by have := hok.room; rwa [length_gapsAt] at this) hT'
    have hsafe := (harmless_iff hl hT').mp hok.harmless
    obtain ⟨C', m, new', rfl, hm, hle, hbound, hpoints⟩ :=
      (hright hsafe).exists_layout hl h.bound hT
    exact ⟨C', m, new', hu, .of_layout hl hm hle hbound hpoints⟩
  · by_cases hTE : T ≤ E
    · refine ⟨C, _, new, updateLoop_inside_first h hE hl ⟨hT.1, hTE⟩ hok, .refl h ?_⟩
      exact mem_cover_of_mem mem_cons_self hT.1 (Nat.lt_succ_of_le hTE)
    · have hTE := not_le.mp hTE
      obtain ⟨u, hright, hu⟩ := @updateLoop_behind_first base C T l E new h hC hE hl
        ⟨hTE, hT.2⟩ hok
      obtain ⟨E', m, new', rfl, hm, hle, hbound, hpoints⟩ :=
        hright.exists_layout hl (fun i hi => h.bound i (mem_cons_of_mem _ hi)) ⟨hTE, hT.2⟩
      refine ⟨C, (C + 1, E' + 1) :: m, new', hu, ?_⟩
      exact .prepend h hE hm hle hbound hpoints hT.2

end Inet.Sctp.SCTPSimpleGapList
