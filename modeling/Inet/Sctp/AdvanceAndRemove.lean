import Inet.Sctp.GapListOperations

/-!
# Advancing the cumulative ack, and removing a TSN

`tryToAdvanceCumAckTSN` takes the first block into the cumulative ack and shifts the others down,
but it does not change the number of blocks. It does what it is meant to do if and only if there
is nothing to take (`advancesExactly_iff`).

`removeFromGapList` removes exactly one TSN. When it deletes a block, it reads the entry behind the
last block, and a full array has none; it deletes a block of 2^31 TSNs, too; and a hole that grows
may get too large for `check` (`removesExactly_iff`).
-/

namespace Inet.Sctp

open SerialNumber Intervals
open List

/-- The TSN is one of those from `start` to `stop`. -/
def Gap.Covers (gap : Gap) (tsn : Uint32) : Prop := tsn - gap.start ≤ gap.stop - gap.start
deriving Decidable

/-- `gapsize`, an `int32`, is not above 1: the block is a single TSN, or 2^31 of them. -/
def Gap.IsDeleted (gap : Gap) : Prop := (gap.stop - gap.start + 1).toInt ≤ 1
deriving Decidable

namespace Gap

variable {start stop removed tsn : Uint32}

/-- A block without its last TSN. -/
theorem covers_pred_stop (hne : stop ≠ start) :
    Covers ⟨start, stop - 1⟩ tsn ↔ Covers ⟨start, stop⟩ tsn ∧ tsn ≠ stop := by
  dsimp only [Covers]
  bv_omega

theorem proper_pred_stop (hne : stop ≠ start) (h : (stop - start).toNat < 2 ^ 31) :
    (stop - 1 - start).toNat < 2 ^ 31 := by
  bv_omega

/-- A block without its first TSN. -/
theorem covers_succ_start (hne : stop ≠ start) :
    Covers ⟨start + 1, stop⟩ tsn ↔ Covers ⟨start, stop⟩ tsn ∧ tsn ≠ start := by
  dsimp only [Covers]
  bv_omega

theorem proper_succ_start (hne : stop ≠ start) (h : (stop - start).toNat < 2 ^ 31) :
    (stop - (start + 1)).toNat < 2 ^ 31 := by
  bv_omega

section

variable (hcovers : Covers ⟨start, stop⟩ removed) (hstart : start ≠ removed)
  (hstop : stop ≠ removed)

include hcovers hstart hstop

/-- The two blocks around a TSN inside a block. -/
theorem covers_split :
    Covers ⟨start, removed - 1⟩ tsn ∨ Covers ⟨removed + 1, stop⟩ tsn ↔
      Covers ⟨start, stop⟩ tsn ∧ tsn ≠ removed := by
  dsimp only [Covers] at hcovers ⊢
  bv_omega

theorem proper_split (h : (stop - start).toNat < 2 ^ 31) :
    (removed - 1 - start).toNat < 2 ^ 31 ∧ (stop - (removed + 1)).toNat < 2 ^ 31 := by
  dsimp only [Covers] at hcovers
  bv_omega

end

end Gap

theorem tsnGt_iff_sub {a b : Uint32} : tsnGt a b = true ↔ b ≠ a ∧ (a - b).toNat < 2 ^ 31 := by
  rw [tsnGt_eq, lt, le, Bool.and_eq_true, bne_iff_ne, decide_eq_true_eq]

theorem tsnLe_iff_sub {a b : Uint32} : tsnLe a b = true ↔ (b - a).toNat < 2 ^ 31 := by
  rw [tsnLe, tsnGe_eq, le, decide_eq_true_eq]

namespace SCTPSimpleGapList

section

variable {list : SCTPSimpleGapList} {cTsnAck : Uint32} {gap : Gap} {gaps : List Gap}

/-- What `check` says about the blocks, when the first one may begin right behind the cumulative
ack. -/
def checkOrder (list : SCTPSimpleGapList) (cTsnAck : Uint32) : Bool :=
  match list.gaps with
  | [] => true
  | gap :: gaps => tsnGt gap.start cTsnAck && tsnLe gap.start gap.stop && checkFrom gap.stop gaps

/-- The acknowledged TSNs stay, the blocks that have been taken are gone, and the result tells
whether there were any. -/
structure AdvancesExactly (list : SCTPSimpleGapList) (cTsnAck : Uint32) (after : Advanced) :
    Prop where
  progress : after.progress = true ↔ ∃ gap ∈ list.gaps.head?, cTsnAck + 1 = gap.start
  acked : ∀ p, Acked (origin cTsnAck) after.cTsnAck after.list p ↔
    Acked (origin cTsnAck) cTsnAck list p
  check : after.list.check after.cTsnAck = true

theorem tsnGt_succ_stop (h : tsnLe gap.start gap.stop = true) :
    tsnGt gap.start (gap.stop + 1) = false := by
  rw [tsnLe_iff_sub] at h
  rw [← Bool.not_eq_true, tsnGt_iff_sub]
  bv_omega

theorem tsnGt_succ_of_ne (h : tsnGt gap.start cTsnAck = true) (hne : cTsnAck + 1 ≠ gap.start) :
    tsnGt gap.start (cTsnAck + 1) = true := by
  rw [tsnGt_iff_sub] at h ⊢
  exact ⟨hne, by bv_omega⟩

theorem ne_start_of_checkFrom {c : Uint32} (h : checkFrom c gaps = true) (hgap : gap ∈ gaps.head?) :
    c + 1 ≠ gap.start := by
  obtain ⟨rest, rfl⟩ := head?_eq_some_iff.mp hgap
  rw [checkFrom, tsnGt_eq, lt, Bool.and_eq_true, Bool.and_eq_true, Bool.and_eq_true] at h
  exact bne_iff_ne.mp h.1.1.1

/-- Taking the first block leaves the last one twice, or where it is. -/
theorem check_tryToAdvanceCumAckTSN (hgaps : list.gaps = gap :: gaps)
    (hle : tsnLe gap.start gap.stop = true) (hcheck : checkFrom gap.stop gaps = true)
    (hstart : cTsnAck + 1 = gap.start) :
    (list.tryToAdvanceCumAckTSN cTsnAck).list.check
      (list.tryToAdvanceCumAckTSN cTsnAck).cTsnAck = false := by
  obtain rfl | ⟨before, last, rfl⟩ := eq_nil_or_concat gaps
  · have hafter : list.tryToAdvanceCumAckTSN cTsnAck = ⟨true, gap.stop, ⟨[gap]⟩⟩ := by
      rw [tryToAdvanceCumAckTSN, hgaps, length_singleton, advanceLoop, if_pos hstart]
      rfl
    rw [hafter]
    show checkFrom gap.stop [gap] = false
    rw [checkFrom, tsnGt_succ_stop hle]
    rfl
  · rw [concat_eq_append] at hgaps hcheck
    have hhole : ∀ g ∈ ((before ++ [last]) ++ [last]).head?, gap.stop + 1 ≠ g.start := by
      intro g hg
      rw [head?_append_of_ne_nil _ (by simp)] at hg
      exact ne_start_of_checkFrom hcheck hg
    have hafter : list.tryToAdvanceCumAckTSN cTsnAck =
        ⟨true, gap.stop, ⟨(before ++ [last]) ++ [last]⟩⟩ := by
      rw [tryToAdvanceCumAckTSN, hgaps, length_cons, advanceLoop, if_pos hstart]
      have hlast : (gap :: (before ++ [last])).getLast (cons_ne_nil _ _) = last := by simp
      rw [hlast, advanceLoop_eq_self hhole]
    have hlast := (checkFrom_append hcheck).1
    rw [hafter]
    show checkFrom gap.stop ((before ++ [last]) ++ [last]) = false
    rw [← Bool.not_eq_true, append_assoc]
    intro htrue
    have htwice : checkFrom last.stop [last] = true := (checkFrom_append htrue).2
    rw [checkFrom, tsnGt_succ_stop hlast] at htwice
    cases htwice

/-- Whatever the blocks: `tryToAdvanceCumAckTSN` does what it is meant to do if and only if there
is a hole behind the cumulative ack. -/
theorem advancesExactly_iff (horder : list.checkOrder cTsnAck = true) :
    AdvancesExactly list cTsnAck (list.tryToAdvanceCumAckTSN cTsnAck) ↔
      ∀ gap ∈ list.gaps.head?, cTsnAck + 1 ≠ gap.start := by
  rw [checkOrder] at horder
  constructor
  · intro h gap hgap hstart
    obtain ⟨gaps, hgaps⟩ := List.head?_eq_some_iff.mp hgap
    rw [hgaps] at horder
    simp only [Bool.and_eq_true] at horder
    have := h.check
    rw [check_tryToAdvanceCumAckTSN hgaps horder.1.2 horder.2 hstart] at this
    cases this
  · intro hhole
    have hafter : list.tryToAdvanceCumAckTSN cTsnAck = ⟨false, cTsnAck, list⟩ :=
      advanceLoop_eq_self hhole _
    rw [hafter]
    refine ⟨?_, fun p => Iff.rfl, ?_⟩
    · simp only [Bool.false_eq_true, false_iff, not_exists, not_and]
      exact hhole
    · cases hgaps : list.gaps with
      | nil => rw [check, hgaps, checkFrom]
      | cons gap gaps =>
        rw [hgaps] at horder hhole
        simp only [Bool.and_eq_true] at horder
        rw [check, hgaps, checkFrom, tsnGt_succ_of_ne horder.1.1 (hhole gap rfl), horder.1.2,
          horder.2]
        rfl

/-- A hole behind the cumulative ack, and two blocks across the wrap. -/
theorem advancesExactly_behind_hole :
    AdvancesExactly ⟨[⟨0xfffffffe#32, 0xffffffff#32⟩, ⟨1#32, 2#32⟩]⟩ 0xfffffffc#32
      (tryToAdvanceCumAckTSN ⟨[⟨0xfffffffe#32, 0xffffffff#32⟩, ⟨1#32, 2#32⟩]⟩ 0xfffffffc#32) :=
  (advancesExactly_iff (by decide)).mpr (by decide)

/-- The only block stays when it has been taken into the cumulative ack. -/
theorem not_advancesExactly_of_block : checkOrder ⟨[⟨11#32, 12#32⟩]⟩ 10#32 = true ∧
      ¬ AdvancesExactly ⟨[⟨11#32, 12#32⟩]⟩ 10#32
        (tryToAdvanceCumAckTSN ⟨[⟨11#32, 12#32⟩]⟩ 10#32) := by
  refine ⟨by decide, fun h => ?_⟩
  have := h.check
  revert this
  decide

end

def Covers (list : SCTPSimpleGapList) (tsn : Uint32) : Prop := ∃ gap ∈ list.gaps, gap.Covers tsn

/-- The list has lost the TSN, and is as `check` wants it. -/
structure RemovesExactly (list : SCTPSimpleGapList) (cTsnAck removedTSN : Uint32)
    (after : SCTPSimpleGapList) : Prop where
  check : after.check cTsnAck = true
  covers : ∀ tsn, after.Covers tsn ↔ list.Covers tsn ∧ tsn ≠ removedTSN
  length_le : after.gaps.length ≤ MAX_GAP_COUNT

variable {cTsnAck removedTSN tsn : Uint32} {list : SCTPSimpleGapList} {gap : Gap}
  {before pieces behind : List Gap}

/-- The end of the last block, or the cumulative ack when there is none. -/
def stopOf : Uint32 → List Gap → Uint32
  | cTsnAck, [] => cTsnAck
  | _, gap :: gaps => stopOf gap.stop gaps

/-- What it takes that `gap`, the last block with the TSN, loses this TSN and nothing else. A
block of 2^31 TSNs is deleted like one of a single TSN. -/
structure Removable (cTsnAck removedTSN : Uint32) (before : List Gap) (gap : Gap)
    (behind : List Gap) : Prop where
  others : ∀ other ∈ before ++ behind, ¬ other.Covers removedTSN
  deleted : gap.IsDeleted → (before ++ gap :: behind).length < MAX_GAP_COUNT ∧
    (∀ tsn, gap.Covers tsn → tsn ≠ removedTSN → Covers ⟨before ++ behind⟩ tsn) ∧
    ∀ next ∈ behind.head?, tsnGt next.start (stopOf cTsnAck before + 1) = true
  start : ¬ gap.IsDeleted → gap.start = removedTSN →
    tsnGt (removedTSN + 1) (stopOf cTsnAck before + 1) = true
  stop : ¬ gap.IsDeleted → gap.stop = removedTSN →
    ∀ next ∈ behind.head?, tsnGt next.start removedTSN = true

/-- `tsnBetween` is exact for the blocks that `check` lets through. -/
theorem tsnBetween_iff_covers (h : tsnLe gap.start gap.stop = true) :
    tsnBetween gap.start tsn gap.stop = true ↔ gap.Covers tsn := by
  rw [tsnLe_iff_sub] at h
  rw [tsnBetween, tsnGe_eq, tsnGe_eq, le, le, Bool.and_eq_true, decide_eq_true_eq,
    decide_eq_true_eq, Gap.Covers]
  constructor
  · rintro ⟨hlow, hhigh⟩
    bv_omega
  · intro hcovers
    exact ⟨by bv_omega, by bv_omega⟩

theorem checkFrom_append_iff {c : Uint32} {l m : List Gap} :
    checkFrom c (l ++ m) = true ↔ checkFrom c l = true ∧ checkFrom (stopOf c l) m = true := by
  induction l generalizing c with
  | nil => simp [checkFrom, stopOf]
  | cons gap l ih => simp [checkFrom, stopOf, ih, and_assoc]

/-- The order of the blocks does not depend on what stands before the first one. -/
theorem checkFrom_iff_head {c d : Uint32} (h : checkFrom c behind = true) :
    checkFrom d behind = true ↔ ∀ next ∈ behind.head?, tsnGt next.start (d + 1) = true := by
  cases behind with
  | nil => simp [checkFrom]
  | cons gap gaps =>
    simp only [checkFrom, Bool.and_eq_true] at h
    simp [checkFrom, h.1.2, h.2]

theorem tsnBetween_of_not_covers (hcheck : check list cTsnAck = true) (hgap : gap ∈ list.gaps)
    (hnot : ¬ gap.Covers removedTSN) : tsnBetween gap.start removedTSN gap.stop = false := by
  obtain ⟨before, behind, hgaps⟩ := append_of_mem hgap
  rw [check, hgaps] at hcheck
  rwa [← Bool.not_eq_true, tsnBetween_iff_covers (checkFrom_append hcheck).1]

theorem removeFromGapList_of_not_covers (hcheck : check list cTsnAck = true)
    (hnot : ¬ Covers list removedTSN) : removeFromGapList list removedTSN = .ok list := by
  have hpass := removeLoop_pass (fun gap hgap => tsnBetween_of_not_covers hcheck hgap fun hcovers =>
    hnot ⟨gap, hgap, hcovers⟩) [] []
  rw [append_nil, append_nil] at hpass
  rw [removeFromGapList, hpass]
  rfl

section

variable (hcheck : check ⟨before ++ gap :: behind⟩ cTsnAck = true)

include hcheck

section

variable (hgap : gap.Covers removedTSN)

include hgap

theorem removeFromGapList_of_covers (hbehind : ∀ g ∈ behind, ¬ g.Covers removedTSN) :
    removeFromGapList ⟨before ++ gap :: behind⟩ removedTSN =
      removeFromGap removedTSN before gap behind >>= fun gaps => .ok ⟨gaps⟩ := by
  have hpass := removeLoop_pass (fun g hg => tsnBetween_of_not_covers hcheck (by simp [hg])
    (hbehind g hg)) (gap :: before.reverse) []
  have hhit := (tsnBetween_iff_covers (checkFrom_append hcheck).1).mpr hgap
  rw [removeFromGapList, reverse_append, reverse_cons, append_assoc, singleton_append, hpass,
    removeLoop, if_pos hhit, reverse_reverse, append_nil]

/-- The block with the TSN is replaced by pieces of it. -/
theorem removesExactly_iff_pieces
    (hpieces : ∀ piece ∈ pieces, ∀ tsn, piece.Covers tsn → gap.Covers tsn ∧ tsn ≠ removedTSN)
    (hlen : (before ++ (pieces ++ behind)).length ≤ MAX_GAP_COUNT) :
    RemovesExactly ⟨before ++ gap :: behind⟩ cTsnAck removedTSN ⟨before ++ (pieces ++ behind)⟩ ↔
      (∀ other ∈ before ++ behind, ¬ other.Covers removedTSN) ∧
      (∀ tsn, gap.Covers tsn → tsn ≠ removedTSN → Covers ⟨before ++ (pieces ++ behind)⟩ tsn) ∧
      checkFrom (stopOf cTsnAck before) (pieces ++ behind) = true := by
  have hbefore := (checkFrom_append_iff.mp hcheck).1
  have hother : ∀ g ∈ before ++ behind, ∀ tsn, g.Covers tsn →
      Covers ⟨before ++ gap :: behind⟩ tsn ∧ Covers ⟨before ++ (pieces ++ behind)⟩ tsn := by
    intro g hg tsn hcovers
    have := mem_append.mp hg
    exact ⟨⟨g, by simp only [mem_append, mem_cons]; tauto, hcovers⟩,
      ⟨g, by simp only [mem_append]; tauto, hcovers⟩⟩
  constructor
  · intro h
    refine ⟨fun other hmem hcovers => ?_, fun tsn hcovers hne => ?_, ?_⟩
    · exact ((h.covers removedTSN).mp (hother other hmem _ hcovers).2).2 rfl
    · exact (h.covers tsn).mpr ⟨⟨gap, by simp, hcovers⟩, hne⟩
    · exact (checkFrom_append_iff.mp h.check).2
  · rintro ⟨hothers, hrest, hafter⟩
    refine ⟨checkFrom_append_iff.mpr ⟨hbefore, hafter⟩, fun tsn => ⟨?_, ?_⟩, hlen⟩
    · rintro ⟨g, hg, hcovers⟩
      simp only [mem_append] at hg
      by_cases hpiece : g ∈ pieces
      · exact ⟨⟨gap, by simp, (hpieces g hpiece tsn hcovers).1⟩, (hpieces g hpiece tsn hcovers).2⟩
      · have hmem : g ∈ before ++ behind := mem_append.mpr (by tauto)
        refine ⟨(hother g hmem tsn hcovers).1, ?_⟩
        rintro rfl
        exact hothers g hmem hcovers
    · rintro ⟨⟨g, hg, hcovers⟩, hne⟩
      simp only [mem_append, mem_cons] at hg
      by_cases hmem : g ∈ before ++ behind
      · exact (hother g hmem tsn hcovers).2
      · obtain rfl : g = gap := by
          rw [mem_append] at hmem
          tauto
        exact hrest tsn hcovers hne

/-- A block that is deleted. -/
theorem removesExactly_of_deleted (hdeleted : gap.IsDeleted) :
    (∃ after, removeFromGap removedTSN before gap behind = .ok after ∧
        RemovesExactly ⟨before ++ gap :: behind⟩ cTsnAck removedTSN ⟨after⟩) ↔
      Removable cTsnAck removedTSN before gap behind := by
  have hgaps := (checkFrom_append_iff.mp hcheck).2
  simp only [checkFrom, Bool.and_eq_true] at hgaps
  have hpieces := @removesExactly_iff_pieces cTsnAck removedTSN gap before [] behind hcheck hgap
    (by simp)
  rw [nil_append, checkFrom_iff_head hgaps.2] at hpieces
  rw [removeFromGap, if_neg (not_lt.mpr hdeleted)]
  constructor
  · rintro ⟨after, hafter, h⟩
    split_ifs at hafter with hroom
    obtain rfl : before ++ behind = after := Except.ok.inj hafter
    obtain ⟨hothers, hrest, hnext⟩ := (hpieces h.length_le).mp h
    exact ⟨hothers, fun _ => ⟨hroom, hrest, hnext⟩, fun hnot => absurd hdeleted hnot,
      fun hnot => absurd hdeleted hnot⟩
  · intro h
    obtain ⟨hroom, hrest, hnext⟩ := h.deleted hdeleted
    refine ⟨_, if_pos hroom, (hpieces ?_).mpr ⟨h.others, hrest, hnext⟩⟩
    simp only [length_append, length_cons] at hroom ⊢
    omega

/-- A block that keeps all its other TSNs, in the given pieces. -/
theorem removesExactly_of_pieces (hdeleted : ¬ gap.IsDeleted)
    (hpieces : ∀ tsn, (∃ piece ∈ pieces, piece.Covers tsn) ↔ gap.Covers tsn ∧ tsn ≠ removedTSN)
    (hlen : (before ++ (pieces ++ behind)).length ≤ MAX_GAP_COUNT)
    (hafter : checkFrom (stopOf cTsnAck before) (pieces ++ behind) = true ↔
      (gap.start = removedTSN → tsnGt (removedTSN + 1) (stopOf cTsnAck before + 1) = true) ∧
      (gap.stop = removedTSN → ∀ next ∈ behind.head?, tsnGt next.start removedTSN = true)) :
    RemovesExactly ⟨before ++ gap :: behind⟩ cTsnAck removedTSN ⟨before ++ (pieces ++ behind)⟩ ↔
      Removable cTsnAck removedTSN before gap behind := by
  rw [removesExactly_iff_pieces hcheck hgap
    (fun piece hpiece tsn hcovers => (hpieces tsn).mp ⟨piece, hpiece, hcovers⟩) hlen, hafter]
  constructor
  · rintro ⟨hothers, -, hstart, hstop⟩
    exact ⟨hothers, fun h => absurd h hdeleted, fun _ => hstart, fun _ => hstop⟩
  · intro h
    refine ⟨h.others, fun tsn hcovers hne => ?_, h.start hdeleted, h.stop hdeleted⟩
    obtain ⟨piece, hpiece, hin⟩ := (hpieces tsn).mpr ⟨hcovers, hne⟩
    exact ⟨piece, by simp [hpiece], hin⟩

theorem removesExactly_removeFromGap_iff (hlen : (before ++ gap :: behind).length ≤ MAX_GAP_COUNT)
    (hsplit : removedTSN ≠ gap.start → removedTSN ≠ gap.stop →
      (before ++ gap :: behind).length < MAX_GAP_COUNT) :
    (∃ after, removeFromGap removedTSN before gap behind = .ok after ∧
        RemovesExactly ⟨before ++ gap :: behind⟩ cTsnAck removedTSN ⟨after⟩) ↔
      Removable cTsnAck removedTSN before gap behind := by
  by_cases hdeleted : gap.IsDeleted
  · exact removesExactly_of_deleted hcheck hgap hdeleted
  have hgaps := (checkFrom_append_iff.mp hcheck).2
  simp only [checkFrom, Bool.and_eq_true] at hgaps
  obtain ⟨⟨hhole, hproper⟩, hbehind⟩ := hgaps
  have hwhole := fun pieces => @removesExactly_of_pieces cTsnAck removedTSN gap before pieces
    behind hcheck hgap hdeleted
  have hne : gap.stop ≠ gap.start := by
    intro heq
    exact hdeleted (by rw [Gap.IsDeleted, heq, BitVec.sub_self]; decide)
  simp only [length_append, length_cons] at hlen hsplit
  rw [removeFromGap, if_pos (not_le.mp hdeleted)]
  rw [tsnLe_iff_sub] at hproper
  by_cases hstop : gap.stop = removedTSN
  · subst hstop
    simp only [if_pos, Except.ok.injEq, exists_eq_left']
    refine hwhole [{ gap with stop := gap.stop - 1 }] ?_ ?_ ?_
    · intro tsn
      simpa only [mem_singleton, exists_eq_left] using Gap.covers_pred_stop hne
    · simpa using hlen
    · simp only [singleton_append, checkFrom, hhole, Bool.true_and, Bool.and_eq_true,
        checkFrom_iff_head hbehind, BitVec.sub_add_cancel, tsnLe_iff_sub, hne.symm, forall_true_left,
        false_implies, true_and]
      exact and_iff_right (Gap.proper_pred_stop hne hproper)
  by_cases hstart : gap.start = removedTSN
  · subst hstart
    simp only [if_neg hstop, if_pos, Except.ok.injEq, exists_eq_left']
    refine hwhole [{ gap with start := gap.start + 1 }] ?_ ?_ ?_
    · intro tsn
      simpa only [mem_singleton, exists_eq_left] using Gap.covers_succ_start hne
    · simpa using hlen
    · simp only [singleton_append, checkFrom, hbehind, Bool.and_true, Bool.and_eq_true,
        tsnLe_iff_sub, hne, forall_true_left, false_implies, and_true]
      exact and_iff_left (Gap.proper_succ_start hne hproper)
  · have hroom := hsplit (Ne.symm hstart) (Ne.symm hstop)
    rw [if_neg hstop, if_neg hstart, take_of_length_le (by simp; omega)]
    simp only [Except.ok.injEq, exists_eq_left']
    refine hwhole [⟨gap.start, removedTSN - 1⟩, ⟨removedTSN + 1, gap.stop⟩] ?_ ?_ ?_
    · intro tsn
      simpa only [mem_cons, not_mem_nil, or_false, exists_eq_or_imp, exists_eq_left] using
        Gap.covers_split hgap hstart hstop
    · simp
      omega
    · obtain ⟨hbefore, hafter⟩ := Gap.proper_split hgap hstart hstop hproper
      simp only [cons_append, nil_append, checkFrom, hhole, hbehind, Bool.true_and, Bool.and_true,
        Bool.and_eq_true, tsnLe_iff_sub, tsnGt_iff_sub, hstart, hstop, false_implies, and_true,
        iff_true, BitVec.sub_add_cancel]
      exact ⟨hbefore, ⟨by bv_omega, by bv_omega⟩, hafter⟩

end

end

theorem exists_last_block {gaps : List Gap} (h : Covers ⟨gaps⟩ removedTSN) :
    ∃ before gap behind, gaps = before ++ gap :: behind ∧ gap.Covers removedTSN ∧
      ∀ other ∈ behind, ¬ other.Covers removedTSN := by
  induction gaps with
  | nil => simp [Covers] at h
  | cons first gaps ih =>
    by_cases hrest : Covers ⟨gaps⟩ removedTSN
    · obtain ⟨before, gap, behind, rfl, hlast⟩ := ih hrest
      exact ⟨first :: before, gap, behind, rfl, hlast⟩
    · obtain ⟨gap, hmem, hgap⟩ := h
      obtain rfl | hmem := mem_cons.mp hmem
      · exact ⟨[], gap, gaps, rfl, hgap, fun other hother hin => hrest ⟨other, hother, hin⟩⟩
      · exact absurd ⟨gap, hmem, hgap⟩ hrest

/-- With room for a split block, `removeFromGapList` removes exactly the given TSN if and only if
no block has it, or the last block with it is the only one and can lose it. -/
theorem removesExactly_iff (hcheck : list.check cTsnAck = true)
    (hlen : list.gaps.length ≤ MAX_GAP_COUNT)
    (hsplit : ∀ gap ∈ list.gaps, gap.Covers removedTSN → removedTSN ≠ gap.start →
      removedTSN ≠ gap.stop → list.gaps.length < MAX_GAP_COUNT) :
    (∃ after, list.removeFromGapList removedTSN = .ok after ∧
        RemovesExactly list cTsnAck removedTSN after) ↔
      ∀ before gap behind, list.gaps = before ++ gap :: behind → gap.Covers removedTSN →
        (∀ other ∈ behind, ¬ other.Covers removedTSN) →
          Removable cTsnAck removedTSN before gap behind := by
  obtain ⟨gaps⟩ := list
  have hstep : ∀ before gap behind, gaps = before ++ gap :: behind → gap.Covers removedTSN →
      (∀ other ∈ behind, ¬ other.Covers removedTSN) →
      ((∃ after, removeFromGapList ⟨gaps⟩ removedTSN = .ok after ∧
        RemovesExactly ⟨gaps⟩ cTsnAck removedTSN after) ↔
          Removable cTsnAck removedTSN before gap behind) := by
    rintro before gap behind rfl hgap hbehind
    rw [← removesExactly_removeFromGap_iff hcheck hgap hlen (hsplit gap (by simp) hgap),
      removeFromGapList_of_covers hcheck hgap hbehind]
    cases removeFromGap removedTSN before gap behind with
    | error e => simp
    | ok after => simp
  constructor
  · exact fun h before gap behind hgaps hgap hbehind =>
      (hstep before gap behind hgaps hgap hbehind).mp h
  · intro h
    by_cases hcovers : Covers ⟨gaps⟩ removedTSN
    · obtain ⟨before, gap, behind, hgaps, hgap, hbehind⟩ := exists_last_block hcovers
      exact (hstep before gap behind hgaps hgap hbehind).mpr
        (h before gap behind hgaps hgap hbehind)
    · refine ⟨_, removeFromGapList_of_not_covers hcheck hcovers, hcheck, fun tsn => ?_, hlen⟩
      rw [iff_self_and]
      rintro hin rfl
      exact hcovers hin

/-- A block of 2^31 TSNs is deleted as a whole. -/
example : removeFromGapList ⟨[⟨2#32, 0x80000001#32⟩]⟩ 5#32 = .ok ⟨[]⟩ := by decide

/-- A block across the wrap loses a TSN in its middle. -/
theorem removesExactly_across_wrap :
    ∃ after, removeFromGapList ⟨[⟨0xfffffffe#32, 1#32⟩]⟩ 0xffffffff#32 = .ok after ∧
      RemovesExactly ⟨[⟨0xfffffffe#32, 1#32⟩]⟩ 0xfffffff0#32 0xffffffff#32 after := by
  refine (removesExactly_iff (by decide) (by decide) (by decide)).mpr ?_
  intro before gap behind hgaps
  obtain ⟨rfl, h⟩ | ⟨_, h⟩ := singleton_eq_append_iff.mp hgaps
  · obtain ⟨rfl, rfl⟩ := cons.inj h
    rintro - -
    exact ⟨by simp, fun h => absurd h (by decide), fun _ => by decide, fun _ => by decide⟩
  · cases h

/-- Five hundred blocks of one TSN each. -/
def fullBlocks : List (ℕ × ℕ) := (List.range MAX_GAP_COUNT).map fun k => (2 * k + 2, 2 * k + 3)

/-- The first block of a full list cannot be deleted. -/
theorem not_removesExactly_of_full : check ⟨gapsAt 10#32 fullBlocks⟩ 10#32 = true ∧
      (gapsAt 10#32 fullBlocks).length ≤ MAX_GAP_COUNT ∧
      removeFromGapList ⟨gapsAt 10#32 fullBlocks⟩ 12#32 = .error .outOfRange := by
  decide +kernel

end SCTPSimpleGapList

end Inet.Sctp
