import Inet.Common.Basic
import Inet.Library.Intervals
import Inet.Library.SerialNumber

/-!
# The gap list of an SCTP receiver

`SCTPSimpleGapList` holds the TSNs above the cumulative ack that have been received, as an
ascending list of blocks with a hole in front of each. Together with the numbers up to the
cumulative ack this is a list of separated intervals, and `updateGapList` is meant to add
one point to it.

The second part gives the list its meaning on the positions of an unbounded counter. Within half
the number space above the cumulative ack, `check` says that the blocks are separated and not
empty (`checkFrom_gapsAt`, `exists_layout`).
-/

namespace Inet.Sctp

open SerialNumber

def tsnGt (tsn1 tsn2 : Uint32) : Bool :=
  (tsn1 < tsn2 && tsn2 - tsn1 > 0x80000000#32) || (tsn1 > tsn2 && tsn1 - tsn2 < 0x80000000#32)

def tsnGe (tsn1 tsn2 : Uint32) : Bool := tsnGt tsn1 tsn2 || tsn1 == tsn2

def tsnLe (tsn1 tsn2 : Uint32) : Bool := tsnGe tsn2 tsn1

def tsnBetween (tsn1 midtsn tsn2 : Uint32) : Bool := tsnGe midtsn tsn1 && tsnGe tsn2 midtsn

section

variable {base : Uint32} {p q : ℕ}

theorem tsnGt_eq (a b : Uint32) : tsnGt a b = lt b a := by
  rw [tsnGt, lt, le, Bool.eq_iff_iff]
  simp only [Bool.or_eq_true, Bool.and_eq_true, decide_eq_true_eq, bne_iff_ne, ne_eq,
    BitVec.lt_def, gt_iff_lt]
  constructor
  · rintro (⟨h₁, h₂⟩ | ⟨h₁, h₂⟩)
    · exact ⟨by bv_omega, by bv_omega⟩
    · exact ⟨by bv_omega, by bv_omega⟩
  · rintro ⟨hne, h⟩
    by_cases hab : a.toNat < b.toNat
    · exact .inl ⟨hab, by bv_omega⟩
    · exact .inr ⟨by bv_omega, by bv_omega⟩

theorem tsnGe_eq (a b : Uint32) : tsnGe a b = le b a := by
  rw [tsnGe, tsnGt_eq, lt, Bool.eq_iff_iff]
  by_cases hab : b = a
  · subst hab
    simp [le]
  · simp [hab, Ne.symm hab]

theorem tsnGt_ofPos (h : Near 32 p q) : tsnGt (ofPos base p) (ofPos base q) = decide (q < p) := by
  rw [tsnGt_eq, lt_ofPos (by decide) h.symm]

theorem tsnLe_ofPos (h : Near 32 p q) : tsnLe (ofPos base p) (ofPos base q) = decide (p ≤ q) := by
  rw [tsnLe, tsnGe_eq, le_ofPos (by decide) h]

theorem tsnBetween_ofPos {r : ℕ} (h₁ : Near 32 p q) (h₂ : Near 32 q r) :
    tsnBetween (ofPos base p) (ofPos base q) (ofPos base r) = decide (p ≤ q ∧ q ≤ r) := by
  rw [tsnBetween, tsnGe_eq, tsnGe_eq, le_ofPos (by decide) h₁, le_ofPos (by decide) h₂,
    Bool.decide_and]

end

def MAX_GAP_COUNT : ℕ := 500

/-- One entry of `GapStartList` and `GapStopList`. -/
structure Gap where
  start : Uint32
  stop : Uint32
deriving DecidableEq

/-- The first `NumGaps` entries of the two arrays; `updateGapList` never reads the others. -/
structure SCTPSimpleGapList where
  gaps : List Gap := []
deriving DecidableEq

namespace SCTPSimpleGapList

/-- The assertions of `check` for the blocks behind the TSN `stop`. -/
def checkFrom : Uint32 → List Gap → Bool
  | _, [] => true
  | stop, gap :: gaps =>
    tsnGt gap.start (stop + 1) && tsnLe gap.start gap.stop && checkFrom gap.stop gaps

def check (list : SCTPSimpleGapList) (cTsnAck : Uint32) : Bool := checkFrom cTsnAck list.gaps

/-- The reference arguments and the list after `updateGapList`, with its return value. -/
structure Updated where
  result : Bool
  cTsnAck : Uint32
  newChunkReceived : Bool
  list : SCTPSimpleGapList
deriving DecidableEq

/-- Change the stop TSN of the last block of `gaps`. The arrays are not accessed at `-1`. -/
def modifyLastStop (f : Uint32 → Uint32) (gaps : List Gap) : Result (List Gap) :=
  match gaps.getLast? with
  | some gap => .ok (gaps.dropLast ++ [{ gap with stop := f gap.stop }])
  | none => .error .outOfRange

/-- The received TSN lies in the hole from `lo` to `hi` in front of `gap`. -/
def fillHole (receivedTSN cTsnAck lo hi : Uint32) (before : List Gap) (gap : Gap)
    (behind : List Gap) : Result (Uint32 × List Gap) :=
  let gapsize := hi - lo + 1
  if gapsize > 1 then
    if receivedTSN = hi then
      .ok (cTsnAck, before ++ { gap with start := receivedTSN } :: behind)
    else if receivedTSN = lo then
      if receivedTSN = cTsnAck + 1 then
        .ok (cTsnAck + 1, before ++ gap :: behind)
      else do
        let before ← modifyLastStop (fun _ => receivedTSN) before
        .ok (cTsnAck, before ++ gap :: behind)
    else
      .ok (cTsnAck, (before ++ ⟨receivedTSN, receivedTSN⟩ :: gap :: behind).take MAX_GAP_COUNT)
  else if lo = cTsnAck + 1 then
    .ok (gap.stop, before ++ behind)
  else do
    let before ← modifyLastStop (fun _ => gap.stop) before
    .ok (cTsnAck, before ++ behind)

/-- The received TSN lies in none of the holes; `lo` follows the last block visited. -/
def updateEnd (receivedTSN cTsnAck : Uint32) (newChunkReceived : Bool) (lo : Uint32)
    (gaps : List Gap) : Result Updated :=
  if receivedTSN = lo then
    if receivedTSN = cTsnAck + 1 then
      .ok ⟨true, receivedTSN, true, ⟨gaps⟩⟩
    else do
      let gaps ← modifyLastStop (· + 1) gaps
      .ok ⟨true, cTsnAck, true, ⟨gaps⟩⟩
  else if gaps.getLast?.all fun last => tsnGt receivedTSN (last.stop + 1) then
    if gaps.length < MAX_GAP_COUNT then
      .ok ⟨true, cTsnAck, true, ⟨gaps ++ [⟨receivedTSN, receivedTSN⟩]⟩⟩
    else .ok ⟨true, cTsnAck, newChunkReceived, ⟨gaps⟩⟩
  else .ok ⟨true, cTsnAck, newChunkReceived, ⟨gaps⟩⟩

/-- The loop over the blocks: those of `before` have been visited. -/
def updateLoop (receivedTSN cTsnAck : Uint32) (newChunkReceived : Bool) :
    Uint32 → List Gap → List Gap → Result Updated
  | lo, before, [] => updateEnd receivedTSN cTsnAck newChunkReceived lo before
  | lo, before, gap :: behind =>
    if gap.start > 0 then
      let hi := gap.start - 1
      if tsnBetween lo receivedTSN hi then do
        let (cTsnAck, gaps) ← fillHole receivedTSN cTsnAck lo hi before gap behind
        .ok ⟨true, cTsnAck, true, ⟨gaps⟩⟩
      else
        updateLoop receivedTSN cTsnAck newChunkReceived (gap.stop + 1) (before ++ [gap]) behind
    else
      updateLoop receivedTSN cTsnAck newChunkReceived lo (before ++ [gap]) behind

def updateGapList (list : SCTPSimpleGapList) (receivedTSN cTsnAck : Uint32)
    (newChunkReceived : Bool) : Result Updated :=
  if tsnLe receivedTSN cTsnAck then
    .ok ⟨false, cTsnAck, newChunkReceived, list⟩
  else
    updateLoop receivedTSN cTsnAck newChunkReceived (cTsnAck + 1) [] list.gaps

/-- The TSN half the number space before the cumulative ack. -/
def origin (cTsnAck : Uint32) : Uint32 := cTsnAck - 0x80000000#32

/-- The place of a TSN in the number space that begins at `base`. -/
def position (base tsn : Uint32) : ℕ := (tsn - base).toNat

/-- The acknowledged TSNs, as positions behind `base`: those up to the cumulative ack and
those of the blocks. -/
def Acked (base cTsnAck : Uint32) (list : SCTPSimpleGapList) (p : ℕ) : Prop :=
  p ≤ position base cTsnAck ∨
    ∃ gap ∈ list.gaps, position base gap.start ≤ p ∧ p ≤ position base gap.stop

open Intervals

variable {base : Uint32} {C : ℕ} {i p : ℕ × ℕ} {l m : List (ℕ × ℕ)}

/-- The block with the TSNs at the positions from `i.1` up to `i.2`. -/
def gapAt (base : Uint32) (i : ℕ × ℕ) : Gap := ⟨ofPos base i.1, ofPos base (i.2 - 1)⟩

def gapsAt (base : Uint32) (l : List (ℕ × ℕ)) : List Gap := l.map (gapAt base)

@[simp] theorem gapsAt_nil : gapsAt base [] = [] := rfl

@[simp] theorem gapsAt_cons : gapsAt base (i :: l) = gapAt base i :: gapsAt base l := rfl

@[simp] theorem gapsAt_append : gapsAt base (l ++ m) = gapsAt base l ++ gapsAt base m :=
  List.map_append

@[simp] theorem length_gapsAt : (gapsAt base l).length = l.length := List.length_map _

/-- A block above the cumulative ack at position `C`, with a hole in front of it, in the
window of half the number space. -/
structure Fits (C : ℕ) (i : ℕ × ℕ) : Prop where
  above : C + 1 < i.1
  proper : i.1 < i.2
  bound : i.2 ≤ C + 2 ^ 31

theorem near_of_window {p q : ℕ} (hp : C < p ∧ p ≤ C + 2 ^ 31) (hq : C < q ∧ q ≤ C + 2 ^ 31) :
    Near 32 p q :=
  ⟨by omega, by omega⟩

theorem ofPos_pos_iff (x : Uint32) : x > 0 ↔ x ≠ 0 := by
  rw [gt_iff_lt, BitVec.lt_def, ne_eq, ← BitVec.toNat_inj]
  exact Nat.pos_iff_ne_zero

theorem ofPos_pred {n : ℕ} (hn : 0 < n) : ofPos base n - 1 = ofPos base (n - 1) := by
  obtain ⟨k, rfl⟩ := Nat.exists_eq_add_of_lt hn
  rw [Nat.zero_add, Nat.add_sub_cancel, ofPos_succ]
  exact BitVec.add_sub_cancel _ _

theorem ofPos_pred_succ {n : ℕ} (hn : 0 < n) : ofPos base (n - 1) + 1 = ofPos base n := by
  have hsucc : n - 1 + 1 = n := Nat.sub_add_cancel hn
  exact (ofPos_succ base (n - 1)).symm.trans (congrArg (ofPos base) hsucc)

/-- The cumulative ack is at position `C`, and the blocks are at the positions of `l`. -/
structure Layout (C : ℕ) (l : List (ℕ × ℕ)) : Prop where
  ascending : Ascending ((0, C + 1) :: l)
  proper : Proper l
  bound : ∀ i ∈ l, i.2 ≤ C + 2 ^ 31

theorem Layout.fits (h : Layout C l) (hi : i ∈ l) : Fits C i where
  above := (List.pairwise_cons.mp h.ascending).1 i hi
  proper := h.proper i hi
  bound := h.bound i hi

theorem Layout.proper_cons (h : Layout C l) : Proper ((0, C + 1) :: l) :=
  List.forall_mem_cons.mpr ⟨Nat.succ_pos C, h.proper⟩

theorem position_ofPos {q : ℕ} (hq : q < 2 ^ 32) : position base (ofPos base q) = q :=
  toNat_ofPos_sub_base hq

/-- The list of the positions `l` has the points of `l`. -/
theorem acked_wordsAt (hC : C < 2 ^ 32) (hl : ∀ i ∈ l, i.1 < i.2 ∧ i.2 ≤ 2 ^ 32) {p : ℕ} :
    Acked base (ofPos base C) ⟨gapsAt base l⟩ p ↔ p ∈ cover ((0, C + 1) :: l) := by
  rw [Acked, mem_cover_cons, position_ofPos hC]
  apply or_congr
  · simp only
    omega
  · simp only [gapsAt, List.mem_map, exists_exists_and_eq_and]
    refine exists_congr fun i => and_congr_right fun hi => ?_
    have := hl i hi
    simp only [gapAt]
    rw [position_ofPos (by omega), position_ofPos (by omega)]
    omega

theorem ascending_cons_cons (hm : Proper (i :: m)) :
    Ascending (p :: i :: m) ↔ p.2 < i.1 ∧ Ascending (i :: m) := by
  simp only [Ascending, List.pairwise_cons, List.forall_mem_cons]
  constructor
  · rintro ⟨⟨h, -⟩, hrest⟩
    exact ⟨h, hrest⟩
  · rintro ⟨h, hrest⟩
    exact ⟨⟨h, fun j hj => h.trans ((hm i List.mem_cons_self).trans (hrest.1 j hj))⟩, hrest⟩

/-- `check` says that the blocks are separated and not empty. -/
theorem checkFrom_gapsAt (hp : C < p.2 ∧ p.2 ≤ C + 2 ^ 31)
    (hm : ∀ i ∈ m, C < i.1 ∧ i.1 ≤ C + 2 ^ 31 ∧ C + 1 < i.2 ∧ i.2 ≤ C + 2 ^ 31) :
    checkFrom (ofPos base (p.2 - 1)) (gapsAt base m) = true ↔ Ascending (p :: m) ∧ Proper m := by
  induction m generalizing p with
  | nil => simp [checkFrom, Ascending, Proper]
  | cons i m ih =>
    obtain ⟨hi, hm⟩ := List.forall_mem_cons.mp hm
    have hgt : Near 32 i.1 p.2 := near_of_window ⟨hi.1, hi.2.1⟩ hp
    have hle : Near 32 i.1 (i.2 - 1) := near_of_window ⟨hi.1, hi.2.1⟩ ⟨by omega, by omega⟩
    rw [gapsAt_cons, checkFrom, gapAt, ofPos_pred_succ (by omega), tsnGt_ofPos hgt,
      tsnLe_ofPos hle, Bool.and_eq_true, Bool.and_eq_true, ih ⟨by omega, hi.2.2.2⟩ hm,
      decide_eq_true_eq, decide_eq_true_eq]
    have hproper : Proper (i :: m) ↔ i.1 < i.2 ∧ Proper m := List.forall_mem_cons
    constructor
    · rintro ⟨⟨hlt, hne⟩, hasc, hprop⟩
      have hprop' : Proper (i :: m) := hproper.mpr ⟨by omega, hprop⟩
      exact ⟨(ascending_cons_cons hprop').mpr ⟨hlt, hasc⟩, hprop'⟩
    · rintro ⟨hasc, hprop⟩
      obtain ⟨hlt, hasc⟩ := (ascending_cons_cons hprop).mp hasc
      have := (hproper.mp hprop).1
      exact ⟨⟨hlt, by omega⟩, hasc, (hproper.mp hprop).2⟩

theorem checkFrom_append {x : Uint32} {X Y : List Gap} {g : Gap} :
    checkFrom x (X ++ g :: Y) = true → tsnLe g.start g.stop = true ∧ checkFrom g.stop Y = true := by
  induction X generalizing x with
  | nil =>
    intro hcheck
    simp only [List.nil_append, checkFrom, Bool.and_eq_true] at hcheck
    exact ⟨hcheck.1.2, hcheck.2⟩
  | cons h X ih =>
    intro hcheck
    simp only [List.cons_append, checkFrom, Bool.and_eq_true] at hcheck
    exact ih hcheck.2

theorem Layout.acked_iff (h : Layout C m) (hC : C < 2 ^ 32) (hm : ∀ i ∈ m, i.2 ≤ 2 ^ 32) (q : ℕ) :
    Acked base (ofPos base C) ⟨gapsAt base m⟩ q ↔ q ∈ cover ((0, C + 1) :: m) :=
  acked_wordsAt hC fun i hi => ⟨h.proper i hi, hm i hi⟩

theorem Layout.check (h : Layout C m) : checkFrom (ofPos base C) (gapsAt base m) = true := by
  refine (checkFrom_gapsAt (C := C) (p := (0, C + 1)) ⟨Nat.lt_succ_self C, by simp only; omega⟩
    fun i hi => ?_).mpr ⟨h.ascending, h.proper⟩
  obtain ⟨habove, hproper, hbound⟩ := h.fits hi
  exact ⟨by omega, by omega, by omega, hbound⟩

variable {cTsnAck : Uint32} {list : SCTPSimpleGapList}

theorem tsnGt_iff {x : Uint32} : tsnGt x cTsnAck = true ↔ 2 ^ 31 < position (origin cTsnAck) x := by
  rw [tsnGt_eq, lt, le, Bool.and_eq_true, bne_iff_ne, decide_eq_true_eq, position, origin]
  constructor
  · rintro ⟨hne, hlt⟩
    bv_omega
  · intro hlt
    exact ⟨by bv_omega, by bv_omega⟩

theorem tsnLe_iff {x : Uint32} : tsnLe x cTsnAck = true ↔ 0 < position (origin cTsnAck) x ∧
      position (origin cTsnAck) x ≤ 2 ^ 31 := by
  rw [tsnLe, tsnGe_eq, le, decide_eq_true_eq, position, origin]
  constructor
  · intro hlt
    bv_omega
  · rintro ⟨hpos, hle⟩
    bv_omega

theorem ofPos_position (base x : Uint32) : ofPos base (position base x) = x :=
  ofPos_toNat_sub base x

theorem ofPos_half (x : Uint32) : ofPos (origin x) (2 ^ 31) = x :=
  BitVec.sub_add_cancel x _

/-- A list that passes `check` in the window above the cumulative ack consists of separated
intervals. -/
theorem exists_layout (hcheck : list.check cTsnAck = true)
    (hwindow : ∀ gap ∈ list.gaps, tsnGt gap.start cTsnAck = true ∧ tsnGt gap.stop cTsnAck = true) :
    ∃ l, Layout (2 ^ 31) l ∧ list.gaps = gapsAt (origin cTsnAck) l := by
  let base := origin cTsnAck
  let l := list.gaps.map fun gap => (position base gap.start, position base gap.stop + 1)
  have hgaps : list.gaps = gapsAt base l := by
    refine (List.map_id list.gaps).symm.trans ?_
    rw [gapsAt, List.map_map]
    refine List.map_congr_left fun gap _ => ?_
    show gap = ⟨ofPos base (position base gap.start), ofPos base (position base gap.stop)⟩
    rw [ofPos_position, ofPos_position]
  have hbounds : ∀ i ∈ l, 2 ^ 31 < i.1 ∧ i.1 ≤ 2 ^ 31 + 2 ^ 31 ∧ 2 ^ 31 + 1 < i.2 ∧
      i.2 ≤ 2 ^ 31 + 2 ^ 31 := by
    intro i hi
    obtain ⟨gap, hgap, rfl⟩ := List.mem_map.mp hi
    have hstart : 2 ^ 31 < position base gap.start := tsnGt_iff.mp (hwindow gap hgap).1
    have hstop : 2 ^ 31 < position base gap.stop := tsnGt_iff.mp (hwindow gap hgap).2
    have hstart' : position base gap.start < 2 ^ 32 := BitVec.isLt _
    have hstop' : position base gap.stop < 2 ^ 32 := BitVec.isLt _
    exact ⟨hstart, by simp only; omega, by simp only; omega, by simp only; omega⟩
  have hfirst : checkFrom (ofPos base (2 ^ 31 + 1 - 1)) (gapsAt base l) = true := by
    rw [← hgaps]
    exact (ofPos_half cTsnAck).symm ▸ hcheck
  obtain ⟨hasc, hproper⟩ :=
    (checkFrom_gapsAt (p := (0, 2 ^ 31 + 1)) (by simp) hbounds).mp hfirst
  exact ⟨l, ⟨hasc, hproper, fun i hi => (hbounds i hi).2.2.2⟩, hgaps⟩

end SCTPSimpleGapList

end Inet.Sctp
