import Inet.Library.Run
import Inet.Sctp.GapListOperations

/-!
# The three gap lists of an SCTP receiver

`SCTPGapList` keeps the revokable and the non-revokable TSNs above the cumulative ack in a list
each, and all of them in a third one. `Consistent` says that the three agree; an operation keeps
this when it does not run into one of the places where the lists are not kept together (`Safe`).

The argument is one about sets of positions (`Agree`): a list may have advanced its own copy of
the cumulative ack less far than the combined list (`Grows.agree`).
-/

namespace Inet.Sctp

open SerialNumber Intervals Run SCTPSimpleGapList

structure SCTPGapList where
  cumAckTSN : Uint32 := 0
  combinedGapList : SCTPSimpleGapList := {}
  revokableGapList : SCTPSimpleGapList := {}
  nonRevokableGapList : SCTPSimpleGapList := {}
deriving DecidableEq

namespace SCTPGapList

def forwardCumAckTSN (list : SCTPGapList) (cumAckTSN : Uint32) : SCTPGapList where
  cumAckTSN := cumAckTSN
  combinedGapList := list.combinedGapList.forwardCumAckTSN cumAckTSN
  revokableGapList := list.revokableGapList.forwardCumAckTSN cumAckTSN
  nonRevokableGapList := list.nonRevokableGapList.forwardCumAckTSN cumAckTSN

/-- The list afterwards, and whether the cumulative ack has advanced. -/
def tryToAdvanceCumAckTSN (list : SCTPGapList) : SCTPGapList × Bool :=
  let after := list.combinedGapList.tryToAdvanceCumAckTSN list.cumAckTSN
  if after.progress then
    ({ cumAckTSN := after.cTsnAck
       combinedGapList := after.list
       revokableGapList := list.revokableGapList.forwardCumAckTSN after.cTsnAck
       nonRevokableGapList := list.nonRevokableGapList.forwardCumAckTSN after.cTsnAck }, true)
  else
    ({ list with cumAckTSN := after.cTsnAck, combinedGapList := after.list }, false)

def removeFromGapList (list : SCTPGapList) (removedTSN : Uint32) : Result SCTPGapList := do
  let revokable ← list.revokableGapList.removeFromGapList removedTSN
  let nonRevokable ← list.nonRevokableGapList.removeFromGapList removedTSN
  let combined ← list.combinedGapList.removeFromGapList removedTSN
  .ok ⟨list.cumAckTSN, combined, revokable, nonRevokable⟩

/-- The list after `updateGapList`, the reference argument and the return value. -/
structure Updated where
  result : Bool
  newChunkReceived : Bool
  list : SCTPGapList

def updateGapList (list : SCTPGapList) (receivedTSN : Uint32) (newChunkReceived : Bool)
    (tsnIsRevokable : Bool) : Result Updated := do
  -- the list of the TSN's kind works on a copy of the cumulative ack, which is dropped
  let (revokable, nonRevokable, newChunkReceived) ← if tsnIsRevokable then do
      let after ← list.revokableGapList.updateGapList receivedTSN list.cumAckTSN newChunkReceived
      .ok (after.list, list.nonRevokableGapList, after.newChunkReceived)
    else do
      let after ← list.nonRevokableGapList.updateGapList receivedTSN list.cumAckTSN newChunkReceived
      if after.result then
        let revokable ← list.revokableGapList.removeFromGapList receivedTSN
        .ok (revokable, after.list, after.newChunkReceived)
      else .ok (list.revokableGapList, after.list, after.newChunkReceived)
  let after ← list.combinedGapList.updateGapList receivedTSN list.cumAckTSN newChunkReceived
  if list.cumAckTSN ≠ after.cTsnAck then
    .ok ⟨after.result, after.newChunkReceived,
      ⟨after.cTsnAck, after.list, revokable.forwardCumAckTSN after.cTsnAck,
        nonRevokable.forwardCumAckTSN after.cTsnAck⟩⟩
  else
    .ok ⟨after.result, after.newChunkReceived, ⟨after.cTsnAck, after.list, revokable, nonRevokable⟩⟩

inductive Op where
  | updateGapList (receivedTSN : Uint32) (newChunkReceived tsnIsRevokable : Bool)
  | removeFromGapList (removedTSN : Uint32)
  | tryToAdvanceCumAckTSN
  | forwardCumAckTSN (cumAckTSN : Uint32)

def step (list : SCTPGapList) : Op → Result SCTPGapList
  | .updateGapList receivedTSN newChunkReceived tsnIsRevokable => do
      let after ← list.updateGapList receivedTSN newChunkReceived tsnIsRevokable
      .ok after.list
  | .removeFromGapList removedTSN => list.removeFromGapList removedTSN
  | .tryToAdvanceCumAckTSN => .ok list.tryToAdvanceCumAckTSN.1
  | .forwardCumAckTSN cumAckTSN => .ok (list.forwardCumAckTSN cumAckTSN)

/-- An empty list after `setInitialCumAckTSN`. -/
def initial (cumAckTSN : Uint32) : SCTPGapList := { cumAckTSN := cumAckTSN }

/-- A sorted list of blocks above the cumulative ack that neither overlap nor touch. -/
structure Blocks (cTsnAck : Uint32) (list : SCTPSimpleGapList) : Prop where
  sorted : list.gaps.Pairwise fun gap next => tsnGt next.start (gap.stop + 1) = true
  proper : ∀ gap ∈ list.gaps, tsnLe gap.start gap.stop = true
  above : ∀ gap ∈ list.gaps, tsnGt gap.start cTsnAck = true

/-- The three lists agree as sets of TSNs. -/
structure Consistent (list : SCTPGapList) : Prop where
  combined : Blocks list.cumAckTSN list.combinedGapList
  revokable : Blocks list.cumAckTSN list.revokableGapList
  nonRevokable : Blocks list.cumAckTSN list.nonRevokableGapList
  disjoint : ∀ tsn, list.revokableGapList.tsnInGapList tsn = true →
    list.nonRevokableGapList.tsnInGapList tsn = false
  union : ∀ tsn, list.combinedGapList.tsnInGapList tsn =
    (list.revokableGapList.tsnInGapList tsn || list.nonRevokableGapList.tsnInGapList tsn)

/-- `after` has the TSNs of `before` that are greater than `cumAckTSN`. -/
def KeepsAbove (cumAckTSN : Uint32) (before after : SCTPSimpleGapList) : Prop :=
  ∀ tsn, after.tsnInGapList tsn = (before.tsnInGapList tsn && tsnGt tsn cumAckTSN)

/-- `forwardCumAckTSN` leaves the members of each list above the new cumulative ack. -/
def Forwards (before : SCTPGapList) : Op → SCTPGapList → Prop
  | .forwardCumAckTSN cumAckTSN, after =>
    KeepsAbove cumAckTSN before.combinedGapList after.combinedGapList ∧
      KeepsAbove cumAckTSN before.revokableGapList after.revokableGapList ∧
      KeepsAbove cumAckTSN before.nonRevokableGapList after.nonRevokableGapList
  | _, _ => True

def Op.tsns : Op → List Uint32
  | .updateGapList receivedTSN _ _ => [receivedTSN]
  | .removeFromGapList removedTSN => [removedTSN]
  | .tryToAdvanceCumAckTSN => []
  | .forwardCumAckTSN cumAckTSN => [cumAckTSN]

def gapTsns (list : SCTPSimpleGapList) : List Uint32 :=
  list.gaps.flatMap fun gap => [gap.start, gap.stop]

def tsns (list : SCTPGapList) : List Uint32 :=
  list.cumAckTSN :: (gapTsns list.combinedGapList ++ gapTsns list.revokableGapList ++
    gapTsns list.nonRevokableGapList)

/-- The TSNs of the lists and of the operation lie within half the number space. -/
def Within (list : SCTPGapList) (op : Op) : Prop :=
  ∃ base ∈ list.tsns ++ op.tsns, ∀ tsn ∈ list.tsns ++ op.tsns, (tsn - base).toNat < 2 ^ 31

-- the instances for lists, not those that try every word
instance (list : SCTPGapList) (op : Op) : Decidable (list.Within op) :=
  have (base : Uint32) := List.decidableBAll (fun tsn => (tsn - base).toNat < 2 ^ 31)
    (list.tsns ++ op.tsns)
  List.decidableBEx _ _

def HasRoom (removedTSN : Uint32) (list : SCTPSimpleGapList) : Prop :=
  list.tsnInGapList removedTSN = true → list.gaps.length < MAX_GAP_COUNT
deriving Decidable

/-- The operation does not run into one of the places where the lists come apart. -/
def Safe (list : SCTPGapList) : Op → Prop
  | .updateGapList receivedTSN _ true =>
    tsnLe receivedTSN list.cumAckTSN = true ∨
      list.combinedGapList.Accepts receivedTSN list.cumAckTSN ∧
        list.revokableGapList.Accepts receivedTSN list.cumAckTSN ∧
        list.nonRevokableGapList.tsnInGapList receivedTSN = false
  | .updateGapList receivedTSN _ false =>
    tsnLe receivedTSN list.cumAckTSN = true ∨
      list.combinedGapList.Accepts receivedTSN list.cumAckTSN ∧
        list.nonRevokableGapList.Accepts receivedTSN list.cumAckTSN ∧
        HasRoom receivedTSN list.revokableGapList ∧
        (receivedTSN = list.cumAckTSN + 1 → list.combinedGapList.tsnInGapList receivedTSN = true →
          list.nonRevokableGapList.tsnInGapList receivedTSN = true)
  | .removeFromGapList removedTSN =>
    HasRoom removedTSN list.combinedGapList ∧ HasRoom removedTSN list.revokableGapList ∧
      HasRoom removedTSN list.nonRevokableGapList
  | .tryToAdvanceCumAckTSN =>
    list.combinedGapList.tsnInGapList (list.cumAckTSN + 1) = false
  | .forwardCumAckTSN cumAckTSN =>
    (list.combinedGapList.tsnInGapList cumAckTSN &&
      list.combinedGapList.tsnInGapList (cumAckTSN + 1)) = false

section

variable {base : Uint32} {C T : ℕ} {a b k l r n : List (ℕ × ℕ)}

/-- The lists with the cumulative ack at position `C` and the blocks at those of `k`, `r`, `n`. -/
def stateAt (base : Uint32) (C : ℕ) (k r n : List (ℕ × ℕ)) : SCTPGapList :=
  ⟨ofPos base C, ⟨gapsAt base k⟩, ⟨gapsAt base r⟩, ⟨gapsAt base n⟩⟩

/-- `Consistent` on the positions. -/
structure Agree (C : ℕ) (k r n : List (ℕ × ℕ)) : Prop where
  combined : Above C k
  revokable : Above C r
  nonRevokable : Above C n
  disjoint : ∀ x, x ∈ cover r → x ∉ cover n
  union : ∀ x, x ∈ cover k ↔ x ∈ cover r ∨ x ∈ cover n

/-- Cut off the blocks that do not begin above the position `C`. -/
def cut (C : ℕ) (l : List (ℕ × ℕ)) : List (ℕ × ℕ) := l.filter fun i => C < i.1

theorem cut_of_above (h : Above C l) : cut C l = l :=
  List.filter_eq_self.mpr fun i hi => decide_eq_true (h.above i hi)

theorem Agree.forward (h : Agree C k r n) (hT : ¬ (T ∈ cover k ∧ T + 1 ∈ cover k)) :
    Agree T (cut T k) (cut T r) (cut T n) := by
  have hr : ¬ (T ∈ cover r ∧ T + 1 ∈ cover r) :=
    fun ⟨h₁, h₂⟩ => hT ⟨(h.union _).mpr (.inl h₁), (h.union _).mpr (.inl h₂)⟩
  have hn : ¬ (T ∈ cover n ∧ T + 1 ∈ cover n) :=
    fun ⟨h₁, h₂⟩ => hT ⟨(h.union _).mpr (.inr h₁), (h.union _).mpr (.inr h₂)⟩
  refine ⟨h.combined.filter, h.revokable.filter, h.nonRevokable.filter, fun x hx hx' => ?_,
    fun x => ?_⟩
  · exact h.disjoint x ((mem_cover_filter_above hr).mp hx).1 ((mem_cover_filter_above hn).mp hx').1
  · rw [cut, cut, cut, mem_cover_filter_above hT,
      mem_cover_filter_above hr, mem_cover_filter_above hn, h.union x, or_and_right]

theorem Agree.remove (h : Agree C k r n) : Agree C (erase k T) (erase r T) (erase n T) where
  combined := h.combined.erase
  revokable := h.revokable.erase
  nonRevokable := h.nonRevokable.erase
  disjoint := fun x hx hx' => h.disjoint x (mem_cover_erase.mp hx).1 (mem_cover_erase.mp hx').1
  union := fun x => by
    rw [mem_cover_erase, mem_cover_erase, mem_cover_erase, h.union x, or_and_right]

/-- The lists before an update, the one that gets the TSN first. -/
structure Prepared (C T : ℕ) (k a b : List (ℕ × ℕ)) : Prop where
  combined : Above C k
  rest : Above C b
  disjoint : ∀ x, x ∈ cover a → x ∉ cover b
  union : ∀ x, x ≠ T → (x ∈ cover k ↔ x ∈ cover a ∨ x ∈ cover b)
  fresh : T ∉ cover b
  known : T ∈ cover a → T ∈ cover k
  first : T = C + 1 → T ∈ cover k → T ∈ cover a

/-- The list of the TSN's kind does not advance its copy of the cumulative ack beyond the one of
the combined list, and both meet the hole behind that one. -/
theorem Prepared.hole {C₁ C₂ : ℕ} {a' k' : List (ℕ × ℕ)} (h : Prepared C T k a b)
    (ha : Grows C T a C₁ a') (hk : Grows C T k C₂ k') :
    C₁ ≤ C₂ ∧ ¬ (C₂ ∈ cover a' ∧ C₂ + 1 ∈ cover a') ∧ ¬ (C₂ ∈ cover b ∧ C₂ + 1 ∈ cover b) := by
  obtain rfl | hlt := hk.le.eq_or_lt
  · have hle : C₁ ≤ C := by
      by_contra hlt
      obtain ⟨hT, hTa, -⟩ := ha.next (not_le.mp hlt)
      have hTk : T ∉ cover k := fun hmem => hTa (h.first hT hmem)
      exact absurd (hk.advances hT hTk) (lt_irrefl C)
    refine ⟨hle, fun hmem => ?_, fun hmem => ?_⟩
    · exact absurd (ha.above.lt hmem.1).1 (not_lt.mpr ha.le)
    · exact absurd (h.rest.lt hmem.1).1 (lt_irrefl C)
  · obtain ⟨hT, -, hnext⟩ := hk.next hlt
    have hne : C₂ + 1 ≠ T := by omega
    rw [h.union _ hne, not_or] at hnext
    have hle : C₁ ≤ C₂ := by
      by_contra hgt
      obtain hmem | heq := ha.passed (C₂ + 1) (by omega) (by omega)
      · exact hnext.1 hmem
      · exact hne heq
    refine ⟨hle, fun hmem => ?_, fun hmem => hnext.2 hmem.2⟩
    exact ((ha.mem _ (Nat.lt_succ_of_le hle)).mp hmem.2).elim hnext.1 hne

theorem Prepared.agree {C₁ C₂ : ℕ} {a' k' : List (ℕ × ℕ)} (h : Prepared C T k a b)
    (ha : Grows C T a C₁ a') (hk : Grows C T k C₂ k') :
    Above C₂ (cut C₂ a') ∧ Above C₂ (cut C₂ b) ∧
      (∀ x, x ∈ cover (cut C₂ a') → x ∉ cover (cut C₂ b)) ∧
      ∀ x, x ∈ cover k' ↔ x ∈ cover (cut C₂ a') ∨ x ∈ cover (cut C₂ b) := by
  obtain ⟨hle, hholeA, hholeB⟩ := h.hole ha hk
  have hmem : ∀ x, x ∈ cover (cut C₂ a') ↔ (x ∈ cover a ∨ x = T) ∧ C₂ < x := by
    intro x
    rw [cut, mem_cover_filter_above hholeA]
    exact and_congr_left fun hx => ha.mem x (hle.trans_lt hx)
  have hmem' : ∀ x, x ∈ cover (cut C₂ b) ↔ x ∈ cover b ∧ C₂ < x :=
    fun x => mem_cover_filter_above hholeB
  refine ⟨ha.above.filter, h.rest.filter, fun x hx hx' => ?_, fun x => ?_⟩
  · rw [hmem] at hx
    rw [hmem'] at hx'
    obtain hxa | rfl := hx.1
    · exact h.disjoint x hxa hx'.1
    · exact h.fresh hx'.1
  · rw [hmem, hmem', ← or_and_right]
    by_cases hx : C₂ < x
    · rw [hk.mem x hx, and_iff_left hx]
      by_cases heq : x = T
      · simp [heq]
      · rw [h.union x heq]
        simp [heq]
    · refine ⟨fun hmem => absurd (hk.above.lt hmem).1 hx, fun hmem => absurd hmem.2 hx⟩

section

variable {list : SCTPGapList}

/-- The positions of the blocks of a list. -/
def positions (base : Uint32) (gaps : List Gap) : List (ℕ × ℕ) :=
  gaps.map fun gap => (position base gap.start, position base gap.stop + 1)

theorem gapsAt_positions (base : Uint32) (gaps : List Gap) :
    gapsAt base (positions base gaps) = gaps := by
  refine Eq.trans ?_ (List.map_id gaps)
  rw [gapsAt, positions, List.map_map]
  refine List.map_congr_left fun gap _ => ?_
  show (⟨ofPos base (position base gap.start), ofPos base (position base gap.stop)⟩ : Gap) = gap
  rw [ofPos_position, ofPos_position]

theorem blocks_gapsAt_iff (hC : C < 2 ^ 31) (hl : ∀ i ∈ l, i.1 < 2 ^ 31 ∧ 0 < i.2 ∧ i.2 ≤ 2 ^ 31) :
    Blocks (ofPos base C) ⟨gapsAt base l⟩ ↔ Above C l := by
  have habove : ∀ i ∈ l, tsnGt (gapAt base i).start (ofPos base C) = decide (C < i.1) := by
    intro i hi
    have := hl i hi
    exact tsnGt_ofPos ⟨by omega, by omega⟩
  have hproper : ∀ i ∈ l, tsnLe (gapAt base i).start (gapAt base i).stop = decide (i.1 < i.2) := by
    intro i hi
    have := hl i hi
    rw [gapAt, tsnLe_ofPos ⟨by omega, by omega⟩, decide_eq_decide]
    omega
  have hsorted : ∀ i ∈ l, ∀ j ∈ l, C < j.1 →
      tsnGt (gapAt base j).start ((gapAt base i).stop + 1) = decide (i.2 < j.1) := by
    intro i hi j hj hlt
    have := hl i hi
    have := hl j hj
    rw [gapAt, gapAt, ofPos_pred_succ (by omega), tsnGt_ofPos ⟨by omega, by omega⟩]
  constructor
  · rintro ⟨hpairwise, hle, hgt⟩
    have hgt' : ∀ i ∈ l, C < i.1 := by
      intro i hi
      have := hgt _ (List.mem_map_of_mem hi)
      rwa [habove i hi, decide_eq_true_eq] at this
    refine ⟨?_, fun i hi => ?_, hgt', fun i hi => (hl i hi).2.2⟩
    · refine (List.pairwise_map.mp hpairwise).imp_of_mem fun {i j} hi hj hij => ?_
      rwa [hsorted i hi j hj (hgt' j hj), decide_eq_true_eq] at hij
    · have := hle _ (List.mem_map_of_mem hi)
      rwa [hproper i hi, decide_eq_true_eq] at this
  · intro h
    refine ⟨List.pairwise_map.mpr (h.ascending.imp_of_mem fun {i j} hi hj hij => ?_),
      fun gap hgap => ?_, fun gap hgap => ?_⟩
    · rw [hsorted i hi j hj (h.above j hj)]
      exact decide_eq_true hij
    · obtain ⟨i, hi, rfl⟩ := List.mem_map.mp hgap
      rw [hproper i hi]
      exact decide_eq_true (h.proper i hi)
    · obtain ⟨i, hi, rfl⟩ := List.mem_map.mp hgap
      rw [habove i hi]
      exact decide_eq_true (h.above i hi)

theorem Blocks.above_positions {c : Uint32} {gaps : List Gap} (h : Blocks c ⟨gaps⟩)
    (hc : position base c < 2 ^ 31)
    (hgaps : ∀ tsn ∈ gapTsns ⟨gaps⟩, position base tsn < 2 ^ 31) :
    Above (position base c) (positions base gaps) := by
  rw [← ofPos_position base c, ← gapsAt_positions base gaps] at h
  refine (blocks_gapsAt_iff hc fun i hi => ?_).mp h
  obtain ⟨gap, hgap, rfl⟩ := List.mem_map.mp hi
  have hstart := hgaps gap.start (List.mem_flatMap.mpr ⟨gap, hgap, by simp⟩)
  have hstop := hgaps gap.stop (List.mem_flatMap.mpr ⟨gap, hgap, by simp⟩)
  exact ⟨hstart, Nat.succ_pos _, hstop⟩

theorem blocks_of_above (h : Above C l) (hC : C < 2 ^ 31) :
    Blocks (ofPos base C) ⟨gapsAt base l⟩ := by
  refine (blocks_gapsAt_iff hC fun i hi => ?_).mpr h
  have hproper := h.proper i hi
  have hbound := h.bound i hi
  exact ⟨by omega, by omega, hbound⟩

theorem Agree.consistent (h : Agree C k r n) (hC : C < 2 ^ 31) :
    Consistent (stateAt base C k r n) := by
  have hword : ∀ tsn : Uint32, ∃ x, x < 2 ^ 32 ∧ ofPos base x = tsn :=
    fun tsn => ⟨_, BitVec.isLt _, ofPos_position base tsn⟩
  refine ⟨blocks_of_above h.combined hC, blocks_of_above h.revokable hC,
    blocks_of_above h.nonRevokable hC, fun tsn htsn => ?_, fun tsn => ?_⟩
  · obtain ⟨x, hx, rfl⟩ := hword tsn
    rw [← Bool.not_eq_true]
    intro htsn'
    exact h.disjoint x ((h.revokable.tsnInGapList hx).mp htsn)
      ((h.nonRevokable.tsnInGapList hx).mp htsn')
  · obtain ⟨x, hx, rfl⟩ := hword tsn
    rw [Bool.eq_iff_iff, Bool.or_eq_true]
    exact (h.combined.tsnInGapList hx).trans ((h.union x).trans
      (or_congr (h.revokable.tsnInGapList hx) (h.nonRevokable.tsnInGapList hx)).symm)

/-- A consistent state and an operation in half of the number space, on the positions. -/
theorem Consistent.exists_stateAt {op : Op} (h : Consistent list) (hw : Within list op) :
    ∃ base C k r n, list = stateAt base C k r n ∧ C < 2 ^ 31 ∧ Agree C k r n ∧
      ∀ tsn ∈ op.tsns, ∃ T, T < 2 ^ 31 ∧ tsn = ofPos base T := by
  obtain ⟨base, -, hbase⟩ := hw
  obtain ⟨c, ⟨combined⟩, ⟨revokable⟩, ⟨nonRevokable⟩⟩ := list
  have hpos : ∀ tsn ∈ tsns ⟨c, ⟨combined⟩, ⟨revokable⟩, ⟨nonRevokable⟩⟩,
      position base tsn < 2 ^ 31 :=
    fun tsn htsn => hbase tsn (List.mem_append_left _ htsn)
  simp only [tsns, List.forall_mem_cons, List.forall_mem_append] at hpos
  obtain ⟨hc, ⟨hk, hr⟩, hn⟩ := hpos
  have hcombined := h.combined.above_positions hc hk
  have hrevokable := h.revokable.above_positions hc hr
  have hnonRevokable := h.nonRevokable.above_positions hc hn
  have hin : ∀ {C : ℕ} {gaps : List Gap} {x : ℕ}, Above C (positions base gaps) → x < 2 ^ 31 →
      (tsnInGapList ⟨gaps⟩ (ofPos base x) = true ↔ x ∈ cover (positions base gaps)) := by
    intro C gaps x habove hx
    have := @Above.tsnInGapList base C (positions base gaps) habove x (by omega)
    rwa [gapsAt_positions] at this
  refine ⟨base, position base c, positions base combined, positions base revokable,
    positions base nonRevokable, ?_, hc, ⟨hcombined, hrevokable, hnonRevokable, fun x hx hx' => ?_,
      fun x => ?_⟩, fun tsn htsn => ?_⟩
  · simp only [stateAt, ofPos_position, gapsAt_positions]
  · have hlt := (hrevokable.lt hx).2
    have hnot := h.disjoint _ ((hin hrevokable hlt).mpr hx)
    exact Bool.false_ne_true (hnot.symm.trans ((hin hnonRevokable hlt).mpr hx'))
  · by_cases hlt : x < 2 ^ 31
    · have hunion := h.union (ofPos base x)
      rw [Bool.eq_iff_iff, Bool.or_eq_true] at hunion
      exact (hin hcombined hlt).symm.trans
        (hunion.trans (or_congr (hin hrevokable hlt) (hin hnonRevokable hlt)))
    · refine ⟨fun hx => absurd (hcombined.lt hx).2 hlt, fun hx => ?_⟩
      exact hx.elim (fun hx => absurd (hrevokable.lt hx).2 hlt)
        fun hx => absurd (hnonRevokable.lt hx).2 hlt
  · exact ⟨position base tsn, hbase tsn (List.mem_append_right _ htsn),
      (ofPos_position base tsn).symm⟩

end

theorem Grows.ack_lt {C' : ℕ} {m : List (ℕ × ℕ)} (h : Grows C T l C' m) (hl : Above C l)
    (hC : C < 2 ^ 31) (hT : T < 2 ^ 31) : C' < 2 ^ 31 := by
  obtain rfl | hlt := h.le.eq_or_lt
  · exact hC
  · obtain hmem | rfl := h.passed C' hlt le_rfl
    · exact (hl.lt hmem).2
    · exact hT

/-- Forwarding the two lists only when the cumulative ack has changed is forwarding them. -/
theorem ite_forward {C' : ℕ} {result new : Bool} (ha : Above C a) (hb : Above C b)
    (hC : C < 2 ^ 31) (hC' : C' < 2 ^ 31) :
    (if ofPos base C ≠ ofPos base C' then
        .ok ⟨result, new, ⟨ofPos base C', ⟨gapsAt base k⟩,
          SCTPSimpleGapList.forwardCumAckTSN ⟨gapsAt base a⟩ (ofPos base C'),
          SCTPSimpleGapList.forwardCumAckTSN ⟨gapsAt base b⟩ (ofPos base C')⟩⟩
      else .ok ⟨result, new, ⟨ofPos base C', ⟨gapsAt base k⟩, ⟨gapsAt base a⟩,
        ⟨gapsAt base b⟩⟩⟩ : Result Updated) =
      .ok ⟨result, new, stateAt base C' k (cut C' a) (cut C' b)⟩ := by
  by_cases heq : C = C'
  · subst heq
    rw [if_neg (not_not_intro rfl), cut_of_above ha, cut_of_above hb]
    rfl
  · have hne : ofPos base C ≠ ofPos base C' :=
      fun h => heq ((ofPos_inj (by decide) ⟨by omega, by omega⟩).mp h)
    rw [if_pos hne, ha.forwardCumAckTSN hC', hb.forwardCumAckTSN hC']
    rfl

section

variable (h : Agree C k r n) (hC : C < 2 ^ 31) (hT : C < T ∧ T < 2 ^ 31)
  (hk : Accepts ⟨gapsAt base k⟩ (ofPos base T) (ofPos base C))

include h hC hT hk

theorem Agree.updateGapList_revokable {new : Bool}
    (hr : Accepts ⟨gapsAt base r⟩ (ofPos base T) (ofPos base C)) (hn : T ∉ cover n) :
    ∃ C' k' r' n' new', updateGapList (stateAt base C k r n) (ofPos base T) new true =
        .ok ⟨true, new', stateAt base C' k' r' n'⟩ ∧ C' < 2 ^ 31 ∧ Agree C' k' r' n' := by
  obtain ⟨C₁, r', new₁, hupdate₁, hgrows₁⟩ :=
    @Above.updateGapList base C T r new h.revokable hC hT hr
  obtain ⟨C₂, k', new₂, hupdate₂, hgrows₂⟩ :=
    @Above.updateGapList base C T k new₁ h.combined hC hT hk
  have hprepared : Prepared C T k r n :=
    { combined := h.combined
      rest := h.nonRevokable
      disjoint := h.disjoint
      union := fun x _ => h.union x
      fresh := hn
      known := fun hmem => (h.union T).mpr (.inl hmem)
      first := fun _ hmem => ((h.union T).mp hmem).resolve_right hn }
  obtain ⟨hr', hn', hdisjoint, hunion⟩ := hprepared.agree hgrows₁ hgrows₂
  have hC₂ := Grows.ack_lt hgrows₂ h.combined hC hT.2
  refine ⟨C₂, k', cut C₂ r', cut C₂ n, new₂, ?_, hC₂, ⟨hgrows₂.above, hr', hn', hdisjoint, hunion⟩⟩
  simp only [updateGapList, stateAt, if_true, hupdate₁, hupdate₂, ok_bind]
  exact ite_forward (hgrows₁.above.mono hgrows₁.le) h.nonRevokable hC hC₂

theorem Agree.updateGapList_nonRevokable {new : Bool}
    (hn : Accepts ⟨gapsAt base n⟩ (ofPos base T) (ofPos base C))
    (hroom : T ∈ cover r → r.length < MAX_GAP_COUNT)
    (hfirst : T = C + 1 → T ∈ cover k → T ∈ cover n) :
    ∃ C' k' r' n' new', updateGapList (stateAt base C k r n) (ofPos base T) new false =
        .ok ⟨true, new', stateAt base C' k' r' n'⟩ ∧ C' < 2 ^ 31 ∧ Agree C' k' r' n' := by
  obtain ⟨C₁, n', new₁, hupdate₁, hgrows₁⟩ :=
    @Above.updateGapList base C T n new h.nonRevokable hC hT hn
  obtain ⟨C₂, k', new₂, hupdate₂, hgrows₂⟩ :=
    @Above.updateGapList base C T k new₁ h.combined hC hT hk
  have hremove := @Above.removeFromGapList base C T r h.revokable hT.2 hroom
  have hprepared : Prepared C T k n (erase r T) :=
    { combined := h.combined
      rest := h.revokable.erase
      disjoint := fun x hx hx' => h.disjoint x (mem_cover_erase.mp hx').1 hx
      union := fun x hx => by rw [mem_cover_erase, and_iff_left hx, h.union x, or_comm]
      fresh := fun hmem => (mem_cover_erase.mp hmem).2 rfl
      known := fun hmem => (h.union T).mpr (.inr hmem)
      first := hfirst }
  obtain ⟨hn', hr', hdisjoint, hunion⟩ := hprepared.agree hgrows₁ hgrows₂
  have hC₂ := Grows.ack_lt hgrows₂ h.combined hC hT.2
  refine ⟨C₂, k', cut C₂ (erase r T), cut C₂ n', new₂, ?_, hC₂, ⟨hgrows₂.above, hr', hn',
    fun x hx hx' => hdisjoint x hx' hx, fun x => (hunion x).trans or_comm⟩⟩
  simp only [updateGapList, stateAt, Bool.false_eq_true, if_false, hupdate₁, if_true, hremove,
    hupdate₂, ok_bind]
  exact ite_forward h.revokable.erase (hgrows₁.above.mono hgrows₁.le) hC hC₂

end

end

section

variable {list : SCTPGapList} {receivedTSN : Uint32}

/-- A TSN that the cumulative ack covers changes nothing. -/
theorem updateGapList_covered {new tsnIsRevokable : Bool}
    (h : tsnLe receivedTSN list.cumAckTSN = true) :
    list.updateGapList receivedTSN new tsnIsRevokable = .ok ⟨false, new, list⟩ := by
  cases tsnIsRevokable <;>
    simp [updateGapList, SCTPSimpleGapList.updateGapList, h]

section

variable (h : Consistent list)

include h

theorem Consistent.update {new tsnIsRevokable : Bool}
    (hw : Within list (.updateGapList receivedTSN new tsnIsRevokable))
    (hsafe : Safe list (.updateGapList receivedTSN new tsnIsRevokable)) :
    ∃ after, list.updateGapList receivedTSN new tsnIsRevokable = .ok after ∧
      Consistent after.list := by
  by_cases hcovered : tsnLe receivedTSN list.cumAckTSN = true
  · exact ⟨_, updateGapList_covered hcovered, h⟩
  obtain ⟨base, C, k, r, n, rfl, hC, hagree, hop⟩ := h.exists_stateAt hw
  obtain ⟨T, hT, rfl⟩ := hop receivedTSN List.mem_cons_self
  have hCT : C < T := by
    have hnot : ¬ tsnLe (ofPos base T) (ofPos base C) = true := hcovered
    rw [tsnLe_ofPos ⟨by omega, by omega⟩, decide_eq_true_eq] at hnot
    exact not_le.mp hnot
  have hT' : T < 2 ^ 32 := by omega
  cases tsnIsRevokable with
  | true =>
    obtain ⟨hk, hr, hn⟩ := hsafe.resolve_left hcovered
    have hn' : T ∉ cover n := by
      intro hmem
      have hin : tsnInGapList ⟨gapsAt base n⟩ (ofPos base T) = true :=
        (hagree.nonRevokable.tsnInGapList hT').mpr hmem
      exact Bool.false_ne_true (hn.symm.trans hin)
    obtain ⟨C', k', r', n', new', hupdate, hC', hagree'⟩ :=
      @Agree.updateGapList_revokable base C T k r n hagree hC ⟨hCT, hT⟩ hk new hr hn'
    exact ⟨_, hupdate, hagree'.consistent hC'⟩
  | false =>
    obtain ⟨hk, hn, hroom, hfirst⟩ := hsafe.resolve_left hcovered
    have hroom' : T ∈ cover r → r.length < MAX_GAP_COUNT := by
      intro hmem
      have hlen := hroom ((hagree.revokable.tsnInGapList hT').mpr hmem)
      exact (length_gapsAt : (gapsAt base r).length = r.length).symm.trans_lt hlen
    have hfirst' : T = C + 1 → T ∈ cover k → T ∈ cover n := by
      intro heq hmem
      exact (hagree.nonRevokable.tsnInGapList hT').mp
        (hfirst (heq ▸ ofPos_succ base C) ((hagree.combined.tsnInGapList hT').mpr hmem))
    obtain ⟨C', k', r', n', new', hupdate, hC', hagree'⟩ :=
      @Agree.updateGapList_nonRevokable base C T k r n hagree hC ⟨hCT, hT⟩ hk new hn hroom'
        hfirst'
    exact ⟨_, hupdate, hagree'.consistent hC'⟩

theorem Consistent.remove {removedTSN : Uint32}
    (hw : Within list (.removeFromGapList removedTSN))
    (hsafe : Safe list (.removeFromGapList removedTSN)) :
    ∃ after, list.removeFromGapList removedTSN = .ok after ∧ Consistent after := by
  obtain ⟨base, C, k, r, n, rfl, hC, hagree, hop⟩ := h.exists_stateAt hw
  obtain ⟨T, hT, rfl⟩ := hop removedTSN List.mem_cons_self
  have hT' : T < 2 ^ 32 := by omega
  have hremove : ∀ {l : List (ℕ × ℕ)}, Above C l → HasRoom (ofPos base T) ⟨gapsAt base l⟩ →
      SCTPSimpleGapList.removeFromGapList ⟨gapsAt base l⟩ (ofPos base T) =
        .ok ⟨gapsAt base (erase l T)⟩ := by
    intro l habove hroom
    refine habove.removeFromGapList hT fun hmem => ?_
    have hlen := hroom ((habove.tsnInGapList hT').mpr hmem)
    exact (length_gapsAt : (gapsAt base l).length = l.length).symm.trans_lt hlen
  obtain ⟨hk, hr, hn⟩ := hsafe
  refine ⟨stateAt base C (erase k T) (erase r T) (erase n T), ?_, hagree.remove.consistent hC⟩
  simp only [removeFromGapList, stateAt, hremove hagree.revokable hr,
    hremove hagree.nonRevokable hn, hremove hagree.combined hk, ok_bind]

theorem Consistent.advance (hw : Within list .tryToAdvanceCumAckTSN)
    (hsafe : Safe list .tryToAdvanceCumAckTSN) : list.tryToAdvanceCumAckTSN = (list, false) := by
  obtain ⟨base, C, k, r, n, rfl, hC, hagree, -⟩ := h.exists_stateAt hw
  have hnot : C + 1 ∉ cover k := by
    intro hmem
    have hin := (@Above.tsnInGapList base C k hagree.combined (C + 1) (by omega)).mpr hmem
    rw [ofPos_succ] at hin
    exact Bool.false_ne_true (hsafe.symm.trans hin)
  simp only [tryToAdvanceCumAckTSN, stateAt, hagree.combined.tryToAdvanceCumAckTSN hC hnot,
    Bool.false_eq_true, if_false]

theorem Consistent.forward {cumAckTSN : Uint32}
    (hw : Within list (.forwardCumAckTSN cumAckTSN))
    (hsafe : Safe list (.forwardCumAckTSN cumAckTSN)) :
    Consistent (list.forwardCumAckTSN cumAckTSN) ∧
      Forwards list (.forwardCumAckTSN cumAckTSN) (list.forwardCumAckTSN cumAckTSN) := by
  obtain ⟨base, C, k, r, n, rfl, hC, hagree, hop⟩ := h.exists_stateAt hw
  obtain ⟨T, hT, rfl⟩ := hop cumAckTSN List.mem_cons_self
  have hhole : ¬ (T ∈ cover k ∧ T + 1 ∈ cover k) := by
    rintro ⟨hmem, hmem'⟩
    have hin := (@Above.tsnInGapList base C k hagree.combined T (by omega)).mpr hmem
    have hin' := (@Above.tsnInGapList base C k hagree.combined (T + 1) (by omega)).mpr hmem'
    rw [ofPos_succ] at hin'
    have hboth : (tsnInGapList ⟨gapsAt base k⟩ (ofPos base T) &&
        tsnInGapList ⟨gapsAt base k⟩ (ofPos base T + 1)) = true := by
      rw [Bool.and_eq_true]
      exact ⟨hin, hin'⟩
    exact Bool.false_ne_true (hsafe.symm.trans hboth)
  have hstate : (stateAt base C k r n).forwardCumAckTSN (ofPos base T) =
      stateAt base T (cut T k) (cut T r) (cut T n) := by
    simp only [forwardCumAckTSN, stateAt, hagree.combined.forwardCumAckTSN hT,
      hagree.revokable.forwardCumAckTSN hT, hagree.nonRevokable.forwardCumAckTSN hT]
    rfl
  have hkeeps : ∀ {l : List (ℕ × ℕ)}, Above C l → ¬ (T ∈ cover l ∧ T + 1 ∈ cover l) →
      KeepsAbove (ofPos base T) ⟨gapsAt base l⟩ ⟨gapsAt base (cut T l)⟩ := by
    intro l habove hl tsn
    obtain ⟨x, hx, rfl⟩ : ∃ x, x < 2 ^ 32 ∧ ofPos base x = tsn :=
      ⟨_, BitVec.isLt _, ofPos_position base tsn⟩
    have hcut : Above T (cut T l) := habove.filter
    rw [Bool.eq_iff_iff, Bool.and_eq_true, hcut.tsnInGapList hx, habove.tsnInGapList hx, cut,
      mem_cover_filter_above hl]
    refine and_congr_right fun hmem => ?_
    have hlt := habove.lt hmem
    rw [tsnGt_ofPos ⟨by omega, by omega⟩, decide_eq_true_eq]
  rw [hstate]
  refine ⟨(hagree.forward hhole).consistent hT, hkeeps hagree.combined hhole,
    hkeeps hagree.revokable fun hmem => hhole ?_, hkeeps hagree.nonRevokable fun hmem => hhole ?_⟩
  · exact ⟨(hagree.union _).mpr (.inl hmem.1), (hagree.union _).mpr (.inl hmem.2)⟩
  · exact ⟨(hagree.union _).mpr (.inr hmem.1), (hagree.union _).mpr (.inr hmem.2)⟩

theorem Consistent.step {op : Op} (hw : Within list op)
    (hsafe : Safe list op) :
    ∃ after, list.step op = .ok after ∧ Consistent after ∧ Forwards list op after := by
  cases op with
  | updateGapList receivedTSN new tsnIsRevokable =>
    obtain ⟨after, hafter, hconsistent⟩ := h.update hw hsafe
    refine ⟨after.list, ?_, hconsistent, trivial⟩
    rw [SCTPGapList.step, hafter, ok_bind]
  | removeFromGapList removedTSN =>
    obtain ⟨after, hafter, hconsistent⟩ := h.remove hw hsafe
    exact ⟨after, hafter, hconsistent, trivial⟩
  | tryToAdvanceCumAckTSN =>
    refine ⟨list, ?_, h, trivial⟩
    rw [SCTPGapList.step, h.advance hw hsafe]
  | forwardCumAckTSN cumAckTSN =>
    obtain ⟨hconsistent, hforwards⟩ := h.forward hw hsafe
    exact ⟨_, rfl, hconsistent, hforwards⟩

end

theorem initial_consistent (cumAckTSN : Uint32) : Consistent (initial cumAckTSN) := by
  have hblocks : Blocks cumAckTSN {} :=
    ⟨List.Pairwise.nil, fun _ hgap => absurd hgap List.not_mem_nil,
      fun _ hgap => absurd hgap List.not_mem_nil⟩
  exact ⟨hblocks, hblocks, hblocks, fun _ _ => rfl, fun _ => rfl⟩

/-- In a run whose operations are all safe the three lists agree in every state, and forwarding
leaves in each list the members above the new cumulative ack. -/
theorem consistent_of_safe (cumAckTSN : Uint32) (ops : List Op)
    (hwithin : Admissible step Within (initial cumAckTSN) ops)
    (hsafe : Admissible step Safe (initial cumAckTSN) ops) :
    Always step Consistent (initial cumAckTSN) ops ∧
      Along step Forwards (initial cumAckTSN) ops := by
  have hrun := hwithin.and hsafe
  constructor
  · refine always_of_step (fun s op hs hok => ?_) (initial_consistent cumAckTSN) hrun
    obtain ⟨t, hstep, ht, -⟩ := hs.step hok.1 hok.2
    exact ⟨t, hstep, ht⟩
  · exact along_of_step (fun s op hs hok => hs.step hok.1 hok.2) (initial_consistent cumAckTSN) hrun

end

def sampleOps : List Op :=
  [.updateGapList 12#32 false true, .updateGapList 14#32 false false, .forwardCumAckTSN 13#32]

/-- A revokable and a non-revokable TSN, and the first one passed by the cumulative ack. -/
theorem consistent_of_sampleOps : Always step Consistent (initial 10#32) sampleOps ∧
      Along step Forwards (initial 10#32) sampleOps := by
  have haccepts : ∀ {list : SCTPSimpleGapList} {receivedTSN cTsnAck : Uint32},
      (list.gaps.length < MAX_GAP_COUNT ∧ ∀ gap ∈ list.gaps, gap.start ≠ 0) →
        Accepts list receivedTSN cTsnAck :=
    fun h => .of_ne_zero h.1 h.2
  let one : SCTPGapList := ⟨10#32, ⟨[⟨12#32, 12#32⟩]⟩, ⟨[⟨12#32, 12#32⟩]⟩, {}⟩
  let two : SCTPGapList := ⟨10#32, ⟨[⟨12#32, 12#32⟩, ⟨14#32, 14#32⟩]⟩, ⟨[⟨12#32, 12#32⟩]⟩,
    ⟨[⟨14#32, 14#32⟩]⟩⟩
  have hone : step (initial 10#32) (.updateGapList 12#32 false true) = .ok one := by
    decide +kernel
  have htwo : step one (.updateGapList 14#32 false false) = .ok two := by decide +kernel
  refine consistent_of_safe 10#32 sampleOps ?_ ?_
  · exact .cons (by decide +kernel) hone (.cons (by decide +kernel) htwo
      (.cons (t := two.forwardCumAckTSN 13#32) (by decide +kernel) rfl trivial))
  · refine .cons (.inr ⟨haccepts (by decide), haccepts (by decide), by decide⟩) hone ?_
    refine .cons (.inr ⟨haccepts (by decide), haccepts (by decide), ?_, ?_⟩) htwo ?_
    · exact fun hin => absurd hin (by decide +kernel)
    · exact fun heq => absurd heq (by decide +kernel)
    · exact .cons (t := two.forwardCumAckTSN 13#32) (show _ = false by decide +kernel) rfl trivial

def dividingOps : List Op :=
  [.updateGapList 12#32 false true, .updateGapList 13#32 false true, .forwardCumAckTSN 12#32]

/-- A block that the new cumulative ack divides is dropped as a whole. -/
theorem not_forwards_of_dividingOps : Admissible step Within (initial 10#32) dividingOps ∧
      ¬ (Always step Consistent (initial 10#32) dividingOps ∧
        Along step Forwards (initial 10#32) dividingOps) := by
  let one : SCTPGapList := ⟨10#32, ⟨[⟨12#32, 12#32⟩]⟩, ⟨[⟨12#32, 12#32⟩]⟩, {}⟩
  let two : SCTPGapList := ⟨10#32, ⟨[⟨12#32, 13#32⟩]⟩, ⟨[⟨12#32, 13#32⟩]⟩, {}⟩
  have hone : step (initial 10#32) (.updateGapList 12#32 false true) = .ok one := by
    decide +kernel
  have htwo : step one (.updateGapList 13#32 false true) = .ok two := by decide +kernel
  constructor
  · exact .cons (by decide +kernel) hone (.cons (by decide +kernel) htwo
      (.cons (t := two.forwardCumAckTSN 12#32) (by decide +kernel) rfl trivial))
  · rintro ⟨-, s, hs, -, t, ht, -, u, hu, ⟨hkeeps, -⟩, -⟩
    obtain rfl : one = s := Except.ok.inj (hone.symm.trans hs)
    obtain rfl : two = t := Except.ok.inj (htwo.symm.trans ht)
    obtain rfl : two.forwardCumAckTSN 12#32 = u := Except.ok.inj hu
    exact absurd (hkeeps 13#32) (by decide +kernel)

end SCTPGapList

end Inet.Sctp
