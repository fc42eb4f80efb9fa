import Inet.Sctp.CombinedGapList

/-!
# The gap lists of a receiver that may renege

With reneging enabled every received TSN is revokable: the list of the non-revokable TSNs stays
empty and the revokable one is the combined one (`Revokable`). Positions are counted from the
cumulative ack.
-/

namespace Inet.Sctp.SCTPGapList

open SerialNumber Intervals SCTPSimpleGapList

def getHighestTSNReceived (list : SCTPGapList) : Uint32 :=
  (list.combinedGapList.gaps.getLast?.map Gap.stop).getD list.cumAckTSN

def tsnInGapList (list : SCTPGapList) (tsn : Uint32) : Bool :=
  list.combinedGapList.tsnInGapList tsn

/-- The TSNs of `k` have been received above the cumulative ack, and the next one has not. -/
structure Revokable (list : SCTPGapList) (k : List (ℕ × ℕ)) : Prop where
  eq : list = stateAt list.cumAckTSN 0 k k []
  above : Above 0 k
  hole : 1 ∉ cover k

variable {base : Uint32} {list list' : SCTPGapList} {k m : List (ℕ × ℕ)} {x C T : ℕ}

theorem Revokable.layout (h : Revokable list k) : Layout 0 k := by
  obtain hlayout | ⟨E, l, rfl, hE, -⟩ := h.above.cases
  · exact hlayout
  · refine absurd (mem_cover_of_mem List.mem_cons_self ?_ ?_) h.hole <;> simp only <;> omega

theorem Revokable.combined (h : Revokable list k) :
    list.combinedGapList = ⟨gapsAt list.cumAckTSN k⟩ :=
  congrArg SCTPGapList.combinedGapList h.eq

theorem Revokable.initial (cumAckTSN : Uint32) : Revokable (initial cumAckTSN) [] where
  eq := by
    rw [stateAt, ofPos_zero]
    rfl
  above := ⟨List.Pairwise.nil, fun _ hi => absurd hi List.not_mem_nil,
    fun _ hi => absurd hi List.not_mem_nil, fun _ hi => absurd hi List.not_mem_nil⟩
  hole := by simp

theorem Revokable.tsnInGapList (h : Revokable list k) (hx : x < 2 ^ 32) :
    list.tsnInGapList (ofPos list.cumAckTSN x) = true ↔ x ∈ cover k := by
  rw [SCTPGapList.tsnInGapList, h.combined]
  exact h.above.tsnInGapList hx

/-- The highest TSN is the cumulative ack or one of the list. -/
theorem Revokable.highest (h : Revokable list k) : list.getHighestTSNReceived = list.cumAckTSN ∨
      ∃ x ∈ cover k, list.getHighestTSNReceived = ofPos list.cumAckTSN x := by
  rw [getHighestTSNReceived, h.combined]
  cases hlast : k.getLast? with
  | none =>
    rw [List.getLast?_eq_none_iff] at hlast
    subst hlast
    exact .inl rfl
  | some i =>
    have hi : i ∈ k := List.mem_of_getLast? hlast
    have hproper := h.above.proper i hi
    refine .inr ⟨i.2 - 1, mem_cover_of_mem hi (by omega) (by omega), ?_⟩
    simp [gapsAt, List.getLast?_map, hlast, gapAt]

/-- Removing a TSN above the cumulative ack. -/
theorem Revokable.remove (h : Revokable list k) (hT : T < 2 ^ 31)
    (hsafe : Safe list (.removeFromGapList (ofPos list.cumAckTSN T)))
    (hrun : list.removeFromGapList (ofPos list.cumAckTSN T) = .ok list') :
    list'.cumAckTSN = list.cumAckTSN ∧ Revokable list' (erase k T) := by
  have hroom : T ∈ cover k → k.length < MAX_GAP_COUNT := by
    intro hmem
    have hin := (h.tsnInGapList (by omega)).mpr hmem
    have hlen := hsafe.1 hin
    rwa [h.combined, length_gapsAt] at hlen
  have hremove := @Above.removeFromGapList list.cumAckTSN 0 T k h.above hT hroom
  have hlist := h.eq
  generalize list.cumAckTSN = c at hlist hremove hrun
  subst hlist
  simp only [SCTPGapList.removeFromGapList, stateAt, hremove, gapsAt_nil] at hrun
  cases hrun
  refine ⟨ofPos_zero c, ?_, h.above.erase, fun hmem => h.hole (mem_cover_erase.mp hmem).1⟩
  simp only [stateAt, ofPos_zero, gapsAt_nil]

/-- The blocks `m`, with their positions counted from `C` on. -/
def shift (C : ℕ) (m : List (ℕ × ℕ)) : List (ℕ × ℕ) := m.map fun i => (i.1 - C, i.2 - C)

theorem gapsAt_shift (h : Above C m) : gapsAt (ofPos base C) (shift C m) = gapsAt base m := by
  rw [gapsAt, shift, List.map_map]
  refine List.map_congr_left fun i hi => ?_
  have habove := h.above i hi
  have hproper := h.proper i hi
  have hstart : C + (i.1 - C) = i.1 := by omega
  have hstop : C + (i.2 - C - 1) = i.2 - 1 := by omega
  show (⟨ofPos (ofPos base C) (i.1 - C), ofPos (ofPos base C) (i.2 - C - 1)⟩ : Gap) = _
  rw [ofPos_ofPos, ofPos_ofPos, hstart, hstop]
  rfl

theorem above_shift (h : Above C m) : Above 0 (shift C m) where
  ascending := by
    refine List.pairwise_map.mpr (h.ascending.imp_of_mem fun {i j} hi hj hij => ?_)
    have := h.above j hj
    simp only
    omega
  proper := by
    intro i hi
    obtain ⟨j, hj, rfl⟩ := List.mem_map.mp hi
    have := h.above j hj
    have := h.proper j hj
    simp only
    omega
  above := by
    intro i hi
    obtain ⟨j, hj, rfl⟩ := List.mem_map.mp hi
    exact Nat.sub_pos_of_lt (h.above j hj)
  bound := by
    intro i hi
    obtain ⟨j, hj, rfl⟩ := List.mem_map.mp hi
    exact (Nat.sub_le _ _).trans (h.bound j hj)

theorem mem_cover_shift (h : Above C m) : x ∈ cover (shift C m) ↔ C + x ∈ cover m := by
  simp only [cover, SCTPGapList.shift, List.mem_map, Set.mem_ofPred_eq, exists_exists_and_eq_and]
  refine exists_congr fun i => and_congr_right fun hi => ?_
  have := h.above i hi
  have := h.proper i hi
  omega

section

variable (h : Revokable list k) (hT : 0 < T ∧ T < 2 ^ 31) (hnew : T ∉ cover k)
  (hlen : k.length < MAX_GAP_COUNT)
  (hharmless : ZeroBlockHarmless list.combinedGapList (ofPos list.cumAckTSN T) list.cumAckTSN)

include h hT hnew hlen hharmless

/-- The update of one list adds a new TSN. -/
theorem Revokable.updateLoop (new : Bool) :
    SCTPSimpleGapList.updateGapList list.combinedGapList (ofPos list.cumAckTSN T) list.cumAckTSN
        new =
      .ok ⟨true, (wordsAt list.cumAckTSN (insert ((0, 1) :: k) (T, T + 1))).1, true,
        ⟨(wordsAt list.cumAckTSN (insert ((0, 1) :: k) (T, T + 1))).2⟩⟩ := by
  have hcum : ofPos list.cumAckTSN 0 = list.cumAckTSN := ofPos_zero _
  have hT' : 0 < T ∧ T < 0 + 2 ^ 31 := by omega
  rw [h.combined] at hharmless ⊢
  have hat : HarmlessAt list.cumAckTSN 0 T k :=
    (harmless_iff h.layout hT').mp (by rwa [hcum])
  obtain ⟨u, hu, hright, -⟩ := @updateLoop_outcome list.cumAckTSN new 0 T k (by omega) h.layout
    hlen hT'
  have hnot : ¬ tsnLe (ofPos list.cumAckTSN T) list.cumAckTSN = true := by
    have hle : tsnLe (ofPos list.cumAckTSN T) (ofPos list.cumAckTSN 0) = decide (T ≤ 0) :=
      tsnLe_ofPos ⟨by omega, by omega⟩
    rw [hcum] at hle
    rw [hle, decide_eq_true_eq]
    omega
  rw [hcum, ofPos_succ, hcum] at hu
  rw [SCTPSimpleGapList.updateGapList, if_neg hnot]
  refine hu.trans ?_
  obtain ⟨hmem, -⟩ | ⟨-, rfl⟩ := hright hat
  · obtain hlow | hmem := mem_cover_cons.mp hmem
    · omega
    · exact absurd hmem hnew
  · rfl

/-- A new TSN is added, and the cumulative ack advances over all that follows it without a
hole. -/
theorem Revokable.update (new : Bool) :
    ∃ C m list', list.updateGapList (ofPos list.cumAckTSN T) new true = .ok ⟨true, true, list'⟩ ∧
      list'.tryToAdvanceCumAckTSN = (list', false) ∧ C < 2 ^ 31 ∧
      list'.cumAckTSN = ofPos list.cumAckTSN C ∧ Revokable list' m ∧
      ∀ x, x ≤ C ∨ (C < x ∧ x - C ∈ cover m) ↔ x = 0 ∨ x ∈ cover k ∨ x = T := by
  have hcum : ofPos list.cumAckTSN 0 = list.cumAckTSN := ofPos_zero _
  have hright : Right list.cumAckTSN 0 T new k
      ⟨true, (wordsAt list.cumAckTSN (insert ((0, 1) :: k) (T, T + 1))).1, true,
        ⟨(wordsAt list.cumAckTSN (insert ((0, 1) :: k) (T, T + 1))).2⟩⟩ := by
    refine .inr ⟨fun hmem => ?_, rfl⟩
    obtain hlow | hmem := mem_cover_cons.mp hmem
    · omega
    · exact hnew hmem
  obtain ⟨C, m, new', hwords, hm, -, hbound, hpoints⟩ :=
    hright.exists_layout h.layout h.above.bound hT
  have habove : Above C m := hm.above hbound
  have hC : C < 2 ^ 31 := by
    obtain hmem | rfl := (hpoints C).mp
      (mem_cover_of_mem List.mem_cons_self (Nat.zero_le _) (Nat.lt_succ_self C))
    · obtain hlow | hmem := mem_cover_cons.mp hmem
      · omega
      · exact (h.above.lt hmem).2
    · exact hT.2
  obtain rfl : true = new' := congrArg SCTPSimpleGapList.Updated.newChunkReceived hwords
  have hloop := h.updateLoop hT hnew hlen hharmless
  rw [hwords] at hloop
  have hempty : Above 0 [] := (Revokable.initial 0).above
  have hrevokable : list.revokableGapList = list.combinedGapList := by
    rw [h.eq]
    rfl
  have hnon : list.nonRevokableGapList = ⟨gapsAt list.cumAckTSN []⟩ := by
    rw [h.eq]
    rfl
  have hforward := @ite_forward list.cumAckTSN 0 m [] m C true true
    (habove.mono (Nat.zero_le C)) hempty (by omega) hC
  rw [hcum, cut_of_above habove] at hforward
  refine ⟨C, shift C m, stateAt list.cumAckTSN C m m [], ?_, ?_, hC, rfl,
    ⟨?_, above_shift habove, ?_⟩, fun x => ?_⟩
  · simp only [SCTPGapList.updateGapList, if_true, hrevokable, hloop, ok_bind, hnon]
    exact hforward
  · simp only [SCTPGapList.tryToAdvanceCumAckTSN, stateAt,
      habove.tryToAdvanceCumAckTSN hC hm.not_mem, Bool.false_eq_true, if_false]
  · show stateAt list.cumAckTSN C m m [] = stateAt (ofPos list.cumAckTSN C) 0 _ _ []
    simp only [stateAt, ofPos_zero, gapsAt_shift habove, gapsAt_nil]
  · rw [mem_cover_shift habove]
    exact hm.not_mem
  · have hx := hpoints x
    rw [mem_cover_cons, mem_cover_cons, or_assoc] at hx
    have hlow : (0 ≤ x ∧ x < C + 1) ↔ x ≤ C := by omega
    have hzero : (0 ≤ x ∧ x < 0 + 1) ↔ x = 0 := by omega
    have hshift : (C < x ∧ x - C ∈ cover (shift C m)) ↔ x ∈ cover m := by
      rw [mem_cover_shift habove]
      constructor
      · rintro ⟨hlt, hmem⟩
        rwa [Nat.add_sub_cancel' hlt.le] at hmem
      · intro hmem
        have hlt := (habove.lt hmem).1
        rw [Nat.add_sub_cancel' hlt.le]
        exact ⟨hlt, hmem⟩
    rwa [hlow, hzero, ← hshift] at hx

end

end Inet.Sctp.SCTPGapList
