import Inet.Ieee80211.ReceiveBuffer

/-!
# Order within the receive buffer

A call passes up the complete MSDUs of a receive buffer by their distance from the next expected
number (`PassesInOrder`), if what is passed up does not lie on both sides of the wrap to 0 and no
MSDU overtakes complete ones from the slot behind the window.

The slot comes from `isSequenceNumberTooOld`, which accepts the distance `bufferSize`, while
`isSequenceNumberLess` takes a number at that distance for older than those in the window. The
wrap comes from the returned map, which is in the order of the plain numbers.
-/

namespace Inet.Ieee80211

open List

section

variable {next range a b i : ℕ}

/-- A number ahead by `i + t` is ahead by `t` once the next expected number has moved by `i`. -/
theorem sequenceNumberDistance_shift {t : ℕ} (hnext : next < 4096)
    (h : sequenceNumberDistance next a = i + t) :
    sequenceNumberDistance ((next + i) % 4096) a = t := by
  rw [sequenceNumberDistance] at h ⊢
  omega

theorem sequenceNumberDistance_inj (hnext : next < 4096) (ha : a < 4096) (hb : b < 4096)
    (h : sequenceNumberDistance next a = sequenceNumberDistance next b) : a = b := by
  rw [sequenceNumberDistance, sequenceNumberDistance] at h
  omega

/-- The order of `isSequenceNumberLess`: what is not within the range comes first. -/
def rank (next range a : ℕ) : ℕ :=
  if sequenceNumberDistance next a < range then sequenceNumberDistance next a + 4096
  else sequenceNumberDistance next a

theorem isSequenceNumberLess_iff :
    isSequenceNumberLess a b next range = true ↔ rank next range a < rank next range b := by
  have ha := sequenceNumberDistance_lt next a
  have hb := sequenceNumberDistance_lt next b
  unfold isSequenceNumberLess rank
  dsimp only
  split_ifs <;> simp only [decide_eq_true_eq, false_iff, true_iff] <;> omega

end

namespace ReceiveBuffer

variable {rb rb' : ReceiveBuffer} {q start : ℕ} {fragments : Fragments}
  {entries : List (ℕ × Fragments)} {numbers : List ℕ} {mpdus : ReorderBuffer}

/-- The MSDU with this number is complete in the buffer. -/
def Complete (rb : ReceiveBuffer) (q : ℕ) : Prop :=
  ∃ fragments, rb.buffer[q]? = some fragments ∧ isComplete fragments = true

/-- How far a number is ahead of the next expected one. -/
def ahead (rb : ReceiveBuffer) (q : ℕ) : ℕ :=
  sequenceNumberDistance rb.nextExpectedSequenceNumber q

structure WellFormed (rb : ReceiveBuffer) : Prop where
  size_pos : 0 < rb.bufferSize
  size_le : rb.bufferSize ≤ 64
  next_lt : rb.nextExpectedSequenceNumber < 4096
  length_le : rb.length ≤ rb.bufferSize
  number : ∀ (q : ℕ) (fragments : Fragments), rb.buffer[q]? = some fragments → q < 4096
  first : ∀ (q : ℕ) (fragments : Fragments), rb.buffer[q]? = some fragments →
    firstSequenceNumber fragments = .ok q

/-- Complete MSDUs lie at most `bufferSize` ahead. -/
def InReach (rb : ReceiveBuffer) : Prop :=
  ∀ q, rb.Complete q → rb.ahead q ≤ rb.bufferSize

/-- The receive buffer of a new agreement. -/
theorem wellFormed_new (agreement : RecipientBlockAckAgreement) : WellFormed
      { bufferSize := agreement.bufferSize
        nextExpectedSequenceNumber := agreement.startingSequenceNumber } := by
  have hempty : ∀ (q : ℕ) (fragments : Fragments),
      (∅ : ReorderBuffer)[q]? = some fragments → False := by
    intro q fragments hget
    simp at hget
  refine ⟨agreement.bufferSize_pos, agreement.bufferSize_le, agreement.startingSequenceNumber_lt,
    Int.natCast_nonneg _, ?_, ?_⟩
  · exact fun q fragments hget => (hempty q fragments hget).elim
  · exact fun q fragments hget => (hempty q fragments hget).elim

theorem WellFormed.complete_lt (h : WellFormed rb) (hq : rb.Complete q) : q < 4096 := by
  obtain ⟨fragments, hget, -⟩ := hq
  exact h.number q fragments hget

theorem insertFrame_eq (rb : ReceiveBuffer) (dataFrame : Ieee80211DataFrame) :
    rb.insertFrame dataFrame =
      if rb.length < rb.bufferSize ∧ rb.ahead dataFrame.sequenceNumber ≤ rb.bufferSize then
        some
          { rb with
            buffer := rb.buffer.insert dataFrame.sequenceNumber
              (rb.buffer.getD dataFrame.sequenceNumber [] ++ [dataFrame])
            length := rb.length + 1 }
      else none := by
  rw [insertFrame]
  refine if_congr (and_congr_right fun _ => ?_) rfl rfl
  simp [isSequenceNumberTooOld, ahead]

theorem insertFrame_spec {frame : Ieee80211DataFrame} (h : WellFormed rb) (hreach : InReach rb)
    (hins : rb.insertFrame frame = some rb') :
    WellFormed rb' ∧ InReach rb' ∧ rb'.bufferSize = rb.bufferSize ∧
      rb'.nextExpectedSequenceNumber = rb.nextExpectedSequenceNumber := by
  rw [insertFrame_eq] at hins
  split_ifs at hins with hroom
  obtain ⟨hlength, hold⟩ := hroom
  cases hins
  have hget : ∀ (q : ℕ) (fragments : Fragments),
      (rb.buffer.insert frame.sequenceNumber
        (rb.buffer.getD frame.sequenceNumber [] ++ [frame]))[q]? = some fragments →
      (q = frame.sequenceNumber ∧ fragments = rb.buffer.getD frame.sequenceNumber [] ++ [frame]) ∨
        rb.buffer[q]? = some fragments := by
    intro q fragments hq
    rw [Std.TreeMap.getElem?_insert] at hq
    split_ifs at hq with heq
    · exact .inl ⟨(Std.LawfulEqOrd.eq_of_compare heq).symm, (Option.some.inj hq).symm⟩
    · exact .inr hq
  refine ⟨⟨h.size_pos, h.size_le, h.next_lt, ?_, ?_, ?_⟩, ?_, rfl, rfl⟩
  · show rb.length + 1 ≤ rb.bufferSize
    omega
  · intro q fragments hq
    obtain ⟨rfl, -⟩ | hq := hget q fragments hq
    · exact frame.sequenceNumber_lt
    · exact h.number q fragments hq
  · intro q fragments hq
    obtain ⟨rfl, rfl⟩ | hq := hget q fragments hq
    · rw [Std.TreeMap.getD_eq_getD_getElem?]
      cases hold : rb.buffer[frame.sequenceNumber]? with
      | none => rfl
      | some old =>
        have hfirst := h.first _ _ hold
        cases old with
        | nil => cases hfirst
        | cons fragment rest => exact hfirst
    · exact h.first q fragments hq
  · rintro q ⟨fragments, hq, hcomplete⟩
    obtain ⟨rfl, -⟩ | hq := hget q fragments hq
    · exact hold
    · exact hreach q ⟨fragments, hq, hcomplete⟩

/-- The entries of the buffer are those of its list. -/
theorem mem_toList_iff : (q, fragments) ∈ rb.buffer.toList ↔ rb.buffer[q]? = some fragments :=
  Std.TreeMap.mem_toList_iff_getElem?_eq_some

theorem earliestOf_spec (h : WellFormed rb)
    (hentries : ∀ entry ∈ entries, entry ∈ rb.buffer.toList) {e : ℕ}
    (he : rb.buffer[e]? = some fragments) (hcomplete : isComplete fragments = true) :
    ∃ e' fragments', rb.earliestOf entries (fragments, e) = .ok (fragments', e') ∧
      rb.buffer[e']? = some fragments' ∧ isComplete fragments' = true ∧
      rank rb.nextExpectedSequenceNumber rb.bufferSize e' ≤
        rank rb.nextExpectedSequenceNumber rb.bufferSize e ∧
      ∀ entry ∈ entries, isComplete entry.2 = true →
        rank rb.nextExpectedSequenceNumber rb.bufferSize e' ≤
          rank rb.nextExpectedSequenceNumber rb.bufferSize entry.1 := by
  induction entries generalizing e fragments with
  | nil => exact ⟨e, fragments, rfl, he, hcomplete, le_rfl, by simp⟩
  | cons entry entries ih =>
    have hentry : rb.buffer[entry.1]? = some entry.2 :=
      mem_toList_iff.mp (hentries entry mem_cons_self)
    have hfirst := h.first _ _ hentry
    have hrest : ∀ entry ∈ entries, entry ∈ rb.buffer.toList := fun entry hmem =>
      hentries entry (mem_cons_of_mem _ hmem)
    by_cases hless : (isSequenceNumberLess entry.1 e rb.nextExpectedSequenceNumber
        rb.bufferSize && isComplete entry.2) = true
    · obtain ⟨hlt, hentry_complete⟩ := Bool.and_eq_true_iff.mp hless
      rw [isSequenceNumberLess_iff] at hlt
      obtain ⟨e', fragments', hok, he', hcomplete', hle, hall⟩ :=
        ih hrest hentry hentry_complete
      refine ⟨e', fragments', ?_, he', hcomplete', by omega, ?_⟩
      · rw [← hok, earliestOf, foldlM_cons, hfirst]
        simp only [ok_bind, hless, if_true]
        rfl
      · rw [forall_mem_cons]
        exact ⟨fun _ => hle, hall⟩
    · obtain ⟨e', fragments', hok, he', hcomplete', hle, hall⟩ := ih hrest he hcomplete
      refine ⟨e', fragments', ?_, he', hcomplete', hle, ?_⟩
      · rw [← hok, earliestOf, foldlM_cons, hfirst]
        simp only [ok_bind, hless, Bool.false_eq_true, if_false]
        rfl
      · refine forall_mem_cons.mpr ⟨fun hentry_complete => ?_, hall⟩
        have hge : ¬ rank rb.nextExpectedSequenceNumber rb.bufferSize entry.1 <
            rank rb.nextExpectedSequenceNumber rb.bufferSize e := by
          intro hlt
          exact hless (Bool.and_eq_true_iff.mpr
            ⟨isSequenceNumberLess_iff.mpr hlt, hentry_complete⟩)
        omega

theorem getEarliest_spec (h : WellFormed rb) :
    (rb.getEarliestCompleteMsduOrAMsduIfExists = .ok [] ∧ ∀ q, ¬ rb.Complete q) ∨
      ∃ e fragments, rb.getEarliestCompleteMsduOrAMsduIfExists = .ok fragments ∧
        rb.buffer[e]? = some fragments ∧ isComplete fragments = true ∧
        ∀ q, rb.Complete q → rank rb.nextExpectedSequenceNumber rb.bufferSize e ≤
          rank rb.nextExpectedSequenceNumber rb.bufferSize q := by
  unfold getEarliestCompleteMsduOrAMsduIfExists
  cases hfind : rb.buffer.toList.find? fun it => isComplete it.2 with
  | none =>
    refine .inl ⟨rfl, ?_⟩
    rintro q ⟨fragments, hget, hcomplete⟩
    exact find?_eq_none.mp hfind _ (mem_toList_iff.mpr hget) hcomplete
  | some first =>
    obtain ⟨q, fragments⟩ := first
    have hcomplete : isComplete fragments = true := by
      simpa using find?_some hfind
    have hget := mem_toList_iff.mp (mem_of_find?_eq_some hfind)
    obtain ⟨e, fragments', hok, he, hcomplete', -, hall⟩ :=
      earliestOf_spec h (fun entry hmem => hmem) hget hcomplete
    refine .inr ⟨e, fragments', ?_, he, hcomplete', ?_⟩
    · simp only [h.first _ _ hget, hok, ok_bind]
    · rintro y ⟨fragments, hy, hycomplete⟩
      exact hall (y, fragments) (mem_toList_iff.mpr hy) hycomplete

/-- What releasing some numbers does to the buffer. -/
structure Released (rb rb' : ReceiveBuffer) (numbers : List ℕ) : Prop where
  bufferSize : rb'.bufferSize = rb.bufferSize
  length_le : rb'.length ≤ rb.length
  get : ∀ q, rb'.buffer[q]? = if q ∈ numbers then none else rb.buffer[q]?
  next : rb'.nextExpectedSequenceNumber =
    (numbers.getLast?.map fun q => (q + 1) % 4096).getD rb.nextExpectedSequenceNumber

theorem Released.refl (rb : ReceiveBuffer) : Released rb rb [] :=
  ⟨rfl, le_rfl, fun q => by simp, rfl⟩

theorem Released.trans {rb₁ rb₂ : ReceiveBuffer} {numbers₁ numbers₂ : List ℕ}
    (h₁ : Released rb rb₁ numbers₁) (h₂ : Released rb₁ rb₂ numbers₂) :
    Released rb rb₂ (numbers₁ ++ numbers₂) := by
  refine ⟨h₂.bufferSize.trans h₁.bufferSize, h₂.length_le.trans h₁.length_le, ?_, ?_⟩
  · intro q
    rw [h₂.get, h₁.get]
    by_cases hq₂ : q ∈ numbers₂ <;> by_cases hq₁ : q ∈ numbers₁ <;> simp [hq₁, hq₂]
  · rw [h₂.next, h₁.next, getLast?_append]
    cases numbers₂.getLast? <;> rfl

theorem passedUp_spec (hget : rb.buffer[q]? = some fragments) :
    ∃ rb', rb.passedUp q = .ok rb' ∧ Released rb rb' [q] := by
  refine
    ⟨{ rb with
        nextExpectedSequenceNumber := (q + 1) % 4096
        length := rb.length - fragments.length
        buffer := rb.buffer.erase q }, ?_, rfl, ?_, ?_, rfl⟩
  · rw [passedUp, remove, hget]
  · show rb.length - fragments.length ≤ rb.length
    exact Int.sub_le_self _ (Int.natCast_nonneg _)
  · intro p
    show (rb.buffer.erase q)[p]? = _
    rw [Std.TreeMap.getElem?_erase]
    simp only [Std.compare_eq_iff_eq, mem_singleton, eq_comm (a := p)]

theorem foldlM_passedUp_spec (hpresent : ∀ entry ∈ entries, rb.buffer[entry.1]? = some entry.2)
    (hdistinct : (entries.map Prod.fst).Nodup) :
    ∃ rb', entries.foldlM (fun rb it => passedUp rb it.1) rb = .ok rb' ∧
      Released rb rb' (entries.map Prod.fst) := by
  induction entries generalizing rb with
  | nil => exact ⟨rb, rfl, .refl rb⟩
  | cons entry entries ih =>
    obtain ⟨rb₁, hok, hreleased⟩ := passedUp_spec (hpresent entry mem_cons_self)
    rw [map_cons, nodup_cons] at hdistinct
    have hrest : ∀ other ∈ entries, rb₁.buffer[other.1]? = some other.2 := by
      intro other hmem
      have hne : other.1 ∉ [entry.1] := by
        rw [mem_singleton]
        intro heq
        exact hdistinct.1 (heq ▸ mem_map_of_mem hmem)
      rw [hreleased.get, if_neg hne]
      exact hpresent other (mem_cons_of_mem _ hmem)
    obtain ⟨rb₂, hok₂, hreleased₂⟩ := ih hrest hdistinct.2
    refine ⟨rb₂, ?_, hreleased.trans hreleased₂⟩
    rw [foldlM_cons, hok]
    exact hok₂

/-- The numbers of a collection, in the order of the map. -/
def numbersOf (mpdus : ReorderBuffer) : List ℕ := mpdus.toList.map Prod.fst

theorem numbersOf_sorted (mpdus : ReorderBuffer) : (numbersOf mpdus).Pairwise (· < ·) := by
  rw [numbersOf, pairwise_map]
  exact mpdus.ordered_keys_toList.imp fun h => Nat.compare_eq_lt.mp h

theorem mem_numbersOf : q ∈ numbersOf mpdus ↔ ∃ fragments, mpdus[q]? = some fragments := by
  rw [numbersOf, mem_map]
  constructor
  · rintro ⟨⟨_, fragments⟩, hmem, rfl⟩
    exact ⟨fragments, Std.TreeMap.mem_toList_iff_getElem?_eq_some.mp hmem⟩
  · rintro ⟨fragments, hget⟩
    exact ⟨(q, fragments), Std.TreeMap.mem_toList_iff_getElem?_eq_some.mpr hget, rfl⟩

theorem releaseReceiveBuffer_spec
    (hpresent : ∀ (q : ℕ) (fragments : Fragments), mpdus[q]? = some fragments →
      rb.buffer[q]? = some fragments) :
    ∃ rb', rb.releaseReceiveBuffer mpdus = .ok rb' ∧ Released rb rb' (numbersOf mpdus) := by
  apply foldlM_passedUp_spec
  · rintro ⟨q, fragments⟩ hmem
    exact hpresent q fragments (Std.TreeMap.mem_toList_iff_getElem?_eq_some.mp hmem)
  · exact (numbersOf_sorted mpdus).imp fun hlt => hlt.ne

/-- The buffer holds all fragments of this number. -/
theorem complete_iff : rb.Complete q ↔ rb.buffer[q]?.any isComplete = true := by
  rw [Option.any_eq_true]
  rfl

theorem mem_collectCompletePrecedingMpdus :
    (rb.collectCompletePrecedingMpdus start)[q]? = some fragments ↔
      rb.buffer[q]? = some fragments ∧ isComplete fragments = true ∧
        isSequenceNumberLess q start rb.nextExpectedSequenceNumber rb.bufferSize = true := by
  rw [collectCompletePrecedingMpdus, Std.TreeMap.getElem?_filter', Option.filter_eq_some_iff,
    Bool.and_eq_true, and_comm (a := isComplete fragments = true)]

theorem addWhileComplete_get : (rb.addWhileComplete numbers mpdus)[q]? =
      if q ∈ numbers.takeWhile (fun i => rb.buffer[i]?.any isComplete) then rb.buffer[q]?
      else mpdus[q]? := by
  induction numbers generalizing mpdus with
  | nil => rfl
  | cons i numbers ih =>
    rw [addWhileComplete, addMsduIfComplete, takeWhile_cons]
    cases hget : rb.buffer[i]? with
    | none => simp
    | some fragments =>
      by_cases hcomplete : isComplete fragments = true
      · simp only [hcomplete, if_true, ih, Option.any_some, mem_cons]
        by_cases hqi : q = i
        · subst hqi
          simp [hget]
        · have hne : compare i q ≠ .eq := by
            intro heq
            exact hqi (Std.LawfulEqOrd.eq_of_compare heq).symm
          rw [Std.TreeMap.getElem?_insert, if_neg hne]
          simp only [hqi, false_or]
      · simp [hcomplete]

theorem followingNumbers_eq {bufferSize : ℕ} (hstart : start < 4096) (hsize : bufferSize ≤ 64) :
    followingNumbers start bufferSize =
      (List.range bufferSize).map fun j => (start + j) % 4096 := by
  apply ext_getElem
  · unfold followingNumbers
    split_ifs
    · simp
      omega
    · simp
  · intro i hi hi'
    simp only [length_map, length_range] at hi'
    unfold followingNumbers
    split_ifs with hwrap
    · rw [getElem_append]
      split_ifs with hlow <;> simp at hlow ⊢ <;> omega
    · simp
      omega

/-- The number is among the complete ones that directly follow the starting one. -/
def Follows (rb : ReceiveBuffer) (start q : ℕ) : Prop :=
  ∃ j < rb.bufferSize, q = (start + j) % 4096 ∧ ∀ i ≤ j, rb.Complete ((start + i) % 4096)

/-- A request for the numbers from the starting one on passes this number up. -/
def Due (rb : ReceiveBuffer) (start q : ℕ) : Prop :=
  rb.Complete q ∧ isSequenceNumberLess q start rb.nextExpectedSequenceNumber rb.bufferSize = true ∨
    rb.Follows start q

/-- What is taken from the front of a range of numbers. -/
theorem mem_takeWhile_map_range {p : ℕ → Bool} {f : ℕ → ℕ} {n : ℕ} :
    q ∈ ((List.range n).map f).takeWhile p ↔ ∃ j < n, q = f j ∧ ∀ i ≤ j, p (f i) = true := by
  induction n generalizing f with
  | zero => simp
  | succ n ih =>
    rw [range_succ_eq_map, map_cons, map_map, takeWhile_cons]
    split_ifs with hzero
    · rw [mem_cons, ih]
      constructor
      · rintro (rfl | ⟨j, hj, rfl, hall⟩)
        · exact ⟨0, Nat.succ_pos n, rfl, fun i hi => Nat.le_zero.mp hi ▸ hzero⟩
        · refine ⟨j + 1, Nat.succ_lt_succ hj, rfl, fun i hi => ?_⟩
          cases i with
          | zero => exact hzero
          | succ i => exact hall i (Nat.le_of_succ_le_succ hi)
      · rintro ⟨j, hj, rfl, hall⟩
        cases j with
        | zero => exact .inl rfl
        | succ j =>
          exact .inr ⟨j, Nat.lt_of_succ_lt_succ hj, rfl,
            fun i hi => hall (i + 1) (Nat.succ_le_succ hi)⟩
    · simp only [not_mem_nil, false_iff]
      rintro ⟨j, -, -, hall⟩
      exact hzero (hall 0 (Nat.zero_le j))

theorem mem_collectConsecutiveCompleteFollowingMpdus (h : WellFormed rb) (hstart : start < 4096) :
    (rb.collectConsecutiveCompleteFollowingMpdus start)[q]? = some fragments ↔
      rb.buffer[q]? = some fragments ∧ rb.Follows start q := by
  have hmem : q ∈ (followingNumbers start rb.bufferSize).takeWhile
      (fun i => rb.buffer[i]?.any isComplete) ↔ rb.Follows start q := by
    rw [followingNumbers_eq hstart h.size_le, mem_takeWhile_map_range]
    simp only [Follows, complete_iff]
  rw [collectConsecutiveCompleteFollowingMpdus, addWhileComplete_get]
  by_cases hfollows : rb.Follows start q
  · rw [if_pos (hmem.mpr hfollows), and_iff_left hfollows]
  · rw [if_neg fun h => hfollows (hmem.mp h)]
    simp [hfollows]

theorem Follows.complete (h : rb.Follows start q) : rb.Complete q := by
  obtain ⟨j, -, rfl, hall⟩ := h
  exact hall j le_rfl

theorem Due.complete (h : rb.Due start q) : rb.Complete q :=
  h.elim And.left Follows.complete

/-- The numbers are passed up in the order of their distance from the next expected one, which
then is one past the last of them. -/
structure PassesInOrder (rb rb' : ReceiveBuffer) (passed : List ℕ) : Prop where
  wellFormed : WellFormed rb'
  inReach : InReach rb'
  ascending : passed.Pairwise fun a b => rb.ahead a < rb.ahead b
  reach : ∀ q ∈ passed, q < 4096 ∧ rb.ahead q ≤ rb.bufferSize
  next : ∀ q ∈ passed.getLast?, rb'.nextExpectedSequenceNumber = (q + 1) % 4096
  idle : passed = [] → rb.ahead rb'.nextExpectedSequenceNumber ≤ rb.bufferSize

theorem ahead_next (rb : ReceiveBuffer) : rb.ahead rb.nextExpectedSequenceNumber = 0 := by
  rw [ahead, sequenceNumberDistance, Nat.add_sub_cancel_left]

/-- Moving the next expected number up to the complete ones keeps them in reach. -/
theorem inReach_of_advance {t : ℕ} (h : WellFormed rb) (hreach : InReach rb)
    (hsize : rb'.bufferSize = rb.bufferSize)
    (hnext : rb'.nextExpectedSequenceNumber = (rb.nextExpectedSequenceNumber + t) % 4096)
    (hrest : ∀ y, rb'.Complete y → rb.Complete y ∧ t ≤ rb.ahead y) : InReach rb' := by
  intro y hy
  obtain ⟨hy', ht⟩ := hrest y hy
  have hle := hreach y hy'
  have hshift : sequenceNumberDistance rb.nextExpectedSequenceNumber y =
      t + (rb.ahead y - t) := (Nat.add_sub_cancel' ht).symm
  rw [ahead, hnext, hsize, sequenceNumberDistance_shift h.next_lt hshift]
  exact (Nat.sub_le _ _).trans hle

theorem Released.wellFormed (h : WellFormed rb) (hreleased : Released rb rb' numbers) :
    WellFormed rb' := by
  have hsize := hreleased.bufferSize
  have hget : ∀ (q : ℕ) (fragments : Fragments), rb'.buffer[q]? = some fragments →
      rb.buffer[q]? = some fragments := by
    intro q fragments hq
    rw [hreleased.get] at hq
    split_ifs at hq
    exact hq
  refine ⟨hsize ▸ h.size_pos, hsize ▸ h.size_le, ?_, ?_, ?_, ?_⟩
  · rw [hreleased.next]
    cases numbers.getLast? with
    | none => exact h.next_lt
    | some q => exact Nat.mod_lt _ (by decide)
  · rw [hsize]
    exact hreleased.length_le.trans h.length_le
  · exact fun q fragments hq => h.number q fragments (hget q fragments hq)
  · exact fun q fragments hq => h.first q fragments (hget q fragments hq)

theorem Released.passesInOrder (h : WellFormed rb) (hreach : InReach rb)
    (hreleased : Released rb rb' numbers) (hcomplete : ∀ q ∈ numbers, rb.Complete q)
    (hascending : numbers.Pairwise fun a b => rb.ahead a < rb.ahead b)
    (hrest : ∀ q ∈ numbers, ∀ y, rb.Complete y → y ∉ numbers → rb.ahead q < rb.ahead y) :
    PassesInOrder rb rb' numbers := by
  have hleft : ∀ y, rb'.Complete y → rb.Complete y ∧ y ∉ numbers := by
    rintro y ⟨fragments, hget, hy⟩
    rw [hreleased.get] at hget
    split_ifs at hget with hmem
    exact ⟨⟨fragments, hget, hy⟩, hmem⟩
  refine ⟨hreleased.wellFormed h, ?_, hascending, ?_, ?_, ?_⟩
  · cases hlast : numbers.getLast? with
    | none =>
      apply inReach_of_advance (t := 0) h hreach hreleased.bufferSize
      · rw [hreleased.next, hlast]
        exact (Nat.mod_eq_of_lt h.next_lt).symm
      · exact fun y hy => ⟨(hleft y hy).1, Nat.zero_le _⟩
    | some q =>
      have hq := mem_of_getLast? hlast
      apply inReach_of_advance (t := rb.ahead q + 1) h hreach hreleased.bufferSize
      · have hplace := add_sequenceNumberDistance h.next_lt (h.complete_lt (hcomplete q hq))
        rw [hreleased.next, hlast]
        show (q + 1) % 4096 = (rb.nextExpectedSequenceNumber +
          (sequenceNumberDistance rb.nextExpectedSequenceNumber q + 1)) % 4096
        omega
      · exact fun y hy => ⟨(hleft y hy).1, hrest q hq y (hleft y hy).1 (hleft y hy).2⟩
  · exact fun q hq => ⟨h.complete_lt (hcomplete q hq), hreach q (hcomplete q hq)⟩
  · intro q hq
    rw [hreleased.next, Option.mem_def.mp hq]
    rfl
  · rintro rfl
    rw [hreleased.next]
    exact rb.ahead_next.trans_le (Nat.zero_le _)

/-- Among complete numbers, the order of `isSequenceNumberLess` from a number within the window
on is that of the distances. -/
theorem rank_le_iff (hinside : rb.ahead q < rb.bufferSize) (hsize : rb.bufferSize ≤ 64) {y : ℕ}
    (hy : rb.ahead y ≤ rb.bufferSize) :
    rank rb.nextExpectedSequenceNumber rb.bufferSize q ≤
        rank rb.nextExpectedSequenceNumber rb.bufferSize y ↔
      rb.ahead q ≤ rb.ahead y ∧ rb.ahead y < rb.bufferSize := by
  rw [rank, rank]
  simp only [ahead] at *
  split_ifs <;> omega

/-- Inserting a frame leaves the order as it is. -/
theorem PassesInOrder.of_insert {inserted : ReceiveBuffer} {passed : List ℕ}
    (h : PassesInOrder inserted rb' passed) (hsize : inserted.bufferSize = rb.bufferSize)
    (hnext : inserted.nextExpectedSequenceNumber = rb.nextExpectedSequenceNumber) :
    PassesInOrder rb rb' passed := by
  have hahead : inserted.ahead = rb.ahead := by
    funext q
    rw [ahead, ahead, hnext]
  refine ⟨h.wellFormed, h.inReach, ?_, ?_, h.next, ?_⟩
  · exact hahead ▸ h.ascending
  · exact hahead ▸ hsize ▸ h.reach
  · exact hahead ▸ hsize ▸ h.idle

/-- The earliest of the complete MSDUs. -/
def Earliest (rb : ReceiveBuffer) (e : ℕ) : Prop :=
  rb.Complete e ∧ ∀ q, rb.Complete q →
    ¬ isSequenceNumberLess q e rb.nextExpectedSequenceNumber rb.bufferSize = true

theorem Earliest.unique (h : WellFormed rb) {e e' : ℕ} (he : rb.Earliest e)
    (he' : rb.Earliest e') : e = e' := by
  have hle := he.2 e' he'.1
  have hge := he'.2 e he.1
  rw [isSequenceNumberLess_iff] at hle hge
  have hlt := sequenceNumberDistance_lt rb.nextExpectedSequenceNumber e
  have hlt' := sequenceNumberDistance_lt rb.nextExpectedSequenceNumber e'
  apply sequenceNumberDistance_inj h.next_lt (h.complete_lt he.1) (h.complete_lt he'.1)
  simp only [rank] at hle hge
  split_ifs at hle hge <;> omega

/-- The buffer lets this MSDU go. -/
def GoesUp (rb : ReceiveBuffer) (e : ℕ) : Prop :=
  rb.Earliest e ∧ (rb.length = rb.bufferSize ∨ e = rb.nextExpectedSequenceNumber)

/-- The buffer passes up the earliest complete MSDU, or keeps it. -/
theorem passUpEarliest_cases (h : WellFormed rb) :
    (∃ e fragments rb', rb.GoesUp e ∧ rb.buffer[e]? = some fragments ∧
      rb.passUpEarliest = .ok (rb', (∅ : ReorderBuffer).insert e fragments) ∧
      rb.passedUp e = .ok rb') ∨
    ((∀ e, ¬ rb.GoesUp e) ∧ rb.passUpEarliest = .ok (rb, ∅)) := by
  unfold passUpEarliest
  obtain ⟨hnone, hno⟩ | ⟨e, fragments, hok, hget, hcomplete, hleast⟩ := getEarliest_spec h
  · exact .inr ⟨fun e he => hno e he.1.1, by rw [hnone]; rfl⟩
  · have hearliest : rb.Earliest e := by
      refine ⟨⟨fragments, hget, hcomplete⟩, fun q hq => ?_⟩
      rw [isSequenceNumberLess_iff]
      exact (hleast q hq).not_gt
    have hfull : rb.isFull = .ok (decide (rb.length = rb.bufferSize)) := by
      rw [isFull, assert, if_pos (decide_eq_true h.length_le)]
      rfl
    have hfirst := h.first e fragments hget
    cases fragments with
    | nil => cases hfirst
    | cons fragment rest =>
      obtain rfl : fragment.sequenceNumber = e := Except.ok.inj hfirst
      simp only [hok, hfull, ok_bind, decide_eq_true_eq]
      split_ifs with hpass
      · obtain ⟨rb', hup, -⟩ := passedUp_spec hget
        exact .inl ⟨_, _, rb', ⟨hearliest, hpass⟩, hget, by rw [hup]; rfl, hup⟩
      · refine .inr ⟨fun e he => hpass ?_, rfl⟩
        obtain rfl := he.1.unique h hearliest
        exact he.2

/-- An MSDU in the slot behind the window is the only complete one when a full buffer lets it
go. -/
def LoneBehind (rb : ReceiveBuffer) : Prop :=
  rb.length = rb.bufferSize → ∀ z, rb.Complete z → rb.ahead z = rb.bufferSize →
    ∀ y, rb.Complete y → y = z

theorem passUpEarliest_spec (h : WellFormed rb) (hreach : InReach rb) (hlone : rb.LoneBehind) :
    ∃ rb' mpdus, rb.passUpEarliest = .ok (rb', mpdus) ∧ PassesInOrder rb rb' (numbersOf mpdus) := by
  have hidle : PassesInOrder rb rb (numbersOf ∅) :=
    (Released.refl rb).passesInOrder h hreach (fun _ hq => absurd hq not_mem_nil) .nil
      (fun _ hq => absurd hq not_mem_nil)
  obtain ⟨e, fragments, rb', hgoes, hget, hok, hup⟩ | ⟨-, hok⟩ := passUpEarliest_cases h
  · obtain ⟨rb'', hup', hreleased⟩ := passedUp_spec hget
    obtain rfl := Except.ok.inj (hup.symm.trans hup')
    refine ⟨rb', _, hok, ?_⟩
    apply hreleased.passesInOrder h hreach
    · intro q hq
      obtain rfl := mem_singleton.mp hq
      exact hgoes.1.1
    · exact pairwise_singleton _ _
    · intro q hq y hy hne
      obtain rfl := mem_singleton.mp hq
      rw [mem_singleton] at hne
      have hinside : rb.ahead q < rb.bufferSize := by
        refine (hreach q hgoes.1.1).lt_of_ne fun hbehind => ?_
        obtain hlength | hnext := hgoes.2
        · exact hne (hlone hlength q hgoes.1.1 hbehind y hy)
        · rw [hnext, ahead_next] at hbehind
          exact h.size_pos.ne hbehind
      have hnot := hgoes.1.2 y hy
      rw [isSequenceNumberLess_iff, not_lt] at hnot
      have hle := ((rank_le_iff hinside h.size_le (hreach y hy)).mp hnot).1
      refine hle.lt_of_ne fun heq => hne ?_
      exact (sequenceNumberDistance_inj h.next_lt (h.complete_lt hgoes.1.1) (h.complete_lt hy)
        heq).symm
  · exact ⟨rb, ∅, hok, hidle⟩

/-- The numbers that are due do not lie on both sides of the wrap to 0, and a complete MSDU in
the slot behind the window does not overtake those that are not due. -/
structure OrderlyRequest (rb : ReceiveBuffer) (start : ℕ) : Prop where
  oneSide : ∀ a b, rb.Due start a → rb.Due start b →
    rb.nextExpectedSequenceNumber ≤ a → rb.nextExpectedSequenceNumber ≤ b
  behind : ∀ z, rb.Complete z → rb.ahead z = rb.bufferSize → ∀ y, rb.Complete y → y ≠ z →
    rb.ahead y < rb.ahead start ∧ rb.ahead start < rb.bufferSize

/-- An MSDU in the slot behind the window finds all others before the starting number. -/
theorem OrderlyRequest.overtaken (h : OrderlyRequest rb start) (z : ℕ) (hz : rb.Complete z)
    (hbehind : rb.ahead z = rb.bufferSize) (y : ℕ) (hy : rb.Complete y) (hne : y ≠ z) :
    rb.ahead y < rb.ahead start :=
  (h.behind z hz hbehind y hy hne).1

section

variable (h : WellFormed rb) (hreach : InReach rb)

include h hreach

/-- A number precedes the starting one when it is not as far ahead, or when it is behind the
window. -/
theorem precedes_iff (hq : rb.Complete q) :
    isSequenceNumberLess q start rb.nextExpectedSequenceNumber rb.bufferSize = true ↔
      (rb.ahead start < rb.bufferSize ∧ rb.ahead q < rb.ahead start) ∨
        (rb.ahead q = rb.bufferSize ∧ rb.ahead start ≠ rb.bufferSize) := by
  have hle := hreach q hq
  have hsize := h.size_le
  have hstart_lt := sequenceNumberDistance_lt rb.nextExpectedSequenceNumber start
  rw [isSequenceNumberLess_iff, rank, rank]
  simp only [ahead] at *
  split_ifs <;> omega

theorem Follows.ahead_eq (hstart : start < 4096) (hfollows : rb.Follows start q) :
    ∃ j < rb.bufferSize, q = (start + j) % 4096 ∧ rb.ahead q = rb.ahead start + j ∧
      rb.Complete start ∧ ∀ i ≤ j, rb.Complete ((start + i) % 4096) := by
  obtain ⟨j, hj, rfl, hall⟩ := hfollows
  have hzero := hall 0 (Nat.zero_le j)
  rw [Nat.add_zero, Nat.mod_eq_of_lt hstart] at hzero
  refine ⟨j, hj, rfl, ?_, hzero, hall⟩
  have hle := hreach start hzero
  have hsize := h.size_le
  have hnext := h.next_lt
  simp only [ahead, sequenceNumberDistance] at *
  omega

/-- What precedes the starting number is not as far ahead as what follows it. -/
theorem ahead_lt_of_precedes_of_follows
    (hbehind : ∀ z, rb.Complete z → rb.ahead z = rb.bufferSize → ∀ y, rb.Complete y → y ≠ z →
      rb.ahead y < rb.ahead start) (hstart : start < 4096) {a b : ℕ} (ha : rb.Complete a)
    (hless : isSequenceNumberLess a start rb.nextExpectedSequenceNumber rb.bufferSize = true)
    (hb : rb.Follows start b) : rb.ahead a < rb.ahead b := by
  obtain ⟨j, -, -, hahead, hcomplete, -⟩ := hb.ahead_eq h hreach hstart
  rw [hahead]
  obtain ⟨-, hlt⟩ | ⟨hslot, hne⟩ := (precedes_iff h hreach ha).mp hless
  · exact Nat.lt_add_right j hlt
  · have hstart_ne : start ≠ a := by
      rintro rfl
      exact hne hslot
    exact absurd (hbehind a ha hslot start hcomplete hstart_ne) (lt_irrefl _)

/-- What is not due is further ahead than all that is. -/
theorem ahead_lt_of_due
    (horderly : OrderlyRequest rb start) (hstart : start < 4096) (hq : rb.Due start q) {y : ℕ}
    (hy : rb.Complete y) (hnot : ¬ rb.Due start y) : rb.ahead q < rb.ahead y := by
  have hkept : ¬ ((rb.ahead start < rb.bufferSize ∧ rb.ahead y < rb.ahead start) ∨
      (rb.ahead y = rb.bufferSize ∧ rb.ahead start ≠ rb.bufferSize)) := by
    intro hless
    exact hnot (.inl ⟨hy, (precedes_iff h hreach hy).mpr hless⟩)
  have hyle := hreach y hy
  have hstay : ∀ z, rb.Complete z → rb.Due start z → rb.ahead z ≠ rb.bufferSize := by
    intro z hz hdue hbehind
    have hne : y ≠ z := by
      rintro rfl
      exact hnot hdue
    exact hkept (.inl (horderly.behind z hz hbehind y hy hne).symm)
  obtain ⟨hcomplete, hless⟩ | hfollows := hq
  · obtain ⟨hin, hlt⟩ | ⟨hbehind, -⟩ := (precedes_iff h hreach hcomplete).mp hless
    · omega
    · exact absurd hbehind (hstay q hcomplete (.inl ⟨hcomplete, hless⟩))
  · obtain ⟨j, hj, -, hahead, hzero, hall⟩ := hfollows.ahead_eq h hreach hstart
    have hstart_ne : rb.ahead start ≠ rb.bufferSize := by
      apply hstay start hzero
      refine .inr ⟨0, h.size_pos, (Nat.mod_eq_of_lt hstart).symm, fun i hi => ?_⟩
      exact hall i (hi.trans (Nat.zero_le j))
    have hstart_le := hreach start hzero
    by_contra hge
    -- the number lies between the starting one and `q`, so it follows, too
    refine hnot (.inr ⟨rb.ahead y - rb.ahead start, by omega, ?_, fun i hi => hall i (by omega)⟩)
    have hplace_start := add_sequenceNumberDistance h.next_lt hstart
    have hplace_y := add_sequenceNumberDistance h.next_lt (h.complete_lt hy)
    simp only [ahead] at *
    omega

end

theorem mem_numbersOf_foldl_insertIfNew :
    q ∈ numbersOf (entries.foldl (fun mpdus it => mpdus.insertIfNew it.1 it.2) mpdus) ↔
      q ∈ numbersOf mpdus ∨ q ∈ entries.map Prod.fst := by
  induction entries generalizing mpdus with
  | nil => simp
  | cons entry entries ih =>
    have hinsert : q ∈ numbersOf (mpdus.insertIfNew entry.1 entry.2) ↔
        q = entry.1 ∨ q ∈ numbersOf mpdus := by
      simp only [mem_numbersOf, ← Option.isSome_iff_exists,
        ← Std.TreeMap.mem_iff_isSome_getElem?, Std.TreeMap.mem_insertIfNew,
        Std.compare_eq_iff_eq, eq_comm (a := q)]
    rw [foldl_cons, ih, hinsert, map_cons, mem_cons]
    tauto

/-- On one side of the wrap, the order of the map is that of the distances. -/
theorem ascending_of_oneSide (h : WellFormed rb) (hsorted : numbers.Pairwise (· < ·))
    (hlt : ∀ q ∈ numbers, q < 4096) (hside : ∀ a ∈ numbers, ∀ b ∈ numbers,
      rb.nextExpectedSequenceNumber ≤ a → rb.nextExpectedSequenceNumber ≤ b) :
    numbers.Pairwise fun a b => rb.ahead a < rb.ahead b := by
  refine hsorted.imp_of_mem fun {a b} ha hb hab => ?_
  have hb_lt := hlt b hb
  have hnext := h.next_lt
  have hforward := hside a ha b hb
  have hback := hside b hb a ha
  simp only [ahead, sequenceNumberDistance]
  omega

/-- A collection that the buffer releases is empty when it counts no element. -/
theorem numbersOf_eq_nil : numbersOf mpdus = [] ↔ mpdus.size = 0 := by
  rw [numbersOf, map_eq_nil_iff, ← length_eq_zero_iff, Std.TreeMap.length_toList]

theorem mem_numbersOf_preceding :
    q ∈ numbersOf (rb.collectCompletePrecedingMpdus start) ↔ rb.Complete q ∧
      isSequenceNumberLess q start rb.nextExpectedSequenceNumber rb.bufferSize = true := by
  simp only [mem_numbersOf, mem_collectCompletePrecedingMpdus, Complete, ← and_assoc,
    exists_and_right]

theorem mem_numbersOf_following (h : WellFormed rb) (hstart : start < 4096) :
    q ∈ numbersOf (rb.collectConsecutiveCompleteFollowingMpdus start) ↔ rb.Follows start q := by
  simp only [mem_numbersOf, mem_collectConsecutiveCompleteFollowingMpdus h hstart, exists_and_right]
  refine ⟨And.right, fun hfollows => ⟨?_, hfollows⟩⟩
  obtain ⟨fragments, hget, -⟩ := hfollows.complete
  exact ⟨fragments, hget⟩

/-- The numbers of a request in the order in which the two collections are released. -/
def requested (rb : ReceiveBuffer) (start : ℕ) : List ℕ :=
  numbersOf (rb.collectCompletePrecedingMpdus start) ++
    numbersOf (rb.collectConsecutiveCompleteFollowingMpdus start)

theorem mem_requested (h : WellFormed rb) (hstart : start < 4096) :
    q ∈ rb.requested start ↔ rb.Due start q := by
  rw [requested, mem_append, mem_numbersOf_preceding, mem_numbersOf_following h hstart, Due]

theorem requested_ascending (h : WellFormed rb) (hreach : InReach rb)
    (horderly : OrderlyRequest rb start) (hstart : start < 4096) :
    (rb.requested start).Pairwise fun a b => rb.ahead a < rb.ahead b := by
  have hdue : ∀ q ∈ rb.requested start, rb.Due start q :=
    fun q hq => (mem_requested h hstart).mp hq
  have hpart : ∀ mpdus : ReorderBuffer, (∀ q ∈ numbersOf mpdus, q ∈ rb.requested start) →
      (numbersOf mpdus).Pairwise fun a b => rb.ahead a < rb.ahead b := by
    intro mpdus hsub
    apply ascending_of_oneSide h (numbersOf_sorted mpdus)
    · exact fun q hq => h.complete_lt (hdue q (hsub q hq)).complete
    · exact fun a ha b hb => horderly.oneSide a b (hdue a (hsub a ha)) (hdue b (hsub b hb))
  rw [requested, pairwise_append]
  refine ⟨hpart _ fun q => mem_append_left _, hpart _ fun q => mem_append_right _, ?_⟩
  intro a ha b hb
  obtain ⟨hcomplete, hless⟩ := mem_numbersOf_preceding.mp ha
  exact ahead_lt_of_precedes_of_follows h hreach horderly.overtaken hstart hcomplete hless
    ((mem_numbersOf_following h hstart).mp hb)

/-- The map that a request returns. -/
def merged (rb : ReceiveBuffer) (start : ℕ) : ReorderBuffer :=
  (rb.collectConsecutiveCompleteFollowingMpdus start).toList.foldl
    (fun mpdus it => mpdus.insertIfNew it.1 it.2) (rb.collectCompletePrecedingMpdus start)

section

variable (h : WellFormed rb)

include h

/-- The returned map holds them in the same order. -/
theorem numbersOf_merged (hreach : InReach rb)
    (horderly : OrderlyRequest rb start) (hstart : start < 4096) :
    numbersOf (rb.merged start) = rb.requested start := by
  have hmem : ∀ q, q ∈ numbersOf (rb.merged start) ↔ q ∈ rb.requested start := by
    intro q
    rw [merged, mem_numbersOf_foldl_insertIfNew, requested, mem_append]
    rfl
  have hascending := requested_ascending h hreach horderly hstart
  have hmerged : (numbersOf (rb.merged start)).Pairwise fun a b => rb.ahead a < rb.ahead b := by
    apply ascending_of_oneSide h (numbersOf_sorted (rb.merged start))
    · intro q hq
      exact h.complete_lt ((mem_requested h hstart).mp ((hmem q).mp hq)).complete
    · intro a ha b hb
      exact horderly.oneSide a b ((mem_requested h hstart).mp ((hmem a).mp ha))
        ((mem_requested h hstart).mp ((hmem b).mp hb))
  have hperm : (numbersOf (rb.merged start)).Perm (rb.requested start) := by
    apply (perm_ext_iff_of_nodup ?_ ?_).mpr hmem
    · exact (numbersOf_sorted (rb.merged start)).imp fun hlt => hlt.ne
    · exact hascending.imp fun hlt heq => (heq ▸ hlt).false
  exact hperm.eq_of_pairwise (fun a b _ _ hab hba => absurd hab hba.not_gt) hmerged hascending

/-- Both collections are released, whatever the next expected number is. -/
theorem release_requested (hreach : InReach rb)
    (hbehind : ∀ z, rb.Complete z → rb.ahead z = rb.bufferSize → ∀ y, rb.Complete y → y ≠ z →
      rb.ahead y < rb.ahead start) (hstart : start < 4096) (moved : ReceiveBuffer)
    (hbuffer : moved.buffer = rb.buffer) :
    ∃ rb₁ rb₂, moved.releaseReceiveBuffer (rb.collectCompletePrecedingMpdus start) = .ok rb₁ ∧
      rb₁.releaseReceiveBuffer (rb.collectConsecutiveCompleteFollowingMpdus start) = .ok rb₂ ∧
      Released moved rb₂ (rb.requested start) := by
  have hpreceding : ∀ (q : ℕ) (fragments : Fragments),
      (rb.collectCompletePrecedingMpdus start)[q]? = some fragments →
      moved.buffer[q]? = some fragments := by
    intro q fragments hget
    rw [hbuffer]
    exact (mem_collectCompletePrecedingMpdus.mp hget).1
  obtain ⟨rb₁, hok₁, hreleased₁⟩ := releaseReceiveBuffer_spec hpreceding
  have hfollowing : ∀ (q : ℕ) (fragments : Fragments),
      (rb.collectConsecutiveCompleteFollowingMpdus start)[q]? = some fragments →
      rb₁.buffer[q]? = some fragments := by
    intro q fragments hget
    obtain ⟨hget, hfollows⟩ := (mem_collectConsecutiveCompleteFollowingMpdus h hstart).mp hget
    have hother : q ∉ numbersOf (rb.collectCompletePrecedingMpdus start) := by
      intro hmem
      obtain ⟨hcomplete, hless⟩ := mem_numbersOf_preceding.mp hmem
      exact (ahead_lt_of_precedes_of_follows h hreach hbehind hstart hcomplete hless
        hfollows).false
    rw [hreleased₁.get, if_neg hother, hbuffer]
    exact hget
  obtain ⟨rb₂, hok₂, hreleased₂⟩ := releaseReceiveBuffer_spec hfollowing
  exact ⟨rb₁, rb₂, hok₁, hok₂, hreleased₁.trans hreleased₂⟩

/-- A starting number that is newer than the next expected one lies in the window. -/
theorem ahead_lt_of_newer (hless : isSequenceNumberLess rb.nextExpectedSequenceNumber start
      rb.nextExpectedSequenceNumber rb.bufferSize = true) : rb.ahead start < rb.bufferSize := by
  have hlt := sequenceNumberDistance_lt rb.nextExpectedSequenceNumber start
  have hpos := h.size_pos
  have hahead_next := rb.ahead_next
  rw [isSequenceNumberLess_iff, rank, rank] at hless
  simp only [ahead] at *
  split_ifs at hless <;> omega

/-- A request that passes nothing up moves the next expected number to where it starts. -/
theorem passesInOrder_of_idle (hreach : InReach rb) (hstart : start < 4096)
    (hempty : rb.requested start = [])
    (hless : isSequenceNumberLess rb.nextExpectedSequenceNumber start
      rb.nextExpectedSequenceNumber rb.bufferSize = true)
    (hreleased : Released { rb with nextExpectedSequenceNumber := start } rb'
      (rb.requested start)) :
    PassesInOrder rb rb' (rb.requested start) := by
  rw [hempty] at hreleased ⊢
  have hnext : rb'.nextExpectedSequenceNumber = start := hreleased.next
  have hplace := add_sequenceNumberDistance h.next_lt hstart
  have hstart_lt := ahead_lt_of_newer h hless
  have hkept : ∀ y, rb.Complete y → rb.ahead start ≤ rb.ahead y := by
    intro y hy
    have hnot : y ∉ rb.requested start := hempty ▸ not_mem_nil
    rw [mem_requested h hstart] at hnot
    by_contra hlt
    refine hnot (.inl ⟨hy, (precedes_iff h hreach hy).mpr ?_⟩)
    exact .inl ⟨hstart_lt, Nat.lt_of_not_le hlt⟩
  have hmoved : WellFormed { rb with nextExpectedSequenceNumber := start } :=
    ⟨h.size_pos, h.size_le, hstart, h.length_le, h.number, h.first⟩
  refine ⟨hreleased.wellFormed hmoved, ?_, .nil, fun q hq => absurd hq not_mem_nil, ?_, ?_⟩
  · apply inReach_of_advance h hreach hreleased.bufferSize (hnext.trans hplace.symm)
    rintro y ⟨fragments, hget, hy⟩
    rw [hreleased.get, if_neg not_mem_nil] at hget
    exact ⟨⟨fragments, hget, hy⟩, hkept y ⟨fragments, hget, hy⟩⟩
  · exact fun q hq => nomatch hq
  · intro _
    rw [hnext]
    exact hstart_lt.le

/-- A request releases what is due. The next expected number moves to the starting one first, if
nothing is due and that is newer. -/
theorem passUpRequested_released (hreach : InReach rb)
    (hbehind : ∀ z, rb.Complete z → rb.ahead z = rb.bufferSize → ∀ y, rb.Complete y → y ≠ z →
      rb.ahead y < rb.ahead start) (hstart : start < 4096) :
    ∃ next rb', rb.passUpRequested start = .ok (rb', rb.merged start) ∧
      Released { rb with nextExpectedSequenceNumber := next } rb' (rb.requested start) ∧
      (next = rb.nextExpectedSequenceNumber ∨ next = start ∧ rb.requested start = [] ∧
        isSequenceNumberLess rb.nextExpectedSequenceNumber start rb.nextExpectedSequenceNumber
          rb.bufferSize = true) := by
  have hrelease := release_requested h hreach hbehind hstart
  unfold passUpRequested
  dsimp only
  split_ifs with hidle
  · obtain ⟨hnone, hless⟩ := hidle
    have hempty : rb.requested start = [] := by
      rw [requested, append_eq_nil_iff, numbersOf_eq_nil, numbersOf_eq_nil]
      exact Nat.add_eq_zero_iff.mp hnone
    obtain ⟨rb₁, rb₂, hok₁, hok₂, hreleased⟩ :=
      hrelease { rb with nextExpectedSequenceNumber := start } rfl
    refine ⟨start, rb₂, ?_, hreleased, .inr ⟨rfl, hempty, hless⟩⟩
    rw [hok₁, ok_bind, hok₂]
    rfl
  · obtain ⟨rb₁, rb₂, hok₁, hok₂, hreleased⟩ := hrelease rb rfl
    refine ⟨_, rb₂, ?_, hreleased, .inl rfl⟩
    rw [hok₁, ok_bind, hok₂]
    rfl

theorem passUpRequested_spec (hreach : InReach rb)
    (horderly : OrderlyRequest rb start) (hstart : start < 4096) :
    ∃ rb' mpdus, rb.passUpRequested start = .ok (rb', mpdus) ∧
      PassesInOrder rb rb' (numbersOf mpdus) := by
  obtain ⟨next, rb', hok, hreleased, hnext⟩ :=
    passUpRequested_released h hreach horderly.overtaken hstart
  refine ⟨rb', _, hok, ?_⟩
  rw [numbersOf_merged h hreach horderly hstart]
  obtain rfl | ⟨rfl, hempty, hless⟩ := hnext
  · apply hreleased.passesInOrder h hreach
    · exact fun q hq => ((mem_requested h hstart).mp hq).complete
    · exact requested_ascending h hreach horderly hstart
    · intro q hq y hy hnot
      exact ahead_lt_of_due h hreach horderly hstart ((mem_requested h hstart).mp hq) hy
        fun hdue => hnot ((mem_requested h hstart).mpr hdue)
  · exact passesInOrder_of_idle h hreach hstart hempty hless hreleased

end

instance : Decidable (Complete rb q) := decidable_of_iff _ complete_iff.symm

instance : Decidable (Follows rb start q) := by
  unfold Follows
  infer_instance

instance : Decidable (Due rb start q) := by
  unfold Due
  infer_instance

theorem Complete.mem (h : rb.Complete q) : q ∈ numbersOf rb.buffer := by
  obtain ⟨fragments, hget, -⟩ := h
  exact mem_numbersOf.mpr ⟨fragments, hget⟩

instance : Decidable (LoneBehind rb) :=
  decidable_of_iff (rb.length = rb.bufferSize → ∀ z ∈ numbersOf rb.buffer, rb.Complete z →
      rb.ahead z = rb.bufferSize → ∀ y ∈ numbersOf rb.buffer, rb.Complete y → y = z)
    ⟨fun h hfull z hz hbehind y hy => h hfull z hz.mem hz hbehind y hy.mem hy,
      fun h hfull z _ hz hbehind y _ hy => h hfull z hz hbehind y hy⟩

set_option synthInstance.maxSize 400 in
instance : Decidable (OrderlyRequest rb start) :=
  decidable_of_iff
    ((∀ a ∈ numbersOf rb.buffer, ∀ b ∈ numbersOf rb.buffer, rb.Due start a → rb.Due start b →
        rb.nextExpectedSequenceNumber ≤ a → rb.nextExpectedSequenceNumber ≤ b) ∧
      ∀ z ∈ numbersOf rb.buffer, rb.Complete z → rb.ahead z = rb.bufferSize →
        ∀ y ∈ numbersOf rb.buffer, rb.Complete y → y ≠ z →
          rb.ahead y < rb.ahead start ∧ rb.ahead start < rb.bufferSize)
    ⟨fun h => ⟨fun a b ha hb => h.1 a ha.complete.mem b hb.complete.mem ha hb,
        fun z hz hbehind y hy => h.2 z hz.mem hz hbehind y hy.mem hy⟩,
      fun h => ⟨fun a _ b _ ha hb => h.oneSide a b ha hb,
        fun z _ hz hbehind y _ hy => h.behind z hz hbehind y hy⟩⟩

end ReceiveBuffer

end Inet.Ieee80211
