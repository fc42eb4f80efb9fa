import Inet.Ieee80211.Frame

/-!
# Sequence numbers of a QoS station

`QoSSequenceNumberAssignment` numbers the frames that a station sends. Unicast QoS data frames are
counted for each receiver and TID. All other frames get their numbers from one counter, which
moves on only when the receiver has got its value already.

Frames of one stream, which is a receiver and TID or a receiver of the shared counter, have the
same number only if thousands of frames have been numbered in between (`Numbered.far_apart`).
-/

namespace Inet.Ieee80211

/-- The kind of a frame: `Ieee80211ManagementFrame`, or `Ieee80211DataFrame` with its TID;
`withQos` says whether `getType()` is `ST_DATA_WITH_QOS`. -/
inductive FrameKind where
  | management
  | data (withQos : Bool) (tid : ℕ)
deriving DecidableEq

/-- The frame is a management frame or a QoS data frame. -/
def FrameKind.isManagementOrQos : FrameKind → Bool
  | .management => true
  | .data withQos _ => withQos

structure Ieee80211DataOrMgmtFrame where
  receiverAddress : ℕ
  transmitterAddress : ℕ
  kind : FrameKind
  sequenceNumber : ℕ := 0
  fragmentNumber : ℕ := 0
  retry : Bool := false

namespace QoSSequenceNumberAssignment

/-- `TIME_PRIORITY` is left out: the flag that selects it is the constant `false`. -/
inductive CacheType where
  | SHARED
  | DATA
deriving DecidableEq

end QoSSequenceNumberAssignment

structure QoSSequenceNumberAssignment where
  /-- The last sent sequence numbers for each receiver and TID. -/
  lastSentSeqNums : Std.TreeMap (ℕ ×ₗ ℕ) ℕ := ∅
  /-- The last sent sequence numbers for each receiver. -/
  lastSentSharedSeqNums : Std.TreeMap ℕ ℕ := ∅
  lastSentSharedCounterSeqNum : ℕ := 0

namespace QoSSequenceNumberAssignment

def getCacheType (frame : Ieee80211DataOrMgmtFrame) (incoming : Bool) : CacheType :=
  let address := if incoming then frame.transmitterAddress else frame.receiverAddress
  match frame.kind with
  | .data true _ => if isMulticast address then .SHARED else .DATA
  | _ => .SHARED

def assignSharedSequenceNumber (assignment : QoSSequenceNumberAssignment) (address : ℕ) :
    QoSSequenceNumberAssignment × ℕ :=
  match assignment.lastSentSharedSeqNums[address]? with
  | none =>
    let seqNum := assignment.lastSentSharedCounterSeqNum
    ({ assignment with
      lastSentSharedSeqNums := assignment.lastSentSharedSeqNums.insert address seqNum }, seqNum)
  | some last =>
    -- make it different from the last sequence number sent to that receiver
    let seqNum :=
      if last = assignment.lastSentSharedCounterSeqNum then
        (assignment.lastSentSharedCounterSeqNum + 1) % 4096
      else assignment.lastSentSharedCounterSeqNum
    ({ assignment with
      lastSentSharedSeqNums := assignment.lastSentSharedSeqNums.insert address seqNum
      lastSentSharedCounterSeqNum := seqNum }, seqNum)

def assignDataSequenceNumber (assignment : QoSSequenceNumberAssignment) (address tid : ℕ) :
    QoSSequenceNumberAssignment × ℕ :=
  let key := toLex (address, tid)
  let seqNum :=
    match assignment.lastSentSeqNums[key]? with
    | none => 0
    | some last => (last + 1) % 4096
  ({ assignment with lastSentSeqNums := assignment.lastSentSeqNums.insert key seqNum }, seqNum)

def assignSequenceNumber (assignment : QoSSequenceNumberAssignment)
    (frame : Ieee80211DataOrMgmtFrame) :
    QoSSequenceNumberAssignment × Ieee80211DataOrMgmtFrame :=
  let (assignment, sequenceNumber) :=
    match getCacheType frame false, frame.kind with
    | .DATA, .data _ tid => assignment.assignDataSequenceNumber frame.receiverAddress tid
    | _, _ => assignment.assignSharedSequenceNumber frame.receiverAddress
  (assignment, { frame with sequenceNumber })

/-- What a frame is counted with: its receiver and TID, or its receiver alone. -/
def stream (frame : Ieee80211DataOrMgmtFrame) : ℕ × Option ℕ :=
  match getCacheType frame false, frame.kind with
  | .DATA, .data _ tid => (frame.receiverAddress, some tid)
  | _, _ => (frame.receiverAddress, none)

/-- The last number of a stream. -/
def last (assignment : QoSSequenceNumberAssignment) : ℕ × Option ℕ → Option ℕ
  | (address, some tid) => assignment.lastSentSeqNums[toLex (address, tid)]?
  | (address, none) => assignment.lastSentSharedSeqNums[address]?

/-- The number that the next frame of a stream gets, and the shared counter behind it. -/
def next (assignment : QoSSequenceNumberAssignment) (k : ℕ × Option ℕ) : ℕ × ℕ :=
  match k.2, assignment.last k with
  | some _, none => (0, assignment.lastSentSharedCounterSeqNum)
  | some _, some last => ((last + 1) % 4096, assignment.lastSentSharedCounterSeqNum)
  | none, none =>
    (assignment.lastSentSharedCounterSeqNum, assignment.lastSentSharedCounterSeqNum)
  | none, some last =>
    let seqNum :=
      if last = assignment.lastSentSharedCounterSeqNum then
        (assignment.lastSentSharedCounterSeqNum + 1) % 4096
      else assignment.lastSentSharedCounterSeqNum
    (seqNum, seqNum)

theorem assignSharedSequenceNumber_spec (assignment : QoSSequenceNumberAssignment) (address : ℕ) :
    ∃ assignment', assignment.assignSharedSequenceNumber address =
        (assignment', (assignment.next (address, none)).1) ∧
      assignment'.lastSentSharedCounterSeqNum = (assignment.next (address, none)).2 ∧
      ∀ k, assignment'.last k = if k = (address, none) then
        some (assignment.next (address, none)).1 else assignment.last k := by
  have hinsert : ∀ (seqNum : ℕ) (k : ℕ × Option ℕ),
      last { assignment with
        lastSentSharedSeqNums := assignment.lastSentSharedSeqNums.insert address seqNum } k =
        if k = (address, none) then some seqNum else assignment.last k := by
    rintro seqNum ⟨address', _ | tid⟩
    · simp only [last, Std.TreeMap.getElem?_insert, Std.compare_eq_iff_eq, Prod.mk.injEq, and_true]
      simp only [eq_comm]
    · simp [last]
  rw [assignSharedSequenceNumber]
  cases hlast : assignment.lastSentSharedSeqNums[address]? with
  | none =>
    have hnext : assignment.next (address, none) = (assignment.lastSentSharedCounterSeqNum,
        assignment.lastSentSharedCounterSeqNum) := by
      simp only [next, last, hlast]
    rw [hnext]
    exact ⟨_, rfl, rfl, hinsert _⟩
  | some seqNum =>
    have hnext : assignment.next (address, none) =
        (if seqNum = assignment.lastSentSharedCounterSeqNum then
            (assignment.lastSentSharedCounterSeqNum + 1) % 4096
          else assignment.lastSentSharedCounterSeqNum,
        if seqNum = assignment.lastSentSharedCounterSeqNum then
            (assignment.lastSentSharedCounterSeqNum + 1) % 4096
          else assignment.lastSentSharedCounterSeqNum) := by
      simp only [next, last, hlast]
    rw [hnext]
    exact ⟨_, rfl, rfl, hinsert _⟩

theorem assignDataSequenceNumber_spec (assignment : QoSSequenceNumberAssignment) (address tid : ℕ) :
    ∃ assignment', assignment.assignDataSequenceNumber address tid =
        (assignment', (assignment.next (address, some tid)).1) ∧
      assignment'.lastSentSharedCounterSeqNum = (assignment.next (address, some tid)).2 ∧
      ∀ k, assignment'.last k = if k = (address, some tid) then
        some (assignment.next (address, some tid)).1 else assignment.last k := by
  have hinsert : ∀ (seqNum : ℕ) (k : ℕ × Option ℕ),
      last { assignment with
        lastSentSeqNums := assignment.lastSentSeqNums.insert (toLex (address, tid)) seqNum } k =
        if k = (address, some tid) then some seqNum else assignment.last k := by
    rintro seqNum ⟨address', _ | tid'⟩
    · simp [last]
    · simp only [last, Std.TreeMap.getElem?_insert, Std.compare_eq_iff_eq, toLex_inj,
        Prod.mk.injEq, Option.some.injEq]
      simp only [eq_comm]
  rw [assignDataSequenceNumber]
  cases hlast : assignment.lastSentSeqNums[toLex (address, tid)]? with
  | none =>
    have hnext : assignment.next (address, some tid) =
        (0, assignment.lastSentSharedCounterSeqNum) := by
      simp only [next, last, hlast]
    rw [hnext]
    exact ⟨_, rfl, rfl, hinsert _⟩
  | some seqNum =>
    have hnext : assignment.next (address, some tid) =
        ((seqNum + 1) % 4096, assignment.lastSentSharedCounterSeqNum) := by
      simp only [next, last, hlast]
    rw [hnext]
    exact ⟨_, rfl, rfl, hinsert _⟩

/-- What `assignSequenceNumber` does, stream by stream. -/
theorem assignSequenceNumber_spec (assignment : QoSSequenceNumberAssignment)
    (frame : Ieee80211DataOrMgmtFrame) :
    ∃ assignment', assignment.assignSequenceNumber frame =
        (assignment', { frame with sequenceNumber := (assignment.next (stream frame)).1 }) ∧
      assignment'.lastSentSharedCounterSeqNum = (assignment.next (stream frame)).2 ∧
      ∀ k, assignment'.last k = if k = stream frame then some (assignment.next (stream frame)).1
        else assignment.last k := by
  obtain ⟨shared, hshared, hcounter, hlast⟩ :=
    assignment.assignSharedSequenceNumber_spec frame.receiverAddress
  rw [assignSequenceNumber, stream]
  cases getCacheType frame false with
  | SHARED =>
    simp only [hshared]
    exact ⟨shared, rfl, hcounter, hlast⟩
  | DATA =>
    cases frame.kind with
    | management =>
      simp only [hshared]
      exact ⟨shared, rfl, hcounter, hlast⟩
    | data withQos tid =>
      obtain ⟨assignment', hdata, hcounter, hlast⟩ :=
        assignment.assignDataSequenceNumber_spec frame.receiverAddress tid
      simp only [hdata]
      exact ⟨assignment', rfl, hcounter, hlast⟩

/-- The frames that have been numbered, with the place of each in its counter: `pos i` for the
frame at place `i` of the list, and `shared` for the shared counter. -/
structure Numbered (assignment : QoSSequenceNumberAssignment)
    (sent : List Ieee80211DataOrMgmtFrame) (pos : ℕ → ℕ) (shared : ℕ) : Prop where
  counter : assignment.lastSentSharedCounterSeqNum = shared % 4096
  number : ∀ (i : ℕ) f, sent[i]? = some f → f.sequenceNumber = pos i % 4096
  /-- Places of one stream grow, and not faster than frames are numbered. -/
  grows : ∀ (i j : ℕ) f g, i < j → sent[i]? = some f → sent[j]? = some g → stream f = stream g →
    pos i < pos j ∧ pos j ≤ pos i + (j - i)
  shared_le : ∀ (i : ℕ) f, sent[i]? = some f → (stream f).2 = none →
    pos i ≤ shared ∧ shared + i < pos i + sent.length
  fresh : ∀ k, assignment.last k = none → ∀ (i : ℕ) f, sent[i]? = some f → stream f ≠ k
  newest : ∀ k seqNum, assignment.last k = some seqNum → ∃ (i : ℕ) (f : _), sent[i]? = some f ∧
    stream f = k ∧ seqNum = pos i % 4096 ∧ ∀ (j : ℕ) g, sent[j]? = some g → stream g = k → j ≤ i

variable {assignment assignment' : QoSSequenceNumberAssignment}
  {sent : List Ieee80211DataOrMgmtFrame} {frame : Ieee80211DataOrMgmtFrame} {pos : ℕ → ℕ}
  {shared shared' place : ℕ}

theorem Numbered.init : Numbered {} [] (fun _ => 0) 0 where
  counter := rfl
  number := by simp
  grows := by simp
  shared_le := by simp
  fresh := by simp
  newest := by
    rintro ⟨address, _ | tid⟩ seqNum h
    · simp [last] at h
    · simp [last] at h

/-- One frame more, at the place `place` of its counter. -/
theorem Numbered.append (h : Numbered assignment sent pos shared)
    (hlast : ∀ k, assignment'.last k = if k = stream frame then some frame.sequenceNumber
      else assignment.last k)
    (hnumber : frame.sequenceNumber = place % 4096)
    (hcounter : assignment'.lastSentSharedCounterSeqNum = shared' % 4096)
    (hshared : shared ≤ shared' ∧ shared' ≤ shared + 1)
    (hplace : (stream frame).2 = none → place = shared')
    (hgrows : ∀ (i : ℕ) f, sent[i]? = some f → stream f = stream frame →
      pos i < place ∧ place ≤ pos i + (sent.length - i)) :
    Numbered assignment' (sent ++ [frame]) (Function.update pos sent.length place) shared' := by
  have hcases : ∀ {i : ℕ} {f}, (sent ++ [frame])[i]? = some f →
      (i < sent.length ∧ sent[i]? = some f ∧ Function.update pos sent.length place i = pos i) ∨
      (i = sent.length ∧ f = frame ∧ Function.update pos sent.length place i = place) := by
    intro i f hi
    rw [List.getElem?_append] at hi
    split_ifs at hi with hlt
    · exact .inl ⟨hlt, hi, Function.update_of_ne (by omega) _ _⟩
    · rw [List.getElem?_singleton] at hi
      split_ifs at hi with hzero
      obtain rfl : i = sent.length := by omega
      exact .inr ⟨rfl, (Option.some.inj hi).symm, Function.update_self _ _ _⟩
  have hold : ∀ {i : ℕ} {f}, sent[i]? = some f → (sent ++ [frame])[i]? = some f ∧
      Function.update pos sent.length place i = pos i := by
    intro i f hi
    obtain ⟨hlt, -⟩ := List.getElem?_eq_some_iff.mp hi
    exact ⟨(List.getElem?_append_left hlt).trans hi, Function.update_of_ne (by omega) _ _⟩
  refine ⟨hcounter, ?_, ?_, ?_, ?_, ?_⟩
  · intro i f hi
    obtain ⟨-, hi, hpos⟩ | ⟨-, rfl, hpos⟩ := hcases hi
    · rw [hpos, h.number i f hi]
    · rw [hpos, hnumber]
  · intro i j f g hij hi hj hstream
    obtain ⟨hlt, hi', hpos_i⟩ | ⟨rfl, -, -⟩ := hcases hi
    · obtain ⟨-, hj', hpos_j⟩ | ⟨rfl, hg, hpos_j⟩ := hcases hj
      · rw [hpos_i, hpos_j]
        exact h.grows i j f g hij hi' hj' hstream
      · rw [hpos_i, hpos_j]
        exact hgrows i f hi' (hg ▸ hstream)
    · obtain ⟨hlt, -⟩ | ⟨rfl, -⟩ := hcases hj <;> omega
  · intro i f hi hnone
    rw [List.length_append, List.length_singleton]
    obtain ⟨hlt, hi, hpos⟩ | ⟨rfl, rfl, hpos⟩ := hcases hi
    · have := h.shared_le i f hi hnone
      omega
    · have := hplace hnone
      omega
  · intro k hk i f hi
    rw [hlast] at hk
    split_ifs at hk with hframe
    obtain ⟨-, hi, -⟩ | ⟨-, rfl, -⟩ := hcases hi
    · exact h.fresh k hk i f hi
    · exact Ne.symm hframe
  · intro k seqNum hk
    rw [hlast] at hk
    split_ifs at hk with hframe
    · refine ⟨sent.length, frame, by simp, hframe.symm, ?_, fun j g hj _ => ?_⟩
      · rw [Function.update_self, ← hnumber, Option.some.inj hk]
      · obtain ⟨hlt, -⟩ | ⟨rfl, -⟩ := hcases hj <;> omega
    · obtain ⟨i, f, hi, hstream, hseq, hmax⟩ := h.newest k seqNum hk
      refine ⟨i, f, (hold hi).1, hstream, (hold hi).2.symm ▸ hseq, fun j g hj hg => ?_⟩
      obtain ⟨-, hj, -⟩ | ⟨-, rfl, -⟩ := hcases hj
      · exact hmax j g hj hg
      · exact absurd hg.symm hframe

/-- The next number of a stream is at the place `place` of its counter, and the shared counter then
is at `shared'`. -/
structure Places (assignment : QoSSequenceNumberAssignment) (sent : List Ieee80211DataOrMgmtFrame)
    (pos : ℕ → ℕ) (shared : ℕ) (k : ℕ × Option ℕ) (place shared' : ℕ) : Prop where
  number : (assignment.next k).1 = place % 4096
  counter : (assignment.next k).2 = shared' % 4096
  shared_le : shared ≤ shared' ∧ shared' ≤ shared + 1
  place_eq : k.2 = none → place = shared'
  grows : ∀ (i : ℕ) f, sent[i]? = some f → stream f = k →
    pos i < place ∧ place ≤ pos i + (sent.length - i)

section

variable (h : Numbered assignment sent pos shared)

include h

/-- Frames of the shared counter. -/
theorem Numbered.places_shared (address : ℕ) :
    ∃ place shared', Places assignment sent pos shared (address, none) place shared' := by
  cases hl : assignment.last (address, none) with
  | none =>
    have hnext : assignment.next (address, none) = (shared % 4096, shared % 4096) := by
      simp only [next, hl, h.counter]
    exact ⟨shared, shared, by rw [hnext], by rw [hnext], ⟨Nat.le_refl _, by omega⟩, fun _ => rfl,
      fun i f hi hf => absurd hf (h.fresh _ hl i f hi)⟩
  | some seqNum =>
    obtain ⟨i, f, hi, hf, hseq, hmax⟩ := h.newest _ seqNum hl
    have hnone : ∀ (j : ℕ) g, sent[j]? = some g → stream g = (address, none) →
        pos j ≤ pos i ∧ shared + j < pos j + sent.length := by
      intro j g hj hg
      obtain hlt | rfl := Nat.lt_or_eq_of_le (hmax j g hj hg)
      · have := h.grows j i g f hlt hj hi (hg.trans hf.symm)
        exact ⟨by omega, (h.shared_le j g hj (by rw [hg])).2⟩
      · exact ⟨Nat.le_refl _, (h.shared_le j g hj (by rw [hg])).2⟩
    have hle := (h.shared_le i f hi (by rw [hf])).1
    by_cases heq : seqNum = shared % 4096
    · -- the receiver has got the value of the counter, which moves on
      have hnext : assignment.next (address, none) =
          ((shared + 1) % 4096, (shared + 1) % 4096) := by
        simp only [next, hl, h.counter, heq, if_true, Nat.mod_add_mod]
      refine ⟨shared + 1, shared + 1, by rw [hnext], by rw [hnext], ⟨by omega, Nat.le_refl _⟩,
        fun _ => rfl, fun j g hj hg => ?_⟩
      have := hnone j g hj hg
      omega
    · have hnext : assignment.next (address, none) = (shared % 4096, shared % 4096) := by
        simp only [next, hl, h.counter, heq, if_false]
      refine ⟨shared, shared, by rw [hnext], by rw [hnext], ⟨Nat.le_refl _, by omega⟩,
        fun _ => rfl, fun j g hj hg => ?_⟩
      have := hnone j g hj hg
      have hne : pos i ≠ shared := fun h => heq (h ▸ hseq)
      omega

/-- Frames of a receiver and TID. -/
theorem Numbered.places_data (address tid : ℕ) :
    ∃ place, Places assignment sent pos shared (address, some tid) place shared := by
  cases hl : assignment.last (address, some tid) with
  | none =>
    have hnext : assignment.next (address, some tid) = (0, shared % 4096) := by
      simp only [next, hl, h.counter]
    exact ⟨0, by rw [hnext], by rw [hnext], ⟨Nat.le_refl _, by omega⟩,
      (fun hnone => nomatch hnone), fun i f hi hf => absurd hf (h.fresh _ hl i f hi)⟩
  | some seqNum =>
    obtain ⟨i, f, hi, hf, hseq, hmax⟩ := h.newest _ seqNum hl
    have hnext : assignment.next (address, some tid) = ((pos i + 1) % 4096, shared % 4096) := by
      simp only [next, hl, h.counter, hseq, Nat.mod_add_mod]
    refine ⟨pos i + 1, by rw [hnext], by rw [hnext], ⟨Nat.le_refl _, by omega⟩,
      (fun hnone => nomatch hnone), fun j g hj hg => ?_⟩
    obtain ⟨hlt, -⟩ := List.getElem?_eq_some_iff.mp hi
    obtain hlt' | rfl := Nat.lt_or_eq_of_le (hmax j g hj hg)
    · have := h.grows j i g f hlt' hj hi (hg.trans hf.symm)
      omega
    · omega

/-- `assignSequenceNumber` keeps the places. -/
theorem Numbered.assignSequenceNumber (frame : Ieee80211DataOrMgmtFrame) :
    ∃ assignment' frame' pos' shared', assignment.assignSequenceNumber frame =
        (assignment', frame') ∧ frame' = { frame with sequenceNumber := frame'.sequenceNumber } ∧
      Numbered assignment' (sent ++ [frame']) pos' shared' := by
  obtain ⟨assignment', hassign, hcounter, hlast⟩ := assignment.assignSequenceNumber_spec frame
  have hplaces : ∀ k, ∃ place shared', Places assignment sent pos shared k place shared' := by
    rintro ⟨address, _ | tid⟩
    · exact h.places_shared address
    · obtain ⟨place, hplace⟩ := h.places_data address tid
      exact ⟨place, shared, hplace⟩
  obtain ⟨place, shared', hplace⟩ := hplaces (stream frame)
  have hstream :
      stream { frame with sequenceNumber := (assignment.next (stream frame)).1 } = stream frame :=
    rfl
  refine ⟨assignment', _, _, shared', hassign, rfl, h.append (fun k => ?_) hplace.number
    (hcounter.trans hplace.counter) hplace.shared_le hplace.place_eq hplace.grows⟩
  rw [hlast, hstream]

/-- Two frames of one stream with the same number are thousands of frames apart. -/
theorem Numbered.far_apart {i j : ℕ}
    {f g : Ieee80211DataOrMgmtFrame} (hij : i < j) (hi : sent[i]? = some f)
    (hj : sent[j]? = some g) (hstream : stream f = stream g)
    (hnumber : f.sequenceNumber = g.sequenceNumber) : i + 4096 ≤ j := by
  obtain ⟨hlt, hle⟩ := h.grows i j f g hij hi hj hstream
  rw [h.number i f hi, h.number j g hj] at hnumber
  omega

end

end QoSSequenceNumberAssignment

end Inet.Ieee80211
