import Inet.Ieee80211.Frame

/-!
# Selection of frames for an A-MSDU

`BasicMsduAggregationPolicy` selects the frames at the head of the pending queue that may share an
A-MSDU. It tests each of them with the length of the first one, so that the selected frames fit
into an A-MSDU if and only if their own lengths pass the test (`aggregable_iff_testsOwnLength`).

The length of an A-MSDU is an `int`, and the lengths of packets are 64 bits wide, so that the sum
is reduced when it is assigned. Frames in the queue that are not data frames are `none`.
-/

namespace Inet.Ieee80211

inductive Ieee80211FrameType where
  | ST_DATA
  | ST_DATA_WITH_QOS
deriving DecidableEq

structure Msdu where
  byteLength : ℕ
  data : List UInt8 := []

/-- A data frame with the packet that it encapsulates. `etherType` is that of a frame with a SNAP
header, and `none` for other frames. -/
structure DataFrameWith (α : Type) extends Ieee80211DataFrame where
  name : String := ""
  type : Ieee80211FrameType := .ST_DATA_WITH_QOS
  toDS : Bool := false
  fromDS : Bool := false
  address3 : ℕ := 0
  address4 : ℕ := 0
  aMsduPresent : Bool := false
  etherType : Option ℤ := none
  packet : α

def LENGTH_A_MSDU_SUBFRAME_HEADER : ℕ := 14 * 8

def SNAP_HEADER_BYTES : ℕ := 8

/-- Assignment to an `int`. -/
def toInt (n : ℤ) : ℤ := n.bmod (2 ^ 32)

theorem toInt_of_lt {n : ℤ} (h : 0 ≤ n) (hlt : n < 2 ^ 31) : toInt n = n := by
  rw [toInt, Int.bmod_eq_of_le] <;> omega

/-- The length of an MSDU and of its subframe header. -/
def DataFrameWith.subframeLength (frame : DataFrameWith Msdu) : ℕ :=
  frame.packet.byteLength + LENGTH_A_MSDU_SUBFRAME_HEADER / 8

structure BasicMsduAggregationPolicy where
  qOsCheck : Bool := true
  subframeNumThreshold : ℤ := -1
  aggregationLengthThreshold : ℤ := -1
  maxAMsduSize : ℤ := 4065
  maxAMsduSize_lt : maxAMsduSize < 2 ^ 31 := by decide

namespace BasicMsduAggregationPolicy

def isAggregationPossible (policy : BasicMsduAggregationPolicy)
    (numOfFramesToAggragate aMsduLength : ℤ) : Bool :=
  (policy.subframeNumThreshold == -1 ||
      decide (policy.subframeNumThreshold ≤ numOfFramesToAggragate)) &&
    (policy.aggregationLengthThreshold == -1 ||
      decide (policy.aggregationLengthThreshold ≤ aMsduLength))

def isEligible (policy : BasicMsduAggregationPolicy) (frame testFrame : DataFrameWith Msdu)
    (aMsduLength : ℤ) : Bool :=
  if policy.qOsCheck && frame.type != .ST_DATA_WITH_QOS then false
  else if aMsduLength + testFrame.packet.byteLength + (LENGTH_A_MSDU_SUBFRAME_HEADER / 8 : ℕ) >
      policy.maxAMsduSize then false
  else if testFrame.tid ≠ frame.tid then false
  else if testFrame.receiverAddress ≠ frame.receiverAddress ∨
      testFrame.transmitterAddress ≠ frame.transmitterAddress then false
  else true

/-- The loop of `computeAggregateFrames`. -/
def collectFrames (policy : BasicMsduAggregationPolicy) (firstFrame : DataFrameWith Msdu) :
    List (Option (DataFrameWith Msdu)) → List (DataFrameWith Msdu) → ℤ →
      List (DataFrameWith Msdu) × ℤ
  | some dataFrame :: rest, frames, aMsduLength =>
    if policy.isEligible dataFrame firstFrame aMsduLength then
      policy.collectFrames firstFrame rest (frames ++ [dataFrame])
        (toInt (aMsduLength + dataFrame.subframeLength))
    else (frames, aMsduLength)
  | _, frames, aMsduLength => (frames, aMsduLength)

def computeAggregateFrames (policy : BasicMsduAggregationPolicy)
    (queue : List (Option (DataFrameWith Msdu))) :
    Result (Option (List (DataFrameWith Msdu))) :=
  match queue with
  | [] => .error (.assertion "!queue->isEmpty()")
  | none :: _ => .ok none
  | some firstFrame :: _ =>
    let (frames, aMsduLength) := policy.collectFrames firstFrame queue [] 0
    if frames.length ≤ 1 || !policy.isAggregationPossible frames.length aMsduLength then .ok none
    else .ok (some frames)

section

variable {policy : BasicMsduAggregationPolicy} {first frame : DataFrameWith Msdu} {length : ℤ}

theorem isEligible_iff : policy.isEligible frame first length = true ↔
    (policy.qOsCheck = true → frame.type = .ST_DATA_WITH_QOS) ∧
      length + first.subframeLength ≤ policy.maxAMsduSize ∧ frame.tid = first.tid ∧
      frame.receiverAddress = first.receiverAddress ∧
      frame.transmitterAddress = first.transmitterAddress := by
  have hlength : length + first.subframeLength =
      length + first.packet.byteLength + (LENGTH_A_MSDU_SUBFRAME_HEADER / 8 : ℕ) := by
    simp only [DataFrameWith.subframeLength]
    omega
  rw [isEligible, hlength]
  split_ifs with h₁ h₂ h₃ h₄
  · simp_all
  · simp only [false_iff, not_and]
    omega
  · simp [Ne.symm h₃]
  · simp only [false_iff, not_and]
    intro _ _ _ hra hta
    obtain h | h := h₄
    · exact h hra.symm
    · exact h hta.symm
  · simp only [not_or, not_not] at h₄
    simp_all

/-- The frames `frames` at the head of a queue are eligible beside the first one, and that behind
them, if any, is not. -/
def Takes (policy : BasicMsduAggregationPolicy) (firstFrame : DataFrameWith Msdu) :
    ℤ → List (DataFrameWith Msdu) → List (Option (DataFrameWith Msdu)) → Prop
  | length, [], rest =>
    ∀ frame, rest.head? = some (some frame) → policy.isEligible frame firstFrame length = false
  | length, frame :: frames, rest =>
    policy.isEligible frame firstFrame length = true ∧
      policy.Takes firstFrame (toInt (length + frame.subframeLength)) frames rest

/-- Every frame fits with its own length behind those before it. -/
def Fits (policy : BasicMsduAggregationPolicy) : ℤ → List (DataFrameWith Msdu) → Prop
  | _, [] => True
  | length, frame :: frames =>
    length + frame.subframeLength ≤ policy.maxAMsduSize ∧
      policy.Fits (toInt (length + frame.subframeLength)) frames

/-- The length that the code computes. -/
def addLengths (length : ℤ) (frames : List (DataFrameWith Msdu)) : ℤ :=
  frames.foldl (fun length frame => toInt (length + frame.subframeLength)) length

def totalLength (frames : List (DataFrameWith Msdu)) : ℕ :=
  (frames.map DataFrameWith.subframeLength).sum

variable {frames acc : List (DataFrameWith Msdu)} {queue rest : List (Option (DataFrameWith Msdu))}

theorem exists_takes (policy : BasicMsduAggregationPolicy) (first : DataFrameWith Msdu)
    (length : ℤ) (queue : List (Option (DataFrameWith Msdu))) :
    ∃ frames rest, queue = frames.map some ++ rest ∧ policy.Takes first length frames rest := by
  induction queue generalizing length with
  | nil => exact ⟨[], [], rfl, by simp [Takes]⟩
  | cons item queue ih =>
    cases item with
    | none => exact ⟨[], none :: queue, rfl, by simp [Takes]⟩
    | some frame =>
      cases heligible : policy.isEligible frame first length with
      | false =>
        refine ⟨[], some frame :: queue, rfl, fun frame' hframe' => ?_⟩
        obtain rfl : frame = frame' := by simpa using hframe'
        exact heligible
      | true =>
        obtain ⟨frames, rest, rfl, htakes⟩ :=
          ih (toInt (length + frame.subframeLength))
        exact ⟨frame :: frames, rest, rfl, heligible, htakes⟩

/-- The loop collects the frames that are taken. -/
theorem collectFrames_of_takes (h : policy.Takes first length frames rest) :
    policy.collectFrames first (frames.map some ++ rest) acc length =
      (acc ++ frames, addLengths length frames) := by
  induction frames generalizing length acc with
  | nil =>
    rw [List.map_nil, List.nil_append, List.append_nil]
    match rest, h with
    | [], _ => rfl
    | none :: _, _ => rfl
    | some frame :: _, h =>
      rw [collectFrames, h frame rfl]
      rfl
  | cons frame frames ih =>
    obtain ⟨heligible, htakes⟩ := h
    rw [List.map_cons, List.cons_append, collectFrames, if_pos heligible, ih htakes,
      List.append_assoc]
    rfl

theorem Takes.isEligible (h : policy.Takes first length frames rest) :
    ∀ frame ∈ frames, ∃ length, policy.isEligible frame first length = true := by
  induction frames generalizing length with
  | nil => simp
  | cons frame frames ih =>
    intro f hf
    obtain rfl | hf := List.mem_cons.mp hf
    · exact ⟨_, h.1⟩
    · exact ih h.2 f hf

/-- Nothing overflows if every frame fits. -/
theorem fits_iff (hlength : 0 ≤ length) (hle : length ≤ policy.maxAMsduSize) :
    policy.Fits length frames ↔ length + totalLength frames ≤ policy.maxAMsduSize := by
  have hmax := policy.maxAMsduSize_lt
  induction frames generalizing length with
  | nil => simpa [Fits, totalLength] using hle
  | cons frame frames ih =>
    have htotal : totalLength (frame :: frames) = frame.subframeLength + totalLength frames := by
      simp [totalLength]
    rw [Fits, htotal]
    push_cast
    constructor
    · rintro ⟨hfits, hrest⟩
      rw [toInt_of_lt (by omega) (by omega)] at hrest
      have := (ih (by omega) hfits).mp hrest
      omega
    · intro h
      have hfits : length + frame.subframeLength ≤ policy.maxAMsduSize := by omega
      refine ⟨hfits, ?_⟩
      rw [toInt_of_lt (by omega) (by omega)]
      exact (ih (by omega) hfits).mpr (by omega)

end

/-- What the frames of an A-MSDU have to be. -/
structure Aggregable (policy : BasicMsduAggregationPolicy)
    (queue : List (Option (DataFrameWith Msdu))) (frames : List (DataFrameWith Msdu)) : Prop where
  isPrefix : frames.map some <+: queue
  two_le_length : 2 ≤ frames.length
  common : ∃ tid ra ta, ∀ frame ∈ frames,
    frame.tid = tid ∧ frame.receiverAddress = ra ∧ frame.transmitterAddress = ta
  totalLength_le : totalLength frames ≤ policy.maxAMsduSize

/-- Every frame that is taken fits with its own length, if the frames are enough for an A-MSDU.
The code tests the length of the first frame instead. -/
def TestsOwnLength (policy : BasicMsduAggregationPolicy)
    (queue : List (Option (DataFrameWith Msdu))) : Prop :=
  ∀ first frames rest, queue = (first :: frames).map some ++ rest → frames ≠ [] →
    policy.Takes first 0 (first :: frames) rest →
    policy.isAggregationPossible (first :: frames).length (addLengths 0 (first :: frames)) = true →
    policy.Fits 0 (first :: frames)

variable {policy : BasicMsduAggregationPolicy} {queue : List (Option (DataFrameWith Msdu))}
  {frames : List (DataFrameWith Msdu)}

/-- The frames that are returned. -/
theorem computeAggregateFrames_eq_some : policy.computeAggregateFrames queue = .ok (some frames) ↔
    ∃ first others rest, frames = first :: others ∧ queue = frames.map some ++ rest ∧ others ≠ [] ∧
      policy.Takes first 0 frames rest ∧
      policy.isAggregationPossible frames.length (addLengths 0 frames) = true := by
  constructor
  · intro h
    match queue, h with
    | some first :: queue, h =>
      obtain ⟨taken, rest, hqueue, htakes⟩ := exists_takes policy first 0 (some first :: queue)
      rw [computeAggregateFrames, hqueue, collectFrames_of_takes htakes, List.nil_append] at h
      simp only at h
      split_ifs at h with hfew
      · cases h
      · obtain rfl : taken = frames := by simpa using h
        simp only [Bool.or_eq_true, decide_eq_true_eq, Bool.not_eq_true', not_or,
          Bool.not_eq_false, not_le] at hfew
        cases taken with
        | nil => simp at hfew
        | cons frame others =>
          obtain rfl : first = frame := by
            simpa using congrArg List.head? hqueue
          refine ⟨first, others, rest, rfl, hqueue, ?_, htakes, hfew.2⟩
          rintro rfl
          simp at hfew
  · rintro ⟨first, others, rest, rfl, rfl, hne, htakes, hpossible⟩
    have hcollect : policy.collectFrames first ((first :: others).map some ++ rest) [] 0 =
        ([] ++ first :: others, addLengths 0 (first :: others)) := collectFrames_of_takes htakes
    rw [List.map_cons, List.cons_append] at hcollect ⊢
    have hfew : ¬(first :: others).length ≤ 1 := by
      have := List.length_pos_iff.mpr hne
      rw [List.length_cons]
      omega
    simp only [computeAggregateFrames, hcollect, List.nil_append, hpossible, Bool.not_true,
      Bool.or_false, decide_eq_true_eq, if_neg hfew]

/-- Whatever is in the queue: the frames that are returned are what the frames of an A-MSDU have
to be if and only if each of them fits with its own length. -/
theorem aggregable_iff_testsOwnLength :
    (∀ frames, policy.computeAggregateFrames queue = .ok (some frames) →
      policy.Aggregable queue frames) ↔ policy.TestsOwnLength queue := by
  constructor
  · intro h first others rest hqueue hne htakes hpossible
    have haggregable := h _ (computeAggregateFrames_eq_some.mpr
      ⟨first, others, rest, rfl, hqueue, hne, htakes, hpossible⟩)
    have hmax := haggregable.totalLength_le
    rw [fits_iff (Int.le_refl 0) (by omega)]
    omega
  · intro h frames hframes
    obtain ⟨first, others, rest, rfl, hqueue, hne, htakes, hpossible⟩ :=
      computeAggregateFrames_eq_some.mp hframes
    have hfits := h first others rest hqueue hne htakes hpossible
    have hmax : 0 ≤ policy.maxAMsduSize := by
      have := hfits.1
      omega
    refine ⟨⟨rest, hqueue.symm⟩, ?_, ⟨first.tid, first.receiverAddress, first.transmitterAddress,
      fun frame hframe => ?_⟩, ?_⟩
    · have := List.length_pos_iff.mpr hne
      rw [List.length_cons]
      omega
    · obtain ⟨length, heligible⟩ := htakes.isEligible frame hframe
      exact (isEligible_iff.mp heligible).2.2
    · have := (fits_iff (Int.le_refl 0) hmax).mp hfits
      omega

/-- A short frame and a long one behind it. -/
def longBehindShort : List (Option (DataFrameWith Msdu)) :=
  [some { sequenceNumber := 0, packet := { byteLength := 100 } },
    some { sequenceNumber := 0, packet := { byteLength := 5000 } }]

theorem not_aggregable_longBehindShort :
    ¬∀ frames, computeAggregateFrames {} longBehindShort = .ok (some frames) →
      Aggregable {} longBehindShort frames := by
  intro h
  have hlength := (h _ rfl).totalLength_le
  revert hlength
  decide

end BasicMsduAggregationPolicy

end Inet.Ieee80211
