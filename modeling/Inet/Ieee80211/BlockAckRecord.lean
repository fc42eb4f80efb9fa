import Inet.Ieee80211.Frame

/-!
# The Block Ack record of the recipient

`BlockAckRecord` remembers the sequence control of every frame that has been recorded, and
`buildBlockAck` asks it for the 64 sequence numbers from the starting one on. The record never
forgets, it compares the stored `true` where the earliest sequence number is meant, and the bitmap
loop does not reduce its counter modulo 4096.

`Scoreboard` is what the record stands for: a window of sequence numbers that moves with the
highest one received, and the fragments received within it. `buildBlockAck_truthful_iff` says
when the bitmap agrees with it.
-/

namespace Inet.Ieee80211

structure BlockAckRecord where
  originatorAddress : ℕ := 0
  tid : ℕ := 0
  acknowledgmentState : Std.TreeMap SequenceControlField Bool := ∅

namespace BlockAckRecord

def blockAckPolicyFrameReceived (record : BlockAckRecord) (frame : Ieee80211DataFrame) :
    BlockAckRecord :=
  { record with
    acknowledgmentState := record.acknowledgmentState.insert
      (toLex (frame.sequenceNumber, frame.fragmentNumber)) true }

def getAckState (record : BlockAckRecord) (sequenceNumber : ℕ) (fragmentNumber : ℕ) : Bool :=
  if record.acknowledgmentState.contains (toLex (sequenceNumber, fragmentNumber)) then true
  else
    match record.acknowledgmentState.toList with
    | [] => true
    -- a `bool` is compared with a number here
    | earliest :: _ => decide (earliest.2.toNat > sequenceNumber)

end BlockAckRecord

structure RecipientBlockAckAgreement where
  blockAckRecord : BlockAckRecord := {}
  startingSequenceNumber : ℕ
  bufferSize : ℕ
  startingSequenceNumber_lt : startingSequenceNumber < 4096 := by decide
  bufferSize_pos : 0 < bufferSize := by decide
  bufferSize_le : bufferSize ≤ 64 := by decide

namespace RecipientBlockAckAgreement

def blockAckPolicyFrameReceived (agreement : RecipientBlockAckAgreement)
    (frame : Ieee80211DataFrame) : Result RecipientBlockAckAgreement := do
  assert (frame.ackPolicy = .BLOCK_ACK) "frame->getAckPolicy() == BLOCK_ACK"
  .ok { agreement with
    blockAckRecord := agreement.blockAckRecord.blockAckPolicyFrameReceived frame }

end RecipientBlockAckAgreement

def buildBlockAck (blockAckReq : Ieee80211BlockAckReq) (agreement : RecipientBlockAckAgreement) :
    Result Ieee80211BlockAck :=
  match blockAckReq.variant with
  | .basic =>
    .ok
      { receiverAddress := blockAckReq.transmitterAddress
        tidInfo := blockAckReq.tidInfo
        startingSequenceNumber := blockAckReq.startingSequenceNumber
        blockAckBitmap := (List.range 64).map fun i => (List.range 16).map fun fragNum =>
          agreement.blockAckRecord.getAckState (blockAckReq.startingSequenceNumber + i) fragNum
        startingSequenceNumber_lt := blockAckReq.startingSequenceNumber_lt }
  | _ => .error (.cRuntimeError "Unsupported Block Ack Request")

namespace BlockAckRecord

variable {frames : List Ieee80211DataFrame} {record : BlockAckRecord}

/-- The record of an agreement after some frames. -/
def recorded (record : BlockAckRecord) (frames : List Ieee80211DataFrame) : BlockAckRecord :=
  frames.foldl blockAckPolicyFrameReceived record

/-- All that the map of a record holds: `true` for every frame that has been recorded. -/
structure Holds (record : BlockAckRecord) (frames : List Ieee80211DataFrame) : Prop where
  contains : ∀ n f, record.acknowledgmentState.contains (toLex (n, f)) = true ↔
    ∃ frame ∈ frames, frame.sequenceNumber = n ∧ frame.fragmentNumber = f
  value : ∀ (key : SequenceControlField) (value : Bool),
    record.acknowledgmentState[key]? = some value → value = true

theorem Holds.recorded {before : List Ieee80211DataFrame} (h : Holds record before) :
    Holds (record.recorded frames) (before ++ frames) := by
  induction frames generalizing record before with
  | nil => simpa [BlockAckRecord.recorded] using h
  | cons frame frames ih =>
    have hstep : Holds (record.blockAckPolicyFrameReceived frame) (before ++ [frame]) := by
      refine ⟨fun n f => ?_, fun key value hvalue => ?_⟩
      · rw [blockAckPolicyFrameReceived, Std.TreeMap.contains_insert, Bool.or_eq_true,
          beq_iff_eq, Std.compare_eq_iff_eq, h.contains, toLex_inj, Prod.mk.injEq]
        constructor
        · rintro (⟨hn, hf⟩ | ⟨frame', hmem, heq⟩)
          · exact ⟨frame, by simp, hn, hf⟩
          · exact ⟨frame', by simp [hmem], heq⟩
        · rintro ⟨frame', hmem, heq⟩
          obtain hold | hnew := List.mem_append.mp hmem
          · exact .inr ⟨frame', hold, heq⟩
          · obtain rfl := List.mem_singleton.mp hnew
            exact .inl heq
      · rw [blockAckPolicyFrameReceived, Std.TreeMap.getElem?_insert] at hvalue
        split_ifs at hvalue
        · exact (Option.some.inj hvalue).symm
        · exact h.value key value hvalue
    simpa [BlockAckRecord.recorded] using ih hstep

/-- What a record reports after some frames. -/
def Reports (frames : List Ieee80211DataFrame) (n f : ℕ) : Prop :=
  frames = [] ∨ n = 0 ∨ ∃ frame ∈ frames, frame.sequenceNumber = n ∧ frame.fragmentNumber = f

theorem Holds.getAckState (h : Holds record frames) (n f : ℕ) :
    record.getAckState n f = true ↔ Reports frames n f := by
  rw [BlockAckRecord.getAckState]
  by_cases hrecorded : record.acknowledgmentState.contains (toLex (n, f)) = true
  · rw [if_pos hrecorded]
    exact iff_of_true rfl (.inr (.inr ((h.contains n f).mp hrecorded)))
  · rw [if_neg hrecorded]
    have hnone := mt (h.contains n f).mpr hrecorded
    cases hentries : record.acknowledgmentState.toList with
    | nil =>
      refine iff_of_true rfl (.inl (List.eq_nil_iff_forall_not_mem.mpr fun frame hmem => ?_))
      have hin := (h.contains _ _).mpr ⟨frame, hmem, rfl, rfl⟩
      rw [Std.TreeMap.contains_eq_isSome_getElem?, Option.isSome_iff_exists] at hin
      obtain ⟨value, hvalue⟩ := hin
      have hentry := Std.TreeMap.mem_toList_iff_getElem?_eq_some.mpr hvalue
      rw [hentries] at hentry
      cases hentry
    | cons earliest rest =>
      have hentry : (earliest.1, earliest.2) ∈ record.acknowledgmentState.toList :=
        hentries ▸ List.mem_cons_self
      have hget := Std.TreeMap.mem_toList_iff_getElem?_eq_some.mp hentry
      have hframes : frames ≠ [] := by
        rintro rfl
        have hin := (h.contains (ofLex earliest.1).1 (ofLex earliest.1).2).mp (by
          rw [Std.TreeMap.contains_eq_isSome_getElem?]
          exact Option.isSome_of_eq_some hget)
        simp at hin
      have hnumber : 1 > n ↔ n = 0 := Nat.lt_one_iff
      simp only [Reports, h.value _ _ hget, Bool.toNat_true, decide_eq_true_eq, hnumber,
        hframes, hnone, false_or, or_false]

theorem holds_nil (h : record.acknowledgmentState = ∅) : Holds record [] := by
  refine ⟨fun n f => ?_, fun key value hvalue => ?_⟩
  · simp [h]
  · simp [h] at hvalue

end BlockAckRecord

/-- What the recipient keeps for an agreement: the window of sequence numbers whose status it
knows, and the fragments received in it. -/
structure Scoreboard where
  size : ℕ
  winStart : ℕ
  received : List (ℕ × ℕ) := []
  size_pos : 0 < size
  size_le : size ≤ 64
  inWindow : ∀ m ∈ received, sequenceNumberDistance winStart m.1 < size

namespace Scoreboard

/-- The window ends at the number that lies `size - 1` behind its start. -/
theorem distance_slide {size n : ℕ} (hsize : size ≤ 64) (hpos : 0 < size) (hn : n < 4096) :
    sequenceNumberDistance ((n + 4097 - size) % 4096) n < size := by
  rw [sequenceNumberDistance]
  omega

/-- A frame in the window is recorded, a newer one moves the window so that it ends there, and an
older one is of no interest. -/
def receive (board : Scoreboard) (frame : Ieee80211DataFrame) : Scoreboard :=
  let number := frame.sequenceNumber
  if h : sequenceNumberDistance board.winStart number < board.size then
    { board with
      received := (number, frame.fragmentNumber) :: board.received
      inWindow := List.forall_mem_cons.mpr ⟨h, board.inWindow⟩ }
  else if sequenceNumberDistance board.winStart number < 2048 then
    let winStart := (number + 4097 - board.size) % 4096
    { board with
      winStart
      received := (number, frame.fragmentNumber) :: board.received.filter fun entry =>
          sequenceNumberDistance winStart entry.1 < board.size
      inWindow := List.forall_mem_cons.mpr
        ⟨distance_slide board.size_le board.size_pos frame.sequenceNumber_lt,
          fun _ hm => of_decide_eq_true (List.mem_filter.mp hm).2⟩ }
  else board

/-- The number precedes the window. -/
def IsOld (board : Scoreboard) (number : ℕ) : Prop :=
  2048 ≤ sequenceNumberDistance board.winStart number
deriving Decidable

/-- The fragment has been received, or the number is older than those with a status. -/
def Acknowledges (board : Scoreboard) (number fragment : ℕ) : Prop :=
  (number, fragment) ∈ board.received ∨ board.IsOld number
deriving Decidable

/-- What has been received is one of the frames. -/
theorem exists_of_mem_received {board : Scoreboard} {frames : List Ieee80211DataFrame} {n f : ℕ}
    (h : (n, f) ∈ (frames.foldl receive board).received) :
    (n, f) ∈ board.received ∨
      ∃ frame ∈ frames, frame.sequenceNumber = n ∧ frame.fragmentNumber = f := by
  induction frames generalizing board with
  | nil => exact .inl h
  | cons frame frames ih =>
    obtain hmem | ⟨frame', hmem, heq⟩ := ih h
    · have hstep : (n, f) = (frame.sequenceNumber, frame.fragmentNumber) ∨
          (n, f) ∈ board.received := by
        unfold receive at hmem
        dsimp only at hmem
        split_ifs at hmem
        · exact List.mem_cons.mp hmem
        · exact (List.mem_cons.mp hmem).imp_right fun h => (List.mem_filter.mp h).1
        · exact .inr hmem
      obtain hnew | hold := hstep
      · obtain ⟨rfl, rfl⟩ := Prod.mk.inj hnew
        exact .inr ⟨frame, List.mem_cons_self, rfl, rfl⟩
      · exact .inl hold
    · exact .inr ⟨frame', List.mem_cons_of_mem _ hmem, heq⟩

end Scoreboard

namespace RecipientBlockAckAgreement

/-- The agreement after some frames have been recorded. -/
def recorded (agreement : RecipientBlockAckAgreement) (frames : List Ieee80211DataFrame) :
    RecipientBlockAckAgreement :=
  { agreement with blockAckRecord := agreement.blockAckRecord.recorded frames }

def scoreboard (agreement : RecipientBlockAckAgreement) : Scoreboard where
  size := agreement.bufferSize
  winStart := agreement.startingSequenceNumber
  size_pos := agreement.bufferSize_pos
  size_le := agreement.bufferSize_le
  inWindow := by simp

end RecipientBlockAckAgreement

/-- Each bit of the BlockAck tells what the scoreboard knows. -/
def Truthful (board : Scoreboard) (blockAck : Ieee80211BlockAck) : Prop :=
  ∀ i < 64, ∀ f < 16, blockAck.getBit i f = true ↔
    board.Acknowledges ((blockAck.startingSequenceNumber + i) % 4096) f

/-- The requests that the record answers truthfully. -/
structure Answerable (frames : List Ieee80211DataFrame) (board : Scoreboard) (start : ℕ) :
    Prop where
  /-- Before the first frame everything is acknowledged. -/
  first : frames = [] → ∀ i < 64, board.IsOld ((start + i) % 4096)
  /-- Behind 4095 nothing is acknowledged. -/
  wrapped : frames ≠ [] → ∀ i < 64, 4096 ≤ start + i →
    ¬ board.IsOld (start + i - 4096) ∧ ∀ f < 16, (start + i - 4096, f) ∉ board.received
  /-- The number 0 is always acknowledged. -/
  zero : frames ≠ [] → start = 0 → board.IsOld 0 ∨ ∀ f < 16, (0, f) ∈ board.received
  /-- Old numbers are acknowledged only if they have been recorded. -/
  old : frames ≠ [] → ∀ i < 64, 0 < start + i → start + i < 4096 → board.IsOld (start + i) →
    ∀ f < 16, ∃ frame ∈ frames, frame.sequenceNumber = start + i ∧ frame.fragmentNumber = f
  /-- What has been recorded in an earlier round of the sequence numbers is acknowledged. -/
  stale : ∀ frame ∈ frames, ∀ i < 64, 0 < start + i → frame.sequenceNumber = start + i →
    ¬ board.IsOld (start + i) → (start + i, frame.fragmentNumber) ∈ board.received

theorem getBit_buildBlockAck {req : Ieee80211BlockAckReq} {agreement : RecipientBlockAckAgreement}
    {blockAck : Ieee80211BlockAck} (h : buildBlockAck req agreement = .ok blockAck) :
    blockAck.startingSequenceNumber = req.startingSequenceNumber ∧
      ∀ i < 64, ∀ f < 16, blockAck.getBit i f =
        agreement.blockAckRecord.getAckState (req.startingSequenceNumber + i) f := by
  unfold buildBlockAck at h
  split at h
  · cases h
    refine ⟨rfl, fun i hi f hf => ?_⟩
    simp [Ieee80211BlockAck.getBit, List.getD_eq_getElem?_getD, hi, hf]
  · cases h

section

variable {frames : List Ieee80211DataFrame} {board : Scoreboard} {start : ℕ}

open BlockAckRecord (Reports)

theorem Answerable.of_bits (hstart : start < 4096) (hreceived : ∀ n f, (n, f) ∈ board.received →
      ∃ frame ∈ frames, frame.sequenceNumber = n ∧ frame.fragmentNumber = f)
    (h : ∀ i < 64, ∀ f < 16,
      Reports frames (start + i) f ↔ board.Acknowledges ((start + i) % 4096) f) :
    Answerable frames board start := by
  refine ⟨?_, ?_, ?_, ?_, ?_⟩
  · intro hnil i hi
    obtain hmem | hold := (h i hi 0 (by decide)).mp (.inl hnil)
    · obtain ⟨frame, hframe, -⟩ := hreceived _ _ hmem
      rw [hnil] at hframe
      cases hframe
    · exact hold
  · intro hne i hi hbeyond
    have hmod : (start + i) % 4096 = start + i - 4096 := by omega
    have hfalse : ∀ f < 16, ¬ board.Acknowledges (start + i - 4096) f := by
      intro f hf hack
      rw [← hmod] at hack
      obtain hnil | hzero | ⟨frame, -, hseq, -⟩ := (h i hi f hf).mpr hack
      · exact hne hnil
      · omega
      · have := frame.sequenceNumber_lt
        omega
    exact ⟨fun hold => hfalse 0 (by decide) (.inr hold), fun f hf hmem => hfalse f hf (.inl hmem)⟩
  · intro hne hzero
    by_cases hold : board.IsOld 0
    · exact .inl hold
    · refine .inr fun f hf => ?_
      have hack := (h 0 (by decide) f hf).mp (.inr (.inl (by omega)))
      rw [hzero] at hack
      exact hack.resolve_right hold
  · intro hne i hi hpos hlt hold f hf
    rw [← Nat.mod_eq_of_lt hlt] at hold
    obtain hnil | hzero | hframe := (h i hi f hf).mpr (.inr hold)
    · exact absurd hnil hne
    · omega
    · exact hframe
  · intro frame hframe i hi hpos hseq hnew
    have hlt := frame.sequenceNumber_lt
    have hack := (h i hi frame.fragmentNumber frame.fragmentNumber_lt).mp
      (.inr (.inr ⟨frame, hframe, hseq, rfl⟩))
    rw [Nat.mod_eq_of_lt (by omega)] at hack
    exact hack.resolve_right hnew

theorem Answerable.bits (h : Answerable frames board start) (hstart : start < 4096)
    (hreceived : ∀ n f, (n, f) ∈ board.received →
      ∃ frame ∈ frames, frame.sequenceNumber = n ∧ frame.fragmentNumber = f)
    {i f : ℕ} (hi : i < 64) (hf : f < 16) :
    Reports frames (start + i) f ↔ board.Acknowledges ((start + i) % 4096) f := by
  by_cases hnil : frames = []
  · exact iff_of_true (.inl hnil) (.inr (h.first hnil i hi))
  by_cases hbeyond : 4096 ≤ start + i
  · obtain ⟨hnew, hmissing⟩ := h.wrapped hnil i hi hbeyond
    rw [show (start + i) % 4096 = start + i - 4096 by omega]
    refine iff_of_false ?_ ?_
    · rintro (hnil' | hzero | ⟨frame, -, hseq, -⟩)
      · exact hnil hnil'
      · omega
      · have := frame.sequenceNumber_lt
        omega
    · rintro (hmem | hold)
      · exact hmissing f hf hmem
      · exact hnew hold
  rw [Nat.mod_eq_of_lt (by omega)]
  by_cases hzero : start + i = 0
  · have hack : board.Acknowledges 0 f :=
      (h.zero hnil (by omega)).symm.imp_left fun hall => hall f hf
    rw [hzero]
    exact iff_of_true (.inr (.inl rfl)) hack
  by_cases hold : board.IsOld (start + i)
  · have hframe := h.old hnil i hi (by omega) (by omega) hold f hf
    exact iff_of_true (.inr (.inr hframe)) (.inr hold)
  constructor
  · rintro (hnil' | hzero' | ⟨frame, hframe, hseq, rfl⟩)
    · exact absurd hnil' hnil
    · exact absurd hzero' hzero
    · exact .inl (h.stale frame hframe i hi (by omega) hseq hold)
  · rintro (hmem | hold')
    · exact .inr (.inr (hreceived _ _ hmem))
    · exact absurd hold' hold

end

/-- The BlockAck for a request, after any frames of a new agreement, agrees with the scoreboard
just in case the request is answerable. -/
theorem buildBlockAck_truthful_iff (agreement : RecipientBlockAckAgreement)
    (fresh : agreement.blockAckRecord.acknowledgmentState = ∅) (frames : List Ieee80211DataFrame)
    (req : Ieee80211BlockAckReq) (basic : req.variant = .basic) :
    ∃ blockAck, buildBlockAck req (agreement.recorded frames) = .ok blockAck ∧
      (Truthful (frames.foldl Scoreboard.receive agreement.scoreboard) blockAck ↔
        Answerable frames (frames.foldl Scoreboard.receive agreement.scoreboard)
          req.startingSequenceNumber) := by
  obtain ⟨blockAck, hbuild⟩ : ∃ blockAck,
      buildBlockAck req (agreement.recorded frames) = .ok blockAck := by
    rw [buildBlockAck, basic]
    exact ⟨_, rfl⟩
  obtain ⟨hstart, hbits⟩ := getBit_buildBlockAck hbuild
  have hholds : BlockAckRecord.Holds (agreement.recorded frames).blockAckRecord frames :=
    (BlockAckRecord.holds_nil fresh).recorded
  have hreceived : ∀ n f, (n, f) ∈ (frames.foldl Scoreboard.receive agreement.scoreboard).received →
      ∃ frame ∈ frames, frame.sequenceNumber = n ∧ frame.fragmentNumber = f := by
    intro n f hmem
    exact (Scoreboard.exists_of_mem_received hmem).resolve_left List.not_mem_nil
  have hlt := req.startingSequenceNumber_lt
  have htruth : ∀ i < 64, ∀ f < 16, blockAck.getBit i f = true ↔
      BlockAckRecord.Reports frames (req.startingSequenceNumber + i) f := by
    intro i hi f hf
    rw [hbits i hi f hf]
    exact hholds.getAckState _ f
  refine ⟨blockAck, hbuild, fun h => Answerable.of_bits hlt hreceived ?_, fun h => ?_⟩
  · intro i hi f hf
    rw [← htruth i hi f hf, ← hstart]
    exact h i hi f hf
  · intro i hi f hf
    rw [hstart, htruth i hi f hf]
    exact h.bits hlt hreceived hi hf

/-- Four fragments of three MSDUs; one MSDU lacks its second fragment. -/
def threeMsdus : List Ieee80211DataFrame :=
  [{ sequenceNumber := 11, fragmentNumber := 1 }, { sequenceNumber := 10 },
    { sequenceNumber := 11, moreFragments := true },
    { sequenceNumber := 13, moreFragments := true }]

theorem buildBlockAck_truthful_of_threeMsdus : ∃ blockAck,
      buildBlockAck { startingSequenceNumber := 10 }
        (RecipientBlockAckAgreement.recorded { startingSequenceNumber := 10, bufferSize := 8 }
          threeMsdus) = .ok blockAck ∧
      Truthful
        (threeMsdus.foldl Scoreboard.receive (RecipientBlockAckAgreement.scoreboard
          { startingSequenceNumber := 10, bufferSize := 8 })) blockAck := by
  obtain ⟨blockAck, hbuild, htruthful⟩ := buildBlockAck_truthful_iff
    { startingSequenceNumber := 10, bufferSize := 8 } rfl threeMsdus
    { startingSequenceNumber := 10 } rfl
  have hnew : ∀ i < 64, ¬ (threeMsdus.foldl Scoreboard.receive
      (RecipientBlockAckAgreement.scoreboard
        { startingSequenceNumber := 10, bufferSize := 8 })).IsOld (10 + i) := by
    decide
  have hrecorded : ∀ frame ∈ threeMsdus, (frame.sequenceNumber, frame.fragmentNumber) ∈
      (threeMsdus.foldl Scoreboard.receive (RecipientBlockAckAgreement.scoreboard
        { startingSequenceNumber := 10, bufferSize := 8 })).received := by
    decide
  refine ⟨blockAck, hbuild, htruthful.mpr ⟨by decide, ?_, by decide, ?_, ?_⟩⟩
  · intro _ i hi (hbeyond : 4096 ≤ 10 + i)
    omega
  · intro _ i hi _ _ hold
    exact absurd hold (hnew i hi)
  · intro frame hframe i hi _ hseq _
    rw [← hseq]
    exact hrecorded frame hframe

/-- The frame with sequence number 5 is in the window that starts at 4090, and the request for
that window reports it as missing. -/
theorem buildBlockAck_not_truthful_across_wrap : ∃ blockAck,
      buildBlockAck { startingSequenceNumber := 4090 }
        (RecipientBlockAckAgreement.recorded { startingSequenceNumber := 4090, bufferSize := 64 }
          [{ sequenceNumber := 5 }]) = .ok blockAck ∧
      ¬ Truthful
        ([{ sequenceNumber := 5 }].foldl Scoreboard.receive
          (RecipientBlockAckAgreement.scoreboard
            { startingSequenceNumber := 4090, bufferSize := 64 }))
        blockAck := by
  refine ⟨_, rfl, fun h => ?_⟩
  have hbit := h 11 (by decide) 0 (by decide)
  revert hbit
  decide

end Inet.Ieee80211
