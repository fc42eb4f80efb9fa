import Inet.Ieee80211.Frame

/-!
# Acknowledgment bookkeeping of the originator

`QoSAckHandler` keeps a status for every QoS data frame in flight. A BlockAckReq sets the frames
it asks for to `WAITING_FOR_BLOCK_ACK`, and the BlockAck that answers it visits the 64 × 16 keys
of its bitmap.

The request does not look at the receiver, and it compares sequence numbers as plain numbers.
`processTransmittedBlockAckReq_exact_iff` says when it asks for the frames of the window of the
answer and for no others.
-/

namespace Inet.Ieee80211

inductive Status where
  | FRAME_NOT_YET_TRANSMITTED
  | NO_ACK_REQUIRED
  | BLOCK_ACK_NOT_YET_REQUESTED
  | WAITING_FOR_NORMAL_ACK
  | WAITING_FOR_BLOCK_ACK
  | NORMAL_ACK_NOT_ARRIVED
  | NORMAL_ACK_ARRIVED
  | BLOCK_ACK_ARRIVED_UNACKED
  | BLOCK_ACK_ARRIVED_ACKED
deriving DecidableEq

/-- The receiver, the TID and the sequence control of a frame. The bounds are the assertions of
`SequenceControlField`. -/
@[ext]
structure QoSKey where
  receiverAddress : ℕ
  tid : ℕ
  sequenceNumber : ℕ
  fragmentNumber : ℕ
  sequenceNumber_lt : sequenceNumber < 4096 := by decide
  fragmentNumber_lt : fragmentNumber < 16 := by first | exact zero_lt_fragmentNumbers | decide

namespace QoSKey

/-- Keys are ordered as nested pairs. -/
def toPairs (key : QoSKey) : ℕ ×ₗ ℕ ×ₗ ℕ ×ₗ ℕ :=
  toLex (key.receiverAddress, toLex (key.tid, toLex (key.sequenceNumber, key.fragmentNumber)))

theorem toPairs_injective : Function.Injective toPairs := by
  rintro ⟨⟩ ⟨⟩ h
  simp only [toPairs, toLex_inj, Prod.mk.injEq] at h
  obtain ⟨rfl, rfl, rfl, rfl⟩ := h
  rfl

end QoSKey

instance : DecidableEq QoSKey := fun _ _ => decidable_of_iff _ QoSKey.toPairs_injective.eq_iff

instance : Ord QoSKey := ⟨compareOn QoSKey.toPairs⟩

instance : Std.TransOrd QoSKey :=
  inferInstanceAs (Std.TransCmp (compareOn QoSKey.toPairs))

instance : Std.LawfulEqOrd QoSKey where
  eq_of_compare h := QoSKey.toPairs_injective (compare_eq_iff_eq.mp h)

def Ieee80211DataFrame.key (frame : Ieee80211DataFrame) : QoSKey :=
  { receiverAddress := frame.receiverAddress
    tid := frame.tid
    sequenceNumber := frame.sequenceNumber
    fragmentNumber := frame.fragmentNumber
    sequenceNumber_lt := frame.sequenceNumber_lt
    fragmentNumber_lt := frame.fragmentNumber_lt }

/-- The statuses of the QoS data frames. Management frames and other data frames have a map of
their own, which no Block Ack touches. -/
structure QoSAckHandler where
  ackStatuses : Std.TreeMap QoSKey Status := ∅

namespace QoSAckHandler

variable {req : Ieee80211BlockAckReq}

/-- The status of a frame; a frame without one gets the first. -/
def getQoSDataAckStatus (handler : QoSAckHandler) (id : QoSKey) : Status × QoSAckHandler :=
  match handler.ackStatuses[id]? with
  | some status => (status, handler)
  | none =>
    (.FRAME_NOT_YET_TRANSMITTED,
      { ackStatuses := handler.ackStatuses.insert id .FRAME_NOT_YET_TRANSMITTED })

/-- The status of a frame after a BlockAckReq for the sequence numbers from `start` on. -/
def requested (tidInfo start : ℕ) (status : Status) (key : QoSKey) : Status :=
  if tidInfo = key.tid ∧ status = .BLOCK_ACK_NOT_YET_REQUESTED ∧ key.sequenceNumber ≥ start then
    .WAITING_FOR_BLOCK_ACK
  else status

def processTransmittedBlockAckReq (handler : QoSAckHandler) (blockAckReq : Ieee80211BlockAckReq) :
    Result QoSAckHandler :=
  let tidInfo := blockAckReq.tidInfo
  let startingSeqNum := blockAckReq.startingSequenceNumber
  match blockAckReq.variant with
  | .basic =>
    .ok
      { ackStatuses := handler.ackStatuses.map fun key status =>
          requested tidInfo startingSeqNum status key }
  | .compressed =>
    .ok
      { ackStatuses := handler.ackStatuses.map fun key status =>
          if key.fragmentNumber = 0 then requested tidInfo startingSeqNum status key
          else status }
  -- the exception is thrown inside the loop
  | .multiTid =>
    if handler.ackStatuses.isEmpty then .ok handler
    else .error (.cRuntimeError "Multi-TID BlockReq is unimplemented")

/-- The keys that a BlockAck visits, in the order of the loops, each with its bit. -/
def blockAckKeys (blockAck : Ieee80211BlockAck) : Result (List (QoSKey × Bool)) :=
  let startingSeqNum := blockAck.startingSequenceNumber
  match blockAck.variant with
  | .basic =>
    .ok <| (List.finRange 64).flatMap fun (seqNum : Fin 64) =>
      (List.finRange 16).map fun (fragNum : Fin 16) =>
      ({ receiverAddress := blockAck.transmitterAddress
         tid := blockAck.tidInfo
         sequenceNumber := (startingSeqNum + seqNum) % 4096
         fragmentNumber := fragNum
         sequenceNumber_lt := Nat.mod_lt _ (by decide)
         fragmentNumber_lt := fragNum.isLt },
        blockAck.getBit seqNum fragNum)
  | .compressed =>
    (List.finRange 64).mapM fun (seqNum : Fin 64) =>
      -- not reduced modulo 4096
      if h : startingSeqNum + seqNum < 4096 then
        .ok
          ({ receiverAddress := blockAck.transmitterAddress
             tid := blockAck.tidInfo
             sequenceNumber := startingSeqNum + seqNum
             fragmentNumber := 0
             sequenceNumber_lt := h },
            blockAck.getBit 0 seqNum)
      else .error (.assertion "sequenceNumber < 4096")
  | .multiTid => .error (.cRuntimeError "Multi-TID BlockReq is unimplemented")

/-- The status of a frame after its bit has been read. -/
def answered (acked : Bool) : Status :=
  if acked then .BLOCK_ACK_ARRIVED_ACKED else .BLOCK_ACK_ARRIVED_UNACKED

/-- One round of the loops. -/
def visit (state : QoSAckHandler × Std.TreeSet QoSKey) (entry : QoSKey × Bool) :
    QoSAckHandler × Std.TreeSet QoSKey :=
  let (id, acked) := entry
  let (status, handler) := state.1.getQoSDataAckStatus id
  if status = .WAITING_FOR_BLOCK_ACK then
    ({ ackStatuses := handler.ackStatuses.insert id (answered acked) },
      if acked then state.2.insert id else state.2)
  else (handler, state.2)

/-- The new statuses and the set of the frames that have been acknowledged. -/
def processReceivedBlockAck (handler : QoSAckHandler) (blockAck : Ieee80211BlockAck) :
    Result (QoSAckHandler × Std.TreeSet QoSKey) := do
  let keys ← blockAckKeys blockAck
  .ok (keys.foldl visit (handler, ∅))

/-- The status of a key after it has been visited. -/
def settled (acked : Bool) : Option Status → Status
  | none => .FRAME_NOT_YET_TRANSMITTED
  | some .WAITING_FOR_BLOCK_ACK => answered acked
  | some status => status

theorem settled_settled (acked : Bool) (status : Option Status) :
    settled acked (some (settled acked status)) = settled acked status := by
  rcases status with - | status
  · rfl
  · cases status <;> cases acked <;> rfl

theorem visit_getElem? (state : QoSAckHandler × Std.TreeSet QoSKey) (entry : QoSKey × Bool)
    (key : QoSKey) :
    (visit state entry).1.ackStatuses[key]? =
      if entry.1 = key then some (settled entry.2 state.1.ackStatuses[key]?)
      else state.1.ackStatuses[key]? := by
  obtain ⟨id, acked⟩ := entry
  by_cases hkey : id = key
  · subst hkey
    rw [if_pos rfl]
    cases hstatus : state.1.ackStatuses[id]? with
    | none => simp [visit, getQoSDataAckStatus, hstatus, settled]
    | some status => cases status <;> simp [visit, getQoSDataAckStatus, hstatus, settled]
  · rw [if_neg hkey]
    have hne : ¬ compare id key = .eq := fun h => hkey (Std.LawfulEqOrd.eq_of_compare h)
    cases hstatus : state.1.ackStatuses[id]? with
    | none => simp [visit, getQoSDataAckStatus, hstatus, Std.TreeMap.getElem?_insert, hne]
    | some status =>
      cases status <;>
        simp [visit, getQoSDataAckStatus, hstatus, Std.TreeMap.getElem?_insert, hne]

/-- The loops settle every key that they visit, whatever else they visit. -/
theorem foldl_visit_getElem? (entries : List (QoSKey × Bool))
    (state : QoSAckHandler × Std.TreeSet QoSKey) {key : QoSKey} {acked : Bool}
    (hbit : ∀ entry ∈ entries, entry.1 = key → entry.2 = acked) :
    (entries.foldl visit state).1.ackStatuses[key]? =
      if key ∈ entries.map Prod.fst then some (settled acked state.1.ackStatuses[key]?)
      else state.1.ackStatuses[key]? := by
  induction entries generalizing state with
  | nil => simp
  | cons entry entries ih =>
    have hrest := ih (visit state entry) fun e he => hbit e (List.mem_cons_of_mem _ he)
    rw [List.foldl_cons, hrest, visit_getElem?]
    simp only [List.map_cons, List.mem_cons]
    by_cases hkey : entry.1 = key
    · have hin : key = entry.1 ∨ key ∈ entries.map Prod.fst := .inl hkey.symm
      simp only [hbit entry List.mem_cons_self hkey, if_pos hkey, if_pos hin, settled_settled,
        ite_self]
    · rw [if_neg hkey]
      simp only [Ne.symm hkey, false_or]

/-- The keys that the answer to a request visits. -/
def InBlock (req : Ieee80211BlockAckReq) (key : QoSKey) : Prop :=
  key.receiverAddress = req.receiverAddress ∧ key.tid = req.tidInfo ∧
    sequenceNumberDistance req.startingSequenceNumber key.sequenceNumber < 64
deriving Decidable

/-- The BlockAck that a receiver sends for a request. -/
structure Answers (req : Ieee80211BlockAckReq) (blockAck : Ieee80211BlockAck) : Prop where
  variant : blockAck.variant = .basic
  transmitter : blockAck.transmitterAddress = req.receiverAddress
  tidInfo : blockAck.tidInfo = req.tidInfo
  start : blockAck.startingSequenceNumber = req.startingSequenceNumber

/-- The bit of a frame in a BlockAck. -/
def bitOf (blockAck : Ieee80211BlockAck) (key : QoSKey) : Bool :=
  blockAck.getBit (sequenceNumberDistance blockAck.startingSequenceNumber key.sequenceNumber)
    key.fragmentNumber

theorem blockAckKeys_spec {blockAck : Ieee80211BlockAck} (h : Answers req blockAck) :
    ∃ entries, blockAckKeys blockAck = .ok entries ∧
      (∀ key, key ∈ entries.map Prod.fst ↔ InBlock req key) ∧
      ∀ entry ∈ entries, entry.2 = bitOf blockAck entry.1 := by
  have hstart := blockAck.startingSequenceNumber_lt
  unfold blockAckKeys
  rw [h.variant]
  refine ⟨_, rfl, fun key => ?_, fun entry hentry => ?_⟩
  · simp only [List.mem_map, List.mem_flatMap, List.mem_finRange, true_and, InBlock, ← h.start,
      ← h.transmitter, ← h.tidInfo]
    constructor
    · rintro ⟨-, ⟨i, f, rfl⟩, rfl⟩
      refine ⟨rfl, rfl, ?_⟩
      rw [sequenceNumberDistance_add hstart (by omega)]
      exact i.isLt
    · rintro ⟨haddress, htid, hdistance⟩
      refine ⟨_, ⟨⟨_, hdistance⟩, ⟨key.fragmentNumber, key.fragmentNumber_lt⟩, rfl⟩, ?_⟩
      exact QoSKey.ext haddress.symm htid.symm
        (add_sequenceNumberDistance hstart key.sequenceNumber_lt) rfl
  · simp only [List.mem_map, List.mem_flatMap, List.mem_finRange, true_and] at hentry
    obtain ⟨i, f, rfl⟩ := hentry
    rw [bitOf, sequenceNumberDistance_add hstart (by omega)]

/-- The statuses before a request, after it, and after its answer: exactly the frames of the
block that wait for a request are asked for, each of them gets its answer, and the frames to other
receivers keep their statuses. -/
structure Settles (req : Ieee80211BlockAckReq) (blockAck : Ieee80211BlockAck)
    (handler asked finished : QoSAckHandler) : Prop where
  requests : ∀ key, asked.ackStatuses[key]? =
    if handler.ackStatuses[key]? = some .BLOCK_ACK_NOT_YET_REQUESTED ∧ InBlock req key then
      some .WAITING_FOR_BLOCK_ACK
    else handler.ackStatuses[key]?
  finishes : ∀ key, handler.ackStatuses[key]? = some .BLOCK_ACK_NOT_YET_REQUESTED →
    asked.ackStatuses[key]? = some .WAITING_FOR_BLOCK_ACK →
      finished.ackStatuses[key]? = some (answered (bitOf blockAck key))
  others : ∀ key : QoSKey, key.receiverAddress ≠ req.receiverAddress →
    finished.ackStatuses[key]? = handler.ackStatuses[key]?

/-- Among the frames of the TID that wait for a request, those at or behind the starting number
are the ones of the block: none is for another receiver, none lies 64 or more behind, and none
of the block lies behind 4095. -/
structure AsksForBlock (req : Ieee80211BlockAckReq) (handler : QoSAckHandler) : Prop where
  receiver : ∀ key : QoSKey,
    handler.ackStatuses[key]? = some .BLOCK_ACK_NOT_YET_REQUESTED → key.tid = req.tidInfo →
      key.receiverAddress ≠ req.receiverAddress → key.sequenceNumber < req.startingSequenceNumber
  near : ∀ key : QoSKey,
    handler.ackStatuses[key]? = some .BLOCK_ACK_NOT_YET_REQUESTED → key.tid = req.tidInfo →
      key.receiverAddress = req.receiverAddress →
        key.sequenceNumber < req.startingSequenceNumber + 64
  unwrapped : ∀ key : QoSKey,
    handler.ackStatuses[key]? = some .BLOCK_ACK_NOT_YET_REQUESTED → key.tid = req.tidInfo →
      key.receiverAddress = req.receiverAddress → key.sequenceNumber < req.startingSequenceNumber →
          req.startingSequenceNumber + 64 ≤ key.sequenceNumber + 4096

/-- The condition says that the comparison of the request selects the block. -/
theorem asksForBlock_iff {handler : QoSAckHandler} : AsksForBlock req handler ↔
      ∀ key : QoSKey, handler.ackStatuses[key]? = some .BLOCK_ACK_NOT_YET_REQUESTED →
        (req.tidInfo = key.tid ∧ key.sequenceNumber ≥ req.startingSequenceNumber ↔
          InBlock req key) := by
  have hstart := req.startingSequenceNumber_lt
  constructor
  · intro h key hstatus
    have hnumber := key.sequenceNumber_lt
    constructor
    · rintro ⟨htid, hge⟩
      have haddress : key.receiverAddress = req.receiverAddress := by
        by_contra hne
        have := h.receiver key hstatus htid.symm hne
        omega
      have hnear := h.near key hstatus htid.symm haddress
      refine ⟨haddress, htid.symm, ?_⟩
      rw [sequenceNumberDistance]
      omega
    · rintro ⟨haddress, htid, hdistance⟩
      refine ⟨htid.symm, ?_⟩
      by_contra hlt
      have := h.unwrapped key hstatus htid haddress (by omega)
      rw [sequenceNumberDistance] at hdistance
      omega
  · intro h
    refine ⟨?_, ?_, ?_⟩
    · intro key hstatus htid hne
      by_contra hge
      exact hne ((h key hstatus).mp ⟨htid.symm, by omega⟩).1
    · intro key hstatus htid _
      by_contra hfar
      have hdistance := ((h key hstatus).mp ⟨htid.symm, by omega⟩).2.2
      have hnumber := key.sequenceNumber_lt
      rw [sequenceNumberDistance] at hdistance
      omega
    · intro key hstatus htid haddress hlt
      by_contra hnear
      have hblock : InBlock req key := by
        refine ⟨haddress, htid, ?_⟩
        rw [sequenceNumberDistance]
        omega
      have := ((h key hstatus).mpr hblock).2
      omega

/-- What a basic request does to the status of a key. -/
theorem requested_getElem? (handler : QoSAckHandler) (tidInfo start : ℕ) (key : QoSKey) :
    (handler.ackStatuses.map fun key status => requested tidInfo start status key)[key]? =
      if handler.ackStatuses[key]? = some .BLOCK_ACK_NOT_YET_REQUESTED ∧
          (tidInfo = key.tid ∧ key.sequenceNumber ≥ start) then
        some .WAITING_FOR_BLOCK_ACK
      else handler.ackStatuses[key]? := by
  rw [Std.TreeMap.getElem?_map]
  cases hstatus : handler.ackStatuses[key]? with
  | none => simp
  | some status =>
    simp only [Option.map_some, requested, Option.some.injEq]
    split_ifs <;> grind

/-- What a BlockAck does to the status of a key. -/
theorem processReceivedBlockAck_getElem? {blockAck : Ieee80211BlockAck}
    (answers : Answers req blockAck) (asked : QoSAckHandler) :
    ∃ finished ackedFrames,
      asked.processReceivedBlockAck blockAck = .ok (finished, ackedFrames) ∧
      ∀ key, finished.ackStatuses[key]? =
        if InBlock req key then some (settled (bitOf blockAck key) asked.ackStatuses[key]?)
        else asked.ackStatuses[key]? := by
  obtain ⟨entries, hkeys, hmem, hbits⟩ := blockAckKeys_spec answers
  refine ⟨(entries.foldl visit (asked, ∅)).1, (entries.foldl visit (asked, ∅)).2, ?_, ?_⟩
  · rw [processReceivedBlockAck, hkeys]
    rfl
  · intro key
    have hfold := @foldl_visit_getElem? entries (asked, ∅) key _ fun entry hentry hkey =>
      hkey ▸ hbits entry hentry
    rw [hfold]
    simp only [hmem key]

/-- A request and its answer settle the frames of the block just in case the request asks for
them. -/
theorem processTransmittedBlockAckReq_exact_iff (handler : QoSAckHandler)
    (req : Ieee80211BlockAckReq) (basic : req.variant = .basic) (blockAck : Ieee80211BlockAck)
    (answers : Answers req blockAck) :
    ∃ asked finished ackedFrames, handler.processTransmittedBlockAckReq req = .ok asked ∧
      asked.processReceivedBlockAck blockAck = .ok (finished, ackedFrames) ∧
      (Settles req blockAck handler asked finished ↔ AsksForBlock req handler) := by
  let asked : QoSAckHandler :=
    { ackStatuses := handler.ackStatuses.map fun key status =>
        requested req.tidInfo req.startingSequenceNumber status key }
  have hreq : handler.processTransmittedBlockAckReq req = .ok asked := by
    rw [processTransmittedBlockAckReq, basic]
  have hasked := fun key =>
    requested_getElem? handler req.tidInfo req.startingSequenceNumber key
  obtain ⟨finished, ackedFrames, hanswer, hfinished⟩ :=
    processReceivedBlockAck_getElem? answers asked
  refine ⟨asked, finished, ackedFrames, hreq, hanswer, ?_⟩
  rw [asksForBlock_iff]
  constructor
  · intro h key hstatus
    have heq := (hasked key).symm.trans (h.requests key)
    simp only [hstatus, true_and] at heq
    split_ifs at heq with hcode hblock hblock
    · exact iff_of_true hcode hblock
    · cases heq
    · cases heq
    · exact iff_of_false hcode hblock
  · intro h
    have hrequests : ∀ key, asked.ackStatuses[key]? =
        if handler.ackStatuses[key]? = some .BLOCK_ACK_NOT_YET_REQUESTED ∧ InBlock req key then
          some .WAITING_FOR_BLOCK_ACK
        else handler.ackStatuses[key]? := by
      intro key
      rw [hasked key]
      exact if_congr (and_congr_right fun hstatus => h key hstatus) rfl rfl
    refine ⟨hrequests, ?_, ?_⟩
    · intro key hstatus hwaiting
      have hblock : InBlock req key := by
        by_contra hout
        rw [hrequests key, if_neg fun hin => hout hin.2, hstatus] at hwaiting
        cases hwaiting
      rw [hfinished key, if_pos hblock, hwaiting]
      rfl
    · intro key hne
      have hout : ¬ InBlock req key := fun hin => hne hin.1
      rw [hfinished key, if_neg hout, hrequests key, if_neg fun hin => hout hin.2]

/-- A property of the frames with a status is one of the entries of the map. -/
theorem forall_of_entries {handler : QoSAckHandler} {status : Status} {P : QoSKey → Prop}
    (h : ∀ entry ∈ handler.ackStatuses.toList, entry.2 = status → P entry.1) (key : QoSKey)
    (hstatus : handler.ackStatuses[key]? = some status) : P key :=
  h (key, status) (Std.TreeMap.mem_toList_iff_getElem?_eq_some.mpr hstatus) rfl

/-- The handler after some frames with Block Ack policy have been sent. -/
def inFlight (keys : List QoSKey) : QoSAckHandler :=
  { ackStatuses := keys.foldl (fun statuses key => statuses.insert key .BLOCK_ACK_NOT_YET_REQUESTED)
      ∅ }

def requestFrom100 : Ieee80211BlockAckReq := { receiverAddress := 1, startingSequenceNumber := 100 }

def answerFrom100 : Ieee80211BlockAck :=
  { transmitterAddress := 1, startingSequenceNumber := 100, blockAckBitmap := [[true]] }

theorem answerFrom100_answers : Answers requestFrom100 answerFrom100 := ⟨rfl, rfl, rfl, rfl⟩

/-- Frames to two receivers, of which the second gets lower numbers or another TID. -/
def separateFrames : QoSAckHandler :=
  inFlight
    [⟨1, 0, 100, 0, by decide, zero_lt_fragmentNumbers⟩, ⟨1, 0, 163, 2, by decide, by decide⟩,
      ⟨2, 0, 99, 0, by decide, zero_lt_fragmentNumbers⟩,
      ⟨2, 5, 130, 0, by decide, zero_lt_fragmentNumbers⟩]

theorem processTransmittedBlockAckReq_exact_of_separateFrames : ∃ asked finished ackedFrames,
      separateFrames.processTransmittedBlockAckReq requestFrom100 = .ok asked ∧
      asked.processReceivedBlockAck answerFrom100 = .ok (finished, ackedFrames) ∧
      Settles requestFrom100 answerFrom100 separateFrames asked finished := by
  obtain ⟨asked, finished, ackedFrames, hasked, hfinished, hiff⟩ :=
    processTransmittedBlockAckReq_exact_iff separateFrames requestFrom100 rfl answerFrom100
      answerFrom100_answers
  refine ⟨asked, finished, ackedFrames, hasked, hfinished, hiff.mpr ⟨?_, ?_, ?_⟩⟩
  · exact forall_of_entries (by decide)
  · exact forall_of_entries (by decide)
  · exact forall_of_entries (by decide)

/-- A frame to another receiver with a higher number. -/
def mixedFrames : QoSAckHandler :=
  inFlight [⟨1, 0, 100, 0, by decide, zero_lt_fragmentNumbers⟩,
    ⟨2, 0, 101, 0, by decide, zero_lt_fragmentNumbers⟩]

/-- The request asks for the frame of the other receiver, for which no answer comes. -/
theorem processTransmittedBlockAckReq_not_exact_of_mixedFrames : ∃ asked finished ackedFrames,
      mixedFrames.processTransmittedBlockAckReq requestFrom100 = .ok asked ∧
      asked.processReceivedBlockAck answerFrom100 = .ok (finished, ackedFrames) ∧
      finished.ackStatuses[(⟨2, 0, 101, 0, by decide, by decide⟩ : QoSKey)]? =
        some .WAITING_FOR_BLOCK_ACK ∧
      ¬ Settles requestFrom100 answerFrom100 mixedFrames asked finished := by
  let asked : QoSAckHandler :=
    { ackStatuses := mixedFrames.ackStatuses.map fun key status => requested 0 100 status key }
  obtain ⟨finished, ackedFrames, hanswer, hfinished⟩ :=
    processReceivedBlockAck_getElem? answerFrom100_answers asked
  refine ⟨asked, finished, ackedFrames, rfl, hanswer, ?_, ?_⟩
  · rw [hfinished]
    decide
  · intro h
    have hother := h.requests ⟨2, 0, 101, 0, by decide, by decide⟩
    revert hother
    decide

end QoSAckHandler

end Inet.Ieee80211
