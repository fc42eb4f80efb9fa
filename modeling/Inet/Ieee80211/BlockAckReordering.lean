import Inet.Ieee80211.ReceiveBufferOrder
import Inet.Library.Run

/-!
# Order of the MSDUs that are passed up

The numbers that the reordering passes up are placed on a line by the distance from the next
expected number of the moment. Along a run they ascend, and the next expected number is one past
the last of them, for as long as every call is orderly (`Session.in_order_of_orderly`).
-/

namespace Inet.Ieee80211

open ReceiveBuffer
open BlockAckReordering (createReceiveBufferIfNecessary withBuffer)
open List

/-- The number `b` as an offset from `a`: up to half the number space ahead, or behind. -/
def sequenceNumberOffset (a b : ℕ) : ℤ :=
  if sequenceNumberDistance a b < 2048 then sequenceNumberDistance a b
  else sequenceNumberDistance a b - 4096

/-- What goes through the reordering. -/
inductive ReorderingOp where
  | qos (dataFrame : Ieee80211DataFrame)
  | blockAckReq (frame : Ieee80211BlockAckReq)
  /-- The frames of another agreement change another receive buffer. -/
  | other (id : ℕ ×ₗ ℕ) (receiveBuffer : ReceiveBuffer)

/-- The reordering for one agreement, with what it has passed up so far. `position` is the place
of the next expected number on the line of all numbers since the start. -/
structure Session where
  reordering : BlockAckReordering
  agreement : RecipientBlockAckAgreement
  position : ℤ
  /-- The numbers of all MSDUs that have been passed up, and their places. -/
  delivered : List ℕ := []
  places : List ℤ := []
  /-- The next expected number before the last call, and what that call has passed up. -/
  before : ℕ
  passed : List ℕ := []

namespace Session

variable {s : Session}

def receiveBuffer (s : Session) : ReceiveBuffer :=
  s.reordering.createReceiveBufferIfNecessary s.agreement

def nextExpected (s : Session) : ℕ := s.receiveBuffer.nextExpectedSequenceNumber

def place (s : Session) (q : ℕ) : ℤ := s.position + sequenceNumberOffset s.nextExpected q

/-- A reordering that has no buffer yet for the agreement. -/
def start (reordering : BlockAckReordering) (agreement : RecipientBlockAckAgreement) : Session :=
  { reordering
    agreement
    position := agreement.startingSequenceNumber
    before := agreement.startingSequenceNumber }

/-- The session after a call, which has passed up `mpdus`. -/
def after (s : Session) (reordering : BlockAckReordering)
    (agreement : RecipientBlockAckAgreement) (mpdus : ReorderBuffer) : Session :=
  { reordering
    agreement
    position :=
      s.place (reordering.createReceiveBufferIfNecessary agreement).nextExpectedSequenceNumber
    delivered := s.delivered ++ numbersOf mpdus
    places := s.places ++ (numbersOf mpdus).map s.place
    before := s.nextExpected
    passed := numbersOf mpdus }

def step (s : Session) : ReorderingOp → Result Session
  | .qos dataFrame => do
      let (reordering, agreement, mpdus) ←
        s.reordering.processReceivedQoSFrame s.agreement dataFrame
      .ok (s.after reordering agreement mpdus)
  | .blockAckReq frame => do
      let (reordering, mpdus) ← s.reordering.processReceivedBlockAckReq frame
      .ok (s.after reordering s.agreement mpdus)
  | .other id receiveBuffer =>
    .ok (s.after (s.reordering.withBuffer id receiveBuffer) s.agreement ∅)

/-- A request is a basic one for the agreement, and another agreement has another key. -/
def Addressed (s : Session) : ReorderingOp → Prop
  | .qos _ => True
  | .blockAckReq frame =>
    frame.variant = .basic ∧ toLex (frame.tidInfo, frame.transmitterAddress) = s.agreement.id
  | .other id _ => id ≠ s.agreement.id

/-- What is passed up in this state is passed up in order. -/
def Orderly (s : Session) : ReorderingOp → Prop
  | .qos dataFrame => ∀ rb ∈ s.receiveBuffer.insertFrame dataFrame, rb.LoneBehind
  | .blockAckReq frame => s.receiveBuffer.OrderlyRequest frame.startingSequenceNumber
  | .other _ _ => True

instance (s : Session) (op : ReorderingOp) : Decidable (s.Addressed op) :=
  match op with
  | .qos _ => .isTrue trivial
  | .blockAckReq frame => inferInstanceAs (Decidable
      (frame.variant = .basic ∧ toLex (frame.tidInfo, frame.transmitterAddress) = s.agreement.id))
  | .other id _ => inferInstanceAs (Decidable (id ≠ s.agreement.id))

instance (s : Session) (op : ReorderingOp) : Decidable (s.Orderly op) :=
  match op with
  | .qos dataFrame => inferInstanceAs
      (Decidable (∀ rb ∈ s.receiveBuffer.insertFrame dataFrame, rb.LoneBehind))
  | .blockAckReq frame => inferInstanceAs
      (Decidable (s.receiveBuffer.OrderlyRequest frame.startingSequenceNumber))
  | .other _ _ => .isTrue trivial

/-- The MSDUs have been passed up in ascending order, and a number twice only when all others lie
between. Those of the last call ascend in the circular order from the number that was expected
next, and now the one past the last of them is expected. -/
structure InOrder (s : Session) : Prop where
  ascending : s.places.Pairwise (· < ·)
  numbers : s.places.map (· % 4096) = s.delivered.map Nat.cast
  once : s.places.Pairwise fun a b => a % 4096 = b % 4096 → a + 4096 ≤ b
  circular : s.passed.Pairwise fun a b =>
    sequenceNumberDistance s.before a < sequenceNumberDistance s.before b
  next : ∀ q ∈ s.passed.getLast?, s.nextExpected = (q + 1) % 4096

instance (s : Session) : Decidable (InOrder s) :=
  decidable_of_iff (s.places.Pairwise (· < ·) ∧ s.places.map (· % 4096) = s.delivered.map Nat.cast ∧
      (s.places.Pairwise fun a b => a % 4096 = b % 4096 → a + 4096 ≤ b) ∧
      (s.passed.Pairwise fun a b =>
        sequenceNumberDistance s.before a < sequenceNumberDistance s.before b) ∧
      ∀ q ∈ s.passed.getLast?, s.nextExpected = (q + 1) % 4096)
    ⟨fun ⟨h₁, h₂, h₃, h₄, h₅⟩ => ⟨h₁, h₂, h₃, h₄, h₅⟩,
      fun ⟨h₁, h₂, h₃, h₄, h₅⟩ => ⟨h₁, h₂, h₃, h₄, h₅⟩⟩

/-- The invariant: everything that has been passed up lies before the next expected number. -/
structure Steady (s : Session) : Prop where
  wellFormed : s.receiveBuffer.WellFormed
  inReach : s.receiveBuffer.InReach
  position : s.position % 4096 = s.nextExpected
  places_lt : ∀ place ∈ s.places, place < s.position
  inOrder : InOrder s

theorem place_emod (hposition : s.position % 4096 = s.nextExpected) {q : ℕ} (hq : q < 4096)
    (hnext : s.nextExpected < 4096) : s.place q % 4096 = q := by
  have hplace := add_sequenceNumberDistance hnext hq
  unfold place sequenceNumberOffset
  split_ifs <;> omega

/-- Numbers within reach have their place ahead. -/
theorem place_eq {q n : ℕ} (hahead : s.receiveBuffer.ahead q = n) (hle : n ≤ 65) :
    s.place q = s.position + n := by
  unfold place sequenceNumberOffset
  rw [ReceiveBuffer.ahead] at hahead
  rw [nextExpected, hahead, if_pos (by omega)]

/-- The next expected number moves past everything that is passed up, and not far. -/
theorem ahead_lt_next {rb rb' : ReceiveBuffer} {passed : List ℕ} (h : rb.WellFormed)
    (hpasses : PassesInOrder rb rb' passed) :
    rb.ahead rb'.nextExpectedSequenceNumber ≤ 65 ∧
      ∀ q ∈ passed, rb.ahead q < rb.ahead rb'.nextExpectedSequenceNumber := by
  have hsize := h.size_le
  cases hlast : passed.getLast? with
  | none =>
    rw [getLast?_eq_none_iff] at hlast
    have hidle := hpasses.idle hlast
    subst hlast
    exact ⟨by omega, fun q hq => absurd hq not_mem_nil⟩
  | some last =>
    obtain ⟨front, rfl⟩ := getLast?_eq_some_iff.mp hlast
    have hnext := hpasses.next last hlast
    obtain ⟨hlast_lt, hreach⟩ := hpasses.reach last (by simp)
    have hone : rb.ahead rb'.nextExpectedSequenceNumber = rb.ahead last + 1 := by
      have hnext_lt := h.next_lt
      rw [hnext]
      simp only [ReceiveBuffer.ahead, sequenceNumberDistance] at *
      omega
    refine ⟨by omega, fun q hq => ?_⟩
    obtain hq | hq := mem_append.mp hq
    · have hlt := (pairwise_append.mp hpasses.ascending).2.2 q hq last (by simp)
      omega
    · obtain rfl := mem_singleton.mp hq
      omega

theorem Steady.after (h : Steady s) {reordering : BlockAckReordering}
    {agreement : RecipientBlockAckAgreement} {mpdus : ReorderBuffer}
    (hpasses : PassesInOrder s.receiveBuffer
      (reordering.createReceiveBufferIfNecessary agreement) (numbersOf mpdus)) :
    Steady (s.after reordering agreement mpdus) := by
  obtain ⟨hnear, hpast⟩ := ahead_lt_next h.wellFormed hpasses
  have hnext_lt : s.nextExpected < 4096 := h.wellFormed.next_lt
  have hposition := place_eq rfl hnear
  have hplace : ∀ q ∈ numbersOf mpdus, s.place q = s.position + s.receiveBuffer.ahead q := by
    intro q hq
    exact place_eq rfl ((hpast q hq).le.trans hnear)
  have hascending : (s.places ++ (numbersOf mpdus).map s.place).Pairwise (· < ·) := by
    refine pairwise_append.mpr ⟨h.inOrder.ascending, ?_, ?_⟩
    · rw [pairwise_map]
      refine hpasses.ascending.imp_of_mem fun {a b} ha hb hlt => ?_
      rw [hplace a ha, hplace b hb]
      omega
    · intro old hold new hnew
      obtain ⟨q, hq, rfl⟩ := mem_map.mp hnew
      have hlt := h.places_lt old hold
      rw [hplace q hq]
      omega
  refine ⟨hpasses.wellFormed, hpasses.inReach, ?_, ?_, hascending, ?_, ?_, ?_, hpasses.next⟩
  · exact place_emod h.position hpasses.wellFormed.next_lt hnext_lt
  · intro place hmem
    show place < s.place _
    rw [hposition]
    obtain hold | hnew := mem_append.mp hmem
    · have hlt := h.places_lt place hold
      omega
    · obtain ⟨q, hq, rfl⟩ := mem_map.mp hnew
      have hlt := hpast q hq
      rw [hplace q hq]
      omega
  · show (s.places ++ (numbersOf mpdus).map s.place).map (· % 4096) =
      (s.delivered ++ numbersOf mpdus).map Nat.cast
    rw [map_append, map_append, h.inOrder.numbers, map_map]
    congr 1
    refine map_congr_left fun q hq => ?_
    exact place_emod h.position (hpasses.reach q hq).1 hnext_lt
  · refine hascending.imp fun {a b} hlt hsame => ?_
    omega
  · exact hpasses.ascending

theorem createReceiveBufferIfNecessary_withBuffer (reordering : BlockAckReordering)
    (agreement : RecipientBlockAckAgreement) (rb : ReceiveBuffer) :
    (reordering.withBuffer agreement.id rb).createReceiveBufferIfNecessary agreement = rb := by
  rw [createReceiveBufferIfNecessary, withBuffer, Std.TreeMap.getD_insert_self]

theorem createReceiveBufferIfNecessary_withBuffer_of_ne (reordering : BlockAckReordering)
    {agreement : RecipientBlockAckAgreement} {id : ℕ ×ₗ ℕ} (hid : id ≠ agreement.id)
    (rb : ReceiveBuffer) :
    (reordering.withBuffer id rb).createReceiveBufferIfNecessary agreement =
      reordering.createReceiveBufferIfNecessary agreement := by
  have hne : compare id agreement.id ≠ .eq := fun heq =>
    hid (Std.LawfulEqOrd.eq_of_compare heq)
  rw [createReceiveBufferIfNecessary, withBuffer, Std.TreeMap.getD_insert, if_neg hne]
  rfl

/-- A call that changes nothing for the agreement. -/
theorem Steady.unchanged (h : Steady s) {reordering : BlockAckReordering}
    (hsame : reordering.createReceiveBufferIfNecessary s.agreement = s.receiveBuffer) :
    Steady (s.after reordering s.agreement ∅) := by
  apply h.after
  rw [hsame]
  exact (Released.refl _).passesInOrder h.wellFormed h.inReach
    (fun _ hq => absurd hq not_mem_nil) .nil (fun _ hq => absurd hq not_mem_nil)

theorem Steady.qos (h : Steady s) {dataFrame : Ieee80211DataFrame}
    (horderly : s.Orderly (.qos dataFrame)) :
    ∃ reordering agreement mpdus,
      s.reordering.processReceivedQoSFrame s.agreement dataFrame =
        .ok (reordering, agreement, mpdus) ∧ Steady (s.after reordering agreement mpdus) := by
  have hbuffer : s.reordering.createReceiveBufferIfNecessary s.agreement = s.receiveBuffer := rfl
  unfold BlockAckReordering.processReceivedQoSFrame
  dsimp only
  rw [hbuffer]
  cases hins : s.receiveBuffer.insertFrame dataFrame with
  | none =>
    refine ⟨_, _, _, rfl, h.unchanged ?_⟩
    exact createReceiveBufferIfNecessary_withBuffer _ _ _
  | some rb =>
    obtain ⟨hwf, hreach, hsize, hnext⟩ := insertFrame_spec h.wellFormed h.inReach hins
    obtain ⟨rb', mpdus, hok, hpasses⟩ := passUpEarliest_spec hwf hreach (horderly rb hins)
    have hafter : ∀ agreement' : RecipientBlockAckAgreement, agreement'.id = s.agreement.id →
        Steady (s.after (s.reordering.withBuffer s.agreement.id rb') agreement' mpdus) := by
      intro agreement' hid
      apply h.after
      rw [← hid, createReceiveBufferIfNecessary_withBuffer]
      exact hpasses.of_insert hsize hnext
    by_cases hpolicy : dataFrame.ackPolicy = .BLOCK_ACK
    · obtain ⟨agreement', hagreement, hid⟩ := s.agreement.blockAckPolicyFrameReceived_ok hpolicy
      refine ⟨_, agreement', mpdus, ?_, hafter agreement' hid⟩
      simp only [if_pos hpolicy, hagreement, ok_bind, hok]
    · refine ⟨_, s.agreement, mpdus, ?_, hafter s.agreement rfl⟩
      simp only [if_neg hpolicy, ok_bind, hok]

theorem Steady.blockAckReq (h : Steady s) {frame : Ieee80211BlockAckReq}
    (haddressed : s.Addressed (.blockAckReq frame))
    (horderly : s.Orderly (.blockAckReq frame)) :
    ∃ reordering mpdus, s.reordering.processReceivedBlockAckReq frame = .ok (reordering, mpdus) ∧
      Steady (s.after reordering s.agreement mpdus) := by
  obtain ⟨hbasic, hid⟩ := haddressed
  unfold BlockAckReordering.processReceivedBlockAckReq
  simp only [hbasic, hid]
  cases hbuffer : s.reordering.receiveBuffers[s.agreement.id]? with
  | none => exact ⟨_, _, rfl, h.unchanged rfl⟩
  | some rb =>
    obtain rfl : s.receiveBuffer = rb := by
      rw [receiveBuffer, createReceiveBufferIfNecessary, Std.TreeMap.getD_eq_getD_getElem?, hbuffer]
      rfl
    obtain ⟨rb', mpdus, hok, hpasses⟩ := passUpRequested_spec h.wellFormed h.inReach horderly
      frame.startingSequenceNumber_lt
    refine ⟨_, mpdus, by simp only [hok, ok_bind]; rfl, ?_⟩
    apply h.after
    rw [createReceiveBufferIfNecessary_withBuffer]
    exact hpasses

theorem Steady.step (h : Steady s) {op : ReorderingOp} (haddressed : s.Addressed op)
    (horderly : s.Orderly op) : ∃ t, s.step op = .ok t ∧ Steady t := by
  cases op with
  | qos dataFrame =>
    obtain ⟨reordering, agreement, mpdus, hok, ht⟩ := h.qos horderly
    exact ⟨_, by rw [Session.step, hok]; rfl, ht⟩
  | blockAckReq frame =>
    obtain ⟨reordering, mpdus, hok, ht⟩ := h.blockAckReq haddressed horderly
    exact ⟨_, by rw [Session.step, hok]; rfl, ht⟩
  | other id rb =>
    exact ⟨_, rfl, h.unchanged (createReceiveBufferIfNecessary_withBuffer_of_ne _ haddressed rb)⟩

theorem steady_start (reordering : BlockAckReordering) (agreement : RecipientBlockAckAgreement)
    (hnew : reordering.receiveBuffers[agreement.id]? = none) :
    Steady (start reordering agreement) := by
  have hbuffer : (start reordering agreement).receiveBuffer =
      { bufferSize := agreement.bufferSize
        nextExpectedSequenceNumber := agreement.startingSequenceNumber } := by
    show reordering.createReceiveBufferIfNecessary agreement = _
    rw [createReceiveBufferIfNecessary, Std.TreeMap.getD_eq_getD_getElem?, hnew]
    rfl
  refine ⟨?_, ?_, ?_, fun place hmem => absurd hmem not_mem_nil, ?_⟩
  · rw [hbuffer]
    exact wellFormed_new agreement
  · rw [hbuffer]
    rintro q ⟨fragments, hget, -⟩
    exact absurd hget (by simp)
  · rw [nextExpected, hbuffer]
    have hlt := agreement.startingSequenceNumber_lt
    show (agreement.startingSequenceNumber : ℤ) % 4096 = agreement.startingSequenceNumber
    omega
  · exact ⟨.nil, rfl, .nil, .nil, fun q hq => nomatch hq⟩

/-- From an agreement without a buffer on, MSDUs are passed up in order and at most once for as
long as every call is orderly. -/
theorem in_order_of_orderly (reordering : BlockAckReordering)
    (agreement : RecipientBlockAckAgreement) (ops : List ReorderingOp)
    (hnew : reordering.receiveBuffers[agreement.id]? = none)
    (haddressed : Run.Admissible step Addressed (start reordering agreement) ops)
    (horderly : Run.Admissible step Orderly (start reordering agreement) ops) :
    Run.Always step InOrder (start reordering agreement) ops := by
  refine Run.Always.mono (fun s hs => Steady.inOrder hs)
    (Run.always_of_step ?_ (steady_start reordering agreement hnew) (haddressed.and horderly))
  exact fun s op hs hok => hs.step hok.1 hok.2

/-- Numbers 4 and 5 come before 3 and wait for it, with a second copy of 5. Then a request for the
numbers from 7 on passes up 6, which is all that is left of what precedes them. -/
def sampleAgreement : RecipientBlockAckAgreement :=
  { startingSequenceNumber := 3, bufferSize := 4 }

def sampleOps : List ReorderingOp :=
  [.qos { sequenceNumber := 4 }, .qos { sequenceNumber := 5 }, .qos { sequenceNumber := 5 },
    .qos { sequenceNumber := 3 }, .blockAckReq { startingSequenceNumber := 7 }]

theorem in_order_of_sampleOps : Run.Always step InOrder (start {} sampleAgreement) sampleOps :=
  in_order_of_orderly {} sampleAgreement sampleOps rfl (by decide +kernel) (by decide +kernel)

/-- Numbers 4095 and 0 wait for 4094, and a request for the numbers from 1 on passes them up: 0
comes first in the returned map, 4095 after it. -/
theorem not_in_order_across_wrap :
    ¬ ∀ (reordering : BlockAckReordering) (agreement : RecipientBlockAckAgreement)
        (ops : List ReorderingOp), reordering.receiveBuffers[agreement.id]? = none →
        Run.Admissible step Addressed (start reordering agreement) ops →
        Run.Throughout step InOrder (start reordering agreement) ops := by
  intro h
  have hrun := h {} { startingSequenceNumber := 4094, bufferSize := 8 }
    [.qos { sequenceNumber := 4095 }, .qos { sequenceNumber := 0 },
      .blockAckReq { startingSequenceNumber := 1 }] rfl (by decide +kernel)
  revert hrun
  decide +kernel

end Session

end Inet.Ieee80211
