import Inet.Ieee80211.ReceiveBufferOrder
import Inet.Library.Run

/-!
# Window of the receive buffer

The counter of a receive buffer is the number of fragments in it, and stays at most the size. The
numbers in it are less than the size ahead of the next expected one for as long as nothing that is
incomplete is left behind: by an MSDU that is passed up before it, or by a BlockAckReq, which is to
release everything that precedes its starting number but releases what is complete
(`BlockAckReordering.keptWindow_iff`).
-/

namespace Inet.Ieee80211

namespace ReceiveBuffer

variable {rb rb' : ReceiveBuffer} {q start : ℕ} {fragments : Fragments}

/-- The number of fragments in all entries. -/
def fragmentCount (buffer : ReorderBuffer) : ℕ := (buffer.toList.map fun it => it.2.length).sum

/-- The counter of the buffer is the number of fragments in it. -/
def Counted (rb : ReceiveBuffer) : Prop := rb.length = fragmentCount rb.buffer

/-- The counter is right and there is room for it, and what is buffered lies in the window. -/
structure Windowed (rb : ReceiveBuffer) : Prop where
  counted : rb.Counted
  length_le : rb.length ≤ rb.bufferSize
  window : ∀ q ∈ numbersOf rb.buffer, rb.ahead q < rb.bufferSize

/-- The number precedes the starting number of a request. -/
def Precedes (rb : ReceiveBuffer) (start q : ℕ) : Prop :=
  isSequenceNumberLess q start rb.nextExpectedSequenceNumber rb.bufferSize = true
deriving Decidable

/-- The numbers that are buffered once the frame has come. -/
def numbersWith (rb : ReceiveBuffer) (dataFrame : Ieee80211DataFrame) : List ℕ :=
  dataFrame.sequenceNumber :: numbersOf rb.buffer

/-- The fragments of a number once the frame has come. -/
def fragmentsWith (rb : ReceiveBuffer) (dataFrame : Ieee80211DataFrame) (q : ℕ) : Fragments :=
  if q = dataFrame.sequenceNumber then rb.buffer.getD q [] ++ [dataFrame]
  else rb.buffer.getD q []

/-- With the frame, this is the earliest complete MSDU, and it is expected next or the frame fills
the buffer. -/
def LetsGo (rb : ReceiveBuffer) (dataFrame : Ieee80211DataFrame) (e : ℕ) : Prop :=
  isComplete (rb.fragmentsWith dataFrame e) = true ∧
    (∀ q ∈ rb.numbersWith dataFrame, isComplete (rb.fragmentsWith dataFrame q) = true →
      ¬ isSequenceNumberLess q e rb.nextExpectedSequenceNumber rb.bufferSize = true) ∧
    (rb.length + 1 = rb.bufferSize ∨ e = rb.nextExpectedSequenceNumber)
deriving Decidable

/-- A frame that there is room for lets no MSDU go and lies in the window, or it lets one go before
which nothing is buffered. -/
def LeavesNoneBehind (rb : ReceiveBuffer) (dataFrame : Ieee80211DataFrame) : Prop :=
  rb.length < rb.bufferSize → rb.ahead dataFrame.sequenceNumber ≤ rb.bufferSize →
    (rb.ahead dataFrame.sequenceNumber < rb.bufferSize ∧
      ∀ e ∈ rb.numbersWith dataFrame, ¬ rb.LetsGo dataFrame e) ∨
    ∃ e ∈ rb.numbersWith dataFrame, rb.LetsGo dataFrame e ∧
      ∀ q ∈ rb.numbersWith dataFrame, q ≠ e → rb.ahead e < rb.ahead q
deriving Decidable

instance : Decidable (Windowed rb) :=
  decidable_of_iff (rb.length = fragmentCount rb.buffer ∧ rb.length ≤ rb.bufferSize ∧
      ∀ q ∈ numbersOf rb.buffer, rb.ahead q < rb.bufferSize)
    ⟨fun ⟨h₁, h₂, h₃⟩ => ⟨h₁, h₂, h₃⟩, fun ⟨h₁, h₂, h₃⟩ => ⟨h₁, h₂, h₃⟩⟩

section

variable {m m' : ReorderBuffer}

theorem nodup_toList (m : ReorderBuffer) : m.toList.Nodup :=
  m.ordered_keys_toList.imp fun hlt heq => absurd (heq ▸ hlt) (by simp)

theorem fragmentCount_congr (h : ∀ q : ℕ, m[q]? = m'[q]?) : fragmentCount m = fragmentCount m' := by
  have hperm : m.toList.Perm m'.toList := by
    apply (List.perm_ext_iff_of_nodup (nodup_toList m) (nodup_toList m')).mpr
    rintro ⟨q, fragments⟩
    rw [Std.TreeMap.mem_toList_iff_getElem?_eq_some, Std.TreeMap.mem_toList_iff_getElem?_eq_some, h]
  exact (hperm.map _).sum_nat

theorem fragmentCount_insert (m : ReorderBuffer) (q : ℕ) (fragments : Fragments) :
    fragmentCount (m.insert q fragments) = fragments.length + fragmentCount (m.erase q) := by
  have hperm : (m.insert q fragments).toList.Perm ((q, fragments) :: (m.erase q).toList) := by
    have hnew : (q, fragments) ∉ (m.erase q).toList := by
      rw [Std.TreeMap.mem_toList_iff_getElem?_eq_some, Std.TreeMap.getElem?_erase_self]
      exact Option.some_ne_none fragments ∘ Eq.symm
    apply (List.perm_ext_iff_of_nodup (nodup_toList _)
      (List.nodup_cons.mpr ⟨hnew, nodup_toList _⟩)).mpr
    rintro ⟨p, other⟩
    rw [List.mem_cons, Std.TreeMap.mem_toList_iff_getElem?_eq_some,
      Std.TreeMap.mem_toList_iff_getElem?_eq_some, Std.TreeMap.getElem?_insert,
      Std.TreeMap.getElem?_erase, Prod.mk.injEq]
    simp only [Std.compare_eq_iff_eq]
    split_ifs with hpq
    · simp [hpq, eq_comm]
    · simp [Ne.symm hpq]
  rw [fragmentCount, (hperm.map _).sum_nat, List.map_cons, List.sum_cons]
  rfl

/-- What an entry holds counts, and the rest. -/
theorem fragmentCount_eq (m : ReorderBuffer) (q : ℕ) :
    fragmentCount m = (m.getD q []).length + fragmentCount (m.erase q) := by
  rw [Std.TreeMap.getD_eq_getD_getElem?]
  cases hget : m[q]? with
  | none =>
    rw [Option.getD_none, List.length_nil, Nat.zero_add]
    apply fragmentCount_congr
    intro p
    rw [Std.TreeMap.getElem?_erase]
    simp only [Std.compare_eq_iff_eq]
    split_ifs with hqp
    · exact hqp ▸ hget
    · rfl
  | some fragments =>
    rw [Option.getD_some, ← fragmentCount_insert]
    apply fragmentCount_congr
    intro p
    rw [Std.TreeMap.getElem?_insert]
    simp only [Std.compare_eq_iff_eq]
    split_ifs with hqp
    · exact hqp ▸ hget
    · rfl

theorem Counted.insertFrame {frame : Ieee80211DataFrame} (h : Counted rb)
    (hins : rb.insertFrame frame = some rb') : Counted rb' := by
  unfold ReceiveBuffer.insertFrame at hins
  dsimp only at hins
  split_ifs at hins
  cases hins
  have hcount := fragmentCount_eq rb.buffer frame.sequenceNumber
  show rb.length + 1 = fragmentCount _
  rw [fragmentCount_insert, List.length_append, List.length_singleton, h]
  omega

theorem Counted.passedUp (h : Counted rb) (hup : rb.passedUp q = .ok rb') : Counted rb' := by
  unfold ReceiveBuffer.passedUp remove at hup
  dsimp only at hup
  cases hget : rb.buffer[q]? with
  | none =>
    rw [hget] at hup
    cases hup
  | some fragments =>
    rw [hget] at hup
    cases hup
    have hcount := fragmentCount_eq rb.buffer q
    rw [Std.TreeMap.getD_eq_getD_getElem?, hget, Option.getD_some] at hcount
    show rb.length - fragments.length = fragmentCount (rb.buffer.erase q)
    rw [h]
    omega

theorem Counted.releaseReceiveBuffer {mpdus : ReorderBuffer} (h : Counted rb)
    (hok : rb.releaseReceiveBuffer mpdus = .ok rb') : Counted rb' := by
  unfold ReceiveBuffer.releaseReceiveBuffer at hok
  generalize mpdus.toList = entries at hok
  induction entries generalizing rb with
  | nil =>
    cases hok
    exact h
  | cons entry entries ih =>
    rw [List.foldlM_cons] at hok
    cases hup : rb.passedUp entry.1 with
    | error e =>
      rw [hup] at hok
      cases hok
    | ok rb₁ =>
      rw [hup] at hok
      exact ih (h.passedUp hup) hok

variable {rb₁ : ReceiveBuffer} {dataFrame : Ieee80211DataFrame} {e : ℕ}

theorem WellFormed.lt_of_mem (h : WellFormed rb) (hq : q ∈ numbersOf rb.buffer) : q < 4096 := by
  obtain ⟨fragments, hget⟩ := mem_numbersOf.mp hq
  exact h.number q fragments hget

theorem Released.mem_iff {numbers : List ℕ} (h : Released rb rb' numbers) :
    q ∈ numbersOf rb'.buffer ↔ q ∈ numbersOf rb.buffer ∧ q ∉ numbers := by
  rw [mem_numbersOf, mem_numbersOf, h.get]
  split_ifs with hq <;> simp [hq]

theorem Windowed.inReach (h : Windowed rb) : InReach rb :=
  fun q hq => (h.window q hq.mem).le

/-- Of the numbers around the window, those ahead of the one that is passed up stay in it. -/
theorem lt_ahead_after_iff {next size : ℕ} (hnext : next < 4096) (hsize : size ≤ 64)
    (hq : q < 4096) (he : e < 4096) (hqle : sequenceNumberDistance next q ≤ size)
    (hele : sequenceNumberDistance next e ≤ size) :
    sequenceNumberDistance ((e + 1) % 4096) q < size ↔
      sequenceNumberDistance next e < sequenceNumberDistance next q := by
  simp only [sequenceNumberDistance] at *
  omega

section

variable (hins : rb.insertFrame dataFrame = some rb₁)

include hins

/-- Which fragments are buffered after an insertion. -/
theorem getElem?_insertFrame (q : ℕ) : rb₁.buffer[q]? =
      if q = dataFrame.sequenceNumber then some (rb.fragmentsWith dataFrame q)
      else rb.buffer[q]? := by
  rw [insertFrame_eq] at hins
  split_ifs at hins
  cases hins
  show (rb.buffer.insert _ _)[q]? = _
  rw [Std.TreeMap.getElem?_insert, fragmentsWith]
  simp only [Std.compare_eq_iff_eq, eq_comm (a := dataFrame.sequenceNumber)]
  split_ifs with hq
  · rw [hq]
  · rfl

theorem mem_numbersWith : q ∈ rb.numbersWith dataFrame ↔ q ∈ numbersOf rb₁.buffer := by
  rw [numbersWith, List.mem_cons, mem_numbersOf, mem_numbersOf, getElem?_insertFrame hins]
  split_ifs with hq
  · simp [hq]
  · simp [hq]

theorem complete_insertFrame :
    rb₁.Complete q ↔ isComplete (rb.fragmentsWith dataFrame q) = true := by
  rw [complete_iff, getElem?_insertFrame hins]
  split_ifs with hq
  · rfl
  · rw [fragmentsWith, if_neg hq, Std.TreeMap.getD_eq_getD_getElem?]
    cases rb.buffer[q]? with
    | none => simp [isComplete]
    | some fragments => rfl

theorem letsGo_iff : rb.LetsGo dataFrame e ↔ rb₁.GoesUp e := by
  have hfields : rb₁.length = rb.length + 1 ∧ rb₁.bufferSize = rb.bufferSize ∧
      rb₁.nextExpectedSequenceNumber = rb.nextExpectedSequenceNumber := by
    rw [insertFrame_eq] at hins
    split_ifs at hins
    cases hins
    exact ⟨rfl, rfl, rfl⟩
  obtain ⟨hlength, hsize, hnext⟩ := hfields
  rw [LetsGo, GoesUp, Earliest, hlength, hsize, hnext, and_assoc, complete_insertFrame hins]
  refine and_congr_right fun _ => and_congr_left fun _ => ?_
  constructor
  · intro hleast q hq
    exact hleast q ((mem_numbersWith hins).mpr hq.mem) ((complete_insertFrame hins).mp hq)
  · intro hleast q _ hq
    exact hleast q ((complete_insertFrame hins).mpr hq)

/-- A frame that is inserted finds room and lies at most the size ahead. -/
theorem room_of_insertFrame :
    rb.length < rb.bufferSize ∧ rb.ahead dataFrame.sequenceNumber ≤ rb.bufferSize := by
  rw [insertFrame_eq] at hins
  split_ifs at hins with hroom
  exact hroom

theorem leavesNoneBehind_iff : rb.LeavesNoneBehind dataFrame ↔
      (rb.ahead dataFrame.sequenceNumber < rb.bufferSize ∧ ∀ e, ¬ rb₁.GoesUp e) ∨
        ∃ e, rb₁.GoesUp e ∧ ∀ q ∈ rb.numbersWith dataFrame, q ≠ e → rb.ahead e < rb.ahead q := by
  obtain ⟨hroom, hle⟩ := room_of_insertFrame hins
  have hmem : ∀ e, rb₁.GoesUp e → e ∈ rb.numbersWith dataFrame :=
    fun e he => (mem_numbersWith hins).mpr he.1.1.mem
  simp only [LeavesNoneBehind, letsGo_iff hins, hroom, hle, true_imp_iff]
  refine or_congr (and_congr_right fun _ => ?_) ?_
  · exact ⟨fun hno e he => hno e (hmem e he) he, fun hno e _ => hno e⟩
  · exact exists_congr fun e => ⟨And.right, fun he => ⟨hmem e he.1, he⟩⟩

end

/-- Passing up an MSDU keeps those in the window that lie ahead of it. -/
theorem window_passedUp_iff (h : WellFormed rb) (hreach : ∀ q ∈ numbersOf rb.buffer,
      rb.ahead q ≤ rb.bufferSize) (he : e ∈ numbersOf rb.buffer) (hreleased : Released rb rb' [e]) :
    (∀ q ∈ numbersOf rb'.buffer, rb'.ahead q < rb'.bufferSize) ↔
      ∀ q ∈ numbersOf rb.buffer, q ≠ e → rb.ahead e < rb.ahead q := by
  have hafter : ∀ q ∈ numbersOf rb.buffer,
      rb'.ahead q < rb'.bufferSize ↔ rb.ahead e < rb.ahead q := by
    intro q hq
    have hmoved : rb'.nextExpectedSequenceNumber = (e + 1) % 4096 := hreleased.next
    rw [ahead, hmoved, hreleased.bufferSize]
    exact lt_ahead_after_iff h.next_lt h.size_le (h.lt_of_mem hq) (h.lt_of_mem he) (hreach q hq)
      (hreach e he)
  simp only [hreleased.mem_iff, List.mem_singleton, and_imp]
  refine forall_congr' fun q => forall_congr' fun hq => ?_
  rw [hafter q hq]

/-- What a frame that there is room for leaves behind. -/
theorem passUpEarliest_insertFrame (h : WellFormed rb) (hwindow : Windowed rb)
    (hins : rb.insertFrame dataFrame = some rb₁) :
    ∃ rb' mpdus, rb₁.passUpEarliest = .ok (rb', mpdus) ∧ WellFormed rb' ∧ Counted rb' ∧
      ((∀ q ∈ numbersOf rb'.buffer, rb'.ahead q < rb'.bufferSize) ↔
        rb.LeavesNoneBehind dataFrame) := by
  obtain ⟨hwf, -, hsize, hnext⟩ := insertFrame_spec h hwindow.inReach hins
  have hcounted : Counted rb₁ := hwindow.counted.insertFrame hins
  have hahead : rb₁.ahead = rb.ahead := by
    funext q
    rw [ahead, ahead, hnext]
  have hreach : ∀ q ∈ numbersOf rb₁.buffer, rb₁.ahead q ≤ rb₁.bufferSize := by
    intro q hq
    rw [hahead, hsize]
    obtain rfl | hq := List.mem_cons.mp ((mem_numbersWith hins).mpr hq)
    · exact (room_of_insertFrame hins).2
    · exact (hwindow.window q hq).le
  simp only [leavesNoneBehind_iff hins, mem_numbersWith hins, ← hahead, ← hsize]
  obtain ⟨e, fragments, rb', he, hget, hok, hup⟩ | ⟨hno, hok⟩ := passUpEarliest_cases hwf
  · obtain ⟨rb'', hup', hreleased⟩ := passedUp_spec hget
    obtain rfl := Except.ok.inj (hup.symm.trans hup')
    refine ⟨rb', _, hok, hreleased.wellFormed hwf, hcounted.passedUp hup, ?_⟩
    rw [window_passedUp_iff hwf hreach he.1.1.mem hreleased]
    constructor
    · exact fun hall => .inr ⟨e, he, hall⟩
    · rintro (⟨-, hno⟩ | ⟨e', he', hall⟩)
      · exact absurd he (hno e)
      · obtain rfl := he'.1.unique hwf he.1
        exact hall
  · refine ⟨rb₁, ∅, hok, hwf, hcounted, ?_⟩
    constructor
    · exact fun hall => .inl ⟨hall _ ((mem_numbersWith hins).mp List.mem_cons_self), hno⟩
    · rintro (⟨hframe, -⟩ | ⟨e, he, -⟩) q hq
      · obtain rfl | hq := List.mem_cons.mp ((mem_numbersWith hins).mpr hq)
        · exact hframe
        · rw [hahead, hsize]
          exact hwindow.window q hq
      · exact absurd he (hno e)

end

/-- From within the window, a number precedes the starting one when that lies in the window, too,
and further ahead. -/
theorem precedes_iff_of_window (hq : rb.ahead q < rb.bufferSize) :
    rb.Precedes start q ↔ rb.ahead start < rb.bufferSize ∧ rb.ahead q < rb.ahead start := by
  rw [Precedes, isSequenceNumberLess_iff, rank, rank]
  have hlt := sequenceNumberDistance_lt rb.nextExpectedSequenceNumber start
  simp only [ahead] at *
  split_ifs <;> omega

theorem Windowed.ne_of_complete (h : Windowed rb) (hq : rb.Complete q) :
    rb.ahead q ≠ rb.bufferSize :=
  (h.window q hq.mem).ne

/-- Releasing keeps the counter right. -/
theorem Counted.passUpRequested {mpdus : ReorderBuffer} (h : Counted rb)
    (hok : rb.passUpRequested start = .ok (rb', mpdus)) : Counted rb' := by
  unfold ReceiveBuffer.passUpRequested at hok
  dsimp only at hok
  obtain ⟨rb₁, hok₁, hok⟩ := bind_eq_ok.mp hok
  obtain ⟨rb₂, hok₂, hok⟩ := bind_eq_ok.mp hok
  obtain rfl : rb₂ = rb' := congrArg Prod.fst (Except.ok.inj hok)
  refine Counted.releaseReceiveBuffer (Counted.releaseReceiveBuffer ?_ hok₁) hok₂
  split_ifs <;> exact h

/-- What neither precedes the starting number nor is due is further ahead than all that is due. -/
theorem ahead_lt_of_kept (h : WellFormed rb) (hwindow : Windowed rb) (hstart : start < 4096)
    {last : ℕ} (hdue : rb.Due start last) (hq : q ∈ numbersOf rb.buffer)
    (hnot : ¬ rb.Precedes start q) (hkept : ¬ rb.Due start q) : rb.ahead last < rb.ahead q := by
  rw [precedes_iff_of_window (hwindow.window q hq)] at hnot
  obtain ⟨hcomplete, hless⟩ | hfollows := hdue
  · have hprecedes := (precedes_iff_of_window (hwindow.window last hcomplete.mem)).mp hless
    omega
  · obtain ⟨j, hj, -, hahead, hzero, hall⟩ := hfollows.ahead_eq h hwindow.inReach hstart
    have hinside := hwindow.window start hzero.mem
    by_contra hge
    -- the number lies between the starting one and the last one, so it follows, too
    refine hkept (.inr ⟨rb.ahead q - rb.ahead start, by omega, ?_, fun i hi => hall i (by omega)⟩)
    have hplace_start := add_sequenceNumberDistance h.next_lt hstart
    have hplace_q := add_sequenceNumberDistance h.next_lt (h.lt_of_mem hq)
    simp only [ahead] at *
    omega

/-- A number that is at least as far ahead as the window moves stays in it. -/
theorem ahead_lt_of_moved {t : ℕ} (h : WellFormed rb) (hsize : rb'.bufferSize = rb.bufferSize)
    (hnext : rb'.nextExpectedSequenceNumber = (rb.nextExpectedSequenceNumber + t) % 4096)
    (hq : rb.ahead q < rb.bufferSize) (ht : t ≤ rb.ahead q) : rb'.ahead q < rb'.bufferSize := by
  have hshift : sequenceNumberDistance rb.nextExpectedSequenceNumber q =
      t + (rb.ahead q - t) := (Nat.add_sub_cancel' ht).symm
  rw [ahead, hnext, hsize, sequenceNumberDistance_shift h.next_lt hshift]
  exact (Nat.sub_le _ _).trans_lt hq

/-- A request keeps the window, and clears what precedes it, just in case that is complete. -/
theorem passUpRequested_window (h : WellFormed rb) (hwindow : Windowed rb) (hstart : start < 4096) :
    ∃ rb' mpdus, rb.passUpRequested start = .ok (rb', mpdus) ∧ WellFormed rb' ∧ Counted rb' ∧
      ((∀ q ∈ numbersOf rb'.buffer, rb'.ahead q < rb'.bufferSize ∧ ¬ rb.Precedes start q) ↔
        ∀ q ∈ numbersOf rb.buffer, rb.Precedes start q → rb.Complete q) := by
  obtain ⟨next, rb', hok, hreleased, hnext⟩ := passUpRequested_released h hwindow.inReach
    (fun z hz hslot => absurd hslot (hwindow.ne_of_complete hz)) hstart
  have hnext_lt : next < 4096 := by
    obtain rfl | ⟨rfl, -, -⟩ := hnext
    · exact h.next_lt
    · exact hstart
  have hmoved : WellFormed { rb with nextExpectedSequenceNumber := next } :=
    ⟨h.size_pos, h.size_le, hnext_lt, h.length_le, h.number, h.first⟩
  have hleft : ∀ q, q ∈ numbersOf rb'.buffer ↔ q ∈ numbersOf rb.buffer ∧ ¬ rb.Due start q :=
    fun q => hreleased.mem_iff.trans (and_congr_right' (not_congr (mem_requested h hstart)))
  refine ⟨rb', _, hok, hreleased.wellFormed hmoved, hwindow.counted.passUpRequested hok, ?_⟩
  constructor
  · intro hall q hq hprecedes
    by_contra hincomplete
    have hkept : ¬ rb.Due start q := fun hdue => hincomplete hdue.complete
    exact (hall q ((hleft q).mpr ⟨hq, hkept⟩)).2 hprecedes
  · intro hall q hq
    obtain ⟨hmem, hkept⟩ := (hleft q).mp hq
    have hnot : ¬ rb.Precedes start q := fun hprecedes =>
      hkept (.inl ⟨hall q hmem hprecedes, hprecedes⟩)
    have hinside := hwindow.window q hmem
    refine ⟨?_, hnot⟩
    have hmoves := hreleased.next
    cases hlast : (rb.requested start).getLast? with
    | none =>
      replace hmoves : rb'.nextExpectedSequenceNumber = next := by rw [hmoves, hlast]; rfl
      obtain rfl | ⟨rfl, -, hless⟩ := hnext
      · apply ahead_lt_of_moved (t := 0) h hreleased.bufferSize _ hinside (Nat.zero_le _)
        rw [hmoves, Nat.add_zero, Nat.mod_eq_of_lt h.next_lt]
      · rw [precedes_iff_of_window hinside] at hnot
        have hstart_lt := ahead_lt_of_newer h hless
        apply ahead_lt_of_moved h hreleased.bufferSize _ hinside (t := rb.ahead next)
        · omega
        · exact hmoves.trans (add_sequenceNumberDistance h.next_lt hstart).symm
    | some last =>
      have hdue : rb.Due start last := (mem_requested h hstart).mp (List.mem_of_getLast? hlast)
      apply ahead_lt_of_moved (t := rb.ahead last + 1) h hreleased.bufferSize _ hinside
      · exact ahead_lt_of_kept h hwindow hstart hdue hmem hnot hkept
      · have hplace := add_sequenceNumberDistance h.next_lt (h.complete_lt hdue.complete)
        rw [hmoves, hlast]
        show (last + 1) % 4096 = (rb.nextExpectedSequenceNumber +
          (sequenceNumberDistance rb.nextExpectedSequenceNumber last + 1)) % 4096
        omega

end ReceiveBuffer

/-- What the reordering receives. The service hands it basic requests only. -/
inductive Reception where
  | qos (agreement : RecipientBlockAckAgreement) (dataFrame : Ieee80211DataFrame)
  | blockAckReq (frame : Ieee80211BlockAckReq) (basic : frame.variant = .basic)
  | delba (delba : Ieee80211Delba)

namespace BlockAckReordering

variable {s t : BlockAckReordering}

def receive (s : BlockAckReordering) : Reception → Result BlockAckReordering
  | .qos agreement dataFrame => do
      let (t, _, _) ← s.processReceivedQoSFrame agreement dataFrame
      .ok t
  | .blockAckReq frame _ => do
      let (t, _) ← s.processReceivedBlockAckReq frame
      .ok t
  | .delba delba => .ok (s.processReceivedDelba delba)

/-- The receive buffer that a request is for. -/
def requestedBuffer (s : BlockAckReordering) (frame : Ieee80211BlockAckReq) :
    Option ReceiveBuffer :=
  s.receiveBuffers[toLex (frame.tidInfo, frame.transmitterAddress)]?

/-- Nothing that precedes the starting number of a request is buffered after it. -/
def Cleared (s : BlockAckReordering) : Reception → BlockAckReordering → Prop
  | .blockAckReq frame _, t =>
    ∀ rb ∈ s.requestedBuffer frame, ∀ rb' ∈ t.requestedBuffer frame,
      ∀ q ∈ ReceiveBuffer.numbersOf rb'.buffer, ¬ rb.Precedes frame.startingSequenceNumber q
  | _, _ => True

/-- All receive buffers keep their window, and a request clears what precedes it. -/
def KeptWindow (s : BlockAckReordering) (reception : Reception) (t : BlockAckReordering) : Prop :=
  (∀ it ∈ t.receiveBuffers.toList, it.2.Windowed) ∧ s.Cleared reception t

/-- Nothing incomplete lies before what is received. -/
def NothingIncomplete (s : BlockAckReordering) : Reception → Prop
  | .qos agreement dataFrame =>
    (s.createReceiveBufferIfNecessary agreement).LeavesNoneBehind dataFrame
  | .blockAckReq frame _ =>
    ∀ rb ∈ s.requestedBuffer frame, ∀ q ∈ ReceiveBuffer.numbersOf rb.buffer,
      rb.Precedes frame.startingSequenceNumber q → rb.Complete q
  | .delba _ => True

instance : (reception : Reception) → Decidable (Cleared s reception t)
  | .qos _ _ => .isTrue trivial
  | .blockAckReq frame _ => inferInstanceAs (Decidable
      (∀ rb ∈ s.requestedBuffer frame, ∀ rb' ∈ t.requestedBuffer frame,
        ∀ q ∈ ReceiveBuffer.numbersOf rb'.buffer, ¬ rb.Precedes frame.startingSequenceNumber q))
  | .delba _ => .isTrue trivial

instance (reception : Reception) : Decidable (KeptWindow s reception t) :=
  inferInstanceAs (Decidable
    ((∀ it ∈ t.receiveBuffers.toList, it.2.Windowed) ∧ s.Cleared reception t))

/-- The invariant: all receive buffers are well formed and keep their window. -/
def Sound (s : BlockAckReordering) : Prop :=
  ∀ (id : ℕ ×ₗ ℕ) (rb : ReceiveBuffer), s.receiveBuffers[id]? = some rb →
    rb.WellFormed ∧ rb.Windowed

theorem forall_windowed_iff : (∀ it ∈ s.receiveBuffers.toList, it.2.Windowed) ↔
      ∀ (id : ℕ ×ₗ ℕ) (rb : ReceiveBuffer), s.receiveBuffers[id]? = some rb → rb.Windowed := by
  constructor
  · intro h id rb hget
    exact h (id, rb) (Std.TreeMap.mem_toList_iff_getElem?_eq_some.mpr hget)
  · rintro h ⟨id, rb⟩ hmem
    exact h id rb (Std.TreeMap.mem_toList_iff_getElem?_eq_some.mp hmem)

theorem Sound.windowed (h : Sound s) : ∀ it ∈ s.receiveBuffers.toList, it.2.Windowed :=
  forall_windowed_iff.mpr fun id rb hget => (h id rb hget).2

theorem getElem?_withBuffer (s : BlockAckReordering) (id id' : ℕ ×ₗ ℕ) (rb : ReceiveBuffer) :
    (s.withBuffer id rb).receiveBuffers[id']? =
      if id = id' then some rb else s.receiveBuffers[id']? := by
  rw [withBuffer, Std.TreeMap.getElem?_insert]
  simp only [Std.compare_eq_iff_eq]

/-- A buffer that is put in place decides on the window of all. -/
theorem Sound.windowed_withBuffer_iff (h : Sound s) (id : ℕ ×ₗ ℕ) (rb : ReceiveBuffer) :
    (∀ it ∈ (s.withBuffer id rb).receiveBuffers.toList, it.2.Windowed) ↔ rb.Windowed := by
  rw [forall_windowed_iff]
  constructor
  · intro hall
    exact hall id rb (by rw [getElem?_withBuffer, if_pos rfl])
  · intro hrb id' rb' hget
    rw [getElem?_withBuffer] at hget
    split_ifs at hget
    · exact Option.some.inj hget ▸ hrb
    · exact (h id' rb' hget).2

theorem Sound.withBuffer (h : Sound s) {id : ℕ ×ₗ ℕ} {rb : ReceiveBuffer} (hwf : rb.WellFormed)
    (hwindow : rb.Windowed) : Sound (s.withBuffer id rb) := by
  intro id' rb' hget
  rw [getElem?_withBuffer] at hget
  split_ifs at hget
  · exact Option.some.inj hget ▸ ⟨hwf, hwindow⟩
  · exact h id' rb' hget

/-- The buffer of an agreement is the one that is kept, or a new one. -/
theorem Sound.createReceiveBufferIfNecessary (h : Sound s)
    (agreement : RecipientBlockAckAgreement) :
    (s.createReceiveBufferIfNecessary agreement).WellFormed ∧
      (s.createReceiveBufferIfNecessary agreement).Windowed := by
  rw [BlockAckReordering.createReceiveBufferIfNecessary, Std.TreeMap.getD_eq_getD_getElem?]
  cases hget : s.receiveBuffers[agreement.id]? with
  | some rb => exact h _ rb hget
  | none =>
    refine ⟨ReceiveBuffer.wellFormed_new agreement, rfl, Int.natCast_nonneg _, ?_⟩
    intro q hq
    obtain ⟨fragments, hget⟩ := ReceiveBuffer.mem_numbersOf.mp hq
    exact absurd hget (by simp)

/-- A QoS frame replaces the buffer of its agreement. -/
theorem Sound.receive_qos (h : Sound s) (agreement : RecipientBlockAckAgreement)
    (dataFrame : Ieee80211DataFrame) :
    ∃ rb : ReceiveBuffer,
      s.receive (.qos agreement dataFrame) = .ok (s.withBuffer agreement.id rb) ∧ rb.WellFormed ∧
        (rb.Windowed ↔
          (s.createReceiveBufferIfNecessary agreement).LeavesNoneBehind dataFrame) := by
  obtain ⟨hwf, hwindow⟩ := h.createReceiveBufferIfNecessary agreement
  rw [receive, processReceivedQoSFrame]
  generalize s.createReceiveBufferIfNecessary agreement = rb at hwf hwindow
  cases hins : rb.insertFrame dataFrame with
  | none =>
    refine ⟨rb, rfl, hwf, iff_of_true hwindow fun hroom hle => ?_⟩
    rw [ReceiveBuffer.insertFrame_eq, if_pos ⟨hroom, hle⟩] at hins
    cases hins
  | some rb₁ =>
    obtain ⟨rb', mpdus, hok, hwf', hcounted, hiff⟩ :=
      ReceiveBuffer.passUpEarliest_insertFrame hwf hwindow hins
    refine ⟨rb', ?_, hwf', ?_⟩
    · by_cases hpolicy : dataFrame.ackPolicy = .BLOCK_ACK
      · obtain ⟨agreement', hagreement, -⟩ := agreement.blockAckPolicyFrameReceived_ok hpolicy
        simp only [if_pos hpolicy, hagreement, hok, ok_bind]
      · simp only [if_neg hpolicy, hok, ok_bind]
    · rw [← hiff]
      exact ⟨fun hrb => hrb.window, fun hall => ⟨hcounted, hwf'.length_le, hall⟩⟩

/-- A request replaces the buffer that it is for. -/
theorem Sound.receive_blockAckReq (h : Sound s) {frame : Ieee80211BlockAckReq}
    (basic : frame.variant = .basic) {rb : ReceiveBuffer}
    (hrequested : s.requestedBuffer frame = some rb) :
    ∃ rb' : ReceiveBuffer,
      s.receive (.blockAckReq frame basic) =
          .ok (s.withBuffer (toLex (frame.tidInfo, frame.transmitterAddress)) rb') ∧
        rb'.WellFormed ∧
        ((rb'.Windowed ∧ ∀ q ∈ ReceiveBuffer.numbersOf rb'.buffer,
            ¬ rb.Precedes frame.startingSequenceNumber q) ↔
          ∀ q ∈ ReceiveBuffer.numbersOf rb.buffer,
            rb.Precedes frame.startingSequenceNumber q → rb.Complete q) := by
  obtain ⟨hwf, hwindow⟩ := h _ rb hrequested
  obtain ⟨rb', mpdus, hok, hwf', hcounted, hiff⟩ :=
    ReceiveBuffer.passUpRequested_window hwf hwindow frame.startingSequenceNumber_lt
  refine ⟨rb', ?_, hwf', ?_⟩
  · rw [requestedBuffer] at hrequested
    simp only [receive, processReceivedBlockAckReq, basic, hrequested, hok, ok_bind]
  · rw [← hiff]
    constructor
    · rintro ⟨hrb, hclear⟩ q hq
      exact ⟨hrb.window q hq, hclear q hq⟩
    · intro hall
      exact ⟨⟨hcounted, hwf'.length_le, fun q hq => (hall q hq).1⟩, fun q hq => (hall q hq).2⟩

/-- What is received keeps the window just in case nothing incomplete lies before it. -/
theorem Sound.receive (h : Sound s) (reception : Reception) : ∃ t, s.receive reception = .ok t ∧
      (KeptWindow s reception t ↔ NothingIncomplete s reception) ∧
      (NothingIncomplete s reception → Sound t) := by
  cases reception with
  | qos agreement dataFrame =>
    obtain ⟨rb, hok, hwf, hiff⟩ := h.receive_qos agreement dataFrame
    refine ⟨_, hok, ?_, fun hnone => h.withBuffer hwf (hiff.mpr hnone)⟩
    rw [KeptWindow, h.windowed_withBuffer_iff]
    exact (and_iff_left trivial).trans hiff
  | blockAckReq frame basic =>
    cases hrequested : s.requestedBuffer frame with
    | none =>
      refine ⟨s, ?_, iff_of_true ⟨h.windowed, ?_⟩ ?_, fun _ => h⟩
      · rw [requestedBuffer] at hrequested
        simp only [BlockAckReordering.receive, processReceivedBlockAckReq, basic, hrequested,
          ok_bind]
      · intro rb hrb
        cases hrequested.symm.trans hrb
      · intro rb hrb
        cases hrequested.symm.trans hrb
    | some rb =>
      obtain ⟨rb', hok, hwf, hiff⟩ := h.receive_blockAckReq basic hrequested
      have hrequested' : (s.withBuffer (toLex (frame.tidInfo, frame.transmitterAddress))
          rb').requestedBuffer frame = some rb' := by
        rw [requestedBuffer, getElem?_withBuffer, if_pos rfl]
      have hexact : KeptWindow s (.blockAckReq frame basic)
          (s.withBuffer (toLex (frame.tidInfo, frame.transmitterAddress)) rb') ↔
          NothingIncomplete s (.blockAckReq frame basic) := by
        simp only [KeptWindow, Cleared, NothingIncomplete, h.windowed_withBuffer_iff,
          hrequested, hrequested', Option.mem_def, Option.some.injEq, forall_eq']
        exact hiff
      refine ⟨_, hok, hexact, fun hnone => ?_⟩
      have hkept := hexact.mpr hnone
      rw [KeptWindow, h.windowed_withBuffer_iff] at hkept
      exact h.withBuffer hwf hkept.1
  | delba delba =>
    have hsound : Sound (s.processReceivedDelba delba) := by
      intro id rb hget
      rw [processReceivedDelba, Std.TreeMap.getElem?_erase] at hget
      split_ifs at hget
      exact h id rb hget
    exact ⟨_, rfl, iff_of_true ⟨hsound.windowed, trivial⟩ trivial, fun _ => hsound⟩

/-- In a run of the reordering, every buffer keeps its window and every request clears what
precedes it just in case nothing incomplete ever lies before what is received. -/
theorem keptWindow_iff (receptions : List Reception) :
    Run.Along BlockAckReordering.receive KeptWindow {} receptions ↔
      Run.Admissible BlockAckReordering.receive NothingIncomplete {} receptions := by
  apply Run.along_iff_admissible (fun s reception h => Sound.receive h reception)
  intro id rb hget
  exact absurd hget (by simp)

/-- The second fragment of 0 is lost. A request for the numbers from 2 on leaves the first one in
the buffer, 4094 ahead of the number that is now expected next. -/
theorem not_keptWindow_of_incomplete : ¬ ∀ receptions : List Reception,
        Run.Along BlockAckReordering.receive KeptWindow {} receptions := by
  intro h
  have hrun := h
    [.qos { startingSequenceNumber := 0, bufferSize := 4 }
        { sequenceNumber := 0, moreFragments := true },
      .blockAckReq { startingSequenceNumber := 2 } rfl]
  revert hrun
  decide +kernel

end BlockAckReordering

end Inet.Ieee80211
