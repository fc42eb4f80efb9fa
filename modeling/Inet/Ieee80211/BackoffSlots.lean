import Inet.Ieee80211.Contention
import Inet.Library.Run

/-!
# The backoff slots of a contention

Every slot is counted once: in an idle period that ends too early those that have passed since the
interframe space, in the last one those that were left. The time that remains is divided by the
slot time as a 64-bit number, but the quotient is converted to `int`. A quotient that does not fit
may be taken for a small number of slots. `along_counts_iff` is about the runs in which this
happens, too.
-/

namespace Inet.Ieee80211

namespace Contention

open State EventType

variable {c d : Contention}

/-- The whole slots between the interframe space of the last request and a time. -/
def idleSlots (c : Contention) (now : ℤ) : ℤ :=
  max 0 ((now - c.requestTime - c.requestSpace) / c.slotTime)

/-- The slots that are counted by an event: those of the idle period that it ends. -/
def countedBy (c : Contention) : Event → ℤ
  | .mediumStateChanged now mediumFree =>
    if c.fsm = IFS_AND_BACKOFF ∧ mediumFree = false then c.idleSlots now else 0
  | .corruptedFrameReceived _ => 0
  | .startTx => c.idleSlots (c.startTxEvent.getD c.now)
  | .channelGranted => 0

/-- A contention, with the slots that have been counted since its start. -/
structure Counting where
  contention : Contention
  counted : ℤ := 0

def Counting.step (s : Counting) (event : Event) : Result Counting := do
  let contention ← s.contention.step event
  .ok { contention, counted := s.counted + s.contention.countedBy event }

/-- The time at which the channel is to be granted. -/
def grantTime (c : Contention) : ℤ :=
  c.requestTime + c.requestSpace + c.backoffSlots * c.slotTime

/-- How a contention with `b` slots goes on. Before its start the channel had been granted `k`
times. -/
structure Counts (b : ℤ) (k : ℕ) (s : Counting) (event : Event) (t : Counting) : Prop where
  le : t.contention.backoffSlots ≤ s.contention.backoffSlots
  nonneg : 0 ≤ t.contention.backoffSlots
  busy : ∀ now, event = .mediumStateChanged now false → s.contention.fsm = IFS_AND_BACKOFF →
    t.contention.backoffSlots = s.contention.backoffSlots - s.contention.idleSlots now
  granted : event = .startTx → s.contention.fsm = IFS_AND_BACKOFF ∧
    t.contention.now = s.contention.grantTime
  scheduled : t.contention.fsm = IFS_AND_BACKOFF →
    t.contention.mediumFree = true ∧ t.contention.startTxEvent = some t.contention.grantTime ∧
      (t.contention.requestSpace = t.contention.ifs ∨ t.contention.requestSpace = t.contention.eifs)
  unscheduled : t.contention.fsm ≠ IFS_AND_BACKOFF → t.contention.startTxEvent = none
  once : t.contention.channelAccessGranted +
    (if t.contention.channelGrantedEvent = none then 0 else 1) +
    (if t.contention.fsm = IDLE then 0 else 1) = k + 1
  total : t.counted + (if t.contention.fsm = IDLE then 0 else t.contention.backoffSlots) = b

/-- The time until the channel is to be granted, in slots and rounded up. -/
def slotsLeft (c : Contention) (now : ℤ) : ℤ :=
  (c.grantTime - now + c.slotTime - 1) / c.slotTime

/-- If the medium becomes busy, the conversion to `int` does not make a number of slots that is
smaller than `backoffSlots` out of one that is not. -/
def Fits (s : Counting) (event : Event) : Prop :=
  ∀ now, event = .mediumStateChanged now false → s.contention.fsm = IFS_AND_BACKOFF →
    Inet.toInt (s.contention.slotsLeft now) < s.contention.backoffSlots →
      s.contention.slotsLeft now < s.contention.backoffSlots

/-- What holds between the start of a contention and the end of a run. -/
structure Going (b : ℤ) (k : ℕ) (s : Counting) : Prop where
  slotTime : 0 < s.contention.slotTime
  backoffSlots : 0 ≤ s.contention.backoffSlots ∧ s.contention.backoffSlots < 2 ^ 31
  backoffOptimization : s.contention.backoffOptimization = false
  scheduled : s.contention.fsm = IFS_AND_BACKOFF →
    s.contention.mediumFree = true ∧ s.contention.startTxEvent = some s.contention.grantTime ∧
      (s.contention.requestSpace = s.contention.ifs ∨ s.contention.requestSpace = s.contention.eifs)
  scheduledTransmissionTime : s.contention.fsm = IFS_AND_BACKOFF →
    s.contention.scheduledTransmissionTime = s.contention.grantTime
  deferring : s.contention.fsm = DEFER → s.contention.mediumFree = false
  unscheduled : s.contention.fsm ≠ IFS_AND_BACKOFF → s.contention.startTxEvent = none
  ungranted : s.contention.fsm ≠ IDLE → s.contention.channelGrantedEvent = none
  callback : s.contention.fsm ≠ IDLE ∨ s.contention.channelGrantedEvent ≠ none →
    s.contention.callback = true
  once : s.contention.channelAccessGranted +
    (if s.contention.channelGrantedEvent = none then 0 else 1) +
    (if s.contention.fsm = IDLE then 0 else 1) = k + 1
  total : s.counted + (if s.contention.fsm = IDLE then 0 else s.contention.backoffSlots) = b

/-- Rounding up what remains is rounding down what has passed. -/
theorem mul_sub_ediv {b x slot : ℤ} (hslot : 0 < slot) :
    (b * slot - x) / slot = b - (x + slot - 1) / slot := by
  have hlow := Int.ediv_mul_le (x + slot - 1) hslot.ne'
  have hhigh := Int.lt_ediv_add_one_mul_self (x + slot - 1) hslot
  have hsplit : b * slot - x = ((x + slot - 1) / slot * slot - x) +
      (b - (x + slot - 1) / slot) * slot := by ring
  rw [hsplit, Int.add_mul_ediv_right _ _ hslot.ne', Int.ediv_eq_zero_of_lt (by linarith)
    (by linarith), zero_add]

theorem idleSlots_eq (hslot : 0 < c.slotTime) (now : ℤ) :
    c.idleSlots now = max 0 (c.backoffSlots - c.slotsLeft now) := by
  rw [idleSlots, slotsLeft, ← mul_sub_ediv hslot, grantTime]
  congr 2
  ring

theorem idleSlots_grantTime (hslot : 0 < c.slotTime) (hslots : 0 ≤ c.backoffSlots) :
    c.idleSlots c.grantTime = c.backoffSlots := by
  have hleft : c.slotsLeft c.grantTime = 0 := by
    rw [slotsLeft, sub_self, zero_add]
    exact Int.ediv_eq_zero_of_lt (by omega) (by omega)
  rw [idleSlots_eq hslot, hleft, sub_zero, max_eq_right hslots]

theorem slotsLeft_nonneg (hslot : 0 < c.slotTime) {now : ℤ} (hnow : now ≤ c.grantTime) :
    0 ≤ c.slotsLeft now :=
  Int.ediv_nonneg (by omega) hslot.le

/-- The interframe space that a request uses. -/
def space (c : Contention) : ℤ := if c.endEifsTime > c.now + c.ifs then c.eifs else c.ifs

theorem scheduleTransmissionRequest_eq (hfree : c.mediumFree = true)
    (hoptimization : c.backoffOptimization = false) :
    c.scheduleTransmissionRequest = .ok { c with
      requestTime := c.now
      requestSpace := c.space
      scheduledTransmissionTime := c.now + (c.space + c.backoffSlots * c.slotTime)
      startTxEvent := some (c.now + (c.space + c.backoffSlots * c.slotTime))
      expectedChannelAccess := c.now + (c.space + c.backoffSlots * c.slotTime) } := by
  rw [scheduleTransmissionRequest, assert_of hfree, ok_bind]
  dsimp only
  rw [if_neg (by simp [hoptimization])]
  rfl

theorem space_eq (c : Contention) : c.space = c.ifs ∨ c.space = c.eifs := by
  rw [space]
  split_ifs
  · exact .inr rfl
  · exact .inl rfl

theorem handleWithFSM_start (hstate : c.fsm = IDLE) (hfree : c.mediumFree = true)
    (h : c.scheduleTransmissionRequest = .ok d) :
    c.handleWithFSM START = .ok { d with fsm := IFS_AND_BACKOFF } := by
  unfold handleWithFSM
  simp [hstate, hfree, h]

theorem handleWithFSM_resume (hstate : c.fsm = DEFER) (hfree : c.mediumFree = true)
    (h : c.scheduleTransmissionRequest = .ok d) :
    c.handleWithFSM MEDIUM_STATE_CHANGED = .ok { d with fsm := IFS_AND_BACKOFF } := by
  unfold handleWithFSM
  simp [hstate, hfree, h]

theorem handleWithFSM_interrupt (hstate : c.fsm = IFS_AND_BACKOFF) (hbusy : c.mediumFree = false) :
    c.handleWithFSM MEDIUM_STATE_CHANGED =
      .ok { c.cancelTransmissionRequest.computeRemainingBackoffSlots with fsm := DEFER } := by
  unfold handleWithFSM
  simp [hstate, hbusy]

theorem handleWithFSM_eifs (hstate : c.fsm = IFS_AND_BACKOFF) :
    c.handleWithFSM CORRUPTED_FRAME_RECEIVED = c.switchToEifs := by
  unfold handleWithFSM
  simp [hstate]

section

variable {b : ℤ} {k : ℕ} {s t : Counting} {event : Event}

/-- A transmission request, and the state after it. -/
theorem Going.request (hs : Going b k s) (hfree : c.mediumFree = true)
    (hstate : s.contention.fsm ≠ IDLE) (hslot : c.slotTime = s.contention.slotTime)
    (hslots : c.backoffSlots = s.contention.backoffSlots)
    (hoptimization : c.backoffOptimization = false)
    (hcallback : c.callback = s.contention.callback)
    (hgranted : c.channelAccessGranted = s.contention.channelAccessGranted)
    (hevent : c.channelGrantedEvent = none) :
    ∃ d, c.scheduleTransmissionRequest = .ok d ∧ d.backoffSlots = s.contention.backoffSlots ∧
      d.fsm = c.fsm ∧ Going b k ⟨{ d with fsm := IFS_AND_BACKOFF }, s.counted⟩ := by
  have honce := hs.once
  have htotal := hs.total
  rw [if_neg hstate] at htotal
  rw [hs.ungranted hstate, if_pos rfl, if_neg hstate] at honce
  refine ⟨_, scheduleTransmissionRequest_eq hfree hoptimization, hslots, rfl, ?_⟩
  constructor
  · exact hslot ▸ hs.slotTime
  · exact hslots ▸ hs.backoffSlots
  · exact hoptimization
  · exact fun _ => ⟨hfree, by simp [grantTime, add_assoc], space_eq c⟩
  · exact fun _ => by simp [grantTime, add_assoc]
  · exact nofun
  · exact fun h => absurd rfl h
  · exact fun _ => hevent
  · exact fun _ => hcallback.trans (hs.callback (.inl hstate))
  · dsimp only
    rw [if_pos hevent, if_neg (by decide), hgranted]
    exact honce
  · dsimp only
    rw [if_neg (by decide), hslots]
    exact htotal

theorem step_of (h : s.contention.step event = .ok d) :
    s.step event = .ok ⟨d, s.counted + s.contention.countedBy event⟩ := by
  rw [Counting.step, h, ok_bind]

/-- What an event leaves alone if it only sets data that a contention does not depend on. -/
theorem Going.congr (hs : Going b k s) (hstate : d.fsm = s.contention.fsm)
    (hidle : s.contention.fsm ≠ IFS_AND_BACKOFF)
    (hslot : d.slotTime = s.contention.slotTime)
    (hslots : d.backoffSlots = s.contention.backoffSlots)
    (hoptimization : d.backoffOptimization = s.contention.backoffOptimization)
    (hfree : s.contention.fsm = DEFER → d.mediumFree = s.contention.mediumFree)
    (hstart : d.startTxEvent = s.contention.startTxEvent)
    (hevent : d.channelGrantedEvent = s.contention.channelGrantedEvent)
    (hcallback : d.callback = s.contention.callback)
    (hgranted : d.channelAccessGranted = s.contention.channelAccessGranted) :
    Going b k ⟨d, s.counted⟩ := by
  constructor
  · exact hslot ▸ hs.slotTime
  · exact hslots ▸ hs.backoffSlots
  · exact hoptimization ▸ hs.backoffOptimization
  · exact fun h => absurd (hstate ▸ h) hidle
  · exact fun h => absurd (hstate ▸ h) hidle
  · exact fun h => (hfree (hstate ▸ h)).trans (hs.deferring (hstate ▸ h))
  · exact fun _ => hstart.trans (hs.unscheduled hidle)
  · exact fun h => hevent.trans (hs.ungranted (hstate ▸ h))
  · exact fun h => hcallback.trans (hs.callback (by rwa [hstate, hevent] at h))
  · dsimp only
    rw [hgranted, hevent, hstate]
    exact hs.once
  · dsimp only
    rw [hslots, hstate]
    exact hs.total

theorem step_medium (now : ℤ) {mediumFree : Bool} (hs : Going b k s)
    (hchange : mediumFree ≠ s.contention.mediumFree)
    (hidle : s.contention.fsm ≠ IFS_AND_BACKOFF) :
    ∃ t, s.step (.mediumStateChanged now mediumFree) = .ok t ∧ Going b k t ∧
      t.contention.backoffSlots = s.contention.backoffSlots := by
  have hcounted : s.counted + s.contention.countedBy (.mediumStateChanged now mediumFree) =
      s.counted := by
    rw [countedBy, if_neg (fun h => hidle h.1), add_zero]
  cases hstate : s.contention.fsm with
  | IDLE =>
    refine ⟨_, step_of (d := { s.contention with
      now, mediumFree, lastChannelBusyTime := now }) ?_, ?_, rfl⟩
    · simp [step, mediumStateChanged, handleWithFSM, hstate]
    · rw [hcounted]
      exact hs.congr rfl hidle rfl rfl rfl (fun h => by simp [hstate] at h) rfl rfl rfl rfl
  | DEFER =>
    have hfree : mediumFree = true := by
      rw [hs.deferring hstate] at hchange
      simpa using hchange
    obtain ⟨d, hrequest, hslots, -, hd⟩ := hs.request
      (c := { s.contention with now, mediumFree, lastChannelBusyTime := now }) hfree
      (by simp [hstate]) rfl rfl hs.backoffOptimization rfl rfl (hs.ungranted (by simp [hstate]))
    refine ⟨_, step_of (d := { d with fsm := IFS_AND_BACKOFF }) ?_, ?_, hslots⟩
    · exact handleWithFSM_resume hstate hfree hrequest
    · rw [hcounted]
      exact hd
  | IFS_AND_BACKOFF => exact absurd hstate hidle

theorem step_corrupted (now : ℤ) (hs : Going b k s) :
    ∃ t, s.step (.corruptedFrameReceived now) = .ok t ∧ Going b k t ∧
      t.contention.backoffSlots = s.contention.backoffSlots := by
  have hcounted : s.counted + s.contention.countedBy (.corruptedFrameReceived now) = s.counted :=
    add_zero _
  cases hstate : s.contention.fsm with
  | IDLE =>
    refine ⟨_, step_of (d := { s.contention with now }) ?_, ?_, rfl⟩
    · simp [step, corruptedFrameReceived, handleWithFSM, hstate]
    · rw [hcounted]
      exact hs.congr rfl (by simp [hstate]) rfl rfl rfl (fun _ => rfl) rfl rfl rfl rfl
  | DEFER =>
    refine ⟨_, step_of (d := { s.contention with
      now, endEifsTime := now + s.contention.eifs }) ?_, ?_, rfl⟩
    · simp [step, corruptedFrameReceived, handleWithFSM, hstate]
    · rw [hcounted]
      exact hs.congr rfl (by simp [hstate]) rfl rfl rfl (fun _ => rfl) rfl rfl rfl rfl
  | IFS_AND_BACKOFF =>
    obtain ⟨d, hrequest, hslots, hfsm, hd⟩ := hs.request
      (c := { s.contention with
        now, endEifsTime := now + s.contention.eifs }.cancelTransmissionRequest)
      (hs.scheduled hstate).1 (by simp [hstate]) rfl rfl hs.backoffOptimization rfl
      rfl (hs.ungranted (by simp [hstate]))
    have heq : { d with fsm := IFS_AND_BACKOFF } = d := by
      rw [← show d.fsm = IFS_AND_BACKOFF from hfsm.trans hstate]
    rw [heq] at hd
    refine ⟨_, step_of (d := d) ?_, ?_, hslots⟩
    · exact (handleWithFSM_eifs (c := { s.contention with now }) hstate).trans hrequest
    · rw [hcounted]
      exact hd

theorem step_startTx (hs : Going b k s) (hpossible : s.contention.startTxEvent ≠ none) :
    s.contention.fsm = IFS_AND_BACKOFF ∧ ∃ t, s.step .startTx = .ok t ∧ Going b k t ∧
      t.contention.backoffSlots = s.contention.backoffSlots ∧
      t.contention.now = s.contention.grantTime := by
  have hstate : s.contention.fsm = IFS_AND_BACKOFF := by
    by_contra h
    exact hpossible (hs.unscheduled h)
  obtain ⟨-, hstart, -⟩ := hs.scheduled hstate
  have honce := hs.once
  have htotal := hs.total
  have hne : s.contention.fsm ≠ IDLE := by simp [hstate]
  rw [if_neg hne] at htotal
  rw [hs.ungranted hne, if_pos rfl, if_neg hne] at honce
  refine ⟨hstate, _, step_of (d := { s.contention with
    now := s.contention.grantTime
    startTxEvent := none
    lastIdleStartTime := s.contention.grantTime
    fsm := IDLE
    channelGrantedEvent := some s.contention.grantTime }) ?_, ?_, rfl, rfl⟩
  · simp [step, startTxArrived, handleWithFSM, hstate, hstart]
  · have hcounted : s.contention.countedBy .startTx = s.contention.backoffSlots := by
      rw [countedBy, hstart]
      exact idleSlots_grantTime hs.slotTime hs.backoffSlots.1
    rw [hcounted]
    exact ⟨hs.slotTime, hs.backoffSlots, hs.backoffOptimization,
      (by cases ·), (by cases ·), (by cases ·), fun _ => rfl, fun h => absurd rfl h, fun _ => hs.callback (.inl (by simp [hstate])), honce,
      by simpa using htotal⟩

theorem step_channelGranted (hs : Going b k s)
    (hpossible : s.contention.channelGrantedEvent ≠ none) :
    ∃ t, s.step .channelGranted = .ok t ∧ Going b k t ∧
      t.contention.backoffSlots = s.contention.backoffSlots := by
  have hstate : s.contention.fsm = IDLE := by
    by_contra h
    exact hpossible (hs.ungranted h)
  have honce := hs.once
  rw [if_neg hpossible] at honce
  refine ⟨_, step_of (d := { s.contention with
    now := s.contention.channelGrantedEvent.getD s.contention.now
    channelGrantedEvent := none
    channelAccessGranted := s.contention.channelAccessGranted + 1
    callback := false }) ?_, ?_, rfl⟩
  · simp [step, channelGrantedArrived, hs.callback (.inr hpossible)]
  · rw [countedBy, add_zero]
    exact ⟨hs.slotTime, hs.backoffSlots, hs.backoffOptimization, hs.scheduled,
      hs.scheduledTransmissionTime, hs.deferring, hs.unscheduled, fun _ => rfl,
      fun h => absurd hstate (by simpa using h), honce, hs.total⟩

theorem computeRemainingBackoffSlots_eq (c : Contention) : c.computeRemainingBackoffSlots = { c with
      backoffSlots := if Inet.toInt c.remainingSlots < c.backoffSlots then
        Inet.toInt c.remainingSlots else c.backoffSlots } := by
  rw [computeRemainingBackoffSlots]
  split_ifs <;> rfl

/-- The end of an idle period. It keeps the invariant if the slots that have passed are taken from
those that were left. -/
theorem step_busy {now : ℤ} (hs : Going b k s) (hstate : s.contention.fsm = IFS_AND_BACKOFF)
    (hnow : s.contention.NotOverdue now) :
    ∃ t, s.step (.mediumStateChanged now false) = .ok t ∧ t.contention.backoffSlots =
        (if Inet.toInt (s.contention.slotsLeft now) < s.contention.backoffSlots then
          Inet.toInt (s.contention.slotsLeft now) else s.contention.backoffSlots) ∧
      (t.contention.backoffSlots = s.contention.backoffSlots - s.contention.idleSlots now →
        Going b k t) := by
  obtain ⟨-, hstart, -⟩ := hs.scheduled hstate
  have hle : now ≤ s.contention.grantTime := hnow.2.1 _ hstart
  have hslot := hs.slotTime
  have hremaining : remainingSlots { s.contention with
      now, mediumFree := false, lastChannelBusyTime := now
      startTxEvent := none, expectedChannelAccess := -1 } = s.contention.slotsLeft now := by
    rw [remainingSlots, slotsLeft]
    dsimp only
    rw [hs.scheduledTransmissionTime hstate]
    exact Int.tdiv_eq_ediv_of_nonneg (by omega)
  refine ⟨_, step_of (handleWithFSM_interrupt hstate rfl), ?_, fun hslots => ?_⟩
  · rw [cancelTransmissionRequest, computeRemainingBackoffSlots_eq]
    dsimp only
    rw [hremaining]
  · have honce := hs.once
    have htotal := hs.total
    have hne : s.contention.fsm ≠ IDLE := by simp [hstate]
    rw [if_neg hne] at honce htotal
    rw [cancelTransmissionRequest, computeRemainingBackoffSlots_eq] at hslots ⊢
    dsimp only at hslots ⊢
    rw [hslots, countedBy, if_pos ⟨hstate, rfl⟩]
    have hidle := idleSlots_eq hslot now
    have hleft := slotsLeft_nonneg hslot hle
    have hbound := hs.backoffSlots
    refine ⟨hslot, ⟨by dsimp only; omega, by dsimp only; omega⟩, hs.backoffOptimization, nofun,
      nofun, fun _ => rfl, fun _ => rfl, fun _ => hs.ungranted hne,
      fun _ => hs.callback (.inl hne), honce, ?_⟩
    dsimp only
    rw [if_neg (by decide)]
    omega

theorem Going.counts (ht : Going b k t)
    (hle : t.contention.backoffSlots ≤ s.contention.backoffSlots)
    (hbusy : ∀ now, event = .mediumStateChanged now false → s.contention.fsm = IFS_AND_BACKOFF →
      t.contention.backoffSlots = s.contention.backoffSlots - s.contention.idleSlots now)
    (hgranted : event = .startTx → s.contention.fsm = IFS_AND_BACKOFF ∧
      t.contention.now = s.contention.grantTime) : Counts b k s event t :=
  ⟨hle, ht.backoffSlots.1, hbusy, hgranted, ht.scheduled, ht.unscheduled, ht.once, ht.total⟩

/-- An event that does not end an idle period too early. -/
theorem step_other (hs : Going b k s) (hpossible : s.contention.Possible event)
    (hevent : ∀ now, event = .mediumStateChanged now false → s.contention.fsm ≠ IFS_AND_BACKOFF) :
    ∃ t, s.step event = .ok t ∧ Going b k t ∧ Counts b k s event t := by
  cases event with
  | mediumStateChanged now mediumFree =>
    have hidle : s.contention.fsm ≠ IFS_AND_BACKOFF := fun hstate => by
      have hchange := hpossible.2
      rw [(hs.scheduled hstate).1, ne_eq, Bool.not_eq_true] at hchange
      exact hevent now (by rw [hchange]) hstate
    obtain ⟨t, hstep, ht, hslots⟩ := step_medium now hs hpossible.2 hidle
    exact ⟨t, hstep, ht, ht.counts hslots.le (fun _ _ h => absurd h hidle) nofun⟩
  | corruptedFrameReceived now =>
    obtain ⟨t, hstep, ht, hslots⟩ := step_corrupted now hs
    exact ⟨t, hstep, ht, ht.counts hslots.le nofun nofun⟩
  | startTx =>
    obtain ⟨hstate, t, hstep, ht, hslots, hnow⟩ := step_startTx hs hpossible
    exact ⟨t, hstep, ht, ht.counts hslots.le nofun fun _ => ⟨hstate, hnow⟩⟩
  | channelGranted =>
    obtain ⟨t, hstep, ht, hslots⟩ := step_channelGranted hs hpossible
    exact ⟨t, hstep, ht, ht.counts hslots.le nofun nofun⟩

theorem step_spec (hs : Going b k s) (hpossible : s.contention.Possible event) :
    ∃ t, s.step event = .ok t ∧ (Counts b k s event t ↔ Fits s event) ∧
      (Fits s event → Going b k t) := by
  by_cases hevent : ∀ now, event = .mediumStateChanged now false →
      s.contention.fsm ≠ IFS_AND_BACKOFF
  · obtain ⟨t, hstep, ht, hcounts⟩ := step_other hs hpossible hevent
    have hfits : Fits s event := fun now heq hstate => absurd hstate (hevent now heq)
    exact ⟨t, hstep, iff_of_true hcounts hfits, fun _ => ht⟩
  · push Not at hevent
    obtain ⟨now, rfl, hstate⟩ := hevent
    obtain ⟨t, hstep, hslots, ht⟩ := step_busy hs hstate hpossible.1
    have hidle := idleSlots_eq hs.slotTime now
    have hbound := hs.backoffSlots
    have hleft := slotsLeft_nonneg hs.slotTime (hpossible.1.2.1 _ (hs.scheduled hstate).2.1)
    have hsmall (h : s.contention.slotsLeft now < s.contention.backoffSlots) :
        Inet.toInt (s.contention.slotsLeft now) = s.contention.slotsLeft now := toInt_of (by omega)
    have hexact : t.contention.backoffSlots =
        s.contention.backoffSlots - s.contention.idleSlots now ↔
          (Inet.toInt (s.contention.slotsLeft now) < s.contention.backoffSlots →
            s.contention.slotsLeft now < s.contention.backoffSlots) := by
      rw [hslots]
      split_ifs with hless <;> omega
    have hfits : Fits s (.mediumStateChanged now false) ↔
        (Inet.toInt (s.contention.slotsLeft now) < s.contention.backoffSlots →
          s.contention.slotsLeft now < s.contention.backoffSlots) := by
      refine ⟨fun h => h now rfl hstate, fun h now' heq _ => ?_⟩
      cases heq
      exact h
    rw [hfits, ← hexact]
    refine ⟨t, hstep, ⟨fun h => h.busy now rfl hstate, fun h => ?_⟩, ht⟩
    refine (ht h).counts ?_ (fun now' heq _ => ?_) nofun
    · omega
    · cases heq
      exact h

end

variable {cw ifs eifs slotTime slots : ℤ}

theorem startContention_going (hidle : c.fsm = IDLE) (hstart : c.startTxEvent = none)
    (hoptimization : c.backoffOptimization = false) (hspaces : 0 ≤ ifs ∧ 0 ≤ eifs)
    (hslot : 0 < slotTime) (hslots : 0 ≤ slots ∧ slots ≤ cw) (hcw : cw < 2 ^ 31) :
    ∃ d, c.startContention cw ifs eifs slotTime slots = .ok d ∧
      Going slots c.channelAccessGranted ⟨d, 0⟩ := by
  have hdeferred : Going slots c.channelAccessGranted ⟨{ c with
      channelGrantedEvent := none, ifs, eifs, slotTime, callback := true, backoffSlots := slots
      mediumFree := false, fsm := DEFER }, 0⟩ :=
    ⟨hslot, ⟨hslots.1, by dsimp only; omega⟩, hoptimization, nofun, nofun, fun _ => rfl,
      fun _ => hstart, fun _ => rfl, fun _ => rfl, rfl, zero_add _⟩
  rw [startContention, assert_of (by simp only [decide_eq_true_eq]; omega), ok_bind]
  dsimp only
  rw [assert_of (decide_eq_true hidle), ok_bind]
  by_cases hfree : c.mediumFree = true
  · obtain ⟨d, hrequest, -, -, hd⟩ := hdeferred.request (c := { c with
      channelGrantedEvent := none, ifs, eifs, slotTime, callback := true
      backoffSlots := slots }) hfree nofun rfl rfl hoptimization rfl rfl rfl
    exact ⟨_, handleWithFSM_start hidle hfree hrequest, hd⟩
  · rw [Bool.not_eq_true] at hfree
    refine ⟨_, ?_, hdeferred⟩
    simp [handleWithFSM, hidle, hfree]

/-- Every slot is counted once in a run just in case the numbers of slots fit into an `int`
whenever the medium becomes busy. -/
theorem along_counts_iff (hidle : c.fsm = IDLE) (hstart : c.startTxEvent = none)
    (hoptimization : c.backoffOptimization = false) (hspaces : 0 ≤ ifs ∧ 0 ≤ eifs)
    (hslot : 0 < slotTime) (hslots : 0 ≤ slots ∧ slots ≤ cw) (hcw : cw < 2 ^ 31) :
    ∃ d, c.startContention cw ifs eifs slotTime slots = .ok d ∧
      Going slots c.channelAccessGranted ⟨d, 0⟩ ∧ ∀ events,
      Run.Admissible Counting.step (fun s event => s.contention.Possible event) ⟨d, 0⟩ events →
      (Run.Along Counting.step (Counts slots c.channelAccessGranted) ⟨d, 0⟩ events ↔
        Run.Admissible Counting.step Fits ⟨d, 0⟩ events) := by
  obtain ⟨d, hd, hgoing⟩ :=
    startContention_going hidle hstart hoptimization hspaces hslot hslots hcw
  exact ⟨d, hd, hgoing, fun events hpossible =>
    Run.along_iff_of_admissible (fun s event hs h => step_spec hs h) hgoing hpossible⟩

/-- A contention with 5 slots of 20 units. -/
theorem along_counts_five :
    ∃ d, ({ backoffOptimization := false } : Contention).startContention 15 50 100 20 5 = .ok d ∧
      Going 5 0 ⟨d, 0⟩ ∧ ∀ events,
      Run.Admissible Counting.step (fun s event => s.contention.Possible event) ⟨d, 0⟩ events →
      (Run.Along Counting.step (Counts 5 0) ⟨d, 0⟩ events ↔
        Run.Admissible Counting.step Fits ⟨d, 0⟩ events) :=
  along_counts_iff rfl rfl rfl (by decide) (by decide) (by decide) (by decide)

/-- An interframe space of `2 ^ 31` slots. If the medium becomes busy at once, the number of slots
becomes negative. -/
theorem not_along_counts_long :
    ∃ d, ({ backoffOptimization := false } : Contention).startContention 15 (2 ^ 31) (2 ^ 31) 1 1 =
        .ok d ∧
      Run.Admissible Counting.step (fun s event => s.contention.Possible event) ⟨d, 0⟩
        [.mediumStateChanged 0 false] ∧
      ¬ Run.Along Counting.step (Counts 1 0) ⟨d, 0⟩ [.mediumStateChanged 0 false] := by
  refine ⟨_, rfl, ⟨⟨⟨le_rfl, ?_, nofun⟩, by decide⟩, fun _ _ => trivial⟩, ?_⟩
  · intro t ht
    cases ht
    decide
  · rintro ⟨t, hstep, hcounts, -⟩
    cases hstep
    exact absurd hcounts.nonneg (by decide)

end Contention

end Inet.Ieee80211
