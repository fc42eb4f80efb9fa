import Inet.Ieee80211.QoSRecoveryProcedure

/-!
# What the retry counters count

The counters of a frame are exact if they add up to its failed attempts, and if only frames in
flight have counters (`IsExact`). Frames of different receivers may have the same key, and RTS
frames are counted in the map for short frames even if the frame that they protect is long: a run
in which neither does harm keeps the counters exact (`isExact_throughout`).
-/

namespace Inet.Ieee80211

section

variable {p p' : QoSRecoveryProcedure} {m m' : RetryCounter} {frame : QoSDataFrame} {id k : RetryId}

/-- A counter has been incremented. -/
def Incremented (m m' : RetryCounter) (id : RetryId) : Prop :=
  ∀ k : RetryId, m'[k]? = if k = id then some (m[id]?.getD 0 + 1) else m[k]?

/-- A counter has been erased. -/
def Erased (m m' : RetryCounter) (id : RetryId) : Prop :=
  ∀ k : RetryId, m'[k]? = if k = id then none else m[k]?

theorem Incremented.eq_of_ne (h : Incremented m m' id)
    (hk : k ≠ id) : m'[k]? = m[k]? := (h k).trans (if_neg hk)

/-- The counters stay positive. -/
theorem Incremented.positive (h : Incremented m m' id)
    (hm : ∀ (k : RetryId) n, m[k]? = some n → 1 ≤ n) {n : ℤ} (hn : m'[k]? = some n) : 1 ≤ n := by
  rw [h k] at hn
  split_ifs at hn with hk
  · cases hn
    cases hcount : m[id]? with
    | none => exact le_rfl
    | some count =>
      have := hm id count hcount
      rw [Option.getD_some]
      omega
  · exact hm k n hn

namespace QoSRecoveryProcedure

theorem incremented_insert (id : RetryId) : Incremented m (m.insert id (m[id]?.getD 0 + 1)) id := by
  intro k
  rw [Std.TreeMap.getElem?_insert]
  simp only [Std.compare_eq_iff_eq]
  simp only [eq_comm]

theorem incrementCounter_spec (h : incrementCounter frame m = .ok m') :
    Incremented m m' frame.id := by
  rw [incrementCounter] at h
  have hinsert := incremented_insert (m := m) frame.id
  cases hcount : m[frame.id]? with
  | none =>
    rw [hcount] at h hinsert
    cases h
    exact hinsert
  | some count =>
    rw [hcount] at h hinsert
    obtain ⟨count', hcheck, h⟩ := bind_eq_ok.mp h
    cases h
    rw [checkInt] at hcheck
    split_ifs at hcheck
    cases hcheck
    exact hinsert

theorem erased_erase : Erased m (m.erase id) id := by
  intro k
  rw [Std.TreeMap.getElem?_erase]
  simp only [Std.compare_eq_iff_eq]
  simp only [eq_comm]

theorem backOff_spec {isLast : Bool} (h : p.backOff isLast = .ok p') :
    p'.shortRetryCounter = p.shortRetryCounter ∧ p'.longRetryCounter = p.longRetryCounter ∧
      p'.rtsThreshold = p.rtsThreshold := by
  rw [backOff] at h
  split_ifs at h
  · cases h
    exact ⟨rfl, rfl, rfl⟩
  · obtain ⟨c, -, h⟩ := bind_eq_ok.mp h
    cases h
    exact ⟨rfl, rfl, rfl⟩

/-- A failure is counted in one map. -/
structure Fails (p p' : QoSRecoveryProcedure) (frame : QoSDataFrame) : Prop where
  rtsThreshold : p'.rtsThreshold = p.rtsThreshold
  counted : Incremented p.shortRetryCounter p'.shortRetryCounter frame.id ∧
      p'.longRetryCounter = p.longRetryCounter ∨
    p.isLong frame = true ∧ Incremented p.longRetryCounter p'.longRetryCounter frame.id ∧
      p'.shortRetryCounter = p.shortRetryCounter

theorem rtsFrameTransmissionFailed_spec (h : p.rtsFrameTransmissionFailed frame = .ok p') :
    Fails p p' frame := by
  obtain ⟨p₁, hstation, h⟩ := bind_eq_ok.mp h
  obtain ⟨m, hcounter, h⟩ := bind_eq_ok.mp h
  cases h
  obtain ⟨count, -, hstation⟩ := bind_eq_ok.mp hstation
  obtain ⟨hshort, hlong, hthreshold⟩ := backOff_spec hstation
  exact ⟨hthreshold, .inl ⟨hshort ▸ incrementCounter_spec hcounter, hlong⟩⟩

theorem dataFrameTransmissionFailed_spec (h : p.dataFrameTransmissionFailed frame = .ok p') :
    Fails p p' frame := by
  rw [dataFrameTransmissionFailed] at h
  split_ifs at h with hlength
  · obtain ⟨p₁, hstation, h⟩ := bind_eq_ok.mp h
    obtain ⟨m, hcounter, h⟩ := bind_eq_ok.mp h
    cases h
    obtain ⟨count, -, hstation⟩ := bind_eq_ok.mp hstation
    obtain ⟨hshort, hlong, hthreshold⟩ := backOff_spec hstation
    exact ⟨hthreshold, .inr ⟨hlength, hlong ▸ incrementCounter_spec hcounter, hshort⟩⟩
  · exact rtsFrameTransmissionFailed_spec h

/-- A frame that is done with is erased from the map of its length. -/
structure Forgets (p p' : QoSRecoveryProcedure) (frame : QoSDataFrame) : Prop where
  rtsThreshold : p'.rtsThreshold = p.rtsThreshold
  erased : if p.isLong frame = true then
      Erased p.longRetryCounter p'.longRetryCounter frame.id ∧
        p'.shortRetryCounter = p.shortRetryCounter
    else
      Erased p.shortRetryCounter p'.shortRetryCounter frame.id ∧
        p'.longRetryCounter = p.longRetryCounter

theorem retryLimitReached_spec (p : QoSRecoveryProcedure) (frame : QoSDataFrame) :
    Forgets p (p.retryLimitReached frame) frame := by
  rw [retryLimitReached]
  split_ifs with hlength
  · exact ⟨rfl, by rw [if_pos hlength]; exact ⟨erased_erase, rfl⟩⟩
  · exact ⟨rfl, by rw [if_neg hlength]; exact ⟨erased_erase, rfl⟩⟩

theorem ackFrameReceived_spec (p : QoSRecoveryProcedure) (frame : QoSDataFrame) :
    Forgets p (p.ackFrameReceived frame) frame := by
  rw [ackFrameReceived]
  by_cases hlength : p.isLong frame = true
  · rw [if_pos hlength]
    exact ⟨rfl, by rw [if_pos hlength]; exact ⟨erased_erase, rfl⟩⟩
  · rw [if_neg hlength]
    exact ⟨rfl, by rw [if_neg hlength]; exact ⟨erased_erase, rfl⟩⟩

end QoSRecoveryProcedure

end

namespace QoSRecoveryProcedure

variable {p p' : QoSRecoveryProcedure} {frame : QoSDataFrame} {k : RetryId}

/-- There is a counter under the key. -/
def HasCounter (p : QoSRecoveryProcedure) (k : RetryId) : Prop :=
  p.shortRetryCounter[k]? ≠ none ∨ p.longRetryCounter[k]? ≠ none

theorem retryCount_of_not_hasCounter (h : ¬ p.HasCounter k) : p.retryCount k = 0 := by
  rw [HasCounter, not_or, not_not, not_not] at h
  rw [retryCount, h.1, h.2]
  rfl

theorem Fails.retryCount (h : Fails p p' frame) :
    p'.retryCount k = p.retryCount k + if k = frame.id then 1 else 0 := by
  obtain ⟨-, ⟨hshort, hlong⟩ | ⟨-, hlong, hshort⟩⟩ := h
  · rw [QoSRecoveryProcedure.retryCount, QoSRecoveryProcedure.retryCount, hshort k, hlong]
    split_ifs with hk
    · rw [hk, Option.getD_some]
      omega
    · omega
  · rw [QoSRecoveryProcedure.retryCount, QoSRecoveryProcedure.retryCount, hlong k, hshort]
    split_ifs with hk
    · rw [hk, Option.getD_some]
      omega
    · omega

theorem isLong_congr (h : p'.rtsThreshold = p.rtsThreshold) : p'.isLong frame = p.isLong frame := by
  rw [isLong, isLong, h]

theorem Fails.hasCounter (h : Fails p p' frame) (hk : p'.HasCounter k) :
    k = frame.id ∨ p.HasCounter k := by
  by_cases heq : k = frame.id
  · exact .inl heq
  · refine .inr ?_
    obtain ⟨-, ⟨hshort, hlong⟩ | ⟨-, hlong, hshort⟩⟩ := h
    · rwa [HasCounter, hshort k, if_neg heq, hlong] at hk
    · rwa [HasCounter, hlong k, if_neg heq, hshort] at hk

theorem Fails.positive (h : Fails p p' frame) (hp : ∀ (k : RetryId) n,
      p.shortRetryCounter[k]? = some n ∨ p.longRetryCounter[k]? = some n → 1 ≤ n) {n : ℤ}
    (hn : p'.shortRetryCounter[k]? = some n ∨ p'.longRetryCounter[k]? = some n) : 1 ≤ n := by
  have hshort : ∀ (k : RetryId) n, p.shortRetryCounter[k]? = some n → 1 ≤ n :=
    fun k n hn => hp k n (.inl hn)
  have hlong : ∀ (k : RetryId) n, p.longRetryCounter[k]? = some n → 1 ≤ n :=
    fun k n hn => hp k n (.inr hn)
  obtain ⟨hinc, hsame⟩ | ⟨-, hinc, hsame⟩ := h.counted
  · exact hn.elim (hinc.positive hshort) fun hn => hlong k n (hsame ▸ hn)
  · exact hn.elim (fun hn => hshort k n (hsame ▸ hn)) (hinc.positive hlong)

/-- The other counters stay. -/
theorem Forgets.eq_of_ne (h : Forgets p p' frame) (hk : k ≠ frame.id) :
    p'.shortRetryCounter[k]? = p.shortRetryCounter[k]? ∧
      p'.longRetryCounter[k]? = p.longRetryCounter[k]? := by
  have herased := h.erased
  split_ifs at herased
  · exact ⟨by rw [herased.2], (herased.1 k).trans (if_neg hk)⟩
  · exact ⟨(herased.1 k).trans (if_neg hk), by rw [herased.2]⟩

end QoSRecoveryProcedure

namespace Originator

variable {s s' : Originator} {id : ℕ} {f : InFlight} {recovery : QoSRecoveryProcedure}

/-- The counters of a frame add up to its failures, and no other frame has a counter. -/
structure IsExact (s : Originator) : Prop where
  count : ∀ id f, s.inFlight id = some f → s.recovery.retryCount f.frame.id = f.failures
  survivor : ∀ k, s.recovery.HasCounter k → ∃ id f, s.inFlight id = some f ∧ f.frame.id = k

/-- The event does no harm to the counters. -/
def Unharmed (s : Originator) : Event → Prop
  | .transmit receiverAddress tid byteLengths =>
    -- a frame in flight that has the key of a new one has not failed
    ∀ i < byteLengths.length, ∀ id f, s.inFlight id = some f → f.frame.id =
        retryId tid (s.numbering.assignDataSequenceNumber receiverAddress tid).2 i →
      f.failures = 0
  | .dataFailed id | .rtsFailed id =>
    -- no other frame in flight has the key
    ∀ f, s.inFlight id = some f → ∀ id' g, s.inFlight id' = some g →
      g.frame.id = f.frame.id → id' = id
  | .acked id | .dropped id =>
    -- no RTS frame that protected a long frame has failed
    ∀ f, s.inFlight id = some f → s.recovery.isLong f.frame = true →
      s.recovery.shortRetryCounter[f.frame.id]? = none

/-- Frames with one key have not failed, and long frames have the long counters. -/
structure Inv (s : Originator) : Prop extends IsExact s where
  fresh : ∀ id, s.nextId ≤ id → s.inFlight id = none
  shared : ∀ id id' f g, s.inFlight id = some f → s.inFlight id' = some g →
    f.frame.id = g.frame.id → id ≠ id' → f.failures = 0
  long : ∀ k, s.recovery.longRetryCounter[k]? ≠ none →
    ∃ id f, s.inFlight id = some f ∧ f.frame.id = k ∧ s.recovery.isLong f.frame = true
  positive : ∀ (k : RetryId) n, s.recovery.shortRetryCounter[k]? = some n ∨
    s.recovery.longRetryCounter[k]? = some n → 1 ≤ n

theorem Inv.not_hasCounter (h : Inv s) (hf : s.inFlight id = some f) (hzero : f.failures = 0) :
    ¬ s.recovery.HasCounter f.frame.id := by
  have hcount := h.count id f hf
  have hshort : 0 ≤ s.recovery.shortRetryCounter[f.frame.id]?.getD 0 := by
    cases hn : s.recovery.shortRetryCounter[f.frame.id]? with
    | none => exact le_rfl
    | some n => exact (h.positive _ n (.inl hn)).trans' (by decide)
  have hlong : 0 ≤ s.recovery.longRetryCounter[f.frame.id]?.getD 0 := by
    cases hn : s.recovery.longRetryCounter[f.frame.id]? with
    | none => exact le_rfl
    | some n => exact (h.positive _ n (.inr hn)).trans' (by decide)
  rw [QoSRecoveryProcedure.retryCount, hzero] at hcount
  rintro (hcounter | hcounter)
  · obtain ⟨n, hn⟩ := Option.ne_none_iff_exists'.mp hcounter
    have := h.positive _ n (.inl hn)
    rw [hn, Option.getD_some] at hcount
    omega
  · obtain ⟨n, hn⟩ := Option.ne_none_iff_exists'.mp hcounter
    have := h.positive _ n (.inr hn)
    rw [hn, Option.getD_some] at hcount
    omega

theorem fail_inFlight (s : Originator) (id : ℕ) (f : InFlight) (recovery : QoSRecoveryProcedure)
    (id' : ℕ) : (s.fail id f recovery).inFlight id' =
      if id' = id then some { f with failures := f.failures + 1 } else s.inFlight id' :=
  Function.update_apply _ _ _ _

theorem finish_inFlight (s : Originator) (id : ℕ) (recovery : QoSRecoveryProcedure) (id' : ℕ) :
    (s.finish id recovery).inFlight id' = if id' = id then none else s.inFlight id' :=
  Function.update_apply _ _ _ _

theorem find_eq_ok (h : s.find id = .ok f) : s.inFlight id = some f := by
  rw [find] at h
  cases hf : s.inFlight id with
  | none =>
    rw [hf] at h
    cases h
  | some g =>
    rw [hf] at h
    exact congrArg some (Except.ok.inj h)

/-- The frames in flight are the same ones after a failure. -/
theorem exists_fail_inFlight (hf : s.inFlight id = some f) (recovery : QoSRecoveryProcedure)
    {id' : ℕ} {g : InFlight} (hg : s.inFlight id' = some g) :
    ∃ g', (s.fail id f recovery).inFlight id' = some g' ∧ g'.frame = g.frame := by
  rw [fail_inFlight]
  split_ifs with hid
  · obtain rfl := Option.some.inj (hf.symm.trans (hid ▸ hg))
    exact ⟨_, rfl, rfl⟩
  · exact ⟨g, hg, rfl⟩

theorem finish_inFlight_of_ne (hf : s.inFlight id = some f) (recovery : QoSRecoveryProcedure)
    {id' : ℕ} {g : InFlight} (hg : s.inFlight id' = some g) (hne : g.frame.id ≠ f.frame.id) :
    (s.finish id recovery).inFlight id' = some g := by
  rw [finish_inFlight, if_neg, hg]
  rintro rfl
  obtain rfl := Option.some.inj (hf.symm.trans hg)
  exact hne rfl

/-- A failure is counted for the frame, and for no other one. -/
theorem Inv.fail (h : Inv s) (hf : s.inFlight id = some f)
    (hfails : s.recovery.Fails recovery f.frame)
    (hother : ∀ id' g, s.inFlight id' = some g → g.frame.id = f.frame.id → id' = id) :
    Inv (s.fail id f recovery) := by
  refine ⟨⟨fun id' g hg => ?_, fun k hk => ?_⟩, fun id' hid => ?_,
    fun id₁ id₂ f₁ f₂ h₁ h₂ hkey hne => ?_, fun k hk => ?_, fun k n hn => ?_⟩
  · change recovery.retryCount g.frame.id = g.failures
    rw [fail_inFlight] at hg
    rw [hfails.retryCount]
    split_ifs at hg with hid
    · cases hg
      rw [if_pos rfl, h.count id f hf]
      rfl
    · rw [if_neg fun hkey => hid (hother id' g hg hkey), h.count id' g hg, add_zero]
  · have hold : ∃ id' g, s.inFlight id' = some g ∧ g.frame.id = k := by
      obtain rfl | hk := hfails.hasCounter hk
      · exact ⟨id, f, hf, rfl⟩
      · exact h.survivor k hk
    obtain ⟨id', g, hg, rfl⟩ := hold
    obtain ⟨g', hg', hframe⟩ := exists_fail_inFlight hf recovery hg
    exact ⟨id', g', hg', hframe ▸ rfl⟩
  · have hnone := h.fresh id' hid
    have hne : id' ≠ id := by
      rintro rfl
      rw [hf] at hnone
      cases hnone
    rw [fail_inFlight, if_neg hne, hnone]
  · rw [fail_inFlight] at h₁ h₂
    split_ifs at h₁ h₂ with hid₁ hid₂ hid₂
    · exact absurd (hid₁.trans hid₂.symm) hne
    · cases h₁
      exact absurd (hother id₂ f₂ h₂ hkey.symm) hid₂
    · cases h₂
      exact absurd (hother id₁ f₁ h₁ hkey) hid₁
    · exact h.shared id₁ id₂ f₁ f₂ h₁ h₂ hkey hne
  · have hold : ∃ id' g, s.inFlight id' = some g ∧ g.frame.id = k ∧
        s.recovery.isLong g.frame = true := by
      obtain ⟨-, hlong⟩ | ⟨hlength, hlong, -⟩ := hfails.counted
      · exact h.long k (hlong ▸ hk)
      · by_cases hkey : k = f.frame.id
        · exact ⟨id, f, hf, hkey.symm, hlength⟩
        · exact h.long k (hlong.eq_of_ne hkey ▸ hk)
    obtain ⟨id', g, hg, rfl, hlength⟩ := hold
    obtain ⟨g', hg', hframe⟩ := exists_fail_inFlight hf recovery hg
    refine ⟨id', g', hg', hframe ▸ rfl, ?_⟩
    rw [hframe]
    exact (QoSRecoveryProcedure.isLong_congr hfails.rtsThreshold).trans hlength
  · exact hfails.positive h.positive hn

/-- The long counters are those of long frames. -/
theorem Inv.longRetryCounter_eq_none (h : Inv s) (hf : s.inFlight id = some f)
    (hlength : ¬ s.recovery.isLong f.frame = true) :
    s.recovery.longRetryCounter[f.frame.id]? = none := by
  by_contra hcounter
  obtain ⟨id', g, hg, hkey, hlength'⟩ := h.long _ hcounter
  by_cases hid : id = id'
  · subst hid
    obtain rfl := Option.some.inj (hf.symm.trans hg)
    exact hlength hlength'
  · have hzero := h.shared id id' f g hf hg hkey.symm hid
    exact h.not_hasCounter hf hzero (.inr hcounter)

section

variable (h : Inv s) (hf : s.inFlight id = some f) (hforgets : s.recovery.Forgets recovery f.frame)
  (hrts : s.recovery.isLong f.frame = true → s.recovery.shortRetryCounter[f.frame.id]? = none)

include h hf hforgets hrts

/-- A frame that is done with has no counter any more: the map that it is not erased from has
none. -/
theorem Inv.not_hasCounter_of_forgets : ¬ recovery.HasCounter f.frame.id := by
  rw [QoSRecoveryProcedure.HasCounter, not_or, not_not, not_not]
  have herased := hforgets.erased
  split_ifs at herased with hlength
  · exact ⟨herased.2 ▸ hrts hlength, (herased.1 _).trans (if_pos rfl)⟩
  · refine ⟨(herased.1 _).trans (if_pos rfl), ?_⟩
    rw [herased.2]
    exact h.longRetryCounter_eq_none hf hlength

/-- A frame that is done with leaves no counter behind. -/
theorem Inv.finish : Inv (s.finish id recovery) := by
  have hback : ∀ id' g, (s.finish id recovery).inFlight id' = some g →
      id' ≠ id ∧ s.inFlight id' = some g := by
    intro id' g hg
    rw [finish_inFlight] at hg
    split_ifs at hg with hid
    exact ⟨hid, hg⟩
  have hnone := h.not_hasCounter_of_forgets hf hforgets hrts
  refine ⟨⟨fun id' g hg => ?_, fun k hk => ?_⟩, fun id' hid => ?_,
    fun id₁ id₂ f₁ f₂ h₁ h₂ hkey hne => ?_, fun k hk => ?_, fun k n hn => ?_⟩
  · change recovery.retryCount g.frame.id = g.failures
    obtain ⟨hid, hg⟩ := hback id' g hg
    by_cases hkey : g.frame.id = f.frame.id
    · have hzero := h.shared id' id g f hg hf hkey hid
      rw [hkey, QoSRecoveryProcedure.retryCount_of_not_hasCounter hnone, hzero]
      rfl
    · rw [← h.count id' g hg, QoSRecoveryProcedure.retryCount, QoSRecoveryProcedure.retryCount,
        (hforgets.eq_of_ne hkey).1, (hforgets.eq_of_ne hkey).2]
  · have hne : k ≠ f.frame.id := fun hkey => hnone (hkey ▸ hk)
    have hold : s.recovery.HasCounter k := by
      change recovery.HasCounter k at hk
      rwa [QoSRecoveryProcedure.HasCounter, (hforgets.eq_of_ne hne).1,
        (hforgets.eq_of_ne hne).2] at hk
    obtain ⟨id', g, hg, rfl⟩ := h.survivor k hold
    exact ⟨id', g, finish_inFlight_of_ne hf recovery hg hne, rfl⟩
  · rw [finish_inFlight, h.fresh id' hid, ite_self]
  · obtain ⟨-, h₁⟩ := hback id₁ f₁ h₁
    obtain ⟨-, h₂⟩ := hback id₂ f₂ h₂
    exact h.shared id₁ id₂ f₁ f₂ h₁ h₂ hkey hne
  · have hne : k ≠ f.frame.id := fun hkey => hnone (.inr (hkey ▸ hk))
    change recovery.longRetryCounter[k]? ≠ none at hk
    rw [(hforgets.eq_of_ne hne).2] at hk
    obtain ⟨id', g, hg, rfl, hlength⟩ := h.long k hk
    exact ⟨id', g, finish_inFlight_of_ne hf recovery hg hne, rfl,
      (QoSRecoveryProcedure.isLong_congr hforgets.rtsThreshold).trans hlength⟩
  · change recovery.shortRetryCounter[k]? = some n ∨ recovery.longRetryCounter[k]? = some n at hn
    have hne : k ≠ f.frame.id := by
      rintro rfl
      refine hnone (hn.imp (fun hn => ?_) fun hn => ?_) <;> simp [hn]
    rw [(hforgets.eq_of_ne hne).1, (hforgets.eq_of_ne hne).2] at hn
    exact h.positive k n hn

end

/-- A new frame has no counter. -/
theorem Inv.transmit (h : Inv s) {receiverAddress tid : ℕ} {byteLengths : List ℕ}
    (hok : s.Unharmed (.transmit receiverAddress tid byteLengths))
    (hstep : s.step (.transmit receiverAddress tid byteLengths) = .ok s') : Inv s' := by
  cases hstep
  -- a frame in flight is an old one, or a new one without failures
  have hcases : ∀ id g, (if id < s.nextId then s.inFlight id
        else byteLengths[id - s.nextId]?.map fun byteLength =>
          (⟨⟨receiverAddress, tid,
            (s.numbering.assignDataSequenceNumber receiverAddress tid).2, id - s.nextId,
            byteLength⟩, 0⟩ : InFlight)) = some g →
      s.inFlight id = some g ∨ g.failures = 0 ∧ ∃ i < byteLengths.length,
        g.frame.id =
          retryId tid (s.numbering.assignDataSequenceNumber receiverAddress tid).2 i := by
    intro id g hg
    split_ifs at hg with hid
    · exact .inl hg
    · obtain ⟨byteLength, hlength, rfl⟩ := Option.map_eq_some_iff.mp hg
      exact .inr ⟨rfl, id - s.nextId, (List.getElem?_eq_some_iff.mp hlength).1, rfl⟩
  have hold : ∀ id g, s.inFlight id = some g → id < s.nextId := fun id g hg => by
    by_contra hid
    rw [h.fresh id (Nat.not_lt.mp hid)] at hg
    cases hg
  refine ⟨⟨fun id g hg => ?_, fun k hk => ?_⟩, fun id hid => ?_,
    fun id₁ id₂ f₁ f₂ h₁ h₂ hkey hne => ?_, fun k hk => ?_, h.positive⟩
  · obtain hg | ⟨hzero, i, hi, hkey⟩ := hcases id g hg
    · exact h.count id g hg
    · rw [hzero]
      refine QoSRecoveryProcedure.retryCount_of_not_hasCounter fun hcounter => ?_
      obtain ⟨id', f, hf, hkey'⟩ := h.survivor _ hcounter
      exact h.not_hasCounter hf (hok i hi id' f hf (hkey'.trans hkey)) (hkey' ▸ hcounter)
  · obtain ⟨id, f, hf, hkey⟩ := h.survivor k hk
    exact ⟨id, f, (if_pos (hold id f hf)).trans hf, hkey⟩
  · have hge : ¬ id < s.nextId := Nat.not_lt.mpr ((Nat.le_add_right _ _).trans hid)
    have hnone : byteLengths[id - s.nextId]? = none :=
      List.getElem?_eq_none (Nat.le_sub_of_add_le' hid)
    exact (if_neg hge).trans (by rw [hnone]; rfl)
  · obtain h₁ | ⟨hzero, -⟩ := hcases id₁ f₁ h₁
    · obtain h₂ | ⟨-, i, hi, hkey'⟩ := hcases id₂ f₂ h₂
      · exact h.shared id₁ id₂ f₁ f₂ h₁ h₂ hkey hne
      · exact hok i hi id₁ f₁ h₁ (hkey.trans hkey')
    · exact hzero
  · obtain ⟨id, f, hf, hkey, hlength⟩ := h.long k hk
    exact ⟨id, f, (if_pos (hold id f hf)).trans hf, hkey, hlength⟩

theorem Inv.step (h : Inv s) {event : Event} (hok : s.Unharmed event)
    (hstep : s.step event = .ok s') : Inv s' := by
  cases event with
  | transmit receiverAddress tid byteLengths => exact h.transmit hok hstep
  | dataFailed id =>
    obtain ⟨f, hfind, hstep⟩ := bind_eq_ok.mp hstep
    obtain ⟨recovery, hfails, hstep⟩ := bind_eq_ok.mp hstep
    cases hstep
    have hf := find_eq_ok hfind
    exact h.fail hf (QoSRecoveryProcedure.dataFrameTransmissionFailed_spec hfails) (hok f hf)
  | rtsFailed id =>
    obtain ⟨f, hfind, hstep⟩ := bind_eq_ok.mp hstep
    obtain ⟨recovery, hfails, hstep⟩ := bind_eq_ok.mp hstep
    cases hstep
    have hf := find_eq_ok hfind
    exact h.fail hf (QoSRecoveryProcedure.rtsFrameTransmissionFailed_spec hfails) (hok f hf)
  | acked id =>
    obtain ⟨f, hfind, hstep⟩ := bind_eq_ok.mp hstep
    cases hstep
    have hf := find_eq_ok hfind
    exact h.finish hf (QoSRecoveryProcedure.ackFrameReceived_spec _ _) (hok f hf)
  | dropped id =>
    obtain ⟨f, hfind, hstep⟩ := bind_eq_ok.mp hstep
    cases hstep
    have hf := find_eq_ok hfind
    exact h.finish hf (QoSRecoveryProcedure.retryLimitReached_spec _ _) (hok f hf)

/-- A station that has not sent anything. -/
def start (cwCalculator : CwCalculator) (shortRetryLimit longRetryLimit rtsThreshold : ℤ) :
    Originator where
  recovery := { cwCalculator, shortRetryLimit, longRetryLimit, rtsThreshold }

theorem inv_start (cwCalculator : CwCalculator) (shortRetryLimit longRetryLimit rtsThreshold : ℤ) :
    Inv (start cwCalculator shortRetryLimit longRetryLimit rtsThreshold) := by
  have hempty : ∀ k : RetryId, (∅ : RetryCounter)[k]? = none := fun k =>
    Std.TreeMap.getElem?_emptyc
  refine ⟨⟨fun id f hf => ?_, fun k hk => ?_⟩, fun id _ => rfl, fun id _ f _ hf => ?_,
    fun k hk => absurd (hempty k) hk, fun k n hn => ?_⟩
  · cases hf
  · exact (hk.elim (· (hempty k)) (· (hempty k))).elim
  · cases hf
  · obtain hn | hn := hn
    · cases (hempty k).symm.trans hn
    · cases (hempty k).symm.trans hn

/-- The counters are exact in every state of a run whose events do no harm to them. -/
theorem isExact_throughout (cwCalculator : CwCalculator)
    (shortRetryLimit longRetryLimit rtsThreshold : ℤ) (events : List Event)
    (hrun : Run.Admissible step Unharmed
      (start cwCalculator shortRetryLimit longRetryLimit rtsThreshold) events) :
    Run.Throughout step IsExact
      (start cwCalculator shortRetryLimit longRetryLimit rtsThreshold) events :=
  (Run.throughout_of_step (P := Inv) (fun _ _ _ hs hok hstep => hs.step hok hstep)
    (inv_start _ _ _ _) hrun).mono fun _ hs => hs.toIsExact

/-- The first frame of a station that has sent one fragment is the only one. -/
theorem id_eq_zero_of_singleton {frame : ℕ → ℕ → QoSDataFrame} {byteLength id : ℕ} {f : InFlight}
    (h : (if id < 0 then none
      else [byteLength][id - 0]?.map fun n => (⟨frame id n, 0⟩ : InFlight)) = some f) : id = 0 := by
  rw [if_neg (Nat.not_lt_zero id)] at h
  obtain ⟨n, hn, -⟩ := Option.map_eq_some_iff.mp h
  have := (List.getElem?_eq_some_iff.mp hn).1
  rw [List.length_singleton] at this
  omega

/-- A short frame fails once and is acknowledged. -/
theorem isExact_throughout_retry : Run.Throughout step IsExact (start ⟨31, 31, 1023⟩ 7 4 2346)
      [.transmit 1 0 [100], .dataFailed 0, .acked 0] := by
  refine isExact_throughout _ _ _ _ _ ⟨?_, fun s hs => ⟨?_, fun s' hs' => ⟨?_, fun _ _ => trivial⟩⟩⟩
  · intro i _ id f hf
    cases hf
  · obtain rfl := Except.ok.inj hs
    intro f _ id' g hg _
    exact id_eq_zero_of_singleton hg
  · obtain rfl := Except.ok.inj hs
    obtain rfl := Except.ok.inj (show Except.ok _ = Except.ok s' from hs')
    intro f hf hlength
    obtain rfl := Option.some.inj hf
    exact absurd hlength (by decide)

/-- The failure of an RTS frame that has protected a long frame is remembered when the frame has
been acknowledged. -/
theorem not_isExact_of_rtsFailed : ¬ Run.Throughout step IsExact (start ⟨31, 31, 1023⟩ 7 4 2346)
      [.transmit 1 0 [3000], .rtsFailed 0, .acked 0] := by
  intro h
  have hexact := (((h.2 _ rfl).2 _ rfl).2 _ rfl).head
  obtain ⟨id, f, hf, -⟩ := hexact.survivor (retryId 0 0 0) (.inl (by
    refine fun hnone => ?_
    have hsome : ((∅ : RetryCounter).insert (retryId 0 0 0) 1)[retryId 0 0 0]? = some 1 :=
      Std.TreeMap.getElem?_insert_self
    cases hnone.symm.trans hsome))
  have hid : id ≠ 0 := by
    rintro rfl
    cases (finish_inFlight _ 0 _ 0).symm.trans hf
  have hlast := (if_neg hid).symm.trans ((finish_inFlight _ 0 _ id).symm.trans hf)
  have hsent := (if_neg hid).symm.trans ((fail_inFlight _ 0 _ _ id).symm.trans hlast)
  exact hid (id_eq_zero_of_singleton hsent)

end Originator

end Inet.Ieee80211
