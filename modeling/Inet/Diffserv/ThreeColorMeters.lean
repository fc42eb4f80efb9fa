import Inet.Library.TokenBucket
import Inet.Common.Basic

/-!
# Three color meters

A meter has two token buckets. It refills them from the time that has passed, and colors a packet
by the buckets that can pay for it. Both meters keep their buckets within bounds, and what they
color green or yellow conforms to a token bucket (`conforms_marked`).

Times, rates and numbers of tokens are exact numbers here.
-/

namespace Inet.Diffserv

open TokenBucket

/-- `enum Color`. -/
inductive Color where
  | green
  | yellow
  | red
deriving DecidableEq

/-- The value of a color in the enumeration; lower is better. -/
def Color.toInt : Color → ℤ
  | .green => 0
  | .yellow => 1
  | .red => 2

/-- What the meters read of an IP datagram: its length, and the color that a `ColorAttribute`
gives it. -/
structure Packet where
  bitLength : ℕ
  dscolor : Option Color

/-- A started byte counts. -/
def Packet.getByteLength (packet : Packet) : ℕ := (packet.bitLength + 7) / 8

/-- `DiffservUtil::getColor`. -/
def getColor (packet : Packet) : ℤ :=
  match packet.dscolor with
  | some color => color.toInt
  | none => -1

/-- `colorAwareMode ? getColor(packet) : -1`. -/
def oldColor (colorAwareMode : Bool) (packet : Packet) : ℤ :=
  if colorAwareMode then getColor packet else -1

theorem oldColor_le (colorAwareMode : Bool) (packet : Packet) :
    oldColor colorAwareMode packet ≤ 2 := by
  rw [oldColor, getColor]
  rcases packet.dscolor with _ | _ | _ | _ <;> split_ifs <;> simp [Color.toInt]

/-- The conversion `(long)x`. -/
def toLong (x : ℚ) : ℤ := if 0 ≤ x then ⌊x⌋ else ⌈x⌉

theorem toLong_nonneg {x : ℚ} (hx : 0 ≤ x) : 0 ≤ toLong x := by
  rw [toLong, if_pos hx]
  exact Int.floor_nonneg.mpr hx

theorem toLong_le {x : ℚ} (hx : 0 ≤ x) : (toLong x : ℚ) ≤ x := by
  rw [toLong, if_pos hx]
  exact Int.floor_le x

/-- `if (level + numTokens <= size) level += numTokens; else level = size;` -/
def addTokens (level numTokens size : ℤ) : ℤ :=
  if level + numTokens ≤ size then level + numTokens else size

theorem addTokens_spec {level numTokens size : ℤ} (hlevel : 0 ≤ level) (hle : level ≤ size)
    (htokens : 0 ≤ numTokens) :
    0 ≤ addTokens level numTokens size ∧ addTokens level numTokens size ≤ size ∧
      addTokens level numTokens size ≤ level + numTokens := by
  rw [addTokens]
  split_ifs <;> omega

/-- The tokens of a period are no more than the rate allows. -/
theorem toLong_mul_spec {elapsedTime rate : ℚ} (htime : 0 ≤ elapsedTime) (hrate : 0 ≤ rate) :
    0 ≤ toLong (elapsedTime * rate) ∧ (toLong (elapsedTime * rate) : ℚ) ≤ rate * elapsedTime := by
  have hnonneg : 0 ≤ elapsedTime * rate := mul_nonneg htime hrate
  exact ⟨toLong_nonneg hnonneg, (toLong_le hnonneg).trans_eq (mul_comm _ _)⟩

/-! ## Sequences of packets -/

structure Arrival where
  time : ℚ
  packet : Packet

/-- A packet with the color that the meter has given it. -/
structure Marked where
  time : ℚ
  packet : Packet
  newColor : Color

/-- The arrivals come one after the other, and not before `now`. -/
def InOrder (now : ℚ) (arrivals : List Arrival) : Prop :=
  List.IsChain (· ≤ ·) (now :: arrivals.map Arrival.time)
deriving Decidable

/-- The length of a packet if it is colored `worst` or better. -/
def bitsUpTo (worst color : Color) (packet : Packet) : ℕ :=
  if color.toInt ≤ worst.toInt then packet.bitLength else 0

/-- The bits that arrive in an interval and are colored `worst` or better. -/
def bitsMarked (worst : Color) (start stop : ℚ) (xs : List Marked) : ℚ :=
  total Marked.time (fun x => (bitsUpTo worst x.newColor x.packet : ℚ)) start stop xs

section

variable {σ : Type*} (meterPacket : σ → ℚ → Packet → Color × σ)

/-- The packets as a meter colors them. -/
def marked : σ → List Arrival → List Marked
  | _, [] => []
  | s, a :: arrivals =>
    let result := meterPacket s a.time a.packet
    ⟨a.time, a.packet, result.1⟩ :: marked result.2 arrivals

/-- The meter after it has colored the packets. -/
def after : σ → List Arrival → σ
  | s, [] => s
  | s, a :: arrivals => after (meterPacket s a.time a.packet).2 arrivals

variable {meterPacket} {Inv : σ → Prop} {lastUpdateTime : σ → ℚ} {size : ℤ} {rate : ℚ}
  {worst : Color} {s : σ} {arrivals : List Arrival}

/-- An invariant of the meter holds after every sequence of packets. -/
theorem after_of_step (hstep : ∀ s (a : Arrival), Inv s → lastUpdateTime s ≤ a.time →
      Inv (meterPacket s a.time a.packet).2 ∧
        lastUpdateTime (meterPacket s a.time a.packet).2 = a.time)
    (hs : Inv s) (htimes : InOrder (lastUpdateTime s) arrivals) :
    Inv (after meterPacket s arrivals) := by
  induction arrivals generalizing s with
  | nil => exact hs
  | cons a arrivals ih =>
    obtain ⟨htime, hlater⟩ := List.isChain_cons_cons.mp htimes
    obtain ⟨hinv, hlast⟩ := hstep s a hs htime
    exact ih hinv (by rw [InOrder, hlast]; exact hlater)

/-- When each step is paid for from a bucket, all packets that are colored `worst` or better
conform to the bucket. -/
theorem conforms_marked (level : σ → ℤ)
    (hstep : ∀ s (a : Arrival), Inv s → lastUpdateTime s ≤ a.time →
      let result := meterPacket s a.time a.packet
      Inv result.2 ∧ lastUpdateTime result.2 = a.time ∧ 0 ≤ level result.2 ∧
        level result.2 + bitsUpTo worst result.1 a.packet ≤ size ∧
        ((level result.2 + bitsUpTo worst result.1 a.packet : ℤ) : ℚ) ≤
          level s + rate * (a.time - lastUpdateTime s))
    (hs : Inv s) (htimes : InOrder (lastUpdateTime s) arrivals) :
    Conforms Marked.time (fun x => (bitsUpTo worst x.newColor x.packet : ℚ)) size rate (level s)
      (lastUpdateTime s) (marked meterPacket s arrivals) := by
  induction arrivals generalizing s with
  | nil => exact trivial
  | cons a arrivals ih =>
    obtain ⟨htime, hlater⟩ := List.isChain_cons_cons.mp htimes
    obtain ⟨hinv, hlast, hnonneg, hfull, hpaid⟩ := hstep s a hs htime
    have hrest := ih hinv (by rw [InOrder, hlast]; exact hlater)
    rw [hlast] at hrest
    refine ⟨htime, level (meterPacket s a.time a.packet).2, by exact_mod_cast hnonneg, ?_, ?_,
      hrest⟩
    · dsimp only
      exact_mod_cast hfull
    · dsimp only
      exact_mod_cast hpaid

/-- A property of single packets and their colors. -/
theorem forall_mem_marked {P : Packet → Color → Prop}
    (hstep : ∀ s time packet, P packet (meterPacket s time packet).1) (s : σ)
    (arrivals : List Arrival) : ∀ x ∈ marked meterPacket s arrivals, P x.packet x.newColor := by
  induction arrivals generalizing s with
  | nil => simp [marked]
  | cons a arrivals ih =>
    rw [marked, List.forall_mem_cons]
    exact ⟨hstep s a.time a.packet, ih _⟩

end

/-! ## The meter with two rates -/

/-- The parameters of a `TwoRateThreeColorMeter`, sizes in bits. -/
structure TwoRateThreeColorMeter where
  PIR : ℚ
  PBS : ℤ
  CIR : ℚ
  CBS : ℤ
  colorAwareMode : Bool

namespace TwoRateThreeColorMeter

/-- Members `Tp`, `Tc` and `lastUpdateTime`. -/
structure Buckets where
  Tp : ℤ
  Tc : ℤ
  lastUpdateTime : ℚ

variable (m : TwoRateThreeColorMeter)

/-- The buckets are full at the beginning. -/
def initialized (now : ℚ) : Buckets := ⟨m.PBS, m.CBS, now⟩

/-- The first part of `meterPacket`. -/
def updateTokenBuckets (b : Buckets) (currentTime : ℚ) : Buckets :=
  let elapsedTime := currentTime - b.lastUpdateTime
  { Tp := addTokens b.Tp (toLong (elapsedTime * m.PIR)) m.PBS
    Tc := addTokens b.Tc (toLong (elapsedTime * m.CIR)) m.CBS
    lastUpdateTime := currentTime }

/-- The second part of `meterPacket`. -/
def updateMeterState (b : Buckets) (packet : Packet) : Color × Buckets :=
  let oldColor := oldColor m.colorAwareMode packet
  let packetSizeInBits : ℤ := 8 * packet.getByteLength
  if oldColor = Color.red.toInt ∨ b.Tp - packetSizeInBits < 0 then
    (.red, b)
  else if oldColor = Color.yellow.toInt ∨ b.Tc - packetSizeInBits < 0 then
    (.yellow, { b with Tp := b.Tp - packetSizeInBits })
  else
    (.green, { b with Tp := b.Tp - packetSizeInBits, Tc := b.Tc - packetSizeInBits })

/-- `TwoRateThreeColorMeter::meterPacket`. -/
def meterPacket (b : Buckets) (currentTime : ℚ) (packet : Packet) : Color × Buckets :=
  m.updateMeterState (m.updateTokenBuckets b currentTime) packet

/-- The numbers of tokens are within the sizes of the buckets. -/
structure Within (b : Buckets) : Prop where
  Tp_nonneg : 0 ≤ b.Tp
  Tp_le : b.Tp ≤ m.PBS
  Tc_nonneg : 0 ≤ b.Tc
  Tc_le : b.Tc ≤ m.CBS

variable {m} {b : Buckets} {now : ℚ} {packet : Packet}

/-- A packet is paid for from `Tp` unless it is red, and from `Tc` if it is green. -/
theorem updateMeterState_spec (h : m.Within b) (packet : Packet) :
    let result := m.updateMeterState b packet
    m.Within result.2 ∧ result.2.lastUpdateTime = b.lastUpdateTime ∧
      result.2.Tp + bitsUpTo .yellow result.1 packet ≤ b.Tp ∧
      result.2.Tc + bitsUpTo .green result.1 packet ≤ b.Tc := by
  have hbits : (packet.bitLength : ℤ) ≤ 8 * packet.getByteLength := by
    rw [Packet.getByteLength]
    omega
  obtain ⟨hTp, hTp_le, hTc, hTc_le⟩ := h
  rw [updateMeterState]
  generalize oldColor m.colorAwareMode packet = old
  split_ifs with hred hyellow
  · exact ⟨⟨hTp, hTp_le, hTc, hTc_le⟩, rfl, by simp [bitsUpTo, Color.toInt],
      by simp [bitsUpTo, Color.toInt]⟩
  · have hpays := not_lt.mp (not_or.mp hred).2
    refine ⟨⟨hpays, by dsimp only; omega, hTc, hTc_le⟩, rfl, ?_, by simp [bitsUpTo, Color.toInt]⟩
    simp only [bitsUpTo, le_refl, if_true]
    omega
  · have hpays := not_lt.mp (not_or.mp hred).2
    have hpays' := not_lt.mp (not_or.mp hyellow).2
    refine ⟨⟨hpays, by dsimp only; omega, hpays', by dsimp only; omega⟩, rfl, ?_, ?_⟩
    · simp only [bitsUpTo, Color.toInt, zero_le_one, if_true]
      omega
    · simp only [bitsUpTo, le_refl, if_true]
      omega

/-- The new color is no better than the old one. -/
theorem oldColor_le_updateMeterState (b : Buckets) (packet : Packet) :
    oldColor m.colorAwareMode packet ≤ (m.updateMeterState b packet).1.toInt := by
  have hcolor := oldColor_le m.colorAwareMode packet
  rw [updateMeterState]
  generalize oldColor m.colorAwareMode packet = old at hcolor ⊢
  split_ifs with hred hyellow
  · exact hcolor
  · have hne := (not_or.mp hred).1
    simp only [Color.toInt] at hne ⊢
    omega
  · have hne := (not_or.mp hred).1
    have hne' := (not_or.mp hyellow).1
    simp only [Color.toInt] at hne hne' ⊢
    omega

theorem updateTokenBuckets_spec (h : m.Within b) (hPIR : 0 ≤ m.PIR) (hCIR : 0 ≤ m.CIR)
    (hnow : b.lastUpdateTime ≤ now) :
    let b' := m.updateTokenBuckets b now
    m.Within b' ∧ b'.lastUpdateTime = now ∧ (b'.Tp : ℚ) ≤ b.Tp + m.PIR * (now - b.lastUpdateTime) ∧
      (b'.Tc : ℚ) ≤ b.Tc + m.CIR * (now - b.lastUpdateTime) := by
  have helapsed := sub_nonneg.mpr hnow
  obtain ⟨hpeak, hpeak_le⟩ := toLong_mul_spec helapsed hPIR
  obtain ⟨hcommitted, hcommitted_le⟩ := toLong_mul_spec helapsed hCIR
  obtain ⟨hTp, hTp_le, hTp_gain⟩ := addTokens_spec h.Tp_nonneg h.Tp_le hpeak
  obtain ⟨hTc, hTc_le, hTc_gain⟩ := addTokens_spec h.Tc_nonneg h.Tc_le hcommitted
  refine ⟨⟨hTp, hTp_le, hTc, hTc_le⟩, rfl, ?_, ?_⟩
  · have hcast : ((addTokens b.Tp _ m.PBS : ℤ) : ℚ) ≤ _ := Int.cast_le.mpr hTp_gain
    push_cast at hcast
    exact hcast.trans (by gcongr)
  · have hcast : ((addTokens b.Tc _ m.CBS : ℤ) : ℚ) ≤ _ := Int.cast_le.mpr hTc_gain
    push_cast at hcast
    exact hcast.trans (by gcongr)

theorem meterPacket_spec (h : m.Within b) (hPIR : 0 ≤ m.PIR) (hCIR : 0 ≤ m.CIR)
    (hnow : b.lastUpdateTime ≤ now) (packet : Packet) :
    let result := m.meterPacket b now packet
    m.Within result.2 ∧ result.2.lastUpdateTime = now ∧
      (result.2.Tp + bitsUpTo .yellow result.1 packet ≤ m.PBS ∧
        ((result.2.Tp + bitsUpTo .yellow result.1 packet : ℤ) : ℚ) ≤
          b.Tp + m.PIR * (now - b.lastUpdateTime)) ∧
      result.2.Tc + bitsUpTo .green result.1 packet ≤ m.CBS ∧
        ((result.2.Tc + bitsUpTo .green result.1 packet : ℤ) : ℚ) ≤
          b.Tc + m.CIR * (now - b.lastUpdateTime) := by
  obtain ⟨hfilled, hlast, hTp, hTc⟩ := updateTokenBuckets_spec h hPIR hCIR hnow
  obtain ⟨hwithin, hsame, hpaidTp, hpaidTc⟩ := updateMeterState_spec hfilled packet
  exact ⟨hwithin, hsame.trans hlast,
    ⟨hpaidTp.trans hfilled.Tp_le, (Int.cast_le.mpr hpaidTp).trans hTp⟩,
    hpaidTc.trans hfilled.Tc_le, (Int.cast_le.mpr hpaidTc).trans hTc⟩

theorem within_initialized (hPBS : 0 ≤ m.PBS) (hCBS : 0 ≤ m.CBS) (now : ℚ) :
    m.Within (m.initialized now) := ⟨hPBS, le_rfl, hCBS, le_rfl⟩

/-- What the meter colors green conforms to the committed rate, and what it colors green or
yellow to the peak rate. -/
theorem conforms (h : m.Within b) (hPIR : 0 ≤ m.PIR) (hCIR : 0 ≤ m.CIR) {arrivals : List Arrival}
    (htimes : InOrder b.lastUpdateTime arrivals) :
    m.Within (after m.meterPacket b arrivals) ∧
      Conforms Marked.time (fun x => (bitsUpTo .green x.newColor x.packet : ℚ)) m.CBS m.CIR b.Tc
        b.lastUpdateTime (marked m.meterPacket b arrivals) ∧
      Conforms Marked.time (fun x => (bitsUpTo .yellow x.newColor x.packet : ℚ)) m.PBS m.PIR b.Tp
        b.lastUpdateTime (marked m.meterPacket b arrivals) := by
  refine ⟨after_of_step ?_ h htimes, conforms_marked Buckets.Tc ?_ h htimes,
    conforms_marked Buckets.Tp ?_ h htimes⟩
  · intro b a hb htime
    obtain ⟨hwithin, hlast, -⟩ := meterPacket_spec hb hPIR hCIR htime a.packet
    exact ⟨hwithin, hlast⟩
  · intro b a hb htime
    obtain ⟨hwithin, hlast, -, hTc⟩ := meterPacket_spec hb hPIR hCIR htime a.packet
    exact ⟨hwithin, hlast, hwithin.Tc_nonneg, hTc⟩
  · intro b a hb htime
    obtain ⟨hwithin, hlast, hTp, -⟩ := meterPacket_spec hb hPIR hCIR htime a.packet
    exact ⟨hwithin, hlast, hwithin.Tp_nonneg, hTp⟩

end TwoRateThreeColorMeter

/-! ## The meter with one rate -/

/-- The parameters of a `SingleRateThreeColorMeter`, sizes in bits. -/
structure SingleRateThreeColorMeter where
  CIR : ℚ
  CBS : ℤ
  EBS : ℤ
  colorAwareMode : Bool

namespace SingleRateThreeColorMeter

/-- Members `Tc`, `Te` and `lastUpdateTime`. -/
structure Buckets where
  Tc : ℤ
  Te : ℤ
  lastUpdateTime : ℚ

variable (m : SingleRateThreeColorMeter)

/-- The buckets are full at the beginning. -/
def initialized (now : ℚ) : Buckets := ⟨m.CBS, m.EBS, now⟩

/-- The first part of `meterPacket`. -/
def updateTokenBuckets (b : Buckets) (currentTime : ℚ) : Buckets :=
  let numTokens := toLong ((currentTime - b.lastUpdateTime) * m.CIR)
  if b.Tc + numTokens ≤ m.CBS then
    ⟨b.Tc + numTokens, b.Te, currentTime⟩
  else
    let excessTokens := b.Tc + numTokens - m.CBS
    ⟨m.CBS, addTokens b.Te excessTokens m.EBS, currentTime⟩

/-- The second part of `meterPacket`. -/
def updateMeterState (b : Buckets) (packet : Packet) : Color × Buckets :=
  let oldColor := oldColor m.colorAwareMode packet
  let packetSizeInBits : ℤ := packet.bitLength
  if oldColor ≤ Color.green.toInt ∧ 0 ≤ b.Tc - packetSizeInBits then
    (.green, { b with Tc := b.Tc - packetSizeInBits })
  else if oldColor ≤ Color.yellow.toInt ∧ 0 ≤ b.Te - packetSizeInBits then
    (.yellow, { b with Te := b.Te - packetSizeInBits })
  else
    (.red, b)

/-- `SingleRateThreeColorMeter::meterPacket`. -/
def meterPacket (b : Buckets) (currentTime : ℚ) (packet : Packet) : Color × Buckets :=
  m.updateMeterState (m.updateTokenBuckets b currentTime) packet

/-- The numbers of tokens are within the sizes of the buckets. -/
structure Within (b : Buckets) : Prop where
  Tc_nonneg : 0 ≤ b.Tc
  Tc_le : b.Tc ≤ m.CBS
  Te_nonneg : 0 ≤ b.Te
  Te_le : b.Te ≤ m.EBS

variable {m} {b : Buckets} {now : ℚ} {packet : Packet}

/-- A packet is paid for from `Tc` if it is green, and from `Te` if it is yellow. -/
theorem updateMeterState_spec (h : m.Within b) (packet : Packet) :
    let result := m.updateMeterState b packet
    m.Within result.2 ∧ result.2.lastUpdateTime = b.lastUpdateTime ∧
      result.2.Tc + bitsUpTo .green result.1 packet ≤ b.Tc ∧
      result.2.Tc + result.2.Te + bitsUpTo .yellow result.1 packet ≤ b.Tc + b.Te := by
  obtain ⟨hTc, hTc_le, hTe, hTe_le⟩ := h
  rw [updateMeterState]
  generalize oldColor m.colorAwareMode packet = old
  split_ifs with hgreen hyellow
  · refine ⟨⟨hgreen.2, by dsimp only; omega, hTe, hTe_le⟩, rfl, ?_, ?_⟩
    · simp only [bitsUpTo, le_refl, if_true]
      omega
    · simp only [bitsUpTo, Color.toInt, zero_le_one, if_true]
      omega
  · refine ⟨⟨hTc, hTc_le, hyellow.2, by dsimp only; omega⟩, rfl,
      by simp [bitsUpTo, Color.toInt], ?_⟩
    simp only [bitsUpTo, le_refl, if_true]
    omega
  · exact ⟨⟨hTc, hTc_le, hTe, hTe_le⟩, rfl, by simp [bitsUpTo, Color.toInt],
      by simp [bitsUpTo, Color.toInt]⟩

/-- The new color is no better than the old one. -/
theorem oldColor_le_updateMeterState (b : Buckets) (packet : Packet) :
    oldColor m.colorAwareMode packet ≤ (m.updateMeterState b packet).1.toInt := by
  have hcolor := oldColor_le m.colorAwareMode packet
  rw [updateMeterState]
  split_ifs with hgreen hyellow
  · exact hgreen.1
  · exact hyellow.1
  · exact hcolor

/-- Tokens that the committed bucket cannot take go to the excess bucket. -/
theorem updateTokenBuckets_spec (h : m.Within b) (hCIR : 0 ≤ m.CIR)
    (hnow : b.lastUpdateTime ≤ now) :
    let b' := m.updateTokenBuckets b now
    m.Within b' ∧ b'.lastUpdateTime = now ∧ (b'.Tc : ℚ) ≤ b.Tc + m.CIR * (now - b.lastUpdateTime) ∧
      ((b'.Tc + b'.Te : ℤ) : ℚ) ≤ (b.Tc + b.Te : ℤ) + m.CIR * (now - b.lastUpdateTime) := by
  obtain ⟨htokens, htokens_le⟩ := toLong_mul_spec (sub_nonneg.mpr hnow) hCIR
  obtain ⟨hTc, hTc_le, hTe, hTe_le⟩ := h
  rw [updateTokenBuckets]
  generalize toLong ((now - b.lastUpdateTime) * m.CIR) = numTokens at htokens htokens_le ⊢
  split_ifs with hroom
  · refine ⟨⟨by dsimp only; omega, hroom, hTe, hTe_le⟩, rfl, ?_, ?_⟩ <;>
      push_cast <;> linarith
  · obtain ⟨hexcess, hexcess_le, hgain⟩ := addTokens_spec hTe hTe_le
      (show 0 ≤ b.Tc + numTokens - m.CBS by omega)
    refine ⟨⟨by dsimp only; omega, le_rfl, hexcess, hexcess_le⟩, rfl, ?_, ?_⟩
    · have hcast : (m.CBS : ℚ) ≤ (b.Tc + numTokens : ℤ) := Int.cast_le.mpr (by omega)
      push_cast at hcast
      linarith
    · have hcast : ((m.CBS + addTokens b.Te (b.Tc + numTokens - m.CBS) m.EBS : ℤ) : ℚ) ≤
          (b.Tc + b.Te + numTokens : ℤ) := Int.cast_le.mpr (by omega)
      push_cast at hcast ⊢
      linarith

theorem meterPacket_spec (h : m.Within b) (hCIR : 0 ≤ m.CIR) (hnow : b.lastUpdateTime ≤ now)
    (packet : Packet) :
    let result := m.meterPacket b now packet
    m.Within result.2 ∧ result.2.lastUpdateTime = now ∧
      (result.2.Tc + bitsUpTo .green result.1 packet ≤ m.CBS ∧
        ((result.2.Tc + bitsUpTo .green result.1 packet : ℤ) : ℚ) ≤
          b.Tc + m.CIR * (now - b.lastUpdateTime)) ∧
      result.2.Tc + result.2.Te + bitsUpTo .yellow result.1 packet ≤ m.CBS + m.EBS ∧
        ((result.2.Tc + result.2.Te + bitsUpTo .yellow result.1 packet : ℤ) : ℚ) ≤
          (b.Tc + b.Te : ℤ) + m.CIR * (now - b.lastUpdateTime) := by
  obtain ⟨hfilled, hlast, hTc, hsum⟩ := updateTokenBuckets_spec h hCIR hnow
  obtain ⟨hwithin, hsame, hpaidTc, hpaid⟩ := updateMeterState_spec hfilled packet
  exact ⟨hwithin, hsame.trans hlast,
    ⟨hpaidTc.trans hfilled.Tc_le, (Int.cast_le.mpr hpaidTc).trans hTc⟩,
    hpaid.trans (add_le_add hfilled.Tc_le hfilled.Te_le), (Int.cast_le.mpr hpaid).trans hsum⟩

theorem within_initialized (hCBS : 0 ≤ m.CBS) (hEBS : 0 ≤ m.EBS) (now : ℚ) :
    m.Within (m.initialized now) := ⟨hCBS, le_rfl, hEBS, le_rfl⟩

/-- What the meter colors green conforms to the committed rate, and what it colors green or
yellow to a bucket with the room of both buckets. -/
theorem conforms (h : m.Within b) (hCIR : 0 ≤ m.CIR) {arrivals : List Arrival}
    (htimes : InOrder b.lastUpdateTime arrivals) :
    m.Within (after m.meterPacket b arrivals) ∧
      Conforms Marked.time (fun x => (bitsUpTo .green x.newColor x.packet : ℚ)) m.CBS m.CIR b.Tc
        b.lastUpdateTime (marked m.meterPacket b arrivals) ∧
      Conforms Marked.time (fun x => (bitsUpTo .yellow x.newColor x.packet : ℚ))
        (m.CBS + m.EBS : ℤ) m.CIR (b.Tc + b.Te : ℤ)
        b.lastUpdateTime (marked m.meterPacket b arrivals) := by
  refine ⟨after_of_step ?_ h htimes, conforms_marked Buckets.Tc ?_ h htimes,
    conforms_marked (fun b => b.Tc + b.Te) ?_ h htimes⟩
  · intro b a hb htime
    obtain ⟨hwithin, hlast, -⟩ := meterPacket_spec hb hCIR htime a.packet
    exact ⟨hwithin, hlast⟩
  · intro b a hb htime
    obtain ⟨hwithin, hlast, hTc, -⟩ := meterPacket_spec hb hCIR htime a.packet
    exact ⟨hwithin, hlast, hwithin.Tc_nonneg, hTc⟩
  · intro b a hb htime
    obtain ⟨hwithin, hlast, -, hsum⟩ := meterPacket_spec hb hCIR htime a.packet
    exact ⟨hwithin, hlast, add_nonneg hwithin.Tc_nonneg hwithin.Te_nonneg, hsum⟩

end SingleRateThreeColorMeter

/-! ## Both meters -/

/-- For every sequence of packets and every interval, the buckets of both meters stay within their
sizes, the bits colored green, and those colored green or yellow, are bounded by the sizes
and rates, and a meter that is aware of colors makes none better. -/
theorem meters_police {CIR PIR : ℚ} {CBS PBS EBS : ℤ} (hCIR : 0 ≤ CIR) (hPIR : 0 ≤ PIR)
    (hCBS : 0 ≤ CBS) (hPBS : 0 ≤ PBS) (hEBS : 0 ≤ EBS) (colorAwareMode : Bool) {now : ℚ}
    {arrivals : List Arrival} (htimes : InOrder now arrivals) :
    let two : TwoRateThreeColorMeter := ⟨PIR, PBS, CIR, CBS, colorAwareMode⟩
    let single : SingleRateThreeColorMeter := ⟨CIR, CBS, EBS, colorAwareMode⟩
    let markedByTwo := marked two.meterPacket (two.initialized now) arrivals
    let markedBySingle := marked single.meterPacket (single.initialized now) arrivals
    two.Within (after two.meterPacket (two.initialized now) arrivals) ∧
    single.Within (after single.meterPacket (single.initialized now) arrivals) ∧
    (∀ start T, 0 ≤ T → bitsMarked .green start (start + T) markedByTwo ≤ CBS + CIR * T ∧
      bitsMarked .yellow start (start + T) markedByTwo ≤ PBS + PIR * T ∧
      bitsMarked .green start (start + T) markedBySingle ≤ CBS + CIR * T ∧
      bitsMarked .yellow start (start + T) markedBySingle ≤ CBS + EBS + CIR * T) ∧
    (colorAwareMode = true → (∀ x ∈ markedByTwo, getColor x.packet ≤ x.newColor.toInt) ∧
      ∀ x ∈ markedBySingle, getColor x.packet ≤ x.newColor.toInt) := by
  intro two single markedByTwo markedBySingle
  obtain ⟨htwo, htwo_green, htwo_yellow⟩ :=
    TwoRateThreeColorMeter.conforms (two.within_initialized hPBS hCBS now) hPIR hCIR htimes
  obtain ⟨hsingle, hsingle_green, hsingle_yellow⟩ :=
    SingleRateThreeColorMeter.conforms (single.within_initialized hCBS hEBS now) hCIR htimes
  have hcommitted : (0 : ℚ) ≤ CBS := Int.cast_nonneg hCBS
  have hboth : (0 : ℚ) ≤ (CBS + EBS : ℤ) := Int.cast_nonneg (add_nonneg hCBS hEBS)
  refine ⟨htwo, hsingle, fun start T hT => ⟨?_, ?_, ?_, ?_⟩, fun haware => ⟨?_, ?_⟩⟩
  · exact htwo_green.total_le hCIR hcommitted hT
  · exact htwo_yellow.total_le hPIR (Int.cast_nonneg hPBS) hT
  · exact hsingle_green.total_le hCIR hcommitted hT
  · have htotal : bitsMarked .yellow start (start + T) markedBySingle ≤
        (CBS + EBS : ℤ) + CIR * T := hsingle_yellow.total_le hCIR hboth hT
    push_cast at htotal
    exact htotal
  · refine forall_mem_marked (P := fun packet color => getColor packet ≤ color.toInt)
      (fun b time packet => ?_) _ arrivals
    have hcolor := TwoRateThreeColorMeter.oldColor_le_updateMeterState (m := two)
      (two.updateTokenBuckets b time) packet
    rwa [oldColor, if_pos haware] at hcolor
  · refine forall_mem_marked (P := fun packet color => getColor packet ≤ color.toInt)
      (fun b time packet => ?_) _ arrivals
    have hcolor := SingleRateThreeColorMeter.oldColor_le_updateMeterState (m := single)
      (single.updateTokenBuckets b time) packet
    rwa [oldColor, if_pos haware] at hcolor

/-- Two packets that arrive one time unit after the other. -/
theorem meters_police_two_packets : let m : TwoRateThreeColorMeter := ⟨2, 24, 1, 16, true⟩
    bitsMarked .green 0 (0 + 3) (marked m.meterPacket (m.initialized 0)
      [⟨1, ⟨16, none⟩⟩, ⟨2, ⟨8, some .yellow⟩⟩]) ≤ (16 : ℤ) + 1 * 3 :=
  ((@meters_police 1 2 16 24 8 (by decide) (by decide) (by decide) (by decide) (by decide) true 0 _
    (by decide)).2.2.1 0 3 (by decide)).1

end Inet.Diffserv
