import Inet.Diffserv.ThreeColorMeters

/-!
# The token bucket meter

`TokenBucketMeter` has one bucket, and colors a packet green or red. What it colors green conforms
to the bucket (`polices`). The tokens of the time between two packets are truncated, and the time
is not kept: packets that come closer together than a token takes never refill the bucket, so that
all of them together get no more than its size (`Tc_of_close`).
-/

namespace Inet.Diffserv

open TokenBucket

/-- The parameters, the size in bits. -/
structure TokenBucketMeter where
  CIR : ℚ
  CBS : ℤ
  colorAwareMode : Bool := false

namespace TokenBucketMeter

structure Bucket where
  Tc : ℤ
  lastUpdateTime : ℚ

def initialized (m : TokenBucketMeter) (now : ℚ) : Bucket := ⟨m.CBS, now⟩

def updateTokenBucket (m : TokenBucketMeter) (b : Bucket) (currentTime : ℚ) : Bucket :=
  ⟨addTokens b.Tc (toLong ((currentTime - b.lastUpdateTime) * m.CIR)) m.CBS, currentTime⟩

def updateMeterState (m : TokenBucketMeter) (b : Bucket) (packet : Packet) : Color × Bucket :=
  if oldColor m.colorAwareMode packet ≤ Color.green.toInt ∧ 0 ≤ b.Tc - packet.bitLength then
    (.green, { b with Tc := b.Tc - packet.bitLength })
  else (.red, b)

def meterPacket (m : TokenBucketMeter) (b : Bucket) (currentTime : ℚ) (packet : Packet) :
    Color × Bucket :=
  m.updateMeterState (m.updateTokenBucket b currentTime) packet

structure Within (m : TokenBucketMeter) (b : Bucket) : Prop where
  Tc_nonneg : 0 ≤ b.Tc
  Tc_le : b.Tc ≤ m.CBS

variable {m : TokenBucketMeter} {b : Bucket} {now : ℚ} {arrivals : List Arrival}

/-- The bits of a packet that is colored green are taken out of the bucket. -/
theorem updateMeterState_spec (h : 0 ≤ b.Tc) (packet : Packet) :
    let result := m.updateMeterState b packet
    0 ≤ result.2.Tc ∧ result.2.lastUpdateTime = b.lastUpdateTime ∧
      result.2.Tc + bitsUpTo .green result.1 packet = b.Tc := by
  rw [updateMeterState]
  split_ifs with hgreen
  · exact ⟨hgreen.2, rfl, by simp [bitsUpTo]⟩
  · exact ⟨h, rfl, by simp [bitsUpTo, Color.toInt]⟩

theorem oldColor_le_meterPacket (b : Bucket) (now : ℚ) (packet : Packet) :
    oldColor m.colorAwareMode packet ≤ (m.meterPacket b now packet).1.toInt := by
  rw [meterPacket, updateMeterState]
  split_ifs with hgreen
  · exact hgreen.1
  · exact oldColor_le _ _

/-- The bucket after a packet is at most full, and has gained at most what the rate allows. -/
theorem meterPacket_spec (h : m.Within b) (hCIR : 0 ≤ m.CIR)
    (hnow : b.lastUpdateTime ≤ now) (packet : Packet) :
    let result := m.meterPacket b now packet
    m.Within result.2 ∧ result.2.lastUpdateTime = now ∧ 0 ≤ result.2.Tc ∧
      result.2.Tc + bitsUpTo .green result.1 packet ≤ m.CBS ∧
      ((result.2.Tc + bitsUpTo .green result.1 packet : ℤ) : ℚ) ≤
        b.Tc + m.CIR * (now - b.lastUpdateTime) := by
  obtain ⟨htokens, hgain⟩ := toLong_mul_spec (sub_nonneg.mpr hnow) hCIR
  obtain ⟨hfilled, hfull, hadded⟩ := addTokens_spec h.Tc_nonneg h.Tc_le htokens
  obtain ⟨hnonneg, hlast, hpaid⟩ := updateMeterState_spec (m := m)
    (b := m.updateTokenBucket b now) hfilled packet
  have hcast : ((m.updateTokenBucket b now).Tc : ℚ) ≤
      (b.Tc + toLong ((now - b.lastUpdateTime) * m.CIR) : ℤ) := Int.cast_le.mpr hadded
  rw [← hpaid] at hcast
  refine ⟨⟨hnonneg, ?_⟩, hlast, hnonneg, hpaid.trans_le hfull, hcast.trans ?_⟩
  · exact (le_add_of_nonneg_right (Int.natCast_nonneg _)).trans (hpaid.trans_le hfull)
  · push_cast
    linarith

/-- For every sequence of packets the bucket stays within its size, the bits colored green in an
interval of length `T` are at most `CBS + CIR * T`, and a meter that is aware of colors makes none
better. -/
theorem polices (m : TokenBucketMeter) (hCIR : 0 ≤ m.CIR) (hCBS : 0 ≤ m.CBS)
    (htimes : InOrder now arrivals) :
    let b := after m.meterPacket (m.initialized now) arrivals
    let xs := marked m.meterPacket (m.initialized now) arrivals
    m.Within b ∧ (∀ start T, 0 ≤ T → bitsMarked .green start (start + T) xs ≤ m.CBS + m.CIR * T) ∧
      (m.colorAwareMode = true → ∀ x ∈ xs, getColor x.packet ≤ x.newColor.toInt) := by
  intro b xs
  have hstep (b : Bucket) (a : Arrival) (hb : m.Within b)
      (htime : b.lastUpdateTime ≤ a.time) := meterPacket_spec hb hCIR htime a.packet
  have hfull : m.Within (m.initialized now) := ⟨hCBS, le_rfl⟩
  have hinOrder : InOrder (m.initialized now).lastUpdateTime arrivals := htimes
  have hconforms : Conforms Marked.time (fun x => (bitsUpTo .green x.newColor x.packet : ℚ)) m.CBS
      m.CIR m.CBS now xs := conforms_marked Bucket.Tc hstep hfull hinOrder
  refine ⟨?_, fun start T hT => hconforms.total_le hCIR (Int.cast_nonneg hCBS) hT, fun haware => ?_⟩
  · refine after_of_step (fun b a hb htime => ?_) hfull hinOrder
    obtain ⟨hwithin, hlast, -⟩ := hstep b a hb htime
    exact ⟨hwithin, hlast⟩
  · refine forall_mem_marked (P := fun packet color => getColor packet ≤ color.toInt)
      (fun b time packet => ?_) _ arrivals
    have hcolor := oldColor_le_meterPacket (m := m) b time packet
    rwa [oldColor, if_pos haware] at hcolor

theorem polices_two_packets :
    bitsMarked .green 0 (0 + 3) (marked (meterPacket ⟨1, 16, true⟩) ⟨16, 0⟩
      [⟨1, ⟨16, none⟩⟩, ⟨2, ⟨8, some .yellow⟩⟩]) ≤ (16 : ℤ) + 1 * 3 :=
  (@polices 0 [⟨1, ⟨16, none⟩⟩, ⟨2, ⟨8, some .yellow⟩⟩] ⟨1, 16, true⟩ (by decide) (by decide)
    (by decide)).2.1 0 3 (by decide)

/-- Each packet comes before the time since the last one is worth a token. -/
def Close (m : TokenBucketMeter) (now : ℚ) (arrivals : List Arrival) : Prop :=
  List.IsChain (fun s t => s ≤ t ∧ (t - s) * m.CIR < 1) (now :: arrivals.map Arrival.time)
deriving Decidable

/-- What is colored green is all that leaves the bucket, and nothing comes in. The induction is on
the packets, for every level of the bucket. -/
theorem Tc_of_close (m : TokenBucketMeter) (hCIR : 0 ≤ m.CIR) (hb : m.Within b)
    (hclose : m.Close b.lastUpdateTime arrivals) :
    (after m.meterPacket b arrivals).Tc + ((marked m.meterPacket b arrivals).map
      fun x => bitsUpTo .green x.newColor x.packet).sum = b.Tc := by
  induction arrivals generalizing b with
  | nil => simp [after, marked]
  | cons a arrivals ih =>
    obtain ⟨⟨htime, hshort⟩, hlater⟩ := List.isChain_cons_cons.mp hclose
    have hnone : toLong ((a.time - b.lastUpdateTime) * m.CIR) = 0 := by
      rw [toLong, if_pos (mul_nonneg (sub_nonneg.mpr htime) hCIR), Int.floor_eq_zero_iff]
      exact ⟨mul_nonneg (sub_nonneg.mpr htime) hCIR, hshort⟩
    have hsame : (m.updateTokenBucket b a.time).Tc = b.Tc := by
      rw [updateTokenBucket, hnone, addTokens, add_zero, if_pos hb.Tc_le]
    obtain ⟨hwithin, hlast, -⟩ := meterPacket_spec hb hCIR htime a.packet
    have hpaid : (m.meterPacket b a.time a.packet).2.Tc +
        bitsUpTo .green (m.meterPacket b a.time a.packet).1 a.packet = b.Tc :=
      (updateMeterState_spec (hsame.symm ▸ hb.Tc_nonneg) a.packet).2.2.trans hsame
    have hrest := ih hwithin (by rw [hlast]; exact hlater)
    rw [after, marked, List.map_cons, List.sum_cons]
    dsimp only
    omega

theorem Tc_of_close_two_packets : let m : TokenBucketMeter := { CIR := 1, CBS := 16 }
    (after m.meterPacket ⟨16, 0⟩ [⟨1 / 2, ⟨12, none⟩⟩, ⟨1, ⟨12, none⟩⟩]).Tc +
      ((marked m.meterPacket ⟨16, 0⟩ [⟨1 / 2, ⟨12, none⟩⟩, ⟨1, ⟨12, none⟩⟩]).map
        fun x => bitsUpTo .green x.newColor x.packet).sum = 16 :=
  Tc_of_close { CIR := 1, CBS := 16 } (by decide) ⟨by decide, by decide⟩ (by decide +kernel)

end TokenBucketMeter

end Inet.Diffserv
