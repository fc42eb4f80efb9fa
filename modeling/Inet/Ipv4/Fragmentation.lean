import Inet.Ipv4.IPv4Datagram

/-!
# Fragmentation

`IPv4::fragmentAndSend` cuts a datagram that is longer than the MTU of an interface. `IPv4.cc` has
two versions of it and defines `NEWFRAGMENT`, so that the second one is compiled; both are here.

At each interface of a chain every piece that the one before has sent is cut again. The pieces
that are sent are consecutive pieces of the datagram (`sendChain_spec`).
-/

namespace Inet.Ipv4

open IPv4Datagram (payloadLength rangeEnd)
open List

/-- The ICMP errors that `fragmentAndSend` sends. -/
inductive IcmpError where
  | ICMP_TIME_EXCEEDED
  | ICMP_DU_FRAGMENTATION_NEEDED
deriving DecidableEq

/-- An `InterfaceEntry`, as far as fragmentation uses it. -/
structure OutputInterface where
  mtu : ℤ
  ipAddress : IPv4Address := 0

structure IPv4 where
  /-- `NEWFRAGMENT` is defined. -/
  newFragment : Bool := true
  isDsr : Bool := false
  /-- The node has an `Ieee80211MgmtAdhocforFreqHop`. -/
  freqHop : Bool := false

namespace IPv4

/-- The datagrams given to `sendDatagramToOutput`, and the ICMP error sent instead. -/
structure Output where
  sent : List IPv4Datagram := []
  icmpError : Option IcmpError := none

def fillSrcAddress (datagram : IPv4Datagram) (ie : OutputInterface) : IPv4Datagram :=
  if datagram.srcAddress.isUnspecified then { datagram with srcAddress := ie.ipAddress }
  else datagram

/-- `((mtu - headerLength) / 8) * 8`. -/
def fragmentLength (mtu headerLength : ℤ) : ℤ := (mtu - headerLength).tdiv 8 * 8

/-- The loop over the fragments, from `offset` on. -/
def fragmentLoop (fragment : ℤ → ℤ → Bool → Result IPv4Datagram)
    (payloadLength fragmentLength : ℤ) : ℕ → ℤ → Result (List IPv4Datagram)
  | 0, _ => .error .outOfFuel
  | fuel + 1, offset =>
    if offset < payloadLength then do
      let next ← checkInt (offset + fragmentLength)
      let lastFragment := decide (next ≥ payloadLength)
      let thisFragmentLength := if lastFragment then payloadLength - offset else fragmentLength
      let piece ← fragment offset thisFragmentLength lastFragment
      let pieces ← fragmentLoop fragment payloadLength fragmentLength fuel next
      .ok (piece :: pieces)
    else .ok []

def fragments (fragment : ℤ → ℤ → Bool → Result IPv4Datagram)
    (mtu headerLength payloadLength : ℤ) : Result (List IPv4Datagram) := do
  let fragmentLength := fragmentLength mtu headerLength
  if fragmentLength ≤ 0 then
    .error (.cRuntimeError
      "Cannot fragment datagram: MTU=%d too small for header size (%d bytes)")
  else
    -- the number of fragments is only printed
    let _ ← checkInt (payloadLength + fragmentLength)
    fragmentLoop fragment payloadLength fragmentLength (payloadLength.toNat + 1) 0

/-- The body of the loop with `NEWFRAGMENT`: each fragment has a payload of its own length. -/
def fragment (ip : IPv4) (datagram : IPv4Datagram) (payload : Packet) (headerLength : ℤ)
    (offset thisFragmentLength : ℤ) (lastFragment : Bool) : Result IPv4Datagram := do
  let payloadFrag := { payload with byteLength := thisFragmentLength }
  let moreFragments := if lastFragment then datagram.moreFragments else true
  let fragment ← { datagram with moreFragments, byteLength := headerLength }.encapsulate payloadFrag
  let totalLengthField ← (if ip.freqHop then checkInt (headerLength + thisFragmentLength)
    else .ok datagram.totalLengthField : Result ℤ)
  let fragmentOffset ← checkInt (datagram.fragmentOffset + offset)
  .ok { fragment with totalLengthField, fragmentOffset }

/-- `fragmentAndSend` with `NEWFRAGMENT`. -/
def fragmentAndSendNew (ip : IPv4) (datagram : IPv4Datagram) (ie : OutputInterface) :
    Result Output := do
  let datagram := fillSrcAddress datagram ie
  if datagram.timeToLive ≤ 0 then
    .ok { icmpError := some .ICMP_TIME_EXCEEDED }
  else if ie.mtu = 0 ∨ datagram.byteLength ≤ ie.mtu then
    let datagram := if ip.freqHop then
      { datagram.setTotalPayloadLength with totalLengthField := toInt datagram.byteLength }
      else datagram
    .ok { sent := [datagram] }
  else
    let datagram := datagram.setTotalPayloadLength
    if datagram.dontFragment then
      .ok { icmpError := some .ICMP_DU_FRAGMENTATION_NEEDED }
    else
      let (payload, datagram) ← datagram.decapsulate
      let headerLength := toInt datagram.byteLength
      let payloadLength := toInt payload.byteLength
      -- to avoid problems with the DSR header
      let mtu := if ip.isDsr then ie.mtu - 30 else ie.mtu
      let sent ←
        fragments (fragment ip datagram payload headerLength) mtu headerLength payloadLength
      .ok { sent }

/-- The body of the loop without `NEWFRAGMENT`: the whole payload travels in every fragment. -/
def oldFragment (datagram : IPv4Datagram) (headerLength : ℤ)
    (offset thisFragmentLength : ℤ) (lastFragment : Bool) : Result IPv4Datagram := do
  let moreFragments := if lastFragment then datagram.moreFragments else true
  let byteLength ← checkInt (headerLength + thisFragmentLength)
  let fragmentOffset ← checkInt (datagram.fragmentOffset + offset)
  .ok { datagram with moreFragments, byteLength, fragmentOffset }

/-- `fragmentAndSend` without `NEWFRAGMENT`. -/
def fragmentAndSendOld (ip : IPv4) (datagram : IPv4Datagram) (ie : OutputInterface) :
    Result Output := do
  let datagram := fillSrcAddress datagram ie
  if datagram.timeToLive ≤ 0 then
    .ok { icmpError := some .ICMP_TIME_EXCEEDED }
  else
    let mtu := if ip.isDsr then ie.mtu - 30 else ie.mtu
    if mtu = 0 ∨ datagram.byteLength ≤ mtu then
      .ok { sent := [datagram] }
    else if datagram.dontFragment then
      .ok { icmpError := some .ICMP_DU_FRAGMENTATION_NEEDED }
    else
      let headerLength := datagram.headerLength
      let payloadLength := toInt (datagram.byteLength - headerLength)
      let sent ← fragments (oldFragment datagram headerLength) mtu headerLength payloadLength
      .ok { sent }

def fragmentAndSend (ip : IPv4) (datagram : IPv4Datagram) (ie : OutputInterface) : Result Output :=
  if ip.newFragment then ip.fragmentAndSendNew datagram ie else ip.fragmentAndSendOld datagram ie

/-- All the pieces are sent through one interface. -/
def sendAll (ip : IPv4) (ie : OutputInterface) : List IPv4Datagram → Result (List IPv4Datagram)
  | [] => .ok []
  | datagram :: datagrams => do
      let output ← ip.fragmentAndSend datagram ie
      let sent ← sendAll ip ie datagrams
      .ok (output.sent ++ sent)

/-- The pieces are sent through one interface after another. The result has the pieces that each
interface has sent. -/
def sendChain (ip : IPv4) : List OutputInterface → List IPv4Datagram →
    Result (List (List IPv4Datagram))
  | [], _ => .ok []
  | ie :: ies, datagrams => do
      let sent ← ip.sendAll ie datagrams
      let stages ← sendChain ip ies sent
      .ok (sent :: stages)

section

/-- `pieces` are consecutive non-empty pieces of the range `[b, n)` that begin at multiples of 8.
The one that ends at `n` has the bit `moreFragments`, and all others have it set. -/
inductive Consecutive (moreFragments : Bool) (n : ℤ) : ℤ → List IPv4Datagram → Prop where
  | final {b : ℤ} {p : IPv4Datagram} (begins : p.fragmentOffset = b) (aligned : 8 ∣ b)
      (proper : b < n) (ends : p.rangeEnd = n) (flag : p.moreFragments = moreFragments) :
      Consecutive moreFragments n b [p]
  | cons {b e : ℤ} {p : IPv4Datagram} {ps : List IPv4Datagram} (begins : p.fragmentOffset = b)
      (aligned : 8 ∣ b) (proper : b < e) (ends : p.rangeEnd = e) (flag : p.moreFragments = true)
      (rest : Consecutive moreFragments n e ps) : Consecutive moreFragments n b (p :: ps)

/-- The payloads of the pieces partition that of the datagram. -/
structure Partitions (datagram : IPv4Datagram) (pieces : List IPv4Datagram) : Prop where
  aligned : ∀ p ∈ pieces, 8 ∣ p.fragmentOffset
  proper : ∀ p ∈ pieces, 0 < p.payloadLength
  covers : ∀ x, (∃ p ∈ pieces, p.fragmentOffset ≤ x ∧ x < p.rangeEnd) ↔
    datagram.fragmentOffset ≤ x ∧ x < datagram.rangeEnd
  disjoint : pieces.Pairwise fun p q => p.rangeEnd ≤ q.fragmentOffset
  flags : ∀ p ∈ pieces, p.moreFragments =
    if p.rangeEnd = datagram.rangeEnd then datagram.moreFragments else true

variable {moreFragments : Bool} {n b e : ℤ} {p : IPv4Datagram} {ps qs : List IPv4Datagram}

theorem Consecutive.lt (h : Consecutive moreFragments n b ps) : b < n := by
  induction h with
  | final _ _ proper => exact proper
  | cons _ _ proper _ _ _ ih => exact proper.trans ih

theorem Consecutive.bounds (h : Consecutive moreFragments n b ps) (hp : p ∈ ps) :
    b ≤ p.fragmentOffset ∧ p.fragmentOffset < p.rangeEnd ∧ p.rangeEnd ≤ n ∧
      8 ∣ p.fragmentOffset := by
  induction h with
  | final begins aligned proper ends _ =>
    obtain rfl := mem_singleton.mp hp
    rw [begins, ends]
    exact ⟨le_rfl, proper, le_rfl, aligned⟩
  | cons begins aligned proper ends _ rest ih =>
    obtain rfl | hp := mem_cons.mp hp
    · rw [begins, ends]
      exact ⟨le_rfl, proper, rest.lt.le, aligned⟩
    · obtain ⟨hbeg, hbounds⟩ := ih hp
      exact ⟨proper.le.trans hbeg, hbounds⟩

/-- A piece is known by its offset. -/
theorem Consecutive.eq_of_offset {q : IPv4Datagram} (h : Consecutive moreFragments n b ps)
    (hp : p ∈ ps) (hq : q ∈ ps) (hoffset : p.fragmentOffset = q.fragmentOffset) : p = q := by
  induction h with
  | final => exact (mem_singleton.mp hp).trans (mem_singleton.mp hq).symm
  | cons begins _ proper _ _ rest ih =>
    obtain rfl | hp' := mem_cons.mp hp <;> obtain rfl | hq' := mem_cons.mp hq
    · rfl
    · have hbounds := rest.bounds hq'
      omega
    · have hbounds := rest.bounds hp'
      omega
    · exact ih hp' hq'

theorem Consecutive.append (h : Consecutive true e b ps) (h' : Consecutive moreFragments n e qs) :
    Consecutive moreFragments n b (ps ++ qs) := by
  induction h with
  | final begins aligned proper ends flag => exact .cons begins aligned proper ends flag h'
  | cons begins aligned proper ends flag _ ih =>
    exact .cons begins aligned proper ends flag ih

theorem Consecutive.covers (h : Consecutive moreFragments n b ps) (x : ℤ) :
    (∃ p ∈ ps, p.fragmentOffset ≤ x ∧ x < p.rangeEnd) ↔ b ≤ x ∧ x < n := by
  constructor
  · rintro ⟨p, hp, hbeg, hend⟩
    have hbounds := h.bounds hp
    omega
  · rintro ⟨hb, hn⟩
    induction h with
    | @final b p begins _ _ ends _ =>
      refine ⟨p, mem_cons_self, ?_⟩
      rw [begins, ends]
      exact ⟨hb, hn⟩
    | @cons b e p ps begins _ _ ends _ _ ih =>
      by_cases hx : x < e
      · refine ⟨p, mem_cons_self, ?_⟩
        rw [begins, ends]
        exact ⟨hb, hx⟩
      · obtain ⟨q, hq, hcover⟩ := ih (by omega)
        exact ⟨q, mem_cons_of_mem p hq, hcover⟩

theorem Consecutive.disjoint (h : Consecutive moreFragments n b ps) :
    ps.Pairwise fun p q => p.rangeEnd ≤ q.fragmentOffset := by
  induction h with
  | final => exact pairwise_singleton _ _
  | cons _ _ _ ends _ rest ih =>
    refine pairwise_cons.mpr ⟨fun q hq => ?_, ih⟩
    rw [ends]
    exact (rest.bounds hq).1

theorem Consecutive.flags (h : Consecutive moreFragments n b ps) (hp : p ∈ ps) :
    p.moreFragments = if p.rangeEnd = n then moreFragments else true := by
  induction h with
  | final _ _ _ ends flag =>
    obtain rfl := mem_singleton.mp hp
    rw [if_pos ends, flag]
  | cons _ _ _ ends flag rest ih =>
    obtain rfl | hp := mem_cons.mp hp
    · rw [if_neg (ends.trans_ne rest.lt.ne), flag]
    · exact ih hp

theorem Consecutive.partitions {datagram : IPv4Datagram}
    (h : Consecutive datagram.moreFragments datagram.rangeEnd datagram.fragmentOffset ps) :
    Partitions datagram ps where
  aligned := fun _ hp => (h.bounds hp).2.2.2
  proper := by
    intro p hp
    have hbounds := (h.bounds hp).2.1
    rw [rangeEnd] at hbounds
    omega
  covers := h.covers
  disjoint := h.disjoint
  flags := fun _ hp => h.flags hp

end

section

variable {fragment : ℤ → ℤ → Bool → Result IPv4Datagram} {R : IPv4Datagram → Prop}
variable {moreFragments : Bool} {base payloadLength length : ℤ}

/-- A body of the loop that makes the piece it is asked for. -/
def Makes (fragment : ℤ → ℤ → Bool → Result IPv4Datagram) (moreFragments : Bool)
    (base payloadLength length : ℤ) (R : IPv4Datagram → Prop) : Prop :=
  ∀ offset l last, 0 ≤ offset → 8 ∣ offset → 0 < l → l ≤ length → offset + l ≤ payloadLength →
    ∃ p, fragment offset l last = .ok p ∧ p.fragmentOffset = base + offset ∧
      p.payloadLength = l ∧ p.moreFragments = (if last then moreFragments else true) ∧ R p

/-- The loop cuts what is left of the payload from `offset` on. -/
theorem fragmentLoop_spec (hmakes : Makes fragment moreFragments base payloadLength length R)
    (hlength : 0 < length) (haligned : 8 ∣ length) (hbase : 8 ∣ base)
    (hint : payloadLength + length < 2 ^ 31) {fuel : ℕ} {offset : ℤ} (hoffset : 0 ≤ offset)
    (halign : 8 ∣ offset) (hlt : offset < payloadLength)
    (hfuel : (payloadLength - offset).toNat < fuel) :
    ∃ pieces, fragmentLoop fragment payloadLength length fuel offset = .ok pieces ∧
      Consecutive moreFragments (base + payloadLength) (base + offset) pieces ∧
      ∀ p ∈ pieces, R p := by
  induction fuel generalizing offset with
  | zero => omega
  | succ fuel ih =>
    rw [fragmentLoop, if_pos hlt, checkInt_of (by omega), ok_bind]
    by_cases hlast : offset + length ≥ payloadLength
    · obtain ⟨p, hp, hbeg, hlen, hflag, hR⟩ := hmakes offset (payloadLength - offset) true
        hoffset halign (by omega) (by omega) (by omega)
      refine ⟨[p], ?_, .final hbeg (by omega) (by omega) ?_ hflag, by simpa using hR⟩
      · obtain ⟨fuel, rfl⟩ : ∃ k, fuel = k + 1 := ⟨fuel - 1, by omega⟩
        simp only [hlast, decide_true, if_true, hp, ok_bind, fragmentLoop,
          if_neg (not_lt.mpr hlast)]
      · rw [rangeEnd, hbeg, hlen]
        omega
    · obtain ⟨p, hp, hbeg, hlen, hflag, hR⟩ := hmakes offset length false hoffset halign hlength
        le_rfl (by omega)
      obtain ⟨ps, hps, hcons, hRs⟩ := @ih (offset + length) (by omega) (by omega) (by omega)
        (by omega)
      refine ⟨p :: ps, ?_, .cons hbeg (by omega) (by omega) ?_ hflag hcons,
        forall_mem_cons.mpr ⟨hR, hRs⟩⟩
      · simp only [hlast, decide_false, Bool.false_eq_true, if_false, hp, ok_bind, hps]
      · rw [rangeEnd, hbeg, hlen]
        omega

end

section

variable {ip : IPv4} {ie : OutputInterface} {d p : IPv4Datagram} {headerLength mtu : ℤ}
  {fragment : ℤ → ℤ → Bool → Result IPv4Datagram}

/-- The bytes of an encapsulated `RawPacket`. -/
def rawBytes (datagram : IPv4Datagram) : Option Bytes := datagram.encapsulated.bind Packet.rawBytes

/-- A datagram with a header of the given length and a payload that may be cut, and whose offsets
and lengths are within the range of `int`. -/
structure Sendable (ip : IPv4) (headerLength : ℤ) (d : IPv4Datagram) : Prop where
  header : d.headerLength = headerLength
  nonneg : 0 ≤ headerLength
  ttl : 0 < d.timeToLive
  fragmentable : d.dontFragment = false
  aligned : 8 ∣ d.fragmentOffset
  offset : -2 ^ 31 ≤ d.fragmentOffset
  proper : 0 < d.payloadLength
  lengths : 2 * d.payloadLength + headerLength < 2 ^ 31
  offsets : d.fragmentOffset + d.payloadLength < 2 ^ 31
  encapsulates : ∃ packet, d.encapsulated = some packet ∧
    (ip.newFragment = true → packet.byteLength = d.payloadLength)

/-- The MTU that the fragments are made for. -/
def fragmentMtu (ip : IPv4) (ie : OutputInterface) : ℤ := if ip.isDsr then ie.mtu - 30 else ie.mtu

theorem fragmentMtu_le (ip : IPv4) (ie : OutputInterface) : ip.fragmentMtu ie ≤ ie.mtu := by
  rw [fragmentMtu]
  split_ifs
  · omega
  · exact le_rfl

/-- At least 8 bytes of a payload fit into a fragment. An MTU of 0 is infinite. -/
def Fits (ip : IPv4) (headerLength : ℤ) (ie : OutputInterface) : Prop :=
  ie.mtu = 0 ∧ (ip.newFragment = true ∨ ip.isDsr = false) ∨ 8 ≤ ip.fragmentMtu ie - headerLength

/-- A piece of `d` that has been sent through `ie`. -/
structure PieceOf (ip : IPv4) (headerLength : ℤ) (d : IPv4Datagram) (ie : OutputInterface)
    (p : IPv4Datagram) : Prop where
  sendable : Sendable ip headerLength p
  mtu : ie.mtu = 0 ∨ p.byteLength ≤ ie.mtu
  srcAddress : p.srcAddress = (fillSrcAddress d ie).srcAddress
  destAddress : p.destAddress = d.destAddress
  identification : p.identification = d.identification
  rawBytes : rawBytes p = rawBytes d

theorem fragmentLength_bounds (h : 8 ≤ mtu - headerLength) :
    8 ∣ fragmentLength mtu headerLength ∧ 0 < fragmentLength mtu headerLength ∧
      fragmentLength mtu headerLength ≤ mtu - headerLength := by
  rw [fragmentLength, Int.tdiv_eq_ediv_of_nonneg (by omega)]
  omega

theorem fragments_spec {R : IPv4Datagram → Prop} {moreFragments : Bool} {base payloadLength : ℤ}
    (hmtu : 8 ≤ mtu - headerLength)
    (hmakes : Makes fragment moreFragments base payloadLength (fragmentLength mtu headerLength) R)
    (hbase : 8 ∣ base) (hint : payloadLength + (mtu - headerLength) < 2 ^ 31)
    (hproper : 0 < payloadLength) :
    ∃ pieces, fragments fragment mtu headerLength payloadLength = .ok pieces ∧
      Consecutive moreFragments (base + payloadLength) base pieces ∧ ∀ p ∈ pieces, R p := by
  obtain ⟨haligned, hpositive, hle⟩ := fragmentLength_bounds hmtu
  obtain ⟨pieces, hpieces, hcons, hR⟩ := @fragmentLoop_spec fragment R moreFragments base
    payloadLength (fragmentLength mtu headerLength) hmakes hpositive haligned hbase (by omega)
    (payloadLength.toNat + 1) 0 le_rfl ⟨0, rfl⟩ hproper (by omega)
  rw [Int.add_zero] at hcons
  refine ⟨pieces, ?_, hcons, hR⟩
  simp only [fragments, if_neg (not_le.mpr hpositive)]
  rw [checkInt_of (by omega), ok_bind, hpieces]

/-- A datagram with other fields that fragmentation does not read. -/
theorem Sendable.of_eq (h : Sendable ip headerLength d) (hheader : p.headerLength = d.headerLength)
    (httl : p.timeToLive = d.timeToLive) (hdf : p.dontFragment = d.dontFragment)
    (hoffset : p.fragmentOffset = d.fragmentOffset) (hlength : p.byteLength = d.byteLength)
    (hpacket : p.encapsulated = d.encapsulated) : Sendable ip headerLength p := by
  have hpayload : p.payloadLength = d.payloadLength := by
    rw [payloadLength, payloadLength, hlength, hheader]
  constructor
  · exact hheader.trans h.header
  · exact h.nonneg
  · exact httl ▸ h.ttl
  · exact hdf.trans h.fragmentable
  · exact hoffset ▸ h.aligned
  · exact hoffset ▸ h.offset
  · exact hpayload ▸ h.proper
  · exact hpayload ▸ h.lengths
  · exact hoffset ▸ hpayload ▸ h.offsets
  · exact hpacket ▸ hpayload ▸ h.encapsulates

theorem exists_fillSrcAddress (d : IPv4Datagram) (ie : OutputInterface) :
    fillSrcAddress d ie = { d with srcAddress := (fillSrcAddress d ie).srcAddress } := by
  rw [fillSrcAddress]
  split_ifs
  · rfl
  · rfl

/-- A datagram that is sent as it is. -/
theorem sendAsItIs (h : Sendable ip headerLength d) (hheader : p.headerLength = d.headerLength)
    (hoffset : p.fragmentOffset = d.fragmentOffset) (hlength : p.byteLength = d.byteLength)
    (hflag : p.moreFragments = d.moreFragments) (hpiece : PieceOf ip headerLength d ie p) :
    Consecutive d.moreFragments d.rangeEnd d.fragmentOffset [p] ∧
      ∀ q ∈ [p], PieceOf ip headerLength d ie q := by
  have hend : p.rangeEnd = d.rangeEnd := by
    rw [rangeEnd, payloadLength, hoffset, hlength, hheader]
    rfl
  have hproper : d.fragmentOffset < d.rangeEnd := by
    have := h.proper
    rw [rangeEnd]
    omega
  exact ⟨.final hoffset h.aligned hproper hend hflag, by simpa using hpiece⟩

/-- A piece of the payload with the length `l` at the offset `offset`. -/
structure Cut (headerLength : ℤ) (d : IPv4Datagram) (ie : OutputInterface) (offset l : ℤ)
    (last : Bool) (p : IPv4Datagram) : Prop where
  header : p.headerLength = headerLength
  timeToLive : p.timeToLive = d.timeToLive
  dontFragment : p.dontFragment = d.dontFragment
  fragmentOffset : p.fragmentOffset = d.fragmentOffset + offset
  byteLength : p.byteLength = headerLength + l
  moreFragments : p.moreFragments = if last then d.moreFragments else true
  srcAddress : p.srcAddress = (fillSrcAddress d ie).srcAddress
  destAddress : p.destAddress = d.destAddress
  identification : p.identification = d.identification
  rawBytes : rawBytes p = rawBytes d

/-- A loop whose body cuts the payload makes pieces of the datagram. -/
theorem makes_of_cut (h : Sendable ip headerLength d) (hmtu : 8 ≤ ip.fragmentMtu ie - headerLength)
    (hfragment : ∀ offset l last, checkInt (d.fragmentOffset + offset) =
        .ok (d.fragmentOffset + offset) → checkInt (headerLength + l) = .ok (headerLength + l) →
      ∃ p, fragment offset l last = .ok p ∧ Cut headerLength d ie offset l last p ∧
        ∃ packet, p.encapsulated = some packet ∧ (ip.newFragment = true → packet.byteLength = l)) :
    Makes fragment d.moreFragments d.fragmentOffset d.payloadLength
      (fragmentLength (ip.fragmentMtu ie) headerLength) (PieceOf ip headerLength d ie) := by
  intro offset l last hoffset halign hl hle hend
  have hlengths := h.lengths
  have hoffsets := h.offsets
  have hnonneg := h.nonneg
  have hbase := h.offset
  have haligned := h.aligned
  obtain ⟨-, -, hlength⟩ := fragmentLength_bounds hmtu
  obtain ⟨p, hp, hcut, hpacket⟩ := hfragment offset l last (checkInt_of (by omega))
    (checkInt_of (by omega))
  have hpayload : p.payloadLength = l := by
    rw [payloadLength, hcut.byteLength, hcut.header]
    omega
  have hle' := fragmentMtu_le ip ie
  refine ⟨p, hp, hcut.fragmentOffset, hpayload, hcut.moreFragments, ?_, .inr ?_, hcut.srcAddress,
    hcut.destAddress, hcut.identification, hcut.rawBytes⟩
  · constructor
    · exact hcut.header
    · exact hnonneg
    · exact hcut.timeToLive ▸ h.ttl
    · exact hcut.dontFragment.trans h.fragmentable
    · rw [hcut.fragmentOffset]
      omega
    · rw [hcut.fragmentOffset]
      omega
    · rwa [hpayload]
    · rw [hpayload]
      omega
    · rw [hcut.fragmentOffset, hpayload]
      omega
    · rwa [hpayload]
  · rw [hcut.byteLength]
    omega

/-- What `fragmentAndSend` does with a datagram that it may cut. -/
def Sends (ip : IPv4) (headerLength : ℤ) (d : IPv4Datagram) (ie : OutputInterface)
    (result : Result Output) : Prop :=
  ∃ pieces, result = .ok { sent := pieces } ∧
    Consecutive d.moreFragments d.rangeEnd d.fragmentOffset pieces ∧
    ∀ p ∈ pieces, PieceOf ip headerLength d ie p

section

variable (h : Sendable ip headerLength d)

include h

theorem sends_of_makes
    (hmtu : 8 ≤ ip.fragmentMtu ie - headerLength) (hlong : ip.fragmentMtu ie ≤ d.byteLength)
    (hmakes : Makes fragment d.moreFragments d.fragmentOffset d.payloadLength
      (fragmentLength (ip.fragmentMtu ie) headerLength) (PieceOf ip headerLength d ie)) :
    Sends ip headerLength d ie (do
      let sent ← fragments fragment (ip.fragmentMtu ie) headerLength d.payloadLength
      .ok { sent }) := by
  have hlengths := h.lengths
  have hnonneg := h.nonneg
  have hheader := h.header
  have hpayload : d.payloadLength = d.byteLength - d.headerLength := rfl
  obtain ⟨pieces, hpieces, hcons, hall⟩ := fragments_spec hmtu hmakes h.aligned (by omega) h.proper
  refine ⟨pieces, ?_, hcons, hall⟩
  rw [hpieces, ok_bind]

theorem fragmentAndSendNew_spec (hnew : ip.newFragment = true) (hfits : Fits ip headerLength ie) :
    Sends ip headerLength d ie (ip.fragmentAndSendNew d ie) := by
  obtain ⟨packet, hpacket, hlength⟩ := h.encapsulates
  have hlength := hlength hnew
  obtain ⟨src, hsrc, hfill⟩ : ∃ src, (fillSrcAddress d ie).srcAddress = src ∧
      fillSrcAddress d ie = { d with srcAddress := src } := ⟨_, rfl, exists_fillSrcAddress d ie⟩
  have hlengths := h.lengths
  have hnonneg := h.nonneg
  have hheader := h.header
  have hproper := h.proper
  have hpayload : d.payloadLength = d.byteLength - d.headerLength := rfl
  simp only [fragmentAndSendNew, hfill, if_neg (not_le.mpr h.ttl),
    IPv4Datagram.setTotalPayloadLength, hpacket]
  by_cases hstraight : ie.mtu = 0 ∨ d.byteLength ≤ ie.mtu
  · rw [if_pos hstraight]
    refine ⟨[_], rfl, ?_⟩
    split_ifs
    · exact sendAsItIs h rfl rfl rfl rfl ⟨h.of_eq rfl rfl rfl rfl rfl hpacket.symm, hstraight,
        hsrc.symm, rfl, rfl, by rw [rawBytes, rawBytes, hpacket]⟩
    · exact sendAsItIs h rfl rfl rfl rfl ⟨h.of_eq rfl rfl rfl rfl rfl hpacket.symm, hstraight,
        hsrc.symm, rfl, rfl, by rw [rawBytes, rawBytes, hpacket]⟩
  · have hmtu : 8 ≤ ip.fragmentMtu ie - headerLength :=
      hfits.resolve_left fun hzero => hstraight (.inl hzero.1)
    rw [if_neg hstraight, h.fragmentable]
    have htoHeader : toInt (d.byteLength - packet.byteLength) = headerLength := by
      rw [toInt_of (by omega)]
      omega
    have htoPayload : toInt packet.byteLength = d.payloadLength := by
      rw [toInt_of (by omega), hlength]
    simp only [Bool.false_eq_true, if_false, IPv4Datagram.decapsulate]
    rw [if_neg (by omega), ok_bind]
    simp only [htoHeader, htoPayload]
    have hle := fragmentMtu_le ip ie
    refine sends_of_makes h hmtu (by omega) (makes_of_cut h hmtu fun offset l last hoff hlen => ?_)
    obtain ⟨field, hfield⟩ : ∃ field, (if ip.freqHop = true then checkInt (headerLength + l)
        else .ok d.totalLengthField) = .ok field := by
      split_ifs
      · exact ⟨_, hlen⟩
      · exact ⟨_, rfl⟩
    simp only [fragment, IPv4Datagram.encapsulate, ok_bind, hfield, hoff]
    refine ⟨_, rfl, ⟨h.header, rfl, h.fragmentable.symm, rfl, rfl, rfl, hsrc.symm, rfl, rfl, ?_⟩,
      _, rfl, fun _ => rfl⟩
    rw [rawBytes, rawBytes, hpacket]
    rfl

theorem fragmentAndSendOld_spec (hold : ip.newFragment = false) (hfits : Fits ip headerLength ie) :
    Sends ip headerLength d ie (ip.fragmentAndSendOld d ie) := by
  obtain ⟨packet, hpacket, -⟩ := h.encapsulates
  obtain ⟨src, hsrc, hfill⟩ : ∃ src, (fillSrcAddress d ie).srcAddress = src ∧
      fillSrcAddress d ie = { d with srcAddress := src } := ⟨_, rfl, exists_fillSrcAddress d ie⟩
  have hlengths := h.lengths
  have hnonneg := h.nonneg
  have hheader := h.header
  have hproper := h.proper
  have hpayload : d.payloadLength = d.byteLength - d.headerLength := rfl
  have hle := fragmentMtu_le ip ie
  simp only [fragmentAndSendOld, hfill, if_neg (not_le.mpr h.ttl)]
  show Sends ip headerLength d ie (if ip.fragmentMtu ie = 0 ∨ d.byteLength ≤ ip.fragmentMtu ie
    then _ else _)
  by_cases hstraight : ip.fragmentMtu ie = 0 ∨ d.byteLength ≤ ip.fragmentMtu ie
  · rw [if_pos hstraight]
    refine ⟨[_], rfl, sendAsItIs h rfl rfl rfl rfl ⟨h.of_eq rfl rfl rfl rfl rfl rfl, ?_,
      hsrc.symm, rfl, rfl, rfl⟩⟩
    show ie.mtu = 0 ∨ d.byteLength ≤ ie.mtu
    obtain ⟨hzero, -⟩ | hroom := hfits
    · exact .inl hzero
    · right
      omega
  · have hmtu : 8 ≤ ip.fragmentMtu ie - headerLength := by
      refine hfits.resolve_left fun hzero => hstraight (.inl ?_)
      have hdsr : ip.isDsr = false := hzero.2.resolve_left (by simp [hold])
      rw [fragmentMtu, hdsr, if_neg Bool.false_ne_true]
      exact hzero.1
    have htoPayload : toInt (d.byteLength - d.headerLength) = d.payloadLength :=
      toInt_of (by omega)
    rw [if_neg hstraight, h.fragmentable]
    simp only [Bool.false_eq_true, if_false, htoPayload]
    rw [hheader]
    refine sends_of_makes h hmtu (by omega) (makes_of_cut h hmtu fun offset l last hoff hlen => ?_)
    simp only [oldFragment, hlen, hoff, ok_bind]
    exact ⟨_, rfl, ⟨rfl, rfl, h.fragmentable.symm, rfl, rfl, rfl, hsrc.symm, rfl, rfl, rfl⟩,
      packet, hpacket, fun hnew => absurd (hold.symm.trans hnew) Bool.false_ne_true⟩

/-- A datagram that may be cut is sent in pieces that fit. -/
theorem fragmentAndSend_spec (hfits : Fits ip headerLength ie) :
    Sends ip headerLength d ie (ip.fragmentAndSend d ie) := by
  rw [fragmentAndSend]
  split_ifs with hnew
  · exact fragmentAndSendNew_spec h hnew hfits
  · exact fragmentAndSendOld_spec h (Bool.eq_false_iff.mpr hnew) hfits

end

end

variable {ip : IPv4} {ie : OutputInterface} {d p : IPv4Datagram} {headerLength : ℤ}
variable {moreFragments : Bool} {n b : ℤ} {ds : List IPv4Datagram} {src : IPv4Address}

/-- A piece of `d`, on its way with the source address `src`. -/
structure Travels (ip : IPv4) (headerLength : ℤ) (d : IPv4Datagram) (src : IPv4Address)
    (p : IPv4Datagram) : Prop where
  sendable : Sendable ip headerLength p
  srcAddress : p.srcAddress = src
  destAddress : p.destAddress = d.destAddress
  identification : p.identification = d.identification
  rawBytes : rawBytes p = rawBytes d

/-- The pieces are consecutive pieces of the datagram, and none is longer than the MTU. -/
def SentThrough (d : IPv4Datagram) (ie : OutputInterface) (pieces : List IPv4Datagram) : Prop :=
  Partitions d pieces ∧ ∀ p ∈ pieces, ie.mtu = 0 ∨ p.byteLength ≤ ie.mtu

def sourceAfter (src : IPv4Address) (ie : OutputInterface) : IPv4Address :=
  if src.isUnspecified then ie.ipAddress else src

theorem fillSrcAddress_srcAddress :
    (fillSrcAddress d ie).srcAddress = sourceAfter d.srcAddress ie := by
  rw [fillSrcAddress, sourceAfter]
  split_ifs
  · rfl
  · rfl

theorem PieceOf.travels {q : IPv4Datagram} (h : PieceOf ip headerLength p ie q)
    (hp : Travels ip headerLength d src p) : Travels ip headerLength d (sourceAfter src ie) q where
  sendable := h.sendable
  srcAddress := by rw [h.srcAddress, fillSrcAddress_srcAddress, hp.srcAddress]
  destAddress := h.destAddress.trans hp.destAddress
  identification := h.identification.trans hp.identification
  rawBytes := h.rawBytes.trans hp.rawBytes

/-- Cutting all the pieces gives consecutive pieces. -/
theorem sendAll_spec (h : Consecutive moreFragments n b ds)
    (htravels : ∀ p ∈ ds, Travels ip headerLength d src p) (hfits : Fits ip headerLength ie) :
    ∃ pieces, ip.sendAll ie ds = .ok pieces ∧ Consecutive moreFragments n b pieces ∧
      (∀ p ∈ pieces, Travels ip headerLength d (sourceAfter src ie) p) ∧
      ∀ p ∈ pieces, ie.mtu = 0 ∨ p.byteLength ≤ ie.mtu := by
  induction h with
  | @final b p begins _ _ ends flag =>
    have hp := htravels p mem_cons_self
    obtain ⟨pieces, hsend, hcons, hall⟩ := fragmentAndSend_spec hp.sendable hfits
    rw [begins, ends, flag] at hcons
    refine ⟨pieces, ?_, hcons, fun q hq => (hall q hq).travels hp, fun q hq => (hall q hq).mtu⟩
    simp only [sendAll, hsend, ok_bind, append_nil]
  | @cons b e p ps begins _ _ ends flag _ ih =>
    have hp := htravels p mem_cons_self
    obtain ⟨pieces, hsend, hcons, hall⟩ := fragmentAndSend_spec hp.sendable hfits
    rw [begins, ends, flag] at hcons
    obtain ⟨rest, hrest, hcons', htravels', hmtu⟩ :=
      ih fun q hq => htravels q (mem_cons_of_mem p hq)
    refine ⟨pieces ++ rest, ?_, hcons.append hcons', fun q hq => ?_, fun q hq => ?_⟩
    · simp only [sendAll, hsend, hrest, ok_bind]
    · obtain hq | hq := mem_append.mp hq
      · exact (hall q hq).travels hp
      · exact htravels' q hq
    · obtain hq | hq := mem_append.mp hq
      · exact (hall q hq).mtu
      · exact hmtu q hq

/-- At every interface the pieces that have been sent partition the payload. -/
theorem sendChain_spec (ies : List OutputInterface)
    (h : Consecutive d.moreFragments d.rangeEnd d.fragmentOffset ds)
    (htravels : ∀ p ∈ ds, Travels ip headerLength d src p)
    (hfits : ∀ ie ∈ ies, Fits ip headerLength ie) :
    ∃ stages, ip.sendChain ies ds = .ok stages ∧ Forall₂ (SentThrough d) ies stages ∧
      Consecutive d.moreFragments d.rangeEnd d.fragmentOffset (stages.getLastD ds) ∧
      ∃ src', ∀ p ∈ stages.getLastD ds, Travels ip headerLength d src' p := by
  induction ies generalizing ds src with
  | nil => exact ⟨[], rfl, .nil, h, src, htravels⟩
  | cons ie ies ih =>
    obtain ⟨sent, hsent, hcons, htravels', hmtu⟩ :=
      sendAll_spec h htravels (hfits ie mem_cons_self)
    obtain ⟨stages, hstages, hall, hcons', src', htravels''⟩ :=
      ih hcons htravels' fun ie' hie' => hfits ie' (mem_cons_of_mem ie hie')
    refine ⟨sent :: stages, ?_, .cons ⟨hcons.partitions, hmtu⟩ hall, ?_, src', ?_⟩
    · simp only [sendChain, hsent, hstages, ok_bind]
    · rwa [getLastD_cons]
    · rwa [getLastD_cons]

/-- A whole datagram, or a fragment, before it is cut. -/
theorem Sendable.consecutive (h : Sendable ip headerLength d) :
    Consecutive d.moreFragments d.rangeEnd d.fragmentOffset [d] := by
  have hproper : d.fragmentOffset < d.rangeEnd := by
    have := h.proper
    rw [rangeEnd]
    omega
  exact .final rfl h.aligned hproper rfl rfl

theorem Sendable.travels (h : Sendable ip headerLength d) :
    ∀ p ∈ [d], Travels ip headerLength d d.srcAddress p := by
  intro p hp
  obtain rfl := mem_singleton.mp hp
  exact ⟨h, rfl, rfl, rfl, rfl⟩

end IPv4

end Inet.Ipv4
