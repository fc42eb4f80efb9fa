import Inet.Common.ByteArray
import Inet.Library.SerialNumber

/-!
# TCP segments

The comparisons of `TCPSegment.h` are serial number comparisons on 32 bits, and a
segment carries its payload as bytes, as message objects, or only as a length.
`truncateSegment` trims the payload to the part that lies in a given range of
sequence numbers. A message object travels with the last byte of the message, so
that trimming keeps a message just in case it keeps that byte.
-/

namespace Inet.Tcp

open SerialNumber (ofPos Near)

def seqLess (a b : Uint32) : Bool := a != b && decide ((b - a).toNat < 2 ^ 31)
def seqLE (a b : Uint32) : Bool := decide ((b - a).toNat < 2 ^ 31)
def seqGreater (a b : Uint32) : Bool := a != b && decide ((a - b).toNat < 2 ^ 31)
def seqGE (a b : Uint32) : Bool := decide ((a - b).toNat < 2 ^ 31)
def seqMin (a b : Uint32) : Uint32 := if (b - a).toNat < 2 ^ 31 then a else b
def seqMax (a b : Uint32) : Uint32 := if (a - b).toNat < 2 ^ 31 then a else b

theorem seqGreater_eq (a b : Uint32) : seqGreater a b = seqLess b a := by
  rw [seqGreater, seqLess, bne_comm]

section

variable {s : Uint32} {p q : ℕ}

theorem seqLess_ofPos (h : Near 32 p q) : seqLess (ofPos s p) (ofPos s q) = decide (p < q) :=
  SerialNumber.lt_ofPos (by decide) h

theorem seqLE_ofPos (h : Near 32 p q) : seqLE (ofPos s p) (ofPos s q) = decide (p ≤ q) :=
  SerialNumber.le_ofPos (by decide) h

/-- As `seqLE` and `seqGE` of a number not far behind the first one. -/
theorem seqLE_start (hp : p < 2 ^ 31) : seqLE s (ofPos s p) = true := by
  rw [seqLE, SerialNumber.toNat_ofPos_sub_base (by omega)]
  exact decide_eq_true hp

theorem seqGE_ofPos (h : Near 32 p q) : seqGE (ofPos s p) (ofPos s q) = decide (q ≤ p) :=
  seqLE_ofPos h.symm

theorem seqGreater_ofPos (h : Near 32 p q) :
    seqGreater (ofPos s p) (ofPos s q) = decide (q < p) := by
  rw [seqGreater_eq, seqLess_ofPos h.symm]

theorem seqMin_ofPos (h : Near 32 p q) : seqMin (ofPos s p) (ofPos s q) = ofPos s (min p q) := by
  have hle := seqLE_ofPos (s := s) h
  rw [seqLE, decide_eq_decide] at hle
  simp only [seqMin, hle, Nat.min_def]
  split_ifs <;> rfl

theorem seqMax_ofPos (h : Near 32 p q) : seqMax (ofPos s p) (ofPos s q) = ofPos s (max p q) := by
  have hle := seqLE_ofPos (s := s) h.symm
  rw [seqLE, decide_eq_decide] at hle
  simp only [seqMax, hle, Nat.max_def]
  split_ifs with h₁ h₂ h₂
  · rw [Nat.le_antisymm h₂ h₁]
  · rfl
  · rfl
  · omega

theorem ofPos_eq_iff (h : Near 32 p q) : ofPos s p = ofPos s q ↔ p = q :=
  SerialNumber.ofPos_inj (by decide) h

/-- Two positions of one window are near each other. -/
theorem near_of_window {a : ℕ} (hp : a ≤ p ∧ p < a + 2 ^ 31) (hq : a ≤ q ∧ q < a + 2 ^ 31) :
    Near 32 p q := by
  constructor <;> simp only [Nat.reduceSub] <;> omega

theorem near_of_lt (hp : p < 2 ^ 31) (hq : q < 2 ^ 31) : Near 32 p q :=
  near_of_window ⟨Nat.zero_le p, by omega⟩ ⟨Nat.zero_le q, by omega⟩

/-- A sequence number between the two ends of a window. -/
theorem offset_le {b seqNum : Uint32} {n : ℕ} (hn : n < 2 ^ 31) (h₁ : seqLE b seqNum = true)
    (h₂ : seqLE seqNum (ofPos b n) = true) :
    seqNum = ofPos b (seqNum - b).toNat ∧ (seqNum - b).toNat ≤ n := by
  have hpos := SerialNumber.ofPos_toNat_sub b seqNum
  have hlt : (seqNum - b).toNat < 2 ^ 31 := by simpa [seqLE] using h₁
  refine ⟨hpos.symm, ?_⟩
  rw [← hpos, seqLE_ofPos (near_of_lt hlt hn)] at h₂
  exact of_decide_eq_true h₂

end

/-- A message object with the sequence number behind its last byte. -/
structure TCPPayloadMessage (μ : Type) where
  endSequenceNo : Uint32
  msg : μ
deriving DecidableEq

structure TCPSegment (μ : Type) where
  sequenceNo : Uint32
  /-- An `unsigned long`, which the code may set without any actual payload. -/
  payloadLength : ℕ
  byteArray : Bytes := []
  payloadList : List (TCPPayloadMessage μ) := []
  ackNo : Uint32 := 0
  synBit : Bool := false
  ackBit : Bool := false
  rstBit : Bool := false
  finBit : Bool := false
deriving DecidableEq

namespace TCPSegment

variable {μ : Type}

/-- The sequence number behind the payload. -/
def endSeq (tcpseg : TCPSegment μ) : Uint32 :=
  tcpseg.sequenceNo + BitVec.ofNat 32 tcpseg.payloadLength

/-- Drop the messages from the front of the list while `p` holds, then those from
the back while `q` holds. -/
def dropEnds (p q : TCPPayloadMessage μ → Bool) (l : List (TCPPayloadMessage μ)) :
    List (TCPPayloadMessage μ) :=
  ((l.dropWhile p).reverse.dropWhile q).reverse

def truncateData (tcpseg : TCPSegment μ) (truncleft truncright : Uint32) :
    Result (TCPSegment μ) := do
  assert (tcpseg.payloadLength ≥ (truncleft + truncright).toNat)
    "payloadLength >= truncleft + truncright"
  let byteArray ← if tcpseg.byteArray.length ≠ 0 then
      ByteArray.truncateData tcpseg.byteArray truncleft.toNat truncright.toNat
    else .ok tcpseg.byteArray
  let sequenceNo := tcpseg.sequenceNo + truncleft
  let payloadLength := tcpseg.payloadLength - (truncleft + truncright).toNat
  -- the front is trimmed before the sequence number moves, the back after it
  let payloadList := dropEnds
    (fun m => (m.endSequenceNo - tcpseg.sequenceNo).toNat ≤ truncleft.toNat)
    (fun m => (m.endSequenceNo - sequenceNo).toNat > payloadLength) tcpseg.payloadList
  .ok { tcpseg with sequenceNo, payloadLength, byteArray, payloadList }

def truncateSegment (tcpseg : TCPSegment μ) (firstSeqNo endSeqNo : Uint32) :
    Result (TCPSegment μ) := do
  assert (tcpseg.payloadLength > 0) "payloadLength > 0"
  -- must have common part
  if !(seqLess tcpseg.sequenceNo endSeqNo && seqLess firstSeqNo tcpseg.endSeq) then
    throw (.cRuntimeError "truncateSegment(%u,%u) called on [%u, %u) segment\n")
  let truncleft :=
    if seqLess tcpseg.sequenceNo firstSeqNo then firstSeqNo - tcpseg.sequenceNo else 0
  let truncright :=
    if seqGreater tcpseg.endSeq endSeqNo then tcpseg.endSeq - endSeqNo else 0
  tcpseg.truncateData truncleft truncright

variable {s0 : Uint32} {tcpseg : TCPSegment μ} {o n lo hi : ℕ}

theorem endSeq_eq (hseq : tcpseg.sequenceNo = ofPos s0 o) (hlen : tcpseg.payloadLength = n) :
    tcpseg.endSeq = ofPos s0 (o + n) := by
  rw [endSeq, hseq, hlen, SerialNumber.ofPos_add]

/-- The segment at `[o, o + n)` and the range `[lo, hi)` have a common part, and all four
positions lie within half of the sequence space. -/
structure Meets (o n lo hi : ℕ) : Prop where
  pos : 0 < n
  seq_lt : o < hi
  lt_end : lo < o + n
  range : lo ≤ hi
  near_hi : hi < o + 2 ^ 31
  near_end : o + n < lo + 2 ^ 31

theorem truncateData_spec {l r : ℕ} (hlen : tcpseg.payloadLength = n)
    (hbytes : tcpseg.byteArray.length = 0 ∨ tcpseg.byteArray.length = n) (hlr : l + r ≤ n)
    (hn : n < 2 ^ 32) :
    ∃ byteArray,
      tcpseg.truncateData (BitVec.ofNat 32 l) (BitVec.ofNat 32 r) = .ok { tcpseg with
          sequenceNo := tcpseg.sequenceNo + BitVec.ofNat 32 l
          payloadLength := n - (l + r)
          byteArray
          payloadList := dropEnds
            (fun m => (m.endSequenceNo - tcpseg.sequenceNo).toNat ≤ l)
            (fun m => (m.endSequenceNo - (tcpseg.sequenceNo + BitVec.ofNat 32 l)).toNat >
              n - (l + r))
            tcpseg.payloadList } := by
  have hsum : (BitVec.ofNat 32 l + BitVec.ofNat 32 r).toNat = l + r := by
    rw [← BitVec.ofNat_add, BitVec.toNat_ofNat, Nat.mod_eq_of_lt (by omega)]
  have hl : (BitVec.ofNat 32 l).toNat = l := by
    rw [BitVec.toNat_ofNat, Nat.mod_eq_of_lt (by omega)]
  have hr : (BitVec.ofNat 32 r).toNat = r := by
    rw [BitVec.toNat_ofNat, Nat.mod_eq_of_lt (by omega)]
  rw [truncateData, hsum, hl, hr, hlen, assert_of (by simpa using hlr), ok_bind]
  by_cases hb : tcpseg.byteArray.length = 0
  · exact ⟨tcpseg.byteArray, by rw [if_neg (by omega)]; rfl⟩
  · obtain ⟨byteArray, htrim⟩ := ByteArray.exists_truncateData
      (show l + r ≤ tcpseg.byteArray.length by omega)
    exact ⟨byteArray, by rw [if_pos hb, htrim]; rfl⟩

/-- What is left of a segment: its common part with the range. The messages whose last
byte lies before or behind that part are dropped. -/
theorem truncateSegment_spec (hseq : tcpseg.sequenceNo = ofPos s0 o)
    (hlen : tcpseg.payloadLength = n)
    (hbytes : tcpseg.byteArray.length = 0 ∨ tcpseg.byteArray.length = n) (h : Meets o n lo hi) :
    ∃ byteArray,
      tcpseg.truncateSegment (ofPos s0 lo) (ofPos s0 hi) = .ok { tcpseg with
          sequenceNo := ofPos s0 (max o lo)
          payloadLength := min (o + n) hi - max o lo
          byteArray
          payloadList := dropEnds
            (fun m => (m.endSequenceNo - ofPos s0 o).toNat ≤ max o lo - o)
            (fun m => (m.endSequenceNo - ofPos s0 (max o lo)).toNat > min (o + n) hi - max o lo)
            tcpseg.payloadList } := by
  obtain ⟨h₀, h₁, h₂, h₃, h₄, h₅⟩ := h
  have near : ∀ {p q : ℕ}, p < q + 2 ^ 31 → q < p + 2 ^ 31 → Near 32 p q := fun hp hq => ⟨hp, hq⟩
  have near_begin : Near 32 o lo := near (by omega) (by omega)
  have near_end : Near 32 (o + n) hi := near (by omega) (by omega)
  have near_seq : Near 32 o hi := near (by omega) (by omega)
  have near_first : Near 32 lo (o + n) := near (by omega) (by omega)
  have hleft : (if seqLess (ofPos s0 o) (ofPos s0 lo) then ofPos s0 lo - ofPos s0 o else 0) =
      BitVec.ofNat 32 (max o lo - o) := by
    rw [seqLess_ofPos near_begin]
    by_cases hlt : o < lo
    · rw [decide_eq_true hlt, if_pos rfl, SerialNumber.ofPos_sub_ofPos (Nat.le_of_lt hlt),
        Nat.max_eq_right (Nat.le_of_lt hlt)]
    · rw [decide_eq_false hlt, if_neg (by simp), Nat.max_eq_left (by omega), Nat.sub_self]
      rfl
  have hright : (if seqGreater (ofPos s0 (o + n)) (ofPos s0 hi)
      then ofPos s0 (o + n) - ofPos s0 hi else 0) =
      BitVec.ofNat 32 (o + n - min (o + n) hi) := by
    rw [seqGreater_ofPos near_end]
    by_cases hlt : hi < o + n
    · rw [decide_eq_true hlt, if_pos rfl, SerialNumber.ofPos_sub_ofPos (Nat.le_of_lt hlt),
        Nat.min_eq_right (Nat.le_of_lt hlt)]
    · rw [decide_eq_false hlt, if_neg (by simp), Nat.min_eq_left (by omega), Nat.sub_self]
      rfl
  have common : (!(seqLess (ofPos s0 o) (ofPos s0 hi) &&
      seqLess (ofPos s0 lo) (ofPos s0 (o + n)))) = false := by
    rw [seqLess_ofPos near_seq, seqLess_ofPos near_first]
    simp [h₁, h₂]
  obtain ⟨byteArray, htrunc⟩ := @truncateData_spec _ tcpseg n (max o lo - o)
    (o + n - min (o + n) hi) hlen hbytes (by omega) (by omega)
  have hbegin : ofPos s0 o + BitVec.ofNat 32 (max o lo - o) = ofPos s0 (max o lo) := by
    rw [← SerialNumber.ofPos_add, show o + (max o lo - o) = max o lo by omega]
  have hrest : n - ((max o lo - o) + (o + n - min (o + n) hi)) = min (o + n) hi - max o lo := by
    omega
  rw [hseq, hbegin, hrest] at htrunc
  have hpos : decide (tcpseg.payloadLength > 0) = true := decide_eq_true (by omega)
  refine ⟨byteArray, ?_⟩
  rw [truncateSegment, assert_of hpos, ok_bind, endSeq_eq hseq hlen, hseq, common]
  simp only [Bool.false_eq_true, ↓reduceIte, hleft, hright, htrunc]

end TCPSegment

end Inet.Tcp
