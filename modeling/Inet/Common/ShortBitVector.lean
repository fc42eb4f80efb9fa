import Inet.Common.BitVector

/-!
# Short bit vectors

`ShortBitVector` is the optimised version of `BitVector` for up to 32 bits, which it keeps in one
word.
-/

namespace Inet

structure ShortBitVector where
  bits : Uint32 := 0
  size : ℕ := 0

namespace ShortBitVector

def getSize (v : ShortBitVector) : ℕ := v.size

def getBit (v : ShortBitVector) (pos : ℕ) : Result Bool :=
  if pos ≥ v.size then .error outOfRange else .ok (decide (v.bits &&& 1#32 <<< pos ≠ 0))

def setBit (v : ShortBitVector) (pos : ℕ) (value : Bool) : Result ShortBitVector :=
  if pos ≥ 32 then .error (.cRuntimeError "Out of range with bit position: %d")
  else .ok
    { bits := if value then v.bits ||| 1#32 <<< pos else v.bits &&& ~~~(1#32 <<< pos)
      size := if pos + 1 > v.size then pos + 1 else v.size }

def appendBit (v : ShortBitVector) (value : Bool) : Result ShortBitVector := v.setBit v.size value

def toggleBit (v : ShortBitVector) (pos : ℕ) : Result ShortBitVector :=
  if pos ≥ v.size then .error outOfRange else .ok { v with bits := v.bits ^^^ 1#32 <<< pos }

/-- The loop of `ShortBitVector(bitString)`. -/
def appendString (v : ShortBitVector) : List Char → Result ShortBitVector
  | [] => .ok v
  | c :: bitString =>
    if c = '1' then do
      let v ← v.appendBit true
      v.appendString bitString
    else if c = '0' then do
      let v ← v.appendBit false
      v.appendString bitString
    else .error (.cRuntimeError "str must represent a binary number")

/-- `ShortBitVector(bitString)`. -/
def ofString (bitString : List Char) : Result ShortBitVector := appendString {} bitString

def toString (v : ShortBitVector) : Result (List Char) := BitAccess.toString v.size v.getBit

def toDecimal (v : ShortBitVector) : Uint32 := v.bits

def reverseToDecimal (v : ShortBitVector) : Result Uint32 :=
  BitAccess.reverseToDecimal v.size v.getBit

/-- The number of bits that are set, in 32 bits. -/
def popCount (x : Uint32) : Uint32 :=
  let x := x - ((x >>> 1) &&& 0x55555555#32)
  let x := (x &&& 0x33333333#32) + ((x >>> 2) &&& 0x33333333#32)
  (((x + (x >>> 4)) &&& 0x0F0F0F0F#32) * 0x01010101#32) >>> 24

def computeHammingDistance (v u : ShortBitVector) : Result Uint32 :=
  if v.size ≠ u.size then
    .error (.cRuntimeError
      "You can't compute Hamming distance between two vectors with different sizes")
  else .ok (popCount (v.bits ^^^ u.toDecimal))

/-- `operator==`. -/
def eq (v rhs : ShortBitVector) : Bool := rhs.bits == v.bits

/-- `operator!=`. -/
def ne (v rhs : ShortBitVector) : Bool := !rhs.eq v

variable {v : ShortBitVector} {pos i : ℕ} {value : Bool}

/-- A bit of the word. -/
def bit (v : ShortBitVector) (pos : ℕ) : Bool := v.bits.getLsbD pos

theorem and_one_shiftLeft_ne_zero {x : Uint32} (hpos : pos < 32) :
    decide (x &&& 1#32 <<< pos ≠ 0) = x.getLsbD pos := by
  rw [Bool.eq_iff_iff, decide_eq_true_eq]
  constructor
  · intro hne
    by_contra hbit
    refine hne (BitVec.eq_of_getLsbD_eq fun j hj => ?_)
    rw [BitVec.getLsbD_and, getLsbD_one_shiftLeft hj]
    by_cases hjpos : j = pos
    · rw [hjpos, Bool.eq_false_iff.mpr hbit]
      simp
    · simp [hjpos]
  · intro hbit hzero
    have hand : (x &&& 1#32 <<< pos).getLsbD pos = true := by
      rw [BitVec.getLsbD_and, getLsbD_one_shiftLeft hpos, hbit]
      simp
    rw [hzero] at hand
    simp at hand

theorem getBit_of_lt (h : pos < v.size) (hpos : pos < 32) : v.getBit pos = .ok (v.bit pos) := by
  rw [getBit, if_neg (Nat.not_le.mpr h), and_one_shiftLeft_ne_zero hpos, bit]

theorem setBit_of_lt (hpos : pos < 32) : ∃ u, v.setBit pos value = .ok u ∧
    u.size = max v.size (pos + 1) ∧ ∀ i < 32, u.bit i = if i = pos then value else v.bit i := by
  refine ⟨_, if_neg (Nat.not_le.mpr hpos), ?_, fun i hi => ?_⟩
  · change (if pos + 1 > v.size then pos + 1 else v.size) = _
    split_ifs <;> omega
  · change (if value then v.bits ||| 1#32 <<< pos else v.bits &&& ~~~(1#32 <<< pos)).getLsbD i = _
    cases value with
    | true =>
      rw [if_pos rfl, BitVec.getLsbD_or, getLsbD_one_shiftLeft hi, bit]
      split_ifs with hipos <;> simp [hipos]
    | false =>
      rw [if_neg (by decide), BitVec.getLsbD_and, BitVec.getLsbD_not, getLsbD_one_shiftLeft hi, bit]
      split_ifs with hipos <;> simp [hipos, hi]

theorem toggleBit_of_lt (h : pos < v.size) : ∃ u, v.toggleBit pos = .ok u ∧ u.size = v.size ∧
    ∀ i < 32, u.bit i = if i = pos then !v.bit i else v.bit i := by
  refine ⟨_, if_neg (Nat.not_le.mpr h), rfl, fun i hi => ?_⟩
  change (v.bits ^^^ 1#32 <<< pos).getLsbD i = _
  rw [BitVec.getLsbD_xor, getLsbD_one_shiftLeft hi, bit]
  split_ifs with hipos <;> simp [hipos]

theorem toggleBit_of_le (h : v.size ≤ pos) : v.toggleBit pos = .error outOfRange := if_pos h

end ShortBitVector

end Inet
