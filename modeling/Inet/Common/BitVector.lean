import Inet.Common.Basic

/-!
# Bit vectors

A `BitVector` keeps its bits in bytes, the first bit of a byte being the least significant one.
Bytes are added when a bit is set that none of them has. The bits behind the last one are zero, so
that setting a bit far behind it fills the gap with zeros (`bit_setBit`).

Sizes and positions are natural numbers. The functions that only look at a vector through
`getSize` and `getBit` have the loops of `BitAccess`, with the other class of bit vectors.
-/

namespace Inet

open List

/-- `throw cRuntimeError("Out of range with bit position %d", pos)`. -/
def outOfRange : Error := .cRuntimeError "Out of range with bit position %d"

namespace BitAccess

/-- `toString()` of a vector with the given size and bits. -/
def toString (size : ℕ) (getBit : ℕ → Result Bool) : Result (List Char) :=
  (List.range size).mapM fun i => do
    let bit ← getBit i
    .ok (if bit then '1' else '0')

/-- The loop over the bits that adds up powers of two, in `unsigned int`. -/
def toDecimal (positions : List ℕ) (getBit : ℕ → Result Bool) : Result Uint32 := do
  let (dec, _) ← positions.foldlM (fun (dec, powerOfTwo) i => do
    let bit ← getBit i
    .ok (if bit then dec + powerOfTwo else dec, powerOfTwo * 2#32)) (0#32, 1#32)
  .ok dec

/-- `reverseToDecimal()`: the last bit is the least significant one. -/
def reverseToDecimal (size : ℕ) (getBit : ℕ → Result Bool) : Result Uint32 :=
  toDecimal (List.range size).reverse getBit

end BitAccess

/-- The bit at a position of the bytes, zero behind the last byte. -/
def bitAt (bytes : List (BitVec 8)) (pos : ℕ) : Bool :=
  (bytes.getD (pos / 8) 0#8).getLsbD (pos % 8)

structure BitVector where
  bytes : List (BitVec 8) := [0#8]
  size : ℕ := 0
  size_le : size ≤ 8 * bytes.length := by decide
  bitAt_eq_false : ∀ pos, size ≤ pos → bitAt bytes pos = false

section

variable {bytes : List (BitVec 8)} {pos i : ℕ} {value : Bool}

/-- Bytes are added until there is one for the position. -/
def grow (bytes : List (BitVec 8)) (pos : ℕ) : List (BitVec 8) :=
  bytes ++ List.replicate (pos / 8 + 1 - bytes.length) 0#8

/-- A bit of a byte is set or cleared. -/
def setBitOf (field : BitVec 8) (i : ℕ) (value : Bool) : BitVec 8 :=
  if value then field ||| 1#8 <<< i else field &&& ~~~(1#8 <<< i)

theorem bitAt_grow : bitAt (grow bytes pos) i = bitAt bytes i := by
  rw [bitAt, bitAt, grow]
  congr 1
  rw [getD_eq_getElem?_getD, getD_eq_getElem?_getD, getElem?_append]
  split_ifs with hlt
  · rfl
  · rw [getElem?_eq_none (Nat.not_lt.mp hlt), getElem?_replicate]
    split_ifs <;> rfl

theorem length_grow : (grow bytes pos).length = max bytes.length (pos / 8 + 1) := by
  rw [grow, length_append, length_replicate]
  omega

theorem getLsbD_setBitOf {field : BitVec 8} {j : ℕ} (hj : j < 8) :
    (setBitOf field i value).getLsbD j = if j = i then value else field.getLsbD j := by
  rw [setBitOf]
  cases value with
  | true =>
    rw [if_pos rfl, BitVec.getLsbD_or, getLsbD_one_shiftLeft hj]
    split_ifs with hji <;> simp [hji]
  | false =>
    rw [if_neg (by decide), BitVec.getLsbD_and, BitVec.getLsbD_not, getLsbD_one_shiftLeft hj]
    split_ifs with hji <;> simp [hji, hj]

theorem bitAt_modify {f : BitVec 8 → BitVec 8} (h : pos / 8 < bytes.length) :
    bitAt (bytes.modify (pos / 8) f) i =
      if i / 8 = pos / 8 then (f (bytes.getD (i / 8) 0#8)).getLsbD (i % 8) else bitAt bytes i := by
  rw [bitAt, bitAt, getD_eq_getElem?_getD, getD_eq_getElem?_getD, getElem?_modify]
  by_cases hbyte : i / 8 = pos / 8
  · rw [if_pos hbyte, hbyte, getElem?_eq_getElem h]
    simp
  · rw [if_neg hbyte]
    simp [Ne.symm hbyte]

theorem bitAt_setBit (h : pos / 8 < bytes.length) :
    bitAt (bytes.modify (pos / 8) fun field => setBitOf field (pos % 8) value) i =
      if i = pos then value else bitAt bytes i := by
  rw [bitAt_modify h, getLsbD_setBitOf (Nat.mod_lt i (by decide)), bitAt]
  split_ifs with hbyte hmod heq heq heq
  · rfl
  · exact absurd (by omega) heq
  · exact absurd (heq ▸ rfl) hmod
  · rfl
  · exact absurd (heq ▸ rfl) hbyte
  · rfl

theorem bitAt_toggleBit (h : pos / 8 < bytes.length) :
    bitAt (bytes.modify (pos / 8) fun field => field ^^^ 1#8 <<< (pos % 8)) i =
      if i = pos then !bitAt bytes i else bitAt bytes i := by
  rw [bitAt_modify h, BitVec.getLsbD_xor, getLsbD_one_shiftLeft (Nat.mod_lt i (by decide)), bitAt]
  by_cases heq : i = pos
  · simp [heq]
  · rw [if_neg heq]
    by_cases hbyte : i / 8 = pos / 8
    · have hmod : i % 8 ≠ pos % 8 := by omega
      rw [if_pos hbyte, decide_eq_false hmod, Bool.xor_false]
    · rw [if_neg hbyte]

end

namespace BitVector

/-- A bit of the vector, zero behind the last one. -/
def bit (v : BitVector) (pos : ℕ) : Bool := bitAt v.bytes pos

/-- The vector without bits and without bytes. -/
def empty : BitVector := ⟨[], 0, by decide, fun pos _ => by simp [bitAt]⟩

/-- `BitVector()`. -/
def new : BitVector := ⟨[0#8], 0, by decide, fun pos _ => by
  rw [bitAt]
  cases h : pos / 8 <;> simp⟩

def setBit (v : BitVector) (pos : ℕ) (value : Bool) : BitVector where
  bytes := (grow v.bytes pos).modify (pos / 8) fun field => setBitOf field (pos % 8) value
  size := if pos + 1 > v.size then pos + 1 else v.size
  size_le := by
    have hle := v.size_le
    rw [List.length_modify, length_grow]
    split_ifs <;> omega
  bitAt_eq_false i hi := by
    have hbyte : pos / 8 < (grow v.bytes pos).length := by
      rw [length_grow]
      omega
    rw [bitAt_setBit hbyte, bitAt_grow]
    split_ifs at hi ⊢
    all_goals first | omega | exact v.bitAt_eq_false i (by omega)

def appendBit (v : BitVector) (value : Bool) : BitVector := v.setBit v.size value

/-- `appendBit(value, n)`. -/
def appendBits (v : BitVector) (value : Bool) : ℕ → BitVector
  | 0 => v
  | n + 1 => (v.appendBit value).appendBits value n

def getSize (v : BitVector) : ℕ := v.size

def getBit (v : BitVector) (pos : ℕ) : Result Bool :=
  if pos ≥ v.size then .error outOfRange else .ok (v.bit pos)

def toggleBit (v : BitVector) (pos : ℕ) : Result BitVector :=
  if h : pos ≥ v.size then .error outOfRange
  else .ok
    { bytes := v.bytes.modify (pos / 8) fun field => field ^^^ 1#8 <<< (pos % 8)
      size := v.size
      size_le := by
        rw [List.length_modify]
        exact v.size_le
      bitAt_eq_false := fun i hi => by
        have hle := v.size_le
        rw [bitAt_toggleBit (by omega), if_neg (by omega)]
        exact v.bitAt_eq_false i hi }

/-- `stringToBitVector(str)`. -/
def stringToBitVector (v : BitVector) : List Char → Result BitVector
  | [] => .ok v
  | c :: str =>
    if c = '1' then (v.appendBit true).stringToBitVector str
    else if c = '0' then (v.appendBit false).stringToBitVector str
    else .error (.cRuntimeError "str must represent a binary number")

/-- `BitVector(bits)`. -/
def ofString (bits : List Char) : Result BitVector := empty.stringToBitVector bits

def toString (v : BitVector) : Result (List Char) := BitAccess.toString v.size v.getBit

def toDecimal (v : BitVector) : Result Uint32 :=
  BitAccess.toDecimal (List.range v.size) v.getBit

def reverseToDecimal (v : BitVector) : Result Uint32 :=
  BitAccess.reverseToDecimal v.size v.getBit

def computeHammingDistance (v u : BitVector) : Result ℕ :=
  if v.size ≠ u.size then
    .error (.cRuntimeError
      "You can't compute Hamming distance between two vectors with different sizes")
  else
    (List.range v.size).foldlM (fun hammingDistance i => do
      let ubit ← u.getBit i
      let bit ← v.getBit i
      .ok (if ubit ≠ bit then hammingDistance + 1 else hammingDistance)) 0

/-- The loop of `operator==`. -/
def eqLoop (v rhs : BitVector) : List ℕ → Result Bool
  | [] => .ok true
  | i :: positions => do
      let bit ← v.getBit i
      let rhsBit ← rhs.getBit i
      if bit ≠ rhsBit then .ok false else eqLoop v rhs positions

/-- `operator==`. -/
def eq (v rhs : BitVector) : Result Bool :=
  if rhs.size ≠ v.size then .ok false else eqLoop v rhs (List.range v.size)

/-- `operator!=`. -/
def ne (v rhs : BitVector) : Result Bool := do
  let equal ← rhs.eq v
  .ok !equal

variable {v u : BitVector} {pos i : ℕ} {value : Bool}

/-- The bits of the vector, the first one first. -/
def toBits (v : BitVector) : List Bool := (List.range v.size).map v.bit

theorem bit_of_le (h : v.size ≤ pos) : v.bit pos = false := v.bitAt_eq_false pos h

theorem getBit_of_lt (h : pos < v.size) : v.getBit pos = .ok (v.bit pos) :=
  if_neg (Nat.not_le.mpr h)

@[simp] theorem size_setBit : (v.setBit pos value).size = max v.size (pos + 1) := by
  change (if pos + 1 > v.size then pos + 1 else v.size) = _
  split_ifs <;> omega

theorem bit_setBit : (v.setBit pos value).bit i = if i = pos then value else v.bit i := by
  have hbyte : pos / 8 < (grow v.bytes pos).length := by
    rw [length_grow]
    omega
  exact (bitAt_setBit hbyte).trans (by rw [bitAt_grow]; rfl)

@[simp] theorem size_appendBit : (v.appendBit value).size = v.size + 1 := by
  rw [appendBit, size_setBit]
  omega

theorem bit_appendBit :
    (v.appendBit value).bit i = if i = v.size then value else v.bit i := bit_setBit

theorem toggleBit_eq_ok {u : BitVector} (h : v.toggleBit pos = .ok u) :
    pos < v.size ∧ u.size = v.size ∧ ∀ i, u.bit i = if i = pos then !v.bit i else v.bit i := by
  rw [toggleBit] at h
  split_ifs at h with hpos
  cases h
  have hle := v.size_le
  exact ⟨Nat.not_le.mp hpos, rfl, fun i => bitAt_toggleBit (by omega)⟩

theorem toggleBit_of_le (h : v.size ≤ pos) : v.toggleBit pos = .error outOfRange := dif_pos h

theorem toggleBit_of_lt (h : pos < v.size) : ∃ u, v.toggleBit pos = .ok u :=
  ⟨_, dif_neg (Nat.not_le.mpr h)⟩

@[simp] theorem length_toBits (v : BitVector) : v.toBits.length = v.size := by
  rw [toBits, length_map, length_range]

theorem getElem?_toBits (h : i < v.size) : v.toBits[i]? = some (v.bit i) := by
  rw [toBits, getElem?_map, getElem?_range h, Option.map_some]

theorem toBits_appendBit : (v.appendBit value).toBits = v.toBits ++ [value] := by
  rw [toBits, size_appendBit, range_succ, map_append, toBits, map_singleton,
    bit_appendBit, if_pos rfl]
  congr 1
  refine map_congr_left fun i hi => ?_
  rw [bit_appendBit, if_neg (Nat.ne_of_lt (mem_range.mp hi))]

theorem toBits_appendBits (n : ℕ) :
    (v.appendBits value n).toBits = v.toBits ++ List.replicate n value := by
  induction n generalizing v with
  | zero => exact (append_nil _).symm
  | succ n ih =>
    rw [appendBits, ih, toBits_appendBit, append_assoc, replicate_succ, singleton_append]

theorem getD_toBits (i : ℕ) : v.toBits.getD i false = v.bit i := by
  rw [getD_eq_getElem?_getD]
  by_cases hi : i < v.size
  · rw [getElem?_toBits hi, Option.getD_some]
  · have hle := Nat.not_lt.mp hi
    rw [getElem?_eq_none (length_toBits v ▸ hle), Option.getD_none, bit_of_le hle]

theorem toBits_eq_iff :
    v.toBits = u.toBits ↔ v.size = u.size ∧ ∀ i < v.size, v.bit i = u.bit i := by
  constructor
  · intro h
    have hsize : v.size = u.size := by rw [← length_toBits, h, length_toBits]
    refine ⟨hsize, fun i hi => Option.some.inj ?_⟩
    rw [← getElem?_toBits hi, h, getElem?_toBits (hsize ▸ hi)]
  · rintro ⟨hsize, hbits⟩
    rw [toBits, toBits, ← hsize]
    exact map_congr_left fun i hi => hbits i (mem_range.mp hi)

theorem eqLoop_eq {positions : List ℕ} (h : ∀ i ∈ positions, i < v.size ∧ i < u.size) :
    v.eqLoop u positions = .ok (positions.all fun i => v.bit i == u.bit i) := by
  induction positions with
  | nil => rfl
  | cons i positions ih =>
    obtain ⟨hi, hi'⟩ := h i mem_cons_self
    rw [eqLoop, getBit_of_lt hi, getBit_of_lt hi', all_cons]
    change (if v.bit i ≠ u.bit i then .ok false else v.eqLoop u positions) = _
    by_cases hbit : v.bit i = u.bit i
    · rw [if_neg (not_not.mpr hbit), ih fun j hj => h j (mem_cons_of_mem i hj), hbit,
        beq_self_eq_true, Bool.true_and]
    · rw [if_pos hbit, beq_eq_false_iff_ne.mpr hbit, Bool.false_and]

/-- Vectors are equal when they have the same bits. -/
theorem eq_eq : v.eq u = .ok (decide (v.toBits = u.toBits)) := by
  by_cases hsize : u.size = v.size
  · rw [eq, if_neg (not_not.mpr hsize), eqLoop_eq fun i hi => by
      rw [hsize, and_self]
      exact mem_range.mp hi]
    congr 1
    rw [Bool.eq_iff_iff, all_eq_true, decide_eq_true_eq, toBits_eq_iff]
    simp only [mem_range, beq_iff_eq, hsize, true_and]
  · rw [eq, if_pos hsize, decide_eq_false fun h => hsize (toBits_eq_iff.mp h).1.symm]

end BitVector

end Inet
