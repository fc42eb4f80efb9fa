import Inet.Common.ShortBitVector

/-!
# Puncturing of convolutional codes

A convolutional coder writes `codeRateParamaterN` streams of bits, one bit of each in turn.
`puncturing` leaves out the bits that the puncturing matrix has a zero for, which has a row for each
stream and is repeated along the streams. `depuncturing` puts zeros in their place; it finds the
length from the code rate.

Positions and lengths fit into an `int`, so that `codeRateParamaterN * j + i` does not wrap around.
-/

namespace Inet.Physicallayer

/-- `std::vector::at`. -/
def at? {α : Type} (xs : List α) (i : ℕ) : Result α :=
  match xs[i]? with
  | some x => .ok x
  | none => .error .outOfRange

/-- The conversion of an integer to `unsigned int`. -/
def toUnsigned (x : ℤ) : ℕ := (x % 2 ^ 32).toNat

structure ConvolutionalCoder where
  codeRateParamaterK : ℕ
  codeRateParamaterN : ℕ
  codeRatePuncturingK : ℕ
  codeRatePuncturingN : ℕ
  puncturingMatrix : List ShortBitVector
  /-- The constructor checks that the matrix has a row for each stream. -/
  length_puncturingMatrix : puncturingMatrix.length = codeRateParamaterN

namespace ConvolutionalCoder

variable (coder : ConvolutionalCoder)

/-- The inner loop of `getPuncturedIndices` for the `i`-th stream, from its `j`-th bit on; `idx`
is always `j`. -/
def punctureStream (puncturingMatrixSize length i : ℕ) : ℕ → ℕ → BitVector → Result BitVector
  | 0, _, _ => .error .outOfFuel
  | fuel + 1, j, isPunctured =>
    let pos := coder.codeRateParamaterN * j + i
    if pos < length then do
      let place := j % puncturingMatrixSize
      let row ← at? coder.puncturingMatrix i
      let bit ← row.getBit place
      let stolen := !bit
      punctureStream puncturingMatrixSize length i fuel (j + 1) (isPunctured.setBit pos stolen)
    else .ok isPunctured

def getPuncturedIndices (length : ℕ) : Result BitVector := do
  let isPunctured := BitVector.new.appendBits false length
  let row ← at? coder.puncturingMatrix 0
  (List.range coder.codeRateParamaterN).foldlM (fun isPunctured i =>
    coder.punctureStream row.size length i (length + 1) 0 isPunctured) isPunctured

def puncturing (informationBits : BitVector) : Result BitVector := do
  let isPunctured ← coder.getPuncturedIndices informationBits.size
  (List.range informationBits.size).foldlM (fun puncturedInformationBits i => do
    let punctured ← isPunctured.getBit i
    if punctured then .ok puncturedInformationBits
    else do
      let bit ← informationBits.getBit i
      .ok (puncturedInformationBits.appendBit bit)) BitVector.new

/-- The loop of `depuncturing`: the depunctured bits and `idx`, which counts the bits read. -/
def depuncturingLoop (decodedBits isPunctured : BitVector) (depuncturedLength : ℕ) :
    Result (BitVector × ℕ) :=
  (List.range depuncturedLength).foldlM (fun (depuncturedDecodedBits, idx) i => do
    let punctured ← isPunctured.getBit i
    if punctured then .ok (depuncturedDecodedBits.appendBit false, idx)
    else do
      let bit ← decodedBits.getBit idx
      .ok (depuncturedDecodedBits.appendBit bit, idx + 1)) (BitVector.new, 0)

def depuncturedLength (decodedBits : BitVector) : ℤ :=
  let encodedLength :=
    toInt (decodedBits.size / coder.codeRatePuncturingN * coder.codeRatePuncturingK : ℕ)
  toInt (toUnsigned encodedLength / coder.codeRateParamaterK * coder.codeRateParamaterN : ℕ)

/-- The depunctured bits, and the indices that are punctured. -/
def depuncturing (decodedBits : BitVector) : Result (BitVector × BitVector) := do
  assert (decide (decodedBits.size % coder.codeRatePuncturingN = 0))
    "decodedBits.getSize() % codeRatePuncturingN == 0"
  let length := coder.depuncturedLength decodedBits
  let isPunctured ← coder.getPuncturedIndices (toUnsigned length)
  let (depuncturedDecodedBits, _) ← depuncturingLoop decodedBits isPunctured length.toNat
  .ok (depuncturedDecodedBits, isPunctured)

end ConvolutionalCoder

end Inet.Physicallayer
