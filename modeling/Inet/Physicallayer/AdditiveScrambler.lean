import Inet.Common.ShortBitVector
import Inet.Library.CountingLoop

/-!
# The additive scrambler

`AdditiveScrambler` puts the bits of a periodic sequence on those of a message. The sequence comes
out of a shift register with linear feedback: each of its bits is the sum of earlier ones, and of
bits of the seed at its beginning (`register`). Scrambling twice gives the message back
(`scramble_spec`).
-/

namespace Inet

def ShortBitVector.leftShift (v : ShortBitVector) (n : ℕ) : ShortBitVector :=
  { v with bits := v.bits <<< n }

namespace Physicallayer

structure AdditiveScrambler where
  scramblingSequence : BitVector

namespace AdditiveScrambler

def addRegister (generatorPolynomial shiftRegisters : ShortBitVector) (registerSum : Bool)
    (j : ℕ) : Result Bool := do
  if ← generatorPolynomial.getBit j then
    let bit ← shiftRegisters.getBit j
    return bit ^^ registerSum
  else return registerSum

/-- The inner loop of `generateScramblingSequence`. -/
def registerSum (generatorPolynomial shiftRegisters : ShortBitVector) : Result Bool :=
  (List.range generatorPolynomial.size).foldlM (addRegister generatorPolynomial shiftRegisters)
    false

/-- The body of the loop of `generateScramblingSequence`. -/
def shift (generatorPolynomial : ShortBitVector) (s : ShortBitVector × BitVector) :
    Result (ShortBitVector × BitVector) := do
  let registerSum ← registerSum generatorPolynomial s.1
  let shiftRegisters ← (s.1.leftShift 1).setBit 0 registerSum
  return (shiftRegisters, s.2.appendBit registerSum)

def generateScramblingSequence (generatorPolynomial seed : ShortBitVector) : Result BitVector := do
  let power ← checkInt (2 ^ seed.size)
  let s ← (List.range (power - 1).toNat).foldlM (fun s _ => shift generatorPolynomial s)
    (seed, BitVector.new)
  return s.2

/-- The constructor. -/
def new (generatorPolynomial seed : ShortBitVector) : Result AdditiveScrambler := do
  return ⟨← generateScramblingSequence generatorPolynomial seed⟩

/-- With an empty sequence the first bit divides by zero, which is a position out of range here. -/
def scramble (s : AdditiveScrambler) (bits : BitVector) : Result BitVector :=
  (List.range bits.size).foldlM (fun scrambledBits i => do
    let bit ← bits.getBit i
    let sequenceBit ← s.scramblingSequence.getBit (i % s.scramblingSequence.size)
    return scrambledBits.appendBit (bit ^^ sequenceBit)) .new

def descramble (s : AdditiveScrambler) (bits : BitVector) : Result BitVector := s.scramble bits

/-! ## The sequence -/

/-- What the `j`-th register holds before the `i`-th round, when `out` has been put out. -/
def register (seed : ShortBitVector) (out : ℕ → Bool) (i j : ℕ) : Bool :=
  if j < i then out (i - 1 - j) else seed.bit (j - i)

/-- The sum of the registers that the generator polynomial names. -/
def feedback (generatorPolynomial : ShortBitVector) (register : ℕ → Bool) : Bool :=
  ((List.range generatorPolynomial.size).filter generatorPolynomial.bit).foldl
    (fun sum j => register j ^^ sum) false

/-- The generator polynomial fits into the seed, and the length of the sequence into an `int`. -/
structure Fits (generatorPolynomial seed : ShortBitVector) : Prop where
  size_le : generatorPolynomial.size ≤ seed.size
  seed_pos : 0 < seed.size
  seed_le : seed.size ≤ 30

/-- The registers after the rounds that have put out `q`, which is what the feedback says. -/
structure Shifted (generatorPolynomial seed : ShortBitVector) (L : ℕ)
    (s : ShortBitVector × BitVector) : Prop where
  size_out : s.2.size = L
  size_registers : s.1.size = seed.size
  registers : ∀ j < seed.size, s.1.bit j = register seed s.2.bit L j
  out : ∀ i < L, s.2.bit i = feedback generatorPolynomial (register seed s.2.bit i)

section

variable {poly seed : ShortBitVector} {s : AdditiveScrambler}
  {out out' r r' : ℕ → Bool} {i j L : ℕ}

theorem bit_leftShift (v : ShortBitVector) {j : ℕ} (hj : j + 1 < 32) :
    (v.leftShift 1).bit (j + 1) = v.bit j := by
  rw [ShortBitVector.bit, ShortBitVector.bit, ShortBitVector.leftShift, BitVec.getLsbD_shiftLeft]
  simp [hj]

theorem register_congr (h : ∀ k < i, out k = out' k) :
    register seed out i j = register seed out' i j := by
  rw [register, register]
  split_ifs with hj
  · exact h _ (by omega)
  · rfl

theorem register_succ : register seed out (i + 1) (j + 1) = register seed out i j := by
  rw [register, register]
  simp only [Nat.add_lt_add_iff_right, Nat.add_sub_add_right, Nat.add_sub_cancel]
  split_ifs with hj
  · congr 1
    omega
  · rfl

theorem feedback_congr (h : ∀ j < poly.size, r j = r' j) : feedback poly r = feedback poly r' := by
  refine List.foldl_ext _ _ _ fun sum j hj => ?_
  rw [h j (List.mem_range.mp (List.mem_filter.mp hj).1)]

theorem registerSum_eq (hfits : Fits poly seed) {shiftRegisters : ShortBitVector}
    (hsize : shiftRegisters.size = seed.size) :
    registerSum poly shiftRegisters = .ok (feedback poly shiftRegisters.bit) := by
  obtain ⟨hle, -, hmax⟩ := hfits
  refine (CountingLoop.range_spec (fun i (sum : Bool) =>
    sum = ((List.range i).filter poly.bit).foldl
      (fun sum j => shiftRegisters.bit j ^^ sum) false) rfl fun i hi sum hsum => ?_).elim
    fun sum hsum => hsum.1.trans (congrArg Except.ok hsum.2)
  refine ⟨if poly.bit i then shiftRegisters.bit i ^^ sum else sum, ?_, ?_⟩
  · rw [addRegister, ShortBitVector.getBit_of_lt hi (by omega), ok_bind,
      ShortBitVector.getBit_of_lt (by omega) (by omega)]
    cases poly.bit i <;> rfl
  · rw [List.range_succ, List.filter_append, List.foldl_append, ← hsum]
    cases hbit : poly.bit i <;> simp [hbit]

/-- A round shifts the registers and puts out their sum. -/
theorem Shifted.shift {t : ShortBitVector × BitVector} (hfits : Fits poly seed)
    (h : Shifted poly seed L t) :
    ∃ u, shift poly t = .ok u ∧ Shifted poly seed (L + 1) u := by
  obtain ⟨hle, hpos, hmax⟩ := id hfits
  have hloop := registerSum_eq hfits h.size_registers
  generalize hsum : feedback poly t.1.bit = sum at hloop
  obtain ⟨v, hv, hsize, hbits⟩ := @ShortBitVector.setBit_of_lt (t.1.leftShift 1) 0 sum
    (by decide)
  have hkept : ∀ k < L, (t.2.appendBit sum).bit k = t.2.bit k := by
    intro k hk
    rw [BitVector.bit_appendBit, if_neg (by rw [h.size_out]; omega)]
  have hnew : (t.2.appendBit sum).bit L = sum := by
    rw [BitVector.bit_appendBit, if_pos h.size_out.symm]
  refine ⟨(v, t.2.appendBit sum), ?_, ?_, ?_, fun j hj => ?_, fun i hi => ?_⟩
  · rw [AdditiveScrambler.shift, hloop, ok_bind, hv]
    rfl
  · rw [BitVector.size_appendBit, h.size_out]
  · have hshift : (t.1.leftShift 1).size = t.1.size := rfl
    rw [hsize, hshift, h.size_registers]
    omega
  · rw [hbits j (by omega)]
    cases j with
    | zero =>
      rw [if_pos rfl, register, if_pos (Nat.succ_pos L)]
      exact hnew.symm
    | succ j =>
      rw [if_neg (Nat.succ_ne_zero j), bit_leftShift _ (by omega), register_succ,
        h.registers j (by omega)]
      exact register_congr fun k hk => (hkept k hk).symm
  · obtain hi | rfl := Nat.lt_succ_iff_lt_or_eq.mp hi
    · rw [hkept i hi, h.out i hi]
      exact feedback_congr fun j _ => register_congr fun k hk => (hkept k (hk.trans hi)).symm
    · refine hnew.trans (hsum.symm.trans (feedback_congr fun j hj => ?_))
      refine (h.registers j (by omega)).trans ?_
      exact register_congr fun k hk => (hkept k hk).symm

theorem scramble_eq (hpos : 0 < s.scramblingSequence.size) (bits : BitVector) :
    ∃ u, s.scramble bits = .ok u ∧ u.size = bits.size ∧ ∀ i < bits.size,
      u.bit i = (bits.bit i ^^ s.scramblingSequence.bit (i % s.scramblingSequence.size)) := by
  refine CountingLoop.range_spec (fun n (u : BitVector) => u.size = n ∧ ∀ i < n,
    u.bit i = (bits.bit i ^^ s.scramblingSequence.bit (i % s.scramblingSequence.size)))
    ⟨rfl, fun i hi => absurd hi (Nat.not_lt_zero i)⟩ fun n hn u hu => ?_
  obtain ⟨hsize, hbits⟩ := hu
  refine ⟨u.appendBit (bits.bit n ^^ s.scramblingSequence.bit (n % s.scramblingSequence.size)),
    ?_, ?_, fun i hi => ?_⟩
  · rw [BitVector.getBit_of_lt hn, ok_bind, BitVector.getBit_of_lt (Nat.mod_lt n hpos)]
    rfl
  · rw [BitVector.size_appendBit, hsize]
  · rw [BitVector.bit_appendBit, hsize]
    split_ifs with hin
    · rw [hin]
    · exact hbits i (by omega)

end

/-- A scrambler is made with a sequence that satisfies the recurrence of its generator polynomial.
It adds the repeated sequence to any message, and the message is got back from that. -/
theorem scramble_spec {generatorPolynomial seed : ShortBitVector}
    (hfits : Fits generatorPolynomial seed) :
    ∃ s, new generatorPolynomial seed = .ok s ∧ s.scramblingSequence.size = 2 ^ seed.size - 1 ∧
      (∀ i < 2 ^ seed.size - 1, s.scramblingSequence.bit i =
        feedback generatorPolynomial (register seed s.scramblingSequence.bit i)) ∧
      ∀ bits, ∃ u v, s.scramble bits = .ok u ∧ u.size = bits.size ∧ (∀ i < bits.size, u.bit i =
          (bits.bit i ^^ s.scramblingSequence.bit (i % (2 ^ seed.size - 1)))) ∧
        s.descramble u = .ok v ∧ v.toBits = bits.toBits := by
  obtain ⟨hle, hpos, hmax⟩ := id hfits
  have hpower : (2 : ℤ) ^ seed.size ≤ 2 ^ 30 := pow_le_pow_right₀ (by decide) hmax
  have hlow : (0 : ℤ) ≤ 2 ^ seed.size := pow_nonneg (by decide) _
  have hlength : ((2 : ℤ) ^ seed.size - 1).toNat = 2 ^ seed.size - 1 := by
    have hcast : ((2 ^ seed.size : ℕ) : ℤ) = 2 ^ seed.size := by push_cast; rfl
    omega
  obtain ⟨t, hloop, ht⟩ := CountingLoop.range_spec
    (f := fun s _ => shift generatorPolynomial s) (n := 2 ^ seed.size - 1)
    (s := (seed, BitVector.new)) (Shifted generatorPolynomial seed)
    ⟨rfl, rfl, fun j _ => rfl, fun i hi => absurd hi (Nat.not_lt_zero i)⟩
    fun i _ t ht => ht.shift hfits
  refine ⟨⟨t.2⟩, ?_, ht.size_out, ht.out, fun bits => ?_⟩
  · rw [new, generateScramblingSequence, checkInt_of ⟨by omega, by omega⟩, ok_bind, hlength, hloop]
    rfl
  · have hnonempty : 0 < t.2.size := by
      rw [ht.size_out]
      have := Nat.one_lt_two_pow hpos.ne'
      omega
    obtain ⟨u, hu, husize, hubits⟩ := scramble_eq (s := ⟨t.2⟩) hnonempty bits
    obtain ⟨v, hv, hvsize, hvbits⟩ := scramble_eq (s := ⟨t.2⟩) hnonempty u
    refine ⟨u, v, hu, husize, ?_, hv, BitVector.toBits_eq_iff.mpr ⟨hvsize.trans husize, ?_⟩⟩
    · intro i hi
      rw [hubits i hi, ht.size_out]
    · intro i hi
      rw [hvsize, husize] at hi
      rw [hvbits i (by omega), hubits i hi, Bool.xor_assoc, Bool.xor_self, Bool.xor_false]

theorem scramble_spec_seven_bits :
    ∃ s, new ⟨0x48, 7⟩ ⟨0x7f, 7⟩ = .ok s ∧ s.scramblingSequence.size = 127 := by
  obtain ⟨s, hnew, hsize, -⟩ :=
    @scramble_spec ⟨0x48, 7⟩ ⟨0x7f, 7⟩ ⟨by decide, by decide, by decide⟩
  exact ⟨s, hnew, hsize⟩

end AdditiveScrambler

end Physicallayer

end Inet
