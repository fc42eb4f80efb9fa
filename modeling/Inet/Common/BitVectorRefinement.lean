import Inet.Common.HammingDistance
import Inet.Library.CountingLoop
import Inet.Library.Run

/-!
# Short bit vectors refine bit vectors

`Represents` relates a `BitVector` to the `ShortBitVector` with the same bits. Building the same
vector in both ways, from a string and by calls that stay below position 32, keeps the relation
(`represented_build`), and what is seen of the two is the same (`Represents.observations`).

Only the comparison differs: short vectors are compared by their words, in which zeros at the end
do not count (`observedAlike_iff`).
-/

namespace Inet

open List

/-- The calls that change a vector. -/
inductive BitVectorCall where
  | appendBit (value : Bool)
  | setBit (pos : ℕ) (value : Bool)
  | toggleBit (pos : ℕ)

/-- The position that a call changes. -/
def BitVectorCall.position (size : ℕ) : BitVectorCall → ℕ
  | .appendBit _ => size
  | .setBit pos _ => pos
  | .toggleBit pos => pos

def BitVector.call (v : BitVector) : BitVectorCall → Result BitVector
  | .appendBit value => .ok (v.appendBit value)
  | .setBit pos value => .ok (v.setBit pos value)
  | .toggleBit pos => v.toggleBit pos

def ShortBitVector.call (v : ShortBitVector) : BitVectorCall → Result ShortBitVector
  | .appendBit value => v.appendBit value
  | .setBit pos value => v.setBit pos value
  | .toggleBit pos => v.toggleBit pos

namespace ShortBitVector

/-- A vector that is constructed from a string and then changed. -/
structure Construction where
  bitString : List Char
  calls : List BitVectorCall

namespace Construction

def build (c : Construction) : Result BitVector := do
  let v ← BitVector.ofString c.bitString
  Run.exec BitVector.call v c.calls

def buildShort (c : Construction) : Result ShortBitVector := do
  let v ← ShortBitVector.ofString c.bitString
  Run.exec ShortBitVector.call v c.calls

/-- All positions are below 32. -/
def Fits (c : Construction) : Prop :=
  c.bitString.length ≤ 32 ∧ ∀ v, BitVector.ofString c.bitString = .ok v →
    Run.Admissible BitVector.call (fun v call => call.position v.size < 32) v c.calls

end Construction

/-- The short vector has the bits of the other one. -/
structure Represents (b : BitVector) (s : ShortBitVector) : Prop where
  size : s.size = b.size
  size_le : b.size ≤ 32
  bit : ∀ i < 32, s.bit i = b.bit i

/-- Both have failed in the same way, or the one represents the other. -/
inductive Represented : Result BitVector → Result ShortBitVector → Prop where
  | error (e : Error) : Represented (.error e) (.error e)
  | ok {b : BitVector} {s : ShortBitVector} (h : Represents b s) : Represented (.ok b) (.ok s)

section

variable {b : BitVector} {s : ShortBitVector} {pos : ℕ} {value : Bool} {c : Construction}

theorem represents_empty : Represents BitVector.empty {} where
  size := rfl
  size_le := Nat.zero_le _
  bit i _ := by
    rw [BitVector.bit_of_le (Nat.zero_le i), ShortBitVector.bit]
    exact BitVec.getLsbD_zero

theorem Represents.setBit (h : Represents b s) (hpos : pos < 32) :
    Represented (.ok (b.setBit pos value)) (s.setBit pos value) := by
  obtain ⟨s', hset, hsize, hbits⟩ := @ShortBitVector.setBit_of_lt s pos value hpos
  rw [hset]
  refine .ok ⟨?_, ?_, fun i hi => ?_⟩
  · rw [hsize, h.size, BitVector.size_setBit]
  · rw [BitVector.size_setBit]
    exact Nat.max_le.mpr ⟨h.size_le, hpos⟩
  · rw [hbits i hi, BitVector.bit_setBit, h.bit i hi]

theorem Represents.toggleBit (h : Represents b s) :
    Represented (b.toggleBit pos) (s.toggleBit pos) := by
  by_cases hpos : pos < b.size
  · obtain ⟨s', hs, hsize, hbits⟩ := ShortBitVector.toggleBit_of_lt (v := s) (h.size ▸ hpos)
    obtain ⟨b', hb⟩ := BitVector.toggleBit_of_lt hpos
    obtain ⟨-, hsize', hbits'⟩ := BitVector.toggleBit_eq_ok hb
    rw [hs, hb]
    refine .ok ⟨?_, hsize' ▸ h.size_le, fun i hi => ?_⟩
    · rw [hsize, h.size, hsize']
    · rw [hbits i hi, hbits' i, h.bit i hi]
  · have hle := Nat.not_lt.mp hpos
    rw [BitVector.toggleBit_of_le hle, ShortBitVector.toggleBit_of_le (h.size ▸ hle)]
    exact .error _

theorem Represents.call (h : Represents b s) {call : BitVectorCall}
    (hpos : call.position b.size < 32) : Represented (b.call call) (s.call call) := by
  cases call with
  | appendBit value =>
    change Represented (.ok (b.setBit b.size value)) (s.setBit s.size value)
    rw [h.size]
    exact h.setBit hpos
  | setBit pos value => exact h.setBit hpos
  | toggleBit pos => exact h.toggleBit

theorem Represented.bind {x : Result BitVector} {y : Result ShortBitVector}
    {f : BitVector → Result BitVector} {g : ShortBitVector → Result ShortBitVector}
    (h : Represented x y)
    (hbind : ∀ b s, x = .ok b → Represents b s → Represented (f b) (g s)) :
    Represented (x >>= f) (y >>= g) := by
  cases h with
  | error e => exact .error e
  | ok h => exact hbind _ _ rfl h

theorem Represents.exec (h : Represents b s) {calls : List BitVectorCall}
    (hfits : Run.Admissible BitVector.call (fun v call => call.position v.size < 32) b calls) :
    Represented (Run.exec BitVector.call b calls) (Run.exec ShortBitVector.call s calls) := by
  induction calls generalizing b s with
  | nil => exact .ok h
  | cons call calls ih =>
    rw [Run.exec, Run.exec, foldlM_cons, foldlM_cons]
    exact (h.call hfits.1).bind fun b' s' hb' h' => ih h' (hfits.2 b' hb')

theorem Represents.string (h : Represents b s) {bits : List Char}
    (hlength : b.size + bits.length ≤ 32) :
    Represented (b.stringToBitVector bits) (s.appendString bits) := by
  induction bits generalizing b s with
  | nil => exact .ok h
  | cons c bits ih =>
    rw [length_cons] at hlength
    have append : ∀ value, Represented ((b.appendBit value).stringToBitVector bits)
        ((s.appendBit value).bind fun s' => s'.appendString bits) := by
      intro value
      have happend : Represented (b.call (.appendBit value)) (s.call (.appendBit value)) :=
        h.call (show b.size < 32 by omega)
      refine happend.bind fun b' s' hb' h' => ih h' ?_
      cases hb'
      rw [BitVector.size_appendBit]
      omega
    rw [BitVector.stringToBitVector, ShortBitVector.appendString]
    split_ifs
    · exact append true
    · exact append false
    · exact .error _

theorem represented_build (hfits : c.Fits) : Represented c.build c.buildShort := by
  have hstring : Represented (BitVector.ofString c.bitString)
      (ShortBitVector.ofString c.bitString) :=
    represents_empty.string ((Nat.zero_add _).trans_le hfits.1)
  exact hstring.bind fun b _ hb h => h.exec (hfits.2 b hb)

theorem exists_represents (hfits : c.Fits) (hb : c.build = .ok b) :
    ∃ s, c.buildShort = .ok s ∧ Represents b s := by
  have hbuild := represented_build hfits
  rw [hb] at hbuild
  generalize c.buildShort = y at hbuild
  cases hbuild with
  | ok h => exact ⟨_, rfl, h⟩

theorem represents_of_build (hfits : c.Fits) (hb : c.build = .ok b) (hs : c.buildShort = .ok s) :
    Represents b s := by
  obtain ⟨s', hs', h⟩ := exists_represents hfits hb
  rwa [Except.ok.inj (hs.symm.trans hs')]

theorem build_error_iff (hfits : c.Fits) (e : Error) :
    c.build = .error e ↔ c.buildShort = .error e := by
  have hbuild := represented_build hfits
  generalize c.build = x, c.buildShort = y at hbuild ⊢
  cases hbuild with
  | error e' => rw [Except.error.injEq, Except.error.injEq]
  | ok h => exact ⟨nofun, nofun⟩

variable {b' : BitVector} {s' : ShortBitVector}

theorem Represents.getBit_eq (h : Represents b s) : s.getBit = b.getBit := by
  funext pos
  by_cases hpos : pos < b.size
  · have hlt := Nat.lt_of_lt_of_le hpos h.size_le
    rw [BitVector.getBit_of_lt hpos, ShortBitVector.getBit_of_lt (h.size ▸ hpos) hlt, h.bit pos hlt]
  · have hle := Nat.not_lt.mp hpos
    rw [BitVector.getBit, ShortBitVector.getBit, h.size, if_pos hle, if_pos hle]

theorem Represents.toString_eq (h : Represents b s) : s.toString = b.toString := by
  rw [ShortBitVector.toString, BitVector.toString, h.size, h.getBit_eq]

theorem Represents.reverseToDecimal_eq (h : Represents b s) :
    s.reverseToDecimal = b.reverseToDecimal := by
  rw [ShortBitVector.reverseToDecimal, BitVector.reverseToDecimal, h.size, h.getBit_eq]

/-- The word has no bits behind the last one of the vector. -/
theorem Represents.toNat_bits_lt (h : Represents b s) : s.bits.toNat < 2 ^ b.size := by
  refine Nat.lt_pow_two_of_testBit _ fun i hi => ?_
  rw [BitVec.testBit_toNat]
  by_cases hlt : i < 32
  · exact (h.bit i hlt).trans (BitVector.bit_of_le hi)
  · exact BitVec.getLsbD_of_ge _ _ (Nat.not_lt.mp hlt)

/-- A round of `toDecimal()` adds the next bit of the word. -/
theorem toNat_addBit {bits dec powerOfTwo : Uint32} {i : ℕ} (hi : i < 32)
    (hdec : dec.toNat = bits.toNat % 2 ^ i) (hpower : powerOfTwo.toNat = 2 ^ i) :
    (if bits.getLsbD i then dec + powerOfTwo else dec).toNat = bits.toNat % 2 ^ (i + 1) := by
  have hbit : bits.getLsbD i = decide (bits.toNat / 2 ^ i % 2 = 1) :=
    Nat.testBit_eq_decide_div_mod_eq
  have hnext : 2 ^ (i + 1) ≤ 2 ^ 32 := Nat.pow_le_pow_right (by decide) hi
  rw [Nat.mod_pow_succ, hbit]
  rcases Nat.mod_two_eq_zero_or_one (bits.toNat / 2 ^ i) with heven | hodd
  · rw [heven, if_neg (by decide), Nat.mul_zero, Nat.add_zero, hdec]
  · rw [hodd, if_pos (by decide), Nat.mul_one, BitVec.toNat_add, hdec, hpower,
      Nat.mod_eq_of_lt (by omega)]

theorem Represents.toDecimal_eq (h : Represents b s) : b.toDecimal = .ok s.toDecimal := by
  -- the first bits of the word, and the power of two of the next one
  obtain ⟨⟨dec, powerOfTwo⟩, hloop, hdec, -⟩ := CountingLoop.range_spec
    (f := fun (state : Uint32 × Uint32) i => do
      let bit ← b.getBit i
      .ok (if bit then state.1 + state.2 else state.1, state.2 * 2#32))
    (s := (0#32, 1#32)) (n := b.size)
    (fun i state => state.1.toNat = s.bits.toNat % 2 ^ i ∧ state.2.toNat = 2 ^ i % 2 ^ 32)
    ⟨by simp [Nat.mod_one], rfl⟩ fun i hi ⟨dec, powerOfTwo⟩ ⟨hdec, hpower⟩ => by
      have hlt : i < 32 := Nat.lt_of_lt_of_le hi h.size_le
      rw [Nat.mod_eq_of_lt (Nat.pow_lt_pow_right (by decide) hlt)] at hpower
      refine ⟨_, by rw [BitVector.getBit_of_lt hi]; rfl, ?_, ?_⟩
      · rw [← h.bit i hlt]
        exact toNat_addBit hlt hdec hpower
      · change (powerOfTwo * 2#32).toNat = _
        rw [BitVec.toNat_mul, hpower, Nat.pow_succ]
        rfl
  change BitAccess.toDecimal (List.range b.size) b.getBit = _
  rw [BitAccess.toDecimal]
  refine (congrArg (· >>= _) hloop).trans ?_
  exact congrArg Except.ok (BitVec.eq_of_toNat_eq
    (hdec.trans (Nat.mod_eq_of_lt h.toNat_bits_lt)))

theorem Represents.bit_eq_false (h : Represents b s) {i : ℕ} (hi : b.size ≤ i) (hlt : i < 32) :
    s.bits.getLsbD i = false :=
  (h.bit i hlt).trans (BitVector.bit_of_le hi)

/-- The words differ nowhere behind the last bits of the vectors. -/
theorem Represents.count_xor (h : Represents b s) (h' : Represents b' s')
    (hsize : b.size = b'.size) :
    Nat.count (fun i => (s.bits ^^^ s'.bits).getLsbD i = true) 32 =
      Nat.count (fun i => (s.bits ^^^ s'.bits).getLsbD i = true) b.size := by
  obtain ⟨k, hk⟩ := Nat.exists_eq_add_of_le h.size_le
  have hbehind : Nat.count (fun i => (s.bits ^^^ s'.bits).getLsbD (b.size + i) = true) k = 0 := by
    refine Nat.count_iff_forall_not.mpr fun i hi => ?_
    rw [BitVec.getLsbD_xor, h.bit_eq_false (by omega) (by omega),
      h'.bit_eq_false (by omega) (by omega)]
    decide
  refine (congrArg (Nat.count _) hk).trans ?_
  rw [Nat.count_add, hbehind, Nat.add_zero]

theorem Represents.computeHammingDistance_eq (h : Represents b s) (h' : Represents b' s') :
    (s.computeHammingDistance s').map BitVec.toNat = b.computeHammingDistance b' := by
  by_cases hsize : b.size = b'.size
  · obtain ⟨n, hloop, hn⟩ := CountingLoop.range_spec
      (f := fun hammingDistance i => do
        let ubit ← b'.getBit i
        let bit ← b.getBit i
        Except.ok (if ubit ≠ bit then hammingDistance + 1 else hammingDistance))
      (s := 0) (n := b.size)
      (fun i n => n = Nat.count (fun j => (s.bits ^^^ s'.bits).getLsbD j = true) i)
      (Nat.count_zero _).symm fun i hi n hn => by
        have hlt : i < 32 := Nat.lt_of_lt_of_le hi h.size_le
        have hxor : (s.bits ^^^ s'.bits).getLsbD i = (b.bit i ^^ b'.bit i) := by
          rw [BitVec.getLsbD_xor, ← h.bit i hlt, ← h'.bit i hlt]
          rfl
        refine ⟨_, by rw [BitVector.getBit_of_lt hi, BitVector.getBit_of_lt (hsize ▸ hi)]; rfl, ?_⟩
        rw [Nat.count_succ, hn, hxor]
        cases b.bit i <;> cases b'.bit i <;> rfl
    rw [ShortBitVector.computeHammingDistance, BitVector.computeHammingDistance, h.size, h'.size,
      if_neg (not_not.mpr hsize), if_neg (not_not.mpr hsize), hloop, hn, ← h.count_xor h' hsize]
    exact congrArg Except.ok (toNat_popCount _)
  · rw [ShortBitVector.computeHammingDistance, BitVector.computeHammingDistance, h.size, h'.size,
      if_pos hsize, if_pos hsize]
    rfl

/-- The one vector has the bits of the other one and then zeros, at least one. -/
def Padded (b b' : BitVector) : Prop :=
  ∃ k, 0 < k ∧ b'.toBits = b.toBits ++ List.replicate k false

theorem Represents.eq_iff (h : Represents b s) (h' : Represents b' s') :
    s.eq s' = true ↔ ∀ i < 32, b.bit i = b'.bit i := by
  rw [ShortBitVector.eq, beq_iff_eq]
  constructor
  · intro hbits i hi
    rw [← h.bit i hi, ← h'.bit i hi, ShortBitVector.bit, ShortBitVector.bit, hbits]
  · intro hbits
    refine BitVec.eq_of_getLsbD_eq fun i hi => ?_
    exact (h'.bit i hi).trans ((hbits i hi).symm.trans (h.bit i hi).symm)

theorem Padded.size_lt (h : Padded b b') : b.size < b'.size := by
  obtain ⟨k, hk, hbits⟩ := h
  have hlength := congrArg List.length hbits
  rw [length_append, length_replicate, BitVector.length_toBits, BitVector.length_toBits] at hlength
  omega

theorem padded_iff (hsize : b'.size ≤ 32) :
    Padded b b' ↔ b.size < b'.size ∧ ∀ i < 32, b.bit i = b'.bit i := by
  constructor
  · intro h
    refine ⟨h.size_lt, fun i _ => ?_⟩
    obtain ⟨k, -, hbits⟩ := h
    rw [← BitVector.getD_toBits, ← BitVector.getD_toBits, hbits]
    by_cases hi : i < b.toBits.length
    · rw [getD_append _ _ _ _ hi]
    · have hle := Nat.not_lt.mp hi
      rw [getD_append_right _ _ _ _ hle, getD_eq_default _ _ hle,
        getD_eq_getElem?_getD, getElem?_getD_replicate_default_eq]
  · rintro ⟨hlt, hbits⟩
    obtain ⟨k, hk⟩ := Nat.exists_eq_add_of_le hlt.le
    refine ⟨k, by omega, ?_⟩
    rw [BitVector.toBits, hk, range_add, map_append, map_map, BitVector.toBits]
    congr 1
    · refine map_congr_left fun i hi => (hbits i ?_).symm
      have := mem_range.mp hi
      omega
    · refine eq_replicate_iff.mpr ⟨by rw [length_map, length_range], ?_⟩
      intro value hvalue
      obtain ⟨i, hi, rfl⟩ := mem_map.mp hvalue
      have := mem_range.mp hi
      exact (hbits (b.size + i) (by omega)).symm.trans
        (BitVector.bit_of_le (Nat.le_add_right b.size i))

section

variable (h : Represents b s) (h' : Represents b' s')

include h h'

/-- The vectors with the same bits are the equal ones and those that only differ in zeros at the
end. -/
theorem Represents.bit_eq_iff :
    (∀ i < 32, b.bit i = b'.bit i) ↔ b.toBits = b'.toBits ∨ Padded b b' ∨ Padded b' b := by
  rw [padded_iff h.size_le, padded_iff h'.size_le, BitVector.toBits_eq_iff]
  constructor
  · intro hbits
    rcases Nat.lt_trichotomy b.size b'.size with hlt | heq | hlt
    · exact .inr (.inl ⟨hlt, hbits⟩)
    · exact .inl ⟨heq, fun i hi => hbits i (by have := h.size_le; omega)⟩
    · exact .inr (.inr ⟨hlt, fun i hi => (hbits i hi).symm⟩)
  · rintro (⟨hsize, hbits⟩ | ⟨-, hbits⟩ | ⟨-, hbits⟩) i hi
    · by_cases hlt : i < b.size
      · exact hbits i hlt
      · rw [BitVector.bit_of_le (by omega), BitVector.bit_of_le (by omega)]
    · exact hbits i hi
    · exact (hbits i hi).symm

theorem Represents.eq_agrees_iff :
    b.eq b' = .ok (s.eq s') ↔ ¬ Padded b b' ∧ ¬ Padded b' b := by
  have hpadded : Padded b b' ∨ Padded b' b → b.toBits ≠ b'.toBits := by
    rintro (hpad | hpad) heq
    · exact hpad.size_lt.ne (BitVector.toBits_eq_iff.mp heq).1
    · exact hpad.size_lt.ne' (BitVector.toBits_eq_iff.mp heq).1
  have hbits := (h.eq_iff h').trans (h.bit_eq_iff h')
  rw [BitVector.eq_eq, Except.ok.injEq, Bool.eq_iff_iff, decide_eq_true_eq, hbits, ← not_or]
  constructor
  · intro hiff hpad
    exact hpadded hpad (hiff.mpr (.inr hpad))
  · intro hpad
    exact ⟨.inl, fun heq => heq.resolve_right hpad⟩

theorem Represents.ne_agrees_iff :
    b.ne b' = .ok (s.ne s') ↔ ¬ Padded b b' ∧ ¬ Padded b' b := by
  rw [and_comm, ← h'.eq_agrees_iff h, BitVector.ne, BitVector.eq_eq]
  change Except.ok (!decide _) = Except.ok (!s'.eq s) ↔ _
  rw [Except.ok.injEq, Except.ok.injEq, Bool.not_inj_iff]

end

end

/-- What is seen of a vector alone is the same. -/
structure SameObservations (b : BitVector) (s : ShortBitVector) : Prop where
  getSize : s.getSize = b.getSize
  getBit : ∀ pos, s.getBit pos = b.getBit pos
  toString : s.toString = b.toString
  toDecimal : b.toDecimal = .ok s.toDecimal
  reverseToDecimal : s.reverseToDecimal = b.reverseToDecimal

/-- What is seen of two vectors together is the same. -/
structure SameComparisons (b b' : BitVector) (s s' : ShortBitVector) : Prop where
  computeHammingDistance :
    (s.computeHammingDistance s').map BitVec.toNat = b.computeHammingDistance b'
  eq : b.eq b' = .ok (s.eq s')
  ne : b.ne b' = .ok (s.ne s')

/-- A vector that is built in both ways is seen to be the same, also next to a second one. -/
structure ObservedAlike (p q : Construction) : Prop where
  error : ∀ e, p.build = .error e ↔ p.buildShort = .error e
  observations : ∀ b s, p.build = .ok b → p.buildShort = .ok s → SameObservations b s
  comparisons : ∀ b b' s s', p.build = .ok b → q.build = .ok b' → p.buildShort = .ok s →
    q.buildShort = .ok s' → SameComparisons b b' s s'

theorem Represents.observations {b : BitVector} {s : ShortBitVector} (h : Represents b s) :
    SameObservations b s where
  getSize := h.size
  getBit pos := congrFun h.getBit_eq pos
  toString := h.toString_eq
  toDecimal := h.toDecimal_eq
  reverseToDecimal := h.reverseToDecimal_eq

theorem Represents.comparisons_iff {b b' : BitVector} {s s' : ShortBitVector}
    (h : Represents b s) (h' : Represents b' s') :
    SameComparisons b b' s s' ↔ ¬ Padded b b' ∧ ¬ Padded b' b := by
  constructor
  · intro hsame
    exact (h.eq_agrees_iff h').mp hsame.eq
  · intro hpad
    exact ⟨h.computeHammingDistance_eq h', (h.eq_agrees_iff h').mpr hpad,
      (h.ne_agrees_iff h').mpr hpad⟩

/-- Short vectors are seen as the vectors they stand for, unless two of them are compared that
differ only in zeros at the end. -/
theorem observedAlike_iff {p q : Construction} (hp : p.Fits) (hq : q.Fits) : ObservedAlike p q ↔
      ∀ b b', p.build = .ok b → q.build = .ok b' → ¬ Padded b b' ∧ ¬ Padded b' b := by
  constructor
  · intro hsame b b' hb hb'
    obtain ⟨s, hs, h⟩ := exists_represents hp hb
    obtain ⟨s', hs', h'⟩ := exists_represents hq hb'
    exact (h.comparisons_iff h').mp (hsame.comparisons b b' s s' hb hb' hs hs')
  · intro hpadded
    refine ⟨build_error_iff hp, fun b s hb hs => ?_, fun b b' s s' hb hb' hs hs' => ?_⟩
    · exact (represents_of_build hp hb hs).observations
    · exact ((represents_of_build hp hb hs).comparisons_iff
        (represents_of_build hq hb' hs')).mpr (hpadded b b' hb hb')

/-- `10` with a bit that is set behind the end, and `1001`. -/
theorem observedAlike_setBit :
    ObservedAlike ⟨['1', '0'], [.setBit 3 true]⟩ ⟨['1', '0', '0', '1'], []⟩ := by
  have hset : Construction.Fits ⟨['1', '0'], [.setBit 3 true]⟩ :=
    ⟨by decide, fun _ _ => ⟨show 3 < 32 by decide, fun _ _ => trivial⟩⟩
  have hstring : Construction.Fits ⟨['1', '0', '0', '1'], []⟩ := ⟨by decide, fun _ _ => trivial⟩
  refine (observedAlike_iff hset hstring).mpr fun b b' hb hb' => ?_
  have hsize : b.size = b'.size := by
    obtain rfl := Except.ok.inj hb
    obtain rfl := Except.ok.inj hb'
    decide
  exact ⟨fun h => h.size_lt.ne hsize, fun h => h.size_lt.ne' hsize⟩

/-- Zeros at the end of a vector are not seen by the comparison of short ones. -/
theorem not_observedAlike_of_zero :
    ¬ ∀ p q : Construction, p.Fits → q.Fits → ObservedAlike p q := by
  intro h
  have hsame := h ⟨['0'], []⟩ ⟨['0', '0'], []⟩ ⟨by decide, fun _ _ => trivial⟩
    ⟨by decide, fun _ _ => trivial⟩
  exact absurd (hsame.comparisons _ _ _ _ rfl rfl rfl rfl).eq (by decide)

end ShortBitVector

end Inet
