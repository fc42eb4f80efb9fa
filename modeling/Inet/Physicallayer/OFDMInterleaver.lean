import Inet.Common.BitVector
import Inet.Library.CountingLoop

/-!
# Interleaving of coded bits

`Ieee80211OFDMInterleaver` permutes the bits of every symbol. The first permutation writes the bits
into sixteen rows column by column; the second one rotates each group of `s` bits by the number of
its row. Since `s` divides the length of a row, a group lies within one row, and the deinterleaver
finds the row that its bits were rotated by (`div_rotate`).

Positions are natural numbers, whose products are computed in `int` (`checkNat`). What is
subtracted is never the larger number (`symbolRow_le`, `rows_split`).
-/

namespace Inet.Physicallayer

structure Ieee80211OFDMInterleaver where
  numberOfCodedBitsPerSymbol : ℕ
  numberOfCodedBitsPerSubcarrier : ℕ
  /-- Nothing is divided by zero. -/
  numberOfCodedBitsPerSymbol_pos : 0 < numberOfCodedBitsPerSymbol

namespace Ieee80211OFDMInterleaver

variable (interleaver : Ieee80211OFDMInterleaver)

def s : ℕ := max (interleaver.numberOfCodedBitsPerSubcarrier / 2) 1

/-- The value of a computation in `int` that is not negative. -/
def checkNat (x : ℕ) : Result ℕ := if x < 2 ^ 31 then .ok x else .error .overflow

/-- `secondPerm` of `interleave`. -/
def interleavedPosition (j : ℕ) : Result ℕ := do
  let numberOfCodedBitsPerSymbol := interleaver.numberOfCodedBitsPerSymbol
  let s := interleaver.s
  let firstPerm := numberOfCodedBitsPerSymbol / 16 * (j % 16) + j / 16
  let scaled ← checkNat (16 * firstPerm)
  let sum ← checkNat (firstPerm + numberOfCodedBitsPerSymbol)
  .ok (s * (firstPerm / s) + (sum - scaled / numberOfCodedBitsPerSymbol) % s)

/-- `secondPerm` of `deinterleave`. -/
def deinterleavedPosition (j : ℕ) : Result ℕ := do
  let numberOfCodedBitsPerSymbol := interleaver.numberOfCodedBitsPerSymbol
  let s := interleaver.s
  let scaled ← checkNat (16 * j)
  let firstPerm := s * (j / s) + (j + scaled / numberOfCodedBitsPerSymbol) % s
  let scaledPerm ← checkNat (16 * firstPerm)
  .ok (scaledPerm - (numberOfCodedBitsPerSymbol - 1) * (scaledPerm / numberOfCodedBitsPerSymbol))

/-- The loops that both functions have: in each symbol the `j`-th bit is written to the position
`perm j`. -/
def permuteBits (perm : ℕ → Result ℕ) (bits : BitVector) : Result BitVector :=
  let numberOfCodedBitsPerSymbol := interleaver.numberOfCodedBitsPerSymbol
  let numberOfSymbols := bits.getSize / numberOfCodedBitsPerSymbol
  (List.range numberOfSymbols).foldlM (fun permutedBits i =>
    (List.range numberOfCodedBitsPerSymbol).foldlM (fun permutedBits j => do
      let secondPerm ← perm j
      let shiftedSecondPerm ← checkNat (secondPerm + i * numberOfCodedBitsPerSymbol)
      let pos ← checkNat (i * numberOfCodedBitsPerSymbol + j)
      let bit ← bits.getBit pos
      .ok (permutedBits.setBit shiftedSecondPerm bit)) permutedBits)
    BitVector.new

def interleave (deinterleavedBits : BitVector) : Result BitVector :=
  if deinterleavedBits.getSize % interleaver.numberOfCodedBitsPerSymbol ≠ 0 then
    throw (.cRuntimeError
      "deinterleavedBits length = %d must be a multiple of numberOfCodedBitsPerSymbol = %d")
  else interleaver.permuteBits interleaver.interleavedPosition deinterleavedBits

def deinterleave (interleavedBits : BitVector) : Result BitVector :=
  if interleavedBits.getSize % interleaver.numberOfCodedBitsPerSymbol ≠ 0 then
    throw (.cRuntimeError
      "interleavedBits length must be a multiple of numberOfCodedBitsPerSymbol = %d")
  else interleaver.permuteBits interleaver.deinterleavedPosition interleavedBits

theorem checkNat_of {x : ℕ} (h : x < 2 ^ 31) : checkNat x = .ok x := if_pos h

section Rotation

variable {s n k k' f r : ℕ}

/-- The position `f` within its group of `s`, rotated by `k`. -/
def rotate (s k f : ℕ) : ℕ := s * (f / s) + (f + k) % s

theorem rotate_div (hs : 0 < s) : rotate s k f / s = f / s := by
  rw [rotate, Nat.mul_add_div hs, Nat.div_eq_of_lt (Nat.mod_lt _ hs), Nat.add_zero]

theorem rotate_mod : rotate s k f % s = (f + k) % s := by
  rw [rotate, Nat.mul_add_mod, Nat.mod_mod]

/-- Rotations that make a full turn together cancel out. -/
theorem rotate_rotate (hs : 0 < s) (h : (k + k') % s = 0) : rotate s k' (rotate s k f) = f := by
  have hoffset : (rotate s k f + k') % s = f % s := by
    rw [Nat.add_mod, rotate_mod, ← Nat.add_mod, Nat.add_assoc, Nat.add_mod, h, Nat.add_zero,
      Nat.mod_mod]
  rw [rotate, rotate_div hs, hoffset, Nat.div_add_mod]

/-- Groups do not reach over the end of a row. -/
theorem div_rotate (hs : 0 < s) (hn : s ∣ n) : rotate s k f / n = f / n := by
  obtain ⟨q, rfl⟩ := hn
  rw [← Nat.div_div_eq_div_mul, ← Nat.div_div_eq_div_mul, rotate_div hs]

end Rotation

section Columns

variable {n j f : ℕ}

/-- The columns of sixteen rows are written one after another. -/
def column (n j : ℕ) : ℕ := n * (j % 16) + j / 16

/-- The columns are read again, as the deinterleaver does it. -/
def uncolumn (n f : ℕ) : ℕ := 16 * f - (16 * n - 1) * (f / n)

theorem column_div (hj : j < 16 * n) : column n j / n = j % 16 := by
  have hcolumn : j / 16 < n := Nat.div_lt_of_lt_mul hj
  have hn : 0 < n := by omega
  rw [column, Nat.mul_add_div hn, Nat.div_eq_of_lt hcolumn, Nat.add_zero]

theorem column_mod (hj : j < 16 * n) : column n j % n = j / 16 := by
  rw [column, Nat.mul_add_mod, Nat.mod_eq_of_lt (Nat.div_lt_of_lt_mul hj)]

theorem lt_of_div_lt (hn : 0 < n) (hf : f / n < 16) : f < 16 * n :=
  (Nat.div_lt_iff_lt_mul hn).mp hf

theorem div_lt (hf : f < 16 * n) : f / n < 16 :=
  Nat.div_lt_of_lt_mul (by rwa [Nat.mul_comm] at hf)

theorem column_lt (hj : j < 16 * n) : column n j < 16 * n := by
  refine lt_of_div_lt (by omega) ?_
  rw [column_div hj]
  exact Nat.mod_lt j (by decide)

theorem rows_split (hn : 0 < n) : 16 * f = 16 * (f % n) + f / n + (16 * n - 1) * (f / n) := by
  have hf : n * (f / n) + f % n = f := Nat.div_add_mod f n
  have hrow : (16 * n - 1) * (f / n) + f / n = 16 * (n * (f / n)) := by
    rw [← Nat.succ_mul, Nat.succ_eq_add_one, Nat.sub_add_cancel (by omega), Nat.mul_assoc]
  omega

theorem uncolumn_eq (hn : 0 < n) : uncolumn n f = 16 * (f % n) + f / n :=
  Nat.sub_eq_of_eq_add (rows_split hn)

theorem uncolumn_lt (hf : f < 16 * n) : uncolumn n f < 16 * n := by
  have hn : 0 < n := by omega
  have hcolumn : f % n < n := Nat.mod_lt f hn
  have hrow := div_lt hf
  rw [uncolumn_eq hn]
  omega

theorem uncolumn_column (hj : j < 16 * n) : uncolumn n (column n j) = j := by
  rw [uncolumn_eq (by omega), column_mod hj, column_div hj, Nat.div_add_mod]

theorem column_uncolumn (hf : f < 16 * n) : column n (uncolumn n f) = f := by
  have hrow := div_lt hf
  have hmod : (16 * (f % n) + f / n) % 16 = f / n := by
    rw [Nat.mul_add_mod, Nat.mod_eq_of_lt hrow]
  have hdiv : (16 * (f % n) + f / n) / 16 = f % n := by
    rw [Nat.mul_add_div (by decide), Nat.div_eq_of_lt hrow, Nat.add_zero]
  rw [uncolumn_eq (by omega), column, hmod, hdiv, Nat.div_add_mod]

end Columns

section Permutation

variable {interleaver : Ieee80211OFDMInterleaver} {n j : ℕ}

theorem s_pos : 0 < interleaver.s := Nat.lt_of_lt_of_le Nat.one_pos (Nat.le_max_right _ _)

/-- The row of a position, as both functions compute it. -/
theorem symbolRow (f : ℕ) : 16 * f / (16 * n) = f / n :=
  Nat.mul_div_mul_left f n (by decide)

theorem symbolRow_le (hj : j < 16 * n) : column n j / n ≤ 16 * n := by
  have := div_lt (column_lt hj)
  omega

variable (interleaver n j) in
/-- Where `interleave` writes the `j`-th bit of a symbol of `16 * n` bits. -/
def there : ℕ := rotate interleaver.s (16 * n - column n j / n) (column n j)

variable (interleaver n j) in
/-- Where `deinterleave` writes it. -/
def back : ℕ := uncolumn n (rotate interleaver.s (j / n) j)

theorem interleavedPosition_eq (hN : interleaver.numberOfCodedBitsPerSymbol = 16 * n)
    (hint : 16 * (16 * n) ≤ 2 ^ 31) (hj : j < 16 * n) :
    interleaver.interleavedPosition j = .ok (there interleaver n j) := by
  have hfirst : 16 * n / 16 * (j % 16) + j / 16 = column n j := by
    rw [Nat.mul_div_cancel_left n (by decide), column]
  have hlt := column_lt hj
  rw [interleavedPosition, hN, hfirst, checkNat_of (by omega), ok_bind, checkNat_of (by omega),
    ok_bind, there, symbolRow, rotate, Nat.add_sub_assoc (symbolRow_le hj)]

theorem rotated_lt (hs : interleaver.s ∣ n) (hj : j < 16 * n) :
    rotate interleaver.s (j / n) j < 16 * n := by
  refine lt_of_div_lt (by omega) ?_
  rw [div_rotate s_pos hs]
  exact div_lt hj

theorem deinterleavedPosition_eq (hN : interleaver.numberOfCodedBitsPerSymbol = 16 * n)
    (hint : 16 * (16 * n) ≤ 2 ^ 31) (hs : interleaver.s ∣ n) (hj : j < 16 * n) :
    interleaver.deinterleavedPosition j = .ok (back interleaver n j) := by
  have hlt := rotated_lt hs hj
  rw [rotate] at hlt
  rw [deinterleavedPosition, hN, checkNat_of (by omega), ok_bind, symbolRow]
  dsimp only
  rw [checkNat_of (by omega), ok_bind, symbolRow, back, uncolumn, rotate]

/-- The rotation of a row and the one that the deinterleaver computes make full turns. -/
theorem turn_mod (hs : interleaver.s ∣ n) {r : ℕ} (hr : r ≤ 16 * n) :
    (16 * n - r + r) % interleaver.s = 0 := by
  rw [Nat.sub_add_cancel hr]
  exact Nat.mod_eq_zero_of_dvd (hs.mul_left 16)

section

variable (hs : interleaver.s ∣ n) (hj : j < 16 * n)

include hs hj

theorem there_lt : there interleaver n j < 16 * n := by
  refine lt_of_div_lt (by omega) ?_
  rw [there, div_rotate s_pos hs]
  exact div_lt (column_lt hj)

theorem back_lt : back interleaver n j < 16 * n :=
  uncolumn_lt (rotated_lt hs hj)

theorem back_there : back interleaver n (there interleaver n j) = j := by
  rw [back, there, div_rotate s_pos hs, rotate_rotate s_pos (turn_mod hs (symbolRow_le hj)),
    uncolumn_column hj]

theorem there_back : there interleaver n (back interleaver n j) = j := by
  have hrow : rotate interleaver.s (j / n) j / n = j / n := div_rotate s_pos hs
  have hle : j / n ≤ 16 * n := by
    have := div_lt hj
    omega
  rw [there, back, column_uncolumn (rotated_lt hs hj), hrow]
  exact rotate_rotate s_pos ((congrArg (· % _) (Nat.add_comm _ _)).trans (turn_mod hs hle))

end

end Permutation

section Loop

variable {interleaver : Ieee80211OFDMInterleaver} {perm inv : ℕ → ℕ}
  {position position' : ℕ → Result ℕ} {bits : BitVector}

/-- `perm` permutes the positions of a symbol, and `inv` undoes it. -/
structure Permutes (N : ℕ) (perm inv : ℕ → ℕ) : Prop where
  lt : ∀ j < N, perm j < N
  inv_lt : ∀ j < N, inv j < N
  inv_perm : ∀ j < N, inv (perm j) = j
  perm_inv : ∀ j < N, perm (inv j) = j

theorem Permutes.symm {N : ℕ} (h : Permutes N perm inv) : Permutes N inv perm :=
  ⟨h.inv_lt, h.lt, h.perm_inv, h.inv_perm⟩

/-- The first `count` symbols of `bits` have been written. -/
structure Written (N : ℕ) (perm : ℕ → ℕ) (bits : BitVector) (count : ℕ) (v : BitVector) :
    Prop where
  size : v.size = count * N
  bit : ∀ i < count, ∀ j < N, v.bit (perm j + i * N) = bits.bit (i * N + j)

/-- The first `count` bits of the symbol after `v` have been written. -/
structure Writing (N : ℕ) (perm : ℕ → ℕ) (bits : BitVector) (i : ℕ) (v : BitVector) (count : ℕ)
    (w : BitVector) : Prop where
  le_size : i * N ≤ w.size
  size_le : w.size ≤ (i + 1) * N
  lt_size : ∀ j < count, perm j + i * N < w.size
  bit : ∀ j < count, w.bit (perm j + i * N) = bits.bit (i * N + j)
  before : ∀ pos < i * N, w.bit pos = v.bit pos

theorem Writing.step {N i j : ℕ} {v w : BitVector} (hperm : Permutes N perm inv) (hj : j < N)
    (h : Writing N perm bits i v j w) :
    Writing N perm bits i v (j + 1) (w.setBit (perm j + i * N) (bits.bit (i * N + j))) := by
  have hlt := hperm.lt j hj
  have hend : (i + 1) * N = i * N + N := Nat.succ_mul i N
  have hle := h.le_size
  have hsize := h.size_le
  refine ⟨?_, ?_, ?_, ?_, ?_⟩
  · rw [BitVector.size_setBit]
    omega
  · rw [BitVector.size_setBit]
    omega
  · intro k hk
    rw [BitVector.size_setBit]
    rcases Nat.lt_succ_iff_lt_or_eq.mp hk with hk | rfl
    · have := h.lt_size k hk
      omega
    · omega
  · intro k hk
    rw [BitVector.bit_setBit]
    rcases Nat.lt_succ_iff_lt_or_eq.mp hk with hk | rfl
    · have hne : perm k ≠ perm j := by
        intro heq
        have := hperm.inv_perm k (by omega)
        rw [heq, hperm.inv_perm j hj] at this
        omega
      rw [if_neg (by omega), h.bit k hk]
    · rw [if_pos rfl]
  · intro pos hpos
    rw [BitVector.bit_setBit, if_neg (by omega), h.before pos hpos]

theorem writeSymbol {N i : ℕ} {v : BitVector} (hN : 0 < N) (hperm : Permutes N perm inv)
    (hposition : ∀ j < N, position j = .ok (perm j)) (hint : bits.size ≤ 2 ^ 31)
    (hv : Written N perm bits i v) (hbits : (i + 1) * N ≤ bits.size) :
    ∃ w, (List.range N).foldlM (fun permutedBits j => do
        let secondPerm ← position j
        let shiftedSecondPerm ← checkNat (secondPerm + i * N)
        let pos ← checkNat (i * N + j)
        let bit ← bits.getBit pos
        .ok (permutedBits.setBit shiftedSecondPerm bit)) v = (.ok w : Result BitVector) ∧
      Written N perm bits (i + 1) w := by
  have hend : (i + 1) * N = i * N + N := Nat.succ_mul i N
  obtain ⟨w, hloop, hw⟩ := CountingLoop.range_spec (n := N) (s := v)
    (f := fun permutedBits j => do
      let secondPerm ← position j
      let shiftedSecondPerm ← checkNat (secondPerm + i * N)
      let pos ← checkNat (i * N + j)
      let bit ← bits.getBit pos
      (.ok (permutedBits.setBit shiftedSecondPerm bit) : Result BitVector))
    (Writing N perm bits i v)
    ⟨hv.size.ge, by rw [hv.size]; omega, by simp, by simp, fun _ _ => rfl⟩
    (by
      intro j hj w hw
      have hlt := hperm.lt j hj
      rw [hposition j hj, ok_bind, checkNat_of (by omega), ok_bind, checkNat_of (by omega), ok_bind,
        BitVector.getBit_of_lt (by omega), ok_bind]
      exact ⟨_, rfl, hw.step hperm hj⟩)
  refine ⟨w, hloop, ?_, ?_⟩
  · -- The last position of the symbol has been written as well.
    have hlast := hw.lt_size (inv (N - 1)) (hperm.inv_lt (N - 1) (by omega))
    rw [hperm.perm_inv (N - 1) (by omega)] at hlast
    have := hw.size_le
    omega
  · intro k hk j hj
    rcases Nat.lt_succ_iff_lt_or_eq.mp hk with hk | rfl
    · have hpos : perm j + k * N < i * N := by
        have hlt := hperm.lt j hj
        have hmul : (k + 1) * N ≤ i * N := Nat.mul_le_mul_right N hk
        rw [Nat.succ_mul] at hmul
        omega
      rw [hw.before _ hpos, hv.bit k hk j hj]
    · exact hw.bit j hj

theorem permuteBits_spec {N : ℕ} (hN : interleaver.numberOfCodedBitsPerSymbol = N)
    (hperm : Permutes N perm inv) (hposition : ∀ j < N, position j = .ok (perm j))
    (hint : bits.size ≤ 2 ^ 31) (hbits : bits.size % N = 0) :
    ∃ w, interleaver.permuteBits position bits = .ok w ∧ Written N perm bits (bits.size / N) w := by
  have hpos : 0 < N := hN ▸ interleaver.numberOfCodedBitsPerSymbol_pos
  have hsize : bits.size / N * N = bits.size :=
    Nat.div_mul_cancel (Nat.dvd_of_mod_eq_zero hbits)
  subst hN
  refine CountingLoop.range_spec (Written _ perm bits) ⟨?_, ?_⟩ ?_
  · rw [Nat.zero_mul]
    rfl
  · intro i hi
    exact absurd hi (Nat.not_lt_zero i)
  · intro i hi v hv
    exact writeSymbol hpos hperm hposition hint hv ((Nat.mul_le_mul_right _ hi).trans_eq hsize)

/-- Writing the bits by a permutation and then by its inverse gives them back. -/
theorem permuteBits_permuteBits {N : ℕ} (hN : interleaver.numberOfCodedBitsPerSymbol = N)
    (hperm : Permutes N perm inv) (hposition : ∀ j < N, position j = .ok (perm j))
    (hposition' : ∀ j < N, position' j = .ok (inv j)) (hint : bits.size ≤ 2 ^ 31)
    (hbits : bits.size % N = 0) :
    ∃ w, interleaver.permuteBits position bits = .ok w ∧ w.size = bits.size ∧
      Written N perm bits (bits.size / N) w ∧
      ∃ v, interleaver.permuteBits position' w = .ok v ∧ v.toBits = bits.toBits := by
  have hpos : 0 < N := hN ▸ interleaver.numberOfCodedBitsPerSymbol_pos
  have hsize : bits.size / N * N = bits.size :=
    Nat.div_mul_cancel (Nat.dvd_of_mod_eq_zero hbits)
  obtain ⟨w, hw, hwritten⟩ := permuteBits_spec hN hperm hposition hint hbits
  have hsizew : w.size = bits.size := hwritten.size.trans hsize
  have hbits' : w.size % N = 0 := by rw [hsizew, hbits]
  obtain ⟨v, hv, hback⟩ := permuteBits_spec hN hperm.symm hposition' (by rwa [hsizew]) hbits'
  have hsizev : v.size = bits.size := by rw [hback.size, hsizew, hsize]
  refine ⟨w, hw, hsizew, hwritten, v, hv, BitVector.toBits_eq_iff.mpr ⟨hsizev, fun pos hlt => ?_⟩⟩
  rw [hsizev] at hlt
  -- The `pos % N`-th bit of the symbol `pos / N`.
  have hsymbol : pos / N < bits.size / N := Nat.div_lt_div_of_lt_of_dvd
    (Nat.dvd_of_mod_eq_zero hbits) hlt
  have hj : pos % N < N := Nat.mod_lt pos hpos
  have hthere := hwritten.bit (pos / N) hsymbol (pos % N) hj
  have hreturn := hback.bit (pos / N) (by rwa [hsizew]) (perm (pos % N)) (hperm.lt _ hj)
  rw [hperm.inv_perm _ hj, Nat.add_comm, Nat.add_comm (pos / N * N) (perm _), hthere,
    Nat.mul_comm, Nat.div_add_mod] at hreturn
  exact hreturn

/-- The last bit has a position in `int`. -/
theorem size_le_of_permuteBits {y : BitVector} (h : interleaver.permuteBits position bits = .ok y)
    (hbits : bits.size % interleaver.numberOfCodedBitsPerSymbol = 0) : bits.size ≤ 2 ^ 31 := by
  have hpos := interleaver.numberOfCodedBitsPerSymbol_pos
  unfold permuteBits at h
  generalize interleaver.numberOfCodedBitsPerSymbol = N at h hbits hpos
  have hsize : bits.size / N * N = bits.size :=
    Nat.div_mul_cancel (Nat.dvd_of_mod_eq_zero hbits)
  by_contra hlong
  have hsymbols : bits.size / N - 1 < bits.size / N := by
    refine Nat.sub_one_lt fun hzero => ?_
    rw [hzero, Nat.zero_mul] at hsize
    omega
  obtain ⟨u, v, hsymbol⟩ := CountingLoop.exists_round h hsymbols
  obtain ⟨u', v', hbit⟩ := CountingLoop.exists_round hsymbol (Nat.sub_one_lt hpos.ne')
  obtain ⟨p, -, hbit⟩ := bind_eq_ok.mp hbit
  obtain ⟨p', -, hbit⟩ := bind_eq_ok.mp hbit
  obtain ⟨pos, hcheck, -⟩ := bind_eq_ok.mp hbit
  rw [checkNat] at hcheck
  split_ifs at hcheck with hlt
  have hlast : (bits.size / N - 1) * N + N = bits.size := by
    rw [← Nat.succ_mul, Nat.succ_eq_add_one, Nat.sub_add_cancel (by omega), hsize]
  omega

end Loop

/-- On symbols of a multiple of sixteen bits, with rows that can be divided into groups, the two
permutations are inverse to each other, and so are the two functions, as long as sixteen times a
position in a symbol and the positions of all bits are values of `int`. -/
theorem deinterleave_interleave (interleaver : Ieee80211OFDMInterleaver)
    (h16 : 16 ∣ interleaver.numberOfCodedBitsPerSymbol)
    (hint : 16 * interleaver.numberOfCodedBitsPerSymbol ≤ 2 ^ 31)
    (hs : interleaver.s ∣ interleaver.numberOfCodedBitsPerSymbol / 16) {x : BitVector}
    (hx : interleaver.numberOfCodedBitsPerSymbol ∣ x.size) (hsize : x.size ≤ 2 ^ 31) :
    let N := interleaver.numberOfCodedBitsPerSymbol
    ∃ perm inv : ℕ → ℕ, Permutes N perm inv ∧
      (∀ j < N, interleaver.interleavedPosition j = .ok (perm j) ∧
        interleaver.deinterleavedPosition j = .ok (inv j)) ∧
      (∃ y, interleaver.interleave x = .ok y ∧ Written N perm x (x.size / N) y ∧
        ∃ z, interleaver.deinterleave y = .ok z ∧ z.toBits = x.toBits) ∧
      ∃ y, interleaver.deinterleave x = .ok y ∧ Written N inv x (x.size / N) y ∧
        ∃ z, interleaver.interleave y = .ok z ∧ z.toBits = x.toBits := by
  obtain ⟨n, hN⟩ := h16
  rw [hN, Nat.mul_div_cancel_left n (by decide)] at hs
  rw [hN] at hint
  have hperm : Permutes (16 * n) (there interleaver n) (back interleaver n) :=
    ⟨fun _ => there_lt hs, fun _ => back_lt hs, fun _ => back_there hs, fun _ => there_back hs⟩
  have hthere := fun j (hj : j < 16 * n) => interleavedPosition_eq hN hint hj
  have hback := fun j (hj : j < 16 * n) => deinterleavedPosition_eq hN hint hs hj
  have hmod : x.size % (16 * n) = 0 := Nat.mod_eq_zero_of_dvd (hN ▸ hx)
  obtain ⟨y, hy, hsizey, hwritten, z, hz, hsame⟩ :=
    permuteBits_permuteBits hN hperm hthere hback hsize hmod
  obtain ⟨y', hy', hsizey', hwritten', z', hz', hsame'⟩ :=
    permuteBits_permuteBits hN hperm.symm hback hthere hsize hmod
  refine ⟨_, _, hN ▸ hperm, fun j hj => ⟨hthere j (hN ▸ hj), hback j (hN ▸ hj)⟩,
    ⟨y, ?_, hN ▸ hwritten, z, ?_, hsame⟩, ⟨y', ?_, hN ▸ hwritten', z', ?_, hsame'⟩⟩
  · rw [interleave, if_neg (by simp [BitVector.getSize, hN, hmod]), hy]
  · rw [deinterleave, if_neg (by simp [BitVector.getSize, hN, hsizey, hmod]), hz]
  · rw [deinterleave, if_neg (by simp [BitVector.getSize, hN, hmod]), hy']
  · rw [interleave, if_neg (by simp [BitVector.getSize, hN, hsizey', hmod]), hz']

/-- Two symbols of 16-QAM. -/
theorem deinterleave_interleave_qam16 :
    let interleaver : Ieee80211OFDMInterleaver := ⟨192, 4, by decide⟩
    ∃ y, interleaver.interleave (BitVector.new.setBit 383 true) = .ok y ∧
      ∃ z, interleaver.deinterleave y = .ok z ∧
        z.toBits = (BitVector.new.setBit 383 true).toBits := by
  obtain ⟨_, _, -, -, ⟨y, hy, -, hback⟩, -⟩ := @deinterleave_interleave ⟨192, 4, by decide⟩
    (by decide) (by decide) (by decide) (BitVector.new.setBit 383 true) (by decide) (by decide)
  exact ⟨y, hy, hback⟩

/-- A symbol of `2 ^ 28` bits has a position that is not computed, and with symbols of any length
no bit behind the first `2 ^ 31` ones has a position. -/
theorem not_deinterleave_interleave_of_overflow :
    (∃ interleaver : Ieee80211OFDMInterleaver, interleaver.numberOfCodedBitsPerSymbol = 2 ^ 28 ∧
      interleaver.s ∣ 2 ^ 28 / 16 ∧
      interleaver.deinterleavedPosition (2 ^ 27) = .error .overflow) ∧
    ∃ interleaver : Ieee80211OFDMInterleaver, interleaver.numberOfCodedBitsPerSymbol = 16 ∧
      interleaver.s ∣ 1 ∧ ∃ x : BitVector, 16 ∣ x.size ∧ ∀ y, interleaver.interleave x ≠ .ok y := by
  refine ⟨⟨⟨2 ^ 28, 1, by decide⟩, rfl, by decide, by decide⟩, ⟨16, 1, by decide⟩, rfl, by decide,
    BitVector.new.setBit (2 ^ 31 + 15) true, ?_⟩
  have hsize : (BitVector.new.setBit (2 ^ 31 + 15) true).size = 2 ^ 31 + 16 := by
    rw [BitVector.size_setBit]
    rfl
  rw [hsize]
  refine ⟨by decide, fun y h => ?_⟩
  rw [interleave] at h
  split_ifs at h
  have hmod : (BitVector.new.setBit (2 ^ 31 + 15) true).size % 16 = 0 := by
    rw [hsize]
    decide
  have := size_le_of_permuteBits h hmod
  omega

end Ieee80211OFDMInterleaver

end Inet.Physicallayer
