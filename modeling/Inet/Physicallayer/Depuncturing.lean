import Inet.Library.CountingLoop
import Inet.Physicallayer.ConvolutionalCoder

/-!
# Depuncturing inverts puncturing

Which positions are punctured depends on the matrix alone (`Keeps`), and repeats with each block of
the code rate. So `depuncturing` finds the length of the vector that has been punctured, flags the
same positions, and puts every bit back in its place.
-/

namespace Inet.Physicallayer.ConvolutionalCoder

open BitVector (bit_appendBit getBit_of_lt new size_appendBit)

variable {coder : ConvolutionalCoder} {W : ℕ}

/-- The matrix, whose rows have `W` columns, keeps the bit at a position: the `i`-th stream has the
positions that are `i` modulo the number of streams. -/
def Keeps (coder : ConvolutionalCoder) (W pos : ℕ) : Prop :=
  ∃ row, coder.puncturingMatrix[pos % coder.codeRateParamaterN]? = some row ∧
    row.getBit (pos / coder.codeRateParamaterN % W) = .ok true

instance (coder : ConvolutionalCoder) (W : ℕ) : DecidablePred (Keeps coder W) := fun pos =>
  match h : coder.puncturingMatrix[pos % coder.codeRateParamaterN]? with
  | none => .isFalse (by rintro ⟨row, hrow, -⟩; rw [h] at hrow; cases hrow)
  | some row =>
    decidable_of_iff (row.getBit (pos / coder.codeRateParamaterN % W) = .ok true)
      ⟨fun hbit => ⟨row, h, hbit⟩, fun ⟨row', hrow, hbit⟩ => by
        rw [h] at hrow
        exact Option.some.inj hrow ▸ hbit⟩

/-- The puncturing matrix and the rates: the rows have the same length, and a block of
`codeRatePuncturingK` information bits spans `q` periods of the matrix, of which it keeps
`codeRatePuncturingN` bits. -/
structure Rates (coder : ConvolutionalCoder) (W q : ℕ) : Prop where
  codeRateParamaterK_pos : 0 < coder.codeRateParamaterK
  codeRateParamaterN_pos : 0 < coder.codeRateParamaterN
  codeRatePuncturingN_pos : 0 < coder.codeRatePuncturingN
  columns : ∀ row ∈ coder.puncturingMatrix, row.size = W
  columns_pos : 0 < W
  codeRatePuncturingK_eq : coder.codeRatePuncturingK = coder.codeRateParamaterK * (W * q)
  codeRatePuncturingN_eq :
    coder.codeRatePuncturingN = Nat.count (Keeps coder W) (coder.codeRateParamaterN * (W * q))

/-- The bit of the matrix for a position. -/
theorem exists_bit {i : ℕ} (hcolumns : ∀ row ∈ coder.puncturingMatrix, row.size = W)
    (hW : 0 < W) (hi : i < coder.codeRateParamaterN) (j : ℕ) :
    ∃ row, coder.puncturingMatrix[i]? = some row ∧ ∃ b, row.getBit (j % W) = .ok b ∧
      decide (¬ Keeps coder W (coder.codeRateParamaterN * j + i)) = !b := by
  have hlength : i < coder.puncturingMatrix.length := by rwa [coder.length_puncturingMatrix]
  obtain ⟨row, hrow⟩ : ∃ row, coder.puncturingMatrix[i]? = some row :=
    ⟨_, List.getElem?_eq_getElem hlength⟩
  have hwidth := hcolumns row (List.mem_of_getElem? hrow)
  obtain ⟨b, hb⟩ : ∃ b, row.getBit (j % W) = .ok b :=
    ⟨_, if_neg (Nat.not_le.mpr (by rw [hwidth]; exact Nat.mod_lt j hW))⟩
  have hmod : (coder.codeRateParamaterN * j + i) % coder.codeRateParamaterN = i := by
    rw [Nat.mul_add_mod, Nat.mod_eq_of_lt hi]
  have hdiv : (coder.codeRateParamaterN * j + i) / coder.codeRateParamaterN = j := by
    rw [Nat.mul_add_div (Nat.zero_lt_of_lt hi), Nat.div_eq_of_lt hi, Nat.add_zero]
  have hkeeps : Keeps coder W (coder.codeRateParamaterN * j + i) ↔ b = true := by
    rw [Keeps, hmod, hdiv, hrow]
    constructor
    · rintro ⟨row', hrow', hbit⟩
      cases hrow'
      exact Except.ok.inj (hb.symm.trans hbit)
    · rintro rfl
      exact ⟨row, rfl, hb⟩
  refine ⟨row, hrow, b, hb, ?_⟩
  cases b <;> simp [hkeeps]

/-- The loop over a stream flags the bits of the stream. -/
theorem punctureStream_spec {length i : ℕ} (hcolumns : ∀ row ∈ coder.puncturingMatrix, row.size = W)
    (hW : 0 < W) (hi : i < coder.codeRateParamaterN) (fuel j : ℕ) (v : BitVector)
    (hfuel : length < j + fuel) (hj : j ≤ length) (hsize : v.size = length) :
    ∃ v', coder.punctureStream W length i fuel j v = .ok v' ∧ v'.size = length ∧ ∀ pos, v'.bit pos =
        if pos % coder.codeRateParamaterN = i ∧ j ≤ pos / coder.codeRateParamaterN ∧ pos < length
        then decide (¬ Keeps coder W pos) else v.bit pos := by
  induction fuel generalizing j v with
  | zero => omega
  | succ fuel ih =>
    rw [punctureStream]
    by_cases hlt : coder.codeRateParamaterN * j + i < length
    · obtain ⟨row, hrow, b, hbit, hkeeps⟩ := exists_bit hcolumns hW hi j
      have hjpos : j ≤ coder.codeRateParamaterN * j :=
        Nat.le_mul_of_pos_left j (Nat.zero_lt_of_lt hi)
      have hsize' : (v.setBit (coder.codeRateParamaterN * j + i) (!b)).size = length := by
        rw [BitVector.size_setBit, hsize]
        omega
      obtain ⟨v', hrun, hsize'', hbits⟩ := ih (j + 1) _ (by omega) (by omega) hsize'
      have hat : at? coder.puncturingMatrix i = .ok row := by rw [at?, hrow]
      refine ⟨v', ?_, hsize'', fun pos => ?_⟩
      · rw [if_pos hlt]
        simp only [hat, ok_bind, hbit, hrun]
      · rw [hbits pos, BitVector.bit_setBit]
        by_cases hpos : pos = coder.codeRateParamaterN * j + i
        · have hmod : pos % coder.codeRateParamaterN = i := by
            rw [hpos, Nat.mul_add_mod, Nat.mod_eq_of_lt hi]
          have hdiv : pos / coder.codeRateParamaterN = j := by
            rw [hpos, Nat.mul_add_div (Nat.zero_lt_of_lt hi), Nat.div_eq_of_lt hi, Nat.add_zero]
          rw [hdiv, if_neg (by omega), if_pos hpos, if_pos ⟨hmod, le_rfl, hpos ▸ hlt⟩]
          rw [hpos]
          exact hkeeps.symm
        · have hne : ¬ (pos % coder.codeRateParamaterN = i ∧
              pos / coder.codeRateParamaterN = j) := by
            rintro ⟨hmod, hdiv⟩
            rw [← hmod, ← hdiv, Nat.div_add_mod] at hpos
            exact hpos rfl
          rw [if_neg hpos]
          refine if_congr ?_ rfl rfl
          omega
    · rw [if_neg hlt]
      refine ⟨v, rfl, hsize, fun pos => ?_⟩
      rw [if_neg]
      rintro ⟨hmod, hdiv, hpos⟩
      refine hlt (lt_of_le_of_lt ?_ hpos)
      rw [← Nat.div_add_mod pos coder.codeRateParamaterN, hmod]
      exact Nat.add_le_add_right (Nat.mul_le_mul_left _ hdiv) i

/-- The positions that the matrix does not keep are flagged. -/
theorem getPuncturedIndices_spec (length : ℕ) (hN : 0 < coder.codeRateParamaterN)
    (hcolumns : ∀ row ∈ coder.puncturingMatrix, row.size = W) (hW : 0 < W) :
    ∃ isPunctured, coder.getPuncturedIndices length = .ok isPunctured ∧ isPunctured.size = length ∧
        ∀ pos < length, isPunctured.bit pos = decide (¬ Keeps coder W pos) := by
  obtain ⟨row, hrow, -⟩ := exists_bit hcolumns hW hN 0
  have hat : at? coder.puncturingMatrix 0 = .ok row := by rw [at?, hrow]
  have hwidth := hcolumns row (List.mem_of_getElem? hrow)
  obtain ⟨v, hloop, hsize, hbits⟩ := CountingLoop.range_spec (n := coder.codeRateParamaterN)
    (s := new.appendBits false length)
    (f := fun isPunctured i =>
      coder.punctureStream row.size length i (length + 1) 0 isPunctured)
    (fun i v => v.size = length ∧ ∀ pos < length, v.bit pos =
        if pos % coder.codeRateParamaterN < i then decide (¬ Keeps coder W pos) else false)
    (by
      have hbits : (new.appendBits false length).toBits =
          List.replicate length false := BitVector.toBits_appendBits length
      have hsize : (new.appendBits false length).size = length := by
        rw [← BitVector.length_toBits, hbits, List.length_replicate]
      refine ⟨hsize, fun pos hpos => ?_⟩
      rw [if_neg (Nat.not_lt_zero _), ← BitVector.getD_toBits, hbits, List.getD_replicate _ hpos])
    (by
      rintro i hi v ⟨hsize, hbits⟩
      rw [hwidth]
      obtain ⟨v', hrun, hsize', hbits'⟩ :=
        punctureStream_spec hcolumns hW hi (length + 1) 0 v (by omega) (Nat.zero_le _) hsize
      refine ⟨v', hrun, hsize', fun pos hpos => ?_⟩
      rw [hbits' pos, hbits pos hpos]
      have hzero : 0 ≤ pos / coder.codeRateParamaterN := Nat.zero_le _
      split_ifs <;> first | rfl | omega)
  refine ⟨v, ?_, hsize, fun pos hpos => ?_⟩
  · rw [getPuncturedIndices, hat, ok_bind, hloop]
  · rw [hbits pos hpos, if_pos (Nat.mod_lt pos hN)]

section

variable {isPunctured c p : BitVector} {kept : ℕ → Prop} [DecidablePred kept]

/-- The bits of `p` are the kept ones of the first `n` bits of `c`. -/
structure IsSelection (kept : ℕ → Prop) [DecidablePred kept] (c p : BitVector) (n : ℕ) : Prop where
  size : p.size = Nat.count kept n
  bit : ∀ i < n, kept i → p.bit (Nat.count kept i) = c.bit i

/-- The loop of `puncturing` selects the bits that are not flagged. -/
theorem puncturing_spec (hrun : coder.getPuncturedIndices c.size = .ok isPunctured)
    (hsize : isPunctured.size = c.size)
    (hflags : ∀ i < c.size, isPunctured.bit i = decide (¬ kept i)) :
    ∃ p, coder.puncturing c = .ok p ∧ IsSelection kept c p c.size := by
  rw [puncturing, hrun, ok_bind]
  refine CountingLoop.range_spec (fun i p => IsSelection kept c p i) ⟨rfl, by simp⟩ ?_
  intro i hi p hp
  rw [getBit_of_lt (hsize ▸ hi), ok_bind, hflags i hi]
  by_cases hkept : kept i
  · rw [getBit_of_lt hi, decide_eq_false (not_not.mpr hkept)]
    refine ⟨_, rfl, ?_, fun k hk hkeptk => ?_⟩
    · rw [size_appendBit, hp.size, Nat.count_succ, if_pos hkept]
    · rw [bit_appendBit, hp.size]
      by_cases hki : k = i
      · rw [hki, if_pos rfl]
      · have hlt : Nat.count kept k < Nat.count kept i := Nat.count_strict_mono hkeptk (by omega)
        rw [if_neg hlt.ne, hp.bit k (by omega) hkeptk]
  · rw [decide_eq_true hkept]
    refine ⟨p, rfl, ?_, fun k hk hkeptk => ?_⟩
    · rw [hp.size, Nat.count_succ, if_neg hkept, add_zero]
    · have hki : k ≠ i := fun heq => hkept (heq ▸ hkeptk)
      exact hp.bit k (by omega) hkeptk

/-- The loop of `depuncturing` reads all bits, one for each position that is not flagged. -/
theorem depuncturingLoop_spec {n : ℕ} (hsize : isPunctured.size = n)
    (hflags : ∀ i < n, isPunctured.bit i = decide (¬ kept i)) (hp : p.size = Nat.count kept n) :
    ∃ d, depuncturingLoop p isPunctured n = .ok (d, p.size) ∧ d.size = n ∧
      ∀ i < n, d.bit i = if kept i then p.bit (Nat.count kept i) else false := by
  obtain ⟨⟨d, idx⟩, hloop, hd, hidx, hbits⟩ := CountingLoop.range_spec (n := n)
    (s := (new, 0))
    (f := fun s i => do
      let punctured ← isPunctured.getBit i
      if punctured then .ok (s.1.appendBit false, s.2)
      else do
        let bit ← p.getBit s.2
        .ok (s.1.appendBit bit, s.2 + 1))
    (fun i s => s.1.size = i ∧ s.2 = Nat.count kept i ∧
      ∀ k < i, s.1.bit k = if kept k then p.bit (Nat.count kept k) else false)
    ⟨rfl, rfl, fun k hk => absurd hk (Nat.not_lt_zero k)⟩
    (by
      rintro i hi ⟨d, idx⟩ ⟨hd, hidx, hbits⟩
      dsimp only at hd hidx hbits ⊢
      rw [getBit_of_lt (hsize ▸ hi), ok_bind, hflags i hi]
      by_cases hkept : kept i
      · have hlt : Nat.count kept i < p.size := by
          rw [hp]
          exact Nat.count_strict_mono hkept hi
        rw [hidx, getBit_of_lt hlt, decide_eq_false (not_not.mpr hkept)]
        refine ⟨_, rfl, ?_, ?_, fun k hk => ?_⟩
        · rw [size_appendBit, hd]
        · rw [Nat.count_succ, if_pos hkept]
        · rw [bit_appendBit, hd]
          by_cases hki : k = i
          · rw [if_pos hki, hki, if_pos hkept]
          · rw [if_neg hki, hbits k (by omega)]
      · rw [decide_eq_true hkept]
        refine ⟨_, rfl, ?_, ?_, fun k hk => ?_⟩
        · rw [size_appendBit, hd]
        · rw [Nat.count_succ, if_neg hkept, add_zero, hidx]
        · rw [bit_appendBit, hd]
          by_cases hki : k = i
          · rw [if_pos hki, hki, if_neg hkept]
          · rw [if_neg hki, hbits k (by omega)])
  dsimp only at hd hidx hbits
  refine ⟨d, ?_, hd, hbits⟩
  rw [hp, ← hidx]
  exact hloop

/-- The bits that are selected, in the order of their positions. -/
theorem map_range_count {f g : ℕ → Bool} (n : ℕ)
    (h : ∀ i < n, kept i → f (Nat.count kept i) = g i) :
    (List.range (Nat.count kept n)).map f = ((List.range n).filter fun i => kept i).map g := by
  induction n with
  | zero => rfl
  | succ n ih =>
    have hbefore := ih fun i hi => h i (Nat.lt_succ_of_lt hi)
    rw [Nat.count_succ, List.range_succ, List.filter_append, List.map_append, ← hbefore]
    by_cases hkept : kept n
    · rw [if_pos hkept, List.range_succ, List.map_append, List.map_singleton,
        h n (Nat.lt_succ_self n) hkept]
      simp [hkept]
    · simp [hkept]

/-- Each number is the rank of one position that is kept. -/
theorem existsUnique_count {n k : ℕ} (hk : k < Nat.count kept n) :
    ∃! i, i < n ∧ kept i ∧ Nat.count kept i = k := by
  obtain ⟨i, hi, hkept, hcount⟩ : ∃ i < n, kept i ∧ Nat.count kept i = k := by
    induction n with
    | zero => exact absurd hk (Nat.not_lt_zero k)
    | succ n ih =>
      by_cases hlt : k < Nat.count kept n
      · obtain ⟨i, hi, hrest⟩ := ih hlt
        exact ⟨i, Nat.lt_succ_of_lt hi, hrest⟩
      · rw [Nat.count_succ] at hk
        split_ifs at hk with hkept
        · exact ⟨n, Nat.lt_succ_self n, hkept, by omega⟩
        · omega
  refine ⟨i, ⟨hi, hkept, hcount⟩, ?_⟩
  rintro i' ⟨-, hkept', hcount'⟩
  exact Nat.count_injective hkept' hkept (hcount'.trans hcount.symm)

variable {q : ℕ}

/-- Every block keeps the same number of bits. -/
theorem count_blocks (h : Rates coder W q) (m : ℕ) :
    Nat.count (Keeps coder W) (m * (coder.codeRateParamaterN * (W * q))) =
      m * coder.codeRatePuncturingN := by
  induction m with
  | zero => simp
  | succ m ih =>
    have hperiod : ∀ pos, Keeps coder W (m * (coder.codeRateParamaterN * (W * q)) + pos) ↔
        Keeps coder W pos := fun pos => by
      have hblock : m * (coder.codeRateParamaterN * (W * q)) =
          coder.codeRateParamaterN * (W * (m * q)) := by ring
      rw [hblock, Keeps, Keeps, Nat.mul_add_mod, Nat.mul_add_div h.codeRateParamaterN_pos,
        Nat.mul_add_mod]
    rw [Nat.succ_mul, Nat.count_add, ih, Nat.succ_mul, h.codeRatePuncturingN_eq]
    simp only [hperiod]

/-- The length of the punctured vector gives that of the original one. -/
theorem depuncturedLength_eq (h : Rates coder W q) {m : ℕ} {p : BitVector}
    (hsize : p.size = m * coder.codeRatePuncturingN)
    (hinformation : m * coder.codeRatePuncturingK < 2 ^ 31)
    (hencoded : m * (coder.codeRateParamaterN * (W * q)) < 2 ^ 31) :
    coder.depuncturedLength p = (m * (coder.codeRateParamaterN * (W * q)) : ℕ) := by
  have hunsigned : ∀ n : ℕ, n < 2 ^ 31 → toUnsigned n = n := fun n hn => by
    rw [toUnsigned]
    omega
  have hdiv : m * coder.codeRatePuncturingK / coder.codeRateParamaterK = m * (W * q) := by
    rw [h.codeRatePuncturingK_eq, Nat.mul_left_comm,
      Nat.mul_div_cancel_left _ h.codeRateParamaterK_pos]
  have hlength : m * (W * q) * coder.codeRateParamaterN =
      m * (coder.codeRateParamaterN * (W * q)) := by ring
  rw [depuncturedLength, hsize, Nat.mul_div_cancel _ h.codeRatePuncturingN_pos]
  rw [toInt_of (x := (m * coder.codeRatePuncturingK : ℕ)) (by omega), hunsigned _ hinformation,
    hdiv, hlength, toInt_of (by omega)]

end

/-- What depuncturing makes of a punctured vector. -/
structure Inverts (coder : ConvolutionalCoder) (c p d isPunctured : BitVector) : Prop where
  punctured : coder.puncturing c = .ok p
  depunctured : coder.depuncturing p = .ok (d, isPunctured)
  size : d.size = c.size
  size_isPunctured : isPunctured.size = c.size
  /-- The bits at the positions that are not flagged are those that have been left. -/
  flagged : p.toBits = ((List.range c.size).filter fun i => isPunctured.bit i = false).map c.bit
  bit : ∀ i < c.size, isPunctured.bit i = false → d.bit i = c.bit i
  /-- At the end of the loop, `idx` has passed all bits of the punctured vector. -/
  reads : depuncturingLoop p isPunctured c.size = .ok (d, p.size)
  once : ∀ k < p.size, ∃! i, i < c.size ∧ isPunctured.bit i = false ∧
    Nat.count (fun j => isPunctured.bit j = false) i = k
  read : ∀ i < c.size, isPunctured.bit i = false →
    d.bit i = p.bit (Nat.count (fun j => isPunctured.bit j = false) i)

/-- Depuncturing inverts puncturing: a vector that a whole number of blocks has been encoded to
is restored at the positions that are not flagged. -/
theorem depuncturing_puncturing {coder : ConvolutionalCoder} {W q : ℕ} (h : Rates coder W q)
    {n : ℕ} (hblocks : coder.codeRatePuncturingK ∣ n) (hn : n < 2 ^ 31) {c : BitVector}
    (hc : c.size = n / coder.codeRateParamaterK * coder.codeRateParamaterN)
    (hsize : c.size < 2 ^ 31) : ∃ p d isPunctured, Inverts coder c p d isPunctured := by
  obtain ⟨m, rfl⟩ := hblocks
  rw [Nat.mul_comm coder.codeRatePuncturingK m] at hn hc
  have hlength : c.size = m * (coder.codeRateParamaterN * (W * q)) := by
    rw [hc, h.codeRatePuncturingK_eq, Nat.mul_left_comm,
      Nat.mul_div_cancel_left _ h.codeRateParamaterK_pos]
    ring
  obtain ⟨isPunctured, hindices, hflagsize, hflags⟩ := getPuncturedIndices_spec
    c.size h.codeRateParamaterN_pos h.columns h.columns_pos
  have hself : ∀ i < c.size,
      isPunctured.bit i = decide (¬ isPunctured.bit i = false) := fun i _ => by simp
  obtain ⟨p, hp, hselection⟩ := puncturing_spec hindices hflagsize hself
  have hkept : Nat.count (fun i => isPunctured.bit i = false) c.size =
      m * coder.codeRatePuncturingN := by
    rw [← count_blocks h m, ← hlength]
    refine List.countP_congr fun i hi => ?_
    simp [hflags i (List.mem_range.mp hi)]
  obtain ⟨d, hloop, hd, hbits⟩ := depuncturingLoop_spec hflagsize hself hselection.size
  have hread : ∀ i < c.size, isPunctured.bit i = false →
      d.bit i = p.bit (Nat.count (fun j => isPunctured.bit j = false) i) := fun i hi hfalse => by
    rw [hbits i hi, if_pos hfalse]
  refine ⟨p, d, isPunctured, hp, ?_, hd, hflagsize, ?_, fun i hi hfalse => ?_, hloop,
    fun k hk => ?_, hread⟩
  · have hlength' := depuncturedLength_eq h (hselection.size.trans hkept) hn (hlength ▸ hsize)
    have hassert : assert (decide (p.size % coder.codeRatePuncturingN = 0))
        "decodedBits.getSize() % codeRatePuncturingN == 0" = .ok () :=
      assert_of (by rw [hselection.size, hkept, Nat.mul_mod_left]; rfl) _
    have hunsigned : toUnsigned (c.size : ℕ) = c.size := by
      rw [toUnsigned]
      omega
    rw [depuncturing, hassert, Result.ok_bind, hlength', ← hlength]
    simp only [hunsigned, hindices, Result.ok_bind, Int.toNat_natCast, hloop]
  · rw [BitVector.toBits, hselection.size]
    exact map_range_count c.size hselection.bit
  · rw [hread i hi hfalse]
    exact hselection.bit i hi hfalse
  · exact existsUnique_count (hselection.size ▸ hk)

/-- A vector of four bits in two streams, of which the matrix leaves out the last bit. -/
theorem depuncturing_puncturing_four : ∃ p d isPunctured,
    Inverts ⟨1, 2, 2, 3, [⟨3#32, 2⟩, ⟨1#32, 2⟩], rfl⟩ (BitVector.new.appendBits true 4) p d
      isPunctured :=
  depuncturing_puncturing (W := 2) (q := 1) (n := 2)
    ⟨by decide, by decide, by decide, by decide, by decide, by decide, by decide⟩ (by decide)
    (by decide) (by decide) (by decide)

end Inet.Physicallayer.ConvolutionalCoder
