import Mathlib

/-!
# Serial number arithmetic

A counter that never stops is carried in a word of `w` bits and compared on the
circle of `2 ^ w` words: `a` is before `b` when the way up from `a` to `b` is
shorter than half the circle. This is only an order as long as the compared
numbers are close to each other.

`ofPos base p` is the word that carries position `p` of a counter started at
`base`. The main lemmas say that for positions less than half the circle apart
the comparisons of the words are the comparisons of the positions, so that a
program on wrapping numbers can be verified as a program on natural numbers.
-/

namespace SerialNumber

variable {w : ℕ} {base : BitVec w} {p q : ℕ}

/-- `a` is at `b` or before it. -/
def le (a b : BitVec w) : Bool := decide ((b - a).toNat < 2 ^ (w - 1))

/-- `a` is strictly before `b`. -/
def lt (a b : BitVec w) : Bool := a != b && le a b

/-- The word at position `p` of a counter whose position `0` is `base`. -/
def ofPos (base : BitVec w) (p : ℕ) : BitVec w := base + BitVec.ofNat w p

/-- Two positions less than half the circle apart. -/
def Near (w p q : ℕ) : Prop := p < q + 2 ^ (w - 1) ∧ q < p + 2 ^ (w - 1)

/-- The position of `x`, seen from the position `ref` of the word `r`. -/
def unwrap (ref : ℕ) (r x : BitVec w) : ℕ :=
  if le r x then ref + (x - r).toNat else ref - (r - x).toNat

theorem Near.symm (h : Near w p q) : Near w q p := ⟨h.2, h.1⟩

theorem Near.refl (w p : ℕ) : Near w p p :=
  ⟨Nat.lt_add_of_pos_right (Nat.two_pow_pos _), Nat.lt_add_of_pos_right (Nat.two_pow_pos _)⟩

@[simp] theorem ofPos_zero (base : BitVec w) : ofPos base 0 = base := by
  simp [ofPos]

theorem ofPos_add (base : BitVec w) (p n : ℕ) :
    ofPos base (p + n) = ofPos base p + BitVec.ofNat w n := by
  simp only [ofPos, BitVec.ofNat_add, BitVec.add_assoc]

theorem ofPos_succ (base : BitVec w) (p : ℕ) :
    ofPos base (p + 1) = ofPos base p + 1#w := ofPos_add base p 1

theorem ofPos_ofPos (base : BitVec w) (p n : ℕ) :
    ofPos (ofPos base p) n = ofPos base (p + n) := (ofPos_add base p n).symm

/-- Counting from a later position. -/
theorem ofPos_sub {x : BitVec w} {n : ℕ} (hx : x = ofPos base p) (hp : p ≤ n) :
    ofPos x (n - p) = ofPos base n := by
  rw [hx, ofPos_ofPos, Nat.add_sub_cancel' hp]

/-- Every word is a position of the counter: its distance from the base. -/
theorem ofPos_toNat_sub (base x : BitVec w) : ofPos base (x - base).toNat = x := by
  rw [ofPos, BitVec.ofNat_toNat, BitVec.setWidth_eq, BitVec.add_comm, BitVec.sub_add_cancel]

/-- Every number is at some place from the base on. -/
theorem exists_ofPos (base x : BitVec w) : ∃ d < 2 ^ w, (x - base).toNat = d ∧ x = ofPos base d :=
  ⟨_, (x - base).isLt, rfl, (ofPos_toNat_sub base x).symm⟩

theorem ofPos_sub_ofPos (h : p ≤ q) : ofPos base q - ofPos base p = BitVec.ofNat w (q - p) := by
  obtain ⟨n, rfl⟩ := Nat.exists_eq_add_of_le h
  rw [ofPos_add, BitVec.add_comm, BitVec.add_sub_cancel, Nat.add_sub_cancel_left]

/-- The way up between two positions. -/
theorem toNat_ofPos_sub (h : p ≤ q) (hd : q - p < 2 ^ w) :
    (ofPos base q - ofPos base p).toNat = q - p := by
  rw [ofPos_sub_ofPos h, BitVec.toNat_ofNat, Nat.mod_eq_of_lt hd]

theorem toNat_ofPos_sub_base (hp : p < 2 ^ w) : (ofPos base p - base).toNat = p := by
  have h := @toNat_ofPos_sub w base 0 p (Nat.zero_le p) hp
  rwa [ofPos_zero, Nat.sub_zero] at h

/-- The way from a position up to an earlier one goes around the circle. -/
theorem toNat_ofPos_sub_of_lt (h : q < p) (hd : p - q < 2 ^ w) :
    (ofPos base q - ofPos base p).toNat = 2 ^ w - (p - q) := by
  have hneg : ofPos base q - ofPos base p = -(ofPos base p - ofPos base q) := by
    rw [BitVec.sub_eq_add_neg (ofPos base p), BitVec.neg_add, BitVec.sub_neg, BitVec.add_comm,
      ← BitVec.sub_eq_add_neg]
  rw [hneg, BitVec.toNat_neg, toNat_ofPos_sub (Nat.le_of_lt h) hd]
  exact Nat.mod_eq_of_lt (by omega)

theorem two_pow_eq (hw : 0 < w) : 2 ^ w = 2 ^ (w - 1) + 2 ^ (w - 1) := by
  obtain ⟨n, rfl⟩ := Nat.exists_eq_add_of_lt hw
  rw [Nat.zero_add, Nat.add_sub_cancel, Nat.pow_succ, Nat.mul_two]

theorem ofPos_inj (hw : 0 < w) (h : Near w p q) : ofPos base p = ofPos base q ↔ p = q := by
  constructor
  · intro heq
    have hpow := two_pow_eq hw
    obtain ⟨h₁, h₂⟩ := h
    rcases Nat.le_total p q with hle | hle
    · have hd : (ofPos base q - ofPos base p).toNat = q - p := toNat_ofPos_sub hle (by omega)
      rw [heq, BitVec.sub_self, BitVec.toNat_zero] at hd
      omega
    · have hd : (ofPos base p - ofPos base q).toNat = p - q := toNat_ofPos_sub hle (by omega)
      rw [heq, BitVec.sub_self, BitVec.toNat_zero] at hd
      omega
  · rintro rfl
    rfl

/-- Two positions with the same number are equal or a whole round apart. -/
theorem eq_of_ofPos_eq (h : ofPos base p = ofPos base q) (hp : p < q + 2 ^ w) (hq : q < p + 2 ^ w) :
    p = q := by
  have hle : ∀ {p q : ℕ}, ofPos base p = ofPos base q → p ≤ q → q < p + 2 ^ w → p = q := by
    intro p q heq hpq hlt
    have hd := @toNat_ofPos_sub w base p q hpq (Nat.sub_lt_left_of_lt_add hpq hlt)
    rw [heq, BitVec.sub_self, BitVec.toNat_zero] at hd
    omega
  obtain hpq | hpq := Nat.le_total p q
  · exact hle h hpq hq
  · exact (hle h.symm hpq hp).symm

/-- On near positions the circular order is the order of the positions. -/
theorem le_ofPos (hw : 0 < w) (h : Near w p q) :
    le (ofPos base p) (ofPos base q) = decide (p ≤ q) := by
  have hpow := two_pow_eq hw
  obtain ⟨h₁, h₂⟩ := h
  rw [le, decide_eq_decide]
  rcases Nat.lt_or_ge q p with hlt | hle
  · rw [toNat_ofPos_sub_of_lt hlt (by omega)]
    omega
  · rw [toNat_ofPos_sub hle (by omega)]
    omega

theorem lt_ofPos (hw : 0 < w) (h : Near w p q) :
    lt (ofPos base p) (ofPos base q) = decide (p < q) := by
  rw [lt, le_ofPos hw h, Bool.eq_iff_iff, Bool.and_eq_true, bne_iff_ne, ne_eq, ofPos_inj hw h]
  simp only [decide_eq_true_eq]
  omega

/-- A position is recovered from its word and any near position. -/
theorem unwrap_ofPos {ref : ℕ} (hw : 0 < w) (h : Near w ref p) :
    unwrap ref (ofPos base ref) (ofPos base p) = p := by
  have hpow := two_pow_eq hw
  rw [unwrap, le_ofPos hw h]
  obtain ⟨h₁, h₂⟩ := h
  by_cases hle : ref ≤ p
  · rw [if_pos (by simpa using hle), toNat_ofPos_sub hle (by omega)]
    omega
  · rw [if_neg (by simpa using hle), toNat_ofPos_sub (by omega) (by omega)]
    omega

end SerialNumber
