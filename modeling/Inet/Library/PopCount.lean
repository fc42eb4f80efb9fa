import Mathlib

/-!
# Counting bits by adding fields

The bits of a word are counted by adding neighbouring fields of it in parallel: fields of one bit,
then of two bits, and so on. The even fields of a word are masked out (`and_evenMask`); adding them
to the odd ones gives fields of twice the width with the same sum (`digitSum_add`).
-/

namespace PopCount

variable {w : ℕ}

/-- The sum of the first `n` fields of width `w`. -/
def digitSum (w : ℕ) : ℕ → ℕ → ℕ
  | 0, _ => 0
  | n + 1, x => x % 2 ^ w + digitSum w n (x / 2 ^ w)

/-- The first `n` even fields of width `w`, in their places. -/
def evenDigits (w : ℕ) : ℕ → ℕ → ℕ
  | 0, _ => 0
  | n + 1, x => x % 2 ^ w + 2 ^ (2 * w) * evenDigits w n (x / 2 ^ (2 * w))

/-- The mask of the even fields. -/
def evenMask (w : ℕ) : ℕ → ℕ
  | 0 => 0
  | n + 1 => 2 ^ w - 1 + 2 ^ (2 * w) * evenMask w n

theorem two_pow_two_mul (w : ℕ) : 2 ^ (2 * w) = 2 ^ w * 2 ^ w := by
  rw [Nat.two_mul, Nat.pow_add]

theorem div_div_two_pow (w x : ℕ) : x / 2 ^ w / 2 ^ w = x / 2 ^ (2 * w) := by
  rw [Nat.div_div_eq_div_mul, ← two_pow_two_mul]

theorem and_evenMask (n x : ℕ) : x &&& evenMask w n = evenDigits w n x := by
  induction n generalizing x with
  | zero => exact Nat.and_zero x
  | succ n ih =>
    have hpos : 0 < 2 ^ w := Nat.two_pow_pos w
    have hlt : 2 ^ w - 1 < 2 ^ (2 * w) := by
      have hle : 2 ^ w ≤ 2 ^ (2 * w) := Nat.pow_le_pow_right (by decide) (by omega)
      omega
    have hmod : (x &&& evenMask w (n + 1)) % 2 ^ (2 * w) = x % 2 ^ w := by
      rw [Nat.and_mod_two_pow, evenMask, Nat.add_mul_mod_self_left, Nat.mod_eq_of_lt hlt,
        Nat.and_two_pow_sub_one_eq_mod, Nat.mod_mod_of_dvd]
      exact Nat.pow_dvd_pow 2 (by omega)
    have hdiv : (x &&& evenMask w (n + 1)) / 2 ^ (2 * w) = evenDigits w n (x / 2 ^ (2 * w)) := by
      rw [Nat.and_div_two_pow, evenMask, Nat.add_mul_div_left _ _ (Nat.two_pow_pos _),
        Nat.div_eq_of_lt hlt, Nat.zero_add, ih]
    rw [← Nat.mod_add_div (x &&& evenMask w (n + 1)) (2 ^ (2 * w)), hmod, hdiv, evenDigits]

/-- A word is made of its even and its odd fields. -/
theorem evenDigits_add_odd (n x : ℕ) (hx : x < 2 ^ (2 * w * n)) :
    evenDigits w n x + 2 ^ w * evenDigits w n (x / 2 ^ w) = x := by
  induction n generalizing x with
  | zero =>
    obtain rfl : x = 0 := by simpa using hx
    rfl
  | succ n ih =>
    have hlt : x / 2 ^ (2 * w) < 2 ^ (2 * w * n) := by
      rw [Nat.mul_succ, Nat.add_comm, Nat.pow_add] at hx
      exact Nat.div_lt_of_lt_mul hx
    have hrest := ih _ hlt
    have hcomm : x / 2 ^ w / 2 ^ (2 * w) = x / 2 ^ (2 * w) / 2 ^ w := Nat.div_right_comm _ _ _
    have hlow := Nat.mod_add_div x (2 ^ w)
    have hhigh := Nat.mod_add_div (x / 2 ^ w) (2 ^ w)
    rw [evenDigits, evenDigits, hcomm]
    rw [div_div_two_pow] at hhigh
    calc x % 2 ^ w + 2 ^ (2 * w) * evenDigits w n (x / 2 ^ (2 * w)) + 2 ^ w * (x / 2 ^ w % 2 ^ w +
            2 ^ (2 * w) * evenDigits w n (x / 2 ^ (2 * w) / 2 ^ w))
        = x % 2 ^ w + 2 ^ w * (x / 2 ^ w % 2 ^ w) + 2 ^ (2 * w) *
            (evenDigits w n (x / 2 ^ (2 * w)) +
              2 ^ w * evenDigits w n (x / 2 ^ (2 * w) / 2 ^ w)) := by ring
      _ = x % 2 ^ w + 2 ^ w * (x / 2 ^ w % 2 ^ w + 2 ^ w * (x / 2 ^ (2 * w))) := by
          rw [hrest, two_pow_two_mul]
          ring
      _ = x := by rw [hhigh, hlow]

/-- The first field of the sum of the even and the odd fields. -/
theorem evenDigits_succ_add (n x : ℕ) : evenDigits w (n + 1) x + evenDigits w (n + 1) (x / 2 ^ w) =
      x % 2 ^ w + x / 2 ^ w % 2 ^ w + 2 ^ (2 * w) *
        (evenDigits w n (x / 2 ^ (2 * w)) + evenDigits w n (x / 2 ^ (2 * w) / 2 ^ w)) := by
  have hcomm : x / 2 ^ w / 2 ^ (2 * w) = x / 2 ^ (2 * w) / 2 ^ w := Nat.div_right_comm _ _ _
  rw [evenDigits, evenDigits, hcomm]
  ring

/-- Neighbouring fields are added. -/
theorem digitSum_add (hw : 0 < w) (n x : ℕ) :
    digitSum (2 * w) n (evenDigits w n x + evenDigits w n (x / 2 ^ w)) = digitSum w (2 * n) x := by
  induction n generalizing x with
  | zero => rfl
  | succ n ih =>
    have htwo : 2 ≤ 2 ^ w := Nat.le_self_pow hw.ne' 2
    have hsum : x % 2 ^ w + x / 2 ^ w % 2 ^ w < 2 ^ (2 * w) := by
      have h1 := Nat.mod_lt x (Nat.two_pow_pos w)
      have h2 := Nat.mod_lt (x / 2 ^ w) (Nat.two_pow_pos w)
      have h3 : 2 * 2 ^ w ≤ 2 ^ w * 2 ^ w := Nat.mul_le_mul_right _ htwo
      rw [two_pow_two_mul]
      omega
    rw [evenDigits_succ_add, digitSum, Nat.add_mul_mod_self_left, Nat.mod_eq_of_lt hsum,
      Nat.add_mul_div_left _ _ (Nat.two_pow_pos _), Nat.div_eq_of_lt hsum, Nat.zero_add, ih,
      Nat.mul_succ, digitSum, digitSum, div_div_two_pow, Nat.add_assoc]

/-- The fields of one bit are the bits. -/
theorem digitSum_one (n x : ℕ) : digitSum 1 n x = Nat.count (fun i => x.testBit i = true) n := by
  induction n generalizing x with
  | zero => rfl
  | succ n ih =>
    rw [digitSum, ih, Nat.count_succ']
    have hbit : (if x.testBit 0 = true then 1 else 0) = x % 2 := by
      rw [Nat.testBit_zero]
      have := Nat.mod_two_eq_zero_or_one x
      split_ifs with h <;> simp at h <;> omega
    rw [hbit]
    simp only [Nat.testBit_succ, Nat.pow_one]
    exact Nat.add_comm _ _

end PopCount
