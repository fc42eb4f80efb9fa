import Mathlib

/-!
# Ones' complement sums

In ones' complement the numbers up to `m` are added with an end-around carry. The sum of a list is
its ordinary sum taken modulo `m`, where of the two names `0` and `m` of zero the first one stands
for an empty sum only. `reduce` is this choice of a residue.
-/

namespace OnesComplement

variable {m a b n : ℕ}

/-- Addition with an end-around carry. -/
def add (m a b : ℕ) : ℕ := if m < a + b then a + b - m else a + b

/-- The ones' complement sum of a list. -/
def sum (m : ℕ) (ws : List ℕ) : ℕ := ws.foldl (add m) 0

/-- The number up to `m` that stands for `n`. -/
def reduce (m n : ℕ) : ℕ := if n = 0 then 0 else (n - 1) % m + 1

theorem reduce_of_pos (h : 0 < n) : reduce m n = (n - 1) % m + 1 := if_neg h.ne'

theorem reduce_le (hm : 0 < m) : reduce m n ≤ m := by
  unfold reduce
  split
  · exact Nat.zero_le m
  · exact Nat.mod_lt _ hm

theorem reduce_eq_zero_iff : reduce m n = 0 ↔ n = 0 := by
  unfold reduce
  split <;> simp_all

theorem reduce_of_le (h : n ≤ m) : reduce m n = n := by
  rcases Nat.eq_zero_or_pos n with rfl | hn
  · rfl
  · rw [reduce_of_pos hn, Nat.mod_eq_of_lt (by omega)]
    omega

theorem reduce_modEq : reduce m n ≡ n [MOD m] := by
  rcases Nat.eq_zero_or_pos n with rfl | hn
  · rfl
  · rw [reduce_of_pos hn]
    have h : (n - 1) % m + 1 ≡ (n - 1) + 1 [MOD m] := (Nat.mod_modEq _ _).add_right 1
    rwa [Nat.sub_add_cancel hn] at h

/-- Congruent numbers have one representative, unless just one of them is zero. -/
theorem reduce_eq_iff : reduce m a = reduce m b ↔ a ≡ b [MOD m] ∧ (a = 0 ↔ b = 0) := by
  refine ⟨fun h => ⟨?_, ?_⟩, fun ⟨h, hzero⟩ => ?_⟩
  · exact reduce_modEq.symm.trans ((congrArg (· % m) h).trans reduce_modEq)
  · rw [← reduce_eq_zero_iff (m := m), h, reduce_eq_zero_iff]
  · rcases Nat.eq_zero_or_pos a with rfl | ha
    · rw [hzero.mp rfl]
    · have hb : 0 < b := Nat.pos_of_ne_zero fun h0 => ha.ne' (hzero.mpr h0)
      have hpred : a - 1 ≡ b - 1 [MOD m] := by
        refine Nat.ModEq.add_right_cancel' 1 ?_
        rwa [Nat.sub_add_cancel ha, Nat.sub_add_cancel hb]
      rw [reduce_of_pos ha, reduce_of_pos hb, hpred]

theorem add_eq_reduce (ha : a ≤ m) (hb : b ≤ m) : add m a b = reduce m (a + b) := by
  unfold add
  split
  · rename_i h
    have hsplit : a + b - 1 = (a + b - m - 1) + m := by omega
    rw [reduce_of_pos (by omega), hsplit, Nat.add_mod_right, Nat.mod_eq_of_lt (by omega)]
    omega
  · exact (reduce_of_le (by omega)).symm

/-- A partial sum may be reduced. -/
theorem reduce_add : reduce m (reduce m a + b) = reduce m (a + b) := by
  refine reduce_eq_iff.mpr ⟨reduce_modEq.add_right b, ?_⟩
  rw [Nat.add_eq_zero_iff, Nat.add_eq_zero_iff, reduce_eq_zero_iff]

theorem foldl_add (hm : 0 < m) {ws : List ℕ} (hws : ∀ w ∈ ws, w ≤ m) (ha : a ≤ m) :
    ws.foldl (add m) a = reduce m (a + ws.sum) := by
  induction ws generalizing a with
  | nil => simp [reduce_of_le ha]
  | cons w ws ih =>
    have hw : w ≤ m := hws w List.mem_cons_self
    have hrest : ∀ v ∈ ws, v ≤ m := fun v hv => hws v (List.mem_cons_of_mem w hv)
    rw [List.foldl_cons, add_eq_reduce ha hw, ih hrest (reduce_le hm), reduce_add,
      List.sum_cons, Nat.add_assoc]

/-- The ones' complement sum of a list is its sum, reduced. -/
theorem sum_eq_reduce (hm : 0 < m) {ws : List ℕ} (hws : ∀ w ∈ ws, w ≤ m) :
    sum m ws = reduce m ws.sum := by
  rw [sum, foldl_add hm hws (Nat.zero_le m), Nat.zero_add]

/-- Adding the upper digits of a number to its last one keeps its representative. -/
theorem reduce_carry : reduce m (n % (m + 1) + n / (m + 1)) = reduce m n := by
  have hsplit : n % (m + 1) + n / (m + 1) + m * (n / (m + 1)) = n := by
    have := Nat.mod_add_div n (m + 1)
    rw [Nat.add_mul, Nat.one_mul] at this
    omega
  refine reduce_eq_iff.mpr ⟨?_, ?_⟩
  · have h : n % (m + 1) + n / (m + 1) ≡ n % (m + 1) + n / (m + 1) + m * (n / (m + 1)) [MOD m] :=
      (Nat.add_mul_mod_self_left _ _ _).symm
    rwa [hsplit] at h
  · constructor
    · intro h
      obtain ⟨hmod, hquot⟩ := Nat.add_eq_zero_iff.mp h
      rw [hmod, hquot] at hsplit
      exact hsplit.symm
    · rintro rfl
      simp

/-- What is stored to complete a sum: with it the sum is the other zero. -/
theorem reduce_add_complement (hm : 0 < m) : reduce m (n + (m - reduce m n)) = m := by
  have hle : reduce m n ≤ m := reduce_le hm
  rw [← reduce_add, Nat.add_sub_cancel' hle, reduce_of_le (Nat.le_refl m)]

/-- A number stands for `m` only if it is a multiple of it. -/
theorem modEq_zero_of_reduce (h : reduce m n = m) : n ≡ 0 [MOD m] := by
  have := (reduce_modEq (m := m) (n := n)).symm
  rw [h] at this
  exact this.trans (Nat.modEq_zero_iff_dvd.mpr dvd_rfl)

end OnesComplement
