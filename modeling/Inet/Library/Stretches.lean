import Mathlib

/-!
# Stretches of marked elements

In a list some elements are marked. `behindLast` is the place behind the last marked one, and
`stretches` is the number of maximal stretches of them. What is counted behind a place does not
grow with the place (`stretches_drop_antitone`, `countP_drop_antitone`), and it is the same all
over a part without marks (`stretches_drop_eq`, `countP_drop_eq`).
-/

namespace Stretches

open List hiding getElem?_eq_some_iff

variable {α : Type*} (p : α → Bool)

/-- The place behind the last marked element, 0 if there is none. -/
def behindLast : List α → ℕ
  | [] => 0
  | a :: l => if behindLast l = 0 then (if p a then 1 else 0) else behindLast l + 1

/-- The number of stretches; `prev` says whether the element before the list is marked. -/
def stretches : Bool → List α → ℕ
  | _, [] => 0
  | prev, a :: l => (if p a && !prev then 1 else 0) + stretches (p a) l

variable {p} {l l₁ l₂ : List α} {a : α} {k k' n : ℕ}

theorem behindLast_le_length (l : List α) : behindLast p l ≤ l.length := by
  induction l with
  | nil => exact Nat.le_refl 0
  | cons a l ih =>
    rw [behindLast, length_cons]
    split_ifs <;> omega

theorem behindLast_append (l₁ l₂ : List α) : behindLast p (l₁ ++ l₂) =
      if behindLast p l₂ = 0 then behindLast p l₁ else l₁.length + behindLast p l₂ := by
  induction l₁ with
  | nil =>
    rw [nil_append]
    split_ifs with h
    · exact h
    · simp
  | cons a l₁ ih =>
    rw [cons_append, behindLast, ih, behindLast, length_cons]
    by_cases h₂ : behindLast p l₂ = 0
    · simp only [h₂, if_true]
    · rw [if_neg h₂, if_neg h₂, if_neg (by omega)]
      omega

theorem behindLast_replicate (n : ℕ) (a : α) :
    behindLast p (List.replicate n a) = if p a then n else 0 := by
  induction n with
  | zero => simp [behindLast]
  | succ n ih =>
    rw [replicate_succ, behindLast, ih]
    cases hp : p a
    · simp
    · rcases n with _ | n <;> simp

/-- There are no marks behind the last one. -/
theorem not_of_behindLast_le (hk : behindLast p l ≤ k) (ha : l[k]? = some a) : p a = false := by
  induction l generalizing k with
  | nil => simp at ha
  | cons b l ih =>
    rw [behindLast] at hk
    cases k with
    | zero =>
      obtain rfl : b = a := by simpa using ha
      split_ifs at hk with _ hb
      · omega
      · simpa using hb
      · omega
    | succ k =>
      refine @ih k ?_ (by simpa using ha)
      split_ifs at hk <;> omega

/-- The last mark is just before. -/
theorem exists_marked_of_behindLast_pos (h : 0 < behindLast p l) :
    ∃ a, l[behindLast p l - 1]? = some a ∧ p a = true := by
  induction l with
  | nil => exact absurd h (Nat.lt_irrefl 0)
  | cons b l ih =>
    rw [behindLast] at h ⊢
    by_cases hrest : behindLast p l = 0
    · rw [if_pos hrest] at h ⊢
      by_cases hb : p b = true
      · rw [if_pos hb]
        exact ⟨b, rfl, hb⟩
      · rw [if_neg hb] at h
        exact absurd h (Nat.lt_irrefl 0)
    · obtain ⟨a, ha, hp⟩ := ih (by omega)
      refine ⟨a, ?_, hp⟩
      rw [if_neg hrest, Nat.add_sub_cancel]
      obtain ⟨m, hm⟩ := Nat.exists_eq_succ_of_ne_zero hrest
      rw [hm] at ha ⊢
      simpa using ha

/-- A part with equal marks lies before the place behind the last mark, or behind it. -/
theorem lt_behindLast_iff {m j : ℕ}
    (hall : ∀ j, k ≤ j → j < k + m → l[j]? = some a) (hj : k ≤ j) (hjm : j < k + m) :
    j < behindLast p l ↔ k < behindLast p l := by
  refine ⟨fun h => by omega, fun h => ?_⟩
  by_contra hle
  obtain ⟨b, hb, hmark⟩ := exists_marked_of_behindLast_pos (Nat.zero_lt_of_lt h)
  obtain rfl := Option.some.inj ((hall _ (by omega) (by omega)).symm.trans hb)
  have hnot := not_of_behindLast_le (Nat.le_of_not_lt hle) (hall j hj hjm)
  rw [hmark] at hnot
  cases hnot

theorem stretches_le_length (prev : Bool) (l : List α) : stretches p prev l ≤ l.length := by
  induction l generalizing prev with
  | nil => exact Nat.le_refl 0
  | cons a l ih =>
    have := ih (p a)
    rw [stretches, length_cons]
    split_ifs <;> omega

theorem stretches_false_le (l : List α) : stretches p false l ≤ stretches p true l + 1 := by
  cases l with
  | nil => simp [stretches]
  | cons a l =>
    simp only [stretches, Bool.not_false, Bool.and_true, Bool.not_true, Bool.and_false,
      Bool.false_eq_true, if_false]
    split_ifs <;> omega

/-- An element without a mark starts no stretch. -/
theorem stretches_cons_of_not (ha : p a = false) :
    stretches p false (a :: l) = stretches p false l := by
  simp [stretches, ha]

theorem stretches_tail_le (a : α) (l : List α) :
    stretches p false l ≤ stretches p false (a :: l) := by
  have := stretches_false_le (p := p) l
  cases ha : p a
  · exact Nat.le_of_eq (stretches_cons_of_not ha).symm
  · simp only [stretches, ha, Bool.not_false, Bool.and_true, if_true]
    omega

theorem stretches_replicate_append (hn : 0 < n) (prev : Bool) (a : α) (l : List α) :
    stretches p prev (List.replicate n a ++ l) =
      (if p a && !prev then 1 else 0) + stretches p (p a) l := by
  obtain ⟨n, rfl⟩ := Nat.exists_eq_succ_of_ne_zero (Nat.ne_of_gt hn)
  rw [replicate_succ, cons_append, stretches]
  congr 1
  clear hn
  induction n with
  | zero => rfl
  | succ n ih =>
    rw [replicate_succ, cons_append, stretches, ih]
    simp

theorem drop_eq_cons (ha : l[k]? = some a) : l.drop k = a :: l.drop (k + 1) := by
  obtain ⟨hk, rfl⟩ := List.getElem?_eq_some_iff.mp ha
  exact List.drop_eq_getElem_cons hk

theorem stretches_drop_antitone (h : k ≤ k') :
    stretches p false (l.drop k') ≤ stretches p false (l.drop k) := by
  induction h with
  | refl => exact Nat.le_refl _
  | @step m _ ih =>
    refine Nat.le_trans ?_ ih
    by_cases hm : m < l.length
    · rw [drop_eq_getElem_cons hm]
      exact stretches_tail_le _ _
    · rw [drop_eq_nil_of_le (by omega : l.length ≤ m + 1)]
      exact Nat.zero_le _

theorem countP_drop_antitone (h : k ≤ k') : (l.drop k').countP p ≤ (l.drop k).countP p := by
  obtain ⟨d, rfl⟩ := Nat.exists_eq_add_of_le h
  rw [← drop_drop]
  exact (drop_sublist d _).countP_le

section

variable (h : k ≤ k') (hp : ∀ j a, k ≤ j → j < k' → l[j]? = some a → p a = false)

include h hp

/-- Over a stretch without marks the number of stretches behind does not change. -/
theorem stretches_drop_eq :
    stretches p false (l.drop k') = stretches p false (l.drop k) := by
  induction h with
  | refl => rfl
  | @step m hm ih =>
    rw [← ih fun j a hkj hjm => hp j a hkj (by omega)]
    cases ha : l[m]? with
    | none =>
      have := getElem?_eq_none_iff.mp ha
      rw [drop_eq_nil_of_le (by omega), drop_eq_nil_of_le this]
    | some a =>
      rw [drop_eq_cons ha, stretches_cons_of_not (hp m a hm (by omega) ha)]

theorem countP_drop_eq :
    (l.drop k').countP p = (l.drop k).countP p := by
  induction h with
  | refl => rfl
  | @step m hm ih =>
    rw [← ih fun j a hkj hjm => hp j a hkj (by omega)]
    cases ha : l[m]? with
    | none =>
      have := getElem?_eq_none_iff.mp ha
      rw [drop_eq_nil_of_le (by omega), drop_eq_nil_of_le this]
    | some a =>
      have hnot := hp m a hm (by omega) ha
      rw [drop_eq_cons ha, countP_cons_of_neg (by simp [hnot])]

end

end Stretches
