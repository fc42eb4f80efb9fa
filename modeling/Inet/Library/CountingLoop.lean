import Mathlib

/-!
# Counting loops

`for (i = 0; i < n; i++)` with a body that may fail is a fold over `List.range n`. `range_spec` is
its rule: what holds before the `i`-th round holds before the next one, with `i + 1` for `i`.
`range_ok` is the rule for a loop of which nothing but its success is known.
-/

namespace CountingLoop

variable {σ ε : Type*} {f : σ → ℕ → Except ε σ} {s : σ} {n : ℕ}

/-- The rule of a loop that does not fail. -/
theorem range_spec (P : ℕ → σ → Prop) (start : P 0 s)
    (round : ∀ i < n, ∀ s, P i s → ∃ t, f s i = .ok t ∧ P (i + 1) t) :
    ∃ t, (List.range n).foldlM f s = .ok t ∧ P n t := by
  induction n with
  | zero => exact ⟨s, rfl, start⟩
  | succ n ih =>
    obtain ⟨t, hloop, ht⟩ := ih fun i hi => round i (Nat.lt_succ_of_lt hi)
    obtain ⟨u, hround, hu⟩ := round n (Nat.lt_succ_self n) t ht
    refine ⟨u, ?_, hu⟩
    rw [List.range_succ, List.foldlM_append, hloop]
    change List.foldlM f t [n] = Except.ok u
    rw [List.foldlM_cons, hround]
    rfl

/-- The rule of a loop that has not failed. -/
theorem range_ok (P : ℕ → σ → Prop) (start : P 0 s)
    (round : ∀ i < n, ∀ s t, P i s → f s i = .ok t → P (i + 1) t) {t : σ}
    (hloop : (List.range n).foldlM f s = .ok t) : P n t := by
  induction n generalizing t with
  | zero =>
    obtain rfl : s = t := Except.ok.inj hloop
    exact start
  | succ n ih =>
    rw [List.range_succ, List.foldlM_append] at hloop
    cases hinit : (List.range n).foldlM f s with
    | error e =>
      rw [hinit] at hloop
      cases hloop
    | ok u =>
      rw [hinit] at hloop
      change List.foldlM f u [n] = Except.ok t at hloop
      rw [List.foldlM_cons] at hloop
      cases hround : f u n with
      | error e =>
        rw [hround] at hloop
        cases hloop
      | ok v =>
        rw [hround] at hloop
        obtain rfl : v = t := Except.ok.inj hloop
        refine round n (Nat.lt_succ_self n) u v (ih (fun i hi => ?_) hinit) hround
        exact round i (Nat.lt_succ_of_lt hi)

/-- Every round of a loop that has not failed has not failed. -/
theorem exists_round {t : σ} (hloop : (List.range n).foldlM f s = .ok t) {i : ℕ} (hi : i < n) :
    ∃ u v, f u i = .ok v := by
  refine range_ok (fun k _ => i < k → ∃ u v, f u i = .ok v) (fun h => absurd h (Nat.not_lt_zero i))
    (fun k _ u v ih hround hk => ?_) hloop hi
  obtain hlt | rfl := Nat.lt_succ_iff_lt_or_eq.mp hk
  · exact ih hlt
  · exact ⟨u, v, hround⟩

end CountingLoop
