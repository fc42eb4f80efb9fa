import Mathlib

/-!
# Searches round a ring

A loop walks through the numbers below `n`, from some place on and round the ring, and ends behind
the number `last` or when its body has found enough. `run` is the loop with a bound on its rounds,
`foldUntil` what it computes, on the list of the numbers that it walks through.

The first minimum of a list is `List.argmin`. The last section says when a list in front of another
one, or an element behind it, makes no difference to the first minimum.
-/

namespace CyclicSearch

variable {α : Type*} {body : α → ℕ → α} {again : α → Bool} {n last : ℕ}

/-- `do { i = (i + 1) % n; body } while (again && i != last)` in at most `fuel` rounds; `next` is
`i + 1`. -/
def run (n last : ℕ) (body : α → ℕ → α) (again : α → Bool) : ℕ → ℕ → α → Option α
  | 0, _, _ => none
  | fuel + 1, next, a =>
    let i := next % n
    let a := body a i
    if again a && i ≠ last then run n last body again fuel (i + 1) a else some a

/-- A fold that ends early. -/
def foldUntil (body : α → ℕ → α) (again : α → Bool) : List ℕ → α → α
  | [], a => a
  | i :: l, a =>
    let a := body a i
    if again a then foldUntil body again l a else a

theorem foldUntil_true (l : List ℕ) (a : α) :
    foldUntil body (fun _ => true) l a = l.foldl body a := by
  induction l generalizing a with
  | nil => rfl
  | cons i l ih => exact ih (body a i)

/-- A loop that ends when it has found a number is `find?`. -/
theorem foldUntil_find {p : ℕ → Bool} (l : List ℕ) :
    foldUntil (fun found i => if p i then some i else found) Option.isNone l none = l.find? p := by
  induction l with
  | nil => rfl
  | cons i l ih =>
    rw [foldUntil, List.find?_cons]
    cases hp : p i with
    | true => simp
    | false => simpa using ih

/-- From a number up to `last`. -/
theorem run_of_le (hlast : last < n) {fuel i : ℕ} (hi : i ≤ last) (hfuel : last < fuel + i)
    (a : α) : run n last body again fuel i a =
      some (foldUntil body again (List.range' i (last + 1 - i)) a) := by
  induction fuel generalizing i a with
  | zero => omega
  | succ fuel ih =>
    have hmod : i % n = i := Nat.mod_eq_of_lt (by omega)
    obtain ⟨len, hlen⟩ : ∃ len, last + 1 - i = len + 1 := ⟨last - i, by omega⟩
    rw [run, hmod, hlen, List.range'_succ, foldUntil]
    by_cases heq : i = last
    · obtain rfl : len = 0 := by omega
      simp [heq, foldUntil]
    · have hrest := ih (i := i + 1) (by omega) (by omega) (body a i)
      rw [show last + 1 - (i + 1) = len by omega] at hrest
      rw [hrest]
      cases again (body a i) <;> simp [heq]

/-- Behind the last number of the ring comes zero. -/
theorem run_self (fuel : ℕ) (a : α) :
    run n last body again fuel n a = run n last body again fuel 0 a := by
  cases fuel with
  | zero => rfl
  | succ fuel => rw [run, run, Nat.mod_self, Nat.zero_mod]

/-- From a number behind `last`, to the end of the ring and from its start up to `last`. -/
theorem run_of_lt (hlast : last < n) {fuel i : ℕ} (hi : last < i) (hn : i ≤ n)
    (hfuel : n + last < fuel + i) (a : α) : run n last body again fuel i a =
      some (foldUntil body again (List.range' i (n - i) ++ List.range' 0 (last + 1)) a) := by
  induction fuel generalizing i a with
  | zero => omega
  | succ fuel ih =>
    obtain rfl | hlt := hn.eq_or_lt
    · rw [run_self, run_of_le hlast (Nat.zero_le _) (by omega), Nat.sub_self, Nat.sub_zero]
      rfl
    · have hmod : i % n = i := Nat.mod_eq_of_lt hlt
      have hrest := ih (i := i + 1) (by omega) (by omega) (by omega) (body a i)
      have hlen : n - i = n - (i + 1) + 1 := by omega
      rw [run, hmod, hlen, List.range'_succ, List.cons_append, foldUntil, hrest]
      have hne : i ≠ last := by omega
      cases again (body a i) <;> simp [hne]

end CyclicSearch

namespace List

variable {α β : Type*} [LinearOrder β] {f : α → β} {l l' : List α} {a : α}

/-- The search for a first minimum. -/
theorem foldl_eq_argmin (l : List α) : l.foldl (fun best a => match best with
      | none => some a
      | some b => if f a < f b then some a else some b) none = l.argmin f := by
  rw [argmin]
  congr 1
  funext best a
  cases best <;> rfl

theorem argmin_concat_eq_some_iff (h : a ∉ l) :
    (l ++ [a]).argmin f = some a ↔ ∀ b ∈ l, f a < f b := by
  rw [argmin_concat]
  cases hl : l.argmin f with
  | none =>
    rw [argmin_eq_none.mp hl]
    simp
  | some c =>
    have hc : c ∈ l := argmin_mem hl
    have hall : f a < f c ↔ ∀ b ∈ l, f a < f b :=
      ⟨fun hlt b hb => hlt.trans_le (le_of_mem_argmin hb hl), fun hlt => hlt c hc⟩
    rw [← hall]
    dsimp only
    split_ifs with hlt
    · exact iff_of_true rfl hlt
    · exact iff_of_false (fun heq => h (Option.some.inj heq ▸ hc)) hlt

/-- The first minimum of two lists is that of the first one, unless the other one has less. -/
theorem argmin_append (l l' : List α) : (l ++ l').argmin f = match l.argmin f, l'.argmin f with
      | none, best => best
      | some b, none => some b
      | some b, some c => if f c < f b then some c else some b := by
  induction l' using reverseRecOn with
  | nil => cases hl : l.argmin f <;> simp [hl]
  | append_singleton l' a ih =>
    rw [← append_assoc, argmin_concat, ih, argmin_concat]
    cases l.argmin f with
    | none => rfl
    | some b =>
      cases l'.argmin f with
      | none => rfl
      | some c =>
        by_cases hcb : f c < f b <;> by_cases hac : f a < f c
        · simp [hcb, hac, hac.trans hcb]
        · simp [hcb, hac]
        · simp [hcb, hac]
        · have hab : ¬ f a < f b := fun hlt =>
            hac (hlt.trans_le (not_lt.mp hcb))
          simp [hcb, hac, hab]

theorem argmin_append_eq_right_iff (h : ∀ b ∈ l, b ∉ l') :
    (l ++ l').argmin f = l'.argmin f ↔ ∀ b ∈ l, ∃ c ∈ l', f c < f b := by
  rw [argmin_append]
  cases hl : l.argmin f with
  | none =>
    rw [argmin_eq_none.mp hl]
    simp
  | some b =>
    have hb : b ∈ l := argmin_mem hl
    cases hl' : l'.argmin f with
    | none =>
      rw [argmin_eq_none.mp hl']
      refine iff_of_false (by simp) fun hall => ?_
      obtain ⟨c, hc, -⟩ := hall b hb
      cases hc
    | some c =>
      have hc : c ∈ l' := argmin_mem hl'
      have hall : f c < f b ↔ ∀ b ∈ l, ∃ c ∈ l', f c < f b := by
        constructor
        · intro hlt b' hb'
          exact ⟨c, hc, hlt.trans_le (le_of_mem_argmin hb' hl)⟩
        · intro hall
          obtain ⟨c', hc', hlt⟩ := hall b hb
          exact (le_of_mem_argmin hc' hl').trans_lt hlt
      rw [← hall]
      dsimp only
      split_ifs with hlt
      · exact iff_of_true rfl hlt
      · refine iff_of_false (fun heq => ?_) hlt
        cases heq
        exact h b hb hc

end List
