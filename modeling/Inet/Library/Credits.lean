import Mathlib

/-!
# Shares that are used up and renewed

A server has credits for each client. To serve a client costs one of its credits, and a
renewal gives every client its share, whatever is left. Between two renewals no client is served
more often than its share, and if credits are renewed only when none is left, exactly
as often.
-/

namespace Credits

/-- What the server does. -/
inductive Act (ι : Type*) where
  | renew
  | serve (i : ι)
deriving DecidableEq

variable {ι : Type*} [DecidableEq ι] {share credit : ι → ℕ} {mayRenew : (ι → ℕ) → Prop}
  {acts before block after : List (Act ι)}

/-- The credits pay for the acts, and every renewal is allowed by `mayRenew`. -/
def Covers (share : ι → ℕ) (mayRenew : (ι → ℕ) → Prop) : (ι → ℕ) → List (Act ι) → Prop
  | _, [] => True
  | credit, .renew :: acts => mayRenew credit ∧ Covers share mayRenew share acts
  | credit, .serve i :: acts =>
    0 < credit i ∧ Covers share mayRenew (Function.update credit i (credit i - 1)) acts

/-- To serve `j` costs one credit of `j` and none of the others. -/
theorem count_add_of_serve (block : List (Act ι)) (i : ι) {j : ι} (hj : 0 < credit j) :
    (Act.serve j :: block).count (.serve i) + Function.update credit j (credit j - 1) i =
      block.count (.serve i) + credit i := by
  rw [List.count_cons]
  by_cases hij : i = j
  · subst hij
    simp only [beq_self_eq_true, if_true, Function.update_self]
    omega
  · simp [Function.update_of_ne hij, Ne.symm hij]

/-- Up to the first renewal the credits bound the service. -/
theorem Covers.count_le_of_front (h : Covers share mayRenew credit acts) (hfront : block <+: acts)
    (hrenew : Act.renew ∉ block) (i : ι) : block.count (.serve i) ≤ credit i := by
  induction acts generalizing credit block with
  | nil => simp [List.prefix_nil.mp hfront]
  | cons act acts ih =>
    obtain rfl | ⟨rest, rfl, hrest⟩ := List.prefix_cons_iff.mp hfront
    · simp
    · obtain ⟨hact, hlater⟩ := not_or.mp (List.mem_cons.not.mp hrenew)
      cases act with
      | renew => exact absurd rfl hact
      | serve j =>
        have hcount := count_add_of_serve rest i h.1
        have := ih h.2 hrest hlater
        omega

/-- Between two renewals the share bounds the service. -/
theorem Covers.count_le (h : Covers share mayRenew credit acts) (hcredit : ∀ i, credit i ≤ share i)
    (hblock : block <:+: acts) (hrenew : Act.renew ∉ block) (i : ι) :
    block.count (.serve i) ≤ share i := by
  induction acts generalizing credit with
  | nil => simp [List.infix_nil.mp hblock]
  | cons act acts ih =>
    obtain hfront | hrest := List.infix_cons_iff.mp hblock
    · exact (h.count_le_of_front hfront hrenew i).trans (hcredit i)
    · cases act with
      | renew => exact ih h.2 (fun _ => le_rfl) hrest
      | serve j =>
        refine ih h.2 (fun k => ?_) hrest
        have := hcredit k
        by_cases hk : k = j
        · subst hk
          rw [Function.update_self]
          omega
        · rwa [Function.update_of_ne hk]

/-- Credits that are renewed only when none is left are used up at the first renewal. -/
theorem Covers.count_eq_of_append (h : Covers share (fun c => ∀ i, c i = 0) credit acts)
    (hacts : acts = block ++ .renew :: after) (hrenew : Act.renew ∉ block) (i : ι) :
    block.count (.serve i) = credit i := by
  induction block generalizing credit acts with
  | nil =>
    subst hacts
    exact (h.1 i).symm
  | cons act block ih =>
    subst hacts
    obtain ⟨hact, hlater⟩ := not_or.mp (List.mem_cons.not.mp hrenew)
    cases act with
    | renew => exact absurd rfl hact
    | serve j =>
      have hcount := count_add_of_serve block i h.1
      have := ih h.2 rfl hlater
      omega

/-- Between two renewals, the second of which finds no credit left, the service is the share. -/
theorem Covers.count_eq (h : Covers share (fun c => ∀ i, c i = 0) credit acts)
    (hacts : acts = before ++ .renew :: (block ++ .renew :: after)) (hrenew : Act.renew ∉ block)
    (i : ι) : block.count (.serve i) = share i := by
  induction before generalizing credit acts with
  | nil =>
    subst hacts
    exact h.2.count_eq_of_append rfl hrenew i
  | cons act before ih =>
    subst hacts
    cases act with
    | renew => exact ih h.2 rfl
    | serve j => exact ih h.2 rfl

end Credits
