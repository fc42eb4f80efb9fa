import Mathlib

/-!
# Nested loops

A program of nested loops is a stack of loops over a common state, the innermost
first. `round` is one round of the innermost loop. It leaves the loop, goes round
again, or enters an inner loop before it goes round again; it may also fail, which
ends the program.

Loops whose rounds get strictly smaller in a well-founded order terminate, however
they are nested (`terminates_of_decreasing`). A configuration that a round maps to
itself is never left (`not_terminates_of_fixed`).
-/

namespace LoopStack

universe u v w

variable {σ : Type u} {φ : Type v} {ε : Type w}

/-- What a round does to the loop it belongs to. -/
inductive Move (φ : Type v) where
  | leave
  | again (loop : φ)
  | enter (inner loop : φ)
deriving DecidableEq

namespace Move

/-- The loops that take the place of the one the round belongs to. -/
def loops : Move φ → List φ
  | leave => []
  | again f => [f]
  | enter g f => [g, f]

/-- The same loop after the round, if it has not been left. -/
def continuation? : Move φ → Option φ
  | leave => none
  | again f => some f
  | enter _ f => some f

end Move

structure Config (σ : Type u) (φ : Type v) where
  state : σ
  stack : List φ

/-- A round of the innermost loop that does not fail. -/
inductive Next (round : σ → φ → Except ε (σ × Move φ)) : Config σ φ → Config σ φ → Prop where
  | intro {s t : σ} {f : φ} {m : Move φ} (fs : List φ) (h : round s f = .ok (t, m)) :
      Next round ⟨s, f :: fs⟩ ⟨t, m.loops ++ fs⟩

variable {round : σ → φ → Except ε (σ × Move φ)} {c d : Config σ φ}

/-- Nothing is left to do, or the next round fails. -/
def Halted (round : σ → φ → Except ε (σ × Move φ)) (c : Config σ φ) : Prop :=
  ∀ d, ¬ Next round c d

abbrev Reaches (round : σ → φ → Except ε (σ × Move φ)) : Config σ φ → Config σ φ → Prop :=
  Relation.ReflTransGen (Next round)

def Terminates (round : σ → φ → Except ε (σ × Move φ)) (c : Config σ φ) : Prop :=
  ∃ d, Reaches round c d ∧ Halted round d

theorem halted_nil (s : σ) : Halted round ⟨s, []⟩ := by
  intro d h
  cases h

theorem halted_of_error {s : σ} {f : φ} {fs : List φ} {e : ε} (h : round s f = .error e) :
    Halted round ⟨s, f :: fs⟩ := by
  intro d hd
  cases hd with
  | intro _ h' => rw [h] at h'; cases h'

theorem next_unique : Relator.RightUnique (Next round) := by
  intro c d d' h h'
  cases h with
  | intro fs h =>
    cases h' with
    | intro _ h' =>
      rw [h] at h'
      cases h'
      rfl

/-- A run ends in one configuration only. -/
theorem Reaches.eq_of_halted {e : Config σ φ} (hd : Reaches round c d) (he : Reaches round c e)
    (haltedd : Halted round d) (haltede : Halted round e) : d = e := by
  have stays : ∀ {d e : Config σ φ}, Reaches round d e → Halted round d → d = e := by
    intro d e h halted
    cases h.cases_head with
    | inl h => exact h
    | inr h =>
      obtain ⟨f, hf, _⟩ := h
      exact absurd hf (halted f)
  obtain h | h := Relation.ReflTransGen.total_of_right_unique next_unique hd he
  · exact stays h haltedd
  · exact (stays h haltede).symm

/-- An invariant of the rounds holds in every configuration that is reached. -/
theorem Reaches.invariant {P : Config σ φ → Prop} (keeps : ∀ c d, P c → Next round c d → P d)
    (start : P c) (h : Reaches round c d) : P d := by
  induction h with
  | refl => exact start
  | tail _ hstep ih => exact keeps _ _ ih hstep

section

variable {r : φ → φ → Prop} {c₀ : Config σ φ}

/-- The innermost loop ends, unless a round fails. -/
private theorem leaves (wf : WellFounded r)
    (decreasing : ∀ s t f fs m, Reaches round c₀ ⟨s, f :: fs⟩ → round s f = .ok (t, m) →
      ∀ g ∈ m.loops, r g f)
    (f : φ) (s : σ) (fs : List φ) (reached : Reaches round c₀ ⟨s, f :: fs⟩) :
    Terminates round c₀ ∨ ∃ t, Reaches round c₀ ⟨t, fs⟩ := by
  induction f using wf.induction generalizing s fs with
  | _ f ih =>
    cases hround : round s f with
    | error e => exact .inl ⟨_, reached, halted_of_error hround⟩
    | ok result =>
      obtain ⟨t, m⟩ := result
      have next := reached.tail (.intro fs hround)
      have smaller := decreasing s t f fs m reached hround
      cases m with
      | leave => exact .inr ⟨t, next⟩
      | again f' => exact ih f' (smaller f' (by simp [Move.loops])) t fs next
      | enter g f' =>
        have inner := ih g (smaller g (by simp [Move.loops])) t (f' :: fs) next
        obtain done | ⟨u, left⟩ := inner
        · exact .inl done
        · exact ih f' (smaller f' (by simp [Move.loops])) u fs left

/-- Every round replaces the innermost loop by smaller ones. -/
theorem terminates_of_decreasing (wf : WellFounded r)
    (decreasing : ∀ s t f fs m, Reaches round c₀ ⟨s, f :: fs⟩ → round s f = .ok (t, m) →
      ∀ g ∈ m.loops, r g f) : Terminates round c₀ := by
  have unwinds : ∀ (fs : List φ) (s : σ), Reaches round c₀ ⟨s, fs⟩ → Terminates round c₀ := by
    intro fs
    induction fs with
    | nil => exact fun s reached => ⟨_, reached, halted_nil s⟩
    | cons f fs ih =>
      intro s reached
      obtain done | ⟨t, left⟩ := leaves wf decreasing f s fs reached
      · exact done
      · exact ih t left
  exact unwinds c₀.stack c₀.state .refl

end

theorem Reaches.eq_of_fixed (fixed : Next round c c) (h : Reaches round c d) : d = c := by
  induction h with
  | refl => rfl
  | tail _ hstep ih =>
    subst ih
    exact next_unique hstep fixed

/-- A round that changes nothing is repeated for ever. -/
theorem not_terminates_of_fixed {c₀ : Config σ φ} (reached : Reaches round c₀ c)
    (fixed : Next round c c) : ¬ Terminates round c₀ := by
  rintro ⟨d, hd, halted⟩
  obtain h | h := Relation.ReflTransGen.total_of_right_unique next_unique reached hd
  · obtain rfl := Reaches.eq_of_fixed fixed h
    exact halted _ fixed
  · cases h.cases_head with
    | inl h => exact halted c (h ▸ fixed)
    | inr h =>
      obtain ⟨e, he, _⟩ := h
      exact halted e he

end LoopStack
