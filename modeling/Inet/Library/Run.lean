import Mathlib

/-!
# Runs of a partial step function

A component is a state type, a type of operations and a step function that may
fail. A run is a list of operations. `Admissible` says that each operation is
allowed in the state it meets, `Always` that no operation fails and that every
state reached has a property, the first state included.

`Throughout` says less than `Always`: a failure ends the run, and every state before it has the
property. `Along` is about the steps instead of the states.

`always_of_step` is the invariant rule, `throughout_of_step` and
`throughout_of_preserved` are those for runs that may fail.
`always_iff_admissible` is its exact form: when a property survives a step just
in case a condition holds before it, it holds along a run just in case every
step meets the condition; `throughout_iff_admissible` is its form for runs that may
fail. `simulates` transports a run to a model whose steps
never fail.
-/

namespace Run

variable {σ ι ε α : Type*} {step : σ → ι → Except ε σ} {ops : List ι} {s t : σ} {P : σ → Prop}
  {ok cond : σ → ι → Prop} {Q : σ → ι → σ → Prop}

/-- Every operation is allowed by `ok` in the state it meets. -/
def Admissible (step : σ → ι → Except ε σ) (ok : σ → ι → Prop) : σ → List ι → Prop
  | _, [] => True
  | s, op :: ops => ok s op ∧ ∀ t, step s op = .ok t → Admissible step ok t ops

/-- No operation fails, and `P` holds in every state reached. -/
def Always (step : σ → ι → Except ε σ) (P : σ → Prop) : σ → List ι → Prop
  | s, [] => P s
  | s, op :: ops => P s ∧ ∃ t, step s op = .ok t ∧ Always step P t ops

/-- `P` holds in every state that the run reaches. An operation that fails ends the run. -/
def Throughout (step : σ → ι → Except ε σ) (P : σ → Prop) : σ → List ι → Prop
  | s, [] => P s
  | s, op :: ops => P s ∧ ∀ t, step s op = .ok t → Throughout step P t ops

instance Admissible.decidable {ok : σ → ι → Prop} [∀ s op, Decidable (ok s op)] :
    ∀ (s : σ) (ops : List ι), Decidable (Admissible step ok s ops)
  | _, [] => .isTrue trivial
  | s, op :: ops =>
    match h : step s op with
    | .ok t =>
      have : Decidable (Admissible step ok t ops) := Admissible.decidable t ops
      decidable_of_iff (ok s op ∧ Admissible step ok t ops) (by simp [Admissible, h])
    | .error _ => decidable_of_iff (ok s op) (by simp [Admissible, h])

instance Always.decidable {P : σ → Prop} [∀ s, Decidable (P s)] :
    ∀ (s : σ) (ops : List ι), Decidable (Always step P s ops)
  | s, [] => inferInstanceAs (Decidable (P s))
  | s, op :: ops =>
    match h : step s op with
    | .ok t =>
      have : Decidable (Always step P t ops) := Always.decidable t ops
      decidable_of_iff (P s ∧ Always step P t ops) (by simp [Always, h])
    | .error _ => .isFalse (by simp [Always, h])

instance Throughout.decidable {P : σ → Prop} [∀ s, Decidable (P s)] :
    ∀ (s : σ) (ops : List ι), Decidable (Throughout step P s ops)
  | s, [] => inferInstanceAs (Decidable (P s))
  | s, op :: ops =>
    match h : step s op with
    | .ok t =>
      have : Decidable (Throughout step P t ops) := Throughout.decidable t ops
      decidable_of_iff (P s ∧ Throughout step P t ops) (by simp [Throughout, h])
    | .error _ => decidable_of_iff (P s) (by simp [Throughout, h])

/-- No operation fails, and `Q` relates the states before and after each one. -/
def Along (step : σ → ι → Except ε σ) (Q : σ → ι → σ → Prop) : σ → List ι → Prop
  | _, [] => True
  | s, op :: ops => ∃ t, step s op = .ok t ∧ Q s op t ∧ Along step Q t ops

instance Along.decidable {Q : σ → ι → σ → Prop} [∀ s op t, Decidable (Q s op t)] :
    ∀ (s : σ) (ops : List ι), Decidable (Along step Q s ops)
  | _, [] => .isTrue trivial
  | s, op :: ops =>
    match h : step s op with
    | .ok t =>
      have : Decidable (Along step Q t ops) := Along.decidable t ops
      decidable_of_iff (Q s op t ∧ Along step Q t ops) (by simp [Along, h])
    | .error _ => .isFalse (by simp [Along, h])

/-- The state after all operations. -/
def exec (step : σ → ι → Except ε σ) (s : σ) (ops : List ι) : Except ε σ :=
  ops.foldlM step s

theorem exec_cons_of_ok {op : ι} (h : step s op = .ok t) (ops : List ι) :
    exec step s (op :: ops) = exec step t ops := by
  simp only [exec, List.foldlM_cons, h]
  rfl

theorem exec_append_of_ok (h : exec step s ops = .ok t) (rest : List ι) :
    exec step s (ops ++ rest) = exec step t rest := by
  simp only [exec] at h ⊢
  rw [List.foldlM_append, h]
  rfl

/-- A run is admissible when its first step is and the rest is from the state reached. -/
theorem Admissible.cons {op : ι} (h : ok s op) (hstep : step s op = .ok t)
    (rest : Admissible step ok t ops) : Admissible step ok s (op :: ops) := by
  refine ⟨h, fun u hu => ?_⟩
  obtain rfl : t = u := Except.ok.inj (hstep.symm.trans hu)
  exact rest

theorem Always.head (h : Always step P s ops) : P s := by
  cases ops with
  | nil => exact h
  | cons op ops => exact h.1

theorem Always.mono {Q : σ → Prop} (hPQ : ∀ s, P s → Q s) (h : Always step P s ops) :
    Always step Q s ops := by
  induction ops generalizing s with
  | nil => exact hPQ s h
  | cons op ops ih =>
    obtain ⟨hs, t, hstep, rest⟩ := h
    exact ⟨hPQ s hs, t, hstep, ih rest⟩

/-- The invariant rule: a property of the first state that every admissible step
keeps holds along every admissible run. -/
theorem always_of_step (keeps : ∀ s op, P s → ok s op → ∃ t, step s op = .ok t ∧ P t)
    (start : P s) (admissible : Admissible step ok s ops) : Always step P s ops := by
  induction ops generalizing s with
  | nil => exact start
  | cons op ops ih =>
    obtain ⟨t, hstep, ht⟩ := keeps s op start admissible.1
    exact ⟨start, t, hstep, ih ht (admissible.2 t hstep)⟩

/-- The invariant rule for a property of the steps. -/
theorem along_of_step (keeps : ∀ s op, P s → ok s op → ∃ t, step s op = .ok t ∧ P t ∧ Q s op t)
    (start : P s) (admissible : Admissible step ok s ops) : Along step Q s ops := by
  induction ops generalizing s with
  | nil => trivial
  | cons op ops ih =>
    obtain ⟨t, hstep, ht, hQ⟩ := keeps s op start admissible.1
    exact ⟨t, hstep, hQ, ih ht (admissible.2 t hstep)⟩

/-- The invariant rule for runs that may fail. -/
theorem throughout_of_step (keeps : ∀ s op t, P s → ok s op → step s op = .ok t → P t)
    (start : P s) (admissible : Admissible step ok s ops) : Throughout step P s ops := by
  induction ops generalizing s with
  | nil => exact start
  | cons op ops ih =>
    refine ⟨start, fun t hstep => ?_⟩
    exact ih (keeps s op t start admissible.1 hstep) (admissible.2 t hstep)

/-- The invariant rule for a property that every step keeps. -/
theorem throughout_of_preserved (keeps : ∀ s op t, P s → step s op = .ok t → P t) (start : P s) :
    Throughout step P s ops := by
  induction ops generalizing s with
  | nil => exact start
  | cons op ops ih => exact ⟨start, fun t hstep => ih (keeps s op t start hstep)⟩

theorem Throughout.head (h : Throughout step P s ops) : P s := by
  cases ops with
  | nil => exact h
  | cons op ops => exact h.1

/-- The state behind all operations is one that the run reaches. -/
theorem Throughout.of_exec (h : Throughout step P s ops) (hexec : exec step s ops = .ok t) :
    P t := by
  induction ops generalizing s with
  | nil =>
    cases hexec
    exact h
  | cons op ops ih =>
    cases hstep : step s op with
    | error e =>
      rw [exec, List.foldlM_cons, hstep] at hexec
      cases hexec
    | ok u => exact ih (h.2 u hstep) ((exec_cons_of_ok hstep ops).symm.trans hexec)

theorem throughout_and_iff {Q : σ → Prop} : Throughout step (fun s => P s ∧ Q s) s ops ↔
      Throughout step P s ops ∧ Throughout step Q s ops := by
  induction ops generalizing s with
  | nil => exact Iff.rfl
  | cons op ops ih =>
    simp only [Throughout, ih]
    constructor
    · rintro ⟨⟨hP, hQ⟩, rest⟩
      exact ⟨⟨hP, fun t ht => (rest t ht).1⟩, hQ, fun t ht => (rest t ht).2⟩
    · rintro ⟨⟨hP, restP⟩, hQ, restQ⟩
      exact ⟨⟨hP, hQ⟩, fun t ht => ⟨restP t ht, restQ t ht⟩⟩

theorem Throughout.mono {Q : σ → Prop} (hPQ : ∀ s, P s → Q s) (h : Throughout step P s ops) :
    Throughout step Q s ops := by
  induction ops generalizing s with
  | nil => exact hPQ s h
  | cons op ops ih => exact ⟨hPQ s h.1, fun t hstep => ih (h.2 t hstep)⟩

/-- Two conditions on the operations of a run are one. -/
theorem Admissible.and {ok' : σ → ι → Prop} (h : Admissible step ok s ops)
    (h' : Admissible step ok' s ops) : Admissible step (fun s op => ok s op ∧ ok' s op) s ops := by
  induction ops generalizing s with
  | nil => trivial
  | cons op ops ih =>
    exact ⟨⟨h.1, h'.1⟩, fun t hstep => ih (h.2 t hstep) (h'.2 t hstep)⟩

/-- What an invariant and a condition on the operations say about each operation of a run. -/
theorem Admissible.mono_of_step {Q : σ → ι → Prop} (h : Admissible step ok s ops)
    (keeps : ∀ s op t, P s → ok s op → step s op = .ok t → P t)
    (tells : ∀ s op, P s → ok s op → Q s op) (start : P s) : Admissible step Q s ops := by
  induction ops generalizing s with
  | nil => trivial
  | cons op ops ih =>
    refine ⟨tells s op start h.1, fun t hstep => ?_⟩
    exact ih (h.2 t hstep) (keeps s op t start h.1 hstep)

/-- The exact form of the invariant rule. `cond` is what an admissible step needs,
beyond being admissible, to keep the property `P`; the invariant `Q` implies `P` and
may say more, but nothing is asked of it after a step that breaks `P`. -/
theorem always_iff_admissible {Q : σ → Prop} (sound : ∀ s, Q s → P s)
    (exact_step : ∀ s op, Q s → ok s op →
      ∃ t, step s op = .ok t ∧ (cond s op → Q t) ∧ (P t → cond s op)) (start : Q s)
    (admissible : Admissible step ok s ops) : Always step P s ops ↔ Admissible step cond s ops := by
  induction ops generalizing s with
  | nil => exact ⟨fun _ => trivial, fun _ => sound s start⟩
  | cons op ops ih =>
    obtain ⟨t, hstep, keeps, needs⟩ := exact_step s op start admissible.1
    have rest_admissible := admissible.2 t hstep
    constructor
    · rintro ⟨_, u, hu, rest⟩
      obtain rfl : t = u := Except.ok.inj (hstep.symm.trans hu)
      have hcond := needs rest.head
      refine ⟨hcond, fun u hu => ?_⟩
      obtain rfl : t = u := Except.ok.inj (hstep.symm.trans hu)
      exact (ih (keeps hcond) rest_admissible).mp rest
    · rintro ⟨hcond, rest⟩
      exact ⟨sound s start, t, hstep, (ih (keeps hcond) rest_admissible).mpr (rest t hstep)⟩

/-- The exact form of the invariant rule for runs that may fail. A step that breaks the
condition does not fail, so that a run shows what it does. -/
theorem throughout_iff_admissible
    (exact_step : ∀ s op t, P s → step s op = .ok t → (P t ↔ cond s op))
    (fails : ∀ s op e, P s → step s op = .error e → cond s op) (start : P s) :
    Throughout step P s ops ↔ Admissible step cond s ops := by
  induction ops generalizing s with
  | nil => exact ⟨fun _ => trivial, fun _ => start⟩
  | cons op ops ih =>
    cases hstep : step s op with
    | error e =>
      constructor
      · intro _
        exact ⟨fails s op e start hstep, fun t ht => by rw [hstep] at ht; cases ht⟩
      · intro _
        exact ⟨start, fun t ht => by rw [hstep] at ht; cases ht⟩
    | ok t =>
      have exact := exact_step s op t start hstep
      constructor
      · rintro ⟨_, rest⟩
        have ht := (rest t hstep).head
        refine ⟨exact.mp ht, fun u hu => ?_⟩
        obtain rfl := Except.ok.inj (hstep.symm.trans hu)
        exact (ih ht).mp (rest t hstep)
      · rintro ⟨hcond, rest⟩
        refine ⟨start, fun u hu => ?_⟩
        obtain rfl := Except.ok.inj (hstep.symm.trans hu)
        exact (ih (exact.mpr hcond)).mpr (rest t hstep)

/-- The exact form of the rule for a property of the steps: an allowed step succeeds and has the
property `Q` just in case it meets `cond`, and then it keeps the invariant `P`. -/
theorem along_iff_of_exact
    (exact_step : ∀ s op, P s → ok s op → ((∃ t, step s op = .ok t ∧ Q s op t) ↔ cond s op))
    (keeps : ∀ s op t, P s → ok s op → cond s op → step s op = .ok t → P t) (start : P s)
    (admissible : Admissible step ok s ops) : Along step Q s ops ↔ Admissible step cond s ops := by
  induction ops generalizing s with
  | nil => exact Iff.rfl
  | cons op ops ih =>
    have exact := exact_step s op start admissible.1
    constructor
    · rintro ⟨t, hstep, hQ, rest⟩
      have hcond := exact.mp ⟨t, hstep, hQ⟩
      have ht := keeps s op t start admissible.1 hcond hstep
      exact .cons hcond hstep ((ih ht (admissible.2 t hstep)).mp rest)
    · rintro ⟨hcond, rest⟩
      obtain ⟨t, hstep, hQ⟩ := exact.mpr hcond
      have ht := keeps s op t start admissible.1 hcond hstep
      exact ⟨t, hstep, hQ, (ih ht (admissible.2 t hstep)).mpr (rest t hstep)⟩

/-- Allowed steps succeed. -/
theorem along_iff_of_admissible (exact_step : ∀ s op, P s → ok s op →
      ∃ t, step s op = .ok t ∧ (Q s op t ↔ cond s op) ∧ (cond s op → P t)) (start : P s)
    (admissible : Admissible step ok s ops) : Along step Q s ops ↔ Admissible step cond s ops := by
  refine along_iff_of_exact (fun s op hs hok => ?_) (fun s op t hs hok hcond hstep => ?_) start
    admissible
  · obtain ⟨t, hstep, exact, -⟩ := exact_step s op hs hok
    constructor
    · rintro ⟨u, hu, hQ⟩
      obtain rfl : t = u := Except.ok.inj (hstep.symm.trans hu)
      exact exact.mp hQ
    · exact fun hcond => ⟨t, hstep, exact.mpr hcond⟩
  · obtain ⟨u, hu, -, keeps⟩ := exact_step s op hs hok
    obtain rfl : t = u := Except.ok.inj (hstep.symm.trans hu)
    exact keeps hcond

theorem admissible_of_forall (h : ∀ s op, ok s op) : Admissible step ok s ops := by
  induction ops generalizing s with
  | nil => trivial
  | cons op ops ih => exact ⟨h s op, fun _ _ => ih⟩

/-- All operations are allowed. -/
theorem along_iff_admissible (exact_step : ∀ s op, P s →
      ∃ t, step s op = .ok t ∧ (Q s op t ↔ cond s op) ∧ (cond s op → P t)) (start : P s) :
    Along step Q s ops ↔ Admissible step cond s ops :=
  along_iff_of_admissible (fun s op hs _ => exact_step s op hs) start
    (admissible_of_forall fun _ _ => trivial)

/-- Forward simulation: a relation to a total model that every admissible step
keeps relates the two final states. -/
theorem simulates {R : σ → α → Prop} {model : α → ι → α}
    (keeps : ∀ s a op, R s a → ok s op → ∃ t, step s op = .ok t ∧ R t (model a op)) {a : α}
    (start : R s a) (admissible : Admissible step ok s ops) :
    ∃ t, exec step s ops = .ok t ∧ R t (ops.foldl model a) := by
  induction ops generalizing s a with
  | nil => exact ⟨s, rfl, start⟩
  | cons op ops ih =>
    obtain ⟨t, hstep, ht⟩ := keeps s a op start admissible.1
    obtain ⟨u, hu, hrel⟩ := ih ht (admissible.2 t hstep)
    exact ⟨u, (exec_cons_of_ok hstep ops).trans hu, hrel⟩

end Run
