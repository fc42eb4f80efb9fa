import Mathlib

/-!
# Run-length lists

A list with long stretches of equal elements is stored as a list of runs, each a length
and an element. `expand` gives the list back. A program that updates a range cuts the run
at each end of the range in two and changes the runs in between; `exists_cut` finds the
place, and `updateRange_append` says that the effect is an update of the range.
-/

namespace RunLength

open List

variable {α : Type*}

/-- The list that is stored as runs. -/
def expand (runs : List (ℕ × α)) : List α := runs.flatMap fun r => List.replicate r.1 r.2

/-- The length of the stored list. -/
def length (runs : List (ℕ × α)) : ℕ := (runs.map Prod.fst).sum

/-- No run is empty. -/
def Proper (runs : List (ℕ × α)) : Prop := ∀ r ∈ runs, 0 < r.1

variable {runs xs ys : List (ℕ × α)} {r : ℕ × α} {k : ℕ} {f : α → α}

@[simp] theorem expand_nil : expand ([] : List (ℕ × α)) = [] := rfl

@[simp] theorem expand_cons (r : ℕ × α) (runs : List (ℕ × α)) :
    expand (r :: runs) = List.replicate r.1 r.2 ++ expand runs := rfl

@[simp] theorem expand_append (xs ys : List (ℕ × α)) : expand (xs ++ ys) = expand xs ++ expand ys :=
  flatMap_append

@[simp] theorem length_nil : length ([] : List (ℕ × α)) = 0 := rfl

@[simp] theorem length_cons (r : ℕ × α) (runs : List (ℕ × α)) :
    length (r :: runs) = r.1 + length runs := by
  simp [length]

@[simp] theorem length_append (xs ys : List (ℕ × α)) :
    length (xs ++ ys) = length xs + length ys := by
  simp [length]

@[simp] theorem length_expand (runs : List (ℕ × α)) : (expand runs).length = length runs := by
  induction runs with
  | nil => rfl
  | cons r runs ih => simp [ih]

/-- Changing the element of every run changes every element. -/
def mapRuns (f : α → α) (runs : List (ℕ × α)) : List (ℕ × α) := runs.map fun r => (r.1, f r.2)

@[simp] theorem expand_mapRuns (f : α → α) (runs : List (ℕ × α)) :
    expand (mapRuns f runs) = (expand runs).map f := by
  induction runs with
  | nil => rfl
  | cons r runs ih =>
    rw [mapRuns, map_cons, expand_cons, expand_cons, map_append, map_replicate, ← ih]
    rfl

@[simp] theorem length_mapRuns (f : α → α) (runs : List (ℕ × α)) :
    length (mapRuns f runs) = length runs := by
  rw [← length_expand, expand_mapRuns, length_map, length_expand]

theorem Proper.mapRuns (h : Proper runs) : Proper (mapRuns f runs) := by
  intro r hr
  obtain ⟨r', hr', rfl⟩ := mem_map.mp hr
  exact h r' hr'

theorem Proper.append (hx : Proper xs) (hy : Proper ys) : Proper (xs ++ ys) := by
  intro r hr
  obtain hr | hr := mem_append.mp hr
  · exact hx r hr
  · exact hy r hr

theorem Proper.left (h : Proper (xs ++ ys)) : Proper xs :=
  fun r hr => h r (mem_append_left _ hr)

theorem Proper.right (h : Proper (xs ++ ys)) : Proper ys :=
  fun r hr => h r (mem_append_right _ hr)

theorem Proper.cons (hr : 0 < r.1) (h : Proper runs) : Proper (r :: runs) :=
  forall_mem_cons.mpr ⟨hr, h⟩

theorem Proper.head (h : Proper (r :: runs)) : 0 < r.1 := h r mem_cons_self

theorem Proper.tail (h : Proper (r :: runs)) : Proper runs :=
  fun s hs => h s (mem_cons_of_mem _ hs)

/-- The run that contains place `k`, and what lies on both sides of it. -/
theorem exists_cut (hk : k < length runs) :
    ∃ xs n a ys, runs = xs ++ (n, a) :: ys ∧ length xs ≤ k ∧ k < length xs + n := by
  induction runs generalizing k with
  | nil => simp at hk
  | cons r runs ih =>
    rw [length_cons] at hk
    by_cases hr : k < r.1
    · exact ⟨[], r.1, r.2, runs, rfl, Nat.zero_le _, by simpa using hr⟩
    · obtain ⟨xs, n, a, ys, rfl, hle, hlt⟩ := @ih (k - r.1) (by omega)
      refine ⟨r :: xs, n, a, ys, rfl, ?_, ?_⟩
      · rw [length_cons]
        omega
      · rw [length_cons]
        omega

/-- The run that contains place `k`, cut there. -/
theorem expand_cut {n : ℕ} {a : α} (hk : length xs ≤ k) (hkn : k < length xs + n) :
    expand (xs ++ (n, a) :: ys) = (expand xs ++ List.replicate (k - length xs) a) ++
        (List.replicate (n - (k - length xs)) a ++ expand ys) := by
  have hn : n = (k - length xs) + (n - (k - length xs)) := by omega
  rw [expand_append, expand_cons]
  nth_rewrite 1 [hn]
  rw [← replicate_append_replicate]
  simp only [append_assoc]

section

variable {n : ℕ} {a : α}

/-- The runs up to place `k`, which is in the run of `a` behind `xs`. -/
def cutBefore (xs : List (ℕ × α)) (a : α) (k : ℕ) : List (ℕ × α) :=
  if k = length xs then xs else xs ++ [(k - length xs, a)]

theorem length_cutBefore (hk : length xs ≤ k) : length (cutBefore xs a k) = k := by
  rw [cutBefore]
  split_ifs with h
  · exact h.symm
  · rw [length_append, length_cons, length_nil]
    omega

theorem Proper.cutBefore (h : Proper xs) (hk : length xs ≤ k) :
    Proper (RunLength.cutBefore xs a k) := by
  rw [RunLength.cutBefore]
  split_ifs with heq
  · exact h
  · exact h.append (Proper.cons (by simp only; omega) (by simp [Proper]))

/-- Both sides of the cut are the runs. -/
theorem expand_cutBefore (hk : length xs ≤ k) (hkn : k < length xs + n) :
    expand (cutBefore xs a k) ++ expand ((n - (k - length xs), a) :: ys) =
      expand (xs ++ (n, a) :: ys) := by
  rw [expand_cut hk hkn, expand_cons, cutBefore]
  split_ifs with h
  · rw [h, Nat.sub_self, replicate_zero, append_nil]
  · rw [expand_append, expand_cons, expand_nil, append_nil]

/-- What is behind the cut. -/
theorem expand_cutBehind (hk : length xs ≤ k) (hkn : k < length xs + n) :
    expand ((n - (k - length xs), a) :: ys) = (expand (xs ++ (n, a) :: ys)).drop k := by
  rw [← expand_cutBefore hk hkn, drop_left']
  rw [length_expand, length_cutBefore hk]

/-- The list with `f` applied at the places `[o, e)`. -/
def updateRange (f : α → α) (o e : ℕ) (l : List α) : List α :=
  l.mapIdx fun k a => if o ≤ k ∧ k < e then f a else a

variable {l l₁ l₂ l₃ : List α} {o e : ℕ}

theorem length_updateRange : (updateRange f o e l).length = l.length := length_mapIdx

/-- The places behind the range keep their values. -/
theorem drop_updateRange : (updateRange f o e l).drop e = l.drop e := by
  apply ext_getElem
  · rw [length_drop, length_drop, length_updateRange]
  · intro k h₁ h₂
    simp only [updateRange, getElem_drop, getElem_mapIdx]
    rw [if_neg (by omega)]

theorem updateRange_append (ho : l₁.length = o) (he : o + l₂.length = e) :
    updateRange f o e (l₁ ++ l₂ ++ l₃) = l₁ ++ l₂.map f ++ l₃ := by
  subst ho he
  apply List.ext_getElem
  · simp [updateRange]
  · intro k h₁ h₂
    simp only [updateRange, List.getElem_mapIdx, List.getElem_append, List.length_append,
      List.length_map, List.getElem_map]
    split_ifs <;> first | rfl | omega

/-- A range that reaches behind the list. -/
theorem updateRange_of_le (ho : l₁.length = o) (he : o + l₂.length ≤ e) :
    updateRange f o e (l₁ ++ l₂) = l₁ ++ l₂.map f := by
  subst ho
  apply List.ext_getElem
  · simp [updateRange]
  · intro k h₁ h₂
    simp only [updateRange, List.length_mapIdx, List.length_append] at h₁
    simp only [updateRange, List.getElem_mapIdx, List.getElem_append, List.getElem_map]
    split_ifs <;> first | rfl | omega

/-- A range that begins with the second list. -/
theorem updateRange_split (ho : l₁.length = o) (hoe : o ≤ e) :
    updateRange f o e (l₁ ++ l₂) = l₁ ++ (l₂.take (e - o)).map f ++ l₂.drop (e - o) := by
  obtain hlt | hge := Nat.lt_or_ge l₂.length (e - o)
  · rw [updateRange_of_le ho (by omega), take_of_length_le (Nat.le_of_lt hlt),
      drop_of_length_le (Nat.le_of_lt hlt), append_nil]
  · have htake : o + (l₂.take (e - o)).length = e := by
      rw [length_take]
      omega
    have := @updateRange_append _ f l₁ (l₂.take (e - o)) (l₂.drop (e - o)) o e ho htake
    rwa [append_assoc, take_append_drop] at this

theorem updateRange_of_length_le (ho : l.length ≤ o) : updateRange f o e l = l := by
  apply ext_getElem length_updateRange
  intro k h₁ h₂
  simp only [updateRange, getElem_mapIdx]
  rw [if_neg (by omega)]

end

/-- The runs with `f` applied to the first `k` places; places behind the last run get `new`. -/
def markTo (f : α → α) (new : α) : ℕ → List (ℕ × α) → List (ℕ × α)
  | k, [] => if k = 0 then [] else [(k, new)]
  | k, (n, a) :: runs =>
    if n ≤ k then (n, f a) :: markTo f new (k - n) runs
    else if k = 0 then (n, a) :: runs
    else (k, f a) :: (n - k, a) :: runs

variable {new a : α} {n : ℕ} {ms ds : List (ℕ × α)}

theorem Proper.markTo (h : Proper runs) : Proper (markTo f new k runs) := by
  induction runs generalizing k with
  | nil =>
    rw [RunLength.markTo]
    split_ifs with hk
    · exact h
    · exact h.cons (Nat.pos_of_ne_zero hk)
  | cons r runs ih =>
    have hr := h.head
    rw [RunLength.markTo]
    split_ifs with hn hk
    · exact (ih h.tail).cons hr
    · exact h
    · exact (h.tail.cons (by simp only; omega)).cons (Nat.pos_of_ne_zero hk)

theorem length_markTo : length (markTo f new k runs) = max k (length runs) := by
  induction runs generalizing k with
  | nil =>
    rw [markTo]
    split_ifs <;> simp
    omega
  | cons r runs ih =>
    rw [markTo]
    split_ifs with hn hk
    all_goals simp only [length_cons, *]
    all_goals omega

/-- What `markTo` does at one place. -/
theorem getElem?_expand_markTo (p : ℕ) : (expand (markTo f new k runs))[p]? =
      if p < k then some ((expand runs)[p]?.elim new f) else (expand runs)[p]? := by
  induction runs generalizing k p with
  | nil =>
    rw [markTo]
    by_cases hk : k = 0
    · rw [if_pos hk, if_neg (by omega)]
    · rw [if_neg hk]
      by_cases hp : p < k
      · simp [hp]
      · simp [hp]
  | cons r runs ih =>
    rw [markTo]
    by_cases hn : r.1 ≤ k
    · rw [if_pos hn]
      simp only [expand_cons, getElem?_append, length_replicate, getElem?_replicate, ih]
      split_ifs <;> first | rfl | omega
    · rw [if_neg hn]
      by_cases hk : k = 0
      · rw [if_pos hk, if_neg (by omega)]
      · rw [if_neg hk]
        simp only [expand_cons, getElem?_append, length_replicate, getElem?_replicate]
        split_ifs <;> first | rfl | omega | (rw [show p - k - (r.1 - k) = p - r.1 by omega])

/-- Where the marked part ends in the middle of the runs. -/
theorem markTo_cut (hk : length ms ≤ k) (hkn : k < length ms + n) :
    markTo f new k (ms ++ (n, a) :: ds) = mapRuns f ms ++ if length ms = k then (n, a) :: ds
      else (k - length ms, f a) :: (n - (k - length ms), a) :: ds := by
  induction ms generalizing k with
  | nil =>
    rw [length_nil, Nat.zero_add] at hkn
    rw [nil_append, markTo, if_neg (Nat.not_le.mpr hkn)]
    simp [mapRuns, eq_comm]
  | cons r ms ih =>
    rw [length_cons] at hk hkn ⊢
    rw [cons_append, markTo, if_pos (by omega), ih (by omega) (by omega), Nat.sub_sub]
    have hcut : length ms = k - r.1 ↔ r.1 + length ms = k := by omega
    simp only [mapRuns, map_cons, cons_append, hcut]

/-- Where it ends behind them. -/
theorem markTo_of_le (h : length runs ≤ k) : markTo f new k runs =
      mapRuns f runs ++ if length runs = k then [] else [(k - length runs, new)] := by
  induction runs generalizing k with
  | nil => simp [markTo, mapRuns, eq_comm]
  | cons r runs ih =>
    rw [length_cons] at h ⊢
    rw [markTo, if_pos (by omega), ih (by omega), Nat.sub_sub]
    have hcut : length runs = k - r.1 ↔ r.1 + length runs = k := by omega
    simp only [mapRuns, map_cons, cons_append, hcut]

theorem expand_markTo :
    expand (markTo f new k runs) = ((expand runs).take k).map f ++ (expand runs).drop k ++
      List.replicate (k - length runs) new := by
  obtain hlt | hge := Nat.lt_or_ge k (length runs)
  · have hrest : k - length runs = 0 := Nat.sub_eq_zero_of_le (Nat.le_of_lt hlt)
    obtain ⟨ms, n, a, ds, rfl, hle, hkn⟩ := exists_cut hlt
    have hfront : (expand ms ++ List.replicate (k - length ms) a).length = k := by
      rw [List.length_append, length_expand, List.length_replicate]
      omega
    rw [hrest, markTo_cut hle hkn, expand_cut hle hkn, List.take_left' hfront,
      List.drop_left' hfront]
    split_ifs with hcut
    · simp [hcut]
    · simp
  · rw [markTo_of_le hge, List.take_of_length_le (by rwa [length_expand]),
      List.drop_of_length_le (by rwa [length_expand])]
    split_ifs with hcut
    · simp [hcut]
    · simp

end RunLength
