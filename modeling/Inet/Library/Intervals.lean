import Mathlib

/-!
# Lists of separated intervals

A set of points is stored as a list of half-open intervals `(lo, hi)`, from the
highest to the lowest, such that two intervals of the list neither overlap nor
touch. `absorb` adds one interval: it walks down the list, keeps what lies above,
takes in whatever it overlaps or touches, and stops at the first interval that
lies below.

The points of the result are the old ones and the new ones (`cover_absorb`), the
result is separated again (`Separated.absorb`), and its end points are old end
points (`endpoints_absorb`).

`insert` is the same operation on a list that is kept from the lowest to the highest, and
`erase` takes a point out of such a list again.
-/

namespace Intervals

open List

variable {α : Type*} [LinearOrder α]

/-- The points of a list of half-open intervals. -/
def cover (l : List (α × α)) : Set α := {x | ∃ i ∈ l, i.1 ≤ x ∧ x < i.2}

/-- From the highest to the lowest, with a gap between any two of them. -/
def Separated (l : List (α × α)) : Prop := l.Pairwise fun i j => j.2 < i.1

/-- No interval of the list is empty. -/
def Proper (l : List (α × α)) : Prop := ∀ i ∈ l, i.1 < i.2

/-- The least interval that contains both. -/
def hull (i j : α × α) : α × α := (min i.1 j.1, max i.2 j.2)

/-- Neither lies strictly beyond the other: the two overlap or touch. -/
def Touches (i j : α × α) : Prop := i.1 ≤ j.2 ∧ j.1 ≤ i.2

/-- Add one interval to a descending list. -/
def absorb : List (α × α) → α × α → List (α × α)
  | [], s => [s]
  | i :: l, s =>
    if i.2 < s.1 then s :: i :: l
    else if s.2 < i.1 then i :: absorb l s
    else absorb l (hull s i)

@[simp] theorem cover_nil : cover ([] : List (α × α)) = ∅ := by
  simp [cover]

@[simp] theorem mem_cover_cons {i : α × α} {l : List (α × α)} {x : α} :
    x ∈ cover (i :: l) ↔ (i.1 ≤ x ∧ x < i.2) ∨ x ∈ cover l := by
  simp [cover]

theorem mem_cover_append {l m : List (α × α)} {x : α} :
    x ∈ cover (l ++ m) ↔ x ∈ cover l ∨ x ∈ cover m := by
  simp only [cover, mem_append, or_and_right, exists_or, Set.mem_ofPred_eq]

instance (l : List (α × α)) : DecidablePred (· ∈ cover l) :=
  fun x => inferInstanceAs (Decidable (∃ i ∈ l, i.1 ≤ x ∧ x < i.2))

theorem cover_reverse (l : List (α × α)) : cover l.reverse = cover l := by
  simp [cover]

theorem mem_hull_iff {i j : α × α} (h : Touches i j) (x : α) :
    ((hull i j).1 ≤ x ∧ x < (hull i j).2) ↔ (i.1 ≤ x ∧ x < i.2) ∨ (j.1 ≤ x ∧ x < j.2) := by
  obtain ⟨h₁, h₂⟩ := h
  simp only [hull, min_le_iff, lt_max_iff]
  constructor
  · rintro ⟨hx | hx, hy | hy⟩
    · exact .inl ⟨hx, hy⟩
    · by_cases hxi : x < i.2
      · exact .inl ⟨hx, hxi⟩
      · exact .inr ⟨h₂.trans (not_lt.mp hxi), hy⟩
    · by_cases hxj : x < j.2
      · exact .inr ⟨hx, hxj⟩
      · exact .inl ⟨h₁.trans (not_lt.mp hxj), hy⟩
    · exact .inr ⟨hx, hy⟩
  · rintro (⟨hx, hy⟩ | ⟨hx, hy⟩)
    · exact ⟨.inl hx, .inl hy⟩
    · exact ⟨.inr hx, .inr hy⟩

theorem touches_of_not_lt {i s : α × α} (h₁ : ¬ i.2 < s.1) (h₂ : ¬ s.2 < i.1) : Touches s i :=
  ⟨not_lt.mp h₁, not_lt.mp h₂⟩

/-- Adding an interval adds its points and no others. -/
theorem cover_absorb (l : List (α × α)) (s : α × α) :
    cover (absorb l s) = cover l ∪ Set.Ico s.1 s.2 := by
  ext x
  rw [Set.mem_union, Set.mem_Ico]
  induction l generalizing s with
  | nil => simp [absorb]
  | cons i l ih =>
    rw [absorb]
    split_ifs with below above
    · rw [mem_cover_cons, or_comm]
    · rw [mem_cover_cons, mem_cover_cons, ih, or_assoc]
    · rw [ih, mem_hull_iff (touches_of_not_lt below above), mem_cover_cons]
      tauto

/-- A property of all old end points is one of all new end points. -/
theorem endpoints_absorb {P : α → Prop} {l : List (α × α)} {s : α × α}
    (hl : ∀ i ∈ l, P i.1 ∧ P i.2) (hs : P s.1 ∧ P s.2) :
    ∀ i ∈ absorb l s, P i.1 ∧ P i.2 := by
  induction l generalizing s with
  | nil => simpa [absorb] using hs
  | cons i l ih =>
    have hi := hl i mem_cons_self
    have hrest : ∀ j ∈ l, P j.1 ∧ P j.2 := fun j hj => hl j (mem_cons_of_mem _ hj)
    rw [absorb]
    split_ifs with below above
    · exact forall_mem_cons.mpr ⟨hs, hl⟩
    · exact forall_mem_cons.mpr ⟨hi, ih hrest hs⟩
    · apply ih hrest
      constructor
      · rcases min_choice s.1 i.1 with h | h <;> simp only [hull, h, hs.1, hi.1]
      · rcases max_choice s.2 i.2 with h | h <;> simp only [hull, h, hs.2, hi.2]

/-- An interval of the result is an old one, or has taken the new one in. -/
theorem mem_absorb {l : List (α × α)} {s k : α × α} (hk : k ∈ absorb l s) :
    k ∈ l ∨ k.1 ≤ s.1 ∧ s.2 ≤ k.2 := by
  induction l generalizing s with
  | nil =>
    obtain rfl := mem_singleton.mp hk
    exact .inr ⟨le_rfl, le_rfl⟩
  | cons i l ih =>
    rw [absorb] at hk
    split_ifs at hk with below above
    · obtain rfl | hk := mem_cons.mp hk
      · exact .inr ⟨le_rfl, le_rfl⟩
      · exact .inl hk
    · obtain rfl | hk := mem_cons.mp hk
      · exact .inl mem_cons_self
      · exact (ih hk).imp_left (mem_cons_of_mem _)
    · obtain hk | ⟨hlow, hhigh⟩ := ih hk
      · exact .inl (mem_cons_of_mem _ hk)
      · exact .inr ⟨hlow.trans (min_le_left ..), (le_max_left ..).trans hhigh⟩

/-- Whatever lies above the added interval and the list lies above the result. -/
theorem lt_of_mem_absorb {l : List (α × α)} {s : α × α} {a : α}
    (hl : ∀ i ∈ l, i.2 < a) (hs : s.2 < a) : ∀ i ∈ absorb l s, i.2 < a := by
  induction l generalizing s with
  | nil => simpa [absorb] using hs
  | cons i l ih =>
    have hrest : ∀ j ∈ l, j.2 < a := fun j hj => hl j (mem_cons_of_mem _ hj)
    rw [absorb]
    split_ifs with below above
    · exact forall_mem_cons.mpr ⟨hs, hl⟩
    · exact forall_mem_cons.mpr ⟨hl i mem_cons_self, ih hrest hs⟩
    · exact ih hrest (max_lt hs (hl i mem_cons_self))

theorem Separated.absorb {l : List (α × α)} {s : α × α} (h : Separated l)
    (hl : ∀ i ∈ l, i.1 ≤ i.2) : Separated (absorb l s) := by
  induction l generalizing s with
  | nil => exact pairwise_singleton _ _
  | cons i l ih =>
    have hi := hl i mem_cons_self
    have hrest : ∀ j ∈ l, j.1 ≤ j.2 := fun j hj => hl j (mem_cons_of_mem _ hj)
    obtain ⟨hfirst, hsep⟩ := pairwise_cons.mp h
    rw [Intervals.absorb]
    split_ifs with below above
    · refine pairwise_cons.mpr ⟨?_, h⟩
      exact forall_mem_cons.mpr
        ⟨below, fun j hj => (hfirst j hj).trans (hi.trans_lt below)⟩
    · exact pairwise_cons.mpr ⟨lt_of_mem_absorb hfirst above, ih hsep hrest⟩
    · exact ih hsep hrest

theorem Proper.absorb {l : List (α × α)} {s : α × α} (h : Proper l) (hs : s.1 < s.2) :
    Proper (absorb l s) := by
  induction l generalizing s with
  | nil => simpa [Proper, Intervals.absorb] using hs
  | cons i l ih =>
    obtain ⟨hi, hrest⟩ := forall_mem_cons.mp h
    rw [Intervals.absorb]
    split_ifs with below above
    · exact forall_mem_cons.mpr ⟨hs, h⟩
    · exact forall_mem_cons.mpr ⟨hi, ih hrest hs⟩
    · exact ih hrest ((min_le_left _ _).trans_lt (hs.trans_le (le_max_left _ _)))

theorem Proper.le {l : List (α × α)} (h : Proper l) : ∀ i ∈ l, i.1 ≤ i.2 :=
  fun i hi => (h i hi).le

section

/-- From the lowest to the highest, with a gap between any two of them. -/
def Ascending (l : List (α × α)) : Prop := l.Pairwise fun i j => i.2 < j.1

/-- Add one interval to an ascending list, from its end. -/
def insert (l : List (α × α)) (s : α × α) : List (α × α) := (absorb l.reverse s).reverse

variable {l : List (α × α)} {s i j : α × α} {a b : α}

theorem separated_reverse_iff : Separated l.reverse ↔ Ascending l :=
  pairwise_reverse

theorem cover_insert (l : List (α × α)) (s : α × α) :
    cover (insert l s) = cover l ∪ Set.Ico s.1 s.2 := by
  rw [insert, cover_reverse, cover_absorb, cover_reverse]

theorem mem_cover_insert {x : α} : x ∈ cover (insert l s) ↔ x ∈ cover l ∨ (s.1 ≤ x ∧ x < s.2) := by
  rw [cover_insert, Set.mem_union, Set.mem_Ico]

theorem mem_cover_of_mem {x : α} (hi : i ∈ l) (h₁ : i.1 ≤ x) (h₂ : x < i.2) : x ∈ cover l :=
  ⟨i, hi, h₁, h₂⟩

theorem endpoints_insert {P : α → Prop} (hl : ∀ i ∈ l, P i.1 ∧ P i.2) (hs : P s.1 ∧ P s.2) :
    ∀ i ∈ insert l s, P i.1 ∧ P i.2 := by
  intro i hi
  exact endpoints_absorb (fun i hi => hl i (mem_reverse.mp hi)) hs i (mem_reverse.mp hi)

theorem mem_insert {l : List (α × α)} {s k : α × α} (hk : k ∈ insert l s) :
    k ∈ l ∨ k.1 ≤ s.1 ∧ s.2 ≤ k.2 :=
  (mem_absorb (mem_reverse.mp hk)).imp_left mem_reverse.mp

theorem Ascending.insert (h : Ascending l) (hl : ∀ i ∈ l, i.1 ≤ i.2) : Ascending (insert l s) := by
  apply separated_reverse_iff.mp
  rw [Intervals.insert, reverse_reverse]
  exact (separated_reverse_iff.mpr h).absorb fun i hi => hl i (mem_reverse.mp hi)

theorem Proper.insert (h : Proper l) (hs : s.1 < s.2) : Proper (insert l s) := by
  intro i hi
  exact Proper.absorb (fun i hi => h i (mem_reverse.mp hi)) hs i (mem_reverse.mp hi)

theorem absorb_append {m : List (α × α)} (hs : s.1 ≤ s.2) (hl : ∀ i ∈ l, i.1 ≤ i.2)
    (above : ∀ i ∈ l, s.2 < i.1) : absorb (l ++ m) s = l ++ absorb m s := by
  induction l with
  | nil => rfl
  | cons i l ih =>
    have hi := above i mem_cons_self
    have hlow : ¬ i.2 < s.1 :=
      not_lt.mpr (hs.trans (hi.le.trans (hl i mem_cons_self)))
    rw [cons_append, absorb, if_neg hlow, if_pos hi, ih (fun j hj => hl j (mem_cons_of_mem _ hj))
        (fun j hj => above j (mem_cons_of_mem _ hj)), cons_append]

theorem insert_append {m : List (α × α)} (hs : s.1 ≤ s.2) (hm : ∀ i ∈ m, i.1 ≤ i.2)
    (above : ∀ i ∈ m, s.2 < i.1) : insert (l ++ m) s = insert l s ++ m := by
  rw [insert, reverse_append, absorb_append hs (fun i hi => hm i (mem_reverse.mp hi))
      (fun i hi => above i (mem_reverse.mp hi)),
    reverse_append, reverse_reverse, insert]

/-- An interval that touches none of the list is put in its place. -/
theorem insert_between {m : List (α × α)} (hs : s.1 ≤ s.2) (below : ∀ i ∈ l, i.2 < s.1)
    (hm : ∀ i ∈ m, i.1 ≤ i.2) (above : ∀ i ∈ m, s.2 < i.1) :
    insert (l ++ m) s = l ++ s :: m := by
  have hlast : absorb l.reverse s = s :: l.reverse := by
    cases hl : l.reverse with
    | nil => rfl
    | cons i l' =>
      have hi : i ∈ l := mem_reverse.mp (hl ▸ mem_cons_self)
      rw [absorb, if_pos (below i hi)]
  rw [insert_append hs hm above, insert, hlast, reverse_cons, reverse_reverse,
    append_assoc, singleton_append]

/-- An interval of the list that touches the added one is taken in. -/
theorem insert_touching {m : List (α × α)} (hs : s.1 ≤ s.2) (h : Touches s i)
    (hm : ∀ j ∈ m, j.1 ≤ j.2) (above : ∀ j ∈ m, s.2 < j.1 ∧ i.2 < j.1) :
    insert (l ++ i :: m) s = insert (l ++ m) (hull s i) := by
  have hhull : (hull s i).1 ≤ (hull s i).2 := (min_le_left _ _).trans (hs.trans (le_max_left _ _))
  have htake : absorb (l ++ [i]).reverse s = absorb l.reverse (hull s i) := by
    rw [reverse_append, reverse_singleton, singleton_append, absorb,
      if_neg (not_lt.mpr h.1), if_neg (not_lt.mpr h.2)]
  calc insert (l ++ i :: m) s = insert ((l ++ [i]) ++ m) s := by simp
    _ = insert (l ++ [i]) s ++ m := insert_append hs hm fun j hj => (above j hj).1
    _ = insert l (hull s i) ++ m := by rw [insert, htake, ← insert]
    _ = insert (l ++ m) (hull s i) :=
        (insert_append hhull hm fun j hj => max_lt (above j hj).1 (above j hj).2).symm

/-- Two intervals of the list are the same or lie strictly apart. -/
theorem Ascending.eq_or_lt (h : Ascending l) (hi : i ∈ l) (hj : j ∈ l) :
    i = j ∨ i.2 < j.1 ∨ j.2 < i.1 := by
  induction l with
  | nil => cases hi
  | cons k l ih =>
    obtain ⟨hfirst, hrest⟩ := pairwise_cons.mp h
    cases hi with
    | head =>
      cases hj with
      | head => exact .inl rfl
      | tail _ hj => exact .inr (.inl (hfirst j hj))
    | tail _ hi =>
      cases hj with
      | head => exact .inr (.inr (hfirst i hi))
      | tail _ hj => exact ih hrest hi hj

/-- Two intervals of the list that share a point are the same. -/
theorem Ascending.eq_of_mem {x : α} (h : Ascending l) (hi : i ∈ l) (hj : j ∈ l)
    (hix : i.1 ≤ x ∧ x < i.2) (hjx : j.1 ≤ x ∧ x < j.2) : i = j := by
  obtain heq | hlt | hlt := h.eq_or_lt hi hj
  · exact heq
  · exact absurd (hix.2.trans (hlt.trans_le hjx.1)) (lt_irrefl x)
  · exact absurd (hjx.2.trans (hlt.trans_le hix.1)) (lt_irrefl x)

/-- A range without a hole lies in one interval of the list. -/
theorem Ascending.exists_of_Ico_subset (h : Ascending l) (hab : a < b)
    (covered : ∀ x, a ≤ x → x < b → x ∈ cover l) : ∃ i ∈ l, i.1 ≤ a ∧ b ≤ i.2 := by
  obtain ⟨i, hi, hia, hai⟩ := covered a le_rfl hab
  refine ⟨i, hi, hia, ?_⟩
  by_contra hib
  -- the point behind the interval would lie in another one, which touches it
  have hib := not_le.mp hib
  obtain ⟨j, hj, hji, hij⟩ := covered i.2 hai.le hib
  obtain rfl | hlt | hlt := h.eq_or_lt hi hj
  · exact lt_irrefl _ hij
  · exact absurd (hlt.trans_le hji) (lt_irrefl _)
  · exact absurd (hij.trans (hlt.trans_le (hia.trans hai.le))) (lt_irrefl _)

/-- What becomes of an interval when another one is added. -/
theorem mem_or_le_of_insert {l : List (α × α)} {s i k : α × α}
    (h : Ascending (insert l s)) (hl : Ascending l) (hi : i ∈ l) (hlt : i.1 < i.2)
    (hs : s.1 < s.2) (hk : k ∈ insert l s) (hks : k.1 ≤ s.1 ∧ s.2 ≤ k.2) :
    i ∈ insert l s ∨ k.1 ≤ i.1 ∧ i.2 ≤ k.2 := by
  obtain ⟨m, hm, hmi⟩ := h.exists_of_Ico_subset hlt fun x h₁ h₂ =>
    mem_cover_insert.mpr (.inl (mem_cover_of_mem hi h₁ h₂))
  obtain hold | hms := mem_insert hm
  · obtain rfl := hl.eq_of_mem hi hold ⟨le_rfl, hlt⟩ ⟨hmi.1, hlt.trans_le hmi.2⟩
    exact .inl hm
  · obtain rfl := h.eq_of_mem hm hk ⟨hms.1, hs.trans_le hms.2⟩ ⟨hks.1, hs.trans_le hks.2⟩
    exact .inr hmi

theorem Ascending.head_le (h : Ascending (i :: l)) (hp : ∀ k ∈ i :: l, k.1 ≤ k.2)
    (hj : j ∈ i :: l) : i.1 ≤ j.1 := by
  cases hj with
  | head => exact le_rfl
  | tail _ hj =>
    exact (hp i mem_cons_self).trans ((pairwise_cons.mp h).1 j hj).le

end

/-! One point added to an ascending list of intervals of natural numbers. What happens depends
on which of the two intervals around it it touches. -/

variable {l m : List (ℕ × ℕ)} {p i : ℕ × ℕ} {a : ℕ}

/-- The other intervals lie strictly below and above. -/
theorem Ascending.apart (h : Ascending (l ++ p :: m)) :
    (∀ j ∈ l, j.2 < p.1) ∧ ∀ j ∈ m, p.2 < j.1 := by
  obtain ⟨-, hright, hcross⟩ := pairwise_append.mp h
  exact ⟨fun j hj => hcross j hj p mem_cons_self, (pairwise_cons.mp hright).1⟩

theorem Ascending.below_of_lt (h : Ascending (l ++ p :: m)) (hp : p.1 < p.2) (below : p.2 < a) :
    ∀ j ∈ l ++ [p], j.2 < a := by
  intro j hj
  obtain hj | hj := mem_append.mp hj
  · exact (h.apart.1 j hj).trans (hp.trans below)
  · exact mem_singleton.mp hj ▸ below

theorem Proper.le_right (h : Proper (l ++ p :: m)) : ∀ j ∈ m, j.1 ≤ j.2 :=
  fun j hj => (h j (mem_append_right l (mem_cons_of_mem p hj))).le

theorem insert_point_apart (h : Ascending (l ++ p :: m)) (hp : Proper (l ++ p :: m))
    (below : p.2 < a) (above : ∀ j ∈ m, a + 1 < j.1) :
    insert (l ++ p :: m) (a, a + 1) = l ++ p :: (a, a + 1) :: m := by
  have hl := h.below_of_lt (hp p (by simp)) below
  calc insert (l ++ p :: m) (a, a + 1) = insert ((l ++ [p]) ++ m) (a, a + 1) := by simp
    _ = (l ++ [p]) ++ (a, a + 1) :: m := insert_between (Nat.le_succ a) hl hp.le_right above
    _ = l ++ p :: (a, a + 1) :: m := by simp

theorem insert_point_left (h : Ascending (l ++ p :: m)) (hp : Proper (l ++ p :: m))
    (touch : p.2 = a) (above : ∀ j ∈ m, a + 1 < j.1) :
    insert (l ++ p :: m) (a, a + 1) = l ++ (p.1, a + 1) :: m := by
  have hproper : p.1 < p.2 := hp p (by simp)
  have hhull : hull (a, a + 1) p = (p.1, a + 1) := by
    simp only [hull, Prod.mk.injEq]
    omega
  rw [insert_touching (Nat.le_succ a) ⟨touch.ge, by simp only; omega⟩ hp.le_right
    (fun j hj => ⟨above j hj, by have := above j hj; omega⟩), hhull]
  exact insert_between (by simp only; omega) h.apart.1 hp.le_right above

theorem insert_point_right (h : Ascending (l ++ p :: i :: m)) (hp : Proper (l ++ p :: i :: m))
    (below : p.2 < a) (touch : a + 1 = i.1) :
    insert (l ++ p :: i :: m) (a, a + 1) = l ++ p :: (a, i.2) :: m := by
  have hassoc : l ++ p :: i :: m = (l ++ [p]) ++ i :: m := by simp
  have hl := h.below_of_lt (hp p (by simp)) below
  have hproper : i.1 < i.2 := hp i (by simp)
  rw [hassoc] at h hp ⊢
  have hhull : hull (a, a + 1) i = (a, i.2) := by
    simp only [hull, Prod.mk.injEq]
    omega
  calc insert ((l ++ [p]) ++ i :: m) (a, a + 1)
      = insert ((l ++ [p]) ++ m) (a, i.2) := by
        rw [insert_touching (Nat.le_succ a) ⟨by simp only; omega, touch.ge⟩ hp.le_right
          (fun j hj => ⟨by have := h.apart.2 j hj; simp only; omega, h.apart.2 j hj⟩), hhull]
    _ = (l ++ [p]) ++ (a, i.2) :: m :=
        insert_between (by simp only; omega) hl hp.le_right h.apart.2
    _ = l ++ p :: (a, i.2) :: m := by simp

theorem insert_point_both (h : Ascending (l ++ p :: i :: m)) (hp : Proper (l ++ p :: i :: m))
    (left : p.2 = a) (right : a + 1 = i.1) :
    insert (l ++ p :: i :: m) (a, a + 1) = l ++ (p.1, i.2) :: m := by
  have hassoc : l ++ p :: i :: m = (l ++ [p]) ++ i :: m := by simp
  have hl := h.apart.1
  have hi : i.1 < i.2 := hp i (by simp)
  have hproper : p.1 < p.2 := hp p (by simp)
  rw [hassoc] at h hp ⊢
  have habove := h.apart.2
  have hhull : hull (a, a + 1) i = (a, i.2) := by
    simp only [hull, Prod.mk.injEq]
    omega
  have hhull' : hull (a, i.2) p = (p.1, i.2) := by
    simp only [hull, Prod.mk.injEq]
    omega
  have hs : ((a, i.2) : ℕ × ℕ).1 ≤ ((a, i.2) : ℕ × ℕ).2 := by simp only; omega
  have htouch : Touches (a, i.2) p := ⟨left.ge, by simp only; omega⟩
  calc insert ((l ++ [p]) ++ i :: m) (a, a + 1)
      = insert ((l ++ [p]) ++ m) (a, i.2) := by
        rw [insert_touching (Nat.le_succ a) ⟨by simp only; omega, right.ge⟩ hp.le_right
          (fun j hj => ⟨by have := habove j hj; simp only; omega, habove j hj⟩), hhull]
    _ = insert (l ++ p :: m) (a, i.2) := by simp
    _ = insert (l ++ m) (p.1, i.2) := by
        rw [insert_touching hs htouch hp.le_right
          (fun j hj => ⟨habove j hj, by have := habove j hj; omega⟩), hhull']
    _ = l ++ (p.1, i.2) :: m :=
        insert_between (by simp only; omega) hl hp.le_right habove

/-! One point taken out again. The interval that has it is split, shortened or dropped. -/

/-- The parts of an interval on both sides of a point. -/
def punch (a : ℕ) (i : ℕ × ℕ) : List (ℕ × ℕ) :=
  if i.1 ≤ a ∧ a < i.2 then [(i.1, a), (a + 1, i.2)].filter fun j => j.1 < j.2 else [i]

/-- Take one point out of every interval of a list. -/
def erase (l : List (ℕ × ℕ)) (a : ℕ) : List (ℕ × ℕ) := l.flatMap (punch a)

theorem punch_of_not_mem (h : ¬ (i.1 ≤ a ∧ a < i.2)) : punch a i = [i] := if_neg h

theorem mem_punch {j : ℕ × ℕ} (h : j ∈ punch a i) : i.1 ≤ j.1 ∧ j.2 ≤ i.2 := by
  rw [punch] at h
  split_ifs at h with hin
  · obtain ⟨hj, -⟩ := mem_filter.mp h
    obtain rfl | hj := mem_cons.mp hj
    · exact ⟨le_rfl, hin.2.le⟩
    · obtain rfl := mem_singleton.mp hj
      exact ⟨Nat.le_succ_of_le hin.1, le_rfl⟩
  · obtain rfl := mem_singleton.mp h
    exact ⟨le_rfl, le_rfl⟩

theorem mem_cover_punch {x : ℕ} : x ∈ cover (punch a i) ↔ (i.1 ≤ x ∧ x < i.2) ∧ x ≠ a := by
  rw [punch]
  split_ifs with hin
  · simp only [cover, mem_filter, mem_cons, not_mem_nil, or_false,
      decide_eq_true_eq, Set.mem_ofPred_eq]
    constructor
    · rintro ⟨j, ⟨rfl | rfl, -⟩, hle, hlt⟩
      · simp only at hle hlt
        omega
      · simp only at hle hlt
        omega
    · rintro ⟨hx, hne⟩
      obtain hlt | hlt := Nat.lt_or_gt_of_ne hne
      · exact ⟨(i.1, a), ⟨.inl rfl, by simp only; omega⟩, hx.1, hlt⟩
      · exact ⟨(a + 1, i.2), ⟨.inr rfl, by simp only; omega⟩, hlt, hx.2⟩
  · rw [mem_cover_cons, cover_nil]
    constructor
    · rintro (hx | hx)
      · exact ⟨hx, fun heq => hin (heq ▸ hx)⟩
      · exact absurd hx (Set.notMem_empty x)
    · exact fun hx => .inl hx.1

theorem mem_cover_erase {x : ℕ} : x ∈ cover (erase l a) ↔ x ∈ cover l ∧ x ≠ a := by
  induction l with
  | nil => simp [erase]
  | cons i l ih =>
    rw [mem_cover_cons, or_and_right, ← ih, ← mem_cover_punch]
    exact mem_cover_append

theorem Proper.erase (h : Proper l) : Proper (erase l a) := by
  intro j hj
  obtain ⟨i, hi, hj⟩ := mem_flatMap.mp hj
  rw [punch] at hj
  split_ifs at hj
  · simpa using (mem_filter.mp hj).2
  · exact mem_singleton.mp hj ▸ h i hi

theorem Ascending.erase (h : Ascending l) : Ascending (erase l a) := by
  refine pairwise_flatMap.mpr ⟨fun i _ => ?_, h.imp fun hij x hx y hy => ?_⟩
  · rw [punch]
    split_ifs
    · refine List.Pairwise.filter _ ?_
      simp
    · exact pairwise_singleton _ _
  · exact (mem_punch hx).2.trans_lt (hij.trans_le (mem_punch hy).1)

theorem erase_of_not_mem (h : a ∉ cover l) : erase l a = l := by
  induction l with
  | nil => rfl
  | cons i l ih =>
    rw [mem_cover_cons, not_or] at h
    show punch a i ++ erase l a = i :: l
    rw [punch_of_not_mem h.1, ih h.2, singleton_append]

/-- Cut off what does not lie above `a` by whole intervals. Nothing above `a` is lost unless `a`
and the point behind it lie in one interval. -/
theorem mem_cover_filter_above {x : ℕ} (h : ¬ (a ∈ cover l ∧ a + 1 ∈ cover l)) :
    x ∈ cover (l.filter fun i => a < i.1) ↔ x ∈ cover l ∧ a < x := by
  constructor
  · rintro ⟨i, hi, hle, hlt⟩
    obtain ⟨hi, ha⟩ := mem_filter.mp hi
    exact ⟨⟨i, hi, hle, hlt⟩, (of_decide_eq_true ha).trans_le hle⟩
  · rintro ⟨⟨i, hi, hle, hlt⟩, hax⟩
    refine ⟨i, mem_filter.mpr ⟨hi, decide_eq_true ?_⟩, hle, hlt⟩
    by_contra hia
    have hia := not_lt.mp hia
    exact h ⟨⟨i, hi, hia, hax.trans hlt⟩, ⟨i, hi, Nat.le_succ_of_le hia,
      (Nat.succ_le_of_lt hax).trans_lt hlt⟩⟩

/-! The interval around a point, and the number of points. -/

/-- No interval of the list goes on behind another one. -/
theorem Ascending.end_not_mem_cover (h : Ascending l) (hp : Proper l) (hi : i ∈ l) :
    i.2 ∉ cover l := by
  rintro ⟨j, hj, hle, hlt⟩
  have hlt_i := hp i hi
  obtain rfl | h' | h' := h.eq_or_lt hi hj <;> omega

theorem Ascending.pred_not_mem_cover (h : Ascending l) (hp : Proper l) (hi : i ∈ l) {x : ℕ}
    (hx : i.1 = x + 1) : x ∉ cover l := by
  rintro ⟨j, hj, hle, hlt⟩
  have hlt_i := hp i hi
  obtain rfl | h' | h' := h.eq_or_lt hi hj <;> omega

/-- An interval is one of every list that covers the same points from right before it on. -/
theorem Ascending.mem_of_cover {l l' : List (ℕ × ℕ)} {i : ℕ × ℕ} (h : Ascending l)
    (hp : Proper l) (h' : Ascending l') (hi : i ∈ l)
    (hcover : ∀ x, i.1 ≤ x + 1 → (x ∈ cover l' ↔ x ∈ cover l)) : i ∈ l' := by
  have hlt := hp i hi
  obtain ⟨k, hk, hlow, hhigh⟩ := h'.exists_of_Ico_subset hlt fun x h₁ h₂ =>
    (hcover x (by omega)).mpr (mem_cover_of_mem hi h₁ h₂)
  have hend : k.2 ≤ i.2 := by
    by_contra hgt
    have hmem := mem_cover_of_mem hk (by omega : k.1 ≤ i.2) (by omega)
    exact h.end_not_mem_cover hp hi ((hcover i.2 (by omega)).mp hmem)
  have hbegin : i.1 ≤ k.1 := by
    by_contra hgt
    obtain ⟨x, hx⟩ : ∃ x, i.1 = x + 1 := ⟨i.1 - 1, by omega⟩
    have hmem := mem_cover_of_mem hk (by omega : k.1 ≤ x) (by omega)
    exact h.pred_not_mem_cover hp hi hx ((hcover x (by omega)).mp hmem)
  have heq : k = i := Prod.ext (hlow.antisymm hbegin) (hend.antisymm hhigh)
  exact heq ▸ hk

/-- The first point of an interval is the least one from which all points are covered. -/
theorem Ascending.isLeast_fst (h : Ascending l) (hp : Proper l) (hi : i ∈ l) {x : ℕ}
    (hx : i.1 ≤ x ∧ x < i.2) : IsLeast {a | Set.Icc a x ⊆ cover l} i.1 := by
  refine ⟨fun y hy => ⟨i, hi, hy.1, hy.2.trans_lt hx.2⟩, fun a ha => ?_⟩
  by_contra hlt
  obtain ⟨y, hy⟩ : ∃ y, i.1 = y + 1 := ⟨i.1 - 1, by omega⟩
  exact h.pred_not_mem_cover hp hi hy (ha ⟨by omega, by omega⟩)

/-- The end of an interval is the greatest point up to which all points are covered. -/
theorem Ascending.isGreatest_snd (h : Ascending l) (hp : Proper l) (hi : i ∈ l) {x : ℕ}
    (hx : i.1 ≤ x ∧ x < i.2) : IsGreatest {b | Set.Ico x b ⊆ cover l} i.2 := by
  refine ⟨fun y hy => ⟨i, hi, hx.1.trans hy.1, hy.2⟩, fun b hb => ?_⟩
  by_contra hlt
  exact h.end_not_mem_cover hp hi (hb ⟨by omega, by omega⟩)

theorem finite_cover (l : List (ℕ × ℕ)) : (cover l).Finite := by
  induction l with
  | nil => simp
  | cons i l ih =>
    refine ((Set.finite_Ico i.1 i.2).union ih).subset fun x hx => ?_
    rwa [mem_cover_cons] at hx

/-- Each point is counted once. -/
theorem Ascending.ncard_cover (h : Ascending l) :
    (cover l).ncard = (l.map fun i => i.2 - i.1).sum := by
  induction l with
  | nil => simp
  | cons i l ih =>
    obtain ⟨hi, hl⟩ := pairwise_cons.mp h
    have hcons : cover (i :: l) = Set.Ico i.1 i.2 ∪ cover l := by
      ext x
      rw [mem_cover_cons, Set.mem_union, Set.mem_Ico]
    have hdisjoint : Disjoint (Set.Ico i.1 i.2) (cover l) := by
      rw [Set.disjoint_left]
      rintro x ⟨-, hx⟩ ⟨j, hj, hle, -⟩
      have := hi j hj
      omega
    rw [hcons, Set.ncard_union_eq hdisjoint (Set.finite_Ico _ _) (finite_cover l), ih hl,
      map_cons, sum_cons, ← Finset.coe_Ico, Set.ncard_coe_finset, Nat.card_Ico]

end Intervals
