import Mathlib

/-!
# Lists

Facts about lists that are walked from one end: membership along two related lists, and
the prefix of a list on which a predicate holds when the predicate can only change once, and
lists that are kept sorted by a comparison, and selections of elements.
-/

namespace List

section

variable {α β : Type*} {R : α → β → Prop} {l : List α} {m : List β}

theorem Forall₂.exists_of_mem_left (h : Forall₂ R l m) {a : α} (ha : a ∈ l) : ∃ b ∈ m, R a b := by
  induction h with
  | nil => cases ha
  | cons hab _ ih =>
    cases ha with
    | head => exact ⟨_, mem_cons_self, hab⟩
    | tail _ ha =>
      obtain ⟨b, hb, hr⟩ := ih ha
      exact ⟨b, mem_cons_of_mem _ hb, hr⟩

theorem Forall₂.exists_of_mem_right (h : Forall₂ R l m) {b : β} (hb : b ∈ m) : ∃ a ∈ l, R a b := by
  have swapped : Forall₂ (fun b a => R a b) m l := Forall₂.flip h
  exact swapped.exists_of_mem_left hb

variable {p : α → Bool}

/-- `p` holds up to some place of the list and not behind it. -/
def Switches (p : α → Bool) (l : List α) : Prop := l.Pairwise fun a b => p b → p a

theorem Switches.filter_eq_nil {a : α} (h : Switches p (a :: l)) (ha : p a = false) :
    l.filter p = [] := by
  refine filter_eq_nil_iff.mpr fun b hb hpb => ?_
  have := (pairwise_cons.mp h).1 b hb hpb
  simp [ha] at this

theorem Switches.takeWhile_eq (h : Switches p l) : l.takeWhile p = l.filter p := by
  induction l with
  | nil => rfl
  | cons a l ih =>
    cases ha : p a with
    | true => simp [ha, ih (pairwise_cons.mp h).2]
    | false => simp [ha, h.filter_eq_nil ha]

theorem Switches.dropWhile_eq (h : Switches p l) : l.dropWhile p = l.filter (!p ·) := by
  induction l with
  | nil => rfl
  | cons a l ih =>
    cases ha : p a with
    | true => simp [ha, ih (pairwise_cons.mp h).2]
    | false =>
      have hrest : l.filter (!p ·) = l := by
        refine filter_eq_self.mpr fun b hb => ?_
        simpa using filter_eq_nil_iff.mp (h.filter_eq_nil ha) b hb
      simp [ha, hrest]

theorem takeWhile_append_of_split {l₁ l₂ : List α} (h₁ : ∀ a ∈ l₁, p a = true)
    (h₂ : ∀ a ∈ l₂, p a = false) : (l₁ ++ l₂).takeWhile p = l₁ := by
  rw [takeWhile_append_of_pos h₁]
  cases l₂ with
  | nil => simp
  | cons a l₂ => simp [h₂ a mem_cons_self]

theorem dropWhile_append_of_split {l₁ l₂ : List α} (h₁ : ∀ a ∈ l₁, p a = true)
    (h₂ : ∀ a ∈ l₂, p a = false) : (l₁ ++ l₂).dropWhile p = l₂ := by
  rw [dropWhile_append_of_pos h₁]
  cases l₂ with
  | nil => rfl
  | cons a l₂ => simp [h₂ a mem_cons_self]

/-- A list along which `p` switches is the part with `p` and then the part without. -/
theorem Switches.filter_append (h : Switches p l) : l.filter p ++ l.filter (!p ·) = l := by
  rw [← h.takeWhile_eq, ← h.dropWhile_eq, takeWhile_append_dropWhile]

theorem Switches.filter_append_filter {q : α → Bool} (h : Switches p l)
    (hpq : ∀ a ∈ l, p a = true → q a = true) :
    l.filter p ++ l.filter (fun a => !p a && q a) = l.filter q := by
  have hp : (l.filter p).filter q = l.filter p :=
    filter_eq_self.mpr fun a ha => hpq a (mem_of_mem_filter ha) (mem_filter.mp ha).2
  calc l.filter p ++ l.filter (fun a => !p a && q a)
      = (l.filter p).filter q ++ (l.filter (!p ·)).filter q := by
        rw [hp, filter_filter]
        congr 1
        exact filter_congr fun a _ => Bool.and_comm _ _
    _ = l.filter q := by rw [← List.filter_append, h.filter_append]

theorem filter_concat_of_false {a : α} (h : p a = false) : (l ++ [a]).filter p = l.filter p := by
  simp [h]

/-- On a list along which `p` switches, counting the elements with `p` finds them. -/
theorem Switches.take_countP (h : Switches p l) : l.take (l.countP p) = l.filter p := by
  rw [countP_eq_length_filter, ← h.takeWhile_eq]
  have hprefix := takeWhile_prefix p (l := l)
  exact (prefix_iff_eq_take.mp hprefix).symm

variable {q : α → Bool}

/-- Two searches give the same if and only if what they differ in stands behind something that both
find. -/
theorem find?_eq_find?_iff : l.find? p = l.find? q ↔
    ∀ before a behind, l = before ++ a :: behind → p a ≠ q a →
      ∃ b ∈ before, p b = true ∧ q b = true := by
  induction l with
  | nil => simp
  | cons a l ih =>
    rw [find?_cons, find?_cons]
    by_cases hboth : p a = true ∧ q a = true
    · simp only [hboth.1, hboth.2, true_iff]
      intro before b behind heq hne
      cases before with
      | nil =>
        obtain ⟨rfl, -⟩ := cons.inj heq
        exact absurd (hboth.1.trans hboth.2.symm) hne
      | cons c before =>
        obtain ⟨rfl, -⟩ := cons.inj heq
        exact ⟨a, mem_cons_self, hboth⟩
    by_cases hdiff : p a = q a
    · have hp : p a = false := by
        by_contra hp
        exact hboth ⟨by simpa using hp, hdiff ▸ by simpa using hp⟩
      rw [← hdiff, hp, ih]
      constructor
      · intro h before b behind heq hne
        cases before with
        | nil =>
          obtain ⟨rfl, -⟩ := cons.inj heq
          exact absurd hdiff hne
        | cons c before =>
          obtain ⟨-, rfl⟩ := cons.inj heq
          obtain ⟨d, hd, hpq⟩ := h before b behind rfl hne
          exact ⟨d, mem_cons_of_mem _ hd, hpq⟩
      · intro h before b behind heq hne
        obtain ⟨d, hd, hpq⟩ := h (a :: before) b behind (by rw [heq, cons_append]) hne
        obtain rfl | hd := mem_cons.mp hd
        · exact absurd hpq hboth
        · exact ⟨d, hd, hpq⟩
    · refine iff_of_false ?_ fun h => ?_
      · intro heq
        cases hp : p a <;> cases hq : q a <;> rw [hp, hq] at heq hdiff
        · exact hdiff rfl
        · have := find?_some heq
          rw [hp] at this
          cases this
        · have := find?_some heq.symm
          rw [hq] at this
          cases this
        · exact hdiff rfl
      · obtain ⟨b, hb, -⟩ := h [] a l rfl hdiff
        cases hb

/-- What a search finds is the first member that it looks for. -/
theorem find?_eq_some_iff_first {a : α} : l.find? p = some a ↔
    ∃ before behind, l = before ++ a :: behind ∧ p a = true ∧ ∀ b ∈ before, p b = false := by
  rw [find?_eq_some_iff_append]
  constructor
  · rintro ⟨ha, before, behind, rfl, h⟩
    exact ⟨before, behind, rfl, ha, fun b hb => by simpa using h b hb⟩
  · rintro ⟨before, behind, rfl, ha, h⟩
    exact ⟨ha, before, behind, rfl, fun b hb => by simpa using h b hb⟩

variable {lt : α → α → Bool} {a b : α}

/-- No element is less than one in front of it. -/
def SortedBy (lt : α → α → Bool) (l : List α) : Prop := l.Pairwise fun a b => lt b a = false
deriving Decidable

/-- Insert an element in front of the first greater one, the place that `std::upper_bound` finds
in a sorted range. -/
def insertUpper (lt : α → α → Bool) (a : α) (l : List α) : List α :=
  (l.takeWhile fun b => !lt a b) ++ a :: l.dropWhile fun b => !lt a b

theorem exists_insertUpper (lt : α → α → Bool) (a : α) (l : List α) :
    ∃ l₁ l₂, l = l₁ ++ l₂ ∧ insertUpper lt a l = l₁ ++ a :: l₂ :=
  ⟨_, _, (takeWhile_append_dropWhile ..).symm, rfl⟩

theorem mem_insertUpper : b ∈ insertUpper lt a l ↔ b = a ∨ b ∈ l := by
  obtain ⟨l₁, l₂, rfl, heq⟩ := exists_insertUpper lt a l
  rw [heq]
  simp only [mem_append, mem_cons]
  exact or_left_comm

/-- Inserting keeps a list sorted by a transitive and asymmetric comparison. -/
theorem SortedBy.insertUpper (trans : ∀ a b c, lt a b = true → lt b c = true → lt a c = true)
    (asymm : ∀ a b, lt a b = true → lt b a = false) (h : SortedBy lt l) :
    SortedBy lt (insertUpper lt a l) := by
  have hsplit : SortedBy lt ((l.takeWhile fun b => !lt a b) ++ l.dropWhile fun b => !lt a b) := by
    rwa [takeWhile_append_dropWhile]
  obtain ⟨hfront, hback, hcross⟩ := pairwise_append.mp hsplit
  have hbefore : ∀ b ∈ l.takeWhile (fun b => !lt a b), lt a b = false :=
    fun b hb => by simpa using mem_takeWhile_imp hb
  refine pairwise_append.mpr
    ⟨hfront, pairwise_cons.mpr ⟨fun c hc => ?_, hback⟩, fun b hb c hc => ?_⟩
  · cases hrest : l.dropWhile fun b => !lt a b with
    | nil => exact absurd (hrest ▸ hc) not_mem_nil
    | cons d rest =>
      have hd : lt a d = true := by
        have := head_dropWhile_not (fun b => !lt a b) (hrest ▸ cons_ne_nil d rest)
        simpa [hrest] using this
      rw [hrest] at hc hback
      obtain rfl | hc := mem_cons.mp hc
      · exact asymm a c hd
      · -- `c < a < d` would put `c` in front of `d`
        rw [← Bool.not_eq_true]
        intro hca
        have hcd := trans c a d hca hd
        rw [(pairwise_cons.mp hback).1 c hc] at hcd
        cases hcd
  · obtain rfl | hc := mem_cons.mp hc
    · exact hbefore b hb
    · exact hcross b hb c hc

/-- Elements in front that are not greater stay in front. -/
theorem insertUpper_append {l' : List α} (h : ∀ b ∈ l', lt a b = false) :
    insertUpper lt a (l' ++ l) = l' ++ insertUpper lt a l := by
  have hall : ∀ b ∈ l', (!lt a b) = true := fun b hb => by rw [h b hb, Bool.not_false]
  rw [insertUpper, takeWhile_append_of_pos hall, dropWhile_append_of_pos hall, append_assoc,
    insertUpper]

variable {l₁ l₂ : List α} {n : ℕ}

theorem modify_append_cons (f : α → α) (h : l₁.length = n) :
    (l₁ ++ a :: l₂).modify n f = l₁ ++ f a :: l₂ := by
  subst h
  induction l₁ with
  | nil => rfl
  | cons b l₁ ih => rw [cons_append, length_cons, modify_succ_cons, ih, cons_append]

theorem eraseIdx_append_cons (h : l₁.length = n) : (l₁ ++ a :: l₂).eraseIdx n = l₁ ++ l₂ := by
  rw [eraseIdx_append_of_length_le h.le, h, Nat.sub_self, eraseIdx_cons_zero]

theorem getElem?_append_cons (h : l₁.length = n) : (l₁ ++ a :: l₂)[n]? = some a := by
  rw [getElem?_append_right h.le, h, Nat.sub_self, getElem?_cons_zero]

/-- A list with two of its elements named. -/
theorem exists_append_cons_append_cons {b : α} {l : List α} {i j : ℕ} (hji : j < i)
    (hj : l[j]? = some a) (hi : l[i]? = some b) :
    ∃ l₁ l₂ l₃, l = l₁ ++ a :: (l₂ ++ b :: l₃) ∧ l₁.length = j ∧ (l₁ ++ a :: l₂).length = i := by
  obtain ⟨hlt, rfl⟩ := getElem?_eq_some_iff.mp hi
  obtain ⟨hlt', rfl⟩ := getElem?_eq_some_iff.mp hj
  refine ⟨l.take j, (l.take i).drop (j + 1), l.drop (i + 1), ?_, ?_, ?_⟩
  · calc l = l.take i ++ l[i] :: l.drop (i + 1) := by rw [← drop_eq_getElem_cons, take_append_drop]
      _ = (l.take j ++ l[j] :: (l.take i).drop (j + 1)) ++ l[i] :: l.drop (i + 1) := by
          have hlt'' : j < (l.take i).length := by
            rw [length_take]
            omega
          have hget : l[j] = (l.take i).get ⟨j, hlt''⟩ := (getElem_take ..).symm
          have htake : l.take j = (l.take i).take j := by rw [take_take, min_eq_left hji.le]
          have hdrop := (drop_eq_getElem_cons hlt'').symm
          rw [htake, hget, get_eq_getElem, hdrop, take_append_drop]
      _ = l.take j ++ l[j] :: ((l.take i).drop (j + 1) ++ l[i] :: l.drop (i + 1)) := by
          rw [append_assoc, cons_append]
  · rw [length_take]
    omega
  · rw [length_append, length_cons, length_drop, length_take, length_take]
    omega

variable {r : α}

theorem find?_insert_of_false (h : p a = false) : (l₁ ++ a :: l₂).find? p = (l₁ ++ l₂).find? p := by
  simp [find?_append, h]

/-- Taking out an element does not change what is found, unless it was that element. -/
theorem find?_remove_of_ne (h : (l₁ ++ a :: l₂).find? p = some r) (hne : r ≠ a) :
    (l₁ ++ l₂).find? p = some r := by
  cases ha : p a with
  | false => rwa [find?_insert_of_false ha] at h
  | true =>
    rw [find?_append] at h ⊢
    cases h₁ : l₁.find? p with
    | none =>
      rw [h₁, Option.none_or, find?_cons_of_pos ha, Option.some.injEq] at h
      exact absurd h.symm hne
    | some b =>
      rw [h₁, Option.some_or] at h
      rw [h, Option.some_or]

variable {f g : α → Option β}

/-- Two selections of which one leaves out more are the same only if no element differs. -/
theorem eq_of_filterMap_eq (hle : ∀ a ∈ l, f a = none ∨ f a = g a)
    (h : l.filterMap f = l.filterMap g) : ∀ a ∈ l, f a = g a := by
  have hlength : ∀ l : List α, (∀ a ∈ l, f a = none ∨ f a = g a) →
      (l.filterMap f).length ≤ (l.filterMap g).length := by
    intro l
    induction l with
    | nil => simp
    | cons a l ih =>
      intro hle
      have hrest := ih fun b hb => hle b (mem_cons_of_mem a hb)
      rw [filterMap_cons, filterMap_cons]
      rcases hle a mem_cons_self with hfa | hfa
      · rw [hfa]
        cases g a with
        | none => exact hrest
        | some b => exact hrest.trans (Nat.le_succ _)
      · rw [hfa]
        cases g a with
        | none => exact hrest
        | some b => exact Nat.succ_le_succ hrest
  induction l with
  | nil => simp
  | cons a l ih =>
    have hrest : ∀ b ∈ l, f b = none ∨ f b = g b := fun b hb => hle b (mem_cons_of_mem a hb)
    rw [filterMap_cons, filterMap_cons] at h
    have hhead : f a = g a := by
      rcases hle a mem_cons_self with hfa | hfa
      · cases hga : g a with
        | none => exact hfa
        | some b =>
          rw [hfa, hga] at h
          have := congrArg length h
          have := hlength l hrest
          simp only [length_cons] at *
          omega
      · exact hfa
    rw [hhead] at h
    intro b hb
    rcases mem_cons.mp hb with rfl | hb
    · exact hhead
    · refine ih hrest ?_ b hb
      cases hga : g a with
      | none =>
        rw [hga] at h
        exact h
      | some c =>
        rw [hga] at h
        exact (cons.inj h).2

end

variable {α β : Type*} {f g : α → List β} {xs : List α}

theorem length_flatMap_le_of_forall (h : ∀ x ∈ xs, (f x).length ≤ (g x).length) :
    (xs.flatMap f).length ≤ (xs.flatMap g).length := by
  induction xs with
  | nil => exact le_rfl
  | cons x xs ih =>
    obtain ⟨hx, hxs⟩ := forall_mem_cons.mp h
    simp only [flatMap_cons, length_append]
    exact Nat.add_le_add hx (ih hxs)

/-- Parts that are nowhere longer agree in sequence only if they agree one by one. -/
theorem flatMap_eq_iff_of_length_le (h : ∀ x ∈ xs, (f x).length ≤ (g x).length) :
    xs.flatMap f = xs.flatMap g ↔ ∀ x ∈ xs, f x = g x := by
  constructor
  · intro heq
    induction xs with
    | nil => exact fun x hx => absurd hx not_mem_nil
    | cons x xs ih =>
      obtain ⟨hx, hxs⟩ := forall_mem_cons.mp h
      have hrest := length_flatMap_le_of_forall hxs
      simp only [flatMap_cons] at heq
      have hlength := congrArg length heq
      simp only [length_append] at hlength
      obtain ⟨hfirst, hlater⟩ := append_inj heq (by omega)
      exact forall_mem_cons.mpr ⟨hfirst, ih hxs hlater⟩
  · intro hall
    exact flatMap_congr hall

end List
