import Mathlib

/-!
# Lists sorted by a key

A finite map whose values know their keys is a list of the values, sorted by the key. The
lemmas say what the operations do to the members of the list, so that a map can be
described by its members alone.

An iterator is the key of the member that it points to, or `none` behind the last one.
-/

namespace KeyedList

open List

variable {α κ : Type*} [LinearOrder κ] (key : α → κ)

/-- No two members have the same key, and the first one has the least. -/
def Sorted (xs : List α) : Prop := xs.Pairwise fun x y => key x < key y

def lookup (xs : List α) (k : κ) : Option α := xs.find? fun x => key x = k

def insert (x : α) (xs : List α) : List α := xs.orderedInsert (fun x y => key x ≤ key y) x

def erase (xs : List α) (k : κ) : List α := xs.filter fun x => key x ≠ k

/-- The first member whose key satisfies `p`. -/
def firstWith (p : κ → Prop) [DecidablePred p] (xs : List α) : Option κ :=
  (xs.find? fun x => p (key x)).map key

def lowerBound (xs : List α) (k : κ) : Option κ := firstWith key (k ≤ ·) xs

def upperBound (xs : List α) (k : κ) : Option κ := firstWith key (k < ·) xs

variable {key} {xs : List α} {x y : α} {k : κ}

theorem Sorted.eq_of_key (h : Sorted key xs) (hx : x ∈ xs) (hy : y ∈ xs)
    (hkey : key x = key y) : x = y := by
  induction xs with
  | nil => cases hx
  | cons z xs ih =>
    obtain ⟨hz, hxs⟩ := pairwise_cons.mp h
    cases hx with
    | head =>
      cases hy with
      | head => rfl
      | tail _ hy => exact absurd hkey (hz y hy).ne
    | tail _ hx =>
      cases hy with
      | head => exact absurd hkey.symm (hz x hx).ne
      | tail _ hy => exact ih hxs hx hy

theorem lookup_eq_some (h : Sorted key xs) : lookup key xs k = some x ↔ x ∈ xs ∧ key x = k := by
  constructor
  · intro hfind
    exact ⟨mem_of_find?_eq_some hfind, by simpa using find?_some hfind⟩
  · rintro ⟨hx, rfl⟩
    cases hfind : lookup key xs (key x) with
    | none => simpa using find?_eq_none.mp hfind x hx
    | some y =>
      have hy : key y = key x := by simpa using find?_some hfind
      rw [h.eq_of_key (mem_of_find?_eq_some hfind) hx hy]

theorem lookup_eq_none : lookup key xs k = none ↔ ∀ x ∈ xs, key x ≠ k := by
  simp [lookup]

@[simp] theorem mem_insert : y ∈ insert key x xs ↔ y = x ∨ y ∈ xs :=
  mem_orderedInsert _

@[simp] theorem mem_erase : x ∈ erase key xs k ↔ x ∈ xs ∧ key x ≠ k := by
  simp [erase]

theorem Sorted.insert (h : Sorted key xs) (fresh : ∀ y ∈ xs, key y ≠ key x) :
    Sorted key (insert key x xs) := by
  induction xs with
  | nil => exact pairwise_singleton _ x
  | cons y xs ih =>
    obtain ⟨hy, hxs⟩ := pairwise_cons.mp h
    rw [KeyedList.insert, orderedInsert_cons]
    split_ifs with hle
    · have hlt : key x < key y := lt_of_le_of_ne hle (fresh y mem_cons_self).symm
      refine pairwise_cons.mpr ⟨fun z hz => ?_, h⟩
      obtain rfl | hz := mem_cons.mp hz
      · exact hlt
      · exact hlt.trans (hy z hz)
    · refine pairwise_cons.mpr
        ⟨fun z hz => ?_, ih hxs fun z hz => fresh z (mem_cons_of_mem y hz)⟩
      obtain rfl | hz := mem_insert.mp hz
      · exact not_le.mp hle
      · exact hy z hz

theorem Sorted.erase (h : Sorted key xs) (k : κ) : Sorted key (erase key xs k) :=
  List.Pairwise.filter _ h

theorem length_erase_lt (hx : x ∈ xs) : (erase key xs (key x)).length < xs.length :=
  length_filter_lt_length_iff_exists.mpr ⟨x, hx, by simp⟩

theorem perm_insert : (insert key x xs).Perm (x :: xs) := perm_orderedInsert _ x xs

theorem Sorted.perm_erase (h : Sorted key xs) (hx : x ∈ xs) :
    xs.Perm (x :: KeyedList.erase key xs (key x)) := by
  induction xs with
  | nil => cases hx
  | cons y xs ih =>
    obtain ⟨hy, hxs⟩ := pairwise_cons.mp h
    cases hx with
    | head =>
      have hrest : KeyedList.erase key (x :: xs) (key x) = xs := by
        rw [KeyedList.erase, filter_cons_of_neg (by simp)]
        exact filter_eq_self.mpr fun z hz => decide_eq_true (hy z hz).ne'
      rw [hrest]
    | tail _ hx =>
      have hrest : KeyedList.erase key (y :: xs) (key x) = y :: KeyedList.erase key xs (key x) :=
        filter_cons_of_pos (decide_eq_true (hy x hx).ne)
      rw [hrest]
      exact ((ih hxs hx).cons y).trans (List.Perm.swap x y _)

/-- A member takes the place of the one with its key. -/
theorem lookup_insert_erase (h : Sorted key xs) :
    lookup key (insert key x (erase key xs (key x))) k =
      if key x = k then some x else lookup key xs k := by
  have hsorted : Sorted key (KeyedList.insert key x (KeyedList.erase key xs (key x))) :=
    (h.erase (key x)).insert fun y hy => (mem_erase.mp hy).2
  ext y
  rw [lookup_eq_some hsorted, mem_insert, mem_erase]
  split_ifs with hk
  · rw [Option.some.injEq]
    constructor
    · rintro ⟨rfl | ⟨-, hne⟩, hy⟩
      · rfl
      · exact absurd (hy.trans hk.symm) hne
    · rintro rfl
      exact ⟨.inl rfl, hk⟩
  · rw [lookup_eq_some h]
    constructor
    · rintro ⟨rfl | ⟨hy, -⟩, hkey⟩
      · exact absurd hkey hk
      · exact ⟨hy, hkey⟩
    · rintro ⟨hy, hkey⟩
      exact ⟨.inr ⟨hy, fun heq => hk (heq.symm.trans hkey)⟩, hkey⟩

theorem lookup_map {f : α → α} (hf : ∀ x, key (f x) = key x) :
    lookup key (xs.map f) k = (lookup key xs k).map f := by
  simp only [lookup, find?_map, Function.comp_def, hf]

theorem Sorted.map {f : α → α} (hf : ∀ x, key (f x) = key x) (h : Sorted key xs) :
    Sorted key (xs.map f) := by
  refine pairwise_map.mpr (h.imp fun hlt => ?_)
  rw [hf, hf]
  exact hlt

theorem lookup_filter {p : α → Bool} (h : Sorted key xs) :
    lookup key (xs.filter p) k = (lookup key xs k).filter p := by
  ext y
  rw [lookup_eq_some (List.Pairwise.filter p h), mem_filter, Option.filter_eq_some_iff,
    lookup_eq_some h]
  tauto

/-- The first member has the least key. -/
theorem Sorted.head_lt (h : Sorted key (x :: xs)) (hy : y ∈ xs) : key x < key y :=
  rel_of_pairwise_cons h hy

theorem Sorted.tail (h : Sorted key (x :: xs)) : Sorted key xs := (pairwise_cons.mp h).2

variable {p : κ → Prop} [DecidablePred p] {b : κ}

omit [LinearOrder κ] in
/-- An iterator that a search has found points to a member. -/
theorem exists_of_firstWith (h : b ∈ firstWith key p xs) : ∃ x ∈ xs, key x = b ∧ p b := by
  obtain ⟨x, hfind, rfl⟩ := Option.map_eq_some_iff.mp h
  exact ⟨x, mem_of_find?_eq_some hfind, rfl, by simpa using find?_some hfind⟩

/-- The members with `p` are those from the first one on, if `p` holds of all larger keys. -/
theorem Sorted.exists_firstWith_le (h : Sorted key xs) (hp : ∀ k k', k ≤ k' → p k → p k')
    (hx : x ∈ xs) : (∃ b ∈ firstWith key p xs, b ≤ key x) ↔ p (key x) := by
  constructor
  · rintro ⟨b, hb, hle⟩
    obtain ⟨-, -, -, hpb⟩ := exists_of_firstWith hb
    exact hp b (key x) hle hpb
  · intro hpx
    induction xs with
    | nil => cases hx
    | cons y xs ih =>
      by_cases hpy : p (key y)
      · refine ⟨key y, by simp [firstWith, hpy], ?_⟩
        obtain rfl | hx := mem_cons.mp hx
        · exact le_rfl
        · exact (h.head_lt hx).le
      · have hfirst : firstWith key p (y :: xs) = firstWith key p xs := by
          simp [firstWith, hpy]
        rw [hfirst]
        obtain rfl | hx := mem_cons.mp hx
        · exact absurd hpx hpy
        · exact ih h.tail hx

theorem Sorted.exists_lowerBound_le (h : Sorted key xs) (hx : x ∈ xs) :
    (∃ b ∈ lowerBound key xs k, b ≤ key x) ↔ k ≤ key x :=
  h.exists_firstWith_le (fun _ _ hle hk => hk.trans hle) hx

theorem Sorted.exists_upperBound_le (h : Sorted key xs) (hx : x ∈ xs) :
    (∃ b ∈ upperBound key xs k, b ≤ key x) ↔ k < key x :=
  h.exists_firstWith_le (fun _ _ hle hk => hk.trans_le hle) hx

end KeyedList
