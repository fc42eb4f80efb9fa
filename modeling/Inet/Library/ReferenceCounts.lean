import Inet.Library.KeyedList

/-!
# Maps of reference counts

A map from keys to the number of references, ordered by the keys, in which a key without
references has no member. `Counts` relates it to the function that it represents: `acquire` adds a
reference and `release` takes one away, and fails if there is none.

The references are held by a number of owners. `sum_update` says what becomes of a total when one
owner is given another value.
-/

namespace ReferenceCounts

variable {α κ : Type*} [LinearOrder κ] (key : α → κ) {g : α → ℕ}

def find (counts : List (α × ℤ)) (a : α) : Option ℤ :=
  (KeyedList.lookup (fun x => key x.1) counts (key a)).map Prod.snd

/-- The member for a key, in place of the one that the map has. -/
def assign (counts : List (α × ℤ)) (a : α) (n : ℤ) : List (α × ℤ) :=
  KeyedList.insert (fun x => key x.1) (a, n) (KeyedList.erase (fun x => key x.1) counts (key a))

def acquire (counts : List (α × ℤ)) (a : α) : List (α × ℤ) :=
  match find key counts a with
  | none => assign key counts a 1
  | some n => assign key counts a (n + 1)

def release (counts : List (α × ℤ)) (a : α) : Option (List (α × ℤ)) :=
  match find key counts a with
  | none => none
  | some n =>
    if n = 1 then some (KeyedList.erase (fun x => key x.1) counts (key a))
    else some (assign key counts a (n - 1))

/-- The map holds `f`. -/
structure Counts (counts : List (α × ℤ)) (f : α → ℕ) : Prop where
  sorted : KeyedList.Sorted (fun x => key x.1) counts
  mem_iff : ∀ a n, (a, n) ∈ counts ↔ 0 < f a ∧ n = f a

variable {key} {counts : List (α × ℤ)} {f : α → ℕ} {a : α}

theorem counts_nil : Counts key [] fun _ => 0 where
  sorted := List.Pairwise.nil
  mem_iff := by simp

section

variable (h : Counts key counts f)

include h

theorem Counts.congr (heq : ∀ a, g a = f a) : Counts key counts g := (funext heq : g = f) ▸ h

theorem Counts.find_eq_none (hkey : Function.Injective key)
    (hf : f a = 0) : find key counts a = none := by
  rw [find, Option.map_eq_none_iff, KeyedList.lookup_eq_none]
  rintro ⟨b, n⟩ hmem heq
  obtain rfl := hkey heq
  exact ((h.mem_iff b n).mp hmem).1.ne' hf

theorem Counts.find_eq_some (hf : 0 < f a) : find key counts a = some (f a : ℤ) := by
  rw [find, Option.map_eq_some_iff]
  exact ⟨(a, f a), (KeyedList.lookup_eq_some h.sorted).mpr ⟨(h.mem_iff a _).mpr ⟨hf, rfl⟩, rfl⟩,
    rfl⟩

/-- The keys are those that have references. -/
theorem Counts.mem_keys : a ∈ counts.map Prod.fst ↔ 0 < f a := by
  rw [List.mem_map]
  constructor
  · rintro ⟨⟨b, n⟩, hmem, rfl⟩
    exact ((h.mem_iff b n).mp hmem).1
  · intro hf
    exact ⟨(a, f a), (h.mem_iff a _).mpr ⟨hf, rfl⟩, rfl⟩

theorem Counts.erase (hkey : Function.Injective key) (hself : g a = 0)
    (hother : ∀ b, b ≠ a → g b = f b) :
    Counts key (KeyedList.erase (fun x => key x.1) counts (key a)) g where
  sorted := h.sorted.erase _
  mem_iff b n := by
    rw [KeyedList.mem_erase, h.mem_iff]
    by_cases hb : b = a
    · subst hb
      simp [hself]
    · rw [hother b hb]
      exact and_iff_left (hkey.ne hb)

theorem Counts.assign (hkey : Function.Injective key) (hself : 0 < g a)
    (hother : ∀ b, b ≠ a → g b = f b) : Counts key (assign key counts a (g a)) g where
  sorted := (h.sorted.erase _).insert fun _ hy => (KeyedList.mem_erase.mp hy).2
  mem_iff b n := by
    rw [ReferenceCounts.assign, KeyedList.mem_insert, KeyedList.mem_erase, h.mem_iff, Prod.mk.injEq]
    by_cases hb : b = a
    · subst hb
      simp [hself]
    · rw [hother b hb, and_iff_left (hkey.ne hb)]
      simp [hb]

end

variable [DecidableEq α]

section

variable (h : Counts key counts f) (hkey : Function.Injective key)

include h hkey

theorem Counts.acquire (a : α) : Counts key (acquire key counts a) fun b => f b + [a].count b := by
  have hself : f a + [a].count a = f a + 1 := by simp
  have hassign := h.assign (a := a) hkey (g := fun b => f b + [a].count b) (by simp)
    fun b hb => by simp [Ne.symm hb]
  rw [hself] at hassign
  rw [ReferenceCounts.acquire]
  by_cases hf : f a = 0
  · rw [h.find_eq_none hkey hf]
    rwa [hf] at hassign
  · rw [h.find_eq_some (Nat.pos_of_ne_zero hf)]
    exact_mod_cast hassign

theorem Counts.release (hf : 0 < f a) : ∃ counts', release key counts a = some counts' ∧
      Counts key counts' fun b => f b - [a].count b := by
  have hother (b : α) (hb : b ≠ a) : f b - [a].count b = f b := by simp [Ne.symm hb]
  have hself : f a - [a].count a = f a - 1 := by simp
  rw [ReferenceCounts.release, h.find_eq_some hf]
  dsimp only
  split_ifs with hone
  · exact ⟨_, rfl, h.erase hkey (by omega) hother⟩
  · have hassign := h.assign (a := a) hkey (g := fun b => f b - [a].count b) (by omega) hother
    rw [hself, Int.natCast_sub hf] at hassign
    exact ⟨_, rfl, hassign⟩

theorem Counts.foldl_acquire (l : List α) :
    Counts key (l.foldl (ReferenceCounts.acquire key) counts) fun b => f b + l.count b := by
  induction l generalizing counts f with
  | nil => exact h
  | cons a l ih =>
    refine (ih (h.acquire hkey a)).congr fun b => ?_
    rw [← List.singleton_append, List.count_append, Nat.add_assoc]

theorem Counts.foldlM_release {l : List α} (hle : ∀ b, l.count b ≤ f b) :
    ∃ counts', l.foldlM (ReferenceCounts.release key) counts = some counts' ∧
      Counts key counts' fun b => f b - l.count b := by
  induction l generalizing counts f with
  | nil => exact ⟨counts, rfl, h⟩
  | cons a l ih =>
    have hcount (b : α) : (a :: l).count b = [a].count b + l.count b := by
      rw [← List.singleton_append, List.count_append]
    have hself : 0 < f a := (List.count_pos_iff.mpr List.mem_cons_self).trans_le (hle a)
    obtain ⟨counts₁, hrelease, h₁⟩ := h.release hkey hself
    obtain ⟨counts₂, hfold, h₂⟩ := ih h₁ fun b => by
      have := hle b
      rw [hcount] at this
      omega
    refine ⟨counts₂, ?_, h₂.congr fun b => ?_⟩
    · rw [List.foldlM_cons, hrelease]
      exact hfold
    · rw [hcount, Nat.sub_sub]

end

variable {ι β M : Type*} [Fintype ι] [DecidableEq ι] [AddCommMonoid M]

theorem sum_update (owners : ι → β) (i : ι) (x : β) (g : β → M) :
    ∑ j, g (Function.update owners i x j) + g (owners i) = ∑ j, g (owners j) + g x := by
  have hothers : ∑ j ∈ Finset.univ.erase i, g (Function.update owners i x j) =
      ∑ j ∈ Finset.univ.erase i, g (owners j) :=
    Finset.sum_congr rfl fun j hj => by rw [Function.update_of_ne (Finset.ne_of_mem_erase hj)]
  rw [← Finset.sum_erase_add _ _ (Finset.mem_univ i), hothers, Function.update_self,
    add_right_comm, Finset.sum_erase_add _ _ (Finset.mem_univ i)]

end ReferenceCounts
