import Mathlib

/-!
# Objects in a vector, indexed by a key

A container owns objects by a vector of pointers and finds them by a map from keys to the same
pointers. `Consistent` says that the two hold the same live objects, each once, and that the map
has an object under its own key. The lemmas say which operations keep this.
-/

/-- The pointers are numbers, of which those from `next` on have not been used. -/
structure ObjectStore (κ α : Type*) where
  heap : ℕ → Option α
  next : ℕ
  vector : List ℕ
  byKey : κ → Option ℕ

namespace ObjectStore

variable {κ α : Type*}

def empty : ObjectStore κ α := ⟨fun _ => none, 0, [], fun _ => none⟩

variable (s : ObjectStore κ α)

/-- A new object behind the others. -/
def insert [DecidableEq κ] (k : κ) (x : α) : ObjectStore κ α where
  heap := Function.update s.heap s.next (some x)
  next := s.next + 1
  vector := s.vector ++ [s.next]
  byKey := Function.update s.byKey k (some s.next)

/-- The object is assigned to. -/
def write (p : ℕ) (x : α) : ObjectStore κ α := { s with heap := Function.update s.heap p (some x) }

/-- The object is deleted, without its pointers. -/
def dispose (p : ℕ) : ObjectStore κ α := { s with heap := Function.update s.heap p none }

/-- The object is deleted, with its place in the vector and the entry of the map. -/
def remove [DecidableEq κ] (p : ℕ) (k : κ) : ObjectStore κ α :=
  { s.dispose p with vector := s.vector.erase p, byKey := Function.update s.byKey k none }

structure Consistent (key : α → κ) (s : ObjectStore κ α) : Prop where
  nodup : s.vector.Nodup
  live : ∀ p ∈ s.vector, ∃ x, s.heap p = some x
  used : ∀ p ∈ s.vector, p < s.next
  byKey_iff : ∀ k p, s.byKey k = some p ↔ p ∈ s.vector ∧ ∃ x, s.heap p = some x ∧ key x = k

variable {key : α → κ} {s} {k : κ} {p q : ℕ} {x y : α}

theorem consistent_empty : Consistent key (empty : ObjectStore κ α) where
  nodup := List.nodup_nil
  live := by simp [empty]
  used := by simp [empty]
  byKey_iff := by simp [empty]

@[simp] theorem vector_write : (s.write p x).vector = s.vector := rfl

@[simp] theorem heap_write_self : (s.write p x).heap p = some x := Function.update_self _ _ _

theorem heap_write_of_ne (h : q ≠ p) : (s.write p x).heap q = s.heap q :=
  Function.update_of_ne h _ _

theorem heap_remove_of_ne [DecidableEq κ] (h : q ≠ p) : (s.remove p k).heap q = s.heap q :=
  Function.update_of_ne h _ _

theorem heap_insert_of_ne [DecidableEq κ] (h : q ≠ s.next) : (s.insert k x).heap q = s.heap q :=
  Function.update_of_ne h _ _

namespace Consistent

variable (h : Consistent key s)
include h

/-- The map has no dangling pointer, and an object under the key that it has. -/
theorem heap_of_byKey (hk : s.byKey k = some p) : ∃ x, s.heap p = some x ∧ key x = k :=
  ((h.byKey_iff k p).mp hk).2

theorem byKey_of_mem (hp : p ∈ s.vector) (hx : s.heap p = some x) : s.byKey (key x) = some p :=
  (h.byKey_iff _ p).mpr ⟨hp, x, hx, rfl⟩

/-- No two objects have the same key. -/
theorem eq_of_key (hp : p ∈ s.vector) (hx : s.heap p = some x) (hq : q ∈ s.vector)
    (hy : s.heap q = some y) (hkey : key x = key y) : p = q := by
  have hbyKey := h.byKey_of_mem hp hx
  rw [hkey, h.byKey_of_mem hq hy] at hbyKey
  exact (Option.some.inj hbyKey).symm

/-- An object is replaced by one with the same key. -/
theorem write (hx : s.heap p = some x) (hkey : key y = key x) : Consistent key (s.write p y) where
  nodup := h.nodup
  live := by
    intro q hq
    by_cases hqp : q = p
    · exact ⟨y, hqp ▸ heap_write_self⟩
    · rw [heap_write_of_ne hqp]
      exact h.live q hq
  used := h.used
  byKey_iff := by
    intro k q
    rw [show (s.write p y).byKey k = s.byKey k from rfl, h.byKey_iff, vector_write]
    refine and_congr_right fun _ => ?_
    by_cases hqp : q = p
    · subst hqp
      simp [hx, hkey]
    · rw [heap_write_of_ne hqp]

theorem insert [DecidableEq κ] (hfresh : s.byKey (key x) = none) :
    Consistent key (s.insert (key x) x) where
  nodup := by
    refine List.Nodup.append h.nodup (List.nodup_singleton _) ?_
    rw [List.disjoint_singleton]
    exact fun hmem => Nat.lt_irrefl _ (h.used _ hmem)
  live := by
    intro q hq
    by_cases hqn : q = s.next
    · exact ⟨x, hqn ▸ Function.update_self _ _ _⟩
    · rw [heap_insert_of_ne hqn]
      obtain hq | hq := List.mem_append.mp hq
      · exact h.live q hq
      · exact absurd (List.mem_singleton.mp hq) hqn
  used := by
    intro q hq
    obtain hq | hq := List.mem_append.mp hq
    · exact Nat.lt_succ_of_lt (h.used q hq)
    · rw [List.mem_singleton.mp hq]
      exact Nat.lt_succ_self _
  byKey_iff := by
    intro k q
    have hnext : s.next ∉ s.vector := fun hmem => Nat.lt_irrefl _ (h.used _ hmem)
    have hmem : q ∈ (s.insert (key x) x).vector ↔ q ∈ s.vector ∨ q = s.next := by
      simp [ObjectStore.insert]
    rw [hmem]
    by_cases hk : k = key x
    · subst hk
      rw [show (s.insert (key x) x).byKey (key x) = some s.next from Function.update_self _ _ _]
      constructor
      · intro heq
        cases heq
        exact ⟨.inr rfl, x, Function.update_self _ _ _, rfl⟩
      · rintro ⟨hq | rfl, y, hy, hkey⟩
        · have hqn : q ≠ s.next := fun heq => hnext (heq ▸ hq)
          rw [heap_insert_of_ne hqn] at hy
          rw [← hkey, h.byKey_of_mem hq hy] at hfresh
          cases hfresh
        · rfl
    · rw [show (s.insert (key x) x).byKey k = s.byKey k from Function.update_of_ne hk _ _,
        h.byKey_iff]
      by_cases hqn : q = s.next
      · subst hqn
        simp [hnext, ObjectStore.insert, Ne.symm hk]
      · rw [heap_insert_of_ne hqn]
        simp [hqn]

theorem remove [DecidableEq κ] (hx : s.heap p = some x) (hp : p ∈ s.vector) :
    Consistent key (s.remove p (key x)) where
  nodup := h.nodup.erase p
  live := by
    intro q hq
    obtain ⟨hqp, hq⟩ := h.nodup.mem_erase_iff.mp hq
    rw [heap_remove_of_ne hqp]
    exact h.live q hq
  used := fun q hq => h.used q (List.mem_of_mem_erase hq)
  byKey_iff := by
    intro k q
    have hmem : q ∈ (s.remove p (key x)).vector ↔ q ≠ p ∧ q ∈ s.vector := h.nodup.mem_erase_iff
    rw [hmem]
    by_cases hk : k = key x
    · subst hk
      rw [show (s.remove p (key x)).byKey (key x) = none from Function.update_self _ _ _]
      constructor
      · intro heq
        cases heq
      · rintro ⟨⟨hqp, hq⟩, y, hy, hkey⟩
        rw [heap_remove_of_ne hqp] at hy
        exact absurd (h.eq_of_key hq hy hp hx hkey) hqp
    · rw [show (s.remove p (key x)).byKey k = s.byKey k from Function.update_of_ne hk _ _,
        h.byKey_iff]
      by_cases hqp : q = p
      · subst hqp
        simp [hx, Ne.symm hk]
      · rw [heap_remove_of_ne hqp]
        simp [hqp]

end Consistent

end ObjectStore
