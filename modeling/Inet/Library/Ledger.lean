import Mathlib

/-!
# Items that are kept or handed out

Items are kept in several places until they are handed out. The ledger balances when every item
that is owed has been handed out or is in exactly one place, once, and nothing else is anywhere.
Each lemma is one kind of entry: an item comes, is dropped, or moves.
-/

variable {α κ : Type*}

/-- `owed` says which items there must be, `out` has those handed out, and `held` those of each
place. -/
structure Ledger (owed : α → Prop) (out : List α) (held : κ → List α) : Prop where
  owed_iff : ∀ x, owed x ↔ x ∈ out ∨ ∃ i, x ∈ held i
  nodup : ∀ i, (held i).Nodup
  apart : ∀ i j x, x ∈ held i → x ∈ held j → i = j
  kept : ∀ i x, x ∈ held i → x ∉ out

namespace Ledger

variable {owed owed' : α → Prop} {out : List α} {held held' : κ → List α} {i : κ} {x : α}
  {xs : List α}

section

variable (h : Ledger owed out held)

include h

theorem owed_of_held (hx : x ∈ held i) : owed x :=
  (h.owed_iff x).mpr (.inr ⟨i, hx⟩)

theorem owed_of_out (hx : x ∈ out) : owed x :=
  (h.owed_iff x).mpr (.inl hx)

theorem congr (heq : ∀ x, owed' x ↔ owed x) : Ledger owed' out held :=
  { h with owed_iff := fun x => (heq x).trans (h.owed_iff x) }

/-- The order of the items in their places does not matter. -/
theorem perm (hperm : ∀ i, (held' i).Perm (held i)) :
    Ledger owed out held' where
  owed_iff := by
    intro x
    rw [h.owed_iff x]
    exact or_congr Iff.rfl (exists_congr fun i => (hperm i).mem_iff.symm)
  nodup := fun i => (hperm i).nodup_iff.mpr (h.nodup i)
  apart := fun i j x hi hj => h.apart i j x ((hperm i).mem_iff.mp hi) ((hperm j).mem_iff.mp hj)
  kept := fun i x hx => h.kept i x ((hperm i).mem_iff.mp hx)

end

section

variable [DecidableEq κ]

theorem mem_update {j : κ} {ys : List α} :
    x ∈ Function.update held i ys j ↔ if j = i then x ∈ ys else x ∈ held j := by
  by_cases hj : j = i
  · subst hj
    rw [Function.update_self, if_pos rfl]
  · rw [Function.update_of_ne hj, if_neg hj]

/-- A new item comes to one place. -/
theorem add (h : Ledger owed out held) (hx : ¬ owed x) (hperm : xs.Perm (x :: held i)) :
    Ledger (fun y => owed y ∨ y = x) out (Function.update held i xs) where
  owed_iff := by
    intro y
    simp only [mem_update, h.owed_iff y]
    constructor
    · rintro ((hout | ⟨j, hj⟩) | rfl)
      · exact .inl hout
      · refine .inr ⟨j, ?_⟩
        split_ifs with hji
        · exact hperm.mem_iff.mpr (List.mem_cons_of_mem x (hji ▸ hj))
        · exact hj
      · exact .inr ⟨i, by rw [if_pos rfl]; exact hperm.mem_iff.mpr List.mem_cons_self⟩
    · rintro (hout | ⟨j, hj⟩)
      · exact .inl (.inl hout)
      · split_ifs at hj with hji
        · obtain rfl | hj := List.mem_cons.mp (hperm.mem_iff.mp hj)
          · exact .inr rfl
          · exact .inl (.inr ⟨i, hj⟩)
        · exact .inl (.inr ⟨j, hj⟩)
  nodup := by
    intro j
    by_cases hj : j = i
    · subst hj
      rw [Function.update_self, hperm.nodup_iff]
      exact List.nodup_cons.mpr ⟨fun hmem => hx (h.owed_of_held hmem), h.nodup j⟩
    · rw [Function.update_of_ne hj]
      exact h.nodup j
  apart := by
    intro j k y hj hk
    rw [mem_update] at hj hk
    have hnew : ∀ {l}, y ∈ xs → y ∈ held l → l = i := by
      intro l hy hl
      obtain rfl | hy := List.mem_cons.mp (hperm.mem_iff.mp hy)
      · exact absurd (h.owed_of_held hl) hx
      · exact h.apart l i y hl hy
    split_ifs at hj hk with hji hki hki
    · exact hji.trans hki.symm
    · exact hji.trans (hnew hj hk).symm
    · exact (hnew hk hj).trans hki.symm
    · exact h.apart j k y hj hk
  kept := by
    intro j y hj hout
    rw [mem_update] at hj
    split_ifs at hj
    · obtain rfl | hj := List.mem_cons.mp (hperm.mem_iff.mp hj)
      · exact hx (h.owed_of_out hout)
      · exact h.kept i y hj hout
    · exact h.kept j y hj hout

/-- An item is dropped and no longer owed. -/
theorem drop (h : Ledger owed out held) (hperm : (held i).Perm (x :: xs)) :
    Ledger (fun y => owed y ∧ y ≠ x) out (Function.update held i xs) := by
  have hx : x ∈ held i := hperm.mem_iff.mpr List.mem_cons_self
  have hnodup : (x :: xs).Nodup := hperm.nodup_iff.mp (h.nodup i)
  have hsub : ∀ {j y}, y ∈ Function.update held i xs j → y ∈ held j ∧ y ≠ x := by
    intro j y hj
    rw [mem_update] at hj
    split_ifs at hj with hji
    · subst hji
      exact ⟨hperm.mem_iff.mpr (List.mem_cons_of_mem x hj),
        fun heq => (List.nodup_cons.mp hnodup).1 (heq ▸ hj)⟩
    · exact ⟨hj, fun heq => hji (h.apart j i x (heq ▸ hj) hx)⟩
  refine ⟨fun y => ?_, fun j => ?_, fun j k y hj hk => ?_, fun j y hj => ?_⟩
  · rw [h.owed_iff y]
    constructor
    · rintro ⟨hout | ⟨j, hj⟩, hne⟩
      · exact .inl hout
      · refine .inr ⟨j, ?_⟩
        rw [mem_update]
        split_ifs with hji
        · subst hji
          exact (List.mem_cons.mp (hperm.mem_iff.mp hj)).resolve_left hne
        · exact hj
    · rintro (hout | ⟨j, hj⟩)
      · exact ⟨.inl hout, fun heq => h.kept i x hx (heq ▸ hout)⟩
      · exact ⟨.inr ⟨j, (hsub hj).1⟩, (hsub hj).2⟩
  · by_cases hj : j = i
    · subst hj
      rw [Function.update_self]
      exact (List.nodup_cons.mp hnodup).2
    · rw [Function.update_of_ne hj]
      exact h.nodup j
  · exact h.apart j k y (hsub hj).1 (hsub hk).1
  · exact h.kept j y (hsub hj).1

/-- Items of one place are handed out. -/
theorem pass (h : Ledger owed out held) {ys : List α} (hperm : (held i).Perm (ys ++ xs)) :
    Ledger owed (out ++ ys) (Function.update held i xs) := by
  have hnodup : (ys ++ xs).Nodup := hperm.nodup_iff.mp (h.nodup i)
  have hsub : ∀ {j y}, y ∈ Function.update held i xs j → y ∈ held j ∧ y ∉ ys := by
    intro j y hj
    rw [mem_update] at hj
    split_ifs at hj with hji
    · subst hji
      exact ⟨hperm.mem_iff.mpr (List.mem_append_right ys hj),
        fun hmem => (List.disjoint_of_nodup_append hnodup) hmem hj⟩
    · exact ⟨hj, fun hmem =>
        hji (h.apart j i y hj (hperm.mem_iff.mpr (List.mem_append_left xs hmem)))⟩
  refine ⟨fun y => ?_, fun j => ?_, fun j k y hj hk => ?_, fun j y hj hout => ?_⟩
  · rw [h.owed_iff y, List.mem_append]
    constructor
    · rintro (hout | ⟨j, hj⟩)
      · exact .inl (.inl hout)
      · by_cases hji : j = i
        · subst hji
          obtain hy | hy := List.mem_append.mp (hperm.mem_iff.mp hj)
          · exact .inl (.inr hy)
          · exact .inr ⟨j, by rwa [Function.update_self]⟩
        · exact .inr ⟨j, by rwa [Function.update_of_ne hji]⟩
    · rintro ((hout | hy) | ⟨j, hj⟩)
      · exact .inl hout
      · exact .inr ⟨i, hperm.mem_iff.mpr (List.mem_append_left xs hy)⟩
      · exact .inr ⟨j, (hsub hj).1⟩
  · by_cases hj : j = i
    · subst hj
      rw [Function.update_self]
      exact (List.nodup_append.mp hnodup).2.1
    · rw [Function.update_of_ne hj]
      exact h.nodup j
  · exact h.apart j k y (hsub hj).1 (hsub hk).1
  · obtain hout | hy := List.mem_append.mp hout
    · exact h.kept j y (hsub hj).1 hout
    · exact (hsub hj).2 hy

end

/-- An item that is owed and has not been handed out is in one place only. -/
theorem held_of_owed (h : Ledger owed out held) (hx : owed x) (hout : x ∉ out) :
    ∃ i, x ∈ held i ∧ ∀ j, j ≠ i → x ∉ held j := by
  obtain ⟨i, hi⟩ := ((h.owed_iff x).mp hx).resolve_left hout
  exact ⟨i, hi, fun j hj hmem => hj (h.apart j i x hmem hi)⟩

end Ledger
