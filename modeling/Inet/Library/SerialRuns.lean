import Inet.Library.Lists
import Inet.Library.RunLength
import Inet.Library.SerialNumber

/-!
# Records for ranges of serial numbers

A program keeps, for every number of a window, some data, and stores equal data of consecutive
numbers in one record with the two ends of the range. `records mk b runs` are the records for runs
of data from the number `b` on, each built by `mk` from its ends and its data.

A place in the window is found by comparing the ends of the records with a serial number: `span`
and `span_all` say which records are passed.
-/

namespace SerialRuns

open SerialNumber
open RunLength (length Proper mapRuns)

variable {w : ℕ} {α ρ : Type*} {mk : BitVec w → BitVec w → α → ρ} {b : BitVec w}
  {runs xs ys : List (ℕ × α)} {a : α} {n k : ℕ}

def records (mk : BitVec w → BitVec w → α → ρ) : BitVec w → List (ℕ × α) → List ρ
  | _, [] => []
  | b, (n, a) :: runs => mk b (ofPos b n) a :: records mk (ofPos b n) runs

theorem records_append (b : BitVec w) (xs ys : List (ℕ × α)) :
    records mk b (xs ++ ys) = records mk b xs ++ records mk (ofPos b (length xs)) ys := by
  induction xs generalizing b with
  | nil => simp [records]
  | cons r xs ih =>
    simp only [List.cons_append, records, ih, RunLength.length_cons, ofPos_ofPos]

/-- Where a record lies. -/
theorem exists_of_mem_records {i : ρ} (hi : i ∈ records mk b runs) :
    ∃ p n a, (n, a) ∈ runs ∧ p + n ≤ length runs ∧ i = mk (ofPos b p) (ofPos b (p + n)) a := by
  induction runs generalizing b with
  | nil => cases hi
  | cons r runs ih =>
    cases hi with
    | head => exact ⟨0, r.1, r.2, List.mem_cons_self, by simp, by simp⟩
    | tail _ hi =>
      obtain ⟨p, n, a, hmem, hle, rfl⟩ := ih hi
      refine ⟨r.1 + p, n, a, List.mem_cons_of_mem _ hmem, ?_, ?_⟩
      · rw [RunLength.length_cons]
        omega
      · simp only [ofPos_ofPos, Nat.add_assoc]

/-- Changing the data of every record. -/
theorem map_records {f : ρ → ρ} {g : α → α} (hf : ∀ b e a, f (mk b e a) = mk b e (g a)) :
    (records mk b runs).map f = records mk b (mapRuns g runs) := by
  induction runs generalizing b with
  | nil => rfl
  | cons r runs ih =>
    simp only [records, List.map_cons, hf, mapRuns] at ih ⊢
    rw [ih]

theorem lastEnd_records {endOf : ρ → BitVec w} (hend : ∀ b e a, endOf (mk b e a) = e)
    (b : BitVec w) (runs : List (ℕ × α)) :
    ((records mk b runs).getLast?.map endOf).getD b = ofPos b (length runs) := by
  obtain rfl | ⟨xs, r, rfl⟩ := List.eq_nil_or_concat runs
  · simp [records]
  · simp [records_append, records, hend, ofPos_ofPos]

variable {endOf : ρ → BitVec w}

/-- The records up to a place in the middle of the list. -/
theorem span (hw : 0 < w) (hend : ∀ b e a, endOf (mk b e a) = e)
    (hruns : runs = xs ++ (n, a) :: ys) (hlen : length runs < 2 ^ (w - 1))
    (hk : length xs ≤ k) (hkn : k < length xs + n) :
    (records mk b runs).takeWhile (fun i => le (endOf i) (ofPos b k)) = records mk b xs ∧
      (records mk b runs).dropWhile (fun i => le (endOf i) (ofPos b k)) =
        records mk (ofPos b (length xs)) ((n, a) :: ys) := by
  have hsum : length runs = length xs + (n + length ys) := by
    rw [hruns, RunLength.length_append, RunLength.length_cons]
  have hbefore : ∀ i ∈ records mk b xs, le (endOf i) (ofPos b k) = true := by
    intro i hi
    obtain ⟨p, m, a, -, hle, rfl⟩ := exists_of_mem_records hi
    rw [hend, le_ofPos hw ⟨by omega, by omega⟩]
    exact decide_eq_true (by omega)
  have hbehind : ∀ i ∈ records mk (ofPos b (length xs)) ((n, a) :: ys),
      le (endOf i) (ofPos b k) = false := by
    intro i hi
    have hplace : ∃ p, length xs + n ≤ p ∧ p ≤ length runs ∧ endOf i = ofPos b p := by
      cases hi with
      | head =>
        exact ⟨length xs + n, Nat.le_refl _, by omega, by rw [hend, ofPos_ofPos]⟩
      | tail _ hi =>
        obtain ⟨p, m, a, -, hle, rfl⟩ := exists_of_mem_records hi
        refine ⟨length xs + n + (p + m), by omega, by omega, ?_⟩
        simp only [hend, ofPos_ofPos]
    obtain ⟨p, h₁, h₂, hp⟩ := hplace
    rw [hp, le_ofPos hw ⟨by omega, by omega⟩]
    exact decide_eq_false (by omega)
  rw [hruns, records_append]
  exact ⟨List.takeWhile_append_of_split hbefore hbehind,
    List.dropWhile_append_of_split hbefore hbehind⟩

/-- The records up to a place behind all of them. -/
theorem span_all (hw : 0 < w) (hend : ∀ b e a, endOf (mk b e a) = e) (hk : length runs ≤ k)
    (hk' : k < 2 ^ (w - 1)) :
    (records mk b runs).takeWhile (fun i => le (endOf i) (ofPos b k)) = records mk b runs ∧
      (records mk b runs).dropWhile (fun i => le (endOf i) (ofPos b k)) = [] := by
  have hall : ∀ i ∈ records mk b runs, le (endOf i) (ofPos b k) = true := by
    intro i hi
    obtain ⟨p, m, a, -, hle, rfl⟩ := exists_of_mem_records hi
    rw [hend, le_ofPos hw ⟨by omega, by omega⟩]
    exact decide_eq_true (by omega)
  have htake := @List.takeWhile_append_of_split _ _ _ [] hall (by simp)
  have hdrop := @List.dropWhile_append_of_split _ _ _ [] hall (by simp)
  rw [List.append_nil] at htake hdrop
  exact ⟨htake, hdrop⟩

end SerialRuns
