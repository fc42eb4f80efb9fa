import Mathlib

/-!
# Numerals

A numeral is a list of digits in some base, the most significant one first. The letters stand
for the digits from ten on, in either case. `Nat.toDigits` prints a number and `ofDigits` reads
it back (`ofDigits_toDigits`).

A reader takes the longest run of digits: `spanDigits_append` says what it takes from a text
that is a numeral and something that does not go on with a digit.
-/

namespace Numerals

variable {base : ℕ} {c : Char}

/-- The value of a digit, in the largest base there are digits for. -/
def digit? (c : Char) : Option ℕ :=
  let n := c.toNat
  if 48 ≤ n ∧ n ≤ 57 then some (n - 48)
  else if 97 ≤ n ∧ n ≤ 122 then some (n - 87)
  else if 65 ≤ n ∧ n ≤ 90 then some (n - 55)
  else none

def isDigit (base : ℕ) (c : Char) : Bool := (digit? c).any (· < base)

def digit (c : Char) : ℕ := (digit? c).getD 0

/-- The number that the digits go on to when `n` has been read. -/
def ofDigitsFrom (base n : ℕ) (ds : List Char) : ℕ := ds.foldl (fun n c => base * n + digit c) n

def ofDigits (base : ℕ) (ds : List Char) : ℕ := ofDigitsFrom base 0 ds

/-- A text does not begin with a digit. -/
def Ends (base : ℕ) (s : List Char) : Prop := ∀ c ∈ s.head?, isDigit base c = false

/-- The longest run of digits that a text begins with, and the rest. -/
def spanDigits (base : ℕ) (s : List Char) : List Char × List Char := s.span (isDigit base)

theorem isDigit_iff : isDigit base c = true ↔ ∃ d, digit? c = some d ∧ d < base := by
  cases hd : digit? c <;> simp [isDigit, hd]

/-- Digits are letters and figures. -/
theorem range_of_isDigit (h : isDigit base c = true) :
    48 ≤ c.toNat ∧ c.toNat ≤ 57 ∨ 97 ≤ c.toNat ∧ c.toNat ≤ 122 ∨ 65 ≤ c.toNat ∧ c.toNat ≤ 90 := by
  obtain ⟨d, hd, -⟩ := isDigit_iff.mp h
  simp only [digit?] at hd
  split_ifs at hd <;> omega

@[simp] theorem ends_nil : Ends base [] := by simp [Ends]

@[simp] theorem ends_cons {s : List Char} : Ends base (c :: s) ↔ isDigit base c = false := by
  simp [Ends]

/-- A digit is one in every larger base. -/
theorem Ends.mono {base' : ℕ} {s : List Char} (hle : base ≤ base') (h : Ends base' s) :
    Ends base s := by
  intro c hc
  rw [Bool.eq_false_iff]
  intro hdigit
  obtain ⟨d, hd, hlt⟩ := isDigit_iff.mp hdigit
  have hdigit' : isDigit base' c = true := isDigit_iff.mpr ⟨d, hd, Nat.lt_of_lt_of_le hlt hle⟩
  rw [h c hc] at hdigit'
  cases hdigit'

@[simp] theorem ofDigitsFrom_nil (n : ℕ) : ofDigitsFrom base n [] = n := rfl

@[simp] theorem ofDigitsFrom_cons (n : ℕ) (c : Char) (ds : List Char) :
    ofDigitsFrom base n (c :: ds) = ofDigitsFrom base (base * n + digit c) ds := rfl

theorem ofDigitsFrom_append (n : ℕ) (ds es : List Char) :
    ofDigitsFrom base n (ds ++ es) = ofDigitsFrom base (ofDigitsFrom base n ds) es :=
  List.foldl_append

theorem spanDigits_eq (s : List Char) :
    spanDigits base s = (s.takeWhile (isDigit base), s.dropWhile (isDigit base)) :=
  List.span_eq_takeWhile_dropWhile _ _

/-- What a text begins with is a run of digits, and no digit follows. -/
theorem spanDigits_spec (base : ℕ) (s : List Char) :
    (spanDigits base s).1 ++ (spanDigits base s).2 = s ∧
    (∀ c ∈ (spanDigits base s).1, isDigit base c = true) ∧ Ends base (spanDigits base s).2 := by
  rw [spanDigits_eq]
  refine ⟨List.takeWhile_append_dropWhile, fun c hc => List.mem_takeWhile_imp hc, ?_⟩
  intro c hc
  have hhead := List.head?_dropWhile_not (isDigit base) s
  rw [Option.mem_def.mp hc] at hhead
  simpa using hhead

theorem spanDigits_append {ds rest : List Char} (hds : ∀ c ∈ ds, isDigit base c = true)
    (hrest : Ends base rest) : spanDigits base (ds ++ rest) = (ds, rest) := by
  have hnone : rest.takeWhile (isDigit base) = [] ∧ rest.dropWhile (isDigit base) = rest := by
    cases rest with
    | nil => exact ⟨rfl, rfl⟩
    | cons c rest =>
      have hc : isDigit base c = false := ends_cons.mp hrest
      exact ⟨List.takeWhile_cons_of_neg (by simp [hc]), List.dropWhile_cons_of_neg (by simp [hc])⟩
  rw [spanDigits_eq, List.takeWhile_append_of_pos hds, List.dropWhile_append_of_pos hds,
    hnone.1, hnone.2, List.append_nil]

theorem digit?_digitChar {d : ℕ} (h : d < 16) : digit? d.digitChar = some d := by
  have hall : ∀ d < 16, digit? d.digitChar = some d := by decide
  exact hall d h

theorem isDigit_digitChar {d : ℕ} (h : d < base) (hbase : base ≤ 16) :
    isDigit base d.digitChar = true :=
  isDigit_iff.mpr ⟨d, digit?_digitChar (by omega), h⟩

variable (hpos : 1 < base) (hbase : base ≤ 16)

include hpos hbase

theorem isDigit_of_mem_toDigits {n : ℕ} {c : Char} (hc : c ∈ Nat.toDigits base n) :
    isDigit base c = true := by
  induction n using Nat.strongRecOn with
  | _ n ih =>
    rw [Nat.toDigits_eq_if hpos] at hc
    split_ifs at hc with hn
    · obtain rfl := List.mem_singleton.mp hc
      exact isDigit_digitChar hn hbase
    · obtain hc | hc := List.mem_append.mp hc
      · exact ih (n / base) (Nat.div_lt_self (by omega) hpos) hc
      · obtain rfl := List.mem_singleton.mp hc
        exact isDigit_digitChar (Nat.mod_lt n (by omega)) hbase

/-- A number is read back as it has been printed. -/
theorem ofDigits_toDigits (n : ℕ) : ofDigits base (Nat.toDigits base n) = n := by
  induction n using Nat.strongRecOn with
  | _ n ih =>
    have hdigit : ∀ d < base, digit d.digitChar = d := fun d hd => by
      rw [digit, digit?_digitChar (by omega), Option.getD_some]
    rw [ofDigits, Nat.toDigits_eq_if hpos]
    split_ifs with hn
    · simp [hdigit n hn]
    · have hmod := Nat.mod_lt n (show base > 0 by omega)
      have hdiv := ih (n / base) (Nat.div_lt_self (by omega) hpos)
      rw [ofDigits] at hdiv
      rw [ofDigitsFrom_append, hdiv, ofDigitsFrom_cons, ofDigitsFrom_nil, hdigit _ hmod]
      exact Nat.div_add_mod n base

end Numerals
