import Inet.Library.Numerals

/-!
# `strtoul`

`strtoul(s, &e, base)` of the C library, in the "C" locale and with an `unsigned long` of 64 bits.
It skips blanks, then accepts a sign and, in base 16, the prefix `0x`, which the digits follow.
A negative number is taken modulo `2 ^ 64`, and one that is too large gives `ULONG_MAX`.

`Numeral` is what it reads: `strtoul_text` and `strtoul_sound` say that it reads exactly these.
-/

namespace Inet

open Numerals

/-- `isspace`: a space, or one of `\t`, `\n`, `\v`, `\f` and `\r`. -/
def isSpace (c : Char) : Bool := decide (c.toNat = 32 ∨ 9 ≤ c.toNat ∧ c.toNat ≤ 13)

def ULONG_MAX : ℕ := 2 ^ 64 - 1

/-- Whether there is a minus sign, and what follows the sign. -/
def skipSign : List Char → Bool × List Char
  | [] => (false, [])
  | c :: s => if c = '-' then (true, s) else if c = '+' then (false, s) else (false, c :: s)

/-- The prefix is only one if a digit follows it. -/
def skipHexPrefix (base : ℕ) : List Char → List Char
  | zero :: x :: c :: s =>
    if base = 16 ∧ zero = '0' ∧ (x = 'x' ∨ x = 'X') ∧ isDigit 16 c then c :: s
    else zero :: x :: c :: s
  | s => s

/-- The number and the text behind it; `none` if there is no number, when `e` is `s`. -/
def strtoul (base : ℕ) (s : List Char) : Option (ℕ × List Char) :=
  let (negative, s) := skipSign (s.dropWhile isSpace)
  let (ds, e) := spanDigits base (skipHexPrefix base s)
  if ds = [] then none
  else
    let n := ofDigits base ds
    some (if n > ULONG_MAX then ULONG_MAX else if negative then (2 ^ 64 - n) % 2 ^ 64 else n, e)

inductive Sign where
  | none
  | plus
  | minus
deriving DecidableEq

def Sign.text : Sign → List Char
  | .none => []
  | .plus => ['+']
  | .minus => ['-']

/-- A number as `strtoul` reads it. -/
structure Numeral where
  blanks : List Char := []
  sign : Sign := .none
  /-- The second character of the prefix, if there is one. -/
  hexPrefix : Option Char := none
  digits : List Char

namespace Numeral

variable {base : ℕ}

def prefixText (n : Numeral) : List Char :=
  match n.hexPrefix with
  | none => []
  | some x => ['0', x]

def text (n : Numeral) : List Char := n.blanks ++ (n.sign.text ++ (n.prefixText ++ n.digits))

def value (base : ℕ) (n : Numeral) : ℕ :=
  let v := ofDigits base n.digits
  if v > ULONG_MAX then ULONG_MAX else if n.sign = .minus then (2 ^ 64 - v) % 2 ^ 64 else v

structure WellFormed (base : ℕ) (n : Numeral) : Prop where
  blanks : ∀ c ∈ n.blanks, isSpace c = true
  hexPrefix : ∀ x ∈ n.hexPrefix, base = 16 ∧ (x = 'x' ∨ x = 'X')
  digits_ne_nil : n.digits ≠ []
  digits : ∀ c ∈ n.digits, isDigit base c = true

/-- Nothing but digits. -/
structure Plain (n : Numeral) : Prop where
  blanks : n.blanks = []
  sign : n.sign = .none
  hexPrefix : n.hexPrefix = none

end Numeral

variable {base : ℕ} {c : Char} {s : List Char} {rest : List Char}

theorem not_isSpace_of_isDigit (h : isDigit base c = true) : isSpace c = false := by
  have := range_of_isDigit h
  rw [isSpace, decide_eq_false_iff_not]
  omega

theorem skipSign_of_ne (hminus : c ≠ '-') (hplus : c ≠ '+') :
    skipSign (c :: s) = (false, c :: s) := by
  rw [skipSign, if_neg hminus, if_neg hplus]

theorem ne_sign_of_isDigit (h : isDigit base c = true) : c ≠ '-' ∧ c ≠ '+' := by
  have := range_of_isDigit h
  constructor
  · rintro rfl
    exact absurd this (by decide)
  · rintro rfl
    exact absurd this (by decide)

/-- What stands before the digits is skipped. -/
theorem skip_text (n : Numeral) (hn : n.WellFormed base) (rest : List Char) :
    skipSign ((n.text ++ rest).dropWhile isSpace) =
      (decide (n.sign = .minus), n.prefixText ++ n.digits ++ rest) := by
  obtain ⟨c, ds, hdigits⟩ := List.exists_cons_of_ne_nil hn.digits_ne_nil
  have hc : isDigit base c = true := hn.digits c (by rw [hdigits]; exact List.mem_cons_self)
  -- the first character behind the sign
  obtain ⟨d, t, ht, hspace, hminus, hplus⟩ : ∃ d t, n.prefixText ++ n.digits ++ rest = d :: t ∧
      isSpace d = false ∧ d ≠ '-' ∧ d ≠ '+' := by
    cases hprefix : n.hexPrefix with
    | none =>
      refine ⟨c, ds ++ rest, ?_, not_isSpace_of_isDigit hc, ne_sign_of_isDigit hc⟩
      rw [Numeral.prefixText, hprefix, hdigits]
      rfl
    | some x =>
      refine ⟨'0', x :: (n.digits ++ rest), ?_, by decide, by decide, by decide⟩
      rw [Numeral.prefixText, hprefix]
      rfl
  have htext : n.text ++ rest = n.blanks ++ (n.sign.text ++ (d :: t)) := by
    rw [Numeral.text, ← ht]
    simp only [List.append_assoc]
  rw [htext, List.dropWhile_append_of_pos hn.blanks, ht]
  cases n.sign with
  | none =>
    rw [Sign.text, List.nil_append, List.dropWhile_cons_of_neg (by simp [hspace]),
      skipSign_of_ne hminus hplus]
    rfl
  | plus => rfl
  | minus => rfl

theorem skipHexPrefix_of_ne (h : ∀ x ∈ s.head?, x ≠ 'x' ∧ x ≠ 'X') :
    skipHexPrefix base (c :: s) = c :: s := by
  match s, h with
  | [], _ => rfl
  | [_], _ => rfl
  | x :: d :: s, h =>
    obtain ⟨hx, hX⟩ := h x rfl
    exact if_neg fun hif => hif.2.2.1.elim hx hX

theorem ne_x_of_isDigit (hbase : base ≤ 16) (h : isDigit base c = true) : c ≠ 'x' ∧ c ≠ 'X' := by
  obtain ⟨d, hd, hlt⟩ := isDigit_iff.mp h
  constructor
  · rintro rfl
    obtain rfl := Option.some.inj ((show digit? 'x' = some 33 by decide).symm.trans hd)
    omega
  · rintro rfl
    obtain rfl := Option.some.inj ((show digit? 'X' = some 33 by decide).symm.trans hd)
    omega

theorem ne_x_of_not_isDigit (h : isDigit 36 c = false) : c ≠ 'x' ∧ c ≠ 'X' := by
  constructor
  · rintro rfl
    exact absurd h (by decide)
  · rintro rfl
    exact absurd h (by decide)

theorem skipHexPrefix_text (n : Numeral) (hbase : base ≤ 16) (hn : n.WellFormed base)
    (hrest : Ends 36 rest) :
    skipHexPrefix base (n.prefixText ++ n.digits ++ rest) = n.digits ++ rest := by
  obtain ⟨c, ds, hdigits⟩ := List.exists_cons_of_ne_nil hn.digits_ne_nil
  have hc : isDigit base c = true := hn.digits c (by rw [hdigits]; exact List.mem_cons_self)
  cases hprefix : n.hexPrefix with
  | some x =>
    obtain ⟨rfl, hx⟩ := hn.hexPrefix x hprefix
    rw [Numeral.prefixText, hprefix, hdigits]
    exact if_pos ⟨rfl, rfl, hx, hc⟩
  | none =>
    rw [Numeral.prefixText, hprefix, List.nil_append, hdigits]
    refine skipHexPrefix_of_ne fun x hx => ?_
    cases ds with
    | nil => exact ne_x_of_not_isDigit (hrest x hx)
    | cons d ds =>
      obtain rfl : d = x := Option.some.inj hx
      exact ne_x_of_isDigit hbase (hn.digits d (by simp [hdigits]))

/-- A number is read from its text, if something follows that cannot belong to it. -/
theorem strtoul_text (n : Numeral) (hbase : base ≤ 16) (hn : n.WellFormed base)
    (hrest : Ends 36 rest) : strtoul base (n.text ++ rest) = some (n.value base, rest) := by
  have hspan := spanDigits_append hn.digits (hrest.mono (by omega : base ≤ 36))
  simp only [strtoul, skip_text n hn, skipHexPrefix_text n hbase hn hrest, hspan,
    if_neg hn.digits_ne_nil, Numeral.value, decide_eq_true_eq]

theorem Numeral.Plain.text_eq {n : Numeral} (hn : n.Plain) : n.text = n.digits := by
  rw [Numeral.text, Numeral.prefixText, hn.blanks, hn.sign, hn.hexPrefix]
  rfl

/-- What stands before the digits is neither a digit nor a colon. -/
theorem Numeral.WellFormed.exists_of_not_plain {n : Numeral} (hn : n.WellFormed 16)
    (hplain : ¬ n.Plain) : ∃ c ∈ n.text, c ≠ ':' ∧ isDigit 16 c = false := by
  by_contra hall
  push Not at hall
  refine hplain ⟨?_, ?_, ?_⟩
  · cases hblanks : n.blanks with
    | nil => rfl
    | cons c cs =>
      have hc : isSpace c = true := hn.blanks c (by simp [hblanks])
      have hcolon : c ≠ ':' := by
        rintro rfl
        exact absurd hc (by decide)
      have hdigit := hall c (by simp [Numeral.text, hblanks]) hcolon
      rw [ne_eq, Bool.not_eq_false] at hdigit
      rw [not_isSpace_of_isDigit hdigit] at hc
      cases hc
  · cases hsign : n.sign with
    | none => rfl
    | plus =>
      have hmem : '+' ∈ n.text := by simp [Numeral.text, hsign, Sign.text]
      exact absurd (by decide : isDigit 16 '+' = false) (hall '+' hmem (by decide))
    | minus =>
      have hmem : '-' ∈ n.text := by simp [Numeral.text, hsign, Sign.text]
      exact absurd (by decide : isDigit 16 '-' = false) (hall '-' hmem (by decide))
  · cases hprefix : n.hexPrefix with
    | none => rfl
    | some x =>
      obtain ⟨-, hx⟩ := hn.hexPrefix x hprefix
      have hmem : x ∈ n.text := by simp [Numeral.text, Numeral.prefixText, hprefix]
      obtain rfl | rfl := hx
      · exact absurd (by decide : isDigit 16 'x' = false) (hall 'x' hmem (by decide))
      · exact absurd (by decide : isDigit 16 'X' = false) (hall 'X' hmem (by decide))

/-- A number that has been printed is read. -/
theorem strtoul_toDigits {n : ℕ} (hpos : 1 < base) (hbase : base ≤ 16) (hn : n ≤ ULONG_MAX)
    (hrest : Ends 36 rest) : strtoul base (Nat.toDigits base n ++ rest) = some (n, rest) := by
  let m : Numeral := { digits := Nat.toDigits base n }
  have hwf : m.WellFormed base := ⟨by simp [m], by simp [m], Nat.toDigits_ne_nil,
    fun c hc => isDigit_of_mem_toDigits hpos hbase hc⟩
  have hvalue : m.value base = n := by
    simp only [m, Numeral.value, ofDigits_toDigits hpos hbase, if_neg (Nat.not_lt.mpr hn)]
    rfl
  have hread := strtoul_text m hbase hwf hrest
  rwa [hvalue] at hread

/-- Nothing is read from a text that cannot begin a number. -/
theorem strtoul_eq_none_of_head (hspace : isSpace c = false) (hsign : c ≠ '-' ∧ c ≠ '+')
    (hdigit : isDigit 36 c = false) (hbase : base ≤ 36) : strtoul base (c :: s) = none := by
  have hzero : c ≠ '0' := by
    rintro rfl
    exact absurd hdigit (by decide)
  have hprefix : skipHexPrefix base (c :: s) = c :: s := by
    match s with
    | [] => rfl
    | [_] => rfl
    | _ :: _ :: _ => exact if_neg fun hif => hzero hif.2.1
  have hends : Ends base (c :: s) := Ends.mono hbase (ends_cons.mpr hdigit)
  have hspan := @spanDigits_append base [] _ (by simp) hends
  rw [List.nil_append] at hspan
  simp only [strtoul, List.dropWhile_cons_of_neg (by simp [hspace] : ¬ isSpace c = true),
    skipSign_of_ne hsign.1 hsign.2, hprefix, hspan, if_true]

theorem strtoul_nil : strtoul base [] = none := by
  simp [strtoul, skipSign, skipHexPrefix, spanDigits_eq]

/-- A text is a sign and what follows it. -/
theorem exists_skipSign (s : List Char) : ∃ sign : Sign,
    s = sign.text ++ (skipSign s).2 ∧ (skipSign s).1 = decide (sign = .minus) := by
  cases s with
  | nil => exact ⟨.none, rfl, rfl⟩
  | cons c s =>
    rw [skipSign]
    split_ifs with hminus hplus
    · exact ⟨.minus, by rw [hminus]; rfl, rfl⟩
    · exact ⟨.plus, by rw [hplus]; rfl, rfl⟩
    · exact ⟨.none, rfl, rfl⟩

theorem exists_skipHexPrefix (base : ℕ) (s : List Char) : ∃ hexPrefix : Option Char,
    (∀ x ∈ hexPrefix, base = 16 ∧ (x = 'x' ∨ x = 'X')) ∧
      s = (Numeral.mk [] .none hexPrefix []).prefixText ++ skipHexPrefix base s := by
  match s with
  | [] => exact ⟨none, by simp, rfl⟩
  | [_] => exact ⟨none, by simp, rfl⟩
  | [_, _] => exact ⟨none, by simp, rfl⟩
  | zero :: x :: c :: s =>
    rw [skipHexPrefix]
    split_ifs with hif
    · obtain ⟨hbase, rfl, hx, -⟩ := hif
      exact ⟨some x, by simpa using ⟨hbase, hx⟩, rfl⟩
    · exact ⟨none, by simp, rfl⟩

/-- What is read is a number. -/
theorem strtoul_sound {v : ℕ} {e : List Char} (h : strtoul base s = some (v, e)) :
    ∃ n : Numeral, n.WellFormed base ∧ s = n.text ++ e ∧ v = n.value base := by
  obtain ⟨sign, hsign, hnegative⟩ := exists_skipSign (s.dropWhile isSpace)
  obtain ⟨hexPrefix, hwf, hprefix⟩ :=
    exists_skipHexPrefix base (skipSign (s.dropWhile isSpace)).2
  obtain ⟨happend, hdigits, -⟩ :=
    spanDigits_spec base (skipHexPrefix base (skipSign (s.dropWhile isSpace)).2)
  simp only [strtoul] at h
  by_cases hnil : (spanDigits base
      (skipHexPrefix base (skipSign (s.dropWhile isSpace)).2)).1 = []
  · rw [if_pos hnil] at h
    cases h
  rw [if_neg hnil] at h
  obtain ⟨hv, he⟩ := Prod.mk.inj (Option.some.inj h)
  refine ⟨⟨s.takeWhile isSpace, sign, hexPrefix, _⟩,
    ⟨fun c hc => List.mem_takeWhile_imp hc, hwf, hnil, hdigits⟩, ?_, ?_⟩
  · calc s = s.takeWhile isSpace ++ s.dropWhile isSpace := List.takeWhile_append_dropWhile.symm
      _ = _ := by
        conv_lhs => rw [hsign, hprefix, ← happend, he]
        simp only [Numeral.text, Numeral.prefixText, List.append_assoc]
  · rw [← hv, hnegative, Numeral.value]
    simp only [decide_eq_true_eq]

end Inet
