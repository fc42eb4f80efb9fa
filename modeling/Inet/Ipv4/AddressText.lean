import Inet.Ipv4.IPv4Route
import Inet.Library.Numerals

/-!
# IPv4 addresses as text

`parseIPAddress` reads four decimal numbers with dots in between. It counts the bytes it has
written, so that it never writes a fifth one, but adds up the digits in an `int` and compares it
with 255 only when there are no digits left. The sum of a long number wraps around, and the text
is accepted if the sum happens to be small or negative (`parsesExactly_iff`).

A C string is the list of its characters without the terminating zero.
-/

namespace Inet.Ipv4.IPv4Address

open Numerals
open List

variable {numbers : List (List Char)} {s : List Char}

/-- `"<unspec>"`. -/
def unspec : List Char := ['<', 'u', 'n', 's', 'p', 'e', 'c', '>']

/-- The conversion to `unsigned char`. -/
def toUchar (x : ℤ) : ℕ := (x % 2 ^ 8).toNat

/-- The loop over the digits of a number. -/
def readNumber : ℤ → List Char → ℤ × List Char
  | num, [] => (num, [])
  | num, c :: s =>
    if isDigit 10 c then readNumber (toInt (10 * num + digit c)) s else (num, c :: s)

/-- The loop over the numbers; `tobytes` is what has been written so far. -/
def parseNumbers : ℕ → List ℕ → List Char → Result (Bool × List ℕ)
  | 0, _, _ => .error .outOfFuel
  | fuel + 1, tobytes, s =>
    if ¬ s.head?.any (isDigit 10) then .ok (false, tobytes) -- missing number
    else
      let (num, s) := readNumber 0 s
      if num > 255 then .ok (false, tobytes) -- number too big
      else
        let tobytes := tobytes ++ [toUchar num]
        match s with
        | [] => .ok (tobytes.length == 4, tobytes)
        | c :: s =>
          if c ≠ '.' then .ok (false, tobytes)
          else if tobytes.length = 4 then .ok (false, tobytes)
          else parseNumbers fuel tobytes s

/-- The result and the bytes that have been written. -/
def parseIPAddress (text : List Char) : Result (Bool × List ℕ) :=
  if text = unspec then .ok (true, [0, 0, 0, 0]) else parseNumbers (text.length + 1) [] text

/-- `addr = (i0 << 24) | (i1 << 16) | (i2 << 8) | i3`. -/
def ofBytes : List ℕ → IPv4Address
  | [i0, i1, i2, i3] =>
    BitVec.ofNat 32 i0 <<< 24 ||| BitVec.ofNat 32 i1 <<< 16 ||| BitVec.ofNat 32 i2 <<< 8 |||
      BitVec.ofNat 32 i3
  | _ => 0

/-- `IPv4Address::set(const char *text)`. -/
def set (text : List Char) : Result IPv4Address := do
  let (ok, buf) ← parseIPAddress text
  if ok then .ok (ofBytes buf) else .error (.cRuntimeError "Invalid IPv4 address string `%s'")

/-- The four bytes of an address, the most significant one first. -/
def bytes (addr : IPv4Address) : List ℕ :=
  [(addr >>> 24 &&& 255).toNat, (addr >>> 16 &&& 255).toNat, (addr >>> 8 &&& 255).toNat,
    (addr &&& 255).toNat]

def str (addr : IPv4Address) (printUnspec : Bool) : List Char :=
  if printUnspec ∧ isUnspecified addr then unspec
  else List.intercalate ['.'] (addr.bytes.map (Nat.toDigits 10))

/-- A text of non-empty decimal numbers with dots in between. -/
structure Dotted (s : List Char) (numbers : List (List Char)) : Prop where
  text : s = List.intercalate ['.'] numbers
  ne_nil : ∀ ds ∈ numbers, ds ≠ []
  digits : ∀ ds ∈ numbers, ∀ c ∈ ds, isDigit 10 c = true

theorem toInt_readNumber (x : ℤ) (d : ℕ) : toInt (10 * toInt x + d) = toInt (10 * x + d) := by
  rw [toInt, toInt, toInt, ← Int.bmod_add_bmod, Int.mul_bmod_bmod, Int.bmod_add_bmod]

theorem toUchar_toInt {n : ℕ} (h : n ≤ 255) : toUchar (toInt n) = n := by
  rw [toInt_of (by omega), toUchar, Int.emod_eq_of_lt (by omega) (by omega), Int.toNat_natCast]

/-- The digits have been added up modulo `2 ^ 32`. -/
theorem readNumber_eq (n : ℕ) (s : List Char) : readNumber (toInt n) s =
      (toInt (ofDigitsFrom 10 n (spanDigits 10 s).1), (spanDigits 10 s).2) := by
  induction s generalizing n with
  | nil => rfl
  | cons c s ih =>
    rw [readNumber, spanDigits_eq]
    cases hc : isDigit 10 c with
    | true =>
      have hstep : toInt (10 * toInt n + digit c) = toInt ((10 * n + digit c : ℕ) : ℤ) := by
        rw [toInt_readNumber]
        push_cast
        rfl
      rw [if_pos rfl, hstep, ih, spanDigits_eq, takeWhile_cons_of_pos hc,
        dropWhile_cons_of_pos hc, ofDigitsFrom_cons]
    | false =>
      rw [if_neg Bool.false_ne_true, takeWhile_cons_of_neg (by simp [hc]),
        dropWhile_cons_of_neg (by simp [hc]), ofDigitsFrom_nil]

theorem Dotted.ne_nil_of_ne_nil (h : Dotted s numbers) (hs : s ≠ []) : numbers ≠ [] := by
  rintro rfl
  exact hs h.text

theorem Dotted.head?_any (h : Dotted s numbers) (hne : numbers ≠ []) :
    s.head?.any (isDigit 10) = true := by
  obtain ⟨first, others, rfl⟩ := exists_cons_of_ne_nil hne
  obtain ⟨c, cs, rfl⟩ := exists_cons_of_ne_nil (h.ne_nil first mem_cons_self)
  have htext := h.text
  rw [intercalate_cons_cons_left] at htext
  rw [htext]
  exact h.digits _ mem_cons_self c mem_cons_self

/-- The first number of a text is the longest run of digits it begins with. -/
theorem dotted_append_iff (numbers : List (List Char)) {ds rest : List Char} (hne : ds ≠ [])
    (hds : ∀ c ∈ ds, isDigit 10 c = true) (hrest : Ends 10 rest) :
    Dotted (ds ++ rest) numbers ↔ rest = [] ∧ numbers = [ds] ∨
      ∃ s others, rest = '.' :: s ∧ numbers = ds :: others ∧ others ≠ [] ∧ Dotted s others := by
  constructor
  · intro h
    obtain ⟨first, others, rfl⟩ := exists_cons_of_ne_nil (h.ne_nil_of_ne_nil (by simp [hne]))
    have hfirst : ∀ c ∈ first, isDigit 10 c = true := h.digits first mem_cons_self
    have hspan := spanDigits_append hds hrest
    rw [h.text] at hspan
    cases others with
    | nil =>
      rw [intercalate_singleton] at hspan
      have hself := spanDigits_append hfirst ends_nil
      rw [append_nil, hspan] at hself
      obtain ⟨rfl, rfl⟩ := Prod.mk.inj hself
      exact .inl ⟨rfl, rfl⟩
    | cons second others =>
      rw [intercalate_cons_cons, append_assoc, singleton_append,
        spanDigits_append hfirst (ends_cons.mpr (by decide))] at hspan
      obtain ⟨rfl, rfl⟩ := Prod.mk.inj hspan
      refine .inr ⟨_, _, rfl, rfl, cons_ne_nil _ _, rfl, ?_, ?_⟩
      · exact fun ds hmem => h.ne_nil ds (mem_cons_of_mem _ hmem)
      · exact fun ds hmem => h.digits ds (mem_cons_of_mem _ hmem)
  · rintro (⟨rfl, rfl⟩ | ⟨s, others, rfl, rfl, hothers, h⟩)
    · exact ⟨by rw [intercalate_singleton, append_nil], by simpa using hne, by simpa using hds⟩
    · obtain ⟨second, others, rfl⟩ := exists_cons_of_ne_nil hothers
      refine ⟨?_, ?_, ?_⟩
      · rw [h.text, intercalate_cons_cons, append_assoc, singleton_append]
      · exact forall_mem_cons.mpr ⟨hne, h.ne_nil⟩
      · exact forall_mem_cons.mpr ⟨hds, h.digits⟩

theorem Dotted.cons {ds : List Char} {others : List (List Char)} (h : Dotted s (ds :: others)) :
    ds ≠ [] ∧ (∀ c ∈ ds, isDigit 10 c = true) ∧ ∃ rest, Ends 10 rest ∧ s = ds ++ rest := by
  refine ⟨h.ne_nil ds mem_cons_self, h.digits ds mem_cons_self, ?_⟩
  cases others with
  | nil => exact ⟨[], ends_nil, h.text.trans (by simp)⟩
  | cons second others =>
    refine ⟨'.' :: intercalate ['.'] (second :: others), ends_cons.mpr rfl, ?_⟩
    rw [h.text, intercalate_cons_cons, append_assoc, singleton_append]

/-- A text is that of one list of numbers only. -/
theorem Dotted.unique {numbers' : List (List Char)} (h : Dotted s numbers)
    (h' : Dotted s numbers') (hne : numbers ≠ []) : numbers = numbers' := by
  induction numbers generalizing s numbers' with
  | nil => exact absurd rfl hne
  | cons ds others ih =>
    obtain ⟨hds, hdigits, rest, hrest, rfl⟩ := h.cons
    have hiff := fun numbers => dotted_append_iff numbers hds hdigits hrest
    obtain ⟨rfl, heq⟩ | ⟨t, _, rfl, heq, hothers, hd⟩ := (hiff _).mp h
    · obtain ⟨-, rfl⟩ | ⟨_, _, heq', -⟩ := (hiff _).mp h'
      · exact heq
      · cases heq'
    · obtain ⟨-, rfl⟩ := List.cons.inj heq
      obtain ⟨heq', -⟩ | ⟨_, others', ht, rfl, -, hd'⟩ := (hiff _).mp h'
      · cases heq'
      · obtain ⟨-, rfl⟩ := List.cons.inj ht
        rw [ih hd hd' hothers]

/-- None of the numbers is greater than 255 as an `int`. -/
def Fits (numbers : List (List Char)) : Prop :=
  ∀ ds ∈ numbers, toInt (ofDigits 10 ds) ≤ 255

/-- What the loop has done with a text: it has written at most four bytes, and it accepts the text
just in case it is that of the numbers that were missing. -/
structure Parsed (tobytes : List ℕ) (s : List Char) (ok : Bool) (written : List ℕ) : Prop where
  length_le : written.length ≤ 4
  sound : ok = true → ∃ numbers, Dotted s numbers ∧ tobytes.length + numbers.length = 4 ∧
    Fits numbers ∧ written = tobytes ++ numbers.map fun ds => toUchar (toInt (ofDigits 10 ds))
  complete : ∀ numbers, Dotted s numbers → tobytes.length + numbers.length = 4 → Fits numbers →
    ok = true

/-- A text that has no numbers as required is rejected. -/
theorem Parsed.reject {tobytes written : List ℕ} (hlen : written.length ≤ 4)
    (h : ∀ numbers, Dotted s numbers → tobytes.length + numbers.length = 4 → ¬ Fits numbers) :
    Parsed tobytes s false written :=
  ⟨hlen, fun hok => absurd hok Bool.false_ne_true,
    fun numbers hd hcount hfits => absurd hfits (h numbers hd hcount)⟩

section

variable {fuel : ℕ} {tobytes written : List ℕ} {ds rest : List Char} (hne : ds ≠ [])
  (hds : ∀ c ∈ ds, isDigit 10 c = true)

include hne hds

/-- One round of the loop, on a text that begins with a number. -/
theorem parseNumbers_digits : Ends 10 rest → parseNumbers (fuel + 1) tobytes (ds ++ rest) =
      if toInt (ofDigits 10 ds) > 255 then .ok (false, tobytes)
      else
        let tobytes := tobytes ++ [toUchar (toInt (ofDigits 10 ds))]
        match rest with
        | [] => .ok (tobytes.length == 4, tobytes)
        | c :: s =>
          if c ≠ '.' then .ok (false, tobytes)
          else if tobytes.length = 4 then .ok (false, tobytes)
          else parseNumbers fuel tobytes s := by
  intro hrest
  obtain ⟨c, cs, rfl⟩ := exists_cons_of_ne_nil hne
  have hread := readNumber_eq 0 (c :: cs ++ rest)
  rw [spanDigits_append hds hrest] at hread
  have hhead : (c :: cs ++ rest).head?.any (isDigit 10) = true := hds c mem_cons_self
  rw [parseNumbers, if_neg (not_not_intro hhead),
    show readNumber 0 (c :: cs ++ rest) = (toInt (ofDigits 10 (c :: cs)), rest) from hread]

theorem mem_of_dotted (hrest : Ends 10 rest) {numbers : List (List Char)}
    (h : Dotted (ds ++ rest) numbers) : ds ∈ numbers := by
  obtain ⟨-, rfl⟩ | ⟨_, _, -, rfl, -⟩ := (dotted_append_iff numbers hne hds hrest).mp h
  · exact mem_cons_self
  · exact mem_cons_self

/-- The last number. -/
theorem Parsed.last (hroom : tobytes.length < 4) (hsmall : toInt (ofDigits 10 ds) ≤ 255) :
    Parsed tobytes ds (tobytes.length + 1 == 4)
      (tobytes ++ [toUchar (toInt (ofDigits 10 ds))]) := by
  have hnumbers := fun numbers => dotted_append_iff numbers hne hds ends_nil
  rw [append_nil] at hnumbers
  refine ⟨?_, fun hok => ?_, fun numbers hd hcount _ => ?_⟩
  · rw [length_append, length_singleton]
    omega
  · refine ⟨[ds], (hnumbers [ds]).mpr (.inl ⟨rfl, rfl⟩), beq_iff_eq.mp hok, ?_, rfl⟩
    exact forall_mem_singleton.mpr hsmall
  · obtain ⟨-, rfl⟩ | ⟨_, _, heq, -⟩ := (hnumbers numbers).mp hd
    · exact beq_iff_eq.mpr hcount
    · cases heq

/-- A number, a dot and what the loop does with the rest. -/
theorem Parsed.cons {ok : Bool} (hroom : tobytes.length + 1 < 4)
    (hsmall : toInt (ofDigits 10 ds) ≤ 255)
    (h : Parsed (tobytes ++ [toUchar (toInt (ofDigits 10 ds))]) rest ok written) :
    Parsed tobytes (ds ++ '.' :: rest) ok written := by
  have hnumbers := fun numbers =>
    dotted_append_iff numbers hne hds (ends_cons.mpr rfl : Ends 10 ('.' :: rest))
  have hlength : (tobytes ++ [toUchar (toInt (ofDigits 10 ds))]).length = tobytes.length + 1 := by
    simp
  refine ⟨h.length_le, fun hok => ?_, fun numbers hd hcount hfits => ?_⟩
  · obtain ⟨others, hd, hcount, hfits, hwritten⟩ := h.sound hok
    have hothers : others ≠ [] := by
      rintro rfl
      rw [hlength, length_nil] at hcount
      omega
    refine ⟨ds :: others, (hnumbers _).mpr (.inr ⟨_, _, rfl, rfl, hothers, hd⟩), ?_, ?_, ?_⟩
    · rw [length_cons]
      omega
    · exact forall_mem_cons.mpr ⟨hsmall, hfits⟩
    · rw [hwritten, map_cons, append_assoc, singleton_append]
  · obtain ⟨heq, -⟩ | ⟨_, others, heq, rfl, -, hd⟩ := (hnumbers numbers).mp hd
    · cases heq
    · obtain ⟨-, rfl⟩ := List.cons.inj heq
      rw [length_cons] at hcount
      exact h.complete others hd (by omega) fun ds hmem => hfits ds (mem_cons_of_mem _ hmem)

end

theorem parseNumbers_spec (fuel : ℕ) (tobytes : List ℕ) (s : List Char) (hfuel : s.length < fuel)
    (hroom : tobytes.length < 4) :
    ∃ ok written, parseNumbers fuel tobytes s = .ok (ok, written) ∧
      Parsed tobytes s ok written := by
  induction fuel generalizing tobytes s with
  | zero => omega
  | succ fuel ih =>
    obtain ⟨happend, hds, hrest⟩ := spanDigits_spec 10 s
    generalize (spanDigits 10 s).1 = ds at happend hds
    generalize (spanDigits 10 s).2 = rest at happend hrest
    subst happend
    by_cases hne : ds = []
    · -- the text does not begin with a number
      subst hne
      have hhead : ¬ rest.head?.any (isDigit 10) = true := by
        intro hany
        obtain ⟨c, hc, hdigit⟩ := (Option.any_eq_true _ _).mp hany
        rw [hrest c hc] at hdigit
        cases hdigit
      refine ⟨_, _, if_pos hhead, .reject (by omega) ?_⟩
      intro numbers hd hcount _
      have hnumbers : numbers ≠ [] := by
        rintro rfl
        rw [length_nil] at hcount
        omega
      exact hhead (hd.head?_any hnumbers)
    have hnumbers := fun numbers => dotted_append_iff numbers hne hds hrest
    have hlength : (tobytes ++ [toUchar (toInt (ofDigits 10 ds))]).length =
        tobytes.length + 1 := by simp
    rw [parseNumbers_digits hne hds hrest]
    by_cases hbig : toInt (ofDigits 10 ds) > 255
    · refine ⟨_, _, if_pos hbig, .reject (by omega) ?_⟩
      intro numbers hd _ hfits
      have := hfits ds (mem_of_dotted hne hds hrest hd)
      omega
    rw [if_neg hbig]
    cases rest with
    | nil =>
      rw [append_nil]
      exact ⟨_, _, rfl, hlength ▸ .last hne hds hroom (Int.not_lt.mp hbig)⟩
    | cons c rest =>
      by_cases hdot : c = '.'
      swap
      · refine ⟨_, _, if_pos hdot, .reject (by omega) ?_⟩
        intro numbers hd _ _
        obtain ⟨heq, -⟩ | ⟨_, _, heq, -⟩ := (hnumbers numbers).mp hd
        · cases heq
        · exact hdot (List.cons.inj heq).1
      subst hdot
      by_cases hfull : tobytes.length + 1 = 4
      · refine ⟨_, _, (if_neg (by simp)).trans (if_pos (hlength.trans hfull)),
          .reject (by omega) ?_⟩
        intro numbers hd hcount _
        obtain ⟨heq, -⟩ | ⟨_, others, -, rfl, hothers, -⟩ := (hnumbers numbers).mp hd
        · cases heq
        · have := length_pos_iff.mpr hothers
          rw [length_cons] at hcount
          omega
      · rw [length_append, length_cons] at hfuel
        obtain ⟨ok, written, hrun, hparsed⟩ :=
          ih (tobytes ++ [toUchar (toInt (ofDigits 10 ds))]) rest (by omega) (by omega)
        refine ⟨ok, written, ?_, .cons hne hds (by omega) (Int.not_lt.mp hbig) hparsed⟩
        exact (if_neg (by simp)).trans ((if_neg (hlength ▸ hfull)).trans hrun)

/-- The text is accepted if and only if it is that of four numbers which are at most 255, and
then these are the bytes. -/
def ParsesExactly (s : List Char) : Prop :=
  ∃ ok tobytes, parseIPAddress s = .ok (ok, tobytes) ∧
    (ok = true ↔ s = unspec ∨ ∃ numbers, Dotted s numbers ∧ numbers.length = 4 ∧
      ∀ ds ∈ numbers, ofDigits 10 ds ≤ 255) ∧
    (ok = true → s = unspec ∧ tobytes = [0, 0, 0, 0] ∨
      ∃ numbers, Dotted s numbers ∧ tobytes = numbers.map (ofDigits 10))

/-- Four numbers, one of them greater than 255, of which none is greater than 255 as an `int`. -/
def WrapsAround (s : List Char) : Prop :=
  ∃ numbers, Dotted s numbers ∧ numbers.length = 4 ∧
    (∀ ds ∈ numbers, toInt (ofDigits 10 ds) ≤ 255) ∧ ∃ ds ∈ numbers, 255 < ofDigits 10 ds

theorem not_dotted_unspec (numbers : List (List Char)) (hne : numbers ≠ []) :
    ¬ Dotted unspec numbers := by
  intro h
  exact absurd (h.head?_any hne) (by decide)

theorem Parsed.of_text (s : List Char) :
    ∃ ok written, parseNumbers (s.length + 1) [] s = .ok (ok, written) ∧ Parsed [] s ok written :=
  parseNumbers_spec (s.length + 1) [] s (by omega) (by decide)

theorem toInt_le_of_le {n : ℕ} (h : n ≤ 255) : toInt n ≤ 255 := by
  rw [toInt_of (by omega)]
  omega

theorem parsesExactly_iff_not_wrapsAround (s : List Char) : ParsesExactly s ↔ ¬ WrapsAround s := by
  by_cases hunspec : s = unspec
  · subst hunspec
    refine iff_of_true ⟨true, [0, 0, 0, 0], if_pos rfl, ?_, ?_⟩ ?_
    · exact iff_of_true rfl (.inl rfl)
    · exact fun _ => .inl ⟨rfl, rfl⟩
    · rintro ⟨numbers, hd, hcount, -⟩
      exact not_dotted_unspec _ (by rintro rfl; cases hcount) hd
  obtain ⟨ok, written, hrun, hparsed⟩ := Parsed.of_text s
  have hparse : parseIPAddress s = .ok (ok, written) := (if_neg hunspec).trans hrun
  have hcount_iff : ∀ numbers : List (List Char),
      ([] : List ℕ).length + numbers.length = 4 ↔ numbers.length = 4 := fun numbers => by
    rw [length_nil, Nat.zero_add]
  constructor
  · rintro ⟨ok', written', hparse', hiff, -⟩ ⟨numbers, hd, hcount, hfits, ds, hds, hbig⟩
    obtain ⟨rfl, rfl⟩ := Prod.mk.inj (Except.ok.inj (hparse.symm.trans hparse'))
    have hok := hparsed.complete numbers hd ((hcount_iff _).mpr hcount) hfits
    obtain heq | ⟨numbers', hd', -, hsmall⟩ := hiff.mp hok
    · exact hunspec heq
    · obtain rfl := hd.unique hd' (by rintro rfl; cases hds)
      exact absurd (hsmall ds hds) (Nat.not_le.mpr hbig)
  · intro hwraps
    have hsound : ok = true → ∃ numbers, Dotted s numbers ∧ numbers.length = 4 ∧
        (∀ ds ∈ numbers, ofDigits 10 ds ≤ 255) ∧ written = numbers.map (ofDigits 10) := by
      intro hok
      obtain ⟨numbers, hd, hcount, hfits, rfl⟩ := hparsed.sound hok
      have hcount := (hcount_iff _).mp hcount
      have hsmall : ∀ ds ∈ numbers, ofDigits 10 ds ≤ 255 := fun ds hds => by
        by_contra hbig
        exact hwraps ⟨numbers, hd, hcount, hfits, ds, hds, Nat.lt_of_not_le hbig⟩
      refine ⟨numbers, hd, hcount, hsmall, ?_⟩
      exact map_congr_left fun ds hds => toUchar_toInt (hsmall ds hds)
    refine ⟨ok, written, hparse, ⟨fun hok => ?_, ?_⟩, fun hok => ?_⟩
    · obtain ⟨numbers, hd, hcount, hsmall, -⟩ := hsound hok
      exact .inr ⟨numbers, hd, hcount, hsmall⟩
    · rintro (heq | ⟨numbers, hd, hcount, hsmall⟩)
      · exact absurd heq hunspec
      · exact hparsed.complete numbers hd ((hcount_iff _).mpr hcount)
          fun ds hds => toInt_le_of_le (hsmall ds hds)
    · obtain ⟨numbers, hd, -, -, hwritten⟩ := hsound hok
      exact .inr ⟨numbers, hd, hwritten⟩

/-- No more than four bytes are written, whatever the text is. -/
theorem length_written_le (s : List Char) :
    ∃ ok written, parseIPAddress s = .ok (ok, written) ∧ written.length ≤ 4 := by
  by_cases hunspec : s = unspec
  · exact ⟨true, [0, 0, 0, 0], if_pos hunspec, le_rfl⟩
  · obtain ⟨ok, written, hrun, hparsed⟩ := Parsed.of_text s
    exact ⟨ok, written, (if_neg hunspec).trans hrun, hparsed.length_le⟩

theorem ofBytes_bytes (addr : IPv4Address) : ofBytes addr.bytes = addr := by
  simp only [bytes, ofBytes, BitVec.ofNat_toNat, BitVec.setWidth_eq]
  refine BitVec.eq_of_getLsbD_eq fun i hi => ?_
  interval_cases i <;> simp

theorem le_of_mem_bytes {addr : IPv4Address} {b : ℕ} (hb : b ∈ addr.bytes) : b ≤ 255 := by
  have hand : ∀ x : BitVec 32, (x &&& 255).toNat ≤ 255 := fun x => by
    rw [BitVec.toNat_and]
    exact Nat.and_le_right
  simp only [bytes, mem_cons, not_mem_nil, or_false] at hb
  obtain rfl | rfl | rfl | rfl := hb <;> exact hand _

theorem dotted_bytes (addr : IPv4Address) :
    Dotted (intercalate ['.'] (addr.bytes.map (Nat.toDigits 10)))
      (addr.bytes.map (Nat.toDigits 10)) := by
  refine ⟨rfl, ?_, ?_⟩
  · exact forall_mem_map.mpr fun b _ => Nat.toDigits_ne_nil
  · exact forall_mem_map.mpr fun b _ c hc =>
      isDigit_of_mem_toDigits (by decide) (by decide) hc

/-- An address is read back as it has been printed. -/
theorem set_str (addr : IPv4Address) (printUnspec : Bool) :
    set (addr.str printUnspec) = .ok addr := by
  rw [str]
  split_ifs with hunspec
  · rw [isUnspecified, beq_iff_eq] at hunspec
    rw [hunspec.2]
    rfl
  have hd := dotted_bytes addr
  obtain ⟨ok, written, hrun, hparsed⟩ :=
    Parsed.of_text (intercalate ['.'] (addr.bytes.map (Nat.toDigits 10)))
  have hne : intercalate ['.'] (addr.bytes.map (Nat.toDigits 10)) ≠ unspec := fun heq =>
    not_dotted_unspec (addr.bytes.map (Nat.toDigits 10)) (cons_ne_nil _ _)
      (heq ▸ hd)
  have hfits : Fits (addr.bytes.map (Nat.toDigits 10)) := by
    refine forall_mem_map.mpr fun b hb => toInt_le_of_le ?_
    rw [ofDigits_toDigits (by decide) (by decide)]
    exact le_of_mem_bytes hb
  have hok := hparsed.complete _ hd rfl hfits
  obtain ⟨numbers, hd', -, -, rfl⟩ := hparsed.sound hok
  obtain rfl := hd.unique hd' (cons_ne_nil _ _)
  have hbytes : (addr.bytes.map (Nat.toDigits 10)).map
      (fun ds => toUchar (toInt (ofDigits 10 ds))) = addr.bytes := by
    rw [map_map]
    conv_rhs => rw [← map_id addr.bytes]
    refine map_congr_left fun b hb => ?_
    rw [Function.comp_apply, ofDigits_toDigits (by decide) (by decide),
      toUchar_toInt (le_of_mem_bytes hb), id]
  rw [set, parseIPAddress, if_neg hne, hrun, hok, nil_append, hbytes, ok_bind]
  exact congrArg Except.ok (ofBytes_bytes addr)

/-- A text is parsed exactly unless a number wraps around. At most four bytes are written whatever
the text is, and both texts of an address are read back. -/
theorem parsesExactly_iff (s : List Char) (addr : IPv4Address) :
    (ParsesExactly s ↔ ¬ WrapsAround s) ∧
    (∃ ok tobytes, parseIPAddress s = .ok (ok, tobytes) ∧ tobytes.length ≤ 4) ∧
    set (addr.str true) = .ok addr ∧ set (addr.str false) = .ok addr :=
  ⟨parsesExactly_iff_not_wrapsAround s, length_written_le s, set_str addr true, set_str addr false⟩

/-- `"4294967296.0.0.0"` is accepted. -/
theorem not_parsesExactly_of_wrap : ¬ ParsesExactly
      ['4', '2', '9', '4', '9', '6', '7', '2', '9', '6', '.', '0', '.', '0', '.', '0'] := by
  have hparse : parseIPAddress
      ['4', '2', '9', '4', '9', '6', '7', '2', '9', '6', '.', '0', '.', '0', '.', '0'] =
        .ok (true, [0, 0, 0, 0]) := by decide +kernel
  rintro ⟨ok, tobytes, hparse', hiff, -⟩
  obtain ⟨rfl, rfl⟩ := Prod.mk.inj (Except.ok.inj (hparse.symm.trans hparse'))
  obtain heq | ⟨numbers, hd, -, hsmall⟩ := hiff.mp rfl
  · exact absurd heq (by decide)
  · have hd' : Dotted
        ['4', '2', '9', '4', '9', '6', '7', '2', '9', '6', '.', '0', '.', '0', '.', '0']
        [['4', '2', '9', '4', '9', '6', '7', '2', '9', '6'], ['0'], ['0'], ['0']] :=
      ⟨rfl, by decide, by
        -- the instances for lists, not those that try every character
        simp only [← List.all_eq_true]
        decide⟩
    obtain rfl := hd'.unique hd (by decide)
    exact absurd (hsmall _ List.mem_cons_self) (by decide)

end Inet.Ipv4.IPv4Address
