import Inet.Ipv6.AddressText

/-!
# Printing IPv6 addresses

`str` prints the groups of an address, with two colons in place of the longest run of zero groups
that `findGap` finds: the first one, if there are several (`findGap_spec`). What is printed is the
text of the address (`exists_text_str`), so `tryParse` reads it back. The unspecified address has
a name of its own, and no prefix length can follow that name (`printsAndReads_iff`).
-/

namespace Inet.Ipv6.IPv6Address

open Numerals
open AddressText (gapText groups numerals text)
open List

/-- The loop of `findGap` at the `i`-th group: where the run of zeros begins that the loop is in,
and the longest run that it has left. -/
def findGapLoop : ℕ → List ℕ → Option ℕ → ℕ × ℕ → Option ℕ × (ℕ × ℕ)
  | _, [], beg, gap => (beg, gap)
  | i, g :: groups, none, gap =>
    findGapLoop (i + 1) groups (if g = 0 then some i else none) gap -- begin counting
  | i, g :: groups, some beg, (start, stop) =>
    if g ≠ 0 then -- end counting
      findGapLoop (i + 1) groups none
        (if i - beg ≥ 2 ∧ i - beg > stop - start then (beg, i) else (start, stop))
    else findGapLoop (i + 1) groups (some beg) (start, stop)

/-- The longest sequence of zeros in an address (at least with length 2). -/
def findGap (groups : List ℕ) : ℕ × ℕ :=
  match findGapLoop 0 groups none (0, 0) with
  | (none, gap) => gap
  | (some beg, (start, stop)) => -- check last zero sequence
      if beg ≤ 6 ∧ 8 - beg > stop - start then (beg, 8) else (start, stop)

/-- The 16-bit groups. -/
def toGroups (addr : IPv6Address) : List ℕ :=
  [addr.d0 >>> 16, addr.d0 &&& 0xffff#32, addr.d1 >>> 16, addr.d1 &&& 0xffff#32,
    addr.d2 >>> 16, addr.d2 &&& 0xffff#32, addr.d3 >>> 16, addr.d3 &&& 0xffff#32].map BitVec.toNat

/-- Hexadecimal numbers with colons in between. -/
def printGroups (groups : List ℕ) : List Char :=
  List.intercalate [':'] (groups.map (Nat.toDigits 16))

def str (addr : IPv6Address) : List Char :=
  if addr.isUnspecified then unspec
  else
    let groups := addr.toGroups
    let (start, stop) := findGap groups
    if start = 0 ∧ stop = 8 then [':', ':', '0'] -- the unspecified address is a special case
    else
      printGroups (groups.take start) ++ (if start ≠ stop then [':', ':'] else []) ++
        printGroups (groups.drop stop)

section

variable {groups : List ℕ} {i beg : ℕ} {gap : ℕ × ℕ}

/-- The groups from the one place to the other are zero. -/
def ZeroRun (groups : List ℕ) (start stop : ℕ) : Prop :=
  ∀ k, start ≤ k → k < stop → groups[k]? = some 0

/-- A run is made of zeros. -/
theorem ZeroRun.fill {start stop : ℕ} (h : ZeroRun groups start stop) (hle : start ≤ stop) :
    groups.take start ++ List.replicate (stop - start) 0 ++ groups.drop stop = groups := by
  have hrun : (groups.drop start).take (stop - start) = List.replicate (stop - start) 0 := by
    refine ext_getElem? fun k => ?_
    rw [getElem?_take, getElem?_drop, getElem?_replicate]
    split_ifs with hk
    · exact h (start + k) (Nat.le_add_right _ _) (by omega)
    · rfl
  have hsplit := take_append_drop (stop - start) (groups.drop start)
  rw [drop_drop, Nat.add_sub_of_le hle, hrun] at hsplit
  rw [append_assoc, hsplit, take_append_drop]

/-- Of the runs of two zeros or more that end by `limit`, the gap is the first of the longest;
it is empty if there are none. -/
structure FirstLongest (groups : List ℕ) (limit : ℕ) (gap : ℕ × ℕ) : Prop where
  le : gap.2 ≤ limit
  run : ZeroRun groups gap.1 gap.2
  two : gap = (0, 0) ∨ gap.1 + 2 ≤ gap.2
  longest : ∀ start stop, start + 2 ≤ stop → stop ≤ limit → ZeroRun groups start stop →
    stop - start ≤ gap.2 - gap.1 ∧ (stop - start = gap.2 - gap.1 → gap.1 ≤ start)

/-- What the loop knows at the `i`-th group. -/
structure Scanned (groups : List ℕ) (i : ℕ) (beg : Option ℕ) (gap : ℕ × ℕ) : Prop where
  le : beg.getD i ≤ i
  begins : ∀ k, beg.getD i = k + 1 → groups[k]? ≠ some 0
  run : ZeroRun groups (beg.getD i) i
  firstLongest : FirstLongest groups (beg.getD i) gap

/-- No run goes on over a group that is not zero. -/
theorem FirstLongest.next (h : FirstLongest groups i gap) (hi : groups[i]? ≠ some 0) :
    FirstLongest groups (i + 1) gap := by
  refine ⟨h.le.trans (Nat.le_succ i), h.run, h.two, fun start stop htwo hle hrun => ?_⟩
  have hstop : stop ≠ i + 1 := by
    rintro rfl
    exact hi (hrun i (by omega) (by omega))
  exact h.longest start stop htwo (by omega) hrun

/-- The run that the loop has been in is longer than the ones before, or it is not. -/
theorem Scanned.firstLongest_of_end (h : Scanned groups i (some beg) gap) : FirstLongest groups i
      (if i - beg ≥ 2 ∧ i - beg > gap.2 - gap.1 then (beg, i) else gap) := by
  obtain ⟨hle, hbegins, hrun, hfirst⟩ := h
  rw [Option.getD_some] at hle hbegins hrun hfirst
  -- a run that goes on into this one begins in it
  have hinside : ∀ start stop, ZeroRun groups start stop → beg < stop → beg ≤ start := by
    intro start stop hrun' hstop
    by_contra hlt
    obtain ⟨k, rfl⟩ : ∃ k, beg = k + 1 := ⟨beg - 1, by omega⟩
    exact hbegins k rfl (hrun' k (by omega) (by omega))
  have hgap := hfirst.le
  split_ifs with hlonger
  · have hlength : beg + 2 ≤ i := by omega
    refine ⟨le_rfl, hrun, .inr hlength, fun start stop htwo hstop hrun' => ?_⟩
    change stop - start ≤ i - beg ∧ (stop - start = i - beg → beg ≤ start)
    by_cases hbefore : stop ≤ beg
    · have := (hfirst.longest start stop htwo hbefore hrun').1
      omega
    · have := hinside start stop hrun' (by omega)
      omega
  · refine ⟨hgap.trans hle, hfirst.run, hfirst.two, fun start stop htwo hstop hrun' => ?_⟩
    by_cases hbefore : stop ≤ beg
    · exact hfirst.longest start stop htwo hbefore hrun'
    · have := hinside start stop hrun' (by omega)
      omega

theorem findGapLoop_spec (rest : List ℕ) (beg : Option ℕ) (hrest : groups.drop i = rest)
    (hi : i + rest.length = groups.length) (h : Scanned groups i beg gap) :
    Scanned groups groups.length (findGapLoop i rest beg gap).1
      (findGapLoop i rest beg gap).2 := by
  induction rest generalizing i beg gap with
  | nil =>
    obtain rfl : i = groups.length := hi
    cases beg <;> exact h
  | cons g rest ih =>
    rw [length_cons] at hi
    have hg : groups[i]? = some g := by
      rw [← head?_drop, hrest, head?_cons]
    have hrest' : groups.drop (i + 1) = rest := by
      rw [← tail_drop, hrest, tail_cons]
    cases beg with
    | none =>
      refine ih _ hrest' (by omega) ?_
      obtain ⟨-, hbegins, -, hfirst⟩ := h
      rw [Option.getD_none] at hbegins hfirst
      split_ifs with hzero
      · refine ⟨Nat.le_succ i, hbegins, fun k hk hlt => ?_, hfirst⟩
        obtain rfl : k = i := by rw [Option.getD_some] at hk; omega
        rw [hg, hzero]
      · have hne : groups[i]? ≠ some 0 := by rw [hg]; simpa using hzero
        refine ⟨le_rfl, fun k hk => ?_, fun k hk hlt => absurd hlt (Nat.not_lt.mpr hk),
          hfirst.next hne⟩
        obtain rfl : i = k := Nat.succ.inj hk
        exact hne
    | some beg =>
      rw [findGapLoop]
      by_cases hzero : g = 0
      · rw [if_neg (not_not.mpr hzero)]
        refine ih _ hrest' (by omega) ⟨h.le.trans (Nat.le_succ i), h.begins, ?_, h.firstLongest⟩
        intro k hk hlt
        by_cases hki : k = i
        · rw [hki, hg, hzero]
        · exact h.run k hk (by omega)
      · rw [if_pos hzero]
        have hne : groups[i]? ≠ some 0 := by rw [hg]; simpa using hzero
        refine ih _ hrest' (by omega) ⟨le_rfl, fun k hk => ?_,
          fun k hk hlt => absurd hlt (Nat.not_lt.mpr hk), h.firstLongest_of_end.next hne⟩
        obtain rfl : i = k := Nat.succ.inj hk
        exact hne

/-- The gap is the first of the longest runs of two zeros or more. -/
theorem findGap_spec (hlength : groups.length = 8) : FirstLongest groups 8 (findGap groups) := by
  have hscanned := @findGapLoop_spec groups 0 (0, 0) groups none
    drop_zero (Nat.zero_add _)
    ⟨le_rfl, fun k hk => absurd hk (by simp), fun k hk hlt => absurd hlt (by simp),
      le_rfl, fun k hk hlt => absurd hlt (by simp), .inl rfl, fun start stop htwo hle => by
        rw [Option.getD_none] at hle
        omega⟩
  rw [hlength] at hscanned
  rw [findGap]
  cases hloop : findGapLoop 0 groups none (0, 0) with
  | mk beg gap =>
    rw [hloop] at hscanned
    cases beg with
    | none => exact hscanned.firstLongest
    | some beg =>
      have hend := hscanned.firstLongest_of_end
      have hbeg := hscanned.le
      rw [Option.getD_some] at hbeg
      have hiff : 8 - beg ≥ 2 ↔ beg ≤ 6 := by omega
      simp only [hiff] at hend
      exact hend

end

variable {addr : IPv6Address}

/-- A group as it is printed. -/
def toNumeral (group : ℕ) : Numeral := { digits := Nat.toDigits 16 group }

/-- The text of an address as it is printed. -/
def toText (addr : IPv6Address) : AddressText :=
  let groups := addr.toGroups
  let (start, stop) := findGap groups
  if start = stop then { before := groups.map toNumeral }
  else
    { before := (groups.take start).map toNumeral
      behind := some ((groups.drop stop).map toNumeral) }

theorem printGroups_eq (groups : List ℕ) :
    printGroups groups = groupsText (groups.map toNumeral) := by
  rw [printGroups, groupsText, map_map]
  rfl

theorem length_toGroups (addr : IPv6Address) : addr.toGroups.length = 8 := rfl

theorem toGroups_le : ∀ g ∈ addr.toGroups, g ≤ 0xffff := by
  have hshift : ∀ x : BitVec 32, (x >>> 16).toNat ≤ 0xffff := fun x => by
    rw [BitVec.toNat_ushiftRight, Nat.shiftRight_eq_div_pow]
    omega
  have hand : ∀ x : BitVec 32, (x &&& 0xffff#32).toNat ≤ 0xffff := fun x => by
    rw [BitVec.toNat_and]
    exact Nat.and_le_right
  simp only [toGroups, map_cons, map_nil, forall_mem_cons]
  exact ⟨hshift _, hand _, hshift _, hand _, hshift _, hand _, hshift _, hand _, by simp⟩

theorem ofGroups_toGroups (addr : IPv6Address) : ofGroups addr.toGroups = addr := by
  have hword : ∀ x : BitVec 32,
      ofTwoGroups (x >>> 16).toNat (x &&& 0xffff#32).toNat = x := fun x => by
    have hlow : x.toNat &&& 65535 = x.toNat % 65536 := Nat.and_two_pow_sub_one_eq_mod x.toNat 16
    rw [ofTwoGroups, BitVec.ofNat_toNat, BitVec.ofNat_toNat, BitVec.setWidth_eq, BitVec.setWidth_eq]
    refine BitVec.eq_of_toNat_eq ?_
    rw [BitVec.toNat_add, BitVec.toNat_shiftLeft, BitVec.toNat_ushiftRight, BitVec.toNat_and,
      BitVec.toNat_ofNat, Nat.shiftLeft_eq, Nat.shiftRight_eq_div_pow,
      Nat.mod_eq_of_lt (by decide : 65535 < 2 ^ 32), hlow]
    omega
  simp only [toGroups, map_cons, map_nil, ofGroups, hword]

theorem plain_toNumeral (g : ℕ) : (toNumeral g).Plain := ⟨rfl, rfl, rfl⟩

theorem wellFormed_toNumeral (g : ℕ) : (toNumeral g).WellFormed 16 where
  blanks := by simp [toNumeral]
  hexPrefix := by simp [toNumeral]
  digits_ne_nil := Nat.toDigits_ne_nil
  digits _ hc := isDigit_of_mem_toDigits (by decide) (by decide) hc

theorem map_toNumeral (groups : List ℕ) :
    (groups.map toNumeral).map (fun n => ofDigits 16 n.digits) = groups := by
  rw [map_map]
  conv_rhs => rw [← map_id groups]
  exact map_congr_left fun g _ => ofDigits_toDigits (by decide) (by decide) g

/-- The gap is empty, or it is a run that leaves out some group. -/
theorem findGap_cases (hne : addr ≠ {}) : findGap addr.toGroups = (0, 0) ∨
    ∃ start stop, findGap addr.toGroups = (start, stop) ∧ start + 2 ≤ stop ∧ stop ≤ 8 ∧
      ZeroRun addr.toGroups start stop ∧ ¬ (start = 0 ∧ stop = 8) := by
  obtain ⟨hle, hrun, hempty | htwo, -⟩ := findGap_spec (length_toGroups addr)
  · exact .inl hempty
  refine .inr ⟨(findGap addr.toGroups).1, (findGap addr.toGroups).2, rfl, htwo, hle, hrun, ?_⟩
  rintro ⟨hstart, hstop⟩
  rw [hstart, hstop] at hrun
  have hzero : List.replicate 8 0 = addr.toGroups := hrun.fill (by decide)
  apply hne
  rw [← ofGroups_toGroups addr, ← hzero]
  rfl

/-- What is printed is the text of the address. -/
theorem str_eq_text (hne : addr ≠ {}) : addr.str = addr.toText.text := by
  have hunspec : ¬ addr.isUnspecified = true := fun h => hne (isUnspecified_iff.mp h)
  obtain hfind | ⟨start, stop, hfind, htwo, -, -, hall⟩ := findGap_cases hne
  · simp [str, hunspec, toText, hfind, text, gapText, printGroups_eq, groupsText]
  · have hlt : start ≠ stop := by omega
    simp [str, hunspec, toText, hfind, hall, hlt, text, gapText, printGroups_eq]

theorem mem_numerals_toText {n : Numeral} (hn : n ∈ addr.toText.numerals) :
    ∃ g ∈ addr.toGroups, toNumeral g = n := by
  by_cases hempty : (findGap addr.toGroups).1 = (findGap addr.toGroups).2
  · simpa [toText, hempty, numerals] using hn
  · have hor : (∃ g ∈ addr.toGroups.take (findGap addr.toGroups).1, toNumeral g = n) ∨
        ∃ g ∈ addr.toGroups.drop (findGap addr.toGroups).2, toNumeral g = n := by
      simpa only [toText, if_neg hempty, numerals, Option.getD_some, mem_append, mem_map] using hn
    obtain ⟨g, hg, rfl⟩ | ⟨g, hg, rfl⟩ := hor
    · exact ⟨g, mem_of_mem_take hg, rfl⟩
    · exact ⟨g, mem_of_mem_drop hg, rfl⟩

theorem proper_toText (hne : addr ≠ {}) : addr.toText.Proper where
  wellFormed n hn := by
    obtain ⟨g, -, rfl⟩ := mem_numerals_toText hn
    exact wellFormed_toNumeral g
  plain n hn := by
    obtain ⟨g, -, rfl⟩ := mem_numerals_toText hn
    exact plain_toNumeral g
  value n hn := by
    obtain ⟨g, hg, rfl⟩ := mem_numerals_toText hn
    exact (ofDigits_toDigits (by decide) (by decide) g).trans_le (toGroups_le g hg)
  full := by
    obtain hfind | ⟨start, stop, hfind, htwo, -⟩ := findGap_cases hne
    · simp [toText, hfind, length_toGroups]
    · simp [toText, hfind, show start ≠ stop by omega]
  gap := by
    obtain hfind | ⟨start, stop, hfind, htwo, hle, -⟩ := findGap_cases hne
    · simp [toText, hfind]
    · simp [toText, hfind, show start ≠ stop by omega, numerals, length_toGroups]
      omega

theorem denoted_toText (hne : addr ≠ {}) : addr.toText.denoted = addr := by
  have hgroups : addr.toText.groups (fun n => ofDigits 16 n.digits) = addr.toGroups := by
    obtain hfind | ⟨start, stop, hfind, htwo, hle, hrun, -⟩ := findGap_cases hne
    · simp only [toText, hfind, groups, if_true, map_toNumeral]
    · have hlt : start ≠ stop := by omega
      simp only [toText, hfind, if_neg hlt, groups, map_toNumeral, length_map,
        length_take, length_drop, length_toGroups]
      have hmissing : 8 - min start 8 - (8 - stop) = stop - start := by omega
      rw [hmissing]
      exact hrun.fill (by omega)
  rw [AddressText.denoted, hgroups, ofGroups_toGroups]

/-- The first of the longest runs of two zero groups or more is printed as two colons, if there
is one. -/
def Abbreviates (addr : IPv6Address) : Prop :=
  ∃ start stop, FirstLongest addr.toGroups 8 (start, stop) ∧
    addr.str = printGroups (addr.toGroups.take start) ++
      (if start = stop then [] else [':', ':']) ++ printGroups (addr.toGroups.drop stop)

/-- An address is read back as it has been printed, alone and with every prefix length. -/
structure PrintsAndReads (addr : IPv6Address) : Prop where
  abbreviates : Abbreviates addr
  tryParse : tryParse addr.str = some addr
  tryParseAddrWithPrefix : ∀ n ≤ 128,
    tryParseAddrWithPrefix (addr.str ++ '/' :: Nat.toDigits 10 n) = some (addr, (n : ℤ))

theorem abbreviates_of_ne (hne : addr ≠ {}) : Abbreviates addr := by
  refine ⟨(findGap addr.toGroups).1, (findGap addr.toGroups).2,
    findGap_spec (length_toGroups addr), ?_⟩
  have hunspec : ¬ addr.isUnspecified = true := fun h => hne (isUnspecified_iff.mp h)
  obtain hfind | ⟨start, stop, hfind, htwo, -, -, hall⟩ := findGap_cases hne
  · simp [str, hunspec, hfind]
  · simp [str, hunspec, hfind, hall]

theorem str_unspecified : str {} = unspec := rfl

/-- An address is read back as it has been printed. -/
theorem tryParse_str (addr : IPv6Address) : tryParse addr.str = some addr := by
  rw [tryParse_eq_some]
  by_cases hne : addr = {}
  · exact .inl ⟨hne ▸ str_unspecified, hne⟩
  · have hproper := proper_toText hne
    exact .inr ⟨addr.toText, hproper.fits, (str_eq_text hne).symm,
      hproper.address_eq.trans (denoted_toText hne)⟩

/-- It is read back with a prefix length, too, unless it has been printed by its name. -/
theorem tryParseAddrWithPrefix_str (addr : IPv6Address) {n : ℕ} (hn : n ≤ 128) :
    tryParseAddrWithPrefix (addr.str ++ '/' :: Nat.toDigits 10 n) =
      if addr = {} then none else some (addr, (n : ℤ)) := by
  have hnumber := strtoul_toDigits (n := n) (show 1 < 10 by decide) (by decide)
    (hn.trans (by decide)) ends_nil
  rw [append_nil] at hnumber
  by_cases hne : addr = {}
  · rw [if_pos hne, hne, str_unspecified, tryParseAddrWithPrefix]
    have hunspec : unspec ++ '/' :: Nat.toDigits 10 n ≠ unspec := by simp
    have hread : parseGroups (unspec ++ '/' :: Nat.toDigits 10 n) =
        ([], unspec ++ '/' :: Nat.toDigits 10 n) :=
      parseGroupsLoop_none
        (strtoul_eq_none_of_head (by decide) (by decide) (by decide) (by decide))
    have htry : doTryParse (unspec ++ '/' :: Nat.toDigits 10 n) = none := by
      rw [doTryParse, if_neg hunspec, hread]
      rfl
    rw [htry]
  · have hproper := proper_toText hne
    have hread := doTryParse_text hproper.fits (.inr ⟨Nat.toDigits 10 n, rfl⟩)
    rw [← str_eq_text hne, hproper.address_eq, denoted_toText hne] at hread
    have hprefix : toInt n = n := toInt_of (by omega)
    rw [if_neg hne, tryParseAddrWithPrefix, hread]
    simp only [head?_cons, tail_cons, hnumber, hprefix, ne_eq, not_true_eq_false, if_false]
    exact if_neg (by omega)

/-- Every address but the unspecified one is read back as it has been printed. Without a prefix
length, every address is. -/
theorem printsAndReads_iff (addr : IPv6Address) :
    (PrintsAndReads addr ↔ addr ≠ {}) ∧ tryParse addr.str = some addr := by
  refine ⟨⟨fun h hne => ?_, fun hne => ?_⟩, tryParse_str addr⟩
  · have hread := h.tryParseAddrWithPrefix 64 (by decide)
    rw [tryParseAddrWithPrefix_str addr (by decide), if_pos hne] at hread
    cases hread
  · refine ⟨abbreviates_of_ne hne, tryParse_str addr, fun n hn => ?_⟩
    rw [tryParseAddrWithPrefix_str addr hn, if_neg hne]

/-- `"<unspec>/0"` is not read. -/
theorem not_printsAndReads_unspecified : ¬ PrintsAndReads {} := by
  intro h
  have hread := h.tryParseAddrWithPrefix 0 (by decide)
  rw [tryParseAddrWithPrefix_str {} (by decide)] at hread
  cases hread

end Inet.Ipv6.IPv6Address
