import Inet.Common.Strtoul
import Inet.Ipv6.IPv6Address

/-!
# IPv6 addresses as text

`tryParse` reads groups of hexadecimal digits with colons in between, of which there are eight, or
fewer and two colons in a row. The groups are read by `strtoul`, so they may have blanks, a sign
or a prefix in front of the digits, and two colons may stand for no group at all:
`tryParse_eq_some` says what is accepted, and `parsesAddress_iff` when that is an address.

A C string is the list of its characters without the terminating zero.
-/

namespace Inet.Ipv6.IPv6Address

open Numerals
open Numeral (value)
open List

/-- `"<unspec>"`. -/
def unspec : List Char := ['<', 'u', 'n', 's', 'p', 'e', 'c', '>']

/-- The loop of `parseGroups`, with room for `n` more groups. -/
def parseGroupsLoop : ℕ → List ℕ → List Char → List ℕ × List Char
  | 0, groups, s => (groups, s)
  | n + 1, groups, s =>
    match strtoul 16 s with
    | none => (groups, if groups ≠ [] then ':' :: s else s) -- "unskip" preceding ':'
    | some (grp, e) =>
      if grp > 0xffff then (groups, s)
      else if e.head? ≠ some ':' ∨ n = 0 then (groups ++ [grp], e)
      else parseGroupsLoop n (groups ++ [grp]) e.tail

/-- At most eight groups, and the text behind them. -/
def parseGroups (s : List Char) : List ℕ × List Char := parseGroupsLoop 8 [] s

/-- A word of an address. -/
def ofTwoGroups (high low : ℕ) : Uint32 := BitVec.ofNat 32 high <<< 16 + BitVec.ofNat 32 low

def ofGroups : List ℕ → IPv6Address
  | [g0, g1, g2, g3, g4, g5, g6, g7] =>
    ⟨ofTwoGroups g0 g1, ofTwoGroups g2 g3, ofTwoGroups g4 g5, ofTwoGroups g6 g7⟩
  | _ => {}

/-- The address, and the text behind it. -/
def doTryParse (addr : List Char) : Option (IPv6Address × List Char) :=
  if addr = unspec then some ({}, addr.drop 8)
  else
    let (groups, addr) := parseGroups addr
    if addr.take 2 = [':', ':'] then
      let (suffixGroups, addr) := parseGroups (addr.drop 2)
      if groups.length + suffixGroups.length > 8 then none -- too many
      else
        let zeros := List.replicate (8 - groups.length - suffixGroups.length) 0
        some (ofGroups (groups ++ zeros ++ suffixGroups), addr)
    else if groups.length ≠ 8 then none -- too few
    else some (ofGroups groups, addr)

def tryParse (addr : List Char) : Option IPv6Address :=
  match doTryParse addr with
  | none => none
  | some (a, addr) => if addr ≠ [] then none else some a -- illegal trailing character

def tryParseAddrWithPrefix (addr : List Char) : Option (IPv6Address × ℤ) :=
  match doTryParse addr with
  | none => none
  | some (a, addr) =>
    if addr.head? ≠ some '/' then none
    else
      match strtoul 10 addr.tail with
      | none => none -- no number after '/'
      | some (n, e) =>
        if e ≠ [] then none -- garbage after number
        else
          let prefixLen := toInt n
          if prefixLen < 0 ∨ prefixLen > 128 then none -- wrong len value
          else some (a, prefixLen)

/-- Groups with colons in between. -/
def groupsText (ns : List Numeral) : List Char := List.intercalate [':'] (ns.map Numeral.text)

/-- The text of an address: groups, and groups behind two colons if there are any. -/
structure AddressText where
  before : List Numeral
  behind : Option (List Numeral) := none

namespace AddressText

def gapText (t : AddressText) : List Char :=
  match t.behind with
  | none => []
  | some ns => ':' :: ':' :: groupsText ns

def text (t : AddressText) : List Char := groupsText t.before ++ t.gapText

def numerals (t : AddressText) : List Numeral := t.before ++ t.behind.getD []

/-- The two colons stand for the groups that are missing. -/
def groups (value : Numeral → ℕ) (t : AddressText) : List ℕ :=
  match t.behind with
  | none => t.before.map value
  | some ns =>
    t.before.map value ++ List.replicate (8 - t.before.length - ns.length) 0 ++ ns.map value

/-- The address that `strtoul` makes of the groups. -/
def address (t : AddressText) : IPv6Address := ofGroups (t.groups (Numeral.value 16))

/-- The address that the digits stand for. -/
def denoted (t : AddressText) : IPv6Address := ofGroups (t.groups fun n => ofDigits 16 n.digits)

/-- The text has eight groups of 16 bits, or at most eight and two colons. -/
structure Fits (t : AddressText) : Prop where
  wellFormed : ∀ n ∈ t.numerals, n.WellFormed 16
  value : ∀ n ∈ t.numerals, n.value 16 ≤ 0xffff
  full : t.behind = none → t.before.length = 8
  gap : t.behind ≠ none → t.numerals.length ≤ 8

/-- The textual form of an IPv6 address: the groups have nothing but digits, and the two colons
stand for at least one group. -/
structure Proper (t : AddressText) : Prop where
  wellFormed : ∀ n ∈ t.numerals, n.WellFormed 16
  plain : ∀ n ∈ t.numerals, n.Plain
  value : ∀ n ∈ t.numerals, ofDigits 16 n.digits ≤ 0xffff
  full : t.behind = none → t.before.length = 8
  gap : t.behind ≠ none → t.numerals.length ≤ 7

end AddressText

section

variable {n : ℕ} {groups : List ℕ} {ns : List Numeral} {s rest : List Char}

/-- What may follow the groups. -/
inductive Closes : List Char → Prop where
  | nil : Closes []
  | slash (s : List Char) : Closes ('/' :: s)
  | gap (s : List Char) : Closes (':' :: ':' :: s)

theorem Closes.ends (h : Closes rest) : Ends 36 rest := by
  cases h with
  | nil => exact ends_nil
  | slash s => exact ends_cons.mpr rfl
  | gap s => exact ends_cons.mpr rfl

theorem strtoul_colon (s : List Char) : strtoul 16 (':' :: s) = none :=
  strtoul_eq_none_of_head (by decide) (by decide) (by decide) (by decide)

theorem Closes.strtoul_eq_none (h : Closes rest) : strtoul 16 rest = none := by
  cases h with
  | nil => exact strtoul_nil
  | slash s => exact strtoul_eq_none_of_head (by decide) (by decide) (by decide) (by decide)
  | gap s => exact strtoul_colon _

theorem parseGroupsLoop_none (h : strtoul 16 s = none) :
    parseGroupsLoop (n + 1) groups s = (groups, if groups ≠ [] then ':' :: s else s) := by
  rw [parseGroupsLoop, h]

theorem parseGroupsLoop_some {grp : ℕ} {e : List Char} (h : strtoul 16 s = some (grp, e))
    (hgrp : grp ≤ 0xffff) :
    parseGroupsLoop (n + 1) groups s = if e.head? ≠ some ':' ∨ n = 0 then (groups ++ [grp], e)
      else parseGroupsLoop n (groups ++ [grp]) e.tail := by
  rw [parseGroupsLoop, h]
  exact if_neg (Nat.not_lt.mpr hgrp)

/-- The loop reads groups up to what closes them. -/
theorem parseGroupsLoop_text (hne : ns ≠ []) (hroom : ns.length ≤ n)
    (hwf : ∀ m ∈ ns, m.WellFormed 16) (hvalue : ∀ m ∈ ns, m.value 16 ≤ 0xffff)
    (hrest : Closes rest) :
    parseGroupsLoop n groups (groupsText ns ++ rest) = (groups ++ ns.map (value 16), rest) := by
  induction ns generalizing n groups with
  | nil => exact absurd rfl hne
  | cons m ns ih =>
    obtain ⟨hm, hns⟩ := forall_mem_cons.mp hwf
    obtain ⟨hmv, hnsv⟩ := forall_mem_cons.mp hvalue
    obtain ⟨n, rfl⟩ : ∃ k, n = k + 1 := ⟨n - 1, by rw [length_cons] at hroom; omega⟩
    rw [length_cons] at hroom
    cases ns with
    | nil =>
      have hread := strtoul_text m (by decide) hm hrest.ends
      rw [groupsText, map_singleton, intercalate_singleton,
        parseGroupsLoop_some hread hmv, map_singleton]
      cases hrest with
      | nil => exact if_pos (.inl (by simp))
      | slash s => exact if_pos (.inl (by simp))
      | gap s =>
        -- the first colon is skipped, and no group follows it
        by_cases hn : n = 0
        · exact if_pos (.inr hn)
        · obtain ⟨k, rfl⟩ := Nat.exists_eq_succ_of_ne_zero hn
          rw [if_neg (by simp), tail_cons, parseGroupsLoop_none (strtoul_colon s), if_pos (by simp)]
    | cons m' ns =>
      rw [length_cons] at hroom
      have htext : groupsText (m :: m' :: ns) ++ rest =
          m.text ++ (':' :: (groupsText (m' :: ns) ++ rest)) := by
        simp [groupsText]
      have hends : Ends 36 (':' :: (groupsText (m' :: ns) ++ rest)) := ends_cons.mpr rfl
      have hread := strtoul_text m (by decide) hm hends
      rw [htext, parseGroupsLoop_some hread hmv, if_neg (by simp; omega), tail_cons,
        ih (cons_ne_nil _ _) (by rw [length_cons]; omega) hns hnsv]
      simp

theorem parseGroups_text (hroom : ns.length ≤ 8) (hwf : ∀ m ∈ ns, m.WellFormed 16)
    (hvalue : ∀ m ∈ ns, m.value 16 ≤ 0xffff) (hrest : Closes rest) :
    parseGroups (groupsText ns ++ rest) = (ns.map (value 16), rest) := by
  by_cases hne : ns = []
  · subst hne
    exact parseGroupsLoop_none hrest.strtoul_eq_none
  · exact parseGroupsLoop_text hne hroom hwf hvalue hrest

theorem groupsText_cons (m : Numeral) (hne : ns ≠ []) :
    groupsText (m :: ns) = m.text ++ (':' :: groupsText ns) := by
  rw [groupsText, map_cons, intercalate_cons_of_ne_nil (by simpa using hne),
    append_assoc, singleton_append, groupsText]

theorem groupsText_singleton (m : Numeral) : groupsText [m] = m.text := by
  rw [groupsText, map_singleton, intercalate_singleton]

theorem mem_groupsText_iff {c : Char} (hc : c ≠ ':') :
    c ∈ groupsText ns ↔ ∃ m ∈ ns, c ∈ m.text := by
  induction ns with
  | nil => simp [groupsText]
  | cons m ns ih =>
    by_cases hne : ns = []
    · subst hne
      rw [groupsText_singleton]
      simp
    · rw [groupsText_cons m hne, mem_append, mem_cons, ih]
      simp [hc]

/-- What the loop has read of a text, and what it has left. -/
structure Read (n : ℕ) (groups : List ℕ) (s : List Char) (ns : List Numeral)
    (result : List ℕ × List Char) : Prop where
  result_eq : result.1 = groups ++ ns.map (Numeral.value 16)
  length_le : ns.length ≤ n
  wellFormed : ∀ m ∈ ns, m.WellFormed 16
  value : ∀ m ∈ ns, m.value 16 ≤ 0xffff
  /-- It has stopped at a number that is too large, or what it has left follows the groups. -/
  text : (strtoul 16 result.2).isSome ∧ ns.length < n ∨
    if ns = [] ∧ groups ≠ [] then result.2 = ':' :: s else s = groupsText ns ++ result.2

theorem parseGroupsLoop_sound (n : ℕ) (hn : 0 < n) (groups : List ℕ) (s : List Char) :
    ∃ ns, Read n groups s ns (parseGroupsLoop n groups s) := by
  induction n generalizing groups s with
  | zero => omega
  | succ n ih =>
    cases hread : strtoul 16 s with
    | none =>
      rw [parseGroupsLoop_none hread]
      refine ⟨[], by simp, by simp, by simp, by simp, .inr ?_⟩
      by_cases hgroups : groups = [] <;> simp [hgroups, groupsText]
    | some result =>
      obtain ⟨grp, e⟩ := result
      by_cases hbig : grp > 0xffff
      · have hstop : parseGroupsLoop (n + 1) groups s = (groups, s) := by
          rw [parseGroupsLoop, hread]
          exact if_pos hbig
        rw [hstop]
        exact ⟨[], by simp, by simp, by simp, by simp, .inl ⟨by simp [hread], by simp⟩⟩
      obtain ⟨m, hm, rfl, rfl⟩ := strtoul_sound hread
      rw [parseGroupsLoop_some hread (Nat.not_lt.mp hbig)]
      split_ifs with hlast
      · refine ⟨[m], by simp, by simp, by simpa using hm, by simpa using hbig, .inr ?_⟩
        simp [groupsText]
      · obtain ⟨hcolon, hroom⟩ := not_or.mp hlast
        obtain ⟨t, rfl⟩ : ∃ t, e = ':' :: t := head?_eq_some_iff.mp (not_not.mp hcolon)
        obtain ⟨ns, hgroups, hlength, hwf, hvalue, htext⟩ :=
          ih (Nat.pos_of_ne_zero hroom) (groups ++ [m.value 16]) t
        rw [tail_cons]
        refine ⟨m :: ns, by rw [hgroups]; simp, by rw [length_cons]; omega,
          forall_mem_cons.mpr ⟨hm, hwf⟩,
          forall_mem_cons.mpr ⟨Nat.not_lt.mp hbig, hvalue⟩, ?_⟩
        obtain ⟨hbig', hlt⟩ | htext := htext
        · exact .inl ⟨hbig', by rw [length_cons]; omega⟩
        · refine .inr ?_
          rw [if_neg (by simp)]
          by_cases hns : ns = []
          · subst hns
            rw [if_pos (by simp)] at htext
            rw [htext]
            simp [groupsText]
          · rw [if_neg (by simp [hns])] at htext
            rw [groupsText_cons m hns, append_assoc, cons_append, ← htext]

theorem parseGroups_sound (s : List Char) : ∃ ns, Read 8 [] s ns (parseGroups s) :=
  parseGroupsLoop_sound 8 (by decide) [] s

/-- What follows the groups of a text, if no number is too large. -/
theorem Read.text_eq {result : List ℕ × List Char} (h : Read n [] s ns result)
    (hnone : strtoul 16 result.2 = none) : s = groupsText ns ++ result.2 := by
  obtain ⟨hbig, -⟩ | htext := h.text
  · rw [hnone] at hbig
    cases hbig
  · simpa using htext

end

variable {t : AddressText} {rest : List Char} {s : List Char} {a : IPv6Address}

theorem parseGroups_unspec : parseGroups unspec = ([], unspec) :=
  parseGroupsLoop_none (strtoul_eq_none_of_head (by decide) (by decide) (by decide) (by decide))

namespace AddressText

variable {ns : List Numeral}

theorem gapText_none (h : t.behind = none) : t.gapText = [] := by
  rw [gapText, h]

theorem gapText_some (h : t.behind = some ns) : t.gapText = ':' :: ':' :: groupsText ns := by
  rw [gapText, h]

theorem numerals_some (h : t.behind = some ns) : t.numerals = t.before ++ ns := by
  rw [numerals, h, Option.getD_some]

/-- The first groups are read. -/
theorem Fits.parseGroups_text (ht : t.Fits) (hrest : rest = [] ∨ ∃ u, rest = '/' :: u) :
    parseGroups (t.text ++ rest) = (t.before.map (Numeral.value 16), t.gapText ++ rest) := by
  have hroom : t.before.length ≤ 8 := by
    cases hbehind : t.behind with
    | none => exact (ht.full hbehind).le
    | some ns =>
      have hlength := ht.gap (by simp [hbehind])
      rw [numerals_some hbehind, length_append] at hlength
      omega
  have hcloses : Closes (t.gapText ++ rest) := by
    cases hbehind : t.behind with
    | none =>
      rw [gapText_none hbehind, nil_append]
      obtain rfl | ⟨u, rfl⟩ := hrest
      · exact .nil
      · exact .slash u
    | some ns =>
      rw [gapText_some hbehind]
      exact .gap _
  rw [text, append_assoc]
  exact IPv6Address.parseGroups_text hroom
    (fun m hm => ht.wellFormed m (mem_append_left _ hm))
    (fun m hm => ht.value m (mem_append_left _ hm)) hcloses

/-- The groups behind the two colons are read. -/
theorem Fits.parseGroups_behind (ht : t.Fits) (hbehind : t.behind = some ns)
    (hrest : rest = [] ∨ ∃ u, rest = '/' :: u) :
    parseGroups (groupsText ns ++ rest) = (ns.map (Numeral.value 16), rest) := by
  have hnumerals := numerals_some hbehind
  have hlength := ht.gap (by simp [hbehind])
  rw [hnumerals, length_append] at hlength
  have hcloses : Closes rest := by
    obtain rfl | ⟨u, rfl⟩ := hrest
    · exact .nil
    · exact .slash u
  exact IPv6Address.parseGroups_text (by omega)
    (fun m hm => ht.wellFormed m (hnumerals ▸ mem_append_right _ hm))
    (fun m hm => ht.value m (hnumerals ▸ mem_append_right _ hm)) hcloses

theorem Fits.text_ne_unspec (ht : t.Fits) (hrest : rest = [] ∨ ∃ u, rest = '/' :: u) :
    t.text ++ rest ≠ unspec := by
  intro heq
  have hread := ht.parseGroups_text hrest
  rw [heq, parseGroups_unspec] at hread
  obtain ⟨hbefore, hgap⟩ := Prod.mk.inj hread
  cases hbehind : t.behind with
  | none =>
    have hlength := ht.full hbehind
    rw [map_eq_nil_iff.mp hbefore.symm] at hlength
    cases hlength
  | some ns =>
    rw [gapText_some hbehind] at hgap
    cases hgap

/-- A text has one number of groups before and behind the two colons. -/
theorem Fits.length_eq {t' : AddressText} (ht : t.Fits) (ht' : t'.Fits)
    (htext : t.text = t'.text) : t.before.length = t'.before.length ∧
      t.behind.map List.length = t'.behind.map List.length := by
  have hread := ht.parseGroups_text (.inl rfl)
  rw [htext, ht'.parseGroups_text (.inl rfl), append_nil, append_nil] at hread
  obtain ⟨hbefore, hgap⟩ := Prod.mk.inj hread
  have hlength := congrArg List.length hbefore
  rw [length_map, length_map] at hlength
  refine ⟨hlength.symm, ?_⟩
  cases hbehind : t.behind with
  | none =>
    cases hbehind' : t'.behind with
    | none => rfl
    | some ns' =>
      rw [gapText_none hbehind, gapText_some hbehind'] at hgap
      cases hgap
  | some ns =>
    cases hbehind' : t'.behind with
    | none =>
      rw [gapText_none hbehind', gapText_some hbehind] at hgap
      cases hgap
    | some ns' =>
      rw [gapText_some hbehind, gapText_some hbehind', cons_inj_right, cons_inj_right] at hgap
      have hread' := ht.parseGroups_behind hbehind (.inl rfl)
      rw [← hgap, ht'.parseGroups_behind hbehind' (.inl rfl)] at hread'
      have hlength' := congrArg List.length (Prod.mk.inj hread').1
      rw [length_map, length_map] at hlength'
      exact congrArg some hlength'.symm

end AddressText

/-- A text that has been written is read, up to what follows it. -/
theorem doTryParse_text (ht : t.Fits) (hrest : rest = [] ∨ ∃ u, rest = '/' :: u) :
    doTryParse (t.text ++ rest) = some (t.address, rest) := by
  rw [doTryParse, if_neg (ht.text_ne_unspec hrest), ht.parseGroups_text hrest]
  cases hbehind : t.behind with
  | none =>
    have htake : rest.take 2 ≠ [':', ':'] := by
      obtain rfl | ⟨u, rfl⟩ := hrest <;> simp
    simp only [AddressText.gapText_none hbehind, nil_append, if_neg htake, length_map,
      ht.full hbehind, ne_eq, not_true_eq_false, if_false, AddressText.address,
      AddressText.groups, hbehind]
  | some ns =>
    have hlength := ht.gap (by simp [hbehind])
    rw [AddressText.numerals_some hbehind, length_append] at hlength
    simp only [AddressText.gapText_some hbehind, cons_append, take_succ_cons,
      take_zero, if_true, drop_succ_cons, drop_zero,
      ht.parseGroups_behind hbehind hrest, length_map, if_neg (Nat.not_lt.mpr hlength),
      AddressText.address, AddressText.groups, hbehind]

/-- A text that is read is one that can be written. -/
theorem exists_of_doTryParse (hunspec : s ≠ unspec) (h : doTryParse s = some (a, [])) :
    ∃ t : AddressText, t.Fits ∧ t.text = s ∧ t.address = a := by
  obtain ⟨ns, hread⟩ := parseGroups_sound s
  rw [doTryParse, if_neg hunspec] at h
  by_cases hgap : (parseGroups s).2.take 2 = [':', ':']
  · obtain ⟨u, hu⟩ : ∃ u, (parseGroups s).2 = ':' :: ':' :: u := by
      have hsplit := take_append_drop 2 (parseGroups s).2
      rw [hgap] at hsplit
      exact ⟨_, hsplit.symm⟩
    obtain ⟨ns', hread'⟩ := parseGroups_sound u
    simp only [hu, take_succ_cons, take_zero, if_true, drop_succ_cons, drop_zero] at h
    by_cases hmany : (parseGroups s).1.length + (parseGroups u).1.length > 8
    · rw [if_pos hmany] at h
      cases h
    rw [if_neg hmany] at h
    obtain ⟨ha, hend⟩ := Prod.mk.inj (Option.some.inj h)
    have hs := hread.text_eq (hu ▸ strtoul_colon _)
    have hu' := hread'.text_eq (hend ▸ strtoul_nil)
    rw [hend, append_nil] at hu'
    have hgroups := hread.result_eq
    have hgroups' := hread'.result_eq
    rw [nil_append] at hgroups hgroups'
    rw [hgroups, hgroups', length_map, length_map] at hmany ha
    refine ⟨⟨ns, some ns'⟩, ⟨?_, ?_, by simp, fun _ => ?_⟩, ?_, ha⟩
    · exact forall_mem_append.mpr ⟨hread.wellFormed, hread'.wellFormed⟩
    · exact forall_mem_append.mpr ⟨hread.value, hread'.value⟩
    · rw [AddressText.numerals, Option.getD_some, length_append]
      exact Nat.not_lt.mp hmany
    · rw [hs, hu, hu']
      rfl
  · simp only [if_neg hgap] at h
    by_cases hfew : (parseGroups s).1.length ≠ 8
    · rw [if_pos hfew] at h
      cases h
    rw [if_neg hfew] at h
    obtain ⟨ha, hend⟩ := Prod.mk.inj (Option.some.inj h)
    have hs := hread.text_eq (hend ▸ strtoul_nil)
    rw [hend, append_nil] at hs
    have hgroups := hread.result_eq
    rw [nil_append] at hgroups
    rw [hgroups, length_map] at hfew
    rw [hgroups] at ha
    refine ⟨⟨ns, none⟩, ⟨?_, ?_, fun _ => not_not.mp hfew, by simp⟩, ?_, ha⟩
    · simpa [AddressText.numerals] using hread.wellFormed
    · simpa [AddressText.numerals] using hread.value
    · rw [AddressText.text, AddressText.gapText, hs, append_nil]

/-- What `tryParse` accepts. -/
theorem tryParse_eq_some : tryParse s = some a ↔
    s = unspec ∧ a = {} ∨ ∃ t : AddressText, t.Fits ∧ t.text = s ∧ t.address = a := by
  have hresult : tryParse s = some a ↔ doTryParse s = some (a, []) := by
    rw [tryParse]
    cases hread : doTryParse s with
    | none => simp
    | some result =>
      obtain ⟨a', rest⟩ := result
      by_cases hrest : rest = []
      · simp [hrest]
      · simp [hrest]
  rw [hresult]
  constructor
  · intro h
    by_cases hunspec : s = unspec
    · subst hunspec
      rw [doTryParse, if_pos rfl] at h
      exact .inl ⟨rfl, (Prod.mk.inj (Option.some.inj h)).1.symm⟩
    · exact .inr (exists_of_doTryParse hunspec h)
  · rintro (⟨rfl, rfl⟩ | ⟨t, ht, rfl, rfl⟩)
    · rfl
    · have hread := doTryParse_text ht (.inl rfl)
      rwa [append_nil] at hread

namespace AddressText

theorem value_of_plain {n : Numeral} (hn : n.Plain)
    (hvalue : n.value 16 ≤ 0xffff ∨ ofDigits 16 n.digits ≤ 0xffff) :
    n.value 16 = ofDigits 16 n.digits := by
  have hsign : n.sign ≠ .minus := by simp [hn.sign]
  simp only [value, if_neg hsign, ULONG_MAX] at hvalue ⊢
  split_ifs at hvalue ⊢ <;> omega

theorem address_eq_denoted (hvalue : ∀ n ∈ t.numerals, n.value 16 = ofDigits 16 n.digits) :
    t.address = t.denoted := by
  rw [address, denoted, groups, groups]
  cases hbehind : t.behind with
  | none =>
    have hbefore : t.before.map (value 16) = t.before.map fun n => ofDigits 16 n.digits :=
      map_congr_left fun n hn => hvalue n (mem_append_left _ hn)
    rw [hbefore]
  | some ns =>
    rw [numerals_some hbehind] at hvalue
    have hbefore : t.before.map (value 16) = t.before.map fun n => ofDigits 16 n.digits :=
      map_congr_left fun n hn => hvalue n (mem_append_left _ hn)
    have hns : ns.map (value 16) = ns.map fun n => ofDigits 16 n.digits :=
      map_congr_left fun n hn => hvalue n (mem_append_right _ hn)
    simp only [hbefore, hns]

theorem Proper.value_eq (ht : t.Proper) {n : Numeral} (hn : n ∈ t.numerals) :
    n.value 16 = ofDigits 16 n.digits :=
  value_of_plain (ht.plain n hn) (.inr (ht.value n hn))

theorem Proper.fits (ht : t.Proper) : t.Fits where
  wellFormed := ht.wellFormed
  value n hn := (ht.value_eq hn).trans_le (ht.value n hn)
  full := ht.full
  gap h := (ht.gap h).trans (by decide)

theorem Proper.address_eq (ht : t.Proper) : t.address = t.denoted :=
  address_eq_denoted fun _ hn => ht.value_eq hn

/-- A character of the text is one of a group, or a colon. -/
theorem mem_text_iff {c : Char} (hc : c ≠ ':') : c ∈ t.text ↔ ∃ n ∈ t.numerals, c ∈ n.text := by
  rw [text, mem_append, mem_groupsText_iff hc]
  cases hbehind : t.behind with
  | none =>
    rw [gapText_none hbehind, numerals, hbehind, Option.getD_none, append_nil]
    simp
  | some ns =>
    rw [gapText_some hbehind, numerals_some hbehind, mem_cons, mem_cons, mem_groupsText_iff hc]
    simp [hc, or_and_right, exists_or]

/-- The text has nothing but digits and colons. -/
theorem Proper.isDigit_of_mem (ht : t.Proper) {c : Char} (hc : c ≠ ':') (hmem : c ∈ t.text) :
    isDigit 16 c = true := by
  obtain ⟨n, hn, hcn⟩ := (mem_text_iff hc).mp hmem
  exact (ht.wellFormed n hn).digits c ((ht.plain n hn).text_eq ▸ hcn)

end AddressText

/-- A text is accepted just if it is that of an address, and gives what it stands for. -/
def ParsesExactly (s : List Char) : Prop :=
  ∀ a, tryParse s = some a ↔
    s = unspec ∧ a = {} ∨ ∃ t : AddressText, t.Proper ∧ t.text = s ∧ t.denoted = a

/-- A group has a blank, a sign or a prefix, or the two colons stand for no group. -/
def Tolerated (s : List Char) : Prop :=
  ∃ t : AddressText, t.Fits ∧ t.text = s ∧
    ((∃ n ∈ t.numerals, ¬ n.Plain) ∨ t.behind ≠ none ∧ t.numerals.length = 8)

theorem not_parsesExactly_of_tolerated (h : Tolerated s) : ¬ ParsesExactly s := by
  obtain ⟨t, ht, rfl, htolerated⟩ := h
  intro hexact
  obtain ⟨hunspec, -⟩ | ⟨t', ht', htext, -⟩ :=
    (hexact t.address).mp (tryParse_eq_some.mpr (.inr ⟨t, ht, rfl, rfl⟩))
  · exact ht.text_ne_unspec (.inl rfl) ((append_nil _).trans hunspec)
  obtain ⟨n, hn, hplain⟩ | ⟨hgap, hlength⟩ := htolerated
  · -- the text has a character that no address has
    obtain ⟨c, hc, hcolon, hdigit⟩ := (ht.wellFormed n hn).exists_of_not_plain hplain
    have hmem := (AddressText.mem_text_iff hcolon).mpr ⟨n, hn, hc⟩
    rw [ht'.isDigit_of_mem hcolon (htext ▸ hmem)] at hdigit
    cases hdigit
  · obtain ⟨hbefore, hbehind⟩ := ht.length_eq ht'.fits htext.symm
    obtain ⟨ns, hns⟩ := Option.ne_none_iff_exists'.mp hgap
    rw [hns, Option.map_some] at hbehind
    obtain ⟨ns', hns', hlength'⟩ := Option.map_eq_some_iff.mp hbehind.symm
    have hmost := ht'.gap (by simp [hns'])
    rw [AddressText.numerals_some hns, length_append] at hlength
    rw [AddressText.numerals_some hns', length_append] at hmost
    omega

/-- What is accepted is the text of an address, unless it is one that is only tolerated. -/
theorem parsesAddress_iff (s : List Char) : ParsesExactly s ↔ ¬ Tolerated s := by
  constructor
  · exact fun hexact htolerated => not_parsesExactly_of_tolerated htolerated hexact
  · intro htolerated a
    rw [tryParse_eq_some]
    refine or_congr_right ⟨?_, ?_⟩
    · rintro ⟨t, ht, htext, rfl⟩
      have hplain : ∀ n ∈ t.numerals, n.Plain := fun n hn => by
        by_contra hnot
        exact htolerated ⟨t, ht, htext, .inl ⟨n, hn, hnot⟩⟩
      have hvalue : ∀ n ∈ t.numerals, n.value 16 = ofDigits 16 n.digits := fun n hn =>
        AddressText.value_of_plain (hplain n hn) (.inl (ht.value n hn))
      refine ⟨t, ⟨ht.wellFormed, hplain, ?_, ht.full, ?_⟩, htext,
        (AddressText.address_eq_denoted hvalue).symm⟩
      · exact fun n hn => hvalue n hn ▸ ht.value n hn
      · intro hgap
        have hmost := ht.gap hgap
        have hne : t.numerals.length ≠ 8 := fun hlength =>
          htolerated ⟨t, ht, htext, .inr ⟨hgap, hlength⟩⟩
        omega
    · rintro ⟨t, ht, htext, rfl⟩
      exact ⟨t, ht.fits, htext, ht.address_eq⟩

/-- `"1:2:3:4:5:6:7:8::"` is accepted. -/
theorem not_parsesAddress_of_eight :
    ¬ ParsesExactly ['1', ':', '2', ':', '3', ':', '4', ':', '5', ':', '6', ':', '7', ':', '8',
      ':', ':'] := by
  refine not_parsesExactly_of_tolerated
    ⟨⟨['1', '2', '3', '4', '5', '6', '7', '8'].map fun c => { digits := [c] }, some []⟩, ?_,
      rfl, .inr ⟨by simp, rfl⟩⟩
  refine ⟨?_, by decide, by simp, by simp [AddressText.numerals]⟩
  refine List.forall_mem_append.mpr ⟨List.forall_mem_map.mpr fun c hc => ?_, by simp⟩
  refine ⟨by simp, by simp, by simp, List.forall_mem_singleton.mpr ?_⟩
  have hdigits : ['1', '2', '3', '4', '5', '6', '7', '8'].all (isDigit 16) = true := by decide
  exact List.all_eq_true.mp hdigits c hc

end Inet.Ipv6.IPv6Address
