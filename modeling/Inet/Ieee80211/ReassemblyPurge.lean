import Inet.Ieee80211.BasicReassembly

/-!
# Purging incomplete frames

`purge` drops the fragments of a station and TID whose sequence numbers lie between two numbers.
If the interval wraps around, the code erases up to the end of the whole map and starts again at
its beginning, without looking at addresses and TIDs, and the iterator that it stops at may have
been erased by then. `purgesExactly_iff` says when that does no harm.
-/

namespace Inet.Ieee80211.BasicReassembly

open KeyedList (exists_of_firstWith lowerBound upperBound)

variable {r : BasicReassembly} {address : ℕ} {tid : ℤ} {startSeqNumber endSeqNumber : ℕ}

/-- The sequence number lies in the circular interval. -/
def InInterval (startSeqNumber endSeqNumber seqNum : ℕ) : Prop :=
  if startSeqNumber ≤ endSeqNumber then startSeqNumber ≤ seqNum ∧ seqNum ≤ endSeqNumber
  else startSeqNumber ≤ seqNum ∨ seqNum ≤ endSeqNumber

/-- The entries that are to be removed. -/
def Purged (address : ℕ) (tid : ℤ) (startSeqNumber endSeqNumber : ℕ) (k : Key) : Prop :=
  ∃ seqNum, k = key address tid seqNum ∧ InInterval startSeqNumber endSeqNumber seqNum

section

variable {seqNum seqNum' : ℕ} {k : Key} {a a' : ℕ} {t t' : ℤ}

theorem exists_key (k : Key) : ∃ macAddress tid seqNum, k = key macAddress tid seqNum :=
  ⟨(ofLex k).1, (ofLex (ofLex k).2).1, (ofLex (ofLex k).2).2, rfl⟩

theorem key_le_iff : key a t seqNum ≤ key a' t' seqNum' ↔
    a < a' ∨ a = a' ∧ (t < t' ∨ t = t' ∧ seqNum ≤ seqNum') := by
  simp only [key, Prod.Lex.toLex_le_toLex]

theorem key_lt_iff : key a t seqNum < key a' t' seqNum' ↔
    a < a' ∨ a = a' ∧ (t < t' ∨ t = t' ∧ seqNum < seqNum') := by
  simp only [key, Prod.Lex.toLex_lt_toLex]

/-- Keys of one address and TID are ordered by the sequence numbers. -/
theorem key_lt_key_iff : key address tid seqNum < key address tid seqNum' ↔ seqNum < seqNum' := by
  rw [key_lt_iff]
  omega

theorem key_inj : key a t seqNum = key a' t' seqNum' ↔ a = a' ∧ t = t' ∧ seqNum = seqNum' := by
  simp [key]

/-- Between two keys of one address and TID there are only such keys. -/
theorem exists_key_of_between (hle : key address tid seqNum ≤ k)
    (hge : k ≤ key address tid seqNum') : ∃ n, k = key address tid n := by
  obtain ⟨a, t, n, rfl⟩ := exists_key k
  rw [key_le_iff] at hle hge
  exact ⟨n, key_inj.mpr ⟨by omega, by omega, rfl⟩⟩

variable {it itEnd : Option Key} {x : Value}

/-- The entry is one that an iterator points to on its way. -/
def Between (it itEnd : Option Key) (k : Key) : Prop := (∃ a ∈ it, a ≤ k) ∧ ∀ b ∈ itEnd, k < b

theorem mem_erase {k : Key} : x ∈ (r.erase k).fragmentsMap ↔ x ∈ r.fragmentsMap ∧ x.key ≠ k :=
  KeyedList.mem_erase

theorem mem_keys_erase {k k' : Key} : k' ∈ (r.erase k).keys ↔ k' ∈ r.keys ∧ k' ≠ k := by
  simp only [keys, List.mem_map, mem_erase]
  constructor
  · rintro ⟨x, ⟨hx, hne⟩, rfl⟩
    exact ⟨⟨x, hx, rfl⟩, hne⟩
  · rintro ⟨⟨x, hx, rfl⟩, hne⟩
    exact ⟨x, ⟨hx, hne⟩, rfl⟩

/-- The loop erases the entries from the one iterator to the other, if this is on its way. -/
theorem eraseRange_spec (hit : r.IsValid it) (hend : r.IsValid itEnd)
    (hle : ∀ b ∈ itEnd, ∃ a ∈ it, a ≤ b) :
    ∃ r', eraseRange r it itEnd = .ok r' ∧
      ∀ x, x ∈ r'.fragmentsMap ↔ x ∈ r.fragmentsMap ∧ ¬ Between it itEnd x.key := by
  induction hn : r.fragmentsMap.length using Nat.strongRecOn generalizing r it with
  | _ n ih =>
    rw [eraseRange.eq_def, if_neg (not_not.mpr hend)]
    by_cases heq : it = itEnd
    · refine ⟨r, if_pos heq, fun x => ⟨fun hx => ⟨hx, ?_⟩, And.left⟩⟩
      rintro ⟨⟨a, ha, hax⟩, hx'⟩
      exact absurd (hx' a (heq ▸ ha)) (not_lt.mpr hax)
    rw [if_neg heq]
    cases it with
    | none =>
      obtain ⟨b, hb⟩ := Option.ne_none_iff_exists'.mp (Ne.symm heq)
      obtain ⟨a, ha, -⟩ := hle b hb
      cases ha
    | some k =>
      have hk : k ∈ r.keys := hit k rfl
      have hbefore : ∀ b ∈ itEnd, k < b := fun b hb => by
        obtain ⟨a, ha, hab⟩ := hle b hb
        obtain rfl : k = a := Option.some.inj ha
        exact lt_of_le_of_ne hab fun hkb => heq (hkb ▸ hb.symm)
      -- the next entry is behind this one, and not behind the last one
      have hnext : ∀ x ∈ r.fragmentsMap,
          ((∃ b ∈ upperBound Value.key r.fragmentsMap k, b ≤ x.key) ↔ k < x.key) :=
        fun x hx => r.sorted.exists_upperBound_le hx
      have hit' : (r.erase k).IsValid (upperBound Value.key r.fragmentsMap k) := by
        intro b hb
        obtain ⟨x, hx, rfl, hlt⟩ := exists_of_firstWith hb
        exact mem_keys_erase.mpr ⟨List.mem_map_of_mem hx, hlt.ne'⟩
      have hend' : (r.erase k).IsValid itEnd := fun b hb =>
        mem_keys_erase.mpr ⟨hend b hb, (hbefore b hb).ne'⟩
      have hle' : ∀ b ∈ itEnd,
          ∃ a ∈ upperBound Value.key r.fragmentsMap k, a ≤ b := fun b hb => by
        obtain ⟨x, hx, rfl⟩ := List.mem_map.mp (hend b hb)
        exact (hnext x hx).mpr (hbefore x.key hb)
      obtain ⟨r', hrun, hmem⟩ :=
        ih _ (hn ▸ r.length_erase_lt hk) hit' hend' hle' rfl
      refine ⟨r', (dif_pos hk).trans hrun, fun x => ?_⟩
      rw [hmem x, mem_erase, and_assoc]
      refine and_congr_right fun hx => ?_
      have hfrom : (∃ a ∈ some k, a ≤ x.key) ↔ k ≤ x.key := by simp
      rw [Between, Between, hnext x hx, hfrom]
      by_cases hxk : x.key = k
      · refine iff_of_false (fun h => h.1 hxk) (not_not.mpr ⟨hxk.ge, fun b hb => ?_⟩)
        exact hxk ▸ hbefore b hb
      · rw [lt_iff_le_and_ne]
        have hne : k ≠ x.key := Ne.symm hxk
        tauto

end

theorem isValid_firstWith {p : Key → Prop} [DecidablePred p] :
    r.IsValid (KeyedList.firstWith Value.key p r.fragmentsMap) := by
  intro b hb
  obtain ⟨x, hx, rfl, -⟩ := exists_of_firstWith hb
  exact List.mem_map_of_mem hx

/-- An entry on the way to an upper bound does not lie behind its key. -/
theorem lt_upperBound_iff {x : Value} {k : Key} (hx : x ∈ r.fragmentsMap) :
    (∀ b ∈ upperBound Value.key r.fragmentsMap k, x.key < b) ↔ x.key ≤ k := by
  have h := not_congr (r.sorted.exists_upperBound_le (k := k) hx)
  rw [not_lt] at h
  rw [← h]
  push Not
  rfl

/-- The entries from one key to another are erased. -/
theorem purge_of_le (hle : startSeqNumber ≤ endSeqNumber) :
    ∃ r', r.purge address tid startSeqNumber endSeqNumber = .ok r' ∧
      ∀ x, x ∈ r'.fragmentsMap ↔ x ∈ r.fragmentsMap ∧
        ¬ (key address tid startSeqNumber ≤ x.key ∧ x.key ≤ key address tid endSeqNumber) := by
  obtain ⟨r', hrun, hmem⟩ := @eraseRange_spec r
    (lowerBound Value.key r.fragmentsMap (key address tid startSeqNumber))
    (upperBound Value.key r.fragmentsMap (key address tid endSeqNumber))
    isValid_firstWith isValid_firstWith (fun b hb => by
      obtain ⟨x, hx, rfl, hlt⟩ := exists_of_firstWith hb
      have hkeys : key address tid startSeqNumber ≤ key address tid endSeqNumber :=
        key_le_iff.mpr (by omega)
      exact (r.sorted.exists_lowerBound_le hx).mpr (hkeys.trans hlt.le))
  refine ⟨r', by rw [purge, if_neg (Nat.not_lt.mpr hle), hrun], fun x => ?_⟩
  rw [hmem x]
  refine and_congr_right fun hx => not_congr ?_
  rw [Between, r.sorted.exists_lowerBound_le hx, lt_upperBound_iff hx]

/-- The loop may begin at the first entry. -/
theorem exists_begin_le {x : Value} (hx : x ∈ r.fragmentsMap) :
    ∃ a ∈ r.fragmentsMap.head?.map Value.key, a ≤ x.key := by
  have hsorted := r.sorted
  cases hxs : r.fragmentsMap with
  | nil =>
    rw [hxs] at hx
    cases hx
  | cons y ys =>
    rw [hxs] at hx hsorted
    refine ⟨y.key, rfl, ?_⟩
    obtain rfl | hx := List.mem_cons.mp hx
    · exact le_rfl
    · exact (hsorted.head_lt hx).le

theorem isValid_begin : r.IsValid (r.fragmentsMap.head?.map Value.key) := by
  intro b hb
  obtain ⟨x, hx, rfl⟩ := Option.map_eq_some_iff.mp hb
  exact List.mem_map_of_mem (List.mem_of_head? hx)

/-- The entries that are left behind a wrapped interval, if the iterator behind the interval is
still valid: it points to none of the entries that have been erased. -/
theorem purge_of_lt (hlt : endSeqNumber < startSeqNumber) :
    if ∃ b ∈ upperBound Value.key r.fragmentsMap (key address tid endSeqNumber),
        key address tid startSeqNumber ≤ b then
      r.purge address tid startSeqNumber endSeqNumber = .error .danglingPointer
    else
      ∃ r', r.purge address tid startSeqNumber endSeqNumber = .ok r' ∧
        ∀ x, x ∈ r'.fragmentsMap ↔ x ∈ r.fragmentsMap ∧
          key address tid endSeqNumber < x.key ∧ x.key < key address tid startSeqNumber := by
  obtain ⟨r₁, hrun₁, hmem₁⟩ := @eraseRange_spec r
    (lowerBound Value.key r.fragmentsMap (key address tid startSeqNumber)) none
    isValid_firstWith (fun _ hb => by cases hb) (fun _ hb => by cases hb)
  have hleft : ∀ x, x ∈ r₁.fragmentsMap ↔
      x ∈ r.fragmentsMap ∧ x.key < key address tid startSeqNumber := fun x => by
    rw [hmem₁ x]
    refine and_congr_right fun hx => ?_
    rw [Between, r.sorted.exists_lowerBound_le hx, ← not_le]
    simp
  have hpurge : r.purge address tid startSeqNumber endSeqNumber =
      eraseRange r₁ (r₁.fragmentsMap.head?.map Value.key)
        (upperBound Value.key r.fragmentsMap (key address tid endSeqNumber)) := by
    rw [purge, if_pos hlt, hrun₁, ok_bind]
  rw [hpurge]
  split_ifs with hdangling
  · obtain ⟨b, hb, hle⟩ := hdangling
    have hinvalid : ¬ r₁.IsValid
        (upperBound Value.key r.fragmentsMap (key address tid endSeqNumber)) := by
      intro hvalid
      obtain ⟨x, hx, rfl⟩ := List.mem_map.mp (hvalid b hb)
      exact absurd ((hleft x).mp hx).2 (not_lt.mpr hle)
    rw [eraseRange.eq_def, if_pos hinvalid]
  · push Not at hdangling
    have hvalid : r₁.IsValid
        (upperBound Value.key r.fragmentsMap (key address tid endSeqNumber)) := by
      intro b hb
      obtain ⟨x, hx, rfl, -⟩ := exists_of_firstWith hb
      exact List.mem_map_of_mem ((hleft x).mpr ⟨hx, hdangling x.key hb⟩)
    obtain ⟨r', hrun, hmem⟩ := eraseRange_spec isValid_begin hvalid (fun b hb => by
      obtain ⟨x, hx, rfl⟩ := List.mem_map.mp (hvalid b hb)
      exact exists_begin_le hx)
    refine ⟨r', hrun, fun x => ?_⟩
    rw [hmem x, hleft x, and_assoc]
    refine and_congr_right fun hx => ?_
    rw [Between, lt_upperBound_iff hx, and_comm]
    refine and_congr_left fun hx' => ?_
    rw [iff_true_intro (exists_begin_le ((hleft x).mpr ⟨hx, hx'⟩)), true_and, not_le]

/-- Just the entries of the address and TID in the interval are removed. -/
def PurgesExactly (r : BasicReassembly) (address : ℕ) (tid : ℤ)
    (startSeqNumber endSeqNumber : ℕ) : Prop :=
  ∃ r', r.purge address tid startSeqNumber endSeqNumber = .ok r' ∧ ∀ x, x ∈ r'.fragmentsMap ↔
      x ∈ r.fragmentsMap ∧ ¬ Purged address tid startSeqNumber endSeqNumber x.key

/-- There is nothing in the map that a wrapped interval could do harm to: every entry has the
address and TID, and one of them lies outside of the interval, or none at its upper end. -/
def Unharmed (r : BasicReassembly) (address : ℕ) (tid : ℤ)
    (startSeqNumber endSeqNumber : ℕ) : Prop :=
  (∀ x ∈ r.fragmentsMap, ∃ n, x.key = key address tid n) ∧
    ((∃ x ∈ r.fragmentsMap, ∃ n, x.key = key address tid n ∧
        endSeqNumber < n ∧ n < startSeqNumber) ∨
      ∀ x ∈ r.fragmentsMap, ∀ n, x.key = key address tid n → n < startSeqNumber)

theorem purgesExactly_of_le (hle : startSeqNumber ≤ endSeqNumber) :
    PurgesExactly r address tid startSeqNumber endSeqNumber := by
  obtain ⟨r', hrun, hmem⟩ := @purge_of_le r address tid _ _ hle
  refine ⟨r', hrun, fun x => ?_⟩
  rw [hmem x]
  refine and_congr_right fun _ => not_congr ⟨?_, ?_⟩
  · rintro ⟨hfrom, hto⟩
    obtain ⟨n, hn⟩ := exists_key_of_between hfrom hto
    rw [hn, key_le_iff] at hfrom hto
    refine ⟨n, hn, ?_⟩
    rw [InInterval, if_pos hle]
    omega
  · rintro ⟨n, hn, hin⟩
    rw [InInterval, if_pos hle] at hin
    rw [hn, key_le_iff, key_le_iff]
    omega

/-- The iterator behind the interval points to an entry between its ends, if there is one. -/
theorem not_dangling_of_unharmed (h : Unharmed r address tid startSeqNumber endSeqNumber) :
    ¬ ∃ b ∈ upperBound Value.key r.fragmentsMap (key address tid endSeqNumber),
      key address tid startSeqNumber ≤ b := by
  obtain ⟨hown, hor⟩ := h
  rintro ⟨b, hb, hle⟩
  obtain ⟨x, hx, n, hn, hfrom, hto⟩ | hall := hor
  · have hfrom' : key address tid endSeqNumber < x.key := hn ▸ key_lt_key_iff.mpr hfrom
    have hto' : x.key < key address tid startSeqNumber := hn ▸ key_lt_key_iff.mpr hto
    obtain ⟨b', hb', hle'⟩ := (r.sorted.exists_upperBound_le hx).mpr hfrom'
    obtain rfl := Option.some.inj (hb.symm.trans hb')
    exact absurd (hle.trans hle') (not_le.mpr hto')
  · obtain ⟨z, hz, rfl, -⟩ := exists_of_firstWith hb
    obtain ⟨n, hn⟩ := hown z hz
    have hlt' := hall z hz n hn
    rw [hn, key_le_iff] at hle
    omega

section

variable (hlt : endSeqNumber < startSeqNumber)
include hlt

theorem purged_key_iff {n : ℕ} :
    Purged address tid startSeqNumber endSeqNumber (key address tid n) ↔
      startSeqNumber ≤ n ∨ n ≤ endSeqNumber := by
  have hin : InInterval startSeqNumber endSeqNumber n ↔ startSeqNumber ≤ n ∨ n ≤ endSeqNumber := by
    rw [InInterval, if_neg (Nat.not_le.mpr hlt)]
  rw [← hin]
  constructor
  · rintro ⟨m, hm, h⟩
    rwa [(key_inj.mp hm).2.2]
  · exact fun h => ⟨n, rfl, h⟩

theorem purgesExactly_of_unharmed (h : Unharmed r address tid startSeqNumber endSeqNumber) :
    PurgesExactly r address tid startSeqNumber endSeqNumber := by
  have hpurge := @purge_of_lt r address tid _ _ hlt
  rw [if_neg (not_dangling_of_unharmed h)] at hpurge
  obtain ⟨r', hrun, hmem⟩ := hpurge
  refine ⟨r', hrun, fun x => ?_⟩
  rw [hmem x]
  refine and_congr_right fun hx => ?_
  obtain ⟨n, hn⟩ := h.1 x hx
  rw [hn, key_lt_key_iff, key_lt_key_iff, purged_key_iff hlt]
  omega

theorem unharmed_of_purgesExactly (h : PurgesExactly r address tid startSeqNumber endSeqNumber) :
    Unharmed r address tid startSeqNumber endSeqNumber := by
  obtain ⟨r', hrun, hexact⟩ := h
  have hpurge := @purge_of_lt r address tid _ _ hlt
  split_ifs at hpurge with hdangling
  · rw [hpurge] at hrun
    cases hrun
  obtain ⟨r'', hrun', hmem⟩ := hpurge
  obtain rfl := Except.ok.inj (hrun.symm.trans hrun')
  have hleft : ∀ x ∈ r.fragmentsMap, (key address tid endSeqNumber < x.key ∧
      x.key < key address tid startSeqNumber ↔
        ¬ Purged address tid startSeqNumber endSeqNumber x.key) := fun x hx => by
    have h := (hmem x).symm.trans (hexact x)
    simpa only [hx, true_and] using h
  refine ⟨fun x hx => ?_, ?_⟩
  · by_contra hother
    obtain ⟨hfrom, hto⟩ := (hleft x hx).mpr fun ⟨n, hn, _⟩ => hother ⟨n, hn⟩
    exact hother (exists_key_of_between hfrom.le hto.le)
  · by_contra hnone
    push Not at hnone hdangling
    obtain ⟨hnone, x, hx, n, hn, hle⟩ := hnone
    have hbehind : key address tid endSeqNumber < x.key := by
      rw [hn, key_lt_key_iff]
      omega
    -- the iterator points to an entry that is left
    obtain ⟨b, hb, -⟩ := (r.sorted.exists_upperBound_le hx).mpr hbehind
    obtain ⟨z, hz, rfl, hzfrom⟩ := exists_of_firstWith hb
    have hzto := hdangling z.key hb
    obtain ⟨m, hm⟩ := exists_key_of_between hzfrom.le hzto.le
    rw [hm, key_lt_key_iff] at hzfrom hzto
    exact absurd hzto (Nat.not_lt.mpr (hnone z hz m hm hzfrom))

end

/-- The entries of the interval are removed, and no other ones, unless the interval wraps around
and meets entries that it does harm to. -/
theorem purgesExactly_iff (r : BasicReassembly) (address : ℕ) (tid : ℤ)
    (startSeqNumber endSeqNumber : ℕ) :
    PurgesExactly r address tid startSeqNumber endSeqNumber ↔
      startSeqNumber ≤ endSeqNumber ∨ Unharmed r address tid startSeqNumber endSeqNumber := by
  by_cases hle : startSeqNumber ≤ endSeqNumber
  · exact iff_of_true (purgesExactly_of_le hle) (.inl hle)
  · have hlt := Nat.lt_of_not_le hle
    exact ⟨fun h => .inr (unharmed_of_purgesExactly hlt h),
      fun h => purgesExactly_of_unharmed hlt (h.resolve_left hle)⟩

/-- An entry of the station 1 is removed when the station 2 is purged. -/
theorem not_purgesExactly_of_otherStation :
    ¬ PurgesExactly ⟨[{ key := key 1 0 5 }], List.pairwise_singleton _ _⟩ 2 0 4000 10 := by
  intro h
  obtain ⟨hown, -⟩ := unharmed_of_purgesExactly (by decide) h
  obtain ⟨n, hn⟩ := hown _ List.mem_cons_self
  exact absurd (key_inj.mp hn).1 (by decide)

end Inet.Ieee80211.BasicReassembly
