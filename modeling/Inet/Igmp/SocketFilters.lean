import Inet.Igmp.HostMembership
import Inet.Library.Run

/-!
# The filters of sockets and of the interface

In every run of changes the entry of a group has the counts of the filters of the sockets
(`Bookkept`), and the filter of the interface is the one that they ask for.

A group has an entry as long as some socket accepts a source, apart from two kinds of calls: one
that leaves all filters empty although the group has no entry, which makes an entry that nothing
removes, and one after which the sockets exclude all addresses. `along_tracks_iff` says so.
-/

namespace Inet.Igmp

open Inet.Ipv4 (IPv4Address)
open McastSourceFilterMode
open HostMulticastData (filterOf findHostGroupData findOrAdd notifications replaceEntry)
open List

section

variable {data : HostMulticastData} {group : IPv4Address} {entry : HostMulticastGroupData}
  {entries : List HostMulticastGroupData}

/-- No group has two entries. -/
def HostMulticastData.Distinct (data : HostMulticastData) : Prop :=
  (data.joinedMulticastGroups.map HostMulticastGroupData.multicastGroup).Nodup

theorem multicastGroup_of_find (h : data.findHostGroupData group = some entry) :
    entry.multicastGroup = group := by
  simpa using find?_some h

theorem isMember_iff : data.isMemberOfMulticastGroup group = true ↔
    data.findHostGroupData group ≠ none := by
  rw [HostMulticastData.isMemberOfMulticastGroup, findHostGroupData,
    any_eq_true, ne_eq, find?_eq_none]
  push Not
  rfl

theorem map_replaceEntry (entry : HostMulticastGroupData) (entries : List HostMulticastGroupData) :
    (replaceEntry entry entries).map HostMulticastGroupData.multicastGroup =
      entries.map HostMulticastGroupData.multicastGroup := by
  induction entries with
  | nil => rfl
  | cons elem elems ih =>
    rw [replaceEntry]
    split_ifs with heq
    · rw [map_cons, map_cons, beq_iff_eq.mp heq]
    · rw [map_cons, map_cons, ih]

theorem find_replaceEntry (entry : HostMulticastGroupData)
    (entries : List HostMulticastGroupData) (group : IPv4Address) :
    (replaceEntry entry entries).find? (fun e => e.multicastGroup == group) =
      if group = entry.multicastGroup then
        (entries.find? fun e => e.multicastGroup == group).map fun _ => entry
      else entries.find? fun e => e.multicastGroup == group := by
  induction entries with
  | nil => simp [replaceEntry]
  | cons elem elems ih =>
    rw [replaceEntry]
    grind

theorem find_removeHostGroupData (h : data.Distinct) (group group' : IPv4Address) :
    (data.removeHostGroupData group).findHostGroupData group' =
      if group' = group then none else data.findHostGroupData group' := by
  obtain ⟨entries⟩ := data
  simp only [HostMulticastData.Distinct, HostMulticastData.removeHostGroupData,
    findHostGroupData] at h ⊢
  induction entries with
  | nil => simp
  | cons elem elems ih =>
    rw [map_cons, nodup_cons, mem_map] at h
    have := ih h.2
    rw [eraseP_cons]
    grind

theorem HostMulticastData.Distinct.remove (h : data.Distinct) (group : IPv4Address) :
    (data.removeHostGroupData group).Distinct :=
  h.sublist (eraseP_sublist.map _)

variable {ι : Type} [Fintype ι] {filters : MulticastGroup → ι → SocketFilter}

/-- Entries have the counts of the filters, and the filter for the counts. -/
structure Bookkept (data : HostMulticastData) (filters : MulticastGroup → ι → SocketFilter) :
    Prop where
  distinct : data.Distinct
  entry : ∀ (g : MulticastGroup) entry, data.findHostGroupData g = some entry →
    Exact entry (filters g) ∧ entry.sourceList = entry.computed
  none : ∀ g : MulticastGroup, data.findHostGroupData g = none →
    ∀ i, (filters g i).toIPv4MulticastSourceList = {}

theorem exact_of_empty {filters : ι → SocketFilter} (group : IPv4Address)
    (h : ∀ i, (filters i).toIPv4MulticastSourceList = {}) :
    Exact { multicastGroup := group } filters := by
  have hmode (i : ι) : (filters i).filterMode = MCAST_INCLUDE_SOURCES := by rw [h i]
  have hsources (i : ι) : (filters i).sources = [] := by rw [h i]
  constructor
  · intro mode
    have hnil : ({ multicastGroup := group } : HostMulticastGroupData).counts mode = [] := by
      cases mode <;> rfl
    rw [hnil]
    refine ReferenceCounts.counts_nil.congr fun a => Finset.sum_eq_zero fun i _ => ?_
    rw [SocketFilter.listed, hsources, ite_self, count_nil]
  · have hsum : excludeSockets filters = 0 :=
      Finset.sum_eq_zero fun i _ => if_neg (by rw [hmode i]; decide)
    rw [hsum]
    rfl

/-- The entry that a call works on. -/
theorem findOrAdd_spec (h : Bookkept data filters) (g : MulticastGroup) (i : ι) :
    ∃ data' entry, data.findOrAdd g (filters g i).filterMode (filters g i).sources =
        .ok (data', entry) ∧
      data'.Distinct ∧ entry.multicastGroup = g ∧ entry.sourceList = data.filterOf g ∧
      Exact entry (filters g) ∧ ∀ group, data'.findHostGroupData group =
        if group = g then some entry else data.findHostGroupData group := by
  rw [findOrAdd, filterOf]
  cases hfind : data.findHostGroupData g with
  | some entry =>
    refine ⟨data, entry, rfl, h.distinct, multicastGroup_of_find hfind, rfl,
      (h.entry g entry hfind).1, fun group => ?_⟩
    split_ifs with heq
    · rw [heq, hfind]
    · rfl
  | none =>
    have hempty := h.none g hfind
    dsimp only
    rw [hempty i]
    refine ⟨_, _, rfl, ?_, rfl, rfl, exact_of_empty g hempty, fun group => ?_⟩
    · rw [HostMulticastData.Distinct, map_append, nodup_append']
      refine ⟨h.distinct, by simp, ?_⟩
      simp only [findHostGroupData, find?_eq_none] at hfind
      simpa using hfind
    · simp only [findHostGroupData] at hfind ⊢
      rw [find?_append]
      split_ifs with heq
      · rw [heq, hfind]
        simp
      · simp [Ne.symm heq]

theorem updateSourceList_spec (entry : HostMulticastGroupData) : entry.updateSourceList =
      (decide (entry.sourceList ≠ entry.computed),
        { entry with sourceList := entry.computed }) := by
  rw [HostMulticastGroupData.updateSourceList]
  split_ifs with hne
  · rw [decide_eq_true hne]
  · rw [decide_eq_false hne, ← not_not.mp hne]

theorem mem_notifications {entry : HostMulticastGroupData}
    {old new : McastSourceFilterMode} {oldSources newSources : List IPv4Address}
    {group : IPv4Address} {list : IPv4MulticastSourceList} :
    .mcastChange group list ∈ notifications entry old oldSources new newSources ↔
      group = entry.multicastGroup ∧ list = entry.sourceList := by
  unfold notifications
  rw [mem_append]
  cases new <;> split_ifs <;> simp

variable [DecidableEq ι]

theorem change_spec (h : Bookkept data filters) (g : MulticastGroup) (i : ι)
    (filter : SocketFilter) :
    ∃ entry notified data', data.changeMulticastGroupMembership g (filters g i).filterMode
        (filters g i).sources filter.filterMode filter.sources = .ok (notified, data') ∧
      Exact entry (Function.update (filters g) i filter) ∧ entry.sourceList = entry.computed ∧
      data'.Distinct ∧
      (∀ group, data'.findHostGroupData group = if group = g then
          if data.filterOf g ≠ entry.computed ∧ entry.computed = {} then none else some entry
        else data.findHostGroupData group) ∧
      ∀ (group : IPv4Address) list, .mcastChange group list ∈ notified ↔
        group = g ∧ data.filterOf g ≠ entry.computed ∧ list = entry.computed := by
  obtain ⟨data₁, entry, hadd, hdistinct, hgroup, hlist, hexact, hfind⟩ := findOrAdd_spec h g i
  obtain ⟨released, hrelease, hgroup', hlist', hupdated⟩ := hexact.update i filter
  obtain ⟨hg, hl⟩ := updateNum_rest (released.acquireSources filter.filterMode filter.sources)
    (filters g i).filterMode filter.filterMode
  obtain ⟨hg', hl', -⟩ := withCounts_rest released
    (filter.sources.foldl (ReferenceCounts.acquire addressKey)
      (released.counts filter.filterMode)) filter.filterMode
  have hrest := And.intro (hg.trans (hg'.trans (hgroup'.trans hgroup)))
    (hl.trans (hl'.trans (hlist'.trans hlist)))
  revert hupdated hrest
  clear hg hl hg' hl'
  generalize hdef : (released.acquireSources filter.filterMode
    filter.sources).updateNumOfExcludeModeSockets (filters g i).filterMode filter.filterMode =
    updated
  rintro hupdated ⟨hg, hl⟩
  have hfinal : Exact { updated with sourceList := updated.computed }
    (Function.update (filters g) i filter) := ⟨hupdated.counts, hupdated.numOfExclude⟩
  have hreplaced (group : IPv4Address) : (HostMulticastData.mk (HostMulticastData.replaceEntry
        { updated with sourceList := updated.computed }
        data₁.joinedMulticastGroups)).findHostGroupData group =
        if group = g then some { updated with sourceList := updated.computed }
        else data.findHostGroupData group := by
    have := hfind group
    rw [HostMulticastData.findHostGroupData, find_replaceEntry]
    rw [HostMulticastData.findHostGroupData] at this
    dsimp only
    rw [hg, this]
    split_ifs <;> rfl
  have hreplacedDistinct : (HostMulticastData.mk (HostMulticastData.replaceEntry
      { updated with sourceList := updated.computed } data₁.joinedMulticastGroups)).Distinct := by
    rw [HostMulticastData.Distinct, map_replaceEntry]
    exact hdistinct
  rw [HostMulticastData.changeMulticastGroupMembership, if_neg (by simp [g.2]), hadd, ok_bind]
  dsimp only
  rw [hrelease, ok_bind]
  rw [hdef, updateSourceList_spec]
  dsimp only
  rw [hl]
  have hcomputed : updated.computed =
    HostMulticastGroupData.computed { updated with sourceList := updated.computed } := rfl
  by_cases hchanged : data.filterOf g ≠ updated.computed
  · rw [if_pos (decide_eq_true hchanged)]
    by_cases hempty : updated.computed = {}
    · rw [if_pos (IPv4MulticastSourceList.isEmpty_iff.mpr hempty)]
      refine ⟨_, _, _, rfl, hfinal, rfl, hreplacedDistinct.remove _, fun group => ?_,
        fun group list => ?_⟩
      · rw [find_removeHostGroupData hreplacedDistinct, hreplaced, ← hcomputed]
        by_cases heq : group = g
        · rw [if_pos heq, if_pos heq, if_pos ⟨hchanged, hempty⟩]
        · rw [if_neg heq, if_neg heq, if_neg heq]
      · rw [mem_notifications, ← hcomputed]
        exact ⟨fun h => ⟨h.1.trans hg, hchanged, h.2⟩, fun h => ⟨h.1.trans hg.symm, h.2.2⟩⟩
    · rw [if_neg (by rwa [IPv4MulticastSourceList.isEmpty_iff])]
      refine ⟨_, _, _, rfl, hfinal, rfl, hreplacedDistinct, fun group => ?_, fun group list => ?_⟩
      · rw [hreplaced, ← hcomputed, if_neg (not_and_of_not_right _ hempty)]
      · rw [mem_notifications, ← hcomputed]
        exact ⟨fun h => ⟨h.1.trans hg, hchanged, h.2⟩, fun h => ⟨h.1.trans hg.symm, h.2.2⟩⟩
  · rw [if_neg (by simpa using hchanged)]
    refine ⟨_, _, _, rfl, hfinal, rfl, hreplacedDistinct, fun group => ?_, fun group list => ?_⟩
    · rw [hreplaced, ← hcomputed, if_neg (not_and_of_not_left _ hchanged)]
    · simp [← hcomputed, hchanged]

end

variable {ι : Type} [Fintype ι] {data : HostMulticastData}
  {filters : MulticastGroup → ι → SocketFilter}

/-- The filter of the interface is the one that the filters of the sockets ask for. -/
structure Reflects (data : HostMulticastData) (filters : MulticastGroup → ι → SocketFilter) :
    Prop where
  contains_iff : ∀ (g : MulticastGroup) a,
    (data.filterOf g).contains a = true ↔ ∃ i, (filters g i).contains a = true
  exclude_iff : ∀ g : MulticastGroup, (data.filterOf g).filterMode = MCAST_EXCLUDE_SOURCES ↔
    ∃ i, (filters g i).filterMode = MCAST_EXCLUDE_SOURCES
  sorted : ∀ g : MulticastGroup, (data.filterOf g).sources.Pairwise fun a b => a.toNat < b.toNat
  member_iff : ∀ g : MulticastGroup, data.isMemberOfMulticastGroup g = true ↔
    ∃ i a, (filters g i).contains a = true

theorem not_contains_empty (a : IPv4Address) :
    ¬ ({} : IPv4MulticastSourceList).contains a = true := by
  simp [IPv4MulticastSourceList.contains]

/-- An entry is there for some source that is accepted. -/
def Needed (data : HostMulticastData) (filters : MulticastGroup → ι → SocketFilter) : Prop :=
  ∀ g : MulticastGroup, data.findHostGroupData g ≠ none → ∃ i a, (filters g i).contains a = true

theorem Bookkept.reflects_iff (h : Bookkept data filters) :
    Reflects data filters ↔ Needed data filters := by
  refine ⟨fun hreflects g hfind => (hreflects.member_iff g).mp (isMember_iff.mpr hfind),
    fun hneeded => ⟨fun g a => ?_, fun g => ?_, fun g => ?_, fun g => ?_⟩⟩
  · rw [filterOf]
    cases hfind : data.findHostGroupData g with
    | some entry =>
      obtain ⟨hexact, hlist⟩ := h.entry g entry hfind
      rw [← hexact.contains_iff, ← hlist]
    | none =>
      refine iff_of_false (not_contains_empty a) ?_
      rintro ⟨i, hi⟩
      rw [h.none g hfind i] at hi
      exact not_contains_empty a hi
  · rw [filterOf]
    cases hfind : data.findHostGroupData g with
    | some entry =>
      obtain ⟨hexact, hlist⟩ := h.entry g entry hfind
      rw [← hexact.filterMode_iff, ← hlist]
    | none =>
      refine iff_of_false (by decide) ?_
      rintro ⟨i, hi⟩
      rw [h.none g hfind i] at hi
      cases hi
  · rw [filterOf]
    cases hfind : data.findHostGroupData g with
    | some entry =>
      obtain ⟨hexact, hlist⟩ := h.entry g entry hfind
      have := hexact.sorted
      rwa [← hlist] at this
    | none => exact List.Pairwise.nil
  · rw [isMember_iff]
    refine ⟨hneeded g, ?_⟩
    rintro ⟨i, a, hi⟩ hfind
    rw [h.none g hfind i] at hi
    exact not_contains_empty a hi

/-- An interface, the filters of the sockets and what was told about the last change. -/
structure Memberships (ι : Type) where
  data : HostMulticastData := {}
  filters : MulticastGroup → ι → SocketFilter := fun _ _ => default
  notified : List Notification := []

theorem bookkept_initial : Bookkept ({} : Memberships ι).data ({} : Memberships ι).filters where
  distinct := nodup_nil
  entry _ _ h := by cases h
  none _ _ _ := rfl

omit [Fintype ι] in
theorem needed_initial : Needed ({} : Memberships ι).data ({} : Memberships ι).filters :=
  fun _ h => absurd rfl h

/-- A socket is given another filter for a group. -/
structure FilterChange (ι : Type) where
  socket : ι
  group : MulticastGroup
  filter : SocketFilter

variable [DecidableEq ι]

/-- The filters of a group after a change. -/
def Memberships.changed (s : Memberships ι) (c : FilterChange ι) : ι → SocketFilter :=
  Function.update (s.filters c.group) c.socket c.filter

/-- The call has the true filter that the socket had. -/
def Memberships.step (s : Memberships ι) (c : FilterChange ι) : Result (Memberships ι) := do
  let old := s.filters c.group c.socket
  let (notified, data) ← s.data.changeMulticastGroupMembership c.group old.filterMode old.sources
    c.filter.filterMode c.filter.sources
  .ok { data, filters := Function.update s.filters c.group (s.changed c), notified }

/-- The interface reflects the filters after a call, and has told about the filters of groups that
have changed. -/
structure Tracks (s t : Memberships ι) : Prop where
  reflects : Reflects t.data t.filters
  notified_iff : ∀ (g : MulticastGroup) list, .mcastChange g list ∈ t.notified ↔
    t.data.filterOf g ≠ s.data.filterOf g ∧ list = t.data.filterOf g

/-- The change is not one from nothing to nothing while all filters are INCLUDE of nothing, and it
does not leave all addresses excluded. -/
def Regular (s : Memberships ι) (c : FilterChange ι) : Prop :=
  ¬ ((∀ i, (s.filters c.group i).toIPv4MulticastSourceList = {}) ∧
      c.filter.toIPv4MulticastSourceList = {}) ∧
    ((∃ i, (s.changed c i).filterMode = MCAST_EXCLUDE_SOURCES) →
      ∃ i a, (s.changed c i).contains a = true)

theorem filterOf_of_find_none {group : IPv4Address} (h : data.findHostGroupData group = none) :
    data.filterOf group = {} := by
  rw [filterOf, h]

/-- A call does not throw. What it does to the entry of the group depends on the filter for the
new counts. -/
theorem step_bookkept {s : Memberships ι} (h : Bookkept s.data s.filters) (c : FilterChange ι) :
    ∃ t entry, s.step c = .ok t ∧ Bookkept t.data t.filters ∧
      t.filters = Function.update s.filters c.group (s.changed c) ∧
      Exact entry (s.changed c) ∧
      (t.data.findHostGroupData c.group =
        if s.data.filterOf c.group ≠ entry.computed ∧ entry.computed = {} then none
        else some entry) ∧
      (∀ g : MulticastGroup, g ≠ c.group →
        t.data.findHostGroupData g = s.data.findHostGroupData g) ∧
      ∀ (g : MulticastGroup) list, .mcastChange g list ∈ t.notified ↔
        t.data.filterOf g ≠ s.data.filterOf g ∧ list = t.data.filterOf g := by
  obtain ⟨entry, notified, data', hcall, hexact, hlist, hdistinct, hfind, hnotified⟩ :=
    change_spec h c.group c.socket c.filter
  have hself := hfind c.group
  rw [if_pos rfl] at hself
  have hother (g : MulticastGroup) (hg : g ≠ c.group) :
      data'.findHostGroupData g = s.data.findHostGroupData g := by
    rw [hfind, if_neg (Subtype.coe_injective.ne hg)]
  have hfilter : data'.filterOf c.group = entry.computed := by
    split_ifs at hself with hremoved
    · rw [filterOf_of_find_none hself, hremoved.2]
    · simp only [HostMulticastData.filterOf, hself, hlist]
  refine ⟨⟨data', Function.update s.filters c.group (s.changed c), notified⟩, entry, ?_,
    ⟨hdistinct, fun g e he => ?_, fun g hg => ?_⟩, rfl, hexact, hself, hother, fun g list => ?_⟩
  · rw [Memberships.step, hcall]
    rfl
  · dsimp only at he ⊢
    by_cases hg : g = c.group
    · subst hg
      rw [Function.update_self]
      split_ifs at hself
      · rw [hself] at he
        cases he
      · obtain rfl := Option.some.inj (hself.symm.trans he)
        exact ⟨hexact, hlist⟩
    · rw [Function.update_of_ne hg]
      exact h.entry g e ((hother g hg).symm.trans he)
  · dsimp only at hg ⊢
    by_cases hgroup : g = c.group
    · subst hgroup
      rw [Function.update_self]
      split_ifs at hself with hremoved
      · exact hexact.computed_eq_empty hremoved.2
      · rw [hself] at hg
        cases hg
    · rw [Function.update_of_ne hgroup]
      exact h.none g ((hother g hgroup).symm.trans hg)
  · rw [hnotified]
    by_cases hg : g = c.group
    · subst hg
      rw [hfilter]
      exact ⟨fun h => ⟨h.2.1.symm, h.2.2⟩, fun h => ⟨rfl, h.1.symm, h.2⟩⟩
    · have hsame : data'.filterOf g = s.data.filterOf g := by
        rw [filterOf, hother g hg]
        rfl
      exact iff_of_false (fun h => hg (Subtype.ext h.1)) fun h => h.1 hsame

/-- An entry of the changed group is needed just in case the change is regular. -/
theorem needed_iff_regular {s : Memberships ι} (h : Bookkept s.data s.filters)
    (hneeded : Needed s.data s.filters) {c : FilterChange ι} {entry : HostMulticastGroupData}
    (hexact : Exact entry (s.changed c)) :
    (¬ (s.data.filterOf c.group ≠ entry.computed ∧ entry.computed = {}) →
      ∃ i a, (s.changed c i).contains a = true) ↔ Regular s c := by
  constructor
  · intro haccept
    refine ⟨?_, fun hmode => haccept fun hremoved => ?_⟩
    · rintro ⟨hempty, hfilter⟩
      have hnone : s.data.findHostGroupData c.group = none := by
        by_contra hfind
        obtain ⟨i, a, hi⟩ := hneeded c.group hfind
        rw [hempty i] at hi
        exact not_contains_empty a hi
      rw [filterOf_of_find_none hnone] at haccept
      obtain ⟨i, a, hi⟩ := haccept fun hremoved => hremoved.1 hremoved.2.symm
      refine not_contains_empty a ?_
      rw [Memberships.changed, Function.update_apply] at hi
      split_ifs at hi
      · rwa [hfilter] at hi
      · rwa [hempty i] at hi
    · have := hexact.filterMode_iff.mpr hmode
      rw [hremoved.2] at this
      cases this
  · rintro ⟨hchange, hmode⟩ hkept
    by_cases hcomputed : entry.computed = {}
    · have hfilter : s.data.filterOf c.group = {} := by
        by_contra hne
        exact hkept ⟨hcomputed ▸ hne, hcomputed⟩
      have hnone : s.data.findHostGroupData c.group = none := by
        by_contra hfind
        obtain ⟨i, a, hi⟩ := hneeded c.group hfind
        have := ((h.reflects_iff.mpr hneeded).contains_iff c.group a).mpr ⟨i, hi⟩
        rw [hfilter] at this
        exact not_contains_empty a this
      have hchanged := hexact.computed_eq_empty hcomputed c.socket
      rw [Memberships.changed, Function.update_self] at hchanged
      exact absurd ⟨h.none c.group hnone, hchanged⟩ hchange
    · cases hcase : entry.computed.filterMode with
      | MCAST_EXCLUDE_SOURCES => exact hmode (hexact.filterMode_iff.mp hcase)
      | MCAST_INCLUDE_SOURCES =>
        have hsources : entry.computed.sources ≠ [] := fun hnil => hcomputed <| by
          rw [← IPv4MulticastSourceList.isEmpty_iff, IPv4MulticastSourceList.isEmpty, hcase, hnil]
          rfl
        obtain ⟨a, ha⟩ := exists_mem_of_ne_nil _ hsources
        obtain ⟨i, hi⟩ := hexact.contains_iff.mp
          (IPv4MulticastSourceList.contains_eq_true.mpr (.inl ⟨hcase, ha⟩))
        exact ⟨i, a, hi⟩

theorem step_spec {s : Memberships ι} (h : Bookkept s.data s.filters)
    (hneeded : Needed s.data s.filters) (c : FilterChange ι) :
    ∃ t, s.step c = .ok t ∧ (Tracks s t ↔ Regular s c) ∧
      (Regular s c → Bookkept t.data t.filters ∧ Needed t.data t.filters) := by
  obtain ⟨t, entry, hstep, hbookkept, hfilters, hexact, hself, hother, hnotified⟩ :=
    step_bookkept h c
  have hregular : Needed t.data t.filters ↔ Regular s c := by
    rw [← needed_iff_regular h hneeded hexact]
    constructor
    · intro hneeded' hkept
      have := hneeded' c.group (by rw [hself, if_neg hkept]; simp)
      rwa [hfilters, Function.update_self] at this
    · intro hgroup g hfind
      by_cases hg : g = c.group
      · subst hg
        rw [hfilters, Function.update_self]
        refine hgroup fun hremoved => hfind ?_
        rw [hself, if_pos hremoved]
      · rw [hfilters, Function.update_of_ne hg]
        exact hneeded g (by rwa [hother g hg] at hfind)
  refine ⟨t, hstep, ?_, fun hc => ⟨hbookkept, hregular.mpr hc⟩⟩
  rw [← hregular, ← hbookkept.reflects_iff]
  exact ⟨Tracks.reflects, fun hreflects => ⟨hreflects, hnotified⟩⟩

/-- The interface reflects the filters of the sockets in every state of a run just in case all
changes are regular. -/
theorem along_tracks_iff (changes : List (FilterChange ι)) :
    (Reflects ({} : Memberships ι).data ({} : Memberships ι).filters ∧
      Run.Along Memberships.step (fun s _ t => Tracks s t) {} changes) ↔
      Run.Admissible Memberships.step Regular {} changes := by
  rw [Run.along_iff_admissible (P := fun s => Bookkept s.data s.filters ∧ Needed s.data s.filters)
    (fun s c hs => step_spec hs.1 hs.2 c) ⟨bookkept_initial, needed_initial⟩]
  exact and_iff_right (bookkept_initial.reflects_iff.mpr needed_initial)

/-- One socket, whose filter is set to what it has been. -/
def nothingToNothing : FilterChange (Fin 1) where
  socket := 0
  group := ⟨0xE0000001, by decide⟩
  filter := default

/-- The group gets an entry although no source is accepted. -/
theorem not_along_nothingToNothing :
    ¬ (Reflects ({} : Memberships (Fin 1)).data ({} : Memberships (Fin 1)).filters ∧
      Run.Along Memberships.step (fun s _ t => Tracks s t) {} [nothingToNothing]) := by
  rintro ⟨-, t, hstep, htracks, -⟩
  cases hstep
  obtain ⟨i, a, hi⟩ := (htracks.reflects.member_iff nothingToNothing.group).mp (by decide)
  obtain rfl : i = 0 := Subsingleton.elim i 0
  exact not_contains_empty a hi

end Inet.Igmp
