import Inet.Igmp.MulticastListeners
import Inet.Library.ReferenceCounts

/-!
# Group membership of a host

Sockets tell `IPv4InterfaceData` how their source filters change. For each group it counts the
sockets that include and exclude a source, and computes the filter of the interface from the
counts. This filter accepts what some socket accepts (`Exact.contains_iff`).
-/

namespace Inet.Igmp

open Inet.Ipv4 (IPv4Address)
open McastSourceFilterMode

/-- The order of the keys of a `std::map<IPv4Address, int>`. -/
abbrev addressKey (addr : IPv4Address) : ℕ := addr.toNat

theorem addressKey_injective : Function.Injective addressKey := fun _ _ => BitVec.eq_of_toNat_eq

structure HostMulticastGroupData where
  multicastGroup : IPv4Address
  includeCounts : List (IPv4Address × ℤ) := []
  excludeCounts : List (IPv4Address × ℤ) := []
  numOfExcludeModeSockets : ℤ := 0
  /-- Computed from the counts. -/
  sourceList : IPv4MulticastSourceList := {}

/-- What an interface tells that is listed in an interface table. -/
inductive Notification where
  | configChanged
  | mcastChange (group : IPv4Address) (sourceList : IPv4MulticastSourceList)
  | mcastJoin (group : IPv4Address)
  | mcastLeave (group : IPv4Address)

structure HostMulticastData where
  joinedMulticastGroups : List HostMulticastGroupData := []

namespace HostMulticastGroupData

/-- The counts for a filter mode are updated. -/
def withCounts (entry : HostMulticastGroupData) (counts : List (IPv4Address × ℤ)) :
    McastSourceFilterMode → HostMulticastGroupData
  | MCAST_INCLUDE_SOURCES => { entry with includeCounts := counts }
  | MCAST_EXCLUDE_SOURCES => { entry with excludeCounts := counts }

def counts (entry : HostMulticastGroupData) : McastSourceFilterMode → List (IPv4Address × ℤ)
  | MCAST_INCLUDE_SOURCES => entry.includeCounts
  | MCAST_EXCLUDE_SOURCES => entry.excludeCounts

/-- The loop over the old sources. -/
def releaseSources (entry : HostMulticastGroupData) (mode : McastSourceFilterMode)
    (sources : List IPv4Address) : Result HostMulticastGroupData :=
  match sources.foldlM (ReferenceCounts.release addressKey) (entry.counts mode) with
  | none => .error (.cRuntimeError "Inconsistent reference counts in IPv4InterfaceData.")
  | some counts => .ok (entry.withCounts counts mode)

/-- The loop over the new sources. -/
def acquireSources (entry : HostMulticastGroupData) (mode : McastSourceFilterMode)
    (sources : List IPv4Address) : HostMulticastGroupData :=
  entry.withCounts (sources.foldl (ReferenceCounts.acquire addressKey) (entry.counts mode)) mode

/-- What the change of a filter mode adds to the number of sockets with mode EXCLUDE. -/
def updateNumOfExcludeModeSockets (entry : HostMulticastGroupData)
    (oldFilterMode newFilterMode : McastSourceFilterMode) : HostMulticastGroupData :=
  match oldFilterMode, newFilterMode with
  | MCAST_INCLUDE_SOURCES, MCAST_EXCLUDE_SOURCES =>
    { entry with numOfExcludeModeSockets := entry.numOfExcludeModeSockets + 1 }
  | MCAST_EXCLUDE_SOURCES, MCAST_INCLUDE_SOURCES =>
    { entry with numOfExcludeModeSockets := entry.numOfExcludeModeSockets - 1 }
  | _, _ => entry

/-- The filter for the counts. -/
def computed (entry : HostMulticastGroupData) : IPv4MulticastSourceList :=
  if entry.numOfExcludeModeSockets = 0 then
    { filterMode := MCAST_INCLUDE_SOURCES, sources := entry.includeCounts.map Prod.fst }
  else
    { filterMode := MCAST_EXCLUDE_SOURCES
      sources := (entry.excludeCounts.filter fun elem =>
        decide (elem.2 = entry.numOfExcludeModeSockets) &&
          (ReferenceCounts.find addressKey entry.includeCounts elem.1).isNone).map Prod.fst }

/-- Whether the filter has changed, and the entry with the new one. -/
def updateSourceList (entry : HostMulticastGroupData) : Bool × HostMulticastGroupData :=
  if entry.sourceList ≠ entry.computed then (true, { entry with sourceList := entry.computed })
  else (false, entry)

end HostMulticastGroupData

namespace HostMulticastData

def findHostGroupData (data : HostMulticastData) (multicastAddress : IPv4Address) :
    Option HostMulticastGroupData :=
  data.joinedMulticastGroups.find? fun entry => entry.multicastGroup == multicastAddress

def removeHostGroupData (data : HostMulticastData) (multicastAddress : IPv4Address) :
    HostMulticastData :=
  { joinedMulticastGroups := data.joinedMulticastGroups.eraseP fun entry =>
      entry.multicastGroup == multicastAddress }

def isMemberOfMulticastGroup (data : HostMulticastData) (multicastAddress : IPv4Address) : Bool :=
  data.joinedMulticastGroups.any fun entry => entry.multicastGroup == multicastAddress

/-- The first entry of the group has been written through its pointer. -/
def replaceEntry (entry : HostMulticastGroupData) :
    List HostMulticastGroupData → List HostMulticastGroupData
  | [] => []
  | elem :: elems =>
    if elem.multicastGroup == entry.multicastGroup then entry :: elems
    else elem :: replaceEntry entry elems

/-- The entry of a group. One that is made is for a socket that has not had a filter. -/
def findOrAdd (data : HostMulticastData) (multicastAddress : IPv4Address)
    (oldFilterMode : McastSourceFilterMode) (oldSourceList : List IPv4Address) :
    Result (HostMulticastData × HostMulticastGroupData) :=
  match data.findHostGroupData multicastAddress with
  | some entry => .ok (data, entry)
  | none => do
      assert (oldFilterMode == MCAST_INCLUDE_SOURCES && oldSourceList.isEmpty)
        "oldFilterMode == MCAST_INCLUDE_SOURCES && oldSourceList.empty()"
      let entry : HostMulticastGroupData := { multicastGroup := multicastAddress }
      .ok ({ joinedMulticastGroups := data.joinedMulticastGroups ++ [entry] }, entry)

/-- The notifications when the filter of an entry has changed, the legacy ones last. -/
def notifications (entry : HostMulticastGroupData) (oldFilterMode : McastSourceFilterMode)
    (oldSourceList : List IPv4Address) (newFilterMode : McastSourceFilterMode)
    (newSourceList : List IPv4Address) : List Notification :=
  [.configChanged, .mcastChange entry.multicastGroup entry.sourceList] ++
    if oldFilterMode ≠ newFilterMode ∧ oldSourceList = [] ∧ newSourceList = [] then
      match newFilterMode with
      | MCAST_EXCLUDE_SOURCES => [.mcastJoin entry.multicastGroup]
      | MCAST_INCLUDE_SOURCES => [.mcastLeave entry.multicastGroup]
    else []

def changeMulticastGroupMembership (data : HostMulticastData) (multicastAddress : IPv4Address)
    (oldFilterMode : McastSourceFilterMode) (oldSourceList : List IPv4Address)
    (newFilterMode : McastSourceFilterMode) (newSourceList : List IPv4Address) :
    Result (List Notification × HostMulticastData) :=
  if !isMulticast multicastAddress then
    .error (.cRuntimeError ("IPv4InterfaceData::changeMulticastGroupMembership(): " ++
      "multicast address expected, received %s."))
  else do
    let (data, entry) ← data.findOrAdd multicastAddress oldFilterMode oldSourceList
    let entry ← entry.releaseSources oldFilterMode oldSourceList
    let entry := entry.acquireSources newFilterMode newSourceList
    let entry := entry.updateNumOfExcludeModeSockets oldFilterMode newFilterMode
    let (changed, entry) := entry.updateSourceList
    let data := { joinedMulticastGroups := replaceEntry entry data.joinedMulticastGroups }
    if changed then
      let notified := notifications entry oldFilterMode oldSourceList newFilterMode newSourceList
      -- remove group data if it is INCLUDE(empty)
      if entry.sourceList.isEmpty then .ok (notified, data.removeHostGroupData multicastAddress)
      else .ok (notified, data)
    else .ok ([], data)

/-- The filter of a group; without an entry it is INCLUDE of nothing. -/
def filterOf (data : HostMulticastData) (group : IPv4Address) : IPv4MulticastSourceList :=
  match data.findHostGroupData group with
  | some entry => entry.sourceList
  | none => {}

end HostMulticastData

section

/-- A source filter of a socket. -/
structure SocketFilter extends IPv4MulticastSourceList where
  nodup : sources.Nodup

instance : Inhabited SocketFilter := ⟨{ nodup := List.nodup_nil }⟩

/-- The sources that a filter lists if it has the given mode. -/
def SocketFilter.listed (filter : SocketFilter) (mode : McastSourceFilterMode) : List IPv4Address :=
  if filter.filterMode = mode then filter.sources else []

/-- A multicast address. -/
abbrev MulticastGroup := { addr : IPv4Address // isMulticast addr = true }

variable {ι : Type} [Fintype ι]

def sourceCount (mode : McastSourceFilterMode) (filters : ι → SocketFilter) (a : IPv4Address) :
    ℕ :=
  ∑ i, ((filters i).listed mode).count a

def excludeSockets (filters : ι → SocketFilter) : ℕ :=
  ∑ i, if (filters i).filterMode = MCAST_EXCLUDE_SOURCES then 1 else 0

/-- The counts of an entry are those of the filters. -/
structure Exact (entry : HostMulticastGroupData) (filters : ι → SocketFilter) : Prop where
  counts : ∀ mode,
    ReferenceCounts.Counts addressKey (entry.counts mode) (sourceCount mode filters)
  numOfExclude : entry.numOfExcludeModeSockets = excludeSockets filters

theorem count_listed_le (filter : SocketFilter) (mode : McastSourceFilterMode) (a : IPv4Address) :
    (filter.listed mode).count a ≤ if filter.filterMode = mode then 1 else 0 := by
  rw [SocketFilter.listed]
  split_ifs
  · exact List.nodup_iff_count_le_one.mp filter.nodup a
  · rw [List.count_nil]

theorem sourceCount_pos {mode : McastSourceFilterMode} {filters : ι → SocketFilter}
    {a : IPv4Address} :
    0 < sourceCount mode filters a ↔ ∃ i, (filters i).filterMode = mode ∧
      a ∈ (filters i).sources := by
  rw [sourceCount, Finset.sum_pos_iff]
  simp only [Finset.mem_univ, true_and, List.count_pos_iff, SocketFilter.listed]
  refine exists_congr fun i => ?_
  split_ifs with hmode <;> simp [hmode]

theorem excludeSockets_pos {filters : ι → SocketFilter} :
    0 < excludeSockets filters ↔ ∃ i, (filters i).filterMode = MCAST_EXCLUDE_SOURCES := by
  rw [excludeSockets, Finset.sum_pos_iff]
  refine ⟨?_, ?_⟩
  · rintro ⟨i, -, hi⟩
    exact ⟨i, by by_contra hmode; simp [hmode] at hi⟩
  · rintro ⟨i, hi⟩
    exact ⟨i, Finset.mem_univ i, by simp [hi]⟩

/-- A source that is excluded as often as there are sockets with mode EXCLUDE is excluded by all
of them. -/
theorem sourceCount_eq_excludeSockets {filters : ι → SocketFilter} {a : IPv4Address} :
    sourceCount MCAST_EXCLUDE_SOURCES filters a = excludeSockets filters ↔
      ∀ i, (filters i).filterMode = MCAST_EXCLUDE_SOURCES → a ∈ (filters i).sources := by
  rw [sourceCount, excludeSockets,
    Finset.sum_eq_sum_iff_of_le fun i _ => count_listed_le (filters i) _ a]
  simp only [Finset.mem_univ, true_imp_iff, SocketFilter.listed]
  refine forall_congr' fun i => ?_
  split_ifs with hmode
  · rw [forall_prop_of_true hmode, ← List.count_pos_iff]
    have := List.nodup_iff_count_le_one.mp (filters i).nodup a
    omega
  · exact iff_of_true rfl fun h => absurd h hmode

end

variable {ι : Type} [Fintype ι] {entry : HostMulticastGroupData} {filters : ι → SocketFilter}

theorem IPv4MulticastSourceList.contains_eq_true {list : IPv4MulticastSourceList}
    {a : IPv4Address} :
    list.contains a = true ↔ (list.filterMode = MCAST_INCLUDE_SOURCES ∧ a ∈ list.sources) ∨
        (list.filterMode = MCAST_EXCLUDE_SOURCES ∧ a ∉ list.sources) := by
  simp [IPv4MulticastSourceList.contains]

section

variable (h : Exact entry filters)

include h

theorem Exact.computed_include (hmode : excludeSockets filters = 0) : entry.computed =
      { filterMode := MCAST_INCLUDE_SOURCES, sources := entry.includeCounts.map Prod.fst } :=
  if_pos (by rw [h.numOfExclude, hmode]; rfl)

theorem Exact.computed_exclude (hmode : 0 < excludeSockets filters) : entry.computed =
      { filterMode := MCAST_EXCLUDE_SOURCES
        sources := (entry.excludeCounts.filter fun elem =>
          decide (elem.2 = entry.numOfExcludeModeSockets) &&
            (ReferenceCounts.find addressKey entry.includeCounts elem.1).isNone).map Prod.fst } :=
  if_neg (by rw [h.numOfExclude]; omega)

/-- The mode of the interface is EXCLUDE if that of some socket is. -/
theorem Exact.filterMode_iff : entry.computed.filterMode = MCAST_EXCLUDE_SOURCES ↔
      ∃ i, (filters i).filterMode = MCAST_EXCLUDE_SOURCES := by
  rw [← excludeSockets_pos]
  obtain hmode | hmode := Nat.eq_zero_or_pos (excludeSockets filters)
  · rw [h.computed_include hmode, hmode]
    simp
  · rw [h.computed_exclude hmode]
    simp [hmode]

/-- The excluded sources are those that all sockets with mode EXCLUDE exclude and no other socket
includes. -/
theorem Exact.mem_excluded (hmode : 0 < excludeSockets filters) {a : IPv4Address} :
    a ∈ entry.computed.sources ↔
      (∀ i, (filters i).filterMode = MCAST_EXCLUDE_SOURCES → a ∈ (filters i).sources) ∧
        ¬ ∃ i, (filters i).filterMode = MCAST_INCLUDE_SOURCES ∧ a ∈ (filters i).sources := by
  have hinclude : ReferenceCounts.Counts addressKey entry.includeCounts _ :=
    h.counts MCAST_INCLUDE_SOURCES
  have hexclude : ReferenceCounts.Counts addressKey entry.excludeCounts _ :=
    h.counts MCAST_EXCLUDE_SOURCES
  have hfind : (ReferenceCounts.find addressKey entry.includeCounts a).isNone = true ↔
      sourceCount MCAST_INCLUDE_SOURCES filters a = 0 := by
    obtain hzero | hpos := Nat.eq_zero_or_pos (sourceCount MCAST_INCLUDE_SOURCES filters a)
    · exact iff_of_true (by rw [hinclude.find_eq_none addressKey_injective hzero]; rfl) hzero
    · exact iff_of_false (by rw [hinclude.find_eq_some hpos]; simp) hpos.ne'
  rw [← sourceCount_eq_excludeSockets, ← sourceCount_pos, Nat.pos_iff_ne_zero, not_not,
    h.computed_exclude hmode, List.mem_map]
  constructor
  · rintro ⟨⟨b, n⟩, hmem, rfl⟩
    rw [List.mem_filter, Bool.and_eq_true, decide_eq_true_eq, hfind] at hmem
    obtain ⟨hmem, hn, hzero⟩ := hmem
    have hcount := ((hexclude.mem_iff b n).mp hmem).2
    have hnum := h.numOfExclude
    dsimp only at hn ⊢
    exact ⟨by omega, hzero⟩
  · rintro ⟨hall, hzero⟩
    refine ⟨(a, sourceCount MCAST_EXCLUDE_SOURCES filters a), ?_, rfl⟩
    rw [List.mem_filter, Bool.and_eq_true, decide_eq_true_eq, hfind]
    exact ⟨(hexclude.mem_iff a _).mpr ⟨by omega, rfl⟩, by rw [h.numOfExclude, hall], hzero⟩

/-- The filter of the interface accepts what some socket accepts. -/
theorem Exact.contains_iff {a : IPv4Address} :
    entry.computed.contains a = true ↔ ∃ i, (filters i).contains a = true := by
  simp only [IPv4MulticastSourceList.contains_eq_true]
  obtain hmode | hmode := Nat.eq_zero_or_pos (excludeSockets filters)
  · have hnone : ¬ ∃ i, (filters i).filterMode = MCAST_EXCLUDE_SOURCES := by
      rw [← excludeSockets_pos]
      omega
    have hmem := (h.counts MCAST_INCLUDE_SOURCES).mem_keys (a := a)
    rw [sourceCount_pos] at hmem
    rw [h.computed_include hmode]
    constructor
    · rintro (⟨-, ha⟩ | ⟨heq, -⟩)
      · obtain ⟨i, hi⟩ := hmem.mp ha
        exact ⟨i, .inl hi⟩
      · cases heq
    · rintro ⟨i, hi | hi⟩
      · exact .inl ⟨rfl, hmem.mpr ⟨i, hi⟩⟩
      · exact absurd ⟨i, hi.1⟩ hnone
  · have hfilter := h.filterMode_iff.mpr (excludeSockets_pos.mp hmode)
    rw [h.mem_excluded hmode, hfilter]
    constructor
    · rintro (⟨heq, -⟩ | ⟨-, ha⟩)
      · cases heq
      · rw [not_and_or, not_not] at ha
        obtain ha | ⟨i, hi⟩ := ha
        · obtain ⟨i, hi⟩ := not_forall.mp ha
          exact ⟨i, .inr (Classical.not_imp.mp hi)⟩
        · exact ⟨i, .inl hi⟩
    · rintro ⟨i, hi | hi⟩
      · exact .inr ⟨rfl, fun ha => ha.2 ⟨i, hi⟩⟩
      · exact .inr ⟨rfl, fun ha => hi.2 (ha.1 i hi.1)⟩

theorem Exact.sorted : entry.computed.sources.Pairwise fun a b => a.toNat < b.toNat := by
  obtain hmode | hmode := Nat.eq_zero_or_pos (excludeSockets filters)
  · rw [h.computed_include hmode]
    exact List.pairwise_map.mpr (h.counts MCAST_INCLUDE_SOURCES).sorted
  · rw [h.computed_exclude hmode]
    exact List.pairwise_map.mpr ((h.counts MCAST_EXCLUDE_SOURCES).sorted.filter _)

/-- The filter is INCLUDE of nothing only if those of all sockets are. -/
theorem Exact.computed_eq_empty (hempty : entry.computed = {}) (i : ι) :
    (filters i).toIPv4MulticastSourceList = {} := by
  have hmode : (filters i).filterMode ≠ MCAST_EXCLUDE_SOURCES := fun hi => by
    have := h.filterMode_iff.mpr ⟨i, hi⟩
    rw [hempty] at this
    cases this
  have hinclude : (filters i).filterMode = MCAST_INCLUDE_SOURCES := by
    cases hi : (filters i).filterMode with
    | MCAST_INCLUDE_SOURCES => rfl
    | MCAST_EXCLUDE_SOURCES => exact absurd hi hmode
  have hsources : (filters i).sources = [] := by
    rw [List.eq_nil_iff_forall_not_mem]
    intro a ha
    have hcontains := h.contains_iff.mpr
      ⟨i, IPv4MulticastSourceList.contains_eq_true.mpr (.inl ⟨hinclude, ha⟩)⟩
    rw [hempty] at hcontains
    simp [IPv4MulticastSourceList.contains] at hcontains
  rw [← IPv4MulticastSourceList.isEmpty_iff, IPv4MulticastSourceList.isEmpty, hinclude, hsources]
  rfl

end

theorem counts_withCounts (entry : HostMulticastGroupData) (counts : List (IPv4Address × ℤ))
    (mode mode' : McastSourceFilterMode) :
    (entry.withCounts counts mode).counts mode' =
      if mode' = mode then counts else entry.counts mode' := by
  cases mode <;> cases mode' <;> rfl

/-- What the entry knows apart from the counts of sources. -/
theorem withCounts_rest (entry : HostMulticastGroupData) (counts : List (IPv4Address × ℤ))
    (mode : McastSourceFilterMode) :
    (entry.withCounts counts mode).multicastGroup = entry.multicastGroup ∧
      (entry.withCounts counts mode).sourceList = entry.sourceList ∧
      (entry.withCounts counts mode).numOfExcludeModeSockets = entry.numOfExcludeModeSockets := by
  cases mode <;> exact ⟨rfl, rfl, rfl⟩

theorem counts_updateNum (entry : HostMulticastGroupData) (old new mode : McastSourceFilterMode) :
    (entry.updateNumOfExcludeModeSockets old new).counts mode = entry.counts mode := by
  cases old <;> cases new <;> cases mode <;> rfl

theorem updateNum_rest (entry : HostMulticastGroupData) (old new : McastSourceFilterMode) :
    (entry.updateNumOfExcludeModeSockets old new).multicastGroup = entry.multicastGroup ∧
      (entry.updateNumOfExcludeModeSockets old new).sourceList = entry.sourceList := by
  cases old <;> cases new <;> exact ⟨rfl, rfl⟩

theorem updateNum_num (entry : HostMulticastGroupData) (old new : McastSourceFilterMode) :
    (entry.updateNumOfExcludeModeSockets old new).numOfExcludeModeSockets +
        ((if old = MCAST_EXCLUDE_SOURCES then 1 else 0 : ℕ) : ℤ) =
      entry.numOfExcludeModeSockets + ((if new = MCAST_EXCLUDE_SOURCES then 1 else 0 : ℕ) : ℤ) := by
  cases old <;> cases new <;>
    simp [HostMulticastGroupData.updateNumOfExcludeModeSockets]

variable [DecidableEq ι]

/-- The counts follow a socket that changes its filter. -/
theorem Exact.update (h : Exact entry filters) (i : ι) (filter : SocketFilter) :
    ∃ released, entry.releaseSources (filters i).filterMode (filters i).sources = .ok released ∧
      released.multicastGroup = entry.multicastGroup ∧
      released.sourceList = entry.sourceList ∧
      Exact ((released.acquireSources filter.filterMode
          filter.sources).updateNumOfExcludeModeSockets (filters i).filterMode filter.filterMode)
        (Function.update filters i filter) := by
  have hle (mode : McastSourceFilterMode) (b : IPv4Address) :
      ((filters i).listed mode).count b ≤ sourceCount mode filters b :=
    Finset.single_le_sum (f := fun j => ((filters j).listed mode).count b)
      (fun _ _ => Nat.zero_le _) (Finset.mem_univ i)
  have hlisted (filter : SocketFilter) : filter.listed filter.filterMode = filter.sources :=
    if_pos rfl
  obtain ⟨counts, hrelease, hcounts⟩ := (h.counts (filters i).filterMode).foldlM_release
    addressKey_injective (hlisted (filters i) ▸ hle (filters i).filterMode)
  obtain ⟨hgroup, hlist, hnum⟩ := withCounts_rest entry counts (filters i).filterMode
  refine ⟨entry.withCounts counts (filters i).filterMode, ?_, hgroup, hlist, ?_, ?_⟩
  · rw [HostMulticastGroupData.releaseSources, hrelease]
  · intro mode
    have hreleased (mode : McastSourceFilterMode) : ReferenceCounts.Counts addressKey
          ((entry.withCounts counts (filters i).filterMode).counts mode)
          fun b => sourceCount mode filters b - ((filters i).listed mode).count b := by
      rw [counts_withCounts]
      split_ifs with hmode
      · rw [hmode, hlisted]
        exact hcounts
      · refine (h.counts mode).congr fun b => ?_
        rw [SocketFilter.listed, if_neg (Ne.symm hmode), List.count_nil, Nat.sub_zero]
    have hacquired : ReferenceCounts.Counts addressKey
        (((entry.withCounts counts (filters i).filterMode).acquireSources filter.filterMode
          filter.sources).counts mode)
        fun b => sourceCount mode filters b - ((filters i).listed mode).count b +
          (filter.listed mode).count b := by
      rw [HostMulticastGroupData.acquireSources, counts_withCounts]
      split_ifs with hmode
      · rw [← hmode, ← hlisted filter, hmode]
        exact (hreleased filter.filterMode).foldl_acquire addressKey_injective _
      · refine (hreleased mode).congr fun b => ?_
        rw [show filter.listed mode = [] from if_neg (Ne.symm hmode), List.count_nil, Nat.add_zero]
    rw [counts_updateNum]
    refine hacquired.congr fun b => ?_
    have hsum := ReferenceCounts.sum_update filters i filter fun f => (f.listed mode).count b
    have hold := hle mode b
    simp only [sourceCount] at hold ⊢
    omega
  · have hsum := ReferenceCounts.sum_update filters i filter fun f =>
      if f.filterMode = MCAST_EXCLUDE_SOURCES then 1 else 0
    have hnew := updateNum_num ((entry.withCounts counts (filters i).filterMode).acquireSources
      filter.filterMode filter.sources) (filters i).filterMode filter.filterMode
    rw [HostMulticastGroupData.acquireSources, (withCounts_rest _ _ _).2.2, hnum,
      h.numOfExclude, ← Int.natCast_add, excludeSockets, ← hsum, Int.natCast_add] at hnew
    exact add_right_cancel hnew

end Inet.Igmp
