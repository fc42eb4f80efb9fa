import Inet.Igmp.IGMPv3Router

/-!
# Forwarded sources and reported listeners

The interface keeps a copy of what `collectForwardedSources` computes for each group. Reports
refresh the copy. The timers do not, apart from removing the group: a source timer leaves a stale
copy while another source is forwarded, and so does a group timer that changes the filter mode.

`hasMulticastListener` answers for the sources that the copy does not contain, so it is right only
for groups that are not listed.
-/

namespace Inet.Igmp

open Inet.Ipv4 (IPv4Address)
open FilterMode ReportType McastSourceFilterMode

namespace RouterGroupData

variable {groupData groupData' : RouterGroupData} {source : IPv4Address}
  {receivedSources : List IPv4Address}

@[simp] theorem startSourceTimer_groupAddr (groupData : RouterGroupData) (source : IPv4Address) :
    (groupData.startSourceTimer source).groupAddr = groupData.groupAddr := rfl

@[simp] theorem startTimer_groupAddr (groupData : RouterGroupData) :
    groupData.startTimer.groupAddr = groupData.groupAddr := rfl

/-- A loop whose body keeps the address keeps it. -/
theorem foldl_groupAddr {f : RouterGroupData → IPv4Address → RouterGroupData}
    (hf : ∀ groupData source, (f groupData source).groupAddr = groupData.groupAddr)
    (sources : List IPv4Address) (groupData : RouterGroupData) :
    (sources.foldl f groupData).groupAddr = groupData.groupAddr := by
  induction sources generalizing groupData with
  | nil => rfl
  | cons source sources ih => exact (ih _).trans (hf groupData source)

@[simp] theorem startSourceTimers_groupAddr (groupData : RouterGroupData)
    (receivedSources : List IPv4Address) :
    (groupData.startSourceTimers receivedSources).groupAddr = groupData.groupAddr :=
  foldl_groupAddr startSourceTimer_groupAddr receivedSources groupData

@[simp] theorem createMissing_groupAddr (groupData : RouterGroupData)
    (receivedSources : List IPv4Address) (start : Bool) :
    (groupData.createMissing receivedSources start).groupAddr = groupData.groupAddr := by
  refine foldl_groupAddr (fun groupData source => ?_) receivedSources groupData
  split_ifs <;> rfl

theorem deleteByNext_groupAddr {elems : List SourceRecord}
    (h : deleteByNext receivedSources elems groupData = .ok groupData') :
    groupData'.groupAddr = groupData.groupAddr := by
  induction elems generalizing groupData with
  | nil => rw [← Except.ok.inj h]
  | cons elem elems ih =>
    cases elems with
    | nil => cases h
    | cons next rest =>
      rw [ih h]
      split_ifs <;> rfl

theorem processRecord_groupAddr {groupMembershipInterval : ℕ} {recordType : ReportType}
    (h : groupData.processRecord groupMembershipInterval receivedSources recordType =
      .ok groupData') : groupData'.groupAddr = groupData.groupAddr := by
  cases recordType with
  | IGMPV3_RT_IS_IN =>
    cases h
    exact startSourceTimers_groupAddr _ _
  | IGMPV3_RT_IS_EX =>
    rw [processRecord, processIsEx, deleteOthers] at h
    split_ifs at h
    · cases h
      exact createMissing_groupAddr _ _ _
    · cases h
  | IGMPV3_RT_TO_IN =>
    cases h
    rw [processToIn]
    cases groupData.filter <;> exact startSourceTimers_groupAddr _ _
  | IGMPV3_RT_TO_EX =>
    rw [processRecord, processToEx] at h
    cases hfilter : groupData.filter with
    | IGMPV3_FM_INCLUDE =>
      rw [hfilter] at h
      cases h
      refine (foldl_groupAddr (fun groupData source => ?_) _ _).trans
        (createMissing_groupAddr _ _ _)
      split_ifs <;> rfl
    | IGMPV3_FM_EXCLUDE =>
      rw [hfilter] at h
      obtain ⟨deleted, hdeleted, hok⟩ := bind_eq_ok.mp h
      rw [← Except.ok.inj hok, createMissing_groupAddr, deleteByNext_groupAddr hdeleted,
        startTimer_groupAddr]
  | IGMPV3_RT_ALLOW =>
    cases h
    exact startSourceTimers_groupAddr _ _
  | IGMPV3_RT_BLOCK =>
    cases h
    rw [processBlock]
    cases groupData.filter
    · rfl
    · exact createMissing_groupAddr _ _ _

/-- What the interface should list for a group: nothing if no source is forwarded. -/
def expectedSources (groupData : Option RouterGroupData) : Option IPv4MulticastSourceList :=
  (groupData.map collectForwardedSources).filter fun list => list ≠ {}

theorem expectedSources_some (groupData : RouterGroupData) : expectedSources (some groupData) =
      if groupData.collectForwardedSources = {} then none
      else some groupData.collectForwardedSources := by
  rw [expectedSources, Option.map_some, Option.filter_some]
  split_ifs <;> simp_all

theorem expectedSources_getD (groupData : RouterGroupData) :
    (expectedSources (some groupData)).getD {} = groupData.collectForwardedSources := by
  rw [expectedSources_some]
  split_ifs with h
  · exact h.symm
  · rfl

theorem expectedSources_inj {groupData groupData' : RouterGroupData} :
    expectedSources (some groupData) = expectedSources (some groupData') ↔
      groupData.collectForwardedSources = groupData'.collectForwardedSources := by
  constructor
  · intro h
    rw [← expectedSources_getD, h, expectedSources_getD]
  · intro h
    rw [expectedSources_some, h, expectedSources_some]

end RouterGroupData

namespace RouterInterfaceData

open RouterGroupData (expectedSources expectedSources_some expectedSources_getD expectedSources_inj
  key anyRunning stopSourceTimer collectForwardedSources)

variable {data data' : RouterInterfaceData} {groupData : RouterGroupData}
  {group group' : IPv4Address} {groupMembershipInterval : ℕ}

/-- The tables have one entry for a group. -/
structure WellFormed (data : RouterInterfaceData) : Prop where
  sorted : KeyedList.Sorted RouterGroupData.key data.groups
  distinct : data.ipv4Data.Distinct

/-- The interface lists what the router forwards. -/
def Agrees (data : RouterInterfaceData) : Prop :=
  ∀ group, data.ipv4Data.listed group = expectedSources (data.findGroupData group)

theorem groupAddr_of_find (h : data.findGroupData group = some groupData) :
    groupData.groupAddr = group := by
  have hkey := List.find?_some h
  exact BitVec.eq_of_toNat_eq (of_decide_eq_true hkey)

section

variable (h : WellFormed data)

include h

theorem findGroupData_put (groupData : RouterGroupData)
    (group : IPv4Address) : (data.putGroupData groupData).findGroupData group =
      if groupData.groupAddr = group then some groupData else data.findGroupData group := by
  rw [findGroupData, putGroupData, KeyedList.lookup_insert_erase h.sorted]
  simp only [key, BitVec.toNat_inj]
  rfl

theorem findGroupData_delete (group group' : IPv4Address) :
    (data.deleteGroupData group).findGroupData group' =
      if group = group' then none else data.findGroupData group' := by
  rw [findGroupData, deleteGroupData, KeyedList.erase, KeyedList.lookup_filter h.sorted]
  split_ifs with heq
  · subst heq
    rw [Option.filter_eq_none_iff]
    intro groupData hfind
    have := groupAddr_of_find hfind
    simp [key, this]
  · cases hfind : KeyedList.lookup key data.groups group'.toNat with
    | none => rw [findGroupData, hfind, Option.filter_none]
    | some groupData =>
      have hgroup := groupAddr_of_find hfind
      have hne : key groupData ≠ group.toNat := by
        rw [key, hgroup, Ne, BitVec.toNat_inj]
        exact fun h => heq h.symm
      rw [findGroupData, hfind, Option.filter_some, if_pos (decide_eq_true hne)]

theorem WellFormed.put (groupData : RouterGroupData) :
    WellFormed (data.putGroupData groupData) where
  sorted := (h.sorted.erase _).insert fun _ hy => (KeyedList.mem_erase.mp hy).2
  distinct := h.distinct

theorem WellFormed.delete (group : IPv4Address) : WellFormed (data.deleteGroupData group) where
  sorted := h.sorted.erase _
  distinct := h.distinct.removeRouterGroupData group

theorem listed_delete (group group' : IPv4Address) :
    (data.deleteGroupData group).ipv4Data.listed group' =
      if group = group' then none else data.ipv4Data.listed group' :=
  IPv4InterfaceData.listed_removeRouterGroupData h.distinct group group'

theorem Agrees.delete (agrees : Agrees data) (group : IPv4Address) :
    Agrees (data.deleteGroupData group) := by
  intro group'
  rw [listed_delete h, findGroupData_delete h]
  split_ifs
  · rfl
  · exact agrees group'

/-- New data about a group, with the list as it is, agrees if what it forwards is listed. -/
theorem agrees_put_iff (agrees : Agrees data) : Agrees (data.putGroupData groupData) ↔
      data.ipv4Data.listed groupData.groupAddr = expectedSources (some groupData) := by
  constructor
  · intro hput
    have := hput groupData.groupAddr
    rwa [findGroupData_put h, if_pos rfl] at this
  · intro hlisted group
    rw [findGroupData_put h]
    split_ifs with heq
    · rw [← heq]
      exact hlisted
    · exact agrees group

end

theorem of_getOrCreateGroupData (hok : data.getOrCreateGroupData group = .ok groupData) :
    groupData.groupAddr = group ∧
      expectedSources (data.findGroupData group) = expectedSources (some groupData) := by
  rw [getOrCreateGroupData] at hok
  cases hfind : data.findGroupData group with
  | some found =>
    rw [hfind] at hok
    cases hok
    exact ⟨groupAddr_of_find hfind, rfl⟩
  | none =>
    rw [hfind] at hok
    obtain ⟨-, -, hnew⟩ := bind_eq_ok.mp hok
    cases hnew
    exact ⟨rfl, rfl⟩

theorem processGroupRecord_keeps {gr : GroupRecord} (h : WellFormed data)
    (hok : data.processGroupRecord groupMembershipInterval gr = .ok data') :
    WellFormed data' ∧ (Agrees data → Agrees data') := by
  rw [processGroupRecord] at hok
  obtain ⟨old, hold, hok⟩ := bind_eq_ok.mp hok
  obtain ⟨new, hnew, hok⟩ := bind_eq_ok.mp hok
  obtain ⟨hgroup, hexpected⟩ := of_getOrCreateGroupData hold
  have haddr := RouterGroupData.processRecord_groupAddr hnew
  have hlisted (agrees : Agrees data) :
      data.ipv4Data.listed new.groupAddr = expectedSources (some old) := by
    rw [haddr, hgroup, agrees, hexpected]
  dsimp only at hok
  split_ifs at hok with hchanged
  · -- the list is refreshed
    obtain ⟨ipv4Data, hset, hok⟩ := bind_eq_ok.mp hok
    cases hok
    refine ⟨⟨(h.put new).sorted, h.distinct.setMulticastListeners hset⟩, fun agrees => ?_⟩
    have hdiffers : new.collectForwardedSources ≠ (data.ipv4Data.listed new.groupAddr).getD {} := by
      rw [hlisted agrees, expectedSources_getD]
      exact hchanged
    intro group
    show ipv4Data.listed group = expectedSources ((data.putGroupData new).findGroupData group)
    rw [IPv4InterfaceData.setMulticastListeners_spec h.distinct hdiffers hset, findGroupData_put h]
    split_ifs with heq hnone
    · rw [expectedSources_some, if_pos hnone]
    · rw [expectedSources_some, if_neg hnone]
    · exact agrees group
  · cases hok
    refine ⟨h.put new, fun agrees => (agrees_put_iff h agrees).mpr ?_⟩
    rw [hlisted agrees, expectedSources_some, expectedSources_some, not_ne_iff.mp hchanged]

theorem processReport_keeps {records : List GroupRecord} (h : WellFormed data)
    (hok : data.processReport groupMembershipInterval records = .ok data') :
    WellFormed data' ∧ (Agrees data → Agrees data') := by
  induction records generalizing data with
  | nil =>
    cases hok
    exact ⟨h, id⟩
  | cons gr records ih =>
    rw [processReport, List.foldlM_cons] at hok
    obtain ⟨next, hnext, hok⟩ := bind_eq_ok.mp hok
    obtain ⟨hwell, hagrees⟩ := processGroupRecord_keeps h hnext
    obtain ⟨hwell', hagrees'⟩ := ih hwell hok
    exact ⟨hwell', hagrees' ∘ hagrees⟩

theorem processQuery_keeps {srcAddr groupAddr : IPv4Address} (h : WellFormed data)
    (hok : data.processQuery srcAddr groupAddr = .ok data') :
    WellFormed data' ∧ (Agrees data → Agrees data') := by
  obtain ⟨elected, helected, hgroups, hipv4⟩ : ∃ elected : RouterInterfaceData, elected =
      (if srcAddr < data.ipAddress then { data with state := .IGMPV3_RS_NON_QUERIER } else data) ∧
        elected.groups = data.groups ∧ elected.ipv4Data = data.ipv4Data := by
    refine ⟨_, rfl, ?_, ?_⟩
    · split_ifs <;> rfl
    · split_ifs <;> rfl
  have hwell : WellFormed elected := ⟨hgroups ▸ h.sorted, hipv4 ▸ h.distinct⟩
  have hagrees (agrees : Agrees data) : Agrees elected := by
    intro group
    rw [hipv4, findGroupData, hgroups]
    exact agrees group
  rw [processQuery, ← helected] at hok
  split_ifs at hok
  · obtain ⟨groupData, hget, hok⟩ := bind_eq_ok.mp hok
    cases hok
    refine ⟨hwell.put _, fun agrees => (agrees_put_iff hwell (hagrees agrees)).mpr ?_⟩
    obtain ⟨rfl, hexpected⟩ := of_getOrCreateGroupData hget
    have hlisted := hagrees agrees groupData.groupAddr
    rw [hexpected] at hlisted
    split_ifs
    · exact hlisted
    · exact hlisted
  · cases hok
    exact ⟨hwell, hagrees⟩

/-- What is listed about a group before its timer or the timer of a source expires. -/
theorem Agrees.listed (agrees : Agrees data) (hfind : data.findGroupData group = some groupData) :
    data.ipv4Data.listed group = expectedSources (some groupData) := by
  rw [agrees, hfind]

/-- The loop ends if all source timers are running. -/
theorem anyRunning_eq_ok {elems : List SourceRecord} {timerRunning : Bool} :
    anyRunning elems = .ok timerRunning ↔
      (∀ elem ∈ elems, elem.running = true) ∧ timerRunning = !elems.isEmpty := by
  induction elems generalizing timerRunning with
  | nil =>
    rw [anyRunning]
    constructor
    · intro h
      exact ⟨by simp, (Except.ok.inj h).symm⟩
    · rintro ⟨-, rfl⟩
      rfl
  | cons elem elems ih =>
    rw [anyRunning]
    cases hrunning : elem.running with
    | false => simp [hrunning]
    | true =>
      simp only [Bool.not_true, Bool.false_eq_true, if_false, bind_eq_ok, ih,
        List.forall_mem_cons, hrunning, true_and, List.isEmpty_cons, Bool.not_false]
      constructor
      · rintro ⟨_, ⟨hall, -⟩, hok⟩
        exact ⟨hall, (Except.ok.inj hok).symm⟩
      · rintro ⟨hall, rfl⟩
        exact ⟨_, ⟨hall, rfl⟩, rfl⟩

/-- A group timer leaves a stale list if it changes the mode of a group with sources. -/
def KeepsGroup (groupData : RouterGroupData) : Prop :=
  groupData.filter = IGMPV3_FM_EXCLUDE →
    (∀ elem ∈ groupData.sources, elem.running = true) → groupData.sources = []

theorem processRouterGroupTimer_spec (h : WellFormed data)
    (hfind : data.findGroupData group = some groupData)
    (hok : data.processRouterGroupTimer { groupData with running := false } = .ok data') :
    WellFormed data' ∧ (Agrees data → (Agrees data' ↔ KeepsGroup groupData)) := by
  obtain rfl := groupAddr_of_find hfind
  obtain ⟨groupAddr, filter, state, running, sources⟩ := groupData
  cases filter with
  | IGMPV3_FM_INCLUDE =>
    cases hok
    refine ⟨h.put _, fun agrees => iff_of_true ?_ fun hexclude => nomatch hexclude⟩
    rw [agrees_put_iff h agrees, agrees.listed hfind]
    rfl
  | IGMPV3_FM_EXCLUDE =>
    obtain ⟨timerRunning, hany, hok⟩ := bind_eq_ok.mp hok
    obtain ⟨hall, rfl⟩ := anyRunning_eq_ok.mp hany
    cases sources with
    | nil =>
      cases hok
      exact ⟨h.delete _, fun agrees => iff_of_true (agrees.delete h _) fun _ _ => rfl⟩
    | cons elem rest =>
      cases hok
      refine ⟨h.put _, fun agrees => iff_of_false ?_ fun hkeeps => ?_⟩
      · -- the list still has the old mode
        rw [agrees_put_iff h agrees, agrees.listed hfind, expectedSources_inj]
        intro hsame
        cases congrArg IPv4MulticastSourceList.filterMode hsame
      · cases hkeeps rfl hall

/-- A source timer leaves a stale list if another source timer is running. -/
def KeepsSource (groupData : RouterGroupData) (source : IPv4Address) : Prop :=
  ∀ elem ∈ groupData.sources, elem.running = true → elem.sourceAddr = source

variable {source : IPv4Address}

theorem mem_sources_stop {elem : SourceRecord} :
    elem ∈ (groupData.stopSourceTimer source).sources ↔ ∃ old ∈ groupData.sources,
      elem.sourceAddr = old.sourceAddr ∧
        elem.running = (old.running && decide (old.sourceAddr ≠ source)) := by
  rw [stopSourceTimer, List.mem_map]
  refine exists_congr fun old => and_congr_right fun _ => ?_
  obtain ⟨addr, running⟩ := elem
  by_cases heq : old.sourceAddr = source
  · simp [heq, eq_comm]
  · simp [heq, SourceRecord.ext_iff, eq_comm]

/-- The record after the expiry of its timer. -/
def expireSource (groupData : RouterGroupData) (source : IPv4Address) : RouterGroupData :=
  match groupData.filter with
  | IGMPV3_FM_INCLUDE => (groupData.stopSourceTimer source).deleteSourceRecord source
  | IGMPV3_FM_EXCLUDE => groupData.stopSourceTimer source

theorem processRouterSourceTimer_eq (data : RouterInterfaceData) (groupData : RouterGroupData)
    (source : IPv4Address) :
    data.processRouterSourceTimer (groupData.stopSourceTimer source) source =
      if (expireSource groupData source).sources.all fun elem => !elem.running then
        data.deleteGroupData groupData.groupAddr
      else data.putGroupData (expireSource groupData source) := by
  obtain ⟨groupAddr, filter, state, running, sources⟩ := groupData
  cases filter <;> rfl

theorem expireSource_groupAddr (groupData : RouterGroupData) (source : IPv4Address) :
    (expireSource groupData source).groupAddr = groupData.groupAddr := by
  obtain ⟨groupAddr, filter, state, running, sources⟩ := groupData
  cases filter <;> rfl

theorem mem_sources_expire_include {elem : SourceRecord}
    (hfilter : groupData.filter = IGMPV3_FM_INCLUDE) :
    elem ∈ (expireSource groupData source).sources ↔
      elem ∈ groupData.sources ∧ elem.sourceAddr ≠ source := by
  rw [expireSource, hfilter]
  show elem ∈ KeyedList.erase SourceRecord.key _ source.toNat ↔ _
  rw [KeyedList.mem_erase, mem_sources_stop, SourceRecord.key, Ne, BitVec.toNat_inj]
  refine and_congr_left fun hne => ?_
  constructor
  · rintro ⟨old, hold, haddr, hrunning⟩
    rw [decide_eq_true (haddr ▸ hne), Bool.and_true] at hrunning
    rwa [SourceRecord.ext haddr hrunning]
  · intro helem
    exact ⟨elem, helem, rfl, by rw [decide_eq_true hne, Bool.and_true]⟩

theorem all_expireSource :
    ((expireSource groupData source).sources.all fun elem => !elem.running) = true ↔
      KeepsSource groupData source := by
  rw [List.all_eq_true, KeepsSource]
  cases hfilter : groupData.filter with
  | IGMPV3_FM_INCLUDE =>
    simp only [mem_sources_expire_include hfilter, and_imp, Bool.not_eq_true']
    refine forall_congr' fun elem => imp_congr_right fun _ => ?_
    rw [← not_imp_not, not_not, Bool.not_eq_false]
  | IGMPV3_FM_EXCLUDE =>
    have hexpire : expireSource groupData source = groupData.stopSourceTimer source := by
      rw [expireSource, hfilter]
    simp only [hexpire, mem_sources_stop, Bool.not_eq_true']
    constructor
    · intro hall elem helem hrunning
      have hstopped := hall ⟨elem.sourceAddr, elem.running && decide (elem.sourceAddr ≠ source)⟩
        ⟨elem, helem, rfl, rfl⟩
      simpa [hrunning] using hstopped
    · rintro hall elem ⟨old, hold, -, hrunning⟩
      rw [hrunning]
      cases hold' : old.running with
      | false => rfl
      | true => simpa using hall old hold hold'

/-- A source whose timer has expired is no longer forwarded. -/
theorem collectForwardedSources_expire_ne
    (hrunning : ∃ elem ∈ groupData.sources, elem.sourceAddr = source ∧ elem.running = true) :
    (expireSource groupData source).collectForwardedSources ≠
      groupData.collectForwardedSources := by
  obtain ⟨elem, helem, rfl, htimer⟩ := hrunning
  intro hsame
  have hsources := congrArg IPv4MulticastSourceList.sources hsame
  cases hfilter : groupData.filter with
  | IGMPV3_FM_INCLUDE =>
    have hfilter' : (expireSource groupData elem.sourceAddr).filter = IGMPV3_FM_INCLUDE := by
      rw [expireSource, hfilter]
      exact hfilter
    simp only [collectForwardedSources, hfilter, hfilter'] at hsources
    have hmem : elem.sourceAddr ∈ (groupData.sources.filter fun elem => elem.running).map
        SourceRecord.sourceAddr :=
      List.mem_map_of_mem (List.mem_filter.mpr ⟨helem, htimer⟩)
    rw [← hsources, List.mem_map] at hmem
    obtain ⟨kept, hkept, haddr⟩ := hmem
    have hmem := List.mem_of_mem_filter hkept
    exact ((mem_sources_expire_include hfilter).mp hmem).2 haddr
  | IGMPV3_FM_EXCLUDE =>
    have hexpire : expireSource groupData elem.sourceAddr =
        groupData.stopSourceTimer elem.sourceAddr := by
      rw [expireSource, hfilter]
    have hlength := congrArg List.length hsources
    rw [hexpire] at hlength
    simp only [collectForwardedSources, stopSourceTimer, hfilter,
      List.length_map, List.filter_map] at hlength
    -- the sources that are blocked now, and those of them that were
    have hold : (groupData.sources.filter ((fun elem => !elem.running) ∘ fun e =>
        if e.sourceAddr = elem.sourceAddr then { e with running := false } else e)).filter
          (fun elem => !elem.running) = groupData.sources.filter fun elem => !elem.running := by
      rw [List.filter_filter]
      refine List.filter_congr fun e _ => ?_
      by_cases he : e.sourceAddr = elem.sourceAddr
      · simp [he]
      · simp [he]
    rw [← hold] at hlength
    refine Nat.ne_of_lt (List.length_filter_lt_length_iff_exists.mpr ⟨elem, ?_, ?_⟩)
      hlength.symm
    · rw [List.mem_filter]
      exact ⟨helem, by simp⟩
    · simp [htimer]

theorem processRouterSourceTimer_spec (h : WellFormed data)
    (hfind : data.findGroupData group = some groupData)
    (hrunning : ∃ elem ∈ groupData.sources, elem.sourceAddr = source ∧ elem.running = true) :
    WellFormed (data.processRouterSourceTimer (groupData.stopSourceTimer source) source) ∧
      (Agrees data →
        (Agrees (data.processRouterSourceTimer (groupData.stopSourceTimer source) source) ↔
          KeepsSource groupData source)) := by
  obtain rfl := groupAddr_of_find hfind
  rw [processRouterSourceTimer_eq]
  split_ifs with hlast
  · exact ⟨h.delete _, fun agrees =>
      iff_of_true (agrees.delete h _) (all_expireSource.mp hlast)⟩
  · refine ⟨h.put _, fun agrees => iff_of_false ?_ (mt all_expireSource.mpr hlast)⟩
    rw [agrees_put_iff h agrees, expireSource_groupAddr, agrees.listed hfind, expectedSources_inj]
    exact (collectForwardedSources_expire_ne hrunning).symm

/-- The timers that leave the copy as it should be. -/
def KeepsAgreement (data : RouterInterfaceData) : Event → Prop
  | .groupTimer group =>
    ∀ groupData, data.runningGroup group = some groupData → KeepsGroup groupData
  | .sourceTimer group source =>
    ∀ groupData, data.runningSource group source = some groupData → KeepsSource groupData source
  | _ => True

theorem step_exact {event : Event} (h : WellFormed data)
    (hok : data.step groupMembershipInterval event = .ok data') :
    WellFormed data' ∧ (Agrees data → (Agrees data' ↔ KeepsAgreement data event)) := by
  cases event with
  | report records =>
    obtain ⟨hwell, hagrees⟩ := processReport_keeps h hok
    exact ⟨hwell, fun agrees => iff_of_true (hagrees agrees) trivial⟩
  | query srcAddr groupAddr =>
    obtain ⟨hwell, hagrees⟩ := processQuery_keeps h hok
    exact ⟨hwell, fun agrees => iff_of_true (hagrees agrees) trivial⟩
  | generalQueryTimer =>
    cases hok
    rw [processRouterGeneralQueryTimer]
    split_ifs
    · exact ⟨⟨h.sorted, h.distinct⟩, fun agrees => iff_of_true agrees trivial⟩
    · exact ⟨h, fun agrees => iff_of_true agrees trivial⟩
  | groupTimer group =>
    rw [step] at hok
    rw [KeepsAgreement]
    cases hgroup : data.runningGroup group with
    | none =>
      rw [hgroup] at hok
      cases hok
      exact ⟨h, fun agrees => iff_of_true agrees fun _ hnone => nomatch hnone⟩
    | some groupData =>
      rw [hgroup] at hok
      obtain ⟨hfind, -⟩ := Option.filter_eq_some_iff.mp hgroup
      obtain ⟨hwell, hexact⟩ := processRouterGroupTimer_spec h hfind hok
      refine ⟨hwell, fun agrees => (hexact agrees).trans ?_⟩
      simp only [Option.some.injEq, forall_eq']
  | sourceTimer group source =>
    rw [step] at hok
    rw [KeepsAgreement]
    cases hsource : data.runningSource group source with
    | none =>
      rw [hsource] at hok
      cases hok
      exact ⟨h, fun agrees => iff_of_true agrees fun _ hnone => nomatch hnone⟩
    | some groupData =>
      rw [hsource] at hok
      cases hok
      obtain ⟨hfind, hany⟩ := Option.filter_eq_some_iff.mp hsource
      have hrunning : ∃ elem ∈ groupData.sources,
          elem.sourceAddr = source ∧ elem.running = true := by
        simpa using hany
      obtain ⟨hwell, hexact⟩ := processRouterSourceTimer_spec h hfind hrunning
      refine ⟨hwell, fun agrees => (hexact agrees).trans ?_⟩
      simp only [Option.some.injEq, forall_eq']

/-- A step that is undefined has deleted a record, so it is not one that forgets the list. -/
theorem keepsAgreement_of_error {event : Event} {e : Error}
    (herror : data.step groupMembershipInterval event = .error e) : KeepsAgreement data event := by
  cases event with
  | report records => trivial
  | query srcAddr groupAddr => trivial
  | generalQueryTimer => trivial
  | groupTimer group =>
    intro groupData hgroup hexclude hall
    rw [step, hgroup] at herror
    have hany := anyRunning_eq_ok.mpr ⟨hall, rfl⟩
    simp only [processRouterGroupTimer, hexclude, hany, ok_bind] at herror
    split_ifs at herror
  | sourceTimer group source =>
    intro groupData hsource
    rw [step, hsource] at herror
    cases herror

/-- The source is among those that the router forwards for the group. -/
def forwards (data : RouterInterfaceData) (group source : IPv4Address) : Bool :=
  match expectedSources (data.findGroupData group) with
  | some list => list.contains source
  | none => false

/-- `hasMulticastListener` is true exactly for the sources that are forwarded. -/
def ListenersExact (data : RouterInterfaceData) : Prop :=
  ∀ group source, data.ipv4Data.hasMulticastListener group source = data.forwards group source

theorem listenersExact_iff (agrees : Agrees data) :
    ListenersExact data ↔ data.ipv4Data.reportedMulticastGroups = [] := by
  have hanswers (group source : IPv4Address) :
      data.ipv4Data.hasMulticastListener group source = data.forwards group source ↔
        data.ipv4Data.listed group = none := by
    rw [IPv4InterfaceData.hasMulticastListener_eq, forwards, ← agrees group]
    cases data.ipv4Data.listed group with
    | none => exact iff_of_true rfl rfl
    | some list => simp
  rw [IPv4InterfaceData.reported_eq_nil]
  constructor
  · intro hexact group
    exact (hanswers group 0).mp (hexact group 0)
  · intro hnone group source
    exact (hanswers group source).mpr (hnone group)

/-- A router that has just been started. -/
def init (state : RouterState) (ipAddress : IPv4Address) : RouterInterfaceData where
  state
  ipAddress

theorem agrees_init (state : RouterState) (ipAddress : IPv4Address) :
    Agrees (init state ipAddress) :=
  fun _ => rfl

theorem wellFormed_init (state : RouterState) (ipAddress : IPv4Address) :
    WellFormed (init state ipAddress) where
  sorted := List.Pairwise.nil
  distinct := List.nodup_nil

/-- The copy agrees along a run if and only if no timer forgets it. -/
theorem throughout_agrees_iff (state : RouterState) (ipAddress : IPv4Address)
    (events : List Event) :
    Run.Throughout (step groupMembershipInterval) Agrees (init state ipAddress) events ↔
      Run.Admissible (step groupMembershipInterval) KeepsAgreement (init state ipAddress)
        events := by
  have hwell : Run.Throughout (step groupMembershipInterval) WellFormed (init state ipAddress)
      events :=
    Run.throughout_of_preserved (fun data event data' h hok => (step_exact h hok).1)
      (wellFormed_init state ipAddress)
  have hboth : Run.Throughout (step groupMembershipInterval)
      (fun data => WellFormed data ∧ Agrees data) (init state ipAddress) events ↔
        Run.Admissible (step groupMembershipInterval) KeepsAgreement (init state ipAddress)
          events := by
    refine Run.throughout_iff_admissible (fun data event data' h hok => ?_)
      (fun data event e _ herror => keepsAgreement_of_error herror)
      ⟨wellFormed_init state ipAddress, agrees_init state ipAddress⟩
    obtain ⟨hwell, hexact⟩ := step_exact h.1 hok
    exact (and_iff_right hwell).trans (hexact h.2)
  rw [← hboth, Run.throughout_and_iff]
  exact (and_iff_right hwell).symm

/-- The interface reports what the router forwards along a run if and only if no timer forgets
the copy and no group is ever listed. -/
theorem reports_iff (groupMembershipInterval : ℕ) (state : RouterState) (ipAddress : IPv4Address)
    (events : List Event) :
    Run.Throughout (step groupMembershipInterval) (fun data => Agrees data ∧ ListenersExact data)
        (init state ipAddress) events ↔
      Run.Admissible (step groupMembershipInterval) KeepsAgreement (init state ipAddress)
          events ∧
        Run.Throughout (step groupMembershipInterval)
          (fun data => data.ipv4Data.reportedMulticastGroups = []) (init state ipAddress)
          events := by
  rw [← throughout_agrees_iff, ← Run.throughout_and_iff]
  constructor
  · refine Run.Throughout.mono fun data h => ⟨h.1, ?_⟩
    exact (listenersExact_iff h.1).mp h.2
  · refine Run.Throughout.mono fun data h => ⟨h.1, ?_⟩
    exact (listenersExact_iff h.1).mpr h.2

/-- Two sources are allowed. Neither is reported as having a listener, and when the timer of the
first one expires the copy keeps both. -/
theorem not_reports_allowed :
    ∃ data data', Run.exec (step 260) (init .IGMPV3_RS_QUERIER 0x0a000001#32)
        [.report [⟨IGMPV3_RT_ALLOW, 0xe0010101#32, [0x0a000002#32, 0x0a000003#32]⟩]] = .ok data ∧
      data.forwards 0xe0010101#32 0x0a000002#32 = true ∧
      data.ipv4Data.hasMulticastListener 0xe0010101#32 0x0a000002#32 = false ∧
      data.step 260 (.sourceTimer 0xe0010101#32 0x0a000002#32) = .ok data' ∧
      data'.ipv4Data.listed 0xe0010101#32 =
        some ⟨MCAST_INCLUDE_SOURCES, [0x0a000002#32, 0x0a000003#32]⟩ ∧
      expectedSources (data'.findGroupData 0xe0010101#32) =
        some ⟨MCAST_INCLUDE_SOURCES, [0x0a000003#32]⟩ :=
  ⟨_, _, rfl, by decide, by decide, rfl, by decide, by decide⟩

end RouterInterfaceData

end Inet.Igmp
