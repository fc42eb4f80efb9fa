import Inet.Igmp.HostQueries
import Inet.Library.Run

/-!
# Queries and their answers

`QueriedHost` is an interface with the queries that are still to be answered. The kernel lets time
pass up to the next timer, so a query is answered in time when a pending response covers it
(`QueriedHost.Covers`). Responses stay pending as the rules of RFC 3376 demand, except for rule 5:
the code applies it to an empty recorded list as well, and forgets the sources of a query that does
not move the timer. `along_answered_iff` says when this shows.
-/

namespace Inet.Igmp

open Inet.Ipv4 (IPv4Address)
open FilterMode ReportType
open IPv4AddressVector (sort setUnion)

namespace QueriedGroupData

/-- The filter of the group accepts the source. -/
def Accepts (data : QueriedGroupData) (source : IPv4Address) : Prop :=
  if data.filter = IGMPV3_FM_INCLUDE then source ∈ data.sourceAddressList
  else source ∉ data.sourceAddressList
deriving Decidable

/-- What the record says is true, and tells of all queried sources which ones are accepted. A
group without queried sources is queried as a whole. -/
def Reflects (data : QueriedGroupData) (queriedSources : List IPv4Address)
    (record : GroupRecord) : Prop :=
  record = data.currentRecord ∨ queriedSources ≠ [] ∧ record.recordType = IGMPV3_RT_IS_IN ∧
      record.groupAddress = data.groupAddr ∧
      (∀ source ∈ record.sourceList, data.Accepts source) ∧
      ∀ source ∈ queriedSources, data.Accepts source → source ∈ record.sourceList

instance (data : QueriedGroupData) (queriedSources : List IPv4Address) (record : GroupRecord) :
    Decidable (data.Reflects queriedSources record) :=
  -- Otherwise all addresses are tried.
  have (sources : List IPv4Address) (p : IPv4Address → Prop) [DecidablePred p] :
      Decidable (∀ source ∈ sources, p source) := List.decidableBAll p sources
  inferInstanceAs (Decidable (_ ∨ _ ∧ _ ∧ _ ∧ _ ∧ _))

/-- A response for the recorded sources is one for the queried sources. -/
def Includes (data : QueriedGroupData) (queriedSources : List IPv4Address) : Prop :=
  data.queriedSources = [] ∨ queriedSources ≠ [] ∧ queriedSources ⊆ data.queriedSources
deriving Decidable

end QueriedGroupData

open QueriedGroupData (key currentRecord)

/-- The report answers the query. A host that does not know a group has nothing to say about
it. -/
def HostInterfaceData.Answers (interfaceData : HostInterfaceData) (records : List GroupRecord) :
    HostQuery → Prop
  | .general => ∀ data ∈ interfaceData.groups, ∃ record ∈ records, data.Reflects [] record
  | .group groupAddr queriedSources =>
    ∀ data ∈ interfaceData.find groupAddr,
      ∃ record ∈ records, data.Reflects queriedSources record

instance (interfaceData : HostInterfaceData) (records : List GroupRecord) :
    ∀ query, Decidable (interfaceData.Answers records query)
  | .general => inferInstanceAs (Decidable (∀ data ∈ interfaceData.groups, _))
  | .group groupAddr _ => inferInstanceAs (Decidable (∀ data ∈ interfaceData.find groupAddr, _))

structure OpenQuery where
  query : HostQuery
  /-- The time up to which it is to be answered. -/
  deadline : ℤ
deriving DecidableEq

structure QueriedHost where
  interfaceData : HostInterfaceData := {}
  now : ℤ := 0
  /-- The queries that have not been answered in time. -/
  openQueries : List OpenQuery := []
  /-- The records of the last report. -/
  sent : List GroupRecord := []

inductive HostEvent where
  | query (now delay : ℤ) (query : HostQuery)
  | generalQueryTimer (now : ℤ)
  | groupQueryTimer (now : ℤ) (groupAddr : IPv4Address)
  | multicastSourceListChanged (now : ℤ) (groupAddr : IPv4Address)
      (sourceList : IPv4MulticastSourceList)

def HostEvent.now : HostEvent → ℤ
  | query now .. => now
  | generalQueryTimer now => now
  | groupQueryTimer now _ => now
  | multicastSourceListChanged now .. => now

namespace QueriedHost

/-- A report is sent. -/
def report (h : QueriedHost) (now : ℤ) (sent : List GroupRecord)
    (interfaceData : HostInterfaceData) : QueriedHost where
  interfaceData
  now
  openQueries := h.openQueries.filter fun q =>
    ¬ (now ≤ q.deadline ∧ interfaceData.Answers sent q.query)
  sent

def step (h : QueriedHost) : HostEvent → Result QueriedHost
  | .query now delay query => .ok
      { interfaceData := h.interfaceData.processQuery now delay query
        now
        openQueries := h.openQueries ++ [{ query, deadline := now + delay }]
        sent := [] }
  | .generalQueryTimer now =>
    let (records, interfaceData) := h.interfaceData.processHostGeneralQueryTimer
    .ok (h.report now records interfaceData)
  | .groupQueryTimer now groupAddr =>
    match h.interfaceData.find groupAddr with
    | none => .error .nullPointer
    | some data => do
        let (records, interfaceData) ← h.interfaceData.processHostGroupQueryTimer data
        .ok (h.report now records interfaceData)
  | .multicastSourceListChanged now groupAddr sourceList => do
      let (records, interfaceData) ← h.interfaceData.multicastSourceListChanged groupAddr sourceList
      .ok (h.report now records interfaceData)

/-- No timer expires before `now`. -/
structure Reaches (h : QueriedHost) (now : ℤ) : Prop where
  now_le : h.now ≤ now
  general : ∀ arrivalTime ∈ h.interfaceData.generalQueryTimer, now ≤ arrivalTime
  group : ∀ data ∈ h.interfaceData.groups, ∀ arrivalTime ∈ data.timer, now ≤ arrivalTime

/-- Timers expire at their arrival times. Sockets ask for groups with sorted lists. -/
def Possible (h : QueriedHost) (event : HostEvent) : Prop :=
  h.Reaches event.now ∧ match event with
    | .query _ delay .general => 0 ≤ delay
    | .query _ delay (.group groupAddr _) => 0 ≤ delay ∧ isMulticast groupAddr = true
    | .generalQueryTimer now => h.interfaceData.generalQueryTimer = some now
    | .groupQueryTimer now groupAddr =>
      ∃ data ∈ h.interfaceData.find groupAddr, data.timer = some now
    | .multicastSourceListChanged _ groupAddr sourceList =>
      isMulticast groupAddr = true ∧ isSorted sourceList.sources = true

/-- What is to happen: no query waits beyond its deadline, a query that comes when a response for
its group is pending makes this a response for both, and a response to a query of a group says
what it is to say. -/
structure Answered (h : QueriedHost) (event : HostEvent) (t : QueriedHost) : Prop where
  inTime : ∀ q ∈ t.openQueries, t.now ≤ q.deadline
  pending : ∀ now delay groupAddr queriedSources,
    event = .query now delay (.group groupAddr queriedSources) →
    ¬ h.interfaceData.AnsweredSooner now delay →
    ∀ data ∈ h.interfaceData.find groupAddr, data.timer ≠ none →
      ∃ data' ∈ t.interfaceData.find groupAddr,
        data'.Includes data.queriedSources ∧ data'.Includes queriedSources
  reflects : ∀ now groupAddr, event = .groupQueryTimer now groupAddr →
    ∀ data ∈ h.interfaceData.find groupAddr,
      ∃ record ∈ t.sent, data.Reflects data.queriedSources record

/-- A query for sources does not come sooner than a pending response for the whole group, and it
comes sooner than a pending response for other sources. Responses are not for groups of the link,
and do not have a source twice that the filter excludes. -/
def Regular (h : QueriedHost) : HostEvent → Prop
  | .query now delay (.group groupAddr queriedSources) =>
    ¬ h.interfaceData.AnsweredSooner now delay → queriedSources ≠ [] →
    ∀ data ∈ h.interfaceData.find groupAddr, ∀ arrivalTime ∈ data.timer,
      if data.queriedSources = [] then arrivalTime ≤ now + delay
      else now + delay < arrivalTime ∨ queriedSources ⊆ data.queriedSources
  | .groupQueryTimer _ groupAddr =>
    isLinkLocalMulticast groupAddr = false ∧
    ∀ data ∈ h.interfaceData.find groupAddr, data.filter ≠ IGMPV3_FM_INCLUDE →
      ∀ source ∈ data.sourceAddressList,
        data.queriedSources.count source ≤ data.sourceAddressList.count source
  | _ => True

/-- A pending response answers the query in time. -/
def Covers (interfaceData : HostInterfaceData) (q : OpenQuery) : Prop :=
  (∃ arrivalTime ∈ interfaceData.generalQueryTimer, arrivalTime ≤ q.deadline) ∨
    ∃ groupAddr queriedSources, q.query = .group groupAddr queriedSources ∧
      ∃ data ∈ interfaceData.find groupAddr, ∃ arrivalTime ∈ data.timer,
        arrivalTime ≤ q.deadline ∧ data.Includes queriedSources

structure Answering (h : QueriedHost) : Prop where
  sorted : KeyedList.Sorted QueriedGroupData.key h.interfaceData.groups
  multicast : ∀ data ∈ h.interfaceData.groups, isMulticast data.groupAddr = true
  covers : ∀ q ∈ h.openQueries, Covers h.interfaceData q

end QueriedHost

section

variable {interfaceData : HostInterfaceData} {data : QueriedGroupData} {groupAddr : IPv4Address}

section

variable (hsorted : KeyedList.Sorted key interfaceData.groups)

include hsorted

theorem HostInterfaceData.mem_of_find (h : interfaceData.find groupAddr = some data) :
    data ∈ interfaceData.groups ∧ data.groupAddr = groupAddr := by
  obtain ⟨hmem, hkey⟩ := (KeyedList.lookup_eq_some hsorted).mp h
  exact ⟨hmem, BitVec.eq_of_toNat_eq hkey⟩

theorem HostInterfaceData.find_setGroupData : (interfaceData.setGroupData data).find groupAddr =
      if groupAddr = data.groupAddr then some data else interfaceData.find groupAddr := by
  rw [find, setGroupData, KeyedList.lookup_insert_erase hsorted, find]
  simp only [key, BitVec.toNat_inj, eq_comm (a := groupAddr)]

theorem HostInterfaceData.sorted_setGroupData :
    KeyedList.Sorted key (interfaceData.setGroupData data).groups :=
  (hsorted.erase data.key).insert fun _ h => (KeyedList.mem_erase.mp h).2

end

theorem HostInterfaceData.multicast_setGroupData
    (hgroups : ∀ data ∈ interfaceData.groups, isMulticast data.groupAddr = true)
    (hdata : isMulticast data.groupAddr = true) :
    ∀ data' ∈ (interfaceData.setGroupData data).groups, isMulticast data'.groupAddr = true := by
  intro data' h
  obtain rfl | ⟨h, -⟩ := (KeyedList.mem_insert.trans (or_congr_right KeyedList.mem_erase)).mp h
  · exact hdata
  · exact hgroups data' h

theorem HostInterfaceData.groupAddr_getOrCreateGroupData
    (hsorted : KeyedList.Sorted key interfaceData.groups) :
    (interfaceData.getOrCreateGroupData groupAddr).groupAddr = groupAddr := by
  rw [getOrCreateGroupData]
  cases hfind : interfaceData.find groupAddr with
  | none => rfl
  | some data => exact (mem_of_find hsorted hfind).2

end

namespace IPv4AddressVector

variable {first second : List IPv4Address} {source : IPv4Address}

@[simp] theorem mem_sort : source ∈ sort first ↔ source ∈ first := List.mem_insertionSort _

@[simp] theorem sort_eq_nil : sort first = [] ↔ first = [] := by
  rw [← List.length_eq_zero_iff, sort, List.length_insertionSort, List.length_eq_zero_iff]

@[simp] theorem mem_setUnion :
    source ∈ setUnion first second ↔ source ∈ first ∨ source ∈ second := by
  rw [setUnion, mem_sort, List.mem_append]
  refine ⟨Or.imp_right fun h => List.diff_subset _ _ h, fun h => ?_⟩
  by_cases hfirst : source ∈ first
  · exact .inl hfirst
  · exact .inr (List.mem_diff_of_mem (h.resolve_left hfirst) hfirst)

end IPv4AddressVector

namespace QueriedGroupData

open IPv4AddressVector (sort_eq_nil mem_sort mem_setUnion)

variable {data data' : QueriedGroupData} {now delay arrivalTime : ℤ}
  {sources queriedSources : List IPv4Address}

theorem Includes.trans (h' : data'.Includes data.queriedSources) (h : data.Includes sources) :
    data'.Includes sources := by
  obtain h | ⟨hne, hsub⟩ := h
  · exact .inl (h'.resolve_right fun hne => hne.1 h)
  · exact h'.imp_right fun h' => ⟨hne, fun _ hs => h'.2 (hsub hs)⟩

theorem includes_self (data : QueriedGroupData) : data.Includes data.queriedSources := by
  by_cases hempty : data.queriedSources = []
  · exact .inl hempty
  · exact .inr ⟨hempty, fun _ => id⟩

theorem schedule_groupAddr :
    (data.schedule now delay queriedSources).groupAddr = data.groupAddr := by
  rw [schedule]
  split
  · rfl
  · split_ifs <;> rfl

theorem schedule_timer : (data.schedule now delay queriedSources).timer =
    some (data.timer.elim (now + delay) fun arrivalTime => min arrivalTime (now + delay)) := by
  rw [schedule]
  cases htimer : data.timer with
  | none => rfl
  | some arrivalTime =>
    dsimp only [Option.elim]
    split_ifs with hempty hlt hlt
    · rw [min_eq_right hlt.le]
    · rw [min_eq_left (not_lt.mp hlt)]
    · rw [min_eq_right hlt.le]
    · rw [htimer, min_eq_left (not_lt.mp hlt)]

/-- A query makes a response pending for what it asks. -/
theorem schedule_includes_of_none (htimer : data.timer = none) :
    (data.schedule now delay queriedSources).Includes queriedSources := by
  simp only [schedule, htimer, Includes, sort_eq_nil]
  by_cases hempty : queriedSources = []
  · exact .inl hempty
  · exact .inr ⟨hempty, fun _ => mem_sort.mpr⟩

/-- When a query makes a pending response one for both. -/
theorem schedule_includes_iff (htimer : data.timer = some arrivalTime) :
    (data.schedule now delay queriedSources).Includes data.queriedSources ∧
        (data.schedule now delay queriedSources).Includes queriedSources ↔
      (queriedSources ≠ [] → if data.queriedSources = [] then arrivalTime ≤ now + delay
        else now + delay < arrivalTime ∨ queriedSources ⊆ data.queriedSources) := by
  simp only [schedule, htimer, List.isEmpty_iff]
  by_cases hempty : queriedSources = []
  · simp [hempty, Includes]
  rw [if_neg hempty]
  by_cases hlt : arrivalTime > now + delay
  · rw [if_pos hlt]
    have hne : setUnion data.queriedSources (sort queriedSources) ≠ [] := by
      obtain ⟨source, hsource⟩ := List.exists_mem_of_ne_nil _ hempty
      exact List.ne_nil_of_mem
        (mem_setUnion.mpr (.inr (mem_sort.mpr hsource)))
    simp only [Includes, hne, false_or]
    split_ifs with hrecorded
    · simp [hrecorded, hempty, not_le.mpr hlt]
    · simp only [ne_eq, hempty, hrecorded, not_false_eq_true, true_and, forall_const]
      refine iff_of_true ⟨fun source h => ?_, fun source h => ?_⟩ (.inl hlt)
      · exact mem_setUnion.mpr (.inl h)
      · exact mem_setUnion.mpr (.inr (mem_sort.mpr h))
  · rw [if_neg hlt]
    simp only [Includes]
    split_ifs with hrecorded
    · simp [hrecorded, not_lt.mp hlt]
    · simp [hrecorded, hempty, hlt]

@[simp] theorem groupAddress_queriedRecord : data.queriedRecord.groupAddress = data.groupAddr := by
  rw [queriedRecord]
  split_ifs <;> rfl

/-- A response for the recorded sources is right for all queries that it includes. -/
theorem Reflects.of_includes {record : GroupRecord}
    (h : data.Reflects data.queriedSources record) (hincludes : data.Includes sources) :
    data.Reflects sources record := by
  obtain hcurrent | ⟨hne, htype, haddr, hsound, hall⟩ := h
  · exact .inl hcurrent
  · obtain ⟨hne', hsub⟩ := hincludes.resolve_left hne
    exact .inr ⟨hne', htype, haddr, hsound, fun source h => hall source (hsub h)⟩

/-- A response is wrong about a source that the filter excludes if it is recorded twice. -/
theorem reflects_queriedRecord_iff : data.Reflects data.queriedSources data.queriedRecord ↔
    (data.filter ≠ IGMPV3_FM_INCLUDE → ∀ source ∈ data.sourceAddressList,
      data.queriedSources.count source ≤ data.sourceAddressList.count source) := by
  simp only [queriedRecord, List.isEmpty_iff]
  by_cases hempty : data.queriedSources = []
  · rw [if_pos hempty, hempty]
    exact iff_of_true (.inl rfl) fun _ source _ => Nat.zero_le _
  rw [if_neg hempty]
  by_cases hfilter : data.filter = IGMPV3_FM_INCLUDE
  · refine iff_of_true (.inr ⟨hempty, rfl, rfl, ?_, ?_⟩) (absurd hfilter)
    all_goals simp only [Accepts, hfilter, if_true, IPv4AddressVector.setIntersection,
      List.mem_bagInter]
    · exact fun _ h => h.1
    · exact fun source hqueried haccepted => ⟨haccepted, hqueried⟩
  · simp only [Reflects, currentRecord, hfilter, Accepts, IPv4AddressVector.setComplement,
      hempty, if_false, ne_eq, GroupRecord.mk.injEq, reduceCtorEq, false_and, false_or,
      not_false_eq_true, true_and,
      forall_const]
    constructor
    · rintro ⟨hsound, -⟩ source hsource
      by_contra hcount
      refine hsound source ?_ hsource
      rw [← List.count_pos_iff, List.count_diff]
      omega
    · refine fun hcount => ⟨fun source hdiff hsource => ?_, fun source => List.mem_diff_of_mem⟩
      rw [← List.count_pos_iff, List.count_diff] at hdiff
      exact absurd (hcount source hsource) (by omega)

end QueriedGroupData

namespace HostGroupData

variable {group : HostGroupData} {record : GroupRecord}

theorem groupAddress_of_allowAndBlock {allowed blocked : List IPv4Address}
    (h : record ∈ group.allowAndBlock allowed blocked) :
    record.groupAddress = group.groupAddr := by
  obtain rfl | h := List.mem_cons.mp (List.mem_filter.mp h).1
  · rfl
  · rw [List.mem_singleton.mp h]

theorem groupAddress_of_changeRecords {filter : FilterMode} {sources : List IPv4Address}
    (h : record ∈ group.changeRecords filter sources) :
    record.groupAddress = group.groupAddr := by
  cases hold : group.filter <;> cases filter <;> simp only [changeRecords, hold] at h
  · exact groupAddress_of_allowAndBlock h
  · rw [List.mem_singleton.mp h]
  · rw [List.mem_singleton.mp h]
  · exact groupAddress_of_allowAndBlock h

/-- A change of the filter does not fail. -/
theorem multicastSourceListChanged_spec
    (hmulticast : isMulticast group.groupAddr = true) {sourceList : IPv4MulticastSourceList}
    (hsorted : isSorted sourceList.sources = true) :
    ∃ records group', group.multicastSourceListChanged sourceList = .ok (records, group') ∧
      group'.groupAddr = group.groupAddr := by
  rw [multicastSourceListChanged, assert_of hsorted, ok_bind]
  generalize (if sourceList.filterMode = McastSourceFilterMode.MCAST_INCLUDE_SOURCES then
    IGMPV3_FM_INCLUDE else IGMPV3_FM_EXCLUDE) = filter
  dsimp only
  split_ifs with hlink hsame
  · exact ⟨_, _, rfl, rfl⟩
  · exact ⟨_, _, rfl, rfl⟩
  · rw [sendGroupReport, assert_of (List.all_eq_true.mpr fun record h => ?_)]
    · exact ⟨_, _, rfl, rfl⟩
    · rw [groupAddress_of_changeRecords h, hmulticast, Bool.eq_false_iff.mpr hlink]
      rfl

end HostGroupData

namespace QueriedHost

open HostInterfaceData

variable {h t : QueriedHost} {event : HostEvent} {now delay : ℤ} {query : HostQuery}
  {q : OpenQuery} {interfaceData interfaceData' : HostInterfaceData} {data : QueriedGroupData}
  {groupAddr : IPv4Address} {queriedSources : List IPv4Address}

/-- Responses that come no later and include as much cover as much. -/
theorem Covers.mono (hq : Covers interfaceData q) (hgeneral : ∀ a ∈ interfaceData.generalQueryTimer,
      ∃ a' ∈ interfaceData'.generalQueryTimer, a' ≤ a)
    (hgroup : ∀ groupAddr, ∀ data ∈ interfaceData.find groupAddr, ∀ a ∈ data.timer,
      ∃ data' ∈ interfaceData'.find groupAddr, ∃ a' ∈ data'.timer, a' ≤ a ∧
        data'.Includes data.queriedSources) : Covers interfaceData' q := by
  obtain ⟨a, ha, hle⟩ | ⟨groupAddr, sources, hquery, data, hdata, a, ha, hle, hincludes⟩ := hq
  · obtain ⟨a', ha', hle'⟩ := hgeneral a ha
    exact .inl ⟨a', ha', hle'.trans hle⟩
  · obtain ⟨data', hdata', a', ha', hle', hincludes'⟩ := hgroup groupAddr data hdata a ha
    exact .inr ⟨groupAddr, sources, hquery, data', hdata', a', ha', hle'.trans hle,
      hincludes'.trans hincludes⟩

/-- Time has not passed a deadline when the next event happens. -/
theorem Answering.le_deadline (hh : h.Answering) (hreaches : h.Reaches now)
    (hq : q ∈ h.openQueries) : now ≤ q.deadline := by
  obtain ⟨a, ha, hle⟩ | ⟨groupAddr, sources, -, data, hdata, a, ha, hle, -⟩ := hh.covers q hq
  · exact (hreaches.general a ha).trans hle
  · exact (hreaches.group data (mem_of_find hh.sorted hdata).1 a ha).trans hle

/-- Only the queries that were open before and the new one are open. -/
theorem step_openQueries (hstep : h.step event = .ok t) : t.now = event.now ∧
    ∀ q ∈ t.openQueries, q ∈ h.openQueries ∨
      ∃ now delay query, event = .query now delay query ∧ q = ⟨query, now + delay⟩ := by
  have hreport (records : List GroupRecord) (interfaceData : HostInterfaceData) :
      ∀ q ∈ (h.report event.now records interfaceData).openQueries, q ∈ h.openQueries :=
    fun q hq => (List.mem_filter.mp hq).1
  cases event with
  | query now delay query =>
    cases hstep
    refine ⟨rfl, fun q hq => (List.mem_append.mp hq).imp_right fun hq => ?_⟩
    exact ⟨now, delay, query, rfl, List.mem_singleton.mp hq⟩
  | generalQueryTimer now =>
    cases hstep
    exact ⟨rfl, fun q hq => .inl (hreport _ _ q hq)⟩
  | groupQueryTimer now groupAddr =>
    rw [step] at hstep
    cases hfind : h.interfaceData.find groupAddr with
    | none =>
      rw [hfind] at hstep
      cases hstep
    | some data =>
      rw [hfind] at hstep
      obtain ⟨⟨records, interfaceData⟩, -, hstep⟩ := bind_eq_ok.mp hstep
      cases hstep
      exact ⟨rfl, fun q hq => .inl (hreport _ _ q hq)⟩
  | multicastSourceListChanged now groupAddr sourceList =>
    obtain ⟨⟨records, interfaceData⟩, -, hstep⟩ := bind_eq_ok.mp hstep
    cases hstep
    exact ⟨rfl, fun q hq => .inl (hreport _ _ q hq)⟩

theorem Possible.delay_nonneg (hpossible : h.Possible (.query now delay query)) : 0 ≤ delay := by
  cases query with
  | general => exact hpossible.2
  | group groupAddr sources => exact hpossible.2.1

/-- No query waits beyond its deadline. -/
theorem Answering.inTime (hh : h.Answering) (hpossible : h.Possible event)
    (hstep : h.step event = .ok t) : ∀ q ∈ t.openQueries, t.now ≤ q.deadline := by
  obtain ⟨hnow, hopen⟩ := step_openQueries hstep
  intro q hq
  rw [hnow]
  obtain hq | ⟨now, delay, query, rfl, rfl⟩ := hopen q hq
  · exact hh.le_deadline hpossible.1 hq
  · exact Int.le_add_of_nonneg_right hpossible.delay_nonneg

theorem processQuery_group (hmulticast : isMulticast groupAddr = true) :
    interfaceData.processQuery now delay (.group groupAddr queriedSources) =
      if interfaceData.AnsweredSooner now delay then interfaceData
      else interfaceData.setGroupData
        ((interfaceData.getOrCreateGroupData groupAddr).schedule now delay queriedSources) := by
  have hne : groupAddr ≠ 0#32 := by
    rintro rfl
    cases hmulticast
  rw [processQuery]
  simp only [HostQuery.groupAddr, HostQuery.queriedSources, hne, false_and, if_false, ne_eq,
    not_false_eq_true, if_true]

theorem processQuery_general : interfaceData.processQuery now delay .general =
    if interfaceData.AnsweredSooner now delay then interfaceData
    else { interfaceData with generalQueryTimer := some (now + delay) } := rfl

/-- What a query does to the data of its group. -/
theorem Answering.find_processQuery (hh : h.Answering) (hmulticast : isMulticast groupAddr = true)
    (hlater : ¬ h.interfaceData.AnsweredSooner now delay) (groupAddr' : IPv4Address) :
    (h.interfaceData.processQuery now delay (.group groupAddr queriedSources)).find groupAddr' =
      if groupAddr' = groupAddr then
        some ((h.interfaceData.getOrCreateGroupData groupAddr).schedule now delay queriedSources)
      else h.interfaceData.find groupAddr' := by
  rw [processQuery_group hmulticast, if_neg hlater, find_setGroupData hh.sorted,
    QueriedGroupData.schedule_groupAddr, groupAddr_getOrCreateGroupData hh.sorted]

theorem getOrCreateGroupData_of_find (hfind : interfaceData.find groupAddr = some data) :
    interfaceData.getOrCreateGroupData groupAddr = data := by
  rw [getOrCreateGroupData, hfind, Option.getD_some]

/-- A group with a pending response is known. -/
theorem find_of_timer {a : ℤ}
    (htimer : (interfaceData.getOrCreateGroupData groupAddr).timer = some a) :
    interfaceData.find groupAddr = some (interfaceData.getOrCreateGroupData groupAddr) := by
  cases hfind : interfaceData.find groupAddr with
  | none =>
    rw [getOrCreateGroupData, hfind] at htimer
    cases htimer
  | some data => rw [getOrCreateGroupData_of_find hfind]

section

variable (hh : h.Answering)

include hh

/-- A query of a group does what it is to do if it is regular. -/
theorem Answering.query_iff (hmulticast : isMulticast groupAddr = true)
    (hlater : ¬ h.interfaceData.AnsweredSooner now delay) :
    (∀ data ∈ h.interfaceData.find groupAddr, data.timer ≠ none →
      ∃ data' ∈ (h.interfaceData.processQuery now delay (.group groupAddr queriedSources)).find
          groupAddr,
        data'.Includes data.queriedSources ∧ data'.Includes queriedSources) ↔
      (queriedSources ≠ [] → ∀ data ∈ h.interfaceData.find groupAddr, ∀ arrivalTime ∈ data.timer,
          if data.queriedSources = [] then arrivalTime ≤ now + delay
          else now + delay < arrivalTime ∨ queriedSources ⊆ data.queriedSources) := by
  rw [hh.find_processQuery hmulticast hlater, if_pos rfl]
  simp only [Option.mem_some_iff, exists_eq_left']
  constructor
  · intro hall hne data hdata arrivalTime harrival
    have := hall data hdata (by rw [harrival]; nofun)
    rw [getOrCreateGroupData_of_find hdata, QueriedGroupData.schedule_includes_iff harrival] at this
    exact this hne
  · intro hall data hdata htimer
    obtain ⟨arrivalTime, harrival⟩ := Option.ne_none_iff_exists'.mp htimer
    rw [getOrCreateGroupData_of_find hdata, QueriedGroupData.schedule_includes_iff harrival]
    exact fun hne => hall hne data hdata arrivalTime harrival

theorem Answering.query_general
    (hstep : h.step (.query now delay .general) = .ok t) : t.Answering := by
  cases hstep
  simp only [processQuery_general]
  split_ifs with hsooner
  · refine ⟨hh.sorted, hh.multicast, fun q hq => ?_⟩
    obtain hq | hq := List.mem_append.mp hq
    · exact hh.covers q hq
    · obtain rfl := List.mem_singleton.mp hq
      obtain ⟨a, ha, hlt⟩ := hsooner
      exact .inl ⟨a, ha, hlt.le⟩
  · refine ⟨hh.sorted, hh.multicast, fun q hq => ?_⟩
    obtain hq | hq := List.mem_append.mp hq
    · refine (hh.covers q hq).mono (fun a ha => ?_) fun groupAddr data hdata a ha =>
        ⟨data, hdata, a, ha, le_rfl, ?_⟩
      · exact ⟨_, rfl, not_lt.mp fun hlt => hsooner ⟨a, ha, hlt⟩⟩
      · exact data.includes_self
    · obtain rfl := List.mem_singleton.mp hq
      exact .inl ⟨_, rfl, le_rfl⟩

theorem Answering.query_group (hmulticast : isMulticast groupAddr = true)
    (hregular : h.Regular (.query now delay (.group groupAddr queriedSources)))
    (hstep : h.step (.query now delay (.group groupAddr queriedSources)) = .ok t) :
    t.Answering := by
  cases hstep
  by_cases hsooner : h.interfaceData.AnsweredSooner now delay
  · simp only [processQuery_group hmulticast, if_pos hsooner]
    refine ⟨hh.sorted, hh.multicast, fun q hq => ?_⟩
    obtain hq | hq := List.mem_append.mp hq
    · exact hh.covers q hq
    · obtain rfl := List.mem_singleton.mp hq
      obtain ⟨a, ha, hlt⟩ := hsooner
      exact .inl ⟨a, ha, hlt.le⟩
  have hpending := (hh.query_iff hmulticast hsooner).mpr (hregular hsooner)
  have hfind (groupAddr' : IPv4Address) : (h.interfaceData.processQuery now delay
      (.group groupAddr queriedSources)).find groupAddr' = _ :=
    hh.find_processQuery hmulticast hsooner groupAddr'
  have hset : h.interfaceData.processQuery now delay (.group groupAddr queriedSources) = _ :=
    (processQuery_group hmulticast).trans (if_neg hsooner)
  refine ⟨?_, ?_, fun q hq => ?_⟩
  · dsimp only
    rw [hset]
    exact sorted_setGroupData hh.sorted
  · dsimp only
    rw [hset]
    refine multicast_setGroupData hh.multicast ?_
    rw [QueriedGroupData.schedule_groupAddr, groupAddr_getOrCreateGroupData hh.sorted]
    exact hmulticast
  obtain hq | hq := List.mem_append.mp hq
  · refine (hh.covers q hq).mono (fun a ha => ⟨a, ?_, le_rfl⟩) fun groupAddr' data hdata a ha => ?_
    · dsimp only
      rw [hset]
      exact ha
    · dsimp only
      by_cases heq : groupAddr' = groupAddr
      · subst heq
        obtain ⟨data', hdata', hincludes, -⟩ := hpending data hdata (by rw [ha]; nofun)
        refine ⟨data', hdata', min a (now + delay), ?_, min_le_left _ _, hincludes⟩
        rw [hfind, if_pos rfl, getOrCreateGroupData_of_find hdata] at hdata'
        cases hdata'
        rw [QueriedGroupData.schedule_timer, ha, Option.elim_some]
        rfl
      · refine ⟨data, ?_, a, ha, le_rfl, data.includes_self⟩
        rw [hfind, if_neg heq]
        exact hdata
  · obtain rfl := List.mem_singleton.mp hq
    refine .inr ⟨groupAddr, queriedSources, rfl, _, (hfind groupAddr).trans (if_pos rfl), _,
      QueriedGroupData.schedule_timer, ?_⟩
    cases htimer : (h.interfaceData.getOrCreateGroupData groupAddr).timer with
    | none => exact ⟨le_rfl, QueriedGroupData.schedule_includes_of_none htimer⟩
    | some a =>
      refine ⟨min_le_right _ _, ((QueriedGroupData.schedule_includes_iff htimer).mpr ?_).2⟩
      exact fun hne => hregular hsooner hne _ (find_of_timer htimer) a htimer

/-- What a report does not answer is covered by a response that is still pending. -/
theorem Answering.report (hreaches : h.Reaches now) {records : List GroupRecord}
    (hsorted : KeyedList.Sorted key interfaceData.groups)
    (hmulticast : ∀ data ∈ interfaceData.groups, isMulticast data.groupAddr = true)
    (hcovers : ∀ q, Covers h.interfaceData q →
      interfaceData.Answers records q.query ∨ Covers interfaceData q) :
    (h.report now records interfaceData).Answering := by
  refine ⟨hsorted, hmulticast, fun q hq => ?_⟩
  obtain ⟨hq, hopen⟩ := List.mem_filter.mp hq
  refine (hcovers q (hh.covers q hq)).resolve_left fun hanswers => ?_
  exact of_decide_eq_true hopen ⟨hh.le_deadline hreaches hq, hanswers⟩

/-- The report to a General Query answers everything. -/
theorem Answering.generalQueryTimer (hreaches : h.Reaches now)
    (hstep : h.step (.generalQueryTimer now) = .ok t) : t.Answering := by
  cases hstep
  refine hh.report hreaches hh.sorted hh.multicast fun q _ => .inl ?_
  have hrecord : ∀ data ∈ h.interfaceData.groups,
      data.currentRecord ∈ h.interfaceData.groups.map currentRecord :=
    fun data => List.mem_map_of_mem
  cases q.query with
  | general => exact fun data hdata => ⟨_, hrecord data hdata, .inl rfl⟩
  | group groupAddr sources =>
    intro data hdata
    exact ⟨_, hrecord data (mem_of_find hh.sorted hdata).1, .inl rfl⟩

/-- The response for a group, which is sent unless the group is one of the link. -/
theorem Answering.step_groupQueryTimer (hdata : h.interfaceData.find groupAddr = some data) :
    h.step (.groupQueryTimer now groupAddr) = if isLinkLocalMulticast groupAddr then
        .error (.assertion "group.isMulticast() && !group.isLinkLocalMulticast()")
      else .ok (h.report now [data.queriedRecord]
        (h.interfaceData.setGroupData { data with queriedSources := [], timer := none })) := by
  obtain ⟨hmem, haddr⟩ := mem_of_find hh.sorted hdata
  rw [step, hdata]
  dsimp only
  rw [processHostGroupQueryTimer, HostGroupData.sendGroupReport, List.all_cons, List.all_nil,
    Bool.and_true, QueriedGroupData.groupAddress_queriedRecord, ← haddr,
    hh.multicast data hmem, Bool.true_and]
  cases hlink : isLinkLocalMulticast data.groupAddr with
  | true => rfl
  | false => rfl

theorem Answering.groupQueryTimer (hreaches : h.Reaches now)
    (hdata : h.interfaceData.find groupAddr = some data)
    (hregular : h.Regular (.groupQueryTimer now groupAddr))
    (hstep : h.step (.groupQueryTimer now groupAddr) = .ok t) : t.Answering := by
  obtain ⟨hmem, haddr⟩ := mem_of_find hh.sorted hdata
  rw [hh.step_groupQueryTimer hdata, hregular.1, if_neg Bool.false_ne_true] at hstep
  cases hstep
  have hreflects := QueriedGroupData.reflects_queriedRecord_iff.mpr (hregular.2 data hdata)
  refine hh.report hreaches (sorted_setGroupData hh.sorted)
    (multicast_setGroupData hh.multicast (hh.multicast data hmem)) fun q hq => ?_
  obtain hgeneral | ⟨groupAddr', sources, hquery, data', hdata', a, ha, hle, hincludes⟩ := hq
  · exact .inr (.inl hgeneral)
  by_cases heq : groupAddr' = groupAddr
  · left
    subst heq
    obtain rfl : data = data' := Option.some.inj (hdata.symm.trans hdata')
    rw [hquery]
    intro data' hfind
    rw [find_setGroupData hh.sorted, if_pos haddr.symm] at hfind
    cases hfind
    exact ⟨_, List.mem_singleton_self _, hreflects.of_includes hincludes⟩
  · refine .inr (.inr ⟨groupAddr', sources, hquery, data', ?_, a, ha, hle, hincludes⟩)
    rw [find_setGroupData hh.sorted, if_neg (haddr ▸ heq)]
    exact hdata'

/-- A change of the filter is reported, and leaves the timers alone. -/
theorem Answering.multicastSourceListChanged (hreaches : h.Reaches now)
    {sourceList : IPv4MulticastSourceList} (hmulticast : isMulticast groupAddr = true)
    (hsorted : isSorted sourceList.sources = true) :
    ∃ t, h.step (.multicastSourceListChanged now groupAddr sourceList) = .ok t ∧
      t.Answering := by
  have haddr : (h.interfaceData.getOrCreateGroupData groupAddr).groupAddr = groupAddr :=
    groupAddr_getOrCreateGroupData hh.sorted
  obtain ⟨records, changed, hchange, haddr'⟩ :=
    HostGroupData.multicastSourceListChanged_spec (haddr ▸ hmulticast) hsorted
  rw [step, HostInterfaceData.multicastSourceListChanged]
  dsimp only
  rw [hchange, ok_bind, ok_bind]
  refine ⟨_, rfl, ?_⟩
  split_ifs with hlink
  · exact hh.report hreaches hh.sorted hh.multicast fun q hq => .inr hq
  refine hh.report hreaches (sorted_setGroupData hh.sorted)
    (multicast_setGroupData hh.multicast ?_) fun q hq => .inr (hq.mono (fun a ha => ?_) ?_)
  · rw [haddr', haddr]
    exact hmulticast
  · exact ⟨a, ha, le_rfl⟩
  · intro groupAddr' data hdata a ha
    rw [find_setGroupData hh.sorted]
    dsimp only
    split_ifs with heq
    · rw [haddr', haddr] at heq
      subst heq
      rw [getOrCreateGroupData_of_find hdata]
      exact ⟨_, rfl, a, ha, le_rfl, data.includes_self⟩
    · exact ⟨data, hdata, a, ha, le_rfl, data.includes_self⟩

end

theorem answering_initial : ({} : QueriedHost).Answering where
  sorted := List.Pairwise.nil
  multicast := nofun
  covers := nofun

/-- An event does what is to happen if it is regular. -/
theorem step_answered_iff (hh : h.Answering) (hpossible : h.Possible event) :
    (∃ t, h.step event = .ok t ∧ h.Answered event t) ↔ h.Regular event := by
  have htrivial (hstep : ∃ t, h.step event = .ok t)
      (hquery : ∀ now delay groupAddr sources, event ≠ .query now delay (.group groupAddr sources))
      (htimer : ∀ now groupAddr, event ≠ .groupQueryTimer now groupAddr) :
      ∃ t, h.step event = .ok t ∧ h.Answered event t := by
    obtain ⟨t, hstep⟩ := hstep
    exact ⟨t, hstep, hh.inTime hpossible hstep,
      fun _ _ _ _ heq => absurd heq (hquery _ _ _ _), fun _ _ heq => absurd heq (htimer _ _)⟩
  match event with
  | .query now delay .general => exact iff_of_true (htrivial ⟨_, rfl⟩ nofun nofun) trivial
  | .generalQueryTimer now => exact iff_of_true (htrivial ⟨_, rfl⟩ nofun nofun) trivial
  | .multicastSourceListChanged now groupAddr sourceList =>
    obtain ⟨t, hstep, -⟩ :=
      hh.multicastSourceListChanged hpossible.1 hpossible.2.1 hpossible.2.2
    exact iff_of_true (htrivial ⟨t, hstep⟩ nofun nofun) trivial
  | .query now delay (.group groupAddr queriedSources) =>
    have hmulticast := hpossible.2.2
    constructor
    · rintro ⟨t, hstep, hanswered⟩ hlater
      cases hstep
      exact (hh.query_iff hmulticast hlater).mp (hanswered.pending now delay _ _ rfl hlater)
    · intro hregular
      refine ⟨_, rfl, hh.inTime hpossible rfl, fun _ _ _ _ heq hlater => ?_, nofun⟩
      cases heq
      exact (hh.query_iff hmulticast hlater).mpr (hregular hlater)
  | .groupQueryTimer now groupAddr =>
    obtain ⟨data, hdata, -⟩ := hpossible.2
    have hreflects := @QueriedGroupData.reflects_queriedRecord_iff data
    have hstep : h.step (.groupQueryTimer now groupAddr) = _ := hh.step_groupQueryTimer hdata
    constructor
    · rintro ⟨t, hok, hanswered⟩
      rw [hstep] at hok
      split_ifs at hok with hlink
      cases hok
      obtain ⟨record, hrecord, hrecord'⟩ := hanswered.reflects now groupAddr rfl data hdata
      obtain rfl := List.mem_singleton.mp hrecord
      refine ⟨Bool.eq_false_iff.mpr hlink, fun data' hdata' => ?_⟩
      obtain rfl := Option.some.inj (hdata.symm.trans hdata')
      exact hreflects.mp hrecord'
    · intro hregular
      rw [hregular.1, if_neg Bool.false_ne_true] at hstep
      refine ⟨_, hstep, hh.inTime hpossible hstep, nofun, fun _ _ heq data' hdata' => ?_⟩
      cases heq
      obtain rfl := Option.some.inj (hdata.symm.trans hdata')
      exact ⟨_, List.mem_singleton_self _, hreflects.mpr (hregular.2 data hdata)⟩

/-- Regular events keep the responses. -/
theorem step_answering (hh : h.Answering) (hpossible : h.Possible event)
    (hregular : h.Regular event) (hstep : h.step event = .ok t) : t.Answering := by
  match event with
  | .query now delay .general => exact hh.query_general hstep
  | .query now delay (.group groupAddr queriedSources) =>
    exact hh.query_group hpossible.2.2 hregular hstep
  | .generalQueryTimer now => exact hh.generalQueryTimer hpossible.1 hstep
  | .groupQueryTimer now groupAddr =>
    obtain ⟨data, hdata, -⟩ := hpossible.2
    exact hh.groupQueryTimer hpossible.1 hdata hregular hstep
  | .multicastSourceListChanged now groupAddr sourceList =>
    obtain ⟨u, hu, hanswering⟩ :=
      hh.multicastSourceListChanged hpossible.1 hpossible.2.1 hpossible.2.2
    obtain rfl := Except.ok.inj (hu.symm.trans hstep)
    exact hanswering

/-- Queries are answered as they are to be in the runs in which all events are regular, and in no
others. -/
theorem along_answered_iff (events : List HostEvent)
    (hpossible : Run.Admissible step Possible {} events) :
    Run.Along step Answered {} events ↔ Run.Admissible step Regular {} events :=
  Run.along_iff_of_exact (P := Answering) (fun _ _ hh => step_answered_iff hh)
    (fun _ _ _ hh => step_answering hh) answering_initial hpossible

instance : Decidable (h.Reaches now) :=
  decidable_of_iff (h.now ≤ now ∧
      (∀ arrivalTime ∈ h.interfaceData.generalQueryTimer, now ≤ arrivalTime) ∧
      ∀ data ∈ h.interfaceData.groups, ∀ arrivalTime ∈ data.timer, now ≤ arrivalTime)
    ⟨fun ⟨hnow, hgeneral, hgroup⟩ => ⟨hnow, hgeneral, hgroup⟩,
      fun ⟨hnow, hgeneral, hgroup⟩ => ⟨hnow, hgeneral, hgroup⟩⟩

instance (h : QueriedHost) : ∀ event, Decidable (h.Possible event)
  | .query _ _ .general => inferInstanceAs (Decidable (_ ∧ _))
  | .query _ _ (.group _ _) => inferInstanceAs (Decidable (_ ∧ _ ∧ _))
  | .generalQueryTimer _ => inferInstanceAs (Decidable (_ ∧ _))
  | .groupQueryTimer _ groupAddr =>
    inferInstanceAs (Decidable (_ ∧ ∃ data ∈ h.interfaceData.find groupAddr, _))
  | .multicastSourceListChanged _ _ _ => inferInstanceAs (Decidable (_ ∧ _ ∧ _))

instance (h : QueriedHost) : ∀ event, Decidable (h.Regular event)
  | .query _ _ .general => .isTrue trivial
  | .query now delay (.group groupAddr queriedSources) =>
    inferInstanceAs (Decidable (¬ h.interfaceData.AnsweredSooner now delay →
      queriedSources ≠ [] → ∀ data ∈ h.interfaceData.find groupAddr,
      ∀ arrivalTime ∈ data.timer, if data.queriedSources = [] then arrivalTime ≤ now + delay
        else now + delay < arrivalTime ∨ queriedSources ⊆ data.queriedSources))
  | .generalQueryTimer _ => .isTrue trivial
  | .groupQueryTimer _ groupAddr =>
    have (sources : List IPv4Address) (p : IPv4Address → Prop) [DecidablePred p] :
        Decidable (∀ source ∈ sources, p source) := List.decidableBAll p sources
    inferInstanceAs (Decidable (_ ∧ ∀ data ∈ h.interfaceData.find groupAddr, _ → _))
  | .multicastSourceListChanged _ _ _ => .isTrue trivial

/-- A socket listens to 232.1.2.3. The group is queried, then two sources; both queries are
answered by one report. -/
theorem along_answered_both : Run.Along step Answered {}
      [.multicastSourceListChanged 0 0xE8010203#32 ⟨.MCAST_EXCLUDE_SOURCES, [0x0A000002#32]⟩,
        .query 1 5 (.group 0xE8010203#32 []),
        .query 2 8 (.group 0xE8010203#32 [0x0A000001#32, 0x0A000002#32]),
        .groupQueryTimer 6 0xE8010203#32] :=
  (along_answered_iff _ (by decide)).mpr (by decide)

/-- The query of a source comes sooner than the pending response to a query of the group, which is
then never answered. -/
theorem not_along_answered_group : Run.Admissible step Possible {}
      [.multicastSourceListChanged 0 0xE8010203#32 ⟨.MCAST_EXCLUDE_SOURCES, []⟩,
        .query 0 10 (.group 0xE8010203#32 []),
        .query 1 2 (.group 0xE8010203#32 [0x0A000001#32]),
        .groupQueryTimer 3 0xE8010203#32, .query 20 10 .general] ∧
    ¬ Run.Along step Answered {}
      [.multicastSourceListChanged 0 0xE8010203#32 ⟨.MCAST_EXCLUDE_SOURCES, []⟩,
        .query 0 10 (.group 0xE8010203#32 []),
        .query 1 2 (.group 0xE8010203#32 [0x0A000001#32]),
        .groupQueryTimer 3 0xE8010203#32, .query 20 10 .general] := by
  refine ⟨by decide, ?_⟩
  rintro ⟨_, h₁, -, _, h₂, -, _, h₃, -, _, h₄, -, t, h₅, hanswered, -⟩
  obtain rfl := Except.ok.inj h₁
  obtain rfl := Except.ok.inj h₂
  obtain rfl := Except.ok.inj h₃
  obtain rfl := Except.ok.inj h₄
  obtain rfl := Except.ok.inj h₅
  exact absurd (hanswered.inTime ⟨.group 0xE8010203#32 [], 10⟩ (by decide)) (by decide)

end QueriedHost

end Inet.Igmp
