import Inet.Igmp.TimedGroupData

/-!
# The transitions of RFC 3376

The tables of sections 6.4.1 and 6.4.2, as quoted in the comments of `processReport`, are functions
of the sources with and without a running timer. The code follows them for IS_IN, ALLOW and TO_IN,
and in INCLUDE mode for BLOCK and TO_EX.
-/

namespace Inet.Igmp

open Inet.Ipv4 (IPv4Address)
open FilterMode ReportType RouterState

namespace TimedGroupData

open TimedSourceRecord (key)

variable {groupData : TimedGroupData} {source other : IPv4Address}
  {receivedSources : List IPv4Address} {ctx : RouterContext}

/-- The timer of a source that has a record. -/
def sourceTimer (groupData : TimedGroupData) (source : IPv4Address) : Option (Option ℕ) :=
  (KeyedList.lookup TimedSourceRecord.key groupData.sources source.toNat).map
    TimedSourceRecord.sourceTimer

/-- There is one record for a source. -/
def Sorted (groupData : TimedGroupData) : Prop :=
  KeyedList.Sorted TimedSourceRecord.key groupData.sources

theorem sourceTimer_eq_some (h : groupData.Sorted) {timer : Option ℕ} :
    groupData.sourceTimer source = some timer ↔ ⟨source, timer⟩ ∈ groupData.sources := by
  rw [sourceTimer, Option.map_eq_some_iff]
  constructor
  · rintro ⟨⟨addr, timer'⟩, hlookup, rfl⟩
    obtain ⟨hmem, hkey⟩ := (KeyedList.lookup_eq_some h).mp hlookup
    obtain rfl : addr = source := BitVec.eq_of_toNat_eq hkey
    exact hmem
  · intro hmem
    exact ⟨_, (KeyedList.lookup_eq_some h).mpr ⟨hmem, rfl⟩, rfl⟩

theorem hasSourceRecord_eq (groupData : TimedGroupData) (source : IPv4Address) :
    groupData.hasSourceRecord source = (groupData.sourceTimer source).isSome := by
  rw [sourceTimer, Option.isSome_map, hasSourceRecord]

theorem mem_sourceAddrs : source ∈ groupData.sourceAddrs ↔ groupData.sourceTimer source ≠ none := by
  rw [← hasSourceRecord_iff, hasSourceRecord_eq, Option.isSome_iff_ne_none]

theorem mem_stoppedAddrs (h : groupData.Sorted) :
    source ∈ groupData.stoppedAddrs ↔ groupData.sourceTimer source = some none := by
  rw [sourceTimer_eq_some h, stoppedAddrs, List.mem_map]
  constructor
  · rintro ⟨⟨addr, timer⟩, hmem, rfl⟩
    obtain ⟨hmem, hnone⟩ := List.mem_filter.mp hmem
    obtain rfl := Option.isNone_iff_eq_none.mp hnone
    exact hmem
  · intro hmem
    exact ⟨_, List.mem_filter.mpr ⟨hmem, rfl⟩, rfl⟩

theorem mem_runningAddrs (h : groupData.Sorted) :
    source ∈ groupData.runningAddrs ↔ ∃ arrival, groupData.sourceTimer source =
      some (some arrival) := by
  simp only [sourceTimer_eq_some h, runningAddrs, List.mem_map]
  constructor
  · rintro ⟨⟨addr, timer⟩, hmem, rfl⟩
    obtain ⟨hmem, hsome⟩ := List.mem_filter.mp hmem
    obtain ⟨arrival, rfl⟩ := Option.isSome_iff_exists.mp hsome
    exact ⟨arrival, hmem⟩
  · rintro ⟨arrival, hmem⟩
    exact ⟨_, List.mem_filter.mpr ⟨hmem, rfl⟩, rfl⟩

theorem Sorted.startSourceTimer (h : groupData.Sorted) (arrival : ℕ) (source : IPv4Address) :
    (groupData.startSourceTimer arrival source).Sorted :=
  (KeyedList.Sorted.erase h _).insert fun _ hy => (KeyedList.mem_erase.mp hy).2

theorem sourceTimer_startSourceTimer (h : groupData.Sorted) (arrival : ℕ) :
    (groupData.startSourceTimer arrival source).sourceTimer other =
      if source = other then some (some arrival) else groupData.sourceTimer other := by
  have hlookup := @KeyedList.lookup_insert_erase _ _ _ key _
    ⟨source, some arrival⟩ other.toNat h
  simp only [key, BitVec.toNat_inj] at hlookup
  rw [sourceTimer, TimedGroupData.startSourceTimer, hlookup]
  split_ifs <;> rfl

theorem sources_erase_of_not_has (h : groupData.sourceTimer source = none) :
    KeyedList.erase key groupData.sources source.toNat = groupData.sources := by
  rw [sourceTimer, Option.map_eq_none_iff, KeyedList.lookup_eq_none] at h
  exact List.filter_eq_self.mpr fun elem helem => decide_eq_true (h elem helem)

section

variable (h : groupData.Sorted)

include h

theorem Sorted.createSourceRecord (hnone : groupData.sourceTimer source = none) :
    (groupData.createSourceRecord source).Sorted := by
  rw [sourceTimer, Option.map_eq_none_iff, KeyedList.lookup_eq_none] at hnone
  exact KeyedList.Sorted.insert h hnone

theorem sourceTimer_createSourceRecord (hnone : groupData.sourceTimer source = none) :
    (groupData.createSourceRecord source).sourceTimer other =
      if source = other then some none else groupData.sourceTimer other := by
  have hlookup := @KeyedList.lookup_insert_erase _ _ _ key _
    ⟨source, none⟩ other.toNat h
  simp only [key, sources_erase_of_not_has hnone, BitVec.toNat_inj] at hlookup
  rw [sourceTimer, TimedGroupData.createSourceRecord, hlookup]
  split_ifs <;> rfl

theorem Sorted.deleteSourceRecord (source : IPv4Address) :
    (groupData.deleteSourceRecord source).Sorted := KeyedList.Sorted.erase h _

theorem sourceTimer_deleteSourceRecord : (groupData.deleteSourceRecord source).sourceTimer other =
      if source = other then none else groupData.sourceTimer other := by
  have hsorted := h.deleteSourceRecord source
  ext timer
  rw [sourceTimer_eq_some hsorted, TimedGroupData.deleteSourceRecord, KeyedList.mem_erase,
    key, Ne, BitVec.toNat_inj]
  split_ifs with heq
  · simp [heq]
  · rw [sourceTimer_eq_some h]
    exact and_iff_left (Ne.symm heq)

/-- The timers after a loop over the received sources. -/
theorem startSourceTimers_spec (ctx : RouterContext) (receivedSources : List IPv4Address) :
    (groupData.startSourceTimers ctx receivedSources).Sorted ∧
      ∀ source, (groupData.startSourceTimers ctx receivedSources).sourceTimer source =
        if source ∈ receivedSources then some (some (membershipEnd ctx))
        else groupData.sourceTimer source := by
  rw [startSourceTimers]
  induction receivedSources generalizing groupData with
  | nil => exact ⟨h, fun _ => rfl⟩
  | cons first rest ih =>
    obtain ⟨hsorted, htimer⟩ := ih (h.startSourceTimer (membershipEnd ctx) first)
    refine ⟨hsorted, fun source => ?_⟩
    rw [List.foldl_cons, htimer, sourceTimer_startSourceTimer h]
    grind

theorem createMissing_spec (receivedSources : List IPv4Address) (arrival : Option ℕ) :
    (groupData.createMissing receivedSources arrival).Sorted ∧
      ∀ source, (groupData.createMissing receivedSources arrival).sourceTimer source =
        if source ∈ receivedSources ∧ groupData.sourceTimer source = none then some arrival
        else groupData.sourceTimer source := by
  rw [createMissing]
  induction receivedSources generalizing groupData with
  | nil => exact ⟨h, fun _ => by simp⟩
  | cons first rest ih =>
    rw [List.foldl_cons, hasSourceRecord_eq]
    cases hfirst : groupData.sourceTimer first with
    | some timer =>
      obtain ⟨hsorted, htimer⟩ := ih h
      refine ⟨hsorted, fun source => ?_⟩
      rw [Option.isSome_some, if_pos rfl, htimer]
      grind
    | none =>
      rw [Option.isSome_none, if_neg Bool.false_ne_true]
      cases arrival with
      | none =>
        obtain ⟨hsorted, htimer⟩ := ih (h.createSourceRecord hfirst)
        refine ⟨hsorted, fun source => ?_⟩
        rw [htimer, sourceTimer_createSourceRecord h hfirst]
        grind
      | some arrival =>
        obtain ⟨hsorted, htimer⟩ := ih (h.startSourceTimer arrival first)
        refine ⟨hsorted, fun source => ?_⟩
        rw [htimer, sourceTimer_startSourceTimer h]
        grind

theorem deleteUnless_spec (receivedSources sourcesA : List IPv4Address) :
    (groupData.deleteUnless receivedSources sourcesA).Sorted ∧
      ∀ source, (groupData.deleteUnless receivedSources sourcesA).sourceTimer source =
        if source ∈ sourcesA ∧ source ∉ receivedSources then none
        else groupData.sourceTimer source := by
  rw [deleteUnless]
  induction sourcesA generalizing groupData with
  | nil => exact ⟨h, fun _ => by simp⟩
  | cons first rest ih =>
    rw [List.foldl_cons]
    split_ifs with hreceived
    · obtain ⟨hsorted, htimer⟩ := ih h
      refine ⟨hsorted, fun source => ?_⟩
      rw [List.contains_iff_mem] at hreceived
      rw [htimer]
      grind
    · obtain ⟨hsorted, htimer⟩ := ih (h.deleteSourceRecord first)
      refine ⟨hsorted, fun source => ?_⟩
      rw [List.contains_iff_mem] at hreceived
      rw [htimer, sourceTimer_deleteSourceRecord h]
      grind

end

/-- X, or A in INCLUDE mode: the sources with a running timer. -/
def runningSources (groupData : TimedGroupData) : Set IPv4Address :=
  {source | ∃ arrival, groupData.sourceTimer source = some (some arrival)}

/-- Y: the sources whose timer is not running. -/
def stoppedSources (groupData : TimedGroupData) : Set IPv4Address :=
  {source | groupData.sourceTimer source = some none}

/-- A state INCLUDE(A) or EXCLUDE(X,Y). -/
structure Valid (groupData : TimedGroupData) : Prop where
  sorted : groupData.Sorted
  running : groupData.filter = IGMPV3_FM_INCLUDE → groupData.stoppedSources = ∅

end TimedGroupData

/-- What an action of the tables does to the group timer. -/
inductive GroupTimerAction where
  | keep
  | membershipInterval
  | lastMemberQueryTime
deriving DecidableEq

/-- A row of the tables of RFC 3376. -/
structure Transition where
  filter : FilterMode
  running : Set IPv4Address
  stopped : Set IPv4Address := ∅
  /-- The timers of these sources are set to GMI. -/
  toInterval : Set IPv4Address := ∅
  /-- The timers of these sources are set to the group timer. -/
  toGroupTimer : Set IPv4Address := ∅
  groupTimer : GroupTimerAction := .keep
  /-- `Send Q(G,S)`. -/
  querySources : Set IPv4Address := ∅
  /-- `Send Q(G)`. -/
  queryGroup : Prop := False

/-- The tables of sections 6.4.1 and 6.4.2. A router that sends a query about the group lowers the
group timer to the last member query time. -/
def transition (x y a : Set IPv4Address) : FilterMode → ReportType → Transition
  | IGMPV3_FM_INCLUDE, IGMPV3_RT_IS_IN =>
    { filter := IGMPV3_FM_INCLUDE, running := x ∪ a, toInterval := a }
  | IGMPV3_FM_INCLUDE, IGMPV3_RT_IS_EX =>
    { filter := IGMPV3_FM_EXCLUDE, running := x ∩ a, stopped := a \ x
      groupTimer := .membershipInterval }
  | IGMPV3_FM_INCLUDE, IGMPV3_RT_ALLOW =>
    { filter := IGMPV3_FM_INCLUDE, running := x ∪ a, toInterval := a }
  | IGMPV3_FM_INCLUDE, IGMPV3_RT_BLOCK =>
    { filter := IGMPV3_FM_INCLUDE, running := x, querySources := x ∩ a }
  | IGMPV3_FM_INCLUDE, IGMPV3_RT_TO_IN =>
    { filter := IGMPV3_FM_INCLUDE, running := x ∪ a, toInterval := a, querySources := x \ a }
  | IGMPV3_FM_INCLUDE, IGMPV3_RT_TO_EX =>
    { filter := IGMPV3_FM_EXCLUDE, running := x ∩ a, stopped := a \ x
      groupTimer := .membershipInterval, querySources := x ∩ a }
  | IGMPV3_FM_EXCLUDE, IGMPV3_RT_IS_IN =>
    { filter := IGMPV3_FM_EXCLUDE, running := x ∪ a, stopped := y \ a, toInterval := a }
  | IGMPV3_FM_EXCLUDE, IGMPV3_RT_IS_EX =>
    { filter := IGMPV3_FM_EXCLUDE, running := a \ y, stopped := y ∩ a
      toInterval := (a \ x) \ y, groupTimer := .membershipInterval }
  | IGMPV3_FM_EXCLUDE, IGMPV3_RT_ALLOW =>
    { filter := IGMPV3_FM_EXCLUDE, running := x ∪ a, stopped := y \ a, toInterval := a }
  | IGMPV3_FM_EXCLUDE, IGMPV3_RT_BLOCK =>
    { filter := IGMPV3_FM_EXCLUDE, running := x ∪ (a \ y), stopped := y
      toGroupTimer := (a \ x) \ y, querySources := a \ y }
  | IGMPV3_FM_EXCLUDE, IGMPV3_RT_TO_IN =>
    { filter := IGMPV3_FM_EXCLUDE, running := x ∪ a, stopped := y \ a, toInterval := a
      groupTimer := .lastMemberQueryTime, querySources := x \ a, queryGroup := True }
  | IGMPV3_FM_EXCLUDE, IGMPV3_RT_TO_EX =>
    { filter := IGMPV3_FM_EXCLUDE, running := a \ y, stopped := y ∩ a
      toGroupTimer := (a \ x) \ y, groupTimer := .membershipInterval, querySources := a \ y }

/-- A querier asks for these sources, unless there are none. -/
structure Asks (ctx : RouterContext) (queries : List RouterQuery) (sources : Set IPv4Address) :
    Prop where
  only : ∀ list, .groupAndSourceSpecific list ∈ queries → {source | source ∈ list} = sources
  sent : (∃ list, .groupAndSourceSpecific list ∈ queries) ↔
    ctx.state = IGMPV3_RS_QUERIER ∧ sources.Nonempty

namespace TimedGroupData

variable {groupData groupData' : TimedGroupData} {source : IPv4Address}
  {receivedSources : List IPv4Address} {ctx : RouterContext}

/-- The sources have the timers of a row. -/
structure SetsTimers (ctx : RouterContext) (old new : TimedGroupData) (row : Transition) :
    Prop where
  running : new.runningSources = row.running
  stopped : new.stoppedSources = row.stopped
  toInterval : ∀ source ∈ row.toInterval,
    new.sourceTimer source = some (some (membershipEnd ctx))
  toGroupTimer : ∀ source ∈ row.toGroupTimer, new.sourceTimer source = some old.timer
  kept : ∀ source ∈ row.running, source ∉ row.toInterval → source ∉ row.toGroupTimer →
    new.sourceTimer source = old.sourceTimer source

/-- The new state and the queries are those of a row. -/
structure Performs (ctx : RouterContext) (old new : TimedGroupData) (queries : List RouterQuery)
    (row : Transition) : Prop where
  groupAddr : new.groupAddr = old.groupAddr
  filter : new.filter = row.filter
  sources : SetsTimers ctx old new row
  timer : new.timer = match row.groupTimer with
    | .keep => old.timer
    | .membershipInterval => some (membershipEnd ctx)
    | .lastMemberQueryTime => some (ctx.simTime + ctx.lastMemberQueryTime)
  asks : Asks ctx queries row.querySources
  asksGroup : (∃ suppress, .groupSpecific suppress ∈ queries) ↔
    ctx.state = IGMPV3_RS_QUERIER ∧ row.queryGroup

/-- The record is processed, and as the tables say. -/
def Follows (ctx : RouterContext) (groupData : TimedGroupData) (received : Set IPv4Address)
    (recordType : ReportType) (result : Result (TimedGroupData × List RouterQuery)) : Prop :=
  ∃ new queries, result = .ok (new, queries) ∧ Performs ctx groupData new queries
    (transition groupData.runningSources groupData.stoppedSources received groupData.filter
      recordType)

/-- The records that the code processes as the tables say. -/
def Regular (ctx : RouterContext) (groupData : TimedGroupData)
    (receivedSources : List IPv4Address) : ReportType → Prop
  | IGMPV3_RT_IS_EX =>
    (∀ source ∈ groupData.sourceAddrs, source ∈ receivedSources) ∧
      (groupData.filter = IGMPV3_FM_EXCLUDE → 0 < ctx.groupMembershipInterval ∨
          ∀ source ∈ receivedSources, source ∈ groupData.sourceAddrs)
  | IGMPV3_RT_BLOCK =>
    groupData.filter = IGMPV3_FM_EXCLUDE →
      (∀ source ∈ receivedSources, source ∈ groupData.sourceAddrs) ∧
        (ctx.state = IGMPV3_RS_QUERIER →
          ∀ source ∈ groupData.stoppedAddrs, receivedSources.count source ≤ 1)
  | IGMPV3_RT_TO_EX =>
    groupData.filter = IGMPV3_FM_EXCLUDE → groupData.sources = [] ∧
        (receivedSources = [] ∨ groupData.timer = some (membershipEnd ctx))
  | _ => True

section

variable {first second : List IPv4Address}

theorem asks_querySources_iff {list : List IPv4Address} {sources : Set IPv4Address} :
    Asks ctx (querySources ctx list) sources ↔
      (ctx.state = IGMPV3_RS_QUERIER → {source | source ∈ list} = sources) := by
  have hmem (list' : List IPv4Address) : .groupAndSourceSpecific list' ∈ querySources ctx list ↔
        list ≠ [] ∧ ctx.state = IGMPV3_RS_QUERIER ∧ list' = list := by
    rw [querySources, sendGroupAndSourceSpecificQuery]
    cases list with
    | nil => simp
    | cons first rest => by_cases hstate : ctx.state = IGMPV3_RS_QUERIER <;> simp [hstate]
  have hnonempty : {source | source ∈ list}.Nonempty ↔ list ≠ [] := by
    rw [Set.Nonempty, Ne, List.eq_nil_iff_forall_not_mem]
    push Not
    rfl
  constructor
  · rintro ⟨honly, hsent⟩ hstate
    by_cases hnil : list = []
    · -- nothing is asked, so nothing should be
      subst hnil
      have hempty : ¬ sources.Nonempty := fun hsources => by
        obtain ⟨list', hlist'⟩ := hsent.mpr ⟨hstate, hsources⟩
        exact ((hmem list').mp hlist').1 rfl
      rw [Set.not_nonempty_iff_eq_empty.mp hempty]
      simp
    · exact honly list ((hmem list).mpr ⟨hnil, hstate, rfl⟩)
  · intro hsources
    constructor
    · intro list' hlist'
      obtain ⟨-, hstate, rfl⟩ := (hmem list').mp hlist'
      exact hsources hstate
    · simp only [hmem]
      constructor
      · rintro ⟨list', hnil, hstate, rfl⟩
        exact ⟨hstate, hsources hstate ▸ hnonempty.mpr hnil⟩
      · rintro ⟨hstate, hsome⟩
        rw [← hsources hstate, hnonempty] at hsome
        exact ⟨list, hsome, hstate, rfl⟩

theorem asks_nil : Asks ctx [] ∅ where
  only := fun _ h => nomatch h
  sent := by simp

theorem asks_append {queries rest : List RouterQuery} {sources : Set IPv4Address}
    (h : Asks ctx queries sources) (hrest : ∀ list, .groupAndSourceSpecific list ∉ rest) :
    Asks ctx (queries ++ rest) sources where
  only := by
    intro list hlist
    exact h.only list ((List.mem_append.mp hlist).resolve_right (hrest list))
  sent := by
    rw [← h.sent]
    simp [hrest]

theorem setOf_mem_setIntersection :
    {source | source ∈ IPv4AddressVector.setIntersection first second} =
      {source | source ∈ first} ∩ {source | source ∈ second} := by
  ext source
  rw [Set.mem_inter_iff]
  exact List.mem_bagInter

theorem setOf_mem_setComplement (h : first.Nodup) :
    {source | source ∈ IPv4AddressVector.setComplement first second} =
      {source | source ∈ first} \ {source | source ∈ second} := by
  ext source
  rw [Set.mem_sdiff]
  exact h.mem_sdiff_iff

/-- What is left of a list with repeated elements. -/
theorem setOf_mem_setComplement_iff (h : second.Nodup) :
    {source | source ∈ IPv4AddressVector.setComplement first second} =
        {source | source ∈ first} \ {source | source ∈ second} ↔
      ∀ source ∈ second, first.count source ≤ 1 := by
  rw [Set.ext_iff]
  refine forall_congr' fun source => ?_
  have hcount : source ∈ IPv4AddressVector.setComplement first second ↔
      second.count source < first.count source := by
    rw [IPv4AddressVector.setComplement, ← List.count_pos_iff, List.count_diff, Nat.sub_pos_iff_lt]
  simp only [Set.mem_ofPred_eq, Set.mem_sdiff, hcount]
  by_cases hmem : source ∈ second
  · rw [List.count_eq_one_of_mem h hmem]
    simp [hmem]
  · rw [List.count_eq_zero.mpr hmem, List.count_pos_iff]
    simp [hmem]

section

variable (h : groupData.Sorted)

include h

theorem Sorted.nodup : groupData.sourceAddrs.Nodup :=
  List.pairwise_map.mpr (h.imp fun hlt heq => hlt.ne (congrArg BitVec.toNat heq))

theorem Sorted.nodup_stopped : groupData.stoppedAddrs.Nodup :=
  h.nodup.sublist (List.filter_sublist.map _)

theorem Sorted.nodup_running : groupData.runningAddrs.Nodup :=
  h.nodup.sublist (List.filter_sublist.map _)

theorem setOf_mem_stoppedAddrs :
    {source | source ∈ groupData.stoppedAddrs} = groupData.stoppedSources :=
  Set.ext fun _ => mem_stoppedAddrs h

theorem setOf_mem_runningAddrs :
    {source | source ∈ groupData.runningAddrs} = groupData.runningSources :=
  Set.ext fun _ => mem_runningAddrs h

end

theorem setOf_mem_sourceAddrs : {source | source ∈ groupData.sourceAddrs} =
      groupData.runningSources ∪ groupData.stoppedSources := by
  ext source
  rw [Set.mem_ofPred_eq, mem_sourceAddrs]
  cases hsource : groupData.sourceTimer source with
  | none => simp [runningSources, stoppedSources, hsource]
  | some timer => cases timer <;> simp [runningSources, stoppedSources, hsource]

end

variable {row : Transition}

/-- Only the sources are different. -/
def SameGroup (new old : TimedGroupData) : Prop :=
  new.groupAddr = old.groupAddr ∧ new.filter = old.filter ∧ new.timer = old.timer

theorem startSourceTimers_frame (ctx : RouterContext) (groupData : TimedGroupData)
    (receivedSources : List IPv4Address) :
    SameGroup (groupData.startSourceTimers ctx receivedSources) groupData := by
  rw [startSourceTimers]
  induction receivedSources generalizing groupData with
  | nil => exact ⟨rfl, rfl, rfl⟩
  | cons first rest ih => exact ih _

theorem createMissing_frame (groupData : TimedGroupData) (receivedSources : List IPv4Address)
    (arrival : Option ℕ) :
    SameGroup (groupData.createMissing receivedSources arrival) groupData := by
  rw [createMissing]
  induction receivedSources generalizing groupData with
  | nil => exact ⟨rfl, rfl, rfl⟩
  | cons first rest ih =>
    rw [List.foldl_cons]
    split_ifs
    · exact ih groupData
    · cases arrival <;> exact ih _

theorem deleteUnless_frame (groupData : TimedGroupData)
    (receivedSources sourcesA : List IPv4Address) :
    SameGroup (groupData.deleteUnless receivedSources sourcesA) groupData := by
  rw [deleteUnless]
  induction sourcesA generalizing groupData with
  | nil => exact ⟨rfl, rfl, rfl⟩
  | cons first rest ih =>
    rw [List.foldl_cons]
    split_ifs <;> exact ih _

theorem setsTimers_startSourceTimers (h : groupData.Sorted)
    (hrunning : row.running = groupData.runningSources ∪ {source | source ∈ receivedSources})
    (hstopped : row.stopped = groupData.stoppedSources \ {source | source ∈ receivedSources})
    (hinterval : row.toInterval = {source | source ∈ receivedSources})
    (hgroupTimer : row.toGroupTimer = ∅) :
    SetsTimers ctx groupData (groupData.startSourceTimers ctx receivedSources) row := by
  obtain ⟨-, htimer⟩ := startSourceTimers_spec h ctx receivedSources
  constructor
  · ext source
    rw [hrunning]
    simp only [runningSources, Set.mem_union, Set.mem_ofPred_eq, htimer]
    grind
  · ext source
    rw [hstopped]
    simp only [stoppedSources, Set.mem_sdiff, Set.mem_ofPred_eq, htimer]
    grind
  · intro source hsource
    rw [hinterval, Set.mem_ofPred_eq] at hsource
    rw [htimer, if_pos hsource]
  · intro source hsource
    rw [hgroupTimer] at hsource
    cases hsource
  · intro source hsource hnot
    rw [hinterval, Set.mem_ofPred_eq] at hnot
    intro _
    rw [htimer, if_neg hnot]

theorem SetsTimers.exists_of_mem (h : SetsTimers ctx groupData groupData' row)
    (hsource : source ∈ row.running) :
    ∃ arrival, groupData'.sourceTimer source = some (some arrival) := by
  rw [← h.running] at hsource
  exact hsource

/-- A received source without a record is in A-Y. -/
theorem mem_sdiff_stopped {received : Set IPv4Address} (hsource : source ∈ received)
    (hnone : groupData.sourceTimer source = none) :
    source ∈ received \ groupData.stoppedSources := by
  refine ⟨hsource, fun hstopped => ?_⟩
  cases hnone.symm.trans hstopped

theorem asksGroup_nil_iff {queries : List RouterQuery}
    (h : ∀ suppress, .groupSpecific suppress ∉ queries) :
    (∃ suppress, .groupSpecific suppress ∈ queries) ↔ ctx.state = IGMPV3_RS_QUERIER ∧ False := by
  simp [h]

theorem groupSpecific_notMem (ctx : RouterContext) (sources : List IPv4Address) (suppress : Bool) :
    .groupSpecific suppress ∉ querySources ctx sources := by
  rw [querySources, sendGroupAndSourceSpecificQuery]
  split_ifs <;> simp

/-- IS_IN and ALLOW. -/
theorem follows_start (h : groupData.Valid) {recordType : ReportType}
    (hrecord : recordType = IGMPV3_RT_IS_IN ∨ recordType = IGMPV3_RT_ALLOW) :
    Follows ctx groupData {source | source ∈ receivedSources} recordType
      (.ok (groupData.startSourceTimers ctx receivedSources, [])) := by
  obtain ⟨haddr, hfilter, htimer⟩ := startSourceTimers_frame ctx groupData receivedSources
  refine ⟨_, _, rfl, ?_⟩
  cases hmode : groupData.filter with
  | IGMPV3_FM_INCLUDE =>
    have hempty : (∅ : Set IPv4Address) =
        groupData.stoppedSources \ {source | source ∈ receivedSources} := by
      rw [h.running hmode, Set.empty_sdiff]
    rcases hrecord with rfl | rfl
    · exact ⟨haddr, hfilter.trans hmode,
        setsTimers_startSourceTimers h.sorted rfl hempty rfl rfl, htimer, asks_nil,
        asksGroup_nil_iff fun _ hmem => nomatch hmem⟩
    · exact ⟨haddr, hfilter.trans hmode,
        setsTimers_startSourceTimers h.sorted rfl hempty rfl rfl, htimer, asks_nil,
        asksGroup_nil_iff fun _ hmem => nomatch hmem⟩
  | IGMPV3_FM_EXCLUDE =>
    rcases hrecord with rfl | rfl
    · exact ⟨haddr, hfilter.trans hmode,
        setsTimers_startSourceTimers h.sorted rfl rfl rfl rfl, htimer, asks_nil,
        asksGroup_nil_iff fun _ hmem => nomatch hmem⟩
    · exact ⟨haddr, hfilter.trans hmode,
        setsTimers_startSourceTimers h.sorted rfl rfl rfl rfl, htimer, asks_nil,
        asksGroup_nil_iff fun _ hmem => nomatch hmem⟩

theorem follows_toIn (h : groupData.Valid) :
    Follows ctx groupData {source | source ∈ receivedSources} IGMPV3_RT_TO_IN
      (.ok (groupData.processToIn ctx receivedSources)) := by
  obtain ⟨haddr, hfilter, htimer⟩ := startSourceTimers_frame ctx groupData receivedSources
  obtain ⟨hsorted, hsource⟩ := startSourceTimers_spec h.sorted ctx receivedSources
  cases hmode : groupData.filter with
  | IGMPV3_FM_INCLUDE =>
    have hresult : groupData.processToIn ctx receivedSources =
        (groupData.startSourceTimers ctx receivedSources,
          querySources ctx (IPv4AddressVector.setComplement
            (groupData.startSourceTimers ctx receivedSources).sourceAddrs receivedSources)) := by
      rw [processToIn, hmode]
    have hempty := h.running hmode
    rw [hresult, Follows, hmode]
    refine ⟨_, _, rfl, haddr, hfilter.trans hmode,
      setsTimers_startSourceTimers h.sorted rfl ?_ rfl rfl, htimer,
      asks_querySources_iff.mpr fun _ => ?_, asksGroup_nil_iff (groupSpecific_notMem ctx _)⟩
    · rw [hempty, Set.empty_sdiff]
      rfl
    · -- A+B without B is A without B
      rw [setOf_mem_setComplement hsorted.nodup]
      ext source
      have hstopped : groupData.sourceTimer source ≠ some none := fun hnone => by
        have hmem : source ∈ groupData.stoppedSources := hnone
        rw [hempty] at hmem
        cases hmem
      simp only [transition, runningSources, Set.mem_sdiff, Set.mem_ofPred_eq, mem_sourceAddrs,
        hsource]
      cases hold : groupData.sourceTimer source with
      | none => simp
      | some timer => cases timer <;> simp_all
  | IGMPV3_FM_EXCLUDE =>
    have hresult : groupData.processToIn ctx receivedSources =
        ((sendGroupSpecificQuery ctx (groupData.startSourceTimers ctx receivedSources)).1,
          querySources ctx (IPv4AddressVector.setComplement groupData.runningAddrs
            receivedSources) ++
          (sendGroupSpecificQuery ctx (groupData.startSourceTimers ctx receivedSources)).2) := by
      rw [processToIn, hmode]
    have hasks : Asks ctx (querySources ctx (IPv4AddressVector.setComplement
        groupData.runningAddrs receivedSources)) _ :=
      asks_querySources_iff.mpr fun _ => setOf_mem_setComplement h.sorted.nodup_running
    rw [hresult, Follows, hmode]
    refine ⟨_, _, rfl, haddr, hfilter.trans hmode, ?_, rfl, ?_, ?_⟩
    · have hsets : SetsTimers ctx groupData (groupData.startSourceTimers ctx receivedSources)
          (transition groupData.runningSources groupData.stoppedSources
            {source | source ∈ receivedSources} IGMPV3_FM_EXCLUDE IGMPV3_RT_TO_IN) :=
        setsTimers_startSourceTimers h.sorted rfl rfl rfl rfl
      exact ⟨hsets.running, hsets.stopped, hsets.toInterval, hsets.toGroupTimer, hsets.kept⟩
    · rw [setOf_mem_runningAddrs h.sorted] at hasks
      refine asks_append hasks fun list hmem => ?_
      rw [sendGroupSpecificQuery] at hmem
      split_ifs at hmem <;> simp at hmem
    · have hnot := groupSpecific_notMem ctx
        (IPv4AddressVector.setComplement groupData.runningAddrs receivedSources)
      simp only [List.mem_append, hnot, false_or, sendGroupSpecificQuery]
      split_ifs with hquerier <;> simp [hquerier, transition]

/-- The timers after the loop that creates records, if no record is deleted. -/
theorem setsTimers_createMissing_include (h : groupData.Valid)
    (receivedSources : List IPv4Address) (hmode : groupData.filter = IGMPV3_FM_INCLUDE)
    (htimer : ∀ source, groupData'.sourceTimer source = if source ∉ receivedSources then none
      else if groupData.sourceTimer source = none then some none
      else groupData.sourceTimer source)
    (hrunning : row.running = groupData.runningSources ∩ {source | source ∈ receivedSources})
    (hstopped : row.stopped = {source | source ∈ receivedSources} \ groupData.runningSources)
    (hinterval : row.toInterval = ∅) (hgroupTimer : row.toGroupTimer = ∅) :
    SetsTimers ctx groupData groupData' row := by
  have hnot (source : IPv4Address) : groupData.sourceTimer source ≠ some none := fun hnone => by
    have hmem : source ∈ groupData.stoppedSources := hnone
    rw [h.running hmode] at hmem
    cases hmem
  constructor
  · ext source
    rw [hrunning]
    simp only [runningSources, Set.mem_inter_iff, Set.mem_ofPred_eq, htimer]
    grind
  · ext source
    rw [hstopped]
    simp only [stoppedSources, runningSources, Set.mem_sdiff, Set.mem_ofPred_eq, htimer]
    have := hnot source
    cases hold : groupData.sourceTimer source with
    | none => simp
    | some timer => cases timer <;> simp_all
  · intro source hsource
    rw [hinterval] at hsource
    cases hsource
  · intro source hsource
    rw [hgroupTimer] at hsource
    cases hsource
  · intro source hsource _ _
    rw [hrunning] at hsource
    obtain ⟨⟨arrival, hold⟩, hreceived⟩ := hsource
    rw [Set.mem_ofPred_eq] at hreceived
    rw [htimer, if_neg (not_not.mpr hreceived), if_neg (by rw [hold]; simp)]

/-- The timers after the loop that creates records and starts their timers. -/
theorem setsTimers_createMissing_exclude (receivedSources : List IPv4Address)
    (hall : ∀ source, source ∉ receivedSources → groupData.sourceTimer source = none)
    (htimer : ∀ source, groupData'.sourceTimer source =
      if source ∈ receivedSources ∧ groupData.sourceTimer source = none then
        some (some (membershipEnd ctx))
      else groupData.sourceTimer source)
    (hrunning : row.running = {source | source ∈ receivedSources} \ groupData.stoppedSources)
    (hstopped : row.stopped = groupData.stoppedSources ∩ {source | source ∈ receivedSources})
    (hinterval : row.toInterval =
      ({source | source ∈ receivedSources} \ groupData.runningSources) \ groupData.stoppedSources)
    (hgroupTimer : row.toGroupTimer = ∅) : SetsTimers ctx groupData groupData' row := by
  have hnone (source : IPv4Address) :
      source ∈ row.toInterval ↔ source ∈ receivedSources ∧ groupData.sourceTimer source = none := by
    rw [hinterval]
    simp only [runningSources, stoppedSources, Set.mem_sdiff, Set.mem_ofPred_eq]
    cases groupData.sourceTimer source with
    | none => simp
    | some timer => cases timer <;> simp
  constructor
  · ext source
    rw [hrunning]
    simp only [runningSources, stoppedSources, Set.mem_sdiff, Set.mem_ofPred_eq, htimer]
    have := hall source
    cases hold : groupData.sourceTimer source with
    | none => by_cases hreceived : source ∈ receivedSources <;> simp [hreceived]
    | some timer =>
      cases timer with
      | none => simp
      | some arrival =>
        have hreceived : source ∈ receivedSources := by
          by_contra hnot
          rw [this hnot] at hold
          cases hold
        simp [hreceived]
  · ext source
    rw [hstopped]
    simp only [stoppedSources, Set.mem_inter_iff, Set.mem_ofPred_eq, htimer]
    have := hall source
    grind
  · intro source hsource
    rw [htimer, if_pos ((hnone source).mp hsource)]
  · intro source hsource
    rw [hgroupTimer] at hsource
    cases hsource
  · intro source _ hnot _
    rw [htimer, if_neg (mt (hnone source).mpr hnot)]

theorem processIsEx_of_all (hall : ∀ source ∈ groupData.sourceAddrs, source ∈ receivedSources) :
    groupData.processIsEx ctx receivedSources = .ok
      ({ (groupData.startTimer (membershipEnd ctx)).createMissing receivedSources
          (if groupData.filter = IGMPV3_FM_EXCLUDE ∧ 0 < ctx.groupMembershipInterval then
            some (membershipEnd ctx) else none) with filter := IGMPV3_FM_EXCLUDE }, []) := by
  have hcontains : (groupData.startTimer (membershipEnd ctx)).sources.all fun elem =>
      receivedSources.contains elem.sourceAddr :=
    List.all_eq_true.mpr fun elem helem =>
      List.contains_iff_mem.mpr (hall _ (List.mem_map_of_mem helem))
  have htimer : (if (if groupData.filter = IGMPV3_FM_INCLUDE then 0
      else ctx.groupMembershipInterval) > 0 then some (membershipEnd ctx) else none) =
        if groupData.filter = IGMPV3_FM_EXCLUDE ∧ 0 < ctx.groupMembershipInterval then
          some (membershipEnd ctx) else none := by
    cases groupData.filter <;> simp
  rw [processIsEx, deleteOthers, if_pos hcontains, ← htimer]
  rfl

theorem not_follows_isEx (hall : ¬ ∀ source ∈ groupData.sourceAddrs, source ∈ receivedSources)
    {received : Set IPv4Address} :
    ¬ Follows ctx groupData received IGMPV3_RT_IS_EX
      (groupData.processIsEx ctx receivedSources) := by
  rintro ⟨new, queries, hok, -⟩
  obtain ⟨kept, hkept, -⟩ := bind_eq_ok.mp hok
  rw [deleteOthers] at hkept
  split_ifs at hkept with hcontains
  refine hall fun source hsource => ?_
  obtain ⟨elem, helem, rfl⟩ := List.mem_map.mp hsource
  exact List.contains_iff_mem.mp (List.all_eq_true.mp hcontains elem helem)

theorem follows_isEx_iff (h : groupData.Valid) :
    Follows ctx groupData {source | source ∈ receivedSources} IGMPV3_RT_IS_EX
        (groupData.processIsEx ctx receivedSources) ↔
      Regular ctx groupData receivedSources IGMPV3_RT_IS_EX := by
  by_cases hall : ∀ source ∈ groupData.sourceAddrs, source ∈ receivedSources
  swap
  · exact iff_of_false (not_follows_isEx hall) fun hregular => hall hregular.1
  have hother (source : IPv4Address) (hnot : source ∉ receivedSources) :
      groupData.sourceTimer source = none := by
    by_contra hsome
    exact hnot (hall source (mem_sourceAddrs.mpr hsome))
  obtain ⟨arrival, harrival⟩ : ∃ arrival, arrival =
      if groupData.filter = IGMPV3_FM_EXCLUDE ∧ 0 < ctx.groupMembershipInterval then
        some (membershipEnd ctx) else none := ⟨_, rfl⟩
  have hnew : ∀ source, _ = if source ∈ receivedSources ∧ groupData.sourceTimer source = none then
      some arrival else groupData.sourceTimer source :=
    (@createMissing_spec (groupData.startTimer (membershipEnd ctx)) h.sorted _ arrival).2
  obtain ⟨haddr, -, htimer⟩ := createMissing_frame (groupData.startTimer (membershipEnd ctx))
    receivedSources arrival
  rw [processIsEx_of_all hall, ← harrival, Follows]
  cases hmode : groupData.filter with
  | IGMPV3_FM_INCLUDE =>
    rw [hmode, if_neg (fun hpos => nomatch hpos.1)] at harrival
    refine iff_of_true ?_ ⟨hall, fun hexclude => by rw [hmode] at hexclude; cases hexclude⟩
    refine ⟨_, _, rfl, haddr, rfl, ?_, htimer, asks_nil,
      asksGroup_nil_iff fun _ hmem => nomatch hmem⟩
    refine setsTimers_createMissing_include h receivedSources hmode
      (fun source => (hnew source).trans ?_) rfl rfl rfl rfl
    have := hother source
    grind
  | IGMPV3_FM_EXCLUDE =>
    simp only [hmode, true_and] at harrival
    constructor
    · rintro ⟨_, _, hok, hperforms⟩
      cases hok
      refine ⟨hall, fun _ => ?_⟩
      by_contra hcontra
      push Not at hcontra
      obtain ⟨hzero, source, hreceived, hmissed⟩ := hcontra
      rw [mem_sourceAddrs, not_not] at hmissed
      -- a new record without a running timer
      rw [if_neg (Nat.not_lt.mpr hzero)] at harrival
      obtain ⟨arrival', hrunning⟩ := hperforms.sources.exists_of_mem
        (mem_sdiff_stopped hreceived hmissed)
      have hstopped := (hnew source).symm.trans hrunning
      rw [if_pos ⟨hreceived, hmissed⟩, harrival] at hstopped
      cases hstopped
    · rintro ⟨-, hregular⟩
      refine ⟨_, _, rfl, haddr, rfl, ?_, htimer, asks_nil,
        asksGroup_nil_iff fun _ hmem => nomatch hmem⟩
      refine setsTimers_createMissing_exclude receivedSources hother
        (fun source => (hnew source).trans ?_) rfl rfl rfl rfl
      rcases hregular hmode with hpos | hhas
      · rw [harrival, if_pos hpos]
      · have hmissed := hhas source
        rw [mem_sourceAddrs] at hmissed
        grind

theorem follows_block_iff (h : groupData.Valid) :
    Follows ctx groupData {source | source ∈ receivedSources} IGMPV3_RT_BLOCK
        (.ok (groupData.processBlock ctx receivedSources)) ↔
      Regular ctx groupData receivedSources IGMPV3_RT_BLOCK := by
  cases hmode : groupData.filter with
  | IGMPV3_FM_INCLUDE =>
    have hresult : groupData.processBlock ctx receivedSources = (groupData, querySources ctx
        (IPv4AddressVector.setIntersection groupData.sourceAddrs receivedSources)) := by
      rw [processBlock, hmode]
    have hstopped := h.running hmode
    refine iff_of_true ?_ fun hexclude => by rw [hmode] at hexclude; cases hexclude
    rw [hresult, Follows, hmode]
    refine ⟨_, _, rfl, rfl, hmode, ⟨rfl, hstopped, ?_, ?_, fun _ _ _ _ => rfl⟩, rfl,
      asks_querySources_iff.mpr fun _ => ?_, asksGroup_nil_iff (groupSpecific_notMem ctx _)⟩
    · exact fun _ hsource => False.elim hsource
    · exact fun _ hsource => False.elim hsource
    · rw [setOf_mem_setIntersection, setOf_mem_sourceAddrs, hstopped, Set.union_empty]
      rfl
  | IGMPV3_FM_EXCLUDE =>
    have hresult : groupData.processBlock ctx receivedSources = (groupData, querySources ctx
        (IPv4AddressVector.setComplement receivedSources groupData.stoppedAddrs)) := by
      have hsame : (groupData.processBlock ctx receivedSources).1 = groupData := processBlock_fst
      rw [processBlock, hmode] at hsame ⊢
      exact Prod.ext hsame (by rw [show createMissing _ _ _ = _ from hsame])
    have hasks : Asks ctx (querySources ctx
        (IPv4AddressVector.setComplement receivedSources groupData.stoppedAddrs))
          ({source | source ∈ receivedSources} \ groupData.stoppedSources) ↔
        (ctx.state = IGMPV3_RS_QUERIER →
          ∀ source ∈ groupData.stoppedAddrs, receivedSources.count source ≤ 1) := by
      rw [asks_querySources_iff, ← setOf_mem_stoppedAddrs h.sorted,
        setOf_mem_setComplement_iff h.sorted.nodup_stopped]
    rw [hresult, Follows, hmode]
    constructor
    · rintro ⟨_, _, hok, hperforms⟩
      cases hok
      refine fun _ => ⟨fun source hreceived => ?_, hasks.mp hperforms.asks⟩
      rw [mem_sourceAddrs]
      intro hmissed
      obtain ⟨arrival, hrunning⟩ := hperforms.sources.exists_of_mem
        (.inr (mem_sdiff_stopped hreceived hmissed))
      cases hmissed.symm.trans hrunning
    · intro hregular
      obtain ⟨hhas, hcount⟩ := hregular hmode
      have hmem : {source | source ∈ receivedSources} ⊆
          groupData.runningSources ∪ groupData.stoppedSources := by
        rw [← setOf_mem_sourceAddrs]
        exact hhas
      refine ⟨_, _, rfl, rfl, hmode, ⟨?_, rfl, ?_, ?_, fun _ _ _ _ => rfl⟩, rfl,
        hasks.mpr hcount, asksGroup_nil_iff (groupSpecific_notMem ctx _)⟩
      · refine (Set.union_eq_self_of_subset_right ?_).symm
        exact Set.sdiff_subset_iff.mpr (Set.union_comm _ _ ▸ hmem)
      · exact fun _ hsource => False.elim hsource
      · rintro source ⟨⟨hreceived, hrunning⟩, hstopped⟩
        exact ((hmem hreceived).elim hrunning hstopped).elim

theorem follows_toEx_include (h : groupData.Valid) (hmode : groupData.filter = IGMPV3_FM_INCLUDE) :
    Follows ctx groupData {source | source ∈ receivedSources} IGMPV3_RT_TO_EX
      (groupData.processToEx ctx receivedSources) := by
  let started := { groupData.startTimer (membershipEnd ctx) with filter := IGMPV3_FM_EXCLUDE }
  have hresult : groupData.processToEx ctx receivedSources = .ok
      ((started.createMissing receivedSources none).deleteUnless receivedSources
          groupData.sourceAddrs,
        querySources ctx (IPv4AddressVector.setIntersection groupData.sourceAddrs
          receivedSources)) := by
    rw [processToEx, hmode]
  obtain ⟨hsorted, hcreated⟩ := @createMissing_spec started h.sorted receivedSources none
  obtain ⟨-, hdeleted⟩ := deleteUnless_spec hsorted receivedSources groupData.sourceAddrs
  have hnew (source : IPv4Address) : _ =
      if source ∈ groupData.sourceAddrs ∧ source ∉ receivedSources then none
      else if source ∈ receivedSources ∧ groupData.sourceTimer source = none then some none
      else groupData.sourceTimer source :=
    (hdeleted source).trans (by rw [hcreated]; rfl)
  obtain ⟨haddr, hfilter, htimer⟩ := deleteUnless_frame
    (started.createMissing receivedSources none) receivedSources groupData.sourceAddrs
  obtain ⟨haddr', hfilter', htimer'⟩ := createMissing_frame started receivedSources none
  rw [hresult, Follows, hmode]
  refine ⟨_, _, rfl, haddr.trans haddr', hfilter.trans hfilter',
    setsTimers_createMissing_include h receivedSources hmode
      (fun source => (hnew source).trans ?_) rfl rfl rfl rfl, htimer.trans htimer',
    asks_querySources_iff.mpr fun _ => ?_, asksGroup_nil_iff (groupSpecific_notMem ctx _)⟩
  · have hhas : source ∈ groupData.sourceAddrs ↔ _ := mem_sourceAddrs
    grind
  · rw [setOf_mem_setIntersection, setOf_mem_sourceAddrs, h.running hmode, Set.union_empty]
    rfl

theorem deleteByNext_eq_ok {elems : List TimedSourceRecord}
    (hok : deleteByNext receivedSources elems groupData = .ok groupData') : elems = [] := by
  induction elems generalizing groupData with
  | nil => rfl
  | cons elem elems ih =>
    cases elems with
    | nil => cases hok
    | cons next rest => cases ih hok

theorem follows_toEx_exclude_iff (hmode : groupData.filter = IGMPV3_FM_EXCLUDE) :
    Follows ctx groupData {source | source ∈ receivedSources} IGMPV3_RT_TO_EX
        (groupData.processToEx ctx receivedSources) ↔
      groupData.sources = [] ∧
        (receivedSources = [] ∨ groupData.timer = some (membershipEnd ctx)) := by
  by_cases hempty : groupData.sources = []
  swap
  · refine iff_of_false ?_ fun hregular => hempty hregular.1
    rintro ⟨new, queries, hok, -⟩
    rw [processToEx, hmode] at hok
    obtain ⟨deleted, hdeleted, -⟩ := bind_eq_ok.mp hok
    exact hempty (deleteByNext_eq_ok hdeleted)
  have hsorted : groupData.Sorted := by
    rw [Sorted, hempty]
    exact List.Pairwise.nil
  have hnone (source : IPv4Address) : groupData.sourceTimer source = none := by
    rw [sourceTimer, hempty]
    rfl
  have hrunning (source : IPv4Address) : source ∉ groupData.runningSources := by
    rintro ⟨arrival, htimer⟩
    cases (hnone source).symm.trans htimer
  have hstopped (source : IPv4Address) : source ∉ groupData.stoppedSources := fun htimer =>
    nomatch (hnone source).symm.trans htimer
  have hstoppedAddrs : groupData.stoppedAddrs = [] := by rw [stoppedAddrs, hempty]; rfl
  have hresult : groupData.processToEx ctx receivedSources = .ok
      ((groupData.startTimer (membershipEnd ctx)).createMissing receivedSources
          (some (membershipEnd ctx)),
        querySources ctx receivedSources) := by
    rw [processToEx, hmode]
    simp only [hempty, deleteByNext, ok_bind, hstoppedAddrs]
    rfl
  have hnew (source : IPv4Address) : _ =
      if source ∈ receivedSources ∧ groupData.sourceTimer source = none then
        some (some (membershipEnd ctx))
      else groupData.sourceTimer source :=
    (@createMissing_spec (groupData.startTimer (membershipEnd ctx)) hsorted receivedSources
      (some (membershipEnd ctx))).2 source
  obtain ⟨haddr, hfilter, htimer⟩ := createMissing_frame
    (groupData.startTimer (membershipEnd ctx)) receivedSources (some (membershipEnd ctx))
  rw [hresult, Follows, hmode]
  constructor
  · rintro ⟨_, _, hok, hperforms⟩
    cases hok
    refine ⟨hempty, ?_⟩
    by_contra hcontra
    push Not at hcontra
    obtain ⟨source, hreceived⟩ := List.exists_mem_of_ne_nil _ hcontra.1
    have htimer := hperforms.sources.toGroupTimer source ⟨⟨hreceived, hrunning source⟩,
      hstopped source⟩
    rw [hnew, if_pos ⟨hreceived, hnone source⟩, Option.some.injEq] at htimer
    exact hcontra.2 htimer.symm
  · rintro ⟨-, hregular⟩
    have hreceived (source : IPv4Address) :
        source ∈ ({source | source ∈ receivedSources} \ groupData.runningSources) \
          groupData.stoppedSources ↔ source ∈ receivedSources :=
      ⟨fun hmem => hmem.1.1, fun hmem => ⟨⟨hmem, hrunning source⟩, hstopped source⟩⟩
    refine ⟨_, _, rfl, haddr, hfilter.trans hmode, ⟨?_, ?_, ?_, ?_, ?_⟩, htimer, ?_,
      asksGroup_nil_iff (groupSpecific_notMem ctx _)⟩
    · ext source
      have := hnone source
      have := hstopped source
      simp only [transition, runningSources, Set.mem_sdiff, Set.mem_ofPred_eq, hnew]
      grind
    · ext source
      have := hnone source
      have := hstopped source
      simp only [transition, stoppedSources, Set.mem_inter_iff, Set.mem_ofPred_eq, hnew]
      grind
    · exact fun _ hsource => nomatch hsource
    · intro source hsource
      have hmem := (hreceived source).mp hsource
      rw [hnew, if_pos ⟨hmem, hnone source⟩]
      exact congrArg some (hregular.resolve_left (List.ne_nil_of_mem hmem)).symm
    · intro source hmem _ hnot
      exact absurd ((hreceived source).mpr hmem.1) hnot
    · refine asks_querySources_iff.mpr fun _ => ?_
      ext source
      exact ⟨fun hmem => ⟨hmem, hstopped source⟩, fun hmem => hmem.1⟩

theorem follows_processRecord_iff (h : groupData.Valid) (receivedSources : List IPv4Address)
    (recordType : ReportType) :
    Follows ctx groupData {source | source ∈ receivedSources} recordType
        (groupData.processRecord ctx receivedSources recordType) ↔
      Regular ctx groupData receivedSources recordType := by
  cases recordType with
  | IGMPV3_RT_IS_IN => exact iff_of_true (follows_start h (.inl rfl)) trivial
  | IGMPV3_RT_ALLOW => exact iff_of_true (follows_start h (.inr rfl)) trivial
  | IGMPV3_RT_TO_IN => exact iff_of_true (follows_toIn h) trivial
  | IGMPV3_RT_IS_EX => exact follows_isEx_iff h
  | IGMPV3_RT_BLOCK => exact follows_block_iff h
  | IGMPV3_RT_TO_EX =>
    cases hmode : groupData.filter with
    | IGMPV3_FM_INCLUDE =>
      refine iff_of_true (follows_toEx_include h hmode) fun hexclude => ?_
      cases hmode.symm.trans hexclude
    | IGMPV3_FM_EXCLUDE =>
      exact (follows_toEx_exclude_iff hmode).trans (imp_iff_right hmode).symm

/-- The order of the received sources does not matter. -/
theorem regular_perm {sourceList : List IPv4Address} (hperm : sourceList.Perm receivedSources)
    (recordType : ReportType) :
    Regular ctx groupData sourceList recordType ↔
      Regular ctx groupData receivedSources recordType := by
  cases recordType with
  | IGMPV3_RT_IS_EX => simp only [Regular, hperm.mem_iff]
  | IGMPV3_RT_BLOCK => simp only [Regular, hperm.mem_iff, hperm.count_eq]
  | IGMPV3_RT_TO_EX =>
    have hnil : sourceList = [] ↔ receivedSources = [] :=
      ⟨fun h => (h ▸ hperm).nil_eq.symm, fun h => (h ▸ hperm).eq_nil⟩
    simp only [Regular, hnil]
  | IGMPV3_RT_IS_IN => exact Iff.rfl
  | IGMPV3_RT_ALLOW => exact Iff.rfl
  | IGMPV3_RT_TO_IN => exact Iff.rfl

/-- A group record makes the transition of the tables if and only if it is regular. -/
theorem processGroupRecord_follows_iff (h : groupData.Valid) (sourceList : List IPv4Address)
    (recordType : ReportType) :
    Follows ctx groupData {source | source ∈ sourceList} recordType
        (groupData.processGroupRecord ctx sourceList recordType) ↔
      Regular ctx groupData sourceList recordType := by
  have hperm := sourceList.perm_insertionSort (· ≤ ·)
  have hset : {source | source ∈ sourceList} =
      {source | source ∈ sourceList.insertionSort (· ≤ ·)} := by
    ext source
    exact hperm.mem_iff.symm
  rw [hset, processGroupRecord, follows_processRecord_iff h, regular_perm hperm]

/-- EXCLUDE of no source receives TO_EX of no source. -/
theorem follows_toEx_empty : Follows ⟨260, 2, 10, IGMPV3_RS_QUERIER⟩
      { groupAddr := 0xe1010101#32, filter := IGMPV3_FM_EXCLUDE, timer := some 100 }
      {source | source ∈ ([] : List IPv4Address)} IGMPV3_RT_TO_EX
      (processGroupRecord ⟨260, 2, 10, IGMPV3_RS_QUERIER⟩
        { groupAddr := 0xe1010101#32, filter := IGMPV3_FM_EXCLUDE, timer := some 100 }
        [] IGMPV3_RT_TO_EX) := by
  have hvalid : Valid
      { groupAddr := 0xe1010101#32, filter := IGMPV3_FM_EXCLUDE, timer := some 100 } :=
    { sorted := List.Pairwise.nil
      running := fun hmode => by cases hmode }
  exact (processGroupRecord_follows_iff hvalid [] _).mpr fun _ => ⟨rfl, .inl rfl⟩

/-- EXCLUDE of no source blocks a source that has no record. -/
theorem not_follows_block : ¬ Follows ⟨260, 2, 10, IGMPV3_RS_QUERIER⟩
      { groupAddr := 0xe1010101#32, filter := IGMPV3_FM_EXCLUDE, timer := some 100 }
      {source | source ∈ [0x0a000002#32]} IGMPV3_RT_BLOCK
      (processGroupRecord ⟨260, 2, 10, IGMPV3_RS_QUERIER⟩
        { groupAddr := 0xe1010101#32, filter := IGMPV3_FM_EXCLUDE, timer := some 100 }
        [0x0a000002#32] IGMPV3_RT_BLOCK) := by
  rintro ⟨new, queries, hok, hperforms⟩
  obtain ⟨rfl, rfl⟩ := Prod.mk.inj (Except.ok.inj hok)
  obtain ⟨arrival, hrunning⟩ := hperforms.sources.exists_of_mem
    (.inr ⟨List.mem_cons_self, fun hstopped => nomatch hstopped⟩)
  cases hrunning

end TimedGroupData

end Inet.Igmp
