import Inet.Igmp.ForwardedSources
import Inet.Igmp.IGMPv3Host

/-!
# The router forwards what the host wants

Host and router keep a filter in different forms: the host as one list, the router as two, told
apart by the source timers. No report of the host takes away a source that its filter accepts, in
whatever mode the router is. What takes away a source are the timers, and a source timer may take
away more than its source: in EXCLUDE mode the last one to expire deletes the whole group, although
the group timer is running.
-/

namespace Inet.Igmp

open Inet.Ipv4 (IPv4Address)
open FilterMode ReportType McastSourceFilterMode

namespace RouterGroupData

open List

variable {groupData groupData' : RouterGroupData} {source other : IPv4Address}
  {receivedSources : List IPv4Address}

/-- The source has a record with a running timer. -/
def Running (groupData : RouterGroupData) (source : IPv4Address) : Prop :=
  ∃ elem ∈ groupData.sources, elem.sourceAddr = source ∧ elem.running = true

/-- The source has a record without a running timer. -/
def Stopped (groupData : RouterGroupData) (source : IPv4Address) : Prop :=
  ∃ elem ∈ groupData.sources, elem.sourceAddr = source ∧ elem.running = false

/-- The source is forwarded. -/
def Forwards (groupData : RouterGroupData) (source : IPv4Address) : Prop :=
  groupData.collectForwardedSources.contains source = true

theorem forwards_include (h : groupData.filter = IGMPV3_FM_INCLUDE) :
    groupData.Forwards source ↔ groupData.Running source := by
  simp only [Forwards, collectForwardedSources, h, IPv4MulticastSourceList.contains, Running]
  simp only [beq_self_eq_true, Bool.true_and, contains_iff_mem, mem_map, mem_filter,
    reduceCtorEq, beq_eq_false_iff_ne.mpr, ne_eq, not_false_eq_true, Bool.false_and, Bool.or_false]
  exact exists_congr fun elem => by tauto

theorem forwards_exclude (h : groupData.filter = IGMPV3_FM_EXCLUDE) :
    groupData.Forwards source ↔ ¬groupData.Stopped source := by
  simp only [Forwards, collectForwardedSources, h, IPv4MulticastSourceList.contains, Stopped]
  simp
  grind

theorem mem_startSourceTimer {elem : SourceRecord} :
    elem ∈ (groupData.startSourceTimer source).sources ↔
      elem = ⟨source, true⟩ ∨ elem ∈ groupData.sources ∧ elem.sourceAddr ≠ source := by
  rw [startSourceTimer, KeyedList.mem_insert, KeyedList.mem_erase, SourceRecord.key, Ne,
    BitVec.toNat_inj]

theorem running_startSourceTimer : (groupData.startSourceTimer source).Running other ↔
      other = source ∨ groupData.Running other := by
  simp only [Running, mem_startSourceTimer]
  constructor
  · rintro ⟨elem, rfl | ⟨helem, -⟩, haddr, hrunning⟩
    · exact .inl haddr.symm
    · exact .inr ⟨elem, helem, haddr, hrunning⟩
  · intro h
    by_cases heq : other = source
    · exact ⟨⟨source, true⟩, .inl rfl, heq.symm, rfl⟩
    · obtain ⟨elem, helem, haddr, hrunning⟩ := h.resolve_left heq
      exact ⟨elem, .inr ⟨helem, haddr ▸ heq⟩, haddr, hrunning⟩

theorem stopped_startSourceTimer : (groupData.startSourceTimer source).Stopped other ↔
      other ≠ source ∧ groupData.Stopped other := by
  simp only [Stopped, mem_startSourceTimer]
  constructor
  · rintro ⟨elem, rfl | ⟨helem, hne⟩, haddr, hrunning⟩
    · cases hrunning
    · exact ⟨haddr ▸ hne, elem, helem, haddr, hrunning⟩
  · rintro ⟨hne, elem, helem, haddr, hrunning⟩
    exact ⟨elem, .inr ⟨helem, haddr ▸ hne⟩, haddr, hrunning⟩

theorem forwards_startSourceTimer : (groupData.startSourceTimer source).Forwards other ↔
      other = source ∨ groupData.Forwards other := by
  cases hfilter : groupData.filter with
  | IGMPV3_FM_INCLUDE =>
    rw [forwards_include (show (groupData.startSourceTimer source).filter = _ from hfilter),
      forwards_include hfilter, running_startSourceTimer]
  | IGMPV3_FM_EXCLUDE =>
    rw [forwards_exclude (show (groupData.startSourceTimer source).filter = _ from hfilter),
      forwards_exclude hfilter, stopped_startSourceTimer, not_and_or, not_not]

theorem forwards_startSourceTimers : (groupData.startSourceTimers receivedSources).Forwards other ↔
      other ∈ receivedSources ∨ groupData.Forwards other := by
  rw [startSourceTimers]
  induction receivedSources generalizing groupData with
  | nil => simp
  | cons source rest ih =>
    rw [foldl_cons, ih, forwards_startSourceTimer, mem_cons]
    tauto

theorem forwards_processToIn : (groupData.processToIn receivedSources).Forwards other ↔
      other ∈ receivedSources ∨ groupData.Forwards other := by
  rw [← forwards_startSourceTimers, processToIn]
  cases groupData.filter with
  | IGMPV3_FM_INCLUDE => exact Iff.rfl
  | IGMPV3_FM_EXCLUDE => exact Iff.rfl

theorem filter_createMissing (groupData : RouterGroupData) (receivedSources : List IPv4Address)
    (start : Bool) :
    (groupData.createMissing receivedSources start).filter = groupData.filter := by
  rw [createMissing]
  induction receivedSources generalizing groupData with
  | nil => rfl
  | cons source rest ih =>
    rw [foldl_cons, ih]
    split_ifs <;> rfl

theorem mem_createMissing {start : Bool} {elem : SourceRecord}
    (h : elem ∈ (groupData.createMissing receivedSources start).sources) :
    elem ∈ groupData.sources ∨ elem.sourceAddr ∈ receivedSources ∧ elem.running = start := by
  rw [createMissing] at h
  induction receivedSources generalizing groupData with
  | nil => exact .inl h
  | cons source rest ih =>
    rw [foldl_cons] at h
    obtain hmem | ⟨hrest, hrunning⟩ := ih h
    · split_ifs at hmem with hhas hstart
      · exact .inl hmem
      · obtain rfl | ⟨hold, -⟩ := mem_startSourceTimer.mp hmem
        · exact .inr ⟨mem_cons_self, hstart.symm⟩
        · exact .inl hold
      · obtain rfl | hold := KeyedList.mem_insert.mp hmem
        · exact .inr ⟨mem_cons_self, (Bool.eq_false_iff.mpr hstart).symm⟩
        · exact .inl hold
    · exact .inr ⟨mem_cons_of_mem _ hrest, hrunning⟩

/-- If the sources have records already, nothing happens. -/
theorem createMissing_of_has {start : Bool}
    (h : ∀ source ∈ receivedSources, groupData.hasSourceRecord source = true) :
    groupData.createMissing receivedSources start = groupData := by
  rw [createMissing]
  induction receivedSources with
  | nil => rfl
  | cons source rest ih =>
    rw [foldl_cons, if_pos (h source mem_cons_self)]
    exact ih fun source hsource => h source (mem_cons_of_mem _ hsource)

theorem processBlock_eq (groupData : RouterGroupData) : groupData.processBlock = groupData := by
  rw [processBlock]
  cases groupData.filter with
  | IGMPV3_FM_INCLUDE => rfl
  | IGMPV3_FM_EXCLUDE =>
    refine createMissing_of_has fun source hsource => ?_
    obtain ⟨elem, helem, rfl⟩ := mem_map.mp hsource
    rw [hasSourceRecord, Option.isSome_iff_ne_none]
    intro hnone
    exact KeyedList.lookup_eq_none.mp hnone elem helem rfl

/-- IS_EX and TO_EX leave no other stopped source. -/
def Excludes (groupData : RouterGroupData) (receivedSources : List IPv4Address) : Prop :=
  groupData.filter = IGMPV3_FM_EXCLUDE ∧
    ∀ source, groupData.Stopped source → source ∈ receivedSources

theorem Excludes.forwards (h : groupData.Excludes receivedSources)
    (hsource : source ∉ receivedSources) : groupData.Forwards source :=
  (forwards_exclude h.1).mpr (mt (h.2 source) hsource)

theorem processIsEx_excludes {groupMembershipInterval : ℕ}
    (hok : groupData.processIsEx groupMembershipInterval receivedSources = .ok groupData') :
    groupData'.Excludes receivedSources := by
  obtain ⟨deleted, hdeleted, hok⟩ := bind_eq_ok.mp hok
  rw [deleteOthers] at hdeleted
  split_ifs at hdeleted with hall
  cases hdeleted
  cases hok
  refine ⟨rfl, ?_⟩
  rintro source ⟨elem, helem, rfl, -⟩
  obtain hold | ⟨hnew, -⟩ := mem_createMissing helem
  · simpa using all_eq_true.mp hall elem hold
  · exact hnew

/-- The loop of TO_EX in EXCLUDE mode is undefined unless there are no sources. -/
theorem deleteByNext_eq_ok {elems : List SourceRecord}
    (hok : deleteByNext receivedSources elems groupData = .ok groupData') :
    elems = [] ∧ groupData' = groupData := by
  induction elems generalizing groupData with
  | nil => exact ⟨rfl, (Except.ok.inj hok).symm⟩
  | cons elem elems ih =>
    cases elems with
    | nil => cases hok
    | cons next rest => cases (ih hok).1

theorem filter_foldl_deleteSourceRecord (sources : List IPv4Address) (groupData : RouterGroupData) :
    (sources.foldl (fun groupData elem =>
      if receivedSources.contains elem then groupData else groupData.deleteSourceRecord elem)
        groupData).filter = groupData.filter := by
  induction sources generalizing groupData with
  | nil => rfl
  | cons source rest ih =>
    rw [foldl_cons, ih]
    split_ifs <;> rfl

/-- The records of `sources` that are not received are deleted. -/
theorem mem_foldl_deleteSourceRecord {sources : List IPv4Address} {elem : SourceRecord}
    (h : elem ∈ (sources.foldl (fun groupData elem =>
      if receivedSources.contains elem then groupData else groupData.deleteSourceRecord elem)
        groupData).sources) :
    elem ∈ groupData.sources ∧ (elem.sourceAddr ∈ sources → elem.sourceAddr ∈ receivedSources) := by
  induction sources generalizing groupData with
  | nil => exact ⟨h, fun hmem => nomatch hmem⟩
  | cons source rest ih =>
    rw [foldl_cons] at h
    obtain ⟨hmem, hrest⟩ := ih h
    split_ifs at hmem with hreceived
    · refine ⟨hmem, fun hsource => ?_⟩
      obtain heq | hsource := mem_cons.mp hsource
      · rw [heq]
        simpa using hreceived
      · exact hrest hsource
    · obtain ⟨hmem, hne⟩ := KeyedList.mem_erase.mp hmem
      rw [SourceRecord.key, Ne, BitVec.toNat_inj] at hne
      exact ⟨hmem, fun hsource => hrest ((mem_cons.mp hsource).resolve_left hne)⟩

theorem processToEx_excludes (hok : groupData.processToEx receivedSources = .ok groupData') :
    groupData'.Excludes receivedSources := by
  rw [processToEx] at hok
  cases hfilter : groupData.filter with
  | IGMPV3_FM_INCLUDE =>
    simp only [hfilter] at hok
    cases hok
    constructor
    · rw [filter_foldl_deleteSourceRecord, filter_createMissing]
    · rintro source ⟨elem, helem, rfl, hrunning⟩
      obtain ⟨hcreated, hdeleted⟩ := mem_foldl_deleteSourceRecord helem
      obtain hold | ⟨hnew, -⟩ := mem_createMissing hcreated
      · exact hdeleted (mem_map_of_mem hold)
      · exact hnew
  | IGMPV3_FM_EXCLUDE =>
    simp only [hfilter] at hok
    obtain ⟨deleted, hdeleted, hok⟩ := bind_eq_ok.mp hok
    obtain ⟨hempty, rfl⟩ := deleteByNext_eq_ok hdeleted
    cases hok
    refine ⟨(filter_createMissing _ _ _).trans hfilter, ?_⟩
    rintro source ⟨elem, helem, rfl, hrunning⟩
    obtain hold | ⟨hnew, -⟩ := mem_createMissing helem
    · rw [show groupData.startTimer.sources = [] from hempty] at hold
      cases hold
    · exact hnew

/-- What the records that do not set a filter leave forwarded. -/
theorem forwards_processRecord {groupMembershipInterval : ℕ} {recordType : ReportType}
    (hok : groupData.processRecord groupMembershipInterval receivedSources recordType =
      .ok groupData')
    (htype : recordType ≠ IGMPV3_RT_IS_EX ∧ recordType ≠ IGMPV3_RT_TO_EX)
    (hsource : groupData.Forwards source ∨
      recordType ≠ IGMPV3_RT_BLOCK ∧ source ∈ receivedSources) : groupData'.Forwards source := by
  cases recordType with
  | IGMPV3_RT_IS_IN =>
    cases hok
    exact forwards_startSourceTimers.mpr (hsource.symm.imp_left And.right)
  | IGMPV3_RT_IS_EX => exact absurd rfl htype.1
  | IGMPV3_RT_TO_IN =>
    cases hok
    exact forwards_processToIn.mpr (hsource.symm.imp_left And.right)
  | IGMPV3_RT_TO_EX => exact absurd rfl htype.2
  | IGMPV3_RT_ALLOW =>
    cases hok
    exact forwards_startSourceTimers.mpr (hsource.symm.imp_left And.right)
  | IGMPV3_RT_BLOCK =>
    cases hok
    rw [processBlock_eq]
    exact hsource.resolve_right fun h => h.1 rfl

end RouterGroupData

namespace RouterInterfaceData

open RouterGroupData (Forwards expectedSources expectedSources_some)

variable {data data' : RouterInterfaceData} {groupData : RouterGroupData}
  {group source : IPv4Address} {groupMembershipInterval : ℕ}

theorem forwards_eq_true : data.forwards group source = true ↔
      ∃ groupData, data.findGroupData group = some groupData ∧ groupData.Forwards source := by
  rw [forwards]
  cases data.findGroupData group with
  | none => simp [expectedSources]
  | some groupData =>
    simp only [expectedSources_some, Option.some.injEq, exists_eq_left', Forwards]
    split_ifs with hempty
    · rw [hempty]
      simp [IPv4MulticastSourceList.contains]
    · exact Iff.rfl

/-- A record is processed for the data of its group. -/
theorem processGroupRecord_cases {gr : GroupRecord} (h : WellFormed data)
    (hok : data.processGroupRecord groupMembershipInterval gr = .ok data') :
    ∃ old new : RouterGroupData, old.processRecord groupMembershipInterval
        (gr.sourceList.insertionSort (· ≤ ·)) gr.recordType = .ok new ∧
      data'.findGroupData gr.groupAddress = some new ∧
        ∀ source, data.forwards gr.groupAddress source = true → old.Forwards source := by
  rw [processGroupRecord] at hok
  obtain ⟨old, hold, hok⟩ := bind_eq_ok.mp hok
  obtain ⟨new, hnew, hok⟩ := bind_eq_ok.mp hok
  obtain ⟨hgroup, hexpected⟩ := of_getOrCreateGroupData hold
  have haddr := (RouterGroupData.processRecord_groupAddr hnew).trans hgroup
  refine ⟨old, new, hnew, ?_, fun source hforwards => ?_⟩
  · have hput : (data.putGroupData new).findGroupData gr.groupAddress = some new := by
      rw [findGroupData_put h, if_pos haddr]
    dsimp only at hok
    split_ifs at hok
    · obtain ⟨ipv4Data, -, hok⟩ := bind_eq_ok.mp hok
      cases hok
      exact hput
    · cases hok
      exact hput
  · rw [forwards, hexpected, expectedSources_some] at hforwards
    split_ifs at hforwards
    exact hforwards

/-- Records about the group that do not set a filter: what is forwarded stays so, and what one of
them allows is forwarded. -/
theorem forwards_processReport {records : List GroupRecord} (h : WellFormed data)
    (hok : data.processReport groupMembershipInterval records = .ok data')
    (hrecords : ∀ gr ∈ records, gr.groupAddress = group ∧
      gr.recordType ≠ IGMPV3_RT_IS_EX ∧ gr.recordType ≠ IGMPV3_RT_TO_EX)
    (hsource : data.forwards group source = true ∨
      ∃ gr ∈ records, gr.recordType ≠ IGMPV3_RT_BLOCK ∧ source ∈ gr.sourceList) :
    data'.forwards group source = true := by
  induction records generalizing data with
  | nil =>
    cases hok
    exact hsource.resolve_right fun ⟨_, hmem, _⟩ => nomatch hmem
  | cons gr records ih =>
    rw [processReport, List.foldlM_cons] at hok
    obtain ⟨next, hnext, hok⟩ := bind_eq_ok.mp hok
    obtain ⟨rfl, htype⟩ := hrecords gr List.mem_cons_self
    obtain ⟨old, new, hnew, hfind, hold⟩ := processGroupRecord_cases h hnext
    refine ih (processGroupRecord_keeps h hnext).1 hok
      (fun gr hgr => hrecords gr (List.mem_cons_of_mem _ hgr)) ?_
    by_cases hrest : ∃ gr ∈ records, gr.recordType ≠ IGMPV3_RT_BLOCK ∧ source ∈ gr.sourceList
    · exact .inr hrest
    · refine .inl (forwards_eq_true.mpr ⟨new, hfind, ?_⟩)
      refine RouterGroupData.forwards_processRecord hnew htype ?_
      obtain hforwards | ⟨allowed, hmem, hnot, hin⟩ := hsource
      · exact .inl (hold source hforwards)
      · obtain rfl | hmem := List.mem_cons.mp hmem
        · exact .inr ⟨hnot, (List.mem_insertionSort _).mpr hin⟩
        · exact absurd ⟨allowed, hmem, hnot, hin⟩ hrest

/-- A record that sets a filter: what it does not list is forwarded. -/
theorem forwards_processReport_exclude {gr : GroupRecord} (h : WellFormed data)
    (hok : data.processReport groupMembershipInterval [gr] = .ok data')
    (htype : gr.recordType = IGMPV3_RT_IS_EX ∨ gr.recordType = IGMPV3_RT_TO_EX)
    (hsource : source ∉ gr.sourceList) : data'.forwards gr.groupAddress source = true := by
  rw [processReport, List.foldlM_cons] at hok
  obtain ⟨next, hnext, hok⟩ := bind_eq_ok.mp hok
  cases hok
  obtain ⟨old, new, hnew, hfind, -⟩ := processGroupRecord_cases h hnext
  refine forwards_eq_true.mpr ⟨new, hfind, ?_⟩
  have hexcludes : new.Excludes (gr.sourceList.insertionSort (· ≤ ·)) := by
    obtain htype | htype := htype <;> rw [htype] at hnew
    · exact RouterGroupData.processIsEx_excludes hnew
    · exact RouterGroupData.processToEx_excludes hnew
  refine hexcludes.forwards ?_
  rwa [List.mem_insertionSort]

end RouterInterfaceData

namespace HostGroupData

variable {host : HostGroupData} {source : IPv4Address}

/-- The filter of the host lets the source pass. -/
def accepts (host : HostGroupData) (source : IPv4Address) : Bool :=
  match host.filter with
  | IGMPV3_FM_INCLUDE => host.sourceAddressList.contains source
  | IGMPV3_FM_EXCLUDE => !host.sourceAddressList.contains source

end HostGroupData

namespace Link

open RouterInterfaceData (WellFormed forwards_processReport forwards_processReport_exclude
  forwards_eq_true forwards groupAddr_of_find findGroupData_put anyRunning_eq_ok
  findGroupData_delete step_exact)
open HostGroupData (accepts changeRecords answerRecord)
open RouterGroupData (forwards_include Running forwards_exclude Stopped)

variable {link link' : Link} {source : IPv4Address} {groupMembershipInterval : ℕ}

/-- The router forwards every source that the filter of the host accepts. -/
def Covers (link : Link) : Prop :=
  ∀ source, link.host.accepts source = true → link.router.forwards link.host.groupAddr source = true

section

variable {host : HostGroupData} {router router' : RouterInterfaceData}

theorem mem_setComplement {first second : List IPv4Address} :
    source ∈ setComplement first second ↔ source ∈ first ∧ source ∉ second := by
  simp [setComplement]

theorem mem_allowAndBlock {allowed blocked : List IPv4Address} {gr : GroupRecord}
    (h : gr ∈ host.allowAndBlock allowed blocked) :
    gr.groupAddress = host.groupAddr ∧ gr.recordType ≠ IGMPV3_RT_IS_EX ∧
      gr.recordType ≠ IGMPV3_RT_TO_EX := by
  obtain h | h : gr = _ ∨ gr = _ := by simpa using List.mem_of_mem_filter h
  · simp [h]
  · simp [h]

theorem allowed_mem {allowed blocked : List IPv4Address} (h : source ∈ allowed) :
    ∃ gr ∈ host.allowAndBlock allowed blocked,
      gr.recordType ≠ IGMPV3_RT_BLOCK ∧ source ∈ gr.sourceList := by
  refine ⟨⟨IGMPV3_RT_ALLOW, host.groupAddr, allowed⟩, ?_, by simp, h⟩
  rw [HostGroupData.allowAndBlock, List.mem_filter]
  refine ⟨List.mem_cons_self, ?_⟩
  cases allowed with
  | nil => cases h
  | cons source rest => rfl

/-- The report of a change covers the new filter. -/
theorem covers_change {filter : FilterMode} {sources : List IPv4Address} (h : WellFormed router)
    (hcovers : Covers ⟨host, router⟩)
    (hok : router.processReport groupMembershipInterval (host.changeRecords filter sources) =
      .ok router') (source : IPv4Address)
    (haccepts : { host with filter, sourceAddressList := sources : HostGroupData }.accepts source =
      true) : router'.forwards host.groupAddr source = true := by
  have hcovered := hcovers source
  simp only [accepts] at hcovered haccepts
  cases hold : host.filter with
  | IGMPV3_FM_INCLUDE =>
    simp only [hold] at hcovered
    cases filter with
    | IGMPV3_FM_INCLUDE =>
      simp only [changeRecords, hold] at hok
      refine forwards_processReport h hok
        (fun gr hgr => mem_allowAndBlock hgr) ?_
      by_cases hwas : source ∈ host.sourceAddressList
      · exact .inl (hcovered (by simpa using hwas))
      · exact .inr (allowed_mem (mem_setComplement.mpr ⟨by simpa using haccepts, hwas⟩))
    | IGMPV3_FM_EXCLUDE =>
      simp only [changeRecords, hold] at hok
      exact forwards_processReport_exclude h hok (.inr rfl)
        (by simpa using haccepts)
  | IGMPV3_FM_EXCLUDE =>
    simp only [hold] at hcovered
    cases filter with
    | IGMPV3_FM_INCLUDE =>
      simp only [changeRecords, hold] at hok
      refine forwards_processReport h hok (fun gr hgr => ?_) (.inr ?_)
      · obtain rfl := List.mem_singleton.mp hgr
        simp
      · exact ⟨_, List.mem_singleton_self _, by simp, by simpa using haccepts⟩
    | IGMPV3_FM_EXCLUDE =>
      simp only [changeRecords, hold] at hok
      refine forwards_processReport h hok
        (fun gr hgr => mem_allowAndBlock hgr) ?_
      by_cases hwas : source ∈ host.sourceAddressList
      · exact .inr (allowed_mem (mem_setComplement.mpr ⟨hwas, by simpa using haccepts⟩))
      · exact .inl (hcovered (by simpa using hwas))

theorem covers_multicastSourceListChanged {host' : HostGroupData}
    {sourceList : IPv4MulticastSourceList} {records : List GroupRecord} (h : WellFormed router)
    (hcovers : Covers ⟨host, router⟩)
    (hchange : host.multicastSourceListChanged sourceList = .ok (records, host'))
    (hok : router.processReport groupMembershipInterval records = .ok router') :
    Covers ⟨host', router'⟩ := by
  obtain ⟨-, -, hchange⟩ := bind_eq_ok.mp hchange
  dsimp only at hchange
  generalize (if sourceList.filterMode = MCAST_INCLUDE_SOURCES then IGMPV3_FM_INCLUDE
    else IGMPV3_FM_EXCLUDE) = filter at hchange
  have hsame (hnone : Except.ok (([] : List GroupRecord), host) =
      (Except.ok (records, host') : Result (List GroupRecord × HostGroupData))) :
      Covers ⟨host', router'⟩ := by
    cases hnone
    cases hok
    exact hcovers
  split_ifs at hchange
  · exact hsame hchange
  · exact hsame hchange
  · obtain ⟨sent, hsent, hchange⟩ := bind_eq_ok.mp hchange
    obtain ⟨-, -, hsent⟩ := bind_eq_ok.mp hsent
    cases hsent
    cases hchange
    intro source haccepts
    refine covers_change h hcovers hok source ?_
    simp only [accepts] at haccepts ⊢
    cases filter with
    | IGMPV3_FM_INCLUDE => simpa using haccepts
    | IGMPV3_FM_EXCLUDE => simpa using haccepts

theorem answerRecord_isEx {queriedSources : List IPv4Address}
    (h : (host.answerRecord queriedSources).recordType = IGMPV3_RT_IS_EX) :
    host.filter = IGMPV3_FM_EXCLUDE ∧
      (host.answerRecord queriedSources).sourceList = host.sourceAddressList := by
  by_cases hqueried : queriedSources.isEmpty = true
  · rw [answerRecord, if_pos hqueried] at h ⊢
    refine ⟨?_, rfl⟩
    cases hfilter : host.filter with
    | IGMPV3_FM_INCLUDE =>
      rw [hfilter] at h
      cases h
    | IGMPV3_FM_EXCLUDE => rfl
  · rw [answerRecord, if_neg hqueried] at h
    cases h

/-- The answer to a query keeps what the filter accepts. -/
theorem covers_answer {queriedSources : List IPv4Address} (h : WellFormed router)
    (hcovers : Covers ⟨host, router⟩)
    (hok : router.processReport groupMembershipInterval [host.answerRecord queriedSources] =
      .ok router') (source : IPv4Address) (haccepts : host.accepts source = true) :
    router'.forwards host.groupAddr source = true := by
  by_cases hexclude : (host.answerRecord queriedSources).recordType = IGMPV3_RT_IS_EX
  · have hunlisted : source ∉ (host.answerRecord queriedSources).sourceList := by
      obtain ⟨hfilter, hlist⟩ := answerRecord_isEx hexclude
      rw [accepts, hfilter] at haccepts
      rw [hlist]
      simpa using haccepts
    have haddr : (host.answerRecord queriedSources).groupAddress = host.groupAddr := by
      rw [answerRecord]
      split_ifs <;> rfl
    rw [← haddr]
    exact forwards_processReport_exclude h hok (.inl hexclude) hunlisted
  · refine forwards_processReport h hok (fun gr hgr => ?_)
      (.inl (hcovers source haccepts))
    obtain rfl := List.mem_singleton.mp hgr
    refine ⟨?_, hexclude, ?_⟩
    · rw [answerRecord]
      split_ifs <;> rfl
    · rw [answerRecord]
      split_ifs <;> simp

end

section

variable {data data' : RouterInterfaceData} {host : HostGroupData} {groupData : RouterGroupData}

/-- The filter of the host lets no source pass. -/
def AcceptsNone (host : HostGroupData) : Prop := ∀ source, host.accepts source = false

/-- The condition under which the timer of the group takes away no source that the host wants. -/
def KeepsGroupCovered (host : HostGroupData) (groupData : RouterGroupData) : Prop :=
  groupData.filter = IGMPV3_FM_EXCLUDE → (∀ elem ∈ groupData.sources, elem.running = true) →
      ∀ source, host.accepts source = true → groupData.Running source

/-- The condition under which the timer of a source takes away no source that the host wants. In
EXCLUDE mode the last timer takes away all of them. -/
def KeepsSourceCovered (host : HostGroupData) (groupData : RouterGroupData)
    (source : IPv4Address) : Prop :=
  host.accepts source = false ∧ (groupData.filter = IGMPV3_FM_EXCLUDE →
      RouterInterfaceData.KeepsSource groupData source → AcceptsNone host)

/-- The timers that take away no source that the host wants. -/
def KeepsCovered (link : Link) : LinkEvent → Prop
  | .groupTimer =>
    ∀ groupData, link.router.runningGroup link.host.groupAddr = some groupData →
      KeepsGroupCovered link.host groupData
  | .sourceTimer source =>
    ∀ groupData, link.router.runningSource link.host.groupAddr source = some groupData →
      KeepsSourceCovered link.host groupData source
  | _ => True

theorem covers_iff_of_find {router : RouterInterfaceData}
    (hfind : router.findGroupData host.groupAddr = some groupData) :
    Covers ⟨host, router⟩ ↔ ∀ source, host.accepts source = true → groupData.Forwards source := by
  refine forall_congr' fun source => imp_congr_right fun _ => ?_
  rw [forwards_eq_true]
  constructor
  · rintro ⟨found, hfound, hforwards⟩
    obtain rfl := Option.some.inj (hfind.symm.trans hfound)
    exact hforwards
  · intro hforwards
    exact ⟨groupData, hfind, hforwards⟩

theorem covers_iff_of_find_none {router : RouterInterfaceData}
    (hfind : router.findGroupData host.groupAddr = none) :
    Covers ⟨host, router⟩ ↔ AcceptsNone host := by
  refine forall_congr' fun source => ?_
  rw [forwards, hfind]
  cases host.accepts source <;> simp [RouterGroupData.expectedSources]

theorem processRouterGroupTimer_covers (h : WellFormed data) (hcovers : Covers ⟨host, data⟩)
    (hfind : data.findGroupData host.groupAddr = some groupData)
    (hok : data.processRouterGroupTimer { groupData with running := false } = .ok data') :
    Covers ⟨host, data'⟩ ↔ KeepsGroupCovered host groupData := by
  have haddr := groupAddr_of_find hfind
  rw [covers_iff_of_find hfind] at hcovers
  obtain ⟨groupAddr, filter, state, running, sources⟩ := groupData
  obtain rfl : groupAddr = host.groupAddr := haddr
  have hput (put : RouterGroupData) (hgroup : put.groupAddr = host.groupAddr) :
      (data.putGroupData put).findGroupData host.groupAddr = some put := by
    rw [findGroupData_put h, if_pos hgroup]
  cases filter with
  | IGMPV3_FM_INCLUDE =>
    cases hok
    rw [covers_iff_of_find (hput _ rfl)]
    exact iff_of_true hcovers fun hexclude => nomatch hexclude
  | IGMPV3_FM_EXCLUDE =>
    obtain ⟨timerRunning, hany, hok⟩ := bind_eq_ok.mp hok
    obtain ⟨hall, rfl⟩ := anyRunning_eq_ok.mp hany
    cases sources with
    | nil =>
      cases hok
      have hgone : (data.deleteGroupData host.groupAddr).findGroupData host.groupAddr =
          none := by
        rw [findGroupData_delete h, if_pos rfl]
      rw [show Covers _ ↔ _ from covers_iff_of_find_none hgone]
      constructor
      · intro hnone _ _ source haccepts
        rw [hnone] at haccepts
        cases haccepts
      · intro hkeeps source
        rw [Bool.eq_false_iff]
        intro haccepts
        obtain ⟨elem, helem, -⟩ := hkeeps rfl hall source haccepts
        cases helem
    | cons elem rest =>
      cases hok
      rw [covers_iff_of_find (hput _ rfl)]
      constructor
      · intro hforwards _ _ source haccepts
        have hrunning :=
          (forwards_include rfl).mp (hforwards source haccepts)
        exact hrunning
      · intro hkeeps source haccepts
        refine (forwards_include rfl).mpr ?_
        exact hkeeps rfl hall source haccepts

open RouterInterfaceData (expireSource KeepsSource all_expireSource mem_sources_expire_include
  mem_sources_stop)

/-- What is forwarded after a source timer if the group is kept. -/
theorem forwards_expireSource {other : IPv4Address} (hrunning : groupData.Running source) :
    (expireSource groupData source).Forwards other ↔ groupData.Forwards other ∧ other ≠ source := by
  obtain ⟨timer, htimer, rfl, htrue⟩ := hrunning
  cases hfilter : groupData.filter with
  | IGMPV3_FM_INCLUDE =>
    have hfilter' : (expireSource groupData timer.sourceAddr).filter = IGMPV3_FM_INCLUDE := by
      rw [expireSource, hfilter]
      exact hfilter
    rw [forwards_include hfilter', forwards_include hfilter]
    simp only [Running, mem_sources_expire_include hfilter]
    constructor
    · rintro ⟨elem, ⟨helem, hne⟩, rfl, hrunning⟩
      exact ⟨⟨elem, helem, rfl, hrunning⟩, hne⟩
    · rintro ⟨⟨elem, helem, rfl, hrunning⟩, hne⟩
      exact ⟨elem, ⟨helem, hne⟩, rfl, hrunning⟩
  | IGMPV3_FM_EXCLUDE =>
    have hexpire : expireSource groupData timer.sourceAddr =
        groupData.stopSourceTimer timer.sourceAddr := by
      rw [expireSource, hfilter]
    rw [hexpire, forwards_exclude
      (show (groupData.stopSourceTimer timer.sourceAddr).filter = _ from hfilter),
      forwards_exclude hfilter]
    simp only [Stopped, mem_sources_stop]
    constructor
    · intro hforwards
      constructor
      · rintro ⟨elem, helem, rfl, hstopped⟩
        exact hforwards ⟨⟨elem.sourceAddr, false⟩, ⟨elem, helem, rfl, by simp [hstopped]⟩, rfl, rfl⟩
      · rintro rfl
        exact hforwards ⟨⟨timer.sourceAddr, false⟩, ⟨timer, htimer, rfl, by simp⟩, rfl, rfl⟩
    · rintro ⟨hforwards, hne⟩ ⟨elem, ⟨old, hold, haddr, hrunning⟩, rfl, hstopped⟩
      have hother : decide (old.sourceAddr ≠ timer.sourceAddr) = true :=
        decide_eq_true (haddr ▸ hne)
      rw [hstopped, hother, Bool.and_true] at hrunning
      exact hforwards ⟨old, hold, haddr.symm, hrunning.symm⟩

theorem processRouterSourceTimer_covers (h : WellFormed data) (hcovers : Covers ⟨host, data⟩)
    (hfind : data.findGroupData host.groupAddr = some groupData)
    (hrunning : groupData.Running source) :
    Covers ⟨host, data.processRouterSourceTimer (groupData.stopSourceTimer source) source⟩ ↔
      KeepsSourceCovered host groupData source := by
  have haddr := groupAddr_of_find hfind
  rw [covers_iff_of_find hfind] at hcovers
  rw [RouterInterfaceData.processRouterSourceTimer_eq, haddr]
  by_cases hlast : KeepsSource groupData source
  · -- the group is deleted
    have hgone : (data.deleteGroupData host.groupAddr).findGroupData host.groupAddr = none := by
      rw [findGroupData_delete h, if_pos rfl]
    rw [if_pos (all_expireSource.mpr hlast), covers_iff_of_find_none hgone]
    constructor
    · intro hnone
      exact ⟨hnone source, fun _ _ => hnone⟩
    · rintro ⟨hsource, hexclude⟩
      cases hfilter : groupData.filter with
      | IGMPV3_FM_EXCLUDE => exact hexclude hfilter hlast
      | IGMPV3_FM_INCLUDE =>
        intro other
        rw [Bool.eq_false_iff]
        intro haccepts
        obtain ⟨elem, helem, rfl, htimer⟩ :=
          (forwards_include hfilter).mp (hcovers other haccepts)
        rw [hlast elem helem htimer, hsource] at haccepts
        cases haccepts
  · have hkept : (data.putGroupData (expireSource groupData source)).findGroupData
        host.groupAddr = some (expireSource groupData source) := by
      rw [findGroupData_put h,
        if_pos ((RouterInterfaceData.expireSource_groupAddr _ _).trans haddr)]
    rw [if_neg (mt all_expireSource.mp hlast), covers_iff_of_find hkept]
    simp only [forwards_expireSource hrunning]
    constructor
    · intro hforwards
      refine ⟨?_, fun _ hkeeps => absurd hkeeps hlast⟩
      rw [Bool.eq_false_iff]
      intro haccepts
      exact (hforwards source haccepts).2 rfl
    · rintro ⟨hsource, -⟩ other haccepts
      refine ⟨hcovers other haccepts, ?_⟩
      rintro rfl
      rw [hsource] at haccepts
      cases haccepts

end

variable {event : LinkEvent}

theorem step_wellFormed (h : WellFormed link.router)
    (hok : link.step groupMembershipInterval event = .ok link') : WellFormed link'.router := by
  have hstep {routerEvent : Event} {f : RouterInterfaceData → Link}
      (hf : ∀ router, (f router).router = router)
      (hok : (link.router.step groupMembershipInterval routerEvent >>= fun router =>
        (.ok (f router) : Result Link)) = .ok link') : WellFormed link'.router := by
    obtain ⟨router, hrouter, hok⟩ := bind_eq_ok.mp hok
    cases hok
    rw [hf]
    exact (step_exact h hrouter).1
  cases event with
  | multicastSourceListChanged sourceList =>
    obtain ⟨_, -, hok⟩ := bind_eq_ok.mp hok
    exact hstep (fun _ => rfl) hok
  | answer queriedSources =>
    obtain ⟨_, -, hok⟩ := bind_eq_ok.mp hok
    exact hstep (fun _ => rfl) hok
  | generalQueryTimer => exact hstep (fun _ => rfl) hok
  | groupTimer => exact hstep (fun _ => rfl) hok
  | sourceTimer source => exact hstep (fun _ => rfl) hok

theorem step_exact (h : WellFormed link.router) (hcovers : Covers link)
    (hok : link.step groupMembershipInterval event = .ok link') :
    Covers link' ↔ KeepsCovered link event := by
  obtain ⟨host, router⟩ := link
  cases event with
  | multicastSourceListChanged sourceList =>
    obtain ⟨⟨records, host'⟩, hchange, hok⟩ := bind_eq_ok.mp hok
    obtain ⟨router', hreport, hok⟩ := bind_eq_ok.mp hok
    cases hok
    refine iff_of_true ?_ trivial
    exact covers_multicastSourceListChanged h hcovers hchange hreport
  | answer queriedSources =>
    obtain ⟨records, hanswer, hok⟩ := bind_eq_ok.mp hok
    obtain ⟨router', hreport, hok⟩ := bind_eq_ok.mp hok
    cases hok
    refine iff_of_true ?_ trivial
    obtain ⟨-, -, hrecords⟩ := bind_eq_ok.mp hanswer
    cases hrecords
    exact covers_answer h hcovers hreport
  | generalQueryTimer =>
    obtain ⟨router', hrouter, hok⟩ := bind_eq_ok.mp hok
    cases hok
    refine iff_of_true ?_ trivial
    cases hrouter
    intro source haccepts
    rw [RouterInterfaceData.processRouterGeneralQueryTimer]
    split_ifs
    · exact hcovers source haccepts
    · exact hcovers source haccepts
  | groupTimer =>
    obtain ⟨router', hrouter, hok⟩ := bind_eq_ok.mp hok
    cases hok
    rw [RouterInterfaceData.step] at hrouter
    rw [KeepsCovered]
    cases hgroup : router.runningGroup host.groupAddr with
    | none =>
      simp only [hgroup] at hrouter
      cases hrouter
      exact iff_of_true hcovers fun _ hnone => by cases hnone
    | some groupData =>
      simp only [hgroup] at hrouter
      obtain ⟨hfind, -⟩ := Option.filter_eq_some_iff.mp hgroup
      refine (processRouterGroupTimer_covers h hcovers hfind hrouter).trans ?_
      simp only [Option.some.injEq, forall_eq']
  | sourceTimer source =>
    obtain ⟨router', hrouter, hok⟩ := bind_eq_ok.mp hok
    cases hok
    rw [RouterInterfaceData.step] at hrouter
    rw [KeepsCovered]
    cases hsource : router.runningSource host.groupAddr source with
    | none =>
      simp only [hsource] at hrouter
      cases hrouter
      exact iff_of_true hcovers fun _ hnone => by cases hnone
    | some groupData =>
      simp only [hsource] at hrouter
      cases hrouter
      obtain ⟨hfind, hany⟩ := Option.filter_eq_some_iff.mp hsource
      have hrunning : groupData.Running source := by
        simpa [Running] using hany
      refine (processRouterSourceTimer_covers h hcovers hfind hrunning).trans ?_
      simp only [Option.some.injEq, forall_eq']

/-- Only a group timer may be undefined, and then it has met a stopped source. -/
theorem keepsCovered_of_error {e : Error}
    (herror : link.step groupMembershipInterval event = .error e) : KeepsCovered link event := by
  obtain ⟨host, router⟩ := link
  cases event with
  | multicastSourceListChanged sourceList => trivial
  | answer queriedSources => trivial
  | generalQueryTimer => trivial
  | groupTimer =>
    intro groupData hgroup hexclude hall
    have hany := anyRunning_eq_ok.mpr ⟨hall, rfl⟩
    rw [step, RouterInterfaceData.step] at herror
    simp only [hgroup, RouterInterfaceData.processRouterGroupTimer, hexclude, hany,
      ok_bind] at herror
    split_ifs at herror <;> cases herror
  | sourceTimer source =>
    intro groupData hsource
    rw [step, RouterInterfaceData.step] at herror
    simp only [hsource] at herror
    cases herror

/-- A host that listens to nothing, and a router that has just been started. -/
def init (group : IPv4Address) (state : RouterState) (ipAddress : IPv4Address) : Link where
  host := { groupAddr := group }
  router := .init state ipAddress

/-- The router forwards what the host wants along a run if and only if no timer takes away a
source that the host wants. -/
theorem wanted_forwarded_iff (groupMembershipInterval : ℕ) (group : IPv4Address)
    (state : RouterState) (ipAddress : IPv4Address) (events : List LinkEvent) :
    Run.Throughout (step groupMembershipInterval) Covers (init group state ipAddress) events ↔
      Run.Admissible (step groupMembershipInterval) KeepsCovered (init group state ipAddress)
        events := by
  have hboth : Run.Throughout (step groupMembershipInterval)
      (fun link => WellFormed link.router ∧ Covers link) (init group state ipAddress) events ↔
        Run.Admissible (step groupMembershipInterval) KeepsCovered (init group state ipAddress)
          events := by
    refine Run.throughout_iff_admissible (fun link event link' h hok => ?_)
      (fun link event e _ herror => keepsCovered_of_error herror)
      ⟨RouterInterfaceData.wellFormed_init state ipAddress, fun _ haccepts => by cases haccepts⟩
    exact (and_iff_right (step_wellFormed h.1 hok)).trans (step_exact h.1 h.2 hok)
  rw [← hboth, Run.throughout_and_iff]
  refine (and_iff_right ?_).symm
  exact Run.throughout_of_preserved (fun link event link' h hok => step_wellFormed h hok)
    (RouterInterfaceData.wellFormed_init state ipAddress)

/-- The host wants everything but one source, and says so whenever it is asked. When the timer of
that source expires the router stops forwarding altogether. -/
theorem not_covers_blocked : ∃ link, Run.exec (step 260)
        (init 0xe0010101#32 .IGMPV3_RS_QUERIER 0x0a000001#32)
        [.multicastSourceListChanged ⟨MCAST_EXCLUDE_SOURCES, []⟩,
          .multicastSourceListChanged ⟨MCAST_EXCLUDE_SOURCES, [0x0a000002#32]⟩, .answer [],
          .answer [], .sourceTimer 0x0a000002#32] = .ok link ∧
      link.host.accepts 0x0a000003#32 = true ∧
      link.router.forwards 0xe0010101#32 0x0a000003#32 = false :=
  ⟨_, rfl, by decide, by decide⟩

end Link

end Inet.Igmp
