import Inet.Igmp.WantedSources

/-!
# The timers of a router group

A source timer removes its source in INCLUDE mode and stops forwarding it in EXCLUDE mode. The
group timer changes EXCLUDE to INCLUDE and drops the sources without a running timer. The code
gives a group up for a source timer whenever no other one is running, in EXCLUDE mode too, and
erases stopped sources under the iterator of the group timer's loop.
-/

namespace Inet.Igmp

open Inet.Ipv4 (IPv4Address)
open FilterMode ReportType

namespace RouterGroupData

variable {groupData groupData' : RouterGroupData} {receivedSources : List IPv4Address}

/-- In INCLUDE mode a source has a record as long as its timer runs. -/
def IncludesRunning (groupData : RouterGroupData) : Prop :=
  groupData.filter = IGMPV3_FM_INCLUDE → ∀ elem ∈ groupData.sources, elem.running = true

theorem startSourceTimers_filter (groupData : RouterGroupData)
    (receivedSources : List IPv4Address) :
    (groupData.startSourceTimers receivedSources).filter = groupData.filter := by
  rw [startSourceTimers]
  induction receivedSources generalizing groupData with
  | nil => rfl
  | cons source sources ih => exact ih _

theorem startSourceTimers_running (h : ∀ elem ∈ groupData.sources, elem.running = true) :
    ∀ elem ∈ (groupData.startSourceTimers receivedSources).sources, elem.running = true := by
  rw [startSourceTimers]
  induction receivedSources generalizing groupData with
  | nil => exact h
  | cons source sources ih =>
    refine ih fun elem helem => ?_
    rw [startSourceTimer, KeyedList.mem_insert, KeyedList.mem_erase] at helem
    rcases helem with rfl | ⟨hmem, -⟩
    · rfl
    · exact h elem hmem

theorem IncludesRunning.startSourceTimers (h : groupData.IncludesRunning)
    (receivedSources : List IPv4Address) :
    (groupData.startSourceTimers receivedSources).IncludesRunning := by
  intro hfilter
  rw [startSourceTimers_filter] at hfilter
  exact startSourceTimers_running (h hfilter)

theorem includesRunning_of_exclude (h : groupData.filter = IGMPV3_FM_EXCLUDE) :
    groupData.IncludesRunning := by
  intro hfilter
  rw [h] at hfilter
  cases hfilter

/-- What a record does to a group either ends in EXCLUDE mode or starts source timers. -/
theorem IncludesRunning.processRecord {groupMembershipInterval : ℕ} {recordType : ReportType}
    (h : groupData.IncludesRunning)
    (hok : groupData.processRecord groupMembershipInterval receivedSources recordType =
      .ok groupData') : groupData'.IncludesRunning := by
  cases recordType with
  | IGMPV3_RT_IS_IN =>
    cases hok
    exact h.startSourceTimers _
  | IGMPV3_RT_ALLOW =>
    cases hok
    exact h.startSourceTimers _
  | IGMPV3_RT_IS_EX => exact includesRunning_of_exclude (processIsEx_excludes hok).1
  | IGMPV3_RT_TO_EX => exact includesRunning_of_exclude (processToEx_excludes hok).1
  | IGMPV3_RT_TO_IN =>
    cases hok
    rw [processToIn]
    cases groupData.filter
    · exact h.startSourceTimers _
    · exact h.startSourceTimers _
  | IGMPV3_RT_BLOCK =>
    cases hok
    rwa [processBlock_eq]

end RouterGroupData

namespace RouterInterfaceData

variable {data data' : RouterInterfaceData} {groupData : RouterGroupData}
  {group source : IPv4Address} {groupMembershipInterval : ℕ}

/-- The states of the router: a table of groups, with the sources of INCLUDE mode running. -/
structure Valid (data : RouterInterfaceData) : Prop where
  wellFormed : WellFormed data
  running : ∀ group groupData, data.findGroupData group = some groupData → groupData.IncludesRunning

theorem valid_init (state : RouterState) (ipAddress : IPv4Address) :
    Valid (init state ipAddress) where
  wellFormed := wellFormed_init state ipAddress
  running := fun _ _ h => nomatch h

section

variable (h : Valid data)

include h

theorem Valid.put (hrunning : groupData.IncludesRunning) : Valid (data.putGroupData groupData) where
  wellFormed := h.wellFormed.put groupData
  running := by
    intro group found hfind
    rw [findGroupData_put h.wellFormed] at hfind
    split_ifs at hfind
    · cases hfind
      exact hrunning
    · exact h.running group found hfind

theorem Valid.delete (group : IPv4Address) : Valid (data.deleteGroupData group) where
  wellFormed := h.wellFormed.delete group
  running := by
    intro group' found hfind
    rw [findGroupData_delete h.wellFormed] at hfind
    split_ifs at hfind
    exact h.running group' found hfind

/-- Only the groups and the listed groups matter. -/
theorem Valid.congr (hgroups : data'.groups = data.groups)
    (hwell : WellFormed data') : Valid data' where
  wellFormed := hwell
  running := by
    intro group found hfind
    rw [findGroupData, hgroups] at hfind
    exact h.running group found hfind

theorem Valid.getOrCreateGroupData
    (hok : data.getOrCreateGroupData group = .ok groupData) : groupData.IncludesRunning := by
  rw [RouterInterfaceData.getOrCreateGroupData] at hok
  cases hfind : data.findGroupData group with
  | some found =>
    rw [hfind] at hok
    obtain rfl := Except.ok.inj hok
    exact h.running group found hfind
  | none =>
    rw [hfind] at hok
    obtain ⟨-, -, hnew⟩ := bind_eq_ok.mp hok
    cases hnew
    intro _ elem helem
    cases helem

theorem Valid.processGroupRecord {gr : GroupRecord}
    (hok : data.processGroupRecord groupMembershipInterval gr = .ok data') : Valid data' := by
  have hwell := (processGroupRecord_keeps h.wellFormed hok).1
  rw [RouterInterfaceData.processGroupRecord] at hok
  obtain ⟨old, hold, hok⟩ := bind_eq_ok.mp hok
  obtain ⟨new, hnew, hok⟩ := bind_eq_ok.mp hok
  have hput := h.put ((h.getOrCreateGroupData hold).processRecord hnew)
  dsimp only at hok
  split_ifs at hok
  · obtain ⟨ipv4Data, -, hok⟩ := bind_eq_ok.mp hok
    cases hok
    exact hput.congr rfl hwell
  · cases hok
    exact hput

theorem Valid.processReport {records : List GroupRecord}
    (hok : data.processReport groupMembershipInterval records = .ok data') : Valid data' := by
  induction records generalizing data with
  | nil =>
    cases hok
    exact h
  | cons gr records ih =>
    rw [RouterInterfaceData.processReport, List.foldlM_cons] at hok
    obtain ⟨next, hnext, hok⟩ := bind_eq_ok.mp hok
    exact ih (h.processGroupRecord hnext) hok

theorem Valid.processQuery {srcAddr groupAddr : IPv4Address}
    (hok : data.processQuery srcAddr groupAddr = .ok data') : Valid data' := by
  obtain ⟨elected, helected, hvalid⟩ : ∃ elected : RouterInterfaceData, elected =
      (if srcAddr < data.ipAddress then { data with state := .IGMPV3_RS_NON_QUERIER } else data) ∧
        Valid elected := by
    refine ⟨_, rfl, ?_⟩
    split_ifs
    · exact h.congr rfl ⟨h.wellFormed.sorted, h.wellFormed.distinct⟩
    · exact h
  rw [RouterInterfaceData.processQuery, ← helected] at hok
  split_ifs at hok
  · obtain ⟨groupData, hget, hok⟩ := bind_eq_ok.mp hok
    cases hok
    have hold : groupData.IncludesRunning := hvalid.getOrCreateGroupData hget
    refine hvalid.put ?_
    split_ifs
    · exact hold
    · exact hold
  · cases hok
    exact hvalid

theorem Valid.groupTimer (hfind : data.findGroupData group = some groupData)
    (hok : data.processRouterGroupTimer { groupData with running := false } = .ok data') :
    Valid data' := by
  have hrunning := h.running group groupData hfind
  obtain ⟨groupAddr, filter, state, running, sources⟩ := groupData
  cases filter with
  | IGMPV3_FM_INCLUDE =>
    cases hok
    exact h.put hrunning
  | IGMPV3_FM_EXCLUDE =>
    obtain ⟨timerRunning, hany, hok⟩ := bind_eq_ok.mp hok
    obtain ⟨hall, -⟩ := anyRunning_eq_ok.mp hany
    split_ifs at hok
    · cases hok
      exact h.put fun _ => hall
    · cases hok
      exact h.delete _

end

theorem IncludesRunning.expireSource (h : groupData.IncludesRunning) (source : IPv4Address) :
    (expireSource groupData source).IncludesRunning := by
  cases hfilter : groupData.filter with
  | IGMPV3_FM_INCLUDE =>
    intro _ elem helem
    exact h hfilter elem ((mem_sources_expire_include hfilter).mp helem).1
  | IGMPV3_FM_EXCLUDE =>
    refine RouterGroupData.includesRunning_of_exclude ?_
    rw [RouterInterfaceData.expireSource, hfilter]
    exact hfilter

theorem Valid.sourceTimer (h : Valid data) (hfind : data.findGroupData group = some groupData)
    (source : IPv4Address) :
    Valid (data.processRouterSourceTimer (groupData.stopSourceTimer source) source) := by
  rw [processRouterSourceTimer_eq]
  split_ifs
  · exact h.delete _
  · exact h.put (IncludesRunning.expireSource (h.running group groupData hfind) source)

theorem Valid.step {event : Event} (h : Valid data)
    (hok : data.step groupMembershipInterval event = .ok data') : Valid data' := by
  cases event with
  | report records => exact h.processReport hok
  | query srcAddr groupAddr => exact h.processQuery hok
  | generalQueryTimer =>
    cases hok
    rw [processRouterGeneralQueryTimer]
    split_ifs
    · exact h.congr rfl ⟨h.wellFormed.sorted, h.wellFormed.distinct⟩
    · exact h
  | groupTimer group =>
    rw [RouterInterfaceData.step] at hok
    cases hgroup : data.runningGroup group with
    | none =>
      rw [hgroup] at hok
      cases hok
      exact h
    | some groupData =>
      rw [hgroup] at hok
      exact h.groupTimer (Option.filter_eq_some_iff.mp hgroup).1 hok
  | sourceTimer group source =>
    rw [RouterInterfaceData.step] at hok
    cases hsource : data.runningSource group source with
    | none =>
      rw [hsource] at hok
      cases hok
      exact h
    | some groupData =>
      rw [hsource] at hok
      cases hok
      exact h.sourceTimer (Option.filter_eq_some_iff.mp hsource).1 source

/-- Every state that a run reaches is valid. -/
theorem throughout_valid (state : RouterState) (ipAddress : IPv4Address) (events : List Event) :
    Run.Throughout (RouterInterfaceData.step groupMembershipInterval) Valid
      (init state ipAddress) events :=
  Run.throughout_of_preserved (fun _ _ _ h hok => h.step hok) (valid_init state ipAddress)

/-- A group after the expiry of the timer of a source: the source is removed in INCLUDE mode, and
with the last one the group. It loses its timer in EXCLUDE mode. -/
def afterSourceTimer (groupData : RouterGroupData) (source : IPv4Address) :
    Option RouterGroupData :=
  match groupData.filter with
  | IGMPV3_FM_INCLUDE =>
    let sources := groupData.sources.filter fun elem => elem.sourceAddr ≠ source
    if sources = [] then none else some { groupData with sources }
  | IGMPV3_FM_EXCLUDE => some (groupData.stopSourceTimer source)

/-- A group after the expiry of its timer: EXCLUDE becomes INCLUDE of the sources with a running
timer, and a group without one is removed. -/
def afterGroupTimer (groupData : RouterGroupData) : Option RouterGroupData :=
  match groupData.filter with
  | IGMPV3_FM_INCLUDE => some { groupData with running := false }
  | IGMPV3_FM_EXCLUDE =>
    let sources := groupData.sources.filter SourceRecord.running
    if sources = [] then none
    else some { groupData with filter := IGMPV3_FM_INCLUDE, running := false, sources }

/-- One group is changed like this, and the others stay as they are. -/
def Becomes (data : RouterInterfaceData) (group : IPv4Address)
    (expected : Option RouterGroupData) (result : Result RouterInterfaceData) : Prop :=
  ∃ data', result = .ok data' ∧ ∀ group', data'.findGroupData group' =
    if group = group' then expected else data.findGroupData group'

/-- What is asked of an event that is the expiry of a timer. -/
def TimerMeets (groupMembershipInterval : ℕ) (data : RouterInterfaceData) : Event → Prop
  | .sourceTimer group source =>
    ∀ groupData, data.runningSource group source = some groupData →
      Becomes data group (afterSourceTimer groupData source)
        (data.step groupMembershipInterval (.sourceTimer group source))
  | .groupTimer group =>
    ∀ groupData, data.runningGroup group = some groupData →
      Becomes data group (afterGroupTimer groupData)
        (data.step groupMembershipInterval (.groupTimer group))
  | _ => True

/-- In EXCLUDE mode another source timer is running when one expires, and all of them are when
the group timer expires. -/
def TimerHarmless (data : RouterInterfaceData) : Event → Prop
  | .sourceTimer group source =>
    ∀ groupData, data.runningSource group source = some groupData →
      groupData.filter = IGMPV3_FM_EXCLUDE →
        ∃ elem ∈ groupData.sources, elem.running = true ∧ elem.sourceAddr ≠ source
  | .groupTimer group =>
    ∀ groupData, data.runningGroup group = some groupData → groupData.filter = IGMPV3_FM_EXCLUDE →
        ∀ elem ∈ groupData.sources, elem.running = true
  | _ => True

theorem becomes_delete_iff (h : WellFormed data) (group : IPv4Address)
    {expected : Option RouterGroupData} :
    Becomes data group expected (.ok (data.deleteGroupData group)) ↔ expected = none := by
  constructor
  · rintro ⟨data', hok, hbecomes⟩
    cases hok
    have hgroup := hbecomes group
    rw [if_pos rfl, findGroupData_delete h, if_pos rfl] at hgroup
    exact hgroup.symm
  · rintro rfl
    exact ⟨_, rfl, findGroupData_delete h group⟩

theorem becomes_put_iff (h : WellFormed data) (groupData : RouterGroupData)
    {expected : Option RouterGroupData} :
    Becomes data groupData.groupAddr expected (.ok (data.putGroupData groupData)) ↔
      expected = some groupData := by
  constructor
  · rintro ⟨data', hok, hbecomes⟩
    cases hok
    have hgroup := hbecomes groupData.groupAddr
    rw [if_pos rfl, findGroupData_put h, if_pos rfl] at hgroup
    exact hgroup.symm
  · rintro rfl
    exact ⟨_, rfl, findGroupData_put h groupData⟩

theorem sources_deleteSourceRecord_stop (groupData : RouterGroupData) (source : IPv4Address) :
    ((groupData.stopSourceTimer source).deleteSourceRecord source).sources =
      groupData.sources.filter fun elem => elem.sourceAddr ≠ source := by
  show KeyedList.erase SourceRecord.key (groupData.sources.map _) source.toNat = _
  rw [KeyedList.erase, List.filter_map]
  induction groupData.sources with
  | nil => rfl
  | cons elem sources ih =>
    by_cases heq : elem.sourceAddr = source
    · simpa [SourceRecord.key, heq] using ih
    · have hkey : elem.sourceAddr.toNat ≠ source.toNat := mt BitVec.eq_of_toNat_eq heq
      simpa [SourceRecord.key, heq, hkey] using ih

/-- With all timers running, none is left just in case no record is. -/
theorem afterSourceTimer_include (hfilter : groupData.filter = IGMPV3_FM_INCLUDE)
    (hrunning : ∀ elem ∈ groupData.sources, elem.running = true) :
    afterSourceTimer groupData source =
      if (expireSource groupData source).sources.all fun elem => !elem.running then none
      else some (expireSource groupData source) := by
  obtain ⟨groupAddr, filter, state, running, sources⟩ := groupData
  obtain rfl : filter = IGMPV3_FM_INCLUDE := hfilter
  let kept := sources.filter fun elem => elem.sourceAddr ≠ source
  have hexpire : expireSource ⟨groupAddr, IGMPV3_FM_INCLUDE, state, running, sources⟩ source =
      ⟨groupAddr, IGMPV3_FM_INCLUDE, state, running, kept⟩ :=
    congrArg (RouterGroupData.mk groupAddr IGMPV3_FM_INCLUDE state running)
      (sources_deleteSourceRecord_stop _ source)
  have hempty : (kept.all fun elem => !elem.running) = true ↔ kept = [] := by
    rw [List.all_eq_true, List.eq_nil_iff_forall_not_mem]
    refine forall₂_congr fun elem helem => ?_
    simp [hrunning elem (List.mem_of_mem_filter helem)]
  rw [hexpire, afterSourceTimer]
  simp only [hempty]
  rfl

theorem sourceTimer_meets_iff (h : Valid data) (hfind : data.findGroupData group = some groupData) :
    Becomes data group (afterSourceTimer groupData source)
        (.ok (data.processRouterSourceTimer (groupData.stopSourceTimer source) source)) ↔
      (groupData.filter = IGMPV3_FM_EXCLUDE →
        ∃ elem ∈ groupData.sources, elem.running = true ∧ elem.sourceAddr ≠ source) := by
  obtain rfl := groupAddr_of_find hfind
  have hput := @becomes_put_iff _ h.wellFormed (expireSource groupData source)
    (afterSourceTimer groupData source)
  rw [expireSource_groupAddr] at hput
  have hdelete := @becomes_delete_iff _ h.wellFormed groupData.groupAddr
    (afterSourceTimer groupData source)
  rw [processRouterSourceTimer_eq]
  cases hfilter : groupData.filter with
  | IGMPV3_FM_INCLUDE =>
    refine iff_of_true ?_ fun hexclude => nomatch hexclude
    have hafter : afterSourceTimer groupData source = _ :=
      afterSourceTimer_include hfilter (h.running _ groupData hfind hfilter)
    split_ifs at hafter ⊢
    · exact hdelete.mpr hafter
    · exact hput.mpr hafter
  | IGMPV3_FM_EXCLUDE =>
    have hafter : afterSourceTimer groupData source = some (expireSource groupData source) := by
      rw [afterSourceTimer, expireSource, hfilter]
    have hlast := @all_expireSource groupData source
    split_ifs with hall
    · refine iff_of_false (fun hbecomes => ?_) fun hother => ?_
      · rw [hdelete.mp hbecomes] at hafter
        cases hafter
      · obtain ⟨elem, helem, hrunning, hne⟩ := hother rfl
        exact hne (hlast.mp hall elem helem hrunning)
    · refine iff_of_true (hput.mpr hafter) fun _ => ?_
      rw [hlast, KeepsSource] at hall
      push Not at hall
      exact hall

theorem groupTimer_meets_iff (h : Valid data) (hfind : data.findGroupData group = some groupData) :
    Becomes data group (afterGroupTimer groupData)
        (data.processRouterGroupTimer { groupData with running := false }) ↔
      (groupData.filter = IGMPV3_FM_EXCLUDE → ∀ elem ∈ groupData.sources, elem.running = true) := by
  obtain rfl := groupAddr_of_find hfind
  obtain ⟨groupAddr, filter, state, running, sources⟩ := groupData
  cases filter with
  | IGMPV3_FM_INCLUDE =>
    refine iff_of_true ?_ fun hexclude => nomatch hexclude
    exact (becomes_put_iff h.wellFormed _).mpr rfl
  | IGMPV3_FM_EXCLUDE =>
    simp only [processRouterGroupTimer, forall_const]
    cases hany : RouterGroupData.anyRunning sources with
    | error e =>
      refine iff_of_false ?_ fun hall => ?_
      · rintro ⟨data', hok, -⟩
        cases hok
      · rw [anyRunning_eq_ok.mpr ⟨hall, rfl⟩] at hany
        cases hany
    | ok timerRunning =>
      obtain ⟨hall, rfl⟩ := anyRunning_eq_ok.mp hany
      have hkept : sources.filter SourceRecord.running = sources :=
        List.filter_eq_self.mpr hall
      refine iff_of_true ?_ hall
      rw [ok_bind]
      cases sources with
      | nil => exact (becomes_delete_iff h.wellFormed _).mpr rfl
      | cons elem rest =>
        refine (becomes_put_iff h.wellFormed _).mpr ?_
        simp only [afterGroupTimer, hkept]
        rfl

/-- A timer changes its group as it should if and only if it is harmless. -/
theorem timerMeets_iff (h : Valid data) (event : Event) :
    TimerMeets groupMembershipInterval data event ↔ TimerHarmless data event := by
  cases event with
  | report records => exact Iff.rfl
  | query srcAddr groupAddr => exact Iff.rfl
  | generalQueryTimer => exact Iff.rfl
  | groupTimer group =>
    refine forall₂_congr fun groupData hgroup => ?_
    rw [step, hgroup]
    exact groupTimer_meets_iff h (Option.filter_eq_some_iff.mp hgroup).1
  | sourceTimer group source =>
    refine forall₂_congr fun groupData hsource => ?_
    rw [step, hsource]
    exact sourceTimer_meets_iff h (Option.filter_eq_some_iff.mp hsource).1

/-- The only source with a running timer is stopped and the group is gone, with its timer
running. -/
theorem not_timerMeets_lastSource :
    ∃ data, Run.exec (step 260) (init .IGMPV3_RS_QUERIER 0x0a000001#32)
        [.report [⟨IGMPV3_RT_TO_EX, 0xe1010101#32, []⟩,
          ⟨IGMPV3_RT_ALLOW, 0xe1010101#32, [0x0a000002#32]⟩]] = .ok data ∧
      data.findGroupData 0xe1010101#32 = some
        { groupAddr := 0xe1010101#32, filter := IGMPV3_FM_EXCLUDE, running := true
          sources := [⟨0x0a000002#32, true⟩] } ∧
      ¬ TimerMeets 260 data (.sourceTimer 0xe1010101#32 0x0a000002#32) := by
  refine ⟨_, rfl, by decide, fun hmeets => ?_⟩
  obtain ⟨data', hok, hbecomes⟩ := hmeets _ rfl
  have hgroup := hbecomes 0xe1010101#32
  rw [← Except.ok.inj hok] at hgroup
  revert hgroup
  decide

/-- An instance of `timerMeets_iff`: the group timer of EXCLUDE({s}, {}) expires. -/
theorem timerMeets_groupTimer : ∃ data, Run.exec (step 260) (init .IGMPV3_RS_QUERIER 0x0a000001#32)
        [.report [⟨IGMPV3_RT_TO_EX, 0xe1010101#32, []⟩,
          ⟨IGMPV3_RT_ALLOW, 0xe1010101#32, [0x0a000002#32]⟩]] = .ok data ∧
      TimerMeets 260 data (.groupTimer 0xe1010101#32) := by
  obtain ⟨data, hdata⟩ : ∃ data, Run.exec (step 260) (init .IGMPV3_RS_QUERIER 0x0a000001#32)
      [.report [⟨IGMPV3_RT_TO_EX, 0xe1010101#32, []⟩,
        ⟨IGMPV3_RT_ALLOW, 0xe1010101#32, [0x0a000002#32]⟩]] = .ok data := ⟨_, rfl⟩
  have hvalid : Valid data := (throughout_valid _ _ _).of_exec hdata
  refine ⟨data, hdata, (timerMeets_iff hvalid _).mpr fun groupData hgroup => ?_⟩
  obtain rfl := Except.ok.inj hdata
  obtain rfl := Option.some.inj hgroup
  decide

end RouterInterfaceData

end Inet.Igmp
