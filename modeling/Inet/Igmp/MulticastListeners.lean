import Inet.Ipv4.IPv4Route

/-!
# Multicast listeners of an interface

`IPv4InterfaceData` lists the multicast groups that have listeners on the link, each with the
sources that they listen to. A group is listed at most once.
-/

namespace Inet.Igmp

open Inet.Ipv4 (IPv4Address)

/-- The addresses from 224.0.0.0 to 239.255.255.255. -/
def isMulticast (addr : IPv4Address) : Bool := addr &&& 0xF0000000#32 == 0xE0000000#32

inductive McastSourceFilterMode where
  | MCAST_INCLUDE_SOURCES
  | MCAST_EXCLUDE_SOURCES
deriving DecidableEq

open McastSourceFilterMode

structure IPv4MulticastSourceList where
  filterMode : McastSourceFilterMode := MCAST_INCLUDE_SOURCES
  sources : List IPv4Address := []
deriving DecidableEq

namespace IPv4MulticastSourceList

def isEmpty (list : IPv4MulticastSourceList) : Bool :=
  list.filterMode == MCAST_INCLUDE_SOURCES && list.sources.isEmpty

def contains (list : IPv4MulticastSourceList) (source : IPv4Address) : Bool :=
  list.filterMode == MCAST_INCLUDE_SOURCES && list.sources.contains source ||
    list.filterMode == MCAST_EXCLUDE_SOURCES && !list.sources.contains source

theorem isEmpty_iff {list : IPv4MulticastSourceList} : list.isEmpty = true ↔ list = {} := by
  obtain ⟨mode, sources⟩ := list
  simp [isEmpty]

end IPv4MulticastSourceList

structure RouterMulticastGroupData where
  multicastGroup : IPv4Address
  sourceList : IPv4MulticastSourceList := {}

/-- The part of `IPv4InterfaceData` that a multicast router uses. -/
structure IPv4InterfaceData where
  reportedMulticastGroups : List RouterMulticastGroupData := []

namespace IPv4InterfaceData

def findRouterGroupData (data : IPv4InterfaceData) (multicastAddress : IPv4Address) :
    Option RouterMulticastGroupData :=
  data.reportedMulticastGroups.find? fun entry => entry.multicastGroup == multicastAddress

/-- The first entry of the group is erased. Both functions that remove a group do so. -/
def removeRouterGroupData (data : IPv4InterfaceData) (multicastAddress : IPv4Address) :
    IPv4InterfaceData :=
  { data with
    reportedMulticastGroups := data.reportedMulticastGroups.eraseP fun entry =>
      entry.multicastGroup == multicastAddress }

def hasMulticastListener (data : IPv4InterfaceData) (multicastAddress sourceAddress : IPv4Address) :
    Bool :=
  match data.findRouterGroupData multicastAddress with
  | some groupData => !groupData.sourceList.contains sourceAddress
  | none => false

def removeMulticastListener (data : IPv4InterfaceData) (multicastAddress : IPv4Address) :
    IPv4InterfaceData :=
  data.removeRouterGroupData multicastAddress

/-- The list of the first entry of the group is replaced. -/
def replaceSourceList (multicastAddress : IPv4Address) (list : IPv4MulticastSourceList) :
    List RouterMulticastGroupData → List RouterMulticastGroupData
  | [] => []
  | entry :: entries =>
    if entry.multicastGroup == multicastAddress then { entry with sourceList := list } :: entries
    else entry :: replaceSourceList multicastAddress list entries

/-- The list of a group that has an entry is replaced, or the entry is removed. -/
def replaceOrRemove (data : IPv4InterfaceData) (multicastAddress : IPv4Address)
    (list : IPv4MulticastSourceList) : IPv4InterfaceData :=
  if list.filterMode ≠ MCAST_INCLUDE_SOURCES ∨ list.sources.isEmpty = false then
    { data with
      reportedMulticastGroups :=
        replaceSourceList multicastAddress list data.reportedMulticastGroups }
  else data.removeRouterGroupData multicastAddress

def setMulticastListeners (data : IPv4InterfaceData) (multicastAddress : IPv4Address)
    (list : IPv4MulticastSourceList) : Result IPv4InterfaceData :=
  if !isMulticast multicastAddress then
    .error (.cRuntimeError
      "IPv4InterfaceData::setMulticastListeners(): multicast address expected, received %s.")
  else
    let (data, groupData) :=
      match data.findRouterGroupData multicastAddress with
      | some groupData => (data, groupData)
      | none =>
        let groupData : RouterMulticastGroupData := { multicastGroup := multicastAddress }
        ({ data with
          reportedMulticastGroups := data.reportedMulticastGroups ++ [groupData] }, groupData)
    if list ≠ groupData.sourceList then .ok (data.replaceOrRemove multicastAddress list)
    else .ok data

/-- The sources of a group, if it is listed. -/
def listed (data : IPv4InterfaceData) (group : IPv4Address) : Option IPv4MulticastSourceList :=
  (data.findRouterGroupData group).map RouterMulticastGroupData.sourceList

/-- No group is listed twice. -/
def Distinct (data : IPv4InterfaceData) : Prop :=
  (data.reportedMulticastGroups.map RouterMulticastGroupData.multicastGroup).Nodup

variable {data data' : IPv4InterfaceData} {group group' : IPv4Address}
  {list : IPv4MulticastSourceList}

theorem listed_eq_none : data.listed group = none ↔
    group ∉ data.reportedMulticastGroups.map RouterMulticastGroupData.multicastGroup := by
  simp [listed, findRouterGroupData]

theorem reported_eq_nil :
    data.reportedMulticastGroups = [] ↔ ∀ group, data.listed group = none := by
  constructor
  · intro h group
    rw [listed_eq_none, h]
    exact List.not_mem_nil
  · intro h
    rw [List.eq_nil_iff_forall_not_mem]
    intro entry hentry
    exact listed_eq_none.mp (h entry.multicastGroup) (List.mem_map_of_mem hentry)

theorem hasMulticastListener_eq (data : IPv4InterfaceData) (group source : IPv4Address) :
    data.hasMulticastListener group source = match data.listed group with
      | some list => !list.contains source
      | none => false := by
  rw [hasMulticastListener, listed]
  cases data.findRouterGroupData group with
  | none => rfl
  | some groupData => rfl

theorem Distinct.removeRouterGroupData (h : data.Distinct) (group : IPv4Address) :
    (data.removeRouterGroupData group).Distinct :=
  h.sublist (List.eraseP_sublist.map _)

theorem listed_cons (entry : RouterMulticastGroupData) (entries : List RouterMulticastGroupData)
    (group : IPv4Address) :
    listed ⟨entry :: entries⟩ group =
      if entry.multicastGroup = group then some entry.sourceList else listed ⟨entries⟩ group := by
  rw [listed, findRouterGroupData, List.find?_cons]
  by_cases h : entry.multicastGroup = group
  · rw [beq_iff_eq.mpr h, if_pos h]
    rfl
  · rw [beq_eq_false_iff_ne.mpr h, if_neg h]
    rfl

theorem listed_removeRouterGroupData (h : data.Distinct) (group group' : IPv4Address) :
    (data.removeRouterGroupData group).listed group' =
      if group = group' then none else data.listed group' := by
  obtain ⟨entries⟩ := data
  induction entries with
  | nil => exact (ite_self none).symm
  | cons entry entries ih =>
    obtain ⟨hnone, hrest⟩ := List.nodup_cons.mp h
    rw [← listed_eq_none] at hnone
    have hstep := ih hrest
    simp only [IPv4InterfaceData.removeRouterGroupData] at hstep ⊢
    rw [List.eraseP_cons]
    by_cases hentry : entry.multicastGroup = group
    · subst hentry
      rw [beq_self_eq_true, Bool.cond_true, listed_cons]
      split_ifs with heq
      · rw [← heq, hnone]
      · rfl
    · rw [beq_eq_false_iff_ne.mpr hentry, Bool.cond_false, listed_cons, hstep, listed_cons]
      split_ifs with heq heq'
      · exact absurd (heq.trans heq'.symm) hentry
      · rfl
      · rfl
      · rfl

section

variable {entries : List RouterMulticastGroupData}

theorem map_replaceSourceList :
    (replaceSourceList group list entries).map RouterMulticastGroupData.multicastGroup =
      entries.map RouterMulticastGroupData.multicastGroup := by
  induction entries with
  | nil => rfl
  | cons entry entries ih =>
    rw [replaceSourceList]
    split_ifs
    · rfl
    · rw [List.map_cons, List.map_cons, ih]

theorem listed_replaceSourceList (h : (listed ⟨entries⟩ group).isSome) (group' : IPv4Address) :
    listed ⟨replaceSourceList group list entries⟩ group' =
      if group = group' then some list else listed ⟨entries⟩ group' := by
  induction entries with
  | nil => cases h
  | cons entry entries ih =>
    rw [listed_cons] at h
    rw [replaceSourceList]
    by_cases hentry : entry.multicastGroup = group
    · subst hentry
      rw [beq_self_eq_true, if_pos rfl, listed_cons, listed_cons]
      split_ifs <;> rfl
    · rw [if_neg hentry] at h
      rw [beq_eq_false_iff_ne.mpr hentry, if_neg Bool.false_ne_true, listed_cons, listed_cons, ih h]
      split_ifs with heq heq'
      · exact absurd (heq.trans heq'.symm) hentry
      · rfl
      · rfl
      · rfl

end

theorem listed_append_new (hnone : data.listed group = none) (group' : IPv4Address) :
    listed ⟨data.reportedMulticastGroups ++ [⟨group, {}⟩]⟩ group' =
      if group = group' then some {} else data.listed group' := by
  obtain ⟨entries⟩ := data
  induction entries with
  | nil =>
    show listed ⟨[⟨group, {}⟩]⟩ group' = _
    rw [listed_cons]
  | cons entry entries ih =>
    rw [listed_cons] at hnone
    split_ifs at hnone with hentry
    show listed ⟨entry :: (entries ++ [⟨group, {}⟩])⟩ group' = _
    rw [listed_cons, ih hnone, listed_cons]
    split_ifs with heq heq'
    · exact absurd (heq.trans heq'.symm) hentry
    · rfl
    · rfl
    · rfl

theorem Distinct.append_new (h : data.Distinct) (hnone : data.listed group = none) :
    Distinct ⟨data.reportedMulticastGroups ++ [⟨group, {}⟩]⟩ := by
  rw [Distinct, List.map_append]
  refine List.Nodup.append h (List.nodup_singleton _) ?_
  intro x hx hgroup
  obtain rfl := List.mem_singleton.mp hgroup
  exact listed_eq_none.mp hnone hx

theorem kept_iff : (list.filterMode ≠ MCAST_INCLUDE_SOURCES ∨ list.sources.isEmpty = false) ↔
    list ≠ {} := by
  rw [← not_iff_not, not_or, not_not, not_not, ← IPv4MulticastSourceList.isEmpty_iff,
    IPv4MulticastSourceList.isEmpty]
  simp

theorem replaceOrRemove_spec (h : data.Distinct) (hsome : (data.listed group).isSome) :
    (data.replaceOrRemove group list).Distinct ∧ ∀ group',
      (data.replaceOrRemove group list).listed group' =
        if group = group' then (if list = {} then none else some list)
        else data.listed group' := by
  rw [replaceOrRemove]
  by_cases hlist : list = {}
  · rw [if_neg (mt kept_iff.mp (not_not.mpr hlist))]
    refine ⟨h.removeRouterGroupData group, fun group' => ?_⟩
    rw [listed_removeRouterGroupData h, if_pos hlist]
  · rw [if_pos (kept_iff.mpr hlist)]
    refine ⟨?_, fun group' => ?_⟩
    · rw [Distinct, map_replaceSourceList]
      exact h
    · rw [listed_replaceSourceList hsome, if_neg hlist]

/-- The group gets an entry if it has none, which is then replaced or removed if need be. -/
theorem setMulticastListeners_cases (h : data.Distinct)
    (hok : data.setMulticastListeners group list = .ok data') :
    ∃ entered : IPv4InterfaceData, entered.Distinct ∧ (∀ group', entered.listed group' =
        if group = group' then some ((data.listed group).getD {}) else data.listed group') ∧
      data' = if list ≠ (data.listed group).getD {} then entered.replaceOrRemove group list
        else entered := by
  rw [setMulticastListeners] at hok
  cases hmulticast : isMulticast group with
  | false =>
    rw [hmulticast] at hok
    cases hok
  | true =>
    rw [hmulticast] at hok
    cases hfind : data.findRouterGroupData group with
    | none =>
      have hnone : data.listed group = none := by
        rw [listed, hfind]
        rfl
      simp only [hfind, Bool.not_true, Bool.false_eq_true, if_false] at hok
      refine ⟨⟨data.reportedMulticastGroups ++ [⟨group, {}⟩]⟩, h.append_new hnone, ?_, ?_⟩
      · intro group'
        rw [listed_append_new hnone, hnone, Option.getD_none]
      · rw [hnone, Option.getD_none]
        split_ifs at hok ⊢
        · exact (Except.ok.inj hok).symm
        · exact (Except.ok.inj hok).symm
    | some groupData =>
      have hsome : data.listed group = some groupData.sourceList := by
        rw [listed, hfind]
        rfl
      simp only [hfind, Bool.not_true, Bool.false_eq_true, if_false] at hok
      refine ⟨data, h, ?_, ?_⟩
      · intro group'
        rw [hsome, Option.getD_some]
        split_ifs with heq
        · rw [← heq, hsome]
        · rfl
      · rw [hsome, Option.getD_some]
        split_ifs at hok ⊢
        · exact (Except.ok.inj hok).symm
        · exact (Except.ok.inj hok).symm

/-- The interface lists what it is told, unless that is no source at all. -/
theorem setMulticastListeners_spec (h : data.Distinct)
    (hchanged : list ≠ (data.listed group).getD {})
    (hok : data.setMulticastListeners group list = .ok data') (group' : IPv4Address) :
    data'.listed group' =
      if group = group' then (if list = {} then none else some list) else data.listed group' := by
  obtain ⟨entered, hdistinct, hlisted, rfl⟩ := setMulticastListeners_cases h hok
  have hsome : (entered.listed group).isSome := by
    rw [hlisted, if_pos rfl]
    rfl
  rw [if_pos hchanged, (replaceOrRemove_spec hdistinct hsome).2, hlisted]
  split_ifs <;> rfl

theorem Distinct.setMulticastListeners (h : data.Distinct)
    (hok : data.setMulticastListeners group list = .ok data') : data'.Distinct := by
  obtain ⟨entered, hdistinct, hlisted, rfl⟩ := setMulticastListeners_cases h hok
  have hsome : (entered.listed group).isSome := by
    rw [hlisted, if_pos rfl]
    rfl
  split_ifs
  · exact (replaceOrRemove_spec hdistinct hsome).1
  · exact hdistinct

end IPv4InterfaceData

end Inet.Igmp
