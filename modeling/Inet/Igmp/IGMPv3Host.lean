import Inet.Igmp.IGMPv3Router

/-!
# A host and a router on a link

The host part of IGMPv3 for one group: a change of the source filter is reported to the router,
and so is the filter when a query is answered. On a link without loss each report is processed
by the router before anything else happens. Queries may be answered at any time.
-/

namespace Inet.Igmp

open Inet.Ipv4 (IPv4Address)
open FilterMode ReportType McastSourceFilterMode

/-- The addresses from 224.0.0.0 to 224.0.0.255. -/
def isLinkLocalMulticast (addr : IPv4Address) : Bool := addr &&& 0xFFFFFF00#32 == 0xE0000000#32

def isSorted : List IPv4Address → Bool
  | [] => true
  | [_] => true
  | a :: b :: rest => a ≤ b && isSorted (b :: rest)

/-- The lists are sorted and have no duplicates, so that `set_difference` keeps what is not in the
second one. -/
def setComplement (first second : List IPv4Address) : List IPv4Address :=
  first.filter fun source => !second.contains source

def setIntersection (first second : List IPv4Address) : List IPv4Address :=
  first.filter fun source => second.contains source

structure HostGroupData where
  groupAddr : IPv4Address
  filter : FilterMode := IGMPV3_FM_INCLUDE
  sourceAddressList : List IPv4Address := []

namespace HostGroupData

def sendGroupReport (records : List GroupRecord) : Result (List GroupRecord) := do
  assert (records.all fun record =>
    isMulticast record.groupAddress && !isLinkLocalMulticast record.groupAddress)
    "group.isMulticast() && !group.isLinkLocalMulticast()"
  .ok records

/-- ALLOW and BLOCK, without those that have no source. -/
def allowAndBlock (groupData : HostGroupData) (allowed blocked : List IPv4Address) :
    List GroupRecord :=
  [{ recordType := IGMPV3_RT_ALLOW, groupAddress := groupData.groupAddr, sourceList := allowed },
    { recordType := IGMPV3_RT_BLOCK, groupAddress := groupData.groupAddr,
      sourceList := blocked }].filter fun record => !record.sourceList.isEmpty

/-- The records that report a change of the filter. -/
def changeRecords (groupData : HostGroupData) (filter : FilterMode) (sources : List IPv4Address) :
    List GroupRecord :=
  match groupData.filter, filter with
  | IGMPV3_FM_INCLUDE, IGMPV3_FM_INCLUDE =>
    groupData.allowAndBlock (setComplement sources groupData.sourceAddressList)
      (setComplement groupData.sourceAddressList sources)
  | IGMPV3_FM_EXCLUDE, IGMPV3_FM_EXCLUDE =>
    groupData.allowAndBlock (setComplement groupData.sourceAddressList sources)
      (setComplement sources groupData.sourceAddressList)
  | IGMPV3_FM_INCLUDE, IGMPV3_FM_EXCLUDE =>
    [{ recordType := IGMPV3_RT_TO_EX, groupAddress := groupData.groupAddr,
       sourceList := sources }]
  | IGMPV3_FM_EXCLUDE, IGMPV3_FM_INCLUDE =>
    [{ recordType := IGMPV3_RT_TO_IN, groupAddress := groupData.groupAddr,
       sourceList := sources }]

/-- The report, and the state after the change. -/
def multicastSourceListChanged (groupData : HostGroupData) (sourceList : IPv4MulticastSourceList) :
    Result (List GroupRecord × HostGroupData) := do
  assert (isSorted sourceList.sources) "isSorted(sourceList.sources)"
  let filter :=
    if sourceList.filterMode = MCAST_INCLUDE_SOURCES then IGMPV3_FM_INCLUDE else IGMPV3_FM_EXCLUDE
  if isLinkLocalMulticast groupData.groupAddr then .ok ([], groupData)
  else if groupData.filter = filter ∧ groupData.sourceAddressList = sourceList.sources then
    .ok ([], groupData)
  else do
    let records ← sendGroupReport (groupData.changeRecords filter sourceList.sources)
    .ok (records, { groupData with
      filter
      sourceAddressList := sourceList.sources.insertionSort (· ≤ ·) })

/-- The record that `processHostGroupQueryTimer` sends. A General Query is answered in the same
way as a Group-Specific Query, which has no sources. -/
def answerRecord (groupData : HostGroupData) (queriedSources : List IPv4Address) : GroupRecord :=
  if queriedSources.isEmpty then
    { recordType :=
        if groupData.filter = IGMPV3_FM_INCLUDE then IGMPV3_RT_IS_IN else IGMPV3_RT_IS_EX
      groupAddress := groupData.groupAddr
      sourceList := groupData.sourceAddressList }
  else
    { recordType := IGMPV3_RT_IS_IN
      groupAddress := groupData.groupAddr
      sourceList :=
        if groupData.filter = IGMPV3_FM_INCLUDE then
          setIntersection groupData.sourceAddressList queriedSources
        else setComplement queriedSources groupData.sourceAddressList }

def processHostGroupQueryTimer (groupData : HostGroupData) (queriedSources : List IPv4Address) :
    Result (List GroupRecord) :=
  sendGroupReport [groupData.answerRecord queriedSources]

end HostGroupData

/-- A host that listens to a group, and the router of the link. -/
structure Link where
  host : HostGroupData
  router : RouterInterfaceData

inductive LinkEvent where
  | multicastSourceListChanged (sourceList : IPv4MulticastSourceList)
  /-- The answer to a query for these sources, or to any other query if there are none. -/
  | answer (queriedSources : List IPv4Address)
  | generalQueryTimer
  | groupTimer
  | sourceTimer (source : IPv4Address)

namespace Link

def step (groupMembershipInterval : ℕ) (link : Link) : LinkEvent → Result Link
  | .multicastSourceListChanged sourceList => do
      let (records, host) ← link.host.multicastSourceListChanged sourceList
      let router ← link.router.step groupMembershipInterval (.report records)
      .ok { host, router }
  | .answer queriedSources => do
      let records ← link.host.processHostGroupQueryTimer queriedSources
      let router ← link.router.step groupMembershipInterval (.report records)
      .ok { link with router }
  | .generalQueryTimer => do
      let router ← link.router.step groupMembershipInterval .generalQueryTimer
      .ok { link with router }
  | .groupTimer => do
      let router ← link.router.step groupMembershipInterval (.groupTimer link.host.groupAddr)
      .ok { link with router }
  | .sourceTimer source => do
      let router ← link.router.step groupMembershipInterval
        (.sourceTimer link.host.groupAddr source)
      .ok { link with router }

end Link

end Inet.Igmp
