import Inet.Igmp.MulticastListeners
import Inet.Library.KeyedList
import Inet.Library.Run

/-!
# The router part of IGMPv3

For each group with listeners the router keeps a filter mode, a group timer and a record with a
timer for each source. Only whether a timer is scheduled is modelled; when it expires is up to the
environment. Queries that the router sends leave its state as it is, apart from the group timer.

Three loops erase records of the map that they iterate over, which invalidates their iterator.
-/

namespace Inet.Igmp

open Inet.Ipv4 (IPv4Address)
open McastSourceFilterMode

inductive FilterMode where
  | IGMPV3_FM_INCLUDE
  | IGMPV3_FM_EXCLUDE
deriving DecidableEq

inductive ReportType where
  | IGMPV3_RT_IS_IN
  | IGMPV3_RT_IS_EX
  | IGMPV3_RT_TO_IN
  | IGMPV3_RT_TO_EX
  | IGMPV3_RT_ALLOW
  | IGMPV3_RT_BLOCK
deriving DecidableEq

inductive RouterState where
  | IGMPV3_RS_INITIAL
  | IGMPV3_RS_QUERIER
  | IGMPV3_RS_NON_QUERIER
deriving DecidableEq

inductive RouterGroupState where
  | IGMPV3_RGS_NO_MEMBERS_PRESENT
  | IGMPV3_RGS_MEMBERS_PRESENT
  | IGMPV3_RGS_CHECKING_MEMBERSHIP
deriving DecidableEq

open FilterMode ReportType RouterState RouterGroupState

@[ext] structure SourceRecord where
  sourceAddr : IPv4Address
  /-- `sourceTimer` is scheduled. -/
  running : Bool := false
deriving DecidableEq

def SourceRecord.key (elem : SourceRecord) : ℕ := elem.sourceAddr.toNat

structure RouterGroupData where
  groupAddr : IPv4Address
  filter : FilterMode := IGMPV3_FM_INCLUDE
  state : RouterGroupState := IGMPV3_RGS_NO_MEMBERS_PRESENT
  /-- `timer` is scheduled. -/
  running : Bool := false
  /-- The map from addresses to records, in the order of the addresses. -/
  sources : List SourceRecord := []
deriving DecidableEq

namespace RouterGroupData

def key (groupData : RouterGroupData) : ℕ := groupData.groupAddr.toNat

def hasSourceRecord (groupData : RouterGroupData) (source : IPv4Address) : Bool :=
  (KeyedList.lookup SourceRecord.key groupData.sources source.toNat).isSome

/-- The assertion that there is no such record is left out: it is called behind
`hasSourceRecord`. -/
def createSourceRecord (groupData : RouterGroupData) (source : IPv4Address) : RouterGroupData :=
  { groupData with
    sources := KeyedList.insert SourceRecord.key { sourceAddr := source }
      groupData.sources }

def deleteSourceRecord (groupData : RouterGroupData) (source : IPv4Address) : RouterGroupData :=
  { groupData with
    sources := KeyedList.erase SourceRecord.key groupData.sources source.toNat }

/-- `getOrCreateSourceRecord` and `startTimer`. -/
def startSourceTimer (groupData : RouterGroupData) (source : IPv4Address) : RouterGroupData :=
  { groupData with
    sources := KeyedList.insert SourceRecord.key { sourceAddr := source, running := true }
      (KeyedList.erase SourceRecord.key groupData.sources source.toNat) }

def startTimer (groupData : RouterGroupData) : RouterGroupData := { groupData with running := true }

def collectForwardedSources (groupData : RouterGroupData) : IPv4MulticastSourceList :=
  match groupData.filter with
  | IGMPV3_FM_INCLUDE =>
    { filterMode := MCAST_INCLUDE_SOURCES
      sources :=
        (groupData.sources.filter fun elem => elem.running).map SourceRecord.sourceAddr }
  | IGMPV3_FM_EXCLUDE =>
    { filterMode := MCAST_EXCLUDE_SOURCES
      sources :=
        (groupData.sources.filter fun elem => !elem.running).map SourceRecord.sourceAddr }

/-- IS_IN, ALLOW and TO_IN set the timers of the sources to the group membership interval. -/
def startSourceTimers (groupData : RouterGroupData) (receivedSources : List IPv4Address) :
    RouterGroupData :=
  receivedSources.foldl startSourceTimer groupData

/-- The loop of IS_EX that deletes the records of other sources. After the first one has been
deleted the iterator is incremented. -/
def deleteOthers (groupData : RouterGroupData) (receivedSources : List IPv4Address) :
    Result RouterGroupData :=
  if groupData.sources.all fun elem => receivedSources.contains elem.sourceAddr then .ok groupData
  else .error .invalidIterator

/-- The sources that have no record get one. -/
def createMissing (groupData : RouterGroupData) (receivedSources : List IPv4Address)
    (start : Bool) : RouterGroupData :=
  receivedSources.foldl (fun groupData receivedSource =>
    if groupData.hasSourceRecord receivedSource then groupData
    else if start then groupData.startSourceTimer receivedSource
    else groupData.createSourceRecord receivedSource) groupData

def processIsEx (groupMembershipInterval : ℕ) (groupData : RouterGroupData)
    (receivedSources : List IPv4Address) : Result RouterGroupData := do
  let groupData ← groupData.startTimer.deleteOthers receivedSources
  let timerValue := if groupData.filter = IGMPV3_FM_INCLUDE then 0 else groupMembershipInterval
  .ok { groupData.createMissing receivedSources (timerValue > 0) with filter := IGMPV3_FM_EXCLUDE }

/-- The loop of BLOCK in EXCLUDE mode asks whether the sources that have a record have one. -/
def processBlock (groupData : RouterGroupData) : RouterGroupData :=
  match groupData.filter with
  | IGMPV3_FM_INCLUDE => groupData
  | IGMPV3_FM_EXCLUDE =>
    groupData.createMissing (groupData.sources.map SourceRecord.sourceAddr) true

/-- `sendGroupSpecificQuery` restarts the group timer. -/
def processToIn (groupData : RouterGroupData) (receivedSources : List IPv4Address) :
    RouterGroupData :=
  match groupData.filter with
  | IGMPV3_FM_INCLUDE => groupData.startSourceTimers receivedSources
  | IGMPV3_FM_EXCLUDE => (groupData.startSourceTimers receivedSources).startTimer

/-- The loop of TO_EX in EXCLUDE mode. It looks at the source behind the record that it is about
to delete, and in the last round at the end of the map. -/
def deleteByNext (receivedSources : List IPv4Address) :
    List SourceRecord → RouterGroupData → Result RouterGroupData
  | [], groupData => .ok groupData
  | [_], _ => .error .invalidIterator
  | rec :: next :: rest, groupData =>
    deleteByNext receivedSources (next :: rest)
      (if receivedSources.contains next.sourceAddr then groupData
      else groupData.deleteSourceRecord rec.sourceAddr)

def processToEx (groupData : RouterGroupData) (receivedSources : List IPv4Address) :
    Result RouterGroupData :=
  match groupData.filter with
  | IGMPV3_FM_INCLUDE =>
    let sourcesA := groupData.sources.map SourceRecord.sourceAddr
    let groupData := { groupData.startTimer with filter := IGMPV3_FM_EXCLUDE }
    .ok (sourcesA.foldl (fun groupData elem =>
      if receivedSources.contains elem then groupData else groupData.deleteSourceRecord elem)
        (groupData.createMissing receivedSources false))
  | IGMPV3_FM_EXCLUDE => do
      let groupData ← deleteByNext receivedSources groupData.sources groupData.startTimer
      .ok (groupData.createMissing receivedSources true)

/-- The table of RFC 3376 6.4. -/
def processRecord (groupMembershipInterval : ℕ) (groupData : RouterGroupData)
    (receivedSources : List IPv4Address) : ReportType → Result RouterGroupData
  | IGMPV3_RT_IS_IN => .ok (groupData.startSourceTimers receivedSources)
  | IGMPV3_RT_IS_EX => groupData.processIsEx groupMembershipInterval receivedSources
  | IGMPV3_RT_ALLOW => .ok (groupData.startSourceTimers receivedSources)
  | IGMPV3_RT_BLOCK => .ok groupData.processBlock
  | IGMPV3_RT_TO_IN => .ok (groupData.processToIn receivedSources)
  | IGMPV3_RT_TO_EX => groupData.processToEx receivedSources

/-- The loop of `processRouterGroupTimer`: whether a source timer is running. It deletes the first
record without one and goes on to increment its iterator. -/
def anyRunning : List SourceRecord → Result Bool
  | [] => .ok false
  | elem :: rest =>
    if !elem.running then .error .invalidIterator
    else do
      let _ ← anyRunning rest
      .ok true

/-- The timer of a source has expired. -/
def stopSourceTimer (groupData : RouterGroupData) (source : IPv4Address) : RouterGroupData :=
  { groupData with
    sources := groupData.sources.map fun elem =>
      if elem.sourceAddr = source then { elem with running := false } else elem }

end RouterGroupData

structure GroupRecord where
  recordType : ReportType
  groupAddress : IPv4Address
  sourceList : List IPv4Address := []
deriving DecidableEq

/-- The router's data about an interface, and the data of the interface itself. -/
structure RouterInterfaceData where
  groups : List RouterGroupData := []
  state : RouterState := IGMPV3_RS_INITIAL
  ipAddress : IPv4Address := 0
  ipv4Data : IPv4InterfaceData := {}

/-- What happens at an interface. -/
inductive Event where
  | report (records : List GroupRecord)
  | query (srcAddr groupAddr : IPv4Address)
  | generalQueryTimer
  | groupTimer (group : IPv4Address)
  | sourceTimer (group source : IPv4Address)

namespace RouterInterfaceData

def findGroupData (data : RouterInterfaceData) (group : IPv4Address) : Option RouterGroupData :=
  KeyedList.lookup RouterGroupData.key data.groups group.toNat

def putGroupData (data : RouterInterfaceData) (groupData : RouterGroupData) :
    RouterInterfaceData :=
  { data with
    groups := KeyedList.insert RouterGroupData.key groupData
      (KeyedList.erase RouterGroupData.key data.groups groupData.key) }

/-- The constructor asserts that the address is a multicast address. -/
def getOrCreateGroupData (data : RouterInterfaceData) (group : IPv4Address) :
    Result RouterGroupData :=
  match data.findGroupData group with
  | some groupData => .ok groupData
  | none => do
      assert (isMulticast group) "groupAddr.isMulticast()"
      .ok { groupAddr := group }

/-- The group has no listeners left. -/
def deleteGroupData (data : RouterInterfaceData) (group : IPv4Address) : RouterInterfaceData :=
  { data with
    groups := KeyedList.erase RouterGroupData.key data.groups group.toNat
    ipv4Data := data.ipv4Data.removeMulticastListener group }

def processGroupRecord (groupMembershipInterval : ℕ) (data : RouterInterfaceData)
    (gr : GroupRecord) : Result RouterInterfaceData := do
  let receivedSources := gr.sourceList.insertionSort (· ≤ ·)
  let groupData ← data.getOrCreateGroupData gr.groupAddress
  let oldSourceList := groupData.collectForwardedSources
  let groupData ← groupData.processRecord groupMembershipInterval receivedSources gr.recordType
  let newSourceList := groupData.collectForwardedSources
  if newSourceList ≠ oldSourceList then do
    let ipv4Data ← data.ipv4Data.setMulticastListeners groupData.groupAddr newSourceList
    .ok { data.putGroupData groupData with ipv4Data }
  else .ok (data.putGroupData groupData)

def processReport (groupMembershipInterval : ℕ) (data : RouterInterfaceData)
    (records : List GroupRecord) : Result RouterInterfaceData :=
  records.foldlM (processGroupRecord groupMembershipInterval) data

/-- The querier election, and the group timer of a router that is not the querier. -/
def processQuery (data : RouterInterfaceData) (srcAddr groupAddr : IPv4Address) :
    Result RouterInterfaceData :=
  let data :=
    if srcAddr < data.ipAddress then { data with state := IGMPV3_RS_NON_QUERIER } else data
  if groupAddr ≠ 0 ∧ data.state = IGMPV3_RS_NON_QUERIER then do
    let groupData ← data.getOrCreateGroupData groupAddr
    let groupData :=
      if groupData.state = IGMPV3_RGS_MEMBERS_PRESENT then
        { groupData.startTimer with state := IGMPV3_RGS_CHECKING_MEMBERSHIP }
      else groupData
    .ok (data.putGroupData groupData)
  else .ok data

def processRouterGeneralQueryTimer (data : RouterInterfaceData) : RouterInterfaceData :=
  if data.state = IGMPV3_RS_QUERIER ∨ data.state = IGMPV3_RS_NON_QUERIER then
    { data with state := IGMPV3_RS_QUERIER }
  else data

/-- The timer of the group has expired. -/
def processRouterGroupTimer (data : RouterInterfaceData) (groupData : RouterGroupData) :
    Result RouterInterfaceData :=
  match groupData.filter with
  | IGMPV3_FM_INCLUDE => .ok (data.putGroupData groupData)
  | IGMPV3_FM_EXCLUDE => do
      let timerRunning ← RouterGroupData.anyRunning groupData.sources
      if timerRunning then
        .ok (data.putGroupData { groupData with filter := IGMPV3_FM_INCLUDE })
      else .ok (data.deleteGroupData groupData.groupAddr)

/-- The timer of the source has expired. -/
def processRouterSourceTimer (data : RouterInterfaceData) (groupData : RouterGroupData)
    (source : IPv4Address) : RouterInterfaceData :=
  let groupData :=
    match groupData.filter with
    | IGMPV3_FM_INCLUDE => groupData.deleteSourceRecord source
    | IGMPV3_FM_EXCLUDE => groupData
  let last := groupData.sources.all fun elem => !elem.running
  if last then data.deleteGroupData groupData.groupAddr else data.putGroupData groupData

/-- The record of the source, if its timer is scheduled. -/
def runningSource (data : RouterInterfaceData) (group source : IPv4Address) :
    Option RouterGroupData :=
  (data.findGroupData group).filter fun groupData =>
    groupData.sources.any fun elem => elem.sourceAddr == source && elem.running

/-- The group, if its timer is scheduled. -/
def runningGroup (data : RouterInterfaceData) (group : IPv4Address) : Option RouterGroupData :=
  (data.findGroupData group).filter RouterGroupData.running

/-- Nothing happens when a timer expires that is not scheduled. -/
def step (groupMembershipInterval : ℕ) (data : RouterInterfaceData) :
    Event → Result RouterInterfaceData
  | .report records => data.processReport groupMembershipInterval records
  | .query srcAddr groupAddr => data.processQuery srcAddr groupAddr
  | .generalQueryTimer => .ok data.processRouterGeneralQueryTimer
  | .groupTimer group =>
    match data.runningGroup group with
    | some groupData => data.processRouterGroupTimer { groupData with running := false }
    | none => .ok data
  | .sourceTimer group source =>
    match data.runningSource group source with
    | some groupData =>
      .ok (data.processRouterSourceTimer (groupData.stopSourceTimer source) source)
    | none => .ok data

end RouterInterfaceData

end Inet.Igmp
