import Inet.Igmp.WantedSources

/-!
# Group records with the times of the timers

The model of `processReport` for one group record, with the arrival times of the timers and the
queries that the router sends.
-/

namespace Inet.Igmp

open Inet.Ipv4 (IPv4Address)
open FilterMode ReportType RouterState

/-- `set_difference` of sorted vectors: each element of the second one takes away one element. -/
def IPv4AddressVector.setComplement (first second : List IPv4Address) : List IPv4Address :=
  first.diff second

/-- `set_intersection` of sorted vectors. -/
def IPv4AddressVector.setIntersection (first second : List IPv4Address) : List IPv4Address :=
  first.bagInter second

structure TimedSourceRecord where
  sourceAddr : IPv4Address
  /-- The arrival time of `sourceTimer`, if it is scheduled. -/
  sourceTimer : Option ℕ := none

def TimedSourceRecord.key (elem : TimedSourceRecord) : ℕ := elem.sourceAddr.toNat

structure TimedGroupData where
  groupAddr : IPv4Address
  filter : FilterMode := IGMPV3_FM_INCLUDE
  /-- The arrival time of `timer`, if it is scheduled. -/
  timer : Option ℕ := none
  sources : List TimedSourceRecord := []

/-- What the router sends to the group. -/
inductive RouterQuery where
  | groupSpecific (suppressRouterProc : Bool)
  | groupAndSourceSpecific (sources : List IPv4Address)

/-- The parameters of the router, the time, and the state of the interface. -/
structure RouterContext where
  groupMembershipInterval : ℕ
  lastMemberQueryTime : ℕ
  simTime : ℕ
  state : RouterState

namespace TimedGroupData

def hasSourceRecord (groupData : TimedGroupData) (source : IPv4Address) : Bool :=
  (KeyedList.lookup TimedSourceRecord.key groupData.sources source.toNat).isSome

def createSourceRecord (groupData : TimedGroupData) (source : IPv4Address) : TimedGroupData :=
  { groupData with
    sources := KeyedList.insert TimedSourceRecord.key { sourceAddr := source } groupData.sources }

def deleteSourceRecord (groupData : TimedGroupData) (source : IPv4Address) : TimedGroupData :=
  { groupData with
    sources := KeyedList.erase TimedSourceRecord.key groupData.sources source.toNat }

/-- `getOrCreateSourceRecord` and `startTimer`. -/
def startSourceTimer (arrival : ℕ) (groupData : TimedGroupData) (source : IPv4Address) :
    TimedGroupData :=
  { groupData with
    sources := KeyedList.insert TimedSourceRecord.key
      { sourceAddr := source, sourceTimer := some arrival }
      (KeyedList.erase TimedSourceRecord.key groupData.sources source.toNat) }

def startTimer (arrival : ℕ) (groupData : TimedGroupData) : TimedGroupData :=
  { groupData with timer := some arrival }

/-- The sources with a record. -/
def sourceAddrs (groupData : TimedGroupData) : List IPv4Address :=
  groupData.sources.map TimedSourceRecord.sourceAddr

/-- The sources without a running timer. -/
def stoppedAddrs (groupData : TimedGroupData) : List IPv4Address :=
  (groupData.sources.filter fun elem => elem.sourceTimer.isNone).map TimedSourceRecord.sourceAddr

/-- The sources with a running timer. -/
def runningAddrs (groupData : TimedGroupData) : List IPv4Address :=
  (groupData.sources.filter fun elem => elem.sourceTimer.isSome).map TimedSourceRecord.sourceAddr

def sendGroupSpecificQuery (ctx : RouterContext) (groupData : TimedGroupData) :
    TimedGroupData × List RouterQuery :=
  let suppressFlag := groupData.timer.any fun arrival =>
    arrival > ctx.simTime + ctx.lastMemberQueryTime
  (groupData.startTimer (ctx.simTime + ctx.lastMemberQueryTime),
    if ctx.state = IGMPV3_RS_QUERIER then [.groupSpecific suppressFlag] else [])

def sendGroupAndSourceSpecificQuery (ctx : RouterContext) (sources : List IPv4Address) :
    List RouterQuery :=
  if ctx.state = IGMPV3_RS_QUERIER then [.groupAndSourceSpecific sources] else []

/-- There is a query if there are sources. -/
def querySources (ctx : RouterContext) (sources : List IPv4Address) : List RouterQuery :=
  if sources.isEmpty then [] else sendGroupAndSourceSpecificQuery ctx sources

/-- The time of a timer that is set to the group membership interval. -/
def membershipEnd (ctx : RouterContext) : ℕ := ctx.simTime + ctx.groupMembershipInterval

def startSourceTimers (ctx : RouterContext) (groupData : TimedGroupData)
    (receivedSources : List IPv4Address) : TimedGroupData :=
  receivedSources.foldl (startSourceTimer (membershipEnd ctx)) groupData

/-- The loop of IS_EX erases the record at its iterator. -/
def deleteOthers (groupData : TimedGroupData) (receivedSources : List IPv4Address) :
    Result TimedGroupData :=
  if groupData.sources.all fun elem => receivedSources.contains elem.sourceAddr then .ok groupData
  else .error .invalidIterator

/-- The sources that have no record get one, and its timer is started if a time is given. -/
def createMissing (groupData : TimedGroupData) (receivedSources : List IPv4Address)
    (arrival : Option ℕ) : TimedGroupData :=
  receivedSources.foldl (fun groupData receivedSource =>
    if groupData.hasSourceRecord receivedSource then groupData
    else match arrival with
      | some arrival => groupData.startSourceTimer arrival receivedSource
      | none => groupData.createSourceRecord receivedSource) groupData

def processIsEx (ctx : RouterContext) (groupData : TimedGroupData)
    (receivedSources : List IPv4Address) : Result (TimedGroupData × List RouterQuery) := do
  let groupData ← (groupData.startTimer (membershipEnd ctx)).deleteOthers receivedSources
  let timerValue :=
    if groupData.filter = IGMPV3_FM_INCLUDE then 0 else ctx.groupMembershipInterval
  let groupData := groupData.createMissing receivedSources
    (if timerValue > 0 then some (membershipEnd ctx) else none)
  .ok ({ groupData with filter := IGMPV3_FM_EXCLUDE }, [])

def processBlock (ctx : RouterContext) (groupData : TimedGroupData)
    (receivedSources : List IPv4Address) : TimedGroupData × List RouterQuery :=
  match groupData.filter with
  | IGMPV3_FM_INCLUDE =>
    (groupData, querySources ctx
      (IPv4AddressVector.setIntersection groupData.sourceAddrs receivedSources))
  | IGMPV3_FM_EXCLUDE =>
    -- the loop asks whether the sources that have a record have one
    let groupData := groupData.createMissing groupData.sourceAddrs groupData.timer
    (groupData, querySources ctx
      (IPv4AddressVector.setComplement receivedSources groupData.stoppedAddrs))

def processToIn (ctx : RouterContext) (groupData : TimedGroupData)
    (receivedSources : List IPv4Address) : TimedGroupData × List RouterQuery :=
  match groupData.filter with
  | IGMPV3_FM_INCLUDE =>
    let groupData := groupData.startSourceTimers ctx receivedSources
    (groupData, querySources ctx
      (IPv4AddressVector.setComplement groupData.sourceAddrs receivedSources))
  | IGMPV3_FM_EXCLUDE =>
    let sourcesX := groupData.runningAddrs
    let (groupData, groupQuery) :=
      sendGroupSpecificQuery ctx (groupData.startSourceTimers ctx receivedSources)
    (groupData, querySources ctx
      (IPv4AddressVector.setComplement sourcesX receivedSources) ++ groupQuery)

/-- The loop of TO_EX in EXCLUDE mode. It looks at the source behind the record that it is about
to delete, and in the last round at the end of the map. -/
def deleteByNext (receivedSources : List IPv4Address) :
    List TimedSourceRecord → TimedGroupData → Result TimedGroupData
  | [], groupData => .ok groupData
  | [_], _ => .error .invalidIterator
  | rec :: next :: rest, groupData =>
    deleteByNext receivedSources (next :: rest)
      (if receivedSources.contains next.sourceAddr then groupData
      else groupData.deleteSourceRecord rec.sourceAddr)

/-- The loop of TO_EX in INCLUDE mode that deletes the sources in its list. -/
def deleteUnless (receivedSources : List IPv4Address) (groupData : TimedGroupData)
    (sourcesA : List IPv4Address) : TimedGroupData :=
  sourcesA.foldl (fun groupData elem =>
    if receivedSources.contains elem then groupData else groupData.deleteSourceRecord elem)
    groupData

def processToEx (ctx : RouterContext) (groupData : TimedGroupData)
    (receivedSources : List IPv4Address) : Result (TimedGroupData × List RouterQuery) :=
  match groupData.filter with
  | IGMPV3_FM_INCLUDE =>
    let sourcesA := groupData.sourceAddrs
    let groupData :=
      { groupData.startTimer (membershipEnd ctx) with filter := IGMPV3_FM_EXCLUDE }
    .ok ((groupData.createMissing receivedSources none).deleteUnless receivedSources sourcesA,
      querySources ctx (IPv4AddressVector.setIntersection sourcesA receivedSources))
  | IGMPV3_FM_EXCLUDE => do
      let sourcesY := groupData.stoppedAddrs
      let groupData ← deleteByNext receivedSources groupData.sources
        (groupData.startTimer (membershipEnd ctx))
      -- "FIXME should be set to Group Timer"
      .ok (groupData.createMissing receivedSources (some (membershipEnd ctx)),
        querySources ctx (IPv4AddressVector.setComplement receivedSources sourcesY))

def processRecord (ctx : RouterContext) (groupData : TimedGroupData)
    (receivedSources : List IPv4Address) :
    ReportType → Result (TimedGroupData × List RouterQuery)
  | IGMPV3_RT_IS_IN => .ok (groupData.startSourceTimers ctx receivedSources, [])
  | IGMPV3_RT_IS_EX => groupData.processIsEx ctx receivedSources
  | IGMPV3_RT_ALLOW => .ok (groupData.startSourceTimers ctx receivedSources, [])
  | IGMPV3_RT_BLOCK => .ok (groupData.processBlock ctx receivedSources)
  | IGMPV3_RT_TO_IN => .ok (groupData.processToIn ctx receivedSources)
  | IGMPV3_RT_TO_EX => groupData.processToEx ctx receivedSources

/-- A group record whose sources come in any order. -/
def processGroupRecord (ctx : RouterContext) (groupData : TimedGroupData)
    (sourceList : List IPv4Address) (recordType : ReportType) :
    Result (TimedGroupData × List RouterQuery) :=
  groupData.processRecord ctx (sourceList.insertionSort (· ≤ ·)) recordType

variable {groupData : TimedGroupData} {ctx : RouterContext}
  {receivedSources : List IPv4Address}

/-- If the sources have records already, nothing happens. -/
theorem createMissing_of_has {arrival : Option ℕ}
    (h : ∀ source ∈ receivedSources, groupData.hasSourceRecord source = true) :
    groupData.createMissing receivedSources arrival = groupData := by
  rw [createMissing]
  induction receivedSources with
  | nil => rfl
  | cons source rest ih =>
    rw [List.foldl_cons, if_pos (h source List.mem_cons_self)]
    exact ih fun source hsource => h source (List.mem_cons_of_mem _ hsource)

theorem hasSourceRecord_iff {source : IPv4Address} :
    groupData.hasSourceRecord source = true ↔ source ∈ groupData.sourceAddrs := by
  rw [hasSourceRecord, Option.isSome_iff_ne_none, Ne, KeyedList.lookup_eq_none, sourceAddrs,
    List.mem_map]
  push Not
  simp only [TimedSourceRecord.key, BitVec.toNat_inj]

/-- A block record leaves the group as it is. -/
theorem processBlock_fst : (groupData.processBlock ctx receivedSources).1 = groupData := by
  rw [processBlock]
  cases groupData.filter with
  | IGMPV3_FM_INCLUDE => rfl
  | IGMPV3_FM_EXCLUDE => exact createMissing_of_has fun _ => hasSourceRecord_iff.mpr

end TimedGroupData

end Inet.Igmp
