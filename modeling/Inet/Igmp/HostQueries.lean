import Inet.Igmp.TimedGroupData

/-!
# Queries at a host

The host part of `processQuery` and the two response timers. A query is answered after a random
delay: a general query by the timer of the interface, other queries by the timer of the group,
which records the sources that have been asked for. An empty recorded list stands for the whole
group.

Times are the numbers `SimTime::raw()`.
-/

namespace Inet.Igmp

open Inet.Ipv4 (IPv4Address)
open FilterMode ReportType

namespace IPv4AddressVector

def sort (addresses : List IPv4Address) : List IPv4Address := addresses.insertionSort (· ≤ ·)

/-- `set_union` of sorted vectors: an element occurs as often as in the vector that has more of
it. -/
def setUnion (first second : List IPv4Address) : List IPv4Address :=
  sort (first ++ second.diff first)

end IPv4AddressVector

open IPv4AddressVector (sort setUnion)

/-- `HostGroupData` with its timer. -/
structure QueriedGroupData extends HostGroupData where
  queriedSources : List IPv4Address := []
  /-- The arrival time of `timer`, if it is scheduled. -/
  timer : Option ℤ := none

/-- `decodeTime` and the choice of the delay are left to the environment. -/
inductive HostQuery where
  | general
  | group (groupAddr : IPv4Address) (queriedSources : List IPv4Address)
deriving DecidableEq

namespace HostQuery

/-- A General Query has the unspecified address. -/
def groupAddr : HostQuery → IPv4Address
  | general => 0#32
  | group groupAddr _ => groupAddr

def queriedSources : HostQuery → List IPv4Address
  | general => []
  | group _ queriedSources => queriedSources

end HostQuery

namespace QueriedGroupData

def key (data : QueriedGroupData) : ℕ := data.groupAddr.toNat

/-- A record of the current filter. -/
def currentRecord (data : QueriedGroupData) : GroupRecord where
  recordType := if data.filter = IGMPV3_FM_INCLUDE then IGMPV3_RT_IS_IN else IGMPV3_RT_IS_EX
  groupAddress := data.groupAddr
  sourceList := data.sourceAddressList

/-- The record that `processHostGroupQueryTimer` sends. -/
def queriedRecord (data : QueriedGroupData) : GroupRecord :=
  if data.queriedSources.isEmpty then data.currentRecord
  else
    { recordType := IGMPV3_RT_IS_IN
      groupAddress := data.groupAddr
      sourceList :=
        if data.filter = IGMPV3_FM_INCLUDE then
          IPv4AddressVector.setIntersection data.sourceAddressList data.queriedSources
        else IPv4AddressVector.setComplement data.queriedSources data.sourceAddressList }

/-- The rules 3 to 5 of RFC 3376, section 5.2. -/
def schedule (data : QueriedGroupData) (now delay : ℤ) (queriedSources : List IPv4Address) :
    QueriedGroupData :=
  match data.timer with
  | none =>
    { data with queriedSources := sort queriedSources, timer := some (now + delay) }
  | some arrivalTime =>
    if queriedSources.isEmpty then
      { data with
        queriedSources := sort queriedSources
        timer := some (if arrivalTime > now + delay then now + delay else arrivalTime) }
    else if arrivalTime > now + delay then
      { data with
        queriedSources := setUnion data.queriedSources (sort queriedSources)
        timer := some (now + delay) }
    else data

end QueriedGroupData

/-- The groups are a map from addresses. -/
structure HostInterfaceData where
  groups : List QueriedGroupData := []
  /-- The arrival time of `generalQueryTimer`, if it is scheduled. -/
  generalQueryTimer : Option ℤ := none

namespace HostInterfaceData

def find (interfaceData : HostInterfaceData) (groupAddr : IPv4Address) : Option QueriedGroupData :=
  KeyedList.lookup QueriedGroupData.key interfaceData.groups groupAddr.toNat

def getOrCreateGroupData (interfaceData : HostInterfaceData) (groupAddr : IPv4Address) :
    QueriedGroupData :=
  (interfaceData.find groupAddr).getD { groupAddr }

/-- `data` becomes the data of its group. -/
def setGroupData (interfaceData : HostInterfaceData) (data : QueriedGroupData) :
    HostInterfaceData :=
  { interfaceData with
    groups := KeyedList.insert QueriedGroupData.key data
      (KeyedList.erase QueriedGroupData.key interfaceData.groups data.key) }

/-- Rule 1: a response to a General Query is pending, and comes sooner. -/
def AnsweredSooner (interfaceData : HostInterfaceData) (now delay : ℤ) : Prop :=
  ∃ arrivalTime ∈ interfaceData.generalQueryTimer, arrivalTime < now + delay
deriving Decidable

def processQuery (interfaceData : HostInterfaceData) (now delay : ℤ) (query : HostQuery) :
    HostInterfaceData :=
  if interfaceData.AnsweredSooner now delay then interfaceData
  else if query.groupAddr = 0#32 ∧ query.queriedSources.isEmpty then
    { interfaceData with generalQueryTimer := some (now + delay) }
  else if query.groupAddr ≠ 0#32 then
    interfaceData.setGroupData
      ((interfaceData.getOrCreateGroupData query.groupAddr).schedule now delay
        query.queriedSources)
  else interfaceData

/-- The records of the report, which is not sent if there are none. -/
def processHostGeneralQueryTimer (interfaceData : HostInterfaceData) :
    List GroupRecord × HostInterfaceData :=
  (interfaceData.groups.map QueriedGroupData.currentRecord,
    { interfaceData with generalQueryTimer := none })

def processHostGroupQueryTimer (interfaceData : HostInterfaceData) (data : QueriedGroupData) :
    Result (List GroupRecord × HostInterfaceData) := do
  let records ← HostGroupData.sendGroupReport [data.queriedRecord]
  .ok (records, interfaceData.setGroupData { data with queriedSources := [], timer := none })

/-- Nothing happens to groups of the link. -/
def multicastSourceListChanged (interfaceData : HostInterfaceData) (groupAddr : IPv4Address)
    (sourceList : IPv4MulticastSourceList) : Result (List GroupRecord × HostInterfaceData) := do
  let data := interfaceData.getOrCreateGroupData groupAddr
  let (records, changed) ← data.toHostGroupData.multicastSourceListChanged sourceList
  .ok (records, if isLinkLocalMulticast groupAddr then interfaceData
    else interfaceData.setGroupData { data with toHostGroupData := changed })

end HostInterfaceData

end Inet.Igmp
