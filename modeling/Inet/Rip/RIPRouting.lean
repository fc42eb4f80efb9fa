import Inet.Common.Basic

/-!
# Routes and packets of RIP

`RIPRouting` keeps a vector of RIP routes. A route refers to the route of the host's routing table
that it stands for: one with the type of learned routes to a route that RIP has added, and one with
another type to a route that has another source. A route of the routing table is known by its place
in memory, which is a number here; no number is used twice.

Addresses are only compared, and `none` is the unspecified one. Timers are left out.
-/

namespace Inet.Rip

abbrev L3Address := Option ℕ

def RIP_INFINITE_METRIC : ℤ := 16
def RIP_HEADER_SIZE : ℤ := 4
def RIP_RTE_SIZE : ℤ := 20

inductive RouteType where
  | RIP_ROUTE_RTE
  | RIP_ROUTE_STATIC
  | RIP_ROUTE_DEFAULT
  | RIP_ROUTE_REDISTRIBUTE
  | RIP_ROUTE_INTERFACE
deriving DecidableEq

inductive RIPMode where
  | NO_RIP
  | NO_SPLIT_HORIZON
  | SPLIT_HORIZON
  | SPLIT_HORIZON_POISONED_REVERSE
deriving DecidableEq

inductive Mode where
  | RIPv2
  | RIPng
deriving DecidableEq

theorem ethernetMtu_lt : 1500 < 2 ^ 31 := by decide

structure InterfaceEntry where
  interfaceId : ℕ
  mtu : ℕ
  isLoopback : Bool := false
  /-- The MTU is an `int`. -/
  mtu_lt : mtu < 2 ^ 31 := by first | exact ethernetMtu_lt | decide
deriving DecidableEq

/-- The source of a route of the routing table: this module, an interface, or anything else. -/
inductive Source where
  | RIP
  | interface (ie : InterfaceEntry)
  | other
deriving DecidableEq

/-- A route of the routing table. -/
structure IRoute where
  id : ℕ
  source : Source
  destination : L3Address
  prefixLength : ℤ
  nextHop : L3Address
  interface : Option ℕ
  metric : ℤ
deriving DecidableEq

structure RIPRoute where
  type : RouteType
  /-- The route of the routing table, if there is one. -/
  route : Option ℕ
  dest : L3Address
  prefixLength : ℤ
  nextHop : L3Address
  ie : Option ℕ
  from' : L3Address := none
  metric : ℤ
  tag : ℕ := 0
  changed : Bool := false
  lastUpdateTime : ℤ := 0

theorem defaultMetric_pos : (1 : ℤ) ≤ 1 := by decide

theorem defaultMetric_lt : 1 < RIP_INFINITE_METRIC := by decide

/-- The configuration of an interface; `configure` checks the metric. -/
structure RIPInterfaceEntry where
  ie : InterfaceEntry
  metric : ℤ := 1
  mode : RIPMode
  metric_pos : 1 ≤ metric := by first | exact defaultMetric_pos | decide
  metric_lt : metric < RIP_INFINITE_METRIC := by first | exact defaultMetric_lt | decide

def RIP_AF_INET : ℕ := 2

structure RIPEntry where
  addressFamilyId : ℕ := RIP_AF_INET
  address : L3Address
  prefixLength : ℤ
  nextHop : L3Address
  routeTag : ℕ
  metric : ℤ
deriving DecidableEq

/-- A response; an entry that has not been filled in is `none`. -/
structure RIPPacket where
  entries : List (Option RIPEntry) := []

namespace RIPPacket

/-- The size is an `unsigned int`. -/
def setEntryArraySize (packet : RIPPacket) (size : ℤ) : RIPPacket :=
  let n := (size % 2 ^ 32).toNat
  ⟨packet.entries.take n ++ List.replicate (n - packet.entries.length) none⟩

/-- Assignment to `getEntry(k)`. -/
def setEntry (packet : RIPPacket) (k : ℕ) (entry : RIPEntry) : Result RIPPacket :=
  if k < packet.entries.length then .ok ⟨packet.entries.set k (some entry)⟩
  else throw (.cRuntimeError "Array of size %d indexed by %d")

end RIPPacket

structure RIPRouting where
  mode : Mode := .RIPv2
  ripUdpPort : ℕ := 520
  routeExpiryTime : ℤ := 180
  routePurgeTime : ℤ := 120
  ripInterfaces : List RIPInterfaceEntry := []
  ripRoutes : List RIPRoute := []
  /-- The routing table of the host: of IPv4 for RIPv2, and of IPv6 for RIPng. -/
  rt : List IRoute := []
  /-- The place of the next route that is created. -/
  nextRoute : ℕ := 0

namespace RIPRouting

variable (s : RIPRouting)

def modifyRipRoute (i : ℕ) (f : RIPRoute → RIPRoute) : RIPRouting :=
  { s with ripRoutes := s.ripRoutes.modify i f }

/-- A setter of a RIP route that passes the value on to the route of a learned route. -/
def setThrough (i : ℕ) (f : RIPRoute → RIPRoute) (g : IRoute → IRoute) : RIPRouting :=
  let s' := s.modifyRipRoute i f
  match s.ripRoutes[i]? with
  | some { type := .RIP_ROUTE_RTE, route := some id, .. } =>
    { s' with rt := s'.rt.map fun route => if route.id = id then g route else route }
  | _ => s'

def setNextHop (i : ℕ) (nextHop : L3Address) : RIPRouting :=
  s.setThrough i ({ · with nextHop }) ({ · with nextHop })

def setInterface (i : ℕ) (ie : Option ℕ) : RIPRouting :=
  s.setThrough i ({ · with ie }) ({ · with interface := ie })

def setMetric (i : ℕ) (metric : ℤ) : RIPRouting :=
  s.setThrough i ({ · with metric }) ({ · with metric })

/-- `rt->deleteRoute(route)`; nothing happens if the table does not have it. -/
def deleteRoute (route : ℕ) : RIPRouting :=
  { s with rt := s.rt.filter fun r => r.id ≠ route }

/-- The place of the first RIP route with the property. -/
def findRoute (p : RIPRoute → Bool) : Option ℕ := s.ripRoutes.findIdx? p

def findInterfaceById (interfaceId : ℕ) : Option RIPInterfaceEntry :=
  s.ripInterfaces.find? fun elem => elem.ie.interfaceId == interfaceId

/-- The route of the routing table that a RIP route refers to is deleted. -/
def dropRoute (i : ℕ) : RIPRouting :=
  match s.ripRoutes[i]? with
  | some { route := some id, .. } => (s.modifyRipRoute i ({ · with route := none })).deleteRoute id
  | _ => s

def invalidateRoute (i : ℕ) : RIPRouting :=
  ((s.dropRoute i).setMetric i RIP_INFINITE_METRIC).modifyRipRoute i ({ · with changed := true })

def purgeRoute (i : ℕ) : RIPRouting :=
  let s := s.dropRoute i
  { s with ripRoutes := s.ripRoutes.eraseIdx i }

/-- Whether the route is to be removed. -/
def isDueForPurge (now : ℤ) (route : RIPRoute) : Bool :=
  route.type == .RIP_ROUTE_RTE &&
    decide (now ≥ route.lastUpdateTime + s.routeExpiryTime + s.routePurgeTime)

/-- Whether the route has not been confirmed in time. -/
def isExpired (now : ℤ) (route : RIPRoute) : Bool :=
  route.type == .RIP_ROUTE_RTE && decide (now ≥ route.lastUpdateTime + s.routeExpiryTime)

/-- A pointer to the `i`-th route is returned if it is valid. -/
def checkRouteIsExpired (now : ℤ) (i : ℕ) : Result (RIPRouting × Option RIPRoute) :=
  match s.ripRoutes[i]? with
  | none => .error .outOfRange
  | some route =>
    if s.isDueForPurge now route then .ok (s.purgeRoute i, none)
    else if s.isExpired now route then .ok (s.invalidateRoute i, none)
    else .ok (s, some route)

end RIPRouting

/-- The entry for a route in an update that is sent on an interface, if it is not left out there. -/
def advertised (ripInterface : RIPInterfaceEntry) (changedOnly : Bool) (route : RIPRoute) :
    Option RIPEntry :=
  if changedOnly && !route.changed then none
  else
    let entry := fun metric => some
      ⟨RIP_AF_INET, route.dest, route.prefixLength, none, route.tag, metric⟩
    if route.ie = some ripInterface.ie.interfaceId then
      match ripInterface.mode with
      | .SPLIT_HORIZON => none
      | .SPLIT_HORIZON_POISONED_REVERSE => entry RIP_INFINITE_METRIC
      | _ => entry route.metric
    else entry route.metric

namespace RIPRouting

/-- The variables of the loop in `sendRoutes`, and the packets that have been sent. -/
structure Sending where
  table : RIPRouting
  sent : List RIPPacket
  packet : RIPPacket
  k : ℕ

def maxEntries (mode : Mode) (ripInterface : RIPInterfaceEntry) : ℤ :=
  match mode with
  | .RIPv2 => 25
  | .RIPng => (ripInterface.ie.mtu - 40 - 8 - RIP_HEADER_SIZE).tdiv RIP_RTE_SIZE

/-- The next entry is filled in; a packet that is full is sent, and a new one is allocated. -/
def Sending.fill (sending : Sending) (maxEntries : ℤ) (entry : RIPEntry) : Result Sending := do
  let packet ← sending.packet.setEntry sending.k entry
  let k := sending.k + 1
  if k ≥ maxEntries then
    .ok { sending with
      sent := sending.sent ++ [packet]
      packet := RIPPacket.setEntryArraySize {} maxEntries
      k := 0 }
  else .ok { sending with packet, k }

/-- One round, for the `i`-th element of the vector. Erasing an element invalidates the iterators
of the loop. -/
def sendRoute (now : ℤ) (ripInterface : RIPInterfaceEntry) (changedOnly : Bool) (maxEntries : ℤ)
    (sending : Sending) (i : ℕ) : Result Sending := do
  let (table, ripRoute) ← sending.table.checkRouteIsExpired now i
  if table.ripRoutes.length ≠ sending.table.ripRoutes.length then .error .invalidIterator
  else
    match ripRoute.bind (advertised ripInterface changedOnly) with
    | none => .ok { sending with table }
    | some entry => ({ sending with table } : Sending).fill maxEntries entry

/-- The table after `sendRoutes`, and the packets that it sends to the given address. -/
def sendRoutes (s : RIPRouting) (now : ℤ) (ripInterface : RIPInterfaceEntry)
    (changedOnly : Bool) : Result (RIPRouting × List RIPPacket) := do
  let maxEntries := maxEntries s.mode ripInterface
  let sending ← (List.range s.ripRoutes.length).foldlM
    (sendRoute now ripInterface changedOnly maxEntries)
    ⟨s, [], RIPPacket.setEntryArraySize {} maxEntries, 0⟩
  if sending.k > 0 then
    .ok (sending.table, sending.sent ++ [sending.packet.setEntryArraySize sending.k])
  else .ok (sending.table, sending.sent)

end RIPRouting

end Inet.Rip
