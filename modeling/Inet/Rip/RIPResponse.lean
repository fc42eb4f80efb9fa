import Inet.Rip.SendRoutes

/-!
# Responses, and the events of a RIP module

`processResponse` goes through the entries of a response. A route that the entry improves, or that
came from its sender, is updated by `updateRoute`, which replaces the route of the routing table
that it refers to, whatever its source is.

`step` has the other events that change the routes: the module is started and stopped, other
modules add, change and delete routes of theirs, interfaces come and go, and updates are sent.
-/

namespace Inet.Rip

/-- What the interface table, the routing table and the address type tell about addresses. -/
structure Host where
  isLocalAddress : L3Address → Bool
  isNeighborAddress : L3Address → Bool
  isUnicast : L3Address → Bool
  isMulticast : L3Address → Bool
  isLinkLocal : L3Address → Bool
  maxPrefixLength : ℤ

/-- A response with its control information. -/
structure Response where
  srcPort : ℕ
  srcAddr : L3Address
  interfaceId : ℕ
  ttl : ℤ
  entries : List RIPEntry

namespace RIPRouting

variable (s : RIPRouting) (host : Host)

def isValidEntry (entry : RIPEntry) : Bool :=
  if entry.metric < 1 || entry.metric > RIP_INFINITE_METRIC then false
  else if !host.isUnicast entry.address then false
  else if s.mode == .RIPng then
    !host.isLinkLocal entry.address &&
      !(entry.prefixLength < 0 || entry.prefixLength > host.maxPrefixLength)
  else true

def isValidResponse (packet : Response) : Bool :=
  if packet.srcPort ≠ s.ripUdpPort then false
  else if host.isLocalAddress packet.srcAddr then false
  else if s.mode == .RIPng then
    host.isLinkLocal packet.srcAddr && packet.ttl == 255 && packet.entries.all (s.isValidEntry host)
  else host.isNeighborAddress packet.srcAddr && packet.entries.all (s.isValidEntry host)

/-- The routes of other modules, as the routing table has them. -/
def isForeign (route : IRoute) : Bool := route.source != .RIP

/-- `NF_ROUTE_DELETED` for a route of another module. -/
def routeDeleted (route : ℕ) : RIPRouting :=
  { s with ripRoutes := s.ripRoutes.map fun r =>
      if r.route = some route then invalidated r else r }

/-- Whether the routing table takes a route: the checks of `makeNetmask` and of the IPv4
`internalAddRoute`. -/
def checkRoute (mode : Mode) (dest : L3Address) (prefixLength : ℤ) : Result Unit :=
  let addr := dest.getD 0
  let hosts := 2 ^ (32 - prefixLength.toNat)
  if mode = .RIPng then .ok ()
  else if prefixLength < 0 ∨ prefixLength > 32 then
    throw (.cRuntimeError "IPv4Address: wrong netmask length %d (not in 0..32)")
  else if prefixLength ≠ 0 ∧ addr / hosts = 0 then
    throw (.cRuntimeError
      "addRoute(): all bits of destination address %s is 0 inside non zero netmask %s")
  else if addr % hosts ≠ 0 then
    throw (.cRuntimeError
      "addRoute(): suspicious route: destination IP address %s has bits set outside netmask %s")
  else .ok ()

/-- A default route takes the place of the one that an IPv4 table has, whatever its source.
`NF_ROUTE_DELETED` tells RIP about the routes of other modules only. -/
def deleteDefaultRoute (entry : ℕ) (prefixLength : ℤ) : RIPRouting :=
  if s.mode = .RIPv2 ∧ prefixLength = 0 then
    match s.rt.find? fun route => route.prefixLength == 0 && route.id != entry with
    | none => s
    | some oldDefaultRoute =>
      let t := { s with rt := s.rt.erase oldDefaultRoute }
      if isForeign oldDefaultRoute then t.routeDeleted oldDefaultRoute.id else t
  else s

/-- A new route of the routing table, which RIP is the source of, and its place. -/
def addRoute (dest : L3Address) (prefixLength : ℤ) (ie : Option ℕ) (nextHop : L3Address)
    (metric : ℤ) : Result (RIPRouting × ℕ) := do
  checkRoute s.mode dest prefixLength
  let t := s.deleteDefaultRoute s.nextRoute prefixLength
  .ok ({ t with
    rt := t.rt ++ [⟨s.nextRoute, .RIP, dest, prefixLength, nextHop, ie, metric⟩]
    nextRoute := s.nextRoute + 1 }, s.nextRoute)

/-- `addRoute` for a new learned route. -/
def addRipRoute (now : ℤ) (dest : L3Address) (prefixLength : ℤ) (ie : Option ℕ)
    (nextHop : L3Address) (metric : ℤ) (routeTag : ℕ) (source : L3Address) :
    Result RIPRouting := do
  let (s, route) ← s.addRoute dest prefixLength ie nextHop metric
  .ok { s with
    ripRoutes := s.ripRoutes ++ [{
      type := .RIP_ROUTE_RTE
      route := some route
      dest
      prefixLength
      nextHop
      ie
      from' := source
      metric
      tag := routeTag
      changed := true
      lastUpdateTime := now }] }

/-- A route is added to the routing table, and the RIP route refers to it. -/
def attachRoute (i : ℕ) (ripRoute : RIPRoute) (ie : Option ℕ) (nextHop : L3Address)
    (metric : ℤ) : Result RIPRouting := do
  let (s, route) ← s.addRoute ripRoute.dest ripRoute.prefixLength ie nextHop metric
  .ok (s.modifyRipRoute i ({ · with route := some route }))

/-- The part of `updateRoute` in which the route of the routing table is replaced. -/
def replaceRoute (i : ℕ) (ripRoute : RIPRoute) (ie : Option ℕ) (nextHop : L3Address)
    (metric : ℤ) : Result RIPRouting := do
  if ripRoute.metric = RIP_INFINITE_METRIC ∧ metric < RIP_INFINITE_METRIC then
    assert ripRoute.route.isNone "!ripRoute->getRoute()"
    let s := s.modifyRipRoute i ({ · with type := .RIP_ROUTE_RTE })
    (s.setNextHop i nextHop).attachRoute i ripRoute ie nextHop metric
  else if ripRoute.metric ≠ RIP_INFINITE_METRIC then
    match ripRoute.route with
    | none => throw (.assertion "route")
    | some route =>
      let s := (s.modifyRipRoute i ({ · with route := none })).deleteRoute route
      let s := s.setNextHop i nextHop
      if metric < RIP_INFINITE_METRIC then s.attachRoute i ripRoute ie nextHop metric
      else .ok s
  else .ok s

def updateRoute (now : ℤ) (i : ℕ) (ie : Option ℕ) (nextHop : L3Address) (metric : ℤ)
    (routeTag : ℕ) (source : L3Address) : Result RIPRouting :=
  match s.ripRoutes[i]? with
  | none => .error .outOfRange
  | some ripRoute => do
      let s := (s.setInterface i ie).setMetric i metric
      let s := s.modifyRipRoute i ({ · with from' := source, tag := routeTag })
      let s ← s.replaceRoute i ripRoute ie nextHop metric
      let s := s.modifyRipRoute i ({ · with changed := true })
      if metric = RIP_INFINITE_METRIC ∧ ripRoute.metric ≠ RIP_INFINITE_METRIC then
        .ok (s.invalidateRoute i)
      else .ok (s.modifyRipRoute i ({ · with lastUpdateTime := now }))

/-- The metric of a route that is learned from the entry. -/
def offeredMetric (incomingIe : RIPInterfaceEntry) (entry : RIPEntry) : ℤ :=
  min (entry.metric + incomingIe.metric) RIP_INFINITE_METRIC

/-- The comparison that decides whether a route is updated. -/
def isOverridden (metric : ℤ) (srcAddr : L3Address) (ripRoute : RIPRoute) : Bool :=
  (ripRoute.from' == srcAddr && ripRoute.metric != metric) || decide (metric < ripRoute.metric)

/-- The guard that keeps static and default routes. -/
def isKept (ripRoute : RIPRoute) : Bool :=
  (ripRoute.type == .RIP_ROUTE_STATIC || ripRoute.type == .RIP_ROUTE_DEFAULT) &&
    ripRoute.metric != RIP_INFINITE_METRIC

/-- The RIP route to the destination of an entry. -/
def routeTo (entry : RIPEntry) : Option ℕ :=
  s.findRoute fun route => route.dest == entry.address && route.prefixLength == entry.prefixLength

def processEntry (now : ℤ) (incomingIe : RIPInterfaceEntry) (srcAddr : L3Address)
    (s : RIPRouting) (entry : RIPEntry) : Result RIPRouting :=
  let metric := offeredMetric incomingIe entry
  let nextHop := if entry.nextHop.isNone then srcAddr else entry.nextHop
  match s.routeTo entry with
  | some i =>
    match s.ripRoutes[i]? with
    | none => .error .outOfRange
    | some ripRoute =>
      if isKept ripRoute then .ok s
      else
        let s := if ripRoute.from' = srcAddr then
            s.modifyRipRoute i ({ · with lastUpdateTime := now })
          else s
        if isOverridden metric srcAddr ripRoute then
          s.updateRoute now i (some incomingIe.ie.interfaceId) nextHop metric entry.routeTag
            srcAddr
        else .ok s
  | none =>
    if metric ≠ RIP_INFINITE_METRIC then
      s.addRipRoute now entry.address entry.prefixLength
        (some incomingIe.ie.interfaceId) nextHop metric entry.routeTag srcAddr
    else .ok s

def processResponse (now : ℤ) (packet : Response) : Result RIPRouting :=
  if !s.isValidResponse host packet then .ok s
  else
    match s.findInterfaceById packet.interfaceId with
    | none => .ok s
    | some incomingIe => packet.entries.foldlM (processEntry now incomingIe packet.srcAddr) s

/-- A new RIP route for a route of the routing table. -/
def importRoute (route : IRoute) (type : RouteType) (ie : Option ℕ) (metric : ℤ) :
    Result RIPRouting := do
  assert (metric < RIP_INFINITE_METRIC) "metric < RIP_INFINITE_METRIC"
  .ok { s with
    ripRoutes := s.ripRoutes ++ [{
      type
      route := some route.id
      dest := route.destination
      prefixLength := route.prefixLength
      nextHop := route.nextHop
      ie
      metric }] }

def getInterfaceMetric (ie : InterfaceEntry) : ℤ :=
  match s.findInterfaceById ie.interfaceId with
  | some ripIe => ripIe.metric
  | none => 1

/-- The RIP route for a route that the routing table has when the module is started. -/
def importInitialRoute (s : RIPRouting) (route : IRoute) : Result RIPRouting :=
  match route.source with
  | .interface ie =>
    if ie.isLoopback then .ok s
    else s.importRoute route .RIP_ROUTE_INTERFACE (some ie.interfaceId) (s.getInterfaceMetric ie)
  | _ =>
    if route.prefixLength = 0 then s.importRoute route .RIP_ROUTE_DEFAULT route.interface 1
    else if !host.isMulticast route.destination && !host.isLinkLocal route.destination then
      s.importRoute route .RIP_ROUTE_STATIC route.interface 1
    else .ok s

def configureInitialRoutes : Result RIPRouting :=
  s.rt.foldlM (importInitialRoute host) s

/-- `NF_ROUTE_ADDED` for a route of another module. -/
def routeAdded (route : IRoute) : Result RIPRouting :=
  match route.source with
  | .interface ie =>
    if ie.isLoopback then .ok s
    else
      let isInterfaceRoute := fun r : RIPRoute =>
        r.type == .RIP_ROUTE_INTERFACE && r.ie == some ie.interfaceId
      match s.findRoute isInterfaceRoute with
      | some i =>
        let s := s.modifyRipRoute i ({ · with route := some route.id })
        let s := s.setMetric i (s.getInterfaceMetric ie)
        .ok (s.modifyRipRoute i ({ · with changed := true }))
      | none =>
        s.importRoute route .RIP_ROUTE_INTERFACE (some ie.interfaceId) (s.getInterfaceMetric ie)
  | _ => .ok s

/-- `NF_ROUTE_CHANGED` for a route of another module. -/
def routeChanged (route : IRoute) : RIPRouting :=
  match s.findRoute fun r => r.route == some route.id with
  | none => s
  | some i =>
    let changed := fun r : RIPRoute => route.destination != r.dest ||
      route.prefixLength != r.prefixLength || route.nextHop != r.nextHop ||
      route.interface != r.ie
    let hasChanged := (s.ripRoutes[i]?.map changed).getD false
    let s := s.modifyRipRoute i
      ({ · with dest := route.destination, prefixLength := route.prefixLength })
    let s := (s.setNextHop i route.nextHop).setInterface i route.interface
    if hasChanged then s.modifyRipRoute i ({ · with changed := true }) else s

def deleteInterface (ie : ℕ) : RIPRouting :=
  { s with
    ripInterfaces := s.ripInterfaces.filter fun elem => elem.ie.interfaceId ≠ ie
    ripRoutes := s.ripRoutes.filter fun route => route.ie ≠ some ie }

/-- The routes with the property are invalidated one after another. -/
def invalidateRoutes (p : RIPRoute → Bool) : RIPRouting :=
  (List.range s.ripRoutes.length).foldl (fun s i =>
    if (s.ripRoutes[i]?.map p).getD false then s.invalidateRoute i else s) s

/-- What happens to the module. -/
inductive Event where
  | start (ripInterfaces : List RIPInterfaceEntry)
  | stop
  | interfaceCreated (ripInterface : RIPInterfaceEntry)
  | interfaceDeleted (ie : ℕ)
  | interfaceDown (ie : ℕ)
  /-- Another module adds, changes or deletes a route of its own. -/
  | routeAdded (route : IRoute)
  | routeChanged (route : IRoute)
  | routeDeleted (route : ℕ)
  /-- An update is sent on an interface. -/
  | send (now : ℤ) (ripInterface : RIPInterfaceEntry) (changedOnly : Bool)
  | clearChanged
  | shutdown
  | response (now : ℤ) (packet : Response)

def step (host : Host) (s : RIPRouting) : Event → Result RIPRouting
  | .start ripInterfaces => { s with ripInterfaces }.configureInitialRoutes host
  | .stop => .ok { s with ripRoutes := [], ripInterfaces := [] }
  | .interfaceCreated ripInterface =>
    .ok { s with ripInterfaces := s.ripInterfaces ++ [ripInterface] }
  | .interfaceDeleted ie => .ok (s.deleteInterface ie)
  | .interfaceDown ie => .ok (s.invalidateRoutes fun route => route.ie == some ie)
  | .routeAdded route =>
    if isForeign route then
      let route := { route with id := s.nextRoute }
      let s := s.deleteDefaultRoute route.id route.prefixLength
      { s with rt := s.rt ++ [route], nextRoute := s.nextRoute + 1 }.routeAdded route
    else .ok s
  | .routeChanged route =>
    if isForeign route && s.rt.any fun r => r.id == route.id && isForeign r then
      let rt := s.rt.map fun r =>
        if r.id = route.id ∧ isForeign r then { route with source := r.source } else r
      let s := { s with rt }.deleteDefaultRoute route.id route.prefixLength
      .ok (s.routeChanged route)
    else .ok s
  | .routeDeleted route =>
    if s.rt.any fun r => r.id == route && isForeign r then
      .ok ((s.deleteRoute route).routeDeleted route)
    else .ok s
  | .send now ripInterface changedOnly => do
      let (s, _) ← s.sendRoutes now ripInterface changedOnly
      .ok s
  | .clearChanged =>
    .ok { s with ripRoutes := s.ripRoutes.map ({ · with changed := false }) }
  | .shutdown => .ok (s.invalidateRoutes fun _ => true)
  | .response now packet => s.processResponse host now packet

end RIPRouting

end Inet.Rip
