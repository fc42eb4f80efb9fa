import Inet.Ipv4.IPv4Route
import Inet.Library.Callback
import Inet.Library.Lists

/-!
# The IPv4 routing table

`IPv4RoutingTable` keeps its routes in a vector that `routeLessThan` sorts, so that the first
matching route is the best one, and the results of its searches in `routingCache`. A method that
changes the table notifies listeners, which may look up routes before the method goes on.

A pointer to a route is the route's `id`. The cache may hold pointers to routes that are no
longer in the table: `object` is what such a pointer leads to.
-/

namespace Inet.Ipv4

open Callback

/-- The `NF_ROUTE_*` signals. -/
inductive RouteSignal where
  | NF_ROUTE_ADDED
  | NF_ROUTE_DELETED
  | NF_ROUTE_CHANGED
deriving DecidableEq

/-- The methods that emit them. -/
inductive Emitter where
  | addRoute
  | removeRoute
  | deleteRoute
  | routeChanged
  | purge
  | updateNetmaskRoutes
deriving DecidableEq

structure Notification where
  signal : RouteSignal
  route : IPv4Route
  emitter : Emitter

structure IPv4RoutingTable where
  useAdminDist : Bool := false
  /-- Sorted by netmask desc, dest asc, metric asc. -/
  routes : List IPv4Route := []
  routingCache : List (IPv4Address × Option ℕ) := []
  /-- A route that is no longer in the vector and will be deleted when the listeners return. -/
  erased : Option IPv4Route := none
  /-- The identity of the next route to be allocated. -/
  nextId : ℕ := 0
  simTime : ℕ := 0

namespace IPv4RoutingTable

/-- A method that is called on the table and may call listeners. -/
abbrev Method (α : Type) := Progress IPv4RoutingTable Notification Error α

def routeLessThan (table : IPv4RoutingTable) (a b : IPv4Route) : Bool :=
  IPv4Route.routeLessThan table.useAdminDist a b

def invalidateCache (table : IPv4RoutingTable) : IPv4RoutingTable :=
  { table with routingCache := [] }

/-- The route that a pointer leads to. -/
def object (table : IPv4RoutingTable) (id : ℕ) : Option IPv4Route :=
  (table.routes.find? (·.id == id)).or (table.erased.filter (·.id == id))

def search (table : IPv4RoutingTable) (dest : IPv4Address) : Option IPv4Route :=
  table.routes.find? fun e =>
    e.isValid table.simTime && IPv4Address.maskedAddrAreEqual dest e.dest e.netmask

def searchRoutes (table : IPv4RoutingTable) (dest : IPv4Address) : Option ℕ × IPv4RoutingTable :=
  let bestRoute := (table.search dest).map IPv4Route.id
  (bestRoute, { table with routingCache := (dest, bestRoute) :: table.routingCache })

def findBestMatchingRoute (table : IPv4RoutingTable) (dest : IPv4Address) :
    Result (Option ℕ × IPv4RoutingTable) :=
  match table.routingCache.lookup dest with
  | some none => .ok (none, table)
  | some (some id) =>
    match table.object id with
    | some route =>
      if route.isValid table.simTime then .ok (some id, table)
      else .ok (table.searchRoutes dest)
    | none => .error .danglingPointer
  | none => .ok (table.searchRoutes dest)

/-- If a default route exists, it is the last valid entry. -/
def getDefaultRoute (table : IPv4RoutingTable) : Option IPv4Route :=
  (table.routes.reverse.takeWhile fun e => e.netmask.isUnspecified).find?
    fun e => e.isValid table.simTime

def eraseRoute (table : IPv4RoutingTable) (entry : ℕ) : IPv4RoutingTable :=
  { table with routes := table.routes.eraseP (·.id == entry) }

def insertRoute (table : IPv4RoutingTable) (entry : IPv4Route) : IPv4RoutingTable :=
  { table with routes := table.routes.insertUpper table.routeLessThan entry }

def internalRemoveRoute (table : IPv4RoutingTable) (entry : ℕ) :
    Option (IPv4Route × IPv4RoutingTable) :=
  (table.routes.find? (·.id == entry)).map fun route => (route, table.eraseRoute entry)

/-- `emit(NF_ROUTE_DELETED, route)` before the object goes away. -/
def emitDeleted {α : Type} (emitter : Emitter) (route : IPv4Route) (table : IPv4RoutingTable)
    (next : IPv4RoutingTable → Method α) : Method α :=
  .notify ⟨.NF_ROUTE_DELETED, route, emitter⟩ { table with erased := some route }
    fun table => next { table with erased := none }

def removeRoute (table : IPv4RoutingTable) (entry : ℕ) : Method (Option IPv4Route) :=
  match table.internalRemoveRoute entry with
  | some (route, table) =>
    emitDeleted .removeRoute route table.invalidateCache fun table => .done (some route) table
  | none => .done none table

def deleteRoute (table : IPv4RoutingTable) (entry : ℕ) : Method Bool :=
  match table.internalRemoveRoute entry with
  | some (route, table) =>
    emitDeleted .deleteRoute route table.invalidateCache fun table => .done true table
  | none => .done false table

/-- A new default route replaces the old one. -/
def deleteDefaultRoute (table : IPv4RoutingTable) (entry : IPv4Route) : Method Bool :=
  if entry.netmask.isUnspecified then
    match table.getDefaultRoute with
    | some oldDefaultRoute => table.deleteRoute oldDefaultRoute.id
    | none => .done false table
  else .done false table

def internalAddRoute (table : IPv4RoutingTable) (entry : IPv4Route) : Method Unit :=
  if ¬ entry.netmask.isValidNetmask then
    .fail (.cRuntimeError "addRoute(): wrong netmask %s in route")
  else if entry.netmask ≠ 0 ∧ entry.dest &&& entry.netmask = 0 then
    .fail (.cRuntimeError
      "addRoute(): all bits of destination address %s is 0 inside non zero netmask %s")
  else if entry.dest &&& ~~~entry.netmask ≠ 0 then
    .fail (.cRuntimeError
      "addRoute(): suspicious route: destination IP address %s has bits set outside netmask %s")
  else if entry.interfacePtr = none then
    .fail (.cRuntimeError "addRoute(): interface cannot be nullptr")
  else
    (table.deleteDefaultRoute entry).bind fun _ table => .done () (table.insertRoute entry)

/-- The table with a new route object, which is not in the vector yet. -/
def newRoute (table : IPv4RoutingTable) (route : IPv4Route) : IPv4Route × IPv4RoutingTable :=
  ({ route with id := table.nextId }, { table with nextId := table.nextId + 1 })

def addRoute (table : IPv4RoutingTable) (entry : IPv4Route) : Method Unit :=
  (table.internalAddRoute entry).bind fun _ table =>
    .notify ⟨.NF_ROUTE_ADDED, entry, .addRoute⟩ table.invalidateCache fun table => .done () table

/-- `IRoute::ChangeCodes`, as far as the setters of a route use them. -/
inductive ChangeCode where
  | F_DESTINATION
  | F_PREFIX_LENGTH
  | F_NEXTHOP
  | F_IFACE
  | F_SOURCE
  | F_ADMINDIST
  | F_METRIC
deriving DecidableEq

def emitChanged (table : IPv4RoutingTable) (entry : IPv4Route) : Method Unit :=
  .notify ⟨.NF_ROUTE_CHANGED, entry, .routeChanged⟩ table fun table => .done () table

def routeChanged (table : IPv4RoutingTable) (entry : IPv4Route) (fieldCode : ChangeCode) :
    Method Unit :=
  if fieldCode = .F_DESTINATION ∨ fieldCode = .F_PREFIX_LENGTH ∨ fieldCode = .F_METRIC then
    match table.internalRemoveRoute entry.id with
    | some (entry, table) =>
      (table.internalAddRoute entry).bind fun _ table => emitChanged table.invalidateCache entry
    | none => .fail (.assertion "entry != nullptr")
  else emitChanged table entry

/-- The setters of a route. -/
inductive Setter where
  | setDestination (dest : IPv4Address)
  | setNetmask (netmask : IPv4Address)
  | setGateway (gateway : IPv4Address)
  | setInterface (interfacePtr : Option ℕ)
  | setSourceType (sourceType : SourceType)
  | setAdminDist (adminDist : ℕ)
  | setMetric (metric : ℤ)
  | setSource (source : Option ℕ)

namespace Setter

def apply : Setter → IPv4Route → IPv4Route
  | setDestination dest, route => { route with dest := dest }
  | setNetmask netmask, route => { route with netmask := netmask }
  | setGateway gateway, route => { route with gateway := gateway }
  | setInterface interfacePtr, route => { route with interfacePtr := interfacePtr }
  | setSourceType sourceType, route => { route with sourceType := sourceType }
  | setAdminDist adminDist, route => { route with adminDist := adminDist }
  | setMetric metric, route => { route with metric := metric }
  | setSource source, route => { route with source := source }

def fieldCode : Setter → ChangeCode
  | setDestination _ => .F_DESTINATION
  | setNetmask _ => .F_PREFIX_LENGTH
  | setGateway _ => .F_NEXTHOP
  | setInterface _ => .F_IFACE
  | setSourceType _ => .F_SOURCE
  | setAdminDist _ => .F_ADMINDIST
  | setMetric _ => .F_METRIC
  | setSource _ => .F_SOURCE

end Setter

/-- The vector points to the object, so that its entry changes in place. -/
def modifyRoute (table : IPv4RoutingTable) (route : IPv4Route) : IPv4RoutingTable :=
  { table with routes := table.routes.map fun e => if e.id = route.id then route else e }

/-- A setter called on a route of the table. -/
def setRoute (table : IPv4RoutingTable) (entry : ℕ) (setter : Setter) : Method Unit :=
  match table.routes.find? (·.id == entry) with
  | some route =>
    if setter.apply route ≠ route then
      (table.modifyRoute (setter.apply route)).routeChanged (setter.apply route) setter.fieldCode
    else .done () table
  | none => .done () table

/-- The loop of `purge` over the entries that are left. -/
def purgeLoop : List IPv4Route → Bool → IPv4RoutingTable → Method Unit
  | [], deleted, table => .done () (if deleted then table.invalidateCache else table)
  | route :: rest, deleted, table =>
    if route.isValid table.simTime then purgeLoop rest deleted table
    else emitDeleted .purge route (table.eraseRoute route.id) fun table =>
      purgeLoop rest true table

def purge (table : IPv4RoutingTable) : Method Unit := purgeLoop table.routes false table

structure IPv4InterfaceData where
  inetAddr : IPv4Address
  netmask : IPv4Address
  metric : ℤ

/-- An entry of the interface table. -/
structure InterfaceEntry where
  id : ℕ
  /-- The name matches the parameter `netmaskRoutes`. -/
  nameMatches : Bool
  ipv4Data : Option IPv4InterfaceData

/-- The first loop of `updateNetmaskRoutes`, over the entries that are left. -/
def deleteNetmaskRoutes (next : IPv4RoutingTable → Method Unit) :
    List IPv4Route → IPv4RoutingTable → Method Unit
  | [], table => next table
  | route :: rest, table =>
    if route.sourceType = .IFACENETMASK then
      emitDeleted .updateNetmaskRoutes route (table.eraseRoute route.id) fun table =>
        deleteNetmaskRoutes next rest table
    else deleteNetmaskRoutes next rest table

/-- The route for an interface, when it gets one. -/
def netmaskRoute (ie : InterfaceEntry) : Option IPv4Route :=
  match ie.ipv4Data with
  | some data =>
    if ie.nameMatches ∧ data.netmask ≠ IPv4Address.ALLONES_ADDRESS then
      some
        { id := 0
          sourceType := .IFACENETMASK
          source := some ie.id
          dest := data.inetAddr &&& data.netmask
          netmask := data.netmask
          gateway := 0
          adminDist := IPv4Route.dDirectlyConnected
          metric := data.metric
          interfacePtr := some ie.id }
    else none
  | none => none

/-- The second loop of `updateNetmaskRoutes`, over the interfaces that are left. -/
def addNetmaskRoutes : List InterfaceEntry → IPv4RoutingTable → Method Unit
  | [], table => .done () table.invalidateCache
  | ie :: rest, table =>
    match netmaskRoute ie with
    | some route =>
      let (route, table) := table.newRoute route
      .notify ⟨.NF_ROUTE_ADDED, route, .updateNetmaskRoutes⟩ (table.insertRoute route)
        fun table => addNetmaskRoutes rest table
    | none => addNetmaskRoutes rest table

def updateNetmaskRoutes (table : IPv4RoutingTable) (ift : List InterfaceEntry) : Method Unit :=
  deleteNetmaskRoutes (addNetmaskRoutes ift) table.routes table

/-- What other modules do with the table, and the passing of time. -/
inductive Op where
  /-- Allocate a route with these fields and add it. -/
  | addRoute (entry : IPv4Route)
  | removeRoute (entry : ℕ)
  | deleteRoute (entry : ℕ)
  | purge
  | updateNetmaskRoutes (ift : List InterfaceEntry)
  | set (entry : ℕ) (setter : Setter)
  | wait (time : ℕ)

def ignoreValue {α : Type} (method : Method α) : Method Unit :=
  method.bind fun _ table => .done () table

def method (table : IPv4RoutingTable) : Op → Method Unit
  | .addRoute entry => (table.newRoute entry).2.addRoute (table.newRoute entry).1
  | .removeRoute entry => ignoreValue (table.removeRoute entry)
  | .deleteRoute entry => ignoreValue (table.deleteRoute entry)
  | .purge => table.purge
  | .updateNetmaskRoutes ift => table.updateNetmaskRoutes ift
  | .set entry setter => table.setRoute entry setter
  | .wait time => .done () { table with simTime := table.simTime + time }

/-- A listener, or anyone else, looks up a route. -/
def listen (table : IPv4RoutingTable) (dest : IPv4Address) : Result IPv4RoutingTable :=
  (table.findBestMatchingRoute dest).map Prod.snd

/-- The table between two inputs: idle, or inside a notification of a method. -/
abbrev TablePhase := Phase IPv4RoutingTable Notification Error

def step : TablePhase → Input Op IPv4Address → Result TablePhase := Callback.step method listen

end IPv4RoutingTable

end Inet.Ipv4
