import Inet.Common.Basic
import Inet.Library.KeyedList

/-!
# The routes of an AODV node

The routes that AODV keeps in the routing table of its node, one for each destination: their
prefix is the whole address, so that the best match for an address is the route to it. The
table is sorted by destination, and routes of other protocols are left out, which AODV treats
like no route.
-/

namespace Inet.Aodv

/-- A specified unicast address; the unspecified address is `none`. -/
abbrev L3Address := ℕ

/-- A `simtime_t`. -/
abbrev SimTime := ℤ

/-- What AODV keeps of an `IRoute` and its `AODVRouteData`, the destination apart. -/
structure Route where
  nextHop : L3Address
  metric : Uint32
  lifeTime : SimTime
  destSeqNum : Uint32
  isActive : Bool
  hasValidDestNum : Bool
  precursorList : List L3Address := []
deriving DecidableEq

def createRoute (nextHop : L3Address) (hopCount : Uint32) (hasValidDestNum : Bool)
    (destSeqNum : Uint32) (isActive : Bool) (lifeTime : SimTime) : Route :=
  { nextHop, metric := hopCount, lifeTime, destSeqNum, isActive, hasValidDestNum }

def updateRoutingTable (route : Route) (nextHop : L3Address) (hopCount : Uint32)
    (hasValidDestNum : Bool) (destSeqNum : Uint32) (isActive : Bool) (lifeTime : SimTime) :
    Route :=
  { route with nextHop, metric := hopCount, lifeTime, destSeqNum, isActive, hasValidDestNum }

/-- The new contents of the entry for a destination, which is created if there is none. -/
def createOrUpdate (route : Option Route) (nextHop : L3Address) (hopCount : Uint32)
    (hasValidDestNum : Bool) (destSeqNum : Uint32) (lifeTime : SimTime) : Route :=
  match route with
  | none => createRoute nextHop hopCount hasValidDestNum destSeqNum true lifeTime
  | some route => updateRoutingTable route nextHop hopCount hasValidDestNum destSeqNum true lifeTime

def Route.addPrecursor (route : Route) (precursorAddr : L3Address) : Route :=
  { route with precursorList := insert precursorAddr route.precursorList }

structure RoutingTable where
  entries : List (L3Address × Route) := []
  sorted : KeyedList.Sorted Prod.fst entries := by exact List.Pairwise.nil

namespace RoutingTable

variable (routes : RoutingTable)

def findBestMatchingRoute (destAddr : L3Address) : Option Route :=
  (KeyedList.lookup Prod.fst routes.entries destAddr).map Prod.snd

/-- `route` becomes the route to `destAddr`. -/
def put (destAddr : L3Address) (route : Route) : RoutingTable where
  entries := KeyedList.insert Prod.fst (destAddr, route)
    (KeyedList.erase Prod.fst routes.entries destAddr)
  sorted := (routes.sorted.erase destAddr).insert fun _ hy => (KeyedList.mem_erase.mp hy).2

/-- The routes are changed in place. -/
def mapRoutes (change : L3Address → Route → Route) : RoutingTable where
  entries := routes.entries.map fun entry => (entry.1, change entry.1 entry.2)
  sorted := KeyedList.Sorted.map (fun _ => rfl) routes.sorted

def modify (destAddr : L3Address) (change : Route → Route) : RoutingTable :=
  routes.mapRoutes fun dest route => if dest = destAddr then change route else route

/-- The routes that stay. -/
def filterRoutes (stays : L3Address → Route → Bool) : RoutingTable where
  entries := routes.entries.filter fun entry => stays entry.1 entry.2
  sorted := List.Pairwise.filter _ routes.sorted

variable {routes} {destAddr dest : L3Address} {route : Route}

@[simp] theorem find_put : (routes.put destAddr route).findBestMatchingRoute dest =
    if destAddr = dest then some route else routes.findBestMatchingRoute dest := by
  rw [findBestMatchingRoute, put, KeyedList.lookup_insert_erase routes.sorted]
  split_ifs <;> rfl

@[simp] theorem find_mapRoutes {change : L3Address → Route → Route} :
    (routes.mapRoutes change).findBestMatchingRoute dest =
      (routes.findBestMatchingRoute dest).map (change dest) := by
  have hmap : KeyedList.lookup Prod.fst (routes.mapRoutes change).entries dest =
      (KeyedList.lookup Prod.fst routes.entries dest).map
        fun entry => (entry.1, change entry.1 entry.2) := KeyedList.lookup_map fun _ => rfl
  rw [findBestMatchingRoute, hmap]
  cases hlookup : KeyedList.lookup Prod.fst routes.entries dest with
  | none => simp [findBestMatchingRoute, hlookup]
  | some entry =>
    obtain ⟨-, rfl⟩ := (KeyedList.lookup_eq_some routes.sorted).mp hlookup
    simp [findBestMatchingRoute, hlookup]

@[simp] theorem find_modify {change : Route → Route} :
    (routes.modify destAddr change).findBestMatchingRoute dest =
      if dest = destAddr then (routes.findBestMatchingRoute dest).map change
      else routes.findBestMatchingRoute dest := by
  rw [modify, find_mapRoutes]
  split_ifs with h
  · rfl
  · simp

@[simp] theorem find_filterRoutes {stays : L3Address → Route → Bool} :
    (routes.filterRoutes stays).findBestMatchingRoute dest =
      (routes.findBestMatchingRoute dest).filter (stays dest) := by
  rw [findBestMatchingRoute, filterRoutes, KeyedList.lookup_filter routes.sorted]
  cases hlookup : KeyedList.lookup Prod.fst routes.entries dest with
  | none => simp [findBestMatchingRoute, hlookup]
  | some entry =>
    obtain ⟨-, rfl⟩ := (KeyedList.lookup_eq_some routes.sorted).mp hlookup
    simp only [findBestMatchingRoute, hlookup, Option.map_some, Option.filter_some]
    split_ifs <;> rfl

end RoutingTable

end Inet.Aodv
