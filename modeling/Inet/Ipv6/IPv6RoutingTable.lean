import Inet.Ipv4.IPv4Route
import Inet.Ipv6.IPv6Address
import Inet.Library.LoopStack

/-!
# The IPv6 routing table

`IPv6RoutingTable` keeps its routes sorted by `routeLessThan`: longer prefixes first, then smaller
administrative distances if they are used, then smaller metrics. `doLongestPrefixMatch` walks
along them with an iterator and deletes routes on the way. Its loop is given by what one round
does, as it does not always end.
-/

namespace Inet.Ipv6

open Ipv4 (SourceType)

structure IPv6Route where
  destPrefix : IPv6Address
  prefixLength : ℕ
  sourceType : SourceType
  interfacePtr : Option ℕ := none
  nextHop : IPv6Address := {}
  /-- `0` stands for no expiry. -/
  expiryTime : ℤ := 0
  metric : ℤ := 0
  adminDist : ℕ := 255
  prefixLength_le : prefixLength ≤ 128 := by decide

namespace IPv6Route

def dDirectlyConnected : ℕ := 0

/-- The test of `doLongestPrefixMatch`. -/
def isExpired (route : IPv6Route) (simTime : ℤ) : Bool :=
  decide (simTime > route.expiryTime ∧ route.expiryTime ≠ 0)

/-- The route matches a destination: its prefix is that of the address. -/
def isMatching (route : IPv6Route) (dest : IPv6Address) : Result Bool :=
  dest.isMatching route.destPrefix route.prefixLength

/-- `IPv6RoutingTable::routeLessThan`. -/
def routeLessThan (useAdminDist : Bool) (a b : IPv6Route) : Bool :=
  if a.prefixLength ≠ b.prefixLength then decide (a.prefixLength > b.prefixLength)
  else if useAdminDist ∧ a.adminDist ≠ b.adminDist then decide (a.adminDist < b.adminDist)
  else decide (a.metric < b.metric)

end IPv6Route

structure IPv6RoutingTable where
  useAdminDist : Bool := false
  routeList : List IPv6Route := []

namespace IPv6RoutingTable

/-- `internalAddRoute`: the route is pushed back and the list is sorted in a stable way. -/
def addRoute (table : IPv6RoutingTable) (route : IPv6Route) : IPv6RoutingTable :=
  { table with
    routeList := (table.routeList ++ [route]).mergeSort
      fun a b => !IPv6Route.routeLessThan table.useAdminDist b a }

/-- The first route that the prefix has been announced with is updated. -/
def updateFirst (isOld : IPv6Route → Bool) (update : IPv6Route → IPv6Route) :
    List IPv6Route → Option (List IPv6Route)
  | [] => none
  | route :: routes =>
    if isOld route then some (update route :: routes)
    else (updateFirst isOld update routes).map (route :: ·)

/-- What the two functions below do with a prefix of their kind. -/
def addOrUpdatePrefix (sourceType : SourceType) (table : IPv6RoutingTable)
    (destPrefix : IPv6Address) (prefixLength : ℕ) (hlen : prefixLength ≤ 128)
    (interfacePtr : Option ℕ) (expiryTime : ℤ) : IPv6RoutingTable :=
  let isOld : IPv6Route → Bool := fun route =>
    route.sourceType = sourceType ∧ route.destPrefix = destPrefix ∧
      route.prefixLength = prefixLength
  let update : IPv6Route → IPv6Route := fun route => { route with interfacePtr, expiryTime }
  match updateFirst isOld update table.routeList with
  | some routeList => { table with routeList }
  | none => table.addRoute
      { destPrefix, prefixLength, sourceType, interfacePtr, expiryTime
        metric := 0
        adminDist := IPv6Route.dDirectlyConnected
        prefixLength_le := hlen }

def addOrUpdateOnLinkPrefix (table : IPv6RoutingTable) (destPrefix : IPv6Address)
    (prefixLength : ℕ) (hlen : prefixLength ≤ 128) (interfacePtr : Option ℕ) (expiryTime : ℤ) :
    IPv6RoutingTable :=
  addOrUpdatePrefix .ROUTER_ADVERTISEMENT table destPrefix prefixLength hlen interfacePtr
    expiryTime

def addOrUpdateOwnAdvPrefix (table : IPv6RoutingTable) (destPrefix : IPv6Address)
    (prefixLength : ℕ) (hlen : prefixLength ≤ 128) (interfacePtr : Option ℕ) (expiryTime : ℤ) :
    IPv6RoutingTable :=
  addOrUpdatePrefix .OWN_ADV_PREFIX table destPrefix prefixLength hlen interfacePtr expiryTime

/-- What the loop of `doLongestPrefixMatch` has done: the routes that are in the list in front of
the iterator, those it has deleted, and what it returns. When it returns a route, `passed` is
the whole list. -/
structure Scan where
  passed : List IPv6Route := []
  deleted : List IPv6Route := []
  result : Option IPv6Route := none

/-- One round of the loop; the iterator is given by the routes from it on. -/
def scanRound (dest : IPv6Address) (simTime : ℤ) (scan : Scan) :
    List IPv6Route → Result (Scan × LoopStack.Move (List IPv6Route))
  | [] => .ok (scan, .leave)
  | route :: routes => do
      if ← route.isMatching dest then
        if route.isExpired simTime then
          if route.sourceType = .ROUTER_ADVERTISEMENT then
            .ok ({ scan with deleted := scan.deleted ++ [route] }, .again routes)
          else
            -- neither erased nor passed
            .ok (scan, .again (route :: routes))
        else
          .ok ({ scan with
            passed := scan.passed ++ route :: routes
            result := some route }, .leave)
      else .ok ({ scan with passed := scan.passed ++ [route] }, .again routes)

/-- `doLongestPrefixMatch` returns, and this is what it has done. -/
def Returns (table : IPv6RoutingTable) (dest : IPv6Address) (simTime : ℤ) (scan : Scan) : Prop :=
  LoopStack.Reaches (scanRound dest simTime) ⟨{}, [table.routeList]⟩ ⟨scan, []⟩

/-- The ways in which routes get into the table. -/
inductive Op where
  | addRoute (route : IPv6Route)
  | addOrUpdateOnLinkPrefix (destPrefix : IPv6Address) (prefixLength : ℕ)
      (hlen : prefixLength ≤ 128) (interfacePtr : Option ℕ) (expiryTime : ℤ)
  | addOrUpdateOwnAdvPrefix (destPrefix : IPv6Address) (prefixLength : ℕ)
      (hlen : prefixLength ≤ 128) (interfacePtr : Option ℕ) (expiryTime : ℤ)

def apply (table : IPv6RoutingTable) : Op → IPv6RoutingTable
  | .addRoute route => table.addRoute route
  | .addOrUpdateOnLinkPrefix destPrefix prefixLength hlen interfacePtr expiryTime =>
    table.addOrUpdateOnLinkPrefix destPrefix prefixLength hlen interfacePtr expiryTime
  | .addOrUpdateOwnAdvPrefix destPrefix prefixLength hlen interfacePtr expiryTime =>
    table.addOrUpdateOwnAdvPrefix destPrefix prefixLength hlen interfacePtr expiryTime

/-- The table that the operations build. -/
def build (useAdminDist : Bool) (ops : List Op) : IPv6RoutingTable :=
  ops.foldl apply { useAdminDist }

end IPv6RoutingTable

end Inet.Ipv6
