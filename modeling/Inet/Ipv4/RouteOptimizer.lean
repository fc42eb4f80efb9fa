import Inet.Ipv4.IPv4Route
import Inet.Library.Lists

/-!
# The route optimizer of the network configurator

`optimizeRoutes` replaces routes with the same action by fewer ones with shorter netmasks. It works
on copies of the routes: an action is a color, the index of the first route that has it, and every
copy keeps the original routes whose destination it routes. Pointers into the vector `routeInfos`
are indices.
-/

namespace Inet.Ipv4.IPv4NetworkConfigurator

/-- A `RouteInfo` that stands for a route given to the optimizer. -/
structure OriginalRouteInfo where
  color : ℕ
  destination : IPv4Address
  netmask : IPv4Address
deriving DecidableEq

/-- A `RouteInfo` of the optimizer's table. -/
structure RouteInfo extends OriginalRouteInfo where
  enabled : Bool := true
  originalRouteInfos : List OriginalRouteInfo := []
deriving DecidableEq

/-- The vector `routeInfos`. The other vector of the class only says what to delete at the end. -/
abbrev RoutingTableInfo := List RouteInfo

namespace RouteInfo

/-- The test of `findBestMatchingRouteInfo`. -/
def matchesDestination (destination : IPv4Address) (routeInfo : RouteInfo) : Bool :=
  routeInfo.enabled &&
    IPv4Address.maskedAddrAreEqual destination routeInfo.destination routeInfo.netmask

def push (originalRouteInfo : OriginalRouteInfo) (routeInfo : RouteInfo) : RouteInfo :=
  { routeInfo with originalRouteInfos := routeInfo.originalRouteInfos ++ [originalRouteInfo] }

end RouteInfo

namespace RoutingTableInfo

def routeInfoLessThan (a b : RouteInfo) : Bool :=
  if a.netmask ≠ b.netmask then decide (a.netmask > b.netmask)
  else decide (a.destination < b.destination)

/-- The index of the inserted route and the new table. -/
def addRouteInfo (routeInfos : RoutingTableInfo) (routeInfo : RouteInfo) : ℕ × RoutingTableInfo :=
  ((routeInfos.takeWhile fun b => !routeInfoLessThan routeInfo b).length,
    routeInfos.insertUpper routeInfoLessThan routeInfo)

def setEnabled (enabled : Bool) (index : ℕ) (routeInfos : RoutingTableInfo) : RoutingTableInfo :=
  routeInfos.modify index fun routeInfo => { routeInfo with enabled := enabled }

/-- The index of the first route in `[begin, end)` that matches. -/
def findBestMatchingRouteInfo (routeInfos : RoutingTableInfo) (destination : IPv4Address)
    (begin «end» : ℕ) : Option ℕ :=
  (List.range' begin («end» - begin)).find? fun index =>
    routeInfos[index]?.any (·.matchesDestination destination)

end RoutingTableInfo

open RoutingTableInfo

def routesHaveSameColor (route1 route2 : IPv4Route) : Bool :=
  route1.sourceType == route2.sourceType && route1.metric == route2.metric &&
    route1.gateway == route2.gateway && route1.interfacePtr == route2.interfacePtr

def findRouteIndexWithSameColor (routes : List IPv4Route) (route : IPv4Route) : Option ℕ :=
  routes.findIdx? fun other => routesHaveSameColor other route

def routesCanBeSwapped (routeInfo1 routeInfo2 : RouteInfo) : Bool :=
  if routeInfo1.color = routeInfo2.color then true
  else
    let netmask := routeInfo1.netmask &&& routeInfo2.netmask
    routeInfo1.destination &&& netmask != routeInfo2.destination &&& netmask

def routesCanBeNeighbors (routeInfos : RoutingTableInfo) (i j : ℕ) : Bool :=
  let begin := min i j
  let «end» := max i j
  (List.range' (begin + 1) («end» - (begin + 1))).all fun index =>
    match routeInfos[begin]?, routeInfos[index]? with
    | some beginRouteInfo, some routeInfo => routesCanBeSwapped beginRouteInfo routeInfo
    | _, _ => true

def interruptsOriginalRoute (routeInfos : RoutingTableInfo) (begin «end» : ℕ)
    (originalRouteInfo : OriginalRouteInfo) : Bool :=
  match findBestMatchingRouteInfo routeInfos originalRouteInfo.destination begin «end» with
  | some index => routeInfos[index]?.any (·.color != originalRouteInfo.color)
  | none => false

def interruptsAnyOriginalRoute (routeInfos : RoutingTableInfo) (begin «end» : ℕ)
    (originalRouteInfos : List OriginalRouteInfo) : Bool :=
  decide (begin < «end») && originalRouteInfos.any (interruptsOriginalRoute routeInfos begin «end»)

def interruptsSubsequentOriginalRoutes (routeInfos : RoutingTableInfo) (index : ℕ) : Bool :=
  (routeInfos.drop (index + 1)).any fun routeInfo =>
    interruptsAnyOriginalRoute routeInfos index (index + 1) routeInfo.originalRouteInfos

/-- The original route is routed with its color. -/
def routesOriginalRoute (routeInfos : RoutingTableInfo)
    (originalRouteInfo : OriginalRouteInfo) : Bool :=
  match findBestMatchingRouteInfo routeInfos originalRouteInfo.destination 0 routeInfos.length with
  | some index => routeInfos[index]?.any (·.color == originalRouteInfo.color)
  | none => false

def checkOriginalRoutes (routeInfos : RoutingTableInfo)
    (originalRouteInfos : List OriginalRouteInfo) : Result Unit :=
  originalRouteInfos.forM fun originalRouteInfo =>
    assert (routesOriginalRoute routeInfos originalRouteInfo) "false"

/-- The loop of `findLongestCommonDestinationPrefix` from the bit below `bits` on: the prefix and
its netmask. -/
def commonPrefixFrom (destination1 netmask1 destination2 netmask2 : IPv4Address) :
    ℕ → IPv4Address × IPv4Address → IPv4Address × IPv4Address
  | 0, out => out
  | bitIndex + 1, (destinationOut, netmaskOut) =>
    let mask : IPv4Address := 1#32 <<< bitIndex
    if destination1 &&& mask = destination2 &&& mask ∧
        netmask1 &&& mask ≠ 0 ∧ netmask2 &&& mask ≠ 0 then
      commonPrefixFrom destination1 netmask1 destination2 netmask2 bitIndex
        (destinationOut ||| destination1 &&& mask, netmaskOut ||| mask)
    else (destinationOut, netmaskOut)

def findLongestCommonDestinationPrefix
    (destination1 netmask1 destination2 netmask2 : IPv4Address) : IPv4Address × IPv4Address :=
  commonPrefixFrom destination1 netmask1 destination2 netmask2 32 (0, 0)

/-- One round of `addOriginalRouteInfos`. -/
def addOriginalRouteInfo (begin «end» : ℕ) (routeInfos : RoutingTableInfo)
    (originalRouteInfo : OriginalRouteInfo) : Result RoutingTableInfo := do
  let index? := findBestMatchingRouteInfo routeInfos originalRouteInfo.destination begin «end»
  let matching? := index?.bind fun index => routeInfos[index]?
  assert (matching?.any (·.color == originalRouteInfo.color))
    "matchingRouteInfo && matchingRouteInfo->color == originalRouteInfo->color"
  .ok (routeInfos.modify (index?.getD 0) (RouteInfo.push originalRouteInfo))

def addOriginalRouteInfos (routeInfos : RoutingTableInfo) (begin «end» : ℕ)
    (originalRouteInfos : List OriginalRouteInfo) : Result RoutingTableInfo :=
  originalRouteInfos.foldlM (addOriginalRouteInfo begin «end») routeInfos

/-- What a route after the merged one keeps of its original routes, and what it loses. -/
def splitOriginalRouteInfos (merged : RouteInfo) :
    List OriginalRouteInfo → Result (List OriginalRouteInfo × List OriginalRouteInfo)
  | [] => .ok ([], [])
  | originalRouteInfo :: rest =>
    if IPv4Address.maskedAddrAreEqual originalRouteInfo.destination merged.destination
        merged.netmask then do
      assert (merged.color == originalRouteInfo.color)
        "mergedRouteInfo->color == originalRouteInfo->color"
      let (kept, moved) ← splitOriginalRouteInfos merged rest
      .ok (kept, originalRouteInfo :: moved)
    else do
      let (kept, moved) ← splitOriginalRouteInfos merged rest
      .ok (originalRouteInfo :: kept, moved)

/-- The routes after the merged one without the original routes they lose, and those. -/
def splitFollowingRouteInfos (merged : RouteInfo) :
    RoutingTableInfo → Result (RoutingTableInfo × List OriginalRouteInfo)
  | [] => .ok ([], [])
  | followingRouteInfo :: rest => do
      let (kept, moved) ← splitOriginalRouteInfos merged followingRouteInfo.originalRouteInfos
      let (rest, restMoved) ← splitFollowingRouteInfos merged rest
      .ok ({ followingRouteInfo with originalRouteInfos := kept } :: rest, moved ++ restMoved)

/-- Move original routes from the routes following the merged one, at index `m`. -/
def moveFollowingOriginalRouteInfos (routeInfos : RoutingTableInfo) (m : ℕ) :
    Result RoutingTableInfo :=
  match routeInfos.drop m with
  | [] => .error .outOfRange
  | merged :: following => do
      let (following, moved) ← splitFollowingRouteInfos merged following
      .ok (routeInfos.take m ++
        { merged with originalRouteInfos := merged.originalRouteInfos ++ moved } :: following)

/-- The merged route does not conflict with any route in the table. -/
def canBeMerged (routeInfos : RoutingTableInfo) (i j m : ℕ)
    (routeInfoI routeInfoJ : RouteInfo) : Bool :=
  !interruptsAnyOriginalRoute routeInfos (j + 1) i routeInfoJ.originalRouteInfos &&
    !interruptsAnyOriginalRoute routeInfos (i + 1) m routeInfoJ.originalRouteInfos &&
    !interruptsAnyOriginalRoute routeInfos (i + 1) m routeInfoI.originalRouteInfos &&
    !interruptsSubsequentOriginalRoutes routeInfos m

/-- The route that `tryToMergeTwoRoutes` tries to put in the place of two. -/
def mergedRouteInfo (routeInfoI routeInfoJ : RouteInfo) : RouteInfo :=
  let out := findLongestCommonDestinationPrefix routeInfoI.destination routeInfoI.netmask
    routeInfoJ.destination routeInfoJ.netmask
  { color := routeInfoI.color, destination := out.1, netmask := out.2 }

/-- Both routes stand in front of the merged one, so their indices stay what they are; `j < i`. -/
def tryToMergeTwoRoutes (routeInfos : RoutingTableInfo) (i j : ℕ)
    (routeInfoI routeInfoJ : RouteInfo) : Result (Bool × RoutingTableInfo) := do
  let merged := mergedRouteInfo routeInfoI routeInfoJ
  let disabled := setEnabled false j (setEnabled false i routeInfos)
  let m := (addRouteInfo disabled merged).1
  let added := (addRouteInfo disabled merged).2
  assert (decide (m > i) && decide (m > j)) "m > i && m > j"
  if canBeMerged added i j m routeInfoI routeInfoJ then do
    let addedI ← addOriginalRouteInfos added (i + 1) (m + 1) routeInfoI.originalRouteInfos
    let addedJ ← addOriginalRouteInfos addedI (j + 1) (m + 1) routeInfoJ.originalRouteInfos
    let moved ← moveFollowingOriginalRouteInfos addedJ m
    .ok (true, (moved.eraseIdx i).eraseIdx j)
  else
    .ok (false, (setEnabled true j (setEnabled true i added)).eraseIdx m)

/-- The loop over `j` of `tryToMergeAnyTwoRoutes`, below the given bound. -/
def tryToMergeWithPreceding (i : ℕ) : ℕ → RoutingTableInfo → Result (Bool × RoutingTableInfo)
  | 0, routeInfos => .ok (false, routeInfos)
  | j + 1, routeInfos =>
    match routeInfos[i]?, routeInfos[j]? with
    | some routeInfoI, some routeInfoJ =>
      if routeInfoI.color == routeInfoJ.color && routesCanBeNeighbors routeInfos i j then do
        let (merged, routeInfos) ← tryToMergeTwoRoutes routeInfos i j routeInfoI routeInfoJ
        if merged then .ok (true, routeInfos) else tryToMergeWithPreceding i j routeInfos
      else tryToMergeWithPreceding i j routeInfos
    | _, _ => .error .outOfRange

/-- The loop over `i`, with the number of rounds left. -/
def tryToMergeFrom : ℕ → ℕ → RoutingTableInfo → Result (Bool × RoutingTableInfo)
  | _, 0, routeInfos => .ok (false, routeInfos)
  | i, n + 1, routeInfos => do
      let (merged, routeInfos) ← tryToMergeWithPreceding i i routeInfos
      if merged then .ok (true, routeInfos) else tryToMergeFrom (i + 1) n routeInfos

def tryToMergeAnyTwoRoutes (routeInfos : RoutingTableInfo) : Result (Bool × RoutingTableInfo) :=
  tryToMergeFrom 0 routeInfos.length routeInfos

/-- `while (tryToMergeAnyTwoRoutes(routingTableInfo));` -/
def mergeRoutes : ℕ → RoutingTableInfo → Result RoutingTableInfo
  | 0, _ => .error .outOfFuel
  | fuel + 1, routeInfos => do
      let (merged, routeInfos) ← tryToMergeAnyTwoRoutes routeInfos
      if merged then mergeRoutes fuel routeInfos else .ok routeInfos

/-- What the first step of `optimizeRoutes` builds. -/
structure Classification where
  colorToRoute : List IPv4Route := []
  originalRouteInfos : List OriginalRouteInfo := []
  routeInfos : RoutingTableInfo := []

/-- One round of the loop over the original routes. -/
def Classification.addOriginalRoute (state : Classification) (originalRoute : IPv4Route) :
    Classification :=
  let found := findRouteIndexWithSameColor state.colorToRoute originalRoute
  let originalRouteInfo : OriginalRouteInfo :=
    { color := found.getD state.colorToRoute.length
      destination := originalRoute.dest
      netmask := originalRoute.netmask }
  { colorToRoute :=
      if found.isSome then state.colorToRoute else state.colorToRoute ++ [originalRoute]
    originalRouteInfos := state.originalRouteInfos ++ [originalRouteInfo]
    routeInfos := (addRouteInfo state.routeInfos
      { originalRouteInfo with originalRouteInfos := [originalRouteInfo] }).2 }

def classifyRoutes (originalRoutes : List IPv4Route) : Classification :=
  originalRoutes.foldl Classification.addOriginalRoute {}

/-- The new route for one of the optimizer's routes. -/
def optimizedRoute (colorToRoute : List IPv4Route) (id : ℕ) (routeInfo : RouteInfo) :
    Result IPv4Route :=
  match colorToRoute[routeInfo.color]? with
  | some routeColor =>
    .ok { id := id
          dest := routeInfo.destination
          netmask := routeInfo.netmask
          interfacePtr := routeColor.interfacePtr
          gateway := routeColor.gateway
          sourceType := routeColor.sourceType
          metric := routeColor.metric }
  | none => .error .outOfRange

/-- The optimized routes; the new objects get the identities from `firstId` on. -/
def optimizeRoutes (firstId : ℕ) (originalRoutes : List IPv4Route) : Result (List IPv4Route) := do
  let state := classifyRoutes originalRoutes
  checkOriginalRoutes state.routeInfos state.originalRouteInfos
  let routeInfos ← mergeRoutes (state.routeInfos.length + 1) state.routeInfos
  checkOriginalRoutes routeInfos state.originalRouteInfos
  routeInfos.zipIdx.mapM fun (routeInfo, position) =>
    optimizedRoute state.colorToRoute (firstId + position) routeInfo

end Inet.Ipv4.IPv4NetworkConfigurator
