import Inet.Ospf.LinkStateUpdateHandler

/-!
# Inter-area routes of an OSPF area

`calculateInterAreaRoutes` goes through the summary LSAs of the area and completes the routing table
that is being built. An entry stands for a network or for a router, as its destination type says, a
bit field that is given by its two bits here. `unsigned short` costs are taken modulo `2 ^ 16`.
-/

namespace Inet.Ospf

open Inet.Ipv4 (IPv4Address)
open Inet.Ipv4.IPv4Address (ALLONES_ADDRESS maskedAddrAreEqual)

def LS_INFINITY : ℕ := 16777215

abbrev AreaID := IPv4Address

structure NextHop where
  ifIndex : ℤ
  hopAddress : IPv4Address
  advertisingRouter : RouterID
deriving DecidableEq

structure SummaryLSA where
  header : OSPFLSAHeader
  networkMask : IPv4Address
  routeCost : ℕ
deriving DecidableEq

inductive RoutingPathType where
  | INTRAAREA
  | INTERAREA
  | TYPE1_EXTERNAL
  | TYPE2_EXTERNAL
deriving DecidableEq

/-- The bits of a destination type; a network has none. -/
structure RoutingDestinationType where
  areaBorderRouter : Bool := false
  asBoundaryRouter : Bool := false
deriving DecidableEq

def NETWORK_DESTINATION : RoutingDestinationType := {}

def AS_BOUNDARY_ROUTER_DESTINATION : RoutingDestinationType := { asBoundaryRouter := true }

def RoutingDestinationType.isRouter (type : RoutingDestinationType) : Bool :=
  type.areaBorderRouter || type.asBoundaryRouter

structure RoutingTableEntry where
  destination : IPv4Address
  netmask : IPv4Address := ALLONES_ADDRESS
  destinationType : RoutingDestinationType
  area : AreaID
  pathType : RoutingPathType := .INTRAAREA
  cost : ℕ
  linkStateOrigin : Option SummaryLSA := none
  nextHops : List NextHop
deriving DecidableEq

structure IPv4AddressRange where
  address : IPv4Address
  mask : IPv4Address
deriving DecidableEq

def IPv4AddressRange.containedByRange (range : IPv4AddressRange)
    (otherAddress otherMask : IPv4Address) : Bool :=
  maskedAddrAreEqual otherAddress range.address otherMask && decide (otherMask ≤ range.mask)

def isSameNetwork (address₁ mask₁ address₂ mask₂ : IPv4Address) : Bool :=
  mask₁ == mask₂ && address₁ &&& mask₁ == address₂ &&& mask₂

namespace SummaryLSA

variable (summaryLSA : SummaryLSA)

def isNetwork : Bool := summaryLSA.header.lsType == SUMMARYLSA_NETWORKS_TYPE

def destination : IPv4AddressRange := ⟨summaryLSA.header.linkStateID, summaryLSA.networkMask⟩

/-- `foundMatching` -/
def isMatching (routingEntry : RoutingTableEntry) : Bool :=
  let destination := summaryLSA.destination
  if summaryLSA.isNetwork then
    routingEntry.destinationType == NETWORK_DESTINATION &&
      isSameNetwork destination.address destination.mask routingEntry.destination
        routingEntry.netmask
  else
    routingEntry.destinationType.isRouter && destination.address == routingEntry.destination &&
      destination.mask == routingEntry.netmask

end SummaryLSA

/-- The area, and what it asks its router for. -/
structure Area where
  areaID : AreaID
  routerID : RouterID
  /-- The address ranges of all areas of the router. -/
  addressRanges : List IPv4AddressRange := []

namespace Area

variable (area : Area) (newRoutingTable : List RoutingTableEntry) (summaryLSA : SummaryLSA)
  (currentCost : ℕ)

/-- An intra-area route, or a cheaper inter-area one; the LSA is skipped then. -/
def isBetter (routingEntry : RoutingTableEntry) : Bool :=
  summaryLSA.isMatching routingEntry && (routingEntry.pathType == .INTRAAREA ||
      (routingEntry.pathType == .INTERAREA && decide (routingEntry.cost < currentCost)))

/-- An entry of the list `sameOrWorseCost`. -/
def isSameOrWorse (routingEntry : RoutingTableEntry) : Bool :=
  summaryLSA.isMatching routingEntry && routingEntry.pathType == .INTERAREA &&
    decide (currentCost ≤ routingEntry.cost)

def findSameOrWorseCostRoute : Option (List RoutingTableEntry) :=
  if newRoutingTable.any (isBetter summaryLSA currentCost) then none
  else some (newRoutingTable.filter (isSameOrWorse summaryLSA currentCost))

def createRoutingTableEntryFromSummaryLSA (borderRouterEntry : RoutingTableEntry) :
    RoutingTableEntry :=
  let destination := summaryLSA.destination
  let newEntry : RoutingTableEntry := {
    destination := destination.address
    destinationType := AS_BOUNDARY_ROUTER_DESTINATION
    area := area.areaID
    pathType := .INTERAREA
    cost := currentCost
    linkStateOrigin := some summaryLSA
    nextHops := borderRouterEntry.nextHops }
  if summaryLSA.isNetwork then
    { newEntry with
      destination := destination.address &&& destination.mask
      netmask := destination.mask
      destinationType := NETWORK_DESTINATION }
  else newEntry

/-- The last element with the property is changed. -/
def modifyLast {α : Type} (p : α → Bool) (f : α → α) : List α → List α
  | [] => []
  | x :: xs => if xs.any p then x :: modifyLast p f xs else if p x then f x :: xs else x :: xs

/-- The more expensive entries of `sameOrWorseCost` are erased, and the last one of the others gets
the next hops of the border router. -/
def replaceOrMerge (borderRouterEntry : RoutingTableEntry) : List RoutingTableEntry :=
  let isEqual := fun routingEntry : RoutingTableEntry =>
    isSameOrWorse summaryLSA currentCost routingEntry && routingEntry.cost == currentCost
  let newRoutingTable := newRoutingTable.filter fun routingEntry =>
    !(isSameOrWorse summaryLSA currentCost routingEntry && decide (currentCost < routingEntry.cost))
  if newRoutingTable.any isEqual then
    modifyLast isEqual (fun equalEntry =>
      { equalEntry with nextHops := equalEntry.nextHops ++ borderRouterEntry.nextHops })
      newRoutingTable
  else
    newRoutingTable ++
      [area.createRoutingTableEntryFromSummaryLSA summaryLSA currentCost borderRouterEntry]

def isSkipped : Bool :=
  summaryLSA.routeCost == LS_INFINITY || summaryLSA.header.reachedMaxAge ||
    summaryLSA.header.advertisingRouter == area.routerID

/-- The destination is a configured range that an intra-area route is in. -/
def isInActiveRange : Bool :=
  summaryLSA.isNetwork && area.addressRanges.contains summaryLSA.destination &&
    newRoutingTable.any fun routingEntry =>
      routingEntry.destinationType == NETWORK_DESTINATION && routingEntry.pathType == .INTRAAREA &&
        summaryLSA.destination.containedByRange routingEntry.destination routingEntry.netmask

def isBorderRouter (originatingRouter : RouterID) (routingEntry : RoutingTableEntry) : Bool :=
  routingEntry.area == area.areaID && routingEntry.destinationType.isRouter &&
    routingEntry.destination == originatingRouter

/-- One round of the loop over the summary LSAs. -/
def processSummaryLSA : List RoutingTableEntry :=
  if area.isSkipped summaryLSA then newRoutingTable
  else if area.isInActiveRange newRoutingTable summaryLSA then newRoutingTable
  else
    match newRoutingTable.find? (area.isBorderRouter summaryLSA.header.advertisingRouter) with
    | none => newRoutingTable
    | some borderRouterEntry =>
      let currentCost := (summaryLSA.routeCost + borderRouterEntry.cost) % 2 ^ 16
      match findSameOrWorseCostRoute newRoutingTable summaryLSA currentCost with
      | none => newRoutingTable
      | some [] => newRoutingTable ++
          [area.createRoutingTableEntryFromSummaryLSA summaryLSA currentCost borderRouterEntry]
      | some _ =>
        area.replaceOrMerge newRoutingTable summaryLSA currentCost borderRouterEntry

def calculateInterAreaRoutes (summaryLSAs : List SummaryLSA) : List RoutingTableEntry :=
  summaryLSAs.foldl area.processSummaryLSA newRoutingTable

end Area

end Inet.Ospf
