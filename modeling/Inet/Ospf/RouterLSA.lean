import Inet.Ospf.InterAreaRoutes

/-!
# The router LSA of an OSPF area

`originateRouterLSA` goes through the interfaces of the area and adds the links of each, then those
of the host routes. A link is added with an index of type `unsigned short`.
-/

namespace Inet.Ospf.Origination

open Inet.Ipv4 (IPv4Address)

def INITIAL_SEQUENCE_NUMBER : ℤ := -2147483647

inductive LinkType where
  | POINTTOPOINT_LINK
  | TRANSIT_LINK
  | STUB_LINK
  | VIRTUAL_LINK
deriving DecidableEq

/-- A link without TOS data. -/
structure Link where
  type : LinkType
  linkID : IPv4Address
  linkData : ℕ
  linkCost : ℕ

structure RouterLSA where
  header : OSPFLSAHeader
  E_ExternalRoutingCapability : Bool
  V_VirtualLinkEndpoint : Bool
  E_ASBoundaryRouter : Bool
  B_AreaBorderRouter : Bool
  numberOfLinks : ℕ
  links : List Link

/-- An interface, with what `originateRouterLSA` reads of it. -/
structure Interface where
  ifIndex : ℕ
  interfaceType : InterfaceType
  state : InterfaceState
  designatedRouter : DesignatedRouterID
  interfaceAddressRange : IPv4AddressRange
  interfaceOutputCost : ℕ
  neighboringRouters : List Neighbor

structure HostRouteParameters where
  address : IPv4Address
  linkCost : ℕ

/-- The router of an area, with `hasVirtualLink` of its backbone if it has one. -/
structure ParentRouter where
  routerID : RouterID
  areaCount : ℕ
  ASBoundaryRouter : Bool
  backbone : Option (AreaID → Bool)

structure Area where
  areaID : AreaID
  parentRouter : ParentRouter
  externalRoutingCapability : Bool
  associatedInterfaces : List Interface
  hostRoutes : List HostRouteParameters

/-- `state > LOOPBACK_STATE` -/
def isAboveLoopback : InterfaceState → Bool
  | .DOWN_STATE | .LOOPBACK_STATE => false
  | _ => true

namespace Interface

variable (intf : Interface)

/-- What `addNeighbor` leaves for an address is the neighbour that was added last. -/
def getNeighborByAddress (address : IPv4Address) : Option Neighbor :=
  intf.neighboringRouters.reverse.find? fun n => n.address = address

/-- `hasAnyNeighborInStates(Neighbor::FULL_STATE)` -/
def hasFullNeighbor : Bool := intf.neighboringRouters.any fun n => n.state = .FULL

/-- The link to the interface itself. -/
def hostStub : Link := ⟨.STUB_LINK, intf.interfaceAddressRange.address, 0xFFFFFFFF, 0⟩

/-- The link to the network of the interface. -/
def networkStub : Link :=
  ⟨.STUB_LINK, intf.interfaceAddressRange.address &&& intf.interfaceAddressRange.mask,
    intf.interfaceAddressRange.mask.toNat, intf.interfaceOutputCost⟩

/-- The link to the address of a neighbour. -/
def neighborStub (neighbor : Neighbor) : Link :=
  ⟨.STUB_LINK, neighbor.address, 0xFFFFFFFF, intf.interfaceOutputCost⟩

/-- The address of the interface, or its index if it has none. -/
def unnumberedData : ℕ :=
  if intf.interfaceAddressRange.address ≠ 0 then intf.interfaceAddressRange.address.toNat
  else intf.ifIndex

def pointToPointLink (linkData : ℕ) (neighbor : Neighbor) : Link :=
  ⟨.POINTTOPOINT_LINK, neighbor.neighborID, linkData, intf.interfaceOutputCost⟩

def virtualLink (neighbor : Neighbor) : Link :=
  ⟨.VIRTUAL_LINK, neighbor.neighborID, intf.interfaceAddressRange.address.toNat,
    intf.interfaceOutputCost⟩

def transitLink : Link :=
  ⟨.TRANSIT_LINK, intf.designatedRouter.ipInterfaceAddress,
    intf.interfaceAddressRange.address.toNat, intf.interfaceOutputCost⟩

/-- The router is adjacent to the designated router, or is the designated router and has
an adjacency. -/
def isTransit (routerID : RouterID) : Bool :=
  (match intf.getNeighborByAddress intf.designatedRouter.ipInterfaceAddress with
    | some dRouter => decide (dRouter.state = .FULL)
    | none => false) ||
  (intf.designatedRouter.routerID == routerID && intf.hasFullNeighbor)

end Interface

/-- The array is resized to one more than the index, and the link stored there. -/
def RouterLSA.addLink (lsa : RouterLSA) (link : Link) : RouterLSA :=
  let linkIndex := lsa.links.length % 2 ^ 16
  { lsa with
    links := lsa.links.take linkIndex ++ [link]
    numberOfLinks := (linkIndex + 1) % 2 ^ 16 }

namespace Interface

variable (intf : Interface)

def addPointToPointLinks (lsa : RouterLSA) : RouterLSA :=
  match intf.neighboringRouters.head? with
  | none => lsa
  | some neighbor =>
    let lsa :=
      if neighbor.state = .FULL then
        lsa.addLink (intf.pointToPointLink intf.unnumberedData neighbor)
      else lsa
    if intf.state = .POINTTOPOINT_STATE then
      if neighbor.address ≠ 0 then lsa.addLink (intf.neighborStub neighbor)
      else if intf.interfaceAddressRange.mask ≠ 0xFFFFFFFF then lsa.addLink intf.networkStub
      else lsa
    else lsa

/-- Both cases `BROADCAST` and `NBMA`. -/
def addNetworkLink (routerID : RouterID) (lsa : RouterLSA) : RouterLSA :=
  if intf.state = .WAITING_STATE then lsa.addLink intf.networkStub
  else if intf.isTransit routerID then lsa.addLink intf.transitLink
  else lsa.addLink intf.networkStub

def addVirtualLink (lsa : RouterLSA) : RouterLSA :=
  match intf.neighboringRouters.head? with
  | none => lsa
  | some neighbor =>
    if neighbor.state = .FULL then lsa.addLink (intf.virtualLink neighbor) else lsa

/-- For each adjacency a link is made, but `stubLink` is stored. -/
def addPointToMultipointLinks (lsa : RouterLSA) : RouterLSA :=
  let stubLink := intf.hostStub
  intf.neighboringRouters.foldl
    (fun lsa neighbor => if neighbor.state = .FULL then lsa.addLink stubLink else lsa)
    (lsa.addLink stubLink)

/-- One round of the loop over the interfaces. -/
def addLinks (routerID : RouterID) (lsa : RouterLSA) : RouterLSA :=
  if intf.state = .DOWN_STATE then lsa
  else
    let lsa :=
      if intf.state = .LOOPBACK_STATE ∧
          (intf.interfaceType ≠ .POINTTOPOINT ∨ intf.interfaceAddressRange.address ≠ 0) then
        lsa.addLink intf.hostStub
      else lsa
    if isAboveLoopback intf.state then
      match intf.interfaceType with
      | .POINTTOPOINT => intf.addPointToPointLinks lsa
      | .BROADCAST | .NBMA => intf.addNetworkLink routerID lsa
      | .VIRTUAL => intf.addVirtualLink lsa
      | .POINTTOMULTIPOINT => intf.addPointToMultipointLinks lsa
      | .UNKNOWN_TYPE => lsa
    else lsa

end Interface

def HostRouteParameters.link (hostRoute : HostRouteParameters) : Link :=
  ⟨.STUB_LINK, hostRoute.address, 0xFFFFFFFF, hostRoute.linkCost⟩

namespace Area

variable (area : Area)

/-- The LSA before the loops. -/
def emptyRouterLSA : RouterLSA where
  header :=
    { lsAge := 0
      lsType := ROUTERLSA_TYPE
      linkStateID := area.parentRouter.routerID
      advertisingRouter := area.parentRouter.routerID
      lsSequenceNumber := INITIAL_SEQUENCE_NUMBER }
  E_ExternalRoutingCapability := area.externalRoutingCapability
  V_VirtualLinkEndpoint :=
    match area.parentRouter.backbone with
    | none => false
    | some hasVirtualLink => hasVirtualLink area.areaID
  E_ASBoundaryRouter := area.externalRoutingCapability && area.parentRouter.ASBoundaryRouter
  B_AreaBorderRouter := decide (1 < area.parentRouter.areaCount)
  numberOfLinks := 0
  links := []

def originateRouterLSA : RouterLSA :=
  let routerLSA := area.associatedInterfaces.foldl
    (fun lsa intf => intf.addLinks area.parentRouter.routerID lsa) area.emptyRouterLSA
  area.hostRoutes.foldl (fun lsa hostRoute => lsa.addLink hostRoute.link) routerLSA

end Area

/-! ## Links between LSAs -/

structure NetworkLSA where
  header : OSPFLSAHeader
  networkMask : IPv4Address
  attachedRouters : List IPv4Address

/-- An LSA, as far as `dynamic_cast` tells its class. -/
inductive LSA where
  | router (lsa : RouterLSA)
  | network (lsa : NetworkLSA)
  | other

/-- `Area::hasLink`. -/
def hasLink : LSA → LSA → Bool
  | .router fromLSA, .router toLSA =>
    fromLSA.links.any fun link =>
      (link.type == .POINTTOPOINT_LINK || link.type == .VIRTUAL_LINK) &&
        link.linkID == toLSA.header.linkStateID
  | .router fromLSA, .network toLSA =>
    fromLSA.links.any fun link =>
      (link.type == .TRANSIT_LINK && link.linkID == toLSA.header.linkStateID) ||
      (link.type == .STUB_LINK && link.linkID &&& BitVec.ofNat 32 link.linkData ==
        toLSA.header.linkStateID &&& toLSA.networkMask)
  | .network fromLSA, .router toLSA =>
    fromLSA.attachedRouters.any fun router => router == toLSA.header.linkStateID
  | _, _ => false

end Inet.Ospf.Origination
