import Inet.Common.NetworkOrder
import Inet.Ipv4.IPv4Route

/-!
# The handler of OSPF link state updates

`processPacket` works through the LSAs of a packet. What it calls of the rest of the router, with
its link state database, is given by a `Router` over a state `ω`; the interface changes only with
the event `BAD_LINK_STATE_REQUEST`. The acknowledgements and updates that are sent or queued are
events.
-/

namespace Inet.Ospf

open Inet.Ipv4 (IPv4Address)

abbrev RouterID := IPv4Address

def MAX_AGE : ℕ := 3600
def MAX_AGE_DIFF : ℕ := 900
def MIN_LS_ARRIVAL : ℕ := 1
def MAX_SEQUENCE_NUMBER : ℤ := 2147483647

def ROUTERLSA_TYPE : UInt8 := 1
def NETWORKLSA_TYPE : UInt8 := 2
def SUMMARYLSA_NETWORKS_TYPE : UInt8 := 3
def SUMMARYLSA_ASBOUNDARYROUTERS_TYPE : UInt8 := 4
def AS_EXTERNAL_LSA_TYPE : UInt8 := 5

def ALL_OSPF_ROUTERS_MCAST : IPv4Address := 0xE0000005
def ALL_OSPF_DESIGNATED_ROUTERS_MCAST : IPv4Address := 0xE0000006

structure OSPFLSAHeader where
  lsAge : Uint16
  lsType : UInt8
  linkStateID : IPv4Address
  advertisingRouter : IPv4Address
  lsSequenceNumber : ℤ
deriving DecidableEq

structure LSAKeyType where
  linkStateID : IPv4Address
  advertisingRouter : IPv4Address
deriving DecidableEq

namespace OSPFLSAHeader

variable (left right : OSPFLSAHeader)

def lsaKey : LSAKeyType := ⟨left.linkStateID, left.advertisingRouter⟩

def reachedMaxAge : Bool := left.lsAge.toNat == MAX_AGE

def ageDifference : ℕ := ((left.lsAge.toNat : ℤ) - right.lsAge.toNat).natAbs

/-- `operator<`: the left one is older. -/
def isOlder : Bool :=
  if left.lsSequenceNumber < right.lsSequenceNumber then true
  else if left.lsSequenceNumber = right.lsSequenceNumber then
    if !left.reachedMaxAge && right.reachedMaxAge then true
    else if left.reachedMaxAge && !right.reachedMaxAge then false
    else decide (MAX_AGE_DIFF < left.ageDifference right ∧ right.lsAge.toNat < left.lsAge.toNat)
  else false

/-- `operator==` -/
def isSameInstance : Bool :=
  left.lsSequenceNumber == right.lsSequenceNumber && ((left.reachedMaxAge && right.reachedMaxAge) ||
      (!left.reachedMaxAge && !right.reachedMaxAge &&
        decide (left.ageDifference right ≤ MAX_AGE_DIFF)))

/-- No instance is both older and the same. -/
theorem isSameInstance_of_isOlder {left right : OSPFLSAHeader} (h : left.isOlder right = true) :
    left.isSameInstance right = false := by
  unfold isOlder at h
  unfold isSameInstance
  split at h
  · next hlt =>
      have hne := Int.ne_of_lt hlt
      simp [hne]
  · split at h
    · cases hl : left.reachedMaxAge <;> cases hr : right.reachedMaxAge <;>
        simp [hl, hr] at h ⊢
      · intro _
        exact h.1
      · -- with the maximal age both are equally old
        simp only [reachedMaxAge, beq_iff_eq] at hl hr
        omega
    · cases h

end OSPFLSAHeader

structure OSPFLSA (β : Type) where
  header : OSPFLSAHeader
  contents : β

inductive InstallSource where
  | ORIGINATED
  | FLOODED
deriving DecidableEq

/-- An LSA of the database with its `LSATrackingInfo`. -/
structure DatabaseLSA (β : Type) extends OSPFLSA β where
  source : InstallSource
  installTime : ℕ

inductive NeighborState where
  | DOWN
  | ATTEMPT
  | INIT
  | TWOWAY
  | EXCHANGE_START
  | EXCHANGE
  | LOADING
  | FULL
deriving DecidableEq

def NeighborState.atLeastExchange : NeighborState → Bool
  | EXCHANGE | LOADING | FULL => true
  | _ => false

structure Neighbor where
  neighborID : RouterID
  address : IPv4Address
  state : NeighborState
  linkStateRequestList : List LSAKeyType := []
  linkStateRetransmissionList : List LSAKeyType := []
  transmittedLSAs : List LSAKeyType := []

namespace Neighbor

variable (n : Neighbor) (lsaKey : LSAKeyType)

def isLSAOnRequestList : Bool := n.linkStateRequestList.contains lsaKey

/-- Despite its name it looks for the LSA on the retransmission list. -/
def isLinkStateRequestListEmpty : Bool := n.linkStateRetransmissionList.contains lsaKey

def isOnTransmittedLSAList : Bool := n.transmittedLSAs.contains lsaKey

def removeFromRetransmissionList : Neighbor :=
  { n with linkStateRetransmissionList := n.linkStateRetransmissionList.filter (· ≠ lsaKey) }

end Neighbor

inductive InterfaceType where
  | UNKNOWN_TYPE
  | POINTTOPOINT
  | BROADCAST
  | NBMA
  | POINTTOMULTIPOINT
  | VIRTUAL
deriving DecidableEq

inductive InterfaceState where
  | DOWN_STATE
  | LOOPBACK_STATE
  | WAITING_STATE
  | POINTTOPOINT_STATE
  | NOT_DESIGNATED_ROUTER_STATE
  | BACKUP_STATE
  | DESIGNATED_ROUTER_STATE
deriving DecidableEq

structure DesignatedRouterID where
  routerID : RouterID
  ipInterfaceAddress : IPv4Address
deriving DecidableEq

def NULL_DESIGNATEDROUTERID : DesignatedRouterID := ⟨0, 0⟩

structure Interface where
  interfaceType : InterfaceType
  state : InterfaceState
  designatedRouter : DesignatedRouterID

namespace Interface

variable (intf : Interface)

/-- The group for updates and acknowledgements on a broadcast network. -/
def multicastDestination : IPv4Address :=
  if intf.state = .DESIGNATED_ROUTER_STATE ∨ intf.state = .BACKUP_STATE ∨
      intf.designatedRouter = NULL_DESIGNATEDROUTERID then ALL_OSPF_ROUTERS_MCAST
  else ALL_OSPF_DESIGNATED_ROUTERS_MCAST

/-- Where a packet for a neighbour is sent to, given a way to get its address. -/
def destination (neighborAddress : Result IPv4Address) : Result IPv4Address :=
  match intf.interfaceType with
  | .BROADCAST => .ok intf.multicastDestination
  | .POINTTOPOINT => .ok ALL_OSPF_ROUTERS_MCAST
  | _ => neighborAddress

/-- The queues that `addDelayedAcknowledgement` adds the header to. -/
def delayedDestinations (neighboringRouters : List Neighbor) : List IPv4Address :=
  match intf.interfaceType with
  | .BROADCAST => [intf.multicastDestination]
  | _ => (neighboringRouters.filter (·.state.atLeastExchange)).map Neighbor.address

end Interface

inductive Event where
  | delayedAcknowledgement (destinations : List IPv4Address) (header : OSPFLSAHeader)
  | acknowledgement (destination : IPv4Address) (header : OSPFLSAHeader)
  | update (destination : IPv4Address) (header : OSPFLSAHeader)

def Event.isAcknowledgement : Event → Bool
  | delayedAcknowledgement _ _ | acknowledgement _ _ => true
  | update _ _ => false

/-- What the handler uses of the router, for a packet of a given area from a given neighbour. -/
structure Router (ω β : Type) where
  routerID : RouterID
  neighboringRouters : ω → List Neighbor
  neighbor : ω → Neighbor
  updateNeighbor : (Neighbor → Neighbor) → ω → ω
  findLSA : UInt8 → LSAKeyType → ω → Option (DatabaseLSA β)
  externalRoutingCapability : ω → Bool
  hasAnyNeighborInExchangeOrLoading : ω → Bool
  isLocalAddress : IPv4Address → ω → Bool
  /-- Without an interface and a neighbour the LSA is the router's own. -/
  floodLSA : OSPFLSA β → Option Interface → ω → Bool × ω
  removeFromAllRetransmissionLists : LSAKeyType → ω → ω
  installLSA : OSPFLSA β → ω → Bool × ω
  learnedByBGP : β → Bool
  addExternalRouteInIPTable : IPv4Address → β → ω → ω
  /-- Changes the header of the database copy and floods it. -/
  floodDatabaseCopy : UInt8 → LSAKeyType → (OSPFLSAHeader → OSPFLSAHeader) → ω → ω
  badLinkStateRequest : Interface → ω → Interface × ω
  rebuildRoutingTable : ω → ω

structure State (ω : Type) where
  intf : Interface
  router : ω

structure OSPFLinkStateUpdatePacket (β : Type) where
  routerID : RouterID
  routerLSAs : List (OSPFLSA β) := []
  networkLSAs : List (OSPFLSA β) := []
  summaryLSAs : List (OSPFLSA β) := []
  asExternalLSAs : List (OSPFLSA β) := []

structure AcknowledgementFlags where
  floodedBackOut : Bool
  lsaIsNewer : Bool
  lsaIsDuplicate : Bool
  impliedAcknowledgement : Bool
  lsaReachedMaxAge : Bool
  noLSAInstanceInDatabase : Bool
  anyNeighborInExchangeOrLoadingState : Bool

/-- What became of one LSA. -/
structure Processed (ω : Type) where
  state : State ω
  events : List Event := []
  leaveLoop : Bool := false
  shouldRebuildRoutingTable : Bool := false

variable {ω β : Type} (router : Router ω β) (lsaSource : RouterID)

def isLSAType (lsaType : UInt8) : Bool :=
  lsaType == ROUTERLSA_TYPE || lsaType == NETWORKLSA_TYPE || lsaType == SUMMARYLSA_NETWORKS_TYPE ||
    lsaType == SUMMARYLSA_ASBOUNDARYROUTERS_TYPE || lsaType == AS_EXTERNAL_LSA_TYPE

/-- `intf->getNeighborByID(lsaSource)->getAddress()` after its assertion. -/
def sourceAddress (s : ω) : Result IPv4Address :=
  match (router.neighboringRouters s).find? (·.neighborID = lsaSource) with
  | some neighbor => .ok neighbor.address
  | none => .error (.assertion "neighbor")

def sendDirectAcknowledgment (lsaHeader : OSPFLSAHeader) (s : State ω) : Result (List Event) := do
  let destination ← s.intf.destination (sourceAddress router lsaSource s.router)
  .ok [.acknowledgement destination lsaHeader]

def acknowledgeLSA (lsaHeader : OSPFLSAHeader) (flags : AcknowledgementFlags) (s : State ω) :
    Result (List Event) :=
  let delayed := .ok [.delayedAcknowledgement
    (s.intf.delayedDestinations (router.neighboringRouters s.router)) lsaHeader]
  let direct := (flags.lsaIsDuplicate && !flags.impliedAcknowledgement) ||
    (flags.lsaReachedMaxAge && flags.noLSAInstanceInDatabase &&
      flags.anyNeighborInExchangeOrLoadingState)
  if flags.floodedBackOut then .ok []
  else if s.intf.state = .BACKUP_STATE then
    if (flags.lsaIsNewer && lsaSource = s.intf.designatedRouter.routerID) ||
        (flags.lsaIsDuplicate && flags.impliedAcknowledgement) then delayed
    else if direct then sendDirectAcknowledgment router lsaSource lsaHeader s
    else .ok []
  else if flags.lsaIsNewer then delayed
  else if direct then sendDirectAcknowledgment router lsaSource lsaHeader s
  else .ok []

/-- Flooding and installing, up to the acknowledgement: whether the LSA was flooded back out,
whether the routing table is out of date, and the new state. -/
def floodAndInstall (external : Option β) (lsaInDatabase : Option (DatabaseLSA β))
    (currentLSA : OSPFLSA β) (s : State ω) : Bool × Bool × ω :=
  let (floodedBackOut, r) := router.floodLSA currentLSA (some s.intf) s.router
  let r := match lsaInDatabase with
    | some lsa => router.removeFromAllRetransmissionLists lsa.header.lsaKey r
    | none => r
  let (shouldRebuild, r) := router.installLSA currentLSA r
  let r := match external with
    | some contents =>
      if router.learnedByBGP contents then
        router.addExternalRouteInIPTable currentLSA.header.linkStateID contents r
      else r
    | none => r
  (floodedBackOut, shouldRebuild, r)

/-- An LSA of this router is flushed, or its database copy gets a new instance. -/
def advanceOwnLSA (lsaInDatabase : Option (DatabaseLSA β)) (currentLSA : OSPFLSA β) (r : ω) : ω :=
  let header := currentLSA.header
  if header.advertisingRouter = router.routerID ∨
      (header.lsType = NETWORKLSA_TYPE ∧ router.isLocalAddress header.linkStateID r) then
    match lsaInDatabase with
    | none =>
      (router.floodLSA
        { currentLSA with header := { header with lsAge := BitVec.ofNat 16 MAX_AGE } }
        none r).2
    | some _ =>
      router.floodDatabaseCopy header.lsType header.lsaKey (fun copy =>
        if header.lsSequenceNumber = MAX_SEQUENCE_NUMBER then
          { copy with lsAge := BitVec.ofNat 16 MAX_AGE }
        else { copy with lsSequenceNumber := header.lsSequenceNumber + 1 }) r
  else r

def initialFlags (lsaInDatabase : Option (DatabaseLSA β)) (currentLSA : OSPFLSA β) (s : State ω) :
    AcknowledgementFlags where
  floodedBackOut := false
  lsaIsNewer := lsaInDatabase.any (·.header.isOlder currentLSA.header)
  lsaIsDuplicate := lsaInDatabase.any (·.header.isSameInstance currentLSA.header)
  impliedAcknowledgement := false
  lsaReachedMaxAge := currentLSA.header.reachedMaxAge
  noLSAInstanceInDatabase := lsaInDatabase.isNone
  anyNeighborInExchangeOrLoadingState := router.hasAnyNeighborInExchangeOrLoading s.router

def installAndAcknowledge (external : Option β) (lsaInDatabase : Option (DatabaseLSA β))
    (currentLSA : OSPFLSA β) (s : State ω) : Result (Processed ω) := do
  let (floodedBackOut, shouldRebuild, r) :=
    floodAndInstall router external lsaInDatabase currentLSA s
  let flags := { initialFlags router lsaInDatabase currentLSA s with
    floodedBackOut := floodedBackOut }
  let events ← acknowledgeLSA router lsaSource currentLSA.header flags { s with router := r }
  .ok {
    state := { s with router := advanceOwnLSA router lsaInDatabase currentLSA r }
    events := events
    shouldRebuildRoutingTable := shouldRebuild }

/-- The copy was flooded and has been installed too short a time ago to be replaced. -/
def DatabaseLSA.isTooRecent (lsa : DatabaseLSA β) : Bool :=
  lsa.source = .FLOODED && decide (lsa.installTime < MIN_LS_ARRIVAL)

/-- The database copy is the same instance. -/
def processDuplicate (lsaInDatabase : DatabaseLSA β) (currentLSA : OSPFLSA β) (s : State ω) :
    Result (Processed ω) := do
  let lsaKey := currentLSA.header.lsaKey
  let implied := (router.neighbor s.router).isLinkStateRequestListEmpty lsaKey
  let r := if implied then
    router.updateNeighbor (·.removeFromRetransmissionList lsaKey) s.router else s.router
  let events ← acknowledgeLSA router lsaSource currentLSA.header
    { initialFlags router (some lsaInDatabase) currentLSA s with
      impliedAcknowledgement := implied } { s with router := r }
  .ok { state := { s with router := r }, events := events }

/-- The LSA is not newer than the database copy. -/
def processOldLSA (lsaInDatabase : DatabaseLSA β) (currentLSA : OSPFLSA β) (s : State ω) :
    Result (Processed ω) := do
  let lsaKey := currentLSA.header.lsaKey
  let neighbor := router.neighbor s.router
  if neighbor.isLSAOnRequestList lsaKey then
    let (intf, r) := router.badLinkStateRequest s.intf s.router
    .ok { state := ⟨intf, r⟩, leaveLoop := true }
  else if (initialFlags router (some lsaInDatabase) currentLSA s).lsaIsDuplicate then
    processDuplicate router lsaSource lsaInDatabase currentLSA s
  else if lsaInDatabase.header.reachedMaxAge ∧
      lsaInDatabase.header.lsSequenceNumber = MAX_SEQUENCE_NUMBER then .ok { state := s }
  else if neighbor.isOnTransmittedLSAList lsaKey then .ok { state := s }
  else
    let destination ← s.intf.destination (.ok neighbor.address)
    .ok { state := s, events := [.update destination lsaInDatabase.header] }

/-- LSAs of an unknown type, and external ones in a stub area, are not looked at. -/
def isProcessed (currentLSA : OSPFLSA β) (s : State ω) : Bool :=
  isLSAType currentLSA.header.lsType && !(currentLSA.header.lsType == AS_EXTERNAL_LSA_TYPE &&
      !router.externalRoutingCapability s.router)

/-- The body of the loop over the LSAs. -/
def processLSA (external : Option β) (currentLSA : OSPFLSA β) (s : State ω) :
    Result (Processed ω) :=
  if !isProcessed router currentLSA s then .ok { state := s }
  else
    let header := currentLSA.header
    match router.findLSA header.lsType header.lsaKey s.router with
    | none =>
      if header.reachedMaxAge && !router.hasAnyNeighborInExchangeOrLoading s.router then do
        let destination ← s.intf.destination (.ok (router.neighbor s.router).address)
        .ok { state := s, events := [.acknowledgement destination header] }
      else installAndAcknowledge router lsaSource external none currentLSA s
    | some lsaInDatabase =>
      if lsaInDatabase.header.isOlder header then
        if lsaInDatabase.isTooRecent then .ok { state := s }
        else installAndAcknowledge router lsaSource external (some lsaInDatabase) currentLSA s
      else processOldLSA router lsaSource lsaInDatabase currentLSA s

/-- An LSA with the state in which its turn came, and the events of its turn. -/
structure Turn (ω β : Type) where
  external : Option β
  currentLSA : OSPFLSA β
  before : State ω
  events : List Event

structure LoopResult (ω β : Type) where
  turns : List (Turn ω β)
  state : State ω
  shouldRebuildRoutingTable : Bool

def processLSAs (external : Option β) : List (OSPFLSA β) → State ω → Result (LoopResult ω β)
  | [], s => .ok ⟨[], s, false⟩
  | currentLSA :: lsas, s => do
    let p ← processLSA router lsaSource external currentLSA s
    let turn : Turn ω β := ⟨external, currentLSA, s, p.events⟩
    if p.leaveLoop then .ok ⟨[turn], p.state, p.shouldRebuildRoutingTable⟩
    else
      let rest ← processLSAs external lsas p.state
      .ok ⟨turn :: rest.turns, rest.state,
        p.shouldRebuildRoutingTable || rest.shouldRebuildRoutingTable⟩

/-- The loop over the types; the contents of the first external LSA are used for all of them. -/
def processArrays : List (Option β × List (OSPFLSA β)) → State ω → Result (LoopResult ω β)
  | [], s => .ok ⟨[], s, false⟩
  | (external, lsas) :: arrays, s => do
    let first ← processLSAs router lsaSource external lsas s
    let rest ← processArrays arrays first.state
    .ok ⟨first.turns ++ rest.turns, rest.state,
      first.shouldRebuildRoutingTable || rest.shouldRebuildRoutingTable⟩

/-- The arrays of a packet; summary LSAs of both types are in one. -/
def OSPFLinkStateUpdatePacket.arrays (packet : OSPFLinkStateUpdatePacket β) :
    List (Option β × List (OSPFLSA β)) :=
  [(none, packet.routerLSAs), (none, packet.networkLSAs), (none, packet.summaryLSAs),
    (packet.asExternalLSAs.head?.map OSPFLSA.contents, packet.asExternalLSAs)]

def processPacket (packet : OSPFLinkStateUpdatePacket β) (s : State ω) :
    Result (List (Turn ω β) × State ω) :=
  if (router.neighbor s.router).state.atLeastExchange then do
    let result ← processArrays router packet.routerID packet.arrays s
    if result.shouldRebuildRoutingTable then
      .ok (result.turns,
        { result.state with router := router.rebuildRoutingTable result.state.router })
    else .ok (result.turns, result.state)
  else .ok ([], s)

end Inet.Ospf
