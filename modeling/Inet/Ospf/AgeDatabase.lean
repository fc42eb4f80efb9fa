import Inet.Library.ObjectStore
import Inet.Library.Run
import Inet.Ospf.RouterLinks
import Inet.Ospf.SummaryLSAs

/-!
# The link state database of an OSPF area

The LSAs of each kind are held by a vector and by a map from their IDs. They are installed, and
`ageDatabase` ages them every second, with the same loop for each of the three kinds (`LSAKind`).
What the loop learns from the routing table and does to the retransmission lists is a `Routing`.
The installation times are left out, and so are the recalculation of the routing table and the aging
of the lists of transmitted LSAs at the end of `ageDatabase`.
-/

namespace Inet.Ospf.Aging

open Inet.Ipv4 (IPv4Address)
open Inet.Ospf.Origination (RouterLSA NetworkLSA INITIAL_SEQUENCE_NUMBER)

def LS_REFRESH_TIME : ℕ := 1800

/-- An LSA with a header that can be written. -/
class HasHeader (α : Type) where
  header : α → OSPFLSAHeader
  withHeader : α → OSPFLSAHeader → α
  header_withHeader : ∀ lsa h, header (withHeader lsa h) = h

open HasHeader (header withHeader header_withHeader)

instance : HasHeader RouterLSA where
  header := RouterLSA.header
  withHeader lsa h := { lsa with header := h }
  header_withHeader _ _ := rfl

instance : HasHeader NetworkLSA where
  header := NetworkLSA.header
  withHeader lsa h := { lsa with header := h }
  header_withHeader _ _ := rfl

instance : HasHeader Summaries.SummaryLSA where
  header lsa := lsa.header
  withHeader lsa h := { lsa with header := h }
  header_withHeader _ _ := rfl

structure Databases where
  routerLSAs : ObjectStore IPv4Address RouterLSA
  networkLSAs : ObjectStore IPv4Address NetworkLSA
  summaryLSAs : ObjectStore LSAKeyType Summaries.SummaryLSA

/-- What the area asks its router for. -/
structure Routing where
  isDestinationUnreachable : Databases → OSPFLSAHeader → Bool
  /-- The area and the routing table, as `originateSummaryLSA` reads them. -/
  summaries : Databases → Summaries.Area
  /-- The interfaces after an LSA has been flooded. -/
  floodLSA : OSPFLSAHeader → List Origination.Interface → List Origination.Interface

/-- An area with its databases, and the LSAs that the last tick has flooded. -/
structure Area extends Databases where
  origination : Origination.Area
  routing : Routing
  flooded : List OSPFLSAHeader

/-! ## Interfaces -/

namespace Area

variable (area : Area)

def routerID : RouterID := area.origination.parentRouter.routerID

def associatedInterfaces : List Origination.Interface := area.origination.associatedInterfaces

def withInterfaces (interfaces : List Origination.Interface) : Area :=
  { area with origination := { area.origination with associatedInterfaces := interfaces } }

/-- `getInterface(address)`. -/
def getInterface (address : IPv4Address) : Option Origination.Interface :=
  area.associatedInterfaces.find? fun intf =>
    intf.interfaceType != .VIRTUAL && intf.interfaceAddressRange.address == address

def isOnAnyRetransmissionList (lsaKey : LSAKeyType) : Bool :=
  area.associatedInterfaces.any fun intf =>
    intf.neighboringRouters.any fun neighbor => neighbor.linkStateRetransmissionList.contains lsaKey

/-- Some neighbour is in the state EXCHANGE or LOADING. -/
def hasExchangingNeighbor : Bool :=
  area.associatedInterfaces.any fun intf =>
    intf.neighboringRouters.any fun neighbor =>
      neighbor.state == .EXCHANGE || neighbor.state == .LOADING

def removeFromAllRetransmissionLists (lsaKey : LSAKeyType) : Area :=
  area.withInterfaces <| area.associatedInterfaces.map fun intf =>
    { intf with
      neighboringRouters :=
        intf.neighboringRouters.map (·.removeFromRetransmissionList lsaKey) }

def floodLSA (lsa : OSPFLSAHeader) : Area :=
  { area.withInterfaces (area.routing.floodLSA lsa area.associatedInterfaces) with
    flooded := area.flooded ++ [lsa] }

/-- The age and the sequence number are written by the caller. -/
def originateNetworkLSA (intf : Origination.Interface) : Option NetworkLSA :=
  if intf.hasFullNeighbor then
    some
      { header :=
          { lsAge := 0
            lsType := NETWORKLSA_TYPE
            linkStateID := intf.interfaceAddressRange.address
            advertisingRouter := area.routerID
            lsSequenceNumber := INITIAL_SEQUENCE_NUMBER }
        networkMask := intf.interfaceAddressRange.mask
        attachedRouters :=
          (intf.neighboringRouters.filter (·.state == .FULL)).map Neighbor.neighborID ++
            [area.routerID] }
  else none

end Area

/-! ## The loop -/

/-- What the three loops differ in. Where `erases` is false an LSA that cannot be originated anew is
deleted without being erased; it can always be. -/
structure LSAKind (κ α : Type) [HasHeader α] where
  get : Databases → ObjectStore κ α
  set : Databases → ObjectStore κ α → Databases
  get_set : ∀ databases store, get (set databases store) = store
  set_get : ∀ databases, set databases (get databases) = databases
  set_set : ∀ databases store store', set (set databases store) store' = set databases store'
  key : LSAKeyType → κ
  selfOriginated : Area → OSPFLSAHeader → Bool
  originate : Area → α → Option α
  lsAge_originate : ∀ {area lsa newLSA},
    originate area lsa = some newLSA → (header newLSA).lsAge = 0
  erases : Bool
  originate_ne_none : erases = false → ∀ {area lsa},
    selfOriginated area (header lsa) = true → originate area lsa ≠ none

namespace LSAKind

variable {κ α : Type} [DecidableEq κ] [HasHeader α] (kind : LSAKind κ α) (area : Area) (p : ℕ)
  (lsa newLSA : α)

def lsas : ObjectStore κ α := kind.get area.toDatabases

def withLSAs (store : ObjectStore κ α) : Area :=
  { area with toDatabases := kind.set area.toDatabases store }

def keyOf : κ := kind.key (header lsa).lsaKey

/-- The LSA gets the age `MAX_AGE` and is flooded. -/
def flush : Area :=
  let maxAged := withHeader lsa { header lsa with lsAge := BitVec.ofNat 16 MAX_AGE }
  (kind.withLSAs area ((kind.lsas area).write p maxAged)).floodLSA (header maxAged)

/-- The LSA is updated with a new one and flooded. -/
def refresh (sequenceNumber : ℤ) : Area :=
  let updated := withHeader newLSA { header newLSA with lsSequenceNumber := sequenceNumber }
  (kind.withLSAs area ((kind.lsas area).write p updated)).floodLSA (header updated)

def remove : Area := kind.withLSAs area ((kind.lsas area).remove p (kind.keyOf lsa))

def isUnreachable : Bool :=
  area.routing.isDestinationUnreachable area.toDatabases (header lsa)

/-- A self-originated LSA that is due to be refreshed. -/
def refreshDue : Area :=
  let sequenceNumber := (header lsa).lsSequenceNumber
  if isUnreachable area lsa ∨ sequenceNumber = MAX_SEQUENCE_NUMBER then kind.flush area p lsa
  else
    match kind.originate area lsa with
    | some newLSA => kind.refresh area p newLSA (sequenceNumber + 1)
    | none => kind.flush area p lsa

/-- An LSA that has reached `MAX_AGE` and is not needed any more. -/
def replaceMaxAged : Area :=
  let sequenceNumber := (header lsa).lsSequenceNumber
  if kind.selfOriginated area (header lsa) = false ∨ isUnreachable area lsa then
    kind.remove area p lsa
  else
    match kind.originate area lsa with
    | some newLSA =>
      kind.refresh area p newLSA
        (if sequenceNumber = MAX_SEQUENCE_NUMBER then INITIAL_SEQUENCE_NUMBER
        else sequenceNumber + 1)
    | none =>
      if kind.erases then kind.remove area p lsa
      else kind.withLSAs area ((kind.lsas area).dispose p)

/-- One round of the loop. An emptied place of the vector is erased at once, not after the loop. The
cases exclude one another. -/
def ageLSA : Result Area :=
  match (kind.lsas area).heap p with
  | none => .error .danglingPointer
  | some lsa =>
    let lsAge := (header lsa).lsAge.toNat
    let selfOriginated := kind.selfOriginated area (header lsa)
    if (selfOriginated = true ∧ lsAge < LS_REFRESH_TIME - 1) ∨
        (selfOriginated = false ∧ lsAge < MAX_AGE - 1) then
      .ok (kind.withLSAs area ((kind.lsas area).write p
        (withHeader lsa { header lsa with lsAge := (header lsa).lsAge + 1 })))
    else if selfOriginated = true ∧ lsAge = LS_REFRESH_TIME - 1 then
      .ok (kind.refreshDue area p lsa)
    else if selfOriginated = false ∧ lsAge = MAX_AGE - 1 then .ok (kind.flush area p lsa)
    else if lsAge = MAX_AGE ∧ ¬ (area.isOnAnyRetransmissionList (header lsa).lsaKey ∨
        area.hasExchangingNeighbor) then .ok (kind.replaceMaxAged area p lsa)
    else .ok area

def ageLSAs : Result Area := Run.exec kind.ageLSA area (kind.lsas area).vector

/-- An LSA with the same ID is updated. -/
def install : Result Area :=
  match (kind.lsas area).byKey (kind.keyOf lsa) with
  | some p =>
    match (kind.lsas area).heap p with
    | some _ =>
      .ok (kind.withLSAs (area.removeFromAllRetransmissionLists (header lsa).lsaKey)
        ((kind.lsas area).write p lsa))
    | none => .error .danglingPointer
  | none => .ok (kind.withLSAs area ((kind.lsas area).insert (kind.keyOf lsa) lsa))

end LSAKind

theorem header_foldl_addLink (lsa : RouterLSA) (links : List Origination.Link) :
    (links.foldl RouterLSA.addLink lsa).header = lsa.header := by
  induction links generalizing lsa with
  | nil => rfl
  | cons link links ih => exact ih _

theorem header_originateRouterLSA (area : Origination.Area) :
    area.originateRouterLSA.header = area.emptyRouterLSA.header := by
  rw [Origination.Area.originateRouterLSA_eq, header_foldl_addLink]

def routerLSAs : LSAKind IPv4Address RouterLSA where
  get := Databases.routerLSAs
  set databases store := { databases with routerLSAs := store }
  get_set _ _ := rfl
  set_get _ := rfl
  set_set _ _ _ := rfl
  key := LSAKeyType.linkStateID
  selfOriginated area header := header.advertisingRouter == area.routerID
  originate area _ := some area.origination.originateRouterLSA
  lsAge_originate := by
    intro area lsa newLSA h
    cases h
    exact congrArg OSPFLSAHeader.lsAge (header_originateRouterLSA area.origination)
  erases := false
  originate_ne_none := by simp

/-- The interface with the address of the network belongs to the designated router. -/
def isDesignatedRouter (intf : Origination.Interface) : Bool :=
  intf.state == .DESIGNATED_ROUTER_STATE && decide (0 < intf.neighboringRouters.length) &&
    intf.hasFullNeighbor

theorem Area.originateNetworkLSA_ne_none (area : Area) {intf : Origination.Interface}
    (h : isDesignatedRouter intf = true) : area.originateNetworkLSA intf ≠ none := by
  have hfull : intf.hasFullNeighbor = true := (Bool.and_eq_true_iff.mp h).2
  simp [originateNetworkLSA, hfull]

def networkLSAs : LSAKind IPv4Address NetworkLSA where
  get := Databases.networkLSAs
  set databases store := { databases with networkLSAs := store }
  get_set _ _ := rfl
  set_get _ := rfl
  set_set _ _ _ := rfl
  key := LSAKeyType.linkStateID
  selfOriginated area header := (area.getInterface header.linkStateID).any isDesignatedRouter
  originate area lsa := (area.getInterface lsa.header.linkStateID).bind area.originateNetworkLSA
  lsAge_originate := by
    intro area lsa newLSA h
    obtain ⟨intf, -, h⟩ := Option.bind_eq_some_iff.mp h
    unfold Area.originateNetworkLSA at h
    split_ifs at h
    cases h
    rfl
  erases := false
  originate_ne_none := by
    intro _ area lsa hself
    obtain ⟨intf, hintf, hdesignated⟩ := (Option.any_eq_true _ _).mp hself
    have hfind : area.getInterface lsa.header.linkStateID = some intf := hintf
    rw [hfind, Option.bind_some]
    exact area.originateNetworkLSA_ne_none hdesignated

def summaryLSAs : LSAKind LSAKeyType Summaries.SummaryLSA where
  get := Databases.summaryLSAs
  set databases store := { databases with summaryLSAs := store }
  get_set _ _ := rfl
  set_get _ := rfl
  set_set _ _ _ := rfl
  key := id
  selfOriginated area header := header.advertisingRouter == area.routerID
  originate area lsa := (area.routing.summaries area.toDatabases).originateSummaryLSAFor lsa
  lsAge_originate h := Summaries.Area.lsAge_originateSummaryLSAFor h
  erases := true
  originate_ne_none := by simp

namespace Area

variable (area : Area)

def ageDatabase : Result Area := do
  let area ← routerLSAs.ageLSAs { area with flooded := [] }
  let area ← networkLSAs.ageLSAs area
  summaryLSAs.ageLSAs area

/-! ## The states of the interfaces -/

/-- The changes of state after which the router LSA is originated anew. -/
def changesRouterLSA (intf : Origination.Interface) (nextState : InterfaceState) : Bool :=
  let oneIs := fun state => intf.state == state || nextState == state
  oneIs .DOWN_STATE || oneIs .LOOPBACK_STATE || oneIs .DESIGNATED_ROUTER_STATE ||
    (intf.interfaceType == .POINTTOPOINT && oneIs .POINTTOPOINT_STATE) ||
    ((intf.interfaceType == .BROADCAST || intf.interfaceType == .NBMA) && oneIs .WAITING_STATE)

def renewRouterLSA : Result Area :=
  let newLSA := area.origination.originateRouterLSA
  match (routerLSAs.lsas area).byKey area.routerID with
  | some p =>
    match (routerLSAs.lsas area).heap p with
    | none => .error .danglingPointer
    | some routerLSA =>
      let sequenceNumber := routerLSA.header.lsSequenceNumber
      if sequenceNumber = MAX_SEQUENCE_NUMBER then .ok (routerLSAs.flush area p routerLSA)
      else .ok (routerLSAs.refresh area p newLSA (sequenceNumber + 1))
  | none => do
      let area ← routerLSAs.install area newLSA
      .ok (area.floodLSA newLSA.header)

/-- The network LSA of an interface, if there is one, is flushed. -/
def flushNetworkLSA (intf : Origination.Interface) : Result Area :=
  match (networkLSAs.lsas area).byKey intf.interfaceAddressRange.address with
  | none => .ok area
  | some p =>
    match (networkLSAs.lsas area).heap p with
    | none => .error .danglingPointer
    | some networkLSA => .ok (networkLSAs.flush area p networkLSA)

def renewNetworkLSA (intf : Origination.Interface) : Result Area :=
  match area.originateNetworkLSA intf with
  | none => area.flushNetworkLSA intf
  | some newLSA => do
      let area ← networkLSAs.install area newLSA
      .ok (area.floodLSA newLSA.header)

def doIf (cond : Bool) (f : Area → Result Area) : Result Area := if cond then f area else .ok area

/-- `InterfaceState::changeState` for the `i`-th interface. -/
def changeState (i : ℕ) (nextState : InterfaceState) : Result Area :=
  match area.associatedInterfaces[i]? with
  | none => .ok area
  | some intf => do
      let area := area.withInterfaces
        (area.associatedInterfaces.set i { intf with state := nextState })
      let area ← area.doIf (changesRouterLSA intf nextState) renewRouterLSA
      let area ← area.doIf (nextState == .DESIGNATED_ROUTER_STATE) (·.renewNetworkLSA intf)
      area.doIf (intf.state == .DESIGNATED_ROUTER_STATE) (·.flushNetworkLSA intf)

end Area

/-- An LSA is installed, an interface changes its state, anything else about the interfaces or the
routing table changes, or a second passes. -/
inductive Event where
  | installRouterLSA (lsa : RouterLSA)
  | installNetworkLSA (lsa : NetworkLSA)
  | installSummaryLSA (lsa : Summaries.SummaryLSA)
  | changeState (i : ℕ) (nextState : InterfaceState)
  | change (origination : Origination.Area) (routing : Routing)
  | ageDatabase

def step (area : Area) : Event → Result Area
  | .installRouterLSA lsa => routerLSAs.install area lsa
  | .installNetworkLSA lsa => networkLSAs.install area lsa
  | .installSummaryLSA lsa => summaryLSAs.install area lsa
  | .changeState i nextState => area.changeState i nextState
  | .change origination routing =>
    if origination.associatedInterfaces.map (·.state) = area.associatedInterfaces.map (·.state)
    then .ok { area with origination, routing }
    else .ok area
  | .ageDatabase => area.ageDatabase

def Databases.empty : Databases := ⟨.empty, .empty, .empty⟩

/-- An area without LSAs. -/
def Area.initial (origination : Origination.Area) (routing : Routing) : Area :=
  { Databases.empty with origination, routing, flooded := [] }

end Inet.Ospf.Aging
