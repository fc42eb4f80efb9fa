import Inet.Library.Lists
import Inet.Ospf.RouterLSA

/-!
# The links that a router LSA should have

`describedLinks` has the links that RFC 2328 describes for an interface in section 12.4.1, and
`storedLinks` those that the code adds. They differ where an interface to several neighbours has
an adjacency, and in two more cases (`storedLinks_eq_iff`).
-/

namespace Inet.Ospf.Origination

open Inet.Ipv4 (IPv4Address)
open RouterLSA (addLink)

variable {lsa : RouterLSA}

namespace Interface

open List

variable (intf : Interface) (routerID : RouterID)

def fullNeighbors : List Neighbor := intf.neighboringRouters.filter fun n => n.state = .FULL

def loopbackLinks : List Link :=
  if intf.interfaceType = .POINTTOPOINT ∧ intf.interfaceAddressRange.address = 0 then []
  else [intf.hostStub]

def networkLink : Link :=
  if intf.state = .WAITING_STATE then intf.networkStub
  else if intf.isTransit routerID then intf.transitLink
  else intf.networkStub

/-- The link to the network of a point-to-point interface. There is one if the mask says so; that
the interface has an address is not asked for, here and in the code. -/
def subnetLinks : List Link :=
  if intf.interfaceAddressRange.mask ≠ 0xFFFFFFFF then [intf.networkStub] else []

/-- The link to the address of the neighbour if that is known, else the one to the subnet. -/
def farEndLinks : List Link :=
  match intf.neighboringRouters.head? with
  | some neighbor => if neighbor.address ≠ 0 then [intf.neighborStub neighbor] else intf.subnetLinks
  | none => intf.subnetLinks

/-- The links of section 12.4.1. -/
def describedLinks : List Link :=
  match intf.state with
  | .DOWN_STATE => []
  | .LOOPBACK_STATE => intf.loopbackLinks
  | _ =>
    match intf.interfaceType with
    | .POINTTOPOINT =>
      intf.fullNeighbors.map (intf.pointToPointLink intf.unnumberedData) ++
        if intf.state = .POINTTOPOINT_STATE then intf.farEndLinks else []
    | .BROADCAST | .NBMA => [intf.networkLink routerID]
    | .VIRTUAL => intf.fullNeighbors.map intf.virtualLink
    | .POINTTOMULTIPOINT =>
      intf.hostStub :: intf.fullNeighbors.map
        (intf.pointToPointLink intf.interfaceAddressRange.address.toNat)
    | .UNKNOWN_TYPE => []

def storedPointToPointLinks : List Link :=
  match intf.neighboringRouters.head? with
  | none => []
  | some neighbor =>
    (if neighbor.state = .FULL then
      [intf.pointToPointLink intf.unnumberedData neighbor] else []) ++
    if intf.state = .POINTTOPOINT_STATE then intf.farEndLinks else []

def storedVirtualLinks : List Link :=
  match intf.neighboringRouters.head? with
  | none => []
  | some neighbor => if neighbor.state = .FULL then [intf.virtualLink neighbor] else []

/-- The links that `addLinks` adds. -/
def storedLinks : List Link :=
  match intf.state with
  | .DOWN_STATE => []
  | .LOOPBACK_STATE => intf.loopbackLinks
  | _ =>
    match intf.interfaceType with
    | .POINTTOPOINT => intf.storedPointToPointLinks
    | .BROADCAST | .NBMA => [intf.networkLink routerID]
    | .VIRTUAL => intf.storedVirtualLinks
    | .POINTTOMULTIPOINT => intf.hostStub :: intf.fullNeighbors.map fun _ => intf.hostStub
    | .UNKNOWN_TYPE => []

/-! ## What is added -/

theorem addPointToPointLinks_eq (lsa : RouterLSA) :
    intf.addPointToPointLinks lsa = intf.storedPointToPointLinks.foldl addLink lsa := by
  rw [addPointToPointLinks, storedPointToPointLinks]
  cases hneighbor : intf.neighboringRouters.head? with
  | none => rfl
  | some neighbor =>
    simp only [farEndLinks, hneighbor, subnetLinks]
    split_ifs <;> rfl

theorem addNetworkLink_eq (lsa : RouterLSA) :
    intf.addNetworkLink routerID lsa = lsa.addLink (intf.networkLink routerID) := by
  rw [addNetworkLink, networkLink]
  split_ifs <;> rfl

theorem addVirtualLink_eq (lsa : RouterLSA) :
    intf.addVirtualLink lsa = intf.storedVirtualLinks.foldl addLink lsa := by
  rw [addVirtualLink, storedVirtualLinks]
  cases intf.neighboringRouters.head? with
  | none => rfl
  | some neighbor =>
    dsimp only
    split_ifs <;> rfl

theorem addPointToMultipointLinks_eq (lsa : RouterLSA) : intf.addPointToMultipointLinks lsa =
      (intf.hostStub :: intf.fullNeighbors.map fun _ => intf.hostStub).foldl
        addLink lsa := by
  rw [addPointToMultipointLinks, foldl_cons, foldl_map, fullNeighbors, foldl_filter]
  simp only [decide_eq_true_eq]

theorem addLinks_eq (lsa : RouterLSA) :
    intf.addLinks routerID lsa = (intf.storedLinks routerID).foldl addLink lsa := by
  rw [addLinks, storedLinks]
  cases intf.state with
  | DOWN_STATE => rfl
  | LOOPBACK_STATE =>
    simp only [loopbackLinks, isAboveLoopback, reduceCtorEq, true_and, if_false, Bool.false_eq_true]
    by_cases h : intf.interfaceType = .POINTTOPOINT ∧ intf.interfaceAddressRange.address = 0
    · rw [if_pos h, if_neg (by tauto)]
      rfl
    · rw [if_neg h, if_pos (by tauto)]
      rfl
  | _ =>
    simp only [isAboveLoopback, reduceCtorEq, false_and, if_false, if_true]
    cases intf.interfaceType with
    | UNKNOWN_TYPE => rfl
    | POINTTOPOINT => exact intf.addPointToPointLinks_eq lsa
    | BROADCAST | NBMA => exact intf.addNetworkLink_eq routerID lsa
    | POINTTOMULTIPOINT => exact intf.addPointToMultipointLinks_eq lsa
    | VIRTUAL => exact intf.addVirtualLink_eq lsa

/-! ## When the links are those described -/

/-- The kinds of neighbours and subnets for which the code adds the links described. -/
def IsCovered : Prop :=
  isAboveLoopback intf.state = true → match intf.interfaceType with
    | .POINTTOPOINT =>
      (∀ n ∈ intf.neighboringRouters.tail, n.state ≠ .FULL) ∧
        (intf.neighboringRouters = [] → intf.state = .POINTTOPOINT_STATE →
          intf.interfaceAddressRange.mask = 0xFFFFFFFF)
    | .VIRTUAL => ∀ n ∈ intf.neighboringRouters.tail, n.state ≠ .FULL
    | .POINTTOMULTIPOINT => ∀ n ∈ intf.neighboringRouters, n.state ≠ .FULL
    | _ => True

variable {intf routerID}

theorem fullNeighbors_eq_nil_iff :
    intf.fullNeighbors = [] ↔ ∀ n ∈ intf.neighboringRouters, n.state ≠ .FULL := by
  simp [fullNeighbors, filter_eq_nil_iff]

/-- Only the first neighbour is looked at. -/
theorem fullNeighbors_of_head {neighbor : Neighbor}
    (h : intf.neighboringRouters.head? = some neighbor) :
    intf.fullNeighbors = (if neighbor.state = .FULL then [neighbor] else []) ++
      intf.neighboringRouters.tail.filter fun n => n.state = .FULL := by
  obtain ⟨rest, hrest⟩ := head?_eq_some_iff.mp h
  rw [fullNeighbors, hrest, filter_cons]
  split_ifs <;> simp_all

theorem tail_full_eq_nil_iff : (intf.neighboringRouters.tail.filter fun n => n.state = .FULL) = [] ↔
      ∀ n ∈ intf.neighboringRouters.tail, n.state ≠ .FULL := by
  simp [filter_eq_nil_iff]

/-- The links of a point-to-point interface are at most those described, and are these if only the
first neighbour can be adjacent and there is one for the subnet. -/
theorem storedPointToPointLinks_spec :
    let described := intf.fullNeighbors.map (intf.pointToPointLink intf.unnumberedData) ++
      if intf.state = .POINTTOPOINT_STATE then intf.farEndLinks else []
    intf.storedPointToPointLinks.length ≤ described.length ∧
      (intf.storedPointToPointLinks = described ↔
        (∀ n ∈ intf.neighboringRouters.tail, n.state ≠ .FULL) ∧
          (intf.neighboringRouters = [] → intf.state = .POINTTOPOINT_STATE →
            intf.interfaceAddressRange.mask = 0xFFFFFFFF)) := by
  intro described
  cases hneighbor : intf.neighboringRouters.head? with
  | none =>
    have hnil := head?_eq_none_iff.mp hneighbor
    have hstored : intf.storedPointToPointLinks = [] := by
      rw [storedPointToPointLinks, hneighbor]
    have hdescribed : described =
        if intf.state = .POINTTOPOINT_STATE then intf.subnetLinks else [] := by
      simp only [described, fullNeighbors, hnil, filter_nil, map_nil, nil_append,
        farEndLinks, head?_nil]
    rw [hstored, hdescribed, hnil, @eq_comm _ []]
    refine ⟨Nat.zero_le _, ?_⟩
    by_cases hstate : intf.state = .POINTTOPOINT_STATE
    · simp [hstate, subnetLinks]
    · simp [hstate]
  | some neighbor =>
    have hne : intf.neighboringRouters ≠ [] := by
      rintro hnil
      rw [hnil] at hneighbor
      cases hneighbor
    simp only [described, storedPointToPointLinks, hneighbor, fullNeighbors_of_head hneighbor,
      map_append]
    generalize (if intf.state = .POINTTOPOINT_STATE then intf.farEndLinks else []) = last
    rw [← tail_full_eq_nil_iff]
    have hfirst : (if neighbor.state = .FULL then [neighbor] else []).map
        (intf.pointToPointLink intf.unnumberedData) =
        if neighbor.state = .FULL then [intf.pointToPointLink intf.unnumberedData neighbor]
        else [] := by
      split_ifs <;> rfl
    rw [hfirst, append_assoc]
    refine ⟨by simp only [length_append]; omega, ?_⟩
    simp only [append_cancel_left_eq, self_eq_append_left, map_eq_nil_iff, hne,
      false_implies, and_true]

theorem storedVirtualLinks_spec :
    intf.storedVirtualLinks.length ≤ (intf.fullNeighbors.map intf.virtualLink).length ∧
      (intf.storedVirtualLinks = intf.fullNeighbors.map intf.virtualLink ↔
        ∀ n ∈ intf.neighboringRouters.tail, n.state ≠ .FULL) := by
  rw [storedVirtualLinks, ← tail_full_eq_nil_iff]
  cases hneighbor : intf.neighboringRouters.head? with
  | none =>
    have hnil := head?_eq_none_iff.mp hneighbor
    simp [fullNeighbors, hnil]
  | some neighbor =>
    rw [fullNeighbors_of_head hneighbor]
    dsimp only
    split_ifs <;> simp

theorem storedLinks_spec :
    (intf.storedLinks routerID).length ≤ (intf.describedLinks routerID).length ∧
      (intf.storedLinks routerID = intf.describedLinks routerID ↔ intf.IsCovered) := by
  rw [storedLinks, describedLinks, IsCovered]
  cases hstate : intf.state with
  | DOWN_STATE | LOOPBACK_STATE => simp [isAboveLoopback]
  | _ =>
    cases intf.interfaceType with
    | UNKNOWN_TYPE | BROADCAST | NBMA => simp
    | POINTTOPOINT =>
      have hspec := intf.storedPointToPointLinks_spec
      rw [hstate] at hspec
      simpa [isAboveLoopback] using hspec
    | VIRTUAL => simpa [isAboveLoopback] using intf.storedVirtualLinks_spec
    | POINTTOMULTIPOINT =>
      simp only [isAboveLoopback, forall_const, ← fullNeighbors_eq_nil_iff]
      refine ⟨by simp, ?_⟩
      cases intf.fullNeighbors with
      | nil => simp
      | cons n ns => simp [hostStub, pointToPointLink]

end Interface

/-! ## The whole LSA -/

/-- The array is never longer than its index can tell, and `numberOfLinks` is its length up to
an overflow. -/
structure RouterLSA.Counted (lsa : RouterLSA) : Prop where
  length_le : lsa.links.length ≤ 2 ^ 16
  numberOfLinks_eq : lsa.numberOfLinks = lsa.links.length % 2 ^ 16

theorem RouterLSA.counted_addLink (lsa : RouterLSA) (link : Link) : (lsa.addLink link).Counted := by
  have hlt : lsa.links.length % 2 ^ 16 < 2 ^ 16 := Nat.mod_lt _ (by decide)
  have hlength : (lsa.addLink link).links.length = lsa.links.length % 2 ^ 16 + 1 := by
    rw [addLink, List.length_append, List.length_take, Nat.min_eq_left (Nat.mod_le _ _)]
    rfl
  exact ⟨by omega, by rw [hlength]; rfl⟩

theorem RouterLSA.Counted.foldl_addLink (h : lsa.Counted) (links : List Link) :
    (links.foldl addLink lsa).Counted := by
  induction links generalizing lsa with
  | nil => exact h
  | cons link links ih => exact ih (lsa.counted_addLink link)

/-- While the index does not overflow, links are appended. -/
theorem RouterLSA.links_foldl_addLink {links : List Link}
    (h : lsa.links.length + links.length ≤ 2 ^ 16) :
    (links.foldl addLink lsa).links = lsa.links ++ links := by
  induction links generalizing lsa with
  | nil => simp
  | cons link links ih =>
    rw [List.length_cons] at h
    have hadd : (lsa.addLink link).links = lsa.links ++ [link] := by
      have hindex : lsa.links.length % 2 ^ 16 = lsa.links.length := Nat.mod_eq_of_lt (by omega)
      simp only [addLink, hindex, List.take_length]
    rw [List.foldl_cons, ih, hadd, List.append_assoc]
    · rfl
    · rw [hadd, List.length_append, List.length_singleton]
      omega

/-- What is stored agrees with a list that is not shorter just in case the links that have been
added do, and their number can be counted. -/
theorem RouterLSA.Counted.exact_iff (h : lsa.Counted) (hnil : lsa.links = [])
    {stored described : List Link} (hle : stored.length ≤ described.length) :
    ((stored.foldl addLink lsa).links = described ∧
      (stored.foldl addLink lsa).numberOfLinks = described.length) ↔
    stored = described ∧ described.length < 2 ^ 16 := by
  have hcounted := h.foldl_addLink stored
  constructor
  · rintro ⟨hlinks, hnumber⟩
    have hlt : described.length < 2 ^ 16 := by
      rw [← hnumber, hcounted.numberOfLinks_eq]
      exact Nat.mod_lt _ (by decide)
    refine ⟨?_, hlt⟩
    rw [links_foldl_addLink (by rw [hnil, List.length_nil]; omega), hnil] at hlinks
    exact hlinks
  · rintro ⟨rfl, hlt⟩
    have hlinks : (stored.foldl addLink lsa).links = stored := by
      rw [links_foldl_addLink (by rw [hnil, List.length_nil]; omega), hnil, List.nil_append]
    exact ⟨hlinks, by rw [hcounted.numberOfLinks_eq, hlinks, Nat.mod_eq_of_lt hlt]⟩

namespace Area

variable (area other : Area)

/-- The links of section 12.4.1, interface by interface and host by host. -/
def describedLinks : List Link :=
  area.associatedInterfaces.flatMap (·.describedLinks area.parentRouter.routerID) ++
    area.hostRoutes.map HostRouteParameters.link

def storedLinks : List Link :=
  area.associatedInterfaces.flatMap (·.storedLinks area.parentRouter.routerID) ++
    area.hostRoutes.map HostRouteParameters.link

theorem originateRouterLSA_eq :
    area.originateRouterLSA = area.storedLinks.foldl addLink area.emptyRouterLSA := by
  rw [originateRouterLSA, storedLinks, List.foldl_append, List.foldl_map, List.foldl_flatMap]
  simp only [Interface.addLinks_eq]

/-- The router is adjacent to the router with the given ID, over an interface of a kind that has
point-to-point or virtual links. -/
def IsAdjacentTo (id : RouterID) : Prop :=
  ∃ intf ∈ area.associatedInterfaces, isAboveLoopback intf.state = true ∧
    (intf.interfaceType = .POINTTOPOINT ∨ intf.interfaceType = .VIRTUAL ∨
      intf.interfaceType = .POINTTOMULTIPOINT) ∧
    ∃ n ∈ intf.neighboringRouters, n.state = .FULL ∧ n.neighborID = id

/-- The LSA has the links described, in their order, and counts them. -/
structure IsExact : Prop where
  links_eq : area.originateRouterLSA.links = area.describedLinks
  numberOfLinks_eq : area.originateRouterLSA.numberOfLinks = area.describedLinks.length

/-- The LSAs of two routers are exact, and if the routers are adjacent to each other, then the LSAs
have links to each other. -/
structure DescribesLinks : Prop where
  isExact : area.IsExact
  other_isExact : other.IsExact
  hasLink : area.IsAdjacentTo other.parentRouter.routerID →
    other.IsAdjacentTo area.parentRouter.routerID →
    hasLink (.router area.originateRouterLSA) (.router other.originateRouterLSA) = true ∧
      hasLink (.router other.originateRouterLSA) (.router area.originateRouterLSA) = true

/-- All interfaces are of the kinds that the code covers, and the links can be counted. -/
structure IsCovered : Prop where
  interfaces : ∀ intf ∈ area.associatedInterfaces, intf.IsCovered
  length_lt : area.describedLinks.length < 2 ^ 16

variable {area other}

theorem isExact_iff : area.IsExact ↔ area.IsCovered := by
  have hle : ∀ intf ∈ area.associatedInterfaces,
      (intf.storedLinks area.parentRouter.routerID).length ≤
        (intf.describedLinks area.parentRouter.routerID).length :=
    fun intf _ => Interface.storedLinks_spec.1
  have hlength : area.storedLinks.length ≤ area.describedLinks.length := by
    rw [storedLinks, describedLinks, List.length_append, List.length_append]
    exact Nat.add_le_add_right (List.length_flatMap_le_of_forall hle) _
  have hstored : area.storedLinks = area.describedLinks ↔
      ∀ intf ∈ area.associatedInterfaces, intf.IsCovered := by
    rw [storedLinks, describedLinks, List.append_cancel_right_eq,
      List.flatMap_eq_iff_of_length_le hle]
    exact forall₂_congr fun intf _ => Interface.storedLinks_spec.2
  have hcounted : area.emptyRouterLSA.Counted := ⟨Nat.zero_le _, rfl⟩
  have hexact := hcounted.exact_iff rfl hlength
  rw [← originateRouterLSA_eq, hstored] at hexact
  constructor
  · intro h
    obtain ⟨hinterfaces, hlt⟩ := hexact.mp ⟨h.links_eq, h.numberOfLinks_eq⟩
    exact ⟨hinterfaces, hlt⟩
  · intro h
    obtain ⟨hlinks, hnumber⟩ := hexact.mpr ⟨h.interfaces, h.length_lt⟩
    exact ⟨hlinks, hnumber⟩

/-- Every adjacency has a link with the ID of the neighbour. -/
theorem IsAdjacentTo.exists_link {id : RouterID} (h : area.IsAdjacentTo id) :
    ∃ link ∈ area.describedLinks,
      (link.type = .POINTTOPOINT_LINK ∨ link.type = .VIRTUAL_LINK) ∧ link.linkID = id := by
  obtain ⟨intf, hintf, hstate, htype, n, hn, hfull, rfl⟩ := h
  have hmem : n ∈ intf.fullNeighbors := List.mem_filter.mpr ⟨hn, by simp [hfull]⟩
  suffices hlink : ∃ link ∈ intf.describedLinks area.parentRouter.routerID,
      (link.type = .POINTTOPOINT_LINK ∨ link.type = .VIRTUAL_LINK) ∧ link.linkID = n.neighborID by
    obtain ⟨link, hlink, hspec⟩ := hlink
    exact ⟨link, List.mem_append_left _ (List.mem_flatMap.mpr ⟨intf, hintf, hlink⟩), hspec⟩
  rw [Interface.describedLinks]
  cases hs : intf.state with
  | DOWN_STATE | LOOPBACK_STATE => simp [hs, isAboveLoopback] at hstate
  | _ =>
    obtain htype | htype | htype := htype <;> rw [htype]
    · exact ⟨_, List.mem_append_left _ (List.mem_map_of_mem hmem), .inl rfl, rfl⟩
    · exact ⟨_, List.mem_map_of_mem hmem, .inr rfl, rfl⟩
    · exact ⟨_, List.mem_cons_of_mem _ (List.mem_map_of_mem hmem), .inl rfl, rfl⟩

theorem linkStateID_originateRouterLSA :
    area.originateRouterLSA.header.linkStateID = area.parentRouter.routerID := by
  rw [originateRouterLSA_eq]
  generalize area.storedLinks = links
  suffices h : ∀ lsa : RouterLSA, (links.foldl addLink lsa).header = lsa.header by
    rw [h]
    rfl
  induction links with
  | nil => exact fun _ => rfl
  | cons link links ih => exact fun lsa => ih (lsa.addLink link)

theorem IsExact.hasLink (h : area.IsExact) (hadj : area.IsAdjacentTo other.parentRouter.routerID) :
    Origination.hasLink (.router area.originateRouterLSA) (.router other.originateRouterLSA) =
      true := by
  obtain ⟨link, hlink, htype, hid⟩ := hadj.exists_link
  rw [Origination.hasLink, h.links_eq, List.any_eq_true]
  refine ⟨link, hlink, ?_⟩
  rw [linkStateID_originateRouterLSA, hid]
  simpa using htype

/-- The router LSAs of two routers are as described just in case the interfaces of both
are covered and their links can be counted. -/
theorem describesLinks_iff (area other : Area) :
    area.DescribesLinks other ↔ area.IsCovered ∧ other.IsCovered := by
  constructor
  · intro h
    exact ⟨isExact_iff.mp h.isExact, isExact_iff.mp h.other_isExact⟩
  · rintro ⟨harea, hother⟩
    have hexact := isExact_iff.mpr harea
    have hother_exact := isExact_iff.mpr hother
    exact ⟨hexact, hother_exact, fun hadj hback =>
      ⟨hexact.hasLink hadj, hother_exact.hasLink hback⟩⟩

end Area

/-! ## Two routers on a point-to-multipoint network -/

def exampleInterface (address : IPv4Address) (neighbor : Neighbor) : Interface where
  ifIndex := 1
  interfaceType := .POINTTOMULTIPOINT
  state := .POINTTOPOINT_STATE
  designatedRouter := NULL_DESIGNATEDROUTERID
  interfaceAddressRange := ⟨address, 0xFFFFFF00⟩
  interfaceOutputCost := 10
  neighboringRouters := [neighbor]

def exampleArea (routerID neighborID : RouterID) : Area where
  areaID := 0
  parentRouter := ⟨routerID, 1, false, none⟩
  externalRoutingCapability := true
  associatedInterfaces := [exampleInterface routerID ⟨neighborID, neighborID, .FULL, [], [], []⟩]
  hostRoutes := []

/-- Two adjacent routers on a point-to-multipoint network have no links to each other. -/
theorem not_describesLinks_pointToMultipoint :
    ¬ (exampleArea 0x0A000001 0x0A000002).DescribesLinks (exampleArea 0x0A000002 0x0A000001) := by
  intro h
  have hadj : ∀ a b : RouterID, (exampleArea a b).IsAdjacentTo b := fun a b =>
    ⟨_, List.mem_singleton_self _, rfl, .inr (.inr rfl), _, List.mem_singleton_self _, rfl, rfl⟩
  have hlink := (h.hasLink (hadj 0x0A000001 0x0A000002) (hadj 0x0A000002 0x0A000001)).1
  exact absurd hlink (by decide)

end Inet.Ospf.Origination
