import Inet.Ospf.RouterLSA

/-!
# The summary LSAs of an OSPF area

`originateSummaryLSA` makes the summary LSA that an area gets for a routing table entry of another
area. For an intra-area network inside a configured address range, RFC 2328 asks in section 12.4.3
for one LSA of the whole range, with the largest cost of its component networks
(`DescribesRange`). The function finds the range and its cost, but writes the mask and the cost of
the one component into the LSA (`originateSummaryLSA_component`).

The entries of one range are handed over one after another, by a caller that installs and remembers
what it gets. After the first LSA the others give none (`Blocked`), unless the LSA of the range has
been overwritten by the renamed copy that comes with it (`Displaces`).
-/

namespace Inet.Ospf.Summaries

open Inet.Ipv4 (IPv4Address)
open Inet.Ipv4.IPv4Address (maskedAddrAreEqual)
open Inet.Ospf.Origination (INITIAL_SEQUENCE_NUMBER)

def BACKBONE_AREAID : AreaID := 0

def NULL_IPV4ADDRESSRANGE : IPv4AddressRange := ⟨0, 0⟩

/-- A summary LSA with the option that it is given, without TOS data. -/
structure SummaryLSA extends Ospf.SummaryLSA where
  E_ExternalRoutingCapability : Bool

def makeBroadcastAddress (address netmask : IPv4Address) : IPv4Address := address ||| ~~~netmask

def containsRange (range : IPv4AddressRange) (otherAddress otherMask : IPv4Address) : Bool :=
  maskedAddrAreEqual range.address otherAddress range.mask && decide (range.mask ≤ otherMask)

/-! ## The router -/

structure Interface where
  ifIndex : ℕ
  interfaceType : InterfaceType
  areaID : AreaID

/-- The configuration of an area. The value of `advertiseAddressRanges` stands beside each range. -/
structure AreaConfig where
  areaAddressRanges : List (IPv4AddressRange × Bool)
  associatedInterfaces : List Interface

/-- The router of an area. `getPreferredEntry` is the answer for the link state origin of an entry,
with `skipSelfOriginated` false. -/
structure Router where
  routerID : RouterID
  areas : List AreaConfig
  routingTable : List RoutingTableEntry
  getPreferredEntry : RoutingTableEntry → Option RoutingTableEntry := fun _ => none

namespace AreaConfig

variable (config : AreaConfig)

/-- The first range that contains the other one, and whether it is advertised. -/
def getContainingAddressRange (addressRange : IPv4AddressRange) : IPv4AddressRange × Bool :=
  match config.areaAddressRanges.find? fun r =>
      containsRange r.1 addressRange.address addressRange.mask with
  | some r => r
  | none => (NULL_IPV4ADDRESSRANGE, false)

def getInterface (ifIndex : ℕ) : Option Interface :=
  config.associatedInterfaces.find? fun intf =>
    intf.interfaceType != .VIRTUAL && intf.ifIndex == ifIndex

end AreaConfig

namespace Router

variable (router : Router)

/-- The loop over the areas. -/
def containingAddressRange (addressRange : IPv4AddressRange) :
    List AreaConfig → IPv4AddressRange × Bool
  | [] => (NULL_IPV4ADDRESSRANGE, false)
  | config :: areas =>
    let found := config.getContainingAddressRange addressRange
    if found.1 ≠ NULL_IPV4ADDRESSRANGE then found else containingAddressRange addressRange areas

def getContainingAddressRange (addressRange : IPv4AddressRange) : IPv4AddressRange × Bool :=
  containingAddressRange addressRange router.areas

/-- The index is an `unsigned char`. -/
def getNonVirtualInterface (ifIndex : ℤ) : Option Interface :=
  router.areas.findSome? (·.getInterface (ifIndex % 256).toNat)

end Router

/-! ## The area -/

/-- A map from the keys of the summary LSAs to the LSAs. -/
structure SummaryLSAMap where
  find : LSAKeyType → Option SummaryLSA
  keyed : ∀ {key lsa}, find key = some lsa → lsa.header.lsaKey = key

namespace SummaryLSAMap

def empty : SummaryLSAMap := ⟨fun _ => none, fun h => by cases h⟩

variable (map : SummaryLSAMap) (lsa : SummaryLSA)

def insert : SummaryLSAMap where
  find := Function.update map.find lsa.header.lsaKey (some lsa)
  keyed := by
    intro key lsa' h
    by_cases hkey : key = lsa.header.lsaKey
    · subst hkey
      rw [Function.update_self] at h
      rw [Option.some.inj h]
    · rw [Function.update_of_ne hkey] at h
      exact map.keyed h

@[simp] theorem find_insert_self : (map.insert lsa).find lsa.header.lsaKey = some lsa :=
  Function.update_self _ _ _

end SummaryLSAMap

/-- An area with the summary LSAs of its database. -/
structure Area where
  areaID : AreaID
  parentRouter : Router
  externalRoutingCapability : Bool
  transitCapability : Bool
  summaryLSAsByID : SummaryLSAMap

namespace Area

variable (area : Area) (entry : RoutingTableEntry) (range : IPv4AddressRange)
  (originatedLSAs : List LSAKeyType)

/-- The key of an own LSA. -/
def ownKey (linkStateID : IPv4Address) : LSAKeyType := ⟨linkStateID, area.parentRouter.routerID⟩

/-- The copy of an LSA that is to replace it, for another destination with the same address. -/
def reoriginate (foundLSA : SummaryLSA) (destination : IPv4AddressRange) (destinationCost : ℕ) :
    SummaryLSA :=
  let sequenceNumber := foundLSA.header.lsSequenceNumber
  { foundLSA with
    header := { foundLSA.header with
      lsAge := 0
      lsSequenceNumber :=
        if sequenceNumber = MAX_SEQUENCE_NUMBER then INITIAL_SEQUENCE_NUMBER
        else sequenceNumber + 1 }
    networkMask := destination.mask
    routeCost := destinationCost }

/-- The link state ID, and `lsaToReoriginate`. -/
def getUniqueLinkStateID (destination : IPv4AddressRange) (destinationCost : ℕ) :
    IPv4Address × Option SummaryLSA :=
  match area.summaryLSAsByID.find (area.ownKey destination.address) with
  | none => (destination.address, none)
  | some foundLSA =>
    let existingMask := foundLSA.networkMask
    if destination.mask = existingMask then (destination.address, none)
    else if existingMask ≤ destination.mask then
      (makeBroadcastAddress destination.address destination.mask, none)
    else
      (makeBroadcastAddress destination.address existingMask,
        some (reoriginate foundLSA destination destinationCost))

/-- A new LSA, which has the mask and the cost of the entry in all cases. -/
def newSummaryLSA (lsType : UInt8) (linkStateID : IPv4Address) : SummaryLSA where
  header :=
    { lsAge := 0
      lsType
      linkStateID
      advertisingRouter := area.parentRouter.routerID
      lsSequenceNumber := INITIAL_SEQUENCE_NUMBER }
  networkMask := entry.netmask
  routeCost := entry.cost
  E_ExternalRoutingCapability := area.externalRoutingCapability

/-- A copy of an LSA under another link state ID. -/
def renamed (summaryLSA : SummaryLSA) (newLinkStateID : IPv4Address) : SummaryLSA :=
  { summaryLSA with
    header := { summaryLSA.header with
      lsAge := 0, lsSequenceNumber := INITIAL_SEQUENCE_NUMBER, linkStateID := newLinkStateID } }

/-- The copy of the LSA of the entry that goes with `lsaToReoriginate`. -/
def renamedWith (newLinkStateID : IPv4Address) (lsaToReoriginate : SummaryLSA) :
    Option SummaryLSA × Option SummaryLSA :=
  match area.summaryLSAsByID.find (area.ownKey entry.destination) with
  | none => (none, none)
  | some summaryLSA => (some (renamed summaryLSA newLinkStateID), some lsaToReoriginate)

/-- The entry is summarised on its own. -/
def originateNetwork : Option SummaryLSA × Option SummaryLSA :=
  match area.getUniqueLinkStateID ⟨entry.destination, entry.netmask⟩ entry.cost with
  | (newLinkStateID, some lsaToReoriginate) =>
    area.renamedWith entry newLinkStateID lsaToReoriginate
  | (newLinkStateID, none) =>
    (some (area.newSummaryLSA entry SUMMARYLSA_NETWORKS_TYPE newLinkStateID), none)

/-- An intra-area network in the range. -/
def isInRange (routingEntry : RoutingTableEntry) : Bool :=
  routingEntry.destinationType == NETWORK_DESTINATION && routingEntry.pathType == .INTRAAREA &&
    containsRange range routingEntry.destination routingEntry.netmask

/-- One round of the loop over the routing table. -/
def largerCost (maxRangeCost : ℕ) (routingEntry : RoutingTableEntry) : ℕ :=
  if isInRange range routingEntry ∧ maxRangeCost < routingEntry.cost then routingEntry.cost
  else maxRangeCost

def maxRangeCost : ℕ := area.parentRouter.routingTable.foldl (largerCost range) 0

/-- The entry is summarised by an advertised range that contains it. -/
def originateRange : Option SummaryLSA × Option SummaryLSA :=
  match area.getUniqueLinkStateID range (area.maxRangeCost range) with
  | (newLinkStateID, some lsaToReoriginate) =>
    if area.ownKey lsaToReoriginate.header.linkStateID ∈ originatedLSAs then (none, none)
    else area.renamedWith entry newLinkStateID lsaToReoriginate
  | (newLinkStateID, none) =>
    if area.ownKey newLinkStateID ∈ originatedLSAs then (none, none)
    else (some (area.newSummaryLSA entry SUMMARYLSA_NETWORKS_TYPE newLinkStateID), none)

def isOutside (nextHop : NextHop) : Bool :=
  match area.parentRouter.getNonVirtualInterface nextHop.ifIndex with
  | some intf => intf.areaID != area.areaID
  | none => false

/-- The LSA that is returned, and `lsaToReoriginate`, which is null before. -/
def originateSummaryLSA : Option SummaryLSA × Option SummaryLSA :=
  if entry.destinationType.areaBorderRouter ∨ entry.pathType = .TYPE1_EXTERNAL ∨
      entry.pathType = .TYPE2_EXTERNAL ∨ entry.area = area.areaID then (none, none)
  else if ¬ entry.nextHops.any area.isOutside ∨ LS_INFINITY ≤ entry.cost then (none, none)
  else if entry.destinationType.asBoundaryRouter then
    if area.parentRouter.getPreferredEntry entry = some entry ∧ area.externalRoutingCapability then
      (some (area.newSummaryLSA entry SUMMARYLSA_ASBOUNDARYROUTERS_TYPE entry.destination), none)
    else (none, none)
  else if entry.pathType = .INTERAREA then area.originateNetwork entry
  else
    let (containingAddressRange, doAdvertise) :=
      area.parentRouter.getContainingAddressRange ⟨entry.destination, entry.netmask⟩
    -- the ranges of the backbone are ignored for a transit area
    if (entry.area = BACKBONE_AREAID ∧ area.transitCapability) ∨
        containingAddressRange = NULL_IPV4ADDRESSRANGE then area.originateNetwork entry
    else if doAdvertise then area.originateRange entry containingAddressRange originatedLSAs
    else (none, none)

/-- `originateSummaryLSA` for an LSA of the database: the LSA of the first entry that it stands
for. -/
def originateSummaryLSAFor (summaryLSA : SummaryLSA) : Option SummaryLSA :=
  match area.parentRouter.routingTable.find? summaryLSA.toSummaryLSA.isMatching with
  | some entry => (area.originateSummaryLSA entry []).1
  | none => none

/-- An LSA with the same key is overwritten. -/
def installSummaryLSA (lsa : SummaryLSA) : Area :=
  { area with summaryLSAsByID := area.summaryLSAsByID.insert lsa }

/-- The LSAs that are returned for some entries of the routing table, with the same
`originatedLSAs`. The caller installs an LSA and remembers its key, `lsaToReoriginate` first. -/
def originateAll : Area → List LSAKeyType → List RoutingTableEntry → List SummaryLSA
  | _, _, [] => []
  | area, originatedLSAs, entry :: entries =>
    match area.originateSummaryLSA entry originatedLSAs with
    | (none, _) => originateAll area originatedLSAs entries
    | (some newLSA, none) =>
      newLSA :: originateAll (area.installSummaryLSA newLSA)
        (area.ownKey newLSA.header.linkStateID :: originatedLSAs) entries
    | (some newLSA, some lsaToReoriginate) =>
      newLSA :: originateAll
        ((area.installSummaryLSA lsaToReoriginate).installSummaryLSA newLSA)
        (area.ownKey newLSA.header.linkStateID ::
          area.ownKey lsaToReoriginate.header.linkStateID :: originatedLSAs) entries

/-! ## What is asked for -/

/-- The costs of the intra-area networks in the range. -/
def rangeCosts : Set ℕ :=
  {cost | ∃ routingEntry ∈ area.parentRouter.routingTable,
    isInRange range routingEntry = true ∧ routingEntry.cost = cost}

/-- The LSA summarises the range. Its link state ID is the address of the range, or that of its
last host where another LSA has the address. -/
structure DescribesRange (lsa : SummaryLSA) : Prop where
  linkStateID : lsa.header.linkStateID = range.address ∨
    lsa.header.linkStateID = makeBroadcastAddress range.address range.mask
  networkMask : lsa.networkMask = range.mask
  routeCost : IsGreatest (area.rangeCosts range) lsa.routeCost

/-- An intra-area network of another area, reached through another area, that an advertised range
contains. -/
structure IsComponent : Prop where
  mem : entry ∈ area.parentRouter.routingTable
  destinationType : entry.destinationType = NETWORK_DESTINATION
  pathType : entry.pathType = .INTRAAREA
  area_ne : entry.area ≠ area.areaID
  outside : entry.nextHops.any area.isOutside = true
  cost_lt : entry.cost < LS_INFINITY
  not_transit : ¬ (entry.area = BACKBONE_AREAID ∧ area.transitCapability = true)
  range_eq : area.parentRouter.getContainingAddressRange ⟨entry.destination, entry.netmask⟩ =
    (range, true)
  range_ne : range ≠ NULL_IPV4ADDRESSRANGE

/-- Each new LSA for a network of the range describes the range, and there is at most one LSA for
any sequence of such networks. -/
def SummarizesRange : Prop :=
  (∀ entry, area.IsComponent entry range → ∀ lsa,
      area.originateSummaryLSA entry originatedLSAs = (some lsa, none) →
        area.DescribesRange range lsa) ∧
    ∀ entries, (∀ entry ∈ entries, area.IsComponent entry range) →
      (area.originateAll originatedLSAs entries).length ≤ 1

/-! ## When that is so -/

/-- The own LSA in the database that has the address of the range. -/
def existing : Option SummaryLSA := area.summaryLSAsByID.find (area.ownKey range.address)

/-- The link state ID for the range has not been used, and no LSA with a longer mask stands in the
way. -/
def CreatesNew : Prop :=
  match area.existing range with
  | none => area.ownKey range.address ∉ originatedLSAs
  | some foundLSA =>
    if range.mask = foundLSA.networkMask then area.ownKey range.address ∉ originatedLSAs
    else foundLSA.networkMask ≤ range.mask ∧
      area.ownKey (makeBroadcastAddress range.address range.mask) ∉ originatedLSAs

/-- There has been an LSA for the range. -/
def Blocked : Prop :=
  match area.existing range with
  | none => area.ownKey range.address ∈ originatedLSAs
  | some foundLSA =>
    if foundLSA.networkMask < range.mask then
      area.ownKey (makeBroadcastAddress range.address range.mask) ∈ originatedLSAs
    else area.ownKey range.address ∈ originatedLSAs

/-- The LSA with the address of the range has a longer mask and is to be replaced, but no other link
state ID can be made from that mask. The LSA for the address of the entry, whose mask is shorter
than that of the range, is then stored in the place of the LSA of the range. -/
structure Displaces (foundLSA summaryLSA : SummaryLSA) : Prop where
  existing_eq : area.existing range = some foundLSA
  longer : range.mask < foundLSA.networkMask
  broadcast_eq : makeBroadcastAddress range.address foundLSA.networkMask = range.address
  find_eq : area.summaryLSAsByID.find (area.ownKey entry.destination) = some summaryLSA
  shorter : summaryLSA.networkMask < range.mask
  not_mem : area.ownKey range.address ∉ originatedLSAs
  broadcast_ne : makeBroadcastAddress range.address range.mask ≠ range.address
  broadcast_not_mem : area.ownKey (makeBroadcastAddress range.address range.mask) ∉ originatedLSAs

end Area

namespace AreaConfig

variable {config : AreaConfig} {addressRange range : IPv4AddressRange} {advertise : Bool}

theorem containsRange_of_getContainingAddressRange
    (h : config.getContainingAddressRange addressRange = (range, advertise))
    (hne : range ≠ NULL_IPV4ADDRESSRANGE) :
    containsRange range addressRange.address addressRange.mask = true := by
  unfold getContainingAddressRange at h
  split at h
  · rename_i r hfind
    subst h
    have hfound := List.find?_some hfind
    exact hfound
  · exact absurd (congrArg Prod.fst h).symm hne

end AreaConfig

theorem Router.containsRange_of_containingAddressRange {addressRange range : IPv4AddressRange}
    {advertise : Bool} {areas : List AreaConfig}
    (h : containingAddressRange addressRange areas = (range, advertise))
    (hne : range ≠ NULL_IPV4ADDRESSRANGE) :
    containsRange range addressRange.address addressRange.mask = true := by
  induction areas with
  | nil => exact absurd (congrArg Prod.fst h).symm hne
  | cons config areas ih =>
    rw [containingAddressRange] at h
    split_ifs at h
    · exact AreaConfig.containsRange_of_getContainingAddressRange h hne
    · exact ih h

namespace Area

variable {area : Area} {entry : RoutingTableEntry} {range : IPv4AddressRange}
  {originatedLSAs : List LSAKeyType} {lsa lsaToReoriginate foundLSA : SummaryLSA}
  {linkStateID : IPv4Address} {entries : List RoutingTableEntry} {summaryLSA : SummaryLSA}

namespace IsComponent

section

variable (h : area.IsComponent entry range)

include h

theorem contains : containsRange range entry.destination entry.netmask = true :=
  Router.containsRange_of_containingAddressRange h.range_eq h.range_ne

theorem mask_le : range.mask ≤ entry.netmask :=
  of_decide_eq_true (Bool.and_eq_true_iff.mp h.contains).2

/-- The case of the function that the networks of the range get to. -/
theorem originateSummaryLSA_eq : area.originateSummaryLSA entry originatedLSAs =
      area.originateRange entry range originatedLSAs := by
  have hcost : ¬ LS_INFINITY ≤ entry.cost := not_le.mpr h.cost_lt
  unfold originateSummaryLSA
  simp only [h.destinationType, h.pathType, h.area_ne, h.outside, h.range_eq, h.not_transit,
    h.range_ne, hcost, NETWORK_DESTINATION]
  simp

/-- Other LSAs in the database do not matter. -/
theorem install (lsa : SummaryLSA) : (area.installSummaryLSA lsa).IsComponent entry range :=
  ⟨h.mem, h.destinationType, h.pathType, h.area_ne, h.outside, h.cost_lt, h.not_transit,
    h.range_eq, h.range_ne⟩

end

end IsComponent

/-! ## The link state ID -/

/-- The address of the range, or that of its last host where an LSA with a shorter mask has the
address. -/
def IsLinkStateID (area : Area) (range : IPv4AddressRange) (linkStateID : IPv4Address) : Prop :=
  linkStateID = range.address ∨ linkStateID = makeBroadcastAddress range.address range.mask ∧
      ∃ foundLSA, area.existing range = some foundLSA ∧ foundLSA.networkMask < range.mask

/-- Either there is a link state ID for a new LSA, or an LSA with a longer mask has the address. -/
theorem getUniqueLinkStateID_cases (area : Area) (range : IPv4AddressRange)
    (originatedLSAs : List LSAKeyType) (cost : ℕ) :
    (∃ linkStateID, area.getUniqueLinkStateID range cost = (linkStateID, none) ∧
      area.IsLinkStateID range linkStateID ∧
      (area.CreatesNew range originatedLSAs ↔ area.ownKey linkStateID ∉ originatedLSAs) ∧
      (area.Blocked range originatedLSAs ↔ area.ownKey linkStateID ∈ originatedLSAs)) ∨
    ∃ foundLSA, area.existing range = some foundLSA ∧ range.mask < foundLSA.networkMask ∧
      area.getUniqueLinkStateID range cost =
        (makeBroadcastAddress range.address foundLSA.networkMask,
          some (reoriginate foundLSA range cost)) ∧
      ¬ area.CreatesNew range originatedLSAs ∧
      (area.Blocked range originatedLSAs ↔ area.ownKey range.address ∈ originatedLSAs) := by
  cases hfound : area.existing range with
  | none =>
    refine .inl ⟨range.address, ?_, .inl rfl, ?_, ?_⟩
    · rw [existing] at hfound
      simp only [getUniqueLinkStateID, hfound]
    · simp only [CreatesNew, hfound]
    · simp only [Blocked, hfound]
  | some foundLSA =>
    have hunique := hfound
    rw [existing] at hunique
    by_cases heq : range.mask = foundLSA.networkMask
    · have hlt : ¬ foundLSA.networkMask < range.mask := by bv_omega
      refine .inl ⟨range.address, ?_, .inl rfl, ?_, ?_⟩
      · simp only [getUniqueLinkStateID, hunique, if_pos heq]
      · simp only [CreatesNew, hfound, if_pos heq]
      · simp only [Blocked, hfound, if_neg hlt]
    · by_cases hle : foundLSA.networkMask ≤ range.mask
      · have hlt : foundLSA.networkMask < range.mask := by bv_omega
        refine .inl ⟨makeBroadcastAddress range.address range.mask, ?_,
          .inr ⟨rfl, foundLSA, hfound, hlt⟩, ?_, ?_⟩
        · simp only [getUniqueLinkStateID, hunique, if_neg heq, if_pos hle]
        · simp only [CreatesNew, hfound, if_neg heq, hle, true_and]
        · simp only [Blocked, hfound, if_pos hlt]
      · have hlt : ¬ foundLSA.networkMask < range.mask := by bv_omega
        refine .inr ⟨foundLSA, rfl, by bv_omega, ?_, ?_, ?_⟩
        · simp only [getUniqueLinkStateID, hunique, if_neg heq, if_neg hle]
        · simp only [CreatesNew, hfound, if_neg heq, hle, false_and, not_false_eq_true]
        · simp only [Blocked, hfound, if_neg hlt]

theorem lsaKey_reoriginate (h : area.existing range = some foundLSA) (cost : ℕ) :
    (reoriginate foundLSA range cost).header.lsaKey = area.ownKey range.address := by
  rw [← area.summaryLSAsByID.keyed h]
  rfl

theorem linkStateID_reoriginate (h : area.existing range = some foundLSA) (cost : ℕ) :
    (reoriginate foundLSA range cost).header.linkStateID = range.address :=
  congrArg LSAKeyType.linkStateID (lsaKey_reoriginate h cost)

@[simp] theorem ownKey_installSummaryLSA (linkStateID : IPv4Address) :
    (area.installSummaryLSA lsa).ownKey linkStateID = area.ownKey linkStateID := rfl

theorem ownKey_inj {linkStateID' : IPv4Address} :
    area.ownKey linkStateID = area.ownKey linkStateID' ↔ linkStateID = linkStateID' := by
  simp [ownKey]

theorem existing_install_self (h : lsa.header.lsaKey = area.ownKey range.address) :
    (area.installSummaryLSA lsa).existing range = some lsa := by
  rw [existing, ownKey_installSummaryLSA, ← h]
  exact SummaryLSAMap.find_insert_self _ _

theorem existing_install_of_ne (h : area.ownKey range.address ≠ lsa.header.lsaKey) :
    (area.installSummaryLSA lsa).existing range = area.existing range :=
  Function.update_of_ne h _ _

section

variable (h : area.existing range = some foundLSA)

include h

theorem CreatesNew.of_shorter
    (hlt : foundLSA.networkMask < range.mask)
    (hmem : area.ownKey (makeBroadcastAddress range.address range.mask) ∉ originatedLSAs) :
    area.CreatesNew range originatedLSAs := by
  have hne : range.mask ≠ foundLSA.networkMask := by
    intro heq
    rw [heq] at hlt
    bv_omega
  simp only [CreatesNew, h, if_neg hne]
  exact ⟨by bv_omega, hmem⟩

theorem Blocked.of_not_shorter
    (hlt : ¬ foundLSA.networkMask < range.mask)
    (hmem : area.ownKey range.address ∈ originatedLSAs) :
    area.Blocked range originatedLSAs := by
  simp only [Blocked, h, if_neg hlt]
  exact hmem

theorem Blocked.of_shorter
    (hlt : foundLSA.networkMask < range.mask)
    (hmem : area.ownKey (makeBroadcastAddress range.address range.mask) ∈ originatedLSAs) :
    area.Blocked range originatedLSAs := by
  simp only [Blocked, h, if_pos hlt]
  exact hmem

end

/-- After there has been an LSA, there is no other one. -/
theorem Blocked.originateRange_eq (h : area.Blocked range originatedLSAs) :
    area.originateRange entry range originatedLSAs = (none, none) := by
  obtain ⟨linkStateID, hunique, -, -, hblocked⟩ | ⟨foundLSA, hfound, -, hunique, -, hblocked⟩ :=
    getUniqueLinkStateID_cases area range originatedLSAs (area.maxRangeCost range)
  · simp only [originateRange, hunique, if_pos (hblocked.mp h)]
  · simp only [originateRange, hunique, linkStateID_reoriginate hfound, if_pos (hblocked.mp h)]

/-- A new LSA blocks the others. -/
theorem IsComponent.blocked_of_new (h : area.IsComponent entry range) {lsType : UInt8}
    (hid : area.IsLinkStateID range linkStateID) :
    (area.installSummaryLSA (area.newSummaryLSA entry lsType linkStateID)).Blocked range
      (area.ownKey linkStateID :: originatedLSAs) := by
  by_cases heq : linkStateID = range.address
  · subst heq
    have hlt : ¬ entry.netmask < range.mask := by
      have hle := h.mask_le
      bv_omega
    exact .of_not_shorter (existing_install_self rfl) hlt List.mem_cons_self
  · obtain ⟨rfl, foundLSA, hfound, hlt⟩ := hid.resolve_left heq
    have hkeeps : (area.installSummaryLSA (area.newSummaryLSA entry lsType
        (makeBroadcastAddress range.address range.mask))).existing range = some foundLSA := by
      rw [existing_install_of_ne, hfound]
      exact fun hkey => heq (ownKey_inj.mp hkey.symm)
    exact .of_shorter hkeeps hlt List.mem_cons_self

/-! ## The LSAs of one range -/

theorem originateRange_of_createsNew (entry : RoutingTableEntry)
    (h : area.CreatesNew range originatedLSAs) :
    ∃ linkStateID, area.IsLinkStateID range linkStateID ∧
      area.originateRange entry range originatedLSAs =
        (some (area.newSummaryLSA entry SUMMARYLSA_NETWORKS_TYPE linkStateID), none) := by
  obtain ⟨linkStateID, hunique, hid, hcreates, -⟩ | ⟨-, -, -, -, hcreates, -⟩ :=
    getUniqueLinkStateID_cases area range originatedLSAs (area.maxRangeCost range)
  · exact ⟨linkStateID, hid, by simp only [originateRange, hunique, if_neg (hcreates.mp h)]⟩
  · exact absurd h hcreates

/-- The LSA with the longer mask is replaced, and another one gets a new link state ID. -/
structure Renames (area : Area) (entry : RoutingTableEntry) (range : IPv4AddressRange)
    (originatedLSAs : List LSAKeyType) (foundLSA summaryLSA : SummaryLSA) : Prop where
  existing_eq : area.existing range = some foundLSA
  longer : range.mask < foundLSA.networkMask
  find_eq : area.summaryLSAsByID.find (area.ownKey entry.destination) = some summaryLSA
  not_mem : area.ownKey range.address ∉ originatedLSAs
  originateRange_eq : area.originateRange entry range originatedLSAs =
    (some (renamed summaryLSA (makeBroadcastAddress range.address foundLSA.networkMask)),
      some (reoriginate foundLSA range (area.maxRangeCost range)))

section

variable (hfound : area.existing range = some foundLSA) (hlt : range.mask < foundLSA.networkMask)

include hfound hlt

/-- An LSA with a longer mask stands in the way. -/
theorem originateRange_of_longer :
    area.originateRange entry range originatedLSAs =
      if area.ownKey range.address ∈ originatedLSAs then (none, none)
      else area.renamedWith entry (makeBroadcastAddress range.address foundLSA.networkMask)
        (reoriginate foundLSA range (area.maxRangeCost range)) := by
  have hunique : area.getUniqueLinkStateID range (area.maxRangeCost range) =
      (makeBroadcastAddress range.address foundLSA.networkMask,
        some (reoriginate foundLSA range (area.maxRangeCost range))) := by
    have heq : range.mask ≠ foundLSA.networkMask := by bv_omega
    have hle : ¬ foundLSA.networkMask ≤ range.mask := by bv_omega
    rw [existing] at hfound
    simp only [getUniqueLinkStateID, hfound, if_neg heq, if_neg hle]
  simp only [originateRange, hunique, linkStateID_reoriginate hfound]

theorem Renames.of_find
    (hentry : area.summaryLSAsByID.find (area.ownKey entry.destination) = some summaryLSA)
    (hmem : area.ownKey range.address ∉ originatedLSAs) :
    area.Renames entry range originatedLSAs foundLSA summaryLSA := by
  refine ⟨hfound, hlt, hentry, hmem, ?_⟩
  rw [originateRange_of_longer hfound hlt, if_neg hmem, renamedWith, hentry]

end

/-- Everything that the function can do for a network of the range. -/
theorem originateRange_cases (area : Area) (entry : RoutingTableEntry) (range : IPv4AddressRange)
    (originatedLSAs : List LSAKeyType) :
    area.originateRange entry range originatedLSAs = (none, none) ∨
      area.CreatesNew range originatedLSAs ∨
      ∃ foundLSA summaryLSA, area.Renames entry range originatedLSAs foundLSA summaryLSA := by
  obtain ⟨linkStateID, hunique, -, hcreates, -⟩ | ⟨foundLSA, hfound, hlt, hunique, -, -⟩ :=
    getUniqueLinkStateID_cases area range originatedLSAs (area.maxRangeCost range)
  · by_cases hmem : area.ownKey linkStateID ∈ originatedLSAs
    · exact .inl (by simp only [originateRange, hunique, if_pos hmem])
    · exact .inr (.inl (hcreates.mpr hmem))
  · rw [originateRange_of_longer hfound hlt]
    by_cases hmem : area.ownKey range.address ∈ originatedLSAs
    · exact .inl (if_pos hmem)
    · cases hentry : area.summaryLSAsByID.find (area.ownKey entry.destination) with
      | none =>
        refine .inl ?_
        rw [if_neg hmem, renamedWith, hentry]
      | some summaryLSA =>
        exact .inr (.inr ⟨foundLSA, summaryLSA, .of_find hfound hlt hentry hmem⟩)

namespace Renames

variable {summaryLSA : SummaryLSA}

/-- The area after the two LSAs have been installed. -/
def installed (area : Area) (range : IPv4AddressRange) (foundLSA summaryLSA : SummaryLSA) : Area :=
  (area.installSummaryLSA (reoriginate foundLSA range (area.maxRangeCost range))).installSummaryLSA
    (renamed summaryLSA (makeBroadcastAddress range.address foundLSA.networkMask))

theorem ownKey_installed (linkStateID : IPv4Address) :
    (installed area range foundLSA summaryLSA).ownKey linkStateID = area.ownKey linkStateID := rfl

section

variable (h : area.Renames entry range originatedLSAs foundLSA summaryLSA)

include h

theorem lsaKey_renamed (linkStateID : IPv4Address) :
    (renamed summaryLSA linkStateID).header.lsaKey = area.ownKey linkStateID := by
  have hkey : summaryLSA.header.lsaKey = area.ownKey entry.destination :=
    area.summaryLSAsByID.keyed h.find_eq
  have hrouter : summaryLSA.header.advertisingRouter = area.parentRouter.routerID :=
    congrArg LSAKeyType.advertisingRouter hkey
  simp only [renamed, OSPFLSAHeader.lsaKey, ownKey, hrouter]

theorem existing_of_ne
    (hne : makeBroadcastAddress range.address foundLSA.networkMask ≠ range.address) :
    (installed area range foundLSA summaryLSA).existing range =
      some (reoriginate foundLSA range (area.maxRangeCost range)) := by
  rw [installed, existing_install_of_ne]
  · exact existing_install_self (lsaKey_reoriginate h.existing_eq _)
  · rw [h.lsaKey_renamed]
    exact fun hkey => hne (ownKey_inj.mp hkey).symm

theorem existing_of_eq
    (heq : makeBroadcastAddress range.address foundLSA.networkMask = range.address) :
    (installed area range foundLSA summaryLSA).existing range =
      some (renamed summaryLSA (makeBroadcastAddress range.address foundLSA.networkMask)) := by
  refine existing_install_self ?_
  rw [h.lsaKey_renamed, heq]
  rfl

/-- The two LSAs block the others, if the second one does not displace the first one. -/
theorem blocked (hnot : ¬ area.Displaces entry range originatedLSAs foundLSA summaryLSA)
    (key : LSAKeyType) :
    (installed area range foundLSA summaryLSA).Blocked range
      (key :: area.ownKey range.address :: originatedLSAs) := by
  have hmem : area.ownKey range.address ∈ key :: area.ownKey range.address :: originatedLSAs :=
    List.mem_cons_of_mem _ List.mem_cons_self
  by_cases heq : makeBroadcastAddress range.address foundLSA.networkMask = range.address
  · by_cases hshorter : summaryLSA.networkMask < range.mask
    · refine .of_shorter (h.existing_of_eq heq) hshorter ?_
      by_cases hbroadcast : makeBroadcastAddress range.address range.mask = range.address
      · rw [hbroadcast]
        exact hmem
      · by_contra hout
        refine hnot ⟨h.existing_eq, h.longer, heq, h.find_eq, hshorter, h.not_mem, hbroadcast, ?_⟩
        exact fun hin => hout (List.mem_cons_of_mem _ (List.mem_cons_of_mem _ hin))
    · exact .of_not_shorter (h.existing_of_eq heq) hshorter hmem
  · refine .of_not_shorter (h.existing_of_ne heq) ?_ hmem
    simp [reoriginate]

/-- An LSA that has displaced the one of the range does not block the others. -/
theorem createsNew (hdisplaces : area.Displaces entry range originatedLSAs foundLSA summaryLSA) :
    (installed area range foundLSA summaryLSA).CreatesNew range
      (area.ownKey (makeBroadcastAddress range.address foundLSA.networkMask) ::
        area.ownKey range.address :: originatedLSAs) := by
  have hbroadcast : area.ownKey (makeBroadcastAddress range.address range.mask) ≠
      area.ownKey range.address := fun hkey => hdisplaces.broadcast_ne (ownKey_inj.mp hkey)
  refine .of_shorter (h.existing_of_eq hdisplaces.broadcast_eq) hdisplaces.shorter ?_
  rw [hdisplaces.broadcast_eq, ownKey_installed, List.mem_cons, List.mem_cons, not_or, not_or]
  exact ⟨hbroadcast, hbroadcast, hdisplaces.broadcast_not_mem⟩

end

end Renames

/-! ## The sequence of calls -/

theorem originateAll_of_none (h : area.originateSummaryLSA entry originatedLSAs = (none, none)) :
    area.originateAll originatedLSAs (entry :: entries) =
      area.originateAll originatedLSAs entries := by
  simp only [originateAll, h]

theorem originateAll_of_new (h : area.originateSummaryLSA entry originatedLSAs = (some lsa, none)) :
    area.originateAll originatedLSAs (entry :: entries) =
      lsa :: (area.installSummaryLSA lsa).originateAll
        (area.ownKey lsa.header.linkStateID :: originatedLSAs) entries := by
  simp only [originateAll, h]

theorem Renames.originateAll_eq (h : area.Renames entry range originatedLSAs foundLSA summaryLSA)
    (hcomponent : area.IsComponent entry range) :
    area.originateAll originatedLSAs (entry :: entries) =
      renamed summaryLSA (makeBroadcastAddress range.address foundLSA.networkMask) ::
        (installed area range foundLSA summaryLSA).originateAll
          (area.ownKey (makeBroadcastAddress range.address foundLSA.networkMask) ::
            area.ownKey range.address :: originatedLSAs) entries := by
  have horiginate : area.originateSummaryLSA entry originatedLSAs = _ :=
    hcomponent.originateSummaryLSA_eq.trans h.originateRange_eq
  simp only [originateAll, horiginate, linkStateID_reoriginate h.existing_eq]
  rfl

/-- After there has been an LSA for the range, no network of the range gives one. -/
theorem Blocked.originateAll_eq (h : area.Blocked range originatedLSAs)
    (hentries : ∀ entry ∈ entries, area.IsComponent entry range) :
    area.originateAll originatedLSAs entries = [] := by
  induction entries with
  | nil => rfl
  | cons entry entries ih =>
    have hnone : area.originateSummaryLSA entry originatedLSAs = (none, none) := by
      rw [(hentries entry List.mem_cons_self).originateSummaryLSA_eq, h.originateRange_eq]
    rw [originateAll_of_none hnone]
    exact ih fun entry' hentry' => hentries entry' (List.mem_cons_of_mem _ hentry')

/-- Where no LSA is displaced, there is at most one LSA for the range. -/
theorem length_originateAll_le
    (hnot : ∀ entry, area.IsComponent entry range → ∀ foundLSA summaryLSA,
      ¬ area.Displaces entry range originatedLSAs foundLSA summaryLSA)
    (hentries : ∀ entry ∈ entries, area.IsComponent entry range) :
    (area.originateAll originatedLSAs entries).length ≤ 1 := by
  induction entries with
  | nil => exact Nat.zero_le 1
  | cons entry entries ih =>
    have hentry : area.IsComponent entry range := hentries entry List.mem_cons_self
    have hrest : ∀ entry' ∈ entries, area.IsComponent entry' range :=
      fun entry' hentry' => hentries entry' (List.mem_cons_of_mem _ hentry')
    obtain hnone | hcreates | ⟨foundLSA, summaryLSA, hrenames⟩ :=
      originateRange_cases area entry range originatedLSAs
    · rw [originateAll_of_none (hentry.originateSummaryLSA_eq.trans hnone)]
      exact ih hrest
    · obtain ⟨linkStateID, hid, hnew⟩ := originateRange_of_createsNew entry hcreates
      have hblocked : (area.installSummaryLSA
          (area.newSummaryLSA entry SUMMARYLSA_NETWORKS_TYPE linkStateID)).Blocked range
            (area.ownKey linkStateID :: originatedLSAs) := hentry.blocked_of_new hid
      rw [originateAll_of_new (hentry.originateSummaryLSA_eq.trans hnew), List.length_cons]
      have hnil := hblocked.originateAll_eq fun entry' hentry' => (hrest entry' hentry').install _
      exact le_of_eq (congrArg (fun l => List.length l + 1) hnil)
    · have hblocked := hrenames.blocked (hnot entry hentry foundLSA summaryLSA)
        (area.ownKey (makeBroadcastAddress range.address foundLSA.networkMask))
      rw [hrenames.originateAll_eq hentry, List.length_cons, hblocked.originateAll_eq]
      · rfl
      · exact fun entry' hentry' => ((hrest entry' hentry').install _).install _

/-- An LSA that displaces the one of the range lets the same network give a second one. -/
theorem length_originateAll_of_displaces (hcomponent : area.IsComponent entry range)
    (h : area.Displaces entry range originatedLSAs foundLSA summaryLSA) :
    (area.originateAll originatedLSAs [entry, entry]).length = 2 := by
  have hrenames : area.Renames entry range originatedLSAs foundLSA summaryLSA :=
    .of_find h.existing_eq h.longer h.find_eq h.not_mem
  have hcomponent' : (Renames.installed area range foundLSA summaryLSA).IsComponent entry range :=
    (hcomponent.install _).install _
  obtain ⟨linkStateID, -, hnew⟩ :=
    originateRange_of_createsNew entry (hrenames.createsNew h)
  rw [hrenames.originateAll_eq hcomponent,
    originateAll_of_new (hcomponent'.originateSummaryLSA_eq.trans hnew)]
  rfl

/-! ## The age of an LSA -/

theorem lsAge_renamedWith (newLinkStateID : IPv4Address) (lsaToReoriginate : SummaryLSA) :
    ∀ lsa ∈ (area.renamedWith entry newLinkStateID lsaToReoriginate).1, lsa.header.lsAge = 0 := by
  unfold renamedWith
  split
  · simp
  · rintro lsa ⟨⟩
    rfl

theorem lsAge_originateNetwork : ∀ lsa ∈ (area.originateNetwork entry).1, lsa.header.lsAge = 0 := by
  unfold originateNetwork
  split
  · exact lsAge_renamedWith _ _
  · rintro lsa ⟨⟩
    rfl

theorem lsAge_originateRange :
    ∀ lsa ∈ (area.originateRange entry range originatedLSAs).1, lsa.header.lsAge = 0 := by
  unfold originateRange
  split <;> split_ifs
  · simp
  · exact lsAge_renamedWith _ _
  · simp
  · rintro lsa ⟨⟩
    rfl

theorem lsAge_originateSummaryLSA :
    ∀ lsa ∈ (area.originateSummaryLSA entry originatedLSAs).1, lsa.header.lsAge = 0 := by
  unfold originateSummaryLSA
  dsimp only
  split_ifs
  · simp
  · simp
  · rintro lsa ⟨⟩
    rfl
  · simp
  · exact lsAge_originateNetwork
  · exact lsAge_originateNetwork
  · exact lsAge_originateRange
  · simp

/-- An LSA that is originated anew has the age zero. -/
theorem lsAge_originateSummaryLSAFor {summaryLSA newLSA : SummaryLSA}
    (h : area.originateSummaryLSAFor summaryLSA = some newLSA) : newLSA.header.lsAge = 0 := by
  unfold originateSummaryLSAFor at h
  split at h
  · exact lsAge_originateSummaryLSA newLSA h
  · cases h

/-! ## The LSA of the range -/

/-- A new LSA describes the range when the network has the mask of the range and the largest cost of
its networks. -/
theorem describesRange_newSummaryLSA_iff {lsType : UInt8}
    (hid : area.IsLinkStateID range linkStateID) :
    area.DescribesRange range (area.newSummaryLSA entry lsType linkStateID) ↔
      entry.netmask = range.mask ∧ IsGreatest (area.rangeCosts range) entry.cost := by
  constructor
  · rintro ⟨-, hmask, hcost⟩
    exact ⟨hmask, hcost⟩
  · rintro ⟨hmask, hcost⟩
    exact ⟨hid.imp_right And.left, hmask, hcost⟩

theorem IsComponent.describesRange_iff (h : area.IsComponent entry range) :
    (∀ lsa, area.originateSummaryLSA entry originatedLSAs = (some lsa, none) →
      area.DescribesRange range lsa) ↔
    (area.CreatesNew range originatedLSAs →
      entry.netmask = range.mask ∧ IsGreatest (area.rangeCosts range) entry.cost) := by
  rw [h.originateSummaryLSA_eq]
  constructor
  · intro hdescribes hcreates
    obtain ⟨linkStateID, hid, hnew⟩ := originateRange_of_createsNew entry hcreates
    exact (describesRange_newSummaryLSA_iff hid).mp (hdescribes _ hnew)
  · intro himp lsa hlsa
    obtain hnone | hcreates | ⟨foundLSA, summaryLSA, hrenames⟩ :=
      originateRange_cases area entry range originatedLSAs
    · rw [hnone] at hlsa
      cases hlsa
    · obtain ⟨linkStateID, hid, hnew⟩ := originateRange_of_createsNew entry hcreates
      rw [hnew] at hlsa
      obtain rfl := Option.some.inj (congrArg Prod.fst hlsa)
      exact (describesRange_newSummaryLSA_iff hid).mpr (himp hcreates)
    · rw [hrenames.originateRange_eq] at hlsa
      cases hlsa

/-- The new LSAs describe the range, and there is at most one for any sequence of its networks, just
in case either no new LSA is made or each network has the mask of the range and the largest cost of
its networks, and no LSA displaces the one of the range. -/
theorem summarizesRange_iff (area : Area) (range : IPv4AddressRange)
    (originatedLSAs : List LSAKeyType) :
    area.SummarizesRange range originatedLSAs ↔
      (area.CreatesNew range originatedLSAs → ∀ entry, area.IsComponent entry range →
        entry.netmask = range.mask ∧ IsGreatest (area.rangeCosts range) entry.cost) ∧
      ∀ entry, area.IsComponent entry range → ∀ foundLSA summaryLSA,
        ¬ area.Displaces entry range originatedLSAs foundLSA summaryLSA := by
  constructor
  · rintro ⟨hdescribes, hlength⟩
    refine ⟨fun hcreates entry h => h.describesRange_iff.mp (hdescribes entry h) hcreates, ?_⟩
    intro entry h foundLSA summaryLSA hdisplaces
    have hentries : ∀ entry' ∈ [entry, entry], area.IsComponent entry' range := by
      intro entry' hentry'
      rw [List.mem_cons, List.mem_singleton, or_self] at hentry'
      exact hentry' ▸ h
    have hle := hlength [entry, entry] hentries
    rw [length_originateAll_of_displaces h hdisplaces] at hle
    omega
  · rintro ⟨hcreates, hnot⟩
    exact ⟨fun entry h => h.describesRange_iff.mpr fun hnew => hcreates hnew entry h,
      fun entries hentries => length_originateAll_le hnot hentries⟩

end Area

def firstNetwork : RoutingTableEntry where
  destination := 0x0A010100
  netmask := 0xFFFFFF00
  destinationType := NETWORK_DESTINATION
  area := 1
  cost := 10
  nextHops := [⟨7, 0, 0⟩]

/-- An area border router with two networks in a range of another area. -/
def borderRouter : Router where
  routerID := 1
  areas := [⟨[(⟨0x0A010000, 0xFFFF0000⟩, true)], [⟨7, .BROADCAST, 1⟩]⟩]
  routingTable :=
    [firstNetwork, { firstNetwork with destination := 0x0A010200, cost := 20 }]

def emptyArea : Area where
  areaID := 2
  parentRouter := borderRouter
  externalRoutingCapability := true
  transitCapability := false
  summaryLSAsByID := .empty

/-- The LSA for the first of the two networks has the mask of the network. -/
theorem not_summarizesRange_of_two_networks :
    ¬ emptyArea.SummarizesRange ⟨0x0A010000, 0xFFFF0000⟩ [] := by
  intro h
  have hcomponent : emptyArea.IsComponent firstNetwork ⟨0x0A010000, 0xFFFF0000⟩ :=
    ⟨List.mem_cons_self, rfl, rfl, by decide, by decide, by decide, by decide, by decide, by decide⟩
  have hdescribes := h.1 _ hcomponent _ rfl
  exact absurd hdescribes.networkMask (by decide)

end Inet.Ospf.Summaries
