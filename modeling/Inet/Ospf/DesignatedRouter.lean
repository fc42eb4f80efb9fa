import Inet.Ospf.LinkStateUpdateHandler

/-!
# The calculation of the designated router

`InterfaceState::calculateDesignatedRouter` elects the designated router of a network and its
backup from what the neighbours declare. A round of its loop looks at the neighbours twice, for
the backup and for the designated router, and at the router itself after the neighbours. It is
repeated once if the role of the router itself changes.
-/

namespace Inet.Ospf.Election

open Inet.Ipv4 (IPv4Address)

def NULL_ROUTERID : RouterID := 0

structure Neighbor where
  neighborID : RouterID
  address : IPv4Address
  priority : ℕ
  state : NeighborState
  designatedRouter : DesignatedRouterID
  backupDesignatedRouter : DesignatedRouterID

/-- An interface, with the ID of its router. -/
structure Interface where
  routerID : RouterID
  routerPriority : ℕ
  address : IPv4Address
  designatedRouter : DesignatedRouterID
  backupDesignatedRouter : DesignatedRouterID
  neighboringRouters : List Neighbor

/-- `state < TWOWAY_STATE` -/
def isBelowTwoWay : NeighborState → Bool
  | .DOWN | .ATTEMPT | .INIT => true
  | _ => false

/-- The best router so far, with its priority and its ID. -/
structure Best where
  router : DesignatedRouterID := NULL_DESIGNATEDROUTERID
  priority : ℕ := 0
  id : RouterID := NULL_ROUTERID

/-- The comparison with another router. -/
def Best.IsBeatenBy (b : Best) (priority : ℕ) (id : RouterID) : Prop :=
  b.priority < priority ∨ priority = b.priority ∧ b.id < id
deriving Decidable

/-- The variables of the first loop. -/
structure BackupLoop where
  declaredBackup : Best := {}
  backupDeclared : Bool := false
  highestRouter : Best := {}

/-- One round of the first loop. -/
def considerBackup (l : BackupLoop) (neighbor : Neighbor) : BackupLoop :=
  if isBelowTwoWay neighbor.state then l
  else if neighbor.priority = 0 then l
  else if neighbor.designatedRouter.routerID ≠ neighbor.neighborID then
    let l :=
      if neighbor.backupDesignatedRouter.routerID = neighbor.neighborID ∧
          l.declaredBackup.IsBeatenBy neighbor.priority neighbor.neighborID then
        { l with
          declaredBackup :=
            ⟨neighbor.backupDesignatedRouter, neighbor.priority, neighbor.neighborID⟩
          backupDeclared := true }
      else l
    if l.backupDeclared = false ∧
        l.highestRouter.IsBeatenBy neighbor.priority neighbor.neighborID then
      { l with
        highestRouter :=
          ⟨⟨neighbor.neighborID, neighbor.address⟩, neighbor.priority, neighbor.neighborID⟩ }
    else l
  else l

/-- One round of the second loop; the Boolean is `designatedRouterDeclared`. -/
def considerDesignated (b : Best × Bool) (neighbor : Neighbor) : Best × Bool :=
  if isBelowTwoWay neighbor.state then b
  else if neighbor.priority = 0 then b
  else if neighbor.designatedRouter.routerID = neighbor.neighborID ∧
      b.1.IsBeatenBy neighbor.priority neighbor.neighborID then
    (⟨neighbor.designatedRouter, neighbor.priority, neighbor.neighborID⟩, true)
  else b

/-- `currentDesignatedRouter` and `currentBackupRouter`, or what has been declared. -/
structure Routers where
  designatedRouter : DesignatedRouterID
  backupRouter : DesignatedRouterID

namespace Interface

variable (intf : Interface)

/-- The router itself, as it is put into the comparisons. -/
def self : Best := ⟨⟨intf.routerID, intf.address⟩, intf.routerPriority, intf.routerID⟩

/-- What `declaredBackup` is after the router itself has been included. -/
def declaredBackup (current : Routers) : Best :=
  let l := intf.neighboringRouters.foldl considerBackup {}
  if 0 < intf.routerPriority then
    if current.designatedRouter.routerID ≠ intf.routerID then
      let l :=
        if current.backupRouter.routerID = intf.routerID ∧
            l.declaredBackup.IsBeatenBy intf.routerPriority intf.routerID then
          { l with declaredBackup := intf.self, backupDeclared := true }
        else l
      if l.backupDeclared = false then
        if l.highestRouter.IsBeatenBy intf.routerPriority intf.routerID then intf.self
        else l.highestRouter
      else l.declaredBackup
    else l.declaredBackup
  else l.declaredBackup

/-- What `declaredDesignatedRouter` is at the end of a round. -/
def declaredDesignatedRouter (current : Routers) : Best :=
  let b := intf.neighboringRouters.foldl considerDesignated ({}, false)
  let b :=
    if 0 < intf.routerPriority then
      if current.designatedRouter.routerID = intf.routerID ∧
          b.1.IsBeatenBy intf.routerPriority intf.routerID then
        (intf.self, true)
      else b
    else b
  if b.2 = false then intf.declaredBackup current else b.1

/-- One round. -/
def declare (current : Routers) : Routers :=
  ⟨(intf.declaredDesignatedRouter current).router, (intf.declaredBackup current).router⟩

/-- The router becomes or ceases to be the one that has been declared. -/
def RoleChanges (current declared : DesignatedRouterID) : Prop :=
  declared.routerID ≠ NULL_ROUTERID ∧
    ((current.routerID = intf.routerID ∧ declared.routerID ≠ intf.routerID) ∨
      (current.routerID ≠ intf.routerID ∧ declared.routerID = intf.routerID))
deriving Decidable

/-- The loop, with a bound that is `2 - repeatCount`. -/
def declareRepeatedly : ℕ → Routers → Routers
  | 0, current => current
  | n + 1, current =>
    let declared := intf.declare current
    if intf.RoleChanges current.designatedRouter declared.designatedRouter ∨
        intf.RoleChanges current.backupRouter declared.backupRouter then
      if 0 < n then declareRepeatedly n declared else declared
    else declared

/-- `calculateDesignatedRouter`, as far as it sets the two routers. -/
def calculateDesignatedRouter : Routers :=
  intf.declareRepeatedly 2 ⟨intf.designatedRouter, intf.backupDesignatedRouter⟩

end Interface

end Inet.Ospf.Election
