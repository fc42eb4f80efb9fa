import Inet.Ieee8021d.RSTP

/-!
# The STP bridge

The port data of `STP`, the comparisons of received and own information, and the handling of
configuration BPDUs. Topology changes and the timers are left out, but for the maximum age that
`setSuperiorBPDU` checks.

The comparisons give 1 if the first argument is superior, -1 if the second one is, and 0 for
equal arguments. `comparePorts_eq` says that they compare lists of numbers lexicographically.
-/

namespace Inet.Ieee8021d

/-- A configuration BPDU, with the timer values of its sender. -/
structure ConfigBPDU extends BPDU where
  maxAge : SimTime
  helloTime : SimTime
  forwardDelay : SimTime
deriving DecidableEq

/-- The port data, with what only `STP` uses. -/
structure STPInterfaceData extends Ieee8021dInterfaceData where
  priority : Uint32 := 0
  maxAge : SimTime := 0
  fwdDelay : SimTime := 0
  helloTime : SimTime := 0
  fdWhile : SimTime := 0

structure STP (numPorts : ℕ) where
  bridgePriority : Uint32
  bridgeAddress : MACAddress
  maxAge : SimTime
  helloTime : SimTime
  forwardDelay : SimTime
  isRoot : Bool := true
  rootPort : ℕ := 0
  desPorts : List (Fin numPorts) := []
  rootPathCost : Uint32 := 0
  rootPriority : Uint32
  rootAddress : MACAddress
  currentMaxAge : SimTime
  currentFwdDelay : SimTime
  currentHelloTime : SimTime
  ports : Fin numPorts → STPInterfaceData

namespace STP

variable {numPorts : ℕ}

def compareBridgeIDs (aPriority : Uint32) (aAddress : MACAddress) (bPriority : Uint32)
    (bAddress : MACAddress) : ℤ :=
  if aPriority < bPriority then 1
  else if aPriority > bPriority then -1
  else if aAddress < bAddress then 1
  else if aAddress > bAddress then -1
  else 0

def comparePortIDs (aPriority aNum bPriority bNum : Uint32) : ℤ :=
  if aPriority < bPriority then 1
  else if aPriority > bPriority then -1
  else if aNum < bNum then 1
  else if aNum > bNum then -1
  else 0

def comparePorts (portA portB : Ieee8021dInterfaceData) : ℤ :=
  let result := compareBridgeIDs portA.rootPriority portA.rootAddress portB.rootPriority
    portB.rootAddress
  if result ≠ 0 then result
  else if portA.rootPathCost < portB.rootPathCost then 1
  else if portA.rootPathCost > portB.rootPathCost then -1
  else
    -- designated bridge
    let result := compareBridgeIDs portA.bridgePriority portA.bridgeAddress portB.bridgePriority
      portB.bridgeAddress
    if result ≠ 0 then result
    -- designated port of designated bridge
    else comparePortIDs portA.portPriority portA.portNum portB.portPriority portB.portNum

def generateBPDU (bridge : STP numPorts) (port : Fin numPorts) : ConfigBPDU where
  bridgeAddress := bridge.bridgeAddress
  bridgePriority := bridge.bridgePriority
  rootPathCost := bridge.rootPathCost
  rootAddress := bridge.rootAddress
  rootPriority := bridge.rootPriority
  portNum := BitVec.ofNat 32 port
  portPriority := (bridge.ports port).priority
  messageAge := 0
  maxAge := bridge.currentMaxAge
  helloTime := bridge.currentHelloTime
  forwardDelay := bridge.currentFwdDelay

def modify (bridge : STP numPorts) (i : Fin numPorts)
    (f : STPInterfaceData → STPInterfaceData) : STP numPorts :=
  { bridge with ports := Function.update bridge.ports i (f (bridge.ports i)) }

/-- The information of a BPDU that arrives at a port. -/
def receivedInfo (port : STPInterfaceData) (bpdu : ConfigBPDU) : Ieee8021dInterfaceData :=
  { rootPriority := bpdu.rootPriority
    rootAddress := bpdu.rootAddress
    rootPathCost := bpdu.rootPathCost + port.linkCost
    bridgePriority := bpdu.bridgePriority
    bridgeAddress := bpdu.bridgeAddress
    portPriority := bpdu.portPriority
    portNum := bpdu.portNum }

def setSuperiorBPDU (bridge : STP numPorts) (portNum : Fin numPorts) (bpdu : ConfigBPDU) :
    STP numPorts :=
  -- the BPDU is out of date
  if bpdu.messageAge ≥ bpdu.maxAge then bridge
  else bridge.modify portNum fun portData =>
    { portData with
      rootPriority := bpdu.rootPriority
      rootAddress := bpdu.rootAddress
      rootPathCost := bpdu.rootPathCost + portData.linkCost
      bridgePriority := bpdu.bridgePriority
      bridgeAddress := bpdu.bridgeAddress
      portPriority := bpdu.portPriority
      portNum := bpdu.portNum
      maxAge := bpdu.maxAge
      fwdDelay := bpdu.forwardDelay
      helloTime := bpdu.helloTime
      age := 0 }

def isSuperiorBPDU (bridge : STP numPorts) (portNum : Fin numPorts) (bpdu : ConfigBPDU) :
    Bool × STP numPorts :=
  let port := bridge.ports portNum
  let result := comparePorts port.toIeee8021dInterfaceData (receivedInfo port bpdu)
  if result > 0 then (false, bridge)
  else if result < 0 then
    (true, (bridge.modify portNum fun port =>
      { port with fdWhile := 0, state := .DISCARDING }).setSuperiorBPDU portNum bpdu)
  else (true, bridge.setSuperiorBPDU portNum bpdu)

def checkRootEligibility (bridge : STP numPorts) : Bool :=
  (List.finRange numPorts).all fun i =>
    !decide (compareBridgeIDs (bridge.ports i).rootPriority (bridge.ports i).rootAddress
      bridge.bridgePriority bridge.bridgeAddress > 0)

def setAllDesignated (bridge : STP numPorts) : STP numPorts :=
  { bridge with
    ports := fun i =>
      if (bridge.ports i).role = .DISABLED then bridge.ports i
      else { bridge.ports i with role := .DESIGNATED }
    desPorts := (List.finRange numPorts).filter fun i => (bridge.ports i).role ≠ .DISABLED }

/-- One round of the loop of `selectRootPort`. -/
def betterPort (ports : Fin numPorts → STPInterfaceData) (best i : Fin numPorts) : Fin numPorts :=
  let result := comparePorts (ports i).toIeee8021dInterfaceData
    (ports best).toIeee8021dInterfaceData
  if result > 0 then i
  else if result < 0 then best
  else if (ports i).priority < (ports best).priority then i
  else best

/-- A bridge without ports is eligible as root and does not get here. -/
def selectRootPort (bridge : STP numPorts) : STP numPorts :=
  match (List.finRange numPorts).head? with
  | none => bridge
  | some first =>
    let xRootPort := (List.finRange numPorts).foldl (betterPort bridge.ports) first
    let best := bridge.ports xRootPort
    { bridge with
      desPorts := []
      ports := fun i =>
        { bridge.ports i with role := if i = xRootPort then .ROOT else .NOTASSIGNED }
      rootPort := xRootPort
      rootPathCost := best.rootPathCost
      rootAddress := best.rootAddress
      rootPriority := best.rootPriority
      currentMaxAge := best.maxAge
      currentFwdDelay := best.fwdDelay
      currentHelloTime := best.helloTime }

/-- What the bridge would send over a port, with the cost of that port. -/
def bridgeGlobal (bridge : STP numPorts) (i : Fin numPorts) : Ieee8021dInterfaceData :=
  { bridgePriority := bridge.bridgePriority
    bridgeAddress := bridge.bridgeAddress
    rootAddress := bridge.rootAddress
    rootPriority := bridge.rootPriority
    portPriority := (bridge.ports i).priority
    portNum := BitVec.ofNat 32 i
    rootPathCost := bridge.rootPathCost + (bridge.ports i).linkCost }

def selectDesignatedPorts (bridge : STP numPorts) : STP numPorts :=
  let candidate (i : Fin numPorts) : Bool :=
    (bridge.ports i).role ≠ .ROOT && (bridge.ports i).role ≠ .DISABLED
  let result (i : Fin numPorts) : ℤ :=
    comparePorts (bridge.bridgeGlobal i) (bridge.ports i).toIeee8021dInterfaceData
  { bridge with
    desPorts := (List.finRange numPorts).filter fun i => candidate i && result i > 0
    ports := fun i =>
      { bridge.ports i with
        role :=
          if candidate i && result i > 0 then .DESIGNATED
          else if candidate i && result i < 0 then .ALTERNATE
          else (bridge.ports i).role } }

def tryRoot (bridge : STP numPorts) : STP numPorts :=
  if bridge.checkRootEligibility then
    { bridge.setAllDesignated with
      isRoot := true
      rootPriority := bridge.bridgePriority
      rootAddress := bridge.bridgeAddress
      rootPathCost := 0
      currentHelloTime := bridge.helloTime
      currentMaxAge := bridge.maxAge
      currentFwdDelay := bridge.forwardDelay }
  else { bridge with isRoot := false }.selectRootPort.selectDesignatedPorts

/-- The BPDUs that are sent over the ports, and the bridge afterwards. -/
def handleBPDU (bridge : STP numPorts) (arrivalGate : Fin numPorts) (bpdu : ConfigBPDU) :
    List (Fin numPorts × ConfigBPDU) × STP numPorts :=
  let (superior, bridge) := bridge.isSuperiorBPDU arrivalGate bpdu
  let role := (bridge.ports arrivalGate).role
  let sent :=
    if !superior then
      -- an inferior BPDU is answered with a superior one
      if role = .DESIGNATED then [(arrivalGate, bridge.generateBPDU arrivalGate)] else []
    else if role = .ROOT then bridge.desPorts.map fun i => (i, bridge.generateBPDU i)
    else []
  (sent, bridge.tryRoot)

/-- The sign of a comparison: positive if the first argument comes first. -/
def precedence {α : Type*} [LinearOrder α] (a b : α) : ℤ :=
  if a < b then 1 else if b < a then -1 else 0

variable {α β : Type*} [LinearOrder α] [LinearOrder β]

theorem precedence_pos {a b : α} : precedence a b > 0 ↔ a < b := by
  unfold precedence
  split_ifs with h₁ h₂ <;> simp [h₁]

theorem precedence_neg {a b : α} : precedence a b < 0 ↔ b < a := by
  unfold precedence
  split_ifs with h₁ h₂
  · simp [h₁.le]
  · simp [h₂]
  · simp [h₂]

theorem precedence_eq_zero {a b : α} : precedence a b = 0 ↔ a = b := by
  unfold precedence
  split_ifs with h₁ h₂
  · simp [h₁.ne]
  · simp [h₂.ne']
  · simp [le_antisymm (not_lt.mp h₂) (not_lt.mp h₁)]

theorem precedence_toLex (a a' : α) (b b' : β) : precedence (toLex (a, b)) (toLex (a', b')) =
      if precedence a a' ≠ 0 then precedence a a' else precedence b b' := by
  by_cases h : a = a'
  · subst h
    rw [if_neg (by simp [precedence_eq_zero])]
    simp only [precedence, Prod.Lex.toLex_lt_toLex, lt_self_iff_false, true_and, false_or]
  · rw [if_pos (by simp [precedence_eq_zero, h])]
    simp only [precedence, Prod.Lex.toLex_lt_toLex, h, Ne.symm h, false_and, or_false]

/-- The priority and the address of a bridge. -/
abbrev BridgeID := ℕ ×ₗ ℕ

def bridgeID (priority : Uint32) (address : MACAddress) : BridgeID :=
  toLex (priority.toNat, address)

/-- Root, cost, designated bridge and designated port. -/
abbrev PriorityVector := BridgeID ×ₗ ℕ ×ₗ BridgeID ×ₗ ℕ ×ₗ ℕ

def vector (port : Ieee8021dInterfaceData) : PriorityVector :=
  toLex (bridgeID port.rootPriority port.rootAddress, toLex (port.rootPathCost.toNat,
    toLex (bridgeID port.bridgePriority port.bridgeAddress,
      toLex (port.portPriority.toNat, port.portNum.toNat))))

theorem precedence_uint32 (a b : Uint32) :
    precedence a.toNat b.toNat = if a < b then 1 else if a > b then -1 else 0 := by
  simp only [precedence, BitVec.lt_def, gt_iff_lt]

theorem compareBridgeIDs_eq (aPriority : Uint32) (aAddress : MACAddress) (bPriority : Uint32)
    (bAddress : MACAddress) :
    compareBridgeIDs aPriority aAddress bPriority bAddress =
      precedence (bridgeID aPriority aAddress) (bridgeID bPriority bAddress) := by
  rw [bridgeID, bridgeID, precedence_toLex, precedence_uint32, compareBridgeIDs]
  unfold precedence
  split_ifs <;> simp_all

theorem comparePortIDs_eq (aPriority aNum bPriority bNum : Uint32) :
    comparePortIDs aPriority aNum bPriority bNum =
      precedence (toLex (aPriority.toNat, aNum.toNat)) (toLex (bPriority.toNat, bNum.toNat)) := by
  rw [precedence_toLex, precedence_uint32, precedence_uint32, comparePortIDs]
  split_ifs <;> simp_all

theorem comparePorts_eq (portA portB : Ieee8021dInterfaceData) :
    comparePorts portA portB = precedence (vector portA) (vector portB) := by
  rw [vector, vector, precedence_toLex, precedence_toLex, precedence_toLex, precedence_uint32,
    comparePorts, compareBridgeIDs_eq, compareBridgeIDs_eq, comparePortIDs_eq]
  split_ifs <;> simp_all

end STP

end Inet.Ieee8021d
