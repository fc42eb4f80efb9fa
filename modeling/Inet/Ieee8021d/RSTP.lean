import Inet.Common.Basic

/-!
# The RSTP bridge

The port data of `RSTP` and its event handlers. The ports are numbered; an access to
another port throws. The frames that a bridge sends, the MAC address table and the
scheduling of its timers are left out: a hello tick or an upgrade event may come at any
time.
-/

namespace Inet.Ieee8021d

/-- The number that addresses are compared by. -/
abbrev MACAddress := ℕ

/-- A `simtime_t`. -/
abbrev SimTime := ℤ

inductive PortRole where
  | ALTERNATE | NOTASSIGNED | DISABLED | DESIGNATED | BACKUP | ROOT
deriving DecidableEq

inductive PortState where
  | DISCARDING | LEARNING | FORWARDING
deriving DecidableEq

/-- The contents of a received BPDU. -/
structure BPDU where
  rootAddress : MACAddress
  rootPriority : Uint32
  rootPathCost : Uint32
  bridgeAddress : MACAddress
  bridgePriority : Uint32
  portNum : Uint32
  portPriority : Uint32
  messageAge : SimTime
deriving DecidableEq

/-- `Ieee8021dInterfaceData`, with the carrier of the interface. -/
structure Ieee8021dInterfaceData where
  linkCost : Uint32 := 1
  edge : Bool := false
  carrier : Bool := true
  state : PortState := .FORWARDING
  role : PortRole := .NOTASSIGNED
  rootPriority : Uint32 := 0
  rootAddress : MACAddress := 0
  rootPathCost : Uint32 := 0
  bridgePriority : Uint32 := 0
  bridgeAddress : MACAddress := 0
  portPriority : Uint32 := 0
  portNum : Uint32 := -1
  age : SimTime := 0
  lostBPDU : Uint32 := 0
  nextUpgrade : SimTime := 0

inductive CompareResult where
  | WORSE_PORT | WORSE_SRC | WORSE_RPC | WORSE_ROOT | SIMILAR
  | BETTER_ROOT | BETTER_RPC | BETTER_SRC | BETTER_PORT
deriving DecidableEq

/-- The result is greater than zero. -/
def CompareResult.isBetter : CompareResult → Bool
  | BETTER_ROOT | BETTER_RPC | BETTER_SRC | BETTER_PORT => true
  | _ => false

/-- The result is less than zero. -/
def CompareResult.isWorse : CompareResult → Bool
  | WORSE_PORT | WORSE_SRC | WORSE_RPC | WORSE_ROOT => true
  | _ => false

/-- The arguments of one side of `compareRSTPData`, which are of type `int`. -/
structure RSTPData where
  rootPriority : ℤ
  rootAddress : MACAddress
  rootPathCost : ℤ
  bridgePriority : ℤ
  bridgeAddress : MACAddress
  portPriority : ℤ
  portNum : ℤ

def compareRSTPData (d₁ d₂ : RSTPData) : CompareResult :=
  if d₁.rootPriority ≠ d₂.rootPriority then
    if d₁.rootPriority < d₂.rootPriority then .WORSE_ROOT else .BETTER_ROOT
  else if d₁.rootAddress ≠ d₂.rootAddress then
    if d₁.rootAddress < d₂.rootAddress then .WORSE_ROOT else .BETTER_ROOT
  else if d₁.rootPathCost ≠ d₂.rootPathCost then
    if d₁.rootPathCost < d₂.rootPathCost then .WORSE_RPC else .BETTER_RPC
  else if d₁.bridgePriority ≠ d₂.bridgePriority then
    if d₁.bridgePriority < d₂.bridgePriority then .WORSE_SRC else .BETTER_SRC
  else if d₁.bridgeAddress ≠ d₂.bridgeAddress then
    if d₁.bridgeAddress < d₂.bridgeAddress then .WORSE_SRC else .BETTER_SRC
  else if d₁.portPriority ≠ d₂.portPriority then
    if d₁.portPriority < d₂.portPriority then .WORSE_PORT else .BETTER_PORT
  else if d₁.portNum ≠ d₂.portNum then
    if d₁.portNum < d₂.portNum then .WORSE_PORT else .BETTER_PORT
  else .SIMILAR

/-- The parameters and the address of the bridge. -/
structure RSTP where
  bridgePriority : Uint32
  bridgeAddress : MACAddress
  maxAge : SimTime
  forwardDelay : SimTime
  migrateTime : SimTime

/-- The data of ports `0` to `numPorts - 1`. -/
abbrev Ports (numPorts : ℕ) := Fin numPorts → Ieee8021dInterfaceData

/-- Setters of one port. -/
def Ports.modify {numPorts : ℕ} (ports : Ports numPorts) (i : Fin numPorts)
    (f : Ieee8021dInterfaceData → Ieee8021dInterfaceData) : Ports numPorts :=
  Function.update ports i (f (ports i))

namespace RSTP

variable {numPorts : ℕ} (bridge : RSTP) (now : SimTime) (ports : Ports numPorts)

/-- `getPortInterfaceData` for a number that need not be one of a port. -/
def portOf (numPorts : ℕ) (portNum : ℕ) : Result (Fin numPorts) :=
  if h : portNum < numPorts then .ok ⟨portNum, h⟩
  else .error (.cRuntimeError "gate is nullptr")

def getRootIndex : Option (Fin numPorts) :=
  (List.finRange numPorts).find? fun i => (ports i).role = .ROOT

def initInterfacedata (ifd : Ieee8021dInterfaceData) : Ieee8021dInterfaceData :=
  { ifd with
    rootPriority := bridge.bridgePriority
    rootAddress := bridge.bridgeAddress
    rootPathCost := 0
    age := 0
    bridgePriority := bridge.bridgePriority
    bridgeAddress := bridge.bridgeAddress
    portPriority := -1
    portNum := -1
    lostBPDU := 0 }

/-- The loops over all ports do the same to each of them. -/
def initPorts : Ports numPorts := fun j =>
  initInterfacedata bridge <| if ¬ (ports j).edge then
      { ports j with
        role := .NOTASSIGNED, state := .DISCARDING, nextUpgrade := now + bridge.migrateTime }
    else
      { ports j with role := .DESIGNATED, state := .FORWARDING }

def updateInterfacedata (frame : BPDU) (ifd : Ieee8021dInterfaceData) : Ieee8021dInterfaceData :=
  { ifd with
    rootPriority := frame.rootPriority
    rootAddress := frame.rootAddress
    rootPathCost := frame.rootPathCost + ifd.linkCost
    age := frame.messageAge + 1
    bridgePriority := frame.bridgePriority
    bridgeAddress := frame.bridgeAddress
    portPriority := frame.portPriority
    portNum := frame.portNum
    lostBPDU := 0 }

/-- The best data that the port has received. -/
def dataOf (ifd : Ieee8021dInterfaceData) : RSTPData :=
  { rootPriority := ifd.rootPriority.toInt
    rootAddress := ifd.rootAddress
    rootPathCost := ifd.rootPathCost.toInt
    bridgePriority := ifd.bridgePriority.toInt
    bridgeAddress := ifd.bridgeAddress
    portPriority := ifd.portPriority.toInt
    portNum := ifd.portNum.toInt }

/-- The data of a frame, with the path cost given. -/
def dataOfFrame (frame : BPDU) (rootPathCost : Uint32) : RSTPData :=
  { rootPriority := frame.rootPriority.toInt
    rootAddress := frame.rootAddress
    rootPathCost := rootPathCost.toInt
    bridgePriority := frame.bridgePriority.toInt
    bridgeAddress := frame.bridgeAddress
    portPriority := frame.portPriority.toInt
    portNum := frame.portNum.toInt }

/-- What this bridge would send through a port, for a path cost. -/
def ownData (rootPort ifd : Ieee8021dInterfaceData) (portNum : Fin numPorts)
    (rootPathCost : Uint32) : RSTPData :=
  { rootPriority := rootPort.rootPriority.toInt
    rootAddress := rootPort.rootAddress
    rootPathCost := rootPathCost.toInt
    bridgePriority := bridge.bridgePriority.toInt
    bridgeAddress := bridge.bridgeAddress
    portPriority := ifd.portPriority.toInt
    portNum := portNum }

/-- The root port of the contests; there is none when `getRootIndex` returns -1. -/
def contestRoot : Result (Fin numPorts) :=
  match getRootIndex ports with
  | some r => .ok r
  | none => .error (.cRuntimeError "gate is nullptr")

/-- `contestInterfacedata(portNum)`. -/
def contestPort (portNum : Fin numPorts) : Result CompareResult := do
  let r ← contestRoot ports
  let ifd := ports portNum
  .ok (compareRSTPData
    (ownData bridge (ports r) ifd portNum ((ports r).rootPathCost + ifd.linkCost)) (dataOf ifd))

/-- `contestInterfacedata(msg, portNum)`. -/
def contestFrame (msg : BPDU) (portNum : Fin numPorts) : Result CompareResult := do
  let r ← contestRoot ports
  .ok (compareRSTPData
    (ownData bridge (ports r) (ports portNum) portNum (ports r).rootPathCost)
    (dataOfFrame msg msg.rootPathCost))

def compareInterfacedata (portNum : Fin numPorts) (msg : BPDU) (linkCost : Uint32) :
    CompareResult :=
  compareRSTPData (dataOf (ports portNum)) (dataOfFrame msg (msg.rootPathCost + linkCost))

/-- One round of the loop of `getBestAlternate`. -/
def betterAlternate (candidate : Option (Fin numPorts)) (j : Fin numPorts) :
    Option (Fin numPorts) :=
  if (ports j).role = .ALTERNATE then
    match candidate with
    | none => some j
    | some c =>
      if (compareRSTPData (dataOf (ports j)) (dataOf (ports c))).isWorse then some j
      else some c
  else candidate

def getBestAlternate : Option (Fin numPorts) :=
  (List.finRange numPorts).foldl (betterAlternate ports) none

/-- `setRole` and `setState`. -/
def become (role : PortRole) (state : PortState) (ifd : Ieee8021dInterfaceData) :
    Ieee8021dInterfaceData :=
  { ifd with role, state }

/-- The port takes part in the contest to become forwarding. -/
def contend (ifd : Ieee8021dInterfaceData) : Ieee8021dInterfaceData :=
  { ifd with
    role := .DESIGNATED, state := .DISCARDING, nextUpgrade := now + bridge.forwardDelay }

def resetLost (ifd : Ieee8021dInterfaceData) : Ieee8021dInterfaceData :=
  { ifd with lostBPDU := 0 }

/-- What `handleUpgrade` does to a port. -/
def upgradePort (iPort : Ieee8021dInterfaceData) : Ieee8021dInterfaceData :=
  if iPort.carrier ∧ iPort.nextUpgrade = now then
    if iPort.role = .NOTASSIGNED then contend bridge now iPort
    else if iPort.role = .DESIGNATED then
      if iPort.state = .DISCARDING then
        { iPort with state := .LEARNING, nextUpgrade := now + bridge.forwardDelay }
      else if iPort.state = .LEARNING then { iPort with state := .FORWARDING }
      else iPort
    else iPort
  else iPort

def handleUpgrade : Ports numPorts := fun i => upgradePort bridge now (ports i)

/-- The port has missed four BPDUs. -/
def lostPort (i : Fin numPorts) : Ports numPorts :=
  if (ports i).role = .ROOT then
    match getBestAlternate ports with
    | some candidate =>
      let ports := ports.modify i (initInterfacedata bridge ∘ contend bridge now)
      ports.modify candidate (resetLost ∘ become .ROOT .FORWARDING)
    | none => initPorts bridge now ports
  else
    ports.modify i (initInterfacedata bridge ∘ contend bridge now)

/-- One round of the loop of `handleHelloTime`. -/
def helloPort (i : Fin numPorts) : Ports numPorts :=
  let iPort := ports i
  if ¬ iPort.edge ∧ (iPort.role = .ROOT ∨ iPort.role = .ALTERNATE ∨ iPort.role = .BACKUP) then
    let ports := ports.modify i fun ifd => { ifd with lostBPDU := ifd.lostBPDU + 1 }
    if (ports i).lostBPDU > 3 then (lostPort bridge now ports i).modify i resetLost
    else ports
  else ports

def handleHelloTime : Ports numPorts :=
  (List.finRange numPorts).foldl (helloPort bridge now) ports

def handleBackup (frame : BPDU) (arrival : Fin numPorts) : Result (Ports numPorts) := do
  let port := ports arrival
  if frame.portPriority < port.portPriority ∨
      frame.portPriority = port.portPriority ∧ frame.portNum.toNat < arrival then
    .ok (ports.modify arrival (resetLost ∘ become .BACKUP .DISCARDING))
  else
    -- the number of a port of this bridge, if the frame has been sent by it
    let sender ← portOf numPorts frame.portNum.toNat
    if frame.portPriority > port.portPriority ∨
        frame.portPriority = port.portPriority ∧ frame.portNum.toNat > arrival then
      .ok (ports.modify sender (resetLost ∘ become .BACKUP .DISCARDING))
    else
      .ok (ports.modify sender (become .DISABLED .DISCARDING))

/-- A better root than that of the root port: all other ports start again, except for edge
ports. -/
def resetOthers (arrival : Fin numPorts) : Ports numPorts := fun i =>
  if ¬ (ports i).edge ∧ i ≠ arrival then
    initInterfacedata bridge { ports i with
      role := .NOTASSIGNED, state := .DISCARDING, nextUpgrade := now + bridge.migrateTime }
  else ports i

/-- The arrival port takes over from the root port `r`. -/
def replaceRoot (r arrival : Fin numPorts) : Result (Ports numPorts) := do
  let ports := ports.modify arrival (resetLost ∘ become .ROOT .FORWARDING)
  -- just one port can be root at contest time
  let ports := ports.modify r fun ifd => { ifd with role := .ALTERNATE }
  let case3 ← contestPort bridge ports r
  if case3.isWorse then .ok (ports.modify r (contend bridge now))
  else .ok (ports.modify r (become .ALTERNATE .DISCARDING))

def processBetterSource (frame : BPDU) (arrival : Fin numPorts) : Result (Ports numPorts) :=
  let ports := ports.modify arrival (updateInterfacedata frame)
  match getRootIndex ports with
  | none => .ok (ports.modify arrival (resetLost ∘ become .ROOT .FORWARDING))
  | some r =>
    match compareInterfacedata ports r frame (ports arrival).linkCost with
    | .SIMILAR =>
      if (ports r).portPriority < (ports arrival).portPriority ∨
          (ports r).portPriority = (ports arrival).portPriority ∧ r < arrival then
        .ok (ports.modify arrival (resetLost ∘ become .ALTERNATE .DISCARDING))
      else
        let ports := ports.modify r (become .ALTERNATE .DISCARDING)
        .ok (ports.modify arrival (resetLost ∘ become .ROOT .FORWARDING))
    | .BETTER_ROOT =>
      .ok ((resetOthers bridge now ports arrival).modify arrival
        (resetLost ∘ become .ROOT .FORWARDING))
    | .BETTER_RPC | .BETTER_SRC | .BETTER_PORT => replaceRoot bridge now ports r arrival
    | .WORSE_ROOT => .ok ports
    | .WORSE_RPC | .WORSE_SRC | .WORSE_PORT => do
        let case3 ← contestFrame bridge ports frame arrival
        if case3.isWorse then .ok (ports.modify arrival (contend bridge now))
        else .ok (ports.modify arrival (resetLost ∘ become .ALTERNATE .DISCARDING))

/-- `WORSE_ROOT` from the source of the root port. -/
def loseRoot (frame : BPDU) (arrival : Fin numPorts) : Ports numPorts :=
  match getBestAlternate ports with
  | some alternative =>
    let ports := ports.modify arrival (contend bridge now)
    let ports := ports.modify alternative (become .ROOT .FORWARDING)
    ports.modify arrival (updateInterfacedata frame)
  | none =>
    let ports := initPorts bridge now ports
    if (compareInterfacedata ports arrival frame (ports arrival).linkCost).isBetter then
      ports.modify arrival (become .ROOT .FORWARDING ∘ updateInterfacedata frame)
    else ports

/-- A worse route from the source of the root port. -/
def worsenRoot (frame : BPDU) (arrival : Fin numPorts) : Result (Ports numPorts) := do
  let ports := ports.modify arrival resetLost
  match getBestAlternate ports with
  | some alternative =>
    if (compareInterfacedata ports alternative frame (ports arrival).linkCost).isWorse then
      let ports := ports.modify alternative (become .ROOT .FORWARDING)
      -- just one port can be root at contest time
      let ports := ports.modify arrival fun ifd => { ifd with role := .DESIGNATED }
      let case3 ← contestFrame bridge ports frame arrival
      let ports := ports.modify arrival
        (if case3.isWorse then contend bridge now else become .ALTERNATE .DISCARDING)
      .ok (ports.modify arrival (updateInterfacedata frame))
    else .ok (ports.modify arrival (updateInterfacedata frame))
  | none => .ok (ports.modify arrival (updateInterfacedata frame))

/-- A worse route from the source of a port that is not the root port. -/
def worsenOther (frame : BPDU) (arrival : Fin numPorts) : Result (Ports numPorts) := do
  if (ports arrival).role = .ALTERNATE then
    let case2 ← contestFrame bridge ports frame arrival
    let ports := ports.modify arrival
      (if case2.isWorse then contend bridge now else resetLost)
    .ok (ports.modify arrival (updateInterfacedata frame))
  else .ok (ports.modify arrival (updateInterfacedata frame))

def processSameSource (frame : BPDU) (arrival : Fin numPorts) : Result (Ports numPorts) :=
  match compareInterfacedata ports arrival frame (ports arrival).linkCost with
  | .SIMILAR => .ok (ports.modify arrival resetLost)
  | .WORSE_ROOT =>
    if (ports arrival).role = .ROOT then .ok (loseRoot bridge now ports frame arrival)
    else if (ports arrival).role = .ALTERNATE then
      .ok (ports.modify arrival (updateInterfacedata frame ∘ contend bridge now))
    else .ok ports
  | .WORSE_RPC | .WORSE_SRC | .WORSE_PORT =>
    if (ports arrival).role = .ROOT then worsenRoot bridge now ports frame arrival
    else worsenOther bridge now ports frame arrival
  | .BETTER_ROOT | .BETTER_RPC | .BETTER_SRC | .BETTER_PORT => .ok ports

def processBPDU (frame : BPDU) (arrival : Fin numPorts) : Result (Ports numPorts) :=
  if (compareInterfacedata ports arrival frame (ports arrival).linkCost).isBetter ∧
      frame.rootAddress ≠ bridge.bridgeAddress then
    processBetterSource bridge now ports frame arrival
  else if frame.bridgeAddress = (ports arrival).bridgeAddress ∧
      frame.rootAddress ≠ bridge.bridgeAddress then
    processSameSource bridge now ports frame arrival
  else .ok ports

/-- A frame with the source address `src`. -/
def handleIncomingFrame (frame : BPDU) (src : MACAddress) (arrival : Fin numPorts) :
    Result (Ports numPorts) :=
  if frame.messageAge < bridge.maxAge then
    if src = bridge.bridgeAddress then handleBackup ports frame arrival
    else processBPDU bridge now ports frame arrival
  else .ok ports

/-- `receiveSignal` for a port whose carrier has changed. -/
def interfaceStateChanged (carrier : Bool) (ifd : Ieee8021dInterfaceData) :
    Ieee8021dInterfaceData :=
  let ifd := { ifd with carrier }
  if carrier then
    if ifd.role = .NOTASSIGNED then { ifd with nextUpgrade := now + bridge.migrateTime }
    else if ifd.role = .DESIGNATED ∧ (ifd.state = .DISCARDING ∨ ifd.state = .LEARNING) then
      { ifd with nextUpgrade := now + bridge.forwardDelay }
    else ifd
  else ifd

inductive Event (numPorts : ℕ) where
  | helloTime
  | upgrade
  | incomingFrame (frame : BPDU) (src : MACAddress) (arrival : Fin numPorts)
  | interfaceStateChanged (port : Fin numPorts) (carrier : Bool)

/-- An event at a time. -/
def step (ports : Ports numPorts) : SimTime × Event numPorts → Result (Ports numPorts)
  | (now, .helloTime) => .ok (handleHelloTime bridge now ports)
  | (now, .upgrade) => .ok (handleUpgrade bridge now ports)
  | (now, .incomingFrame frame src arrival) =>
    handleIncomingFrame bridge now ports frame src arrival
  | (now, .interfaceStateChanged port carrier) =>
    .ok (ports.modify port (RSTP.interfaceStateChanged bridge now carrier))

/-- `start()`, for ports as the configurator leaves them. -/
def start : Ports numPorts := initPorts bridge now ports

end RSTP

end Inet.Ieee8021d
