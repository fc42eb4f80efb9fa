import Inet.Aodv.AODVRoute

/-!
# The AODV node

The message and timer handlers of `AODVRouting`. A handler takes the data of its node and gives
the new data and the packets that are sent. The timers may fire at any time, the jitter of a
packet is part of its delay, and the datagrams that wait for a route are left out: only the
route discoveries that they start matter here. A node never reboots.
-/

namespace Inet.Aodv

structure AODVRREQ where
  gratuitousRREPFlag : Bool
  unknownSeqNumFlag : Bool
  hopCount : Uint32
  rreqId : Uint32
  destAddr : L3Address
  destSeqNum : Uint32
  originatorAddr : L3Address
  originatorSeqNum : Uint32

/-- A Route Reply; in a Hello message the originator is unspecified. -/
structure AODVRREP where
  ackRequiredFlag : Bool := false
  hopCount : Uint32
  destAddr : L3Address
  destSeqNum : Uint32
  originatorAddr : Option L3Address
  originatorSeqNum : Uint32 := 0
  lifeTime : SimTime

structure UnreachableNode where
  addr : L3Address
  seqNum : Uint32

structure AODVRERR where
  unreachableNodes : List UnreachableNode

inductive AODVControlPacket where
  | RREQ (rreq : AODVRREQ)
  | RREP (rrep : AODVRREP)
  | RERR (rerr : AODVRERR)
  | RREPACK

/-- A control packet in an IP datagram; `destAddr` is `none` for a broadcast. -/
structure UDPPacket where
  sourceAddr : L3Address
  destAddr : Option L3Address
  timeToLive : Uint32
  ctrlPacket : AODVControlPacket

structure AODVParameters where
  askGratuitousRREP : Bool := false
  rerrRatelimit : Uint32 := 10
  rreqRatelimit : Uint32 := 10
  rreqRetries : Uint32 := 2
  netDiameter : Uint32 := 35
  ttlStart : Uint32 := 2
  ttlIncrement : Uint32 := 2
  ttlThreshold : Uint32 := 7
  allowedHelloLoss : Uint32 := 2
  helloInterval : SimTime
  activeRouteTimeout : SimTime
  nodeTraversalTime : SimTime
  deletePeriod : SimTime
  myRouteTimeout : SimTime
  blacklistTimeout : SimTime
  netTraversalTime : SimTime
  pathDiscoveryTime : SimTime

/-- The data of a node. A pending route discovery is known by its timer, which keeps the last
TTL. `rreqsArrivalTime` compares its keys by the request's id only. -/
structure Node where
  routingTable : RoutingTable := {}
  rreqId : Uint32 := 0
  sequenceNum : Uint32 := 0
  waitForRREPTimers : L3Address → Option Uint32 := fun _ => none
  rreqsArrivalTime : Uint32 → Option SimTime := fun _ => none
  failedNextHop : L3Address := 0
  rrepAckTimer : Bool := false
  blacklist : L3Address → Option SimTime := fun _ => none
  rerrCount : Uint32 := 0
  rreqCount : Uint32 := 0
  lastBroadcastTime : SimTime := 0
  addressToRreqRetries : L3Address → Option Uint32 := fun _ => none

namespace Node

def findBestMatchingRoute (node : Node) (destAddr : L3Address) : Option Route :=
  node.routingTable.findBestMatchingRoute destAddr

def putRoute (node : Node) (destAddr : L3Address) (route : Route) : Node :=
  { node with routingTable := node.routingTable.put destAddr route }

def modifyRoute (node : Node) (destAddr : L3Address) (change : Route → Route) : Node :=
  { node with routingTable := node.routingTable.modify destAddr change }

def hasOngoingRouteDiscovery (node : Node) (target : L3Address) : Bool :=
  (node.waitForRREPTimers target).isSome

/-- `completeRouteDiscovery` and `cancelRouteDiscovery`. -/
def endRouteDiscovery (node : Node) (target : L3Address) : Node :=
  { node with waitForRREPTimers := Function.update node.waitForRREPTimers target none }

variable (aodv : AODVParameters) (self : L3Address) (now : SimTime)

def sendAODVPacket (node : Node) (packet : AODVControlPacket) (destAddr : Option L3Address)
    (timeToLive : Uint32) : Result (Node × UDPPacket) := do
  assert (timeToLive ≠ 0) "timeToLive != 0"
  let node := if destAddr.isNone then { node with lastBroadcastTime := now } else node
  pure (node, { sourceAddr := self, destAddr, timeToLive, ctrlPacket := packet })

/-- `updateValidRouteLifeTime`. -/
def updateValidRouteLifeTime (node : Node) (destAddr : L3Address) (lifetime : SimTime) : Node :=
  node.modifyRoute destAddr fun route =>
    if route.isActive then { route with lifeTime := max route.lifeTime lifetime } else route

def createRREQ (node : Node) (destAddr : L3Address) : Node × AODVRREQ :=
  let lastKnownRoute := (node.findBestMatchingRoute destAddr).filter (·.hasValidDestNum)
  let sequenceNum := node.sequenceNum + 1
  let rreqId := node.rreqId + 1
  ({ node with
      sequenceNum, rreqId,
      rreqsArrivalTime := Function.update node.rreqsArrivalTime rreqId (some now) },
    { gratuitousRREPFlag := aodv.askGratuitousRREP
      unknownSeqNumFlag := lastKnownRoute.isNone
      hopCount := 0
      rreqId, destAddr
      destSeqNum := (lastKnownRoute.map (·.destSeqNum)).getD 0
      originatorAddr := self
      originatorSeqNum := sequenceNum })

def sendRREQ (node : Node) (rreq : AODVRREQ) (timeToLive : Uint32) :
    Result (Node × List UDPPacket) :=
  if node.rreqCount ≥ aodv.rreqRatelimit then
    pure (node, [])
  else do
    let timeToLive :=
      match node.waitForRREPTimers rreq.destAddr with
      | some lastTTL =>
        if timeToLive ≠ 0 then timeToLive
        else if lastTTL + aodv.ttlIncrement < aodv.ttlThreshold then lastTTL + aodv.ttlIncrement
        else aodv.netDiameter
      | none => aodv.ttlStart
    let waitForRREPTimers :=
      Function.update node.waitForRREPTimers rreq.destAddr (some timeToLive)
    let (node, packet) ←
      { node with waitForRREPTimers }.sendAODVPacket self now (.RREQ rreq) none timeToLive
    pure ({ node with rreqCount := node.rreqCount + 1 }, [packet])

def startRouteDiscovery (node : Node) (target : L3Address) (timeToLive : Uint32) :
    Result (Node × List UDPPacket) :=
  let (node, rreq) := node.createRREQ aodv self now target
  { node with addressToRreqRetries := Function.update node.addressToRreqRetries target (some 0) }
    |>.sendRREQ aodv self now rreq timeToLive

/-- The hook for a datagram to `destAddr`, which the node sends or is about to forward. -/
def ensureRouteForDatagram (node : Node) (sourceAddr : Option L3Address) (destAddr : L3Address) :
    Result (Node × List UDPPacket) :=
  if destAddr = self then
    pure (node, [])
  else
    let route := node.findBestMatchingRoute destAddr
    match route.filter (·.isActive) with
    | some route =>
      pure ((node.updateValidRouteLifeTime destAddr (now + aodv.activeRouteTimeout)
        |>.updateValidRouteLifeTime route.nextHop (now + aodv.activeRouteTimeout)), [])
    | none =>
      if sourceAddr = none ∨ sourceAddr = some self then
        if node.hasOngoingRouteDiscovery destAddr then pure (node, [])
        else
          let timeToLive := (route.map (·.metric + aodv.ttlIncrement)).getD 0
          node.startRouteDiscovery aodv self now destAddr timeToLive
      else pure (node, [])

/-- The timer of a route discovery has fired. -/
def handleWaitForRREP (node : Node) (destAddr : L3Address) : Result (Node × List UDPPacket) :=
  match node.waitForRREPTimers destAddr with
  | none => pure (node, [])
  | some lastTTL => do
      let some retries := node.addressToRreqRetries destAddr
        | throw (.assertion "addressToRreqRetries.find(destAddr) != addressToRreqRetries.end()")
      if retries = aodv.rreqRetries then
        pure (node.endRouteDiscovery destAddr, [])
      else
        let (node, rreq) := node.createRREQ aodv self now destAddr
        let retries := if lastTTL = aodv.netDiameter then retries + 1 else retries
        let addressToRreqRetries :=
          Function.update node.addressToRreqRetries destAddr (some retries)
        { node with addressToRreqRetries }.sendRREQ aodv self now rreq 0

def sendRREP (node : Node) (rrep : AODVRREP) (destAddr : L3Address) (timeToLive : Uint32) :
    Result (Node × List UDPPacket) := do
  let some destRoute := node.findBestMatchingRoute destAddr | throw .nullPointer
  let node := node.modifyRoute destAddr (·.addPrecursor destRoute.nextHop)
  let neighbor := destRoute.metric = 1
  let node :=
    if neighbor then { node with failedNextHop := destRoute.nextHop, rrepAckTimer := true }
    else node
  let rrep := if neighbor then { rrep with ackRequiredFlag := true } else rrep
  let (node, packet) ← node.sendAODVPacket self now (.RREP rrep) (some destRoute.nextHop) timeToLive
  pure (node, [packet])

/-- `createRREP` of the destination itself. -/
def createDestRREP (node : Node) (rreq : AODVRREQ) : Node × AODVRREP :=
  let sequenceNum :=
    if !rreq.unknownSeqNumFlag && node.sequenceNum + 1 == rreq.destSeqNum then node.sequenceNum + 1
    else node.sequenceNum
  ({ node with sequenceNum },
    { hopCount := 0
      destAddr := rreq.destAddr
      destSeqNum := sequenceNum
      originatorAddr := some rreq.originatorAddr
      originatorSeqNum := rreq.originatorSeqNum
      lifeTime := aodv.myRouteTimeout })

/-- `createRREP` of an intermediate node. -/
def createIntermediateRREP (node : Node) (rreq : AODVRREQ) (destRoute : Route)
    (lastHopAddr : L3Address) : Node × AODVRREP :=
  ((node.modifyRoute rreq.destAddr (·.addPrecursor lastHopAddr)).modifyRoute rreq.originatorAddr
      (·.addPrecursor destRoute.nextHop),
    { hopCount := destRoute.metric
      destAddr := rreq.destAddr
      destSeqNum := destRoute.destSeqNum
      originatorAddr := some rreq.originatorAddr
      originatorSeqNum := rreq.originatorSeqNum
      lifeTime := destRoute.lifeTime - now })

def createGratuitousRREP (rreq : AODVRREQ) (originatorRoute : Route) : AODVRREP where
  hopCount := originatorRoute.metric
  destAddr := rreq.originatorAddr
  destSeqNum := rreq.originatorSeqNum
  originatorAddr := some rreq.destAddr
  lifeTime := originatorRoute.lifeTime

def sendGRREP (node : Node) (grrep : AODVRREP) (destAddr : L3Address) (timeToLive : Uint32) :
    Result (Node × List UDPPacket) := do
  let some destRoute := node.findBestMatchingRoute destAddr | throw .nullPointer
  let (node, packet) ←
    node.sendAODVPacket self now (.RREP grrep) (some destRoute.nextHop) timeToLive
  pure (node, [packet])

/-- The first lines of `handleRREQ` and of `handleRREP`: the route to the previous hop becomes
one without a valid sequence number, with the originator's number in its place. -/
def updatePreviousHop (node : Node) (sourceAddr : L3Address) (originatorSeqNum : Uint32) : Node :=
  node.putRoute sourceAddr <| createOrUpdate (node.findBestMatchingRoute sourceAddr) sourceAddr 1
    false originatorSeqNum (now + aodv.activeRouteTimeout)

end Node

/-- `handleRREQ` updates the reverse route with the request. The numbers are compared as
`int`. -/
def AODVRREQ.updates (rreq : AODVRREQ) (reverseRoute : Route) : Bool :=
  reverseRoute.destSeqNum.slt rreq.originatorSeqNum ||
  (rreq.originatorSeqNum == reverseRoute.destSeqNum && rreq.hopCount.slt reverseRoute.metric) ||
  rreq.unknownSeqNumFlag

/-- `std::max` of two numbers in `int`. -/
def maxInt (a b : Uint32) : Uint32 := if a.slt b then b else a

/-- `handleRREP` updates the forward route with the reply. -/
def AODVRREP.updates (rrep : AODVRREP) (destRoute : Route) : Bool :=
  !destRoute.hasValidDestNum || decide (destRoute.destSeqNum < rrep.destSeqNum) ||
  (rrep.destSeqNum == destRoute.destSeqNum && !destRoute.isActive) ||
  (rrep.destSeqNum == destRoute.destSeqNum && decide (rrep.hopCount < destRoute.metric))

namespace Node

variable (aodv : AODVParameters) (self : L3Address) (now : SimTime)

/-- The reverse route of a request whose hop count has been incremented. -/
def updateReverseRoute (node : Node) (rreq : AODVRREQ) (sourceAddr : L3Address) : Node :=
  let minimalLifeTime :=
    now + 2 * aodv.netTraversalTime - (2 * rreq.hopCount).toNat * aodv.nodeTraversalTime
  let newLifeTime := max now minimalLifeTime
  match node.findBestMatchingRoute rreq.originatorAddr with
  | none =>
    node.putRoute rreq.originatorAddr
      (createRoute sourceAddr rreq.hopCount true rreq.originatorSeqNum true newLifeTime)
  | some reverseRoute =>
    if rreq.updates reverseRoute then
      let newSeqNum := maxInt reverseRoute.destSeqNum rreq.originatorSeqNum
      node.putRoute rreq.originatorAddr
        (updateRoutingTable reverseRoute sourceAddr rreq.hopCount true newSeqNum true newLifeTime)
    else node

/-- The request has arrived before, within `pathDiscoveryTime`. -/
def isDuplicate (node : Node) (rreq : AODVRREQ) : Bool :=
  match node.rreqsArrivalTime rreq.rreqId with
  | some arrivalTime => now - arrivalTime ≤ aodv.pathDiscoveryTime
  | none => false

/-- The route with which an intermediate node answers the request. -/
def freshRoute (node : Node) (rreq : AODVRREQ) : Option Route :=
  (node.findBestMatchingRoute rreq.destAddr).filter fun destRoute =>
    destRoute.isActive && destRoute.hasValidDestNum &&
      decide (destRoute.destSeqNum ≥ rreq.destSeqNum)

def replyAsDestination (node : Node) (rreq : AODVRREQ) : Result (Node × List UDPPacket) :=
  let (node, rrep) := node.createDestRREP aodv rreq
  node.sendRREP self now rrep rreq.originatorAddr 255

/-- An intermediate node answers, and tells the destination if the request says so. -/
def replyAsIntermediate (node : Node) (rreq : AODVRREQ) (destRoute : Route)
    (sourceAddr : L3Address) : Result (Node × List UDPPacket) := do
  let (node, rrep) := node.createIntermediateRREP now rreq destRoute sourceAddr
  let (node, sent) ← node.sendRREP self now rrep rreq.originatorAddr 255
  if rreq.gratuitousRREPFlag then
    let some originatorRoute := node.findBestMatchingRoute rreq.originatorAddr
      | throw (.assertion "originatorRoute != nullptr")
    let (node, gratuitous) ← node.sendGRREP self now (createGratuitousRREP rreq originatorRoute)
      rreq.destAddr 100
    pure (node, sent ++ gratuitous)
  else pure (node, sent)

def forwardRREQ (node : Node) (rreq : AODVRREQ) (timeToLive : Uint32) :
    Result (Node × List UDPPacket) := do
  if timeToLive > 0 then
    let destSeqNum :=
      match node.findBestMatchingRoute rreq.destAddr with
      | some destRoute =>
        if destRoute.destSeqNum < rreq.destSeqNum then rreq.destSeqNum else destRoute.destSeqNum
      | none => rreq.destSeqNum
    let outgoingRREQ := { rreq with destSeqNum, unknownSeqNumFlag := false }
    let (node, packet) ← node.sendAODVPacket self now (.RREQ outgoingRREQ) none timeToLive
    pure (node, [packet])
  else pure (node, [])

/-- `handleRREQ` for a request that is not a duplicate, once the reverse route is updated. -/
def answerRREQ (node : Node) (rreq : AODVRREQ) (sourceAddr : L3Address) (timeToLive : Uint32) :
    Result (Node × List UDPPacket) :=
  if rreq.destAddr = self then
    node.replyAsDestination aodv self now rreq
  else
    match node.freshRoute rreq with
    | some destRoute =>
      if destRoute.nextHop = sourceAddr then pure (node, [])
      else node.replyAsIntermediate self now rreq destRoute sourceAddr
    | none => node.forwardRREQ self now rreq timeToLive

def handleRREQ (node : Node) (rreq : AODVRREQ) (sourceAddr : L3Address) (timeToLive : Uint32) :
    Result (Node × List UDPPacket) :=
  if (node.blacklist sourceAddr).isSome then
    pure (node, [])
  else
    let node := node.updatePreviousHop aodv now sourceAddr rreq.originatorSeqNum
    if node.isDuplicate aodv now rreq then
      pure (node, [])
    else
      let rreqsArrivalTime := Function.update node.rreqsArrivalTime rreq.rreqId (some now)
      let rreq := { rreq with hopCount := rreq.hopCount + 1 }
      let node := { node with rreqsArrivalTime }.updateReverseRoute aodv now rreq sourceAddr
      node.answerRREQ aodv self now rreq sourceAddr timeToLive

/-- `helloMessage` makes its sender a neighbor. -/
def handleHelloMessage (node : Node) (helloMessage : AODVRREP) : Node :=
  let newLifeTime := now + aodv.allowedHelloLoss.toNat * aodv.helloInterval
  let route := node.findBestMatchingRoute helloMessage.destAddr
  let lifeTime :=
    match route with
    | some route => max route.lifeTime newLifeTime
    | none => newLifeTime
  node.putRoute helloMessage.destAddr
    (createOrUpdate route helloMessage.destAddr 1 true helloMessage.destSeqNum lifeTime)

/-- The forward route of a reply whose hop count has been incremented. -/
def updateForwardRoute (node : Node) (rrep : AODVRREP) (sourceAddr : L3Address) : Node :=
  match node.findBestMatchingRoute rrep.destAddr with
  | none =>
    node.putRoute rrep.destAddr
      (createRoute sourceAddr rrep.hopCount true rrep.destSeqNum true (now + rrep.lifeTime))
  | some destRoute =>
    if rrep.updates destRoute then
      node.putRoute rrep.destAddr (updateRoutingTable destRoute sourceAddr rrep.hopCount true
        rrep.destSeqNum true (now + rrep.lifeTime))
    else node

/-- The acknowledgment that a reply asks for. -/
def acknowledgeRREP (node : Node) (rrep : AODVRREP) (sourceAddr : L3Address) :
    Result (Node × List UDPPacket) := do
  if rrep.ackRequiredFlag then
    let (node, rrepACK) ← node.sendAODVPacket self now .RREPACK (some sourceAddr) 100
    pure (node, [rrepACK])
  else pure (node, [])

/-- The node passes the reply on towards its originator. -/
def forwardRREP (node : Node) (rrep : AODVRREP) (originatorAddr sourceAddr : L3Address) :
    Result (Node × List UDPPacket) := do
  match node.findBestMatchingRoute originatorAddr with
  | none => pure (node, [])
  | some originatorRoute =>
    let nextHop := originatorRoute.nextHop
    let node := node.modifyRoute originatorAddr fun route =>
      { route with lifeTime := max (now + aodv.activeRouteTimeout) route.lifeTime }
    let (node, acks) ← node.acknowledgeRREP self now rrep sourceAddr
    let nextHopToDest := (node.findBestMatchingRoute rrep.destAddr).map (·.nextHop)
    let node := node.modifyRoute rrep.destAddr (·.addPrecursor nextHop)
    let node :=
      match nextHopToDest with
      | some nextHopToDest => node.modifyRoute nextHopToDest (·.addPrecursor nextHop)
      | none => node
    let outgoingRREP := { rrep with ackRequiredFlag := false }
    let (node, packet) ← node.sendAODVPacket self now (.RREP outgoingRREP) (some nextHop) 100
    pure (node, acks ++ [packet])

/-- The originator has got its reply: if it still waits for one, the reply is taken as it is. -/
def completeRouteDiscovery (node : Node) (rrep : AODVRREP) (sourceAddr : L3Address) : Node :=
  if node.hasOngoingRouteDiscovery rrep.destAddr then
    (node.modifyRoute rrep.destAddr fun destRoute =>
      updateRoutingTable destRoute sourceAddr rrep.hopCount true rrep.destSeqNum true
        (now + rrep.lifeTime)).endRouteDiscovery rrep.destAddr
  else node

def handleRREP (node : Node) (rrep : AODVRREP) (sourceAddr : L3Address) :
    Result (Node × List UDPPacket) :=
  match rrep.originatorAddr with
  | none => pure (node.handleHelloMessage aodv now rrep, [])
  | some originatorAddr =>
    let node := node.updatePreviousHop aodv now sourceAddr rrep.originatorSeqNum
    let rrep := { rrep with hopCount := rrep.hopCount + 1 }
    let node := node.updateForwardRoute now rrep sourceAddr
    if self ≠ originatorAddr then
      node.forwardRREP aodv self now rrep originatorAddr sourceAddr
    else pure (node.completeRouteDiscovery now rrep sourceAddr, [])

/-- Sends an error about the nodes, unless too many have been sent. -/
def sendRERR (node : Node) (unreachableNodes : List UnreachableNode) :
    Result (Node × List UDPPacket) := do
  if node.rerrCount ≥ aodv.rerrRatelimit ∨ unreachableNodes = [] then
    pure (node, [])
  else
    let (node, packet) ← node.sendAODVPacket self now (.RERR { unreachableNodes }) none 1
    pure ({ node with rerrCount := node.rerrCount + 1 }, [packet])

/-- What `handleLinkBreakSendRERR` does to a route over the unreachable neighbor. -/
def breakRoute (unreachableAddr : L3Address) (route : Route) : Route :=
  if route.isActive && route.nextHop == unreachableAddr then
    { route with
      destSeqNum := if route.hasValidDestNum then route.destSeqNum + 1 else route.destSeqNum
      isActive := false
      lifeTime := now + aodv.deletePeriod }
  else route

def handleLinkBreakSendRERR (node : Node) (unreachableAddr : L3Address) :
    Result (Node × List UDPPacket) :=
  match node.findBestMatchingRoute unreachableAddr with
  | none => pure (node, [])
  | some unreachableRoute =>
    let neighbors :=
      if unreachableRoute.isActive then
        [{ addr := unreachableAddr, seqNum := unreachableRoute.destSeqNum : UnreachableNode }]
      else []
    let unreachableNodes := neighbors ++ node.routingTable.entries.filterMap fun entry =>
      if entry.2.isActive && entry.2.nextHop == unreachableAddr then
        some { addr := entry.1
               seqNum := (breakRoute aodv now unreachableAddr entry.2).destSeqNum }
      else none
    { node with
      routingTable := node.routingTable.mapRoutes fun _ => breakRoute aodv now unreachableAddr }
      |>.sendRERR aodv self now unreachableNodes

/-- The signal that a frame with a datagram to `destAddr` has been lost. -/
def receiveLinkBreak (node : Node) (destAddr : L3Address) : Result (Node × List UDPPacket) :=
  match node.findBestMatchingRoute destAddr with
  | none => pure (node, [])
  | some route => node.handleLinkBreakSendRERR aodv self now route.nextHop

/-- What an unreachable node of an error does to the route to `destAddr`. -/
def invalidateRoute (destAddr : L3Address) (route : Route) (unreachable : UnreachableNode) :
    Route :=
  if destAddr = unreachable.addr then
    { route with
      destSeqNum := unreachable.seqNum
      isActive := false
      lifeTime := now + aodv.deletePeriod }
  else route

/-- The error concerns the routes over its sender. -/
def applyRERR (rerr : AODVRERR) (sourceAddr destAddr : L3Address) (route : Route) : Route :=
  if route.isActive && route.nextHop == sourceAddr then
    rerr.unreachableNodes.foldl (invalidateRoute aodv now destAddr) route
  else route

def handleRERR (node : Node) (rerr : AODVRERR) (sourceAddr : L3Address) :
    Result (Node × List UDPPacket) :=
  let unreachableNeighbors := node.routingTable.entries.flatMap fun entry =>
    if entry.2.isActive && entry.2.nextHop == sourceAddr && !entry.2.precursorList.isEmpty then
      rerr.unreachableNodes.filter fun unreachable => entry.1 = unreachable.addr
    else []
  { node with routingTable := node.routingTable.mapRoutes (applyRERR aodv now rerr sourceAddr) }
    |>.sendRERR aodv self now unreachableNeighbors

def handleRREPACK (node : Node) (neighborAddr : L3Address) : Node :=
  if node.rrepAckTimer && (node.findBestMatchingRoute neighborAddr).isSome then
    { node.modifyRoute neighborAddr fun route => { route with isActive := true } with
      rrepAckTimer := false }
  else node

def handleMessage (node : Node) (packet : UDPPacket) : Result (Node × List UDPPacket) :=
  match packet.ctrlPacket with
  | .RREQ rreq => node.handleRREQ aodv self now rreq packet.sourceAddr packet.timeToLive
  | .RREP rrep => node.handleRREP aodv self now rrep packet.sourceAddr
  | .RERR rerr => node.handleRERR aodv self now rerr packet.sourceAddr
  | .RREPACK => pure (node.handleRREPACK packet.sourceAddr, [])

def handleRREPACKTimer (node : Node) : Node :=
  if node.rrepAckTimer then
    { node with
      rrepAckTimer := false
      blacklist := Function.update node.blacklist node.failedNextHop
        (some (now + aodv.blacklistTimeout)) }
  else node

def handleBlackListTimer (node : Node) : Node :=
  { node with blacklist := fun addr => (node.blacklist addr).filter (now < ·) }

def createHelloMessage (node : Node) : AODVRREP where
  hopCount := 0
  destAddr := self
  destSeqNum := node.sequenceNum
  originatorAddr := none
  lifeTime := aodv.allowedHelloLoss.toNat * aodv.helloInterval

def sendHelloMessagesIfNeeded (node : Node) : Result (Node × List UDPPacket) := do
  let hasActiveRoute := node.routingTable.entries.any fun entry => entry.2.isActive
  if hasActiveRoute ∧ (node.lastBroadcastTime = 0 ∨
      now - node.lastBroadcastTime > aodv.helloInterval) then
    let (node, packet) ←
      node.sendAODVPacket self now (.RREP (node.createHelloMessage aodv self)) none 1
    pure (node, [packet])
  else pure (node, [])

/-- What `expungeRoutes` does to a route that it does not delete. -/
def expireRoute (node : Node) (destAddr : L3Address) (route : Route) : Route :=
  if route.lifeTime ≤ now then
    if route.isActive then
      { route with isActive := false, lifeTime := now + aodv.deletePeriod }
    else if node.hasOngoingRouteDiscovery destAddr then
      { route with lifeTime := now + 2 * aodv.netTraversalTime }
    else route
  else route

/-- `expungeRoutes` deletes the route when it comes to it. -/
def deletes (node : Node) (destAddr : L3Address) (route : Route) : Bool :=
  decide (route.lifeTime ≤ now) && !route.isActive && !node.hasOngoingRouteDiscovery destAddr

/-- The loop passes over the route that follows a deleted one; which route this is depends on
the order of the table. `visited` are the routes that the loop comes to. -/
def expungeRoutes (node : Node) (visited : L3Address → Bool) : Node :=
  { node with
    routingTable :=
      (node.routingTable.filterRoutes fun destAddr route =>
        !(visited destAddr && node.deletes now destAddr route)).mapRoutes fun destAddr route =>
          if visited destAddr then node.expireRoute aodv now destAddr route else route }

def updateNextHopLifeTime (node : Node) (route : Option Route) (lifetime : SimTime) : Node :=
  match route with
  | some route => node.updateValidRouteLifeTime route.nextHop lifetime
  | none => node

/-- The lifetimes that a forwarded datagram extends. -/
def extendLifeTimes (node : Node) (sourceAddr destAddr : L3Address) (lifetime : SimTime) : Node :=
  let ipSource := node.findBestMatchingRoute sourceAddr
  let routeDest := node.findBestMatchingRoute destAddr
  let node := node.updateValidRouteLifeTime sourceAddr lifetime
  let node := node.updateValidRouteLifeTime destAddr lifetime
  let node := node.updateNextHopLifeTime routeDest lifetime
  node.updateNextHopLifeTime ipSource lifetime

/-- The hook for a datagram that the node forwards. -/
def datagramForwardHook (node : Node) (sourceAddr destAddr : L3Address) :
    Result (Node × List UDPPacket) :=
  let lifetime := now + aodv.activeRouteTimeout
  if destAddr = self then
    let ipSource := node.findBestMatchingRoute sourceAddr
    pure (node.updateNextHopLifeTime ipSource lifetime, [])
  else
    let routeDest := node.findBestMatchingRoute destAddr
    let node := node.extendLifeTimes sourceAddr destAddr lifetime
    match routeDest with
    | some route =>
      if route.isActive then pure (node, [])
      else
        let destSeqNum := if route.hasValidDestNum then route.destSeqNum + 1 else route.destSeqNum
        node.modifyRoute destAddr (fun route =>
          { route with destSeqNum, lifeTime := now + aodv.deletePeriod })
          |>.sendRERR aodv self now
            [{ addr := destAddr, seqNum := if route.hasValidDestNum then destSeqNum else 0 }]
    | none => node.sendRERR aodv self now [{ addr := destAddr, seqNum := 0 }]

end Node

end Inet.Aodv
