import Inet.Aodv.AODVRouting
import Inet.Library.LoopFreedom
import Inet.Library.Run

/-!
# A network of AODV nodes

The nodes and the packets in flight. A packet that has been sent arrives at any time, or gets
lost; a broadcast packet arrives at any number of nodes, so that the links may change at will.
Timers fire and the network layer calls the hooks in any order.
-/

namespace Inet.Aodv

open LoopFreedom

structure Network where
  now : SimTime := 0
  node : L3Address → Node := fun _ => {}
  inFlight : List UDPPacket := []

inductive Event where
  | elapse (duration : ℕ)
  | lose (index : ℕ)
  | deliver (index : ℕ) (receiver : L3Address)
  /-- A datagram is sent, or arrives from another node. -/
  | datagramPreRoutingHook (self : L3Address) (sourceAddr : Option L3Address) (destAddr : L3Address)
  | datagramForwardHook (self sourceAddr destAddr : L3Address)
  | linkBreak (self destAddr : L3Address)
  | expungeTimer (self : L3Address) (visited : L3Address → Bool)
  | helloMsgTimer (self : L3Address)
  | counterTimer (self : L3Address)
  | waitForRREP (self destAddr : L3Address)
  | rrepAckTimer (self : L3Address)
  | blacklistTimer (self : L3Address)

namespace Network

/-- The node `self` has handled an event. -/
def put (net : Network) (self : L3Address) (outcome : Node × List UDPPacket) : Network :=
  { net with
    node := Function.update net.node self outcome.1
    inFlight := net.inFlight ++ outcome.2 }

/-- The packet is out of the air once its only receiver has it. -/
def take (net : Network) (index : ℕ) (packet : UDPPacket) : Network :=
  if packet.destAddr.isSome then { net with inFlight := net.inFlight.eraseIdx index } else net

/-- The receiver is another node, and the packet is for it. -/
def arrivesAt (packet : UDPPacket) (receiver : L3Address) : Bool :=
  packet.sourceAddr != receiver && (packet.destAddr.isNone || packet.destAddr == some receiver)

/-- The packet as the network layer of the receiver passes it up: the TTL has been decremented. -/
def arrived (packet : UDPPacket) : UDPPacket :=
  { packet with timeToLive := packet.timeToLive - 1 }

variable (config : L3Address → AODVParameters)

def step (net : Network) (event : Event) : Result Network :=
  match event with
  | .elapse duration => pure { net with now := net.now + duration }
  | .lose index => pure { net with inFlight := net.inFlight.eraseIdx index }
  | .deliver index receiver =>
    match net.inFlight[index]? with
    | none => pure net
    | some packet =>
      if arrivesAt packet receiver then
        (net.take index packet).put receiver <$>
          (net.node receiver).handleMessage (config receiver) receiver net.now
            (arrived packet)
      else pure net
  | .datagramPreRoutingHook self sourceAddr destAddr =>
    net.put self <$>
      (net.node self).ensureRouteForDatagram (config self) self net.now sourceAddr destAddr
  | .datagramForwardHook self sourceAddr destAddr =>
    net.put self <$>
      (net.node self).datagramForwardHook (config self) self net.now sourceAddr destAddr
  | .linkBreak self destAddr =>
    net.put self <$> (net.node self).receiveLinkBreak (config self) self net.now destAddr
  | .expungeTimer self visited =>
    pure (net.put self ((net.node self).expungeRoutes (config self) net.now visited, []))
  | .helloMsgTimer self =>
    net.put self <$> (net.node self).sendHelloMessagesIfNeeded (config self) self net.now
  | .counterTimer self =>
    pure (net.put self ({ net.node self with rreqCount := 0, rerrCount := 0 }, []))
  | .waitForRREP self destAddr =>
    net.put self <$> (net.node self).handleWaitForRREP (config self) self net.now destAddr
  | .rrepAckTimer self =>
    pure (net.put self ((net.node self).handleRREPACKTimer (config self) net.now, []))
  | .blacklistTimer self =>
    pure (net.put self ((net.node self).handleBlackListTimer net.now, []))

/-- The next hop of the active route of `x` to `dest` is `y`. -/
def ForwardsTo (net : Network) (dest x y : L3Address) : Prop :=
  ∃ route, (net.node x).findBestMatchingRoute dest = some route ∧ route.isActive = true ∧
    route.nextHop = y

/-- The active routes to a destination form no cycle. -/
def LoopFree (net : Network) : Prop :=
  ∀ dest x, ¬ Relation.TransGen (net.ForwardsTo dest) x x

end Network

/-- How good a route is: first by its sequence number, then by its hop count. Without a valid
sequence number it is worth nothing. -/
abbrev Rank := WithBot (ℕ ×ₗ ℕᵒᵈ)

def number (destSeqNum hopCount : Uint32) : Rank :=
  ((toLex (destSeqNum.toNat, OrderDual.toDual hopCount.toNat) : ℕ ×ₗ ℕᵒᵈ) : Rank)

def Route.rank (route : Route) : Rank :=
  if route.hasValidDestNum then number route.destSeqNum route.metric else ⊥

def rankOf (route : Option Route) : Rank := (route.map Route.rank).getD ⊥

def activeHop (route : Option Route) : Option L3Address :=
  route.bind fun route => if route.isActive then some route.nextHop else none

/-- What a packet says about its sender's distance to a destination. -/
def AODVControlPacket.announcement : AODVControlPacket → Option (L3Address × Rank)
  | .RREQ rreq => some (rreq.originatorAddr, number rreq.originatorSeqNum rreq.hopCount)
  | .RREP rrep => some (rrep.destAddr, number rrep.destSeqNum rrep.hopCount)
  | .RERR _ => none
  | .RREPACK => none

namespace Network

/-- What the nodes and the packets know about one destination. -/
def view (net : Network) (dest : L3Address) : View L3Address Rank where
  next x := activeHop ((net.node x).findBestMatchingRoute dest)
  rank x := rankOf ((net.node x).findBestMatchingRoute dest)
  announced := { a | ∃ packet ∈ net.inFlight,
    packet.sourceAddr = a.1 ∧ packet.ctrlPacket.announcement = some (dest, a.2) }

theorem view_next {net : Network} {dest x : L3Address} :
    (net.view dest).next x = activeHop ((net.node x).findBestMatchingRoute dest) := rfl

theorem view_rank {net : Network} {dest x : L3Address} :
    (net.view dest).rank x = rankOf ((net.node x).findBestMatchingRoute dest) := rfl

/-- The node `self` may replace what it knows about `dest` by something of that rank: it is not
worse, or no node forwards over `self` to `dest` and no packet about `dest` from `self` is in
flight. -/
def Replaceable (net : Network) (self dest : L3Address) (rank : Rank) : Prop :=
  rankOf ((net.node self).findBestMatchingRoute dest) ≤ rank ∨ ¬ (net.view dest).Relied self

end Network

end Inet.Aodv
