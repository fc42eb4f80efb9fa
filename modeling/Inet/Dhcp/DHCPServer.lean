import Inet.Ipv4.IPv4Route
import Inet.Library.KeyedList
import Inet.Library.Run

/-!
# The leases of a DHCP server

`processDHCPMessage` answers DHCPDISCOVER and DHCPREQUEST messages out of `leased`, a map from
addresses to leases. A lease records the hardware address of its client, and `getLeaseByMac`
searches the map for it.
-/

namespace Inet.Dhcp

open Inet.Ipv4 (IPv4Address)
open Inet.Ipv4.IPv4Address (isUnspecified ALLONES_ADDRESS maskedAddrAreEqual)

/-- The 48 bits of a hardware address. -/
abbrev MACAddress := BitVec 48

inductive DHCPOpcode where
  | BOOTREQUEST
  | BOOTREPLY
deriving DecidableEq

inductive DHCPMessageType where
  | DHCPDISCOVER
  | DHCPOFFER
  | DHCPREQUEST
  | DHCPDECLINE
  | DHCPACK
  | DHCPNAK
  | DHCPRELEASE
  | DHCPINFORM
deriving DecidableEq

structure DHCPOptions where
  messageType : DHCPMessageType
  requestedIp : IPv4Address := 0
  subnetMask : IPv4Address := 0
  router : List IPv4Address := []
  dns : List IPv4Address := []
  serverIdentifier : IPv4Address := 0

structure DHCPMessage where
  op : DHCPOpcode
  xid : Uint32
  broadcast : Bool := false
  ciaddr : IPv4Address := 0
  yiaddr : IPv4Address := 0
  giaddr : IPv4Address := 0
  chaddr : MACAddress
  options : DHCPOptions

structure DHCPLease where
  xid : ℤ := -1
  ip : IPv4Address := 0
  mac : MACAddress := 0
  gateway : IPv4Address := 0
  subnetMask : IPv4Address := 0
  dns : IPv4Address := 0
  leased : Bool := false
deriving DecidableEq

/-- An element of the map `leased`. -/
abbrev Entry := IPv4Address × DHCPLease

/-- The map is ordered by the numbers of the addresses. -/
def Entry.key (e : Entry) : ℕ := e.1.toNat

/-- The interface that is served: its id and its address. -/
structure ServedInterface where
  interfaceId : ℤ
  ipAddress : IPv4Address

structure DHCPServer where
  leased : List Entry := []
  maxNumOfClients : ℕ
  subnetMask : IPv4Address
  gateway : IPv4Address
  ipAddressStart : IPv4Address
  ie : ServedInterface

/-- A message with the interface that it arrived on. -/
structure Arrival where
  interfaceId : ℤ
  packet : DHCPMessage

/-- A message and its destination. -/
abbrev Reply := DHCPMessage × IPv4Address

namespace DHCPServer

def find (server : DHCPServer) (ip : IPv4Address) : Option Entry :=
  KeyedList.lookup Entry.key server.leased ip.toNat

/-- `leased[ip] = lease`. -/
def store (server : DHCPServer) (e : Entry) : DHCPServer :=
  { server with
    leased := KeyedList.insert Entry.key e (KeyedList.erase Entry.key server.leased e.key) }

def getLeaseByMac (server : DHCPServer) (mac : MACAddress) : Option Entry :=
  server.leased.find? fun elem => elem.2.mac = mac

/-- A new lease for the address, not yet given to a client. -/
def createLease (server : DHCPServer) (ip : IPv4Address) : Entry :=
  (ip, { ip, gateway := server.gateway, subnetMask := server.subnetMask })

/-- The loop over the pool of available addresses. -/
def searchPool (server : DHCPServer) : List IPv4Address → Option Entry
  | [] => none
  | ip :: rest =>
    match server.find ip with
    | some e => if !e.2.leased then some e else searchPool server rest
    | none => some (server.createLease ip)

/-- The pool of available addresses. -/
def pool (server : DHCPServer) : List IPv4Address :=
  (List.range server.maxNumOfClients).map fun i => server.ipAddressStart + BitVec.ofNat 32 i

/-- The lease that is given to the client; `processDHCPMessage` stores it. -/
def getAvailableLease (server : DHCPServer) (requestedAddress : IPv4Address) : Option Entry :=
  if !isUnspecified requestedAddress then
    match server.find requestedAddress with
    | some e => if !e.2.leased then some e else some (server.createLease requestedAddress)
    | none => some (server.createLease requestedAddress)
  else server.searchPool server.pool

def sendNAK (server : DHCPServer) (msg : DHCPMessage) : Reply :=
  ({ op := .BOOTREPLY
     xid := msg.xid
     broadcast := msg.broadcast
     giaddr := msg.giaddr
     chaddr := msg.chaddr
     options := { messageType := .DHCPNAK, serverIdentifier := server.ie.ipAddress } },
    if !isUnspecified msg.giaddr then msg.giaddr else ALLONES_ADDRESS)

/-- The destination of an offer or an ACK, with and without the broadcast bit. -/
def replyAddress (packet : DHCPMessage) : IPv4Address :=
  if !isUnspecified packet.giaddr then packet.giaddr
  else if !isUnspecified packet.ciaddr then packet.ciaddr
  else ALLONES_ADDRESS

/-- The options that describe the lease. -/
def leaseOptions (server : DHCPServer) (lease : DHCPLease) (messageType : DHCPMessageType) :
    DHCPOptions where
  messageType := messageType
  subnetMask := lease.subnetMask
  router := [lease.gateway]
  dns := [lease.dns]
  serverIdentifier := server.ie.ipAddress

def sendACK (server : DHCPServer) (lease : DHCPLease) (packet : DHCPMessage) : Reply :=
  ({ op := .BOOTREPLY
     xid := BitVec.ofInt 32 lease.xid
     ciaddr := lease.ip
     yiaddr := lease.ip
     chaddr := lease.mac
     options := server.leaseOptions lease .DHCPACK }, replyAddress packet)

def sendOffer (server : DHCPServer) (lease : DHCPLease) (packet : DHCPMessage) : Reply :=
  ({ op := .BOOTREPLY
     xid := BitVec.ofInt 32 lease.xid
     yiaddr := lease.ip
     giaddr := lease.gateway
     chaddr := lease.mac
     options := server.leaseOptions lease .DHCPOFFER }, replyAddress packet)

/-- The lease is confirmed and acknowledged. -/
def acknowledge (server : DHCPServer) (e : Entry) (packet : DHCPMessage) :
    DHCPServer × Option Reply :=
  let lease := { e.2 with xid := packet.xid.toNat, leased := true }
  (server.store (e.1, lease), some (server.sendACK lease packet))

def processDiscover (server : DHCPServer) (packet : DHCPMessage) : DHCPServer × Option Reply :=
  match server.getLeaseByMac packet.chaddr with
  | none =>
    match server.getAvailableLease packet.options.requestedIp with
    | some e =>
      let lease := { e.2 with mac := packet.chaddr, xid := packet.xid.toNat, leased := true }
      (server.store (e.1, lease), some (server.sendOffer lease packet))
    | none => (server, none)
  | some e =>
    let lease := { e.2 with xid := packet.xid.toNat }
    (server.store (e.1, lease), some (server.sendOffer lease packet))

def processRequest (server : DHCPServer) (packet : DHCPMessage) : DHCPServer × Option Reply :=
  if packet.options.serverIdentifier = server.ie.ipAddress then
    match server.getLeaseByMac packet.chaddr with
    | some e =>
      if e.2.ip ≠ packet.options.requestedIp then (server, some (server.sendNAK packet))
      else server.acknowledge e packet
    | none => (server, some (server.sendNAK packet))
  else if isUnspecified packet.ciaddr then
    -- INIT-REBOOT
    let requestedAddress := packet.options.requestedIp
    match server.find requestedAddress with
    | none => (server, none)
    | some e =>
      if maskedAddrAreEqual requestedAddress e.2.ip server.subnetMask then
        server.acknowledge e packet
      else (server, some (server.sendNAK packet))
  else
    -- renewing or rebinding
    match server.find packet.ciaddr with
    | some e => server.acknowledge e packet
    | none => (server, some (server.sendNAK packet))

/-- The server after the message, and what it sends. -/
def processDHCPMessage (server : DHCPServer) (arrival : Arrival) : DHCPServer × Option Reply :=
  let packet := arrival.packet
  if arrival.interfaceId ≠ server.ie.interfaceId then (server, none)
  else if packet.op = .BOOTREQUEST then
    match packet.options.messageType with
    | .DHCPDISCOVER => server.processDiscover packet
    | .DHCPREQUEST => server.processRequest packet
    | _ => (server, none)
  else (server, none)

def step (server : DHCPServer) (arrival : Arrival) : Result DHCPServer :=
  .ok (server.processDHCPMessage arrival).1

end DHCPServer

end Inet.Dhcp
