import Inet.Dhcp.DHCPServer

/-!
# What a client is told about its lease

A message is `Regular` when it names no address that the server should not give to its sender:
a new client asks for an address of the pool that is free, and a client that does not answer an
offer names an address that is its own, if it is leased at all. The server checks neither, and
`safe_iff_regular` says that this is all that can go wrong.
-/

namespace Inet.Dhcp.DHCPServer

open Inet.Ipv4 (IPv4Address)
open Inet.Ipv4.IPv4Address (isUnspecified maskedAddrAreEqual)

variable {server : DHCPServer} {arrival : Arrival} {packet : DHCPMessage} {e : Entry}
  {ip : IPv4Address}

/-- The addresses from `ipAddressStart` to `ipAddressStart + maxNumOfClients - 1`. -/
def InPool (server : DHCPServer) (ip : IPv4Address) : Prop :=
  (ip - server.ipAddressStart).toNat < server.maxNumOfClients

/-- No address is leased to two clients, and no client holds two leases. -/
structure NoClash (server : DHCPServer) : Prop where
  ips : ∀ e ∈ server.leased, ∀ e' ∈ server.leased, e.2.ip = e'.2.ip → e = e'
  macs : ∀ e ∈ server.leased, ∀ e' ∈ server.leased, e.2.mac = e'.2.mac → e = e'

/-- A message is answered without harm to any lease. -/
structure Safe (server : DHCPServer) (arrival : Arrival) (server' : DHCPServer) : Prop where
  noClash : NoClash server'
  /-- Every lease stays with its client. -/
  kept : ∀ e ∈ server.leased, ∃ e' ∈ server'.leased, e'.2.ip = e.2.ip ∧ e'.2.mac = e.2.mac
  /-- What is acknowledged is leased to the client that has asked. -/
  acknowledged : ∀ reply dest, (server.processDHCPMessage arrival).2 = some (reply, dest) →
    reply.options.messageType = .DHCPACK →
      ∃ e ∈ server'.leased, e.2.ip = reply.yiaddr ∧ e.2.mac = arrival.packet.chaddr
  inPool : ∀ reply dest, (server.processDHCPMessage arrival).2 = some (reply, dest) →
    reply.options.messageType = .DHCPOFFER ∨ reply.options.messageType = .DHCPACK →
      server.InPool reply.yiaddr

/-- The address that a client names as its own when it does not answer an offer. -/
def ownAddress (packet : DHCPMessage) : IPv4Address :=
  if isUnspecified packet.ciaddr then packet.options.requestedIp else packet.ciaddr

/-- The client may be given the address that it names. -/
def Regular (server : DHCPServer) (arrival : Arrival) : Prop :=
  let packet := arrival.packet
  arrival.interfaceId = server.ie.interfaceId → packet.op = .BOOTREQUEST →
    match packet.options.messageType with
    | .DHCPDISCOVER =>
      server.getLeaseByMac packet.chaddr = none → isUnspecified packet.options.requestedIp = false →
          server.InPool packet.options.requestedIp ∧
            ∀ e, server.find packet.options.requestedIp = some e → e.2.leased = false
    | .DHCPREQUEST =>
      packet.options.serverIdentifier ≠ server.ie.ipAddress →
        ∀ e, server.find (ownAddress packet) = some e → e.2.mac = packet.chaddr
    | _ => True

/-- The invariant of the map of leases. -/
structure LeasesOk (server : DHCPServer) : Prop where
  sorted : KeyedList.Sorted Entry.key server.leased
  ip_eq : ∀ e ∈ server.leased, e.2.ip = e.1
  macs : ∀ e ∈ server.leased, ∀ e' ∈ server.leased, e.2.mac = e'.2.mac → e.1 = e'.1
  leased : ∀ e ∈ server.leased, e.2.leased = true
  inPool : ∀ e ∈ server.leased, server.InPool e.1

theorem Entry.key_inj {e e' : Entry} : e.key = e'.key ↔ e.1 = e'.1 := BitVec.toNat_inj

/-- The lease of an address that is given to a new client. -/
def givenLease (server : DHCPServer) (ip : IPv4Address) (packet : DHCPMessage) : Entry :=
  let e := server.createLease ip
  (e.1, { e.2 with mac := packet.chaddr, xid := packet.xid.toNat, leased := true })

namespace LeasesOk

theorem eq_of_ip (h : LeasesOk server) {e' : Entry} (he : e ∈ server.leased)
    (he' : e' ∈ server.leased) (hip : e.1 = e'.1) : e = e' :=
  h.sorted.eq_of_key he he' (Entry.key_inj.mpr hip)

theorem noClash (h : LeasesOk server) : NoClash server where
  ips := by
    intro e he e' he' hip
    apply h.eq_of_ip he he'
    rw [← h.ip_eq e he, ← h.ip_eq e' he', hip]
  macs := fun e he e' he' hmac => h.eq_of_ip he he' (h.macs e he e' he' hmac)

theorem find_eq_some (h : LeasesOk server) :
    server.find ip = some e ↔ e ∈ server.leased ∧ e.1 = ip := by
  rw [find, KeyedList.lookup_eq_some h.sorted]
  exact and_congr_right fun _ => BitVec.toNat_inj

theorem mem_store {x : Entry} :
    x ∈ (server.store e).leased ↔ x = e ∨ (x ∈ server.leased ∧ x.1 ≠ e.1) := by
  show x ∈ KeyedList.insert Entry.key e (KeyedList.erase Entry.key server.leased e.key) ↔ _
  rw [KeyedList.mem_insert, KeyedList.mem_erase, ne_eq, Entry.key_inj]

/-- A lease is stored whose client holds no other one. -/
theorem store (h : LeasesOk server) (hip : e.2.ip = e.1) (hleased : e.2.leased = true)
    (hpool : server.InPool e.1) (hmac : ∀ x ∈ server.leased, x.2.mac = e.2.mac → x.1 = e.1) :
    LeasesOk (server.store e) where
  sorted := by
    apply (h.sorted.erase _).insert
    intro y hy
    exact (KeyedList.mem_erase.mp hy).2
  ip_eq := by
    intro x hx
    obtain rfl | ⟨hx, -⟩ := mem_store.mp hx
    · exact hip
    · exact h.ip_eq x hx
  macs := by
    intro x hx y hy hxy
    obtain rfl | ⟨hx', -⟩ := mem_store.mp hx
    · obtain rfl | ⟨hy', -⟩ := mem_store.mp hy
      · rfl
      · exact (hmac y hy' hxy.symm).symm
    · obtain rfl | ⟨hy', -⟩ := mem_store.mp hy
      · exact hmac x hx' hxy
      · exact h.macs x hx' y hy' hxy
  leased := by
    intro x hx
    obtain rfl | ⟨hx, -⟩ := mem_store.mp hx
    · exact hleased
    · exact h.leased x hx
  inPool := by
    intro x hx
    obtain rfl | ⟨hx, -⟩ := mem_store.mp hx
    · exact hpool
    · exact h.inPool x hx

/-- A message that changes no lease and is answered with a NAK or not at all. -/
theorem safe_of_unchanged (h : LeasesOk server)
    (hrun : (server.processDHCPMessage arrival).1 = server)
    (hnak : ∀ reply dest, (server.processDHCPMessage arrival).2 = some (reply, dest) →
      reply.options.messageType = .DHCPNAK) :
    Safe server arrival (server.processDHCPMessage arrival).1 where
  noClash := by
    rw [hrun]
    exact h.noClash
  kept := by
    rw [hrun]
    exact fun e he => ⟨e, he, rfl, rfl⟩
  acknowledged := by
    intro reply dest hreply hack
    rw [hnak reply dest hreply] at hack
    cases hack
  inPool := by
    intro reply dest hreply htype
    rw [hnak reply dest hreply] at htype
    obtain htype | htype := htype <;> cases htype

/-- A message for which a lease is stored and sent to the client. -/
structure Answers (server : DHCPServer) (arrival : Arrival) (e : Entry) (reply : DHCPMessage) :
    Prop where
  server_eq : (server.processDHCPMessage arrival).1 = server.store e
  reply_eq : ∃ dest, (server.processDHCPMessage arrival).2 = some (reply, dest)
  yiaddr : reply.yiaddr = e.1
  ip_eq : e.2.ip = e.1
  messageType : reply.options.messageType = .DHCPOFFER ∨ reply.options.messageType = .DHCPACK

variable {reply : DHCPMessage}

/-- The answer is safe if the lease is new or that of the client. -/
theorem safe_of_answers (h : LeasesOk server) (ha : Answers server arrival e reply)
    (hok : LeasesOk (server.store e))
    (hkept : ∀ x ∈ server.leased, x.1 = e.1 → x.2.mac = e.2.mac)
    (hmac : e.2.mac = arrival.packet.chaddr) (hpool : server.InPool e.1) :
    Safe server arrival (server.processDHCPMessage arrival).1 where
  noClash := by
    rw [ha.server_eq]
    exact hok.noClash
  kept := by
    intro x hx
    rw [ha.server_eq]
    by_cases hxe : x.1 = e.1
    · refine ⟨e, mem_store.mpr (.inl rfl), ?_, (hkept x hx hxe).symm⟩
      rw [ha.ip_eq, h.ip_eq x hx, hxe]
    · exact ⟨x, mem_store.mpr (.inr ⟨hx, hxe⟩), rfl, rfl⟩
  acknowledged := by
    intro reply' dest hreply _
    obtain ⟨dest', hreply'⟩ := ha.reply_eq
    obtain ⟨rfl, -⟩ := Prod.mk.inj (Option.some.inj (hreply'.symm.trans hreply))
    rw [ha.server_eq, ha.yiaddr]
    exact ⟨e, mem_store.mpr (.inl rfl), ha.ip_eq, hmac⟩
  inPool := by
    intro reply' dest hreply _
    obtain ⟨dest', hreply'⟩ := ha.reply_eq
    obtain ⟨rfl, -⟩ := Prod.mk.inj (Option.some.inj (hreply'.symm.trans hreply))
    rw [ha.yiaddr]
    exact hpool

/-- In a safe answer the address belongs to the pool. -/
theorem inPool_of_safe (ha : Answers server arrival e reply)
    (hsafe : Safe server arrival (server.processDHCPMessage arrival).1) : server.InPool e.1 := by
  obtain ⟨dest, hreply⟩ := ha.reply_eq
  rw [← ha.yiaddr]
  exact hsafe.inPool reply dest hreply ha.messageType

/-- In a safe answer the lease has not been that of another client. -/
theorem mac_of_safe (h : LeasesOk server) (ha : Answers server arrival e reply)
    (hsafe : Safe server arrival (server.processDHCPMessage arrival).1) {x : Entry}
    (hx : x ∈ server.leased) (hip : x.1 = e.1) : x.2.mac = e.2.mac := by
  obtain ⟨e', he', hip', hmac⟩ := hsafe.kept x hx
  rw [ha.server_eq] at he'
  have hip'' : e'.2.ip = e.1 := by rw [hip', h.ip_eq x hx, hip]
  obtain rfl | ⟨hmem, hne⟩ := mem_store.mp he'
  · exact hmac.symm
  · exact absurd ((h.ip_eq e' hmem).symm.trans hip'') hne

/-- A lease that is confirmed: this is safe just in case it is that of the client. -/
theorem acknowledge_spec (h : LeasesOk server) (he : e ∈ server.leased)
    (hrun : server.processDHCPMessage arrival = server.acknowledge e arrival.packet) :
    LeasesOk (server.processDHCPMessage arrival).1 ∧
      (Safe server arrival (server.processDHCPMessage arrival).1 ↔
        e.2.mac = arrival.packet.chaddr) := by
  have hok : LeasesOk (server.acknowledge e arrival.packet).1 :=
    h.store (h.ip_eq e he) rfl (h.inPool e he) fun x hx hmac => h.macs x hx e he hmac
  have hkept : ∀ x ∈ server.leased, x.1 = e.1 → x.2.mac = e.2.mac := by
    intro x hx hip
    rw [h.eq_of_ip hx he hip]
  have hserver : (server.processDHCPMessage arrival).1 =
      (server.acknowledge e arrival.packet).1 := by rw [hrun]
  have ha : Answers server arrival _ _ :=
    ⟨hserver, ⟨_, congrArg Prod.snd hrun⟩, h.ip_eq e he, h.ip_eq e he, .inr rfl⟩
  refine ⟨hserver ▸ hok, fun hsafe => ?_, fun hmac => ?_⟩
  · obtain ⟨e', he', hip, hmac⟩ :=
      hsafe.acknowledged _ _ (congrArg Prod.snd hrun) rfl
    rw [hserver] at he'
    obtain rfl | ⟨hmem, hne⟩ := mem_store.mp he'
    · exact hmac
    · refine absurd ?_ hne
      exact (h.ip_eq e' hmem).symm.trans (hip.trans (h.ip_eq e he))
  · exact h.safe_of_answers ha hok hkept hmac (h.inPool e he)

/-- A new client has no lease. -/
theorem mac_ne_of_getLeaseByMac {mac : MACAddress} (hnone : server.getLeaseByMac mac = none) :
    ∀ x ∈ server.leased, x.2.mac ≠ mac := by
  intro x hx
  simpa using List.find?_eq_none.mp hnone x hx

/-- The lease found for a hardware address is that of the client. -/
theorem mem_of_getLeaseByMac {mac : MACAddress} (hsome : server.getLeaseByMac mac = some e) :
    e ∈ server.leased ∧ e.2.mac = mac :=
  ⟨List.mem_of_find?_eq_some hsome, by simpa using List.find?_some hsome⟩

/-- The loop over the pool ends at an address without a lease: all leases are given to clients. -/
theorem searchPool_eq_some (h : LeasesOk server) {ips : List IPv4Address}
    (hsearch : server.searchPool ips = some e) :
    ∃ ip ∈ ips, server.find ip = none ∧ e = server.createLease ip := by
  induction ips with
  | nil => cases hsearch
  | cons ip rest ih =>
    rw [searchPool] at hsearch
    cases hfind : server.find ip with
    | none =>
      rw [hfind] at hsearch
      cases hsearch
      exact ⟨ip, List.mem_cons_self, hfind, rfl⟩
    | some x =>
      have hleased : x.2.leased = true := h.leased x (h.find_eq_some.mp hfind).1
      rw [hfind] at hsearch
      simp only [hleased, Bool.not_true, Bool.false_eq_true, if_false] at hsearch
      obtain ⟨ip', hmem, hnone, heq⟩ := ih hsearch
      exact ⟨ip', List.mem_cons_of_mem ip hmem, hnone, heq⟩

theorem inPool_of_mem_pool (hmem : ip ∈ server.pool) : server.InPool ip := by
  obtain ⟨i, hi, rfl⟩ := List.mem_map.mp hmem
  have hlt : i < server.maxNumOfClients := List.mem_range.mp hi
  have hoffset : server.ipAddressStart + BitVec.ofNat 32 i - server.ipAddressStart =
      BitVec.ofNat 32 i := by bv_omega
  rw [InPool, hoffset, BitVec.toNat_ofNat]
  exact (Nat.mod_le i _).trans_lt hlt

section

variable (h : LeasesOk server)

include h

/-- The address that a client asks for is given to it, whether or not it is leased. -/
theorem getAvailableLease_requested (hspecified : isUnspecified ip = false) :
    server.getAvailableLease ip = some (server.createLease ip) := by
  rw [getAvailableLease]
  simp only [hspecified, Bool.not_false, if_true]
  cases hfind : server.find ip with
  | none => rfl
  | some e =>
    have hleased : e.2.leased = true := h.leased e (h.find_eq_some.mp hfind).1
    simp [hleased]

/-- A new client is offered an address: this is safe just in case the address is in the pool and
nobody else holds it. -/
theorem give_spec (hnone : server.getLeaseByMac arrival.packet.chaddr = none)
    (hrun : server.processDHCPMessage arrival = (server.store (server.givenLease ip arrival.packet),
        some (server.sendOffer (server.givenLease ip arrival.packet).2 arrival.packet))) :
    (server.InPool ip ∧ server.find ip = none → LeasesOk (server.processDHCPMessage arrival).1) ∧
      (Safe server arrival (server.processDHCPMessage arrival).1 ↔
        server.InPool ip ∧ server.find ip = none) := by
  have hfresh := mac_ne_of_getLeaseByMac hnone
  have hserver := congrArg Prod.fst hrun
  have ha : Answers server arrival (server.givenLease ip arrival.packet) _ :=
    ⟨hserver, ⟨_, congrArg Prod.snd hrun⟩, rfl, rfl, .inl rfl⟩
  have hok (hpool : server.InPool ip) :
      LeasesOk (server.store (server.givenLease ip arrival.packet)) :=
    h.store rfl rfl hpool fun x hx hmac => absurd hmac (hfresh x hx)
  refine ⟨fun hcond => hserver ▸ hok hcond.1, fun hsafe => ⟨inPool_of_safe ha hsafe, ?_⟩, ?_⟩
  · cases hfind : server.find ip with
    | none => rfl
    | some x =>
      obtain ⟨hx, hip⟩ := h.find_eq_some.mp hfind
      exact absurd (h.mac_of_safe ha hsafe hx hip) (hfresh x hx)
  · rintro ⟨hpool, hfind⟩
    refine h.safe_of_answers ha (hok hpool) (fun x hx hip => ?_) rfl hpool
    have hfound := h.find_eq_some.mpr ⟨hx, hip⟩
    rw [show (server.givenLease ip arrival.packet).1 = ip from rfl, hfind] at hfound
    cases hfound

theorem processDiscover_spec
    (hrun : server.processDHCPMessage arrival = server.processDiscover arrival.packet)
    (hregular : Regular server arrival ↔ (server.getLeaseByMac arrival.packet.chaddr = none →
        isUnspecified arrival.packet.options.requestedIp = false →
          server.InPool arrival.packet.options.requestedIp ∧
            ∀ e, server.find arrival.packet.options.requestedIp = some e → e.2.leased = false)) :
    (Regular server arrival → LeasesOk (server.processDHCPMessage arrival).1) ∧
      (Safe server arrival (server.processDHCPMessage arrival).1 ↔ Regular server arrival) := by
  rw [hregular]
  rw [processDiscover] at hrun
  cases hmac : server.getLeaseByMac arrival.packet.chaddr with
  | some e =>
    -- the client holds a lease, which is offered again
    obtain ⟨he, hchaddr⟩ := mem_of_getLeaseByMac hmac
    simp only [hmac] at hrun
    have hserver := congrArg Prod.fst hrun
    have hok : LeasesOk (server.store
        (e.1, { e.2 with xid := arrival.packet.xid.toNat })) :=
      h.store (h.ip_eq e he) (h.leased e he) (h.inPool e he) fun x hx hxe =>
        h.macs x hx e he hxe
    refine ⟨fun _ => hserver ▸ hok, iff_of_true ?_ (fun hnone => by cases hnone)⟩
    have ha : Answers server arrival _ _ :=
      ⟨hserver, ⟨_, congrArg Prod.snd hrun⟩, h.ip_eq e he, h.ip_eq e he, .inl rfl⟩
    refine h.safe_of_answers ha hok (fun x hx hip => ?_) hchaddr (h.inPool e he)
    rw [h.eq_of_ip hx he hip]
  | none =>
    simp only [hmac] at hrun
    by_cases hspecified : isUnspecified arrival.packet.options.requestedIp = false
    · rw [h.getAvailableLease_requested hspecified] at hrun
      obtain ⟨hok, hsafe⟩ := h.give_spec hmac hrun
      have hfree : (∀ e, server.find arrival.packet.options.requestedIp = some e →
          e.2.leased = false) ↔ server.find arrival.packet.options.requestedIp = none := by
        constructor
        · intro hfind
          cases hfound : server.find arrival.packet.options.requestedIp with
          | none => rfl
          | some e =>
            have hleased := h.leased e (h.find_eq_some.mp hfound).1
            rw [hfind e hfound] at hleased
            cases hleased
        · intro hnone e hsome
          rw [hnone] at hsome
          cases hsome
      simp only [hspecified, forall_const, hfree]
      exact ⟨hok, hsafe⟩
    · -- the address is the first free one of the pool
      simp only [Bool.not_eq_false] at hspecified
      have havailable : server.getAvailableLease arrival.packet.options.requestedIp =
          server.searchPool server.pool := by
        rw [getAvailableLease]
        simp [hspecified]
      rw [havailable] at hrun
      cases hsearch : server.searchPool server.pool with
      | some e =>
        obtain ⟨ip, hmem, hfree, rfl⟩ := h.searchPool_eq_some hsearch
        rw [hsearch] at hrun
        obtain ⟨hok, hsafe⟩ := h.give_spec hmac hrun
        have hcond := And.intro (inPool_of_mem_pool hmem) hfree
        exact ⟨fun _ => hok hcond, iff_of_true (hsafe.mpr hcond) (by simp [hspecified])⟩
      | none =>
        rw [hsearch] at hrun
        have hsame := congrArg Prod.fst hrun
        refine ⟨fun _ => hsame ▸ h, iff_of_true ?_ (by simp [hspecified])⟩
        apply h.safe_of_unchanged hsame
        intro reply dest hreply
        rw [hrun] at hreply
        cases hreply

theorem processRequest_spec
    (hrun : server.processDHCPMessage arrival = server.processRequest arrival.packet)
    (hregular : Regular server arrival ↔
      (arrival.packet.options.serverIdentifier ≠ server.ie.ipAddress →
        ∀ e, server.find (ownAddress arrival.packet) = some e → e.2.mac = arrival.packet.chaddr)) :
    LeasesOk (server.processDHCPMessage arrival).1 ∧
      (Safe server arrival (server.processDHCPMessage arrival).1 ↔ Regular server arrival) := by
  have unchanged {r : Option Reply} (heq : server.processDHCPMessage arrival = (server, r))
      (hnak : ∀ reply dest, r = some (reply, dest) → reply.options.messageType = .DHCPNAK)
      (hreg : Regular server arrival) : LeasesOk (server.processDHCPMessage arrival).1 ∧
        (Safe server arrival (server.processDHCPMessage arrival).1 ↔ Regular server arrival) := by
    have hsame := congrArg Prod.fst heq
    refine ⟨hsame ▸ h, iff_of_true (h.safe_of_unchanged hsame fun reply dest hreply => ?_) hreg⟩
    exact hnak reply dest ((congrArg Prod.snd heq).symm.trans hreply)
  have nak (reply : DHCPMessage) (dest : IPv4Address)
      (hreply : some (server.sendNAK arrival.packet) = some (reply, dest)) :
      reply.options.messageType = .DHCPNAK := by
    obtain rfl := congrArg Prod.fst (Option.some.inj hreply)
    rfl
  rw [processRequest] at hrun
  by_cases hserver : arrival.packet.options.serverIdentifier = server.ie.ipAddress
  · rw [if_pos hserver] at hrun
    have hreg : Regular server arrival := hregular.mpr fun hne => absurd hserver hne
    cases hmac : server.getLeaseByMac arrival.packet.chaddr with
    | none =>
      simp only [hmac] at hrun
      exact unchanged hrun nak hreg
    | some e =>
      obtain ⟨he, hchaddr⟩ := mem_of_getLeaseByMac hmac
      simp only [hmac] at hrun
      by_cases hip : e.2.ip ≠ arrival.packet.options.requestedIp
      · rw [if_pos hip] at hrun
        exact unchanged hrun nak hreg
      · rw [if_neg hip] at hrun
        obtain ⟨hok, hsafe⟩ := h.acknowledge_spec he hrun
        exact ⟨hok, iff_of_true (hsafe.mpr hchaddr) hreg⟩
  · rw [if_neg hserver] at hrun
    have hreg : Regular server arrival ↔ ∀ e, server.find (ownAddress arrival.packet) = some e →
        e.2.mac = arrival.packet.chaddr := hregular.trans (forall_prop_of_true hserver)
    -- the client names its address in one of two fields
    have named (hfound : ∀ e, server.find (ownAddress arrival.packet) = some e →
          server.processDHCPMessage arrival = server.acknowledge e arrival.packet)
        (hlost : server.find (ownAddress arrival.packet) = none → ∃ r,
          server.processDHCPMessage arrival = (server, r) ∧ ∀ reply dest,
            r = some (reply, dest) → reply.options.messageType = .DHCPNAK) :
        LeasesOk (server.processDHCPMessage arrival).1 ∧
          (Safe server arrival (server.processDHCPMessage arrival).1 ↔ Regular server arrival) := by
      cases hfind : server.find (ownAddress arrival.packet) with
      | none =>
        obtain ⟨r, heq, hnak⟩ := hlost hfind
        apply unchanged heq hnak
        rw [hreg, hfind]
        exact fun e he => by cases he
      | some e =>
        obtain ⟨hok, hsafe⟩ := h.acknowledge_spec (h.find_eq_some.mp hfind).1 (hfound e hfind)
        refine ⟨hok, hsafe.trans (Iff.trans ?_ hreg.symm)⟩
        rw [hfind]
        exact ⟨fun hmac e' he' => Option.some.inj he' ▸ hmac, fun hall => hall e rfl⟩
    by_cases hciaddr : isUnspecified arrival.packet.ciaddr = true
    · rw [if_pos hciaddr] at hrun
      rw [ownAddress, if_pos hciaddr] at named
      apply named
      · intro e hfind
        obtain ⟨he, hip⟩ := h.find_eq_some.mp hfind
        have hsame : maskedAddrAreEqual arrival.packet.options.requestedIp e.2.ip
            server.subnetMask = true := by
          rw [h.ip_eq e he, hip]
          simp [maskedAddrAreEqual]
        simpa only [hfind, hsame, if_true] using hrun
      · intro hfind
        simp only [hfind] at hrun
        exact ⟨none, hrun, fun reply dest hreply => by cases hreply⟩
    · rw [if_neg hciaddr] at hrun
      rw [ownAddress, if_neg hciaddr] at named
      apply named
      · intro e hfind
        simpa only [hfind] using hrun
      · intro hfind
        simp only [hfind] at hrun
        exact ⟨_, hrun, nak⟩

/-- Other messages are dropped. -/
theorem safe_of_dropped (hrun : server.processDHCPMessage arrival = (server, none)) :
    Safe server arrival (server.processDHCPMessage arrival).1 := by
  apply h.safe_of_unchanged (congrArg Prod.fst hrun)
  intro reply dest hreply
  rw [hrun] at hreply
  cases hreply

/-- What one message does. -/
theorem step_spec (arrival : Arrival) : ∃ server', server.step arrival = .ok server' ∧
      (Safe server arrival server' ↔ Regular server arrival) ∧
        (Regular server arrival → LeasesOk server') := by
  refine ⟨_, rfl, ?_⟩
  have dropped (hrun : server.processDHCPMessage arrival = (server, none))
      (hregular : Regular server arrival) :
      (Safe server arrival (server.processDHCPMessage arrival).1 ↔ Regular server arrival) ∧
        (Regular server arrival → LeasesOk (server.processDHCPMessage arrival).1) := by
    refine ⟨iff_of_true (h.safe_of_dropped hrun) hregular, fun _ => ?_⟩
    rw [hrun]
    exact h
  by_cases hid : arrival.interfaceId ≠ server.ie.interfaceId
  · apply dropped
    · rw [processDHCPMessage, if_pos hid]
    · exact fun heq => absurd heq hid
  · by_cases hop : arrival.packet.op = .BOOTREQUEST
    · have hid' : arrival.interfaceId = server.ie.interfaceId := not_not.mp hid
      cases htype : arrival.packet.options.messageType with
      | DHCPDISCOVER =>
        have hrun : server.processDHCPMessage arrival = server.processDiscover arrival.packet := by
          simp only [processDHCPMessage, if_neg hid, if_pos hop, htype]
        obtain ⟨hok, hsafe⟩ := h.processDiscover_spec hrun
          (by simp only [Regular, hid', hop, htype, forall_const])
        exact ⟨hsafe, hok⟩
      | DHCPREQUEST =>
        have hrun : server.processDHCPMessage arrival = server.processRequest arrival.packet := by
          simp only [processDHCPMessage, if_neg hid, if_pos hop, htype]
        obtain ⟨hok, hsafe⟩ := h.processRequest_spec hrun
          (by simp only [Regular, hid', hop, htype, forall_const])
        exact ⟨hsafe, fun _ => hok⟩
      | _ =>
        apply dropped
        · simp only [processDHCPMessage, if_neg hid, if_pos hop, htype]
        · simp only [Regular, htype, implies_true]
    · apply dropped
      · rw [processDHCPMessage, if_neg hid, if_neg hop]
      · exact fun _ hop' => absurd hop' hop

end

end LeasesOk

/-- In every run of a server that starts without leases, all messages are answered without harm
just in case all of them are regular. -/
theorem safe_iff_regular (hempty : server.leased = []) (arrivals : List Arrival) :
    Run.Along step Safe server arrivals ↔ Run.Admissible step Regular server arrivals := by
  apply Run.along_iff_admissible (fun server arrival h => LeasesOk.step_spec h arrival)
  exact
    { sorted := hempty ▸ List.Pairwise.nil
      ip_eq := by simp [hempty]
      macs := by simp [hempty]
      leased := by simp [hempty]
      inPool := by simp [hempty] }

/-- A server with the addresses 10.0.0.1 and 10.0.0.2 to give. -/
def twoAddresses : DHCPServer where
  maxNumOfClients := 2
  subnetMask := 0xffffff00
  gateway := 0x0a0000fe
  ipAddressStart := 0x0a000001
  ie := { interfaceId := 1, ipAddress := 0x0a0000fe }

def discover (chaddr : MACAddress) (requestedIp : IPv4Address) : Arrival where
  interfaceId := 1
  packet :=
    { op := .BOOTREQUEST
      xid := 7
      chaddr := chaddr
      options := { messageType := .DHCPDISCOVER, requestedIp := requestedIp } }

/-- Two clients that ask for no address in particular are served. -/
theorem safe_of_discovers : Run.Along step Safe twoAddresses [discover 0xa 0, discover 0xb 0] := by
  apply (safe_iff_regular rfl _).mpr
  have hregular (server : DHCPServer) (mac : MACAddress) : Regular server (discover mac 0) :=
    fun _ _ _ hspecified => absurd hspecified (show isUnspecified 0 ≠ false by decide)
  exact .cons (hregular _ _) rfl (.cons (hregular _ _) rfl trivial)

/-- The second client asks for the address of the first one, and gets it. -/
theorem not_safe_of_requested :
    ¬Run.Along step Safe twoAddresses [discover 0xa 0, discover 0xb 0x0a000001] := by
  rintro ⟨s₁, h₁, -, s₂, h₂, hsafe, -⟩
  obtain rfl := Except.ok.inj h₁
  obtain rfl := Except.ok.inj h₂
  have hlost : ∀ e ∈ ((twoAddresses.processDHCPMessage (discover 0xa 0)).1.processDHCPMessage
      (discover 0xb 0x0a000001)).1.leased, e.2.mac ≠ 0xa := by decide
  obtain ⟨e', he', -, hmac⟩ := hsafe.kept
    (twoAddresses.givenLease 0x0a000001 (discover 0xa 0).packet) (by decide)
  exact hlost e' he' hmac

end Inet.Dhcp.DHCPServer
