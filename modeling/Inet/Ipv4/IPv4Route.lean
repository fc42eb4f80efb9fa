import Inet.Common.Basic

/-!
# Addresses and routes of IPv4

`IPv4Address` is the 32-bit number of an address or a netmask; the comparisons are those of the
numbers. For valid netmasks they are the comparisons of the lengths (`le_iff_getNetmaskLength_le`).
-/

namespace Inet.Ipv4

abbrev IPv4Address := Uint32

namespace IPv4Address

def isUnspecified (addr : IPv4Address) : Bool := addr == 0

def ALLONES_ADDRESS : IPv4Address := 0xffffffff#32

/-- The loop of `getNetmaskLength` from bit `i` on, with `n` rounds left. -/
def netmaskLengthFrom (addr : IPv4Address) : ℕ → ℕ → ℕ
  | _, 0 => 0
  | i, n + 1 => if addr.getLsbD i then 32 - i else netmaskLengthFrom addr (i + 1) n

def getNetmaskLength (addr : IPv4Address) : ℕ := netmaskLengthFrom addr 0 32

def makeNetmask (length : ℕ) : IPv4Address :=
  if length ≥ 32 then 0xffffffff#32 else ~~~(0xffffffff#32 >>> length)

def isValidNetmask (addr : IPv4Address) : Bool := addr == makeNetmask (getNetmaskLength addr)

def maskedAddrAreEqual (addr1 addr2 netmask : IPv4Address) : Bool :=
  (addr1 ^^^ addr2) &&& netmask == 0

theorem maskedAddrAreEqual_iff {addr1 addr2 netmask : IPv4Address} :
    maskedAddrAreEqual addr1 addr2 netmask = true ↔ addr1 &&& netmask = addr2 &&& netmask := by
  have hdistrib : (addr1 ^^^ addr2) &&& netmask = (addr1 &&& netmask) ^^^ (addr2 &&& netmask) :=
    BitVec.eq_of_getElem_eq (by simp [Bool.and_xor_distrib_right])
  rw [maskedAddrAreEqual, beq_iff_eq, hdistrib]
  exact BitVec.xor_eq_zero_iff

/-- Two addresses without bits outside the netmask that match the same address are equal. -/
theorem eq_of_maskedAddrAreEqual {dest a b netmask : IPv4Address}
    (ha : a &&& ~~~netmask = 0) (hb : b &&& ~~~netmask = 0)
    (hda : maskedAddrAreEqual dest a netmask = true)
    (hdb : maskedAddrAreEqual dest b netmask = true) : a = b := by
  rw [maskedAddrAreEqual, beq_iff_eq] at hda hdb
  refine BitVec.eq_of_getLsbD_eq fun i hi => ?_
  have ha' := congrArg (·.getLsbD i) ha
  have hb' := congrArg (·.getLsbD i) hb
  have hda' := congrArg (·.getLsbD i) hda
  have hdb' := congrArg (·.getLsbD i) hdb
  simp only [BitVec.getLsbD_and, BitVec.getLsbD_not, BitVec.getLsbD_xor, hi, decide_true,
    Bool.true_and] at ha' hb' hda' hdb'
  cases hmask : netmask.getLsbD i <;> simp_all

end IPv4Address

inductive SourceType where
  | MANUAL
  | IFACENETMASK
  | ROUTER_ADVERTISEMENT
  | OWN_ADV_PREFIX
  | ICMP_REDIRECT
  | RIP
  | OSPF
  | BGP
  | ZEBRA
  | MANET
  | MANET2
  | DYMO
  | AODV
deriving DecidableEq

/-- `IPv4Route`, with the object's identity and the expiry time of the subclasses whose routes
expire (`0` when it never does). An interface and the source are identities, too. -/
structure IPv4Route where
  id : ℕ
  dest : IPv4Address := 0
  netmask : IPv4Address := 0
  gateway : IPv4Address := 0
  interfacePtr : Option ℕ := none
  sourceType : SourceType := .MANUAL
  adminDist : ℕ := 255
  metric : ℤ := 0
  source : Option ℕ := none
  expiryTime : ℕ := 0
deriving DecidableEq

namespace IPv4Route

def isValid (route : IPv4Route) (simTime : ℕ) : Bool :=
  route.expiryTime == 0 || decide (route.expiryTime > simTime)

def dDirectlyConnected : ℕ := 0

/-- `IPv4RoutingTable::routeLessThan`. -/
def routeLessThan (useAdminDist : Bool) (a b : IPv4Route) : Bool :=
  if a.netmask ≠ b.netmask then decide (a.netmask > b.netmask)
  else if a.dest ≠ b.dest then decide (a.dest < b.dest)
  else if useAdminDist ∧ a.adminDist ≠ b.adminDist then decide (a.adminDist < b.adminDist)
  else decide (a.metric < b.metric)

end IPv4Route

end Inet.Ipv4
