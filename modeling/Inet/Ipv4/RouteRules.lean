import Inet.Ipv4.IPv4Route
import Inet.Library.Lists

/-!
# Rules of the IPv4 routing table

`findRule` looks for the first rule of a list that matches a packet. A rule has six criteria, each
of which may be a wildcard, as may be what it is compared with. The destination port of a rule is
compared with the source port of the packet, so a rule that constrains it may be misjudged
(`findsFirstMatch_iff`).
-/

namespace Inet.Ipv4

/-- `IPv4RouteRule::Rule`. -/
inductive RuleAction where
  | DROP
  | ACCEPT
  | NAT
  | NONE
deriving DecidableEq

def IP_PROT_NONE : ℤ := 59

/-- `IPv4RouteRule`, with the object's identity. An interface is an identity, too. -/
structure IPv4RouteRule where
  id : ℕ
  srcAddress : IPv4Address := 0
  srcNetmask : IPv4Address := 0
  destAddress : IPv4Address := 0
  destNetmask : IPv4Address := 0
  sPort : ℤ := -1
  dPort : ℤ := -1
  protocol : ℤ := IP_PROT_NONE
  rule : RuleAction := .NONE
  interfacePtr : Option ℕ := none
deriving DecidableEq

/-- The arguments of `findRule` but for the list. -/
structure RuleQuery where
  prot : ℤ
  sPort : ℤ
  srcAddr : IPv4Address
  dPort : ℤ
  destAddr : IPv4Address
  iface : Option ℕ

/-- The rules of `IPv4RoutingTable`. -/
structure RuleLists where
  outputRules : List IPv4RouteRule := []
  inputRules : List IPv4RouteRule := []

namespace RuleLists

def rules (lists : RuleLists) (output : Bool) : List IPv4RouteRule :=
  if output then lists.outputRules else lists.inputRules

/-- The loop of `findRule`; each `if` goes on to the next rule. -/
def findRuleFrom (q : RuleQuery) : List IPv4RouteRule → Option IPv4RouteRule
  | [] => none
  | e :: rest =>
    if (!q.srcAddr.isUnspecified && !e.srcAddress.isUnspecified) &&
        !IPv4Address.maskedAddrAreEqual q.srcAddr e.srcAddress e.srcNetmask then
      findRuleFrom q rest
    else if (!q.destAddr.isUnspecified && !e.destAddress.isUnspecified) &&
        !IPv4Address.maskedAddrAreEqual q.destAddr e.destAddress e.destNetmask then
      findRuleFrom q rest
    else if q.prot ≠ IP_PROT_NONE ∧ e.protocol ≠ IP_PROT_NONE ∧ q.prot ≠ e.protocol then
      findRuleFrom q rest
    else if q.sPort ≠ -1 ∧ e.sPort ≠ -1 ∧ q.sPort ≠ e.sPort then findRuleFrom q rest
    else if q.dPort ≠ -1 ∧ e.dPort ≠ -1 ∧ q.sPort ≠ e.dPort then findRuleFrom q rest
    else if q.iface ≠ none ∧ e.interfacePtr ≠ none ∧ q.iface ≠ e.interfacePtr then
      findRuleFrom q rest
    else some e

def findRule (lists : RuleLists) (output : Bool) (q : RuleQuery) : Option IPv4RouteRule :=
  findRuleFrom q (lists.rules output)

end RuleLists

/-- All criteria but that of the destination port. -/
@[mk_iff]
structure MatchesOthers (q : RuleQuery) (e : IPv4RouteRule) : Prop where
  srcAddress : q.srcAddr = 0 ∨ e.srcAddress = 0 ∨
    q.srcAddr &&& e.srcNetmask = e.srcAddress &&& e.srcNetmask
  destAddress : q.destAddr = 0 ∨ e.destAddress = 0 ∨
    q.destAddr &&& e.destNetmask = e.destAddress &&& e.destNetmask
  protocol : q.prot = IP_PROT_NONE ∨ e.protocol = IP_PROT_NONE ∨ q.prot = e.protocol
  sPort : q.sPort = -1 ∨ e.sPort = -1 ∨ q.sPort = e.sPort
  interface : q.iface = none ∨ e.interfacePtr = none ∨ q.iface = e.interfacePtr

instance (q : RuleQuery) (e : IPv4RouteRule) : Decidable (MatchesOthers q e) :=
  decidable_of_iff _ (matchesOthers_iff q e).symm

/-- The criterion of the destination port, when it is compared with `port`. -/
def MatchesDestPort (q : RuleQuery) (port : ℤ) (e : IPv4RouteRule) : Prop :=
  q.dPort = -1 ∨ e.dPort = -1 ∨ port = e.dPort
deriving Decidable

/-- All six criteria of the rule match the query. -/
def Matches (q : RuleQuery) (e : IPv4RouteRule) : Prop :=
  MatchesOthers q e ∧ MatchesDestPort q q.dPort e
deriving Decidable

/-- `findRule` returns the first rule that matches, or nothing if no rule does. -/
def FindsFirstMatch (lists : RuleLists) (output : Bool) (q : RuleQuery) : Prop :=
  (∀ e, lists.findRule output q = some e ↔ ∃ before behind,
    lists.rules output = before ++ e :: behind ∧ Matches q e ∧ ∀ r ∈ before, ¬ Matches q r) ∧
  (lists.findRule output q = none ↔ ∀ r ∈ lists.rules output, ¬ Matches q r)

/-- The rule constrains the destination port of the query, the other criteria match, and the
rule's port is one of the two ports of the query but not the other. -/
structure Misjudged (q : RuleQuery) (e : IPv4RouteRule) : Prop where
  others : MatchesOthers q e
  query : q.dPort ≠ -1
  rule : e.dPort ≠ -1
  ports : ¬ (q.sPort = e.dPort ↔ q.dPort = e.dPort)

namespace RuleLists

/-- What the loop compares. -/
theorem findRuleFrom_eq (q : RuleQuery) (rules : List IPv4RouteRule) : findRuleFrom q rules =
      rules.find? fun e => decide (MatchesOthers q e ∧ MatchesDestPort q q.sPort e) := by
  have hmasked : ∀ addr addr' netmask : IPv4Address,
      (((!addr.isUnspecified && !addr'.isUnspecified) &&
        !IPv4Address.maskedAddrAreEqual addr addr' netmask) = true) ↔
      ¬ (addr = 0 ∨ addr' = 0 ∨ addr &&& netmask = addr' &&& netmask) := by
    intro addr addr' netmask
    rw [← IPv4Address.maskedAddrAreEqual_iff]
    simp [IPv4Address.isUnspecified, and_assoc]
  induction rules with
  | nil => rfl
  | cons e rest ih =>
    have hskip : ¬ (MatchesOthers q e ∧ MatchesDestPort q q.sPort e) →
        (e :: rest).find? (fun e => decide (MatchesOthers q e ∧ MatchesDestPort q q.sPort e)) =
          rest.find? fun e => decide (MatchesOthers q e ∧ MatchesDestPort q q.sPort e) :=
      fun h => List.find?_cons_of_neg (by simpa using h)
    rw [findRuleFrom, ih]
    simp only [hmasked, ne_eq, ← not_or]
    by_cases hsrcAddr : q.srcAddr = 0 ∨ e.srcAddress = 0 ∨
        q.srcAddr &&& e.srcNetmask = e.srcAddress &&& e.srcNetmask
    swap
    · rw [if_pos hsrcAddr, hskip fun h => hsrcAddr h.1.srcAddress]
    rw [if_neg (not_not_intro hsrcAddr)]
    by_cases hdestAddr : q.destAddr = 0 ∨ e.destAddress = 0 ∨
        q.destAddr &&& e.destNetmask = e.destAddress &&& e.destNetmask
    swap
    · rw [if_pos hdestAddr, hskip fun h => hdestAddr h.1.destAddress]
    rw [if_neg (not_not_intro hdestAddr)]
    by_cases hprot : q.prot = IP_PROT_NONE ∨ e.protocol = IP_PROT_NONE ∨ q.prot = e.protocol
    swap
    · rw [if_pos hprot, hskip fun h => hprot h.1.protocol]
    rw [if_neg (not_not_intro hprot)]
    by_cases hsPort : q.sPort = -1 ∨ e.sPort = -1 ∨ q.sPort = e.sPort
    swap
    · rw [if_pos hsPort, hskip fun h => hsPort h.1.sPort]
    rw [if_neg (not_not_intro hsPort)]
    by_cases hdPort : q.dPort = -1 ∨ e.dPort = -1 ∨ q.sPort = e.dPort
    swap
    · rw [if_pos hdPort, hskip fun h => hdPort h.2]
    rw [if_neg (not_not_intro hdPort)]
    by_cases hiface : q.iface = none ∨ e.interfacePtr = none ∨ q.iface = e.interfacePtr
    swap
    · rw [if_pos hiface, hskip fun h => hiface h.1.interface]
    rw [if_neg (not_not_intro hiface)]
    have hmatches : MatchesOthers q e ∧ MatchesDestPort q q.sPort e :=
      ⟨⟨hsrcAddr, hdestAddr, hprot, hsPort, hiface⟩, hdPort⟩
    exact (List.find?_cons_of_pos (by simpa using hmatches)).symm

end RuleLists

/-- The first match is found if and only if every rule that is misjudged stands behind one that
matches and whose destination port, if it is compared, is both ports of the query. -/
theorem findsFirstMatch_iff (lists : RuleLists) (output : Bool) (q : RuleQuery) :
    FindsFirstMatch lists output q ↔
      ∀ before e behind, lists.rules output = before ++ e :: behind → Misjudged q e →
        ∃ r ∈ before, Matches q r ∧ MatchesDestPort q q.sPort r := by
  have hfirst : FindsFirstMatch lists output q ↔
      lists.findRule output q = (lists.rules output).find? fun e => decide (Matches q e) := by
    constructor
    · rintro ⟨hsome, hnone⟩
      cases hfind : lists.findRule output q with
      | none =>
        refine (List.find?_eq_none.mpr fun e he => ?_).symm
        simpa using hnone.mp hfind e he
      | some e =>
        obtain ⟨before, behind, heq, he, hbefore⟩ := (hsome e).mp hfind
        refine (List.find?_eq_some_iff_first.mpr ⟨before, behind, heq, ?_, ?_⟩).symm
        · exact decide_eq_true he
        · exact fun r hr => decide_eq_false (hbefore r hr)
    · intro h
      rw [FindsFirstMatch, h]
      simp [List.find?_eq_some_iff_first]
  have hdiffers : ∀ e, decide (MatchesOthers q e ∧ MatchesDestPort q q.sPort e) ≠
      decide (Matches q e) ↔ Misjudged q e := by
    intro e
    rw [ne_eq, decide_eq_decide, Matches, MatchesDestPort, MatchesDestPort]
    constructor
    · intro h
      exact ⟨by tauto, by tauto, by tauto, by tauto⟩
    · rintro ⟨hothers, hquery, hrule, hports⟩
      tauto
  rw [hfirst, RuleLists.findRule, RuleLists.findRuleFrom_eq, List.find?_eq_find?_iff]
  simp only [hdiffers, decide_eq_true_eq]
  refine forall₃_congr fun before e behind => forall₂_congr fun _ _ => ?_
  constructor
  · rintro ⟨r, hr, ⟨-, hsPort⟩, hmatches⟩
    exact ⟨r, hr, hmatches, hsPort⟩
  · rintro ⟨r, hr, hmatches, hsPort⟩
    exact ⟨r, hr, ⟨hmatches.1, hsPort⟩, hmatches⟩

/-- A rule for packets to port 80, asked about a packet from port 1024 to port 80. -/
theorem not_findsFirstMatch_of_destPort :
    ¬ FindsFirstMatch { outputRules := [{ id := 0, dPort := 80 }] } true
      { prot := 6, sPort := 1024, srcAddr := 0x0a000001#32, dPort := 80,
        destAddr := 0x0a000002#32, iface := none } := by
  rintro ⟨-, hnone⟩
  exact absurd (hnone.mp (by decide)) (by decide)

end Inet.Ipv4
