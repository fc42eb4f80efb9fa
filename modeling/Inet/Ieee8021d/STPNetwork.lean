import Inet.Ieee8021d.STP
import Inet.Library.SpanningTree

/-!
# Stable states of a network of STP bridges

A state is stable if every port that is not designated faces a designated one, and the BPDUs of
the designated ports change nothing. The bridges then see a tree of least paths to the bridge
with the least identifier (`spans_of_stable`), if the information that they store is what their
neighbours send. `rootGone` is a stable state in which it is not: a bridge ignores inferior
BPDUs until the stored information has aged out.
-/

namespace Inet.Ieee8021d

namespace STP

variable {numPorts : ℕ} {bridge : STP numPorts}

def ownID (bridge : STP numPorts) : BridgeID :=
  bridgeID bridge.bridgePriority bridge.bridgeAddress

def rootID (bridge : STP numPorts) : BridgeID :=
  bridgeID bridge.rootPriority bridge.rootAddress

/-- The information that is stored at a port. -/
def stored (bridge : STP numPorts) (i : Fin numPorts) : PriorityVector :=
  vector (bridge.ports i).toIeee8021dInterfaceData

def role (bridge : STP numPorts) (i : Fin numPorts) : PortRole := (bridge.ports i).role

theorem checkRootEligibility_iff :
    bridge.checkRootEligibility = true ↔ ∀ i, bridge.ownID ≤ (ofLex (bridge.stored i)).1 := by
  simp only [checkRootEligibility, List.all_eq_true, List.mem_finRange, true_implies,
    Bool.not_eq_true', decide_eq_false_iff_not, compareBridgeIDs_eq, precedence_pos, not_lt]
  rfl

/-- The loop of `selectRootPort` finds a port with the best information. -/
theorem foldl_betterPort_le (ports : Fin numPorts → STPInterfaceData) (l : List (Fin numPorts))
    (best : Fin numPorts) :
    vector (ports (l.foldl (betterPort ports) best)).toIeee8021dInterfaceData ≤
        vector (ports best).toIeee8021dInterfaceData ∧
      ∀ i ∈ l, vector (ports (l.foldl (betterPort ports) best)).toIeee8021dInterfaceData ≤
        vector (ports i).toIeee8021dInterfaceData := by
  induction l generalizing best with
  | nil => simp
  | cons i l ih =>
    have hround : vector (ports (betterPort ports best i)).toIeee8021dInterfaceData ≤
          vector (ports best).toIeee8021dInterfaceData ∧
        vector (ports (betterPort ports best i)).toIeee8021dInterfaceData ≤
          vector (ports i).toIeee8021dInterfaceData := by
      simp only [betterPort, comparePorts_eq, precedence_pos, precedence_neg]
      split_ifs with h₁ h₂
      · exact ⟨h₁.le, le_rfl⟩
      · exact ⟨le_rfl, h₂.le⟩
      · exact ⟨not_lt.mp h₂, le_rfl⟩
      · exact ⟨le_rfl, not_lt.mp h₁⟩
    obtain ⟨hbest, hrest⟩ := ih (betterPort ports best i)
    refine ⟨hbest.trans hround.1, fun j hj => ?_⟩
    obtain rfl | hj := List.mem_cons.mp hj
    · exact hbest.trans hround.2
    · exact hrest j hj

/-- What `tryRoot` leaves alone, if it is eligible as root. -/
structure IsSettledRoot (bridge : STP numPorts) : Prop where
  rootID : bridge.rootID = bridge.ownID
  rootPathCost : bridge.rootPathCost = 0
  role : ∀ i, bridge.role i = .DESIGNATED
  eligible : ∀ i, bridge.ownID ≤ (ofLex (bridge.stored i)).1

/-- What `tryRoot` leaves alone otherwise; `x` is the root port. -/
structure IsSettledBelow (bridge : STP numPorts) (x : Fin numPorts) : Prop where
  role_x : bridge.role x = .ROOT
  role_ne : ∀ i ≠ x, bridge.role i ≠ .ROOT
  rootID : bridge.rootID = (ofLex (bridge.stored x)).1
  rootPathCost : bridge.rootPathCost = (bridge.ports x).rootPathCost
  best : ∀ i, bridge.stored x ≤ bridge.stored i
  below : bridge.rootID < bridge.ownID
  designated_iff : ∀ i ≠ x,
    bridge.role i = .DESIGNATED ↔ vector (bridge.bridgeGlobal i) < bridge.stored i

theorem isSettledRoot_of_tryRoot (h : bridge.tryRoot = bridge)
    (enabled : ∀ i, bridge.role i ≠ .DISABLED) (heligible : bridge.checkRootEligibility = true) :
    bridge.IsSettledRoot := by
  rw [tryRoot, if_pos heligible] at h
  refine ⟨?_, ?_, fun i => ?_, checkRootEligibility_iff.mp heligible⟩
  · rw [rootID, ← congrArg STP.rootPriority h, ← congrArg STP.rootAddress h]
    rfl
  · exact (congrArg STP.rootPathCost h).symm
  · have hrole := congrArg (fun b => (b.ports i).role) h
    have henabled : ¬ (bridge.ports i).role = .DISABLED := enabled i
    simp only [setAllDesignated, if_neg henabled] at hrole
    exact hrole.symm

/-- The root port is one with the best information. -/
theorem exists_selectRootPort (bridge : STP numPorts) (j : Fin numPorts) :
    ∃ x, (∀ i, bridge.stored x ≤ bridge.stored i) ∧ bridge.selectRootPort = { bridge with
        desPorts := []
        ports := fun i => { bridge.ports i with role := if i = x then .ROOT else .NOTASSIGNED }
        rootPort := x
        rootPathCost := (bridge.ports x).rootPathCost
        rootAddress := (bridge.ports x).rootAddress
        rootPriority := (bridge.ports x).rootPriority
        currentMaxAge := (bridge.ports x).maxAge
        currentFwdDelay := (bridge.ports x).fwdDelay
        currentHelloTime := (bridge.ports x).helloTime } := by
  obtain ⟨first, hfirst⟩ : ∃ first, (List.finRange numPorts).head? = some first := by
    cases hlist : List.finRange numPorts with
    | nil =>
      have := List.mem_finRange j
      simp [hlist] at this
    | cons first rest => exact ⟨first, rfl⟩
  refine ⟨(List.finRange numPorts).foldl (betterPort bridge.ports) first, fun i => ?_, ?_⟩
  · exact (foldl_betterPort_le bridge.ports _ first).2 i (List.mem_finRange i)
  · simp only [selectRootPort, hfirst]

theorem isSettledBelow_of_tryRoot (h : bridge.tryRoot = bridge)
    (heligible : ¬ bridge.checkRootEligibility = true) : ∃ x, bridge.IsSettledBelow x := by
  rw [tryRoot, if_neg heligible] at h
  obtain ⟨j, hj⟩ := not_forall.mp (mt checkRootEligibility_iff.mpr heligible)
  obtain ⟨x, hbest, hselect⟩ := exists_selectRootPort { bridge with isRoot := false } j
  replace hbest : ∀ i, bridge.stored x ≤ bridge.stored i := hbest
  rw [hselect] at h
  have hcost : bridge.rootPathCost = (bridge.ports x).rootPathCost :=
    (congrArg STP.rootPathCost h).symm
  have haddress : bridge.rootAddress = (bridge.ports x).rootAddress :=
    (congrArg STP.rootAddress h).symm
  have hpriority : bridge.rootPriority = (bridge.ports x).rootPriority :=
    (congrArg STP.rootPriority h).symm
  have hrootID : bridge.rootID = (ofLex (bridge.stored x)).1 := by
    rw [rootID, haddress, hpriority]
    rfl
  have hrole : ∀ i, bridge.role i = if i = x then .ROOT
      else if vector (bridge.bridgeGlobal i) < bridge.stored i then .DESIGNATED
      else if bridge.stored i < vector (bridge.bridgeGlobal i) then .ALTERNATE
      else .NOTASSIGNED := by
    intro i
    have hrole := congrArg (fun b => (b.ports i).role) h
    simp only [selectDesignatedPorts, bridgeGlobal, ← hcost, ← haddress, ← hpriority,
      comparePorts_eq] at hrole
    have hglobal : bridge.bridgeGlobal i = bridge.bridgeGlobal i := rfl
    conv at hglobal => rhs; unfold bridgeGlobal
    rw [hglobal]
    refine hrole.symm.trans ?_
    by_cases hi : i = x
    · simp [hi]
    · simp only [hi, if_false, gt_iff_lt]
      simp [precedence_pos, precedence_neg]
      rfl
  refine ⟨x, ?_, ?_, hrootID, hcost, hbest, ?_, ?_⟩
  · rw [hrole, if_pos rfl]
  · intro i hi
    rw [hrole, if_neg hi]
    split_ifs <;> simp
  · have hle : (ofLex (bridge.stored x)).1 ≤ (ofLex (bridge.stored j)).1 :=
      Prod.Lex.monotone_fst _ _ (hbest j)
    exact hrootID ▸ hle.trans_lt (not_le.mp hj)
  · intro i hi
    rw [hrole, if_neg hi]
    split_ifs with h₁ h₂ <;> simp [h₁]

theorem isSettled_of_tryRoot (h : bridge.tryRoot = bridge)
    (enabled : ∀ i, bridge.role i ≠ .DISABLED) :
    bridge.IsSettledRoot ∨ ∃ x, bridge.IsSettledBelow x := by
  by_cases heligible : bridge.checkRootEligibility = true
  · exact .inl (isSettledRoot_of_tryRoot h enabled heligible)
  · exact .inr (isSettledBelow_of_tryRoot h heligible)

theorem stored_selectRootPort (bridge : STP numPorts) (i : Fin numPorts) :
    bridge.selectRootPort.stored i = bridge.stored i := by
  unfold selectRootPort
  cases (List.finRange numPorts).head? <;> rfl

theorem stored_selectDesignatedPorts (bridge : STP numPorts) (i : Fin numPorts) :
    bridge.selectDesignatedPorts.stored i = bridge.stored i := rfl

/-- `tryRoot` changes no stored information. -/
theorem stored_tryRoot (bridge : STP numPorts) (i : Fin numPorts) :
    bridge.tryRoot.stored i = bridge.stored i := by
  unfold tryRoot
  split_ifs
  · simp only [stored, setAllDesignated]
    split_ifs <;> rfl
  · rw [stored_selectDesignatedPorts, stored_selectRootPort]
    rfl

theorem stored_setSuperiorBPDU {bpdu : ConfigBPDU} {i : Fin numPorts}
    (hage : bpdu.messageAge < bpdu.maxAge) :
    (bridge.setSuperiorBPDU i bpdu).stored i = vector (receivedInfo (bridge.ports i) bpdu) := by
  rw [setSuperiorBPDU, if_neg (not_le.mpr hage), stored, modify]
  simp only [Function.update_self]
  rfl

/-- If a BPDU changes no stored information, that at the port is at least as good; it is the one
of the BPDU unless the BPDU is inferior. -/
theorem stored_le_of_isSuperiorBPDU {bpdu : ConfigBPDU} {i : Fin numPorts}
    (hage : bpdu.messageAge < bpdu.maxAge)
    (h : (bridge.isSuperiorBPDU i bpdu).2.stored i = bridge.stored i) :
    bridge.stored i ≤ vector (receivedInfo (bridge.ports i) bpdu) ∧
      ((bridge.isSuperiorBPDU i bpdu).1 = true →
        bridge.stored i = vector (receivedInfo (bridge.ports i) bpdu)) := by
  unfold isSuperiorBPDU at h ⊢
  simp only [comparePorts_eq, precedence_pos, precedence_neg] at h ⊢
  split_ifs at h ⊢ with h₁ h₂
  · exact ⟨h₁.le, by simp⟩
  · rw [stored_setSuperiorBPDU hage] at h
    have hmodified : (bridge.modify i fun port =>
        { port with fdWhile := 0, state := .DISCARDING }).ports i =
        { bridge.ports i with fdWhile := 0, state := .DISCARDING } := by
      simp [modify]
    rw [hmodified] at h
    exact ⟨h.ge, fun _ => h.symm⟩
  · rw [stored_setSuperiorBPDU hage] at h
    exact ⟨h.ge, fun _ => h.symm⟩

/-- The information of a BPDU that arrives over a link. -/
theorem vector_receivedInfo {m : ℕ} {sender : STP m} (port : STPInterfaceData) (j : Fin m)
    (hsum : sender.rootPathCost.toNat + port.linkCost.toNat < 2 ^ 32) :
    vector (receivedInfo port (sender.generateBPDU j)) =
      toLex (sender.rootID, toLex (sender.rootPathCost.toNat + port.linkCost.toNat,
        toLex (sender.ownID, toLex ((sender.ports j).priority.toNat, j.val % 2 ^ 32)))) := by
  have hcost : (sender.rootPathCost + port.linkCost).toNat =
      sender.rootPathCost.toNat + port.linkCost.toNat := by
    rw [BitVec.toNat_add, Nat.mod_eq_of_lt hsum]
  rw [← hcost]
  rfl

theorem vector_bridgeGlobal (i : Fin numPorts)
    (hsum : bridge.rootPathCost.toNat + (bridge.ports i).linkCost.toNat < 2 ^ 32) :
    vector (bridge.bridgeGlobal i) =
      toLex (bridge.rootID, toLex (bridge.rootPathCost.toNat + (bridge.ports i).linkCost.toNat,
        toLex (bridge.ownID, toLex ((bridge.ports i).priority.toNat, i.val % 2 ^ 32)))) := by
  have hcost : (bridge.rootPathCost + (bridge.ports i).linkCost).toNat =
      bridge.rootPathCost.toNat + (bridge.ports i).linkCost.toNat := by
    rw [BitVec.toNat_add, Nat.mod_eq_of_lt hsum]
  rw [← hcost]
  rfl

end STP

/-- Bridges with numbered ports, and links between ports of different bridges. -/
structure Network (V : Type) where
  numPorts : V → ℕ
  peer : (Σ v, Fin (numPorts v)) → Option (Σ v, Fin (numPorts v))
  peer_symm : ∀ {p q}, peer p = some q → peer q = some p
  peer_ne : ∀ {p q}, peer p = some q → p.1 ≠ q.1

namespace Network

open STP (BridgeID PriorityVector vector receivedInfo)
open SpanningTree (PathCost Labelling)

variable {V : Type}

abbrev Port (net : Network V) := Σ v, Fin (net.numPorts v)

/-- The state of all bridges. -/
abbrev State (net : Network V) := ∀ v, STP (net.numPorts v)

variable {net : Network V}

def role (s : net.State) (p : net.Port) : PortRole := (s p.1).role p.2

def linkCost (s : net.State) (p : net.Port) : ℕ := ((s p.1).ports p.2).linkCost.toNat

/-- The bridge of `p` after it has received what would be sent over `q`. -/
def deliver (s : net.State) (p q : net.Port) : STP (net.numPorts p.1) :=
  ((s p.1).handleBPDU p.2 ((s q.1).generateBPDU q.2)).2

/-- The bridge of `v` is joined to that of `w`, at a port of the given cost. -/
def link (s : net.State) (v w : V) (c : ℕ) : Prop :=
  ∃ p q : net.Port, net.peer p = some q ∧ p.1 = v ∧ q.1 = w ∧ linkCost s p = c

/-- The identifiers are distinct, the costs are positive, and the network is connected. -/
structure WellFormed (s : net.State) : Prop where
  distinct : Function.Injective fun v => (s v).ownID
  positive : ∀ p, 0 < linkCost s p
  connected : ∀ v w, Relation.ReflTransGen (fun v w => ∃ c, link s v w c) v w

/-- Every port that is not designated faces a designated one, and no BPDU of a designated port
changes a role or the stored information of the bridge that receives it. -/
structure Stable (s : net.State) : Prop where
  facing : ∀ p, role s p ≠ .DESIGNATED → ∃ q, net.peer p = some q ∧ role s q = .DESIGNATED
  settled : ∀ p q, net.peer p = some q → role s q = .DESIGNATED →
    ∀ i, (deliver s p q).role i = (s p.1).role i ∧ (deliver s p q).stored i = (s p.1).stored i

/-- The bridges are as `tryRoot` leaves them, what is stored at a port that is not designated is
renewed by the BPDUs of the port that it faces, and no cost overflows. -/
structure Fresh (s : net.State) : Prop where
  tryRoot : ∀ v, (s v).tryRoot = s v
  enabled : ∀ p, role s p ≠ .DISABLED
  currentMaxAge : ∀ v, 0 < (s v).currentMaxAge
  renewed : ∀ p q, net.peer p = some q → role s p ≠ .DESIGNATED → role s q = .DESIGNATED →
    ((s p.1).isSuperiorBPDU p.2 ((s q.1).generateBPDU q.2)).1 = true
  bounded : ∀ p q, net.peer p = some q → (s p.1).rootPathCost.toNat + linkCost s p < 2 ^ 32 ∧
      (s q.1).rootPathCost.toNat + linkCost s p < 2 ^ 32

/-- A link from a root port to a designated port. -/
def TreeLink (s : net.State) (p q : net.Port) : Prop :=
  net.peer p = some q ∧ role s p = .ROOT ∧ role s q = .DESIGNATED

/-- The links with a root port and a designated port. -/
def treeLinks (s : net.State) : SimpleGraph V :=
  .fromRel fun v w => ∃ p q : net.Port, TreeLink s p q ∧ p.1 = v ∧ q.1 = w

/-- The bridges have built the tree of least paths to the bridge `r`. -/
structure Spans (s : net.State) (r : V) : Prop where
  agree : ∀ v, (s v).rootID = (s r).ownID
  best : ∀ v, (s r).ownID ≤ (s v).ownID
  rootPort : ∀ v, v ≠ r → ∃! i, (s v).role i = .ROOT
  cost : ∀ v, IsLeast {k | PathCost (link s) r v k} (s v).rootPathCost.toNat
  designated : ∀ p q, net.peer p = some q → (role s p = .DESIGNATED ↔ role s q ≠ .DESIGNATED)
  tree : (treeLinks s).IsTree
  single : ∀ p q p' q', TreeLink s p q → TreeLink s p' q' → s(p.1, q.1) = s(p'.1, q'.1) → p = p'

section

variable {s : net.State} {p q : net.Port} {v : V}

/-- What is stored at a port that faces a designated one. -/
theorem stored_le (stable : Stable s) (fresh : Fresh s) (hpeer : net.peer p = some q)
    (hq : role s q = .DESIGNATED) :
    (s p.1).stored p.2 ≤ toLex ((s q.1).rootID, toLex ((s q.1).rootPathCost.toNat + linkCost s p,
          toLex ((s q.1).ownID, toLex (((s q.1).ports q.2).priority.toNat, q.2.val % 2 ^ 32)))) ∧
      (role s p ≠ .DESIGNATED → (s p.1).stored p.2 = toLex ((s q.1).rootID,
          toLex ((s q.1).rootPathCost.toNat + linkCost s p, toLex ((s q.1).ownID,
            toLex (((s q.1).ports q.2).priority.toNat, q.2.val % 2 ^ 32))))) := by
  have hvector := STP.vector_receivedInfo ((s p.1).ports p.2) q.2 (fresh.bounded p q hpeer).2
  have hkept : ((s p.1).isSuperiorBPDU p.2 ((s q.1).generateBPDU q.2)).2.stored p.2 =
      (s p.1).stored p.2 :=
    (STP.stored_tryRoot _ _).symm.trans (stable.settled p q hpeer hq p.2).2
  obtain ⟨hle, heq⟩ := STP.stored_le_of_isSuperiorBPDU (fresh.currentMaxAge q.1) hkept
  rw [hvector] at hle heq
  exact ⟨hle, fun hp => heq (fresh.renewed p q hpeer hp hq)⟩

/-- A vector with the cost of a link is not worse only if it is not worse without it. -/
theorem toLex_le_of_link {root root' own own' : BridgeID} {c c' l : ℕ} {z z' : ℕ ×ₗ ℕ}
    (h : toLex (root, toLex (c + l, toLex (own, z))) ≤
      (toLex (root', toLex (c' + l, toLex (own', z'))) : PriorityVector)) :
    toLex (root, toLex (c, own)) ≤ toLex (root', toLex (c', own')) := by
  simp only [Prod.Lex.toLex_le_toLex] at h ⊢
  obtain h | ⟨hroot, h | ⟨hcost, h | ⟨hown, -⟩⟩⟩ := h
  · exact .inl h
  · exact .inr ⟨hroot, .inl (by omega)⟩
  · exact .inr ⟨hroot, .inr ⟨by omega, h.le⟩⟩
  · exact .inr ⟨hroot, .inr ⟨by omega, hown.le⟩⟩

theorem isSettled (fresh : Fresh s) (v : V) : (s v).IsSettledRoot ∨ ∃ x, (s v).IsSettledBelow x :=
  STP.isSettled_of_tryRoot (fresh.tryRoot v) fun i => fresh.enabled ⟨v, i⟩

/-- A root port has the information of the designated port that it faces. -/
theorem of_rootPort (stable : Stable s) (fresh : Fresh s) {x : Fin (net.numPorts v)}
    (below : (s v).IsSettledBelow x) :
    ∃ q, TreeLink s ⟨v, x⟩ q ∧ (s v).rootID = (s q.1).rootID ∧
      (s v).rootPathCost.toNat = (s q.1).rootPathCost.toNat + linkCost s ⟨v, x⟩ := by
  have hx : role s ⟨v, x⟩ ≠ .DESIGNATED := fun h => by
    have := below.role_x.symm.trans h
    cases this
  obtain ⟨q, hpeer, hq⟩ := stable.facing ⟨v, x⟩ hx
  have hstored := (stored_le stable fresh hpeer hq).2 hx
  refine ⟨q, ⟨hpeer, below.role_x, hq⟩, ?_, ?_⟩
  · exact below.rootID.trans (congrArg (fun z => (ofLex z).1) hstored)
  · rw [below.rootPathCost]
    exact congrArg (fun z => (ofLex (ofLex z).2).1) hstored

/-- Over a link to a designated port the bridges agree on the root, and neither offers a lower
cost to the other one. -/
theorem of_facing_designated (stable : Stable s) (fresh : Fresh s) (hpeer : net.peer p = some q)
    (hp : role s p ≠ .DESIGNATED) (hq : role s q = .DESIGNATED) :
    (s p.1).rootID = (s q.1).rootID ∧
      (s p.1).rootPathCost.toNat ≤ (s q.1).rootPathCost.toNat + linkCost s p ∧
      (s q.1).rootPathCost.toNat ≤ (s p.1).rootPathCost.toNat := by
  obtain ⟨v, i⟩ := p
  obtain root | ⟨x, below⟩ := isSettled fresh v
  · exact absurd (root.role i) hp
  · by_cases hi : i = x
    · subst hi
      obtain ⟨q', ⟨hpeer', -, -⟩, hroot, hcost⟩ := of_rootPort stable fresh below
      obtain rfl := Option.some.inj (hpeer.symm.trans hpeer')
      have hle : (s q.1).rootPathCost.toNat ≤ (s v).rootPathCost.toNat :=
        hcost ▸ Nat.le_add_right ..
      exact ⟨hroot, hcost.le, hle⟩
    · have hstored := (stored_le stable fresh hpeer hq).2 hp
      have hbest := below.best i
      rw [hstored] at hbest
      have hglobal : (s v).stored i ≤ STP.vector ((s v).bridgeGlobal i) :=
        not_lt.mp (mt (below.designated_iff i hi).mpr hp)
      rw [hstored, STP.vector_bridgeGlobal i (fresh.bounded _ _ hpeer).1] at hglobal
      have hkey := toLex_le_of_link hglobal
      simp only [Prod.Lex.toLex_le_toLex] at hkey
      have hx : (s v).stored x = toLex ((s v).rootID, (ofLex ((s v).stored x)).2) := by
        rw [below.rootID]
        rfl
      have hxcost : (s v).rootPathCost.toNat = (ofLex (ofLex ((s v).stored x)).2).1 := by
        rw [below.rootPathCost]
        rfl
      rw [hx, Prod.Lex.toLex_le_toLex] at hbest
      have hroot : (s v).rootID = (s q.1).rootID := by
        refine le_antisymm ?_ ?_
        · exact hbest.elim le_of_lt fun h => h.1.le
        · exact hkey.elim le_of_lt fun h => h.1.le
      refine ⟨hroot, ?_, ?_⟩
      · obtain h | ⟨-, h⟩ := hbest
        · exact absurd hroot h.ne
        · have := Prod.Lex.monotone_fst _ _ h
          exact hxcost.le.trans this
      · obtain h | ⟨-, h | ⟨h, -⟩⟩ := hkey
        · exact absurd hroot h.ne'
        · exact h.le
        · exact h.le

/-- What a bridge knows: the root, the cost and its own identifier. -/
def knowledge (s : net.State) (v : V) : BridgeID ×ₗ ℕ ×ₗ BridgeID :=
  toLex ((s v).rootID, toLex ((s v).rootPathCost.toNat, (s v).ownID))

/-- A bridge with a designated port knows no less than one that faces it with a designated
port. -/
theorem knowledge_le (stable : Stable s) (fresh : Fresh s) (hpeer : net.peer p = some q)
    (hp : role s p = .DESIGNATED) (hq : role s q = .DESIGNATED) :
    knowledge s p.1 ≤ knowledge s q.1 := by
  obtain ⟨v, i⟩ := p
  have hstored := (stored_le stable fresh hpeer hq).1
  obtain root | ⟨x, below⟩ := isSettled fresh v
  · have hle : (s v).ownID ≤ (s q.1).rootID :=
      (root.eligible i).trans (Prod.Lex.monotone_fst _ _ hstored)
    have hown : (s q.1).rootID ≤ (s q.1).ownID := by
      obtain root' | ⟨x, below'⟩ := isSettled fresh q.1
      · exact root'.rootID.le
      · exact below'.below.le
    rw [knowledge, knowledge, root.rootID, root.rootPathCost]
    obtain hlt | heq := hle.lt_or_eq
    · exact Prod.Lex.toLex_le_toLex.mpr (.inl hlt)
    · refine Prod.Lex.toLex_le_toLex.mpr (.inr ⟨heq, Prod.Lex.toLex_le_toLex.mpr ?_⟩)
      obtain hzero | hpos := Nat.eq_zero_or_pos (s q.1).rootPathCost.toNat
      · exact .inr ⟨hzero.symm, heq ▸ hown⟩
      · exact .inl hpos
  · have hi : i ≠ x := by
      rintro rfl
      cases below.role_x.symm.trans hp
    have hglobal := (below.designated_iff i hi).mp hp
    rw [STP.vector_bridgeGlobal i (fresh.bounded _ _ hpeer).1] at hglobal
    exact toLex_le_of_link (hglobal.le.trans hstored)

theorem designated_iff (wellFormed : WellFormed s) (stable : Stable s) (fresh : Fresh s)
    (hpeer : net.peer p = some q) : role s p = .DESIGNATED ↔ role s q ≠ .DESIGNATED := by
  constructor
  · intro hp hq
    have heq := le_antisymm (knowledge_le stable fresh hpeer hp hq)
      (knowledge_le stable fresh (net.peer_symm hpeer) hq hp)
    have hown : (s p.1).ownID = (s q.1).ownID :=
      congrArg (fun z => (ofLex (ofLex z).2).2) heq
    exact net.peer_ne hpeer (wellFormed.distinct hown)
  · intro hq
    obtain ⟨p', hpeer', hp'⟩ := stable.facing q hq
    obtain rfl := Option.some.inj ((net.peer_symm hpeer).symm.trans hpeer')
    exact hp'

/-- The two bridges of a link. -/
theorem of_peer (stable : Stable s) (fresh : Fresh s) (hpeer : net.peer p = some q) :
    (s p.1).rootID = (s q.1).rootID ∧
      (s p.1).rootPathCost.toNat ≤ (s q.1).rootPathCost.toNat + linkCost s p := by
  by_cases hq : role s q = .DESIGNATED
  · by_cases hp : role s p = .DESIGNATED
    · have h₁ := knowledge_le stable fresh hpeer hp hq
      have h₂ := knowledge_le stable fresh (net.peer_symm hpeer) hq hp
      have heq := le_antisymm h₁ h₂
      have hcost : (s p.1).rootPathCost.toNat = (s q.1).rootPathCost.toNat :=
        congrArg (fun z => (ofLex (ofLex z).2).1) heq
      exact ⟨congrArg (fun z => (ofLex z).1) heq, by omega⟩
    · obtain ⟨hroot, hcost, -⟩ := of_facing_designated stable fresh hpeer hp hq
      exact ⟨hroot, hcost⟩
  · obtain ⟨p', hpeer', hp'⟩ := stable.facing q hq
    obtain rfl := Option.some.inj ((net.peer_symm hpeer).symm.trans hpeer')
    obtain ⟨hroot, -, hcost⟩ := of_facing_designated stable fresh hpeer' hq hp'
    exact ⟨hroot.symm, by omega⟩

/-- What the bridges know; the parent is the bridge that the root port leads to. -/
def labelling (s : net.State) : Labelling V BridgeID where
  id v := (s v).ownID
  root v := (s v).rootID
  cost v := (s v).rootPathCost.toNat
  parent v := ((List.finRange (net.numPorts v)).find? fun i => (s v).role i = .ROOT).bind
    fun i => (net.peer ⟨v, i⟩).map Sigma.fst

theorem parent_of_root (root : (s v).IsSettledRoot) : (labelling s).parent v = none := by
  have hnone : ((List.finRange (net.numPorts v)).find? fun i => (s v).role i = .ROOT) = none := by
    refine List.find?_eq_none.mpr fun i _ => ?_
    simp [root.role i]
  simp only [labelling, hnone, Option.bind_none]

theorem parent_of_below {x : Fin (net.numPorts v)} (below : (s v).IsSettledBelow x)
    (hpeer : net.peer ⟨v, x⟩ = some q) : (labelling s).parent v = some q.1 := by
  have hsome : ((List.finRange (net.numPorts v)).find? fun i => (s v).role i = .ROOT) = some x := by
    obtain ⟨i, hi⟩ := Option.isSome_iff_exists.mp
      (List.find?_isSome.mpr ⟨x, List.mem_finRange x, by simp [below.role_x]⟩ :
        ((List.finRange (net.numPorts v)).find? fun i => (s v).role i = .ROOT).isSome = true)
    have hrole : (s v).role i = .ROOT := by simpa using List.find?_some hi
    by_cases hix : i = x
    · exact hix ▸ hi
    · exact absurd hrole (below.role_ne i hix)
  simp only [labelling, hsome, Option.bind_some, hpeer, Option.map_some]

/-- The parent is the bridge that the root port leads to. -/
theorem parent_eq_some_iff (stable : Stable s) (fresh : Fresh s) {v w : V} :
    (labelling s).parent v = some w ↔ ∃ p q, TreeLink s p q ∧ p.1 = v ∧ q.1 = w := by
  constructor
  · intro hparent
    obtain root | ⟨x, below⟩ := isSettled fresh v
    · rw [parent_of_root root] at hparent
      cases hparent
    · obtain ⟨q, hlink, -, -⟩ := of_rootPort stable fresh below
      rw [parent_of_below below hlink.1] at hparent
      exact ⟨⟨v, x⟩, q, hlink, rfl, Option.some.inj hparent⟩
  · rintro ⟨⟨v, i⟩, q, ⟨hpeer, hrole, -⟩, rfl, rfl⟩
    obtain root | ⟨x, below⟩ := isSettled fresh v
    · cases (root.role i).symm.trans hrole
    · obtain rfl : i = x := by
        by_contra hix
        exact below.role_ne i hix hrole
      exact parent_of_below below hpeer

theorem settled (wellFormed : WellFormed s) (stable : Stable s) (fresh : Fresh s) :
    (labelling s).Settled (link s) where
  connected := wellFormed.connected
  agree := by
    rintro v w c ⟨p, q, hpeer, rfl, rfl, -⟩
    exact (of_peer stable fresh hpeer).1
  least := by
    rintro v w c ⟨p, q, hpeer, rfl, rfl, rfl⟩
    exact (of_peer stable fresh hpeer).2
  top := by
    intro v hparent
    obtain root | ⟨x, below⟩ := isSettled fresh v
    · exact ⟨root.rootID, congrArg BitVec.toNat root.rootPathCost⟩
    · obtain ⟨q, hlink, -, -⟩ := of_rootPort stable fresh below
      rw [parent_of_below below hlink.1] at hparent
      cases hparent
  below := by
    intro v w hparent
    obtain root | ⟨x, below⟩ := isSettled fresh v
    · rw [parent_of_root root] at hparent
      cases hparent
    · obtain ⟨q, hlink, -, hcost⟩ := of_rootPort stable fresh below
      rw [parent_of_below below hlink.1] at hparent
      cases hparent
      exact ⟨below.below, _, wellFormed.positive ⟨v, x⟩, ⟨⟨v, x⟩, q, hlink.1, rfl, rfl, rfl⟩, hcost⟩

theorem treeLinks_eq (stable : Stable s) (fresh : Fresh s) : treeLinks s = (labelling s).tree := by
  unfold treeLinks Labelling.tree
  congr 1
  funext v w
  exact propext (parent_eq_some_iff stable fresh).symm

theorem treeLink_eq (fresh : Fresh s) {p q p' q' : net.Port}
    (h : TreeLink s p q) (h' : TreeLink s p' q') (hv : p.1 = p'.1) : p = p' := by
  obtain ⟨v, i⟩ := p
  obtain ⟨v', i'⟩ := p'
  obtain rfl : v = v' := hv
  obtain root | ⟨x, below⟩ := isSettled fresh v
  · cases (root.role i).symm.trans h.2.1
  · have of_root : ∀ j, (s v).role j = .ROOT → j = x := fun j hj => by
      by_contra hjx
      exact below.role_ne j hjx hj
    rw [of_root i h.2.1, of_root i' h'.2.1]

/-- The stable states of a network in which the stored information is renewed are spanning trees
of least paths. -/
theorem spans_of_stable [Finite V] [Nonempty V] (wellFormed : WellFormed s) (stable : Stable s)
    (fresh : Fresh s) : ∃ r, Spans s r := by
  have hsettled := settled wellFormed stable fresh
  obtain ⟨r, hr, -, -⟩ := hsettled.exists_top (Classical.arbitrary V)
  obtain ⟨hroot, hleast⟩ := hsettled.isLeast_id hr
  refine ⟨r, hroot, fun v => hleast.2 ⟨v, rfl⟩, fun v hv => ?_,
    hsettled.isLeast_cost wellFormed.distinct hr,
    fun p q hpeer => designated_iff wellFormed stable fresh hpeer, ?_, ?_⟩
  · obtain root | ⟨x, below⟩ := isSettled fresh v
    · exact absurd (hsettled.eq_of_top wellFormed.distinct hr (parent_of_root root)) hv
    · refine ⟨x, below.role_x, fun i hi => ?_⟩
      by_contra hix
      exact below.role_ne i hix hi
  · rw [treeLinks_eq stable fresh]
    exact hsettled.isTree wellFormed.distinct hr
  · intro p q p' q' h h' heq
    obtain ⟨hv, -⟩ | ⟨hv, hw⟩ := Sym2.eq_iff.mp heq
    · exact treeLink_eq fresh h h' hv
    · -- the cost of a bridge is greater than that of its parent
      have less : ∀ {p q}, TreeLink s p q →
          (s q.1).rootPathCost.toNat < (s p.1).rootPathCost.toNat := by
        intro p q h
        have hparent := (parent_eq_some_iff stable fresh).mpr ⟨p, q, h, rfl, rfl⟩
        obtain ⟨-, c, hc, -, hcost⟩ := hsettled.below hparent
        have hcost : (s p.1).rootPathCost.toNat = (s q.1).rootPathCost.toNat + c := hcost
        omega
      have h₁ := less h
      have h₂ := less h'
      rw [hv, hw] at h₁
      omega

end

/-- Two bridges with one port each, and a link between these. -/
def twoBridges : Network (Fin 2) where
  numPorts := fun _ => 1
  peer p := some ⟨1 - p.1, 0⟩
  peer_symm := by decide
  peer_ne := by decide

instance (v : Fin 2) : NeZero (twoBridges.numPorts v) := inferInstanceAs (NeZero 1)

/-- The bridge with the given priority and address, that knows the given root. -/
def bridgeOfRoot (own root : ℕ) (cost : Uint32) (port : STPInterfaceData) : STP 1 where
  bridgePriority := BitVec.ofNat 32 own
  bridgeAddress := own
  maxAge := 20
  helloTime := 2
  forwardDelay := 15
  isRoot := decide (own = root)
  desPorts := if own = root then [0] else []
  rootPathCost := cost
  rootPriority := BitVec.ofNat 32 root
  rootAddress := root
  currentMaxAge := 20
  currentFwdDelay := 15
  currentHelloTime := 2
  ports := fun _ => port

/-- The port data with the information of the root. -/
def portOfRoot (root : ℕ) (cost : Uint32) (role : PortRole) : STPInterfaceData where
  rootPriority := BitVec.ofNat 32 root
  rootAddress := root
  rootPathCost := cost
  bridgePriority := BitVec.ofNat 32 root
  bridgeAddress := root
  portPriority := 0
  portNum := 0
  linkCost := 10
  role := role
  maxAge := 20
  fwdDelay := 15
  helloTime := 2

def bestKnown : twoBridges.State := fun v =>
  if v = 0 then bridgeOfRoot 1 1 0 (portOfRoot 1 0 .DESIGNATED)
  else bridgeOfRoot 2 1 10 (portOfRoot 1 10 .ROOT)

/-- The first bridge still has the information of a root that is gone. -/
def rootGone : twoBridges.State := fun v =>
  if v = 0 then bridgeOfRoot 1 0 10 (portOfRoot 0 10 .ROOT)
  else bridgeOfRoot 2 2 0 (portOfRoot 2 0 .DESIGNATED)

theorem eq_of_port {b b' : STP 1} (hrest : { b with ports := b'.ports } = b')
    (hport : b.ports 0 = b'.ports 0) : b = b' := by
  have hports : b.ports = b'.ports := funext fun i => by rw [Subsingleton.elim i 0, hport]
  rw [← hrest, ← hports]

theorem tryRoot_bestKnown (v : Fin 2) : (bestKnown v).tryRoot = bestKnown v := by
  fin_cases v <;> exact eq_of_port rfl rfl

theorem tryRoot_rootGone (v : Fin 2) : (rootGone v).tryRoot = rootGone v := by
  fin_cases v <;> exact eq_of_port rfl rfl

theorem wellFormed_of_twoBridges {s : twoBridges.State}
    (distinct : Function.Injective fun v => (s v).ownID) (positive : ∀ p, 0 < linkCost s p) :
    WellFormed s where
  distinct := distinct
  positive := positive
  connected v w := by
    by_cases hvw : v = w
    · exact hvw ▸ .refl
    · refine .single ⟨_, ⟨v, 0⟩, ⟨w, 0⟩, ?_, rfl, rfl, rfl⟩
      revert v w
      decide

theorem spans_of_bestKnown : ∃ r, Spans bestKnown r :=
  spans_of_stable (wellFormed_of_twoBridges (by decide) (by decide)) ⟨by decide, by decide⟩
    ⟨tryRoot_bestKnown, by decide, by decide, by decide, by decide⟩

/-- A stable state of bridges that are as `tryRoot` leaves them, but without a root: the
information of the root that is gone is better than any BPDU. -/
theorem not_spans_of_rootGone : WellFormed rootGone ∧ Stable rootGone ∧
    (∀ v, (rootGone v).tryRoot = rootGone v) ∧ ¬ ∃ r, Spans rootGone r := by
  refine ⟨wellFormed_of_twoBridges (by decide) (by decide), ⟨by decide, by decide⟩,
    tryRoot_rootGone, ?_⟩
  rintro ⟨r, spans⟩
  have agree : (0 : ℕ) = (rootGone r).bridgeAddress :=
    congrArg (fun id => (ofLex id).2) (spans.agree 0)
  clear spans
  revert r
  decide

end Network

end Inet.Ieee8021d
