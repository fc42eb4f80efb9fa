import Inet.Ieee8021d.RSTP
import Inet.Library.Run

/-!
# The roles and states of the ports

At most one port has the role ROOT, it is forwarding, and a port that is learning or
forwarding is a root or a designated port (`RolesOk`). All handlers keep this, with one
exception. When a frame announces a better root than that of the root port, all other
ports are reset except for edge ports; if the root port is an edge port it keeps its
role, and the arrival port becomes a second root port (`KeepsEdgeRoot`).
-/

namespace Inet.Ieee8021d

namespace Ieee8021dInterfaceData

/-- The role allows the state. -/
structure RoleOk (ifd : Ieee8021dInterfaceData) : Prop where
  root : ifd.role = .ROOT → ifd.state = .FORWARDING
  active : ifd.state ≠ .DISCARDING → ifd.role = .ROOT ∨ ifd.role = .DESIGNATED

theorem RoleOk.of_discarding {ifd : Ieee8021dInterfaceData} (hstate : ifd.state = .DISCARDING)
    (hrole : ifd.role ≠ .ROOT) : RoleOk ifd :=
  ⟨fun h => absurd h hrole, fun h => absurd hstate h⟩

theorem RoleOk.congr {ifd ifd' : Ieee8021dInterfaceData} (h : RoleOk ifd)
    (hrole : ifd'.role = ifd.role) (hstate : ifd'.state = ifd.state) : RoleOk ifd' := by
  constructor
  · rw [hrole, hstate]
    exact h.root
  · rw [hrole, hstate]
    exact h.active

end Ieee8021dInterfaceData

open Ieee8021dInterfaceData

namespace Ports

variable {numPorts : ℕ} {ports ports' : Ports numPorts} {i j r a : Fin numPorts}
  {f : Ieee8021dInterfaceData → Ieee8021dInterfaceData}

@[simp] theorem modify_self : ports.modify i f i = f (ports i) := by
  simp [modify]

theorem modify_of_ne (h : j ≠ i) : ports.modify i f j = ports j := by
  simp [modify, h]

structure RolesOk (ports : Ports numPorts) : Prop where
  each : ∀ i, (ports i).RoleOk
  unique : ∀ i j, (ports i).role = .ROOT → (ports j).role = .ROOT → i = j

instance (ports : Ports numPorts) : Decidable (RolesOk ports) :=
  decidable_of_iff
    ((∀ i, ((ports i).role = .ROOT → (ports i).state = .FORWARDING) ∧
      ((ports i).state ≠ .DISCARDING → (ports i).role = .ROOT ∨ (ports i).role = .DESIGNATED)) ∧
      ∀ i j, (ports i).role = .ROOT → (ports j).role = .ROOT → i = j)
    ⟨fun h => ⟨fun i => ⟨(h.1 i).1, (h.1 i).2⟩, h.2⟩,
      fun h => ⟨fun i => ⟨(h.each i).root, (h.each i).active⟩, h.unique⟩⟩

/-- Each port keeps its role or gets another one than ROOT. -/
theorem RolesOk.of_roles (h : RolesOk ports) (each : ∀ i, (ports' i).RoleOk)
    (roots : ∀ i, (ports' i).role = .ROOT → (ports i).role = .ROOT) : RolesOk ports' :=
  ⟨each, fun i j hi hj => h.unique i j (roots i hi) (roots j hj)⟩

/-- Only the port `a` has the role ROOT. -/
theorem RolesOk.of_root (each : ∀ i, (ports' i).RoleOk)
    (roots : ∀ i, (ports' i).role = .ROOT → i = a) : RolesOk ports' :=
  ⟨each, fun i j hi hj => (roots i hi).trans (roots j hj).symm⟩

section

variable (h : RolesOk ports)

include h

/-- A port whose role does not become ROOT. -/
theorem RolesOk.modify (hf : (f (ports i)).RoleOk)
    (hrole : (f (ports i)).role = .ROOT → (ports i).role = .ROOT) :
    RolesOk (ports.modify i f) := by
  refine h.of_roles (fun j => ?_) (fun j hj => ?_)
  · by_cases hji : j = i
    · subst hji
      rwa [modify_self]
    · rw [modify_of_ne hji]
      exact h.each j
  · by_cases hji : j = i
    · subst hji
      rw [modify_self] at hj
      exact hrole hj
    · rwa [modify_of_ne hji] at hj

/-- A change of other data. -/
theorem RolesOk.modify_same (hrole : (f (ports i)).role = (ports i).role)
    (hstate : (f (ports i)).state = (ports i).state) : RolesOk (ports.modify i f) :=
  h.modify ((h.each i).congr hrole hstate) (by rw [hrole]; exact id)

/-- The port starts to discard. -/
theorem RolesOk.modify_discarding
    (hstate : (f (ports i)).state = .DISCARDING) (hrole : (f (ports i)).role ≠ .ROOT) :
    RolesOk (ports.modify i f) :=
  h.modify (.of_discarding hstate hrole) fun hroot => absurd hroot hrole

/-- The port `a` becomes the root port, where no other port is. -/
theorem RolesOk.modify_root (others : ∀ j, j ≠ a → (ports j).role ≠ .ROOT)
    (hrole : (f (ports a)).role = .ROOT) (hstate : (f (ports a)).state = .FORWARDING) :
    RolesOk (ports.modify a f) := by
  refine RolesOk.of_root (a := a) (fun j => ?_) (fun j hj => ?_)
  · by_cases hja : j = a
    · subst hja
      rw [modify_self]
      exact ⟨fun _ => hstate, fun _ => .inl hrole⟩
    · rw [modify_of_ne hja]
      exact h.each j
  · by_contra hja
    rw [modify_of_ne hja] at hj
    exact others j hja hj

/-- After the root port has lost its role there is no root port. -/
theorem RolesOk.no_root (hr : (ports r).role = .ROOT)
    (hrole : (f (ports r)).role ≠ .ROOT) (j : Fin numPorts) :
    (ports.modify r f j).role ≠ .ROOT := by
  by_cases hjr : j = r
  · subst hjr
    rwa [modify_self]
  · rw [modify_of_ne hjr]
    exact fun hj => hjr (h.unique j r hj hr)

/-- The port `a` becomes the root port before the old one `r` gives up its role. -/
theorem RolesOk.hand_over (hr : (ports r).role = .ROOT)
    {g k : Ieee8021dInterfaceData → Ieee8021dInterfaceData}
    (hrole : (f (ports a)).role = .ROOT) (hstate : (f (ports a)).state = .FORWARDING)
    (hg : ∀ ifd, (g ifd).role ≠ .ROOT ∧ (g ifd).state = .DISCARDING) :
    RolesOk (((ports.modify a f).modify r k).modify r g) := by
  refine RolesOk.of_root (a := a) (fun j => ?_) (fun j hj => ?_)
  · by_cases hjr : j = r
    · subst hjr
      rw [modify_self]
      exact .of_discarding (hg _).2 (hg _).1
    · rw [modify_of_ne hjr, modify_of_ne hjr]
      by_cases hja : j = a
      · subst hja
        rw [modify_self]
        exact ⟨fun _ => hstate, fun _ => .inl hrole⟩
      · rw [modify_of_ne hja]
        exact h.each j
  · by_contra hja
    by_cases hjr : j = r
    · subst hjr
      rw [modify_self] at hj
      exact (hg _).1 hj
    · rw [modify_of_ne hjr, modify_of_ne hjr, modify_of_ne hja] at hj
      exact hjr (h.unique j r hj hr)

end

end Ports

namespace RSTP

open Ports

variable {numPorts : ℕ} {bridge : RSTP} {now : SimTime} {ports t : Ports numPorts}
  {i r a : Fin numPorts} {frame : BPDU} {ifd : Ieee8021dInterfaceData}

section

@[simp] theorem initInterfacedata_role : (initInterfacedata bridge ifd).role = ifd.role := rfl

@[simp] theorem initInterfacedata_state : (initInterfacedata bridge ifd).state = ifd.state := rfl

@[simp] theorem updateInterfacedata_role : (updateInterfacedata frame ifd).role = ifd.role := rfl

@[simp] theorem updateInterfacedata_state : (updateInterfacedata frame ifd).state = ifd.state := rfl

@[simp] theorem contend_role : (contend bridge now ifd).role = .DESIGNATED := rfl

@[simp] theorem contend_state : (contend bridge now ifd).state = .DISCARDING := rfl

@[simp] theorem resetLost_role : (resetLost ifd).role = ifd.role := rfl

@[simp] theorem resetLost_state : (resetLost ifd).state = ifd.state := rfl

variable {role : PortRole} {state : PortState}

@[simp] theorem become_role : (become role state ifd).role = role := rfl

@[simp] theorem become_state : (become role state ifd).state = state := rfl

end

theorem role_of_getRootIndex (h : getRootIndex ports = some r) : (ports r).role = .ROOT := by
  simpa using List.find?_some h

theorem role_ne_of_getRootIndex (h : getRootIndex ports = none) (i : Fin numPorts) :
    (ports i).role ≠ .ROOT := by
  have := List.find?_eq_none.mp h i (List.mem_finRange i)
  simpa using this

theorem role_initPorts (i : Fin numPorts) : (initPorts bridge now ports i).role ≠ .ROOT := by
  unfold initPorts
  split <;> simp

theorem rolesOk_initPorts : RolesOk (initPorts bridge now ports) := by
  refine ⟨fun i => ?_, fun i _ hi _ => absurd hi (role_initPorts i)⟩
  unfold initPorts
  split
  · exact .of_discarding rfl (by simp)
  · exact ⟨by simp, fun _ => .inr rfl⟩

section

variable (h : RolesOk ports)

include h

theorem RolesOk.handleUpgrade : RolesOk (handleUpgrade bridge now ports) := by
  have each : ∀ i, (upgradePort bridge now (ports i)).RoleOk ∧
      ((upgradePort bridge now (ports i)).role = .ROOT → (ports i).role = .ROOT) := by
    intro i
    unfold upgradePort
    split_ifs with due unassigned designated discarding learning
    · exact ⟨.of_discarding rfl (by simp), by simp⟩
    · exact ⟨⟨by simp [designated], fun _ => .inr designated⟩, id⟩
    · exact ⟨⟨fun _ => rfl, fun _ => .inr designated⟩, id⟩
    · exact ⟨h.each i, id⟩
    · exact ⟨h.each i, id⟩
    · exact ⟨h.each i, id⟩
  exact h.of_roles (fun i => (each i).1) fun i => (each i).2

theorem RolesOk.lostPort : RolesOk (lostPort bridge now ports i) := by
  unfold RSTP.lostPort
  split_ifs with hroot
  · split
    · next candidate hcandidate =>
        refine RolesOk.modify_root (h.modify_discarding rfl (by simp)) ?_ rfl rfl
        exact fun j _ => h.no_root hroot (by simp) j
    · exact rolesOk_initPorts
  · exact h.modify_discarding rfl (by simp)

theorem RolesOk.helloPort : RolesOk (helloPort bridge now ports i) := by
  have counted := h.modify_same (i := i)
    (f := fun ifd => { ifd with lostBPDU := ifd.lostBPDU + 1 }) rfl rfl
  unfold RSTP.helloPort
  simp only
  split_ifs
  · exact (RolesOk.lostPort counted).modify_same rfl rfl
  · exact counted
  · exact h

theorem RolesOk.handleHelloTime : RolesOk (handleHelloTime bridge now ports) := by
  unfold RSTP.handleHelloTime
  generalize List.finRange numPorts = js
  induction js generalizing ports with
  | nil => exact h
  | cons j js ih => exact ih (RolesOk.helloPort h)

theorem RolesOk.handleBackup (ht : handleBackup ports frame a = .ok t) : RolesOk t := by
  simp only [RSTP.handleBackup] at ht
  split_ifs at ht
  · cases ht
    exact h.modify_discarding rfl (by simp)
  · obtain ⟨sender, _, ht⟩ := bind_eq_ok.mp ht
    cases ht
    exact h.modify_discarding rfl (by simp)
  · obtain ⟨sender, _, ht⟩ := bind_eq_ok.mp ht
    cases ht
    exact h.modify_discarding rfl (by simp)

theorem RolesOk.replaceRoot (hr : (ports r).role = .ROOT)
    (ht : replaceRoot bridge now ports r a = .ok t) : RolesOk t := by
  simp only [RSTP.replaceRoot] at ht
  obtain ⟨case3, _, ht⟩ := bind_eq_ok.mp ht
  split_ifs at ht
  · cases ht
    exact h.hand_over hr rfl rfl fun ifd => ⟨by simp, rfl⟩
  · cases ht
    exact h.hand_over hr rfl rfl fun ifd => ⟨by simp, rfl⟩

theorem RolesOk.loseRoot (ha : (ports a).role = .ROOT) :
    RolesOk (loseRoot bridge now ports frame a) := by
  unfold RSTP.loseRoot
  split
  · next alternative _ =>
      have discards := h.modify_discarding (i := a) (f := contend bridge now) rfl (by simp)
      have replaced := RolesOk.modify_root (a := alternative)
        (f := become .ROOT .FORWARDING) discards
        (fun j _ => h.no_root ha (by simp) j) rfl rfl
      exact replaced.modify_same rfl rfl
  · have fresh : RolesOk (initPorts bridge now ports) := rolesOk_initPorts
    simp only
    split_ifs
    · exact fresh.modify_root (fun j _ => role_initPorts j) rfl rfl
    · exact fresh

theorem RolesOk.worsenRoot (ha : (ports a).role = .ROOT)
    (ht : worsenRoot bridge now ports frame a = .ok t) : RolesOk t := by
  have heard := h.modify_same (i := a) (f := resetLost) rfl rfl
  have kept := heard.modify_same (i := a) (f := updateInterfacedata frame) rfl rfl
  have hroot : ((ports.modify a resetLost) a).role = .ROOT := by simp [ha]
  simp only [RSTP.worsenRoot] at ht
  split at ht
  · next alternative _ =>
      split at ht
      · obtain ⟨case3, _, ht⟩ := bind_eq_ok.mp ht
        cases ht
        refine RolesOk.modify_same (heard.hand_over hroot rfl rfl fun ifd => ?_) rfl rfl
        split_ifs <;> exact ⟨by simp, rfl⟩
      · cases ht
        exact kept
  · cases ht
    exact kept

theorem RolesOk.worsenOther (ht : worsenOther bridge now ports frame a = .ok t) : RolesOk t := by
  simp only [RSTP.worsenOther] at ht
  split_ifs at ht
  · obtain ⟨case2, _, ht⟩ := bind_eq_ok.mp ht
    cases ht
    refine RolesOk.modify_same ?_ rfl rfl
    split_ifs
    · exact h.modify_discarding rfl (by simp)
    · exact h.modify_same rfl rfl
  · cases ht
    exact h.modify_same rfl rfl

theorem RolesOk.processSameSource
    (ht : processSameSource bridge now ports frame a = .ok t) : RolesOk t := by
  unfold RSTP.processSameSource at ht
  split at ht
  · cases ht
    exact h.modify_same rfl rfl
  · split_ifs at ht with hroot halternate
    · cases ht
      exact RolesOk.loseRoot h hroot
    · cases ht
      exact h.modify_discarding rfl (by simp)
    · cases ht
      exact h
  all_goals first
    | cases ht; exact h
    | split_ifs at ht with hroot
      · exact RolesOk.worsenRoot h hroot ht
      · exact RolesOk.worsenOther h ht

/-- All other ports start again, unless they are edge ports. -/
theorem RolesOk.resetOthers_iff (hr : (ports r).role = .ROOT) :
    RolesOk ((resetOthers bridge now ports a).modify a (resetLost ∘ become .ROOT .FORWARDING)) ↔
      ¬ (r ≠ a ∧ (ports r).edge) := by
  constructor
  · rintro ht ⟨hra, hedge⟩
    refine hra (ht.unique r a ?_ ?_)
    · rw [modify_of_ne hra]
      simp [resetOthers, hedge, hr]
    · simp
  · intro replaced
    refine RolesOk.of_root (a := a) (fun j => ?_) (fun j hj => ?_)
    · by_cases hja : j = a
      · subst hja
        rw [modify_self]
        exact ⟨fun _ => rfl, fun _ => .inl rfl⟩
      · rw [modify_of_ne hja]
        unfold resetOthers
        split_ifs
        · exact .of_discarding rfl (by simp)
        · exact h.each j
    · by_contra hja
      rw [modify_of_ne hja] at hj
      unfold resetOthers at hj
      split_ifs at hj with hreset
      · simp at hj
      · obtain rfl := h.unique j r hj hr
        have hedge : (ports j).edge = true := by simpa [hja] using hreset
        exact replaced ⟨hja, hedge⟩

end

/-- A frame announces a better root than that of the root port, which is another port and an
edge port. -/
def KeepsEdgeRoot (ports : Ports numPorts) (frame : BPDU) (arrival : Fin numPorts) : Prop :=
  ∃ r, getRootIndex ports = some r ∧ r ≠ arrival ∧ (ports r).edge ∧
    compareInterfacedata ports r frame (ports arrival).linkCost = .BETTER_ROOT

/-- The event makes `processBPDU` take up such a frame. -/
def AddsRoot (bridge : RSTP) (ports : Ports numPorts) : SimTime × Event numPorts → Prop
  | (_, .incomingFrame frame src arrival) =>
    frame.messageAge < bridge.maxAge ∧ src ≠ bridge.bridgeAddress ∧
      ((compareInterfacedata ports arrival frame (ports arrival).linkCost).isBetter ∧
        frame.rootAddress ≠ bridge.bridgeAddress) ∧ KeepsEdgeRoot ports frame arrival
  | _ => False

theorem getRootIndex_update :
    getRootIndex (ports.modify a (updateInterfacedata frame)) = getRootIndex ports := by
  unfold getRootIndex
  congr 1
  funext i
  by_cases hia : i = a
  · subst hia
    simp
  · rw [modify_of_ne hia]

theorem compareInterfacedata_update (h : r ≠ a) :
    compareInterfacedata (ports.modify a (updateInterfacedata frame)) r frame
        ((ports.modify a (updateInterfacedata frame)) a).linkCost =
      compareInterfacedata ports r frame (ports a).linkCost := by
  unfold compareInterfacedata
  rw [modify_of_ne h, modify_self]
  rfl

theorem keepsEdgeRoot_iff
    (hr : getRootIndex (ports.modify a (updateInterfacedata frame)) = some r) :
    KeepsEdgeRoot ports frame a ↔ r ≠ a ∧ (ports r).edge ∧
      compareInterfacedata (ports.modify a (updateInterfacedata frame)) r frame
        ((ports.modify a (updateInterfacedata frame)) a).linkCost = .BETTER_ROOT := by
  rw [getRootIndex_update] at hr
  constructor
  · rintro ⟨r', hr', hra, hedge, hbetter⟩
    obtain rfl := Option.some.inj (hr.symm.trans hr')
    exact ⟨hra, hedge, (compareInterfacedata_update hra).trans hbetter⟩
  · rintro ⟨hra, hedge, hbetter⟩
    exact ⟨r, hr, hra, hedge, (compareInterfacedata_update hra).symm.trans hbetter⟩

/-- The other branches keep the invariant. -/
theorem RolesOk.processBetterSource_iff (h : RolesOk ports)
    (ht : processBetterSource bridge now ports frame a = .ok t) :
    RolesOk t ↔ ¬ KeepsEdgeRoot ports frame a := by
  have heard := h.modify_same (i := a) (f := updateInterfacedata frame) rfl rfl
  have hindex : getRootIndex (ports.modify a (updateInterfacedata frame)) = getRootIndex ports :=
    getRootIndex_update
  simp only [RSTP.processBetterSource] at ht
  split at ht
  · next hnone =>
      cases ht
      refine iff_of_true ?_ ?_
      · exact heard.modify_root (fun j _ => role_ne_of_getRootIndex hnone j) rfl rfl
      · rintro ⟨r, hr, _⟩
        rw [← hindex, hnone] at hr
        cases hr
  · next r hr =>
      have hroot := role_of_getRootIndex hr
      rw [keepsEdgeRoot_iff hr]
      set heardPorts := ports.modify a (updateInterfacedata frame) with hheard
      cases hcase : compareInterfacedata heardPorts r frame (heardPorts a).linkCost with
      | BETTER_ROOT =>
        rw [hcase] at ht
        cases ht
        rw [RolesOk.resetOthers_iff heard hroot, not_iff_not]
        constructor
        · rintro ⟨hra, hedge⟩
          rw [hheard, modify_of_ne hra] at hedge
          exact ⟨hra, hedge, rfl⟩
        · rintro ⟨hra, hedge, _⟩
          refine ⟨hra, ?_⟩
          rwa [hheard, modify_of_ne hra]
      | SIMILAR =>
        refine iff_of_true ?_ (by simp)
        rw [hcase] at ht
        simp only at ht
        split_ifs at ht
        · cases ht
          exact heard.modify_discarding rfl (by simp)
        · cases ht
          refine RolesOk.modify_root (heard.modify_discarding rfl (by simp)) ?_ rfl rfl
          exact fun j _ => heard.no_root hroot (by simp) j
      | BETTER_RPC | BETTER_SRC | BETTER_PORT =>
        refine iff_of_true ?_ (by simp)
        rw [hcase] at ht
        exact RolesOk.replaceRoot heard hroot ht
      | WORSE_ROOT =>
        refine iff_of_true ?_ (by simp)
        rw [hcase] at ht
        rw [← Except.ok.inj ht]
        exact heard
      | WORSE_RPC | WORSE_SRC | WORSE_PORT =>
        refine iff_of_true ?_ (by simp)
        rw [hcase] at ht
        obtain ⟨case3, _, ht⟩ := bind_eq_ok.mp ht
        split_ifs at ht
        · cases ht
          exact heard.modify_discarding rfl (by simp)
        · cases ht
          exact heard.modify_discarding rfl (by simp)

/-- What one event does to the invariant. -/
theorem RolesOk.step_iff (h : RolesOk ports) {event : SimTime × Event numPorts}
    (ht : step bridge ports event = .ok t) : RolesOk t ↔ ¬ AddsRoot bridge ports event := by
  obtain ⟨now, event⟩ := event
  cases event with
  | helloTime =>
    cases ht
    exact iff_of_true (RolesOk.handleHelloTime h) id
  | upgrade =>
    cases ht
    exact iff_of_true (RolesOk.handleUpgrade h) id
  | interfaceStateChanged port carrier =>
    cases ht
    refine iff_of_true (h.modify_same ?_ ?_) id
    all_goals
      unfold RSTP.interfaceStateChanged
      simp only
      split_ifs <;> rfl
  | incomingFrame frame src arrival =>
    simp only [step, handleIncomingFrame] at ht
    simp only [AddsRoot]
    split_ifs at ht with hage hsrc
    · exact iff_of_true (RolesOk.handleBackup h ht) fun adds => adds.2.1 hsrc
    · unfold processBPDU at ht
      split_ifs at ht with hbetter hsame
      · rw [RolesOk.processBetterSource_iff h ht]
        exact ⟨fun h adds => h adds.2.2.2, fun h keeps => h ⟨hage, hsrc, hbetter, keeps⟩⟩
      · exact iff_of_true (RolesOk.processSameSource h ht) fun adds => hbetter adds.2.2.1
      · cases ht
        exact iff_of_true h fun adds => hbetter adds.2.2.1
    · cases ht
      exact iff_of_true h fun adds => hage adds.1

/-- An event that adds a root port does not fail. -/
theorem not_addsRoot_of_error {event : SimTime × Event numPorts} {e : Error}
    (he : step bridge ports event = .error e) : ¬ AddsRoot bridge ports event := by
  obtain ⟨now, event⟩ := event
  cases event with
  | helloTime | upgrade | interfaceStateChanged => exact id
  | incomingFrame frame src arrival =>
    rintro ⟨hage, hsrc, hbetter, r, hr, hra, hedge, hroot⟩
    have hindex : getRootIndex (ports.modify arrival (updateInterfacedata frame)) =
        getRootIndex ports := getRootIndex_update
    rw [hr] at hindex
    have hcase := (compareInterfacedata_update hra).trans hroot
    simp only [step, handleIncomingFrame, if_pos hage, if_neg hsrc, processBPDU,
      if_pos hbetter, processBetterSource, hindex, hcase] at he
    cases he

/-- In every run of a bridge the roles and states of the ports are consistent just in case
no event adds a root port. -/
theorem rolesOk_iff (bridge : RSTP) (now : SimTime) (ports : Ports numPorts)
    (events : List (SimTime × Event numPorts)) :
    Run.Throughout (step bridge) RolesOk (start bridge now ports) events ↔
      Run.Admissible (step bridge) (fun ports event => ¬ AddsRoot bridge ports event)
        (start bridge now ports) events := by
  refine Run.throughout_iff_admissible ?_ ?_ rolesOk_initPorts
  · exact fun _ _ _ h ht => RolesOk.step_iff h ht
  · exact fun _ _ _ _ he => not_addsRoot_of_error he

/-- Two ports, the first of which is an edge port. -/
def edgePorts : Ports 2 := fun i => { edge := i = 0 }

/-- The neighbour of the edge port is a better bridge, and that of the other port a still
better one. -/
def betterRoots : List (SimTime × Event 2) :=
  let frame (priority : Uint32) (address : MACAddress) : BPDU :=
    { rootAddress := address, rootPriority := priority, rootPathCost := 0
      bridgeAddress := address, bridgePriority := priority
      portNum := 0, portPriority := 0, messageAge := 0 }
  [(1, .incomingFrame (frame 20 2) 2 0), (2, .incomingFrame (frame 10 3) 3 1)]

theorem not_rolesOk_betterRoots :
    ¬ Run.Throughout (step ⟨32768, 1, 20, 15, 3⟩) RolesOk (start ⟨32768, 1, 20, 15, 3⟩ 0 edgePorts)
      betterRoots := by
  decide +kernel

end RSTP

end Inet.Ieee8021d
