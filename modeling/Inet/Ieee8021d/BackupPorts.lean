import Inet.Ieee8021d.PortRoles

/-!
# Two ports on the same LAN

A bridge with two ports on one LAN receives its own BPDUs. Each of them demotes one of the
ports, and one should remain: the port with the larger priority and number becomes a backup
(`OneBackup`). The handler compares the priority of the frame, which the sender leaves at zero,
with the priority last stored on the arrival port. The port with the larger number is always
demoted, the other one as well unless its stored priority is zero.
-/

namespace Inet.Ieee8021d

namespace RSTP

variable {numPorts : ℕ} (bridge : RSTP) (ports : Ports numPorts)

/-- The frame that `sendBPDU(port)` sends. Its port priority is never set. -/
def sendBPDU (port : Fin numPorts) : Option BPDU :=
  if (ports port).role ≠ .DISABLED then
    let sent : BPDU :=
      { rootAddress := bridge.bridgeAddress
        rootPriority := bridge.bridgePriority
        rootPathCost := 0
        bridgeAddress := bridge.bridgeAddress
        bridgePriority := bridge.bridgePriority
        portNum := BitVec.ofNat 32 port
        portPriority := 0
        messageAge := 0 }
    match getRootIndex ports with
    | some r =>
      some { sent with
        rootPriority := (ports r).rootPriority
        rootAddress := (ports r).rootAddress
        messageAge := (ports r).age
        rootPathCost := (ports r).rootPathCost }
    | none => some sent
  else none

/-- `setRole`, `setState` and `setLostBPDU` of a port that becomes a backup. -/
def demote : Ieee8021dInterfaceData → Ieee8021dInterfaceData :=
  resetLost ∘ become .BACKUP .DISCARDING

@[simp] theorem demote_role (ifd : Ieee8021dInterfaceData) : (demote ifd).role = .BACKUP := rfl

@[simp] theorem demote_portPriority (ifd : Ieee8021dInterfaceData) :
    (demote ifd).portPriority = ifd.portPriority := rfl

/-- An own BPDU arrives at a port. -/
structure Reception (numPorts : ℕ) where
  now : SimTime
  frame : BPDU
  arrival : Fin numPorts

/-- The frame has been sent by `sender`, whatever the state of the ports was then. -/
def IsEmitted (sender : Fin numPorts) (frame : BPDU) : Prop :=
  ∃ ports : Ports numPorts, sendBPDU bridge ports sender = some frame

/-- A BPDU of one of two ports arrives at the other. -/
def Reception.IsBetween (p q : Fin numPorts) (r : Reception numPorts) : Prop :=
  r.arrival = p ∧ IsEmitted bridge q r.frame ∨ r.arrival = q ∧ IsEmitted bridge p r.frame

/-- The source address of the frame is the address of the bridge. -/
def receive (ports : Ports numPorts) (r : Reception numPorts) : Result (Ports numPorts) :=
  handleIncomingFrame bridge r.now ports r.frame bridge.bridgeAddress r.arrival

/-- One of the frames has reached the port. A frame that has expired does not count: it is
dropped. -/
def HasReceived (port : Fin numPorts) (rs : List (Reception numPorts)) : Prop :=
  ∃ r ∈ rs, r.arrival = port ∧ r.frame.messageAge < bridge.maxAge

/-- The port `i` has the larger priority and number, for the configured priorities. -/
def Outranks (priority : Fin numPorts → Uint32) (i j : Fin numPorts) : Prop :=
  priority j < priority i ∨ priority j = priority i ∧ j < i
deriving Decidable

/-- One of the ports is a backup, the one with the larger priority and number. -/
def OneBackup (priority : Fin numPorts → Uint32) (p q : Fin numPorts) : Prop :=
  (Outranks priority p q ∧ (ports p).role = .BACKUP ∧ (ports q).role ≠ .BACKUP) ∨
    (Outranks priority q p ∧ (ports q).role = .BACKUP ∧ (ports p).role ≠ .BACKUP)
deriving Decidable

variable {bridge ports} {priority : Fin numPorts → Uint32} {p q sender arrival : Fin numPorts}
  {frame : BPDU}

theorem pos_of_ne_zero {x : Uint32} (h : x ≠ 0) : 0 < x := by
  bv_omega

theorem outranks_iff_of_lt (h : p < q) : Outranks priority q p ↔ priority p ≤ priority q := by
  unfold Outranks
  constructor
  · rintro (hlt | ⟨heq, -⟩)
    · bv_omega
    · bv_omega
  · intro hle
    by_cases heq : priority p = priority q
    · exact .inr ⟨heq, h⟩
    · exact .inl (by bv_omega)

theorem IsEmitted.portPriority (h : IsEmitted bridge sender frame) : frame.portPriority = 0 := by
  obtain ⟨ports, h⟩ := h
  unfold sendBPDU at h
  split at h
  · split at h
    · cases h
      rfl
    · cases h
      rfl
  · cases h

theorem IsEmitted.portNum (h : IsEmitted bridge sender frame) (hn : numPorts ≤ 2 ^ 32) :
    frame.portNum.toNat = sender := by
  have hport : frame.portNum = BitVec.ofNat 32 sender := by
    obtain ⟨ports, h⟩ := h
    unfold sendBPDU at h
    split at h
    · split at h
      · cases h
        rfl
      · cases h
        rfl
    · cases h
  rw [hport, BitVec.toNat_ofNat]
  exact Nat.mod_eq_of_lt (lt_of_lt_of_le sender.isLt hn)

/-- The frame of a port with a smaller number: the arrival port is demoted. -/
theorem handleBackup_of_lt (hframe : IsEmitted bridge sender frame) (hn : numPorts ≤ 2 ^ 32)
    (h : sender < arrival) :
    handleBackup ports frame arrival = .ok (ports.modify arrival demote) := by
  have hpriority := hframe.portPriority
  have hnum := hframe.portNum hn
  unfold handleBackup
  refine if_pos ?_
  rw [hpriority, hnum]
  by_cases hstored : (ports arrival).portPriority = 0
  · exact .inr ⟨hstored.symm, h⟩
  · exact .inl (pos_of_ne_zero hstored)

/-- The frame of a port with a larger number: the stored priority decides. -/
theorem handleBackup_of_gt (hframe : IsEmitted bridge sender frame) (hn : numPorts ≤ 2 ^ 32)
    (h : arrival < sender) :
    handleBackup ports frame arrival =
      .ok (ports.modify (if (ports arrival).portPriority = 0 then sender else arrival) demote) := by
  have hpriority := hframe.portPriority
  have hnum := hframe.portNum hn
  unfold handleBackup
  by_cases hstored : (ports arrival).portPriority = 0
  · rw [if_pos hstored]
    have hfirst : ¬ (frame.portPriority < (ports arrival).portPriority ∨
        frame.portPriority = (ports arrival).portPriority ∧ frame.portNum.toNat < arrival) := by
      rw [hpriority, hstored, hnum]
      rintro (hlt | ⟨-, hlt⟩)
      · exact absurd hlt (by decide)
      · exact lt_asymm h hlt
    have hsecond : frame.portPriority > (ports arrival).portPriority ∨
        frame.portPriority = (ports arrival).portPriority ∧ frame.portNum.toNat > arrival := by
      rw [hpriority, hstored, hnum]
      exact .inr ⟨rfl, h⟩
    have hsender : portOf numPorts frame.portNum.toNat = .ok sender := by
      rw [hnum, portOf, dif_pos sender.isLt]
    rw [if_neg hfirst, hsender, ok_bind, if_pos hsecond]
    rfl
  · rw [if_neg hstored]
    refine if_pos (.inl ?_)
    rw [hpriority]
    exact pos_of_ne_zero hstored

/-- What one frame between the ports does. -/
theorem receive_eq {r : Reception numPorts} (hn : numPorts ≤ 2 ^ 32) (hpq : p < q)
    (hr : r.IsBetween bridge p q) :
    receive bridge ports r = .ok (if r.frame.messageAge < bridge.maxAge then
        ports.modify (if r.arrival = p ∧ (ports p).portPriority ≠ 0 then p else q) demote
      else ports) := by
  unfold receive handleIncomingFrame
  by_cases hage : r.frame.messageAge < bridge.maxAge
  · rw [if_pos hage, if_pos rfl, if_pos hage]
    obtain ⟨harrival, hframe⟩ | ⟨harrival, hframe⟩ := hr
    · rw [harrival, handleBackup_of_gt hframe hn hpq]
      simp [ite_not]
    · rw [harrival, handleBackup_of_lt hframe hn hpq, if_neg fun h => hpq.ne' h.1]
  · rw [if_neg hage, if_neg hage]

/-- The frame reaches the port and has not expired. -/
def Reception.Reaches (bridge : RSTP) (port : Fin numPorts) (r : Reception numPorts) : Prop :=
  r.arrival = port ∧ r.frame.messageAge < bridge.maxAge

theorem hasReceived_cons_iff {port : Fin numPorts} {r : Reception numPorts}
    {rs : List (Reception numPorts)} :
    HasReceived bridge port (r :: rs) ↔ r.Reaches bridge port ∨ HasReceived bridge port rs := by
  simp [HasReceived, Reception.Reaches]

theorem not_hasReceived_nil {port : Fin numPorts} : ¬ HasReceived bridge port [] := by
  simp [HasReceived]

theorem modify_demote_role_iff {i j : Fin numPorts} :
    (ports.modify i demote j).role = .BACKUP ↔ (ports j).role = .BACKUP ∨ j = i := by
  by_cases hji : j = i
  · subst hji
    simp
  · rw [Ports.modify_of_ne hji]
    simp [hji]

theorem modify_demote_portPriority {i j : Fin numPorts} :
    (ports.modify i demote j).portPriority = (ports j).portPriority := by
  by_cases hji : j = i
  · subst hji
    simp
  · rw [Ports.modify_of_ne hji]

/-- What one frame does to the roles of the two ports. The stored priorities stay. -/
theorem receive_roles (ports : Ports numPorts) {r : Reception numPorts}
    (hn : numPorts ≤ 2 ^ 32) (hpq : p < q) (hr : r.IsBetween bridge p q) :
    ∃ ports', receive bridge ports r = .ok ports' ∧
      (ports' p).portPriority = (ports p).portPriority ∧
      ((ports' p).role = .BACKUP ↔ (ports p).role = .BACKUP ∨
        (ports p).portPriority ≠ 0 ∧ r.Reaches bridge p) ∧
      ((ports' q).role = .BACKUP ↔ (ports q).role = .BACKUP ∨
        r.Reaches bridge q ∨ (ports p).portPriority = 0 ∧ r.Reaches bridge p) := by
  refine ⟨_, receive_eq hn hpq hr, ?_⟩
  have hne : p ≠ q := ne_of_lt hpq
  have harrival : r.arrival = p ∨ r.arrival = q := hr.imp And.left And.left
  by_cases hage : r.frame.messageAge < bridge.maxAge
  · rw [if_pos hage]
    by_cases hp : r.arrival = p ∧ (ports p).portPriority ≠ 0
    · rw [if_pos hp]
      refine ⟨modify_demote_portPriority, ?_, ?_⟩
      · rw [modify_demote_role_iff]
        exact ⟨fun _ => .inr ⟨hp.2, hp.1, hage⟩, fun _ => .inr rfl⟩
      · rw [modify_demote_role_iff]
        have hnot : ¬ (r.Reaches bridge q ∨ (ports p).portPriority = 0 ∧ r.Reaches bridge p) := by
          rintro (hq | ⟨hstored, -⟩)
          · exact hne (hp.1.symm.trans hq.1)
          · exact hp.2 hstored
        simp only [hne.symm, hnot]
    · rw [if_neg hp]
      refine ⟨modify_demote_portPriority, ?_, ?_⟩
      · rw [modify_demote_role_iff]
        have hnot : ¬ ((ports p).portPriority ≠ 0 ∧ r.Reaches bridge p) :=
          fun h => hp ⟨h.2.1, h.1⟩
        simp only [hne, hnot, or_false]
      · rw [modify_demote_role_iff]
        have hreaches : r.Reaches bridge q ∨ (ports p).portPriority = 0 ∧ r.Reaches bridge p := by
          obtain harrival | harrival := harrival
          · exact .inr ⟨not_not.mp fun h => hp ⟨harrival, h⟩, harrival, hage⟩
          · exact .inl ⟨harrival, hage⟩
        simp only [hreaches]
  · rw [if_neg hage]
    simp [Reception.Reaches, hage]

/-- The roles after any number of frames. -/
theorem exec_receive_roles (ports : Ports numPorts) (hn : numPorts ≤ 2 ^ 32) (hpq : p < q)
    {rs : List (Reception numPorts)} (hrs : ∀ r ∈ rs, r.IsBetween bridge p q) :
    ∃ ports', Run.exec (receive bridge) ports rs = .ok ports' ∧
      ((ports' p).role = .BACKUP ↔ (ports p).role = .BACKUP ∨
        (ports p).portPriority ≠ 0 ∧ HasReceived bridge p rs) ∧
      ((ports' q).role = .BACKUP ↔ (ports q).role = .BACKUP ∨
        HasReceived bridge q rs ∨ (ports p).portPriority = 0 ∧ HasReceived bridge p rs) := by
  induction rs generalizing ports with
  | nil =>
    refine ⟨ports, rfl, ?_, ?_⟩
    · simp [not_hasReceived_nil]
    · simp [not_hasReceived_nil]
  | cons r rs ih =>
    obtain ⟨ports₁, hreceive, hstored, hp₁, hq₁⟩ :=
      receive_roles ports hn hpq (hrs r List.mem_cons_self)
    obtain ⟨ports', hexec, hp', hq'⟩ :=
      ih ports₁ fun r' hr' => hrs r' (List.mem_cons_of_mem r hr')
    refine ⟨ports', ?_, ?_, ?_⟩
    · rw [Run.exec_cons_of_ok hreceive, hexec]
    · rw [hp', hp₁, hstored, hasReceived_cons_iff, and_or_left, or_assoc]
    · rw [hq', hq₁, hstored, hasReceived_cons_iff, hasReceived_cons_iff, and_or_left, or_assoc,
        or_or_or_comm]

/-- When each of the ports has received a BPDU of the other, one of them is a backup, the one
with the larger priority and number, just in case the other one was not a backup before, the
priority stored on it is zero, and its own priority is not the larger one. -/
theorem oneBackup_iff (hn : numPorts ≤ 2 ^ 32) (hpq : p < q) (ports : Ports numPorts)
    (priority : Fin numPorts → Uint32) {rs : List (Reception numPorts)}
    (hrs : ∀ r ∈ rs, r.IsBetween bridge p q) (hp : HasReceived bridge p rs)
    (hq : HasReceived bridge q rs) :
    ∃ ports', Run.exec (receive bridge) ports rs = .ok ports' ∧
      (OneBackup ports' priority p q ↔ (ports p).role ≠ .BACKUP ∧
        (ports p).portPriority = 0 ∧ priority p ≤ priority q) := by
  obtain ⟨ports', hexec, hp', hq'⟩ := exec_receive_roles ports hn hpq hrs
  refine ⟨ports', hexec, ?_⟩
  have hbackup : (ports' q).role = .BACKUP := hq'.mpr (.inr (.inl hq))
  have hother : (ports' p).role ≠ .BACKUP ↔
      (ports p).role ≠ .BACKUP ∧ (ports p).portPriority = 0 := by
    rw [ne_eq, hp']
    simp [hp]
  rw [OneBackup, outranks_iff_of_lt hpq, hother]
  simp only [hbackup, true_and, ne_eq, not_true_eq_false, and_false, false_or]
  tauto

/-- A frame of each port that reaches the other one, the smaller port first. -/
def exchanged (bridge : RSTP) (ports : Ports 2) : List (Reception 2) :=
  (sendBPDU bridge ports 1).toList.map (fun frame => ⟨0, frame, 0⟩) ++
    (sendBPDU bridge ports 0).toList.map (fun frame => ⟨0, frame, 1⟩)

theorem isBetween_of_mem_exchanged {ports : Ports 2} :
    ∀ r ∈ exchanged bridge ports, r.IsBetween bridge 0 1 := by
  intro r hr
  rw [exchanged, List.mem_append, List.mem_map, List.mem_map] at hr
  obtain ⟨frame, hframe, rfl⟩ | ⟨frame, hframe, rfl⟩ := hr
  · exact .inl ⟨rfl, ports, Option.mem_toList.mp hframe⟩
  · exact .inr ⟨rfl, ports, Option.mem_toList.mp hframe⟩

/-- A bridge with the default parameters. -/
def defaultBridge : RSTP :=
  { bridgePriority := 32768, bridgeAddress := 1, maxAge := 20, forwardDelay := 6,
    migrateTime := 3 }

/-- Two ports that have received nothing since the start. -/
def freshPorts : Ports 2 := start defaultBridge 0 fun _ => {}

/-- A frame with the port priority zero has been stored on the smaller port. -/
def storedPorts : Ports 2 :=
  freshPorts.modify 0 fun ifd => { ifd with portPriority := 0, portNum := 5 }

theorem oneBackup_of_stored_zero :
    ∃ ports', Run.exec (receive defaultBridge) storedPorts (exchanged defaultBridge freshPorts) =
        .ok ports' ∧
      (OneBackup ports' (fun _ => 128) 0 1 ↔ (storedPorts 0).role ≠ .BACKUP ∧
        (storedPorts 0).portPriority = 0 ∧ (128 : Uint32) ≤ 128) :=
  oneBackup_iff (by decide) (by decide) storedPorts (fun _ => 128) isBetween_of_mem_exchanged
    ⟨_, List.mem_cons_self, by decide⟩ ⟨_, List.mem_cons_of_mem _ List.mem_cons_self, by decide⟩

/-- After the start each of the two ports demotes itself. -/
theorem both_backups_of_fresh :
    (∀ r ∈ exchanged defaultBridge freshPorts, r.IsBetween defaultBridge 0 1) ∧
      HasReceived defaultBridge 0 (exchanged defaultBridge freshPorts) ∧
      HasReceived defaultBridge 1 (exchanged defaultBridge freshPorts) ∧
      ∃ ports', Run.exec (receive defaultBridge) freshPorts (exchanged defaultBridge freshPorts) =
          .ok ports' ∧
        ((ports' 0).role = .BACKUP ∧ (ports' 1).role = .BACKUP) ∧
        ¬ OneBackup ports' (fun _ => 128) 0 1 :=
  ⟨isBetween_of_mem_exchanged, ⟨_, List.mem_cons_self, by decide⟩,
    ⟨_, List.mem_cons_of_mem _ List.mem_cons_self, by decide⟩, _, rfl, by decide, by decide⟩

end RSTP

end Inet.Ieee8021d
