import Inet.Ieee8021d.STP

/-!
# The hello timer of an STP bridge

The ticks of `STP` and what it does about topology changes. The hello time that is configured is
read into a member of the base class; `STP` declares another member of this name, which starts at
zero and counts ticks, and takes it for the configured time as well. So a root bridge advertises a
hello time of zero and sends hello BPDUs at every tick (`not_helloTimes`).
-/

namespace Inet.Ieee8021d

/-- One second, in picoseconds. -/
def second : SimTime := 10 ^ 12

def tickInterval : SimTime := second

def STP_MULTICAST_ADDRESS : MACAddress := 0x0180C2000000

/-- A configuration BPDU, with its flags. -/
structure FlaggedBPDU extends ConfigBPDU where
  tcFlag : Bool := false
  tcaFlag : Bool := false
deriving DecidableEq

/-- What a bridge sends, with the switch port. -/
inductive Message (numPorts : ℕ) where
  | config (port : Fin numPorts) (dest : MACAddress) (bpdu : FlaggedBPDU)
  | tcn (port : ℕ)

/-- The port of a configuration BPDU. -/
def Message.configPort {numPorts : ℕ} : Message numPorts → Option (Fin numPorts)
  | .config port _ _ => some port
  | .tcn _ => none

/-- The module, with the hello time that its base class has and the flags for topology changes. -/
structure STPModule (numPorts : ℕ) extends STP numPorts where
  /-- `STPBase::helloTime`, the parameter. -/
  baseHelloTime : SimTime
  currentBridgePriority : Uint32 := 0
  topologyChangeNotification : Bool := false
  topologyChangeRecvd : Bool := false

inductive STPEvent (numPorts : ℕ) where
  | tick
  | config (arrivalGate : Fin numPorts) (bpdu : FlaggedBPDU)
  | tcn (arrivalGate : Fin numPorts) (src : MACAddress)
deriving DecidableEq

namespace STPModule

variable {numPorts : ℕ}

def generateBPDU (bridge : STPModule numPorts) (port : Fin numPorts)
    (address : MACAddress := STP_MULTICAST_ADDRESS) (tcFlag tcaFlag : Bool := false) :
    Message numPorts :=
  let bpdu : FlaggedBPDU := { toConfigBPDU := bridge.toSTP.generateBPDU port }
  .config port address <| if bridge.topologyChangeNotification then
      if bridge.isRoot || tcFlag then { bpdu with tcFlag := true, tcaFlag := false }
      else if tcaFlag then { bpdu with tcFlag := false, tcaFlag := true }
      else bpdu
    else bpdu

/-- The hello BPDUs for all ports. -/
def generateHelloBDPUs (bridge : STPModule numPorts) : List (Message numPorts) :=
  (List.finRange numPorts).map fun i => bridge.generateBPDU i

def generateTCN (bridge : STPModule numPorts) :
    Result (List (Message numPorts) × STPModule numPorts) :=
  if bridge.topologyChangeNotification || !bridge.topologyChangeRecvd then do
    let port ← RSTP.portOf numPorts bridge.rootPort
    if (bridge.ports port).role = .ROOT then
      .ok ([.tcn bridge.rootPort], { bridge with topologyChangeNotification := false })
    else .ok ([], bridge)
  else .ok ([], bridge)

/-- Only the selection of a root port changes `rootPort`, and takes that for a topology change. -/
def tryRoot (bridge : STPModule numPorts) : STPModule numPorts :=
  let tried := bridge.toSTP.tryRoot
  { bridge with
    toSTP := tried
    topologyChangeNotification :=
      bridge.topologyChangeNotification || decide (bridge.rootPort ≠ tried.rootPort) }

def lostRoot (bridge : STPModule numPorts) : STPModule numPorts :=
  { bridge with topologyChangeNotification := true }.tryRoot

def lostAlternate (bridge : STPModule numPorts) : STPModule numPorts :=
  { bridge with
    toSTP := bridge.toSTP.selectDesignatedPorts
    topologyChangeNotification := true }

def initInterfacedata (bridge : STPModule numPorts) (portNum : Fin numPorts) : STPModule numPorts :=
  { bridge with
    toSTP := bridge.toSTP.modify portNum fun ifd =>
      { ifd with
        role := .NOTASSIGNED
        state := .DISCARDING
        rootPriority := bridge.bridgePriority
        rootAddress := bridge.bridgeAddress
        rootPathCost := 0
        age := 0
        bridgePriority := bridge.bridgePriority
        bridgeAddress := bridge.bridgeAddress
        portPriority := -1
        portNum := -1
        lostBPDU := 0 } }

def initPortTable (bridge : STPModule numPorts) : STPModule numPorts :=
  (List.finRange numPorts).foldl initInterfacedata bridge

/-- What `reset` and `start` have in common. -/
def becomeRoot (bridge : STPModule numPorts) : STP numPorts :=
  { bridge.toSTP with
    isRoot := true
    rootPriority := bridge.bridgePriority
    rootAddress := bridge.bridgeAddress
    rootPathCost := 0
    currentHelloTime := bridge.helloTime
    currentMaxAge := bridge.maxAge
    currentFwdDelay := bridge.forwardDelay }

def reset (bridge : STPModule numPorts) : STPModule numPorts :=
  { bridge with toSTP := bridge.becomeRoot.setAllDesignated }

/-- `address` is that of the first interface. -/
def start (bridge : STPModule numPorts) (address : MACAddress) : STPModule numPorts :=
  let bridge := { bridge with bridgeAddress := address }.initPortTable
  { bridge with
    toSTP := { bridge.becomeRoot with rootPort := 0, helloTime := 0 }.setAllDesignated
    currentBridgePriority := bridge.bridgePriority
    topologyChangeNotification := true
    topologyChangeRecvd := true }

def checkHelloTimer (bridge : STPModule numPorts) : List (Message numPorts) × STPModule numPorts :=
  if bridge.helloTime ≥ bridge.currentHelloTime then
    (if bridge.isRoot then bridge.generateHelloBDPUs else [], { bridge with helloTime := 0 })
  else ([], bridge)

/-- The information age check of one port. -/
def checkAge (bridge : STPModule numPorts) (i : Fin numPorts) : STPModule numPorts :=
  if (bridge.ports i).age ≥ bridge.currentMaxAge then
    if (bridge.ports i).role = .ROOT then (bridge.initInterfacedata i).lostRoot
    else (bridge.initInterfacedata i).lostAlternate
  else bridge

/-- The check of the forward delay timer of one port. -/
def checkFdWhile (currentFwdDelay : SimTime) (port : STPInterfaceData) : STPInterfaceData :=
  if port.role = .ROOT ∨ port.role = .DESIGNATED then
    if port.fdWhile ≥ currentFwdDelay then
      match port.state with
      | .DISCARDING => { port with state := .LEARNING, fdWhile := 0 }
      | .LEARNING => { port with state := .FORWARDING, fdWhile := 0 }
      | .FORWARDING => { port with fdWhile := 0 }
    else port
  else { port with fdWhile := 0, state := .DISCARDING }

def checkTimers (bridge : STPModule numPorts) : List (Message numPorts) × STPModule numPorts :=
  let (sent, bridge) := bridge.checkHelloTimer
  let bridge := (List.finRange numPorts).foldl checkAge bridge
  (sent, { bridge with ports := fun i => checkFdWhile bridge.currentFwdDelay (bridge.ports i) })

def checkParametersChange (bridge : STPModule numPorts) : STPModule numPorts :=
  let bridge :=
    if bridge.isRoot then
      { bridge with
        currentHelloTime := bridge.helloTime
        currentMaxAge := bridge.maxAge
        currentFwdDelay := bridge.forwardDelay }
    else bridge
  if bridge.currentBridgePriority ≠ bridge.bridgePriority then
    { bridge with currentBridgePriority := bridge.bridgePriority }.reset
  else bridge

/-- The timers of a port, incremented at a tick. -/
def incrementTimers (port : STPInterfaceData) : STPInterfaceData :=
  if port.role = .DISABLED then port
  else { port with
    age := if port.role ≠ .DESIGNATED then port.age + tickInterval else port.age
    fdWhile :=
      if port.role = .ROOT ∨ port.role = .DESIGNATED then port.fdWhile + tickInterval
      else port.fdWhile }

/-- The first part of `handleTick`. -/
def countTick (bridge : STPModule numPorts) : STPModule numPorts :=
  { bridge with
    helloTime := if bridge.isRoot then bridge.helloTime + second else 0
    ports := fun i => incrementTimers (bridge.ports i) }

def handleTick (bridge : STPModule numPorts) :
    Result (List (Message numPorts) × STPModule numPorts) := do
  let (sent, bridge) := bridge.countTick.checkTimers
  let (notified, bridge) ← bridge.checkParametersChange.generateTCN
  .ok (sent ++ notified, bridge)

def handleBPDU (bridge : STPModule numPorts) (arrivalGate : Fin numPorts) (bpdu : FlaggedBPDU) :
    List (Message numPorts) × STPModule numPorts :=
  let bridge :=
    if bpdu.tcaFlag then
      { bridge with topologyChangeRecvd := true, topologyChangeNotification := false }
    else bridge
  let (superior, checked) := bridge.toSTP.isSuperiorBPDU arrivalGate bpdu.toConfigBPDU
  let bridge := { bridge with toSTP := checked }
  let role := (bridge.ports arrivalGate).role
  let sent :=
    if !superior then
      -- an inferior BPDU is answered with a superior one
      if role = .DESIGNATED then [bridge.generateBPDU arrivalGate] else []
    else if role = .ROOT then
      bridge.desPorts.map fun i =>
        bridge.generateBPDU i STP_MULTICAST_ADDRESS bpdu.tcFlag false
    else []
  (sent, bridge.tryRoot)

/-- The notification is passed on to the root, unless this is the root. -/
def handleTCN (bridge : STPModule numPorts) (arrivalGate : Fin numPorts) (src : MACAddress) :
    List (Message numPorts) × STPModule numPorts :=
  let bridge := { bridge with topologyChangeNotification := true }
  (bridge.generateBPDU arrivalGate src false true ::
    if bridge.isRoot then [] else [.tcn bridge.rootPort], bridge)

def handleMessage (bridge : STPModule numPorts) :
    STPEvent numPorts → Result (List (Message numPorts) × STPModule numPorts)
  | .tick => bridge.handleTick
  | .config arrivalGate bpdu => .ok (bridge.handleBPDU arrivalGate bpdu)
  | .tcn arrivalGate src => .ok (bridge.handleTCN arrivalGate src)

/-- The parameters of the module. -/
structure Parameters where
  bridgePriority : Uint32
  maxAge : SimTime
  helloTime : SimTime
  forwardDelay : SimTime

/-- The module before it is started. The time members of `STP` itself are zero. -/
def initialized (par : Parameters) (ports : Fin numPorts → STPInterfaceData) :
    STPModule numPorts where
  bridgePriority := par.bridgePriority
  bridgeAddress := 0
  maxAge := par.maxAge
  baseHelloTime := par.helloTime
  helloTime := 0
  forwardDelay := par.forwardDelay
  isRoot := false
  rootPathCost := 0
  rootPriority := 0
  rootAddress := 0
  currentMaxAge := 0
  currentFwdDelay := 0
  currentHelloTime := 0
  ports

/-- An event, with the module before and after it and what was sent. -/
structure Occurrence (numPorts : ℕ) where
  before : STPModule numPorts
  event : STPEvent numPorts
  sent : List (Message numPorts)
  after : STPModule numPorts

/-- The ports over which configuration BPDUs were sent at a tick. -/
def Occurrence.helloPorts (o : Occurrence numPorts) : List (Fin numPorts) :=
  if o.event = .tick then o.sent.filterMap Message.configPort else []

/-- What happens in a run. A failure ends it. -/
def history (bridge : STPModule numPorts) : List (STPEvent numPorts) → List (Occurrence numPorts)
  | [] => []
  | event :: events =>
    match bridge.handleMessage event with
    | .ok (sent, after) => ⟨bridge, event, sent, after⟩ :: history after events
    | .error _ => []

/-- A root advertises the time of `h` ticks. Whenever it stays root for `h` ticks one of them is
the time for hello BPDUs. -/
structure HelloTimes (h : ℕ) (bridge : STPModule numPorts) (events : List (STPEvent numPorts)) :
    Prop where
  advertised : ∀ b ∈ bridge :: (bridge.history events).map Occurrence.after,
    b.isRoot = true → b.currentHelloTime = h * tickInterval
  periodic : ∀ earlier window later, bridge.history events = earlier ++ window ++ later →
    (∀ o ∈ window, o.before.isRoot = true ∧ o.after.isRoot = true) →
    (window.countP fun o => o.event = .tick) = h →
    ∀ port, (window.flatMap Occurrence.helloPorts).count port = 1
  silent : ∀ o ∈ bridge.history events, o.event = .tick → o.before.isRoot = false →
    o.helloPorts = []

/-- A root advertises zero. Every tick is the time for hello BPDUs. -/
structure EveryTick (bridge : STPModule numPorts) (events : List (STPEvent numPorts)) : Prop where
  advertised : ∀ b ∈ bridge :: (bridge.history events).map Occurrence.after,
    b.isRoot = true → b.currentHelloTime = 0
  hello : ∀ o ∈ bridge.history events, o.event = .tick → o.before.isRoot = true →
    o.helloPorts = List.finRange numPorts
  silent : ∀ o ∈ bridge.history events, o.event = .tick → o.before.isRoot = false →
    o.helloPorts = []

section

variable {sent : List (Message numPorts)} {after bridge : STPModule numPorts}

/-- No tick has been counted, and a root has the time zero. -/
def NoHelloTime (bridge : STPModule numPorts) : Prop :=
  bridge.helloTime = 0 ∧ (bridge.isRoot = true → bridge.currentHelloTime = 0)

theorem selectRootPort_helloTime (bridge : STP numPorts) :
    bridge.selectRootPort.helloTime = bridge.helloTime ∧
      bridge.selectRootPort.isRoot = bridge.isRoot := by
  rw [STP.selectRootPort]
  split <;> exact ⟨rfl, rfl⟩

/-- A bridge that becomes root takes its count of ticks for the hello time. -/
theorem tryRoot_hello (bridge : STP numPorts) : bridge.tryRoot.helloTime = bridge.helloTime ∧
      (bridge.tryRoot.isRoot = true → bridge.tryRoot.currentHelloTime = bridge.helloTime) := by
  rw [STP.tryRoot]
  split_ifs
  · exact ⟨rfl, fun _ => rfl⟩
  · obtain ⟨htime, hroot⟩ := selectRootPort_helloTime { bridge with isRoot := false }
    exact ⟨htime, fun h => by simp [STP.selectDesignatedPorts, hroot] at h⟩

theorem NoHelloTime.tryRoot (h : bridge.helloTime = 0) : bridge.tryRoot.NoHelloTime := by
  obtain ⟨htime, hcurrent⟩ := tryRoot_hello bridge.toSTP
  exact ⟨htime.trans h, fun hroot => (hcurrent hroot).trans h⟩

theorem NoHelloTime.checkAge (h : bridge.NoHelloTime) (i : Fin numPorts) :
    (bridge.checkAge i).NoHelloTime := by
  rw [STPModule.checkAge]
  split_ifs
  · exact NoHelloTime.tryRoot h.1
  · exact h
  · exact h

theorem NoHelloTime.foldl_checkAge (h : bridge.NoHelloTime) (ports : List (Fin numPorts)) :
    (ports.foldl STPModule.checkAge bridge).NoHelloTime := by
  induction ports generalizing bridge with
  | nil => exact h
  | cons i ports ih => exact ih (h.checkAge i)

theorem NoHelloTime.checkParametersChange (h : bridge.NoHelloTime) :
    bridge.checkParametersChange.NoHelloTime := by
  have hset : (if bridge.isRoot then
      { bridge with
        currentHelloTime := bridge.helloTime
        currentMaxAge := bridge.maxAge
        currentFwdDelay := bridge.forwardDelay }
      else bridge).NoHelloTime := by
    split_ifs
    · exact ⟨h.1, fun _ => h.1⟩
    · exact h
  rw [STPModule.checkParametersChange]
  split_ifs at hset ⊢
  · exact ⟨hset.1, fun _ => hset.1⟩
  · exact hset
  · exact ⟨hset.1, fun _ => hset.1⟩
  · exact hset

theorem generateTCN_spec (h : bridge.generateTCN = .ok (sent, after)) :
    after.toSTP = bridge.toSTP ∧ sent.filterMap Message.configPort = [] := by
  rw [generateTCN] at h
  split_ifs at h
  · obtain ⟨port, -, h⟩ := bind_eq_ok.mp h
    split_ifs at h <;> cases h <;> exact ⟨rfl, rfl⟩
  · cases h
    exact ⟨rfl, rfl⟩

theorem NoHelloTime.of_toSTP_eq (h : bridge.NoHelloTime) (heq : after.toSTP = bridge.toSTP) :
    after.NoHelloTime := by
  rw [NoHelloTime, heq]
  exact h

/-- The hello BPDUs of a tick, and that the count of ticks is zero again. -/
theorem checkHelloTimer_spec (htime : bridge.helloTime = if bridge.isRoot then second else 0)
    (hcurrent : bridge.isRoot = true → bridge.currentHelloTime = 0) :
    bridge.checkHelloTimer.2.NoHelloTime ∧ bridge.checkHelloTimer.1.filterMap Message.configPort =
        if bridge.isRoot then List.finRange numPorts else [] := by
  rw [checkHelloTimer]
  by_cases hroot : bridge.isRoot = true
  · rw [if_pos hroot] at htime
    rw [if_pos (by rw [htime, hcurrent hroot]; decide), if_pos hroot, if_pos hroot]
    refine ⟨⟨rfl, hcurrent⟩, ?_⟩
    rw [generateHelloBDPUs, List.filterMap_map]
    exact List.filterMap_some
  · rw [if_neg hroot] at htime
    rw [if_neg hroot, if_neg hroot]
    split_ifs
    · exact ⟨⟨rfl, hcurrent⟩, rfl⟩
    · exact ⟨⟨htime, hcurrent⟩, rfl⟩

theorem handleTick_spec (h : bridge.NoHelloTime) (htick : bridge.handleTick = .ok (sent, after)) :
    after.NoHelloTime ∧ sent.filterMap Message.configPort =
      if bridge.isRoot then List.finRange numPorts else [] := by
  obtain ⟨⟨notified, last⟩, htcn, hafter⟩ := bind_eq_ok.mp htick
  clear htick
  cases hafter
  obtain ⟨hlast, hnotified⟩ := generateTCN_spec htcn
  rw [List.filterMap_append, hnotified, List.append_nil]
  have hcount : bridge.countTick.helloTime = if bridge.isRoot then second else 0 := by
    rw [countTick, h.1, Int.zero_add]
  obtain ⟨hchecked, hsent⟩ := checkHelloTimer_spec hcount h.2
  refine ⟨NoHelloTime.of_toSTP_eq (NoHelloTime.checkParametersChange ?_) hlast, hsent⟩
  exact hchecked.foldl_checkAge (List.finRange numPorts)

theorem isSuperiorBPDU_helloTime (bridge : STP numPorts) (arrivalGate : Fin numPorts)
    (bpdu : ConfigBPDU) :
    (bridge.isSuperiorBPDU arrivalGate bpdu).2.helloTime = bridge.helloTime := by
  have hset (bridge : STP numPorts) :
      (bridge.setSuperiorBPDU arrivalGate bpdu).helloTime = bridge.helloTime := by
    rw [STP.setSuperiorBPDU]
    split_ifs <;> rfl
  rw [STP.isSuperiorBPDU]
  split_ifs
  · rfl
  · exact hset _
  · exact hset bridge

theorem handleBPDU_spec (h : bridge.NoHelloTime) (arrivalGate : Fin numPorts) (bpdu : FlaggedBPDU) :
    (bridge.handleBPDU arrivalGate bpdu).2.NoHelloTime := by
  refine NoHelloTime.tryRoot ((isSuperiorBPDU_helloTime _ arrivalGate _).trans ?_)
  split_ifs <;> exact h.1

/-- What an event does about the hello time. -/
theorem handleMessage_spec {event : STPEvent numPorts} (h : bridge.NoHelloTime)
    (hstep : bridge.handleMessage event = .ok (sent, after)) :
    after.NoHelloTime ∧ (event = .tick → sent.filterMap Message.configPort =
      if bridge.isRoot then List.finRange numPorts else []) := by
  cases event with
  | tick =>
    obtain ⟨hafter, hsent⟩ := handleTick_spec h hstep
    exact ⟨hafter, fun _ => hsent⟩
  | config arrivalGate bpdu =>
    cases hstep
    exact ⟨handleBPDU_spec h arrivalGate bpdu, nofun⟩
  | tcn arrivalGate src =>
    cases hstep
    exact ⟨h, nofun⟩

theorem history_spec (h : bridge.NoHelloTime) (events : List (STPEvent numPorts)) :
    ∀ o ∈ bridge.history events, o.after.NoHelloTime ∧ (o.event = .tick →
      o.helloPorts = if o.before.isRoot then List.finRange numPorts else []) := by
  induction events generalizing bridge with
  | nil => simp [history]
  | cons event events ih =>
    rw [history]
    split
    · next sent after hstep =>
        obtain ⟨hafter, hsent⟩ := handleMessage_spec h hstep
        refine List.forall_mem_cons.mpr ⟨⟨hafter, fun htick => ?_⟩, ih hafter⟩
        rw [Occurrence.helloPorts, if_pos htick]
        exact hsent htick
    · simp

theorem everyTick_of_noHelloTime (h : bridge.NoHelloTime) (events : List (STPEvent numPorts)) :
    bridge.EveryTick events where
  advertised b hb hroot := by
    obtain rfl | hb := List.mem_cons.mp hb
    · exact h.2 hroot
    · obtain ⟨o, ho, rfl⟩ := List.mem_map.mp hb
      exact (history_spec h events o ho).1.2 hroot
  hello o ho htick hroot := by rw [(history_spec h events o ho).2 htick, if_pos hroot]
  silent o ho htick hroot := by
    rw [(history_spec h events o ho).2 htick, if_neg (by simp [hroot])]

end

theorem initPortTable_helloTime (bridge : STPModule numPorts) :
    bridge.initPortTable.helloTime = bridge.helloTime := by
  have hfold (l : List (Fin numPorts)) (bridge : STPModule numPorts) :
      (l.foldl initInterfacedata bridge).helloTime = bridge.helloTime := by
    induction l generalizing bridge with
    | nil => rfl
    | cons i l ih => exact ih (bridge.initInterfacedata i)
  exact hfold (List.finRange numPorts) bridge

theorem start_noHelloTime {bridge : STPModule numPorts} (h : bridge.helloTime = 0)
    (address : MACAddress) : (bridge.start address).NoHelloTime :=
  ⟨rfl, fun _ => (initPortTable_helloTime _).trans h⟩

/-- A bridge never has the hello time that is configured. It is root when it has been started,
and advertises zero. -/
theorem not_helloTimes (par : Parameters) (ports : Fin numPorts → STPInterfaceData)
    (address : MACAddress) (events : List (STPEvent numPorts)) {h : ℕ} (hpos : 0 < h) :
    ¬ ((initialized { par with helloTime := h * tickInterval } ports).start address).HelloTimes
        h events ∧
      ((initialized { par with helloTime := h * tickInterval } ports).start address).EveryTick
        events := by
  have hstart := @start_noHelloTime _
    (initialized { par with helloTime := h * tickInterval } ports) rfl address
  refine ⟨fun hmeets => ?_, everyTick_of_noHelloTime hstart events⟩
  have hadvertised := hmeets.advertised _ List.mem_cons_self rfl
  rw [hstart.2 rfl] at hadvertised
  exact (Int.mul_pos (Int.natCast_pos.mpr hpos) (by decide)).ne hadvertised

/-- The default values of the parameters. -/
def Parameters.default : Parameters where
  bridgePriority := 32768
  maxAge := 20 * second
  helloTime := 2 * second
  forwardDelay := 15 * second

/-- A bridge with one port. -/
def defaultBridge : STPModule 1 := (initialized .default fun _ => {}).start 1

theorem not_helloTimes_two :
    ¬ defaultBridge.HelloTimes 2 [.tick, .tick] ∧ defaultBridge.EveryTick [.tick, .tick] :=
  not_helloTimes .default (fun _ => {}) 1 [.tick, .tick] (by decide)

/-- Hello BPDUs are sent twice in two ticks, and with a hello time of zero. -/
theorem hello_defaultBridge :
    ¬ defaultBridge.HelloTimes 2 [.tick, .tick] ∧ defaultBridge.currentHelloTime = 0 ∧
      (defaultBridge.history [.tick, .tick]).flatMap Occurrence.helloPorts = [0, 0] := by
  refine ⟨fun h => ?_, rfl, rfl⟩
  exact absurd (h.advertised _ List.mem_cons_self rfl) (by decide)

end STPModule

end Inet.Ieee8021d
