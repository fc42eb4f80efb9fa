import Inet.Ospf.LinkStateUpdateHandler

/-!
# How link state updates are acknowledged

`Acknowledges` is what the table of RFC 2328 asks for after one LSA. The handler has a flag for a
newer instance and another one for an LSA without a database copy, and tests only the first one when
it acknowledges what it has installed. `Acknowledgeable` says when this makes no difference.
-/

namespace Inet.Ospf

section

variable {ω β : Type} (router : Router ω β) (lsaSource : RouterID) (external : Option β)
  (currentLSA : OSPFLSA β) (s : State ω)

def databaseCopy : Option (DatabaseLSA β) :=
  router.findLSA currentLSA.header.lsType currentLSA.header.lsaKey s.router

/-- The LSA is installed when its turn comes. -/
def Installs : Prop :=
  isProcessed router currentLSA s = true ∧ match databaseCopy router currentLSA s with
    | none => ¬ (currentLSA.header.reachedMaxAge = true ∧
        router.hasAnyNeighborInExchangeOrLoading s.router = false)
    | some copy => copy.header.isOlder currentLSA.header = true ∧ copy.isTooRecent = false

/-- The database has the same instance. -/
def IsDuplicate : Prop :=
  isProcessed router currentLSA s = true ∧ ∃ copy, databaseCopy router currentLSA s = some copy ∧
      copy.header.isSameInstance currentLSA.header = true

/-- The neighbour has acknowledged the LSA by sending it. -/
def ImpliedAcknowledgement : Prop :=
  (router.neighbor s.router).isLinkStateRequestListEmpty currentLSA.header.lsaKey = true

/-- What flooding says, and the state after installing. -/
def installation : Bool × ω :=
  let (floodedBackOut, _, r) :=
    floodAndInstall router external (databaseCopy router currentLSA s) currentLSA s
  (floodedBackOut, r)

/-- The queues for a delayed acknowledgement after installing. -/
def installedDestinations : List Inet.Ipv4.IPv4Address :=
  s.intf.delayedDestinations
    (router.neighboringRouters (installation router external currentLSA s).2)

/-- A backup router acknowledges only what comes from the designated one. -/
def BackupIsSilent : Prop :=
  s.intf.state = .BACKUP_STATE ∧ lsaSource ≠ s.intf.designatedRouter.routerID
deriving Decidable

structure Acknowledges (events : List Event) : Prop where
  floodedBackOut : Installs router currentLSA s →
    (installation router external currentLSA s).1 = true → events = []
  backup : Installs router currentLSA s → (installation router external currentLSA s).1 = false →
    BackupIsSilent lsaSource s → events = []
  delayed : Installs router currentLSA s →
    (installation router external currentLSA s).1 = false → ¬ BackupIsSilent lsaSource s →
    installedDestinations router external currentLSA s ≠ [] ∧
      events = [.delayedAcknowledgement (installedDestinations router external currentLSA s)
        currentLSA.header]
  duplicate : IsDuplicate router currentLSA s → ¬ ImpliedAcknowledgement router currentLSA s →
    ∃ destination, events = [.acknowledgement destination currentLSA.header]
  neither : ¬ Installs router currentLSA s → ¬ IsDuplicate router currentLSA s →
    (∃ e ∈ events, e.isAcknowledgement = true) →
    currentLSA.header.reachedMaxAge = true ∧ databaseCopy router currentLSA s = none

/-- An LSA that was flooded back out, an instance that replaces an older copy, or a backup router
that may be silent and has nothing else to acknowledge. -/
def InstalledAcknowledgeable : Prop :=
  (installation router external currentLSA s).1 = true ∨ (BackupIsSilent lsaSource s ∧
      (databaseCopy router currentLSA s = none → currentLSA.header.reachedMaxAge = false)) ∨
    (¬ BackupIsSilent lsaSource s ∧ databaseCopy router currentLSA s ≠ none ∧
      installedDestinations router external currentLSA s ≠ [])

/-- There is an address for a direct acknowledgement. -/
def SourceKnown : Prop :=
  s.intf.interfaceType = .BROADCAST ∨ s.intf.interfaceType = .POINTTOPOINT ∨
    ∃ neighbor ∈ router.neighboringRouters s.router, neighbor.neighborID = lsaSource

def DuplicateAcknowledgeable : Prop :=
  (router.neighbor s.router).isLSAOnRequestList currentLSA.header.lsaKey = false ∧
    SourceKnown router lsaSource s

structure Acknowledgeable : Prop where
  installed : Installs router currentLSA s →
    InstalledAcknowledgeable router lsaSource external currentLSA s
  duplicate : IsDuplicate router currentLSA s → ¬ ImpliedAcknowledgement router currentLSA s →
    DuplicateAcknowledgeable router lsaSource currentLSA s

end

section

variable {ω β : Type} {router : Router ω β} {lsaSource : RouterID} {external : Option β}
  {currentLSA : OSPFLSA β} {s : State ω} {copy : DatabaseLSA β} {events : List Event}

theorem sendDirectAcknowledgment_ok_iff (header : OSPFLSAHeader) :
    sendDirectAcknowledgment router lsaSource header s = .ok events ↔
      ∃ destination, s.intf.destination (sourceAddress router lsaSource s.router) =
        .ok destination ∧ events = [.acknowledgement destination header] := by
  rw [sendDirectAcknowledgment, bind_eq_ok]
  refine exists_congr fun destination => and_congr_right fun _ => ?_
  rw [Except.ok.injEq]
  exact eq_comm

theorem exists_destination_iff :
    (∃ destination, s.intf.destination (sourceAddress router lsaSource s.router) =
      .ok destination) ↔ SourceKnown router lsaSource s := by
  have hfind : (∃ destination, sourceAddress router lsaSource s.router = .ok destination) ↔
      ∃ neighbor ∈ router.neighboringRouters s.router, neighbor.neighborID = lsaSource := by
    unfold sourceAddress
    cases hf : (router.neighboringRouters s.router).find? (·.neighborID = lsaSource) with
    | none => simpa using List.find?_eq_none.mp hf
    | some neighbor =>
      refine iff_of_true ⟨_, rfl⟩ ⟨neighbor, List.mem_of_find?_eq_some hf, ?_⟩
      simpa using List.find?_some hf
  unfold SourceKnown Interface.destination
  cases s.intf.interfaceType <;> simp [hfind]

/-- When an older copy was replaced, the handler does what is required. -/
theorem acknowledgeLSA_newer {floodedBackOut : Bool} {r : ω}
    (hnewer : copy.header.isOlder currentLSA.header = true) :
    acknowledgeLSA router lsaSource currentLSA.header
      { initialFlags router (some copy) currentLSA s with floodedBackOut := floodedBackOut }
      { s with router := r } =
      .ok (if floodedBackOut = true ∨ BackupIsSilent lsaSource s then []
        else [.delayedAcknowledgement (s.intf.delayedDestinations (router.neighboringRouters r))
          currentLSA.header]) := by
  have hsame := OSPFLSAHeader.isSameInstance_of_isOlder hnewer
  unfold acknowledgeLSA initialFlags BackupIsSilent
  cases floodedBackOut <;> by_cases hbackup : s.intf.state = .BACKUP_STATE <;>
    by_cases hsource : lsaSource = s.intf.designatedRouter.routerID <;>
    simp [hnewer, hsame, hbackup, hsource]

/-- Without a copy there is at most a direct acknowledgement. -/
theorem acknowledgeLSA_new {floodedBackOut : Bool} {r : ω} :
    acknowledgeLSA router lsaSource currentLSA.header
      { initialFlags router none currentLSA s with floodedBackOut := floodedBackOut }
      { s with router := r } =
      if floodedBackOut = false ∧ currentLSA.header.reachedMaxAge = true ∧
          router.hasAnyNeighborInExchangeOrLoading s.router = true then
        sendDirectAcknowledgment router lsaSource currentLSA.header { s with router := r }
      else .ok [] := by
  unfold acknowledgeLSA initialFlags
  cases floodedBackOut <;> by_cases hbackup : s.intf.state = .BACKUP_STATE <;>
    cases hage : currentLSA.header.reachedMaxAge <;>
    cases hany : router.hasAnyNeighborInExchangeOrLoading s.router <;>
    simp [hbackup]

theorem Installs.not_isDuplicate (h : Installs router currentLSA s) :
    ¬ IsDuplicate router currentLSA s := by
  rintro ⟨-, copy, hcopy, hsame⟩
  have hinstalls := h.2
  rw [hcopy] at hinstalls
  rw [OSPFLSAHeader.isSameInstance_of_isOlder hinstalls.1] at hsame
  cases hsame

/-- Running a branch and looking at its events. -/
def EndsWith (result : Result (Processed ω)) (post : List Event → Prop) : Prop :=
  ∃ p, result = .ok p ∧ post p.events

theorem endsWith_ok {p : Processed ω} {post : List Event → Prop} :
    EndsWith (.ok p) post ↔ post p.events := by
  simp [EndsWith]

theorem installAndAcknowledge_endsWith {post : List Event → Prop} :
    EndsWith (installAndAcknowledge router lsaSource external (databaseCopy router currentLSA s)
      currentLSA s) post ↔
      ∃ events, acknowledgeLSA router lsaSource currentLSA.header
        { initialFlags router (databaseCopy router currentLSA s) currentLSA s with
          floodedBackOut := (installation router external currentLSA s).1 }
        { s with router := (installation router external currentLSA s).2 } = .ok events ∧
          post events := by
  unfold EndsWith installAndAcknowledge
  constructor
  · rintro ⟨p, hrun, hpost⟩
    obtain ⟨events, hevents, hp⟩ := bind_eq_ok.mp hrun
    cases hp
    exact ⟨events, hevents, hpost⟩
  · rintro ⟨events, hevents, hpost⟩
    exact ⟨_, bind_eq_ok.mpr ⟨events, hevents, rfl⟩, hpost⟩

/-- For an installed LSA three of the five requirements are left. -/
theorem acknowledges_installed_iff (h : Installs router currentLSA s) :
    Acknowledges router lsaSource external currentLSA s events ↔
      if (installation router external currentLSA s).1 = true ∨ BackupIsSilent lsaSource s then
        events = []
      else installedDestinations router external currentLSA s ≠ [] ∧
        events = [.delayedAcknowledgement (installedDestinations router external currentLSA s)
          currentLSA.header] := by
  constructor
  · intro hacks
    split
    · next hor =>
        cases hflood : (installation router external currentLSA s).1 with
        | true => exact hacks.floodedBackOut h hflood
        | false => exact hacks.backup h hflood (hor.resolve_left (by rw [hflood]; decide))
    · next hor =>
        have hflood := eq_false_of_ne_true (not_or.mp hor).1
        exact hacks.delayed h hflood (not_or.mp hor).2
  · intro hevents
    refine ⟨fun _ hflood => ?_, fun _ _ hsilent => ?_, fun _ hflood hloud => ?_,
      fun hdup => absurd hdup h.not_isDuplicate, fun hnot => absurd h hnot⟩
    · rwa [if_pos (.inl hflood)] at hevents
    · rwa [if_pos (.inr hsilent)] at hevents
    · rwa [if_neg (not_or.mpr ⟨by rw [hflood]; decide, hloud⟩)] at hevents

variable (lsaSource external) in
/-- The branches that install. -/
theorem installAndAcknowledge_iff (h : Installs router currentLSA s) :
    EndsWith (installAndAcknowledge router lsaSource external (databaseCopy router currentLSA s)
      currentLSA s) (Acknowledges router lsaSource external currentLSA s) ↔
      InstalledAcknowledgeable router lsaSource external currentLSA s := by
  rw [installAndAcknowledge_endsWith]
  simp only [acknowledges_installed_iff h]
  have hinstalls := h.2
  cases hcopy : databaseCopy router currentLSA s with
  | some copy =>
    rw [hcopy] at hinstalls
    rw [acknowledgeLSA_newer hinstalls.1]
    unfold InstalledAcknowledgeable
    rw [hcopy]
    by_cases hflood : (installation router external currentLSA s).1 = true <;>
      by_cases hsilent : BackupIsSilent lsaSource s <;>
      simp [hflood, hsilent, installedDestinations]
  | none =>
    rw [hcopy] at hinstalls
    rw [acknowledgeLSA_new]
    unfold InstalledAcknowledgeable
    rw [hcopy]
    by_cases hflood : (installation router external currentLSA s).1 = true
    · simp [hflood]
    · by_cases hsilent : BackupIsSilent lsaSource s <;>
        cases hage : currentLSA.header.reachedMaxAge <;>
        cases hany : router.hasAnyNeighborInExchangeOrLoading s.router <;>
        simp [hflood, hsilent, hage, hany, sendDirectAcknowledgment_ok_iff] at hinstalls ⊢

theorem acknowledges_of_not_installs (h : ¬ Installs router currentLSA s) :
    Acknowledges router lsaSource external currentLSA s events ↔
      (IsDuplicate router currentLSA s → ¬ ImpliedAcknowledgement router currentLSA s →
        ∃ destination, events = [.acknowledgement destination currentLSA.header]) ∧
      (¬ IsDuplicate router currentLSA s → (∃ e ∈ events, e.isAcknowledgement = true) →
        currentLSA.header.reachedMaxAge = true ∧ databaseCopy router currentLSA s = none) := by
  refine ⟨fun hacks => ⟨hacks.duplicate, hacks.neither h⟩, fun ⟨hdup, hneither⟩ => ?_⟩
  exact ⟨fun hi => absurd hi h, fun hi => absurd hi h, fun hi => absurd hi h, hdup,
    fun _ => hneither⟩

theorem acknowledgeable_of_not_isDuplicate (h : ¬ Installs router currentLSA s)
    (hdup : ¬ IsDuplicate router currentLSA s) :
    Acknowledgeable router lsaSource external currentLSA s :=
  ⟨fun hi => absurd hi h, fun hd => absurd hd hdup⟩

theorem acknowledgeable_of_installs (h : Installs router currentLSA s) :
    Acknowledgeable router lsaSource external currentLSA s ↔
      InstalledAcknowledgeable router lsaSource external currentLSA s :=
  ⟨fun hack => hack.installed h, fun hi => ⟨fun _ => hi, fun hd => absurd hd h.not_isDuplicate⟩⟩

theorem not_isDuplicate_of_none (hcopy : databaseCopy router currentLSA s = none) :
    ¬ IsDuplicate router currentLSA s := by
  rintro ⟨-, copy, hcopy', -⟩
  rw [hcopy] at hcopy'
  cases hcopy'

/-- A turn without an acknowledgement, for an LSA that needs none. -/
theorem acknowledges_of_quiet (h : ¬ Installs router currentLSA s)
    (hdup : ¬ IsDuplicate router currentLSA s)
    (hquiet : ∀ e ∈ events, e.isAcknowledgement = false) :
    Acknowledges router lsaSource external currentLSA s events := by
  refine (acknowledges_of_not_installs h).mpr ⟨fun hd => absurd hd hdup, fun _ ⟨e, he, hack⟩ => ?_⟩
  rw [hquiet e he] at hack
  cases hack

theorem exists_destination (intf : Interface) (address : Inet.Ipv4.IPv4Address) :
    ∃ destination, intf.destination (.ok address) = .ok destination := by
  unfold Interface.destination
  cases intf.interfaceType <;> exact ⟨_, rfl⟩

/-- An implied acknowledgement of a duplicate is no direct one. -/
theorem acknowledgeLSA_implied (lsaSource : RouterID) (r : ω)
    (hold : copy.header.isOlder currentLSA.header = false)
    (hsame : copy.header.isSameInstance currentLSA.header = true) :
    ∃ events, acknowledgeLSA router lsaSource currentLSA.header
      { initialFlags router (some copy) currentLSA s with impliedAcknowledgement := true }
      { s with router := r } = .ok events := by
  unfold acknowledgeLSA initialFlags
  by_cases hbackup : s.intf.state = .BACKUP_STATE <;> simp [hold, hsame, hbackup]

section

variable {copy : DatabaseLSA β}

theorem not_installs_of_copy (hcopy : databaseCopy router currentLSA s = some copy)
    (hold : copy.header.isOlder currentLSA.header = false) : ¬ Installs router currentLSA s := by
  rintro ⟨-, h⟩
  rw [hcopy] at h
  rw [h.1] at hold
  cases hold

theorem isDuplicate_iff_of_copy (hprocessed : isProcessed router currentLSA s = true)
    (hcopy : databaseCopy router currentLSA s = some copy) :
    IsDuplicate router currentLSA s ↔ copy.header.isSameInstance currentLSA.header = true := by
  constructor
  · rintro ⟨-, copy', hcopy', hsame⟩
    rw [hcopy] at hcopy'
    cases hcopy'
    exact hsame
  · exact fun hsame => ⟨hprocessed, copy, hcopy, hsame⟩

/-- On the request list the LSA is an error, and nothing is sent. -/
theorem requested_iff (hnot : ¬ Installs router currentLSA s) (hrequest :
      (router.neighbor s.router).isLSAOnRequestList currentLSA.header.lsaKey = true) :
    Acknowledges router lsaSource external currentLSA s [] ↔
      Acknowledgeable router lsaSource external currentLSA s := by
  rw [acknowledges_of_not_installs hnot]
  constructor
  · rintro ⟨hd, -⟩
    refine ⟨fun hi => absurd hi hnot, fun hsame himplied => ?_⟩
    obtain ⟨destination, hevents⟩ := hd hsame himplied
    cases hevents
  · intro hack
    refine ⟨fun hsame himplied => ?_, fun _ ⟨e, he, _⟩ => by cases he⟩
    have := (hack.duplicate hsame himplied).1
    rw [hrequest] at this
    cases this

/-- A duplicate that is no implied acknowledgement. -/
theorem direct_iff {p : List Event → Processed ω} (hp : ∀ events, (p events).events = events)
    (hnot : ¬ Installs router currentLSA s) (hdup : IsDuplicate router currentLSA s)
    (himplied : ¬ ImpliedAcknowledgement router currentLSA s)
    (hrequest : (router.neighbor s.router).isLSAOnRequestList currentLSA.header.lsaKey = false) :
    EndsWith (do
        let events ← sendDirectAcknowledgment router lsaSource currentLSA.header s
        .ok (p events)) (Acknowledges router lsaSource external currentLSA s) ↔
      Acknowledgeable router lsaSource external currentLSA s := by
  constructor
  · rintro ⟨q, hq, -⟩
    obtain ⟨events, hevents, -⟩ := bind_eq_ok.mp hq
    obtain ⟨destination, hdestination, -⟩ := (sendDirectAcknowledgment_ok_iff _).mp hevents
    exact ⟨fun hi => absurd hi hnot, fun _ _ =>
      ⟨hrequest, exists_destination_iff.mp ⟨destination, hdestination⟩⟩⟩
  · intro hack
    obtain ⟨destination, hdestination⟩ :=
      exists_destination_iff.mpr (hack.duplicate hdup himplied).2
    have hevents := (sendDirectAcknowledgment_ok_iff currentLSA.header).mpr
      ⟨destination, hdestination, rfl⟩
    rw [hevents, ok_bind, endsWith_ok, hp, acknowledges_of_not_installs hnot]
    exact ⟨fun _ _ => ⟨destination, rfl⟩, fun hno => absurd hdup hno⟩

theorem duplicate_iff (hnot : ¬ Installs router currentLSA s)
    (hdup : IsDuplicate router currentLSA s)
    (hold : copy.header.isOlder currentLSA.header = false)
    (hsame : copy.header.isSameInstance currentLSA.header = true)
    (hrequest : (router.neighbor s.router).isLSAOnRequestList currentLSA.header.lsaKey = false) :
    EndsWith (processDuplicate router lsaSource copy currentLSA s)
        (Acknowledges router lsaSource external currentLSA s) ↔
      Acknowledgeable router lsaSource external currentLSA s := by
  unfold processDuplicate
  dsimp only
  cases himplied : (router.neighbor s.router).isLinkStateRequestListEmpty
      currentLSA.header.lsaKey with
  | true =>
    have hyes : ImpliedAcknowledgement router currentLSA s := himplied
    obtain ⟨events, hevents⟩ := @acknowledgeLSA_implied _ _ router _ s copy lsaSource
      (router.updateNeighbor (·.removeFromRetransmissionList currentLSA.header.lsaKey) s.router)
      hold hsame
    refine iff_of_true ?_ ⟨fun hi => absurd hi hnot, fun _ hno => absurd hyes hno⟩
    rw [if_pos rfl, hevents, ok_bind]
    exact endsWith_ok.mpr ((acknowledges_of_not_installs hnot).mpr
      ⟨fun _ hno => absurd hyes hno, fun hno => absurd hdup hno⟩)
  | false =>
    have hno : ¬ ImpliedAcknowledgement router currentLSA s := by
      rw [ImpliedAcknowledgement, himplied]
      decide
    have hdirect : acknowledgeLSA router lsaSource currentLSA.header
        (initialFlags router (some copy) currentLSA s) s =
        sendDirectAcknowledgment router lsaSource currentLSA.header s := by
      unfold acknowledgeLSA initialFlags
      by_cases hbackup : s.intf.state = .BACKUP_STATE <;> simp [hold, hsame, hbackup]
    rw [if_neg Bool.false_ne_true]
    change EndsWith (do
      let events ← acknowledgeLSA router lsaSource currentLSA.header
        (initialFlags router (some copy) currentLSA s) s
      .ok { state := s, events := events }) _ ↔ _
    rw [hdirect]
    exact direct_iff (fun _ => rfl) hnot hdup hno hrequest

theorem processOldLSA_iff (hprocessed : isProcessed router currentLSA s = true)
    (hcopy : databaseCopy router currentLSA s = some copy)
    (hold : copy.header.isOlder currentLSA.header = false) :
    EndsWith (processOldLSA router lsaSource copy currentLSA s)
        (Acknowledges router lsaSource external currentLSA s) ↔
      Acknowledgeable router lsaSource external currentLSA s := by
  have hnot := not_installs_of_copy hcopy hold
  have hdup := isDuplicate_iff_of_copy hprocessed hcopy
  unfold processOldLSA
  dsimp only
  split
  · next hrequest => exact endsWith_ok.trans (requested_iff hnot hrequest)
  · next hrequest =>
      split
      · next hsame =>
          exact duplicate_iff hnot (hdup.mpr hsame) hold hsame (eq_false_of_ne_true hrequest)
      · next hsame =>
          -- an older instance: at most the database copy is sent back
          have hnodup : ¬ IsDuplicate router currentLSA s := mt hdup.mp hsame
          refine iff_of_true ?_ (acknowledgeable_of_not_isDuplicate hnot hnodup)
          split
          · exact endsWith_ok.mpr (acknowledges_of_quiet hnot hnodup (by simp))
          split
          · exact endsWith_ok.mpr (acknowledges_of_quiet hnot hnodup (by simp))
          · obtain ⟨destination, hdestination⟩ :=
              exists_destination s.intf (router.neighbor s.router).address
            rw [hdestination, ok_bind]
            exact endsWith_ok.mpr
              (acknowledges_of_quiet hnot hnodup (by simp [Event.isAcknowledgement]))

end

/-- An old LSA without a copy is acknowledged at once. -/
theorem unknownMaxAge_endsWith (hnot : ¬ Installs router currentLSA s)
    (hcopy : databaseCopy router currentLSA s = none)
    (hage : currentLSA.header.reachedMaxAge = true) :
    EndsWith (do
        let destination ← s.intf.destination (.ok (router.neighbor s.router).address)
        .ok { state := s, events := [.acknowledgement destination currentLSA.header] })
      (Acknowledges router lsaSource external currentLSA s) := by
  have hnodup : ¬ IsDuplicate router currentLSA s := not_isDuplicate_of_none hcopy
  obtain ⟨destination, hdestination⟩ :=
    exists_destination s.intf (router.neighbor s.router).address
  rw [hdestination, ok_bind]
  exact endsWith_ok.mpr ((acknowledges_of_not_installs hnot).mpr
    ⟨fun hdup => absurd hdup hnodup, fun _ _ => ⟨hage, hcopy⟩⟩)

/-- One turn of the loop. -/
theorem processLSA_iff : EndsWith (processLSA router lsaSource external currentLSA s)
        (Acknowledges router lsaSource external currentLSA s) ↔
      Acknowledgeable router lsaSource external currentLSA s := by
  unfold processLSA
  dsimp only
  split
  · next hskip =>
      have hskip : isProcessed router currentLSA s = false := by simpa using hskip
      have hnot : ¬ Installs router currentLSA s := fun h => by
        rw [h.1] at hskip
        cases hskip
      have hnodup : ¬ IsDuplicate router currentLSA s := fun h => by
        rw [h.1] at hskip
        cases hskip
      exact iff_of_true (endsWith_ok.mpr (acknowledges_of_quiet hnot hnodup (by simp)))
        (acknowledgeable_of_not_isDuplicate hnot hnodup)
  · next hprocessed =>
      have hprocessed : isProcessed router currentLSA s = true := by simpa using hprocessed
      change EndsWith (match databaseCopy router currentLSA s with
        | none => _
        | some lsaInDatabase => _) _ ↔ _
      cases hcopy : databaseCopy router currentLSA s with
      | none =>
        dsimp only
        split
        · next hdead =>
            simp only [Bool.and_eq_true, Bool.not_eq_true'] at hdead
            have hnot : ¬ Installs router currentLSA s := fun ⟨_, h⟩ => by
              rw [hcopy] at h
              exact h hdead
            exact iff_of_true (unknownMaxAge_endsWith hnot hcopy hdead.1)
              (acknowledgeable_of_not_isDuplicate hnot (not_isDuplicate_of_none hcopy))
        · next halive =>
            simp only [Bool.and_eq_true, Bool.not_eq_true'] at halive
            have hinstalls : Installs router currentLSA s := ⟨hprocessed, by rwa [hcopy]⟩
            have hiff := installAndAcknowledge_iff lsaSource external hinstalls
            rw [hcopy] at hiff
            exact hiff.trans (acknowledgeable_of_installs hinstalls).symm
      | some copy =>
        dsimp only
        split
        · next hnewer =>
            split
            · next hrecent =>
                have hnot : ¬ Installs router currentLSA s := fun ⟨_, h⟩ => by
                  rw [hcopy] at h
                  rw [h.2] at hrecent
                  cases hrecent
                have hnodup : ¬ IsDuplicate router currentLSA s := by
                  rw [isDuplicate_iff_of_copy hprocessed hcopy,
                    OSPFLSAHeader.isSameInstance_of_isOlder hnewer]
                  decide
                exact iff_of_true (endsWith_ok.mpr (acknowledges_of_quiet hnot hnodup (by simp)))
                  (acknowledgeable_of_not_isDuplicate hnot hnodup)
            · next hrecent =>
                have hinstalls : Installs router currentLSA s := by
                  refine ⟨hprocessed, ?_⟩
                  rw [hcopy]
                  exact ⟨hnewer, eq_false_of_ne_true hrecent⟩
                have hiff := installAndAcknowledge_iff lsaSource external hinstalls
                rw [hcopy] at hiff
                exact hiff.trans (acknowledgeable_of_installs hinstalls).symm
        · next hold =>
            exact processOldLSA_iff hprocessed hcopy (eq_false_of_ne_true hold)

end

section

variable {ω β : Type} (router : Router ω β) (lsaSource : RouterID)

def Turn.Acknowledged (t : Turn ω β) : Prop :=
  Acknowledges router lsaSource t.external t.currentLSA t.before t.events

/-- Every LSA is acknowledgeable when its turn comes. -/
def AllAcknowledgeable (external : Option β) : List (OSPFLSA β) → State ω → Prop
  | [], _ => True
  | currentLSA :: lsas, s =>
    Acknowledgeable router lsaSource external currentLSA s ∧
      ∀ p, processLSA router lsaSource external currentLSA s = .ok p → p.leaveLoop = false →
        AllAcknowledgeable external lsas p.state

def ArraysAcknowledgeable : List (Option β × List (OSPFLSA β)) → State ω → Prop
  | [], _ => True
  | (external, lsas) :: arrays, s =>
    AllAcknowledgeable router lsaSource external lsas s ∧
      ∀ first, processLSAs router lsaSource external lsas s = .ok first →
        ArraysAcknowledgeable arrays first.state

def PacketAcknowledgeable (packet : OSPFLinkStateUpdatePacket β) (s : State ω) : Prop :=
  (router.neighbor s.router).state.atLeastExchange = true →
    ArraysAcknowledgeable router packet.routerID packet.arrays s

/-- The packet is processed, and every LSA in it is acknowledged as required. -/
def AcknowledgesPacket (packet : OSPFLinkStateUpdatePacket β) (s : State ω) : Prop :=
  ∃ turns s', processPacket router packet s = .ok (turns, s') ∧
    ∀ t ∈ turns, t.Acknowledged router packet.routerID

variable {router lsaSource}

theorem processLSAs_iff {external : Option β} {lsas : List (OSPFLSA β)} {s : State ω} :
    (∃ result, processLSAs router lsaSource external lsas s = .ok result ∧
      ∀ t ∈ result.turns, t.Acknowledged router lsaSource) ↔
      AllAcknowledgeable router lsaSource external lsas s := by
  induction lsas generalizing s with
  | nil => exact iff_of_true ⟨_, rfl, fun t ht => by cases ht⟩ trivial
  | cons currentLSA lsas ih =>
    rw [AllAcknowledgeable, ← processLSA_iff]
    constructor
    · rintro ⟨result, hrun, hturns⟩
      rw [processLSAs] at hrun
      obtain ⟨p, hp, hrest⟩ := bind_eq_ok.mp hrun
      split at hrest
      · next hleave =>
          cases hrest
          refine ⟨⟨p, hp, hturns _ List.mem_cons_self⟩, fun p' hp' hstay => ?_⟩
          cases hp.symm.trans hp'
          rw [hleave] at hstay
          cases hstay
      · obtain ⟨rest, hloop, hresult⟩ := bind_eq_ok.mp hrest
        cases hresult
        refine ⟨⟨p, hp, hturns _ List.mem_cons_self⟩, fun p' hp' _ => ?_⟩
        cases hp.symm.trans hp'
        exact ih.mp ⟨rest, hloop, fun t ht => hturns t (List.mem_cons_of_mem _ ht)⟩
    · rintro ⟨⟨p, hp, hack⟩, hrest⟩
      rw [processLSAs, hp, ok_bind]
      split
      · exact ⟨_, rfl, fun t ht => by cases List.mem_singleton.mp ht; exact hack⟩
      · next hstay =>
          obtain ⟨rest, hloop, hturns⟩ := ih.mpr (hrest p hp (eq_false_of_ne_true hstay))
          rw [hloop, ok_bind]
          refine ⟨_, rfl, fun t ht => ?_⟩
          rcases List.mem_cons.mp ht with rfl | ht
          · exact hack
          · exact hturns t ht

theorem processArrays_iff {arrays : List (Option β × List (OSPFLSA β))} {s : State ω} :
    (∃ result, processArrays router lsaSource arrays s = .ok result ∧
      ∀ t ∈ result.turns, t.Acknowledged router lsaSource) ↔
      ArraysAcknowledgeable router lsaSource arrays s := by
  induction arrays generalizing s with
  | nil => exact iff_of_true ⟨_, rfl, fun t ht => by cases ht⟩ trivial
  | cons array arrays ih =>
    obtain ⟨external, lsas⟩ := array
    rw [ArraysAcknowledgeable, ← processLSAs_iff]
    constructor
    · rintro ⟨result, hrun, hturns⟩
      rw [processArrays] at hrun
      obtain ⟨first, hfirst, hrest⟩ := bind_eq_ok.mp hrun
      obtain ⟨rest, hloop, hresult⟩ := bind_eq_ok.mp hrest
      cases hresult
      refine ⟨⟨first, hfirst, fun t ht => hturns t (List.mem_append_left _ ht)⟩,
        fun first' hfirst' => ?_⟩
      cases hfirst.symm.trans hfirst'
      exact ih.mp ⟨rest, hloop, fun t ht => hturns t (List.mem_append_right _ ht)⟩
    · rintro ⟨⟨first, hfirst, hturns⟩, hrest⟩
      obtain ⟨rest, hloop, hturns'⟩ := ih.mpr (hrest first hfirst)
      rw [processArrays, hfirst, ok_bind, hloop, ok_bind]
      refine ⟨_, rfl, fun t ht => ?_⟩
      rcases List.mem_append.mp ht with ht | ht
      · exact hturns t ht
      · exact hturns' t ht

/-- A packet is acknowledged as required exactly when every LSA is acknowledgeable in its turn. -/
theorem processPacket_acknowledges_iff (packet : OSPFLinkStateUpdatePacket β) (s : State ω) :
    AcknowledgesPacket router packet s ↔ PacketAcknowledgeable router packet s := by
  unfold AcknowledgesPacket PacketAcknowledgeable
  rw [← processArrays_iff]
  cases hstate : (router.neighbor s.router).state.atLeastExchange with
  | false =>
    refine iff_of_true ⟨[], s, ?_, fun t ht => by cases ht⟩ (fun h => by cases h)
    rw [processPacket, hstate, if_neg Bool.false_ne_true]
  | true =>
    constructor
    · rintro ⟨turns, s', hrun, hturns⟩ -
      rw [processPacket, hstate, if_pos rfl] at hrun
      obtain ⟨result, hresult, hend⟩ := Result.bind_eq_ok.mp hrun
      refine ⟨result, hresult, ?_⟩
      split at hend <;>
      · cases hend
        exact hturns
    · intro h
      obtain ⟨result, hresult, hturns⟩ := h rfl
      rw [processPacket, hstate, if_pos rfl, hresult, Result.ok_bind]
      split
      · exact ⟨_, _, rfl, hturns⟩
      · exact ⟨_, _, rfl, hturns⟩

end

/-- A router whose only interface leads to one neighbour. Flooding what came from there reaches
nobody, and the router's own LSAs go to that neighbour. -/
structure Link where
  neighbor : Neighbor
  database : List (DatabaseLSA Unit) := []

def linkRouter : Router Link Unit where
  routerID := 0x0A000001
  neighboringRouters s := [s.neighbor]
  neighbor s := s.neighbor
  updateNeighbor f s := { s with neighbor := f s.neighbor }
  findLSA lsaType lsaKey s :=
    s.database.find? fun lsa => lsa.header.lsType == lsaType && lsa.header.lsaKey == lsaKey
  externalRoutingCapability _ := true
  hasAnyNeighborInExchangeOrLoading s :=
    s.neighbor.state == .EXCHANGE || s.neighbor.state == .LOADING
  isLocalAddress address _ := address == 0x0A000001
  floodLSA lsa fromNeighbor s :=
    match fromNeighbor with
    | some _ => (false, s)
    | none => (false, { s with neighbor := { s.neighbor with
        linkStateRetransmissionList := s.neighbor.linkStateRetransmissionList ++
          [lsa.header.lsaKey] } })
  removeFromAllRetransmissionLists lsaKey s :=
    { s with neighbor := s.neighbor.removeFromRetransmissionList lsaKey }
  installLSA lsa s :=
    (true, { s with database := { lsa with source := .FLOODED, installTime := 0 } ::
      s.database.filter fun copy => !(copy.header.lsType == lsa.header.lsType &&
        copy.header.lsaKey == lsa.header.lsaKey) })
  learnedByBGP _ := false
  addExternalRouteInIPTable _ _ s := s
  floodDatabaseCopy lsaType lsaKey change s :=
    { s with database := s.database.map fun lsa =>
        if lsa.header.lsType == lsaType && lsa.header.lsaKey == lsaKey then
          { lsa with header := change lsa.header }
        else lsa }
  badLinkStateRequest intf s :=
    (intf, { s with neighbor := ⟨s.neighbor.neighborID, s.neighbor.address, .EXCHANGE_START, [], [],
      []⟩ })
  rebuildRoutingTable s := s

/-- The neighbour is fully adjacent over a point-to-point link. -/
def linkState : State Link where
  intf := ⟨.POINTTOPOINT, .POINTTOPOINT_STATE, NULL_DESIGNATEDROUTERID⟩
  router := { neighbor := ⟨0x0A000002, 0xC0A80002, .FULL, [], [], []⟩ }

/-- The router LSA of a third router, which is not in the database. -/
def newLSA : OSPFLSA Unit := ⟨⟨1, ROUTERLSA_TYPE, 0x0A000003, 0x0A000003, -2147483647⟩, ()⟩

def newLSAPacket : OSPFLinkStateUpdatePacket Unit where
  routerID := 0x0A000002
  routerLSAs := [newLSA]

theorem newLSA_installs : Installs linkRouter newLSA linkState :=
  ⟨by decide, fun h => absurd h.1 (by decide)⟩

/-- The new LSA is installed, but never acknowledged. -/
theorem not_acknowledgesPacket_newLSA : ¬ AcknowledgesPacket linkRouter newLSAPacket linkState := by
  rintro ⟨turns, s', hrun, hturns⟩
  have hevents : turns = [⟨none, newLSA, linkState, []⟩] := by
    cases hrun
    rfl
  subst hevents
  have hack := hturns _ List.mem_cons_self
  have hdelayed := (hack.delayed newLSA_installs rfl (by decide)).2
  cases hdelayed

end Inet.Ospf
