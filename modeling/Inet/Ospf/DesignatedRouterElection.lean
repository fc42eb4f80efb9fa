import Inet.Ospf.DesignatedRouter

/-!
# The election of the designated router

RFC 2328 describes the election in section 9.4. The candidates are the eligible routers, the
router itself last. The backup is the best candidate that declares itself the backup, or the best
one if none does, where those that declare themselves the designated router are left out; the
designated router is the best candidate that declares itself so, or the backup if none does.

The code follows it except that the router itself has to take part in the election of the backup
for the best candidate to be found when none declares itself the backup
(`calculateDesignatedRouter_iff`).
-/

namespace Inet.Ospf.Election

open List

/-! ## The election of the RFC -/

structure Candidate where
  priority : ℕ
  routerID : RouterID
  declaresDesignated : Bool
  declaresBackup : Bool

/-- Candidates are compared by priority, and by ID if they have the same. -/
def Candidate.rank (c : Candidate) : ℕ ×ₗ ℕ := toLex (c.priority, c.routerID.toNat)

/-- The IDs of the routers elected. -/
structure Elected where
  designated : Option RouterID
  backup : Option RouterID
deriving DecidableEq

section

variable (cs : List Candidate)

def best : Option Candidate := cs.argmax Candidate.rank

def designatedOnes : List Candidate := cs.filter fun c => c.declaresDesignated

def otherOnes : List Candidate := cs.filter fun c => !c.declaresDesignated

def backups : List Candidate := (otherOnes cs).filter fun c => c.declaresBackup

/-- Step 2. -/
def electBackup : Option Candidate := (best (backups cs)).or (best (otherOnes cs))

/-- Step 3, with the backup of step 2. -/
def electDesignated (backup : Option Candidate) : Option Candidate :=
  (best (designatedOnes cs)).or backup

/-- What is elected with a given backup. -/
def electedWith (backup : Option Candidate) : Elected :=
  ⟨(electDesignated cs backup).map Candidate.routerID, backup.map Candidate.routerID⟩

def elect : Elected := electedWith cs (electBackup cs)

end

/-- What the router itself is or declares to be. -/
@[ext]
structure Roles where
  designated : Bool
  backup : Bool
deriving DecidableEq

def Elected.roles (e : Elected) (routerID : RouterID) : Roles :=
  ⟨decide (e.designated = some routerID), decide (e.backup = some routerID)⟩

def Candidate.ofNeighbor (n : Neighbor) : Candidate :=
  ⟨n.priority, n.neighborID, decide (n.designatedRouter.routerID = n.neighborID),
    decide (n.backupDesignatedRouter.routerID = n.neighborID)⟩

/-- A neighbour that takes part. -/
def IsEligible (n : Neighbor) : Bool := !isBelowTwoWay n.state && decide (n.priority ≠ 0)

def eligible (ns : List Neighbor) : List Candidate :=
  (ns.filter IsEligible).map Candidate.ofNeighbor

namespace Interface

variable (intf : Interface)

def selfCandidate (roles : Roles) : Candidate :=
  ⟨intf.routerPriority, intf.routerID, roles.designated, roles.backup⟩

/-- The eligible routers. -/
def candidates (roles : Roles) : List Candidate :=
  eligible intf.neighboringRouters ++
    if 0 < intf.routerPriority then [intf.selfCandidate roles] else []

/-- Steps 2 to 4: the election is repeated if the role of the router itself changes. -/
def electFrom (roles : Roles) : Elected :=
  let elected := elect (intf.candidates roles)
  if elected.roles intf.routerID ≠ roles then
    elect (intf.candidates (elected.roles intf.routerID))
  else elected

/-- What the router itself declares when it has recorded the routers. -/
def rolesOf (current : Routers) : Roles :=
  ⟨decide (current.designatedRouter.routerID = intf.routerID),
    decide (current.backupRouter.routerID = intf.routerID)⟩

/-- The election of section 9.4. -/
def election : Elected :=
  intf.electFrom (intf.rolesOf ⟨intf.designatedRouter, intf.backupDesignatedRouter⟩)

end Interface

/-- The ID of a router that has been recorded, if it is one. -/
def recorded (router : DesignatedRouterID) : Option RouterID :=
  if router.routerID = NULL_ROUTERID then none else some router.routerID

def Routers.recorded (routers : Routers) : Elected :=
  ⟨Election.recorded routers.designatedRouter, Election.recorded routers.backupRouter⟩

/-! ## The best of a list -/

section

variable {cs : List Candidate} {c d : Candidate} {b new : Best} {o : Option Candidate}

/-- The best router so far is that of a candidate, if there is one. -/
def Tracks (b : Best) : Option Candidate → Prop
  | none => b = {}
  | some c => b.router.routerID = c.routerID ∧ b.priority = c.priority ∧ b.id = c.routerID

theorem Tracks.isBeatenBy_iff (h : Tracks b o) (hc : 0 < c.priority) :
    b.IsBeatenBy c.priority c.routerID ↔ ∀ d ∈ o, d.rank < c.rank := by
  cases o with
  | none =>
    obtain rfl : b = {} := h
    simp [Best.IsBeatenBy, hc]
  | some d =>
    obtain ⟨-, hpriority, hid⟩ := h
    simp only [Option.mem_some_iff, forall_eq', Best.IsBeatenBy, hpriority, hid, Candidate.rank,
      Prod.Lex.toLex_lt_toLex, BitVec.lt_def, eq_comm]

theorem best_concat (cs : List Candidate) (c : Candidate) :
    best (cs ++ [c]) = if ∀ d ∈ best cs, d.rank < c.rank then some c else best cs := by
  rw [best, argmax_concat, best]
  cases argmax Candidate.rank cs with
  | none => simp
  | some d => simp

/-- One comparison. -/
theorem Tracks.concat (h : Tracks b (best cs)) (hc : 0 < c.priority) (hnew : Tracks new (some c)) :
    Tracks (if b.IsBeatenBy c.priority c.routerID then new else b) (best (cs ++ [c])) := by
  rw [best_concat]
  by_cases hbeaten : b.IsBeatenBy c.priority c.routerID
  · rw [if_pos hbeaten, if_pos ((h.isBeatenBy_iff hc).mp hbeaten)]
    exact hnew
  · rw [if_neg hbeaten, if_neg fun hall => hbeaten ((h.isBeatenBy_iff hc).mpr hall)]
    exact h

/-- Whoever does not beat the best so far finds one. -/
theorem Tracks.ne_nil (h : Tracks b (best cs)) (hc : 0 < c.priority)
    (hbeaten : ¬ b.IsBeatenBy c.priority c.routerID) : cs ≠ [] := by
  rintro rfl
  exact hbeaten ((h.isBeatenBy_iff hc).mpr (by simp [best]))

theorem best_eq_none_iff : best cs = none ↔ cs = [] := argmax_eq_none

theorem mem_of_best (h : best cs = some c) : c ∈ cs := argmax_mem h

theorem Tracks.recorded_eq (h : Tracks b o) (hid : ∀ c ∈ o, c.routerID ≠ NULL_ROUTERID) :
    recorded b.router = o.map Candidate.routerID := by
  cases o with
  | none =>
    obtain rfl : b = {} := h
    rfl
  | some c =>
    rw [recorded, h.1, if_neg (hid c rfl)]
    rfl

end

/-! ## What the loops find -/

section

variable {cs : List Candidate} {c : Candidate} {l : BackupLoop} {b : Best × Bool}

theorem eligible_append (ns ms : List Neighbor) :
    eligible (ns ++ ms) = eligible ns ++ eligible ms := by
  rw [eligible, filter_append, map_append, eligible, eligible]

theorem otherOnes_append (cs ds : List Candidate) :
    otherOnes (cs ++ ds) = otherOnes cs ++ otherOnes ds := filter_append ..

theorem backups_append (cs ds : List Candidate) :
    backups (cs ++ ds) = backups cs ++ backups ds := by
  rw [backups, otherOnes_append, filter_append, backups, backups]

theorem designatedOnes_append (cs ds : List Candidate) :
    designatedOnes (cs ++ ds) = designatedOnes cs ++ designatedOnes ds := filter_append ..

/-- The variables of the first loop after some candidates. -/
structure BackupLoop.Holds (l : BackupLoop) (cs : List Candidate) : Prop where
  backup : Tracks l.declaredBackup (best (backups cs))
  declared_iff : l.backupDeclared = false ↔ backups cs = []
  highest : backups cs = [] → Tracks l.highestRouter (best (otherOnes cs))

theorem eligible_singleton (n : Neighbor) :
    eligible [n] = if isBelowTwoWay n.state ∨ n.priority = 0 then [] else [.ofNeighbor n] := by
  rw [eligible, filter_singleton, IsEligible]
  cases isBelowTwoWay n.state with
  | true => simp
  | false => by_cases hn : n.priority = 0 <;> simp [hn]

theorem BackupLoop.Holds.considerBackup (h : l.Holds cs) (n : Neighbor) :
    (considerBackup l n).Holds (cs ++ eligible [n]) := by
  rw [eligible_singleton, Election.considerBackup]
  by_cases hstate : isBelowTwoWay n.state = true
  · rw [if_pos hstate, if_pos (.inl hstate), append_nil]
    exact h
  by_cases hpriority : n.priority = 0
  · rw [if_neg hstate, if_pos hpriority, if_pos (.inr hpriority), append_nil]
    exact h
  have hpos : 0 < (Candidate.ofNeighbor n).priority := Nat.pos_of_ne_zero hpriority
  rw [if_neg hstate, if_neg hpriority, if_neg (not_or.mpr ⟨hstate, hpriority⟩)]
  by_cases hdesignated : n.designatedRouter.routerID = n.neighborID
  · have hother : otherOnes [Candidate.ofNeighbor n] = [] := by
      simp [otherOnes, Candidate.ofNeighbor, hdesignated]
    have hbackups : backups [Candidate.ofNeighbor n] = [] := by rw [backups, hother]; rfl
    rw [if_neg (not_not.mpr hdesignated)]
    refine ⟨?_, ?_, ?_⟩
    · rw [backups_append, hbackups, append_nil]
      exact h.backup
    · rw [backups_append, hbackups, append_nil]
      exact h.declared_iff
    · rw [backups_append, hbackups, otherOnes_append, hother, append_nil, append_nil]
      exact h.highest
  have hother : otherOnes [Candidate.ofNeighbor n] = [Candidate.ofNeighbor n] := by
    simp [otherOnes, Candidate.ofNeighbor, hdesignated]
  rw [if_pos hdesignated]
  by_cases hbackup : n.backupDesignatedRouter.routerID = n.neighborID
  · -- a backup that is declared keeps the loop from looking for the highest router
    have hbackups : backups [Candidate.ofNeighbor n] = [Candidate.ofNeighbor n] := by
      rw [backups, hother]
      simp [Candidate.ofNeighbor, hbackup]
    have htracks : Tracks
        (if l.declaredBackup.IsBeatenBy n.priority n.neighborID then
          ⟨n.backupDesignatedRouter, n.priority, n.neighborID⟩
        else l.declaredBackup) (best (backups cs ++ [.ofNeighbor n])) :=
      h.backup.concat hpos ⟨hbackup, rfl, rfl⟩
    have hne : backups (cs ++ [Candidate.ofNeighbor n]) ≠ [] := by
      rw [backups_append, hbackups]
      simp
    have hdeclared : (if n.backupDesignatedRouter.routerID = n.neighborID ∧
        l.declaredBackup.IsBeatenBy n.priority n.neighborID then
          { l with
            declaredBackup := ⟨n.backupDesignatedRouter, n.priority, n.neighborID⟩
            backupDeclared := true }
        else l).backupDeclared = true := by
      split_ifs with hbeaten
      · rfl
      · rw [← Bool.not_eq_false, h.declared_iff]
        exact h.backup.ne_nil hpos fun hbeats => hbeaten ⟨hbackup, hbeats⟩
    rw [if_neg (by rw [hdeclared]; simp)]
    refine ⟨?_, by simp [hdeclared, hne], fun hnil => absurd hnil hne⟩
    rw [backups_append, hbackups]
    simp only [hbackup, true_and]
    by_cases hbeaten : l.declaredBackup.IsBeatenBy n.priority n.neighborID
    · rw [if_pos hbeaten]
      rwa [if_pos hbeaten] at htracks
    · rw [if_neg hbeaten]
      rwa [if_neg hbeaten] at htracks
  · have hbackups : backups [Candidate.ofNeighbor n] = [] := by
      rw [backups, hother]
      simp [Candidate.ofNeighbor, hbackup]
    simp only [hbackup, false_and, if_false]
    have hsame : backups (cs ++ [Candidate.ofNeighbor n]) = backups cs := by
      rw [backups_append, hbackups, append_nil]
    refine ⟨?_, ?_, fun hnil => ?_⟩
    · rw [hsame]
      split_ifs <;> exact h.backup
    · rw [hsame, ← h.declared_iff]
      split_ifs <;> rfl
    · rw [hsame] at hnil
      have htracks : Tracks
          (if l.highestRouter.IsBeatenBy n.priority n.neighborID then
            ⟨⟨n.neighborID, n.address⟩, n.priority, n.neighborID⟩
          else l.highestRouter) (best (otherOnes cs ++ [.ofNeighbor n])) :=
        (h.highest hnil).concat hpos ⟨rfl, rfl, rfl⟩
      rw [otherOnes_append, hother]
      have hdeclared := h.declared_iff.mpr hnil
      by_cases hbeaten : l.highestRouter.IsBeatenBy n.priority n.neighborID
      · rw [if_pos ⟨hdeclared, hbeaten⟩]
        rwa [if_pos hbeaten] at htracks
      · rw [if_neg fun hboth => hbeaten hboth.2]
        rwa [if_neg hbeaten] at htracks

theorem holds_foldl_considerBackup (ns : List Neighbor) :
    (ns.foldl considerBackup {}).Holds (eligible ns) := by
  induction ns using reverseRecOn with
  | nil => exact ⟨rfl, by simp [eligible, backups, otherOnes], fun _ => rfl⟩
  | append_singleton ns n ih =>
    rw [foldl_append, eligible_append]
    exact ih.considerBackup n

/-- The router itself is included after the neighbours, with the fallback. -/
theorem BackupLoop.Holds.includeSelf (h : l.Holds cs) (hpos : 0 < c.priority)
    (hc : otherOnes [c] = [c]) {own : Best} (hown : Tracks own (some c)) :
    let l' :=
      if c.declaresBackup = true ∧ l.declaredBackup.IsBeatenBy c.priority c.routerID then
        { l with declaredBackup := own, backupDeclared := true }
      else l
    Tracks
      (if l'.backupDeclared = false then
        if l'.highestRouter.IsBeatenBy c.priority c.routerID then own else l'.highestRouter
      else l'.declaredBackup) (electBackup (cs ++ [c])) := by
  have hother : otherOnes (cs ++ [c]) = otherOnes cs ++ [c] := by rw [otherOnes_append, hc]
  by_cases hdeclares : c.declaresBackup = true
  · have hbackups : backups (cs ++ [c]) = backups cs ++ [c] := by
      rw [backups_append]
      simp [backups, hc, hdeclares]
    have htracks := h.backup.concat hpos hown
    obtain ⟨d, hd⟩ := Option.ne_none_iff_exists'.mp
      (best_eq_none_iff.not.mpr (append_ne_nil_of_right_ne_nil (backups cs)
        (cons_ne_nil c [])))
    rw [electBackup, hbackups, hd, Option.some_or]
    rw [hd] at htracks
    simp only [hdeclares, true_and]
    by_cases hbeaten : l.declaredBackup.IsBeatenBy c.priority c.routerID
    · rw [if_pos hbeaten] at htracks
      simpa only [if_pos hbeaten, Bool.true_eq_false, if_false] using htracks
    · have hdeclared := h.declared_iff.not.mpr (h.backup.ne_nil hpos hbeaten)
      rw [if_neg hbeaten] at htracks
      simpa only [if_neg hbeaten, if_neg hdeclared] using htracks
  · have hbackups : backups (cs ++ [c]) = backups cs := by
      rw [backups_append]
      simp [backups, hc, hdeclares]
    rw [electBackup, hbackups, hother]
    simp only [hdeclares, Bool.false_eq_true, false_and, if_false]
    by_cases hnil : backups cs = []
    · rw [if_pos (h.declared_iff.mpr hnil), hnil]
      exact (h.highest hnil).concat hpos hown
    · obtain ⟨d, hd⟩ := Option.ne_none_iff_exists'.mp (best_eq_none_iff.not.mpr hnil)
      have hbackup := h.backup
      rw [hd] at hbackup ⊢
      rw [if_neg (h.declared_iff.not.mpr hnil)]
      exact hbackup

/-- The variables of the second loop after some candidates. -/
structure DesignatedHolds (b : Best × Bool) (cs : List Candidate) : Prop where
  tracks : Tracks b.1 (best (designatedOnes cs))
  declared_iff : b.2 = false ↔ designatedOnes cs = []

/-- A candidate that declares itself the designated router. -/
theorem DesignatedHolds.concat (h : DesignatedHolds b cs) (hpos : 0 < c.priority)
    (hc : designatedOnes [c] = [c]) {new : Best} (hnew : Tracks new (some c)) :
    DesignatedHolds (if b.1.IsBeatenBy c.priority c.routerID then (new, true) else b)
      (cs ++ [c]) := by
  have htracks := h.tracks.concat hpos hnew
  have hne : designatedOnes (cs ++ [c]) ≠ [] := by
    rw [designatedOnes_append, hc]
    simp
  rw [← hc, ← designatedOnes_append] at htracks
  by_cases hbeaten : b.1.IsBeatenBy c.priority c.routerID
  · rw [if_pos hbeaten] at htracks ⊢
    exact ⟨htracks, by simp [hne]⟩
  · rw [if_neg hbeaten] at htracks ⊢
    refine ⟨htracks, ?_⟩
    rw [h.declared_iff]
    exact ⟨fun hnil => absurd hnil (h.tracks.ne_nil hpos hbeaten), fun hnil => absurd hnil hne⟩

theorem DesignatedHolds.considerDesignated (h : DesignatedHolds b cs) (n : Neighbor) :
    DesignatedHolds (considerDesignated b n) (cs ++ eligible [n]) := by
  rw [eligible_singleton, Election.considerDesignated]
  by_cases hstate : isBelowTwoWay n.state = true
  · rw [if_pos hstate, if_pos (.inl hstate), append_nil]
    exact h
  by_cases hpriority : n.priority = 0
  · rw [if_neg hstate, if_pos hpriority, if_pos (.inr hpriority), append_nil]
    exact h
  rw [if_neg hstate, if_neg hpriority, if_neg (not_or.mpr ⟨hstate, hpriority⟩)]
  by_cases hdesignated : n.designatedRouter.routerID = n.neighborID
  · simp only [hdesignated, true_and]
    exact h.concat (c := Candidate.ofNeighbor n) (Nat.pos_of_ne_zero hpriority)
      (by simp [designatedOnes, Candidate.ofNeighbor, hdesignated]) ⟨hdesignated, rfl, rfl⟩
  · have hnone : designatedOnes (cs ++ [Candidate.ofNeighbor n]) = designatedOnes cs := by
      rw [designatedOnes_append]
      simp [designatedOnes, Candidate.ofNeighbor, hdesignated]
    rw [if_neg fun hboth => hdesignated hboth.1]
    exact ⟨by rw [hnone]; exact h.tracks, by rw [hnone]; exact h.declared_iff⟩

theorem designatedHolds_foldl (ns : List Neighbor) :
    DesignatedHolds (ns.foldl considerDesignated ({}, false)) (eligible ns) := by
  induction ns using reverseRecOn with
  | nil => exact ⟨rfl, by simp [eligible, designatedOnes]⟩
  | append_singleton ns n ih =>
    rw [foldl_append, eligible_append]
    exact ih.considerDesignated n

end

/-! ## What one round declares -/

namespace Interface

variable (intf : Interface) {current : Routers} {roles : Roles} {cs : List Candidate}

/-- None of the neighbours declares itself the backup, and the router itself takes no part in the
election of one. -/
def MissesBackup (roles : Roles) : Prop :=
  (intf.routerPriority = 0 ∨ roles.designated = true) ∧
    backups (eligible intf.neighboringRouters) = []
deriving Decidable

variable {intf}

theorem otherOnes_candidates (h : intf.routerPriority = 0 ∨ roles.designated = true) :
    otherOnes (intf.candidates roles) = otherOnes (eligible intf.neighboringRouters) := by
  rw [candidates, otherOnes_append]
  split_ifs with hpriority
  · have hdesignated := h.resolve_left hpriority.ne'
    simp [otherOnes, selfCandidate, hdesignated]
  · exact append_nil _

theorem backups_candidates (h : intf.routerPriority = 0 ∨ roles.designated = true) :
    backups (intf.candidates roles) = backups (eligible intf.neighboringRouters) := by
  rw [backups, otherOnes_candidates h, backups]

/-- A round finds the backup unless it misses it. -/
theorem tracks_declaredBackup (intf : Interface) (current : Routers) :
    Tracks (intf.declaredBackup current)
      (if intf.MissesBackup (intf.rolesOf current) then none
        else electBackup (intf.candidates (intf.rolesOf current))) := by
  have hloop := holds_foldl_considerBackup intf.neighboringRouters
  rw [declaredBackup]
  generalize intf.neighboringRouters.foldl considerBackup {} = l at hloop ⊢
  -- without the router itself there are only the backups that have been declared
  have hwithout (h : intf.routerPriority = 0 ∨ (intf.rolesOf current).designated = true) :
      Tracks l.declaredBackup
        (if intf.MissesBackup (intf.rolesOf current) then none
          else electBackup (intf.candidates (intf.rolesOf current))) := by
    by_cases hnil : backups (eligible intf.neighboringRouters) = []
    · have hbackup := hloop.backup
      rw [hnil] at hbackup
      rw [if_pos ⟨h, hnil⟩]
      exact hbackup
    · rw [if_neg fun hmiss => hnil hmiss.2, electBackup, backups_candidates h]
      obtain ⟨c, hc⟩ := Option.ne_none_iff_exists'.mp (best_eq_none_iff.not.mpr hnil)
      have hbackup := hloop.backup
      rw [hc] at hbackup ⊢
      exact hbackup
  by_cases hpriority : 0 < intf.routerPriority
  · by_cases hdesignated : current.designatedRouter.routerID = intf.routerID
    · simp only [if_pos hpriority, hdesignated, ne_eq, not_true, if_false]
      exact hwithout (.inr (decide_eq_true hdesignated))
    · have hmiss : ¬ intf.MissesBackup (intf.rolesOf current) := by
        rintro ⟨hzero | hroles, -⟩
        · omega
        · exact hdesignated (of_decide_eq_true hroles)
      have hother : otherOnes [intf.selfCandidate (intf.rolesOf current)] =
          [intf.selfCandidate (intf.rolesOf current)] := by
        simp [otherOnes, selfCandidate, rolesOf, hdesignated]
      have hown : Tracks intf.self (some (intf.selfCandidate (intf.rolesOf current))) :=
        ⟨rfl, rfl, rfl⟩
      have hself := hloop.includeSelf hpriority hother hown
      rw [if_neg hmiss, candidates, if_pos hpriority]
      simpa only [if_pos hpriority, ne_eq, hdesignated, not_false_eq_true, if_true, selfCandidate,
        rolesOf, decide_eq_true_eq] using hself
  · rw [if_neg hpriority]
    exact hwithout (.inl (by omega))

theorem tracks_declaredDesignatedRouter (intf : Interface) (current : Routers) :
    Tracks (intf.declaredDesignatedRouter current)
      (electDesignated (intf.candidates (intf.rolesOf current))
        (if intf.MissesBackup (intf.rolesOf current) then none
          else electBackup (intf.candidates (intf.rolesOf current)))) := by
  have hloop := designatedHolds_foldl intf.neighboringRouters
  have hbackup := intf.tracks_declaredBackup current
  rw [declaredDesignatedRouter]
  generalize intf.neighboringRouters.foldl considerDesignated ({}, false) = b at hloop ⊢
  generalize (if intf.MissesBackup (intf.rolesOf current) then none
    else electBackup (intf.candidates (intf.rolesOf current))) = backup at hbackup ⊢
  -- with the router itself the pair is that of all candidates
  have hself : DesignatedHolds
      (if 0 < intf.routerPriority then
        if current.designatedRouter.routerID = intf.routerID ∧
            b.1.IsBeatenBy intf.routerPriority intf.routerID then
          (intf.self, true)
        else b
      else b) (intf.candidates (intf.rolesOf current)) := by
    rw [candidates]
    by_cases hpriority : 0 < intf.routerPriority
    · by_cases hdesignated : current.designatedRouter.routerID = intf.routerID
      · have hown : Tracks intf.self (some (intf.selfCandidate (intf.rolesOf current))) :=
          ⟨rfl, rfl, rfl⟩
        have hconcat : DesignatedHolds
            (if b.1.IsBeatenBy intf.routerPriority intf.routerID then (intf.self, true) else b)
            (eligible intf.neighboringRouters ++ [intf.selfCandidate (intf.rolesOf current)]) :=
          hloop.concat hpriority
            (by simp [designatedOnes, selfCandidate, rolesOf, hdesignated]) hown
        simpa only [if_pos hpriority, hdesignated, true_and] using hconcat
      · have hnone : designatedOnes [intf.selfCandidate (intf.rolesOf current)] = [] := by
          simp [designatedOnes, selfCandidate, rolesOf, hdesignated]
        simp only [if_pos hpriority, hdesignated, false_and, if_false]
        refine ⟨?_, ?_⟩
        · rw [designatedOnes_append, hnone, append_nil]
          exact hloop.tracks
        · rw [designatedOnes_append, hnone, append_nil]
          exact hloop.declared_iff
    · rw [if_neg hpriority, if_neg hpriority, append_nil]
      exact hloop
  generalize (if 0 < intf.routerPriority then
    if current.designatedRouter.routerID = intf.routerID ∧
        b.1.IsBeatenBy intf.routerPriority intf.routerID then (intf.self, true)
      else b
    else b) = b' at hself ⊢
  rw [electDesignated]
  by_cases hdeclared : b'.2 = false
  · rw [if_pos hdeclared, hself.declared_iff.mp hdeclared]
    exact hbackup
  · obtain ⟨c, hc⟩ := Option.ne_none_iff_exists'.mp
      (best_eq_none_iff.not.mpr (hself.declared_iff.not.mp hdeclared))
    have htracks := hself.tracks
    rw [if_neg hdeclared]
    rw [hc] at htracks ⊢
    exact htracks

/-- No ID stands for no router, and no neighbour has the ID of the router itself: packets with
that are dropped. -/
structure HasProperIDs (intf : Interface) : Prop where
  routerID_ne : intf.routerID ≠ NULL_ROUTERID
  neighborID_ne : ∀ c ∈ eligible intf.neighboringRouters, c.routerID ≠ NULL_ROUTERID
  neighborID_ne_self : ∀ c ∈ eligible intf.neighboringRouters, c.routerID ≠ intf.routerID

instance (intf : Interface) : Decidable intf.HasProperIDs :=
  decidable_of_iff (intf.routerID ≠ NULL_ROUTERID ∧
      (∀ c ∈ eligible intf.neighboringRouters, c.routerID ≠ NULL_ROUTERID) ∧
      ∀ c ∈ eligible intf.neighboringRouters, c.routerID ≠ intf.routerID)
    ⟨fun ⟨h, h', h''⟩ => ⟨h, h', h''⟩, fun ⟨h, h', h''⟩ => ⟨h, h', h''⟩⟩

/-- What a round of the code elects. -/
def declared (intf : Interface) (roles : Roles) : Elected :=
  electedWith (intf.candidates roles)
    (if intf.MissesBackup roles then none else electBackup (intf.candidates roles))

theorem mem_of_electBackup {c : Candidate} (h : electBackup cs = some c) : c ∈ otherOnes cs := by
  rw [electBackup, Option.or_eq_some_iff] at h
  obtain h | ⟨-, h⟩ := h
  · exact (mem_filter.mp (mem_of_best h)).1
  · exact mem_of_best h

theorem HasProperIDs.ne_of_mem_candidates (h : intf.HasProperIDs) {c : Candidate}
    (hc : c ∈ intf.candidates roles) : c.routerID ≠ NULL_ROUTERID := by
  rw [candidates, mem_append] at hc
  obtain hc | hc := hc
  · exact h.neighborID_ne c hc
  · split_ifs at hc
    · obtain rfl := mem_singleton.mp hc
      exact h.routerID_ne
    · cases hc

theorem HasProperIDs.recorded_declare (h : intf.HasProperIDs) (current : Routers) :
    (intf.declare current).recorded = intf.declared (intf.rolesOf current) := by
  have hbackup : ∀ c, (if intf.MissesBackup (intf.rolesOf current) then none
      else electBackup (intf.candidates (intf.rolesOf current))) = some c →
      c ∈ intf.candidates (intf.rolesOf current) := by
    intro c hc
    split_ifs at hc
    exact (mem_filter.mp (mem_of_electBackup hc)).1
  rw [declare, declared, electedWith, Routers.recorded]
  congr 1
  · refine (intf.tracks_declaredDesignatedRouter current).recorded_eq fun c hc => ?_
    rw [electDesignated, Option.mem_def, Option.or_eq_some_iff] at hc
    obtain hc | ⟨-, hc⟩ := hc
    · exact h.ne_of_mem_candidates (mem_filter.mp (mem_of_best hc)).1
    · exact h.ne_of_mem_candidates (hbackup c hc)
  · exact (intf.tracks_declaredBackup current).recorded_eq fun c hc =>
      h.ne_of_mem_candidates (hbackup c hc)

theorem HasProperIDs.recorded_eq_iff (h : intf.HasProperIDs) (router : DesignatedRouterID) :
    recorded router = some intf.routerID ↔ router.routerID = intf.routerID := by
  rw [recorded]
  split_ifs with hnull
  · simp [hnull, h.routerID_ne.symm]
  · simp

theorem HasProperIDs.roles_recorded (h : intf.HasProperIDs) (routers : Routers) :
    routers.recorded.roles intf.routerID = intf.rolesOf routers := by
  simp only [Elected.roles, Routers.recorded, rolesOf, h.recorded_eq_iff]

/-- The code repeats the election if the role changes and somebody has been elected. -/
def Repeats (roles : Roles) (elected : Elected) (self : RouterID) : Prop :=
  (elected.designated ≠ none ∧ (elected.roles self).designated ≠ roles.designated) ∨
    (elected.backup ≠ none ∧ (elected.roles self).backup ≠ roles.backup)
deriving Decidable

theorem HasProperIDs.roleChanges_iff (h : intf.HasProperIDs) (current router : DesignatedRouterID) :
    intf.RoleChanges current router ↔
      recorded router ≠ none ∧ decide (recorded router = some intf.routerID) ≠
        decide (current.routerID = intf.routerID) := by
  have hnone : recorded router ≠ none ↔ router.routerID ≠ NULL_ROUTERID := by
    rw [recorded]
    split_ifs with hnull <;> simp [hnull]
  rw [RoleChanges, hnone]
  simp only [h.recorded_eq_iff, ne_eq, decide_eq_decide]
  tauto

/-- The election of the code, with IDs for the routers. -/
theorem HasProperIDs.recorded_calculateDesignatedRouter (h : intf.HasProperIDs) :
    intf.calculateDesignatedRouter.recorded =
      let roles := intf.rolesOf ⟨intf.designatedRouter, intf.backupDesignatedRouter⟩
      let elected := intf.declared roles
      if Repeats roles elected intf.routerID then intf.declared (elected.roles intf.routerID)
      else elected := by
  rw [calculateDesignatedRouter, declareRepeatedly]
  generalize (⟨intf.designatedRouter, intf.backupDesignatedRouter⟩ : Routers) = current
  have hdeclare := h.recorded_declare current
  have hrepeats :
      intf.RoleChanges current.designatedRouter (intf.declare current).designatedRouter ∨
      intf.RoleChanges current.backupRouter (intf.declare current).backupRouter ↔
      Repeats (intf.rolesOf current) (intf.declared (intf.rolesOf current)) intf.routerID := by
    rw [h.roleChanges_iff, h.roleChanges_iff, Repeats, ← hdeclare]
    rfl
  dsimp only
  by_cases hrepeat : Repeats (intf.rolesOf current) (intf.declared (intf.rolesOf current))
      intf.routerID
  · rw [if_pos (hrepeats.mpr hrepeat), if_pos Nat.one_pos, if_pos hrepeat, declareRepeatedly]
    simp only [lt_irrefl, if_false, ite_self]
    rw [h.recorded_declare, ← hdeclare, h.roles_recorded]
  · rw [if_neg (hrepeats.not.mpr hrepeat), if_neg hrepeat]
    exact hdeclare

/-! ## When the backup is found -/

/-- A neighbour could be the backup, and none declares itself so. -/
def NeedsFallback (intf : Interface) : Prop :=
  otherOnes (eligible intf.neighboringRouters) ≠ [] ∧
    backups (eligible intf.neighboringRouters) = []
deriving Decidable

theorem electBackup_eq_none_iff : electBackup cs = none ↔ otherOnes cs = [] := by
  rw [electBackup, Option.or_eq_none_iff, best_eq_none_iff, best_eq_none_iff]
  constructor
  · exact And.right
  · intro hnil
    exact ⟨by rw [backups, hnil]; rfl, hnil⟩

/-- Without a fallback the rounds of the code are those of the RFC. -/
theorem declared_of_not_needsFallback (h : ¬ intf.NeedsFallback) (roles : Roles) :
    intf.declared roles = elect (intf.candidates roles) := by
  rw [declared, elect]
  split_ifs with hmiss
  · have hnil : otherOnes (eligible intf.neighboringRouters) = [] := by
      by_contra hne
      exact h ⟨hne, hmiss.2⟩
    rw [electBackup_eq_none_iff.mpr ((otherOnes_candidates hmiss.1).trans hnil)]
  · rfl

/-- A round in which the router itself takes part in the election of the backup. -/
theorem declared_of_not_misses (h : ¬ intf.MissesBackup roles) :
    intf.declared roles = elect (intf.candidates roles) := by
  rw [declared, if_neg h, elect]

theorem not_missesBackup_of_takesPart (hpriority : 0 < intf.routerPriority)
    (hroles : roles.designated = false) : ¬ intf.MissesBackup roles := by
  rintro ⟨hzero | htrue, -⟩
  · omega
  · rw [hroles] at htrue
    cases htrue

/-- Where the fallback is missed, no backup is found though there is one. -/
theorem declared_ne_elect (h : intf.NeedsFallback)
    (hself : intf.routerPriority = 0 ∨ roles.designated = true) :
    intf.declared roles ≠ elect (intf.candidates roles) := by
  intro heq
  have hbackup := congrArg Elected.backup heq
  rw [declared, if_pos ⟨hself, h.2⟩, elect, electedWith, electedWith] at hbackup
  have hnone := electBackup_eq_none_iff.mp (Option.map_eq_none_iff.mp hbackup.symm)
  exact h.1 ((otherOnes_candidates hself).symm.trans hnone)

theorem candidates_of_priority_eq_zero (h : intf.routerPriority = 0) (roles : Roles) :
    intf.candidates roles = eligible intf.neighboringRouters := by
  rw [candidates, if_neg (by omega), append_nil]

/-- A router that cannot be elected does not change the rounds. -/
theorem declared_of_priority_eq_zero (h : intf.routerPriority = 0) (roles roles' : Roles) :
    intf.declared roles = intf.declared roles' := by
  have hmiss : intf.MissesBackup roles ↔ intf.MissesBackup roles' := by
    rw [MissesBackup, MissesBackup]
    simp [h]
  rw [declared, declared, candidates_of_priority_eq_zero h, candidates_of_priority_eq_zero h]
  simp only [hmiss]

theorem declared_eq_elect_iff (hself : intf.routerPriority = 0 ∨ roles.designated = true) :
    intf.declared roles = elect (intf.candidates roles) ↔ ¬ intf.NeedsFallback :=
  ⟨fun heq hneeds => declared_ne_elect hneeds hself heq,
    fun hneeds => declared_of_not_needsFallback hneeds roles⟩

/-- The router itself beats some candidates. -/
def Beats (intf : Interface) (cs : List Candidate) : Prop :=
  ∀ c ∈ cs, c.rank < toLex (intf.routerPriority, intf.routerID.toNat)
deriving Decidable

theorem beats_iff : intf.Beats cs ↔
      ∀ d ∈ best cs, d.rank < toLex (intf.routerPriority, intf.routerID.toNat) := by
  constructor
  · exact fun h d hd => h d (mem_of_best hd)
  · intro h c hc
    obtain ⟨d, hd⟩ := Option.ne_none_iff_exists'.mp
      (best_eq_none_iff.not.mpr (ne_nil_of_mem hc))
    exact (le_of_mem_argmax hc hd).trans_lt (h d hd)

/-- The ID of the best of some candidates and the router itself. -/
theorem map_best_concat (cs : List Candidate) (roles : Roles) :
    (best (cs ++ [intf.selfCandidate roles])).map Candidate.routerID =
      if intf.Beats cs then some intf.routerID else (best cs).map Candidate.routerID := by
  rw [best_concat, apply_ite (Option.map Candidate.routerID)]
  simp only [beats_iff]
  rfl

theorem HasProperIDs.map_best_ne (h : intf.HasProperIDs)
    (hcs : ∀ c ∈ cs, c ∈ eligible intf.neighboringRouters) :
    (best cs).map Candidate.routerID ≠ some intf.routerID := by
  intro heq
  obtain ⟨c, hc, hid⟩ := Option.map_eq_some_iff.mp heq
  exact h.neighborID_ne_self c (hcs c (mem_of_best hc)) hid

theorem HasProperIDs.map_best_designatedOnes_ne (h : intf.HasProperIDs) :
    (best (designatedOnes (eligible intf.neighboringRouters))).map Candidate.routerID ≠
      some intf.routerID :=
  h.map_best_ne fun _ hc => (mem_filter.mp hc).1

theorem designated_electedWith (cs : List Candidate) (backup : Option Candidate) :
    (electedWith cs backup).designated =
      ((best (designatedOnes cs)).map Candidate.routerID).or (backup.map Candidate.routerID) := by
  rw [electedWith, electDesignated, Option.map_or]

/-- A router that takes itself for the designated router competes with those that do so too. -/
theorem electedWith_of_designated (hpriority : 0 < intf.routerPriority)
    (hroles : roles.designated = true) (backup : Option Candidate) :
    electedWith (intf.candidates roles) backup =
      ⟨if intf.Beats (designatedOnes (eligible intf.neighboringRouters)) then some intf.routerID
        else (best (designatedOnes (eligible intf.neighboringRouters))).map Candidate.routerID,
        backup.map Candidate.routerID⟩ := by
  have hself : designatedOnes [intf.selfCandidate roles] = [intf.selfCandidate roles] := by
    simp [designatedOnes, selfCandidate, hroles]
  have hdesignated := designated_electedWith (intf.candidates roles) backup
  rw [candidates, if_pos hpriority, designatedOnes_append, hself, map_best_concat] at hdesignated
  rw [candidates, if_pos hpriority]
  refine (Elected.mk.injEq _ _ _ _).mpr ⟨?_, rfl⟩
  refine hdesignated.trans ?_
  split_ifs with hbeats
  · rfl
  · have hne : best (designatedOnes (eligible intf.neighboringRouters)) ≠ none := by
      intro hnone
      exact hbeats (beats_iff.mpr (by simp [hnone]))
    obtain ⟨c, hc⟩ := Option.ne_none_iff_exists'.mp hne
    rw [hc]
    rfl

/-- What a router takes itself for beside the designated router makes no difference. -/
theorem rounds_of_designated {roles' : Roles} (hpriority : 0 < intf.routerPriority)
    (hroles : roles.designated = true) (hroles' : roles'.designated = true) :
    intf.declared roles = intf.declared roles' ∧
      elect (intf.candidates roles) = elect (intf.candidates roles') := by
  have hbackup : electBackup (intf.candidates roles) = electBackup (intf.candidates roles') := by
    rw [electBackup, electBackup, backups_candidates (.inr hroles),
      otherOnes_candidates (.inr hroles), backups_candidates (.inr hroles'),
      otherOnes_candidates (.inr hroles')]
  have hmiss : intf.MissesBackup roles ↔ intf.MissesBackup roles' := by
    rw [MissesBackup, MissesBackup]
    simp [hroles, hroles']
  refine ⟨?_, ?_⟩
  · rw [declared, declared, electedWith_of_designated hpriority hroles,
      electedWith_of_designated hpriority hroles', hbackup]
    simp only [hmiss]
  · rw [elect, elect, electedWith_of_designated hpriority hroles,
      electedWith_of_designated hpriority hroles', hbackup]

/-- The router that takes itself for the designated router is not elected as the backup. -/
theorem HasProperIDs.backup_ne_self (h : intf.HasProperIDs)
    (hself : intf.routerPriority = 0 ∨ roles.designated = true) :
    (intf.declared roles).backup ≠ some intf.routerID ∧
      (elect (intf.candidates roles)).backup ≠ some intf.routerID := by
  have hne : (electBackup (intf.candidates roles)).map Candidate.routerID ≠ some intf.routerID := by
    intro heq
    obtain ⟨c, hc, hid⟩ := Option.map_eq_some_iff.mp heq
    have hmem := mem_of_electBackup hc
    rw [otherOnes_candidates hself] at hmem
    exact h.neighborID_ne_self c (mem_filter.mp hmem).1 hid
  refine ⟨?_, hne⟩
  rw [declared, electedWith]
  split_ifs
  · simp
  · exact hne

/-- A router that takes part in the election of the backup sees one elected. -/
theorem elect_ne_none (hpriority : 0 < intf.routerPriority) (hroles : roles.designated = false) :
    (elect (intf.candidates roles)).designated ≠ none ∧
      (elect (intf.candidates roles)).backup ≠ none := by
  have hbackup : electBackup (intf.candidates roles) ≠ none := by
    rw [ne_eq, electBackup_eq_none_iff, candidates, if_pos hpriority, otherOnes_append]
    simp [otherOnes, selfCandidate, hroles]
  refine ⟨?_, by simpa [elect, electedWith] using hbackup⟩
  rw [elect, designated_electedWith]
  simp [hbackup]

theorem roles_designated (e : Elected) (self : RouterID) :
    (e.roles self).designated = decide (e.designated = some self) := rfl

/-- The code elects the routers of the RFC unless it needs the fallback while the router itself
cannot be elected or has elected itself in the first round. -/
theorem HasProperIDs.recorded_eq_election_iff (h : intf.HasProperIDs) :
    intf.calculateDesignatedRouter.recorded = intf.election ↔
      ¬ (intf.NeedsFallback ∧ (intf.routerPriority = 0 ∨ (elect (intf.candidates (intf.rolesOf
          ⟨intf.designatedRouter, intf.backupDesignatedRouter⟩))).designated =
            some intf.routerID)) := by
  rw [h.recorded_calculateDesignatedRouter, election, electFrom]
  generalize intf.rolesOf ⟨intf.designatedRouter, intf.backupDesignatedRouter⟩ = roles
  dsimp only
  rcases Nat.eq_zero_or_pos intf.routerPriority with hpriority | hpriority
  · -- all rounds are the same
    have hdeclared : ∀ e : Elected,
        intf.declared (e.roles intf.routerID) = intf.declared roles :=
      fun e => declared_of_priority_eq_zero hpriority _ _
    have hcandidates : ∀ e : Elected,
        intf.candidates (e.roles intf.routerID) = intf.candidates roles := fun e => by
      rw [candidates_of_priority_eq_zero hpriority, candidates_of_priority_eq_zero hpriority]
    rw [hdeclared, ite_self, hcandidates, ite_self, declared_eq_elect_iff (.inl hpriority)]
    simp [hpriority]
  · simp only [hpriority.ne', false_or]
    cases hroles : roles.designated with
    | true =>
      have hsame : (intf.declared roles).designated =
          (elect (intf.candidates roles)).designated := by
        rw [declared, elect, electedWith_of_designated hpriority hroles,
          electedWith_of_designated hpriority hroles]
      by_cases hself : (elect (intf.candidates roles)).designated = some intf.routerID
      · -- it stays the designated router, and another round changes nothing
        have hagain : ∀ e : Elected, e.designated = some intf.routerID →
            intf.declared (e.roles intf.routerID) = intf.declared roles ∧
              elect (intf.candidates (e.roles intf.routerID)) =
                elect (intf.candidates roles) := fun e he =>
          rounds_of_designated hpriority (decide_eq_true he) hroles
        rw [(hagain _ (hsame.trans hself)).1, ite_self, (hagain _ hself).2, ite_self,
          declared_eq_elect_iff (.inr hroles)]
        simp [hself]
      · -- it ceases to be the designated router, and takes part in the next round
        obtain ⟨hdeclared, helect⟩ := h.backup_ne_self (.inr hroles)
        have hnone : (elect (intf.candidates roles)).designated ≠ none := by
          rw [elect, electedWith_of_designated hpriority hroles]
          dsimp only
          split_ifs with hbeats
          · simp
          · intro hnone
            rw [Option.map_eq_none_iff] at hnone
            exact hbeats (beats_iff.mpr (by simp [hnone]))
        have hrepeats : Repeats roles (intf.declared roles) intf.routerID := by
          refine .inl ⟨hsame ▸ hnone, ?_⟩
          rw [roles_designated, hsame, hroles, decide_eq_false hself]
          decide
        have hchanges : (elect (intf.candidates roles)).roles intf.routerID ≠ roles := by
          intro heq
          have hdesignated := congrArg Roles.designated heq
          rw [roles_designated, hroles, decide_eq_false hself] at hdesignated
          cases hdesignated
        have hnext : (intf.declared roles).roles intf.routerID =
            (elect (intf.candidates roles)).roles intf.routerID := by
          rw [Elected.roles, Elected.roles, hsame, decide_eq_false hdeclared,
            decide_eq_false helect]
        rw [if_pos hrepeats, if_pos hchanges, hnext]
        simp only [hself, and_false, not_false_eq_true, iff_true]
        exact declared_of_not_misses
          (not_missesBackup_of_takesPart hpriority (decide_eq_false hself))
    | false =>
      have hfirst := declared_of_not_misses (not_missesBackup_of_takesPart hpriority hroles)
      obtain ⟨hdesignated, hbackup⟩ := elect_ne_none hpriority hroles
      have hrepeats : Repeats roles (elect (intf.candidates roles)) intf.routerID ↔
          (elect (intf.candidates roles)).roles intf.routerID ≠ roles := by
        rw [Repeats]
        simp only [hdesignated, hbackup, not_false_eq_true, ne_eq, true_and]
        rw [Roles.ext_iff]
        tauto
      simp only [hfirst, hrepeats]
      by_cases hself : (elect (intf.candidates roles)).designated = some intf.routerID
      · have hchanges : (elect (intf.candidates roles)).roles intf.routerID ≠ roles := by
          intro heq
          have hbecomes := congrArg Roles.designated heq
          rw [roles_designated, hroles, decide_eq_true hself] at hbecomes
          cases hbecomes
        rw [if_pos hchanges, if_pos hchanges, declared_eq_elect_iff (.inr (decide_eq_true hself))]
        simp [hself]
      · simp only [hself, and_false, not_false_eq_true, iff_true]
        split_ifs
        · exact declared_of_not_misses
            (not_missesBackup_of_takesPart hpriority (decide_eq_false hself))
        · rfl

/-- The router itself is the designated router and beats the neighbours that declare themselves
so, or nobody is and it is the backup or beats them all. -/
def ElectsItself (intf : Interface) : Prop :=
  if intf.designatedRouter.routerID = intf.routerID then
    intf.Beats (designatedOnes (eligible intf.neighboringRouters))
  else
    designatedOnes (eligible intf.neighboringRouters) = [] ∧
      (intf.backupDesignatedRouter.routerID = intf.routerID ∨
        intf.Beats (eligible intf.neighboringRouters))
deriving Decidable

/-- What a router that does not take itself for the designated router sees elected, when none of the
neighbours declares itself the backup. -/
theorem HasProperIDs.elects_self_iff (h : intf.HasProperIDs)
    (hpriority : 0 < intf.routerPriority) (hroles : roles.designated = false)
    (hbackups : backups (eligible intf.neighboringRouters) = []) :
    (elect (intf.candidates roles)).designated = some intf.routerID ↔
      designatedOnes (eligible intf.neighboringRouters) = [] ∧
        (roles.backup = true ∨ intf.Beats (eligible intf.neighboringRouters)) := by
  have hother : otherOnes [intf.selfCandidate roles] = [intf.selfCandidate roles] := by
    simp [otherOnes, selfCandidate, hroles]
  have hdesignated : designatedOnes (intf.candidates roles) =
      designatedOnes (eligible intf.neighboringRouters) := by
    rw [candidates, if_pos hpriority, designatedOnes_append]
    simp [designatedOnes, selfCandidate, hroles]
  rw [elect, designated_electedWith, hdesignated]
  by_cases hnil : designatedOnes (eligible intf.neighboringRouters) = []
  · have hall : otherOnes (eligible intf.neighboringRouters) =
        eligible intf.neighboringRouters := by
      refine filter_eq_self.mpr fun c hc => ?_
      have := filter_eq_nil_iff.mp hnil c hc
      simpa using this
    have hbest : best (designatedOnes (eligible intf.neighboringRouters)) = none :=
      best_eq_none_iff.mpr hnil
    rw [hbest, Option.map_none, Option.none_or, electBackup, candidates, if_pos hpriority,
      backups_append, otherOnes_append, hbackups, nil_append, backups, hother, hall]
    cases hbackup : roles.backup with
    | true =>
      have hself : [intf.selfCandidate roles].filter (fun c => c.declaresBackup) =
          [intf.selfCandidate roles] := by simp [selfCandidate, hbackup]
      rw [hself]
      simp [best, hnil, selfCandidate]
    | false =>
      have hself : [intf.selfCandidate roles].filter (fun c => c.declaresBackup) = [] := by
        simp [selfCandidate, hbackup]
      have hne : (best (eligible intf.neighboringRouters)).map Candidate.routerID ≠
          some intf.routerID := h.map_best_ne fun _ hc => hc
      rw [hself, best_eq_none_iff.mpr rfl, Option.none_or, map_best_concat]
      split_ifs with hbeats
      · simp [hnil, hbeats]
      · simp [hnil, hbeats, hne]
  · obtain ⟨c, hc⟩ := Option.ne_none_iff_exists'.mp (best_eq_none_iff.not.mpr hnil)
    have hne := h.map_best_designatedOnes_ne
    rw [hc] at hne ⊢
    simpa [hnil] using hne

/-- The code elects the routers that the RFC describes unless the fallback is needed while the
router itself cannot be elected, or is elected as the designated router. -/
theorem calculateDesignatedRouter_iff {intf : Interface} (h : intf.HasProperIDs) :
    intf.calculateDesignatedRouter.recorded = intf.election ↔
      ¬ (intf.NeedsFallback ∧ (intf.routerPriority = 0 ∨ intf.ElectsItself)) := by
  rw [h.recorded_eq_election_iff]
  refine not_congr (and_congr_right fun hneeds => ?_)
  rcases Nat.eq_zero_or_pos intf.routerPriority with hpriority | hpriority
  · simp [hpriority]
  refine or_congr_right ?_
  rw [ElectsItself]
  split_ifs with hdesignated
  · rw [elect, electedWith_of_designated hpriority (decide_eq_true hdesignated)]
    have hne := h.map_best_designatedOnes_ne
    dsimp only
    split_ifs with hbeats
    · simp [hbeats]
    · simp [hbeats, hne]
  · rw [h.elects_self_iff hpriority (decide_eq_false hdesignated) hneeds.2, rolesOf,
      decide_eq_true_eq]

/-! ## Two routers that have just come up -/

def exampleNeighbor (backup : DesignatedRouterID) : Neighbor where
  neighborID := 0x0A000001
  address := 0x0A000001
  priority := 1
  state := .TWOWAY
  designatedRouter := NULL_DESIGNATEDROUTERID
  backupDesignatedRouter := backup

def exampleInterface (backup : DesignatedRouterID) : Interface where
  routerID := 0x0A000002
  routerPriority := 1
  address := 0x0A000002
  designatedRouter := NULL_DESIGNATEDROUTERID
  backupDesignatedRouter := NULL_DESIGNATEDROUTERID
  neighboringRouters := [exampleNeighbor backup]

/-- The router with the greater ID becomes the designated router, and the other one should be the
backup. -/
theorem not_recorded_of_two_routers : (exampleInterface NULL_DESIGNATEDROUTERID).HasProperIDs ∧
      (exampleInterface NULL_DESIGNATEDROUTERID).calculateDesignatedRouter.recorded =
        ⟨some 0x0A000002, none⟩ ∧
      (exampleInterface NULL_DESIGNATEDROUTERID).calculateDesignatedRouter.recorded ≠
        (exampleInterface NULL_DESIGNATEDROUTERID).election := by decide

/-- When the other one declares itself the backup, all goes well. -/
theorem recorded_of_declared_backup :
    (exampleInterface ⟨0x0A000001, 0x0A000001⟩).calculateDesignatedRouter.recorded =
      (exampleInterface ⟨0x0A000001, 0x0A000001⟩).election :=
  (calculateDesignatedRouter_iff (by decide)).mpr (by decide)

end Interface

end Inet.Ospf.Election
