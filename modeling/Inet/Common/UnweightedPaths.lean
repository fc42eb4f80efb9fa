import Inet.Common.ShortestPaths

/-!
# Unweighted shortest paths

`calculateUnweightedSingleShortestPathsTo` searches breadth first: a node that has been reached is
appended to the queue, and not reached again. On the graph in which every link has the weight one
and no node costs anything, the weighted search takes the same steps (`search_unit`). So the
distances are numbers of links.
-/

namespace Inet.Topology

variable {n : ℕ}

/-- The body of the loop over the links into `v`. -/
def visit (top : Topology n) (v : Fin n) (s : Search n) (link : Link n) : Search n :=
  if !link.enabled then s
  else if !top.enabled link.srcNode then s
  else if s.dist link.srcNode = ⊤ then
    { dist := Function.update s.dist link.srcNode (s.dist v + 1)
      outPath := Function.update s.outPath link.srcNode (some link)
      q := s.q ++ [link.srcNode] }
  else s

/-- The loop over the queue, with a bound on its rounds. -/
def searchBreadthFirst (top : Topology n) : ℕ → Search n → Result (Search n)
  | 0, s => if s.q.isEmpty then .ok s else .error .outOfFuel
  | fuel + 1, s =>
    match s.q with
    | [] => .ok s
    | v :: q => searchBreadthFirst top fuel ((top.inLinks v).foldl (top.visit v) { s with q })

/-- Without a target it throws. The loop takes at most one round for each node. -/
def calculateUnweightedSingleShortestPathsTo (top : Topology n) : Option (Fin n) → Result (Search n)
  | none => .error (.cRuntimeError "..ShortestPathTo(): target node is nullptr")
  | some target =>
    top.searchBreadthFirst n {
      dist := Function.update (fun _ => ⊤) target 0
      outPath := fun _ => none
      q := [target] }

def unitLink (link : Link n) : Link n := { link with weight := 1 }

/-- The graph in which links have the weight one, and nodes the weight zero. -/
def unit (top : Topology n) : Topology n where
  weight := fun _ => 0
  enabled := top.enabled
  inLinks v := (top.inLinks v).map unitLink
  destNode_eq := by
    intro v link hlink
    obtain ⟨l, hl, rfl⟩ := List.mem_map.mp hlink
    exact top.destNode_eq v l hl

def Search.unit (s : Search n) : Search n := { s with outPath v := (s.outPath v).map unitLink }

variable {top : Topology n} {target v : Fin n} {s : Search n} {d : WithTop ℚ} {link : Link n}

theorem weighted_unit (top : Topology n) : top.unit.Weighted := by
  refine ⟨fun v link hlink => ?_, fun _ => le_rfl⟩
  obtain ⟨l, -, rfl⟩ := List.mem_map.mp hlink
  exact zero_lt_one

theorem cost_unit {links : List (Link n)} (h : top.unit.network.IsPath target v links) :
    top.unit.network.cost links = links.length := by
  induction links generalizing v with
  | nil => rfl
  | cons l links ih =>
    obtain ⟨⟨hmem, -⟩, -, hrest⟩ := h
    obtain ⟨l', -, rfl⟩ := List.mem_map.mp hmem
    cases links with
    | nil => exact Nat.cast_one.symm
    | cons l'' links =>
      have hstep : top.unit.network.cost (unitLink l' :: l'' :: links) =
          1 + 0 + top.unit.network.cost (l'' :: links) := rfl
      rw [hstep, ih hrest, add_zero, add_comm, List.length_cons (a := unitLink l')]
      exact (Nat.cast_succ _).symm

/-- The nodes that have been reached are within one link of the distance `d`, from which on
the queue holds them in order. -/
structure Level (d : WithTop ℚ) (s : Search n) : Prop where
  near : ∀ v, s.dist v ≠ ⊤ → s.dist v ≤ d + 1
  front : ∀ v ∈ s.q, d ≤ s.dist v
  reached : ∀ v ∈ s.q, s.dist v ≠ ⊤
  sorted : s.q.Pairwise fun v w => s.dist v ≤ s.dist w

/-- A node is reached from a node with the distance `d`. -/
def reach (d : WithTop ℚ) (s : Search n) (link : Link n) : Search n :=
  { dist := Function.update s.dist link.srcNode (d + 1)
    outPath := Function.update s.outPath link.srcNode (some link)
    q := s.q ++ [link.srcNode] }

theorem dist_reach_self : (reach d s link).dist link.srcNode = d + 1 := Function.update_self ..

theorem Level.reach (h : Level d s) (hd : d ≠ ⊤) (hnew : s.dist link.srcNode = ⊤) :
    Level d (reach d s link) ∧ ∀ w, s.dist w ≠ ⊤ → (Topology.reach d s link).dist w = s.dist w := by
  have hfinite : d + 1 ≠ ⊤ := WithTop.add_ne_top.mpr ⟨hd, WithTop.one_ne_top⟩
  have hother (w : Fin n) (hw : s.dist w ≠ ⊤) : (Topology.reach d s link).dist w = s.dist w :=
    Function.update_of_ne (fun heq => hw (by rw [heq, hnew])) ..
  refine ⟨⟨fun w hw => ?_, fun w hw => ?_, fun w hw => ?_, ?_⟩, hother⟩
  · by_cases heq : w = link.srcNode
    · rw [heq, dist_reach_self]
    · have hdist : (Topology.reach d s link).dist w = s.dist w := Function.update_of_ne heq ..
      rw [hdist] at hw ⊢
      exact h.near w hw
  · obtain hmem | hmem := List.mem_append.mp hw
    · rw [hother w (h.reached w hmem)]
      exact h.front w hmem
    · rw [List.mem_singleton.mp hmem, dist_reach_self]
      exact le_add_of_nonneg_right zero_le_one
  · obtain hmem | hmem := List.mem_append.mp hw
    · rw [hother w (h.reached w hmem)]
      exact h.reached w hmem
    · rwa [List.mem_singleton.mp hmem, dist_reach_self]
  · refine List.pairwise_append.mpr ⟨?_, List.pairwise_singleton _ _, fun w hw w' hw' => ?_⟩
    · refine h.sorted.imp_of_mem fun {w w'} hw hw' hle => ?_
      rwa [hother w (h.reached w hw), hother w' (h.reached w' hw')]
    · rw [List.mem_singleton.mp hw', dist_reach_self, hother w (h.reached w hw)]
      exact h.near w (h.reached w hw)

/-- The place of a new node is the end of the queue. -/
theorem Level.improve_unit (h : Level d s) (hd : d ≠ ⊤) (hnew : s.dist link.srcNode = ⊤) :
    improve s.unit (unitLink link) (d + 1) = (Topology.reach d s link).unit := by
  have hend : ∀ w ∈ s.q, ¬ (Topology.reach d s link).dist link.srcNode <
      (Topology.reach d s link).dist w := by
    intro w hw
    rw [(h.reach hd hnew).2 w (h.reached w hw), dist_reach_self, not_lt]
    exact h.near w (h.reached w hw)
  have hq : s.q.insertUpper (fun w w' => (Topology.reach d s link).dist w <
      (Topology.reach d s link).dist w') link.srcNode = s.q ++ [link.srcNode] := by
    rw [List.insertUpper, List.takeWhile_eq_self_iff.mpr (by simpa using hend),
      List.dropWhile_eq_nil_iff.mpr (by simpa using hend)]
  have hsame : s.unit.dist (unitLink link).srcNode = ⊤ := hnew
  rw [improve, if_neg (not_not.mpr hsame)]
  refine Search.mk.injEq .. ▸ ⟨rfl, funext fun w => ?_, hq⟩
  by_cases hw : w = link.srcNode
  · subst hw
    simp [Search.unit, Topology.reach, unitLink]
  · simp [Search.unit, Topology.reach, unitLink, Function.update_of_ne hw]

/-- The weighted search finds no shorter path to a node that has been reached. -/
theorem relax_unit (top : Topology n) (target : Fin n) (h : Level d s) (hv : s.dist v = d)
    (hd : d ≠ ⊤) :
    relax top.unit target v s.unit (unitLink link) = .ok (top.visit v s link).unit ∧
      Level d (top.visit v s link) ∧ (top.visit v s link).dist v = d := by
  have hfinite : d + 1 ≠ ⊤ := WithTop.add_ne_top.mpr ⟨hd, WithTop.one_ne_top⟩
  by_cases henabled : link.enabled = true ∧ top.enabled link.srcNode = true
  · obtain ⟨hlink, hsrc⟩ := henabled
    have hrelax : relax top.unit target v s.unit (unitLink link) =
        if d + 1 < s.dist link.srcNode then .ok (improve s.unit (unitLink link) (d + 1))
        else .ok s.unit := by
      have hone : (if v ≠ target then d + 1 + 0 else d + 1) = d + 1 := by
        rw [add_zero, ite_self]
      have hcost : (if v ≠ target then s.unit.dist v + (unitLink link).weight + top.unit.weight v
          else s.unit.dist v + (unitLink link).weight) = d + 1 := by
        rw [← hone, ← hv]
        rfl
      rw [relax, if_neg (by simp [unitLink, hlink]), if_neg (by simp [unitLink, unit, hsrc]),
        assert_of (by simp [unitLink]), ok_bind]
      dsimp only
      rw [hcost]
      by_cases hlt : d + 1 < s.dist link.srcNode
      · rw [if_pos ⟨hfinite, hlt⟩, if_pos hlt]
        rfl
      · rw [if_neg fun hboth => hlt hboth.2, if_neg hlt]
    have hvisit : top.visit v s link = if s.dist link.srcNode = ⊤ then reach d s link else s := by
      simp [visit, hlink, hsrc, hv, reach]
    rw [hrelax, hvisit]
    by_cases hnew : s.dist link.srcNode = ⊤
    · obtain ⟨hlevel, hother⟩ := h.reach hd hnew
      rw [if_pos hnew, if_pos (hnew ▸ hfinite.lt_top), h.improve_unit hd hnew]
      exact ⟨rfl, hlevel, (hother v (hv ▸ hd)).trans hv⟩
    · rw [if_neg hnew, if_neg (h.near _ hnew).not_gt]
      exact ⟨rfl, h, hv⟩
  · have hvisit : top.visit v s link = s := by
      simp [visit]
      grind
    have hrelax : relax top.unit target v s.unit (unitLink link) = .ok s.unit := by
      simp [relax, unitLink, unit]
      grind
    rw [hvisit]
    exact ⟨hrelax, h, hv⟩

theorem foldl_visit_unit (top : Topology n) (target : Fin n) (links : List (Link n))
    (h : Level d s) (hv : s.dist v = d) (hd : d ≠ ⊤) :
    (links.map unitLink).foldlM (relax top.unit target v) s.unit =
        .ok (links.foldl (top.visit v) s).unit ∧ Level d (links.foldl (top.visit v) s) := by
  induction links generalizing s with
  | nil => exact ⟨rfl, h⟩
  | cons link links ih =>
    obtain ⟨hrelax, hlevel, hsame⟩ := relax_unit top target h hv hd
    rw [List.map_cons, List.foldlM_cons, hrelax]
    exact ih hlevel hsame

/-- Both searches take the same steps. The induction is on the rounds; between two of them the
distance of the first node in the queue grows by at most one. -/
theorem search_unit (top : Topology n) (target : Fin n) (fuel : ℕ) (h : Level d s) :
    search top.unit target fuel s.unit = (top.searchBreadthFirst fuel s).map Search.unit := by
  induction fuel generalizing d s with
  | zero =>
    rw [search, searchBreadthFirst, show s.unit.q = s.q from rfl]
    split_ifs <;> rfl
  | succ fuel ih =>
    rw [search, searchBreadthFirst, show s.unit.q = s.q from rfl]
    cases hq : s.q with
    | nil => rfl
    | cons v q =>
      obtain ⟨hfirst, hsorted⟩ := List.pairwise_cons.mp (hq ▸ h.sorted)
      have hreached := h.reached v (by simp [hq])
      have hpop : Level (s.dist v) { s with q } := by
        refine ⟨fun w hw => ?_, hfirst, fun w hw => h.reached w (by simp [hq, hw]), hsorted⟩
        exact (h.near w hw).trans (add_le_add_left (h.front v (by simp [hq])) 1)
      obtain ⟨hfold, hlevel⟩ := foldl_visit_unit top target (top.inLinks v) hpop rfl
        hreached
      have hexpand : expand top.unit target v { s.unit with q } =
          .ok ((top.inLinks v).foldl (top.visit v) { s with q }).unit := by
        rw [expand, assert_of (by simp [unit]), ok_bind]
        exact hfold
      dsimp only
      rw [hexpand, ok_bind]
      exact ih hlevel

/-- It terminates with the same distances and the same links as the weighted search does on the
graph with unit weights. They are those of shortest paths, counted in links. -/
theorem calculateUnweightedSingleShortestPathsTo_shortestPaths (top : Topology n)
    (target : Fin n) : ∃ s, top.calculateUnweightedSingleShortestPathsTo (some target) = .ok s ∧
      top.unit.calculateWeightedSingleShortestPathsTo (some target) = .ok s.unit ∧
      ShortestPaths top.unit target (top.unit.network.IsPath target) s.unit ∧
      ∀ v links, top.unit.network.IsPath target v links →
        top.unit.network.cost links = links.length := by
  let start : Search n :=
    { dist := Function.update (fun _ => ⊤) target 0, outPath := fun _ => none, q := [target] }
  have hzero : start.dist target = 0 := by simp [start]
  have htop (v : Fin n) (hv : v ≠ target) : start.dist v = ⊤ := by simp [start, hv]
  have hstart : Level 0 start := by
    refine ⟨fun v hv => ?_, fun v _ => ?_, fun v hv => ?_, List.pairwise_singleton _ _⟩
    · obtain rfl : v = target := by
        by_contra hne
        exact hv (htop v hne)
      rw [hzero]
      exact zero_le_one.trans_eq (zero_add 1).symm
    · by_cases hv : v = target
      · rw [hv, hzero]
      · exact le_top.trans_eq (htop v hv).symm
    · rw [List.mem_singleton.mp hv, hzero]
      exact WithTop.zero_ne_top
  obtain ⟨m, rfl⟩ := Nat.exists_eq_add_one.mpr target.pos
  obtain ⟨s, hexpand, hs⟩ := @expand_spec _ _ _ target _ _ top.weighted_unit _ (by simp)
    (explored_target top.unit target) (by simp)
  obtain ⟨s', done, hsearch, hs', hq⟩ := search_spec top.weighted_unit m hs (by
    rw [Finset.card_singleton]
    omega)
  have hweighted : search top.unit target (m + 1) start.unit = .ok s' := by
    change (expand _ _ _ _ >>= fun s => search _ _ m s) = _
    exact bind_eq_ok.mpr ⟨s, hexpand, hsearch⟩
  have hsame := search_unit top target (m + 1) hstart
  rw [hweighted] at hsame
  obtain ⟨u, hu, rfl⟩ := Result.map_eq_ok.mp hsame.symm
  exact ⟨u, hu, hweighted, hs'.shortestPaths top.weighted_unit hq, fun v links => cost_unit⟩

end Inet.Topology
