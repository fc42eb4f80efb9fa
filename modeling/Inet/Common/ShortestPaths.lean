import Inet.Common.Topology

/-!
# The computed distances are those of shortest paths

The nodes that have been expanded are the nearest ones, the queue has the other nodes that have
been reached, and `outPath` leads from each node that has been reached to an expanded one. An
expanded node is never reached again on a shorter path, because the links have positive weights.
-/

namespace Inet.Topology

variable {n : ℕ} {top : Topology n} {target dest : Fin n} {done : Finset (Fin n)}
  {P : Link n → Prop} {s : Search n} {link : Link n}

/-- The links in `P` have been relaxed, and the nodes in `done` expanded. -/
structure Explored (top : Topology n) (target : Fin n) (done : Finset (Fin n))
    (P : Link n → Prop) (s : Search n) : Prop where
  target_mem : target ∈ done
  dist_target : s.dist target = 0
  finite : ∀ v ∈ done, s.dist v ≠ ⊤
  nearest : ∀ v ∈ done, ∀ w ∉ done, s.dist v ≤ s.dist w
  queue : ∀ v, v ∈ s.q ↔ v ∉ done ∧ s.dist v ≠ ⊤
  nodup : s.q.Nodup
  sorted : s.q.SortedBy fun v w => s.dist v < s.dist w
  dest_mem : ∀ link, P link → link.destNode ∈ done
  relaxed : ∀ link, P link → top.network.usable link → s.dist link.srcNode ≤
      s.dist link.destNode + (link.weight + top.network.charge target link.destNode)
  unreached : ∀ v, s.dist v = ⊤ → s.outPath v = none
  tree : ∀ v, v ≠ target → s.dist v ≠ ⊤ → ∃ link, s.outPath v = some link ∧
    top.network.usable link ∧ link.srcNode = v ∧ link.destNode ∈ done ∧
    s.dist v = s.dist link.destNode + (link.weight + top.network.charge target link.destNode)

theorem charge_nonneg (h : top.Weighted) (v : Fin n) : 0 ≤ top.network.charge target v := by
  rw [Network.charge]
  split_ifs
  · exact le_rfl
  · exact h.node v

/-- A number that is not infinite grows with a positive one. -/
theorem lt_add_of_pos {x y : WithTop ℚ} (hx : x ≠ ⊤) (hy : 0 < y) : x < x + y := by
  lift x to ℚ using hx
  cases y with
  | top => exact WithTop.coe_lt_top x
  | coe y =>
    have hpos : 0 < y := WithTop.coe_pos.mp hy
    rw [← WithTop.coe_add, WithTop.coe_lt_coe]
    linarith

/-- The links that are not looked at are not usable. -/
theorem Explored.skip (h : Explored top target done P s) (hdest : link.destNode ∈ done)
    (hle : top.network.usable link → s.dist link.srcNode ≤
      s.dist link.destNode + (link.weight + top.network.charge target link.destNode)) :
    Explored top target done (fun l => P l ∨ l = link) s :=
  { h with
    dest_mem := by
      rintro l (hl | rfl)
      · exact h.dest_mem l hl
      · exact hdest
    relaxed := by
      rintro l (hl | rfl)
      · exact h.relaxed l hl
      · exact hle }

/-- The state with a shorter path from the source of a link. -/
def improve (s : Search n) (link : Link n) (newdist : WithTop ℚ) : Search n :=
  let q := if s.dist link.srcNode ≠ ⊤ then s.q.filter fun v => v ≠ link.srcNode else s.q
  let dist := Function.update s.dist link.srcNode newdist
  { dist
    outPath := Function.update s.outPath link.srcNode (some link)
    q := q.insertUpper (fun v w => dist v < dist w) link.srcNode }

/-- A node that is reached on a shorter path has not been expanded. -/
theorem srcNode_notMem (hmax : ∀ v ∈ done, s.dist v ≤ s.dist link.destNode)
    {newdist : WithTop ℚ} (hgrow : s.dist link.destNode < newdist)
    (hless : newdist < s.dist link.srcNode) : link.srcNode ∉ done :=
  fun hmem => absurd (hless.trans_le (hmax _ hmem)) hgrow.not_gt

theorem explored_improve (h : Explored top target done P s)
    (husable : top.network.usable link) (hdest : link.destNode ∈ done)
    (hmax : ∀ v ∈ done, s.dist v ≤ s.dist link.destNode) {newdist : WithTop ℚ}
    (hnew : newdist = s.dist link.destNode +
      (link.weight + top.network.charge target link.destNode))
    (hgrow : s.dist link.destNode < newdist) (hfinite : newdist ≠ ⊤)
    (hless : newdist < s.dist link.srcNode) :
    Explored top target done (fun l => P l ∨ l = link) (improve s link newdist) := by
  have hsrc := srcNode_notMem hmax hgrow hless
  have hne (v : Fin n) (hv : v ∈ done) : v ≠ link.srcNode := fun heq => hsrc (heq ▸ hv)
  have hself : (improve s link newdist).dist link.srcNode = newdist := Function.update_self ..
  have hother (v : Fin n) (hv : v ≠ link.srcNode) : (improve s link newdist).dist v = s.dist v :=
    Function.update_of_ne hv ..
  have hle (v : Fin n) : (improve s link newdist).dist v ≤ s.dist v := by
    by_cases hv : v = link.srcNode
    · rw [hv, hself]
      exact hless.le
    · rw [hother v hv]
  have hremoved : (if s.dist link.srcNode ≠ ⊤ then s.q.filter fun v => v ≠ link.srcNode else s.q) =
      s.q.filter fun v => v ≠ link.srcNode := by
    split_ifs with hreached
    · rfl
    · refine (List.filter_eq_self.mpr fun v hv => ?_).symm
      have := ((h.queue v).mp hv).2
      grind
  have hq : (improve s link newdist).q = (s.q.filter fun v => v ≠ link.srcNode).insertUpper
      (fun v w => (improve s link newdist).dist v < (improve s link newdist).dist w)
      link.srcNode := by
    rw [← hremoved]
    rfl
  constructor
  · exact h.target_mem
  · rw [hother _ (hne _ h.target_mem)]
    exact h.dist_target
  · intro v hv
    rw [hother v (hne v hv)]
    exact h.finite v hv
  · intro v hv w hw
    rw [hother v (hne v hv)]
    by_cases heq : w = link.srcNode
    · rw [heq, hself]
      exact (hmax v hv).trans hgrow.le
    · rw [hother w heq]
      exact h.nearest v hv w hw
  · intro v
    rw [hq, List.mem_insertUpper]
    by_cases heq : v = link.srcNode
    · subst heq
      rw [hself]
      exact iff_of_true (.inl rfl) ⟨hsrc, hfinite⟩
    · rw [hother v heq, ← h.queue v]
      simp [heq]
  · obtain ⟨l₁, l₂, hsplit, hinsert⟩ := List.exists_insertUpper
      (fun v w => decide ((improve s link newdist).dist v < (improve s link newdist).dist w))
      link.srcNode (s.q.filter fun v => v ≠ link.srcNode)
    rw [hq, hinsert, List.nodup_middle, ← hsplit, List.nodup_cons]
    exact ⟨by simp, h.nodup.filter _⟩
  · rw [hq]
    refine List.SortedBy.insertUpper (by simpa using fun _ _ _ => lt_trans)
      (by simpa using fun _ _ => le_of_lt) ?_
    refine List.Pairwise.imp_of_mem ?_ (List.Pairwise.filter _ h.sorted)
    intro v w hv hw hvw
    rw [List.mem_filter, decide_eq_true_eq] at hv hw
    dsimp only at hvw ⊢
    rw [hother v hv.2, hother w hw.2]
    exact hvw
  · rintro l (hl | rfl)
    · exact h.dest_mem l hl
    · exact hdest
  · rintro l (hl | rfl) hl'
    · rw [hother _ (hne _ (h.dest_mem l hl))]
      exact (hle _).trans (h.relaxed l hl hl')
    · rw [hself, hother _ (hne _ hdest), hnew]
  · intro v hv
    by_cases heq : v = link.srcNode
    · rw [heq, hself] at hv
      exact absurd hv hfinite
    · rw [hother v heq] at hv
      exact (Function.update_of_ne heq ..).trans (h.unreached v hv)
  · intro v hv hreached
    by_cases heq : v = link.srcNode
    · subst heq
      refine ⟨link, Function.update_self .., husable, rfl, hdest, ?_⟩
      rw [hself, hother _ (hne _ hdest), hnew]
    · rw [hother v heq] at hreached
      obtain ⟨l, hl, husable', hl', hmem, hdist⟩ := h.tree v hv hreached
      refine ⟨l, (Function.update_of_ne heq ..).trans hl, husable', hl', hmem, ?_⟩
      rw [hother v heq, hother _ (hne _ hmem), hdist]

theorem relax_spec (hw : top.Weighted) (h : Explored top target done P s) (hdest : dest ∈ done)
    (hmax : ∀ v ∈ done, s.dist v ≤ s.dist dest) (hlink : link ∈ top.inLinks dest) :
    ∃ s', top.relax target dest s link = .ok s' ∧
      Explored top target done (fun l => P l ∨ l = link) s' ∧ ∀ v ∈ done, s'.dist v = s.dist v := by
  obtain rfl := top.destNode_eq dest link hlink
  rw [relax]
  by_cases henabled : link.enabled = true
  swap
  · rw [if_pos (by simpa using henabled)]
    exact ⟨s, rfl, h.skip hdest fun husable => absurd husable.2.1 henabled, fun _ _ => rfl⟩
  by_cases hsource : top.enabled link.srcNode = true
  swap
  · rw [if_neg (by simpa using henabled), if_pos (by simpa using hsource)]
    exact ⟨s, rfl, h.skip hdest fun husable => absurd husable.2.2 hsource, fun _ _ => rfl⟩
  have hweight := hw.link _ link hlink
  have hgrow : s.dist link.destNode <
      s.dist link.destNode + (link.weight + top.network.charge target link.destNode) :=
    lt_add_of_pos (h.finite _ hdest) (add_pos_of_pos_of_nonneg hweight (charge_nonneg hw _))
  have hnew : (if link.destNode ≠ target then
      s.dist link.destNode + link.weight + top.weight link.destNode
      else s.dist link.destNode + link.weight) =
      s.dist link.destNode + (link.weight + top.network.charge target link.destNode) := by
    rw [Network.charge, ite_not]
    split_ifs
    · rw [add_zero]
    · exact add_assoc ..
  rw [if_neg (by simpa using henabled), if_neg (by simpa using hsource),
    assert_of (decide_eq_true hweight)]
  rw [ok_bind]
  dsimp only
  rw [hnew]
  by_cases hless : s.dist link.destNode +
      (link.weight + top.network.charge target link.destNode) ≠ ⊤ ∧
      s.dist link.destNode + (link.weight + top.network.charge target link.destNode) <
        s.dist link.srcNode
  · have hsrc := srcNode_notMem hmax hgrow hless.2
    rw [if_pos hless]
    exact ⟨_, rfl, explored_improve h ⟨hlink, henabled, hsource⟩ hdest hmax rfl hgrow hless.1
      hless.2, fun v hv => Function.update_of_ne (ne_of_mem_of_not_mem hv hsrc) ..⟩
  · rw [if_neg hless]
    refine ⟨s, rfl, h.skip hdest fun _ => ?_, fun _ _ => rfl⟩
    by_contra hlt
    exact hless ⟨(not_le.mp hlt).ne_top, not_le.mp hlt⟩

theorem Explored.of_imp {Q : Link n → Prop} (h : Explored top target done P s)
    (himp : ∀ l, Q l → top.network.usable l → P l) (hmem : ∀ l, Q l → l.destNode ∈ done) :
    Explored top target done Q s :=
  { h with
    dest_mem := hmem
    relaxed := fun l hl husable => h.relaxed l (himp l hl husable) husable }

/-- The loop over links into a node that has been expanded last. -/
theorem relax_foldlM (hw : top.Weighted) (hdest : dest ∈ done) {links : List (Link n)}
    (hlinks : ∀ link ∈ links, link ∈ top.inLinks dest) (h : Explored top target done P s)
    (hmax : ∀ v ∈ done, s.dist v ≤ s.dist dest) :
    ∃ s', links.foldlM (relax top target dest) s = .ok s' ∧
      Explored top target done (fun l => P l ∨ l ∈ links) s' := by
  induction links generalizing P s with
  | nil =>
    refine ⟨s, rfl, h.of_imp (fun l hl _ => ?_) fun l hl => ?_⟩
    · simpa using hl
    · exact h.dest_mem l (by simpa using hl)
  | cons link links ih =>
    obtain ⟨s', hrelax, hs', hdist⟩ := relax_spec hw h hdest hmax (hlinks link (by simp))
    obtain ⟨s'', hfold, hs''⟩ := ih (fun l hl => hlinks l (by simp [hl])) hs' fun v hv => by
      rw [hdist v hv, hdist dest hdest]
      exact hmax v hv
    refine ⟨s'', ?_, hs''.of_imp (fun l hl _ => ?_) fun l hl => ?_⟩
    · rw [List.foldlM_cons, hrelax, ok_bind, hfold]
    · simpa [or_assoc] using hl
    · exact hs''.dest_mem l (by simpa [or_assoc] using hl)

/-- The first node of the queue is the nearest one of those that have not been expanded. -/
theorem Explored.pop (h : Explored top target done P s) {q : List (Fin n)} (hq : s.q = dest :: q) :
    Explored top target (insert dest done) P { s with q } ∧
      ∀ v ∈ insert dest done, s.dist v ≤ s.dist dest := by
  obtain ⟨hnotMem, hreached⟩ := (h.queue dest).mp (by simp [hq])
  have hnodup := hq ▸ h.nodup
  have hsorted := hq ▸ h.sorted
  rw [List.nodup_cons] at hnodup
  rw [List.SortedBy, List.pairwise_cons] at hsorted
  refine ⟨?_, ?_⟩
  · constructor
    · exact Finset.mem_insert_of_mem h.target_mem
    · exact h.dist_target
    · intro v hv
      obtain rfl | hv := Finset.mem_insert.mp hv
      · exact hreached
      · exact h.finite v hv
    · intro v hv w hw
      rw [Finset.mem_insert, not_or] at hw
      obtain rfl | hv := Finset.mem_insert.mp hv
      · by_cases htop : s.dist w = ⊤
        · exact htop ▸ le_top
        · have hmem : w ∈ q := by simpa [hq, hw.1] using (h.queue w).mpr ⟨hw.2, htop⟩
          simpa using hsorted.1 w hmem
      · exact h.nearest v hv w hw.2
    · intro v
      have hqueue := h.queue v
      rw [hq, List.mem_cons] at hqueue
      rw [Finset.mem_insert, not_or, and_assoc, ← hqueue]
      grind
    · exact hnodup.2
    · exact hsorted.2
    · exact fun l hl => Finset.mem_insert_of_mem (h.dest_mem l hl)
    · exact h.relaxed
    · exact h.unreached
    · intro v hv hv'
      obtain ⟨l, hl, husable, hsrc, hmem, hdist⟩ := h.tree v hv hv'
      exact ⟨l, hl, husable, hsrc, Finset.mem_insert_of_mem hmem, hdist⟩
  · intro v hv
    obtain rfl | hv := Finset.mem_insert.mp hv
    · exact le_rfl
    · exact h.nearest v hv dest hnotMem

/-- A round of the loop over the queue, after the node has been taken out. -/
theorem expand_spec (hw : top.Weighted) {expanded : Finset (Fin n)}
    (hdone : ∀ v, v ∈ done ↔ v = dest ∨ v ∈ expanded)
    (h : Explored top target done (fun l => l.destNode ∈ expanded) s)
    (hmax : ∀ v ∈ done, s.dist v ≤ s.dist dest) :
    ∃ s', expand top target dest s = .ok s' ∧
      Explored top target done (fun l => l.destNode ∈ done) s' := by
  obtain ⟨s', hfold, hs'⟩ := relax_foldlM hw ((hdone dest).mpr (.inl rfl)) (fun _ hl => hl) h hmax
  refine ⟨s', ?_, hs'.of_imp (fun l hl husable => ?_) fun _ hl => hl⟩
  · rw [expand, assert_of (decide_eq_true (hw.node dest)), ok_bind, hfold]
  · obtain heq | hmem := (hdone _).mp hl
    · exact .inr (heq ▸ husable.1)
    · exact .inl hmem

/-- The loop ends with an empty queue. The induction is on the number of rounds, which is at least
the number of nodes that have not been expanded. -/
theorem search_spec (hw : top.Weighted) (fuel : ℕ)
    (h : Explored top target done (fun l => l.destNode ∈ done) s) (hfuel : n ≤ done.card + fuel) :
    ∃ s' done', search top target fuel s = .ok s' ∧
      Explored top target done' (fun l => l.destNode ∈ done') s' ∧ s'.q = [] := by
  induction fuel generalizing done s with
  | zero =>
    have huniv : done = Finset.univ := by
      rw [← Finset.card_eq_iff_eq_univ, Fintype.card_fin]
      have := Finset.card_le_univ done
      rw [Fintype.card_fin] at this
      omega
    have hq : s.q = [] := by
      rw [List.eq_nil_iff_forall_not_mem]
      intro v hv
      exact ((h.queue v).mp hv).1 (by simp [huniv])
    exact ⟨s, done, by rw [search, hq]; rfl, h, hq⟩
  | succ fuel ih =>
    rw [search]
    cases hq : s.q with
    | nil => exact ⟨s, done, rfl, h, hq⟩
    | cons dest q =>
      obtain ⟨hpop, hmax⟩ := h.pop hq
      obtain ⟨s', hexpand, hs'⟩ := expand_spec hw (by simp) hpop hmax
      obtain ⟨s'', done', hsearch, hs''⟩ := ih hs' (by
        rw [Finset.card_insert_of_notMem ((h.queue dest).mp (by simp [hq])).1]
        omega)
      refine ⟨s'', done', ?_, hs''⟩
      dsimp only
      rw [hexpand, ok_bind, hsearch]

/-- The state of the search after the target has been taken out of the queue. -/
theorem explored_target (top : Topology n) (target : Fin n) :
    Explored top target {target} (fun l => l.destNode ∈ (∅ : Finset (Fin n)))
      { dist := Function.update (fun _ => ⊤) target 0, outPath := fun _ => none, q := [] } := by
  have hother (v : Fin n) (hv : v ≠ target) :
      Function.update (fun _ => (⊤ : WithTop ℚ)) target 0 v = ⊤ := Function.update_of_ne hv ..
  constructor
  · simp
  · simp
  · simp
  · intro v hv w hw
    exact le_top.trans_eq (hother w (by simpa using hw)).symm
  · intro v
    by_cases hv : v = target <;> simp [hv]
  · exact List.nodup_nil
  · exact List.Pairwise.nil
  · simp
  · simp
  · exact fun _ _ => rfl
  · exact fun v hv hv' => absurd (hother v hv) hv'

/-- Once the queue is empty every node that has been reached has been expanded. -/
theorem Explored.shortestPaths (hw : top.Weighted)
    (h : Explored top target done (fun l => l.destNode ∈ done) s) (hq : s.q = []) :
    ShortestPaths top target (top.network.IsPath target) s := by
  have hdone (v : Fin n) (hv : s.dist v ≠ ⊤) : v ∈ done := by
    by_contra hmem
    simpa [hq] using (h.queue v).mpr ⟨hmem, hv⟩
  have htree : Network.Tree top.network target s.dist s.outPath := by
    refine ⟨h.dist_target, fun v hv hreached => ?_⟩
    obtain ⟨link, hlink, husable, hsrc, hmem, hdist⟩ := h.tree v hv hreached
    refine ⟨link, hlink, husable, hsrc, ?_, hdist⟩
    rw [hdist]
    exact lt_add_of_pos (h.finite _ hmem)
      (add_pos_of_pos_of_nonneg (hw.link _ link husable.1) (charge_nonneg hw _))
  refine ⟨fun v links hpath => ?_, h.unreached, fun v hv => htree.exists_follows hv⟩
  refine Network.le_cost hw.node h.dist_target.le (fun l husable => ?_) hpath
  by_cases htop : s.dist l.destNode = ⊤
  · rw [show s.dist (top.network.dst l) = ⊤ from htop, top_add]
    exact le_top
  · exact h.relaxed l (hdone _ htop) husable

/-- It terminates, with the distances of shortest paths. The nodes of a path are enabled, apart
from the target, whose flag is not looked at. -/
theorem calculateWeightedSingleShortestPathsTo_shortestPaths (hw : top.Weighted)
    (target : Fin n) : ∃ s, top.calculateWeightedSingleShortestPathsTo (some target) = .ok s ∧
      ShortestPaths top target (top.network.IsPath target) s := by
  obtain ⟨m, rfl⟩ := Nat.exists_eq_add_one.mpr target.pos
  obtain ⟨s, hexpand, hs⟩ := @expand_spec _ _ _ target _ _ hw _ (by simp)
    (explored_target top target) (by simp)
  obtain ⟨s', done, hsearch, hs', hq⟩ := search_spec hw m hs (by rw [Finset.card_singleton]; omega)
  refine ⟨s', ?_, hs'.shortestPaths hw hq⟩
  rw [calculateWeightedSingleShortestPathsTo, search]
  dsimp only
  rw [hexpand, Result.ok_bind, hsearch]

/-- A path whose nodes are all enabled. -/
def EnabledPath (top : Topology n) (target v : Fin n) (links : List (Link n)) : Prop :=
  top.network.IsPath target v links ∧ top.enabled v = true ∧
    ∀ link ∈ links, top.enabled link.destNode = true

theorem EnabledPath.enabled_target {v : Fin n} {links : List (Link n)}
    (h : top.EnabledPath target v links) : top.enabled target = true := by
  induction links generalizing v with
  | nil =>
    obtain ⟨rfl, henabled, -⟩ := h
    exact henabled
  | cons l ls ih =>
    obtain ⟨⟨-, -, hrest⟩, -, hlinks⟩ := h
    rw [List.forall_mem_cons] at hlinks
    exact ih ⟨hrest, hlinks⟩

/-- Two nodes with a link from the first to the second, of weight 1. -/
def twoNodes (enabled : Fin 2 → Bool) : Topology 2 where
  weight := fun _ => 0
  enabled
  inLinks v := if v = 1 then [{ srcNode := 0, destNode := 1, weight := 1 }] else []
  destNode_eq := by decide

theorem weighted_twoNodes (enabled : Fin 2 → Bool) : (twoNodes enabled).Weighted := by
  refine ⟨fun v link hlink => ?_, fun _ => le_rfl⟩
  dsimp only [twoNodes] at hlink
  split_ifs at hlink
  · rw [List.mem_singleton.mp hlink]
    exact zero_lt_one
  · simp at hlink

theorem shortestPaths_twoNodes :
    ∃ s, (twoNodes fun _ => true).calculateWeightedSingleShortestPathsTo (some 1) = .ok s ∧
      ShortestPaths (twoNodes fun _ => true) 1 ((twoNodes fun _ => true).network.IsPath 1) s :=
  calculateWeightedSingleShortestPathsTo_shortestPaths (weighted_twoNodes _) 1

/-- The first node has a path to the second one although that is not enabled. -/
theorem not_shortestPaths_disabledTarget : (twoNodes fun v => v == 0).Weighted ∧ ∃ s,
      (twoNodes fun v => v == 0).calculateWeightedSingleShortestPathsTo (some 1) = .ok s ∧
      ¬ ShortestPaths (twoNodes fun v => v == 0) 1
        ((twoNodes fun v => v == 0).EnabledPath 1) s := by
  refine ⟨weighted_twoNodes _, _, rfl, fun h => ?_⟩
  obtain ⟨links, -, hpath, -⟩ := h.reached 0 (by decide)
  exact absurd hpath.enabled_target (by decide)

end Inet.Topology
