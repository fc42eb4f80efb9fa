import Mathlib

/-!
# Spanning trees of least paths

Nodes with identifiers are joined by links, and each end of a link has a cost. Every node knows
an identifier that it takes for that of the root, a cost, and a parent unless it takes itself for
the root. `Settled` says that neighbours agree, that no neighbour offers a lower cost, and that
the cost of a node is that of its parent and of the link to it.

Then all nodes agree on the node with the least identifier, their costs are those of least
paths to it, and the links to the parents form a spanning tree.
-/

namespace SpanningTree

variable {V α : Type*}

/-- A path from a node to `r`, with the sum of the costs at the ends where it leaves. -/
inductive PathCost (link : V → V → ℕ → Prop) (r : V) : V → ℕ → Prop
  | nil : PathCost link r r 0
  | cons {v w : V} {c k : ℕ} : link v w c → PathCost link r w k → PathCost link r v (k + c)

/-- What the nodes know. -/
structure Labelling (V α : Type*) where
  id : V → α
  root : V → α
  cost : V → ℕ
  parent : V → Option V

namespace Labelling

/-- The links between nodes and their parents. -/
def tree (l : Labelling V α) : SimpleGraph V := .fromRel fun v w => l.parent v = some w

variable [LinearOrder α] {link : V → V → ℕ → Prop} {l : Labelling V α} {v w r : V} {k : ℕ}

structure Settled (link : V → V → ℕ → Prop) (l : Labelling V α) : Prop where
  connected : ∀ v w, Relation.ReflTransGen (fun v w => ∃ c, link v w c) v w
  agree : ∀ {v w c}, link v w c → l.root v = l.root w
  least : ∀ {v w c}, link v w c → l.cost v ≤ l.cost w + c
  top : ∀ {v}, l.parent v = none → l.root v = l.id v ∧ l.cost v = 0
  below : ∀ {v w}, l.parent v = some w →
    l.root v < l.id v ∧ ∃ c, 0 < c ∧ link v w c ∧ l.cost v = l.cost w + c

section

variable (h : l.Settled link)

include h

theorem Settled.root_eq (v w : V) : l.root v = l.root w := by
  induction h.connected v w with
  | refl => rfl
  | tail _ hlink ih =>
    obtain ⟨c, hlink⟩ := hlink
    exact ih.trans (h.agree hlink)

theorem Settled.root_le_id (v : V) : l.root v ≤ l.id v := by
  cases hparent : l.parent v with
  | none => exact (h.top hparent).1.le
  | some w => exact (h.below hparent).1.le

/-- The parents lead to a node that takes itself for the root, at the cost that is known. -/
theorem Settled.exists_top (v : V) :
    ∃ r, l.parent r = none ∧ PathCost link r v (l.cost v) ∧ l.tree.Reachable v r := by
  induction hcost : l.cost v using Nat.strong_induction_on generalizing v with
  | _ n ih =>
    cases hparent : l.parent v with
    | none =>
      have hzero := (h.top hparent).2
      refine ⟨v, hparent, ?_, .refl v⟩
      rw [← hcost, hzero]
      exact .nil
    | some w =>
      obtain ⟨-, c, hc, hlink, hsum⟩ := h.below hparent
      obtain ⟨r, hr, hpath, hreach⟩ := ih (l.cost w) (by omega) w rfl
      have hadj : l.tree.Adj v w := by
        refine (SimpleGraph.fromRel_adj ..).mpr ⟨?_, .inl hparent⟩
        rintro rfl
        omega
      refine ⟨r, hr, ?_, hadj.reachable.trans hreach⟩
      rw [← hcost, hsum]
      exact .cons hlink hpath

/-- The root has the least identifier. -/
theorem Settled.isLeast_id (hr : l.parent r = none) :
    (∀ v, l.root v = l.id r) ∧ IsLeast (Set.range l.id) (l.id r) := by
  have hroot : ∀ v, l.root v = l.id r := fun v => (h.root_eq v r).trans (h.top hr).1
  refine ⟨hroot, ⟨r, rfl⟩, ?_⟩
  rintro _ ⟨v, rfl⟩
  exact hroot v ▸ h.root_le_id v

theorem Settled.eq_of_top (injective : Function.Injective l.id)
    (hr : l.parent r = none) (hv : l.parent v = none) : v = r :=
  injective ((h.top hv).1.symm.trans ((h.isLeast_id hr).1 v))

theorem Settled.cost_le (hr : l.parent r = none) (hpath : PathCost link r v k) : l.cost v ≤ k := by
  induction hpath with
  | nil => exact (h.top hr).2.le
  | cons hlink _ ih => exact (h.least hlink).trans (Nat.add_le_add_right ih _)

/-- The costs are those of least paths. -/
theorem Settled.isLeast_cost (injective : Function.Injective l.id)
    (hr : l.parent r = none) (v : V) : IsLeast {k | PathCost link r v k} (l.cost v) := by
  obtain ⟨r', hr', hpath, -⟩ := h.exists_top v
  obtain rfl := h.eq_of_top injective hr hr'
  exact ⟨hpath, fun k hk => h.cost_le hr hk⟩

/-- The links to the parents form a spanning tree. -/
theorem Settled.isTree [Finite V] (injective : Function.Injective l.id)
    (hr : l.parent r = none) : l.tree.IsTree := by
  have hreach : ∀ v, l.tree.Reachable v r := fun v => by
    obtain ⟨r', hr', -, hreach⟩ := h.exists_top v
    exact h.eq_of_top injective hr hr' ▸ hreach
  have hparent : ∀ v : {v // v ≠ r}, ∃ w, l.parent v = some w := fun v =>
    Option.ne_none_iff_exists'.mp fun hnone => v.2 (h.eq_of_top injective hr hnone)
  choose up hup using hparent
  have hless : ∀ v : {v // v ≠ r}, l.cost (up v) < l.cost v := fun v => by
    obtain ⟨-, c, hc, -, hsum⟩ := h.below (hup v)
    omega
  have hadj : ∀ v : {v // v ≠ r}, l.tree.Adj v (up v) := fun v => by
    refine (SimpleGraph.fromRel_adj ..).mpr ⟨fun heq => ?_, .inl (hup v)⟩
    have := hless v
    rw [← heq] at this
    omega
  -- every edge is that of one node to its parent
  let edge (v : {v // v ≠ r}) : l.tree.edgeSet := ⟨s(v.1, up v), hadj v⟩
  have hbijective : Function.Bijective edge := by
    refine ⟨fun v w heq => ?_, fun ⟨e, he⟩ => ?_⟩
    · have heq : s(v.1, up v) = s(w.1, up w) := congrArg Subtype.val heq
      obtain ⟨hvw, -⟩ | ⟨hv, hw⟩ := Sym2.eq_iff.mp heq
      · exact Subtype.ext hvw
      · have h₁ := hless v
        have h₂ := hless w
        rw [hw] at h₁
        rw [← hv] at h₂
        omega
    · induction e with
      | _ v w =>
        have edge_of : ∀ {v w}, l.parent v = some w → ∃ u, (edge u).1 = s(v, w) := by
          intro v w hpar
          have hne : v ≠ r := by
            rintro rfl
            rw [hr] at hpar
            cases hpar
          refine ⟨⟨v, hne⟩, ?_⟩
          have := Option.some.inj ((hup ⟨v, hne⟩).symm.trans hpar)
          show s(v, up ⟨v, hne⟩) = s(v, w)
          rw [this]
        have he : l.tree.Adj v w := he
        obtain ⟨-, hpar | hpar⟩ := (SimpleGraph.fromRel_adj ..).mp he
        · obtain ⟨u, hu⟩ := edge_of hpar
          exact ⟨u, Subtype.ext hu⟩
        · obtain ⟨u, hu⟩ := edge_of hpar
          exact ⟨u, Subtype.ext (hu.trans Sym2.eq_swap)⟩
  rw [SimpleGraph.isTree_iff_connected_and_card]
  constructor
  · exact { preconnected := fun v w => (hreach v).trans (hreach w).symm, nonempty := ⟨r⟩ }
  · classical
    rw [← Nat.card_congr (Equiv.ofBijective edge hbijective), ← Finite.card_option]
    exact Nat.card_congr (Equiv.optionSubtypeNe r)

end

end Labelling

end SpanningTree
