import Mathlib

/-!
# Paths with lengths and transit costs

A network has links between nodes, with a length for each link and a cost for each node that a path
passes through. `le_cost` is the bound that a labelling of the nodes gives if no link can improve
it, `exists_follows` says that a labelling which is the cost of the next link everywhere is the cost
of the path along the next links.
-/

universe u v w

/-- `src` and `dst` are the ends of a link. -/
structure Network (V : Type u) (L : Type v) (W : Type w) where
  src : L → V
  dst : L → V
  usable : L → Prop
  length : L → W
  transit : V → W

namespace Network

variable {V : Type u} {L : Type v} {W : Type w} (net : Network V L W) (t : V)

/-- Usable links, one after the other, that lead to `t`. -/
def IsPath : V → List L → Prop
  | v, [] => v = t
  | v, l :: ls => net.usable l ∧ net.src l = v ∧ IsPath (net.dst l) ls

/-- The links that `next` gives, one after the other. -/
def Follows (next : V → Option L) : V → List L → Prop
  | v, [] => v = t
  | v, l :: ls => v ≠ t ∧ next v = some l ∧ Follows next (net.dst l) ls

variable [AddCommMonoid W]

/-- The lengths of the links and the costs of the nodes between them. -/
def cost : List L → W
  | [] => 0
  | [l] => net.length l
  | l :: l' :: ls => net.length l + net.transit (net.dst l) + cost (l' :: ls)

variable [DecidableEq V]

/-- The cost of passing through a node on the way to `t`. -/
def charge (v : V) : W := if v = t then 0 else net.transit v

theorem charge_self : net.charge t t = 0 := if_pos rfl

variable {net t} [LinearOrder W]

theorem charge_le (htransit : ∀ v, 0 ≤ net.transit v) (v : V) : net.charge t v ≤ net.transit v := by
  rw [charge]
  split_ifs
  · exact htransit v
  · exact le_rfl

/-- A labelling that no link can improve is a lower bound. -/
theorem le_cost [IsOrderedAddMonoid W] {d : V → W} (htransit : ∀ v, 0 ≤ net.transit v)
    (htarget : d t ≤ 0)
    (hrelaxed : ∀ l, net.usable l →
      d (net.src l) ≤ d (net.dst l) + (net.length l + net.charge t (net.dst l)))
    {v : V} {links : List L} (hpath : net.IsPath t v links) : d v ≤ net.cost links := by
  induction links generalizing v with
  | nil =>
    obtain rfl : v = t := hpath
    exact htarget
  | cons l ls ih =>
    obtain ⟨husable, rfl, hrest⟩ := hpath
    have hlink := hrelaxed l husable
    cases ls with
    | nil =>
      have hdst : net.dst l = t := hrest
      rw [hdst, charge_self, add_zero] at hlink
      exact hlink.trans (add_le_of_nonpos_left htarget)
    | cons l' ls =>
      calc d (net.src l) ≤ d (net.dst l) + (net.length l + net.charge t (net.dst l)) := hlink
        _ ≤ net.cost (l' :: ls) + (net.length l + net.transit (net.dst l)) :=
            add_le_add (ih hrest) (add_le_add le_rfl (charge_le htransit _))
        _ = net.cost (l :: l' :: ls) := add_comm _ _

/-- Where a label is finite, the next link leads to a smaller one and accounts for the
difference. -/
structure Tree [OrderTop W] (net : Network V L W) (t : V) (d : V → W) (next : V → Option L) :
    Prop where
  target : d t = 0
  link : ∀ v, v ≠ t → d v ≠ ⊤ → ∃ l, next v = some l ∧ net.usable l ∧ net.src l = v ∧
    d (net.dst l) < d v ∧ d v = d (net.dst l) + (net.length l + net.charge t (net.dst l))

/-- The labels of a tree are the costs of its paths. -/
theorem Tree.exists_follows [OrderTop W] [Finite V] {d : V → W} {next : V → Option L}
    (h : Tree net t d next) {v : V} (hv : d v ≠ ⊤) :
    ∃ links, net.Follows t next v links ∧ net.IsPath t v links ∧ net.cost links = d v := by
  have hwf : WellFounded fun v w : V => d v < d w := by
    have : IsTrans V fun v w => d v < d w := ⟨fun _ _ _ => lt_trans⟩
    have : Std.Irrefl fun v w : V => d v < d w := ⟨fun _ => lt_irrefl _⟩
    exact Finite.wellFounded_of_trans_of_irrefl _
  induction v using hwf.induction with
  | _ v ih =>
    by_cases heq : v = t
    · subst heq
      exact ⟨[], rfl, rfl, h.target.symm⟩
    · obtain ⟨l, hnext, husable, rfl, hlt, hd⟩ := h.link v heq hv
      obtain ⟨links, hfollows, hpath, hcost⟩ := ih (net.dst l) hlt hlt.ne_top
      refine ⟨l :: links, ⟨heq, hnext, hfollows⟩, ⟨husable, rfl, hpath⟩, ?_⟩
      cases links with
      | nil =>
        have hdst : net.dst l = t := hpath
        rw [hd, hdst, h.target, charge_self, zero_add, add_zero]
        rfl
      | cons l' ls =>
        have hne : net.dst l ≠ t := hfollows.1
        rw [hd, charge, if_neg hne, ← hcost, add_comm]
        rfl

end Network
