import Mathlib

/-!
# Loop freedom by ranks

Nodes forward towards one destination. Each node has a next hop, or none, and a rank, which
says how good its knowledge of the destination is; announcements of a node's rank are on their
way to other nodes. A view is sound when the rank grows along every hop that does not reach the
destination and no announcement is better than what its sender knows.

The next hops of a sound view form no loop. A step of one node keeps the view sound when the
node takes a next hop only from a better announcement, and gives up knowledge only when nobody
relies on it.
-/

namespace LoopFreedom

variable {Node Rank : Type*}

/-- Next hops, ranks and announcements for one destination. -/
structure View (Node Rank : Type*) where
  next : Node → Option Node
  rank : Node → Rank
  announced : Set (Node × Rank)

namespace View

/-- `y` is the next hop of `x`. -/
def Hop (v : View Node Rank) (x y : Node) : Prop := v.next x = some y

/-- No node reaches itself over one hop or more. -/
def LoopFree (v : View Node Rank) : Prop := ∀ x, ¬ Relation.TransGen v.Hop x x

/-- Another node forwards to `x`, or may do so when an announcement of `x` arrives. -/
def Relied (v : View Node Rank) (x : Node) : Prop :=
  (∃ y, v.Hop y x) ∨ ∃ r, (x, r) ∈ v.announced

variable [Preorder Rank] {v v' : View Node Rank} {dest n x y : Node}

structure Sound (v : View Node Rank) (dest : Node) : Prop where
  stays : v.next dest = none
  climbs : ∀ {x y}, v.Hop x y → y = dest ∨ v.rank x < v.rank y
  backed : ∀ {x r}, (x, r) ∈ v.announced → x = dest ∨ r ≤ v.rank x

theorem Sound.climbs_trans (h : v.Sound dest) (hpath : Relation.TransGen v.Hop x y) :
    y = dest ∨ v.rank x < v.rank y := by
  induction hpath with
  | single hhop => exact h.climbs hhop
  | @tail y z _ hhop ih =>
    obtain hz | hrank := h.climbs hhop
    · exact .inl hz
    · obtain rfl | hbefore := ih
      · -- the destination has no next hop
        cases hhop.symm.trans h.stays
      · exact .inr (hbefore.trans hrank)

theorem Sound.loopFree (h : v.Sound dest) : v.LoopFree := by
  intro x hloop
  obtain rfl | hrank := h.climbs_trans hloop
  · obtain ⟨y, hhop, -⟩ := Relation.TransGen.head'_iff.mp hloop
    cases hhop.symm.trans h.stays
  · exact lt_irrefl _ hrank

/-- What node `n` may do: keep its next hop and its rank, give up its next hop, or take one
that knows more. -/
structure Step (v v' : View Node Rank) (dest n : Node) : Prop where
  next_other : ∀ {x}, x ≠ n → v'.next x = v.next x
  rank_other : ∀ {x}, x ≠ n → v'.rank x = v.rank x
  keeps : v.rank n ≤ v'.rank n ∨ ¬ v.Relied n
  next_self : v'.next n = none ∨ v'.next n = v.next n ∧ v'.rank n = v.rank n ∨
    ∃ y, v'.next n = some y ∧ y ≠ n ∧ n ≠ dest ∧ (y = dest ∨ v'.rank n < v.rank y)
  announced : ∀ {x r}, (x, r) ∈ v'.announced →
    (x, r) ∈ v.announced ∨ x = n ∧ (n = dest ∨ r ≤ v'.rank n)

/-- No hop of a sound view ends where it starts. -/
theorem Sound.ne_of_hop (h : v.Sound dest) (hhop : v.Hop x y) : y ≠ x := by
  rintro rfl
  exact h.loopFree y (.single hhop)

section

variable (hstep : Step v v' dest n) (h : v.Sound dest)

include hstep h

theorem Step.stays : v'.next dest = none := by
  by_cases hdest : dest = n
  · subst hdest
    obtain hnone | ⟨hnext, -⟩ | ⟨y, -, -, hne, -⟩ := hstep.next_self
    · exact hnone
    · exact hnext.trans h.stays
    · exact absurd rfl hne
  · exact (hstep.next_other hdest).trans h.stays

/-- A hop behind the step leads to a node that keeps its rank or to one that `n` is not. -/
theorem Step.climbs (hhop : v'.Hop x y) :
    y = dest ∨ v'.rank x < v'.rank y := by
  by_cases hx : x = n
  · subst hx
    obtain hnone | ⟨hnext, hrank⟩ | ⟨z, hz, hne, -, hclimb⟩ := hstep.next_self
    · cases hhop.symm.trans hnone
    · have hold : v.Hop x y := hnext.symm.trans hhop
      rw [hrank, hstep.rank_other (h.ne_of_hop hold)]
      exact h.climbs hold
    · obtain rfl : y = z := Option.some.inj (hhop.symm.trans hz)
      rw [hstep.rank_other hne]
      exact hclimb
  · have hold : v.Hop x y := (hstep.next_other hx).symm.trans hhop
    rw [hstep.rank_other hx]
    obtain hy | hclimb := h.climbs hold
    · exact .inl hy
    · by_cases hyn : y = n
      · subst hyn
        obtain hkeeps | hfree := hstep.keeps
        · exact .inr (hclimb.trans_le hkeeps)
        · exact absurd (.inl ⟨x, hold⟩) hfree
      · exact .inr (hclimb.trans_eq (hstep.rank_other hyn).symm)

theorem Step.backed {r : Rank}
    (hr : (x, r) ∈ v'.announced) : x = dest ∨ r ≤ v'.rank x := by
  obtain hold | ⟨rfl, hnew⟩ := hstep.announced hr
  · obtain hx | hle := h.backed hold
    · exact .inl hx
    · by_cases hxn : x = n
      · subst hxn
        obtain hkeeps | hfree := hstep.keeps
        · exact .inr (hle.trans hkeeps)
        · exact absurd (.inr ⟨r, hold⟩) hfree
      · exact .inr (hle.trans_eq (hstep.rank_other hxn).symm)
  · exact hnew

end

/-- A step of one node keeps a sound view sound. -/
theorem Sound.step (h : v.Sound dest) (hstep : Step v v' dest n) : v'.Sound dest where
  stays := hstep.stays h
  climbs := hstep.climbs h
  backed := hstep.backed h

/-- Announcements may get lost. -/
theorem Sound.lose (h : v.Sound dest) (hnext : v'.next = v.next) (hrank : v'.rank = v.rank)
    (hlost : v'.announced ⊆ v.announced) : v'.Sound dest where
  stays := hnext ▸ h.stays
  climbs := by
    intro x y hhop
    rw [hrank]
    apply h.climbs
    show v.next x = some y
    rw [← hnext]
    exact hhop
  backed hr := hrank ▸ h.backed (hlost hr)

end View

end LoopFreedom
