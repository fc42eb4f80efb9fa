import Mathlib

/-!
# The cheapest of many offers

Offers come one after another, each with a cost and some items. What is kept is the least cost so
far, with the items of all offers at this cost in their order.
-/

variable {α : Type*}

structure Offer (α : Type*) where
  cost : ℕ
  items : List α

namespace Offer

variable {offers : List (Offer α)} {cost : ℕ}

/-- The cheapest offers so far, and one more. -/
def improve (best : Option (ℕ × List α)) (offer : Offer α) : Option (ℕ × List α) :=
  match best with
  | none => some (offer.cost, offer.items)
  | some (cost, items) =>
    if offer.cost < cost then some (offer.cost, offer.items)
    else if offer.cost = cost then some (cost, items ++ offer.items)
    else some (cost, items)

/-- The least cost, with the items of all offers at this cost. -/
def cheapest (offers : List (Offer α)) : Option (ℕ × List α) := offers.foldl improve none

@[simp] theorem cheapest_nil : cheapest ([] : List (Offer α)) = none := rfl

theorem cheapest_append_singleton (offers : List (Offer α)) (offer : Offer α) :
    cheapest (offers ++ [offer]) = improve (cheapest offers) offer := by
  rw [cheapest, List.foldl_append]
  rfl

/-- The items of the offers at a cost. -/
def itemsAt (offers : List (Offer α)) (cost : ℕ) : List α :=
  (offers.filter (·.cost = cost)).flatMap items

theorem itemsAt_append_singleton (offers : List (Offer α)) (offer : Offer α) (cost : ℕ) :
    itemsAt (offers ++ [offer]) cost =
      itemsAt offers cost ++ if offer.cost = cost then offer.items else [] := by
  rw [itemsAt, itemsAt, List.filter_append, List.flatMap_append]
  by_cases h : offer.cost = cost <;> simp [h]

theorem itemsAt_eq_nil (h : ∀ offer ∈ offers, cost < offer.cost) : itemsAt offers cost = [] := by
  rw [itemsAt, List.filter_eq_nil_iff.mpr fun offer hoffer => by simpa using (h offer hoffer).ne']
  rfl

theorem mem_itemsAt {item : α} :
    item ∈ itemsAt offers cost ↔ ∃ offer ∈ offers, offer.cost = cost ∧ item ∈ offer.items := by
  simp only [itemsAt, List.mem_flatMap, List.mem_filter, decide_eq_true_eq, and_assoc]

/-- The costs of the offers. -/
def costs (offers : List (Offer α)) : Set ℕ := {cost | ∃ offer ∈ offers, offer.cost = cost}

/-- What is kept has the least cost and all items at it. -/
structure Cheapest (offers : List (Offer α)) (cost : ℕ) (items : List α) : Prop where
  isLeast : IsLeast (costs offers) cost
  items_eq : items = itemsAt offers cost

theorem Cheapest.improve {items : List α} (h : Cheapest offers cost items) (offer : Offer α) :
    ∃ c is, Offer.improve (some (cost, items)) offer = some (c, is) ∧
      Cheapest (offers ++ [offer]) c is := by
  obtain ⟨⟨⟨o, ho, rfl⟩, hleast⟩, hitems⟩ := h
  unfold Offer.improve
  dsimp only
  have hbound : ∀ o' ∈ offers, o.cost ≤ o'.cost := fun o' ho' => hleast ⟨o', ho', rfl⟩
  split_ifs with hlt heq
  · refine ⟨_, _, rfl, ⟨⟨offer, by simp, rfl⟩, ?_⟩, ?_⟩
    · rintro _ ⟨o', ho', rfl⟩
      rcases List.mem_append.mp ho' with ho' | ho'
      · exact (hlt.trans_le (hbound o' ho')).le
      · rw [List.mem_singleton.mp ho']
    · rw [itemsAt_append_singleton, if_pos rfl,
        itemsAt_eq_nil fun o' ho' => hlt.trans_le (hbound o' ho'), List.nil_append]
  · refine ⟨_, _, rfl, ⟨⟨o, by simp [ho], rfl⟩, ?_⟩, ?_⟩
    · rintro _ ⟨o', ho', rfl⟩
      rcases List.mem_append.mp ho' with ho' | ho'
      · exact hbound o' ho'
      · rw [List.mem_singleton.mp ho', heq]
    · rw [itemsAt_append_singleton, if_pos heq, hitems]
  · refine ⟨_, _, rfl, ⟨⟨o, by simp [ho], rfl⟩, ?_⟩, ?_⟩
    · rintro _ ⟨o', ho', rfl⟩
      rcases List.mem_append.mp ho' with ho' | ho'
      · exact hbound o' ho'
      · rw [List.mem_singleton.mp ho']
        exact not_lt.mp hlt
    · rw [itemsAt_append_singleton, if_neg heq, List.append_nil, hitems]

/-- Something is kept as soon as there is an offer, and it is right. -/
theorem cheapest_spec (offers : List (Offer α)) : (offers = [] ∧ cheapest offers = none) ∨
      ∃ cost items, cheapest offers = some (cost, items) ∧ Cheapest offers cost items := by
  induction offers using List.reverseRecOn with
  | nil => exact .inl ⟨rfl, rfl⟩
  | append_singleton offers offer ih =>
    refine .inr ?_
    rw [cheapest_append_singleton]
    rcases ih with ⟨rfl, hnone⟩ | ⟨cost, items, hsome, hcheapest⟩
    · rw [hnone]
      refine ⟨_, _, rfl, ⟨⟨offer, by simp, rfl⟩, ?_⟩, ?_⟩
      · rintro _ ⟨o', ho', rfl⟩
        rw [List.nil_append] at ho'
        rw [List.mem_singleton.mp ho']
      · simp [itemsAt]
    · rw [hsome]
      exact hcheapest.improve offer

/-- The order of the offers only changes the order of the items. -/
theorem Cheapest.perm {offers' : List (Offer α)} {cost' : ℕ} {items items' : List α}
    (h : Cheapest offers cost items) (h' : Cheapest offers' cost' items')
    (hperm : offers.Perm offers') : cost = cost' ∧ items.Perm items' := by
  have hcosts : costs offers = costs offers' := by
    ext c
    exact exists_congr fun o => and_congr_left fun _ => hperm.mem_iff
  have hcost : cost = cost' := h.isLeast.unique (hcosts ▸ h'.isLeast)
  refine ⟨hcost, ?_⟩
  rw [h.items_eq, h'.items_eq, ← hcost, itemsAt, itemsAt]
  exact (hperm.filter _).flatMap_right _

end Offer
