import Inet.Ipv4.IPv4RoutingTable

/-!
# Looking up the best route

In a sorted vector the first valid route that matches is the best one (`Ordered.best_search`). The
cache answers as a search would as long as the routes it points to are in the table and nothing
better has been added (`Right`). Most methods invalidate the cache before they notify anyone;
`purge` and `updateNetmaskRoutes` do so at their end, and what is left of the cache in between
is said by `Pause`.
-/

namespace Inet.Ipv4.IPv4RoutingTable

open Callback Run
open List

/-- The route matches the destination and has not expired. -/
def Matches (table : IPv4RoutingTable) (dest : IPv4Address) (route : IPv4Route) : Prop :=
  route.isValid table.simTime = true ∧
    IPv4Address.maskedAddrAreEqual dest route.dest route.netmask = true
deriving Decidable

/-- `b` is better than `a` among the routes with the same netmask. -/
def Cheaper (table : IPv4RoutingTable) (b a : IPv4Route) : Prop :=
  if table.useAdminDist then
    b.adminDist < a.adminDist ∨ b.adminDist = a.adminDist ∧ b.metric < a.metric
  else b.metric < a.metric
deriving Decidable

/-- What `findBestMatchingRoute` is to return: a matching route with the longest netmask and the
least cost, or nothing when no route matches. -/
def Best (table : IPv4RoutingTable) (dest : IPv4Address) : Option ℕ → Prop
  | some id => ∃ route ∈ table.routes, route.id = id ∧ table.Matches dest route ∧
      ∀ other ∈ table.routes, table.Matches dest other → other.netmask ≤ route.netmask ∧
          (other.netmask = route.netmask → ¬ table.Cheaper other route)
  | none => ∀ route ∈ table.routes, ¬ table.Matches dest route

/-- A lookup in this state gives a best route. -/
def FindsBest (table : IPv4RoutingTable) (dest : IPv4Address) : Prop :=
  ∃ answer after, table.findBestMatchingRoute dest = .ok (answer, after) ∧ table.Best dest answer

instance (table : IPv4RoutingTable) (dest : IPv4Address) :
    ∀ answer, Decidable (table.Best dest answer)
  | some id => inferInstanceAs (Decidable (∃ route ∈ table.routes, route.id = id ∧
      table.Matches dest route ∧ ∀ other ∈ table.routes, table.Matches dest other →
        other.netmask ≤ route.netmask ∧
          (other.netmask = route.netmask → ¬ table.Cheaper other route)))
  | none => inferInstanceAs (Decidable (∀ route ∈ table.routes, ¬ table.Matches dest route))

instance (table : IPv4RoutingTable) (dest : IPv4Address) : Decidable (table.FindsBest dest) :=
  match h : table.findBestMatchingRoute dest with
  | .ok (answer, after) =>
    decidable_of_iff (table.Best dest answer) (by simp [FindsBest, h])
  | .error _ => .isFalse (by simp [FindsBest, h])

def Sorted (table : IPv4RoutingTable) : Prop := table.routes.SortedBy table.routeLessThan
deriving Decidable

section

variable {useAdminDist : Bool} {a b c : IPv4Route}

theorem routeLessThan_iff : IPv4Route.routeLessThan useAdminDist a b = true ↔
    b.netmask < a.netmask ∨ a.netmask = b.netmask ∧ (a.dest < b.dest ∨ a.dest = b.dest ∧
        (useAdminDist = true ∧ a.adminDist < b.adminDist ∨
          (useAdminDist = true → a.adminDist = b.adminDist) ∧ a.metric < b.metric)) := by
  rw [IPv4Route.routeLessThan]
  by_cases hmask : a.netmask = b.netmask
  · by_cases hdest : a.dest = b.dest
    · cases useAdminDist
      · simp [hmask, hdest]
      · by_cases hdist : a.adminDist = b.adminDist
        · simp [hmask, hdest, hdist]
        · simp [hmask, hdest, hdist]
    · simp [hmask, hdest]
  · simp [hmask]

theorem routeLessThan_trans (hab : IPv4Route.routeLessThan useAdminDist a b = true)
    (hbc : IPv4Route.routeLessThan useAdminDist b c = true) :
    IPv4Route.routeLessThan useAdminDist a c = true := by
  rw [routeLessThan_iff] at hab hbc ⊢
  simp only [BitVec.lt_def, ← BitVec.toNat_inj] at hab hbc ⊢
  cases useAdminDist
  · simp only [Bool.false_eq_true, false_and, false_or, false_imp_iff, true_and] at hab hbc ⊢
    omega
  · simp only [true_and, true_imp_iff] at hab hbc ⊢
    omega

theorem routeLessThan_asymm (hab : IPv4Route.routeLessThan useAdminDist a b = true) :
    IPv4Route.routeLessThan useAdminDist b a = false := by
  rw [← Bool.not_eq_true, routeLessThan_iff]
  rw [routeLessThan_iff] at hab
  simp only [BitVec.lt_def, ← BitVec.toNat_inj] at hab ⊢
  cases useAdminDist
  · simp only [Bool.false_eq_true, false_and, false_or, false_imp_iff, true_and] at hab ⊢
    omega
  · simp only [true_and, true_imp_iff] at hab ⊢
    omega

end

variable {table : IPv4RoutingTable} {dest : IPv4Address} {route : IPv4Route} {id : ℕ}

/-- The vector is sorted, destinations have no bits outside their netmasks, and no object is in
the vector twice or still to be allocated. -/
structure Ordered (table : IPv4RoutingTable) : Prop where
  sorted : table.Sorted
  canonical : ∀ route ∈ table.routes, route.dest &&& ~~~route.netmask = 0
  nodup : (table.routes.map IPv4Route.id).Nodup
  fresh : ∀ route ∈ table.routes, route.id < table.nextId

theorem Ordered.eq_of_id {other : IPv4Route} (h : table.Ordered) (hroute : route ∈ table.routes)
    (hother : other ∈ table.routes) (hid : route.id = other.id) : route = other :=
  inj_on_of_nodup_map h.nodup hroute hother hid

theorem search_eq_some_iff : table.search dest = some route ↔
    table.Matches dest route ∧ ∃ front back, table.routes = front ++ route :: back ∧
      ∀ other ∈ front, ¬ table.Matches dest other := by
  rw [search, find?_eq_some_iff_append]
  simp only [Matches, Bool.and_eq_true, Bool.not_eq_true', ← Bool.not_eq_true]

theorem search_eq_none_iff :
    table.search dest = none ↔ ∀ route ∈ table.routes, ¬ table.Matches dest route := by
  rw [search, find?_eq_none]
  simp only [Matches, Bool.and_eq_true]

theorem mem_of_search (h : table.search dest = some route) : route ∈ table.routes :=
  mem_of_find?_eq_some h

/-- The first match is the best one. -/
theorem Ordered.best_search (h : table.Ordered) :
    table.Best dest ((table.search dest).map IPv4Route.id) := by
  cases hsearch : table.search dest with
  | none => exact search_eq_none_iff.mp hsearch
  | some route =>
    obtain ⟨hmatch, front, back, heq, hfront⟩ := search_eq_some_iff.mp hsearch
    have hmem := mem_of_search hsearch
    refine ⟨route, hmem, rfl, hmatch, fun other hother hmatch' => ?_⟩
    have hnot : table.routeLessThan other route = false := by
      obtain hother' | hother' := mem_append.mp (heq ▸ hother)
      · exact absurd hmatch' (hfront other hother')
      · have hsorted : table.Sorted := h.sorted
        rw [Sorted, heq] at hsorted
        obtain rfl | hback := mem_cons.mp hother'
        · rw [← Bool.not_eq_true]
          intro hlt
          have := routeLessThan_asymm hlt
          rw [routeLessThan] at hlt
          exact Bool.false_ne_true (this.symm.trans hlt)
        · exact (pairwise_cons.mp (pairwise_append.mp hsorted).2.1).1 other hback
    rw [routeLessThan, ← Bool.not_eq_true, routeLessThan_iff, not_or] at hnot
    refine ⟨BitVec.not_lt.mp hnot.1, fun hmask hcheaper => hnot.2 ⟨hmask, .inr ⟨?_, ?_⟩⟩⟩
    · -- with the same netmask both destinations are the masked address
      refine IPv4Address.eq_of_maskedAddrAreEqual (h.canonical other hother) ?_ hmatch'.2 ?_
      · rw [hmask]
        exact h.canonical route hmem
      · rw [hmask]
        exact hmatch.2
    · unfold Cheaper at hcheaper
      split at hcheaper
      · next hadmin =>
          obtain hlt | ⟨heq, hlt⟩ := hcheaper
          · exact .inl ⟨hadmin, hlt⟩
          · exact .inr ⟨fun _ => heq, hlt⟩
      · next hadmin => exact .inr ⟨fun htrue => absurd htrue hadmin, hcheaper⟩

/-- A cache entry that a search would confirm, or that points to no valid route of the table. -/
def Right (table : IPv4RoutingTable) (dest : IPv4Address) : Option ℕ → Prop
  | some id => ∀ route ∈ table.routes, route.id = id → route.isValid table.simTime = true →
      table.search dest = some route
  | none => table.search dest = none

theorem right_search (h : table.Ordered) :
    table.Right dest ((table.search dest).map IPv4Route.id) := by
  cases hsearch : table.search dest with
  | none => exact hsearch
  | some route =>
    intro other hother hid _
    rw [h.eq_of_id hother (mem_of_search hsearch) hid]
    exact hsearch

/-- The pointers in the cache are to routes that have been allocated. -/
def Allocated (table : IPv4RoutingTable) : Prop :=
  ∀ dest id, (dest, some id) ∈ table.routingCache → id < table.nextId

/-- The entry of the cache for a destination, if there is one, is right. -/
def RightFor (table : IPv4RoutingTable) (dest : IPv4Address) : Prop :=
  ∀ entry, table.routingCache.lookup dest = some entry → table.Right dest entry

/-- The entry of the cache for a destination does not point to a route outside the vector. -/
def Pointed (table : IPv4RoutingTable) (dest : IPv4Address) : Prop :=
  ∀ id, table.routingCache.lookup dest = some (some id) → ∃ route ∈ table.routes, route.id = id

/-- The entry points into the vector, or to the route that is just being deleted because it is
not valid. -/
def PointedOrExpired (table : IPv4RoutingTable) (dest : IPv4Address) : Prop :=
  ∀ id, table.routingCache.lookup dest = some (some id) → (∃ route ∈ table.routes, route.id = id) ∨
      ∃ route, table.erased = some route ∧ route.id = id ∧ route.isValid table.simTime = false

/-- A pointer that does not lead out of the vector, unless to an expired route, can be followed. -/
theorem exists_object (hpointed : table.PointedOrExpired dest)
    (hlookup : table.routingCache.lookup dest = some (some id)) :
    ∃ route, table.object id = some route ∧
      (route.isValid table.simTime = true → route ∈ table.routes ∧ route.id = id) := by
  rw [object]
  cases hfind : table.routes.find? (·.id == id) with
  | some route =>
    have hid : route.id = id := by simpa using find?_some hfind
    exact ⟨route, rfl, fun _ => ⟨mem_of_find?_eq_some hfind, hid⟩⟩
  | none =>
    obtain ⟨route, hroute, hid⟩ | ⟨route, herased, hid, hinvalid⟩ := hpointed id hlookup
    · have := find?_eq_none.mp hfind route hroute
      simp [hid] at this
    · refine ⟨route, ?_, fun hvalid => absurd (hinvalid.symm.trans hvalid) Bool.false_ne_true⟩
      simp [herased, hid]

/-- What a lookup does to the table: nothing, or it enters the result of a search. -/
theorem find_spec (h : table.Ordered) (hright : table.RightFor dest)
    (hpointed : table.PointedOrExpired dest) :
    ∃ answer after, table.findBestMatchingRoute dest = .ok (answer, after) ∧
      table.Best dest answer ∧ (after = table ∨ after = (table.searchRoutes dest).2) := by
  have hbest := @Ordered.best_search table dest h
  have hsearch : ∃ answer after, (.ok (table.searchRoutes dest) : Result _) =
      .ok (answer, after) ∧ table.Best dest answer ∧
        (after = table ∨ after = (table.searchRoutes dest).2) :=
    ⟨_, _, rfl, hbest, .inr rfl⟩
  rw [findBestMatchingRoute]
  cases hlookup : table.routingCache.lookup dest with
  | none => exact hsearch
  | some entry =>
    have hentry := hright entry hlookup
    cases entry with
    | none =>
      rw [show table.search dest = none from hentry] at hbest
      exact ⟨none, table, rfl, hbest, .inl rfl⟩
    | some id =>
      obtain ⟨route, hobject, hmem⟩ := exists_object hpointed hlookup
      simp only [hobject]
      by_cases hvalid : route.isValid table.simTime = true
      · obtain ⟨hroute, hid⟩ := hmem hvalid
        rw [hentry route hroute hid hvalid, Option.map_some, hid] at hbest
        rw [if_pos hvalid]
        exact ⟨_, table, rfl, hbest, .inl rfl⟩
      · rw [if_neg hvalid]
        exact hsearch

theorem exists_eraseRoute (table : IPv4RoutingTable) (id : ℕ) :
    (∀ route ∈ table.routes, route.id ≠ id) ∧ table.eraseRoute id = table ∨
      ∃ front route back, table.routes = front ++ route :: back ∧ route.id = id ∧
        table.eraseRoute id = { table with routes := front ++ back } := by
  obtain heq | ⟨route, front, back, -, hid, heq, heq'⟩ :=
    exists_or_eq_self_of_eraseP (fun route : IPv4Route => route.id == id) table.routes
  · left
    have hnone : ∀ route ∈ table.routes, route.id ≠ id := by
      intro route hroute hid
      have := length_eraseP_of_mem hroute (p := (·.id == id)) (by simp [hid])
      rw [heq] at this
      have := length_pos_of_mem hroute
      omega
    exact ⟨hnone, by rw [eraseRoute, heq]⟩
  · exact .inr ⟨front, route, back, heq, by simpa using hid, by rw [eraseRoute, heq']⟩

theorem Ordered.eraseRoute (h : table.Ordered) (id : ℕ) : (table.eraseRoute id).Ordered where
  sorted := List.Pairwise.sublist eraseP_sublist h.sorted
  canonical := fun route hroute => h.canonical route (mem_of_mem_eraseP hroute)
  nodup := h.nodup.sublist (eraseP_sublist.map _)
  fresh := fun route hroute => h.fresh route (mem_of_mem_eraseP hroute)

theorem Ordered.not_mem_eraseRoute (h : table.Ordered) {id : ℕ} :
    ∀ route ∈ (table.eraseRoute id).routes, route.id ≠ id := by
  obtain ⟨hnone, heq⟩ | ⟨front, erased, back, hroutes, rfl, heq⟩ := exists_eraseRoute table id
  · rwa [heq]
  · rw [heq]
    have hnodup := h.nodup
    rw [hroutes, map_append, map_cons, nodup_middle, nodup_cons] at hnodup
    intro route hroute hid
    exact hnodup.1 (hid ▸ map_append ▸ mem_map_of_mem hroute)

/-- Taking a route out of the vector does not make an entry wrong. -/
theorem Right.eraseRoute {entry : Option ℕ} (h : table.Ordered) (id : ℕ)
    (hright : table.Right dest entry) : (table.eraseRoute id).Right dest entry := by
  obtain ⟨-, heq⟩ | ⟨front, erased, back, hroutes, hid, heq⟩ := exists_eraseRoute table id
  · rwa [heq]
  · cases entry with
    | none =>
      rw [Right, search_eq_none_iff] at hright ⊢
      exact fun route hroute => hright route (mem_of_mem_eraseP hroute)
    | some pointer =>
      intro route hroute hroute' hvalid
      have hmem := mem_of_mem_eraseP hroute
      have hfound := hright route hmem hroute' hvalid
      have hne : route ≠ erased := by
        rintro rfl
        exact h.not_mem_eraseRoute route hroute hid
      rw [heq]
      rw [search, hroutes] at hfound
      exact find?_remove_of_ne hfound hne

theorem exists_insertRoute (table : IPv4RoutingTable) (entry : IPv4Route) :
    ∃ front back, table.routes = front ++ back ∧
      (table.insertRoute entry).routes = front ++ entry :: back :=
  exists_insertUpper table.routeLessThan entry table.routes

theorem mem_insertRoute {entry : IPv4Route} :
    route ∈ (table.insertRoute entry).routes ↔ route = entry ∨ route ∈ table.routes :=
  mem_insertUpper

theorem Ordered.insertRoute {entry : IPv4Route} (h : table.Ordered)
    (hcanonical : entry.dest &&& ~~~entry.netmask = 0) (hnew : ∀ route ∈ table.routes,
      route.id ≠ entry.id) (hfresh : entry.id < table.nextId) :
    (table.insertRoute entry).Ordered where
  sorted := List.SortedBy.insertUpper (fun _ _ _ => routeLessThan_trans)
    (fun _ _ => routeLessThan_asymm) h.sorted
  canonical := by
    intro route hroute
    obtain rfl | hroute := mem_insertRoute.mp hroute
    · exact hcanonical
    · exact h.canonical route hroute
  nodup := by
    obtain ⟨front, back, hroutes, heq⟩ := exists_insertRoute table entry
    have hnodup := h.nodup
    rw [hroutes] at hnodup
    rw [heq, map_append, map_cons, nodup_middle, nodup_cons, ← map_append]
    refine ⟨fun hmem => ?_, hnodup⟩
    obtain ⟨route, hroute, hid⟩ := mem_map.mp hmem
    exact hnew route (hroutes ▸ hroute) hid
  fresh := by
    intro route hroute
    obtain rfl | hroute := mem_insertRoute.mp hroute
    · exact hfresh
    · exact h.fresh route hroute

theorem isValid_of_later {time : ℕ} (h : route.isValid (table.simTime + time) = true) :
    route.isValid table.simTime = true := by
  simp only [IPv4Route.isValid, Bool.or_eq_true, beq_iff_eq, decide_eq_true_eq] at h ⊢
  omega

/-- Routes expire, but do not become valid again. -/
theorem Right.wait {entry : Option ℕ} (time : ℕ) (hright : table.Right dest entry) :
    { table with simTime := table.simTime + time }.Right dest entry := by
  have hmatch : ∀ other, { table with simTime := table.simTime + time }.Matches dest other →
      table.Matches dest other :=
    fun other h => ⟨isValid_of_later h.1, h.2⟩
  cases entry with
  | none =>
    rw [Right, search_eq_none_iff] at hright ⊢
    exact fun other hother h => hright other hother (hmatch other h)
  | some id =>
    intro other hother hid hvalid
    obtain ⟨hother', front, back, hroutes, hfront⟩ :=
      search_eq_some_iff.mp (hright other hother hid (isValid_of_later hvalid))
    exact search_eq_some_iff.mpr ⟨⟨hvalid, hother'.2⟩, front, back, hroutes,
      fun other' hmem h => hfront other' hmem (hmatch other' h)⟩

/-- A change of a route that lookups do not see. -/
structure Unseen (route route' : IPv4Route) : Prop where
  id : route'.id = route.id
  dest : route'.dest = route.dest
  netmask : route'.netmask = route.netmask
  expiryTime : route'.expiryTime = route.expiryTime

variable {route' : IPv4Route}

theorem Unseen.matches_iff (h : Unseen route route') :
    table.Matches dest route' ↔ table.Matches dest route := by
  rw [Matches, Matches, IPv4Route.isValid, IPv4Route.isValid, h.dest, h.netmask, h.expiryTime]

/-- The entry of the vector after an object has changed. -/
def modified (route' e : IPv4Route) : IPv4Route := if e.id = route'.id then route' else e

theorem modified_id (e : IPv4Route) : (modified route' e).id = e.id := by
  rw [modified]
  split_ifs with h
  · exact h.symm
  · rfl

section

variable (h : table.Ordered) (hroute : route ∈ table.routes) (hunseen : Unseen route route')

include h hroute hunseen

theorem unseen_modified {e : IPv4Route} (he : e ∈ table.routes) : Unseen e (modified route' e) := by
  rw [modified]
  split_ifs with hid
  · rwa [h.eq_of_id he hroute (hid.trans hunseen.id)]
  · exact ⟨rfl, rfl, rfl, rfl⟩

theorem Ordered.modifyRoute (hsorted : (table.modifyRoute route').Sorted) :
    (table.modifyRoute route').Ordered where
  sorted := hsorted
  canonical := by
    intro e' he'
    obtain ⟨e, he, rfl⟩ := mem_map.mp he'
    have hunseen' := unseen_modified h hroute hunseen he
    exact hunseen'.dest ▸ hunseen'.netmask ▸ h.canonical e he
  nodup := by
    have hids : (table.modifyRoute route').routes.map IPv4Route.id =
        table.routes.map IPv4Route.id := by
      rw [IPv4RoutingTable.modifyRoute, map_map]
      exact map_congr_left fun e _ => modified_id e
    exact hids ▸ h.nodup
  fresh := by
    intro e' he'
    obtain ⟨e, he, rfl⟩ := mem_map.mp he'
    exact (modified_id e : (modified route' e).id = e.id).trans_lt (h.fresh e he)

theorem Right.modifyRoute {entry : Option ℕ} (hright : table.Right dest entry) :
    (table.modifyRoute route').Right dest entry := by
  have hmatch : ∀ e ∈ table.routes,
      (table.modifyRoute route').Matches dest (modified route' e) ↔ table.Matches dest e :=
    fun e he => (unseen_modified h hroute hunseen he).matches_iff
  cases entry with
  | none =>
    rw [Right, search_eq_none_iff] at hright ⊢
    intro e' he'
    obtain ⟨e, he, rfl⟩ := mem_map.mp he'
    exact fun hm => hright e he ((hmatch e he).mp hm)
  | some id =>
    intro e' he' hid hvalid
    obtain ⟨e, he, rfl⟩ := mem_map.mp he'
    have hvalid' : e.isValid table.simTime = true := by
      rw [IPv4Route.isValid, ← (unseen_modified h hroute hunseen he).expiryTime]
      exact hvalid
    obtain ⟨hm, front, back, hroutes, hfront⟩ := search_eq_some_iff.mp
      (hright e he ((modified_id e : (modified route' e).id = e.id).symm.trans hid) hvalid')
    refine search_eq_some_iff.mpr ⟨(hmatch e he).mpr hm, front.map (modified route'),
      back.map (modified route'), ?_, fun other' hother' hm' => ?_⟩
    · rw [IPv4RoutingTable.modifyRoute, hroutes, map_append, map_cons]
      rfl
    · obtain ⟨other, hother, rfl⟩ := mem_map.mp hother'
      exact hfront other hother
        ((hmatch other (hroutes ▸ mem_append_left _ hother)).mp hm')

end

/-- A changed route is taken out of the vector as the old one would be. -/
theorem eraseRoute_modifyRoute (h : table.Ordered) :
    (table.modifyRoute route').eraseRoute route'.id = table.eraseRoute route'.id := by
  have herase : ∀ l : List IPv4Route, (l.map IPv4Route.id).Nodup →
      (l.map (modified route')).eraseP (·.id == route'.id) = l.eraseP (·.id == route'.id) := by
    intro l
    induction l with
    | nil => exact fun _ => rfl
    | cons e l ih =>
      intro hnodup
      obtain ⟨hnot, hnodup⟩ := nodup_cons.mp hnodup
      by_cases hid : e.id = route'.id
      · have hmap : l.map (modified route') = l := by
          refine (map_congr_left fun other hother => ?_).trans (map_id l)
          rw [modified, if_neg]
          · rfl
          · exact fun heq => hnot (hid.trans heq.symm ▸ mem_map_of_mem hother)
        rw [map_cons, eraseP_cons_of_pos, eraseP_cons_of_pos, hmap]
        · simp [hid]
        · simp [modified_id, hid]
      · have hsame : modified route' e = e := if_neg hid
        rw [map_cons, hsame, eraseP_cons_of_neg, eraseP_cons_of_neg, ih hnodup]
        · simp [hid]
        · simp [hid]
  exact congrArg (fun routes => { table with routes := routes }) (herase table.routes h.nodup)

theorem find_modifyRoute (hroute : route ∈ table.routes) (hid : route'.id = route.id) :
    (table.modifyRoute route').routes.find? (·.id == route'.id) = some route' := by
  have hmem : route' ∈ (table.modifyRoute route').routes :=
    mem_map.mpr ⟨route, hroute, if_pos hid.symm⟩
  cases hfind : (table.modifyRoute route').routes.find? (·.id == route'.id) with
  | none => simpa using find?_eq_none.mp hfind route' hmem
  | some e =>
    have he : e.id = route'.id := by simpa using find?_some hfind
    obtain ⟨e₀, -, rfl⟩ := mem_map.mp (mem_of_find?_eq_some hfind)
    have : e₀.id = route'.id :=
      (modified_id e₀ : (modified route' e₀).id = e₀.id).symm.trans he
    rw [if_pos this]

/-- The place of a route in the vector. -/
theorem Ordered.exists_split (h : table.Ordered) (hroute : route ∈ table.routes) :
    ∃ front back, table.routes = front ++ route :: back ∧
      ∀ other ∈ front ++ back, other.id ≠ route.id := by
  obtain ⟨front, back, hroutes⟩ := append_of_mem hroute
  have hnodup := h.nodup
  rw [hroutes, map_append, map_cons, nodup_middle, nodup_cons, ← map_append] at hnodup
  exact ⟨front, back, hroutes, fun other hother heq => hnodup.1 (heq ▸ mem_map_of_mem hother)⟩

theorem exists_modifyRoute (h : table.Ordered) (hroute : route ∈ table.routes)
    (hid : route'.id = route.id) : ∃ front back, table.routes = front ++ route :: back ∧
      (table.modifyRoute route').routes = front ++ route' :: back ∧
        ∀ other ∈ front, other.id ≠ route'.id := by
  obtain ⟨front, back, hroutes, hne⟩ := h.exists_split hroute
  rw [← hid] at hne
  have hsame : ∀ l : List IPv4Route, (∀ other ∈ l, other.id ≠ route'.id) →
      l.map (modified route') = l := fun l hl =>
    (map_congr_left fun other hother => if_neg (hl other hother)).trans (map_id l)
  refine ⟨front, back, hroutes, ?_, fun other hother => hne other (mem_append_left _ hother)⟩
  have hmodified : modified route' route = route' := if_pos hid.symm
  show table.routes.map (modified route') = _
  rw [hroutes, map_append, map_cons, hmodified,
    hsame front fun other hother => hne other (mem_append_left _ hother),
    hsame back fun other hother => hne other (mem_append_right _ hother)]

/-- With its new fields the route is not less than one in front of it, and none behind it is less
than the route. -/
def StaysInPlace (table : IPv4RoutingTable) (route' : IPv4Route) : Prop :=
  (∀ other ∈ table.routes.takeWhile (·.id != route'.id), table.routeLessThan route' other = false) ∧
    ∀ other ∈ (table.routes.dropWhile (·.id != route'.id)).tail,
      table.routeLessThan other route' = false
deriving Decidable

theorem staysInPlace_iff {front back : List IPv4Route} (hid : route'.id = route.id)
    (hroutes : table.routes = front ++ route :: back) (hfront : ∀ other ∈ front,
      other.id ≠ route'.id) :
    table.StaysInPlace route' ↔ (∀ other ∈ front, table.routeLessThan route' other = false) ∧
      ∀ other ∈ back, table.routeLessThan other route' = false := by
  have hne : ∀ other ∈ front, (other.id != route'.id) = true :=
    fun other hother => bne_iff_ne.mpr (hfront other hother)
  have hstop : ¬ (route.id != route'.id) = true := by simp [hid]
  rw [StaysInPlace, hroutes, takeWhile_append_of_pos hne, dropWhile_append_of_pos hne,
    takeWhile_cons_of_neg (p := fun e : IPv4Route => e.id != route'.id) hstop,
    dropWhile_cons_of_neg (p := fun e : IPv4Route => e.id != route'.id) hstop,
    append_nil, tail_cons]

/-- A changed route may stay where it is just in case the vector is still sorted. -/
theorem sorted_modifyRoute_iff (h : table.Ordered) (hroute : route ∈ table.routes)
    (hid : route'.id = route.id) :
    (table.modifyRoute route').Sorted ↔ table.StaysInPlace route' := by
  obtain ⟨front, back, hroutes, hroutes', hfront⟩ := exists_modifyRoute h hroute hid
  have hsorted : table.Sorted := h.sorted
  rw [Sorted, SortedBy, hroutes, pairwise_append, pairwise_cons] at hsorted
  rw [staysInPlace_iff hid hroutes hfront, Sorted, SortedBy, hroutes', pairwise_append,
    pairwise_cons]
  constructor
  · rintro ⟨-, ⟨hback', -⟩, hcross⟩
    exact ⟨fun other hother => hcross other hother route' mem_cons_self, hback'⟩
  · rintro ⟨hfront', hback'⟩
    refine ⟨hsorted.1, ⟨hback', hsorted.2.1.2⟩, fun a ha b hb => ?_⟩
    obtain rfl | hb := mem_cons.mp hb
    · exact hfront' a ha
    · exact hsorted.2.2 a ha b (mem_cons_of_mem _ hb)

/-- A change that comparisons do not see leaves the vector sorted. -/
theorem sorted_modifyRoute_of_eq (h : table.Ordered) (hroute : route ∈ table.routes)
    (hid : route'.id = route.id)
    (hleft : ∀ other, table.routeLessThan route' other = table.routeLessThan route other)
    (hright : ∀ other, table.routeLessThan other route' = table.routeLessThan other route) :
    (table.modifyRoute route').Sorted := by
  obtain ⟨front, back, hroutes, -, hfront⟩ := exists_modifyRoute h hroute hid
  have hsorted : table.Sorted := h.sorted
  rw [Sorted, SortedBy, hroutes, pairwise_append, pairwise_cons] at hsorted
  rw [sorted_modifyRoute_iff h hroute hid, staysInPlace_iff hid hroutes hfront]
  refine ⟨fun other hother => ?_, fun other hother => ?_⟩
  · rw [hleft]
    exact hsorted.2.2 other hother route mem_cons_self
  · rw [hright]
    exact hsorted.2.1.1 other hother

end Inet.Ipv4.IPv4RoutingTable
