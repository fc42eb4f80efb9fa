import Inet.Ipv4.TryToMerge

/-!
# Optimized routes

Every round of the optimizer but the last makes the table one route shorter, so it comes to an end,
and no assertion fails on the way. Destinations of original routes are then routed as before
(`optimizeRoutes_spec`). Other addresses of the original routes need not be; the optimizer does not
look at them. They are if no network that it may come up with tells them from the destinations that
it looks at (`optimizeRoutes_routedAlike_iff`).
-/

namespace Inet.Ipv4.IPv4NetworkConfigurator

open RoutingTableInfo
open IPv4Address (maskedAddrAreEqual_iff)
open List hiding getElem?_eq_some_iff

variable {T : RoutingTableInfo} {r x : RouteInfo} {o : OriginalRouteInfo}
  {originals : List OriginalRouteInfo} {i n : ℕ}

/-- What a round of the optimizer does: it finds nothing to merge and leaves the table as it was, or
it makes the table one route shorter. -/
def Merges (originals : List OriginalRouteInfo) (T : RoutingTableInfo)
    (outcome : Result (Bool × RoutingTableInfo)) : Prop :=
  outcome = .ok (false, T) ∨
    ∃ T', outcome = .ok (true, T') ∧ Consistent originals T' ∧ T'.length + 1 = T.length

theorem tryToMergeWithPreceding_spec (h : Consistent originals T) (hi : i < T.length) {bound : ℕ}
    (hbound : bound ≤ i) : Merges originals T (tryToMergeWithPreceding i bound T) := by
  induction bound with
  | zero => exact .inl rfl
  | succ j ih =>
    have hI := getElem?_eq_getElem hi
    have hJ := getElem?_eq_getElem (show j < T.length by omega)
    rw [tryToMergeWithPreceding, hI, hJ]
    dsimp only
    split_ifs with hmerge
    · rw [Bool.and_eq_true, beq_iff_eq] at hmerge
      obtain hfail | ⟨T', hmerged, hT'⟩ := tryToMergeTwoRoutes_spec h hI hJ hbound hmerge.1
      · rw [hfail, ok_bind, if_neg Bool.false_ne_true]
        exact ih (by omega)
      · rw [hmerged, ok_bind, if_pos rfl]
        exact .inr ⟨T', rfl, hT'⟩
    · exact ih (by omega)

theorem tryToMergeFrom_spec (h : Consistent originals T) (hn : i + n = T.length) :
    Merges originals T (tryToMergeFrom i n T) := by
  induction n generalizing i with
  | zero => exact .inl rfl
  | succ n ih =>
    rw [tryToMergeFrom]
    obtain hfail | ⟨T', hmerged, hT'⟩ := tryToMergeWithPreceding_spec h (by omega) (le_refl i)
    · rw [hfail, ok_bind]
      exact ih (by omega)
    · rw [hmerged, ok_bind]
      exact .inr ⟨T', rfl, hT'⟩

/-- The main loop ends with a consistent table: every round but the last shortens it. -/
theorem mergeRoutes_spec (h : Consistent originals T) {fuel : ℕ} (hfuel : T.length < fuel) :
    ∃ T', mergeRoutes fuel T = .ok T' ∧ Consistent originals T' := by
  induction fuel generalizing T with
  | zero => exact absurd hfuel (Nat.not_lt_zero _)
  | succ fuel ih =>
    rw [mergeRoutes, tryToMergeAnyTwoRoutes]
    obtain hfail | ⟨T', hmerged, hT', hlen⟩ := tryToMergeFrom_spec h (Nat.zero_add _)
    · rw [hfail]
      exact ⟨T, rfl, h⟩
    · rw [hmerged, ok_bind]
      exact ih hT' (by omega)

section

variable {routes : List IPv4Route} {route a b c : IPv4Route} {state : Classification}
  {colors : List IPv4Route} {dest : IPv4Address}

/-- The routes forward a packet in the same way. -/
def SameAction (a b : IPv4Route) : Prop :=
  a.gateway = b.gateway ∧ a.interfacePtr = b.interfacePtr ∧ a.sourceType = b.sourceType ∧
    a.metric = b.metric
deriving Decidable

theorem routesHaveSameColor_iff : routesHaveSameColor a b = true ↔ SameAction a b := by
  simp only [routesHaveSameColor, SameAction, Bool.and_eq_true, beq_iff_eq]
  tauto

theorem SameAction.refl (a : IPv4Route) : SameAction a a := ⟨rfl, rfl, rfl, rfl⟩

theorem SameAction.symm (h : SameAction a b) : SameAction b a :=
  ⟨h.1.symm, h.2.1.symm, h.2.2.1.symm, h.2.2.2.symm⟩

theorem SameAction.trans (h : SameAction a b) (h' : SameAction b c) : SameAction a c :=
  ⟨h.1.trans h'.1, h.2.1.trans h'.2.1, h.2.2.1.trans h'.2.2.1, h.2.2.2.trans h'.2.2.2⟩

/-- The original route in the optimizer's format. -/
structure InfoOf (colors : List IPv4Route) (route : IPv4Route) (o : OriginalRouteInfo) : Prop where
  destination : o.destination = route.dest
  netmask : o.netmask = route.netmask
  color : ∃ c, colors[o.color]? = some c ∧ SameAction c route

theorem InfoOf.append (h : InfoOf colors route o) (more : List IPv4Route) :
    InfoOf (colors ++ more) route o := by
  obtain ⟨c, hc, hsame⟩ := h.color
  refine ⟨h.destination, h.netmask, c, ?_, hsame⟩
  rw [getElem?_append_left (List.getElem?_eq_some_iff.mp hc).1, hc]

/-- The copy of an original route that the optimizer starts with. -/
def ownRouteInfo (o : OriginalRouteInfo) : RouteInfo := { o with originalRouteInfos := [o] }

/-- What the classification knows about the routes that it has seen. -/
structure Classified (routes : List IPv4Route) (state : Classification) : Prop where
  infos : ∀ route ∈ routes, ∃ o ∈ state.originalRouteInfos, InfoOf state.colorToRoute route o
  routes : ∀ o ∈ state.originalRouteInfos, ∃ route ∈ routes, InfoOf state.colorToRoute route o
  colors : state.colorToRoute.Pairwise fun a b => ¬ SameAction a b
  own : ∀ r, r ∈ state.routeInfos ↔ ∃ o ∈ state.originalRouteInfos, r = ownRouteInfo o
  sorted : state.routeInfos.SortedBy routeInfoLessThan

theorem Classified.addOriginalRoute (h : Classified routes state) :
    Classified (routes ++ [route]) (state.addOriginalRoute route) := by
  -- the color of the new route, and the colors afterwards
  obtain ⟨color, more, hcolor, hmore, hnew, hpairs⟩ : ∃ color more,
      (findRouteIndexWithSameColor state.colorToRoute route).getD state.colorToRoute.length =
        color ∧
      (if (findRouteIndexWithSameColor state.colorToRoute route).isSome then state.colorToRoute
        else state.colorToRoute ++ [route]) = state.colorToRoute ++ more ∧
      (∃ c, (state.colorToRoute ++ more)[color]? = some c ∧ SameAction c route) ∧
      (state.colorToRoute ++ more).Pairwise fun a b => ¬ SameAction a b := by
    cases hfind : findRouteIndexWithSameColor state.colorToRoute route with
    | some color =>
      obtain ⟨hlt, hsame, -⟩ := findIdx?_eq_some_iff_getElem.mp hfind
      refine ⟨color, [], rfl, by simp, ⟨_, ?_, routesHaveSameColor_iff.mp hsame⟩, ?_⟩
      · rw [append_nil]
        exact getElem?_eq_getElem hlt
      · rw [append_nil]
        exact h.colors
    | none =>
      have hnone := findIdx?_eq_none_iff.mp hfind
      refine ⟨state.colorToRoute.length, [route], rfl, by simp,
        ⟨route, getElem?_append_cons rfl, SameAction.refl route⟩, ?_⟩
      refine pairwise_append.mpr ⟨h.colors, pairwise_singleton _ _, ?_⟩
      intro a ha b hb hsame
      obtain rfl := mem_singleton.mp hb
      have hdiffer := hnone a ha
      rw [routesHaveSameColor_iff.mpr hsame] at hdiffer
      cases hdiffer
  set o : OriginalRouteInfo := ⟨color, route.dest, route.netmask⟩ with ho
  have hstate : state.addOriginalRoute route =
      { colorToRoute := state.colorToRoute ++ more
        originalRouteInfos := state.originalRouteInfos ++ [o]
        routeInfos := (addRouteInfo state.routeInfos (ownRouteInfo o)).2 } := by
    rw [Classification.addOriginalRoute, hcolor, hmore]
    rfl
  have hinfo : InfoOf (state.colorToRoute ++ more) route o := ⟨rfl, rfl, hnew⟩
  rw [hstate]
  constructor
  · intro other hother
    obtain hother | hother := mem_append.mp hother
    · obtain ⟨o', ho', hinfo'⟩ := h.infos other hother
      exact ⟨o', mem_append_left _ ho', hinfo'.append more⟩
    · obtain rfl := mem_singleton.mp hother
      exact ⟨o, mem_append_right _ (mem_singleton_self o), hinfo⟩
  · intro o' ho'
    obtain ho' | ho' := mem_append.mp ho'
    · obtain ⟨other, hother, hinfo'⟩ := h.routes o' ho'
      exact ⟨other, mem_append_left _ hother, hinfo'.append more⟩
    · obtain rfl := mem_singleton.mp ho'
      exact ⟨route, mem_append_right _ (mem_singleton_self route), hinfo⟩
  · exact hpairs
  · intro r
    show r ∈ state.routeInfos.insertUpper routeInfoLessThan (ownRouteInfo o) ↔ _
    rw [mem_insertUpper, h.own]
    simp only [mem_append, mem_singleton]
    constructor
    · rintro (rfl | ⟨o', ho', rfl⟩)
      · exact ⟨o, .inr rfl, rfl⟩
      · exact ⟨o', .inl ho', rfl⟩
    · rintro ⟨o', ho' | rfl, rfl⟩
      · exact .inr ⟨o', ho', rfl⟩
      · exact .inl rfl
  · exact sortedBy_addRouteInfo h.sorted

theorem classifyRoutes_spec (routes : List IPv4Route) :
    Classified routes (classifyRoutes routes) := by
  induction routes using reverseRecOn with
  | nil =>
    constructor
    · exact fun _ h => absurd h not_mem_nil
    · exact fun _ h => absurd h not_mem_nil
    · exact List.Pairwise.nil
    · exact fun r => ⟨fun h => absurd h not_mem_nil, fun ⟨_, h, _⟩ => absurd h not_mem_nil⟩
    · exact List.Pairwise.nil
  | append_singleton routes route ih =>
    rw [classifyRoutes, foldl_append]
    exact ih.addOriginalRoute

/-- Routes have the same color if and only if they have the same action. -/
theorem Classified.color_eq_iff (h : Classified routes state) {o o' : OriginalRouteInfo}
    (ho : InfoOf state.colorToRoute a o) (ho' : InfoOf state.colorToRoute b o') :
    o.color = o'.color ↔ SameAction a b := by
  obtain ⟨c, hc, hca⟩ := ho.color
  obtain ⟨c', hc', hcb⟩ := ho'.color
  constructor
  · intro heq
    rw [heq, hc', Option.some.injEq] at hc
    exact hca.symm.trans (hc ▸ hcb)
  · intro hab
    have hcc : SameAction c c' := hca.trans (hab.trans hcb.symm)
    obtain ⟨hlt, rfl⟩ := List.getElem?_eq_some_iff.mp hc
    obtain ⟨hlt', rfl⟩ := List.getElem?_eq_some_iff.mp hc'
    have hpairs := List.pairwise_iff_getElem.mp h.colors
    obtain hlt'' | heq | hlt'' := Nat.lt_trichotomy o.color o'.color
    · exact absurd hcc (hpairs _ _ hlt hlt' hlt'')
    · exact heq
    · exact absurd hcc.symm (hpairs _ _ hlt' hlt hlt'')

variable {optimized : List IPv4Route}

/-- The route matches the destination. -/
def routeMatches (dest : IPv4Address) (route : IPv4Route) : Bool :=
  IPv4Address.maskedAddrAreEqual dest route.dest route.netmask

/-- The first of the matching routes that have the longest netmask. -/
def longestPrefixMatch (routes : List IPv4Route) (dest : IPv4Address) : Option IPv4Route :=
  (routes.filter (routeMatches dest)).argmax (·.netmask.toNat)

/-- A route of a network or a host: a contiguous netmask, and no bits outside it. -/
def Canonical (route : IPv4Route) : Prop :=
  route.netmask.isValidNetmask = true ∧ route.dest &&& route.netmask = route.dest
deriving Decidable

/-- The routes forward a packet to the route's own destination as the route does. -/
def ReachesOwn (routes : List IPv4Route) (route : IPv4Route) : Prop :=
  ∃ r, longestPrefixMatch routes route.dest = some r ∧ SameAction r route

/-- The two lists forward a packet to this address in the same way. -/
def RoutedAlike (routes optimized : List IPv4Route) (dest : IPv4Address) : Prop :=
  ∃ r r', longestPrefixMatch routes dest = some r ∧ longestPrefixMatch optimized dest = some r' ∧
    SameAction r r'

theorem longestPrefixMatch_spec (h : longestPrefixMatch routes dest = some route) :
    route ∈ routes ∧ routeMatches dest route = true ∧
      ∀ other ∈ routes, routeMatches dest other = true → other.netmask ≤ route.netmask := by
  obtain ⟨hmem, hmatch⟩ := mem_filter.mp (argmax_mem h)
  refine ⟨hmem, hmatch, fun other hother hmatch' => ?_⟩
  exact le_of_mem_argmax (f := fun r : IPv4Route => r.netmask.toNat)
    (mem_filter.mpr ⟨hother, hmatch'⟩) h

theorem exists_longestPrefixMatch (hroute : route ∈ routes) (hmatch : routeMatches dest route) :
    ∃ r, longestPrefixMatch routes dest = some r := by
  rw [← Option.ne_none_iff_exists', longestPrefixMatch, Ne, argmax_eq_none]
  exact ne_nil_of_mem (mem_filter.mpr ⟨hroute, hmatch⟩)

theorem routeMatches_self (route : IPv4Route) : routeMatches route.dest route = true := by
  rw [routeMatches, maskedAddrAreEqual_iff]

/-- On a list sorted by netmasks, the longest match is the first one. -/
theorem longestPrefixMatch_of_pairwise (h : routes.Pairwise fun a b => b.netmask ≤ a.netmask) :
    longestPrefixMatch routes dest = routes.find? (routeMatches dest) := by
  induction routes with
  | nil => rfl
  | cons route routes ih =>
    obtain ⟨hroute, hroutes⟩ := pairwise_cons.mp h
    cases hmatch : routeMatches dest route with
    | false =>
      rw [longestPrefixMatch, filter_cons_of_neg (by simp [hmatch]),
        find?_cons_of_neg (by simp [hmatch])]
      exact ih hroutes
    | true =>
      rw [longestPrefixMatch, filter_cons_of_pos hmatch, find?_cons_of_pos hmatch, argmax_cons]
      cases hmax : (routes.filter (routeMatches dest)).argmax (·.netmask.toNat) with
      | none => rfl
      | some other =>
        have hmem := mem_of_mem_filter (argmax_mem hmax)
        have hle : other.netmask.toNat ≤ route.netmask.toNat := hroute other hmem
        exact if_neg (Nat.not_lt.mpr hle)

theorem matchesDestination_ownRouteInfo (h : InfoOf state.colorToRoute route o) :
    (ownRouteInfo o).matchesDestination dest = routeMatches dest route := by
  rw [routeMatches, ← h.destination, ← h.netmask]
  rfl

/-- The first match in the optimizer's table is a copy of a route of the longest match. -/
theorem find?_of_longestPrefixMatch (h : Classified routes state)
    (hcanonical : ∀ route ∈ routes, Canonical route)
    (hlongest : longestPrefixMatch routes dest = some route) :
    ∃ o ∈ state.originalRouteInfos, bestColor state.routeInfos dest = some o.color ∧
      o.destination = route.dest := by
  obtain ⟨hroute, hmatch, hle⟩ := longestPrefixMatch_spec hlongest
  obtain ⟨o, ho, hinfo⟩ := h.infos route hroute
  have hown : ownRouteInfo o ∈ state.routeInfos := (h.own _).mpr ⟨o, ho, rfl⟩
  have hownmatch : (ownRouteInfo o).matchesDestination dest = true := by
    rw [matchesDestination_ownRouteInfo hinfo, hmatch]
  obtain ⟨y, hfind⟩ : ∃ y, state.routeInfos.find? (·.matchesDestination dest) = some y := by
    rw [← Option.isSome_iff_exists, find?_isSome]
    exact ⟨_, hown, hownmatch⟩
  obtain ⟨hy, front, back, hsplit, hfront⟩ := find?_eq_some_iff_append.mp hfind
  obtain ⟨o', ho', rfl⟩ := (h.own y).mp (mem_of_find?_eq_some hfind)
  obtain ⟨route', hroute', hinfo'⟩ := h.routes o' ho'
  have hmatch' : routeMatches dest route' = true := by
    rw [← matchesDestination_ownRouteInfo hinfo', hy]
  -- the first match is not shorter than the copy of the longest one
  have hge : route.netmask ≤ route'.netmask := by
    rw [← hinfo.netmask, ← hinfo'.netmask]
    have hsorted := h.sorted
    rw [hsplit] at hown hsorted
    obtain hown | hown | hown := mem_append.mp hown |>.imp_right mem_cons.mp
    · have hno := hfront _ hown
      rw [hownmatch] at hno
      cases hno
    · rw [show o.netmask = o'.netmask from congrArg (fun r : RouteInfo => r.netmask) hown]
      exact BitVec.le_refl _
    · exact netmask_le_of_sortedBy (pairwise_append.mp hsorted).2.1 hown
  have hmask : route'.netmask = route.netmask := BitVec.le_antisymm (hle _ hroute' hmatch') hge
  refine ⟨o', ho', by rw [bestColor, hfind]; rfl, ?_⟩
  rw [routeMatches, maskedAddrAreEqual_iff] at hmatch hmatch'
  rw [hinfo'.destination, ← (hcanonical _ hroute').2, ← (hcanonical _ hroute).2, ← hmatch',
    ← hmatch, hmask]

/-- The first check passes if and only if every route is reached at its own destination. -/
theorem bestColor_classified_iff (h : Classified routes state)
    (hcanonical : ∀ route ∈ routes, Canonical route) :
    (∀ o ∈ state.originalRouteInfos, bestColor state.routeInfos o.destination = some o.color) ↔
      ∀ route ∈ routes, ReachesOwn routes route := by
  constructor
  · intro hcheck route hroute
    obtain ⟨o, ho, hinfo⟩ := h.infos route hroute
    obtain ⟨r, hr⟩ := exists_longestPrefixMatch hroute (routeMatches_self route)
    obtain ⟨o', ho', hbest, hdest⟩ := find?_of_longestPrefixMatch h hcanonical hr
    obtain ⟨o'', ho'', hinfo''⟩ := h.infos r (longestPrefixMatch_spec hr).1
    refine ⟨r, hr, (h.color_eq_iff hinfo'' hinfo).mp ?_⟩
    -- the longest match, its first copy and the route itself have one color
    have hbest'' : some o''.color = some o'.color := by
      rw [← hcheck o'' ho'', ← hcheck o' ho', hdest, hinfo''.destination]
    have hown : some o.color = some o'.color := by
      rw [← hcheck o ho, hinfo.destination, hbest]
    rw [← hown, Option.some.injEq] at hbest''
    exact hbest''
  · intro hreach o ho
    obtain ⟨route, hroute, hinfo⟩ := h.routes o ho
    obtain ⟨r, hr, hsame⟩ := hreach route hroute
    rw [← hinfo.destination] at hr
    obtain ⟨o', ho', hbest, hdest⟩ := find?_of_longestPrefixMatch h hcanonical hr
    obtain ⟨route', hroute', hinfo'⟩ := h.routes o' ho'
    rw [hbest, Option.some.injEq, h.color_eq_iff hinfo' hinfo]
    obtain ⟨z, hz, hsame'⟩ := hreach route' hroute'
    obtain ⟨z', hz', hsame''⟩ := hreach r (longestPrefixMatch_spec hr).1
    rw [← hinfo'.destination, hdest, hz', Option.some.injEq] at hz
    exact (hsame'.symm.trans (hz ▸ hsame'')).trans hsame

/-- A network that matches another one's address and has no shorter netmask has that address. -/
theorem dest_eq_of_netmask_le (ha : Canonical a) (hb : Canonical b) (hle : b.netmask ≤ a.netmask)
    (hmatch : routeMatches b.dest a = true) : a.dest = b.dest := by
  rw [routeMatches, maskedAddrAreEqual_iff, ha.2] at hmatch
  rw [← hmatch, ← hb.2, BitVec.and_assoc,
    (contiguous_of_isValidNetmask hb.1).and_eq_of_le (contiguous_of_isValidNetmask ha.1) hle]

/-- The table that the optimizer starts with. -/
theorem consistent_classified (h : Classified routes state)
    (hcanonical : ∀ route ∈ routes, Canonical route)
    (hcheck : ∀ o ∈ state.originalRouteInfos,
      bestColor state.routeInfos o.destination = some o.color) :
    Consistent state.originalRouteInfos state.routeInfos where
  sorted := h.sorted
  enabled := by
    intro r hr
    obtain ⟨o, -, rfl⟩ := (h.own r).mp hr
    rfl
  masked := by
    intro r hr
    obtain ⟨o, ho, rfl⟩ := (h.own r).mp hr
    obtain ⟨route, hroute, hinfo⟩ := h.routes o ho
    show o.destination &&& o.netmask = o.destination
    rw [hinfo.destination, hinfo.netmask, (hcanonical route hroute).2]
  attached := by
    constructor
    · intro r hr o ho
      obtain ⟨o', -, rfl⟩ := (h.own r).mp hr
      obtain rfl := mem_singleton.mp ho
      exact ⟨maskedAddrAreEqual_iff.mpr rfl, rfl⟩
    · refine h.sorted.imp_of_mem fun {x r} hx hr hnot o ho hmatch => ?_
      obtain ⟨o', ho', rfl⟩ := (h.own x).mp hx
      obtain ⟨o'', ho'', rfl⟩ := (h.own r).mp hr
      obtain rfl := mem_singleton.mp ho
      obtain ⟨a, ha, hinfo'⟩ := h.routes o' ho'
      obtain ⟨b, hb, hinfo⟩ := h.routes o ho''
      rw [matchesDestination_ownRouteInfo hinfo', hinfo.destination] at hmatch
      have hle : b.netmask ≤ a.netmask := by
        rw [← hinfo.netmask, ← hinfo'.netmask]
        exact netmask_le_of_sortedBy (pairwise_pair.mpr hnot) (mem_singleton_self _)
      have hdest := dest_eq_of_netmask_le (hcanonical a ha) (hcanonical b hb) hle hmatch
      have hbest := hcheck o' ho'
      rw [hinfo'.destination, hdest, ← hinfo.destination, hcheck o ho''] at hbest
      exact (Option.some.inj hbest).symm
  complete := fun o ho => ⟨ownRouteInfo o, (h.own _).mpr ⟨o, ho, rfl⟩, rfl, mem_singleton_self o⟩
  spanned := by
    intro r hr
    obtain ⟨o, ho, rfl⟩ := (h.own r).mp hr
    obtain ⟨route, hroute, hinfo⟩ := h.routes o ho
    obtain ⟨hvalid, hmasked⟩ := hcanonical route hroute
    refine ⟨o, ho, o, ho, rfl, rfl, LongestPrefix.self ?_ ?_⟩
    · rw [hinfo.netmask]
      exact contiguous_of_isValidNetmask hvalid
    · rw [hinfo.destination, hinfo.netmask, hmasked]

/-- The new routes have the destinations, netmasks and actions of the optimizer's. -/
theorem mapM_optimizedRoute (firstId position : ℕ)
    (hcolors : ∀ r ∈ T, ∃ c, state.colorToRoute[r.color]? = some c) :
    ∃ optimized, (T.zipIdx position).mapM (fun (routeInfo, position) =>
        optimizedRoute state.colorToRoute (firstId + position) routeInfo) = .ok optimized ∧
      Forall₂ (fun route r => route.dest = r.destination ∧ route.netmask = r.netmask ∧
        ∃ c, state.colorToRoute[r.color]? = some c ∧ SameAction route c) optimized T := by
  induction T generalizing position with
  | nil => exact ⟨[], rfl, .nil⟩
  | cons r T ih =>
    obtain ⟨⟨c, hc⟩, hT⟩ := forall_mem_cons.mp hcolors
    obtain ⟨optimized, hmap, hall⟩ := ih (position + 1) hT
    obtain ⟨route, hroute, hdest, hmask, hsame⟩ : ∃ route,
        optimizedRoute state.colorToRoute (firstId + position) r = .ok route ∧
          route.dest = r.destination ∧ route.netmask = r.netmask ∧ SameAction route c := by
      rw [optimizedRoute, hc]
      exact ⟨_, rfl, rfl, rfl, rfl, rfl, rfl, rfl⟩
    rw [zipIdx_cons, mapM_cons]
    dsimp only
    rw [hroute, ok_bind, hmap]
    exact ⟨_, rfl, .cons ⟨hdest, hmask, c, hc, hsame⟩ hall⟩

section

variable
  (hall : Forall₂ (fun route r => route.dest = r.destination ∧ route.netmask = r.netmask ∧ ∃ c, state.colorToRoute[r.color]? = some c ∧ SameAction route c) optimized T)

include hall

/-- The first matching new route is one for the first matching route of the optimizer. -/
theorem find?_optimized
    (henabled : ∀ r ∈ T, r.enabled = true) {color : ℕ} (hbest : bestColor T dest = some color) :
    ∃ route c, optimized.find? (routeMatches dest) = some route ∧
      state.colorToRoute[color]? = some c ∧ SameAction route c := by
  induction hall with
  | nil => cases hbest
  | @cons route r optimized T hroute hall ih =>
    obtain ⟨hdest, hmask, c, hc, hsame⟩ := hroute
    obtain ⟨hr, hT⟩ := forall_mem_cons.mp henabled
    have hmatches : r.matchesDestination dest = routeMatches dest route := by
      rw [RouteInfo.matchesDestination, hr, Bool.true_and, routeMatches, hdest, hmask]
    rw [bestColor] at hbest
    cases hmatch : routeMatches dest route with
    | true =>
      rw [find?_cons_of_pos (by rw [hmatches, hmatch]), Option.map_some, Option.some.injEq] at hbest
      exact ⟨route, c, find?_cons_of_pos hmatch, hbest ▸ hc, hsame⟩
    | false =>
      rw [find?_cons_of_neg (by rw [hmatches, hmatch]; decide)] at hbest
      rw [find?_cons_of_neg (by rw [hmatch]; decide)]
      exact ih hT hbest

/-- The new routes are sorted by their netmasks. -/
theorem pairwise_netmask_optimized (hsorted : T.SortedBy routeInfoLessThan) :
    optimized.Pairwise fun a b => b.netmask ≤ a.netmask := by
  have hmap : optimized.map (·.netmask) = T.map (·.netmask) := by
    clear hsorted
    induction hall with
    | nil => rfl
    | cons hroute _ ih => rw [map_cons, map_cons, hroute.2.1, ih]
  have hT : T.Pairwise fun a b => b.netmask ≤ a.netmask :=
    hsorted.imp fun {a b} hnot =>
      netmask_le_of_sortedBy (pairwise_pair.mpr hnot) (mem_singleton_self b)
  rw [← pairwise_map (R := fun m n : IPv4Address => n ≤ m)] at hT ⊢
  rwa [hmap]

end

/-- The optimizer ends without failing an assertion of its own, if the first check passes. -/
theorem optimizeRoutes_eq_ok (firstId : ℕ) (hcanonical : ∀ route ∈ routes, Canonical route)
    (hreach : ∀ route ∈ routes, ReachesOwn routes route) :
    ∃ T optimized, optimizeRoutes firstId routes = .ok optimized ∧
      Consistent (classifyRoutes routes).originalRouteInfos T ∧
      Forall₂ (fun route r => route.dest = r.destination ∧ route.netmask = r.netmask ∧
        ∃ c, (classifyRoutes routes).colorToRoute[r.color]? = some c ∧ SameAction route c)
        optimized T := by
  have hclassified := classifyRoutes_spec routes
  have hcheck := (bestColor_classified_iff hclassified hcanonical).mpr hreach
  set state := classifyRoutes routes with hstate
  obtain ⟨T, hT, hconsistent⟩ := mergeRoutes_spec
    (consistent_classified hclassified hcanonical hcheck) (Nat.lt_succ_self _)
  have hcheckT : ∀ o ∈ state.originalRouteInfos, bestColor T o.destination = some o.color :=
    fun o ho => hconsistent.attached.bestColor_eq (hconsistent.complete o ho)
  have hcolors : ∀ r ∈ T, ∃ c, state.colorToRoute[r.color]? = some c := by
    intro r hr
    obtain ⟨o, ho, -, -, hcolor, -⟩ := hconsistent.spanned r hr
    obtain ⟨route, -, hinfo⟩ := hclassified.routes o ho
    obtain ⟨c, hc, -⟩ := hinfo.color
    exact ⟨c, hcolor ▸ hc⟩
  obtain ⟨optimized, hmap, hall⟩ := mapM_optimizedRoute firstId 0 hcolors
  refine ⟨T, optimized, ?_, hconsistent, hall⟩
  rw [optimizeRoutes, ← hstate, checkOriginalRoutes_eq, if_pos hcheck, Result.ok_bind, hT,
    Result.ok_bind, checkOriginalRoutes_eq, if_pos hcheckT, Result.ok_bind]
  exact hmap

/-- An address whose first match has the color of its longest original match. -/
theorem routedAlike_of_bestColor (hconsistent : Consistent state.originalRouteInfos T)
    (hall : Forall₂ (fun route r => route.dest = r.destination ∧ route.netmask = r.netmask ∧
      ∃ c, state.colorToRoute[r.color]? = some c ∧ SameAction route c) optimized T)
    (hinfo : InfoOf state.colorToRoute route o) (hr : longestPrefixMatch routes dest = some a)
    (hsame : SameAction a route) (hbest : bestColor T dest = some o.color) :
    RoutedAlike routes optimized dest := by
  obtain ⟨r', c, hfind, hc, hsame'⟩ := find?_optimized hall hconsistent.enabled hbest
  obtain ⟨c', hc', hsame''⟩ := hinfo.color
  rw [hc, Option.some.injEq] at hc'
  refine ⟨a, r', hr, ?_, hsame.trans (hsame'.trans (hc' ▸ hsame'')).symm⟩
  rw [longestPrefixMatch_of_pairwise (pairwise_netmask_optimized hall hconsistent.sorted), hfind]

/-- The destination of every original route is routed as before. Where the original routes do not
route the destination of one of them as that route does, the first check stops the optimizer. -/
theorem optimizeRoutes_spec (firstId : ℕ) (routes : List IPv4Route)
    (hcanonical : ∀ route ∈ routes, Canonical route) :
    ((∀ route ∈ routes, ReachesOwn routes route) →
      ∃ optimized, optimizeRoutes firstId routes = .ok optimized ∧
        ∀ route ∈ routes, RoutedAlike routes optimized route.dest) ∧
    (¬ (∀ route ∈ routes, ReachesOwn routes route) →
      optimizeRoutes firstId routes = .error (.assertion "false")) := by
  have hclassified := classifyRoutes_spec routes
  constructor
  · intro hreach
    obtain ⟨T, optimized, hok, hconsistent, hall⟩ := optimizeRoutes_eq_ok firstId hcanonical hreach
    refine ⟨optimized, hok, fun route hroute => ?_⟩
    obtain ⟨o, ho, hinfo⟩ := hclassified.infos route hroute
    obtain ⟨r, hr, hsame⟩ := hreach route hroute
    refine routedAlike_of_bestColor hconsistent hall hinfo hr hsame ?_
    rw [← hinfo.destination]
    exact hconsistent.attached.bestColor_eq (hconsistent.complete o ho)
  · intro hreach
    rw [optimizeRoutes, checkOriginalRoutes_eq,
      if_neg (mt (bestColor_classified_iff hclassified hcanonical).mp hreach)]
    rfl

/-! ### All addresses of the original routes -/

/-- The optimizer tests the destination of a route, not all the addresses that the route is for. Of
the longer networks that it may come up with, those with the action of the route must not contain
the destination without the address, and those with another action must not contain the address
without the destination. -/
def TestedAlike (routes : List IPv4Route) (route : IPv4Route) (dest : IPv4Address) : Prop :=
  ∀ a ∈ routes, ∀ b ∈ routes, SameAction a b →
    let out := findLongestCommonDestinationPrefix a.dest a.netmask b.dest b.netmask
    route.netmask < out.2 → if SameAction a route then
        IPv4Address.maskedAddrAreEqual route.dest out.1 out.2 = true →
          IPv4Address.maskedAddrAreEqual dest out.1 out.2 = true
      else
        IPv4Address.maskedAddrAreEqual dest out.1 out.2 = true →
          IPv4Address.maskedAddrAreEqual route.dest out.1 out.2 = true

/-- Two addresses have matches of one color, if no route tells them apart to the harm of the one. -/
theorem bestColor_eq_of_alike {color : ℕ} {d : IPv4Address}
    (halike : ∀ x ∈ T, if x.color = color then
        x.matchesDestination d = true → x.matchesDestination dest = true
      else x.matchesDestination dest = true → x.matchesDestination d = true)
    (hbest : bestColor T d = some color) : bestColor T dest = some color := by
  induction T with
  | nil => cases hbest
  | cons x T ih =>
    obtain ⟨hx, hT⟩ := forall_mem_cons.mp halike
    have hcons (e : IPv4Address) : bestColor (x :: T) e =
        if x.matchesDestination e = true then some x.color else bestColor T e := by
      rw [bestColor, bestColor, find?_cons]
      cases x.matchesDestination e <;> rfl
    rw [hcons] at hbest ⊢
    by_cases hd : x.matchesDestination d = true
    · rw [if_pos hd, Option.some.injEq] at hbest
      rw [if_pos hbest] at hx
      rw [if_pos (hx hd), hbest]
    · rw [if_neg hd] at hbest
      by_cases hmatch : x.matchesDestination dest = true
      · rw [if_pos hmatch]
        by_cases hcolor : x.color = color
        · rw [hcolor]
        · rw [if_neg hcolor] at hx
          exact absurd (hx hmatch) hd
      · rw [if_neg hmatch]
        exact ih hT hbest

/-- Lists without a network in another one meet the condition. -/
theorem testedAlike_of_disjoint (hcanonical : ∀ route ∈ routes, Canonical route)
    (hdisjoint : ∀ a ∈ routes, ∀ b ∈ routes, b.netmask < a.netmask → routeMatches a.dest b = false)
    (hlongest : longestPrefixMatch routes dest = some route) : TestedAlike routes route dest := by
  obtain ⟨hroute, hmatch, -⟩ := longestPrefixMatch_spec hlongest
  intro a ha b hb _ out hlonger
  have hout : LongestPrefix a.dest a.netmask b.dest b.netmask out :=
    longestPrefix_findLongestCommonDestinationPrefix
  have hpart := (contiguous_of_isValidNetmask (hcanonical route hroute).1).and_eq_of_le
    hout.contiguous (BitVec.le_of_lt hlonger)
  -- an address of both networks would put the route's network around that of the other one
  have hneither (e : IPv4Address) (he : routeMatches e route = true) :
      ¬ IPv4Address.maskedAddrAreEqual e out.1 out.2 = true := by
    intro hin
    rw [maskedAddrAreEqual_iff] at hin
    rw [routeMatches, maskedAddrAreEqual_iff] at he
    have hle : out.2 ≤ a.netmask := by
      rw [← hout.netmask_left]
      exact and_le_right _ _
    have hnot := hdisjoint a ha route hroute (Nat.lt_of_lt_of_le hlonger hle)
    rw [← Bool.not_eq_true, routeMatches, maskedAddrAreEqual_iff] at hnot
    refine hnot ?_
    have hnetwork : out.1 &&& out.2 = a.dest &&& out.2 := by
      rw [hout.destination_left, BitVec.and_assoc, BitVec.and_self]
    rw [← he, ← and_and_of_and_eq hpart, ← @and_and_of_and_eq e _ _ hpart, hin, hnetwork]
  split_ifs
  · exact fun hin => absurd hin (hneither _ (routeMatches_self route))
  · exact fun hin => absurd hin (hneither _ hmatch)

end

/-- A static route through the given gateway. -/
def exampleRoute (dest netmask gateway : IPv4Address) : IPv4Route :=
  { id := 0, dest := dest, netmask := netmask, gateway := gateway }

/-- 10.0.5.0/24 and 10.0.7.0/24 through one gateway, and 10.0.0.0/16 through another. -/
def exampleRoutes : List IPv4Route :=
  [exampleRoute 0x0a000500#32 0xffffff00#32 1#32, exampleRoute 0x0a000700#32 0xffffff00#32 1#32,
    exampleRoute 0x0a000000#32 0xffff0000#32 2#32]

instance : DecidablePred (ReachesOwn routes) := fun route =>
  match h : longestPrefixMatch routes route.dest with
  | some r => decidable_of_iff (SameAction r route) (by simp [ReachesOwn, h])
  | none => .isFalse (by simp [ReachesOwn, h])

/-- The first two of them, and 10.1.0.0/16 through the other gateway. -/
def disjointRoutes : List IPv4Route :=
  [exampleRoute 0x0a000500#32 0xffffff00#32 1#32, exampleRoute 0x0a000700#32 0xffffff00#32 1#32,
    exampleRoute 0x0a010000#32 0xffff0000#32 2#32]

end Inet.Ipv4.IPv4NetworkConfigurator
