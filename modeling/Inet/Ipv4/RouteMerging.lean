import Inet.Ipv4.CommonPrefixes

/-!
# Merging keeps the original routes

Every original route is attached to a route of the optimizer's table that matches its destination
and has its color, and no route of another color in front of that one matches (`Attached`). This is
what a merge has to keep: the tests before a merge look at the original routes of the two merged
routes and of those behind them only.
-/

namespace Inet.Ipv4.IPv4NetworkConfigurator

open RoutingTableInfo
open List

variable {T T' P R S : RoutingTableInfo} {r x y : RouteInfo} {o : OriginalRouteInfo}
  {dest : IPv4Address} {begin last m : ℕ}

/-- A route without its original routes, all that looking for a match depends on. -/
def RouteInfo.skeleton (routeInfo : RouteInfo) : RouteInfo :=
  { routeInfo with originalRouteInfos := [] }

@[simp] theorem skeleton_enabled : r.skeleton.enabled = r.enabled := rfl

@[simp] theorem skeleton_push : (r.push o).skeleton = r.skeleton := rfl

@[simp] theorem push_originalRouteInfos :
    (r.push o).originalRouteInfos = r.originalRouteInfos ++ [o] := rfl

@[simp] theorem push_enabled : (r.push o).enabled = r.enabled := rfl

/-- The tables differ in attached original routes only. -/
def SameRoutes (T T' : RoutingTableInfo) : Prop :=
  T.map RouteInfo.skeleton = T'.map RouteInfo.skeleton

section

variable (h : SameRoutes T T')

include h

theorem SameRoutes.length_eq : T.length = T'.length := by
  simpa using congrArg List.length h

theorem SameRoutes.symm : SameRoutes T' T := Eq.symm h

theorem SameRoutes.trans {T'' : RoutingTableInfo} (h' : SameRoutes T' T'') :
    SameRoutes T T'' := Eq.trans h h'

theorem SameRoutes.take (n : ℕ) : SameRoutes (T.take n) (T'.take n) := by
  rw [SameRoutes, map_take, map_take]
  exact congrArg (List.take n) h

theorem SameRoutes.drop (n : ℕ) : SameRoutes (T.drop n) (T'.drop n) := by
  rw [SameRoutes, map_drop, map_drop]
  exact congrArg (List.drop n) h

end

theorem SameRoutes.push : SameRoutes (P ++ y.push o :: S) (P ++ y :: S) := by
  simp [SameRoutes]

/-- What holds of all routes of a table and is said by their skeletons holds of the other's. -/
theorem SameRoutes.forall (h : SameRoutes T T') {p : RouteInfo → Prop}
    (hp : ∀ x ∈ T, p x.skeleton) : ∀ x ∈ T', p x.skeleton := by
  intro x hx
  have hmem : x.skeleton ∈ T.map RouteInfo.skeleton := by
    rw [h]
    exact mem_map_of_mem hx
  obtain ⟨x', hx', heq⟩ := mem_map.mp hmem
  exact heq ▸ hp x' hx'

theorem SameRoutes.exists_append_cons (h : SameRoutes T (P ++ y :: S)) :
    ∃ P' y' S', T = P' ++ y' :: S' ∧ SameRoutes P' P ∧ y'.skeleton = y.skeleton ∧
      SameRoutes S' S := by
  rw [SameRoutes, map_append, map_eq_append_iff] at h
  obtain ⟨P', rest, rfl, hP, hrest⟩ := h
  obtain ⟨y', S', rfl, hy, hS⟩ := map_eq_cons_iff.mp hrest
  exact ⟨P', y', S', rfl, hP, hy, hS⟩

/-- The color of the first route that matches. -/
def bestColor (T : RoutingTableInfo) (dest : IPv4Address) : Option ℕ :=
  (T.find? (·.matchesDestination dest)).map (·.color)

theorem SameRoutes.bestColor_eq (h : SameRoutes T T') : bestColor T dest = bestColor T' dest := by
  have hskeleton : ∀ L : RoutingTableInfo,
      bestColor L dest = bestColor (L.map RouteInfo.skeleton) dest := by
    intro L
    rw [bestColor, bestColor, find?_map, Option.map_map]
    rfl
  rw [hskeleton T, hskeleton T', h]

/-- The search in a part of the table, from its split at the first route that matches. -/
theorem findBestMatchingRouteInfo_eq_some (hbefore : ∀ x ∈ R, x.matchesDestination dest = false)
    (hy : y.matchesDestination dest = true) (hbegin : P.length = begin)
    (hlast : begin + R.length < last) :
    findBestMatchingRouteInfo (P ++ (R ++ y :: S)) dest begin last = some (begin + R.length) := by
  rw [findBestMatchingRouteInfo, find?_range'_eq_some]
  refine ⟨?_, mem_range'_1.mpr ⟨Nat.le_add_right _ _, by omega⟩, fun k hk hlt => ?_⟩
  · rw [getElem?_append_right (by omega), getElem?_append_right (by omega),
      show begin + R.length - P.length - R.length = 0 by omega, getElem?_cons_zero]
    exact hy
  · have hget : (P ++ (R ++ y :: S))[k]? = some (R.get ⟨k - P.length, by omega⟩) := by
      rw [getElem?_append_right (by omega), getElem?_append_left (by omega)]
      exact getElem?_eq_getElem _
    rw [hget, Option.any_some, hbefore _ (get_mem ..), Bool.not_false]

section

variable (hbegin : P.length = begin) (hlast : begin + R.length = last)

include hbegin hlast

/-- The search in a part of the table finds its first route that matches. -/
theorem find?_eq_findBestMatchingRouteInfo :
    (findBestMatchingRouteInfo (P ++ (R ++ S)) dest begin last).bind
      (fun index => (P ++ (R ++ S))[index]?) = R.find? (·.matchesDestination dest) := by
  cases hfind : R.find? (·.matchesDestination dest) with
  | some y =>
    obtain ⟨hy, R₁, R₂, rfl, hbefore⟩ := find?_eq_some_iff_append.mp hfind
    have hend : begin + R₁.length < last := by
      rw [length_append, length_cons] at hlast
      omega
    have hbest := findBestMatchingRouteInfo_eq_some (S := R₂ ++ S)
      (fun x hx => by simpa using hbefore x hx) hy hbegin hend
    rw [append_assoc, cons_append, hbest, Option.bind_some,
      getElem?_append_right (by omega), getElem?_append_right (by omega),
      show begin + R₁.length - P.length - R₁.length = 0 by omega, getElem?_cons_zero]
  | none =>
    have hnone : findBestMatchingRouteInfo (P ++ (R ++ S)) dest begin last = none := by
      rw [findBestMatchingRouteInfo, find?_range'_eq_none]
      intro k hk hlt
      have hget : (P ++ (R ++ S))[k]? = some (R.get ⟨k - P.length, by omega⟩) := by
        rw [getElem?_append_right (by omega), getElem?_append_left (by omega)]
        exact getElem?_eq_getElem _
      have hno := find?_eq_none.mp hfind _ (get_mem R ⟨k - P.length, by omega⟩)
      rw [hget, Option.any_some, Bool.eq_false_iff.mpr hno, Bool.not_false]
    rw [hnone, Option.bind_none]

theorem bestColor_of_not_interruptsOriginalRoute
    (h : interruptsOriginalRoute (P ++ (R ++ S)) begin last o = false) :
    ∀ color ∈ bestColor R o.destination, color = o.color := by
  intro color hcolor
  rw [bestColor, ← find?_eq_findBestMatchingRouteInfo (S := S) hbegin hlast] at hcolor
  rw [interruptsOriginalRoute] at h
  cases hfind : findBestMatchingRouteInfo (P ++ (R ++ S)) o.destination begin last with
  | none => simp [hfind] at hcolor
  | some index =>
    rw [hfind] at h hcolor
    simp only [Option.bind_some, Option.mem_def, Option.map_eq_some_iff] at hcolor
    obtain ⟨y, hy, rfl⟩ := hcolor
    simpa [hy] using h

theorem bestColor_of_not_interruptsAnyOriginalRoute {os : List OriginalRouteInfo}
    (h : interruptsAnyOriginalRoute (P ++ (R ++ S)) begin last os = false) :
    ∀ o ∈ os, ∀ color ∈ bestColor R o.destination, color = o.color := by
  intro o ho color hcolor
  rw [interruptsAnyOriginalRoute, Bool.and_eq_false_iff] at h
  rcases h with h | h
  · have hle : last ≤ begin := by simpa using h
    have hnil : R = [] := eq_nil_of_length_eq_zero (by omega)
    rw [hnil] at hcolor
    cases hcolor
  · have hnot := any_eq_false.mp h o ho
    exact bestColor_of_not_interruptsOriginalRoute hbegin hlast (Bool.eq_false_iff.mpr hnot) color
      hcolor

end

theorem routesOriginalRoute_iff :
    routesOriginalRoute T o = true ↔ bestColor T o.destination = some o.color := by
  have hfind : (findBestMatchingRouteInfo ([] ++ (T ++ [])) o.destination 0 T.length).bind
      (fun index => ([] ++ (T ++ []))[index]?) = T.find? (·.matchesDestination o.destination) :=
    find?_eq_findBestMatchingRouteInfo rfl (Nat.zero_add _)
  rw [nil_append, append_nil] at hfind
  rw [routesOriginalRoute, bestColor, ← hfind]
  cases hbest : findBestMatchingRouteInfo T o.destination 0 T.length with
  | none => simp
  | some index => cases hget : T[index]? <;> simp [hget]

theorem checkOriginalRoutes_eq (os : List OriginalRouteInfo) : checkOriginalRoutes T os =
      if ∀ o ∈ os, bestColor T o.destination = some o.color then .ok ()
      else .error (.assertion "false") := by
  induction os with
  | nil => rfl
  | cons o os ih =>
    show (assert (routesOriginalRoute T o) "false" >>= fun _ => checkOriginalRoutes T os) = _
    rw [ih]
    simp only [forall_mem_cons]
    by_cases ho : bestColor T o.destination = some o.color
    · rw [assert_of (routesOriginalRoute_iff.mpr ho), ok_bind]
      simp only [ho, true_and]
    · rw [assert, Bool.eq_false_iff.mpr (mt routesOriginalRoute_iff.mp ho)]
      simp only [ho, false_and, if_false]
      rfl

/-- An attached original route is matched by its route in its color, and every route in front of
that one that matches it has its color as well. -/
structure Attached (T : RoutingTableInfo) : Prop where
  own : ∀ r ∈ T, ∀ o ∈ r.originalRouteInfos,
    IPv4Address.maskedAddrAreEqual o.destination r.destination r.netmask = true ∧ r.color = o.color
  undisturbed : T.Pairwise fun x r => ∀ o ∈ r.originalRouteInfos,
    x.matchesDestination o.destination = true → x.color = o.color

/-- The original route is attached to a route that is enabled. -/
def Holds (T : RoutingTableInfo) (o : OriginalRouteInfo) : Prop :=
  ∃ r ∈ T, r.enabled = true ∧ o ∈ r.originalRouteInfos

theorem Attached.sublist (h : Attached T) (hsub : T'.Sublist T) : Attached T' :=
  ⟨fun r hr => h.own r (hsub.subset hr), h.undisturbed.sublist hsub⟩

/-- Attaching one more original route to a route that may have it. -/
theorem Attached.push (h : Attached (P ++ y :: S))
    (hy : y.matchesDestination o.destination = true) (hcolor : y.color = o.color)
    (hbefore : ∀ x ∈ P, x.matchesDestination o.destination = true → x.color = o.color) :
    Attached (P ++ y.push o :: S) := by
  obtain ⟨hP, hS, hPS⟩ := pairwise_append.mp h.undisturbed
  obtain ⟨hyS, hS⟩ := pairwise_cons.mp hS
  constructor
  · intro r hr o' ho'
    obtain hr | rfl | hr := mem_append.mp hr |>.imp_right mem_cons.mp
    · exact h.own r (mem_append_left _ hr) o' ho'
    · obtain ho' | ho' := mem_append.mp ho'
      · exact h.own y (mem_append_right _ mem_cons_self) o' ho'
      · obtain rfl := mem_singleton.mp ho'
        rw [RouteInfo.matchesDestination, Bool.and_eq_true] at hy
        exact ⟨hy.2, hcolor⟩
    · exact h.own r (mem_append_right _ (mem_cons_of_mem _ hr)) o' ho'
  · refine pairwise_append.mpr ⟨hP, pairwise_cons.mpr ⟨hyS, hS⟩, fun x hx r hr => ?_⟩
    obtain rfl | hr := mem_cons.mp hr
    · intro o' ho' hmatch
      obtain ho' | ho' := mem_append.mp ho'
      · exact hPS x hx y mem_cons_self o' ho' hmatch
      · obtain rfl := mem_singleton.mp ho'
        exact hbefore x hx hmatch
    · exact hPS x hx r (mem_cons_of_mem _ hr)

/-- A new route may be put where it does not take an attached original route of another color. -/
theorem Attached.insert (h : Attached (P ++ S)) (hy : y.originalRouteInfos = [])
    (hafter : ∀ r ∈ S, ∀ o ∈ r.originalRouteInfos,
      y.matchesDestination o.destination = true → y.color = o.color) :
    Attached (P ++ y :: S) := by
  obtain ⟨hP, hS, hPS⟩ := pairwise_append.mp h.undisturbed
  constructor
  · intro r hr o ho
    obtain hr | rfl | hr := mem_append.mp hr |>.imp_right mem_cons.mp
    · exact h.own r (mem_append_left _ hr) o ho
    · rw [hy] at ho
      cases ho
    · exact h.own r (mem_append_right _ hr) o ho
  · refine pairwise_append.mpr ⟨hP, pairwise_cons.mpr ⟨hafter, hS⟩, fun x hx r hr => ?_⟩
    obtain rfl | hr := mem_cons.mp hr
    · intro o ho
      rw [hy] at ho
      cases ho
    · exact hPS x hx r hr

theorem Attached.disable (h : Attached (P ++ y :: S)) :
    Attached (P ++ { y with enabled := false } :: S) := by
  obtain ⟨hP, hS, hPS⟩ := pairwise_append.mp h.undisturbed
  obtain ⟨hyS, hS⟩ := pairwise_cons.mp hS
  constructor
  · intro r hr
    obtain hr | rfl | hr := mem_append.mp hr |>.imp_right mem_cons.mp
    · exact h.own r (mem_append_left _ hr)
    · exact h.own y (mem_append_right _ mem_cons_self)
    · exact h.own r (mem_append_right _ (mem_cons_of_mem _ hr))
  · refine pairwise_append.mpr
      ⟨hP, pairwise_cons.mpr ⟨fun r _ o _ hmatch => ?_, hS⟩, fun x hx r hr => ?_⟩
    · cases hmatch
    · obtain rfl | hr := mem_cons.mp hr
      · exact hPS x hx y mem_cons_self
      · exact hPS x hx r (mem_cons_of_mem _ hr)

/-- The original routes find the routes that they are attached to, or others of their color. -/
theorem Attached.bestColor_eq (h : Attached T) (ho : Holds T o) :
    bestColor T o.destination = some o.color := by
  obtain ⟨r, hr, henabled, ho⟩ := ho
  obtain ⟨P, S, rfl⟩ := append_of_mem hr
  obtain ⟨hown, hcolor⟩ := h.own r hr o ho
  have hmatch : r.matchesDestination o.destination = true := by
    rw [RouteInfo.matchesDestination, henabled, hown]
    rfl
  rw [bestColor, find?_append]
  cases hfind : P.find? (·.matchesDestination o.destination) with
  | none => rw [Option.none_or, find?_cons_of_pos hmatch, Option.map_some, hcolor]
  | some x =>
    have hx := mem_of_find?_eq_some hfind
    have hxmatch := find?_some hfind
    have hbefore := (pairwise_append.mp h.undisturbed).2.2 x hx r mem_cons_self
    rw [Option.some_or, Option.map_some, hbefore o ho hxmatch]

/-- An original route may be attached to the first route in `[begin, last)` that matches. -/
structure Captured (T : RoutingTableInfo) (begin last : ℕ) (o : OriginalRouteInfo) : Prop where
  best : bestColor ((T.take last).drop begin) o.destination = some o.color
  before : ∀ x ∈ T.take begin, x.matchesDestination o.destination = true → x.color = o.color

theorem Captured.of_sameRoutes (h : Captured T begin last o) (hsame : SameRoutes T T') :
    Captured T' begin last o where
  best := by
    rw [← ((hsame.take last).drop begin).bestColor_eq]
    exact h.best
  before := (hsame.take begin).forall
    (p := fun x => x.matchesDestination o.destination = true → x.color = o.color) h.before

theorem addOriginalRouteInfo_spec (h : Attached T) (ho : Captured T begin last o) :
    ∃ T', addOriginalRouteInfo begin last T o = .ok T' ∧ SameRoutes T T' ∧ Attached T' ∧
      Holds T' o ∧ ∀ o', Holds T o' → Holds T' o' := by
  obtain ⟨y, hfind, hcolor⟩ := Option.map_eq_some_iff.mp ho.best
  obtain ⟨hy, R, R', hsplit, hbefore⟩ := find?_eq_some_iff_append.mp hfind
  have hbefore : ∀ x ∈ R, x.matchesDestination o.destination = false :=
    fun x hx => by simpa using hbefore x hx
  -- the table from the matching route outwards
  obtain ⟨P, S, rfl, hP, hbeforeP, hlast⟩ : ∃ P S, T = P ++ (R ++ y :: S) ∧ P.length = begin ∧
      (∀ x ∈ P, x.matchesDestination o.destination = true → x.color = o.color) ∧
      begin + R.length < last := by
    have hlen := congrArg List.length hsplit
    rw [length_drop, length_take, length_append, length_cons] at hlen
    refine ⟨T.take begin, R' ++ T.drop last, ?_, ?_, ho.before, by omega⟩
    · calc T = T.take begin ++ ((T.take last).drop begin ++ T.drop last) := by
            rw [← append_assoc, show T.take begin = (T.take last).take begin by
              rw [take_take, min_eq_left (by omega)], take_append_drop,
              take_append_drop]
        _ = T.take begin ++ (R ++ y :: (R' ++ T.drop last)) := by
            rw [hsplit, append_assoc, cons_append]
    · rw [length_take]
      omega
  have hbest := findBestMatchingRouteInfo_eq_some (S := S) hbefore hy hP hlast
  have hlen : (P ++ R).length = begin + R.length := by rw [length_append, hP]
  rw [← append_assoc] at h hbest ⊢
  refine ⟨P ++ R ++ y.push o :: S, ?_, SameRoutes.push.symm, ?_, ?_, fun o' ho' => ?_⟩
  · rw [addOriginalRouteInfo, hbest, Option.bind_some, getElem?_append_cons hlen,
      Option.any_some, assert_of (by simpa using hcolor), ok_bind, Option.getD_some,
      modify_append_cons _ hlen]
  · refine h.push hy hcolor fun x hx hmatch => ?_
    obtain hx | hx := mem_append.mp hx
    · exact hbeforeP x hx hmatch
    · rw [hbefore x hx] at hmatch
      cases hmatch
  · rw [RouteInfo.matchesDestination, Bool.and_eq_true] at hy
    exact ⟨y.push o, by simp, hy.1, by simp⟩
  · obtain ⟨r, hr, henabled, ho'⟩ := ho'
    obtain hr | rfl | hr := mem_append.mp hr |>.imp_right mem_cons.mp
    · exact ⟨r, mem_append_left _ hr, henabled, ho'⟩
    · exact ⟨r.push o, by simp, henabled, mem_append_left _ ho'⟩
    · exact ⟨r, mem_append_right _ (mem_cons_of_mem _ hr), henabled, ho'⟩

theorem addOriginalRouteInfos_spec {os : List OriginalRouteInfo} (h : Attached T)
    (hos : ∀ o ∈ os, Captured T begin last o) :
    ∃ T', addOriginalRouteInfos T begin last os = .ok T' ∧ SameRoutes T T' ∧ Attached T' ∧
      (∀ o ∈ os, Holds T' o) ∧ ∀ o, Holds T o → Holds T' o := by
  induction os generalizing T with
  | nil => exact ⟨T, rfl, rfl, h, fun _ ho => absurd ho not_mem_nil, fun _ ho => ho⟩
  | cons o os ih =>
    obtain ⟨T₁, hT₁, hsame₁, hattached₁, hholds, hkeeps₁⟩ :=
      addOriginalRouteInfo_spec h (hos o mem_cons_self)
    obtain ⟨T', hT', hsame, hattached, hall, hkeeps⟩ := ih hattached₁ fun o' ho' =>
      (hos o' (mem_cons_of_mem _ ho')).of_sameRoutes hsame₁
    refine ⟨T', ?_, hsame₁.trans hsame, hattached, ?_, fun o' ho' => hkeeps o' (hkeeps₁ o' ho')⟩
    · rw [addOriginalRouteInfos, foldlM_cons, hT₁, ok_bind]
      exact hT'
    · exact forall_mem_cons.mpr ⟨hkeeps o hholds, hall⟩

variable {M : RouteInfo} {D : RoutingTableInfo} {os : List OriginalRouteInfo}

/-- The merged route matches the destination of the original route. -/
def takes (M : RouteInfo) (o : OriginalRouteInfo) : Bool :=
  IPv4Address.maskedAddrAreEqual o.destination M.destination M.netmask

theorem splitOriginalRouteInfos_eq (h : ∀ o ∈ os, takes M o = true → M.color = o.color) :
    splitOriginalRouteInfos M os = .ok (os.filter fun o => !takes M o, os.filter (takes M)) := by
  induction os with
  | nil => rfl
  | cons o os ih =>
    obtain ⟨ho, hos⟩ := forall_mem_cons.mp h
    rw [splitOriginalRouteInfos, ih hos, ← takes]
    cases htakes : takes M o with
    | true =>
      rw [if_pos rfl, assert_of (by simpa using ho htakes), ok_bind, ok_bind,
        filter_cons_of_pos htakes, filter_cons_of_neg (by rw [htakes]; decide)]
    | false =>
      rw [if_neg Bool.false_ne_true, ok_bind, filter_cons_of_pos (by rw [htakes]; rfl),
        filter_cons_of_neg (by rw [htakes]; decide)]

/-- A following route with the original routes that it keeps. -/
def RouteInfo.keep (M r : RouteInfo) : RouteInfo :=
  { r with originalRouteInfos := r.originalRouteInfos.filter fun o => !takes M o }

theorem splitFollowingRouteInfos_eq
    (h : ∀ r ∈ D, ∀ o ∈ r.originalRouteInfos, takes M o = true → M.color = o.color) :
    splitFollowingRouteInfos M D =
      .ok (D.map M.keep, D.flatMap fun r => r.originalRouteInfos.filter (takes M)) := by
  induction D with
  | nil => rfl
  | cons r D ih =>
    obtain ⟨hr, hD⟩ := forall_mem_cons.mp h
    rw [splitFollowingRouteInfos, splitOriginalRouteInfos_eq hr, ok_bind, ih hD]
    rfl

/-- Moving original routes to the merged route attaches them to it. -/
theorem moveFollowingOriginalRouteInfos_spec (hattached : Attached (P ++ M :: D))
    (hP : P.length = m) (henabled : M.enabled = true)
    (h : ∀ r ∈ D, ∀ o ∈ r.originalRouteInfos, takes M o = true → M.color = o.color) :
    ∃ T', moveFollowingOriginalRouteInfos (P ++ M :: D) m = .ok T' ∧
      SameRoutes (P ++ M :: D) T' ∧ Attached T' ∧
      ∀ o, Holds (P ++ M :: D) o → Holds T' o := by
  set moved := D.flatMap fun r => r.originalRouteInfos.filter (takes M) with hmoved
  have hmem : ∀ o ∈ moved, takes M o = true ∧ ∃ r ∈ D, o ∈ r.originalRouteInfos := by
    intro o ho
    obtain ⟨r, hr, ho⟩ := mem_flatMap.mp ho
    obtain ⟨ho, htakes⟩ := mem_filter.mp ho
    exact ⟨htakes, r, hr, ho⟩
  refine ⟨P ++ { M with originalRouteInfos := M.originalRouteInfos ++ moved } :: D.map M.keep,
    ?_, ?_, ⟨?_, ?_⟩, ?_⟩
  · rw [moveFollowingOriginalRouteInfos, ← hP, drop_left, take_left]
    simp only [splitFollowingRouteInfos_eq h, ok_bind, ← hmoved]
  · have hkeep : RouteInfo.skeleton ∘ M.keep = RouteInfo.skeleton := rfl
    simp only [SameRoutes, map_append, map_cons, map_map, hkeep]
    rfl
  · intro r hr o ho
    obtain hr | rfl | hr := mem_append.mp hr |>.imp_right mem_cons.mp
    · exact hattached.own r (mem_append_left _ hr) o ho
    · obtain ho | ho := mem_append.mp ho
      · exact hattached.own M (mem_append_right _ mem_cons_self) o ho
      · obtain ⟨htakes, r, hr, ho⟩ := hmem o ho
        exact ⟨htakes, h r hr o ho htakes⟩
    · obtain ⟨r₀, hr₀, rfl⟩ := mem_map.mp hr
      exact hattached.own r₀ (mem_append_right _ (mem_cons_of_mem _ hr₀)) o
        (mem_of_mem_filter ho)
  · obtain ⟨hundisturbed, hD, hcross⟩ := pairwise_append.mp hattached.undisturbed
    obtain ⟨-, hD⟩ := pairwise_cons.mp hD
    refine pairwise_append.mpr ⟨hundisturbed, pairwise_cons.mpr ⟨?_, ?_⟩, ?_⟩
    · intro r hr o ho hmatch
      obtain ⟨r, hr, rfl⟩ := mem_map.mp hr
      obtain ⟨-, hnot⟩ := mem_filter.mp ho
      have htakes : takes M o = true := ((Bool.and_eq_true _ _).mp hmatch).2
      rw [htakes] at hnot
      cases hnot
    · refine pairwise_map.mpr (hD.imp fun hxr o ho hmatch => ?_)
      exact hxr o (mem_of_mem_filter ho) hmatch
    · intro x hx r hr o ho hmatch
      obtain rfl | hr := mem_cons.mp hr
      · obtain ho | ho := mem_append.mp ho
        · exact hcross x hx M mem_cons_self o ho hmatch
        · obtain ⟨-, r, hr, ho⟩ := hmem o ho
          exact hcross x hx r (mem_cons_of_mem _ hr) o ho hmatch
      · obtain ⟨r₀, hr₀, rfl⟩ := mem_map.mp hr
        exact hcross x hx r₀ (mem_cons_of_mem _ hr₀) o (mem_of_mem_filter ho) hmatch
  · intro o ho
    obtain ⟨r, hr, hr', ho⟩ := ho
    obtain hr | rfl | hr := mem_append.mp hr |>.imp_right mem_cons.mp
    · exact ⟨r, mem_append_left _ hr, hr', ho⟩
    · exact ⟨_, mem_append_right _ mem_cons_self, hr', mem_append_left _ ho⟩
    · by_cases htakes : takes M o = true
      · refine ⟨_, mem_append_right _ mem_cons_self, henabled, mem_append_right _ ?_⟩
        exact mem_flatMap.mpr ⟨r, hr, mem_filter.mpr ⟨ho, htakes⟩⟩
      · refine ⟨M.keep r, mem_append_right _ (mem_cons_of_mem _
          (mem_map_of_mem hr)), hr', mem_filter.mpr ⟨ho, ?_⟩⟩
        rw [Bool.eq_false_iff.mpr htakes, Bool.not_false]

end Inet.Ipv4.IPv4NetworkConfigurator
