import Inet.Library.Run
import Inet.Rip.RIPResponse

/-!
# Responses and the routes of other modules

A response must not touch the routes of the routing table that have another source. It does not
as long as no entry overrides a route of a local interface that is up, or brings a default route
where the table has one of another module (`EntryHarmless`): the invariant `Inv` says that a learned route refers to a route of RIP only, and that a route refers to none if
and only if its metric is infinite.

The operations of RIP on the routing table are related by `Quiet`.
-/

namespace Inet.Rip.RIPRouting

open List hiding getElem?_eq_some_iff

section

variable {s t u : RIPRouting} {i id : ℕ} {r : RIPRoute} {f : RIPRoute → RIPRoute}
  {g : IRoute → IRoute}

/-- What RIP does to the routing table: routes keep their source, and new ones get new places. -/
structure Extends (s t : RIPRouting) : Prop where
  nextRoute_le : s.nextRoute ≤ t.nextRoute
  kept : ∀ x ∈ t.rt, x.id < s.nextRoute → ∃ y ∈ s.rt, y.id = x.id ∧ y.source = x.source
  id_lt : (∀ x ∈ s.rt, x.id < s.nextRoute) → ∀ x ∈ t.rt, x.id < t.nextRoute

/-- RIP has changed its own routes in the routing table only. -/
structure Quiet (s t : RIPRouting) : Prop extends Extends s t where
  foreign : t.rt.filter isForeign = s.rt.filter isForeign
  ripInterfaces : t.ripInterfaces = s.ripInterfaces
  mode : t.mode = s.mode

theorem Extends.of_subset (hrt : ∀ x ∈ t.rt, x ∈ s.rt) (hnext : t.nextRoute = s.nextRoute) :
    Extends s t := by
  refine ⟨hnext.ge, fun x hx _ => ⟨x, hrt x hx, rfl, rfl⟩, fun hlt x hx => ?_⟩
  rw [hnext]
  exact hlt x (hrt x hx)

theorem Extends.trans (h : Extends s t) (h' : Extends t u) : Extends s u := by
  refine ⟨h.nextRoute_le.trans h'.nextRoute_le, ?_, fun hlt => h'.id_lt (h.id_lt hlt)⟩
  intro x hx hlt
  obtain ⟨y, hy, hid, hsource⟩ := h'.kept x hx (hlt.trans_le h.nextRoute_le)
  obtain ⟨z, hz, hid', hsource'⟩ := h.kept y hy (hid ▸ hlt)
  exact ⟨z, hz, hid'.trans hid, hsource'.trans hsource⟩

theorem Quiet.of_eq (hrt : t.rt = s.rt) (hnext : t.nextRoute = s.nextRoute)
    (hinterfaces : t.ripInterfaces = s.ripInterfaces) (hmode : t.mode = s.mode) : Quiet s t :=
  ⟨.of_subset (fun _ hx => hrt ▸ hx) hnext, by rw [hrt], hinterfaces, hmode⟩

theorem Quiet.refl (s : RIPRouting) : Quiet s s := .of_eq rfl rfl rfl rfl

theorem Quiet.trans (h : Quiet s t) (h' : Quiet t u) : Quiet s u :=
  ⟨h.toExtends.trans h'.toExtends, h'.foreign.trans h.foreign,
    h'.ripInterfaces.trans h.ripInterfaces, h'.mode.trans h.mode⟩

theorem quiet_modifyRipRoute (s : RIPRouting) (i : ℕ) (f : RIPRoute → RIPRoute) :
    Quiet s (s.modifyRipRoute i f) := .of_eq rfl rfl rfl rfl

/-- All routes at a place have RIP as their source. -/
def Owned (s : RIPRouting) (id : ℕ) : Prop := ∀ x ∈ s.rt, x.id = id → x.source = .RIP

theorem extends_map (hg : ∀ x, (g x).id = x.id ∧ (g x).source = x.source) :
    Extends s { s with rt := s.rt.map g } := by
  refine ⟨le_rfl, ?_, ?_⟩
  · intro x hx _
    obtain ⟨y, hy, rfl⟩ := mem_map.mp hx
    exact ⟨y, hy, (hg y).1.symm, (hg y).2.symm⟩
  · intro hlt x hx
    obtain ⟨y, hy, rfl⟩ := mem_map.mp hx
    rw [(hg y).1]
    exact hlt y hy

theorem changeAt_spec (hg : ∀ x, (g x).id = x.id ∧ (g x).source = x.source) (x : IRoute) :
    (if x.id = id then g x else x).id = x.id ∧
      (if x.id = id then g x else x).source = x.source := by
  split
  · exact hg x
  · exact ⟨rfl, rfl⟩

theorem quiet_map (hown : Owned s id) (hg : ∀ x, (g x).id = x.id ∧ (g x).source = x.source) :
    Quiet s { s with rt := s.rt.map fun x => if x.id = id then g x else x } := by
  refine ⟨extends_map (changeAt_spec hg), ?_, rfl, rfl⟩
  rw [filter_map]
  have hforeign : (isForeign ∘ fun x => if x.id = id then g x else x) = isForeign := by
    funext x
    simp only [Function.comp_apply, isForeign, (changeAt_spec hg x).2]
  rw [hforeign]
  refine (map_congr_left fun x hx => ?_).trans (map_id _)
  obtain ⟨hmem, hx⟩ := mem_filter.mp hx
  refine if_neg fun hid => ?_
  rw [isForeign, hown x hmem hid] at hx
  cases hx

theorem extends_deleteRoute (s : RIPRouting) (id : ℕ) : Extends s (s.deleteRoute id) :=
  .of_subset (fun _ hx => (mem_filter.mp hx).1) rfl

theorem quiet_deleteRoute (hown : Owned s id) : Quiet s (s.deleteRoute id) := by
  refine ⟨extends_deleteRoute s id, ?_, rfl, rfl⟩
  rw [deleteRoute, filter_filter]
  refine filter_congr fun x hx => ?_
  by_cases hid : x.id = id
  · simp [isForeign, hown x hx hid]
  · simp [hid]

/-- A new route of the routing table. -/
theorem extends_append (s : RIPRouting) (x : IRoute) (hx : x.id = s.nextRoute) :
    Extends s { s with rt := s.rt ++ [x], nextRoute := s.nextRoute + 1 } := by
  refine ⟨Nat.le_succ _, ?_, ?_⟩
  · intro y hy hlt
    rcases mem_append.mp hy with hy | hy
    · exact ⟨y, hy, rfl, rfl⟩
    · obtain rfl := mem_singleton.mp hy
      exact absurd hlt (by omega)
  · intro hlt y hy
    rcases mem_append.mp hy with hy | hy
    · exact (hlt y hy).trans (Nat.lt_succ_self _)
    · obtain rfl := mem_singleton.mp hy
      exact hx.trans_lt (Nat.lt_succ_self _)

/-- The routing table takes a route to the destination, and need not delete one of another module
for it. -/
def Takes (s : RIPRouting) (dest : L3Address) (prefixLength : ℤ) : Prop :=
  checkRoute s.mode dest prefixLength = .ok () ∧ (s.mode = .RIPv2 → prefixLength = 0 →
    ∀ route ∈ s.rt.filter isForeign, route.prefixLength ≠ 0)

theorem Takes.of_foreign {dest : L3Address} {prefixLength : ℤ} (h : Takes s dest prefixLength)
    (hforeign : t.rt.filter isForeign = s.rt.filter isForeign) (hmode : t.mode = s.mode) :
    Takes t dest prefixLength := by
  rw [Takes, hforeign, hmode]
  exact h

/-- A default route that is replaced, whatever its source. -/
theorem deleteDefaultRoute_spec (s : RIPRouting) (entry : ℕ) (prefixLength : ℤ) :
    Extends s (s.deleteDefaultRoute entry prefixLength) ∧
      (s.deleteDefaultRoute entry prefixLength).nextRoute = s.nextRoute ∧
      ∀ r ∈ (s.deleteDefaultRoute entry prefixLength).ripRoutes,
        r ∈ s.ripRoutes ∨ ∃ r₀, r = invalidated r₀ := by
  unfold deleteDefaultRoute
  split_ifs
  · split
    · exact ⟨(Quiet.refl s).toExtends, rfl, fun r hr => .inl hr⟩
    · dsimp only
      split_ifs
      · refine ⟨.of_subset (fun x hx => mem_of_mem_erase hx) rfl, rfl, fun r hr => ?_⟩
        obtain ⟨r₀, hr₀, rfl⟩ := mem_map.mp hr
        split_ifs
        · exact .inr ⟨r₀, rfl⟩
        · exact .inl hr₀
      · exact ⟨.of_subset (fun x hx => mem_of_mem_erase hx) rfl, rfl, fun r hr => .inl hr⟩
  · exact ⟨(Quiet.refl s).toExtends, rfl, fun r hr => .inl hr⟩

/-- A default route of RIP is replaced without further effect. -/
theorem quiet_deleteDefaultRoute {dest : L3Address} {prefixLength : ℤ} (entry : ℕ)
    (h : Takes s dest prefixLength) : Quiet s (s.deleteDefaultRoute entry prefixLength) ∧
      (s.deleteDefaultRoute entry prefixLength).ripRoutes = s.ripRoutes := by
  have hext := (deleteDefaultRoute_spec s entry prefixLength).1
  unfold deleteDefaultRoute at hext ⊢
  split_ifs at hext ⊢ with hdefault
  · cases hfind : s.rt.find? fun route => route.prefixLength == 0 && route.id != entry with
    | none => exact ⟨.refl s, rfl⟩
    | some old =>
      obtain ⟨hold, hmem⟩ := And.intro (find?_some hfind) (mem_of_find?_eq_some hfind)
      rw [Bool.and_eq_true, beq_iff_eq] at hold
      have hown : ¬ isForeign old = true := fun hforeign =>
        h.2 hdefault.1 hdefault.2 old (mem_filter.mpr ⟨hmem, hforeign⟩) hold.1
      rw [hfind] at hext
      dsimp only at hext ⊢
      rw [if_neg hown] at hext ⊢
      refine ⟨⟨hext, ?_, rfl, rfl⟩, rfl⟩
      obtain ⟨before, behind, -, hrt, herase⟩ := exists_erase_eq hmem
      dsimp only
      rw [herase, hrt, filter_append, filter_append, filter_cons_of_neg hown]
  · exact ⟨.refl s, rfl⟩

theorem addRoute_spec {dest : L3Address} {prefixLength : ℤ} (h : Takes s dest prefixLength)
    (hlt : ∀ x ∈ s.rt, x.id < s.nextRoute) (ie : Option ℕ) (nextHop : L3Address) (metric : ℤ) :
    ∃ t, s.addRoute dest prefixLength ie nextHop metric = .ok (t, s.nextRoute) ∧ Quiet s t ∧
      t.ripRoutes = s.ripRoutes ∧ s.nextRoute < t.nextRoute ∧ Owned t s.nextRoute := by
  obtain ⟨hquiet, hroutes⟩ := quiet_deleteDefaultRoute s.nextRoute h
  have hnext := (deleteDefaultRoute_spec s s.nextRoute prefixLength).2.1
  rw [addRoute, h.1, ok_bind]
  generalize s.deleteDefaultRoute s.nextRoute prefixLength = t at hquiet hroutes hnext ⊢
  have hadd := extends_append t ⟨s.nextRoute, .RIP, dest, prefixLength, nextHop, ie, metric⟩
    hnext.symm
  rw [hnext] at hadd
  refine ⟨_, rfl, ⟨hquiet.toExtends.trans hadd, ?_, hquiet.ripInterfaces, hquiet.mode⟩, hroutes,
    Nat.lt_succ_self _, fun x hx hid => ?_⟩
  · rw [filter_append, hquiet.foreign]
    exact append_nil _
  · rcases mem_append.mp hx with hx | hx
    · have := hquiet.id_lt hlt x hx
      omega
    · rw [mem_singleton.mp hx]

/-- The route of the routing table that a RIP route refers to has been created, and RIP is its
source if the route has been learned. -/
def Held (s : RIPRouting) (r : RIPRoute) : Prop :=
  ∀ id, r.route = some id → id < s.nextRoute ∧ (r.type = .RIP_ROUTE_RTE → Owned s id)

theorem Held.mono (h : Held s r) (hext : Extends s t) : Held t r := by
  intro id hid
  obtain ⟨hlt, hown⟩ := h id hid
  refine ⟨hlt.trans_le hext.nextRoute_le, fun htype x hx hxid => ?_⟩
  obtain ⟨y, hy, hyid, hsource⟩ := hext.kept x hx (hxid ▸ hlt)
  exact hsource.symm.trans (hown htype y hy (hyid.trans hxid))

theorem held_of_none (hroute : r.route = none) : Held s r := by
  intro id hid
  rw [hroute] at hid
  cases hid

theorem quiet_setThrough (h : s.ripRoutes[i]? = some r) (hheld : Held s r)
    (hg : ∀ x, (g x).id = x.id ∧ (g x).source = x.source) : Quiet s (s.setThrough i f g) := by
  unfold setThrough
  dsimp only
  split
  · rename_i id _ _ _ _ _ _ _ _ _ hroute
    obtain rfl := Option.some.inj (h.symm.trans hroute)
    have hown : Owned (s.modifyRipRoute i f) id := (hheld id rfl).2 rfl
    exact (quiet_modifyRipRoute s i f).trans (quiet_map hown hg)
  · exact quiet_modifyRipRoute s i f

theorem modify_eq_set {α : Type*} {l : List α} {a : α} {f : α → α} (h : l[i]? = some a) :
    l.modify i f = l.set i (f a) := by
  refine List.ext_getElem? fun j => ?_
  rw [List.getElem?_modify, List.getElem?_set]
  obtain ⟨hi, rfl⟩ := List.getElem?_eq_some_iff.mp h
  by_cases hij : i = j
  · subst hij
    simp [hi]
  · cases l[j]? <;> simp [hij]

theorem ripRoutes_setThrough_eq (h : s.ripRoutes[i]? = some r) :
    (s.setThrough i f g).ripRoutes = s.ripRoutes.set i (f r) := by
  rw [ripRoutes_setThrough, modify_eq_set h]

/-- `t` is `s` with another RIP route at `i`, and RIP's own routes changed. -/
structure Replaces (i : ℕ) (s t : RIPRouting) (r : RIPRoute) : Prop extends Quiet s t where
  ripRoutes : t.ripRoutes = s.ripRoutes.set i r

theorem Replaces.getElem? {s t : RIPRouting} {r₀ r : RIPRoute} (h : s.ripRoutes[i]? = some r₀)
    (hr : Replaces i s t r) : t.ripRoutes[i]? = some r := by
  rw [hr.ripRoutes, List.getElem?_set_self (List.getElem?_eq_some_iff.mp h).1]

theorem Replaces.trans {s t u : RIPRouting} {r r' : RIPRoute} (h : Replaces i s t r)
    (h' : Replaces i t u r') : Replaces i s u r' :=
  ⟨h.toQuiet.trans h'.toQuiet, by rw [h'.ripRoutes, h.ripRoutes, set_set]⟩

section

variable (h : s.ripRoutes[i]? = some r)

include h

theorem replaces_modifyRipRoute (f : RIPRoute → RIPRoute) :
    Replaces i s (s.modifyRipRoute i f) (f r) :=
  ⟨quiet_modifyRipRoute s i f, modify_eq_set h⟩

theorem replaces_setInterface (hheld : Held s r)
    (ie : Option ℕ) : Replaces i s (s.setInterface i ie) { r with ie } :=
  ⟨quiet_setThrough h hheld fun _ => ⟨rfl, rfl⟩, ripRoutes_setThrough_eq h⟩

theorem replaces_setMetric (hheld : Held s r) (metric : ℤ) :
    Replaces i s (s.setMetric i metric) { r with metric } :=
  ⟨quiet_setThrough h hheld fun _ => ⟨rfl, rfl⟩, ripRoutes_setThrough_eq h⟩

theorem replaces_setNextHop (hheld : Held s r)
    (nextHop : L3Address) : Replaces i s (s.setNextHop i nextHop) { r with nextHop } :=
  ⟨quiet_setThrough h hheld fun _ => ⟨rfl, rfl⟩, ripRoutes_setThrough_eq h⟩

/-- A learned route gets a new route in the routing table. -/
theorem attachRoute_spec (hlt : ∀ x ∈ s.rt, x.id < s.nextRoute)
    {ripRoute : RIPRoute} (htakes : Takes s ripRoute.dest ripRoute.prefixLength) (ie : Option ℕ)
    (nextHop : L3Address) (metric : ℤ) :
    ∃ t, s.attachRoute i ripRoute ie nextHop metric = .ok t ∧
      Replaces i s t { r with route := some s.nextRoute } ∧
      Held t { r with route := some s.nextRoute } := by
  obtain ⟨u, hu, hadd, hroutes, hnext, hown⟩ := addRoute_spec htakes hlt ie nextHop metric
  have hget : u.ripRoutes[i]? = some r := by rw [hroutes, h]
  have hreplaces := replaces_modifyRipRoute hget ({ · with route := some s.nextRoute })
  refine ⟨u.modifyRipRoute i ({ · with route := some s.nextRoute }), ?_,
    ⟨hadd.trans hreplaces.toQuiet, by rw [hreplaces.ripRoutes, hroutes]⟩, fun id hid => ?_⟩
  · rw [attachRoute, hu]
    rfl
  · obtain rfl : s.nextRoute = id := Option.some.inj hid
    exact ⟨hnext, fun _ => hown⟩

end

/-- A route refers to none if and only if its metric is infinite. -/
def Up (r : RIPRoute) : Prop :=
  (r.metric = RIP_INFINITE_METRIC ↔ r.route = none) ∧ r.metric ≤ RIP_INFINITE_METRIC

variable {ripRoute : RIPRoute} {ie : Option ℕ} {nextHop : L3Address} {metric : ℤ}

variable (ripRoute ie nextHop metric) in
theorem replaceRoute_spec (h : s.ripRoutes[i]? = some r) (hheld : Held s r)
    (hlt : ∀ x ∈ s.rt, x.id < s.nextRoute)
    (htakes : metric ≠ RIP_INFINITE_METRIC → Takes s ripRoute.dest ripRoute.prefixLength)
    (hroute : r.route = ripRoute.route)
    (htype : r.type = ripRoute.type) (hup : Up ripRoute)
    (hlearned : ripRoute.type = .RIP_ROUTE_RTE ∨ ripRoute.metric = RIP_INFINITE_METRIC)
    (hle : metric ≤ RIP_INFINITE_METRIC)
    (hchange : ripRoute.metric = RIP_INFINITE_METRIC → metric < RIP_INFINITE_METRIC) :
    ∃ t route, s.replaceRoute i ripRoute ie nextHop metric = .ok t ∧
      Replaces i s t { r with type := .RIP_ROUTE_RTE, nextHop, route } ∧
      Held t { r with type := .RIP_ROUTE_RTE, nextHop, route } ∧
      (metric = RIP_INFINITE_METRIC ↔ route = none) := by
  unfold replaceRoute
  by_cases hdown : ripRoute.metric = RIP_INFINITE_METRIC
  · have hnone : ripRoute.route = none := hup.1.mp hdown
    have hmetric := hchange hdown
    rw [if_pos ⟨hdown, hmetric⟩, hnone, Option.isNone_none, assert_true, ok_bind]
    have h₁ := replaces_modifyRipRoute h ({ · with type := .RIP_ROUTE_RTE })
    have h₂ := replaces_setNextHop (h₁.getElem? h) (held_of_none (hroute.trans hnone)) nextHop
    have h₁₂ := h₁.trans h₂
    have htakes₂ := (htakes (Int.ne_of_lt hmetric)).of_foreign h₁₂.foreign h₁₂.mode
    obtain ⟨t, ht, h₃, hheld₃⟩ :=
      attachRoute_spec (h₁₂.getElem? h) (h₁₂.id_lt hlt) htakes₂ ie nextHop metric
    exact ⟨t, _, ht, h₁₂.trans h₃, hheld₃, by simp [Int.ne_of_lt hmetric]⟩
  · rw [if_neg (fun h => hdown h.1), if_pos hdown]
    obtain ⟨id, hid⟩ := Option.ne_none_iff_exists'.mp (fun hnone => hdown (hup.1.mpr hnone))
    have hrte : r.type = .RIP_ROUTE_RTE := htype.trans (hlearned.resolve_right hdown)
    have hown : Owned s id := (hheld id (hroute.trans hid)).2 hrte
    have h₁ := replaces_modifyRipRoute h ({ · with route := none })
    have h₂ : Replaces i _ ((s.modifyRipRoute i ({ · with route := none })).deleteRoute id)
        { r with route := none } :=
      ⟨quiet_deleteRoute (s := s.modifyRipRoute i ({ · with route := none })) hown, by
        rw [deleteRoute, h₁.ripRoutes, set_set]⟩
    have h₁₂ := h₁.trans h₂
    have h₃ := replaces_setNextHop (h₁₂.getElem? h) (held_of_none rfl) nextHop
    have h₁₃ := h₁₂.trans h₃
    have hsame : ({ r with nextHop, route := none } : RIPRoute) =
        { r with type := .RIP_ROUTE_RTE, nextHop, route := none } := by rw [← hrte]
    rw [hid]
    dsimp only
    split_ifs with hmetric
    · have htakes₃ := (htakes (Int.ne_of_lt hmetric)).of_foreign h₁₃.foreign h₁₃.mode
      obtain ⟨t, ht, h₄, hheld₄⟩ :=
        attachRoute_spec (h₁₃.getElem? h) (h₁₃.id_lt hlt) htakes₃ ie nextHop metric
      rw [hsame] at h₄ hheld₄
      exact ⟨t, _, ht, h₁₃.trans h₄, hheld₄, by simp [Int.ne_of_lt hmetric]⟩
    · rw [hsame] at h₁₃
      exact ⟨_, none, rfl, h₁₃, held_of_none rfl, ⟨fun _ => rfl, fun _ => by omega⟩⟩

variable (ie nextHop metric) in
/-- A learned route that is updated, or one that has become invalid. -/
theorem updateRoute_spec (now : ℤ) (routeTag : ℕ) (source : L3Address)
    (h : s.ripRoutes[i]? = some r) (hheld : Held s r)
    (hlt : ∀ x ∈ s.rt, x.id < s.nextRoute)
    (htakes : metric ≠ RIP_INFINITE_METRIC → Takes s r.dest r.prefixLength) (hup : Up r)
    (hlearned : r.type = .RIP_ROUTE_RTE ∨ r.metric = RIP_INFINITE_METRIC)
    (hle : metric ≤ RIP_INFINITE_METRIC)
    (hchange : r.metric = RIP_INFINITE_METRIC → metric < RIP_INFINITE_METRIC) :
    ∃ t r', s.updateRoute now i ie nextHop metric routeTag source = .ok t ∧ Replaces i s t r' ∧
      Held t r' ∧ Up r' ∧ r'.type = .RIP_ROUTE_RTE ∧ r'.metric = metric ∧ r'.from' = source ∧
      r'.dest = r.dest ∧ r'.prefixLength = r.prefixLength := by
  have h₁ := replaces_setInterface h hheld ie
  have hheld₁ : Held (s.setInterface i ie) { r with ie } := hheld.mono h₁.toExtends
  have h₂ := replaces_setMetric (h₁.getElem? h) hheld₁ metric
  have h₁₂ := h₁.trans h₂
  have h₃ := replaces_modifyRipRoute (h₁₂.getElem? h) ({ · with from' := source, tag := routeTag })
  have h₁₃ := h₁₂.trans h₃
  obtain ⟨u, route, hu, h₄, hheld₄, hroute⟩ := replaceRoute_spec r ie nextHop metric
    (h₁₃.getElem? h) (hheld.mono h₁₃.toExtends) (h₁₃.id_lt hlt)
    (fun hmetric => (htakes hmetric).of_foreign h₁₃.foreign h₁₃.mode) rfl rfl hup hlearned hle
    hchange
  have h₁₄ := h₁₃.trans h₄
  have h₅ := replaces_modifyRipRoute (h₁₄.getElem? h) ({ · with changed := true })
  have h₁₅ := h₁₄.trans h₅
  unfold updateRoute
  rw [h]
  dsimp only
  rw [hu, ok_bind]
  split_ifs with hinvalid
  · -- The route that it referred to has been deleted already.
    have hnone : route = none := hroute.mp hinvalid.1
    subst hnone
    have hget := h₁₅.getElem? h
    have hdrop : (u.modifyRipRoute i ({ · with changed := true })).dropRoute i =
        u.modifyRipRoute i ({ · with changed := true }) := by
      unfold dropRoute
      rw [hget]
    have h₆ := replaces_setMetric hget (held_of_none rfl) RIP_INFINITE_METRIC
    have h₇ := replaces_modifyRipRoute (h₆.getElem? hget) ({ · with changed := true })
    refine ⟨_, { r with
      type := .RIP_ROUTE_RTE
      route := none
      nextHop
      ie
      from' := source
      metric := RIP_INFINITE_METRIC
      tag := routeTag
      changed := true }, rfl, ?_, held_of_none rfl, ⟨by simp, Int.le_refl _⟩, rfl,
      hinvalid.1.symm, rfl, rfl, rfl⟩
    rw [invalidateRoute, hdrop]
    exact h₁₅.trans (h₆.trans h₇)
  · have h₆ := replaces_modifyRipRoute (h₁₅.getElem? h) ({ · with lastUpdateTime := now })
    refine ⟨_, _, rfl, h₁₅.trans h₆, ?_, ⟨hroute, hle⟩, rfl, rfl, rfl, rfl, rfl⟩
    exact hheld₄.mono (h₅.toExtends.trans h₆.toExtends)

variable {incomingIe : RIPInterfaceEntry} {srcAddr : L3Address} {entry : RIPEntry} {now : ℤ} {j : ℕ}
  {r' : RIPRoute}

/-- The invariant of the module. -/
structure Inv (s : RIPRouting) : Prop where
  held : ∀ r ∈ s.ripRoutes, Held s r
  up : ∀ r ∈ s.ripRoutes, Up r
  id_lt : ∀ x ∈ s.rt, x.id < s.nextRoute

/-- The same route, up to the time of the last update. -/
def SameRoute (r r' : RIPRoute) : Prop := r' = { r with lastUpdateTime := r'.lastUpdateTime }

/-- A route that is up and that RIP has not learned. -/
def IsForeignUp (r : RIPRoute) : Prop :=
  r.type ≠ .RIP_ROUTE_RTE ∧ r.metric ≠ RIP_INFINITE_METRIC

/-- The metric that a learned route should have after an entry for its destination. -/
def learnedMetric (incomingIe : RIPInterfaceEntry) (srcAddr : L3Address) (entry : RIPEntry)
    (r : RIPRoute) : ℤ :=
  if r.from' = srcAddr ∨ offeredMetric incomingIe entry < r.metric then
    offeredMetric incomingIe entry
  else r.metric

/-- What one entry may do: the routes of other modules stay in the routing table, RIP routes for
them stay as they are while they are up, and all others get the metrics they should. -/
structure EntrySpec (incomingIe : RIPInterfaceEntry) (srcAddr : L3Address) (s : RIPRouting)
    (entry : RIPEntry) (t : RIPRouting) : Prop where
  foreign : t.rt.filter isForeign = s.rt.filter isForeign
  up : ∀ (j : ℕ) r, s.ripRoutes[j]? = some r → IsForeignUp r →
    ∃ r', t.ripRoutes[j]? = some r' ∧ SameRoute r r'
  learned : ∀ (j : ℕ) r, s.ripRoutes[j]? = some r → ¬ IsForeignUp r →
    ∃ r', t.ripRoutes[j]? = some r' ∧
      r'.metric = if s.routeTo entry = some j then learnedMetric incomingIe srcAddr entry r
        else r.metric
  added : ∀ (j : ℕ) r', s.ripRoutes[j]? = none → t.ripRoutes[j]? = some r' →
    r'.type = .RIP_ROUTE_RTE ∧ r'.metric = offeredMetric incomingIe entry

/-- What one entry does to the RIP routes in any case. -/
structure Follows (s t : RIPRouting) : Prop where
  mode : t.mode = s.mode
  key : ∀ (j : ℕ) r, s.ripRoutes[j]? = some r →
    ∃ r', t.ripRoutes[j]? = some r' ∧ r'.dest = r.dest ∧ r'.prefixLength = r.prefixLength
  foreign : ∀ (j : ℕ) r', t.ripRoutes[j]? = some r' → r'.type ≠ .RIP_ROUTE_RTE →
    ∃ r, s.ripRoutes[j]? = some r ∧ SameRoute r r'

theorem SameRoute.refl (r : RIPRoute) : SameRoute r r := rfl

theorem Follows.refl (s : RIPRouting) : Follows s s :=
  ⟨rfl, fun _ r h => ⟨r, h, rfl, rfl⟩, fun _ r h _ => ⟨r, h, .refl r⟩⟩

theorem offeredMetric_le : offeredMetric incomingIe entry ≤ RIP_INFINITE_METRIC :=
  Int.min_le_right _ _

/-- The effect of an entry on the RIP route to its destination. -/
structure Learns (incomingIe : RIPInterfaceEntry) (srcAddr : L3Address) (entry : RIPEntry)
    (r r' : RIPRoute) : Prop where
  dest : r'.dest = r.dest
  prefixLength : r'.prefixLength = r.prefixLength
  up : IsForeignUp r → SameRoute r r'
  foreign : r'.type ≠ .RIP_ROUTE_RTE → SameRoute r r'
  learned : ¬ IsForeignUp r → r'.metric = learnedMetric incomingIe srcAddr entry r

theorem getElem?_set_of {l : List RIPRoute} (h : l[i]? = some r) (r' : RIPRoute) (j : ℕ) :
    (l.set i r')[j]? = if j = i then some r' else l[j]? := by
  rw [List.getElem?_set, if_pos (List.getElem?_eq_some_iff.mp h).1]
  by_cases hij : i = j
  · rw [if_pos hij, if_pos hij.symm]
  · rw [if_neg hij, if_neg (Ne.symm hij)]

theorem replaces_self (h : s.ripRoutes[i]? = some r) : Replaces i s s r := by
  refine ⟨.refl s, ext_getElem? fun j => ?_⟩
  rw [getElem?_set_of h]
  split_ifs with hji
  · rw [hji, h]
  · rfl

/-- The effect of an entry, from that on the route to its destination. -/
theorem entrySpec_of_replaces (hinv : Inv s) (hroute : s.routeTo entry = some i)
    (h : s.ripRoutes[i]? = some r) (hreplaces : Replaces i s t r') (hheld : Held t r') (hup : Up r')
    (hlearns : Learns incomingIe srcAddr entry r r') :
    Inv t ∧ EntrySpec incomingIe srcAddr s entry t ∧ Follows s t := by
  have hget (j : ℕ) : t.ripRoutes[j]? = if j = i then some r' else s.ripRoutes[j]? := by
    rw [hreplaces.ripRoutes, getElem?_set_of h]
  have hmem : ∀ r'' ∈ t.ripRoutes, r'' ∈ s.ripRoutes ∨ r'' = r' := by
    intro r'' hr''
    rw [hreplaces.ripRoutes] at hr''
    exact mem_or_eq_of_mem_set hr''
  refine ⟨⟨fun r'' hr'' => ?_, fun r'' hr'' => ?_, hreplaces.id_lt hinv.id_lt⟩,
    ⟨hreplaces.foreign, fun j r₀ hj hforeign => ?_, fun j r₀ hj hlearned => ?_,
      fun j r'' hnone hj => ?_⟩,
    hreplaces.mode, fun j r₀ hj => ?_, fun j r'' hj htype => ?_⟩
  · rcases hmem r'' hr'' with hold | rfl
    · exact (hinv.held r'' hold).mono hreplaces.toExtends
    · exact hheld
  · rcases hmem r'' hr'' with hold | rfl
    · exact hinv.up r'' hold
    · exact hup
  · rw [hget]
    split_ifs with hji
    · obtain rfl : r = r₀ := Option.some.inj (h.symm.trans (hji ▸ hj))
      exact ⟨r', rfl, hlearns.up hforeign⟩
    · exact ⟨r₀, hj, .refl r₀⟩
  · rw [hget, hroute]
    by_cases hji : j = i
    · subst hji
      obtain rfl : r = r₀ := Option.some.inj (h.symm.trans hj)
      rw [if_pos rfl, if_pos rfl]
      exact ⟨r', rfl, hlearns.learned hlearned⟩
    · rw [if_neg hji, if_neg (fun heq => hji (Option.some.inj heq).symm)]
      exact ⟨r₀, hj, rfl⟩
  · have hji : j ≠ i := by
      rintro rfl
      rw [h] at hnone
      cases hnone
    rw [hget, if_neg hji, hnone] at hj
    cases hj
  · rw [hget]
    split_ifs with hji
    · obtain rfl : r = r₀ := Option.some.inj (h.symm.trans (hji ▸ hj))
      exact ⟨r', rfl, hlearns.dest, hlearns.prefixLength⟩
    · exact ⟨r₀, hj, rfl, rfl⟩
  · rw [hget] at hj
    split_ifs at hj with hji
    · cases hj
      exact ⟨r, hji ▸ h, hlearns.foreign htype⟩
    · exact ⟨r'', hj, .refl r''⟩

/-- An entry that overrides no route of another module, and whose own route, if it gets one, the
routing table takes without deleting one of another module. -/
structure EntryHarmless (incomingIe : RIPInterfaceEntry) (srcAddr : L3Address) (s : RIPRouting)
    (entry : RIPEntry) : Prop where
  overrides : ∀ (i : ℕ) r, s.routeTo entry = some i → s.ripRoutes[i]? = some r → IsForeignUp r →
    isKept r = true ∨ isOverridden (offeredMetric incomingIe entry) srcAddr r = false
  takes : (∀ (i : ℕ) r, s.routeTo entry = some i → s.ripRoutes[i]? = some r → ¬ IsForeignUp r) →
    offeredMetric incomingIe entry ≠ RIP_INFINITE_METRIC →
    Takes s entry.address entry.prefixLength

/-- The RIP route to a destination keeps its place. -/
theorem Follows.routeTo_eq (hfollows : Follows s t) (hroute : s.routeTo entry = some i) :
    t.routeTo entry = some i := by
  have hkey : ∀ j (hj : j < s.ripRoutes.length), ∃ hj' : j < t.ripRoutes.length,
      t.ripRoutes[j].dest = s.ripRoutes[j].dest ∧
        t.ripRoutes[j].prefixLength = s.ripRoutes[j].prefixLength := by
    intro j hj
    obtain ⟨r', hr', hdest, hprefix⟩ := hfollows.key j _ (List.getElem?_eq_getElem hj)
    obtain ⟨hj', rfl⟩ := List.getElem?_eq_some_iff.mp hr'
    exact ⟨hj', hdest, hprefix⟩
  rw [routeTo, findRoute, List.findIdx?_eq_some_iff_getElem] at hroute ⊢
  obtain ⟨hi, hp, hbefore⟩ := hroute
  obtain ⟨hi', hdest, hprefix⟩ := hkey i hi
  refine ⟨hi', by rwa [hdest, hprefix], fun j hj => ?_⟩
  obtain ⟨_, hdest, hprefix⟩ := hkey j (Nat.lt_trans hj hi)
  rw [hdest, hprefix]
  exact hbefore j hj

/-- What the entries before it have done does not make an entry harmful. -/
theorem EntryHarmless.of_follows {entry' : RIPEntry}
    (h : EntryHarmless incomingIe srcAddr s entry) (hfollows : Follows s t)
    (hspec : EntrySpec incomingIe srcAddr s entry' t) :
    EntryHarmless incomingIe srcAddr t entry := by
  constructor
  · intro i r' hroute hget hup
    obtain ⟨r, hr, hsame⟩ := hfollows.foreign i r' hget hup.1
    have hsome : s.routeTo entry ≠ none := by
      intro hnone
      obtain ⟨_, hp, -⟩ := List.findIdx?_eq_some_iff_getElem.mp hroute
      obtain ⟨_, rfl⟩ := List.getElem?_eq_some_iff.mp hget
      rw [hsame] at hp
      have hne := List.findIdx?_eq_none_iff.mp hnone r (List.mem_of_getElem? hr)
      exact absurd hp (by rw [hne]; decide)
    obtain ⟨k, hk⟩ := Option.ne_none_iff_exists'.mp hsome
    obtain rfl : k = i := Option.some.inj ((hfollows.routeTo_eq hk).symm.trans hroute)
    rw [SameRoute] at hsame
    rw [hsame] at hup ⊢
    exact h.overrides k r hk hr hup
  · intro hlearned hmetric
    refine (h.takes (fun i r hroute hr hup => ?_) hmetric).of_foreign hspec.foreign hfollows.mode
    obtain ⟨r', hr', hsame⟩ := hspec.up i r hr hup
    refine hlearned i r' (hfollows.routeTo_eq hroute) hr' ?_
    rw [hsame]
    exact hup

/-- The route that an entry is for, when it is not updated. -/
theorem learns_of_sameRoute (hsame : SameRoute r r')
    (hover : isOverridden (offeredMetric incomingIe entry) srcAddr r = false) :
    Learns incomingIe srcAddr entry r r' := by
  have hmetric : r'.metric = r.metric := by
    rw [SameRoute] at hsame
    rw [hsame]
  refine ⟨by rw [hsame], by rw [hsame], fun _ => hsame, fun _ => hsame, fun _ => ?_⟩
  rw [isOverridden, Bool.or_eq_false_iff, decide_eq_false_iff_not] at hover
  rw [hmetric, learnedMetric]
  split_ifs with h
  · rcases h with hfrom | hlt
    · simpa [hfrom] using hover.1
    · exact absurd hlt hover.2
  · rfl

/-- A route that is overridden is one that RIP has learned, or has become invalid. -/
theorem EntryHarmless.learned (h : EntryHarmless incomingIe srcAddr s entry)
    (hroute : s.routeTo entry = some i) (hr : s.ripRoutes[i]? = some r)
    (hkept : ¬ isKept r = true)
    (hover : isOverridden (offeredMetric incomingIe entry) srcAddr r = true) :
    r.type = .RIP_ROUTE_RTE ∨ r.metric = RIP_INFINITE_METRIC := by
  by_contra hup
  rw [not_or] at hup
  rcases h.overrides i r hroute hr hup with hkept' | hover'
  · exact hkept hkept'
  · rw [hover] at hover'
    cases hover'

theorem addRipRoute_spec (hinv : Inv s) (hroute : s.routeTo entry = none)
    (htakes : Takes s entry.address entry.prefixLength)
    (hmetric : offeredMetric incomingIe entry ≠ RIP_INFINITE_METRIC) (ie : Option ℕ)
    (nextHop : L3Address) :
    ∃ t, s.addRipRoute now entry.address entry.prefixLength ie nextHop
        (offeredMetric incomingIe entry) entry.routeTag srcAddr = .ok t ∧
      Inv t ∧ EntrySpec incomingIe srcAddr s entry t ∧ Follows s t := by
  obtain ⟨u, hu, hquiet, hroutes, hnext, hown⟩ := addRoute_spec htakes hinv.id_lt ie nextHop
    (offeredMetric incomingIe entry)
  rw [addRipRoute, hu, ok_bind]
  dsimp only
  rw [hroutes]
  refine ⟨_, rfl, ?_⟩
  generalize hnew : (⟨.RIP_ROUTE_RTE, some s.nextRoute, entry.address, entry.prefixLength, nextHop,
    ie, srcAddr, offeredMetric incomingIe entry, entry.routeTag, true, now⟩ : RIPRoute) = new
  have hquiet' : Quiet s { u with ripRoutes := s.ripRoutes ++ [new] } :=
    hquiet.trans (.of_eq rfl rfl rfl rfl)
  have hold (j : ℕ) (r : RIPRoute) (hj : s.ripRoutes[j]? = some r) :
      (s.ripRoutes ++ [new])[j]? = some r :=
    (List.getElem?_append_left (List.getElem?_eq_some_iff.mp hj).1).trans hj
  have hlast (j : ℕ) (r : RIPRoute) (hnone : s.ripRoutes[j]? = none)
      (hj : (s.ripRoutes ++ [new])[j]? = some r) : r = new := by
    rw [List.getElem?_append_right (List.getElem?_eq_none_iff.mp hnone)] at hj
    exact List.mem_singleton.mp (List.mem_of_getElem? hj)
  refine ⟨⟨fun r hr => ?_, fun r hr => ?_, hquiet'.id_lt hinv.id_lt⟩,
    ⟨hquiet'.foreign, fun j r hj _ => ⟨r, hold j r hj, .refl r⟩,
      fun j r hj _ => ⟨r, hold j r hj, by rw [hroute]; rfl⟩, fun j r hnone hj => ?_⟩,
    hquiet'.mode, fun j r hj => ⟨r, hold j r hj, rfl, rfl⟩, fun j r hj htype => ?_⟩
  · rcases List.mem_append.mp hr with hr | hr
    · exact (hinv.held r hr).mono hquiet'.toExtends
    · obtain rfl := List.mem_singleton.mp hr
      intro id hid
      obtain rfl : s.nextRoute = id := Option.some.inj (by rw [← hid, ← hnew])
      exact ⟨hnext, fun _ => hown⟩
  · rcases List.mem_append.mp hr with hr | hr
    · exact hinv.up r hr
    · rw [List.mem_singleton.mp hr, ← hnew]
      exact ⟨by simp [hmetric], offeredMetric_le⟩
  · rw [hlast j r hnone hj, ← hnew]
    exact ⟨rfl, rfl⟩
  · cases hget : s.ripRoutes[j]? with
    | some r₀ =>
      obtain rfl : r₀ = r := Option.some.inj ((hold j r₀ hget).symm.trans hj)
      exact ⟨r₀, rfl, .refl r₀⟩
    | none =>
      -- The new route is a learned one.
      rw [hlast j r hget hj, ← hnew] at htype
      exact absurd rfl htype

variable (now) in
theorem processEntry_spec (hinv : Inv s) (hharmless : EntryHarmless incomingIe srcAddr s entry) :
    ∃ t, processEntry now incomingIe srcAddr s entry = .ok t ∧
      Inv t ∧ EntrySpec incomingIe srcAddr s entry t ∧ Follows s t := by
  unfold processEntry
  dsimp only
  generalize (if entry.nextHop.isNone then srcAddr else entry.nextHop) = nextHop
  cases hroute : s.routeTo entry with
  | none =>
    dsimp only
    split_ifs with hmetric
    · exact addRipRoute_spec hinv hroute (hharmless.takes
        (fun i r hi => by rw [hroute] at hi; cases hi) hmetric) hmetric _ _
    · exact ⟨s, rfl, hinv, ⟨rfl, fun j r hj _ => ⟨r, hj, .refl r⟩,
        fun j r hj _ => ⟨r, hj, by rw [hroute]; rfl⟩,
        fun j r hnone hj => by rw [hnone] at hj; cases hj⟩, .refl s⟩
  | some i =>
    obtain ⟨hi, -⟩ := findIdx?_eq_some_iff_getElem.mp hroute
    obtain ⟨r, hr⟩ : ∃ r, s.ripRoutes[i]? = some r := ⟨_, getElem?_eq_getElem hi⟩
    have hmem : r ∈ s.ripRoutes := mem_of_getElem? hr
    have hheld := hinv.held r hmem
    have hup := hinv.up r hmem
    dsimp only
    rw [hr]
    dsimp only
    by_cases hkept : isKept r = true
    · rw [if_pos hkept]
      have hforeign : IsForeignUp r := by
        rw [isKept, Bool.and_eq_true, bne_iff_ne] at hkept
        refine ⟨fun htype => ?_, hkept.2⟩
        rw [htype] at hkept
        cases hkept.1
      exact ⟨s, rfl, entrySpec_of_replaces hinv hroute hr (replaces_self hr) hheld hup
        ⟨rfl, rfl, fun _ => .refl r, fun _ => .refl r, fun h => absurd hforeign h⟩⟩
    · rw [if_neg hkept]
      obtain ⟨r₁, hsame, hreplaces, hheld₁, hup₁⟩ : ∃ r₁, SameRoute r r₁ ∧
          Replaces i s (if r.from' = srcAddr then
            s.modifyRipRoute i ({ · with lastUpdateTime := now }) else s) r₁ ∧
          Held s r₁ ∧ Up r₁ := by
        split_ifs
        · exact ⟨{ r with lastUpdateTime := now }, rfl, replaces_modifyRipRoute hr _, hheld, hup⟩
        · exact ⟨r, .refl r, replaces_self hr, hheld, hup⟩
      generalize (if r.from' = srcAddr then
        s.modifyRipRoute i ({ · with lastUpdateTime := now }) else s) = s₁ at hreplaces ⊢
      cases hover : isOverridden (offeredMetric incomingIe entry) srcAddr r with
      | false =>
        exact ⟨s₁, rfl, entrySpec_of_replaces hinv hroute hr hreplaces
          (hheld₁.mono hreplaces.toExtends) hup₁ (learns_of_sameRoute hsame hover)⟩
      | true =>
        have hlearned := hharmless.learned hroute hr hkept hover
        have hchange : r.metric = RIP_INFINITE_METRIC →
            offeredMetric incomingIe entry < RIP_INFINITE_METRIC := by
          intro hdown
          have hle : offeredMetric incomingIe entry ≤ RIP_INFINITE_METRIC := offeredMetric_le
          rw [isOverridden, hdown] at hover
          simp only [Bool.or_eq_true, Bool.and_eq_true, bne_iff_ne, decide_eq_true_eq] at hover
          omega
        have htakes : offeredMetric incomingIe entry ≠ RIP_INFINITE_METRIC →
            Takes s₁ r₁.dest r₁.prefixLength := by
          intro hmetric
          obtain ⟨_, hp, -⟩ := findIdx?_eq_some_iff_getElem.mp hroute
          obtain ⟨_, rfl⟩ := List.getElem?_eq_some_iff.mp hr
          rw [Bool.and_eq_true, beq_iff_eq, beq_iff_eq] at hp
          rw [hsame, hp.1, hp.2]
          refine (hharmless.takes (fun j r' hj hr' hforeign => ?_) hmetric).of_foreign
            hreplaces.foreign hreplaces.mode
          obtain rfl : i = j := Option.some.inj (hroute.symm.trans hj)
          obtain rfl := Option.some.inj (hr.symm.trans hr')
          exact absurd hlearned (not_or.mpr hforeign)
        rw [SameRoute] at hsame
        obtain ⟨t, r', ht, hreplaces', hheld', hup', htype, hmetric, -, hdest, hlength⟩ :=
          updateRoute_spec (some incomingIe.ie.interfaceId) nextHop
            (offeredMetric incomingIe entry) now entry.routeTag srcAddr
            (hreplaces.getElem? hr) (hheld₁.mono hreplaces.toExtends)
            (hreplaces.id_lt hinv.id_lt) htakes hup₁ (by rwa [hsame]) offeredMetric_le
            (by rwa [hsame])
        refine ⟨t, ht, entrySpec_of_replaces hinv hroute hr (hreplaces.trans hreplaces') hheld'
          hup' ⟨by rw [hdest, hsame], by rw [hlength, hsame], fun hforeign => ?_,
            fun h => absurd htype h, fun _ => ?_⟩⟩
        · exact absurd hlearned (not_or.mpr hforeign)
        · rw [hmetric, learnedMetric, if_pos]
          rw [isOverridden] at hover
          simp only [Bool.or_eq_true, Bool.and_eq_true, beq_iff_eq, decide_eq_true_eq] at hover
          exact hover.imp_left And.left

variable (now) in
theorem processEntries_spec {entries : List RIPEntry} (hinv : Inv s)
    (hharmless : ∀ entry ∈ entries, EntryHarmless incomingIe srcAddr s entry) :
    ∃ t, entries.foldlM (processEntry now incomingIe srcAddr) s = .ok t ∧ Inv t ∧
      t.rt.filter isForeign = s.rt.filter isForeign ∧
      Run.Along (processEntry now incomingIe srcAddr) (EntrySpec incomingIe srcAddr) s entries := by
  induction entries generalizing s with
  | nil => exact ⟨s, rfl, hinv, rfl, trivial⟩
  | cons entry entries ih =>
    obtain ⟨u, hu, hinvu, hspec, hfollows⟩ :=
      processEntry_spec now hinv (hharmless entry mem_cons_self)
    obtain ⟨t, ht, hinvt, hforeign, halong⟩ := ih hinvu fun e he =>
      (hharmless e (mem_cons_of_mem entry he)).of_follows hfollows hspec
    refine ⟨t, ?_, hinvt, hforeign.trans hspec.foreign, u, hu, hspec, halong⟩
    rw [foldlM_cons, hu, ok_bind, ht]

end

variable {host : Host} {s t : RIPRouting} {i : ℕ} {r : RIPRoute} {route : IRoute}

theorem Inv.of_extends (hinv : Inv s) (hext : Extends s t)
    (hroutes : ∀ r ∈ t.ripRoutes, r ∈ s.ripRoutes ∨ (Held t r ∧ Up r)) : Inv t := by
  refine ⟨fun r hr => ?_, fun r hr => ?_, hext.id_lt hinv.id_lt⟩
  · exact (hroutes r hr).elim (fun hold => (hinv.held r hold).mono hext) And.left
  · exact (hroutes r hr).elim (hinv.up r) And.right

theorem up_invalidated (r : RIPRoute) : Up (invalidated r) :=
  ⟨⟨fun _ => rfl, fun _ => rfl⟩, Int.le_refl _⟩

theorem Inv.deleteDefaultRoute (hinv : Inv s) (entry : ℕ) (prefixLength : ℤ) :
    Inv (s.deleteDefaultRoute entry prefixLength) := by
  obtain ⟨hext, -, hroutes⟩ := deleteDefaultRoute_spec s entry prefixLength
  refine hinv.of_extends hext fun r hr => (hroutes r hr).imp_right ?_
  rintro ⟨r₀, rfl⟩
  exact ⟨held_of_none rfl, up_invalidated r₀⟩

/-- Any change of a RIP route, and of the route that it passes values on to. -/
theorem extends_setThrough (s : RIPRouting) (i : ℕ) (f : RIPRoute → RIPRoute) {g : IRoute → IRoute}
    (hg : ∀ x, (g x).id = x.id ∧ (g x).source = x.source) : Extends s (s.setThrough i f g) := by
  unfold setThrough
  dsimp only
  split
  · exact (quiet_modifyRipRoute s i f).toExtends.trans
      (extends_map (s := s.modifyRipRoute i f) (changeAt_spec hg))
  · exact (quiet_modifyRipRoute s i f).toExtends

theorem extends_dropRoute (s : RIPRouting) (i : ℕ) : Extends s (s.dropRoute i) := by
  unfold dropRoute
  split
  · exact (quiet_modifyRipRoute s i _).toExtends.trans (extends_deleteRoute _ _)
  · exact (Quiet.refl s).toExtends

theorem mem_modify {α : Type*} {l : List α} {f : α → α} {a : α} (h : a ∈ l.modify i f) :
    a ∈ l ∨ ∃ b ∈ l, a = f b := by
  obtain ⟨j, hj⟩ := mem_iff_getElem?.mp h
  rw [getElem?_modify] at hj
  cases hget : l[j]? with
  | none =>
    rw [hget] at hj
    cases hj
  | some b =>
    rw [hget] at hj
    have hb : b ∈ l := mem_of_getElem? hget
    have hj : (if i = j then f b else b) = a := Option.some.inj hj
    split_ifs at hj
    · exact .inr ⟨b, hb, hj.symm⟩
    · exact .inl (hj ▸ hb)

theorem Inv.invalidateRoute (hinv : Inv s) (i : ℕ) : Inv (s.invalidateRoute i) := by
  have hmetric : Extends (s.dropRoute i) ((s.dropRoute i).setMetric i RIP_INFINITE_METRIC) :=
    extends_setThrough _ i _ fun _ => ⟨rfl, rfl⟩
  have hext : Extends s (s.invalidateRoute i) :=
    ((extends_dropRoute s i).trans hmetric).trans (quiet_modifyRipRoute _ i _).toExtends
  refine hinv.of_extends hext fun r hr => ?_
  rw [ripRoutes_invalidateRoute] at hr
  rcases mem_modify hr with hold | ⟨b, -, rfl⟩
  · exact .inl hold
  · exact .inr ⟨held_of_none rfl, up_invalidated b⟩

theorem Inv.invalidateRoutes (hinv : Inv s) (p : RIPRoute → Bool) : Inv (s.invalidateRoutes p) := by
  unfold RIPRouting.invalidateRoutes
  generalize List.range s.ripRoutes.length = indices
  induction indices generalizing s with
  | nil => exact hinv
  | cons i indices ih =>
    rw [foldl_cons]
    refine ih ?_
    split_ifs
    · exact hinv.invalidateRoute i
    · exact hinv

theorem getInterfaceMetric_lt (s : RIPRouting) (ie : InterfaceEntry) :
    s.getInterfaceMetric ie < RIP_INFINITE_METRIC := by
  unfold getInterfaceMetric
  split
  · rename_i ripIe _
    exact ripIe.metric_lt
  · decide

theorem Inv.importRoute {type : RouteType} {ie : Option ℕ} {metric : ℤ} (hinv : Inv s)
    (hid : route.id < s.nextRoute) (htype : type ≠ .RIP_ROUTE_RTE)
    (h : s.importRoute route type ie metric = .ok t) : Inv t := by
  unfold RIPRouting.importRoute at h
  obtain ⟨_, hmetric, h⟩ := bind_eq_ok.mp h
  rw [assert_eq_ok, decide_eq_true_eq] at hmetric
  cases h
  refine hinv.of_extends (.of_subset (fun _ hx => hx) rfl) fun r hr => ?_
  rcases mem_append.mp hr with hr | hr
  · exact .inl hr
  · obtain rfl := mem_singleton.mp hr
    refine .inr ⟨fun id hid' => ?_, ⟨by simp [Int.ne_of_lt hmetric], Int.le_of_lt hmetric⟩⟩
    obtain rfl : route.id = id := Option.some.inj hid'
    exact ⟨hid, fun h => absurd h htype⟩

theorem Inv.configureInitialRoutes (hinv : Inv s)
    (h : s.configureInitialRoutes host = .ok t) : Inv t := by
  have hloop : ∀ (routes : List IRoute) (u : RIPRouting), (∀ x ∈ routes, x.id < u.nextRoute) →
      Inv u → routes.foldlM (importInitialRoute host) u = .ok t → Inv t := by
    intro routes
    induction routes with
    | nil =>
      intro u _ hu h
      cases h
      exact hu
    | cons route routes ih =>
      intro u hlt hu h
      rw [foldlM_cons] at h
      obtain ⟨v, hv, h⟩ := bind_eq_ok.mp h
      have hid := hlt route mem_cons_self
      have hnext : v.nextRoute = u.nextRoute ∧ Inv v := by
        have hkeep {type : RouteType} {ie : Option ℕ} {metric : ℤ}
            (htype : type ≠ .RIP_ROUTE_RTE) (hv : u.importRoute route type ie metric = .ok v) :
            v.nextRoute = u.nextRoute ∧ Inv v := by
          refine ⟨?_, hu.importRoute hid htype hv⟩
          unfold RIPRouting.importRoute at hv
          obtain ⟨-, -, hv⟩ := bind_eq_ok.mp hv
          rw [← Except.ok.inj hv]
        have hsame (hv : (Except.ok u : Result RIPRouting) = .ok v) :
            v.nextRoute = u.nextRoute ∧ Inv v := by
          rw [← Except.ok.inj hv]
          exact ⟨rfl, hu⟩
        unfold importInitialRoute at hv
        split at hv
        · split_ifs at hv
          · exact hsame hv
          · exact hkeep (by decide) hv
        · split_ifs at hv
          · exact hkeep (by decide) hv
          · exact hkeep (by decide) hv
          · exact hsame hv
      exact ih v (fun x hx => hnext.1 ▸ hlt x (mem_cons_of_mem _ hx)) hnext.2 h
  exact hloop s.rt s hinv.id_lt hinv h

theorem Inv.routeAdded (hinv : Inv s) (hid : route.id < s.nextRoute)
    (h : s.routeAdded route = .ok t) : Inv t := by
  unfold RIPRouting.routeAdded at h
  split at h
  · split_ifs at h
    · cases h
      exact hinv
    · rename_i ie _ _
      dsimp only at h
      split at h
      · rename_i i hfind
        cases h
        obtain ⟨hi, hp, -⟩ := findIdx?_eq_some_iff_getElem.mp hfind
        have hr : s.ripRoutes[i]? = some s.ripRoutes[i] := getElem?_eq_getElem hi
        generalize s.ripRoutes[i] = r at hr hp
        rw [Bool.and_eq_true, beq_iff_eq] at hp
        have h₁ := replaces_modifyRipRoute hr ({ · with route := some route.id })
        have hheld : Held (s.modifyRipRoute i ({ · with route := some route.id }))
            { r with route := some route.id } := by
          intro id hid'
          obtain rfl : route.id = id := Option.some.inj hid'
          exact ⟨hid, fun h => by rw [hp.1] at h; cases h⟩
        have h₂ := replaces_setMetric (h₁.getElem? hr) hheld
          ((s.modifyRipRoute i ({ · with route := some route.id })).getInterfaceMetric ie)
        have h₃ := replaces_modifyRipRoute ((h₁.trans h₂).getElem? hr) ({ · with changed := true })
        have h₁₃ := (h₁.trans h₂).trans h₃
        refine hinv.of_extends h₁₃.toExtends fun r' hr' => ?_
        rw [h₁₃.ripRoutes] at hr'
        rcases mem_or_eq_of_mem_set hr' with hold | rfl
        · exact .inl hold
        · have hlt := getInterfaceMetric_lt
            (s.modifyRipRoute i ({ · with route := some route.id })) ie
          exact .inr ⟨hheld.mono (h₂.trans h₃).toExtends,
            ⟨by simp [Int.ne_of_lt hlt], Int.le_of_lt hlt⟩⟩
      · exact hinv.importRoute hid (by decide) h
  · cases h
    exact hinv

theorem Inv.routeChanged (hinv : Inv s) : Inv (s.routeChanged route) := by
  unfold RIPRouting.routeChanged
  split
  · exact hinv
  · rename_i i hfind
    obtain ⟨hi, -⟩ := findIdx?_eq_some_iff_getElem.mp hfind
    have hmem : s.ripRoutes[i] ∈ s.ripRoutes := getElem_mem hi
    have hr : s.ripRoutes[i]? = some s.ripRoutes[i] := getElem?_eq_getElem hi
    generalize s.ripRoutes[i] = r at hr hmem
    have hheld := hinv.held r hmem
    have hup := hinv.up r hmem
    have h₁ := replaces_modifyRipRoute hr
      ({ · with dest := route.destination, prefixLength := route.prefixLength })
    have h₂ := replaces_setNextHop (h₁.getElem? hr) (hheld.mono h₁.toExtends) route.nextHop
    have h₁₂ := h₁.trans h₂
    have h₃ := replaces_setInterface (h₁₂.getElem? hr) (hheld.mono h₁₂.toExtends) route.interface
    have h₁₃ := h₁₂.trans h₃
    have hkeeps {u : RIPRouting} {r' : RIPRoute} (h : Replaces i s u r')
        (hroute : r'.route = r.route) (htype : r'.type = r.type) (hmetric : r'.metric = r.metric) :
        Inv u := by
      refine hinv.of_extends h.toExtends fun r'' hr'' => ?_
      rw [h.ripRoutes] at hr''
      rcases mem_or_eq_of_mem_set hr'' with hold | rfl
      · exact .inl hold
      · refine .inr ⟨fun id hid => ?_, ?_⟩
        · rw [htype]
          exact hheld.mono h.toExtends id (hroute.symm.trans hid)
        · rw [Up, hmetric, hroute]
          exact hup
    dsimp only
    split_ifs
    · exact hkeeps (h₁₃.trans (replaces_modifyRipRoute (h₁₃.getElem? hr)
        ({ · with changed := true }))) rfl rfl rfl
    · exact hkeeps h₁₃ rfl rfl rfl

theorem Inv.routeDeleted (hinv : Inv s) (route : ℕ) : Inv (s.routeDeleted route) := by
  refine hinv.of_extends (.of_subset (fun _ hx => hx) rfl) fun r hr => ?_
  obtain ⟨r₀, hr₀, rfl⟩ := mem_map.mp hr
  split_ifs
  · exact .inr ⟨held_of_none rfl, up_invalidated r₀⟩
  · exact .inl hr₀

/-- Sending an update invalidates routes at most. -/
theorem Inv.sendRoutes {now : ℤ} {ripInterface : RIPInterfaceEntry} {changedOnly : Bool}
    {packets : List RIPPacket} (hinv : Inv s)
    (h : s.sendRoutes now ripInterface changedOnly = .ok (t, packets)) : Inv t := by
  cases hloop : (List.range s.ripRoutes.length).foldlM
    (sendRoute now ripInterface changedOnly (maxEntries s.mode ripInterface))
    ⟨s, [], RIPPacket.setEntryArraySize {} (maxEntries s.mode ripInterface), 0⟩ with
  | error e =>
    rw [RIPRouting.sendRoutes, hloop] at h
    cases h
  | ok sending =>
    rw [sendRoutes_of_loop hloop] at h
    cases h
    refine CountingLoop.range_ok (fun _ sending => Inv sending.table) hinv ?_ hloop
    intro i _ u v hu hround
    cases hroute : u.table.ripRoutes[i]? with
    | none =>
      rw [sendRoute, checkRouteIsExpired, hroute] at hround
      cases hround
    | some route =>
      cases hdue : u.table.isDueForPurge now route with
      | true =>
        rw [sendRoute_of_due hroute hdue] at hround
        cases hround
      | false =>
        have hchecked : Inv (u.table.checked now route i) := by
          unfold checked
          split
          · exact hu.invalidateRoute i
          · exact hu
        rw [RIPRouting.sendRoute_eq hroute hdue] at hround
        split at hround
        · rw [← Except.ok.inj hround]
          exact hchecked
        · rw [Sending.fill] at hround
          obtain ⟨packet, -, hround⟩ := bind_eq_ok.mp hround
          dsimp only at hround
          split_ifs at hround <;> rw [← Except.ok.inj hround] <;> exact hchecked

/-- A response has harmless entries only, and no other module puts a default route in the place of
one that RIP has learned: RIP is not told, and would go on using the deleted route. -/
def Harmless (host : Host) (s : RIPRouting) : Event → Prop
  | .response _ packet => s.isValidResponse host packet = true →
      ∀ incomingIe, s.findInterfaceById packet.interfaceId = some incomingIe →
        ∀ entry ∈ packet.entries, EntryHarmless incomingIe packet.srcAddr s entry
  | .routeAdded route | .routeChanged route => s.mode = .RIPv2 → route.prefixLength = 0 →
      ∀ oldRoute ∈ s.rt, oldRoute.prefixLength = 0 → isForeign oldRoute = true
  | _ => True

/-- What a response should do: nothing if it is not valid or has come in on an interface that RIP
does not know, else what its entries should do, one after another. -/
def ResponseSpec (host : Host) (s : RIPRouting) (now : ℤ) (packet : Response) : Prop :=
  ∃ t, s.processResponse host now packet = .ok t ∧ t.rt.filter isForeign = s.rt.filter isForeign ∧
    match s.isValidResponse host packet, s.findInterfaceById packet.interfaceId with
    | true, some incomingIe =>
      Run.Along (processEntry now incomingIe packet.srcAddr)
        (EntrySpec incomingIe packet.srcAddr) s packet.entries
    | _, _ => t = s

theorem processResponse_spec {now : ℤ} {packet : Response} (hinv : Inv s)
    (hharmless : Harmless host s (.response now packet)) :
    ResponseSpec host s now packet ∧ ∀ t, s.processResponse host now packet = .ok t → Inv t := by
  unfold ResponseSpec RIPRouting.processResponse
  cases hvalid : s.isValidResponse host packet with
  | false =>
    refine ⟨⟨s, rfl, rfl, rfl⟩, fun t ht => ?_⟩
    cases ht
    exact hinv
  | true =>
    cases hie : s.findInterfaceById packet.interfaceId with
    | none =>
      refine ⟨⟨s, rfl, rfl, rfl⟩, fun t ht => ?_⟩
      cases ht
      exact hinv
    | some incomingIe =>
      obtain ⟨u, hu, hinvu, hforeign, halong⟩ :=
        processEntries_spec now hinv (hharmless hvalid incomingIe hie)
      refine ⟨⟨u, hu, hforeign, halong⟩, fun t ht => ?_⟩
      obtain rfl := Except.ok.inj (hu.symm.trans ht)
      exact hinvu

theorem Inv.step {event : Event} (hinv : Inv s) (hharmless : Harmless host s event)
    (h : step host s event = .ok t) : Inv t := by
  cases event with
  | start ripInterfaces =>
    have hstart : Inv { s with ripInterfaces } :=
      hinv.of_extends (.of_subset (fun _ hx => hx) rfl) fun _ hr => .inl hr
    exact hstart.configureInitialRoutes h
  | stop =>
    cases h
    refine hinv.of_extends (.of_subset (fun _ hx => hx) rfl) fun r hr => ?_
    exact absurd hr not_mem_nil
  | interfaceCreated ripInterface =>
    cases h
    exact hinv.of_extends (.of_subset (fun _ hx => hx) rfl) fun _ hr => .inl hr
  | interfaceDeleted ie =>
    cases h
    exact hinv.of_extends (.of_subset (fun _ hx => hx) rfl)
      fun _ hr => .inl (mem_filter.mp hr).1
  | interfaceDown ie =>
    cases h
    exact hinv.invalidateRoutes _
  | routeAdded route =>
    rw [RIPRouting.step] at h
    split_ifs at h
    · have hnext := (deleteDefaultRoute_spec s s.nextRoute route.prefixLength).2.1
      have hinv := hinv.deleteDefaultRoute s.nextRoute route.prefixLength
      dsimp only at h
      generalize s.deleteDefaultRoute s.nextRoute route.prefixLength = u at hinv hnext h
      have hadded : Inv { u with
          rt := u.rt ++ [{ route with id := s.nextRoute }]
          nextRoute := u.nextRoute + 1 } :=
        hinv.of_extends (extends_append u _ hnext.symm) fun _ hr => .inl hr
      exact hadded.routeAdded (Nat.lt_succ_of_le hnext.ge) h
    · cases h
      exact hinv
  | routeChanged route =>
    rw [RIPRouting.step] at h
    split_ifs at h
    · cases h
      refine Inv.routeChanged (Inv.deleteDefaultRoute
        (hinv.of_extends (extends_map fun x => ?_) fun _ hr => .inl hr) _ _)
      split_ifs with hx
      · exact ⟨hx.1.symm, rfl⟩
      · exact ⟨rfl, rfl⟩
    · cases h
      exact hinv
  | routeDeleted route =>
    rw [RIPRouting.step] at h
    split_ifs at h
    · cases h
      exact (hinv.of_extends (extends_deleteRoute s route) fun _ hr => .inl hr).routeDeleted route
    · cases h
      exact hinv
  | send now ripInterface changedOnly =>
    obtain ⟨⟨u, packets⟩, hu, h⟩ := bind_eq_ok.mp h
    cases h
    exact hinv.sendRoutes hu
  | clearChanged =>
    cases h
    refine hinv.of_extends (.of_subset (fun _ hx => hx) rfl) fun r hr => ?_
    obtain ⟨r₀, hr₀, rfl⟩ := mem_map.mp hr
    exact .inr ⟨hinv.held r₀ hr₀, hinv.up r₀ hr₀⟩
  | shutdown =>
    cases h
    exact hinv.invalidateRoutes _
  | response now packet => exact (processResponse_spec hinv hharmless).2 t h

/-- A module that has not been started, over any routing table. -/
def Initial (s : RIPRouting) : Prop := s.ripRoutes = [] ∧ ∀ x ∈ s.rt, x.id < s.nextRoute

theorem Initial.inv (h : Initial s) : Inv s := by
  refine ⟨fun r hr => ?_, fun r hr => ?_, h.2⟩ <;>
  · rw [h.1] at hr
    exact absurd hr not_mem_nil

/-- As long as no response overrides a route of a local interface, responses only touch the routes
that RIP has added, and learned routes get the metrics they should. -/
theorem processResponse_keepsForeignRoutes {start : RIPRouting} (hstart : Initial start)
    {events : List Event} (hrun : Run.Admissible (step host) (Harmless host) start events)
    (hs : Run.exec (step host) start events = .ok s) {now : ℤ} {packet : Response}
    (hharmless : Harmless host s (.response now packet)) : ResponseSpec host s now packet := by
  have hinv : Run.Throughout (step host) Inv start events :=
    Run.throughout_of_step (fun _ _ _ h hok hstep => h.step hok hstep) hstart.inv hrun
  exact (processResponse_spec (hinv.of_exec hs) hharmless).1

/-- A host with the address 1 and a neighbour with the address 2. -/
def connectedHost : Host where
  isLocalAddress address := address == some 1
  isNeighborAddress address := address == some 2
  isUnicast _ := true
  isMulticast _ := false
  isLinkLocal _ := false
  maxPrefixLength := 32

/-- The routing table has a route to the network 10.0.0.0/24 of interface 1. -/
def connectedStart : RIPRouting where
  rt := [⟨0, .interface ⟨1, 1500, false, ethernetMtu_lt⟩, some 0x0a000000, 24, none, some 1, 0⟩]
  nextRoute := 1

/-- RIP is started, with the metric 5 on that interface. -/
def connectedEvents : List Event :=
  [.start [⟨⟨1, 1500, false, ethernetMtu_lt⟩, 5, .NO_SPLIT_HORIZON, by decide, by decide⟩,
    ⟨⟨2, 1500, false, ethernetMtu_lt⟩, 1, .NO_SPLIT_HORIZON, defaultMetric_pos, defaultMetric_lt⟩]]

/-- The neighbour has a route to the same network. -/
def connectedResponse (metric : ℤ) : Response :=
  ⟨520, some 2, 2, 1, [⟨RIP_AF_INET, some 0x0a000000, 24, none, 0, metric⟩]⟩

def connected : RIPRouting :=
  { connectedStart with
    ripInterfaces :=
      [⟨⟨1, 1500, false, ethernetMtu_lt⟩, 5, .NO_SPLIT_HORIZON, by decide, by decide⟩,
        ⟨⟨2, 1500, false, ethernetMtu_lt⟩, 1, .NO_SPLIT_HORIZON, defaultMetric_pos, defaultMetric_lt⟩]
    ripRoutes := [⟨.RIP_ROUTE_INTERFACE, some 0, some 0x0a000000, 24, none, some 1, none, 5, 0,
      false, 0⟩] }

theorem exec_connected :
    Run.exec (step connectedHost) connectedStart connectedEvents = .ok connected := rfl

theorem harmless_connectedResponse :
    Harmless connectedHost connected (.response 0 (connectedResponse 7)) := by
  intro _ incomingIe hie entry hentry
  cases hie
  obtain rfl := mem_singleton.mp hentry
  refine ⟨fun i r hroute hr _ => ?_, fun hforeign _ => ?_⟩
  · cases hroute
    cases hr
    exact .inr rfl
  · exact absurd ⟨by decide, by decide⟩ (hforeign 0 _ rfl rfl)

/-- A dearer route does not override the connected one. -/
theorem processResponse_keepsForeignRoutes_connected :
    ResponseSpec connectedHost connected 0 (connectedResponse 7) :=
  @processResponse_keepsForeignRoutes connectedHost connected connectedStart ⟨rfl, by decide⟩
    connectedEvents ⟨trivial, fun _ _ => trivial⟩ exec_connected 0 (connectedResponse 7)
    harmless_connectedResponse

/-- A cheaper route of the neighbour takes the place of the connected one. -/
theorem not_responseSpec_connected :
    ∃ s, Run.exec (step connectedHost) connectedStart connectedEvents = .ok s ∧
      ¬ ResponseSpec connectedHost s 0 (connectedResponse 1) := by
  refine ⟨connected, exec_connected, ?_⟩
  rintro ⟨t, ht, hforeign, -⟩
  cases ht
  cases hforeign

end Inet.Rip.RIPRouting
