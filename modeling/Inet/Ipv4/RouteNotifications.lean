import Inet.Ipv4.RouteLookup

/-!
# The routing table and its listeners

What each method of the table leaves at its notifications (`Pause`) and at its end (`Idle`), and
the result for runs: the vector is sorted, and every lookup gives a best route, when the
administrative distance of a route is not changed so that it should move, and no listener asks
for a destination whose cache entry `purge` or `updateNetmaskRoutes` has made stale
(`finds_best_of_admissible`).
-/

namespace Inet.Ipv4.IPv4RoutingTable

open Callback Run

variable {table : IPv4RoutingTable} {dest : IPv4Address} {route : IPv4Route} {id : ℕ}

/-- The vector is in order, and so is the cache. -/
structure Kept (table : IPv4RoutingTable) : Prop where
  ordered : table.Ordered
  allocated : table.Allocated
  right : ∀ dest, table.RightFor dest

/-- Between two calls the cache agrees with the vector. -/
structure Idle (table : IPv4RoutingTable) : Prop where
  kept : table.Kept
  pointed : ∀ dest, table.Pointed dest
  erased : table.erased = none

/-- A valid route that the cache holds for a destination matches it. -/
def Aimed (table : IPv4RoutingTable) (dest : IPv4Address) : Prop :=
  ∀ id, table.routingCache.lookup dest = some (some id) → ∀ route ∈ table.routes,
    route.id = id → route.isValid table.simTime = true → table.Matches dest route

/-- The vector is in order, and there may be better routes than those in the cache. -/
structure Stale (table : IPv4RoutingTable) : Prop where
  ordered : table.Ordered
  allocated : table.Allocated
  aimed : ∀ dest, table.Aimed dest

/-- What holds while the listeners of a notification run. -/
def Pause (notification : Notification) (table : IPv4RoutingTable) : Prop :=
  match notification.emitter with
  | .purge =>
    table.Kept ∧ ∀ route, table.erased = some route → route.isValid table.simTime = false
  | .updateNetmaskRoutes =>
    match notification.signal with
    | .NF_ROUTE_ADDED => table.Stale
    | _ => table.Kept
  | _ => table.Kept ∧ ∀ dest, table.Pointed dest

/-- Listeners only look up routes, which changes the cache at most. -/
def Frame (before after : IPv4RoutingTable) : Prop :=
  after = { before with routingCache := after.routingCache }

theorem Frame.refl (table : IPv4RoutingTable) : Frame table table := rfl

theorem Frame.trans {s t u : IPv4RoutingTable} (hst : Frame s t) (htu : Frame t u) : Frame s u := by
  rw [Frame] at hst htu ⊢
  rw [htu, hst]

theorem Frame.eqs {s t : IPv4RoutingTable} (h : Frame s t) :
    t.routes = s.routes ∧ t.erased = s.erased ∧ t.nextId = s.nextId ∧ t.simTime = s.simTime := by
  rw [h]
  exact ⟨rfl, rfl, rfl, rfl⟩

theorem Ordered.kept_invalidateCache (h : table.Ordered) : table.invalidateCache.Kept where
  ordered := ⟨h.sorted, h.canonical, h.nodup, h.fresh⟩
  allocated := fun _ _ hmem => absurd hmem List.not_mem_nil
  right := fun _ _ hlookup => nomatch hlookup

theorem pointed_invalidateCache : table.invalidateCache.Pointed dest :=
  fun _ hlookup => nomatch hlookup

/-- The route that is being deleted does not matter to the vector and the cache. -/
theorem Kept.setErased (h : table.Kept) (erased : Option IPv4Route) :
    { table with erased := erased }.Kept where
  ordered := ⟨h.ordered.sorted, h.ordered.canonical, h.ordered.nodup, h.ordered.fresh⟩
  allocated := h.allocated
  right := h.right

theorem Kept.eraseRoute (h : table.Kept) (id : ℕ) : (table.eraseRoute id).Kept where
  ordered := h.ordered.eraseRoute id
  allocated := h.allocated
  right := fun dest entry hlookup => (h.right dest entry hlookup).eraseRoute h.ordered id

theorem Ordered.idle_invalidateCache (h : table.Ordered) (herased : table.erased = none) :
    table.invalidateCache.Idle :=
  ⟨h.kept_invalidateCache, fun _ => pointed_invalidateCache, herased⟩

theorem Allocated.searchRoutes (h : table.Ordered) (hallocated : table.Allocated) :
    (table.searchRoutes dest).2.Allocated := by
  intro other id hmem
  obtain heq | hmem := List.mem_cons.mp hmem
  · obtain ⟨-, hid⟩ := Prod.mk.inj heq
    obtain ⟨route, hsearch, rfl⟩ := Option.map_eq_some_iff.mp hid.symm
    exact h.fresh route (mem_of_search hsearch)
  · exact hallocated other id hmem

/-- A search enters what is right. -/
theorem Kept.searchRoutes (h : table.Kept) : (table.searchRoutes dest).2.Kept where
  ordered := ⟨h.ordered.sorted, h.ordered.canonical, h.ordered.nodup, h.ordered.fresh⟩
  allocated := Allocated.searchRoutes h.ordered h.allocated
  right := by
    intro other entry hlookup
    rw [IPv4RoutingTable.searchRoutes, List.lookup_cons] at hlookup
    split at hlookup
    · next heq =>
        obtain rfl : other = dest := by simpa using heq
        cases hlookup
        exact show table.Right other _ from right_search h.ordered
    · exact h.right other entry hlookup

theorem Kept.stale (h : table.Kept) : table.Stale where
  ordered := h.ordered
  allocated := h.allocated
  aimed := fun dest id hlookup route hroute hid hvalid =>
    (search_eq_some_iff.mp (h.right dest (some id) hlookup route hroute hid hvalid)).1

theorem Stale.searchRoutes (h : table.Stale) : (table.searchRoutes dest).2.Stale where
  ordered := ⟨h.ordered.sorted, h.ordered.canonical, h.ordered.nodup, h.ordered.fresh⟩
  allocated := Allocated.searchRoutes h.ordered h.allocated
  aimed := by
    intro other id hlookup route hroute hid hvalid
    rw [IPv4RoutingTable.searchRoutes, List.lookup_cons] at hlookup
    split at hlookup
    · next heq =>
        obtain rfl : other = dest := by simpa using heq
        obtain ⟨found, hsearch, hfound⟩ := Option.map_eq_some_iff.mp (Option.some.inj hlookup)
        obtain rfl := h.ordered.eq_of_id hroute (mem_of_search hsearch) (hid.trans hfound.symm)
        exact (search_eq_some_iff.mp hsearch).1
    · exact h.aimed other id hlookup route hroute hid hvalid

theorem Pointed.searchRoutes {other : IPv4Address} (h : table.Pointed other) :
    (table.searchRoutes dest).2.Pointed other := by
  intro id hlookup
  rw [IPv4RoutingTable.searchRoutes, List.lookup_cons] at hlookup
  split at hlookup
  · obtain ⟨route, hsearch, rfl⟩ := Option.map_eq_some_iff.mp (Option.some.inj hlookup)
    exact ⟨route, mem_of_search hsearch, rfl⟩
  · exact h id hlookup

section

variable {entry : IPv4Route}

/-- A method that keeps the table in order. -/
abbrev Maintains {α : Type} (m : Method α) (post : IPv4RoutingTable → Prop) : Prop :=
  m.Keeps Pause Frame fun _ => post

variable {α : Type} {post : IPv4RoutingTable → Prop}

/-- A route is announced as deleted after the cache has been invalidated. -/
theorem emitDeleted_maintains {emitter : Emitter} {next : IPv4RoutingTable → Method α}
    (hemitter : emitter ≠ .purge ∧ emitter ≠ .updateNetmaskRoutes) (h : table.Ordered)
    (hnext : ∀ s : IPv4RoutingTable, s.Idle → s.routes = table.routes → s.nextId = table.nextId →
      Maintains (next s) post) :
    Maintains (emitDeleted emitter route table.invalidateCache next) post := by
  have hpause : ∀ s : IPv4RoutingTable, Pause ⟨.NF_ROUTE_DELETED, route, emitter⟩ s ↔
      s.Kept ∧ ∀ dest, s.Pointed dest := by
    intro s
    cases emitter <;> simp_all [Pause]
  refine ⟨(hpause _).mpr ⟨h.kept_invalidateCache.setErased _, fun dest =>
    (pointed_invalidateCache : table.invalidateCache.Pointed dest)⟩, fun s hframe hs => ?_⟩
  obtain ⟨hkept, hpointed⟩ := (hpause s).mp hs
  obtain ⟨hroutes, -, hnext', -⟩ := hframe.eqs
  exact hnext _ ⟨hkept.setErased none, hpointed, rfl⟩ hroutes hnext'

theorem removeRoute_maintains (h : table.Idle) : Maintains (table.removeRoute id) Idle := by
  rw [removeRoute, internalRemoveRoute]
  cases table.routes.find? (·.id == id) with
  | none => exact h
  | some route =>
    exact emitDeleted_maintains (by decide) (h.kept.ordered.eraseRoute id) fun s hs _ _ => hs

theorem deleteRoute_maintains (h : table.Idle) : Maintains (table.deleteRoute id) Idle := by
  rw [deleteRoute, internalRemoveRoute]
  cases table.routes.find? (·.id == id) with
  | none => exact h
  | some route =>
    exact emitDeleted_maintains (by decide) (h.kept.ordered.eraseRoute id) fun s hs _ _ => hs

/-- A route may be added to the vector. -/
structure Addable (table : IPv4RoutingTable) (entry : IPv4Route) : Prop where
  ordered : table.Ordered
  erased : table.erased = none
  new : ∀ route ∈ table.routes, route.id ≠ entry.id
  fresh : entry.id < table.nextId

/-- Whatever the cache holds, a new route leaves room for itself in the vector. -/
theorem deleteDefaultRoute_maintains (h : table.Addable entry) :
    Maintains (table.deleteDefaultRoute entry) fun s => s.Addable entry := by
  have hdelete : ∀ old, Maintains (table.deleteRoute old) fun s => s.Addable entry := by
    intro old
    rw [deleteRoute, internalRemoveRoute]
    cases table.routes.find? (·.id == old) with
    | none => exact h
    | some route =>
      refine emitDeleted_maintains (by decide) (h.ordered.eraseRoute old)
        fun s hs hroutes hnext => ⟨hs.kept.ordered, hs.erased, fun other hother => ?_, ?_⟩
      · rw [hroutes] at hother
        exact h.new other (List.mem_of_mem_eraseP hother)
      · rw [hnext]
        exact h.fresh
  rw [deleteDefaultRoute]
  split_ifs
  · cases table.getDefaultRoute with
    | none => exact h
    | some old => exact hdelete old.id
  · exact h

theorem internalAddRoute_maintains (h : table.Addable entry) :
    Maintains (table.internalAddRoute entry) fun s => s.Ordered ∧ s.erased = none := by
  rw [internalAddRoute]
  by_cases hvalid : entry.netmask.isValidNetmask = true
  · rw [if_neg (not_not.mpr hvalid)]
    split_ifs with hzero houtside hinterface
    · trivial
    · trivial
    · trivial
    · refine Progress.Keeps.bind (deleteDefaultRoute_maintains h) fun _ s hs => ?_
      exact ⟨hs.ordered.insertRoute (not_not.mp houtside) hs.new hs.fresh, hs.erased⟩
  · rw [if_pos hvalid]
    trivial

/-- The end of a method that has invalidated the cache before it tells its listeners. -/
theorem notify_maintains {signal : RouteSignal} {emitter : Emitter}
    (hemitter : emitter ≠ .purge ∧ emitter ≠ .updateNetmaskRoutes) (h : table.Idle) :
    Maintains (.notify ⟨signal, entry, emitter⟩ table fun table => .done () table) Idle := by
  have hpause : ∀ s : IPv4RoutingTable, Pause ⟨signal, entry, emitter⟩ s ↔
      s.Kept ∧ ∀ dest, s.Pointed dest := by
    intro s
    cases emitter <;> simp_all [Pause]
  refine ⟨(hpause table).mpr ⟨h.kept, h.pointed⟩, fun s hframe hs => ?_⟩
  obtain ⟨hkept, hpointed⟩ := (hpause s).mp hs
  exact ⟨hkept, hpointed, hframe.eqs.2.1.trans h.erased⟩

theorem addRoute_maintains (h : table.Addable entry) : Maintains (table.addRoute entry) Idle :=
  Progress.Keeps.bind (internalAddRoute_maintains h) fun _ _ hs =>
    notify_maintains (by decide) (hs.1.idle_invalidateCache hs.2)

theorem Idle.addable_newRoute (h : table.Idle) :
    (table.newRoute route).2.Addable (table.newRoute route).1 where
  ordered := ⟨h.kept.ordered.sorted, h.kept.ordered.canonical, h.kept.ordered.nodup,
    fun other hother => Nat.lt_succ_of_lt (h.kept.ordered.fresh other hother)⟩
  erased := h.erased
  new := fun other hother => (h.kept.ordered.fresh other hother).ne
  fresh := Nat.lt_succ_self table.nextId

theorem purgeLoop_maintains {deleted : Bool} (rest : List IPv4Route)
    (h : table.Kept) (herased : table.erased = none)
    (hpointed : deleted = false → ∀ dest, table.Pointed dest) :
    Maintains (purgeLoop rest deleted table) Idle := by
  induction rest generalizing table deleted with
  | nil =>
    cases deleted with
    | false => exact ⟨h, hpointed rfl, herased⟩
    | true => exact h.ordered.idle_invalidateCache herased
  | cons route rest ih =>
    rw [purgeLoop]
    split_ifs with hvalid
    · exact ih h herased hpointed
    · refine ⟨⟨(h.eraseRoute route.id).setErased _, fun other hother => ?_⟩,
        fun s _ hs => ih (hs.1.setErased none) rfl fun hfalse => nomatch hfalse⟩
      cases hother
      exact Bool.eq_false_iff.mpr hvalid

theorem deleteNetmaskRoutes_maintains {next : IPv4RoutingTable → Method Unit}
    (hnext : ∀ s : IPv4RoutingTable, s.Kept → s.erased = none → Maintains (next s) Idle)
    (rest : List IPv4Route) (h : table.Kept) (herased : table.erased = none) :
    Maintains (deleteNetmaskRoutes next rest table) Idle := by
  induction rest generalizing table with
  | nil => exact hnext table h herased
  | cons route rest ih =>
    rw [deleteNetmaskRoutes]
    split_ifs
    · exact ⟨(h.eraseRoute route.id).setErased _, fun s _ hs => ih (Kept.setErased hs none) rfl⟩
    · exact ih h herased

theorem netmaskRoute_canonical {ie : InterfaceEntry} (h : netmaskRoute ie = some route) :
    route.dest &&& ~~~route.netmask = 0 := by
  rw [netmaskRoute] at h
  split at h
  · split_ifs at h
    cases h
    show _ &&& _ &&& ~~~_ = 0
    rw [BitVec.and_assoc, BitVec.and_not_self]
    exact BitVec.and_zero
  · exact nomatch h

/-- The route of an interface comes into the vector without the cache being invalidated. -/
theorem Stale.insertNetmaskRoute (h : table.Stale)
    (hcanonical : route.dest &&& ~~~route.netmask = 0) :
    ((table.newRoute route).2.insertRoute (table.newRoute route).1).Stale where
  ordered := by
    refine Ordered.insertRoute ⟨h.ordered.sorted, h.ordered.canonical, h.ordered.nodup,
      fun other hother => Nat.lt_succ_of_lt (h.ordered.fresh other hother)⟩ hcanonical ?_ ?_
    · exact fun other hother => (h.ordered.fresh other hother).ne
    · exact Nat.lt_succ_self table.nextId
  allocated := fun other id hmem => Nat.lt_succ_of_lt (h.allocated other id hmem)
  aimed := by
    intro dest id hlookup other hother hid hvalid
    obtain rfl | hother := mem_insertRoute.mp hother
    · -- no pointer in the cache is to a route that has just been allocated
      have hmem : (dest, some id) ∈ table.routingCache := by
        obtain ⟨front, back, hcache, -⟩ := List.lookup_eq_some_iff.mp hlookup
        exact hcache ▸ List.mem_append_right front List.mem_cons_self
      exact absurd hid (h.allocated dest id hmem).ne'
    · exact h.aimed dest id hlookup other hother hid hvalid

theorem addNetmaskRoutes_maintains (ift : List InterfaceEntry) (h : table.Stale)
    (herased : table.erased = none) : Maintains (addNetmaskRoutes ift table) Idle := by
  induction ift generalizing table with
  | nil => exact h.ordered.idle_invalidateCache herased
  | cons ie ift ih =>
    rw [addNetmaskRoutes]
    cases hroute : netmaskRoute ie with
    | none => exact ih h herased
    | some route =>
      refine ⟨h.insertNetmaskRoute (netmaskRoute_canonical hroute), fun s hframe hs => ih hs ?_⟩
      exact hframe.eqs.2.1.trans herased

theorem Idle.modifyRoute {route' : IPv4Route} (h : table.Idle) (hroute : route ∈ table.routes)
    (hunseen : Unseen route route') (hsorted : (table.modifyRoute route').Sorted) :
    (table.modifyRoute route').Idle where
  kept := ⟨h.kept.ordered.modifyRoute hroute hunseen hsorted, h.kept.allocated,
    fun dest entry hlookup =>
      (h.kept.right dest entry hlookup).modifyRoute h.kept.ordered hroute hunseen⟩
  pointed := by
    intro dest id hlookup
    obtain ⟨e, he, hid⟩ := h.pointed dest id hlookup
    exact ⟨modified route' e, List.mem_map_of_mem he, (modified_id e).trans hid⟩
  erased := h.erased

/-- A setter of a field that the vector depends on moves the route. -/
theorem routeChanged_maintains {route' : IPv4Route} {fieldCode : ChangeCode} (h : table.Idle)
    (hroute : route ∈ table.routes) (hid : route'.id = route.id)
    (hcode : fieldCode = .F_DESTINATION ∨ fieldCode = .F_PREFIX_LENGTH ∨ fieldCode = .F_METRIC) :
    Maintains ((table.modifyRoute route').routeChanged route' fieldCode) Idle := by
  rw [routeChanged, if_pos hcode, internalRemoveRoute, find_modifyRoute hroute hid,
    eraseRoute_modifyRoute h.kept.ordered]
  have haddable : (table.eraseRoute route'.id).Addable route' :=
    ⟨h.kept.ordered.eraseRoute route'.id, h.erased, h.kept.ordered.not_mem_eraseRoute,
      hid ▸ h.kept.ordered.fresh route hroute⟩
  exact Progress.Keeps.bind (internalAddRoute_maintains haddable) fun _ _ hs =>
    notify_maintains (by decide) (hs.1.idle_invalidateCache hs.2)

/-- With a new administrative distance the route may stay where it is. -/
def CallOk (table : IPv4RoutingTable) : Op → Prop
  | .set entry (.setAdminDist adminDist) =>
    table.useAdminDist = true → ∀ route ∈ table.routes, route.id = entry →
      table.StaysInPlace { route with adminDist := adminDist }
  | _ => True

instance : ∀ (table : IPv4RoutingTable) (op : Op), Decidable (CallOk table op)
  | table, .set entry (.setAdminDist adminDist) =>
    inferInstanceAs (Decidable (table.useAdminDist = true → ∀ route ∈ table.routes,
      route.id = entry → table.StaysInPlace { route with adminDist := adminDist }))
  | _, .set _ (.setDestination _) => .isTrue trivial
  | _, .set _ (.setNetmask _) => .isTrue trivial
  | _, .set _ (.setGateway _) => .isTrue trivial
  | _, .set _ (.setInterface _) => .isTrue trivial
  | _, .set _ (.setSourceType _) => .isTrue trivial
  | _, .set _ (.setMetric _) => .isTrue trivial
  | _, .set _ (.setSource _) => .isTrue trivial
  | _, .addRoute _ => .isTrue trivial
  | _, .removeRoute _ => .isTrue trivial
  | _, .deleteRoute _ => .isTrue trivial
  | _, .purge => .isTrue trivial
  | _, .updateNetmaskRoutes _ => .isTrue trivial
  | _, .wait _ => .isTrue trivial

/-- The setters of the other fields leave the route where it is. -/
theorem sorted_setAdminDist {adminDist : ℕ} (h : table.Ordered) (hroute : route ∈ table.routes)
    (hok : CallOk table (.set route.id (.setAdminDist adminDist))) :
    (table.modifyRoute { route with adminDist := adminDist }).Sorted := by
  by_cases hadmin : table.useAdminDist = true
  · refine (sorted_modifyRoute_iff h hroute ?_).mpr (hok hadmin route hroute rfl)
    rfl
  · have hsame : ∀ a b : IPv4Route, table.routeLessThan a b = IPv4Route.routeLessThan false a b :=
      fun a b => by rw [routeLessThan, Bool.eq_false_iff.mpr hadmin]
    refine sorted_modifyRoute_of_eq h hroute rfl (fun other => ?_) fun other => ?_
    · rw [hsame, hsame]
      simp only [IPv4Route.routeLessThan, Bool.false_eq_true, false_and, if_false]
    · rw [hsame, hsame]
      simp only [IPv4Route.routeLessThan, Bool.false_eq_true, false_and, if_false]

theorem setRoute_maintains {setter : Setter} (h : table.Idle)
    (hok : CallOk table (.set id setter)) :
    Maintains (table.setRoute id setter) Idle := by
  rw [setRoute]
  cases hfind : table.routes.find? (·.id == id) with
  | none => exact h
  | some route =>
    have hroute := List.mem_of_find?_eq_some hfind
    obtain rfl : route.id = id := by simpa using List.find?_some hfind
    have hsame := @sorted_modifyRoute_of_eq table route (setter.apply route) h.kept.ordered hroute
    show Maintains (if setter.apply route ≠ route then _ else _) Idle
    split_ifs
    · cases setter with
      | setDestination dest => exact routeChanged_maintains h hroute rfl (.inl rfl)
      | setNetmask netmask => exact routeChanged_maintains h hroute rfl (.inr (.inl rfl))
      | setMetric metric => exact routeChanged_maintains h hroute rfl (.inr (.inr rfl))
      | setAdminDist adminDist =>
        exact notify_maintains (by decide) (h.modifyRoute hroute ⟨rfl, rfl, rfl, rfl⟩
          (sorted_setAdminDist h.kept.ordered hroute hok))
      | setGateway gateway =>
        exact notify_maintains (by decide) (h.modifyRoute hroute ⟨rfl, rfl, rfl, rfl⟩
          (hsame rfl (fun _ => rfl) fun _ => rfl))
      | setInterface interfacePtr =>
        exact notify_maintains (by decide) (h.modifyRoute hroute ⟨rfl, rfl, rfl, rfl⟩
          (hsame rfl (fun _ => rfl) fun _ => rfl))
      | setSourceType sourceType =>
        exact notify_maintains (by decide) (h.modifyRoute hroute ⟨rfl, rfl, rfl, rfl⟩
          (hsame rfl (fun _ => rfl) fun _ => rfl))
      | setSource source =>
        exact notify_maintains (by decide) (h.modifyRoute hroute ⟨rfl, rfl, rfl, rfl⟩
          (hsame rfl (fun _ => rfl) fun _ => rfl))
    · exact h

theorem Idle.wait (h : table.Idle) (time : ℕ) :
    { table with simTime := table.simTime + time }.Idle where
  kept := ⟨⟨h.kept.ordered.sorted, h.kept.ordered.canonical, h.kept.ordered.nodup,
    h.kept.ordered.fresh⟩, h.kept.allocated,
    fun dest entry hlookup => (h.kept.right dest entry hlookup).wait time⟩
  pointed := h.pointed
  erased := h.erased

/-- Every method keeps the vector sorted, and leaves the cache in order at its end. -/
theorem method_maintains (op : Op) (h : table.Idle) (hok : CallOk table op) :
    Maintains (table.method op) Idle := by
  cases op with
  | addRoute entry => exact addRoute_maintains h.addable_newRoute
  | removeRoute entry =>
    exact Progress.Keeps.bind (removeRoute_maintains h) fun _ _ hs => hs
  | deleteRoute entry =>
    exact Progress.Keeps.bind (deleteRoute_maintains h) fun _ _ hs => hs
  | purge => exact purgeLoop_maintains table.routes h.kept h.erased fun _ => h.pointed
  | updateNetmaskRoutes ift =>
    refine deleteNetmaskRoutes_maintains (fun s hs herased => ?_) table.routes h.kept h.erased
    exact addNetmaskRoutes_maintains ift hs.stale herased
  | set entry setter => exact setRoute_maintains h hok
  | wait time => exact h.wait time

end

variable {phase : TablePhase}

/-- The cache entry for the destination still leads to an object. -/
def LeadsToObject (table : IPv4RoutingTable) (dest : IPv4Address) : Prop :=
  ∀ id, table.routingCache.lookup dest = some (some id) → table.object id ≠ none

/-- No valid route in front of the one in the cache matches the destination. -/
def NotOvertaken (table : IPv4RoutingTable) (dest : IPv4Address) : Prop :=
  match table.routingCache.lookup dest with
  | none => True
  | some none => ∀ other ∈ table.routes, ¬ table.Matches dest other
  | some (some id) =>
    (∃ route ∈ table.routes, route.id = id ∧ route.isValid table.simTime = true) →
      ∀ other ∈ table.routes.takeWhile (·.id != id), ¬ table.Matches dest other

/-- A listener may ask for this destination. The cache is stale only at the notifications of
`purge` and `updateNetmaskRoutes`. -/
def LookupOk (notification : Option Notification) (table : IPv4RoutingTable)
    (dest : IPv4Address) : Prop :=
  match notification with
  | none => True
  | some notification =>
    match notification.emitter with
    | .purge => table.LeadsToObject dest
    | .updateNetmaskRoutes =>
      table.PointedOrExpired dest ∧
        (notification.signal = .NF_ROUTE_ADDED → table.NotOvertaken dest)
    | _ => True

instance : Decidable (table.LeadsToObject dest) :=
  decidable_of_iff (∀ entry ∈ table.routingCache.lookup dest, ∀ id ∈ entry, table.object id ≠ none)
    ⟨fun h id hlookup => h (some id) hlookup id rfl, fun h _ hlookup id hid => h id (hid ▸ hlookup)⟩

instance : Decidable (table.PointedOrExpired dest) :=
  decidable_of_iff (∀ entry ∈ table.routingCache.lookup dest, ∀ id ∈ entry,
      (∃ route ∈ table.routes, route.id = id) ∨
        ∃ route ∈ table.erased, route.id = id ∧ route.isValid table.simTime = false)
    ⟨fun h id hlookup => h (some id) hlookup id rfl, fun h _ hlookup id hid => h id (hid ▸ hlookup)⟩

instance : Decidable (table.NotOvertaken dest) :=
  match h : table.routingCache.lookup dest with
  | none => .isTrue (by simp only [NotOvertaken, h])
  | some none =>
    decidable_of_iff (∀ other ∈ table.routes, ¬ table.Matches dest other)
      (by simp only [NotOvertaken, h])
  | some (some id) =>
    decidable_of_iff ((∃ route ∈ table.routes, route.id = id ∧ route.isValid table.simTime = true) →
      ∀ other ∈ table.routes.takeWhile fun e : IPv4Route => e.id != id, ¬ table.Matches dest other)
      (by simp only [NotOvertaken, h])

instance : ∀ notification, Decidable (LookupOk notification table dest)
  | none => .isTrue trivial
  | some ⟨_, _, .purge⟩ => inferInstanceAs (Decidable (table.LeadsToObject dest))
  | some ⟨signal, _, .updateNetmaskRoutes⟩ =>
    inferInstanceAs (Decidable (table.PointedOrExpired dest ∧
      (signal = .NF_ROUTE_ADDED → table.NotOvertaken dest)))
  | some ⟨_, _, .addRoute⟩ => .isTrue trivial
  | some ⟨_, _, .removeRoute⟩ => .isTrue trivial
  | some ⟨_, _, .deleteRoute⟩ => .isTrue trivial
  | some ⟨_, _, .routeChanged⟩ => .isTrue trivial

theorem Pointed.pointedOrExpired (h : table.Pointed dest) : table.PointedOrExpired dest :=
  fun id hlookup => .inl (h id hlookup)

/-- While `purge` runs its listeners, the object outside the vector is one that has expired. -/
theorem LeadsToObject.pointedOrExpired (h : table.LeadsToObject dest)
    (herased : ∀ route, table.erased = some route → route.isValid table.simTime = false) :
    table.PointedOrExpired dest := by
  intro id hlookup
  obtain ⟨route, hroute⟩ := Option.ne_none_iff_exists'.mp (h id hlookup)
  obtain hfind | ⟨-, hfilter⟩ := Option.or_eq_some_iff.mp hroute
  · exact .inl ⟨route, List.mem_of_find?_eq_some hfind, by simpa using List.find?_some hfind⟩
  · obtain ⟨herased', hid⟩ := Option.filter_eq_some_iff.mp hfilter
    exact .inr ⟨route, herased', by simpa using hid, herased route herased'⟩

/-- The cached route that has not been overtaken is what a search would find. -/
theorem NotOvertaken.rightFor (h : table.Stale) (hover : table.NotOvertaken dest) :
    table.RightFor dest := by
  intro entry hlookup
  rw [NotOvertaken, hlookup] at hover
  cases entry with
  | none => exact search_eq_none_iff.mpr hover
  | some id =>
    intro route hroute hid hvalid
    have hmatch := h.aimed dest id hlookup route hroute hid hvalid
    obtain ⟨front, back, hroutes, hne⟩ := h.ordered.exists_split hroute
    refine search_eq_some_iff.mpr ⟨hmatch, front, back, hroutes, fun other hother => ?_⟩
    refine hover ⟨route, hroute, hid, hvalid⟩ other ?_
    rw [hroutes, List.takeWhile_append_of_pos]
    · exact List.mem_append_left _ hother
    · exact fun e he => bne_iff_ne.mpr (hid ▸ hne e (List.mem_append_left _ he))

/-- What a lookup needs from the phase in which it is asked. -/
theorem askable (notification : Notification) (h : Pause notification table)
    (hok : LookupOk (some notification) table dest) :
    table.Ordered ∧ table.RightFor dest ∧ table.PointedOrExpired dest := by
  obtain ⟨signal, route, emitter⟩ := notification
  cases emitter with
  | purge => exact ⟨h.1.ordered, h.1.right dest, hok.pointedOrExpired h.2⟩
  | updateNetmaskRoutes =>
    cases signal with
    | NF_ROUTE_ADDED => exact ⟨Stale.ordered h, (hok.2 rfl).rightFor h, hok.1⟩
    | NF_ROUTE_DELETED | NF_ROUTE_CHANGED =>
      exact ⟨Kept.ordered h, Kept.right h dest, hok.1⟩
  | addRoute | removeRoute | deleteRoute | routeChanged =>
    exact ⟨h.1.ordered, h.1.right dest, (h.2 dest).pointedOrExpired⟩

/-- Entering the result of a search keeps what holds at a notification. -/
theorem Pause.searchRoutes (notification : Notification) (h : Pause notification table) :
    Pause notification (table.searchRoutes dest).2 := by
  obtain ⟨signal, route, emitter⟩ := notification
  cases emitter with
  | purge => exact ⟨h.1.searchRoutes, h.2⟩
  | updateNetmaskRoutes =>
    cases signal with
    | NF_ROUTE_ADDED => exact Stale.searchRoutes h
    | NF_ROUTE_DELETED | NF_ROUTE_CHANGED => exact Kept.searchRoutes h
  | addRoute | removeRoute | deleteRoute | routeChanged =>
    exact ⟨h.1.searchRoutes, fun other => (h.2 other).searchRoutes⟩

theorem Idle.searchRoutes (h : table.Idle) : (table.searchRoutes dest).2.Idle :=
  ⟨h.kept.searchRoutes, fun other => (h.pointed other).searchRoutes, h.erased⟩

/-- A listener that looks up a route finds a best one, and only adds to the cache. -/
theorem listen_spec (h : table.Ordered) (hright : table.RightFor dest)
    (hpointed : table.PointedOrExpired dest) :
    table.FindsBest dest ∧ ∀ after, listen table dest = .ok after →
      after = table ∨ after = (table.searchRoutes dest).2 := by
  obtain ⟨answer, after, hfind, hbest, hafter⟩ := find_spec h hright hpointed
  refine ⟨⟨answer, after, hfind, hbest⟩, fun t ht => ?_⟩
  rw [listen, hfind] at ht
  cases ht
  exact hafter

/-- The table in a phase is sorted. -/
theorem sorted_of_good (h : phase.Good Idle Pause Frame) : phase.state.Sorted := by
  cases phase with
  | idle table => exact h.kept.ordered.sorted
  | inside notification table resume =>
    obtain ⟨hpause, -⟩ := h
    obtain ⟨signal, route, emitter⟩ := notification
    cases emitter with
    | updateNetmaskRoutes =>
      cases signal with
      | NF_ROUTE_ADDED => exact (Stale.ordered hpause).sorted
      | NF_ROUTE_DELETED | NF_ROUTE_CHANGED => exact (Kept.ordered hpause).sorted
    | purge | addRoute | removeRoute | deleteRoute | routeChanged =>
      exact hpause.1.ordered.sorted

/-- Every lookup finds a best route. -/
def Answers (phase : TablePhase) : Input Op IPv4Address → Prop
  | .ask dest => phase.state.FindsBest dest
  | _ => True

instance (phase : TablePhase) : ∀ input, Decidable (Answers phase input)
  | .ask dest => inferInstanceAs (Decidable (phase.state.FindsBest dest))
  | .call _ => .isTrue trivial
  | .resume => .isTrue trivial

theorem good_step {next : TablePhase} {input : Input Op IPv4Address}
    (h : phase.Good Idle Pause Frame) (hok : InputOk CallOk LookupOk phase input)
    (hstep : step phase input = .ok next) : next.Good Idle Pause Frame := by
  refine Phase.Good.step Frame.refl (fun _ _ _ => Frame.trans)
    (fun s op hs hcall => method_maintains op hs hcall) (fun s t dest hs _ ht => ?_)
    (fun notification s t dest hs hask ht => ?_) h hok hstep
  · obtain ⟨-, hafter⟩ := listen_spec hs.kept.ordered (hs.kept.right dest)
      (hs.pointed dest).pointedOrExpired
    obtain rfl | rfl := hafter t ht
    · exact hs
    · exact hs.searchRoutes
  · obtain ⟨hordered, hright, hpointed⟩ := askable notification hs hask
    obtain rfl | rfl := (listen_spec hordered hright hpointed).2 t ht
    · exact ⟨hs, Frame.refl t⟩
    · exact ⟨hs.searchRoutes notification, rfl⟩

theorem answers_of_good {input : Input Op IPv4Address} (h : phase.Good Idle Pause Frame)
    (hok : InputOk CallOk LookupOk phase input) : Answers phase input := by
  cases input with
  | ask dest =>
    cases phase with
    | idle table =>
      exact (listen_spec h.kept.ordered (h.kept.right dest)
        (h.pointed dest).pointedOrExpired).1
    | inside notification table resume =>
      obtain ⟨hordered, hright, hpointed⟩ := askable notification h.1 hok
      exact (listen_spec hordered hright hpointed).1
  | call op => trivial
  | resume => trivial

/-- The vector stays sorted and every lookup finds a best route, as long as no new administrative
distance asks for a route to be moved and no listener asks for a destination whose cache entry is
stale. -/
theorem finds_best_of_admissible (useAdminDist : Bool) (inputs : List (Input Op IPv4Address))
    (h : Admissible step (InputOk CallOk LookupOk) (.idle { useAdminDist }) inputs) :
    Throughout step (fun phase => phase.state.Sorted) (.idle { useAdminDist }) inputs ∧
      Admissible step Answers (.idle { useAdminDist }) inputs := by
  have hempty : (Phase.idle { useAdminDist } : TablePhase).Good Idle Pause Frame :=
    { kept :=
        { ordered := ⟨List.Pairwise.nil, fun _ hmem => absurd hmem List.not_mem_nil,
            List.nodup_nil, fun _ hmem => absurd hmem List.not_mem_nil⟩
          allocated := fun _ _ hmem => absurd hmem List.not_mem_nil
          right := fun _ _ hlookup => nomatch hlookup }
      pointed := fun _ _ hlookup => nomatch hlookup
      erased := rfl }
  have hkeeps := fun phase input next => @good_step phase next input
  exact ⟨(throughout_of_step hkeeps hempty h).mono fun _ => sorted_of_good,
    h.mono_of_step hkeeps (fun _ _ => answers_of_good) hempty⟩

/-- Two routes for `10.0.0.0/8`, of which the first one is kept. -/
def cheapRoute : IPv4Route :=
  { id := 0, dest := 0x0a000000#32, netmask := 0xff000000#32, interfacePtr := some 1,
    adminDist := 1 }

def dearRoute : IPv4Route := { cheapRoute with adminDist := 5 }

def defaultRoute : IPv4Route := { id := 0, interfacePtr := some 1 }

/-- An interface with an address in `10.0.0.0/8`. -/
def interface : InterfaceEntry :=
  { id := 1, nameMatches := true
    ipv4Data := some { inetAddr := 0x0a000005#32, netmask := 0xff000000#32, metric := 1 } }

/-- A route is added, found by a listener, and found again with its distance changed. -/
def calmInputs : List (Input Op IPv4Address) :=
  [.call (.addRoute cheapRoute), .ask 0x0a000001#32, .resume, .call (.addRoute dearRoute), .resume,
    .call (.set 0 (.setAdminDist 3)), .ask 0x0a000001#32, .resume,
    .call (.updateNetmaskRoutes [interface]), .ask 0x0b000001#32, .resume, .ask 0x0a000001#32]

theorem finds_best_of_calmInputs :
    Throughout step (fun phase => phase.state.Sorted) (.idle { useAdminDist := true })
        calmInputs ∧
      Admissible step Answers (.idle { useAdminDist := true }) calmInputs :=
  finds_best_of_admissible true calmInputs (by decide +kernel)

/-- The cheaper route becomes the dearer one and stays in front. -/
def dearerInputs : List (Input Op IPv4Address) :=
  [.call (.addRoute cheapRoute), .resume, .call (.addRoute dearRoute), .resume,
    .call (.set 0 (.setAdminDist 10)), .resume, .ask 0x0a000001#32]

/-- A listener gets the default route from the cache when a better route has just been added. -/
def staleInputs : List (Input Op IPv4Address) :=
  [.call (.addRoute defaultRoute), .resume, .ask 0x0a000001#32,
    .call (.updateNetmaskRoutes [interface]), .ask 0x0a000001#32]

theorem not_sorted_of_dearerInputs_not_best_of_staleInputs :
    ¬ (Throughout step (fun phase => phase.state.Sorted) (.idle { useAdminDist := true })
          dearerInputs ∧
        Admissible step Answers (.idle { useAdminDist := true }) dearerInputs) ∧
      ¬ (Throughout step (fun phase => phase.state.Sorted) (.idle {}) staleInputs ∧
        Admissible step Answers (.idle {}) staleInputs) := by
  decide +kernel

end Inet.Ipv4.IPv4RoutingTable
