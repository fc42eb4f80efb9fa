import Inet.Library.CountingLoop
import Inet.Library.Lists
import Inet.Rip.RIPRouting

/-!
# What an update contains

`sendRoutes` goes through the routes while `checkRouteIsExpired` changes them. An expired route is
invalidated in passing, but its entry is then left out; a route that is purged invalidates the
iterator of the loop. `sendRoutes_iff` is the exact condition for an update that has all entries.
-/

namespace Inet.Rip.RIPRouting

open List hiding getElem?_eq_some_iff

section

variable {s : RIPRouting} {now : ℤ} {i : ℕ} {route : RIPRoute}

/-- A route that has been invalidated. -/
def invalidated (route : RIPRoute) : RIPRoute :=
  { route with route := none, metric := RIP_INFINITE_METRIC, changed := true }

theorem modify_eq_self {α : Type*} {l : List α} {f : α → α}
    (h : ∀ a, l[i]? = some a → f a = a) : l.modify i f = l := by
  refine ext_getElem? fun j => ?_
  rw [getElem?_modify]
  by_cases hij : i = j
  · subst hij
    cases hget : l[i]? with
    | none => simp
    | some a => simp [h a hget]
  · cases l[j]? <;> simp [hij]

@[simp] theorem ripRoutes_setThrough (f : RIPRoute → RIPRoute) (g : IRoute → IRoute) :
    (s.setThrough i f g).ripRoutes = s.ripRoutes.modify i f := by
  unfold setThrough
  dsimp only
  split <;> rfl

@[simp] theorem ripRoutes_dropRoute :
    (s.dropRoute i).ripRoutes = s.ripRoutes.modify i ({ · with route := none }) := by
  unfold dropRoute
  split
  · rfl
  · rename_i h
    refine (modify_eq_self fun route hroute => ?_).symm
    rcases route with
      ⟨type, _ | id, dest, prefixLength, nextHop, ie, from', metric, tag, changed, t⟩
    · rfl
    · exact absurd hroute (h type id dest prefixLength nextHop ie from' metric tag changed t)

@[simp] theorem ripRoutes_invalidateRoute :
    (s.invalidateRoute i).ripRoutes = s.ripRoutes.modify i invalidated := by
  simp only [invalidateRoute, modifyRipRoute, setMetric, ripRoutes_setThrough, ripRoutes_dropRoute,
    modify_modify_eq]
  rfl

theorem length_ripRoutes_purgeRoute (hi : i < s.ripRoutes.length) :
    (s.purgeRoute i).ripRoutes.length + 1 = s.ripRoutes.length := by
  simp only [purgeRoute, ripRoutes_dropRoute, length_eraseIdx, length_modify, if_pos hi]
  omega

theorem isExpired_eq_of {t : RIPRouting} (h : t.routeExpiryTime = s.routeExpiryTime) :
    t.isExpired now = s.isExpired now := by
  funext route
  rw [isExpired, isExpired, h]

theorem isDueForPurge_eq_of {t : RIPRouting} (h : t.routeExpiryTime = s.routeExpiryTime)
    (h' : t.routePurgeTime = s.routePurgeTime) : t.isDueForPurge now = s.isDueForPurge now := by
  funext route
  rw [isDueForPurge, isDueForPurge, h, h']

theorem times_setThrough (f : RIPRoute → RIPRoute) (g : IRoute → IRoute) :
    (s.setThrough i f g).routeExpiryTime = s.routeExpiryTime ∧
      (s.setThrough i f g).routePurgeTime = s.routePurgeTime := by
  unfold setThrough
  dsimp only
  split <;> exact ⟨rfl, rfl⟩

theorem times_dropRoute : (s.dropRoute i).routeExpiryTime = s.routeExpiryTime ∧
    (s.dropRoute i).routePurgeTime = s.routePurgeTime := by
  unfold dropRoute
  split <;> exact ⟨rfl, rfl⟩

theorem times_invalidateRoute : (s.invalidateRoute i).routeExpiryTime = s.routeExpiryTime ∧
    (s.invalidateRoute i).routePurgeTime = s.routePurgeTime := by
  obtain ⟨hexpiry, hpurge⟩ := times_setThrough (s := s.dropRoute i) (i := i)
    ({ · with metric := RIP_INFINITE_METRIC }) ({ · with metric := RIP_INFINITE_METRIC })
  exact ⟨hexpiry.trans times_dropRoute.1, hpurge.trans times_dropRoute.2⟩

end

section

variable {s : RIPRouting} {now : ℤ} {ripInterface : RIPInterfaceEntry} {changedOnly : Bool}
  {max : ℤ} {i : ℕ} {route : RIPRoute} {sending : Sending}

/-- The route after the loop has checked it. -/
def age (s : RIPRouting) (now : ℤ) (route : RIPRoute) : RIPRoute :=
  if s.isExpired now route then invalidated route else route

/-- The entry that the loop fills in for a route. -/
def sentEntry (s : RIPRouting) (now : ℤ) (ripInterface : RIPInterfaceEntry) (changedOnly : Bool)
    (route : RIPRoute) : Option RIPEntry :=
  if s.isExpired now route then none else advertised ripInterface changedOnly route

/-- The table after the check of the `i`-th route. -/
def checked (s : RIPRouting) (now : ℤ) (route : RIPRoute) (i : ℕ) : RIPRouting :=
  if s.isExpired now route then s.invalidateRoute i else s

theorem ripRoutes_checked (hroute : s.ripRoutes[i]? = some route) :
    (s.checked now route i).ripRoutes = s.ripRoutes.modify i (s.age now) := by
  refine ext_getElem? fun j => ?_
  rw [checked, getElem?_modify]
  split_ifs with hexpired hij
  · subst hij
    rw [ripRoutes_invalidateRoute, getElem?_modify, hroute]
    simp [age, hexpired]
  · simp [hij]
  · subst i
    rw [hroute]
    simp [age, hexpired]
  · cases s.ripRoutes[j]? <;> rfl

theorem times_checked : (s.checked now route i).routeExpiryTime = s.routeExpiryTime ∧
    (s.checked now route i).routePurgeTime = s.routePurgeTime := by
  unfold checked
  split
  · exact times_invalidateRoute
  · exact ⟨rfl, rfl⟩

theorem sendRoute_of_due (hroute : sending.table.ripRoutes[i]? = some route)
    (hdue : sending.table.isDueForPurge now route = true) :
    sendRoute now ripInterface changedOnly max sending i = .error .invalidIterator := by
  have hlength := length_ripRoutes_purgeRoute (List.getElem?_eq_some_iff.mp hroute).1
  rw [sendRoute, checkRouteIsExpired, hroute]
  dsimp only
  rw [if_pos hdue, ok_bind]
  dsimp only
  rw [if_pos (by omega)]

/-- A round that does not purge a route. -/
theorem sendRoute_eq (hroute : sending.table.ripRoutes[i]? = some route)
    (hdue : sending.table.isDueForPurge now route = false) :
    sendRoute now ripInterface changedOnly max sending i =
      match sending.table.sentEntry now ripInterface changedOnly route with
      | none => .ok { sending with table := sending.table.checked now route i }
      | some entry =>
        { sending with table := sending.table.checked now route i }.fill max entry := by
  rw [sendRoute, checkRouteIsExpired, hroute]
  dsimp only
  rw [if_neg (by simp [hdue]), sentEntry, checked]
  by_cases hexpired : sending.table.isExpired now route = true
  · rw [if_pos hexpired, if_pos hexpired, if_pos hexpired, ok_bind]
    dsimp only
    rw [if_neg (by simp)]
    rfl
  · rw [if_neg hexpired, if_neg hexpired, if_neg hexpired, ok_bind]
    dsimp only
    rw [if_neg (by simp)]
    rfl

end
section

variable {max : ℤ} {sending t : Sending} {entries : List RIPEntry} {entry : RIPEntry}

theorem entries_setEntryArraySize (size : ℤ) : (RIPPacket.setEntryArraySize {} size).entries =
      List.replicate (size % 2 ^ 32).toNat none := by
  simp [RIPPacket.setEntryArraySize]

/-- The packets that have been sent and the one that is being filled hold the entries. -/
structure Filled (max : ℤ) (sending : Sending) (entries : List RIPEntry) : Prop where
  content : ∃ current : List RIPEntry, current.length = sending.k ∧
    sending.packet.entries = current.map some ++ List.replicate (max.toNat - sending.k) none ∧
    sending.sent.flatMap (·.entries) ++ current.map some = entries.map some
  full : ∀ packet ∈ sending.sent, packet.entries.length = max.toNat
  k_lt : sending.k < max.toNat

theorem filled_nil (hmax : 1 ≤ max) (hlt : max < 2 ^ 32) (s : RIPRouting) :
    Filled max ⟨s, [], RIPPacket.setEntryArraySize {} max, 0⟩ [] := by
  refine ⟨⟨[], rfl, ?_, rfl⟩, by simp, ?_⟩
  · rw [entries_setEntryArraySize, Int.emod_eq_of_lt (by omega) hlt]
    rfl
  · dsimp only
    omega

variable (entry) in
theorem Filled.fill (hmax : 1 ≤ max) (hlt : max < 2 ^ 32) (h : Filled max sending entries) :
    ∃ t, sending.fill max entry = .ok t ∧ Filled max t (entries ++ [entry]) ∧
      t.table = sending.table := by
  obtain ⟨⟨current, hk, hpacket, hcontent⟩, hfull, hklt⟩ := h
  have hroom : max.toNat - sending.k = (max.toNat - (sending.k + 1)) + 1 := by omega
  have hset : sending.packet.entries.set sending.k (some entry) =
      (current ++ [entry]).map some ++ List.replicate (max.toNat - (sending.k + 1)) none := by
    rw [hpacket, hroom, replicate_succ, set_append_right _ _ (by simp [hk])]
    simp [hk]
  have hcontent' : sending.sent.flatMap (·.entries) ++ (current ++ [entry]).map some =
      (entries ++ [entry]).map some := by
    rw [map_append, ← append_assoc, hcontent, map_append]
  have hlength : sending.k < sending.packet.entries.length := by
    rw [hpacket, length_append, length_map, length_replicate]
    omega
  rw [Sending.fill, RIPPacket.setEntry, if_pos hlength, ok_bind, hset]
  dsimp only
  split_ifs with hkmax
  · have hend : max.toNat - (sending.k + 1) = 0 := by omega
    rw [hend, replicate_zero, append_nil]
    refine ⟨_, rfl, ⟨⟨[], rfl, ?_, ?_⟩, ?_, ?_⟩, rfl⟩
    · rw [entries_setEntryArraySize, Int.emod_eq_of_lt (by omega) hlt]
      rfl
    · simpa using hcontent'
    · intro packet hmem
      rcases mem_append.mp hmem with hmem | hmem
      · exact hfull packet hmem
      · obtain rfl := mem_singleton.mp hmem
        rw [length_map, length_append, length_singleton]
        omega
    · dsimp only
      omega
  · exact ⟨_, rfl, ⟨⟨current ++ [entry], by simp [hk], rfl, hcontent'⟩, hfull, by
      dsimp only
      omega⟩, rfl⟩

/-- What happens when there is no room for an entry: none has been filled in yet, or a packet with
an entry that is not filled in has been sent. -/
def Unfilled (max : ℤ) (sending : Sending) (entries : List RIPEntry) : Prop :=
  (entries = [] ∧ sending.sent = [] ∧ sending.k = 0 ∧
      sending.packet = RIPPacket.setEntryArraySize {} max) ∨
    entries ≠ [] ∧ ∃ packet ∈ sending.sent, none ∈ packet.entries

theorem Unfilled.fill (hmax : max < 1) (hge : -2 ≤ max) (h : Unfilled max sending entries)
    (hok : sending.fill max entry = .ok t) :
    Unfilled max t (entries ++ [entry]) ∧ t.table = sending.table := by
  rw [Sending.fill, RIPPacket.setEntry] at hok
  split_ifs at hok with hlength
  swap
  · cases hok
  rw [ok_bind] at hok
  dsimp only at hok
  rcases h with ⟨-, -, hk, hpacket⟩ | ⟨-, packet, hmem, hnone⟩
  · rw [hk, if_pos (by omega)] at hok
    cases hok
    refine ⟨.inr ⟨by simp, _, mem_append_right _ (mem_singleton_self _), ?_⟩, rfl⟩
    rw [hpacket, entries_setEntryArraySize, length_replicate, hk] at hlength
    rw [hpacket, entries_setEntryArraySize]
    -- The size has been converted to `unsigned int`, so that there are many entries.
    have hsecond : 1 < (max % 2 ^ 32).toNat := by omega
    refine mem_of_getElem? (i := 1) ?_
    rw [getElem?_set_ne (by decide), getElem?_replicate, if_pos hsecond]
  · split_ifs at hok <;> cases hok
    · exact ⟨.inr ⟨by simp, packet, mem_append_left _ hmem, hnone⟩, rfl⟩
    · exact ⟨.inr ⟨by simp, packet, hmem, hnone⟩, rfl⟩

end

theorem maxEntries_bounds (mode : Mode) (ripInterface : RIPInterfaceEntry) :
    -2 ≤ maxEntries mode ripInterface ∧ maxEntries mode ripInterface < 2 ^ 32 := by
  have hmtu := ripInterface.ie.mtu_lt
  cases mode with
  | RIPv2 =>
    rw [maxEntries]
    omega
  | RIPng =>
    have hsign : Int.sign 20 = 1 := rfl
    rw [maxEntries, RIP_HEADER_SIZE, RIP_RTE_SIZE, Int.tdiv_eq_ediv, hsign]
    split <;> omega

section

variable {s : RIPRouting} {now : ℤ} {ripInterface : RIPInterfaceEntry} {changedOnly : Bool}
  {max : ℤ} {i : ℕ} {route : RIPRoute} {sending t : Sending}

/-- What holds before the `i`-th round. -/
structure Progress (s : RIPRouting) (now : ℤ) (ripInterface : RIPInterfaceEntry)
    (changedOnly : Bool) (max : ℤ) (i : ℕ) (sending : Sending) : Prop where
  ripRoutes : sending.table.ripRoutes = (s.ripRoutes.take i).map (s.age now) ++ s.ripRoutes.drop i
  routeExpiryTime : sending.table.routeExpiryTime = s.routeExpiryTime
  routePurgeTime : sending.table.routePurgeTime = s.routePurgeTime
  undue : ∀ route ∈ s.ripRoutes.take i, s.isDueForPurge now route = false
  sent : let entries := (s.ripRoutes.take i).filterMap (s.sentEntry now ripInterface changedOnly)
    if 1 ≤ max then Filled max sending entries else Unfilled max sending entries

theorem progress_zero (hlt : max < 2 ^ 32) : Progress s now ripInterface changedOnly max 0
      ⟨s, [], RIPPacket.setEntryArraySize {} max, 0⟩ := by
  refine ⟨by simp, rfl, rfl, by simp, ?_⟩
  rw [take_zero]
  dsimp only
  split_ifs with hmax
  · exact filled_nil hmax hlt s
  · exact .inl ⟨rfl, rfl, rfl, rfl⟩

section

variable (h : Progress s now ripInterface changedOnly max i sending)

include h

theorem Progress.getElem?_ripRoutes
    (hroute : s.ripRoutes[i]? = some route) : sending.table.ripRoutes[i]? = some route := by
  have hi := (List.getElem?_eq_some_iff.mp hroute).1
  have hlength : ((s.ripRoutes.take i).map (s.age now)).length = i := by
    rw [List.length_map, List.length_take, Nat.min_eq_left hi.le]
  rw [h.ripRoutes, List.getElem?_append_right hlength.le, hlength, Nat.sub_self,
    List.getElem?_drop, Nat.add_zero, hroute]

/-- The table after a round. -/
theorem Progress.ripRoutes_checked (hroute : s.ripRoutes[i]? = some route) :
    (sending.table.checked now route i).ripRoutes =
      (s.ripRoutes.take (i + 1)).map (s.age now) ++ s.ripRoutes.drop (i + 1) := by
  obtain ⟨hi, hget⟩ := List.getElem?_eq_some_iff.mp hroute
  have hlength : ((s.ripRoutes.take i).map (s.age now)).length = i := by
    rw [List.length_map, List.length_take, Nat.min_eq_left hi.le]
  have hage : sending.table.age now = s.age now := by
    funext r
    rw [age, age, isExpired_eq_of h.routeExpiryTime]
  have hdrop : s.ripRoutes.drop i = route :: s.ripRoutes.drop (i + 1) := by
    rw [List.drop_eq_getElem_cons hi, hget]
  rw [RIPRouting.ripRoutes_checked (h.getElem?_ripRoutes hroute), h.ripRoutes, hage, hdrop,
    List.modify_append_cons _ hlength, List.take_add_one, hroute]
  simp

/-- The round of a route that is not purged. -/
theorem Progress.sendRoute_eq
    (hroute : s.ripRoutes[i]? = some route) (hdue : s.isDueForPurge now route = false) :
    sendRoute now ripInterface changedOnly max sending i =
      match s.sentEntry now ripInterface changedOnly route with
      | none => .ok { sending with table := sending.table.checked now route i }
      | some entry =>
        { sending with table := sending.table.checked now route i }.fill max entry := by
  have hsentEntry : sending.table.sentEntry now ripInterface changedOnly route =
      s.sentEntry now ripInterface changedOnly route := by
    rw [sentEntry, sentEntry, isExpired_eq_of h.routeExpiryTime]
  rw [RIPRouting.sendRoute_eq (h.getElem?_ripRoutes hroute)
    (by rwa [isDueForPurge_eq_of h.routeExpiryTime h.routePurgeTime]), hsentEntry]

end

theorem Progress.step (hge : -2 ≤ max) (hlt : max < 2 ^ 32) (hi : i < s.ripRoutes.length)
    (h : Progress s now ripInterface changedOnly max i sending)
    (hok : sendRoute now ripInterface changedOnly max sending i = .ok t) :
    Progress s now ripInterface changedOnly max (i + 1) t := by
  obtain ⟨route, hroute⟩ : ∃ route, s.ripRoutes[i]? = some route :=
    ⟨_, getElem?_eq_getElem hi⟩
  have hdue : s.isDueForPurge now route = false := by
    by_contra hdue
    rw [Bool.not_eq_false, ← isDueForPurge_eq_of h.routeExpiryTime h.routePurgeTime] at hdue
    rw [sendRoute_of_due (h.getElem?_ripRoutes hroute) hdue] at hok
    cases hok
  have htake : s.ripRoutes.take (i + 1) = s.ripRoutes.take i ++ [route] := by
    rw [take_add_one, hroute]
    rfl
  have hundue : ∀ r ∈ s.ripRoutes.take (i + 1), s.isDueForPurge now r = false := by
    intro r hr
    rw [htake] at hr
    rcases mem_append.mp hr with hr | hr
    · exact h.undue r hr
    · rwa [mem_singleton.mp hr]
  have htimes := @times_checked sending.table now i route
  have hentries : (s.ripRoutes.take (i + 1)).filterMap (s.sentEntry now ripInterface changedOnly) =
      (s.ripRoutes.take i).filterMap (s.sentEntry now ripInterface changedOnly) ++
        (s.sentEntry now ripInterface changedOnly route).toList := by
    rw [htake, filterMap_append]
    cases hentry : s.sentEntry now ripInterface changedOnly route <;> simp [hentry]
  have hsent := h.sent
  rw [h.sendRoute_eq hroute hdue] at hok
  cases hentry : s.sentEntry now ripInterface changedOnly route with
  | none =>
    rw [hentry] at hok hentries
    cases hok
    refine ⟨h.ripRoutes_checked hroute, htimes.1.trans h.routeExpiryTime,
      htimes.2.trans h.routePurgeTime, hundue, ?_⟩
    rw [hentries, Option.toList_none, append_nil]
    dsimp only at hsent ⊢
    split_ifs at hsent ⊢
    · exact ⟨hsent.content, hsent.full, hsent.k_lt⟩
    · exact hsent
  | some entry =>
    rw [hentry] at hok hentries
    dsimp only at hok
    have hfilled : t.table = sending.table.checked now route i ∧ (if 1 ≤ max then
          Filled max t ((s.ripRoutes.take (i + 1)).filterMap
            (s.sentEntry now ripInterface changedOnly))
        else
          Unfilled max t ((s.ripRoutes.take (i + 1)).filterMap
            (s.sentEntry now ripInterface changedOnly))) := by
      rw [hentries, Option.toList_some]
      dsimp only at hsent
      split_ifs at hsent ⊢ with hmax
      · have hsent' : Filled max { sending with table := sending.table.checked now route i }
            _ := ⟨hsent.content, hsent.full, hsent.k_lt⟩
        obtain ⟨u, hu, hfilled, htable⟩ := hsent'.fill entry hmax hlt
        obtain rfl := Except.ok.inj (hu.symm.trans hok)
        exact ⟨htable, hfilled⟩
      · have hsent' : Unfilled max { sending with table := sending.table.checked now route i }
            _ := hsent
        obtain ⟨hunfilled, htable⟩ := hsent'.fill (by omega) hge hok
        exact ⟨htable, hunfilled⟩
    obtain ⟨htable, hcontent⟩ := hfilled
    refine ⟨?_, ?_, ?_, hundue, hcontent⟩
    · rw [htable]
      exact h.ripRoutes_checked hroute
    · rw [htable]
      exact htimes.1.trans h.routeExpiryTime
    · rw [htable]
      exact htimes.2.trans h.routePurgeTime

/-- A round succeeds if its route is not purged and there is room for its entry. -/
theorem Progress.exists_step (hlt : max < 2 ^ 32)
    (h : Progress s now ripInterface changedOnly max i sending)
    (hroute : s.ripRoutes[i]? = some route) (hdue : s.isDueForPurge now route = false)
    (hroom : 1 ≤ max ∨ s.sentEntry now ripInterface changedOnly route = none) :
    ∃ t, sendRoute now ripInterface changedOnly max sending i = .ok t := by
  rw [h.sendRoute_eq hroute hdue]
  cases hentry : s.sentEntry now ripInterface changedOnly route with
  | none => exact ⟨_, rfl⟩
  | some entry =>
    have hmax : 1 ≤ max := hroom.resolve_right (by simp [hentry])
    have hsent := h.sent
    dsimp only at hsent
    rw [if_pos hmax] at hsent
    have hsent' : Filled max { sending with table := sending.table.checked now route i } _ :=
      ⟨hsent.content, hsent.full, hsent.k_lt⟩
    obtain ⟨u, hu, -⟩ := hsent'.fill entry hmax hlt
    exact ⟨u, hu⟩

end

variable {s : RIPRouting} {now : ℤ} {ripInterface : RIPInterfaceEntry} {changedOnly : Bool}

/-- The entries that an update should have: those of all routes that are not due for purging, with
an infinite metric for the routes that have expired. -/
def expectedEntries (s : RIPRouting) (now : ℤ) (ripInterface : RIPInterfaceEntry)
    (changedOnly : Bool) : List RIPEntry :=
  (s.ripRoutes.filter fun route => !s.isDueForPurge now route).filterMap fun route =>
    advertised ripInterface changedOnly (s.age now route)

/-- The packets have the entries, none of them has too many, and just the routes that are due for
purging have been removed. -/
structure Advertises (s : RIPRouting) (now : ℤ) (ripInterface : RIPInterfaceEntry)
    (changedOnly : Bool) (table : RIPRouting) (packets : List RIPPacket) : Prop where
  entries : packets.flatMap (·.entries) = (s.expectedEntries now ripInterface changedOnly).map some
  size : ∀ packet ∈ packets, packet.entries.length ≤ maxEntries s.mode ripInterface
  ripRoutes : table.ripRoutes =
    (s.ripRoutes.filter fun route => !s.isDueForPurge now route).map (s.age now)

/-- An expired route is only left out by the split horizon; it has just been changed. -/
theorem advertised_invalidated_eq_none_iff {route : RIPRoute} :
    advertised ripInterface changedOnly (invalidated route) = none ↔
      route.ie = some ripInterface.ie.interfaceId ∧ ripInterface.mode = .SPLIT_HORIZON := by
  rw [advertised, if_neg (by simp [invalidated])]
  dsimp only [invalidated]
  split_ifs with hie
  · cases ripInterface.mode <;> simp [hie]
  · simp [hie]

theorem sentEntry_eq_none_or (route : RIPRoute) :
    s.sentEntry now ripInterface changedOnly route = none ∨
      s.sentEntry now ripInterface changedOnly route =
        advertised ripInterface changedOnly (s.age now route) := by
  unfold sentEntry age
  split_ifs
  · exact .inl rfl
  · exact .inr rfl

/-- What `sendRoutes` does after the loop. -/
theorem sendRoutes_of_loop {sending : Sending} (hloop : (List.range s.ripRoutes.length).foldlM
      (sendRoute now ripInterface changedOnly (maxEntries s.mode ripInterface))
      ⟨s, [], RIPPacket.setEntryArraySize {} (maxEntries s.mode ripInterface), 0⟩ = .ok sending) :
    s.sendRoutes now ripInterface changedOnly = .ok (sending.table, if sending.k > 0 then
        sending.sent ++ [sending.packet.setEntryArraySize sending.k]
      else sending.sent) := by
  rw [sendRoutes, hloop, ok_bind]
  split_ifs <;> rfl

/-- The packet that is sent after the loop has the entries that have been filled in. -/
theorem Filled.flatMap_entries {max : ℤ} {sending : Sending} {entries : List RIPEntry}
    (hlt : max < 2 ^ 32) (h : Filled max sending entries) :
    let packets := if sending.k > 0 then
        sending.sent ++ [sending.packet.setEntryArraySize sending.k]
      else sending.sent
    packets.flatMap (·.entries) = entries.map some ∧
      ∀ packet ∈ packets, packet.entries.length ≤ max := by
  obtain ⟨⟨current, hk, hpacket, hcontent⟩, hfull, hklt⟩ := h
  have hfull' : ∀ packet ∈ sending.sent, (packet.entries.length : ℤ) ≤ max := by
    intro packet hmem
    have := hfull packet hmem
    omega
  dsimp only
  split_ifs with hpos
  · have hsize : ((sending.k : ℤ) % 2 ^ 32).toNat = current.length := by
      rw [Int.emod_eq_of_lt (by omega) (by omega)]
      omega
    have hlast : (sending.packet.setEntryArraySize sending.k).entries = current.map some := by
      have hlength : sending.k ≤ sending.packet.entries.length := by
        rw [hpacket, length_append, length_map]
        omega
      simp only [RIPPacket.setEntryArraySize, hsize, hk, Nat.sub_eq_zero_of_le hlength,
        replicate_zero, append_nil]
      rw [hpacket, ← hk, take_left' (by simp)]
    refine ⟨?_, fun packet hmem => ?_⟩
    · rw [flatMap_append, flatMap_singleton, hlast, hcontent]
    · rcases mem_append.mp hmem with hmem | hmem
      · exact hfull' packet hmem
      · rw [mem_singleton.mp hmem, hlast, length_map]
        omega
  · have hnil : current = [] := eq_nil_of_length_eq_zero (by omega)
    rw [hnil, map_nil, append_nil] at hcontent
    exact ⟨hcontent, hfull'⟩

/-- An update has all entries if and only if no route is due for purging, every expired route is
left out by the split horizon, and there is room for an entry unless none is needed. -/
theorem sendRoutes_iff :
    (∃ table packets, s.sendRoutes now ripInterface changedOnly = .ok (table, packets) ∧
        Advertises s now ripInterface changedOnly table packets) ↔
      (∀ route ∈ s.ripRoutes, s.isDueForPurge now route = false ∧ (s.isExpired now route = true →
          route.ie = some ripInterface.ie.interfaceId ∧ ripInterface.mode = .SPLIT_HORIZON)) ∧
      (1 ≤ maxEntries s.mode ripInterface ∨
        ∀ route ∈ s.ripRoutes, advertised ripInterface changedOnly (s.age now route) = none) := by
  obtain ⟨hge, hlt⟩ := maxEntries_bounds s.mode ripInterface
  have hfilter (hundue : ∀ route ∈ s.ripRoutes, s.isDueForPurge now route = false) :
      (s.ripRoutes.filter fun route => !s.isDueForPurge now route) = s.ripRoutes :=
    List.filter_eq_self.mpr fun route hroute => by rw [hundue route hroute]; rfl
  constructor
  · rintro ⟨table, packets, hresult, hentries, -, -⟩
    cases hloop : (List.range s.ripRoutes.length).foldlM
      (sendRoute now ripInterface changedOnly (maxEntries s.mode ripInterface))
      ⟨s, [], RIPPacket.setEntryArraySize {} (maxEntries s.mode ripInterface), 0⟩ with
    | error e =>
      rw [sendRoutes, hloop] at hresult
      cases hresult
    | ok sending =>
      rw [sendRoutes_of_loop hloop] at hresult
      obtain ⟨rfl, rfl⟩ := Prod.mk.inj (Except.ok.inj hresult)
      have hdone := CountingLoop.range_ok _ (progress_zero hlt)
        (fun i hi _ _ h hok => h.step hge hlt hi hok) hloop
      have hundue := hdone.undue
      have hsent := hdone.sent
      rw [List.take_length] at hundue hsent
      rw [expectedEntries, hfilter hundue] at hentries
      dsimp only at hsent
      split_ifs at hsent with hmax
      · rw [(hsent.flatMap_entries hlt).1] at hentries
        have hsame := List.eq_of_filterMap_eq (fun route _ => sentEntry_eq_none_or route)
          (List.map_injective_iff.mpr (fun _ _ => Option.some.inj) hentries)
        refine ⟨fun route hroute => ⟨hundue route hroute, fun hexpired => ?_⟩, .inl hmax⟩
        have hleft := hsame route hroute
        rw [sentEntry, if_pos hexpired, age, if_pos hexpired] at hleft
        exact advertised_invalidated_eq_none_iff.mp hleft.symm
      · rcases hsent with ⟨-, hnone, hk, -⟩ | ⟨-, packet, hmem, hunfilled⟩
        · rw [if_neg (by omega), hnone] at hentries
          have hempty : s.ripRoutes.filterMap (fun route =>
              advertised ripInterface changedOnly (s.age now route)) = [] :=
            List.map_eq_nil_iff.mp hentries.symm
          have hall := List.filterMap_eq_nil_iff.mp hempty
          refine ⟨fun route hroute => ⟨hundue route hroute, fun hexpired => ?_⟩, .inr hall⟩
          have hleft := hall route hroute
          rw [age, if_pos hexpired] at hleft
          exact advertised_invalidated_eq_none_iff.mp hleft
        · -- An entry that has not been filled in was sent.
          exfalso
          have hmem' : none ∈ List.flatMap (·.entries) (if sending.k > 0 then
              sending.sent ++ [sending.packet.setEntryArraySize sending.k]
            else sending.sent) := by
            refine List.mem_flatMap.mpr ⟨packet, ?_, hunfilled⟩
            split_ifs
            · exact List.mem_append_left _ hmem
            · exact hmem
          rw [hentries] at hmem'
          simp at hmem'
  · rintro ⟨hroutes, hroom⟩
    have hundue : ∀ route ∈ s.ripRoutes, s.isDueForPurge now route = false :=
      fun route hroute => (hroutes route hroute).1
    have hsame : ∀ route ∈ s.ripRoutes, s.sentEntry now ripInterface changedOnly route =
        advertised ripInterface changedOnly (s.age now route) := by
      intro route hroute
      rw [sentEntry, age]
      split_ifs with hexpired
      · exact (advertised_invalidated_eq_none_iff.mpr ((hroutes route hroute).2 hexpired)).symm
      · rfl
    obtain ⟨sending, hloop, hdone⟩ := CountingLoop.range_spec (n := s.ripRoutes.length)
      (f := sendRoute now ripInterface changedOnly (maxEntries s.mode ripInterface))
      (Progress s now ripInterface changedOnly (maxEntries s.mode ripInterface))
      (progress_zero hlt) (fun i hi sending h => by
        have hroute := List.getElem?_eq_getElem hi
        have hmem := List.getElem_mem hi
        obtain ⟨t, ht⟩ := h.exists_step hlt hroute (hundue _ hmem)
          (hroom.imp_right fun hnone => (hsame _ hmem).trans (hnone _ hmem))
        exact ⟨t, ht, h.step hge hlt hi ht⟩)
    refine ⟨_, _, sendRoutes_of_loop hloop, ?_⟩
    have hsent := hdone.sent
    rw [List.take_length, List.filterMap_congr hsame] at hsent
    have hripRoutes := hdone.ripRoutes
    rw [List.take_length, List.drop_length, List.append_nil] at hripRoutes
    rw [← hfilter hundue, ← expectedEntries] at hsent
    dsimp only at hsent
    rw [← hfilter hundue] at hripRoutes
    split_ifs at hsent with hmax
    · obtain ⟨hentries, hsize⟩ := hsent.flatMap_entries hlt
      exact ⟨hentries, hsize, hripRoutes⟩
    · have hempty : s.expectedEntries now ripInterface changedOnly = [] := by
        rw [expectedEntries, hfilter hundue]
        exact List.filterMap_eq_nil_iff.mpr (hroom.resolve_left hmax)
      obtain ⟨-, hnone, hk, -⟩ := hsent.resolve_right fun h => h.1 hempty
      rw [if_neg (by omega), hnone]
      exact ⟨by rw [hempty]; rfl, by simp, hripRoutes⟩

/-- A route whose neighbour has been silent for 200 seconds. -/
def silentNeighbour : RIPRouting where
  ripRoutes := [⟨.RIP_ROUTE_RTE, some 0, some 10, 24, some 2, some 1, some 2, 3, 0, false, 0⟩]
  rt := [⟨0, .RIP, some 10, 24, some 2, some 1, 3⟩]
  nextRoute := 1

/-- An interface with split horizon that the route does not use. -/
def otherInterface : RIPInterfaceEntry where
  ie := { interfaceId := 0, mtu := 1500 }
  mode := .SPLIT_HORIZON

/-- The route is invalidated, and its loss is not advertised. -/
theorem not_advertises_silentNeighbour : ¬ ∃ table packets,
      silentNeighbour.sendRoutes 200 otherInterface false = .ok (table, packets) ∧
        Advertises silentNeighbour 200 otherInterface false table packets := by
  rintro ⟨table, packets, hresult, hentries, -, -⟩
  have hpackets : (silentNeighbour.sendRoutes 200 otherInterface false).map Prod.snd = .ok [] := rfl
  rw [hresult] at hpackets
  obtain rfl : packets = [] := Except.ok.inj hpackets
  exact absurd hentries (by decide)

end Inet.Rip.RIPRouting
