import Inet.Ipv6.IPv6RoutingTable
import Inet.Library.Lists

/-!
# The longest prefix match of the IPv6 routing table

`doLongestPrefixMatch` stops at the first route that matches the destination and has not expired.
It deletes the expired router advertisements that it meets, but when it meets another route that
matches and has expired, it does nothing and stays where it is. So it returns, with the best route
or none, if and only if all these routes stand behind the one that it stops at
(`looksUp_iff`).
-/

namespace Inet.Ipv6.IPv6RoutingTable

open List

variable {useAdminDist : Bool} {table : IPv6RoutingTable} {dest : IPv6Address} {simTime : ℤ}

section

variable {a b c : IPv6Route}

/-- `a` has the longer prefix, or else the smaller administrative distance if these are used, or
else the smaller metric. -/
def Better (useAdminDist : Bool) (a b : IPv6Route) : Prop :=
  b.prefixLength < a.prefixLength ∨ a.prefixLength = b.prefixLength ∧
    ((useAdminDist = true ∧ a.adminDist < b.adminDist) ∨
      (useAdminDist = true → a.adminDist = b.adminDist) ∧ a.metric < b.metric)

theorem routeLessThan_iff :
    IPv6Route.routeLessThan useAdminDist a b = true ↔ Better useAdminDist a b := by
  rw [IPv6Route.routeLessThan, Better]
  cases useAdminDist <;> simp <;> grind

/-- The order of the list: `b` is not better than `a`. -/
def Precedes (useAdminDist : Bool) (a b : IPv6Route) : Prop := ¬ Better useAdminDist b a

theorem Precedes.trans (hab : Precedes useAdminDist a b) (hbc : Precedes useAdminDist b c) :
    Precedes useAdminDist a c := by
  rw [Precedes, Better] at *
  cases useAdminDist <;> grind

theorem precedes_total : Precedes useAdminDist a b ∨ Precedes useAdminDist b a := by
  rw [Precedes, Precedes, Better, Better]
  cases useAdminDist <;> grind

def Sorted (table : IPv6RoutingTable) : Prop :=
  table.routeList.Pairwise (Precedes table.useAdminDist)

theorem sorted_addRoute (table : IPv6RoutingTable) (route : IPv6Route) :
    (table.addRoute route).Sorted := by
  have hle : ∀ a b : IPv6Route, (!IPv6Route.routeLessThan table.useAdminDist b a) = true ↔
      Precedes table.useAdminDist a b := fun a b => by
    rw [Precedes, ← routeLessThan_iff, Bool.not_eq_true, Bool.not_eq_true']
  refine (pairwise_mergeSort (fun a b c hab hbc => ?_) (fun a b => ?_) _).imp
    fun {a b} hab => (hle a b).mp hab
  · exact (hle a c).mpr (((hle a b).mp hab).trans ((hle b c).mp hbc))
  · rw [Bool.or_eq_true, hle, hle]
    exact precedes_total

/-- The update of a prefix changes nothing that the order depends on. -/
theorem pairwise_updateFirst {R : IPv6Route → IPv6Route → Prop} {isOld : IPv6Route → Bool}
    {update : IPv6Route → IPv6Route} (hleft : ∀ a b, R (update a) b ↔ R a b)
    (hright : ∀ a b, R a (update b) ↔ R a b) {routes updated : List IPv6Route}
    (h : updateFirst isOld update routes = some updated) (hsorted : routes.Pairwise R) :
    updated.Pairwise R ∧ ∀ a, (∀ b ∈ routes, R a b) → ∀ b ∈ updated, R a b := by
  induction routes generalizing updated with
  | nil => cases h
  | cons route routes ih =>
    obtain ⟨hroute, hroutes⟩ := pairwise_cons.mp hsorted
    rw [updateFirst] at h
    split_ifs at h with hold
    · cases h
      refine ⟨pairwise_cons.mpr ⟨fun b hb => (hleft _ _).mpr (hroute b hb), hroutes⟩, ?_⟩
      intro a ha
      obtain ⟨hhead, htail⟩ := forall_mem_cons.mp ha
      exact forall_mem_cons.mpr ⟨(hright _ _).mpr hhead, htail⟩
    · obtain ⟨rest, hrest, rfl⟩ := Option.map_eq_some_iff.mp h
      obtain ⟨hpairwise, hmem⟩ := ih hrest hroutes
      refine ⟨pairwise_cons.mpr ⟨hmem route hroute, hpairwise⟩, ?_⟩
      intro a ha
      obtain ⟨hhead, htail⟩ := forall_mem_cons.mp ha
      exact forall_mem_cons.mpr ⟨hhead, hmem a htail⟩

theorem sorted_addOrUpdatePrefix (h : table.Sorted) (sourceType : Ipv4.SourceType)
    (destPrefix : IPv6Address) (prefixLength : ℕ) (hlen : prefixLength ≤ 128)
    (interfacePtr : Option ℕ) (expiryTime : ℤ) :
    (addOrUpdatePrefix sourceType table destPrefix prefixLength hlen interfacePtr
      expiryTime).Sorted := by
  rw [addOrUpdatePrefix]
  split
  next routeList hupdate =>
      refine (pairwise_updateFirst ?_ ?_ hupdate h).1
      · exact fun _ _ => Iff.rfl
      · exact fun _ _ => Iff.rfl
  next => exact sorted_addRoute table _

theorem sorted_build (useAdminDist : Bool) (ops : List Op) : (build useAdminDist ops).Sorted := by
  have hfold : ∀ (ops : List Op) (table : IPv6RoutingTable), table.Sorted →
      (ops.foldl apply table).Sorted := by
    intro ops
    induction ops with
    | nil => exact fun table h => h
    | cons op ops ih =>
      intro table h
      refine ih (table.apply op) ?_
      cases op with
      | addRoute route => exact sorted_addRoute table route
      | addOrUpdateOnLinkPrefix =>
        exact sorted_addOrUpdatePrefix h .ROUTER_ADVERTISEMENT _ _ _ _ _
      | addOrUpdateOwnAdvPrefix =>
        exact sorted_addOrUpdatePrefix h .OWN_ADV_PREFIX _ _ _ _ _
  exact hfold ops _ List.Pairwise.nil

/-- The prefix of the route is that of the destination. -/
def Covers (dest : IPv6Address) (route : IPv6Route) : Prop :=
  IPv6Address.Agree dest route.destPrefix route.prefixLength
deriving Decidable

/-- The expiry time of the route has passed. -/
def Expired (simTime : ℤ) (route : IPv6Route) : Prop :=
  route.expiryTime < simTime ∧ route.expiryTime ≠ 0
deriving Decidable

/-- What `doLongestPrefixMatch` may delete. -/
def Withdrawn (simTime : ℤ) (route : IPv6Route) : Prop :=
  Expired simTime route ∧ route.sourceType = .ROUTER_ADVERTISEMENT
deriving Decidable

/-- The result is the best one of the routes that match and have not expired, if there is one. -/
def IsBest (table : IPv6RoutingTable) (dest : IPv6Address) (simTime : ℤ) : Option IPv6Route → Prop
  | none => ∀ route ∈ table.routeList, Covers dest route → Expired simTime route
  | some route => route ∈ table.routeList ∧ Covers dest route ∧ ¬ Expired simTime route ∧
      ∀ other ∈ table.routeList, Covers dest other → ¬ Expired simTime other →
        ¬ Better table.useAdminDist other route

/-- The search returns, it deletes nothing but expired router advertisements and keeps the other
routes in order, and its result is the best route. -/
def LooksUp (table : IPv6RoutingTable) (dest : IPv6Address) (simTime : ℤ) : Prop :=
  ∃ scan, table.Returns dest simTime scan ∧ (∀ route ∈ scan.deleted, Withdrawn simTime route) ∧
    (scan.passed ++ scan.deleted).Perm table.routeList ∧
    scan.passed.Sublist table.routeList ∧ IsBest table dest simTime scan.result

/-- A route that matches and has expired, but is not a router advertisement. -/
def Stale (dest : IPv6Address) (simTime : ℤ) (route : IPv6Route) : Prop :=
  Covers dest route ∧ Expired simTime route ∧ route.sourceType ≠ .ROUTER_ADVERTISEMENT

/-- The loop goes on to the next route. -/
def Skipped (dest : IPv6Address) (simTime : ℤ) (route : IPv6Route) : Prop :=
  Covers dest route → Withdrawn simTime route
deriving Decidable

variable {scan : Scan} {route : IPv6Route} {routes : List IPv6Route}

theorem isMatching_route (route : IPv6Route) (dest : IPv6Address) :
    route.isMatching dest = .ok (decide (Covers dest route)) :=
  IPv6Address.isMatching_eq route.prefixLength_le

theorem isExpired_iff : route.isExpired simTime = true ↔ Expired simTime route := by
  rw [IPv6Route.isExpired, decide_eq_true_iff]
  exact Iff.rfl

theorem scanRound_uncovered (h : ¬ Covers dest route) :
    scanRound dest simTime scan (route :: routes) =
      .ok ({ scan with passed := scan.passed ++ [route] }, .again routes) := by
  rw [scanRound, isMatching_route, decide_eq_false h]
  rfl

theorem scanRound_covered (h : Covers dest route) : scanRound dest simTime scan (route :: routes) =
      if route.isExpired simTime then
        if route.sourceType = .ROUTER_ADVERTISEMENT then
          .ok ({ scan with deleted := scan.deleted ++ [route] }, .again routes)
        else .ok (scan, .again (route :: routes))
      else
        .ok ({ scan with
          passed := scan.passed ++ route :: routes
          result := some route }, .leave) := by
  rw [scanRound, isMatching_route, decide_eq_true h]
  rfl

theorem scanRound_withdrawn (h : Covers dest route) (hw : Withdrawn simTime route) :
    scanRound dest simTime scan (route :: routes) =
      .ok ({ scan with deleted := scan.deleted ++ [route] }, .again routes) := by
  rw [scanRound_covered h, if_pos (isExpired_iff.mpr hw.1), if_pos hw.2]

theorem scanRound_stale (h : Stale dest simTime route) :
    scanRound dest simTime scan (route :: routes) = .ok (scan, .again (route :: routes)) := by
  rw [scanRound_covered h.1, if_pos (isExpired_iff.mpr h.2.1), if_neg h.2.2]

theorem scanRound_found (h : Covers dest route) (hv : ¬ Expired simTime route) :
    scanRound dest simTime scan (route :: routes) = .ok ({ scan with
        passed := scan.passed ++ route :: routes
        result := some route }, .leave) := by
  rw [scanRound_covered h, if_neg (fun he => hv (isExpired_iff.mp he))]

/-- What has been done in front of the iterator. -/
structure Walked (simTime : ℤ) (scan : Scan) (before : List IPv6Route) : Prop where
  deleted : ∀ route ∈ scan.deleted, Withdrawn simTime route
  perm : (scan.passed ++ scan.deleted).Perm before
  sublist : scan.passed.Sublist before
  result : scan.result = none

/-- The loop walks along the routes that it skips. -/
theorem reaches_of_skipped {before : List IPv6Route}
    (hskip : ∀ route ∈ before, Skipped dest simTime route) (routes : List IPv6Route) :
    ∃ scan, LoopStack.Reaches (scanRound dest simTime) ⟨{}, [before ++ routes]⟩
      ⟨scan, [routes]⟩ ∧ Walked simTime scan before := by
  induction before using reverseRecOn generalizing routes with
  | nil =>
    refine ⟨{}, .refl, ?_, .refl _, .refl _, rfl⟩
    simp
  | append_singleton before route ih =>
    have hbefore : ∀ r ∈ before, Skipped dest simTime r := fun r hr =>
      hskip r (mem_append_left _ hr)
    obtain ⟨scan, hreaches, hdeleted, hperm, hsublist, hresult⟩ := ih hbefore (route :: routes)
    rw [append_assoc, singleton_append]
    by_cases hcovers : Covers dest route
    · have hwithdrawn : Withdrawn simTime route :=
        hskip route (mem_append_right _ mem_cons_self) hcovers
      refine ⟨_, hreaches.tail (.intro [] (scanRound_withdrawn hcovers hwithdrawn)), ?_, ?_, ?_,
        hresult⟩
      · intro r hr
        obtain hr | hr := mem_append.mp hr
        · exact hdeleted r hr
        · obtain rfl := mem_singleton.mp hr
          exact hwithdrawn
      · rw [← append_assoc]
        exact hperm.append_right [route]
      · exact hsublist.trans (sublist_append_left before [route])
    · refine ⟨_, hreaches.tail (.intro [] (scanRound_uncovered hcovers)), hdeleted, ?_, ?_, hresult⟩
      · have hswap : (scan.passed ++ [route] ++ scan.deleted).Perm
            (scan.passed ++ scan.deleted ++ [route]) := by
          rw [append_assoc, append_assoc]
          exact perm_append_comm.append_left scan.passed
        exact hswap.trans (hperm.append_right [route])
      · exact hsublist.append_right [route]

/-- A search that skips all routes returns none. -/
theorem lookUp_skipped (hskip : ∀ route ∈ table.routeList, Skipped dest simTime route) :
    LooksUp table dest simTime := by
  obtain ⟨scan, hreaches, hwalked⟩ := reaches_of_skipped hskip []
  rw [append_nil] at hreaches
  have hend : scanRound dest simTime scan [] = .ok (scan, .leave) := rfl
  refine ⟨scan, hreaches.tail (.intro [] hend), hwalked.deleted, hwalked.perm, hwalked.sublist, ?_⟩
  rw [hwalked.result]
  exact fun route hroute hcovers => (hskip route hroute hcovers).1

/-- A search that comes to a route that matches and has not expired returns it. -/
theorem lookUp_found (hsorted : table.Sorted) {before behind : List IPv6Route}
    (hlist : table.routeList = before ++ route :: behind)
    (hskip : ∀ route ∈ before, Skipped dest simTime route) (hcovers : Covers dest route)
    (hvalid : ¬ Expired simTime route) : LooksUp table dest simTime := by
  obtain ⟨scan, hreaches, hwalked⟩ := reaches_of_skipped hskip (route :: behind)
  rw [← hlist] at hreaches
  refine ⟨_, hreaches.tail (.intro [] (scanRound_found hcovers hvalid)), hwalked.deleted,
    ?_, ?_, ?_⟩
  · have hswap : (scan.passed ++ route :: behind ++ scan.deleted).Perm
        (scan.passed ++ scan.deleted ++ route :: behind) := by
      rw [append_assoc, append_assoc]
      exact perm_append_comm.append_left scan.passed
    rw [hlist]
    exact hswap.trans (hwalked.perm.append_right (route :: behind))
  · rw [hlist]
    exact hwalked.sublist.append_right (route :: behind)
  · have hmem : route ∈ table.routeList := by
      rw [hlist]
      exact mem_append_right _ mem_cons_self
    refine ⟨hmem, hcovers, hvalid, fun other hother hcovers' hvalid' => ?_⟩
    rw [Sorted, hlist] at hsorted
    rw [hlist] at hother
    obtain hother | hother := mem_append.mp hother
    · exact absurd (hskip other hother hcovers').1 hvalid'
    obtain rfl | hother := mem_cons.mp hother
    · simp [Better]
    · exact rel_of_pairwise_cons (pairwise_append.mp hsorted).2.1 hother

/-- A search that comes to a stale route never returns. -/
theorem not_lookUp_stale {before behind : List IPv6Route}
    (hlist : table.routeList = before ++ route :: behind)
    (hskip : ∀ route ∈ before, Skipped dest simTime route) (hstale : Stale dest simTime route) :
    ¬ LooksUp table dest simTime := by
  rintro ⟨result, hreturns, -⟩
  obtain ⟨scan, hreaches, -⟩ := reaches_of_skipped hskip (route :: behind)
  rw [← hlist] at hreaches
  exact LoopStack.not_terminates_of_fixed hreaches (.intro [] (scanRound_stale hstale))
    ⟨_, hreturns, LoopStack.halted_nil result⟩

end

/-- A search in a table that has been built through `addRoute` is right if and only if every stale
route stands behind a route that matches and has not expired. -/
theorem looksUp_iff (useAdminDist : Bool) (ops : List Op) (dest : IPv6Address) (simTime : ℤ) :
    LooksUp (build useAdminDist ops) dest simTime ↔
      ∀ before route behind, (build useAdminDist ops).routeList = before ++ route :: behind →
        Stale dest simTime route →
          ∃ other ∈ before, Covers dest other ∧ ¬ Expired simTime other := by
  have hsorted := sorted_build useAdminDist ops
  generalize build useAdminDist ops = table at hsorted ⊢
  by_cases hall : ∀ route ∈ table.routeList, Skipped dest simTime route
  · refine iff_of_true (lookUp_skipped hall) fun before route behind hlist hstale => ?_
    have hskip := hall route (by rw [hlist]; exact List.mem_append_right _ List.mem_cons_self)
    exact absurd (hskip hstale.1).2 hstale.2.2
  -- the first route that the loop does not skip
  obtain ⟨route, hroute⟩ : ∃ route, table.routeList.find?
      (fun route => decide (¬ Skipped dest simTime route)) = some route := by
    rw [← Option.isSome_iff_exists, List.find?_isSome]
    simpa using hall
  obtain ⟨before, behind, hlist, hstops, hbefore⟩ := List.find?_eq_some_iff_first.mp hroute
  have hskip : ∀ r ∈ before, Skipped dest simTime r := fun r hr => by simpa using hbefore r hr
  have hstops : ¬ Skipped dest simTime route := of_decide_eq_true hstops
  have hcovers : Covers dest route := by
    by_contra hcovers
    exact hstops fun h => absurd h hcovers
  by_cases hvalid : Expired simTime route
  · have hstale : Stale dest simTime route :=
      ⟨hcovers, hvalid, fun htype => hstops fun _ => ⟨hvalid, htype⟩⟩
    refine iff_of_false (not_lookUp_stale hlist hskip hstale) fun h => ?_
    obtain ⟨other, hother, hcovers', hvalid'⟩ := h before route behind hlist hstale
    exact hvalid' (hskip other hother hcovers').1
  · refine iff_of_true (lookUp_found hsorted hlist hskip hcovers hvalid) ?_
    intro before' stale behind' hlist' hstale
    have hdiffers : ∀ r, ¬ Expired simTime r ∨ Skipped dest simTime r → stale ≠ r := by
      rintro r hr rfl
      obtain hr | hr := hr
      · exact hr hstale.2.1
      · exact hstale.2.2 (hr hstale.1).2
    rw [hlist] at hlist'
    refine ⟨route, ?_, hcovers, hvalid⟩
    obtain ⟨extra, rfl, heq⟩ | ⟨extra, rfl, heq⟩ := List.append_eq_append_iff.mp hlist'
    · cases extra with
      | nil => exact absurd (List.cons.inj heq).1.symm (hdiffers route (.inl hvalid))
      | cons first extra =>
        obtain ⟨rfl, -⟩ := List.cons.inj heq
        exact List.mem_append_right _ List.mem_cons_self
    · cases extra with
      | nil => exact absurd (List.cons.inj heq).1 (hdiffers route (.inl hvalid))
      | cons first extra =>
        obtain ⟨rfl, -⟩ := List.cons.inj heq
        have hmem := hskip stale (List.mem_append_right _ List.mem_cons_self)
        exact absurd rfl (hdiffers stale (.inr hmem))

/-- A router's own prefix that has expired, and a destination in it. -/
theorem not_looksUp_of_ownAdvPrefix :
    ¬ LooksUp (build false [.addOrUpdateOwnAdvPrefix ⟨0x20010db8#32, 0, 0, 0⟩ 64 (by decide)
      (some 0) 10]) ⟨0x20010db8#32, 0, 0, 1⟩ 11 := by
  have hlist : (build false [.addOrUpdateOwnAdvPrefix ⟨0x20010db8#32, 0, 0, 0⟩ 64 (by decide)
      (some 0) 10]).routeList = [] ++
        { destPrefix := ⟨0x20010db8#32, 0, 0, 0⟩, prefixLength := 64,
          sourceType := .OWN_ADV_PREFIX, interfacePtr := some 0, expiryTime := 10,
            adminDist := 0 } :: [] :=
    List.mergeSort_singleton _
  refine not_lookUp_stale hlist (by simp) ⟨by decide, by decide, by decide⟩

end Inet.Ipv6.IPv6RoutingTable
