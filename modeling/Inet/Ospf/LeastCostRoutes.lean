import Inet.Library.LeastCost
import Inet.Ospf.InterAreaRoutes

/-!
# The least costs of inter-area routes

Every summary LSA that names a border router of the area is an `Offer` of a route to its
destination. Over a table of intra-area entries the routes that are calculated are the cheapest
offers, as long as no cost is cut to 16 bits (`Clean` has the other conditions): the entries that
were added for a destination stand for the cheapest offers so far (`Holds`).
-/

namespace Inet.Ospf

open Inet.Ipv4 (IPv4Address)
open Inet.Ipv4.IPv4Address (ALLONES_ADDRESS)
open List

/-- What a route leads to. -/
inductive Destination where
  | network (address mask : IPv4Address)
  | router (routerID : RouterID)
deriving DecidableEq

def RoutingTableEntry.key (e : RoutingTableEntry) : Destination :=
  if e.destinationType.isRouter then .router e.destination
  else .network (e.destination &&& e.netmask) e.netmask

def SummaryLSA.key (l : SummaryLSA) : Destination :=
  if l.isNetwork then .network (l.header.linkStateID &&& l.networkMask) l.networkMask
  else .router l.header.linkStateID

/-- The netmask of an entry for a router has all bits. -/
def RoutingTableEntry.WellMasked (e : RoutingTableEntry) : Prop :=
  e.destinationType.isRouter = true → e.netmask = ALLONES_ADDRESS

def SummaryLSA.WellMasked (l : SummaryLSA) : Prop :=
  l.isNetwork = false → l.networkMask = ALLONES_ADDRESS

theorem RoutingDestinationType.eq_network_iff (type : RoutingDestinationType) :
    type = NETWORK_DESTINATION ↔ type.isRouter = false := by
  obtain ⟨a, b⟩ := type
  cases a <;> cases b <;> decide

/-- The loop over the table looks for the destination of the LSA. -/
theorem isMatching_iff {l : SummaryLSA} {e : RoutingTableEntry} (hl : l.WellMasked)
    (he : e.WellMasked) : l.isMatching e = true ↔ e.key = l.key := by
  have htype := e.destinationType.eq_network_iff
  unfold SummaryLSA.isMatching RoutingTableEntry.key SummaryLSA.key isSameNetwork
  cases hnetwork : l.isNetwork <;> cases hrouter : e.destinationType.isRouter
  · simp
  · have hmasks : l.networkMask = e.netmask := (hl hnetwork).trans (he hrouter).symm
    simp [SummaryLSA.destination, hmasks]
    exact eq_comm
  · simp only [SummaryLSA.destination, htype.mpr hrouter, beq_self_eq_true, Bool.true_and,
      if_true, Bool.false_eq_true, if_false, Bool.and_eq_true, beq_iff_eq,
      Destination.network.injEq]
    exact ⟨fun ⟨hmask, haddress⟩ => ⟨haddress.symm, hmask.symm⟩,
      fun ⟨haddress, hmask⟩ => ⟨hmask.symm, haddress.symm⟩⟩
  · have hne : e.destinationType ≠ NETWORK_DESTINATION := by
      rw [Ne, htype, hrouter]
      decide
    simp [hne]

namespace Area

variable (area : Area) (table : List RoutingTableEntry) (summaryLSAs : List SummaryLSA)

/-- The entry for the border router that has originated the LSA. -/
def borderRouter (l : SummaryLSA) : Option RoutingTableEntry :=
  table.find? (area.isBorderRouter l.header.advertisingRouter)

/-- What the LSA offers: its cost and the cost to the border router, and the next hops there. -/
def offer (l : SummaryLSA) : Option (Offer NextHop) :=
  if area.isSkipped l then none
  else (area.borderRouter table l).map fun b => ⟨l.routeCost + b.cost, b.nextHops⟩

/-- The offers of routes to a destination. -/
def offersFor (d : Destination) : List (Offer NextHop) :=
  summaryLSAs.filterMap fun l => if l.key = d then area.offer table l else none

def HasEntry (d : Destination) : Prop := ∃ e ∈ table, e.key = d

/-- The LSAs for which the calculation does what it should: no cost is cut to 16 bits, no range is
active for a destination without an entry, netmasks of routers have all bits, and no router that is
not in the table originates LSAs and is itself a destination of others. -/
structure Clean : Prop where
  noWrap : ∀ l ∈ summaryLSAs, ∀ o, area.offer table l = some o → ¬ HasEntry table l.key →
    o.cost < 2 ^ 16
  inactive : ∀ l ∈ summaryLSAs, area.offer table l ≠ none → ¬ HasEntry table l.key →
    area.isInActiveRange table l = false
  entryMask : ∀ e ∈ table, e.WellMasked
  lsaMask : ∀ l ∈ summaryLSAs, area.offer table l ≠ none → l.WellMasked
  borderRouters : ∀ l ∈ summaryLSAs, area.isSkipped l = false → area.borderRouter table l = none →
    ∀ l' ∈ summaryLSAs, area.offer table l' ≠ none → l'.isNetwork = false →
      l'.header.linkStateID ≠ l.header.advertisingRouter

/-- The routes to every destination, given those of the table before. -/
structure RoutesSpec (result : List RoutingTableEntry) : Prop where
  /-- What has an intra-area entry keeps just that. -/
  kept : ∀ d, HasEntry table d → result.filter (·.key = d) = table.filter (·.key = d)
  /-- Other destinations with an offer get one entry. -/
  added : ∀ d, ¬ HasEntry table d → area.offersFor table summaryLSAs d ≠ [] →
    ∃ e, result.filter (·.key = d) = [e] ∧ e.pathType = .INTERAREA ∧
      IsLeast (Offer.costs (area.offersFor table summaryLSAs d)) e.cost ∧
      ∀ hop, hop ∈ e.nextHops ↔
        ∃ o ∈ area.offersFor table summaryLSAs d, o.cost = e.cost ∧ hop ∈ o.items

/-- The same routes, up to the order of the next hops. -/
def SameRoutes (result result' : List RoutingTableEntry) : Prop :=
  ∀ d, List.Forall₂ (fun e e' => e.pathType = e'.pathType ∧ e.cost = e'.cost ∧
    e.nextHops.Perm e'.nextHops) (result.filter (·.key = d)) (result'.filter (·.key = d))

section

variable {area table}

/-- The entries that have been added so far, given the LSAs that have been looked at. -/
structure Holds (area : Area) (table : List RoutingTableEntry) (seen : List SummaryLSA)
    (added : List RoutingTableEntry) : Prop where
  interArea : ∀ e ∈ added, e.pathType = .INTERAREA
  masked : ∀ e ∈ added, e.WellMasked
  routers : ∀ e ∈ added, e.destinationType.isRouter = true →
    ∃ l ∈ seen, area.offer table l ≠ none ∧ l.isNetwork = false ∧
      l.header.linkStateID = e.destination
  kept : ∀ d, HasEntry table d → added.filter (·.key = d) = []
  best : ∀ d, ¬ HasEntry table d → (added.filter (·.key = d)).map (fun e => (e.cost, e.nextHops)) =
    (Offer.cheapest (area.offersFor table seen d)).toList

variable {seen : List SummaryLSA} {added added' : List RoutingTableEntry} {l : SummaryLSA}
  {o : Offer NextHop} {e : RoutingTableEntry} {d : Destination}

theorem holds_nil : Holds area table [] [] where
  interArea _ h := by cases h
  masked _ h := by cases h
  routers _ h := by cases h
  kept _ _ := rfl
  best _ _ := rfl

theorem offersFor_append_singleton : area.offersFor table (seen ++ [l]) d =
    area.offersFor table seen d ++ if l.key = d then (area.offer table l).toList else [] := by
  rw [offersFor, filterMap_append, ← offersFor]
  by_cases h : l.key = d
  · cases ho : area.offer table l <;> simp [h, ho]
  · simp [h]

/-- An LSA that changes nothing: it makes no offer, or its destination has an entry. -/
theorem Holds.stay (h : Holds area table seen added)
    (hl : area.offer table l = none ∨ HasEntry table l.key) :
    Holds area table (seen ++ [l]) added := by
  refine ⟨h.interArea, h.masked, fun e he hrouter => ?_, h.kept, fun d hd => ?_⟩
  · obtain ⟨l', hl', hrest⟩ := h.routers e he hrouter
    exact ⟨l', mem_append_left _ hl', hrest⟩
  · have hsame : area.offersFor table (seen ++ [l]) d = area.offersFor table seen d := by
      rw [offersFor_append_singleton]
      rcases hl with hnone | hentry
      · simp [hnone]
      · rw [if_neg (fun hkey : l.key = d => hd (hkey ▸ hentry)), append_nil]
    rw [hsame]
    exact h.best d hd

/-- The entry is there for the destination of the LSA. -/
structure IsFor (area : Area) (table : List RoutingTableEntry) (l : SummaryLSA)
    (e : RoutingTableEntry) : Prop where
  interArea : e.pathType = .INTERAREA
  masked : e.WellMasked
  key : e.key = l.key

theorem IsFor.router (h : IsFor area table l e) (hrouter : e.destinationType.isRouter = true) :
    l.isNetwork = false ∧ l.header.linkStateID = e.destination := by
  have hkey := h.key
  rw [RoutingTableEntry.key, if_pos hrouter, SummaryLSA.key] at hkey
  cases hnetwork : l.isNetwork with
  | false =>
    rw [hnetwork, if_neg Bool.false_ne_true] at hkey
    exact ⟨rfl, (Destination.router.inj hkey).symm⟩
  | true =>
    rw [hnetwork, if_pos rfl] at hkey
    cases hkey

/-- An LSA with an offer for another destination: the entries for it are improved. -/
theorem Holds.update (h : Holds area table seen added) (ho : area.offer table l = some o)
    (hentry : ¬ HasEntry table l.key)
    (hnew : ∀ e ∈ added', e ∈ added ∨ IsFor area table l e)
    (hothers : ∀ d, d ≠ l.key → added'.filter (·.key = d) = added.filter (·.key = d))
    (hbest : (added'.filter (·.key = l.key)).map (fun e => (e.cost, e.nextHops)) =
      (Offer.improve (Offer.cheapest (area.offersFor table seen l.key)) o).toList) :
    Holds area table (seen ++ [l]) added' := by
  refine ⟨fun e he => ?_, fun e he => ?_, fun e he hrouter => ?_, fun d hd => ?_, fun d hd => ?_⟩
  · rcases hnew e he with hold | hfor
    · exact h.interArea e hold
    · exact hfor.interArea
  · rcases hnew e he with hold | hfor
    · exact h.masked e hold
    · exact hfor.masked
  · rcases hnew e he with hold | hfor
    · obtain ⟨l', hl', hrest⟩ := h.routers e hold hrouter
      exact ⟨l', mem_append_left _ hl', hrest⟩
    · exact ⟨l, by simp, by simp [ho], hfor.router hrouter⟩
  · rw [hothers d fun hd' => hentry (hd' ▸ hd)]
    exact h.kept d hd
  · rw [offersFor_append_singleton]
    by_cases hkey : l.key = d
    · subst hkey
      rw [if_pos rfl, ho, Option.toList_some, Offer.cheapest_append_singleton]
      exact hbest
    · rw [if_neg hkey, append_nil, hothers d (Ne.symm hkey)]
      exact h.best d hd

end

section

variable {area : Area} {table added : List RoutingTableEntry} {seen : List SummaryLSA}
  {l : SummaryLSA} {e b : RoutingTableEntry}

theorem modifyLast_append {α : Type} {p : α → Bool} {f : α → α} {x : α} (xs : List α) {ys : List α}
    (hx : p x = true) (hys : ∀ y ∈ ys, p y = false) :
    modifyLast p f (xs ++ x :: ys) = xs ++ f x :: ys := by
  induction xs with
  | nil =>
    have hany : ys.any p = false := any_eq_false.mpr fun y hy => by rw [hys y hy]; decide
    rw [nil_append, modifyLast, hany, if_neg Bool.false_ne_true, if_pos hx, nil_append]
  | cons y xs ih =>
    have hany : (xs ++ x :: ys).any p = true :=
      any_eq_true.mpr ⟨x, by simp, hx⟩
    rw [cons_append, modifyLast, if_pos hany, ih, cons_append]

theorem isFor_created (currentCost : ℕ) (b : RoutingTableEntry) :
    IsFor area table l (area.createRoutingTableEntryFromSummaryLSA l currentCost b) := by
  unfold createRoutingTableEntryFromSummaryLSA
  cases hnetwork : l.isNetwork with
  | true =>
    refine ⟨rfl, fun hrouter => ?_, ?_⟩
    · cases hrouter
    · rw [RoutingTableEntry.key, SummaryLSA.key, hnetwork, if_pos rfl, if_pos rfl]
      refine (if_neg Bool.false_ne_true).trans ?_
      simp only [SummaryLSA.destination, BitVec.and_assoc, BitVec.and_self]
  | false =>
    refine ⟨rfl, fun _ => rfl, ?_⟩
    rw [RoutingTableEntry.key, SummaryLSA.key, hnetwork, if_neg Bool.false_ne_true,
      if_neg Bool.false_ne_true]
    exact if_pos rfl

theorem created_costs (area : Area) (l : SummaryLSA) (currentCost : ℕ) (b : RoutingTableEntry) :
    (area.createRoutingTableEntryFromSummaryLSA l currentCost b).cost = currentCost ∧
      (area.createRoutingTableEntryFromSummaryLSA l currentCost b).nextHops = b.nextHops := by
  unfold createRoutingTableEntryFromSummaryLSA
  cases l.isNetwork <;> exact ⟨rfl, rfl⟩

/-- The entries for a destination are one entry in its place, and the others around it. -/
theorem exists_split {d : Destination} (h : added.filter (·.key = d) = [e]) :
    ∃ before behind, added = before ++ e :: behind ∧ e.key = d ∧
      (∀ x ∈ before, x.key ≠ d) ∧ ∀ x ∈ behind, x.key ≠ d := by
  obtain ⟨before, behind, rfl, hbefore, he, hbehind⟩ := filter_eq_cons_iff.mp h
  refine ⟨before, behind, rfl, by simpa using he, fun x hx => by simpa using hbefore x hx,
    fun x hx => ?_⟩
  simpa using filter_eq_nil_iff.mp hbehind x hx

theorem filter_around {before behind : List RoutingTableEntry} {d : Destination}
    (hbefore : ∀ x ∈ before, x.key ≠ d) (hbehind : ∀ x ∈ behind, x.key ≠ d) (he : e.key = d) :
    (before ++ e :: behind).filter (·.key = d) = [e] := by
  rw [filter_append, filter_eq_nil_iff.mpr (by simpa using hbefore), nil_append,
    filter_cons_of_pos (by simpa using he),
    filter_eq_nil_iff.mpr (by simpa using hbehind)]

theorem filter_others {before behind : List RoutingTableEntry} {d d' : Destination}
    (he : e.key = d) (hd : d' ≠ d) :
    (before ++ e :: behind).filter (·.key = d') = (before ++ behind).filter (·.key = d') := by
  rw [filter_append, filter_append, filter_cons_of_neg]
  simpa [he] using hd.symm

/-- One entry of the table matches the LSA, and it is an inter-area one. -/
structure OnlyMatch (l : SummaryLSA) (before : List RoutingTableEntry) (e : RoutingTableEntry)
    (behind : List RoutingTableEntry) : Prop where
  before : ∀ x ∈ before, l.isMatching x = false
  behind : ∀ x ∈ behind, l.isMatching x = false
  isMatching : l.isMatching e = true
  interArea : e.pathType = .INTERAREA

section

variable {before behind : List RoutingTableEntry} {currentCost : ℕ}

theorem findSameOrWorseCostRoute_unmatched (h : ∀ x ∈ before, l.isMatching x = false) :
    findSameOrWorseCostRoute before l currentCost = some [] := by
  have hbetter : before.any (isBetter l currentCost) = false :=
    any_eq_false.mpr fun x hx => by simp [isBetter, h x hx]
  rw [findSameOrWorseCostRoute, hbetter, if_neg Bool.false_ne_true,
    filter_eq_nil_iff.mpr fun x hx => by simp [isSameOrWorse, h x hx]]

theorem OnlyMatch.find_cheaper (h : OnlyMatch l before e behind) (hlt : e.cost < currentCost) :
    findSameOrWorseCostRoute (before ++ e :: behind) l currentCost = none := by
  rw [findSameOrWorseCostRoute, if_pos]
  refine any_eq_true.mpr ⟨e, by simp, ?_⟩
  simp [isBetter, h.isMatching, h.interArea, hlt]

theorem OnlyMatch.find_other (h : OnlyMatch l before e behind) (hle : currentCost ≤ e.cost) :
    findSameOrWorseCostRoute (before ++ e :: behind) l currentCost = some [e] := by
  have hbetter : (before ++ e :: behind).any (isBetter l currentCost) = false := by
    refine any_eq_false.mpr fun x hx => ?_
    rcases mem_append.mp hx with hx | hx
    · simp [isBetter, h.before x hx]
    rcases mem_cons.mp hx with rfl | hx
    · simp [isBetter, h.interArea, hle]
    · simp [isBetter, h.behind x hx]
  rw [findSameOrWorseCostRoute, hbetter, if_neg Bool.false_ne_true, filter_append,
    filter_eq_nil_iff.mpr fun x hx => by simp [isSameOrWorse, h.before x hx],
    filter_cons_of_pos (by simp [isSameOrWorse, h.isMatching, h.interArea, hle]),
    filter_eq_nil_iff.mpr fun x hx => by simp [isSameOrWorse, h.behind x hx]]
  rfl

/-- The entry for the destination, with more next hops. -/
def withNextHops (e b : RoutingTableEntry) : RoutingTableEntry :=
  { e with nextHops := e.nextHops ++ b.nextHops }

theorem OnlyMatch.replace_equal (h : OnlyMatch l before e behind) (heq : e.cost = currentCost) :
    area.replaceOrMerge (before ++ e :: behind) l currentCost b =
      before ++ withNextHops e b :: behind := by
  have hall : ∀ x ∈ before ++ e :: behind,
      (!(isSameOrWorse l currentCost x && decide (currentCost < x.cost))) = true := by
    intro x hx
    rcases mem_append.mp hx with hx | hx
    · simp [isSameOrWorse, h.before x hx]
    rcases mem_cons.mp hx with rfl | hx
    · simp [heq]
    · simp [isSameOrWorse, h.behind x hx]
  have he : (isSameOrWorse l currentCost e && e.cost == currentCost) = true := by
    simp [isSameOrWorse, h.isMatching, h.interArea, heq]
  have hany : (before ++ e :: behind).any (fun x =>
      isSameOrWorse l currentCost x && x.cost == currentCost) = true :=
    any_eq_true.mpr ⟨e, by simp, he⟩
  rw [replaceOrMerge]
  rw [filter_eq_self.mpr hall, if_pos hany]
  exact modifyLast_append before he fun x hx => by simp [isSameOrWorse, h.behind x hx]

theorem OnlyMatch.replace_dearer (h : OnlyMatch l before e behind) (hlt : currentCost < e.cost) :
    area.replaceOrMerge (before ++ e :: behind) l currentCost b = (before ++ behind) ++
      [area.createRoutingTableEntryFromSummaryLSA l currentCost b] := by
  have hbefore : ∀ x ∈ before,
      (!(isSameOrWorse l currentCost x && decide (currentCost < x.cost))) = true :=
    fun x hx => by simp [isSameOrWorse, h.before x hx]
  have hbehind : ∀ x ∈ behind,
      (!(isSameOrWorse l currentCost x && decide (currentCost < x.cost))) = true :=
    fun x hx => by simp [isSameOrWorse, h.behind x hx]
  have hfilter : (before ++ e :: behind).filter (fun x =>
      !(isSameOrWorse l currentCost x && decide (currentCost < x.cost))) = before ++ behind := by
    rw [filter_append, filter_eq_self.mpr hbefore, filter_cons_of_neg
      (by simp [isSameOrWorse, h.isMatching, h.interArea, hlt, hlt.le]),
      filter_eq_self.mpr hbehind]
  have hany : (before ++ behind).any (fun x =>
      isSameOrWorse l currentCost x && x.cost == currentCost) = false := by
    refine any_eq_false.mpr fun x hx => ?_
    rcases mem_append.mp hx with hx | hx
    · simp [isSameOrWorse, h.before x hx]
    · simp [isSameOrWorse, h.behind x hx]
  rw [replaceOrMerge]
  rw [hfilter, hany, if_neg Bool.false_ne_true]

end

/-- The part of a round in which the cost is compared. -/
def compareCosts (area : Area) (table : List RoutingTableEntry) (l : SummaryLSA) (currentCost : ℕ)
    (b : RoutingTableEntry) : List RoutingTableEntry :=
  match findSameOrWorseCostRoute table l currentCost with
  | none => table
  | some [] => table ++ [area.createRoutingTableEntryFromSummaryLSA l currentCost b]
  | some _ => area.replaceOrMerge table l currentCost b

/-- The first LSA for a destination. -/
theorem compareCosts_first (h : Holds area table seen added) {c : ℕ}
    (ho : area.offer table l = some ⟨c, b.nextHops⟩) (hentry : ¬ HasEntry table l.key)
    (htable : ∀ x ∈ table, l.isMatching x = false)
    (hmatch : ∀ x ∈ added, l.isMatching x = true ↔ x.key = l.key)
    (hnone : Offer.cheapest (area.offersFor table seen l.key) = none) :
    ∃ added', area.compareCosts (table ++ added) l c b = table ++ added' ∧
      Holds area table (seen ++ [l]) added' := by
  have hbest := h.best l.key hentry
  rw [hnone, Option.toList_none, map_eq_nil_iff] at hbest
  have hfree : ∀ x ∈ added, x.key ≠ l.key := by simpa using filter_eq_nil_iff.mp hbest
  have hall : ∀ x ∈ table ++ added, l.isMatching x = false := by
    intro x hx
    rcases mem_append.mp hx with hx | hx
    · exact htable x hx
    · exact eq_false_of_ne_true fun hm => hfree x hx ((hmatch x hx).mp hm)
  have hnew : IsFor area table l (area.createRoutingTableEntryFromSummaryLSA l c b) :=
    isFor_created c b
  obtain ⟨hcost, hhops⟩ := created_costs area l c b
  refine ⟨added ++ [area.createRoutingTableEntryFromSummaryLSA l c b], ?_, ?_⟩
  · rw [compareCosts, findSameOrWorseCostRoute_unmatched hall]
    dsimp only
    rw [append_assoc]
  · refine h.update ho hentry (fun x hx => ?_) (fun d hd => ?_) ?_
    · rcases mem_append.mp hx with hx | hx
      · exact .inl hx
      · exact .inr (mem_singleton.mp hx ▸ hnew)
    · rw [filter_others hnew.key hd, append_nil]
    · rw [filter_around hfree (by simp) hnew.key, hnone, Offer.improve, Option.toList_some,
        map_singleton, hcost, hhops]

/-- Another LSA for a destination. -/
theorem compareCosts_next (h : Holds area table seen added) {c c₀ : ℕ} {hops : List NextHop}
    (ho : area.offer table l = some ⟨c, b.nextHops⟩) (hentry : ¬ HasEntry table l.key)
    (htable : ∀ x ∈ table, l.isMatching x = false)
    (hmatch : ∀ x ∈ added, l.isMatching x = true ↔ x.key = l.key)
    (hsome : Offer.cheapest (area.offersFor table seen l.key) = some (c₀, hops)) :
    ∃ added', area.compareCosts (table ++ added) l c b = table ++ added' ∧
      Holds area table (seen ++ [l]) added' := by
  have hbest := h.best l.key hentry
  rw [hsome, Option.toList_some, map_eq_singleton_iff] at hbest
  obtain ⟨e, hfilter, hpair⟩ := hbest
  obtain ⟨rfl, rfl⟩ := Prod.mk.inj hpair
  obtain ⟨before, behind, rfl, hkey, hbefore, hbehind⟩ := exists_split hfilter
  have hmem : e ∈ before ++ e :: behind := by simp
  have honly : OnlyMatch l (table ++ before) e behind := by
    refine ⟨fun x hx => ?_, fun x hx => ?_, (hmatch e hmem).mpr hkey, h.interArea e hmem⟩
    · rcases mem_append.mp hx with hx | hx
      · exact htable x hx
      · exact eq_false_of_ne_true fun hm =>
          hbefore x hx ((hmatch x (mem_append_left _ hx)).mp hm)
    · exact eq_false_of_ne_true fun hm =>
        hbehind x hx ((hmatch x (mem_append_right _ (mem_cons_of_mem e hx))).mp hm)
  have hnew : IsFor area table l (area.createRoutingTableEntryFromSummaryLSA l c b) :=
    isFor_created c b
  obtain ⟨hcost, hhops⟩ := created_costs area l c b
  rw [compareCosts, ← append_assoc]
  rcases Nat.lt_trichotomy e.cost c with hlt | heq | hgt
  · -- the entry is cheaper
    refine ⟨before ++ e :: behind, ?_, ?_⟩
    · rw [honly.find_cheaper hlt, append_assoc]
    · refine h.update ho hentry (fun x hx => .inl hx) (fun d _ => rfl) ?_
      rw [hfilter, hsome, Offer.improve]
      dsimp only
      rw [if_neg hlt.not_gt, if_neg hlt.ne']
      rfl
  · -- the next hops are added to the entry
    refine ⟨before ++ withNextHops e b :: behind, ?_, ?_⟩
    · rw [honly.find_other heq.ge]
      dsimp only
      rw [honly.replace_equal heq, append_assoc]
    · have hmerged : (withNextHops e b).key = l.key := hkey
      refine h.update ho hentry (fun x hx => ?_) (fun d hd => ?_) ?_
      · rcases mem_append.mp hx with hx | hx
        · exact .inl (mem_append_left _ hx)
        rcases mem_cons.mp hx with rfl | hx
        · exact .inr ⟨h.interArea e hmem, h.masked e hmem, hkey⟩
        · exact .inl (mem_append_right _ (mem_cons_of_mem e hx))
      · rw [filter_others hmerged hd, filter_others hkey hd]
      · rw [filter_around hbefore hbehind hmerged, hsome, Offer.improve]
        dsimp only
        rw [if_neg (by omega), if_pos heq.symm]
        rfl
  · -- the entry is dearer
    refine ⟨(before ++ behind) ++ [area.createRoutingTableEntryFromSummaryLSA l c b], ?_, ?_⟩
    · rw [honly.find_other hgt.le]
      dsimp only
      rw [honly.replace_dearer hgt]
      simp only [append_assoc]
    · have hfree : ∀ x ∈ before ++ behind, x.key ≠ l.key := by
        intro x hx
        rcases mem_append.mp hx with hx | hx
        · exact hbefore x hx
        · exact hbehind x hx
      refine h.update ho hentry (fun x hx => ?_) (fun d hd => ?_) ?_
      · rcases mem_append.mp hx with hx | hx
        · refine .inl ?_
          rcases mem_append.mp hx with hx | hx
          · exact mem_append_left _ hx
          · exact mem_append_right _ (mem_cons_of_mem e hx)
        · exact .inr (mem_singleton.mp hx ▸ hnew)
      · rw [filter_others hnew.key hd, filter_others hkey hd, append_nil]
      · rw [filter_around hfree (by simp) hnew.key, hsome, Offer.improve]
        dsimp only
        rw [if_pos hgt, map_singleton, hcost, hhops]
        rfl

end

/-- A destination with an intra-area entry is left alone. -/
theorem find_of_hasEntry {added : List RoutingTableEntry} {table : List RoutingTableEntry}
    {l : SummaryLSA} {c : ℕ} (hintra : ∀ e ∈ table, e.pathType = .INTRAAREA)
    (hmasks : ∀ e ∈ table, e.WellMasked) (hl : l.WellMasked) (hentry : HasEntry table l.key) :
    findSameOrWorseCostRoute (table ++ added) l c = none := by
  obtain ⟨e, he, hkey⟩ := hentry
  rw [findSameOrWorseCostRoute, if_pos]
  refine any_eq_true.mpr ⟨e, mem_append_left _ he, ?_⟩
  simp [isBetter, hintra e he, (isMatching_iff hl (hmasks e he)).mpr hkey]

section

variable {area : Area} {table added : List RoutingTableEntry} {seen summaryLSAs : List SummaryLSA}
  {l : SummaryLSA}

/-- Only intra-area entries make a range active. -/
theorem isInActiveRange_append (hinter : ∀ e ∈ added, e.pathType = .INTERAREA) :
    area.isInActiveRange (table ++ added) l = area.isInActiveRange table l := by
  have hadded : added.any (fun routingEntry =>
      routingEntry.destinationType == NETWORK_DESTINATION && routingEntry.pathType == .INTRAAREA &&
        l.destination.containedByRange routingEntry.destination routingEntry.netmask) = false :=
    any_eq_false.mpr fun e he => by simp [hinter e he]
  rw [isInActiveRange, any_append, hadded, Bool.or_false, ← isInActiveRange]

/-- No entry that was added stands for a border router. -/
theorem borderRouter_append (hclean : area.Clean table summaryLSAs) (hl : l ∈ summaryLSAs)
    (hskip : area.isSkipped l = false) (hseen : ∀ l' ∈ seen, l' ∈ summaryLSAs)
    (h : Holds area table seen added) :
    (table ++ added).find? (area.isBorderRouter l.header.advertisingRouter) =
      area.borderRouter table l := by
  rw [find?_append, borderRouter]
  cases hfind : table.find? (area.isBorderRouter l.header.advertisingRouter) with
  | some b => rfl
  | none =>
    rw [Option.none_or]
    refine find?_eq_none.mpr fun e he hborder => ?_
    simp only [isBorderRouter, Bool.and_eq_true, beq_iff_eq] at hborder
    obtain ⟨l', hl', hoffer, hnetwork, hid⟩ := h.routers e he hborder.1.2
    exact hclean.borderRouters l hl hskip hfind l' (hseen l' hl') hoffer hnetwork
      (hid.trans hborder.2)

section

variable (hintra : ∀ e ∈ table, e.pathType = .INTRAAREA) (hclean : area.Clean table summaryLSAs)

include hintra hclean

/-- One round of the loop. -/
theorem processSummaryLSA_spec (hl : l ∈ summaryLSAs)
    (hseen : ∀ l' ∈ seen, l' ∈ summaryLSAs) (h : Holds area table seen added) :
    ∃ added', area.processSummaryLSA (table ++ added) l = table ++ added' ∧
      Holds area table (seen ++ [l]) added' := by
  cases hskip : area.isSkipped l with
  | true =>
    refine ⟨added, ?_, h.stay (.inl (by rw [offer, hskip, if_pos rfl]))⟩
    rw [processSummaryLSA, hskip, if_pos rfl]
  | false =>
    have hborder := borderRouter_append hclean hl hskip hseen h
    have hrange : area.isInActiveRange (table ++ added) l = area.isInActiveRange table l :=
      isInActiveRange_append h.interArea
    rw [processSummaryLSA, hskip, if_neg Bool.false_ne_true, hrange, hborder]
    cases hb : area.borderRouter table l with
    | none =>
      refine ⟨added, ?_, h.stay (.inl (by rw [offer, hskip, if_neg Bool.false_ne_true, hb]; rfl))⟩
      split_ifs <;> rfl
    | some b =>
      have ho : area.offer table l = some ⟨l.routeCost + b.cost, b.nextHops⟩ := by
        rw [offer, hskip, if_neg Bool.false_ne_true, hb]
        rfl
      have hlm := hclean.lsaMask l hl (by rw [ho]; exact Option.some_ne_none _)
      by_cases hentry : HasEntry table l.key
      · refine ⟨added, ?_, h.stay (.inr hentry)⟩
        dsimp only
        rw [find_of_hasEntry hintra hclean.entryMask hlm hentry]
        exact ite_self _
      · have hlt := hclean.noWrap l hl _ ho hentry
        have hinactive := hclean.inactive l hl (by rw [ho]; exact Option.some_ne_none _) hentry
        dsimp only at hlt ⊢
        rw [hinactive, if_neg Bool.false_ne_true, Nat.mod_eq_of_lt hlt]
        have htable : ∀ x ∈ table, l.isMatching x = false := fun x hx => by
          refine eq_false_of_ne_true fun hm => hentry ⟨x, hx, ?_⟩
          exact (isMatching_iff hlm (hclean.entryMask x hx)).mp hm
        have hmatch : ∀ x ∈ added, l.isMatching x = true ↔ x.key = l.key :=
          fun x hx => isMatching_iff hlm (h.masked x hx)
        cases hbest : Offer.cheapest (area.offersFor table seen l.key) with
        | none => exact compareCosts_first h ho hentry htable hmatch hbest
        | some best => exact compareCosts_next h ho hentry htable hmatch hbest

/-- The whole loop, from any point on. -/
theorem foldl_processSummaryLSA_spec {rest : List SummaryLSA} (h : Holds area table seen added)
    (hall : seen ++ rest = summaryLSAs) :
    ∃ added', rest.foldl area.processSummaryLSA (table ++ added) = table ++ added' ∧
      Holds area table summaryLSAs added' := by
  induction rest generalizing seen added with
  | nil =>
    rw [append_nil] at hall
    exact ⟨added, rfl, hall ▸ h⟩
  | cons l rest ih =>
    have hl : l ∈ summaryLSAs := by rw [← hall]; simp
    have hseen : ∀ l' ∈ seen, l' ∈ summaryLSAs := fun l' hl' => by
      rw [← hall]
      exact mem_append_left _ hl'
    obtain ⟨added', hstep, h'⟩ := processSummaryLSA_spec hintra hclean hl hseen h
    rw [foldl_cons, hstep]
    exact ih h' (by rw [append_assoc, singleton_append, hall])

theorem calculateInterAreaRoutes_holds :
    ∃ added, area.calculateInterAreaRoutes table summaryLSAs = table ++ added ∧
      Holds area table summaryLSAs added := by
  have hrun := @foldl_processSummaryLSA_spec _ _ _ _ _ hintra hclean summaryLSAs holds_nil rfl
  rwa [append_nil] at hrun

end

theorem Holds.routesSpec (h : Holds area table summaryLSAs added) :
    area.RoutesSpec table summaryLSAs (table ++ added) := by
  refine ⟨fun d hd => ?_, fun d hd hoffers => ?_⟩
  · rw [filter_append, h.kept d hd, append_nil]
  · have htable : table.filter (·.key = d) = [] :=
      filter_eq_nil_iff.mpr fun e he => by simpa using fun hkey => hd ⟨e, he, hkey⟩
    rw [filter_append, htable, nil_append]
    have hbest := h.best d hd
    rcases Offer.cheapest_spec (area.offersFor table summaryLSAs d) with
      ⟨hnil, -⟩ | ⟨cost, items, hsome, hcheapest⟩
    · exact absurd hnil hoffers
    · rw [hsome, Option.toList_some, map_eq_singleton_iff] at hbest
      obtain ⟨e, hfilter, hpair⟩ := hbest
      obtain ⟨rfl, rfl⟩ := Prod.mk.inj hpair
      have he : e ∈ added := (mem_filter.mp (hfilter ▸ mem_singleton_self e)).1
      refine ⟨e, hfilter, h.interArea e he, hcheapest.isLeast, fun hop => ?_⟩
      rw [hcheapest.items_eq]
      exact Offer.mem_itemsAt

theorem Clean.perm {summaryLSAs' : List SummaryLSA} (h : area.Clean table summaryLSAs)
    (hperm : summaryLSAs'.Perm summaryLSAs) : area.Clean table summaryLSAs' where
  noWrap l hl := h.noWrap l (hperm.mem_iff.mp hl)
  inactive l hl := h.inactive l (hperm.mem_iff.mp hl)
  entryMask := h.entryMask
  lsaMask l hl := h.lsaMask l (hperm.mem_iff.mp hl)
  borderRouters l hl hskip hnone l' hl' :=
    h.borderRouters l (hperm.mem_iff.mp hl) hskip hnone l' (hperm.mem_iff.mp hl')

/-- Two orders of the LSAs. -/
theorem Holds.sameRoutes {summaryLSAs' : List SummaryLSA} {added' : List RoutingTableEntry}
    (h : Holds area table summaryLSAs added) (h' : Holds area table summaryLSAs' added')
    (hperm : summaryLSAs'.Perm summaryLSAs) : SameRoutes (table ++ added) (table ++ added') := by
  intro d
  rw [filter_append, filter_append]
  by_cases hd : HasEntry table d
  · rw [h.kept d hd, h'.kept d hd]
    exact forall₂_same.mpr fun e _ => ⟨rfl, rfl, .refl _⟩
  · have htable : table.filter (·.key = d) = [] :=
      filter_eq_nil_iff.mpr fun e he => by simpa using fun hkey => hd ⟨e, he, hkey⟩
    have hoffers : (area.offersFor table summaryLSAs d).Perm
        (area.offersFor table summaryLSAs' d) := hperm.symm.filterMap _
    have hbest := h.best d hd
    have hbest' := h'.best d hd
    rw [htable, nil_append, nil_append]
    rcases Offer.cheapest_spec (area.offersFor table summaryLSAs d) with
      ⟨hnil, hnone⟩ | ⟨cost, items, hsome, hcheapest⟩
    · rw [hnil, nil_perm] at hoffers
      rw [hoffers, Offer.cheapest_nil, Option.toList_none, map_eq_nil_iff] at hbest'
      rw [hnone, Option.toList_none, map_eq_nil_iff] at hbest
      rw [hbest, hbest']
      exact .nil
    rcases Offer.cheapest_spec (area.offersFor table summaryLSAs' d) with
      ⟨hnil, -⟩ | ⟨cost', items', hsome', hcheapest'⟩
    · rw [hnil, perm_nil] at hoffers
      rw [hoffers] at hsome
      cases hsome
    · obtain ⟨hcost, hitems⟩ := hcheapest.perm hcheapest' hoffers
      rw [hsome, Option.toList_some, map_eq_singleton_iff] at hbest
      rw [hsome', Option.toList_some, map_eq_singleton_iff] at hbest'
      obtain ⟨e, hfilter, hpair⟩ := hbest
      obtain ⟨e', hfilter', hpair'⟩ := hbest'
      obtain ⟨rfl, rfl⟩ := Prod.mk.inj hpair
      obtain ⟨rfl, rfl⟩ := Prod.mk.inj hpair'
      have he : e ∈ added := (mem_filter.mp (hfilter ▸ mem_singleton_self e)).1
      have he' : e' ∈ added' := (mem_filter.mp (hfilter' ▸ mem_singleton_self e')).1
      rw [hfilter, hfilter']
      exact .cons ⟨(h.interArea e he).trans (h'.interArea e' he').symm, hcost, hitems⟩ .nil

end

/-- The router 10.0.0.1 in the area 1. -/
def exampleArea : Area := ⟨1, 0x0A000001, []⟩

/-- The border routers 10.0.0.2 and 10.0.0.3 at the costs 10 and 20. -/
def exampleTable : List RoutingTableEntry :=
  [{ destination := 0x0A000002, destinationType := ⟨true, false⟩, area := 1, cost := 10,
     nextHops := [⟨1, 0xC0A80002, 0x0A000002⟩] },
   { destination := 0x0A000003, destinationType := ⟨true, false⟩, area := 1, cost := 20,
     nextHops := [⟨2, 0xC0A80003, 0x0A000003⟩] }]

/-- A summary LSA for the network 172.16.0.0/16. -/
def exampleLSA (advertisingRouter : RouterID) (routeCost : ℕ) : SummaryLSA :=
  ⟨⟨1, SUMMARYLSA_NETWORKS_TYPE, 0xAC100000, advertisingRouter, -2147483647⟩, 0xFFFF0000, routeCost⟩

end Area

end Inet.Ospf
