import Inet.Ipv4.RouteMerging

/-!
# Merging two routes

A merge keeps the table consistent and makes it one route shorter (`tryToMergeTwoRoutes_spec`).
In front of the merged route nothing changes but that the two routes are gone. It takes only
original routes of its own color from the routes behind it.
-/

namespace Inet.Ipv4.IPv4NetworkConfigurator

open RoutingTableInfo
open List

variable {T T' P S : RoutingTableInfo} {r x y routeInfoI routeInfoJ M : RouteInfo}
  {o : OriginalRouteInfo} {originals : List OriginalRouteInfo} {i j n : ℕ}

theorem routeInfoLessThan_iff : routeInfoLessThan x y = true ↔
    y.netmask < x.netmask ∨ x.netmask = y.netmask ∧ x.destination < y.destination := by
  rw [routeInfoLessThan]
  by_cases hmask : x.netmask = y.netmask <;> simp [hmask]

theorem routeInfoLessThan_trans (hxy : routeInfoLessThan x y = true)
    (hyr : routeInfoLessThan y r = true) : routeInfoLessThan x r = true := by
  rw [routeInfoLessThan_iff] at hxy hyr ⊢
  simp only [BitVec.lt_def, ← BitVec.toNat_inj] at hxy hyr ⊢
  omega

theorem routeInfoLessThan_asymm (hxy : routeInfoLessThan x y = true) :
    routeInfoLessThan y x = false := by
  rw [← Bool.not_eq_true, routeInfoLessThan_iff]
  rw [routeInfoLessThan_iff] at hxy
  simp only [BitVec.lt_def, ← BitVec.toNat_inj] at hxy ⊢
  omega

theorem sortedBy_addRouteInfo (h : T.SortedBy routeInfoLessThan) :
    (addRouteInfo T r).2.SortedBy routeInfoLessThan :=
  h.insertUpper (fun _ _ _ => routeInfoLessThan_trans) fun _ _ => routeInfoLessThan_asymm

theorem netmask_le_of_sortedBy (h : (x :: T).SortedBy routeInfoLessThan) (hr : r ∈ T) :
    r.netmask ≤ x.netmask := by
  have hnot := (pairwise_cons.mp h).1 r hr
  rw [← Bool.not_eq_true, routeInfoLessThan_iff] at hnot
  simp only [BitVec.lt_def, BitVec.le_def] at hnot ⊢
  omega

theorem SameRoutes.sortedBy (hsame : SameRoutes T T') (h : T.SortedBy routeInfoLessThan) :
    T'.SortedBy routeInfoLessThan := by
  have hskeleton : ∀ L : RoutingTableInfo,
      L.SortedBy routeInfoLessThan ↔ (L.map RouteInfo.skeleton).SortedBy routeInfoLessThan :=
    fun L => by rw [SortedBy, SortedBy, pairwise_map]; rfl
  rw [hskeleton] at h ⊢
  rwa [← hsame]

/-- The network of the route is the longest common prefix of two original networks with its color. -/
def Spanned (originals : List OriginalRouteInfo) (r : RouteInfo) : Prop :=
  ∃ o ∈ originals, ∃ o' ∈ originals, o.color = r.color ∧ o'.color = r.color ∧
    LongestPrefix o.destination o.netmask o'.destination o'.netmask (r.destination, r.netmask)

/-- What holds of the optimizer's table after every merge. -/
structure Consistent (originals : List OriginalRouteInfo) (T : RoutingTableInfo) : Prop where
  sorted : T.SortedBy routeInfoLessThan
  enabled : ∀ r ∈ T, r.enabled = true
  masked : ∀ r ∈ T, r.destination &&& r.netmask = r.destination
  attached : Attached T
  complete : ∀ o ∈ originals, Holds T o
  spanned : ∀ r ∈ T, Spanned originals r

theorem commonPrefix_merged (routeInfoI routeInfoJ : RouteInfo) :
    CommonPrefix routeInfoI.destination routeInfoI.netmask routeInfoJ.destination
      routeInfoJ.netmask (findLongestCommonDestinationPrefix routeInfoI.destination
        routeInfoI.netmask routeInfoJ.destination routeInfoJ.netmask) :=
  findLongestCommonDestinationPrefix_spec

theorem spanned_merged (hI : Spanned originals routeInfoI) (hJ : Spanned originals routeInfoJ)
    (hcolor : routeInfoI.color = routeInfoJ.color) :
    Spanned originals (mergedRouteInfo routeInfoI routeInfoJ) := by
  obtain ⟨o₁, ho₁, o₂, ho₂, hcolor₁, hcolor₂, hA⟩ := hI
  obtain ⟨o₃, ho₃, o₄, ho₄, hcolor₃, hcolor₄, hB⟩ := hJ
  have hM := @longestPrefix_findLongestCommonDestinationPrefix routeInfoI.destination
    routeInfoJ.destination routeInfoI.netmask routeInfoJ.netmask
  obtain h | h | h := hA.merge hB hM
  · rw [← h] at hA
    exact ⟨o₁, ho₁, o₂, ho₂, hcolor₁, hcolor₂, hA⟩
  · rw [← h] at hB
    exact ⟨o₃, ho₃, o₄, ho₄, hcolor₃.trans hcolor.symm, hcolor₄.trans hcolor.symm, hB⟩
  · exact ⟨o₁, ho₁, o₃, ho₃, hcolor₁, hcolor₃.trans hcolor.symm, h⟩

/-- The merged route stands behind the two routes, and behind all routes in front of them. -/
theorem not_routeInfoLessThan_merged (hsorted : (P ++ [routeInfoI]).SortedBy routeInfoLessThan)
    (hmasked : routeInfoI.destination &&& routeInfoI.netmask = routeInfoI.destination)
    (hx : x ∈ P ++ [routeInfoI]) :
    routeInfoLessThan (mergedRouteInfo routeInfoI routeInfoJ) x = false := by
  set M := mergedRouteInfo routeInfoI routeInfoJ
  have hprefix := commonPrefix_merged routeInfoI routeInfoJ
  have hle : M.netmask ≤ routeInfoI.netmask := by
    show (findLongestCommonDestinationPrefix ..).2 ≤ _
    rw [← hprefix.netmask_left]
    exact and_le_right _ _
  have hdest : M.destination = routeInfoI.destination &&& M.netmask := hprefix.destination_left
  have hnot : routeInfoLessThan routeInfoI x = false := by
    obtain hx | hx := mem_append.mp hx
    · exact (pairwise_append.mp hsorted).2.2 x hx routeInfoI (mem_singleton_self _)
    · obtain rfl := mem_singleton.mp hx
      rw [← Bool.not_eq_true, routeInfoLessThan_iff]
      simp
  rw [← Bool.not_eq_true, routeInfoLessThan_iff] at hnot ⊢
  intro hless
  apply hnot
  simp only [BitVec.lt_def, BitVec.le_def, ← BitVec.toNat_inj] at hle hless ⊢
  obtain hless | ⟨heq, hless⟩ := hless
  · left
    omega
  · obtain hlt | heq' := Nat.lt_or_eq_of_le hle
    · left
      omega
    · right
      have hnetmask : M.netmask = routeInfoI.netmask := BitVec.eq_of_toNat_eq heq'
      rw [hnetmask, hmasked] at hdest
      rw [hdest] at hless
      exact ⟨by omega, hless⟩

theorem takes_merged_left
    (h : IPv4Address.maskedAddrAreEqual o.destination routeInfoI.destination routeInfoI.netmask
      = true) : takes (mergedRouteInfo routeInfoI routeInfoJ) o = true := by
  have hprefix := commonPrefix_merged routeInfoI routeInfoJ
  have hmask := maskedAddrAreEqual_of_and hprefix.netmask_left h
  rwa [← hprefix.destination_left] at hmask

theorem takes_merged_right
    (h : IPv4Address.maskedAddrAreEqual o.destination routeInfoJ.destination routeInfoJ.netmask
      = true) : takes (mergedRouteInfo routeInfoI routeInfoJ) o = true := by
  have hprefix := commonPrefix_merged routeInfoI routeInfoJ
  have hmask := maskedAddrAreEqual_of_and hprefix.netmask_right h
  rwa [← hprefix.destination_right] at hmask

/-- Taking out a disabled route. -/
theorem eraseIdx_disabled (h : SameRoutes T (P ++ y :: S)) (hn : P.length = n)
    (hy : y.enabled = false) :
    SameRoutes (T.eraseIdx n) (P ++ S) ∧ ∀ o, Holds T o → Holds (T.eraseIdx n) o := by
  obtain ⟨P', y', S', rfl, hP, hy', hS⟩ := h.exists_append_cons
  rw [eraseIdx_append_cons (hP.length_eq.trans hn)]
  rw [SameRoutes] at hP hS
  constructor
  · rw [SameRoutes, map_append, map_append, hP, hS]
  · rintro o ⟨r, hr, henabled, ho⟩
    obtain hr | rfl | hr := mem_append.mp hr |>.imp_right mem_cons.mp
    · exact ⟨r, mem_append_left _ hr, henabled, ho⟩
    · rw [← skeleton_enabled, hy', skeleton_enabled, hy] at henabled
      cases henabled
    · exact ⟨r, mem_append_right _ hr, henabled, ho⟩

/-- Switching a route off. -/
def RouteInfo.disable (r : RouteInfo) : RouteInfo := { r with enabled := false }

variable {A B C D : RoutingTableInfo} {m : ℕ}

/-- The table in which `tryToMergeTwoRoutes` tests the merge. -/
def mergeTable (A B C D : RoutingTableInfo) (routeInfoI routeInfoJ : RouteInfo) :
    RoutingTableInfo :=
  A ++ routeInfoJ.disable :: (B ++ routeInfoI.disable ::
    (C ++ mergedRouteInfo routeInfoI routeInfoJ :: D))

theorem mergeTable_eq_front_j : mergeTable A B C D routeInfoI routeInfoJ =
    (A ++ [routeInfoJ.disable]) ++ (B ++ routeInfoI.disable ::
      (C ++ mergedRouteInfo routeInfoI routeInfoJ :: D)) := by
  simp [mergeTable]

theorem mergeTable_eq_front_i : mergeTable A B C D routeInfoI routeInfoJ =
    (A ++ routeInfoJ.disable :: (B ++ [routeInfoI.disable])) ++
      (C ++ mergedRouteInfo routeInfoI routeInfoJ :: D) := by
  simp [mergeTable]

theorem mergeTable_eq_front_m : mergeTable A B C D routeInfoI routeInfoJ =
    (A ++ routeInfoJ.disable :: (B ++ routeInfoI.disable :: C)) ++
      mergedRouteInfo routeInfoI routeInfoJ :: D := by
  simp [mergeTable]

theorem length_front_j (hA : A.length = j) : (A ++ [routeInfoJ.disable]).length = j + 1 := by
  rw [length_append, hA, length_singleton]

section

variable (hAB : (A ++ routeInfoJ :: B).length = i)

include hAB

theorem length_front_i :
    (A ++ routeInfoJ.disable :: (B ++ [routeInfoI.disable])).length = i + 1 := by
  simp only [length_append, length_cons, length_nil] at hAB ⊢
  omega

theorem length_front_m :
    (A ++ routeInfoJ.disable :: (B ++ routeInfoI.disable :: C)).length = i + 1 + C.length := by
  simp only [length_append, length_cons] at hAB ⊢
  omega

/-- The table up to the merged route. -/
theorem take_mergeTable : (mergeTable A B C D routeInfoI routeInfoJ).take (i + 1 + C.length + 1) =
      (A ++ routeInfoJ.disable :: (B ++ routeInfoI.disable :: C)) ++
        [mergedRouteInfo routeInfoI routeInfoJ] := by
  rw [mergeTable_eq_front_m, append_cons]
  refine take_left' ?_
  rw [length_append, length_singleton, length_front_m hAB]

/-- The table behind the merged route. -/
theorem drop_mergeTable :
    (mergeTable A B C D routeInfoI routeInfoJ).drop (i + 1 + C.length + 1) = D := by
  rw [mergeTable_eq_front_m, append_cons]
  refine drop_left' ?_
  rw [length_append, length_singleton, length_front_m hAB]

end

theorem addRouteInfo_mergedRouteInfo (h : Consistent originals T) (hi : T[i]? = some routeInfoI)
    (hj : T[j]? = some routeInfoJ) (hji : j < i) :
    ∃ A B C D, T = A ++ routeInfoJ :: (B ++ routeInfoI :: (C ++ D)) ∧ A.length = j ∧
      (A ++ routeInfoJ :: B).length = i ∧
      addRouteInfo (setEnabled false j (setEnabled false i T))
        (mergedRouteInfo routeInfoI routeInfoJ) =
          (i + 1 + C.length, mergeTable A B C D routeInfoI routeInfoJ) ∧
      (A ++ (B ++ (C ++ mergedRouteInfo routeInfoI routeInfoJ :: D))).SortedBy
        routeInfoLessThan := by
  obtain ⟨A, B, E, rfl, hA, hAB⟩ := exists_append_cons_append_cons hji hj hi
  set M := mergedRouteInfo routeInfoI routeInfoJ
  have hsorted : ((A ++ routeInfoJ :: B) ++ [routeInfoI]).SortedBy routeInfoLessThan :=
    h.sorted.sublist (by simp)
  have hnot : ∀ x ∈ (A ++ routeInfoJ :: B) ++ [routeInfoI], routeInfoLessThan M x = false :=
    fun x hx => not_routeInfoLessThan_merged hsorted (h.masked _ (by simp)) hx
  refine ⟨A, B, E.takeWhile fun b => !routeInfoLessThan M b,
    E.dropWhile fun b => !routeInfoLessThan M b, by rw [takeWhile_append_dropWhile], hA, hAB,
    ?_, ?_⟩
  · have hdisabled : setEnabled false j (setEnabled false i
        (A ++ routeInfoJ :: (B ++ routeInfoI :: E))) =
        (A ++ routeInfoJ.disable :: (B ++ [routeInfoI.disable])) ++ E := by
      rw [setEnabled, setEnabled, ← cons_append, ← append_assoc,
        modify_append_cons _ hAB, append_assoc, cons_append,
        modify_append_cons _ hA]
      simp [RouteInfo.disable]
    have hnot' : ∀ x ∈ A ++ routeInfoJ.disable :: (B ++ [routeInfoI.disable]),
        routeInfoLessThan M x = false := by
      intro x hx
      simp only [mem_append, mem_cons, not_mem_nil, or_false] at hx
      obtain hx | rfl | hx | rfl := hx
      · exact hnot x (by simp [hx])
      · exact hnot routeInfoJ (by simp)
      · exact hnot x (by simp [hx])
      · exact hnot routeInfoI (by simp)
    rw [hdisabled, addRouteInfo, insertUpper_append hnot',
      takeWhile_append_of_pos fun x hx => by rw [hnot' x hx, Bool.not_false]]
    refine Prod.ext ?_ ?_
    · simp only [length_append, length_cons, length_nil] at hAB ⊢
      omega
    · simp only [mergeTable, insertUpper, append_assoc, cons_append, nil_append]
      rfl
  · have hfront : ∀ x ∈ A ++ B, routeInfoLessThan M x = false := by
      intro x hx
      apply hnot
      obtain hx | hx := mem_append.mp hx
      · simp [hx]
      · simp [hx]
    have hrest : A ++ (B ++ ((E.takeWhile fun b => !routeInfoLessThan M b) ++
        M :: E.dropWhile fun b => !routeInfoLessThan M b)) =
        (addRouteInfo ((A ++ B) ++ E) M).2 := by
      show _ = ((A ++ B) ++ E).insertUpper routeInfoLessThan M
      rw [insertUpper_append hfront, append_assoc]
      rfl
    rw [hrest]
    apply sortedBy_addRouteInfo
    exact h.sorted.sublist (by simp)

theorem bestColor_append (dest : IPv4Address) :
    bestColor (P ++ S) dest = (bestColor P dest).or (bestColor S dest) := by
  rw [bestColor, find?_append, bestColor, bestColor]
  cases P.find? (·.matchesDestination dest) <;> rfl

theorem bestColor_disable_cons (dest : IPv4Address) :
    bestColor (r.disable :: S) dest = bestColor S dest := rfl

theorem bestColor_merged (dest : IPv4Address)
    (h : IPv4Address.maskedAddrAreEqual dest (mergedRouteInfo routeInfoI routeInfoJ).destination
      (mergedRouteInfo routeInfoI routeInfoJ).netmask = true) :
    bestColor [mergedRouteInfo routeInfoI routeInfoJ] dest = some routeInfoI.color := by
  rw [bestColor, find?_cons_of_pos (by rw [RouteInfo.matchesDestination, h]; rfl)]
  rfl

/-- What the tests before a merge find out. -/
theorem canBeMerged_spec (hA : A.length = j) (hAB : (A ++ routeInfoJ :: B).length = i)
    (h : canBeMerged (mergeTable A B C D routeInfoI routeInfoJ) i j (i + 1 + C.length)
      routeInfoI routeInfoJ = true) :
    (∀ o ∈ routeInfoJ.originalRouteInfos,
      ∀ color ∈ (bestColor B o.destination).or (bestColor C o.destination), color = o.color) ∧
    (∀ o ∈ routeInfoI.originalRouteInfos, ∀ color ∈ bestColor C o.destination, color = o.color) ∧
    (∀ r ∈ D, ∀ o ∈ r.originalRouteInfos,
      takes (mergedRouteInfo routeInfoI routeInfoJ) o = true → routeInfoI.color = o.color) := by
  set M := mergedRouteInfo routeInfoI routeInfoJ with hM
  simp only [canBeMerged, Bool.and_eq_true, Bool.not_eq_true'] at h
  obtain ⟨⟨⟨hJB, hJC⟩, hIC⟩, hD⟩ := h
  have hlenB : j + 1 + B.length = i := by
    rw [← hAB, length_append, length_cons, hA]
    omega
  have hbestC : ∀ os : List OriginalRouteInfo,
      interruptsAnyOriginalRoute (mergeTable A B C D routeInfoI routeInfoJ) (i + 1)
        (i + 1 + C.length) os = false →
      ∀ o ∈ os, ∀ color ∈ bestColor C o.destination, color = o.color := by
    intro os hos
    rw [mergeTable_eq_front_i] at hos
    exact bestColor_of_not_interruptsAnyOriginalRoute (length_front_i hAB) rfl hos
  refine ⟨fun o ho color hcolor => ?_, hbestC _ hIC, fun r hr o ho htakes => ?_⟩
  · rw [mergeTable_eq_front_j] at hJB
    have hbestB :=
      bestColor_of_not_interruptsAnyOriginalRoute (length_front_j hA) hlenB hJB o ho
    cases hB : bestColor B o.destination with
    | none =>
      rw [hB, Option.none_or] at hcolor
      exact hbestC _ hJC o ho color hcolor
    | some c =>
      rw [hB, Option.some_or] at hcolor
      exact hbestB color (hB ▸ hcolor)
  · rw [interruptsSubsequentOriginalRoutes, drop_mergeTable hAB, any_eq_false] at hD
    have hr' := Bool.eq_false_iff.mpr (hD r hr)
    have hshape : mergeTable A B C D routeInfoI routeInfoJ =
        (A ++ routeInfoJ.disable :: (B ++ routeInfoI.disable :: C)) ++ ([M] ++ D) :=
      mergeTable_eq_front_m
    rw [hshape] at hr'
    have hbestM :=
      bestColor_of_not_interruptsAnyOriginalRoute (length_front_m hAB) rfl hr' o ho
    exact hbestM _ (bestColor_merged _ htakes)

/-- The original routes of the merged routes may be moved to the routes that capture them. -/
theorem captured_of_canBeMerged
    (hattached : Attached (A ++ routeInfoJ :: (B ++ routeInfoI :: (C ++ D))))
    (hA : A.length = j) (hAB : (A ++ routeInfoJ :: B).length = i)
    (hcolor : routeInfoI.color = routeInfoJ.color)
    (h : canBeMerged (mergeTable A B C D routeInfoI routeInfoJ) i j (i + 1 + C.length)
      routeInfoI routeInfoJ = true) :
    (∀ o ∈ routeInfoI.originalRouteInfos, Captured (mergeTable A B C D routeInfoI routeInfoJ)
      (i + 1) (i + 1 + C.length + 1) o) ∧
    (∀ o ∈ routeInfoJ.originalRouteInfos, Captured (mergeTable A B C D routeInfoI routeInfoJ)
      (j + 1) (i + 1 + C.length + 1) o) := by
  set M := mergedRouteInfo routeInfoI routeInfoJ with hM
  obtain ⟨hJ, hI, -⟩ := canBeMerged_spec hA hAB h
  have htake : (mergeTable A B C D routeInfoI routeInfoJ).take (i + 1 + C.length + 1) =
      A ++ routeInfoJ.disable :: (B ++ routeInfoI.disable :: (C ++ [M])) := by
    rw [take_mergeTable hAB]
    simp [hM]
  obtain ⟨-, hpairs, hcrossA⟩ := pairwise_append.mp hattached.undisturbed
  have hcrossB := (pairwise_append.mp (pairwise_cons.mp hpairs).2).2.2
  have hnone : ∀ r : RouteInfo, ∀ dest, ¬ r.disable.matchesDestination dest = true :=
    fun r dest h => Bool.false_ne_true h
  refine ⟨fun o ho => ⟨?_, ?_⟩, fun o ho => ⟨?_, ?_⟩⟩
  · obtain ⟨hown, hown'⟩ := hattached.own routeInfoI (by simp) o ho
    have hdrop : (A ++ routeInfoJ.disable :: (B ++ routeInfoI.disable :: (C ++ [M]))).drop
        (i + 1) = C ++ [M] := by
      rw [show A ++ routeInfoJ.disable :: (B ++ routeInfoI.disable :: (C ++ [M])) =
        (A ++ routeInfoJ.disable :: (B ++ [routeInfoI.disable])) ++ (C ++ [M]) by simp]
      exact drop_left' (length_front_i hAB)
    rw [htake, hdrop, bestColor_append, bestColor_merged _ (takes_merged_left hown), hown']
    have hbest := hI o ho
    cases hC : bestColor C o.destination with
    | none => rfl
    | some c => rw [hbest c hC, Option.some_or]
  · rw [mergeTable_eq_front_i, take_left' (length_front_i hAB)]
    intro x hx hmatch
    simp only [mem_append, mem_cons, not_mem_nil, or_false] at hx
    obtain hx | rfl | hx | rfl := hx
    · exact hcrossA x hx routeInfoI (by simp) o ho hmatch
    · exact absurd hmatch (hnone _ _)
    · exact hcrossB x hx routeInfoI (by simp) o ho hmatch
    · exact absurd hmatch (hnone _ _)
  · obtain ⟨hown, hown'⟩ := hattached.own routeInfoJ (by simp) o ho
    have hdrop : (A ++ routeInfoJ.disable :: (B ++ routeInfoI.disable :: (C ++ [M]))).drop
        (j + 1) = B ++ routeInfoI.disable :: (C ++ [M]) := by
      rw [show A ++ routeInfoJ.disable :: (B ++ routeInfoI.disable :: (C ++ [M])) =
        (A ++ [routeInfoJ.disable]) ++ (B ++ routeInfoI.disable :: (C ++ [M])) by simp]
      exact drop_left' (length_front_j hA)
    rw [htake, hdrop, bestColor_append, bestColor_disable_cons, bestColor_append,
      bestColor_merged _ (takes_merged_right hown), hcolor, hown', ← Option.or_assoc]
    have hbest := hJ o ho
    cases hBC : (bestColor B o.destination).or (bestColor C o.destination) with
    | none => rfl
    | some c => rw [hbest c hBC, Option.some_or]
  · rw [mergeTable_eq_front_j, take_left' (length_front_j hA)]
    intro x hx hmatch
    simp only [mem_append, mem_cons, not_mem_nil, or_false] at hx
    obtain hx | rfl := hx
    · exact hcrossA x hx routeInfoJ (by simp) o ho hmatch
    · exact absurd hmatch (hnone _ _)

/-- The table with the merged route, before original routes are moved. -/
theorem attached_mergeTable
    (hattached : Attached (A ++ routeInfoJ :: (B ++ routeInfoI :: (C ++ D))))
    (hafter : ∀ r ∈ D, ∀ o ∈ r.originalRouteInfos,
      takes (mergedRouteInfo routeInfoI routeInfoJ) o = true → routeInfoI.color = o.color) :
    Attached (mergeTable A B C D routeInfoI routeInfoJ) := by
  have hJ : Attached (A ++ routeInfoJ.disable :: (B ++ routeInfoI :: (C ++ D))) :=
    hattached.disable
  have hI : Attached ((A ++ routeInfoJ.disable :: B) ++ routeInfoI.disable :: (C ++ D)) := by
    apply Attached.disable
    rwa [append_assoc, cons_append]
  have hM : Attached ((A ++ routeInfoJ.disable :: (B ++ routeInfoI.disable :: C)) ++
      mergedRouteInfo routeInfoI routeInfoJ :: D) := by
    refine Attached.insert (by simpa using hI) rfl fun r hr o ho hmatch => ?_
    exact hafter r hr o ho ((Bool.and_eq_true _ _).mp hmatch).2
  simpa [mergeTable] using hM

theorem moveFollowingOriginalRouteInfos_mergeTable (hAB : (A ++ routeInfoJ :: B).length = i)
    (hsame : SameRoutes (mergeTable A B C D routeInfoI routeInfoJ) T) (hattached : Attached T) :
    ∃ T', moveFollowingOriginalRouteInfos T (i + 1 + C.length) = .ok T' ∧ SameRoutes T T' ∧
      Attached T' ∧ ∀ o, Holds T o → Holds T' o := by
  rw [mergeTable_eq_front_m] at hsame
  obtain ⟨P, M, D', rfl, hP, hM, -⟩ := hsame.symm.exists_append_cons
  have henabled : M.enabled = true := by
    rw [← skeleton_enabled, hM]
    rfl
  refine moveFollowingOriginalRouteInfos_spec hattached ?_ henabled fun r hr o ho htakes => ?_
  · have hlen := SameRoutes.length_eq hP
    simp only [length_append, length_cons] at hlen hAB
    omega
  · -- the merged route stands in front of the following ones
    obtain ⟨-, hpairs, -⟩ := pairwise_append.mp hattached.undisturbed
    refine (pairwise_cons.mp hpairs).1 r hr o ho ?_
    rw [RouteInfo.matchesDestination, henabled]
    exact htakes

/-- A merge that is given up leaves the table as it was. -/
theorem setEnabled_mergeTable (hA : A.length = j) (hAB : (A ++ routeInfoJ :: B).length = i)
    (hI : routeInfoI.enabled = true) (hJ : routeInfoJ.enabled = true) :
    (setEnabled true j (setEnabled true i (mergeTable A B C D routeInfoI routeInfoJ))).eraseIdx
      (i + 1 + C.length) = A ++ routeInfoJ :: (B ++ routeInfoI :: (C ++ D)) := by
  have henable : ∀ r : RouteInfo, r.enabled = true → { r.disable with enabled := true } = r := by
    intro r hr
    cases r
    cases hr
    rfl
  have hshape : mergeTable A B C D routeInfoI routeInfoJ =
      (A ++ routeInfoJ.disable :: B) ++ routeInfoI.disable ::
        (C ++ mergedRouteInfo routeInfoI routeInfoJ :: D) := by
    simp [mergeTable]
  have hlen : (A ++ routeInfoJ.disable :: B).length = i := by
    rw [← hAB, length_append, length_append]
    rfl
  rw [hshape, setEnabled, setEnabled, modify_append_cons _ hlen, henable _ hI,
    append_assoc, cons_append, modify_append_cons _ hA, henable _ hJ]
  have hlenM : (A ++ routeInfoJ :: (B ++ routeInfoI :: C)).length = i + 1 + C.length := by
    simp only [length_append, length_cons] at hAB ⊢
    omega
  have herase : ((A ++ routeInfoJ :: (B ++ routeInfoI :: C)) ++
      mergedRouteInfo routeInfoI routeInfoJ :: D).eraseIdx (i + 1 + C.length) =
      (A ++ routeInfoJ :: (B ++ routeInfoI :: C)) ++ D := eraseIdx_append_cons hlenM
  simpa using herase

theorem tryToMergeTwoRoutes_spec (h : Consistent originals T) (hi : T[i]? = some routeInfoI)
    (hj : T[j]? = some routeInfoJ) (hji : j < i) (hcolor : routeInfoI.color = routeInfoJ.color) :
    tryToMergeTwoRoutes T i j routeInfoI routeInfoJ = .ok (false, T) ∨
    ∃ T', tryToMergeTwoRoutes T i j routeInfoI routeInfoJ = .ok (true, T') ∧
      Consistent originals T' ∧ T'.length + 1 = T.length := by
  obtain ⟨A, B, C, D, rfl, hA, hAB, hadd, hsorted⟩ := addRouteInfo_mergedRouteInfo h hi hj hji
  set M := mergedRouteInfo routeInfoI routeInfoJ with hM
  set L := mergeTable A B C D routeInfoI routeInfoJ with hL
  set m := i + 1 + C.length
  rw [tryToMergeTwoRoutes]
  simp only [← hM, hadd]
  rw [assert_of (by rw [Bool.and_eq_true, decide_eq_true_eq, decide_eq_true_eq]; omega), ok_bind]
  by_cases hcan : canBeMerged L i j m routeInfoI routeInfoJ = true
  · rw [if_pos hcan]
    right
    obtain ⟨hcapturedI, hcapturedJ⟩ := captured_of_canBeMerged h.attached hA hAB hcolor hcan
    obtain ⟨-, -, hafter⟩ := canBeMerged_spec hA hAB hcan
    have hattached := attached_mergeTable h.attached hafter
    obtain ⟨T₁, hT₁, hsame₁, hattached₁, hholdsI, hkeeps₁⟩ :=
      addOriginalRouteInfos_spec hattached hcapturedI
    obtain ⟨T₂, hT₂, hsame₂, hattached₂, hholdsJ, hkeeps₂⟩ :=
      addOriginalRouteInfos_spec hattached₁ fun o ho => (hcapturedJ o ho).of_sameRoutes hsame₁
    obtain ⟨T₃, hT₃, hsame₃, hattached₃, hkeeps₃⟩ :=
      moveFollowingOriginalRouteInfos_mergeTable hAB (hsame₁.trans hsame₂) hattached₂
    obtain ⟨hsame₄, hkeeps₄⟩ := eraseIdx_disabled (P := A ++ routeInfoJ.disable :: B)
      (y := routeInfoI.disable) (S := C ++ M :: D) (n := i)
      (((hsame₁.trans hsame₂).trans hsame₃).symm.trans (by simp [mergeTable, hM, SameRoutes]))
      (by simpa using hAB) rfl
    obtain ⟨hsame₅, hkeeps₅⟩ := eraseIdx_disabled (P := A) (y := routeInfoJ.disable)
      (S := B ++ (C ++ M :: D)) (n := j) (hsame₄.trans (by simp [SameRoutes])) hA rfl
    have hkeeps : ∀ o, Holds T₁ o → Holds ((T₃.eraseIdx i).eraseIdx j) o :=
      fun o ho => hkeeps₅ o (hkeeps₄ o (hkeeps₃ o (hkeeps₂ o ho)))
    have hmem : ∀ {p : RouteInfo → Prop}, (∀ x ∈ A ++ routeInfoJ :: (B ++ routeInfoI :: (C ++ D)),
        p x.skeleton) → p M.skeleton → ∀ x ∈ (T₃.eraseIdx i).eraseIdx j, p x.skeleton := by
      intro p hall hM
      refine hsame₅.symm.forall fun x hx => ?_
      simp only [mem_append, mem_cons] at hx
      obtain hx | hx | hx | rfl | hx := hx
      · exact hall x (by simp [hx])
      · exact hall x (by simp [hx])
      · exact hall x (by simp [hx])
      · exact hM
      · exact hall x (by simp [hx])
    refine ⟨(T₃.eraseIdx i).eraseIdx j, ?_, ⟨?_, ?_, ?_, ?_, ?_, ?_⟩, ?_⟩
    · rw [hT₁, ok_bind, hT₂, ok_bind, hT₃, ok_bind]
    · exact hsame₅.symm.sortedBy hsorted
    · exact hmem (p := fun x => x.enabled = true) h.enabled rfl
    · refine hmem (p := fun x => x.destination &&& x.netmask = x.destination) h.masked ?_
      show M.destination &&& M.netmask = M.destination
      have hdest : M.destination = routeInfoI.destination &&& M.netmask :=
        findLongestCommonDestinationPrefix_spec.destination_left
      rw [hdest, BitVec.and_assoc, BitVec.and_self]
    · exact (hattached₃.sublist (eraseIdx_sublist ..)).sublist (eraseIdx_sublist ..)
    · intro o ho
      obtain ⟨r, hr, henabled, hor⟩ := h.complete o ho
      have hheld : r ∈ A ++ (B ++ (C ++ D)) → Holds T₁ o := by
        refine fun hr => hkeeps₁ o ⟨r, ?_, henabled, hor⟩
        simp only [mem_append] at hr
        simp only [mergeTable, mem_append, mem_cons]
        tauto
      simp only [mem_append, mem_cons] at hr
      obtain hr | rfl | hr | rfl | hr | hr := hr
      · exact hkeeps o (hheld (by simp [hr]))
      · exact hkeeps₅ o (hkeeps₄ o (hkeeps₃ o (hholdsJ o hor)))
      · exact hkeeps o (hheld (by simp [hr]))
      · exact hkeeps o (hholdsI o hor)
      · exact hkeeps o (hheld (by simp [hr]))
      · exact hkeeps o (hheld (by simp [hr]))
    · exact hmem (p := Spanned originals) h.spanned
        (spanned_merged (h.spanned routeInfoI (by simp)) (h.spanned routeInfoJ (by simp)) hcolor)
    · have hlen := hsame₅.length_eq
      simp only [length_append, length_cons] at hlen ⊢
      omega
  · rw [if_neg hcan]
    left
    rw [setEnabled_mergeTable hA hAB (h.enabled _ (by simp)) (h.enabled _ (by simp))]

end Inet.Ipv4.IPv4NetworkConfigurator
