import Inet.Ipv4.OptimizedRoutes

/-!
# The bookkeeping of the route optimizer

Every round of the optimizer keeps the list of original routes that are attached to the table: a
merge moves them, each from one route to another (`attachedInfos`). An original route is attached to
a route that matches it and has its color. That route need not be the first one that matches, as the
table starts with each original route at its own copy; but if it is so in the first table, it is so
in all of them (`FirstMatching`).
-/

namespace Inet.Ipv4.IPv4NetworkConfigurator

open RoutingTableInfo
open List hiding getElem?_eq_some_iff

variable {T T' P S D : RoutingTableInfo} {x y r M routeInfoI routeInfoJ : RouteInfo}
  {o : OriginalRouteInfo} {os originals : List OriginalRouteInfo} {begin last i j m n : ℕ}

/-- The original routes of all enabled routes. -/
def attachedInfos (T : RoutingTableInfo) : List OriginalRouteInfo :=
  (T.filter (·.enabled)).flatMap (·.originalRouteInfos)

@[simp] theorem attachedInfos_append :
    attachedInfos (P ++ S) = attachedInfos P ++ attachedInfos S := by
  rw [attachedInfos, filter_append, flatMap_append]
  rfl

theorem attachedInfos_cons : attachedInfos (y :: S) =
      (if y.enabled then y.originalRouteInfos else []) ++ attachedInfos S := by
  cases hy : y.enabled with
  | true => simp [attachedInfos, hy]
  | false => simp [attachedInfos, hy]

theorem attachedInfos_of_enabled (h : ∀ r ∈ T, r.enabled = true) :
    attachedInfos T = T.flatMap (·.originalRouteInfos) := by
  rw [attachedInfos, filter_eq_self.mpr h]

theorem attachedInfos_push (hy : y.enabled = true) :
    (attachedInfos (P ++ y.push o :: S)).Perm (o :: attachedInfos (P ++ y :: S)) := by
  rw [attachedInfos_append, attachedInfos_append, attachedInfos_cons, attachedInfos_cons,
    push_enabled, if_pos hy, if_pos hy, push_originalRouteInfos]
  rw [append_assoc, singleton_append]
  have hcons : (y.originalRouteInfos ++ o :: attachedInfos S).Perm
      (o :: (y.originalRouteInfos ++ attachedInfos S)) := perm_middle
  exact (hcons.append_left _).trans perm_middle

/-- Taking out a disabled route. -/
theorem attachedInfos_eraseIdx (h : SameRoutes T (P ++ y :: S)) (hn : P.length = n)
    (hy : y.enabled = false) : attachedInfos (T.eraseIdx n) = attachedInfos T := by
  obtain ⟨P', y', S', rfl, hP, hy', -⟩ := h.exists_append_cons
  have hdisabled : y'.enabled = false := by
    rw [← skeleton_enabled, hy', skeleton_enabled, hy]
  rw [eraseIdx_append_cons (hP.length_eq.trans hn), attachedInfos_append, attachedInfos_append,
    attachedInfos_cons, hdisabled]
  rfl

/-- Every original route is attached to the first route that matches it. -/
def FirstMatching (T : RoutingTableInfo) : Prop :=
  T.Pairwise fun x r => ∀ o ∈ r.originalRouteInfos, x.matchesDestination o.destination = false
deriving Decidable

theorem FirstMatching.disable (h : FirstMatching (P ++ y :: S)) :
    FirstMatching (P ++ y.disable :: S) := by
  obtain ⟨hP, hS, hPS⟩ := pairwise_append.mp h
  obtain ⟨-, hS⟩ := pairwise_cons.mp hS
  refine pairwise_append.mpr
    ⟨hP, pairwise_cons.mpr ⟨fun _ _ _ _ => rfl, hS⟩, fun x hx r hr => ?_⟩
  obtain rfl | hr := mem_cons.mp hr
  · exact hPS x hx y mem_cons_self
  · exact hPS x hx r (mem_cons_of_mem _ hr)

theorem FirstMatching.push (h : FirstMatching (P ++ y :: S))
    (hbefore : ∀ x ∈ P, x.matchesDestination o.destination = false) :
    FirstMatching (P ++ y.push o :: S) := by
  obtain ⟨hP, hS, hPS⟩ := pairwise_append.mp h
  obtain ⟨hyS, hS⟩ := pairwise_cons.mp hS
  refine pairwise_append.mpr ⟨hP, pairwise_cons.mpr ⟨hyS, hS⟩, fun x hx r hr => ?_⟩
  obtain rfl | hr := mem_cons.mp hr
  · intro o' ho'
    obtain ho' | ho' := mem_append.mp ho'
    · exact hPS x hx y mem_cons_self o' ho'
    · obtain rfl := mem_singleton.mp ho'
      exact hbefore x hx
  · exact hPS x hx r (mem_cons_of_mem _ hr)

/-- Everything that attaching an original route can do: it goes to the first route in the part of
the table that matches it. -/
structure Adds (begin last : ℕ) (o : OriginalRouteInfo) (T T' : RoutingTableInfo)
    (P : RoutingTableInfo) (y : RouteInfo) (S : RoutingTableInfo) : Prop where
  before : T = P ++ y :: S
  after : T' = P ++ y.push o :: S
  lt : P.length < last
  matching : y.matchesDestination o.destination = true
  first : ∀ x ∈ P.drop begin, x.matchesDestination o.destination = false

theorem addOriginalRouteInfo_cases (h : addOriginalRouteInfo begin last T o = .ok T') :
    ∃ P y S, Adds begin last o T T' P y S := by
  rw [addOriginalRouteInfo] at h
  obtain ⟨_, hassert, hmodify⟩ := bind_eq_ok.mp h
  rw [assert_eq_ok] at hassert
  cases hfind : findBestMatchingRouteInfo T o.destination begin last with
  | none =>
    rw [hfind] at hassert
    cases hassert
  | some index =>
    rw [hfind, Option.bind_some] at hassert
    rw [hfind, Option.getD_some] at hmodify
    rw [findBestMatchingRouteInfo, List.find?_range'_eq_some] at hfind
    obtain ⟨hmatch, hindex, hbefore⟩ := hfind
    obtain ⟨y, hy, -⟩ := (Option.any_eq_true _ _).mp hassert
    obtain ⟨hlt, rfl⟩ := List.getElem?_eq_some_iff.mp hy
    have hsplit : T = T.take index ++ T[index] :: T.drop (index + 1) := by
      rw [← List.drop_eq_getElem_cons hlt, List.take_append_drop]
    have hlen : (T.take index).length = index := by
      rw [List.length_take]
      omega
    refine ⟨T.take index, T[index], T.drop (index + 1), hsplit, ?_, ?_, ?_, ?_⟩
    · rw [← Except.ok.inj hmodify]
      conv_lhs => rw [hsplit]
      exact List.modify_append_cons _ hlen
    · rw [hlen]
      have hrange := List.mem_range'_1.mp hindex
      omega
    · simpa [hy] using hmatch
    · intro x hx
      obtain ⟨k, hk, rfl⟩ := List.getElem_of_mem hx
      have hk' : begin + k < index := by
        rw [List.length_drop, hlen] at hk
        omega
      have hno := hbefore (begin + k) (Nat.le_add_right _ _) hk'
      rw [List.getElem_drop, List.getElem_take]
      simpa [List.getElem?_eq_getElem (hk'.trans hlt)] using hno

namespace Adds

variable (h : Adds begin last o T T' P y S)
include h

theorem sameRoutes : SameRoutes T T' := by
  rw [h.before, h.after]
  exact SameRoutes.push.symm

theorem attachedInfos_perm : (attachedInfos T').Perm (o :: attachedInfos T) := by
  rw [h.before, h.after]
  exact attachedInfos_push (Bool.and_eq_true_iff.mp h.matching).1

theorem drop_eq : T'.drop last = T.drop last := by
  have hdrop : ∀ z : RouteInfo, (P ++ z :: S).drop last = S.drop (last - P.length - 1) := by
    intro z
    have hlt := h.lt
    rw [drop_append, drop_eq_nil_of_le hlt.le, nil_append,
      show last - P.length = last - P.length - 1 + 1 by omega, drop_succ_cons]
    rfl
  rw [h.before, h.after, hdrop, hdrop]

theorem firstMatching (hfirst : FirstMatching (T.take last))
    (hbefore : ∀ x ∈ T.take begin, x.matchesDestination o.destination = false) :
    FirstMatching (T'.take last) := by
  have htake : ∀ z : RouteInfo,
      (P ++ z :: S).take last = P ++ z :: S.take (last - P.length - 1) := by
    intro z
    have hlt := h.lt
    rw [take_append, take_of_length_le hlt.le,
      show last - P.length = last - P.length - 1 + 1 by omega, take_succ_cons]
    rfl
  rw [h.before, htake] at hfirst
  rw [h.after, htake]
  refine hfirst.push fun x hx => ?_
  rw [← take_append_drop begin P, mem_append] at hx
  obtain hx | hx := hx
  · refine hbefore x ?_
    rw [h.before, take_append]
    exact mem_append_left _ hx
  · exact h.first x hx

end Adds

/-- What attaching several original routes keeps. -/
structure Keeps (begin last : ℕ) (os : List OriginalRouteInfo) (T T' : RoutingTableInfo) :
    Prop where
  sameRoutes : SameRoutes T T'
  attachedInfos_perm : (attachedInfos T').Perm (os ++ attachedInfos T)
  drop_eq : T'.drop last = T.drop last
  firstMatching : FirstMatching (T.take last) →
    (∀ o ∈ os, ∀ x ∈ T.take begin, x.matchesDestination o.destination = false) →
      FirstMatching (T'.take last)

theorem keeps_of_addOriginalRouteInfos (h : addOriginalRouteInfos T begin last os = .ok T') :
    Keeps begin last os T T' := by
  induction os generalizing T with
  | nil =>
    cases h
    exact ⟨rfl, .refl _, rfl, fun hfirst _ => hfirst⟩
  | cons o os ih =>
    rw [addOriginalRouteInfos, foldlM_cons] at h
    obtain ⟨T₁, hadd, hrest⟩ := bind_eq_ok.mp h
    obtain ⟨P, y, S, hadds⟩ := addOriginalRouteInfo_cases hadd
    have hkeeps := ih hrest
    refine ⟨hadds.sameRoutes.trans hkeeps.sameRoutes, ?_, hkeeps.drop_eq.trans hadds.drop_eq,
      fun hfirst hbefore => ?_⟩
    · refine hkeeps.attachedInfos_perm.trans ?_
      exact (hadds.attachedInfos_perm.append_left os).trans perm_middle
    · refine hkeeps.firstMatching
        (hadds.firstMatching hfirst (hbefore o mem_cons_self)) fun o' ho' => ?_
      exact (hadds.sameRoutes.take begin).forall
        (p := fun x => x.matchesDestination o'.destination = false)
        (hbefore o' (mem_cons_of_mem _ ho'))

theorem splitOriginalRouteInfos_of_ok {kept moved : List OriginalRouteInfo}
    (h : splitOriginalRouteInfos M os = .ok (kept, moved)) :
    kept = os.filter (fun o => !takes M o) ∧ moved = os.filter (takes M) := by
  induction os generalizing kept moved with
  | nil =>
    cases h
    exact ⟨rfl, rfl⟩
  | cons o os ih =>
    rw [splitOriginalRouteInfos, ← takes] at h
    split_ifs at h with htakes
    · obtain ⟨-, -, h⟩ := bind_eq_ok.mp h
      obtain ⟨⟨kept', moved'⟩, hrest, h⟩ := bind_eq_ok.mp h
      cases h
      obtain ⟨rfl, rfl⟩ := ih hrest
      rw [filter_cons_of_pos htakes, filter_cons_of_neg (by rw [htakes]; decide)]
      exact ⟨rfl, rfl⟩
    · obtain ⟨⟨kept', moved'⟩, hrest, h⟩ := bind_eq_ok.mp h
      cases h
      obtain ⟨rfl, rfl⟩ := ih hrest
      rw [filter_cons_of_neg htakes, filter_cons_of_pos (by rw [Bool.eq_false_iff.mpr htakes]; rfl)]
      exact ⟨rfl, rfl⟩

theorem splitFollowingRouteInfos_of_ok {D' : RoutingTableInfo} {moved : List OriginalRouteInfo}
    (h : splitFollowingRouteInfos M D = .ok (D', moved)) :
    D' = D.map M.keep ∧ moved = D.flatMap fun r => r.originalRouteInfos.filter (takes M) := by
  induction D generalizing D' moved with
  | nil =>
    cases h
    exact ⟨rfl, rfl⟩
  | cons r D ih =>
    rw [splitFollowingRouteInfos] at h
    obtain ⟨⟨kept, movedR⟩, hsplit, h⟩ := bind_eq_ok.mp h
    obtain ⟨⟨D₁, movedD⟩, hrest, h⟩ := bind_eq_ok.mp h
    cases h
    obtain ⟨rfl, rfl⟩ := splitOriginalRouteInfos_of_ok hsplit
    obtain ⟨rfl, rfl⟩ := ih hrest
    exact ⟨rfl, rfl⟩

/-- The merged route with the original routes that the following ones lose. -/
def RouteInfo.collect (M : RouteInfo) (D : RoutingTableInfo) : RouteInfo :=
  { M with
    originalRouteInfos := M.originalRouteInfos ++
      D.flatMap fun r => r.originalRouteInfos.filter (takes M) }

theorem moveFollowingOriginalRouteInfos_of_ok (hP : P.length = m)
    (h : moveFollowingOriginalRouteInfos (P ++ M :: D) m = .ok T') :
    T' = P ++ M.collect D :: D.map M.keep := by
  rw [moveFollowingOriginalRouteInfos, ← hP, drop_left, take_left] at h
  obtain ⟨⟨D', moved⟩, hsplit, h⟩ := bind_eq_ok.mp h
  obtain ⟨rfl, rfl⟩ := splitFollowingRouteInfos_of_ok hsplit
  exact (Except.ok.inj h).symm

theorem attachedInfos_moved (hM : M.enabled = true) (hD : ∀ r ∈ D, r.enabled = true) :
    (attachedInfos (P ++ M.collect D :: D.map M.keep)).Perm (attachedInfos (P ++ M :: D)) := by
  have hkeep : ∀ r ∈ D.map M.keep, r.enabled = true := by
    intro r hr
    obtain ⟨r₀, hr₀, rfl⟩ := mem_map.mp hr
    exact hD r₀ hr₀
  have hsplit : ((D.flatMap fun r => r.originalRouteInfos.filter (takes M)) ++
      (D.map M.keep).flatMap (·.originalRouteInfos)).Perm
        (D.flatMap (·.originalRouteInfos)) := by
    rw [flatMap_map]
    refine (flatMap_append_perm D _ _).trans ?_
    exact List.Perm.flatMap_left D fun r _ => filter_append_perm (takes M) _
  rw [attachedInfos_append, attachedInfos_append, attachedInfos_cons, attachedInfos_cons,
    attachedInfos_of_enabled hkeep, attachedInfos_of_enabled hD]
  refine List.Perm.append_left _ ?_
  have hcollect : (M.collect D).enabled = true := hM
  rw [if_pos hcollect, if_pos hM, RouteInfo.collect, append_assoc]
  exact hsplit.append_left _

section

variable {A B C D L : RoutingTableInfo}

/-- The merged route and those in front of it, once original routes have been attached there. -/
theorem exists_front (h : SameRoutes (L ++ M :: D) T) (hdrop : T.drop (L.length + 1) = D) :
    ∃ P N, T = P ++ N :: D ∧ SameRoutes L P ∧ N.skeleton = M.skeleton := by
  obtain ⟨P, N, S, rfl, hP, hN, -⟩ := h.symm.exists_append_cons
  have hS : S = D := by
    rw [← hdrop, append_cons, drop_left']
    rw [length_append, length_singleton, hP.length_eq]
  exact ⟨P, N, by rw [hS], hP.symm, hN⟩

theorem attachedInfos_mergeTable (hI : routeInfoI.enabled = true) (hJ : routeInfoJ.enabled = true) :
    (routeInfoJ.originalRouteInfos ++ (routeInfoI.originalRouteInfos ++
      attachedInfos (mergeTable A B C D routeInfoI routeInfoJ))).Perm
        (attachedInfos (A ++ routeInfoJ :: (B ++ routeInfoI :: (C ++ D)))) := by
  have hdisable : ∀ r : RouteInfo, r.disable.enabled = false := fun _ => rfl
  have hmerged : (mergedRouteInfo routeInfoI routeInfoJ).originalRouteInfos = [] := rfl
  rw [mergeTable]
  simp only [attachedInfos_append, attachedInfos_cons, hdisable, hI, hJ, hmerged, if_true,
    Bool.false_eq_true, if_false, nil_append, ite_self]
  rw [perm_iff_count]
  intro o
  simp only [count_append]
  omega

/-- Before original routes are moved, each of those that the merge does not touch is still attached
to the first route that matches it; the merged route has none. -/
theorem firstMatching_mergeTable
    (h : FirstMatching (A ++ routeInfoJ :: (B ++ routeInfoI :: (C ++ D)))) :
    FirstMatching ((A ++ routeInfoJ.disable :: (B ++ routeInfoI.disable :: C)) ++
      [mergedRouteInfo routeInfoI routeInfoJ]) ∧
    FirstMatching D ∧
    ∀ x ∈ A ++ routeInfoJ.disable :: (B ++ routeInfoI.disable :: C), ∀ r ∈ D,
      ∀ o ∈ r.originalRouteInfos, x.matchesDestination o.destination = false := by
  have hI : FirstMatching ((A ++ routeInfoJ.disable :: B) ++ routeInfoI.disable :: (C ++ D)) := by
    apply FirstMatching.disable
    rw [append_assoc, cons_append]
    exact h.disable
  have hsplit : FirstMatching
      ((A ++ routeInfoJ.disable :: (B ++ routeInfoI.disable :: C)) ++ D) := by
    simpa using hI
  obtain ⟨hfront, hD, hcross⟩ := pairwise_append.mp hsplit
  refine ⟨pairwise_append.mpr ⟨hfront, pairwise_singleton _ _, ?_⟩, hD, hcross⟩
  intro x _ r hr o ho
  obtain rfl := mem_singleton.mp hr
  cases ho

/-- Moving original routes to the merged route, from tables behind it that it does not match. -/
theorem firstMatching_moved (hfront : FirstMatching (P ++ [M])) (hD : FirstMatching D)
    (hcross : ∀ x ∈ P, ∀ r ∈ D, ∀ o ∈ r.originalRouteInfos,
      x.matchesDestination o.destination = false) :
    FirstMatching (P ++ M.collect D :: D.map M.keep) := by
  obtain ⟨hP, -, hPM⟩ := pairwise_append.mp hfront
  refine pairwise_append.mpr ⟨hP, pairwise_cons.mpr ⟨?_, ?_⟩, ?_⟩
  · intro r hr o ho
    obtain ⟨r, -, rfl⟩ := mem_map.mp hr
    obtain ⟨-, hnot⟩ := mem_filter.mp ho
    have htakes : takes M o = false := by simpa using hnot
    show (M.enabled && takes M o) = false
    rw [htakes, Bool.and_false]
  · refine pairwise_map.mpr (hD.imp fun hxr o ho => ?_)
    exact hxr o (mem_of_mem_filter ho)
  · intro x hx r hr o ho
    obtain rfl | hr := mem_cons.mp hr
    · obtain ho | ho := mem_append.mp ho
      · exact hPM x hx M (mem_singleton_self M) o ho
      · obtain ⟨r, hr, ho⟩ := mem_flatMap.mp ho
        exact hcross x hx r hr o (mem_of_mem_filter ho)
    · obtain ⟨r₀, hr₀, rfl⟩ := mem_map.mp hr
      exact hcross x hx r₀ hr₀ o (mem_of_mem_filter ho)

/-- What happens to the table in front of the merged route, and behind it, in a merge that is not
given up. -/
structure Merge (i j : ℕ) (routeInfoI routeInfoJ : RouteInfo) (T T' : RoutingTableInfo)
    (A B C D T₁ P : RoutingTableInfo) (N : RouteInfo) : Prop where
  before : T = A ++ routeInfoJ :: (B ++ routeInfoI :: (C ++ D))
  length_j : A.length = j
  length_i : (A ++ routeInfoJ :: B).length = i
  addedI : Keeps (i + 1) (i + 1 + C.length + 1) routeInfoI.originalRouteInfos
    (mergeTable A B C D routeInfoI routeInfoJ) T₁
  addedJ : Keeps (j + 1) (i + 1 + C.length + 1) routeInfoJ.originalRouteInfos T₁ (P ++ N :: D)
  front : SameRoutes (A ++ routeInfoJ.disable :: (B ++ routeInfoI.disable :: C)) P
  merged : N.skeleton = (mergedRouteInfo routeInfoI routeInfoJ).skeleton
  after : T' = ((P ++ N.collect D :: D.map N.keep).eraseIdx i).eraseIdx j

theorem tryToMergeTwoRoutes_cases (h : Consistent originals T)
    (hi : T[i]? = some routeInfoI) (hj : T[j]? = some routeInfoJ) (hji : j < i)
    (hmerge : tryToMergeTwoRoutes T i j routeInfoI routeInfoJ = .ok (true, T')) :
    ∃ A B C D T₁ P N, Merge i j routeInfoI routeInfoJ T T' A B C D T₁ P N := by
  obtain ⟨A, B, C, D, rfl, hA, hAB, hadd, -⟩ := addRouteInfo_mergedRouteInfo h hi hj hji
  rw [tryToMergeTwoRoutes] at hmerge
  simp only [hadd] at hmerge
  obtain ⟨-, -, hmerge⟩ := bind_eq_ok.mp hmerge
  split_ifs at hmerge with hcan
  · obtain ⟨T₁, hT₁, hmerge⟩ := bind_eq_ok.mp hmerge
    obtain ⟨T₂, hT₂, hmerge⟩ := bind_eq_ok.mp hmerge
    obtain ⟨T₃, hT₃, hmerge⟩ := bind_eq_ok.mp hmerge
    cases hmerge
    have hI := keeps_of_addOriginalRouteInfos hT₁
    have hJ := keeps_of_addOriginalRouteInfos hT₂
    have hlen : (A ++ routeInfoJ.disable :: (B ++ routeInfoI.disable :: C)).length =
        i + 1 + C.length := length_front_m hAB
    have hsame := hI.sameRoutes.trans hJ.sameRoutes
    have hdrop : T₂.drop (i + 1 + C.length + 1) = D := by
      rw [hJ.drop_eq, hI.drop_eq, drop_mergeTable hAB]
    rw [mergeTable_eq_front_m] at hsame
    obtain ⟨P, N, rfl, hP, hN⟩ := exists_front hsame (hlen ▸ hdrop)
    have hlenP : P.length = i + 1 + C.length := hP.length_eq.symm.trans hlen
    obtain rfl := moveFollowingOriginalRouteInfos_of_ok hlenP hT₃
    exact ⟨A, B, C, D, T₁, P, N, rfl, hA, hAB, hI, hJ, hP, hN, rfl⟩
  · cases (Prod.mk.inj (Except.ok.inj hmerge)).1

namespace Merge

variable {T₁ : RoutingTableInfo} {N : RouteInfo}
  (h : Merge i j routeInfoI routeInfoJ T T' A B C D T₁ P N)
include h

/-- The table before the two routes are taken out, without its original routes. -/
theorem sameRoutes_moved : SameRoutes (P ++ N.collect D :: D.map N.keep)
    (A ++ routeInfoJ.disable :: (B ++ routeInfoI.disable ::
      (C ++ mergedRouteInfo routeInfoI routeInfoJ :: D))) := by
  have hkeep : RouteInfo.skeleton ∘ N.keep = RouteInfo.skeleton := rfl
  have hcollect : (N.collect D).skeleton = N.skeleton := rfl
  have hfront := h.front
  rw [SameRoutes] at hfront
  rw [SameRoutes, map_append, ← hfront, map_cons, hcollect, h.merged, map_map,
    hkeep, ← map_cons, ← map_append]
  simp

theorem sameRoutes_erased : SameRoutes ((P ++ N.collect D :: D.map N.keep).eraseIdx i)
    (A ++ routeInfoJ.disable :: (B ++ (C ++ mergedRouteInfo routeInfoI routeInfoJ :: D))) := by
  have hsame := h.sameRoutes_moved
  rw [← cons_append, ← append_assoc] at hsame ⊢
  exact (eraseIdx_disabled hsame (by simpa using h.length_i) rfl).1

theorem attachedInfos_perm (henabled : ∀ r ∈ T, r.enabled = true) :
    (attachedInfos T').Perm (attachedInfos T) := by
  have hI : routeInfoI.enabled = true := henabled _ (by simp [h.before])
  have hJ : routeInfoJ.enabled = true := henabled _ (by simp [h.before])
  have hD : ∀ r ∈ D, r.enabled = true := fun r hr => henabled r (by simp [h.before, hr])
  have hN : N.enabled = true := by
    rw [← skeleton_enabled, h.merged]
    rfl
  have hsame := h.sameRoutes_moved
  rw [← cons_append, ← append_assoc] at hsame
  have hadded : (attachedInfos (P ++ N :: D)).Perm
      (routeInfoJ.originalRouteInfos ++ (routeInfoI.originalRouteInfos ++
        attachedInfos (mergeTable A B C D routeInfoI routeInfoJ))) :=
    h.addedJ.attachedInfos_perm.trans (h.addedI.attachedInfos_perm.append_left _)
  rw [h.after, h.before, attachedInfos_eraseIdx h.sameRoutes_erased h.length_j rfl,
    attachedInfos_eraseIdx hsame (by simpa using h.length_i) rfl]
  exact (attachedInfos_moved hN hD).trans (hadded.trans (attachedInfos_mergeTable hI hJ))

theorem before_routeInfoI (hfirst : FirstMatching T) : ∀ o ∈ routeInfoI.originalRouteInfos,
    ∀ x ∈ (mergeTable A B C D routeInfoI routeInfoJ).take (i + 1),
      x.matchesDestination o.destination = false := by
  intro o ho x hx
  rw [h.before] at hfirst
  obtain ⟨-, hrest, hcrossA⟩ := pairwise_append.mp hfirst
  obtain ⟨-, -, hcrossB⟩ := pairwise_append.mp (pairwise_cons.mp hrest).2
  rw [mergeTable_eq_front_i, take_left' (length_front_i h.length_i)] at hx
  simp only [mem_append, mem_cons, not_mem_nil, or_false] at hx
  obtain hx | rfl | hx | rfl := hx
  · exact hcrossA x hx routeInfoI (by simp) o ho
  · rfl
  · exact hcrossB x hx routeInfoI (by simp) o ho
  · rfl

theorem before_routeInfoJ (hfirst : FirstMatching T) : ∀ o ∈ routeInfoJ.originalRouteInfos,
    ∀ x ∈ (mergeTable A B C D routeInfoI routeInfoJ).take (j + 1),
      x.matchesDestination o.destination = false := by
  intro o ho x hx
  rw [h.before] at hfirst
  obtain ⟨-, -, hcrossA⟩ := pairwise_append.mp hfirst
  rw [mergeTable_eq_front_j, take_left' (length_front_j h.length_j)] at hx
  simp only [mem_append, mem_singleton] at hx
  obtain hx | rfl := hx
  · exact hcrossA x hx routeInfoJ mem_cons_self o ho
  · rfl

/-- A merge attaches no original route behind a route that matches it. -/
theorem firstMatching (hfirst : FirstMatching T) : FirstMatching T' := by
  obtain ⟨hfront, hD, hcross⟩ := firstMatching_mergeTable (h.before ▸ hfirst)
  have hlenP : P.length = i + 1 + C.length :=
    h.front.length_eq.symm.trans (length_front_m h.length_i)
  have htakeP : (P ++ N :: D).take (i + 1 + C.length + 1) = P ++ [N] := by
    rw [append_cons]
    refine take_left' ?_
    rw [length_append, length_singleton, hlenP]
  have hfrontI := h.addedI.firstMatching
    ((take_mergeTable h.length_i).symm ▸ hfront) (h.before_routeInfoI hfirst)
  have hfrontJ := h.addedJ.firstMatching hfrontI fun o ho =>
    (h.addedI.sameRoutes.take (j + 1)).forall
      (p := fun x => x.matchesDestination o.destination = false) (h.before_routeInfoJ hfirst o ho)
  rw [htakeP] at hfrontJ
  have hmoved := firstMatching_moved hfrontJ hD (h.front.forall
    (p := fun x => ∀ r ∈ D, ∀ o ∈ r.originalRouteInfos, x.matchesDestination o.destination = false)
    hcross)
  rw [h.after]
  exact (hmoved.sublist (eraseIdx_sublist ..)).sublist (eraseIdx_sublist ..)

end Merge

end

/-- Two routes of the table are merged, the second of them in front of the first. -/
def MergesTwo (T T' : RoutingTableInfo) : Prop :=
  ∃ i j routeInfoI routeInfoJ, j < i ∧ T[i]? = some routeInfoI ∧ T[j]? = some routeInfoJ ∧
    tryToMergeTwoRoutes T i j routeInfoI routeInfoJ = .ok (true, T')

/-- A round of the main loop that merges two routes. -/
def Round (T T' : RoutingTableInfo) : Prop :=
  tryToMergeAnyTwoRoutes T = .ok (true, T')

theorem mergesTwo_of_tryToMergeWithPreceding (h : Consistent originals T) (hi : i < T.length)
    {bound : ℕ} (hbound : bound ≤ i)
    (hmerge : tryToMergeWithPreceding i bound T = .ok (true, T')) : MergesTwo T T' := by
  induction bound with
  | zero => cases (Prod.mk.inj (Except.ok.inj hmerge)).1
  | succ j ih =>
    have hI := getElem?_eq_getElem hi
    have hJ := getElem?_eq_getElem (show j < T.length by omega)
    rw [tryToMergeWithPreceding, hI, hJ] at hmerge
    dsimp only at hmerge
    split_ifs at hmerge with htry
    · rw [Bool.and_eq_true, beq_iff_eq] at htry
      obtain hfail | ⟨T₁, hmerged, -⟩ := tryToMergeTwoRoutes_spec h hI hJ hbound htry.1
      · rw [hfail, ok_bind, if_neg Bool.false_ne_true] at hmerge
        exact ih (by omega) hmerge
      · rw [hmerged, ok_bind, if_pos rfl] at hmerge
        cases hmerge
        exact ⟨i, j, _, _, hbound, hI, hJ, hmerged⟩
    · exact ih (by omega) hmerge

theorem mergesTwo_of_tryToMergeFrom (h : Consistent originals T) (hn : i + n = T.length)
    (hmerge : tryToMergeFrom i n T = .ok (true, T')) : MergesTwo T T' := by
  induction n generalizing i with
  | zero => cases (Prod.mk.inj (Except.ok.inj hmerge)).1
  | succ n ih =>
    rw [tryToMergeFrom] at hmerge
    obtain hfail | ⟨T₁, hmerged, -⟩ := tryToMergeWithPreceding_spec h (by omega) (le_refl i)
    · rw [hfail, ok_bind] at hmerge
      exact ih (by omega) hmerge
    · rw [hmerged, ok_bind] at hmerge
      cases hmerge
      exact mergesTwo_of_tryToMergeWithPreceding h (by omega) (le_refl i) hmerged

/-- The bookkeeping of the optimizer: a consistent table, and every original route attached to
exactly one route. -/
structure Bookkeeping (originals : List OriginalRouteInfo) (T : RoutingTableInfo) : Prop where
  consistent : Consistent originals T
  once : (T.flatMap (·.originalRouteInfos)).Perm originals

/-- What a round of the optimizer keeps. -/
theorem Bookkeeping.round (h : Bookkeeping originals T) (hround : Round T T') :
    Bookkeeping originals T' ∧ T'.length + 1 = T.length ∧ (FirstMatching T → FirstMatching T') := by
  obtain hfail | ⟨T₁, hmerged, hT', hlen⟩ :=
    tryToMergeFrom_spec h.consistent (Nat.zero_add T.length)
  · rw [Round, tryToMergeAnyTwoRoutes, hfail] at hround
    cases (Prod.mk.inj (Except.ok.inj hround)).1
  · have heq := hround
    rw [Round, tryToMergeAnyTwoRoutes, hmerged] at heq
    cases heq
    obtain ⟨i, j, routeInfoI, routeInfoJ, hji, hi, hj, htwo⟩ :=
      mergesTwo_of_tryToMergeFrom h.consistent (Nat.zero_add _) hmerged
    obtain ⟨A, B, C, D, T₂, P, N, hmerge⟩ := tryToMergeTwoRoutes_cases h.consistent hi hj hji htwo
    refine ⟨⟨hT', ?_⟩, hlen, hmerge.firstMatching⟩
    have hperm := hmerge.attachedInfos_perm h.consistent.enabled
    rw [attachedInfos_of_enabled h.consistent.enabled, attachedInfos_of_enabled hT'.enabled]
      at hperm
    exact hperm.trans h.once

/-- Every table that the main loop reaches. -/
theorem Bookkeeping.rounds (h : Bookkeeping originals T)
    (hrounds : Relation.ReflTransGen Round T T') :
    Bookkeeping originals T' ∧ (FirstMatching T → FirstMatching T') := by
  induction hrounds with
  | refl => exact ⟨h, id⟩
  | tail _ hround ih =>
    obtain ⟨hkeeps, hfirst⟩ := ih
    obtain ⟨hnext, -, hfirst'⟩ := hkeeps.round hround
    exact ⟨hnext, fun h => hfirst' (hfirst h)⟩

/-- The main loop ends in a table that it reaches and that has nothing to merge. -/
theorem mergeRoutes_rounds (h : Bookkeeping originals T) {fuel : ℕ} (hfuel : T.length < fuel) :
    ∃ T', mergeRoutes fuel T = .ok T' ∧ Relation.ReflTransGen Round T T' ∧
      tryToMergeAnyTwoRoutes T' = .ok (false, T') := by
  induction fuel generalizing T with
  | zero => exact absurd hfuel (Nat.not_lt_zero _)
  | succ fuel ih =>
    rw [mergeRoutes]
    obtain hfail | ⟨T₁, hmerged, -, hlen⟩ :=
      tryToMergeFrom_spec h.consistent (Nat.zero_add T.length)
    · rw [← tryToMergeAnyTwoRoutes] at hfail
      rw [hfail]
      exact ⟨T, rfl, .refl, hfail⟩
    · rw [← tryToMergeAnyTwoRoutes] at hmerged
      rw [hmerged, ok_bind]
      obtain ⟨T', hT', hrounds, hend⟩ := ih (h.round hmerged).1 (by omega)
      exact ⟨T', hT', .head hmerged hrounds, hend⟩

section

variable {routes : List IPv4Route}

/-- The optimizer starts with each original route attached to its own copy. -/
theorem originalRouteInfos_classified (routes : List IPv4Route) :
    ((classifyRoutes routes).routeInfos.flatMap (·.originalRouteInfos)).Perm
      (classifyRoutes routes).originalRouteInfos := by
  induction routes using reverseRecOn with
  | nil => exact .refl _
  | append_singleton routes route ih =>
    rw [classifyRoutes, foldl_append] at ⊢
    rw [classifyRoutes] at ih
    set state := routes.foldl Classification.addOriginalRoute {}
    set o : OriginalRouteInfo :=
      { color := (findRouteIndexWithSameColor state.colorToRoute route).getD
          state.colorToRoute.length
        destination := route.dest
        netmask := route.netmask }
    obtain ⟨P, S, hsplit, hinsert⟩ :=
      exists_insertUpper routeInfoLessThan (ownRouteInfo o) state.routeInfos
    show ((state.routeInfos.insertUpper routeInfoLessThan (ownRouteInfo o)).flatMap
      (·.originalRouteInfos)).Perm (state.originalRouteInfos ++ [o])
    rw [hsplit, flatMap_append] at ih
    rw [hinsert, flatMap_append, flatMap_cons]
    have hown : (ownRouteInfo o).originalRouteInfos = [o] := rfl
    rw [hown, singleton_append]
    exact (perm_middle.trans (ih.cons o)).trans (perm_append_singleton _ _).symm

/-- On routes that the routing table may have, the optimizer keeps its books: the table is sorted,
and each original route is attached to exactly one route, which matches it and has its color, as all
matching routes in front of that one have. If the first table attaches every original route to the
first route that matches it, so do all later ones. No assertion fails, a merge that is given up
leaves the table as it was, and the loop ends, as every other merge makes the table one route
shorter. -/
theorem optimizer_bookkeeping (hcanonical : ∀ route ∈ routes, Canonical route)
    (hcheck : checkOriginalRoutes (classifyRoutes routes).routeInfos
      (classifyRoutes routes).originalRouteInfos = .ok ()) :
    (∀ T, Relation.ReflTransGen Round (classifyRoutes routes).routeInfos T →
      Bookkeeping (classifyRoutes routes).originalRouteInfos T ∧
      (FirstMatching (classifyRoutes routes).routeInfos → FirstMatching T) ∧
      (∀ i j routeInfoI routeInfoJ, j < i → T[i]? = some routeInfoI → T[j]? = some routeInfoJ →
        routeInfoI.color = routeInfoJ.color →
          tryToMergeTwoRoutes T i j routeInfoI routeInfoJ = .ok (false, T) ∨
          ∃ T', tryToMergeTwoRoutes T i j routeInfoI routeInfoJ = .ok (true, T') ∧
            T'.length + 1 = T.length) ∧
      (tryToMergeAnyTwoRoutes T = .ok (false, T) ∨ ∃ T', Round T T' ∧ T'.length + 1 = T.length)) ∧
    ∃ T, mergeRoutes ((classifyRoutes routes).routeInfos.length + 1)
        (classifyRoutes routes).routeInfos = .ok T ∧
      Relation.ReflTransGen Round (classifyRoutes routes).routeInfos T ∧
      tryToMergeAnyTwoRoutes T = .ok (false, T) := by
  have hclassified := classifyRoutes_spec routes
  have hbest : ∀ o ∈ (classifyRoutes routes).originalRouteInfos,
      bestColor (classifyRoutes routes).routeInfos o.destination = some o.color := by
    rw [checkOriginalRoutes_eq] at hcheck
    split_ifs at hcheck with hall
    exact hall
  have hstart : Bookkeeping (classifyRoutes routes).originalRouteInfos
      (classifyRoutes routes).routeInfos :=
    ⟨consistent_classified hclassified hcanonical hbest, originalRouteInfos_classified routes⟩
  refine ⟨fun T hT => ?_, mergeRoutes_rounds hstart (Nat.lt_succ_self _)⟩
  obtain ⟨hT, hfirst⟩ := hstart.rounds hT
  refine ⟨hT, hfirst, fun i j routeInfoI routeInfoJ hji hi hj hcolor => ?_, ?_⟩
  · obtain hfail | ⟨T', hmerged, -, hlen⟩ :=
      tryToMergeTwoRoutes_spec hT.consistent hi hj hji hcolor
    · exact .inl hfail
    · exact .inr ⟨T', hmerged, hlen⟩
  · obtain hfail | ⟨T', hmerged, -, hlen⟩ :=
      tryToMergeFrom_spec hT.consistent (Nat.zero_add T.length)
    · exact .inl hfail
    · exact .inr ⟨T', hmerged, hlen⟩

end

/-- The books of the three example routes. -/
theorem bookkeeping_exampleRoutes :
    ∃ T, mergeRoutes 4 (classifyRoutes exampleRoutes).routeInfos = .ok T ∧
      Bookkeeping (classifyRoutes exampleRoutes).originalRouteInfos T ∧ FirstMatching T := by
  obtain ⟨hrounds, T, hT, hreach, -⟩ := @optimizer_bookkeeping exampleRoutes
    (by decide +kernel) (by decide +kernel)
  obtain ⟨hkeeps, hfirst, -⟩ := hrounds T hreach
  exact ⟨T, hT, hkeeps, hfirst (by decide +kernel)⟩

/-- 10.0.0.0/24 and 10.0.0.0/16 through one gateway: the original route to the second network finds
the first, and stays attached to the second. -/
def nestedRoutes : List IPv4Route :=
  [exampleRoute 0x0a000000#32 0xffffff00#32 1#32, exampleRoute 0x0a000000#32 0xffff0000#32 1#32]

/-- 10.0.0.5/25 and 10.0.0.200/24 through one gateway: the merged route 10.0.0.0/24 belongs in front
of the second. -/
def unmaskedRoutes : List IPv4Route :=
  [exampleRoute 0x0a000005#32 0xffffff80#32 1#32, exampleRoute 0x0a0000c8#32 0xffffff00#32 1#32]

/-- A first table need not attach every original route to the first route that matches it, and on
routes that the routing table does not take the optimizer fails an assertion. -/
theorem not_bookkeeping_of_checkOriginalRoutes : ((∀ route ∈ nestedRoutes, Canonical route) ∧
      checkOriginalRoutes (classifyRoutes nestedRoutes).routeInfos
        (classifyRoutes nestedRoutes).originalRouteInfos = .ok () ∧
      ¬ FirstMatching (classifyRoutes nestedRoutes).routeInfos) ∧
    checkOriginalRoutes (classifyRoutes unmaskedRoutes).routeInfos
      (classifyRoutes unmaskedRoutes).originalRouteInfos = .ok () ∧
    FirstMatching (classifyRoutes unmaskedRoutes).routeInfos ∧
    tryToMergeAnyTwoRoutes (classifyRoutes unmaskedRoutes).routeInfos =
      .error (.assertion "m > i && m > j") := by
  refine ⟨⟨?_, ?_, ?_⟩, ?_, ?_, ?_⟩ <;> decide +kernel

end Inet.Ipv4.IPv4NetworkConfigurator
