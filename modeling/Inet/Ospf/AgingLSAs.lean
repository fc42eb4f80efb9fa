import Inet.Ospf.AgeDatabase

/-!
# The ages of the LSAs

The vectors and the maps hold the same LSAs in every state. At a tick each LSA that has not reached
`MAX_AGE` becomes older, or is refreshed, or is flushed (`Ages`). This is so as long as the tick
does not meet an LSA that is self-originated and past `LS_REFRESH_TIME`: none of the comparisons in
the loop is true of it, so that it keeps its age. An own LSA gets into this state when another
router sends it back and it is installed. The key of an LSA changes when it is updated with one that
has another link state ID, which must not happen either (`Fit`).
-/

namespace Inet.Ospf.Aging

open HasHeader (header withHeader header_withHeader)
open Inet.Ospf.Origination (RouterLSA NetworkLSA)

/-- The LSA becomes a second older, or is refreshed, or is flushed. -/
def Ages (old new : OSPFLSAHeader) (flooded : List OSPFLSAHeader) : Prop :=
  (new.lsAge.toNat = old.lsAge.toNat + 1 ∧ new.lsSequenceNumber = old.lsSequenceNumber) ∨
    (new.lsAge.toNat = 0 ∧ new.lsSequenceNumber = old.lsSequenceNumber + 1) ∨
    (new.lsAge.toNat = MAX_AGE ∧ new ∈ flooded)

namespace LSAKind

variable {κ α : Type} [HasHeader α] {kind : LSAKind κ α} {area area' : Area}
  {p : ℕ} {lsa lsa' newLSA : α}

/-- The vector and the map hold the same LSAs. -/
def Consistent (kind : LSAKind κ α) (area : Area) : Prop :=
  (kind.lsas area).Consistent kind.keyOf

/-- The LSA is self-originated, past the time when it would be refreshed, and not yet at
`MAX_AGE`. -/
def IsStuck (kind : LSAKind κ α) (area : Area) (lsa : α) : Prop :=
  kind.selfOriginated area (header lsa) = true ∧ LS_REFRESH_TIME ≤ (header lsa).lsAge.toNat ∧
    (header lsa).lsAge.toNat < MAX_AGE

/-- The LSA is self-originated and reachable, and is to be updated: it is due to be refreshed, or
has reached `MAX_AGE` and is not needed any more. -/
structure IsRenewed (kind : LSAKind κ α) (area : Area) (lsa : α) : Prop where
  selfOriginated : kind.selfOriginated area (header lsa) = true
  reachable : isUnreachable area lsa = false
  lsAge : ((header lsa).lsAge.toNat = LS_REFRESH_TIME - 1 ∧
      (header lsa).lsSequenceNumber ≠ MAX_SEQUENCE_NUMBER) ∨
    ((header lsa).lsAge.toNat = MAX_AGE ∧
      ¬ (area.isOnAnyRetransmissionList (header lsa).lsaKey ∨ area.hasExchangingNeighbor))

/-- The LSA is not stuck, and the LSA that it is updated with has the same ID. -/
structure Fit (kind : LSAKind κ α) (area : Area) (lsa : α) : Prop where
  not_stuck : ¬ kind.IsStuck area lsa
  keyOf_eq : kind.IsRenewed area lsa → ∀ newLSA, kind.originate area lsa = some newLSA →
    kind.keyOf newLSA = kind.keyOf lsa

@[simp] theorem lsas_withLSAs (store : ObjectStore κ α) :
    kind.lsas (kind.withLSAs area store) = store :=
  kind.get_set _ _

@[simp] theorem flooded_floodLSA (h : OSPFLSAHeader) :
    (area.floodLSA h).flooded = area.flooded ++ [h] := rfl

/-! ## One round -/

/-- A round changes nothing but the LSAs of its kind, and it floods. -/
structure Frame (kind : LSAKind κ α) (area area' : Area) : Prop where
  toDatabases_eq : area'.toDatabases = kind.set area.toDatabases (kind.lsas area')
  flooded : area.flooded ⊆ area'.flooded

theorem Frame.refl (kind : LSAKind κ α) (area : Area) : kind.Frame area area :=
  ⟨(kind.set_get _).symm, List.Subset.refl _⟩

theorem Frame.trans {area'' : Area} (h : kind.Frame area area') (h' : kind.Frame area' area'') :
    kind.Frame area area'' := by
  refine ⟨?_, List.Subset.trans h.flooded h'.flooded⟩
  rw [h'.toDatabases_eq, h.toDatabases_eq, kind.set_set]

theorem frame_withLSAs (store : ObjectStore κ α) : kind.Frame area (kind.withLSAs area store) :=
  ⟨by rw [lsas_withLSAs]; rfl, List.Subset.refl _⟩

theorem frame_floodLSA (h : OSPFLSAHeader) : kind.Frame area (area.floodLSA h) :=
  ⟨(kind.set_get _).symm, List.subset_append_left _ _⟩

theorem keyOf_withHeader {h : OSPFLSAHeader} (hkey : h.lsaKey = (header lsa).lsaKey) :
    kind.keyOf (withHeader lsa' h) = kind.keyOf lsa := by
  rw [keyOf, keyOf, header_withHeader, hkey]

theorem frame_flush : kind.Frame area (kind.flush area p lsa) :=
  (frame_withLSAs _).trans (frame_floodLSA _)

theorem frame_refresh {sequenceNumber : ℤ} :
    kind.Frame area (kind.refresh area p newLSA sequenceNumber) :=
  (frame_withLSAs _).trans (frame_floodLSA _)

variable [DecidableEq κ]

/-- What a round of the loop can do to its LSA. -/
inductive Outcome (kind : LSAKind κ α) (area area' : Area) (p : ℕ) (lsa : α) : Prop
  | written (lsa' : α) (lsas_eq : kind.lsas area' = (kind.lsas area).write p lsa')
      (keyOf_eq : kind.keyOf lsa' = kind.keyOf lsa)
      (ages : (header lsa).lsAge.toNat < MAX_AGE → Ages (header lsa) (header lsa') area'.flooded)
  | removed (lsas_eq : kind.lsas area' = (kind.lsas area).remove p (kind.keyOf lsa))
      (lsAge_eq : (header lsa).lsAge.toNat = MAX_AGE)
  | kept (lsas_eq : kind.lsas area' = kind.lsas area)
      (le_lsAge : MAX_AGE ≤ (header lsa).lsAge.toNat)

theorem outcome_flush : kind.Outcome area (kind.flush area p lsa) p lsa := by
  refine .written _ (lsas_withLSAs _) (keyOf_withHeader rfl) fun _ => .inr (.inr ⟨?_, ?_⟩)
  · rw [header_withHeader]
    rfl
  · rw [flush, flooded_floodLSA]
    exact List.mem_append_right _ (List.mem_singleton_self _)

theorem outcome_refresh {sequenceNumber : ℤ} (hkey : kind.keyOf newLSA = kind.keyOf lsa)
    (horiginate : kind.originate area lsa = some newLSA)
    (hsequence : (header lsa).lsAge.toNat < MAX_AGE →
      sequenceNumber = (header lsa).lsSequenceNumber + 1) :
    kind.Outcome area (kind.refresh area p newLSA sequenceNumber) p lsa := by
  refine .written _ (lsas_withLSAs _) ?_ fun hage => .inr (.inl ?_)
  · rw [← hkey]
    exact keyOf_withHeader rfl
  · rw [header_withHeader, ← hsequence hage]
    exact ⟨congrArg BitVec.toNat (kind.lsAge_originate horiginate), rfl⟩

theorem outcome_remove (hage : (header lsa).lsAge.toNat = MAX_AGE) :
    kind.Outcome area (kind.remove area p lsa) p lsa :=
  .removed (lsas_withLSAs _) hage

theorem refreshDue_outcome (hfit : kind.Fit area lsa)
    (hself : kind.selfOriginated area (header lsa) = true)
    (hage : (header lsa).lsAge.toNat = LS_REFRESH_TIME - 1) :
    kind.Outcome area (kind.refreshDue area p lsa) p lsa ∧
      kind.Frame area (kind.refreshDue area p lsa) := by
  unfold refreshDue
  simp only
  split_ifs with hunreachable
  · exact ⟨outcome_flush, frame_flush⟩
  · cases horiginate : kind.originate area lsa with
    | some newLSA =>
      have hrenewed : kind.IsRenewed area lsa :=
        ⟨hself, by simpa using (not_or.mp hunreachable).1, .inl ⟨hage, (not_or.mp hunreachable).2⟩⟩
      have hkey := hfit.keyOf_eq hrenewed newLSA horiginate
      exact ⟨outcome_refresh hkey horiginate fun _ => rfl, frame_refresh⟩
    | none => exact ⟨outcome_flush, frame_flush⟩

theorem replaceMaxAged_outcome (hfit : kind.Fit area lsa)
    (hage : (header lsa).lsAge.toNat = MAX_AGE)
    (hbusy : ¬ (area.isOnAnyRetransmissionList (header lsa).lsaKey ∨ area.hasExchangingNeighbor)) :
    kind.Outcome area (kind.replaceMaxAged area p lsa) p lsa ∧
      kind.Frame area (kind.replaceMaxAged area p lsa) := by
  unfold replaceMaxAged
  by_cases hgone : kind.selfOriginated area (header lsa) = false ∨ isUnreachable area lsa
  · rw [if_pos hgone]
    exact ⟨outcome_remove hage, frame_withLSAs _⟩
  · rw [if_neg hgone]
    have hself : kind.selfOriginated area (header lsa) = true := by
      simpa using (not_or.mp hgone).1
    cases horiginate : kind.originate area lsa with
    | some newLSA =>
      have hrenewed : kind.IsRenewed area lsa :=
        ⟨hself, by simpa using (not_or.mp hgone).2, .inr ⟨hage, hbusy⟩⟩
      have hkey := hfit.keyOf_eq hrenewed newLSA horiginate
      exact ⟨outcome_refresh hkey horiginate fun hlt => absurd hage hlt.ne, frame_refresh⟩
    | none =>
      -- a network LSA that is self-originated can be originated anew
      cases herases : kind.erases with
      | true => exact ⟨outcome_remove hage, frame_withLSAs _⟩
      | false => exact absurd horiginate (kind.originate_ne_none herases hself)

/-- A round of the loop for an LSA that is not stuck. -/
theorem ageLSA_outcome (hp : (kind.lsas area).heap p = some lsa) (hfit : kind.Fit area lsa) :
    ∃ area', kind.ageLSA area p = .ok area' ∧ kind.Outcome area area' p lsa ∧
      kind.Frame area area' := by
  have hstuck := hfit.not_stuck
  unfold IsStuck at hstuck
  unfold ageLSA
  simp only [hp]
  split_ifs with hyounger hdue hother hmax
  · refine ⟨_, rfl, .written _ (lsas_withLSAs _) (keyOf_withHeader rfl) fun _ => .inl ?_,
      frame_withLSAs _⟩
    rw [header_withHeader]
    refine ⟨?_, rfl⟩
    have hlt : (header lsa).lsAge.toNat + 1 < 2 ^ 16 := by
      simp only [LS_REFRESH_TIME, MAX_AGE] at hyounger
      omega
    rw [BitVec.toNat_add]
    exact Nat.mod_eq_of_lt hlt
  · exact ⟨_, rfl, refreshDue_outcome hfit hdue.1 hdue.2⟩
  · exact ⟨_, rfl, outcome_flush, frame_flush⟩
  · exact ⟨_, rfl, replaceMaxAged_outcome hfit hmax.1 hmax.2⟩
  · refine ⟨_, rfl, .kept rfl ?_, Frame.refl kind area⟩
    -- an LSA that is younger has been dealt with, or is stuck
    by_contra hlt
    rw [not_le] at hlt
    cases hself : kind.selfOriginated area (header lsa) with
    | true =>
      simp only [hself, true_and, not_and, not_lt] at hstuck hyounger hdue
      omega
    | false =>
      simp only [hself, true_and, false_and, false_or, reduceCtorEq] at hyounger hother
      omega

/-! ## The loop -/

/-- The LSA at `p`, if it has not reached `MAX_AGE`, is still there and has aged. -/
def AgedAt (kind : LSAKind κ α) (area area' : Area) (p : ℕ) : Prop :=
  ∀ lsa, (kind.lsas area).heap p = some lsa → (header lsa).lsAge.toNat < MAX_AGE →
    ∃ lsa', p ∈ (kind.lsas area').vector ∧ (kind.lsas area').heap p = some lsa' ∧
      Ages (header lsa) (header lsa') area'.flooded

/-- The other LSAs of the kind. -/
structure Leaves (kind : LSAKind κ α) (area area' : Area) (q : ℕ) : Prop where
  mem_iff : q ∈ (kind.lsas area').vector ↔ q ∈ (kind.lsas area).vector
  heap_eq : (kind.lsas area').heap q = (kind.lsas area).heap q

namespace Outcome

variable (h : kind.Outcome area area' p lsa)
include h

theorem consistent (hcons : kind.Consistent area) (hp : (kind.lsas area).heap p = some lsa)
    (hmem : p ∈ (kind.lsas area).vector) : kind.Consistent area' := by
  unfold Consistent at hcons ⊢
  cases h with
  | written lsa' hlsas hkey _ =>
    rw [hlsas]
    exact hcons.write hp hkey
  | removed hlsas _ =>
    rw [hlsas]
    exact hcons.remove hp hmem
  | kept hlsas _ =>
    rw [hlsas]
    exact hcons

theorem leaves {q : ℕ} (hq : q ≠ p) : kind.Leaves area area' q := by
  cases h with
  | written lsa' hlsas _ _ =>
    refine ⟨?_, ?_⟩
    · rw [hlsas, ObjectStore.vector_write]
    · rw [hlsas, ObjectStore.heap_write_of_ne hq]
  | removed hlsas _ =>
    refine ⟨?_, ?_⟩
    · rw [hlsas]
      exact List.mem_erase_of_ne hq
    · rw [hlsas, ObjectStore.heap_remove_of_ne hq]
  | kept hlsas _ =>
    exact ⟨by rw [hlsas], by rw [hlsas]⟩

theorem agedAt (hp : (kind.lsas area).heap p = some lsa) (hmem : p ∈ (kind.lsas area).vector) :
    kind.AgedAt area area' p := by
  intro lsa₀ hlsa₀ hage
  obtain rfl : lsa = lsa₀ := Option.some.inj (hp.symm.trans hlsa₀)
  cases h with
  | written lsa' hlsas _ hages =>
    refine ⟨lsa', ?_, ?_, hages hage⟩
    · rw [hlsas, ObjectStore.vector_write]
      exact hmem
    · rw [hlsas, ObjectStore.heap_write_self]
  | removed _ hmax => exact absurd hmax hage.ne
  | kept _ hmax => exact absurd hage hmax.not_gt

end Outcome

/-- The LSA that a round meets is fit. -/
def FitAt (kind : LSAKind κ α) (area : Area) (p : ℕ) : Prop :=
  ∀ lsa, (kind.lsas area).heap p = some lsa → kind.Fit area lsa

/-- The loop over some of the LSAs. -/
theorem exec_ageLSA {ps : List ℕ} (hcons : kind.Consistent area) (hnodup : ps.Nodup)
    (hmem : ∀ p ∈ ps, p ∈ (kind.lsas area).vector)
    (hfit : Run.Admissible kind.ageLSA kind.FitAt area ps) :
    ∃ area', Run.exec kind.ageLSA area ps = .ok area' ∧ kind.Consistent area' ∧
      kind.Frame area area' ∧ (∀ q ∉ ps, kind.Leaves area area' q) ∧
      ∀ p ∈ ps, kind.AgedAt area area' p := by
  induction ps generalizing area with
  | nil =>
    exact ⟨area, rfl, hcons, .refl kind area, fun q _ => ⟨.rfl, rfl⟩,
      fun p hp => absurd hp List.not_mem_nil⟩
  | cons p ps ih =>
    obtain ⟨hnotin, hnodup⟩ := List.nodup_cons.mp hnodup
    have hp : p ∈ (kind.lsas area).vector := hmem p List.mem_cons_self
    obtain ⟨lsa, hlsa⟩ := ObjectStore.Consistent.live hcons p hp
    obtain ⟨area₁, hage, houtcome, hframe⟩ := ageLSA_outcome hlsa (hfit.1 lsa hlsa)
    have hleaves : ∀ q ∈ ps, kind.Leaves area area₁ q :=
      fun q hq => houtcome.leaves fun heq => hnotin (heq ▸ hq)
    obtain ⟨area', hexec, hcons', hframe', hleaves', haged'⟩ :=
      ih (houtcome.consistent hcons hlsa hp) hnodup
        (fun q hq => (hleaves q hq).mem_iff.mpr (hmem q (List.mem_cons_of_mem p hq)))
        (hfit.2 area₁ hage)
    refine ⟨area', ?_, hcons', hframe.trans hframe', ?_, ?_⟩
    · rw [Run.exec_cons_of_ok hage, hexec]
    · intro q hq
      rw [List.mem_cons, not_or] at hq
      have hq₁ := houtcome.leaves hq.1
      have hq' := hleaves' q hq.2
      exact ⟨hq'.mem_iff.trans hq₁.mem_iff, hq'.heap_eq.trans hq₁.heap_eq⟩
    · intro q hq lsa₀ hlsa₀ hlt
      obtain rfl | hq := List.mem_cons.mp hq
      · obtain ⟨lsa', hmem', hlsa', hages⟩ := houtcome.agedAt hlsa hp lsa₀ hlsa₀ hlt
        have hq' := hleaves' q hnotin
        refine ⟨lsa', hq'.mem_iff.mpr hmem', hq'.heap_eq.trans hlsa', ?_⟩
        exact hages.imp_right (Or.imp_right (And.imp_right fun hmem => hframe'.flooded hmem))
      · exact haged' q hq lsa₀ ((hleaves q hq).heap_eq.trans hlsa₀) hlt

/-- Every LSA of the kind ages. -/
def AgedTo (kind : LSAKind κ α) (area area' : Area) : Prop :=
  ∀ p ∈ (kind.lsas area).vector, kind.AgedAt area area' p

/-- Every LSA that the loop meets is fit. -/
def FitAll (kind : LSAKind κ α) (area : Area) : Prop :=
  Run.Admissible kind.ageLSA kind.FitAt area (kind.lsas area).vector

theorem ageLSAs_spec (hcons : kind.Consistent area) (hfit : kind.FitAll area) :
    ∃ area', kind.ageLSAs area = .ok area' ∧ kind.Consistent area' ∧ kind.Frame area area' ∧
      kind.AgedTo area area' := by
  obtain ⟨area', hexec, hcons', hframe, -, haged⟩ :=
    exec_ageLSA hcons (ObjectStore.Consistent.nodup hcons) (fun _ hp => hp) hfit
  exact ⟨area', hexec, hcons', hframe, haged⟩

/-- An LSA that is installed is found under its ID. -/
theorem install_spec (hcons : kind.Consistent area) (lsa : α) :
    ∃ area', kind.install area lsa = .ok area' ∧ kind.Consistent area' ∧
      area'.toDatabases = kind.set area.toDatabases (kind.lsas area') := by
  unfold install
  cases hfind : (kind.lsas area).byKey (kind.keyOf lsa) with
  | none =>
    refine ⟨_, rfl, ?_, ?_⟩
    · rw [Consistent, lsas_withLSAs]
      exact ObjectStore.Consistent.insert hcons hfind
    · rw [lsas_withLSAs]
      rfl
  | some p =>
    obtain ⟨lsa₀, hlsa₀, hkey⟩ := ObjectStore.Consistent.heap_of_byKey hcons hfind
    simp only [hlsa₀]
    refine ⟨_, rfl, ?_, ?_⟩
    · rw [Consistent, lsas_withLSAs]
      exact ObjectStore.Consistent.write hcons hlsa₀ hkey.symm
    · rw [lsas_withLSAs]
      rfl

end LSAKind

/-! ## The area -/

namespace LSAKind

variable {κ α : Type} [HasHeader α] {kind : LSAKind κ α} {area area₁ area' area'' : Area}

/-- A change of the LSAs of one kind leaves those of the others. -/
theorem lsas_of_set {κ' α' : Type} [HasHeader α'] (other : LSAKind κ' α')
    (heq : area'.toDatabases = kind.set area.toDatabases (kind.lsas area'))
    (hother : ∀ databases store, other.get (kind.set databases store) = other.get databases) :
    other.lsas area' = other.lsas area := by
  rw [lsas, heq, hother]
  rfl

theorem consistent_of_set {κ' α' : Type} [HasHeader α'] {other : LSAKind κ' α'}
    (hcons : other.Consistent area)
    (heq : area'.toDatabases = kind.set area.toDatabases (kind.lsas area'))
    (hother : ∀ databases store, other.get (kind.set databases store) = other.get databases) :
    other.Consistent area' := by
  rw [Consistent, lsas_of_set other heq hother]
  exact hcons

/-- Whatever else happens in the tick. -/
theorem AgedTo.congr (h : kind.AgedTo area₁ area') (hlsas : kind.lsas area₁ = kind.lsas area)
    (hlsas' : kind.lsas area'' = kind.lsas area') (hflooded : area'.flooded ⊆ area''.flooded) :
    kind.AgedTo area area'' := by
  intro p hp lsa hlsa hlt
  rw [← hlsas] at hp hlsa
  obtain ⟨lsa', hmem, hlsa', hages⟩ := h p hp lsa hlsa hlt
  rw [← hlsas'] at hmem hlsa'
  exact ⟨lsa', hmem, hlsa', hages.imp_right (Or.imp_right (And.imp_right fun h => hflooded h))⟩

end LSAKind

namespace Area

open LSAKind (lsas ageLSAs_spec consistent_of_set lsas_of_set install_spec)

variable {area area' : Area}

/-- The vectors and the maps hold the same LSAs, each under its own ID. -/
structure Consistent (area : Area) : Prop where
  routers : routerLSAs.Consistent area
  networks : networkLSAs.Consistent area
  summaries : summaryLSAs.Consistent area

/-- Every LSA that has not reached `MAX_AGE` ages. -/
structure AgedTo (area area' : Area) : Prop where
  routers : routerLSAs.AgedTo area area'
  networks : networkLSAs.AgedTo area area'
  summaries : summaryLSAs.AgedTo area area'

/-- Every LSA that the tick meets is fit: none is stuck, and none is updated with an LSA that has
another ID. -/
def FitAll (area : Area) : Prop :=
  routerLSAs.FitAll { area with flooded := [] } ∧
    ∀ area₁, routerLSAs.ageLSAs { area with flooded := [] } = .ok area₁ → networkLSAs.FitAll area₁ ∧
        ∀ area₂, networkLSAs.ageLSAs area₁ = .ok area₂ → summaryLSAs.FitAll area₂

theorem consistent_of_databases (h : area.Consistent)
    (heq : area'.toDatabases = area.toDatabases) : area'.Consistent := by
  obtain ⟨hrouters, hnetworks, hsummaries⟩ := h
  unfold LSAKind.Consistent lsas at hrouters hnetworks hsummaries
  rw [← heq] at hrouters hnetworks hsummaries
  exact ⟨hrouters, hnetworks, hsummaries⟩

theorem consistent_initial (origination : Origination.Area) (routing : Routing) :
    (initial origination routing).Consistent :=
  ⟨ObjectStore.consistent_empty, ObjectStore.consistent_empty, ObjectStore.consistent_empty⟩

section

variable (hcons : area.Consistent)

include hcons

theorem ageDatabase_spec (hfit : area.FitAll) :
    ∃ area', area.ageDatabase = .ok area' ∧ area'.Consistent ∧ area.AgedTo area' := by
  have hrouters : routerLSAs.Consistent { area with flooded := [] } := hcons.routers
  obtain ⟨area₁, hage₁, hcons₁, ⟨heq₁, -⟩, haged₁⟩ := ageLSAs_spec hrouters hfit.1
  have hnetworks₁ : networkLSAs.Consistent area₁ :=
    consistent_of_set hcons.networks heq₁ fun _ _ => rfl
  have hsummaries₁ : summaryLSAs.Consistent area₁ :=
    consistent_of_set hcons.summaries heq₁ fun _ _ => rfl
  have hfit₁ := hfit.2 area₁ hage₁
  obtain ⟨area₂, hage₂, hcons₂, ⟨heq₂, hflooded₂⟩, haged₂⟩ :=
    ageLSAs_spec hnetworks₁ hfit₁.1
  have hrouters₂ := consistent_of_set hcons₁ heq₂ fun _ _ => rfl
  have hsummaries₂ := consistent_of_set hsummaries₁ heq₂ fun _ _ => rfl
  obtain ⟨area₃, hage₃, hcons₃, ⟨heq₃, hflooded₃⟩, haged₃⟩ :=
    ageLSAs_spec hsummaries₂ (hfit₁.2 area₂ hage₂)
  have hrouters₃ := consistent_of_set hrouters₂ heq₃ fun _ _ => rfl
  have hnetworks₃ := consistent_of_set hcons₂ heq₃ fun _ _ => rfl
  refine ⟨area₃, ?_, ⟨hrouters₃, hnetworks₃, hcons₃⟩, ⟨?_, ?_, ?_⟩⟩
  · rw [ageDatabase, hage₁, ok_bind, hage₂, ok_bind, hage₃]
  · refine haged₁.congr rfl ?_ (List.Subset.trans hflooded₂ hflooded₃)
    rw [lsas_of_set routerLSAs heq₃ fun _ _ => rfl, lsas_of_set routerLSAs heq₂ fun _ _ => rfl]
  · refine haged₂.congr ?_ ?_ hflooded₃
    · rw [lsas_of_set networkLSAs heq₁ fun _ _ => rfl]
      rfl
    · rw [lsas_of_set networkLSAs heq₃ fun _ _ => rfl]
  · refine haged₃.congr ?_ rfl (List.Subset.refl _)
    rw [lsas_of_set summaryLSAs heq₂ fun _ _ => rfl, lsas_of_set summaryLSAs heq₁ fun _ _ => rfl]
    rfl

theorem Consistent.of_routers (h : routerLSAs.Consistent area')
    (heq : area'.toDatabases = routerLSAs.set area.toDatabases (lsas routerLSAs area')) :
    area'.Consistent :=
  ⟨h, consistent_of_set hcons.networks heq fun _ _ => rfl,
    consistent_of_set hcons.summaries heq fun _ _ => rfl⟩

theorem Consistent.of_networks (h : networkLSAs.Consistent area')
    (heq : area'.toDatabases = networkLSAs.set area.toDatabases (lsas networkLSAs area')) :
    area'.Consistent :=
  ⟨consistent_of_set hcons.routers heq fun _ _ => rfl, h,
    consistent_of_set hcons.summaries heq fun _ _ => rfl⟩

theorem renewRouterLSA_spec : ∃ area', area.renewRouterLSA = .ok area' ∧ area'.Consistent := by
  unfold renewRouterLSA
  dsimp only
  cases hfind : (lsas routerLSAs area).byKey area.routerID with
  | none =>
    obtain ⟨area', hinstall, hcons', heq⟩ :=
      install_spec hcons.routers area.origination.originateRouterLSA
    dsimp only
    rw [hinstall]
    exact ⟨_, rfl, consistent_of_databases (hcons.of_routers hcons' heq) rfl⟩
  | some p =>
    obtain ⟨lsa, hlsa, hkey⟩ := ObjectStore.Consistent.heap_of_byKey hcons.routers hfind
    simp only [hlsa]
    split_ifs
    · refine ⟨_, rfl, hcons.of_routers ?_ LSAKind.frame_flush.toDatabases_eq⟩
      exact ObjectStore.Consistent.write hcons.routers hlsa rfl
    · refine ⟨_, rfl, hcons.of_routers ?_ LSAKind.frame_refresh.toDatabases_eq⟩
      refine ObjectStore.Consistent.write hcons.routers hlsa (Eq.trans ?_ hkey.symm)
      exact congrArg OSPFLSAHeader.linkStateID (header_originateRouterLSA area.origination)

theorem flushNetworkLSA_spec (intf : Origination.Interface) :
    ∃ area', area.flushNetworkLSA intf = .ok area' ∧ area'.Consistent := by
  unfold flushNetworkLSA
  cases hfind : (lsas networkLSAs area).byKey intf.interfaceAddressRange.address with
  | none => exact ⟨area, rfl, hcons⟩
  | some p =>
    obtain ⟨lsa, hlsa, -⟩ := ObjectStore.Consistent.heap_of_byKey hcons.networks hfind
    simp only [hlsa]
    refine ⟨_, rfl, hcons.of_networks ?_ LSAKind.frame_flush.toDatabases_eq⟩
    exact ObjectStore.Consistent.write hcons.networks hlsa rfl

theorem renewNetworkLSA_spec (intf : Origination.Interface) :
    ∃ area', area.renewNetworkLSA intf = .ok area' ∧ area'.Consistent := by
  unfold renewNetworkLSA
  cases area.originateNetworkLSA intf with
  | none => exact flushNetworkLSA_spec hcons intf
  | some newLSA =>
    obtain ⟨area', hinstall, hcons', heq⟩ := install_spec hcons.networks newLSA
    dsimp only
    rw [hinstall]
    exact ⟨_, rfl, consistent_of_databases (hcons.of_networks hcons' heq) rfl⟩

theorem doIf_spec {cond : Bool} {f : Area → Result Area}
    (h : ∃ area', f area = .ok area' ∧ area'.Consistent) :
    ∃ area', area.doIf cond f = .ok area' ∧ area'.Consistent := by
  unfold doIf
  split_ifs
  · exact h
  · exact ⟨area, rfl, hcons⟩

theorem changeState_spec (i : ℕ) (nextState : InterfaceState) :
    ∃ area', area.changeState i nextState = .ok area' ∧ area'.Consistent := by
  unfold changeState
  cases area.associatedInterfaces[i]? with
  | none => exact ⟨area, rfl, hcons⟩
  | some intf =>
    have hcons₀ : (area.withInterfaces (area.associatedInterfaces.set i
        { intf with state := nextState })).Consistent := consistent_of_databases hcons rfl
    obtain ⟨area₁, h₁, hcons₁⟩ := doIf_spec hcons₀ (renewRouterLSA_spec hcons₀)
    obtain ⟨area₂, h₂, hcons₂⟩ := @doIf_spec area₁ hcons₁
      (nextState == .DESIGNATED_ROUTER_STATE)
      (fun area => area.renewNetworkLSA intf) (renewNetworkLSA_spec hcons₁ intf)
    dsimp only
    rw [h₁, ok_bind, h₂, ok_bind]
    exact doIf_spec (f := fun area => area.flushNetworkLSA intf) hcons₂
      (flushNetworkLSA_spec hcons₂ intf)

end

/-- What an event may meet. -/
def Admits (area : Area) : Event → Prop
  | .ageDatabase => area.FitAll
  | _ => True

theorem step_spec (hcons : area.Consistent) (event : Event) (hadmits : area.Admits event) :
    ∃ area', step area event = .ok area' ∧ area'.Consistent ∧
      (event = .ageDatabase → area.AgedTo area') := by
  cases event with
  | installRouterLSA lsa =>
    obtain ⟨area', hinstall, hcons', heq⟩ := install_spec hcons.routers lsa
    exact ⟨area', hinstall, hcons.of_routers hcons' heq, nofun⟩
  | installNetworkLSA lsa =>
    obtain ⟨area', hinstall, hcons', heq⟩ := install_spec hcons.networks lsa
    exact ⟨area', hinstall, hcons.of_networks hcons' heq, nofun⟩
  | installSummaryLSA lsa =>
    obtain ⟨area', hinstall, hcons', heq⟩ := install_spec hcons.summaries lsa
    have hrouters := consistent_of_set hcons.routers heq fun _ _ => rfl
    have hnetworks := consistent_of_set hcons.networks heq fun _ _ => rfl
    exact ⟨area', hinstall, ⟨hrouters, hnetworks, hcons'⟩, nofun⟩
  | changeState i nextState =>
    obtain ⟨area', hchange, hcons'⟩ := changeState_spec hcons i nextState
    exact ⟨area', hchange, hcons', nofun⟩
  | change origination routing =>
    rw [step]
    split_ifs
    · exact ⟨_, rfl, consistent_of_databases hcons rfl, nofun⟩
    · exact ⟨area, rfl, hcons, nofun⟩
  | ageDatabase =>
    obtain ⟨area', hage, hcons', haged⟩ := ageDatabase_spec hcons hadmits
    exact ⟨area', hage, hcons', fun _ => haged⟩

/-- In every run in which the ticks meet fit LSAs only, the vectors and the maps hold the same LSAs
in every state, and every LSA ages at every tick. -/
theorem ages_along (origination : Origination.Area) (routing : Routing) (events : List Event)
    (h : Run.Admissible step Admits (initial origination routing) events) :
    Run.Always step Consistent (initial origination routing) events ∧
      Run.Along step (fun area event area' => event = .ageDatabase → area.AgedTo area')
        (initial origination routing) events := by
  have hinitial := consistent_initial origination routing
  refine ⟨?_, ?_⟩
  · refine Run.always_of_step (fun area event hcons hadmits => ?_) hinitial h
    obtain ⟨area', hstep, hcons', -⟩ := step_spec hcons event hadmits
    exact ⟨area', hstep, hcons'⟩
  · exact Run.along_of_step (fun area event hcons hadmits => step_spec hcons event hadmits)
      hinitial h

end Area

/-! ## A network LSA that comes back to the designated router -/

/-- The interface that a network LSA is about, in a given state. -/
def networkInterface (state : InterfaceState) : Origination.Interface where
  ifIndex := 1
  interfaceType := .BROADCAST
  state
  designatedRouter := NULL_DESIGNATEDROUTERID
  interfaceAddressRange := ⟨0x0A000001, 0xFFFFFF00⟩
  interfaceOutputCost := 1
  neighboringRouters := [{ neighborID := 2, address := 0x0A000002, state := .FULL }]

def singleInterface (state : InterfaceState) : Origination.Area where
  areaID := 0
  parentRouter := ⟨1, 1, false, none⟩
  externalRoutingCapability := true
  associatedInterfaces := [networkInterface state]
  hostRoutes := []

/-- All destinations are reachable, and the routing table has no entries. -/
def plainRouting : Routing where
  isDestinationUnreachable _ _ := false
  summaries _ :=
    { areaID := 0
      parentRouter := ⟨1, [], [], fun _ => none⟩
      externalRoutingCapability := true
      transitCapability := false
      summaryLSAsByID := .empty }
  floodLSA _ interfaces := interfaces

def agedNetworkLSA (lsAge : Uint16) : NetworkLSA where
  header := ⟨lsAge, NETWORKLSA_TYPE, 0x0A000001, 1, 5⟩
  networkMask := 0xFFFFFF00
  attachedRouters := [1, 2]

/-- The LSA is the only one of the area. -/
def singleLSA (state : InterfaceState) (lsAge : Uint16) : Area :=
  { Area.initial (singleInterface state) plainRouting with
    networkLSAs := ObjectStore.empty.insert 0x0A000001 (agedNetworkLSA lsAge) }

/-- The designated router installs its own network LSA with an age above `LS_REFRESH_TIME`, as
another router has sent it back. At the next tick the LSA keeps its age. -/
theorem keeps_age_of_designated :
    ¬ Run.Along step (fun area event area' => event = .ageDatabase → area.AgedTo area')
      (Area.initial (singleInterface .BACKUP_STATE) plainRouting)
      [.changeState 0 .DESIGNATED_ROUTER_STATE, .installNetworkLSA (agedNetworkLSA 2000),
        .ageDatabase] := by
  rintro ⟨area₁, h₁, -, area₂, h₂, -, area₃, h₃, haged, -⟩
  cases h₁
  cases h₂
  cases h₃
  obtain ⟨lsa', -, hlsa', hages⟩ :=
    (haged rfl).networks 0 List.mem_cons_self (agedNetworkLSA 2000) rfl (by decide)
  obtain rfl : agedNetworkLSA 2000 = lsa' := Option.some.inj hlsa'
  obtain ⟨hage, -⟩ | ⟨hage, -⟩ | ⟨hage, -⟩ := hages
  · exact absurd hage (by decide)
  · exact absurd hage (by decide)
  · exact absurd hage (by decide)

theorem fitAt_of_not_selfOriginated {p : ℕ} {area : Area} (lsa : NetworkLSA)
    (hp : (networkLSAs.lsas area).heap p = some lsa)
    (h : networkLSAs.selfOriginated area lsa.header = false) : networkLSAs.FitAt area p := by
  intro lsa' hlsa'
  obtain rfl : lsa = lsa' := Option.some.inj (hp.symm.trans hlsa')
  refine ⟨fun hstuck => ?_, fun hrenewed => ?_⟩
  · exact absurd (h.symm.trans hstuck.1) (by decide)
  · exact absurd (h.symm.trans hrenewed.selfOriginated) (by decide)

theorem fitAll_singleLSA : (singleLSA .BACKUP_STATE 5).FitAll := by
  refine ⟨trivial, fun area₁ hage₁ => ?_⟩
  cases hage₁
  refine ⟨⟨fitAt_of_not_selfOriginated (agedNetworkLSA 5) rfl rfl, fun _ _ => trivial⟩, ?_⟩
  intro area₂ hage₂
  cases hage₂
  trivial

/-- The LSA of another router becomes a second older. -/
theorem ages_along_of_backup :
    Run.Always step Area.Consistent (Area.initial (singleInterface .BACKUP_STATE) plainRouting)
        [.installNetworkLSA (agedNetworkLSA 5), .ageDatabase] ∧
      Run.Along step (fun area event area' => event = .ageDatabase → area.AgedTo area')
        (Area.initial (singleInterface .BACKUP_STATE) plainRouting)
        [.installNetworkLSA (agedNetworkLSA 5), .ageDatabase] := by
  refine Area.ages_along _ _ _ ⟨trivial, fun area hinstall => ?_⟩
  obtain rfl := Except.ok.inj hinstall
  exact ⟨fitAll_singleLSA, fun _ _ => trivial⟩

end Inet.Ospf.Aging
