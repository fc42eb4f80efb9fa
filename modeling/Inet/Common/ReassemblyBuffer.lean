import Inet.Common.Basic

/-!
# The reassembly buffer

`ReassemblyBuffer` collects the fragments of a datagram. It keeps one range of offsets
that it extends as long as fragments connect to it, and puts the others aside until the
gap is filled.

The buffer relies on the fragments being pieces of one datagram. Then it reports
completion exactly when all pieces are there (`addFragments_complete`). For arbitrary
fragments everything up to the total length has been added when it reports completion, but
a fragment that begins where the last one ends is counted as well (`addFragments_sound`).
-/

namespace Inet

namespace ReassemblyBuffer

/-- A range of offsets. The source has `ushort` offsets, which it only compares. -/
structure Region where
  /-- First offset stored. -/
  beg : ℕ
  /-- Last offset stored plus one. -/
  «end» : ℕ
  /-- Whether the region represents the last bytes of the datagram. -/
  islast : Bool
deriving DecidableEq

end ReassemblyBuffer

structure ReassemblyBuffer where
  main : ReassemblyBuffer.Region := ⟨0, 0, false⟩
  fragments : List ReassemblyBuffer.Region := []

namespace ReassemblyBuffer

/-- What the loop of `mergeFragments` does with one stored fragment: the new main range if
the fragment is taken in and deleted. -/
def takeIn (main frag : Region) : Option Region :=
  if main.end = frag.beg then
    some { main with «end» := frag.end, islast := main.islast || frag.islast }
  else if main.beg = frag.end then
    some { main with beg := frag.beg }
  else if main.beg ≤ frag.beg ∧ main.end ≥ frag.end then
    -- we already have this region
    some main
  else none

/-- One pass over the stored fragments: the new main range, the fragments that are left,
and whether any has been deleted. -/
def mergePass : Region → List Region → Region × List Region × Bool
  | main, [] => (main, [], false)
  | main, frag :: frags =>
    match takeIn main frag with
    | some main =>
      let (main, frags, _) := mergePass main frags
      (main, frags, true)
    | none =>
      let (main, frags, oncemore) := mergePass main frags
      (main, frag :: frags, oncemore)

/-- Passes until none deletes a fragment. -/
def mergeFragments : ℕ → Region → List Region → Result (Region × List Region)
  | 0, _, _ => .error .outOfFuel
  | fuel + 1, main, frags =>
    match mergePass main frags with
    | (main, frags, true) => mergeFragments fuel main frags
    | (main, frags, false) => .ok (main, frags)

def merge (buffer : ReassemblyBuffer) (frag : Region) : Result ReassemblyBuffer :=
  let fuel := buffer.fragments.length + 1
  if buffer.main.end = frag.beg then do
    -- most typical case: the new fragment follows the last one
    let main := { buffer.main with
      «end» := frag.end, islast := buffer.main.islast || frag.islast }
    let (main, fragments) ← mergeFragments fuel main buffer.fragments
    .ok { main, fragments }
  else if buffer.main.beg = frag.end then do
    let (main, fragments) ←
      mergeFragments fuel { buffer.main with beg := frag.beg } buffer.fragments
    .ok { main, fragments }
  else if buffer.main.end < frag.beg ∨ buffer.main.beg > frag.end then
    -- disjoint, stored until another fragment fills in the gap
    .ok { buffer with fragments := buffer.fragments ++ [frag] }
  else
    .ok buffer

def addFragment (buffer : ReassemblyBuffer) (frag : Region) : Result (Bool × ReassemblyBuffer) := do
  let buffer ← buffer.merge frag
  .ok (buffer.main.beg == 0 && buffer.main.islast, buffer)

def getTotalLength (buffer : ReassemblyBuffer) : ℕ := buffer.main.end

section

variable {main main' frag : Region} {frags : List Region} {fuel : ℕ} {P : Region → Prop}

/-- A fragment that is taken in lies within the new main range. -/
structure Extends (main main' : Region) : Prop where
  beg : main'.beg = 0
  «end» : main.end ≤ main'.end

theorem takeIn_spec (hmain : main.beg = 0) (hfrag : frag.beg < frag.end)
    (h : takeIn main frag = some main') : Extends main main' ∧ frag.end ≤ main'.end := by
  unfold takeIn at h
  split_ifs at h with h₁ h₂ h₃
  · cases h
    exact ⟨⟨hmain, by simp only; omega⟩, Nat.le_refl _⟩
  · omega
  · cases h
    exact ⟨⟨hmain, Nat.le_refl _⟩, h₃.2⟩

/-- What one pass does. `P` is any property of the main range that taking in a fragment
keeps. -/
theorem mergePass_spec (keeps : ∀ m f m', f ∈ frags → m.beg = 0 → P m → takeIn m f = some m' → P m')
    (proper : ∀ f ∈ frags, f.beg < f.end) (hmain : main.beg = 0) (hP : P main) :
    ∃ main' frags' oncemore, mergePass main frags = (main', frags', oncemore) ∧
      Extends main main' ∧ P main' ∧ frags'.Sublist frags ∧
      (∀ f ∈ frags, f ∈ frags' ∨ f.end ≤ main'.end) ∧
      (oncemore = true → frags'.length < frags.length) ∧
      (oncemore = false → ∀ f ∈ frags', takeIn main' f = none) := by
  suffices h : ∃ main' frags' oncemore, mergePass main frags = (main', frags', oncemore) ∧
      Extends main main' ∧ P main' ∧ frags'.Sublist frags ∧
      (∀ f ∈ frags, f ∈ frags' ∨ f.end ≤ main'.end) ∧
      (oncemore = true → frags'.length < frags.length) ∧
      (oncemore = false → main' = main ∧ ∀ f ∈ frags', takeIn main f = none) by
    obtain ⟨main', frags', oncemore, h₁, h₂, h₃, h₄, h₅, h₆, h₇⟩ := h
    refine ⟨main', frags', oncemore, h₁, h₂, h₃, h₄, h₅, h₆, fun hmore => ?_⟩
    obtain ⟨rfl, hnone⟩ := h₇ hmore
    exact hnone
  induction frags generalizing main with
  | nil =>
    refine ⟨main, [], false, rfl, ⟨hmain, Nat.le_refl _⟩, hP, List.Sublist.refl _, ?_⟩
    simp
  | cons frag frags ih =>
    have keeps' := fun m f m' (hf : f ∈ frags) => keeps m f m' (List.mem_cons_of_mem _ hf)
    have proper' := fun f hf => proper f (List.mem_cons_of_mem _ hf)
    have hfrag := proper frag List.mem_cons_self
    cases htake : takeIn main frag with
    | some m =>
      obtain ⟨hext, hend⟩ := takeIn_spec hmain hfrag htake
      obtain ⟨main', frags', oncemore, hpass, hext', hP', hsub, hleft, -, -⟩ :=
        ih keeps' proper' hext.beg (keeps main frag m List.mem_cons_self hmain hP htake)
      refine ⟨main', frags', true, ?_, ⟨hext'.beg, hext.end.trans hext'.end⟩, hP',
        hsub.cons frag, ?_, ?_, by simp⟩
      · simp only [mergePass, htake, hpass]
      · exact List.forall_mem_cons.mpr ⟨.inr (hend.trans hext'.end), hleft⟩
      · intro _
        exact Nat.lt_succ_of_le hsub.length_le
    | none =>
      obtain ⟨main', frags', oncemore, hpass, hext, hP', hsub, hleft, hless, hnone⟩ :=
        ih keeps' proper' hmain hP
      refine ⟨main', frag :: frags', oncemore, ?_, hext, hP', hsub.cons_cons frag, ?_, ?_, ?_⟩
      · simp only [mergePass, htake, hpass]
      · exact List.forall_mem_cons.mpr ⟨.inl List.mem_cons_self,
          fun f hf => (hleft f hf).imp_left (List.mem_cons_of_mem _)⟩
      · intro hmore
        exact Nat.succ_lt_succ (hless hmore)
      · intro hmore
        obtain ⟨rfl, hnone⟩ := hnone hmore
        exact ⟨rfl, List.forall_mem_cons.mpr ⟨htake, hnone⟩⟩

/-- The passes end, and what is left cannot be taken in. -/
theorem mergeFragments_spec
    (keeps : ∀ m f m', f ∈ frags → m.beg = 0 → P m → takeIn m f = some m' → P m')
    (proper : ∀ f ∈ frags, f.beg < f.end) (hmain : main.beg = 0) (hP : P main)
    (hfuel : frags.length < fuel) :
    ∃ main' frags', mergeFragments fuel main frags = .ok (main', frags') ∧
      Extends main main' ∧ P main' ∧ frags'.Sublist frags ∧
      (∀ f ∈ frags, f ∈ frags' ∨ f.end ≤ main'.end) ∧
      ∀ f ∈ frags', takeIn main' f = none := by
  induction fuel generalizing main frags with
  | zero => omega
  | succ fuel ih =>
    obtain ⟨main₁, frags₁, oncemore, hpass, hext, hP₁, hsub, hleft, hless, hnone⟩ :=
      mergePass_spec keeps proper hmain hP
    cases oncemore with
    | false =>
      refine ⟨main₁, frags₁, ?_, hext, hP₁, hsub, hleft, hnone rfl⟩
      simp only [mergeFragments, hpass]
    | true =>
      have hlen := hless rfl
      obtain ⟨main', frags', hmerge, hext', hP', hsub', hleft', hnone'⟩ :=
        ih (fun m f m' hf => keeps m f m' (hsub.mem hf)) (fun f hf => proper f (hsub.mem hf))
          hext.beg hP₁ (by omega)
      refine ⟨main', frags', ?_, ⟨hext'.beg, hext.end.trans hext'.end⟩, hP',
        hsub'.trans hsub, ?_, hnone'⟩
      · simp only [mergeFragments, hpass, hmerge]
      · intro f hf
        obtain hin | hle := hleft f hf
        · exact hleft' f hin
        · exact .inr (hle.trans hext'.end)

/-- What merging one fragment does. It is taken in like a stored one, put aside, or
dropped because it begins within the main range. -/
theorem merge_spec {buffer : ReassemblyBuffer}
    (keeps : ∀ m f m', f ∈ buffer.fragments ++ [frag] → m.beg = 0 → P m →
      takeIn m f = some m' → P m') (proper : ∀ f ∈ buffer.fragments ++ [frag], f.beg < f.end)
    (hmain : buffer.main.beg = 0) (hP : P buffer.main)
    (hnone : ∀ f ∈ buffer.fragments, takeIn buffer.main f = none) :
    ∃ buffer', buffer.merge frag = .ok buffer' ∧ Extends buffer.main buffer'.main ∧
      P buffer'.main ∧ buffer'.fragments ⊆ buffer.fragments ++ [frag] ∧
      (∀ f ∈ buffer.fragments ++ [frag], f ∈ buffer'.fragments ∨ f.beg < buffer'.main.end) ∧
      ∀ f ∈ buffer'.fragments, takeIn buffer'.main f = none := by
  have hfrag : frag.beg < frag.end := proper frag (by simp)
  unfold merge
  by_cases hfollow : buffer.main.end = frag.beg
  · have htake : takeIn buffer.main frag = some { buffer.main with
        «end» := frag.end, islast := buffer.main.islast || frag.islast } := if_pos hfollow
    obtain ⟨hext, hend⟩ := takeIn_spec hmain hfrag htake
    obtain ⟨main', frags', hmerge, hext', hP', hsub, hleft, hnone'⟩ :=
      mergeFragments_spec (fun m f m' hf => keeps m f m' (List.mem_append_left _ hf))
        (fun f hf => proper f (List.mem_append_left _ hf)) hext.beg
        (keeps _ frag _ (by simp) hmain hP htake) (Nat.lt_succ_self _)
    refine ⟨⟨main', frags'⟩, ?_, ⟨hext'.beg, hext.end.trans hext'.end⟩, hP', ?_, ?_, hnone'⟩
    · simp only [if_pos hfollow, hmerge, ok_bind]
    · exact fun f hf => List.mem_append_left _ (hsub.mem hf)
    · intro f hf
      have hbeg := proper f hf
      obtain hf | hf := List.mem_append.mp hf
      · exact (hleft f hf).imp_right hbeg.trans_le
      · obtain rfl := List.mem_singleton.mp hf
        exact .inr (hfrag.trans_le (hend.trans hext'.end))
  · have hprecede : buffer.main.beg ≠ frag.end := by omega
    by_cases hdisjoint : buffer.main.end < frag.beg ∨ buffer.main.beg > frag.end
    · have hbeg : buffer.main.end < frag.beg := by omega
      have htake : takeIn buffer.main frag = none := by
        unfold takeIn
        rw [if_neg hfollow, if_neg hprecede, if_neg (by omega)]
      refine ⟨{ buffer with fragments := buffer.fragments ++ [frag] }, ?_,
        ⟨hmain, Nat.le_refl _⟩, hP, List.Subset.refl _, fun f hf => .inl hf, ?_⟩
      · rw [if_neg hfollow, if_neg hprecede, if_pos hdisjoint]
      · intro f hf
        obtain hf | hf := List.mem_append.mp hf
        · exact hnone f hf
        · obtain rfl := List.mem_singleton.mp hf
          exact htake
    · refine ⟨buffer, ?_, ⟨hmain, Nat.le_refl _⟩, hP, List.subset_append_left _ _, ?_, hnone⟩
      · rw [if_neg hfollow, if_neg hprecede, if_neg hdisjoint]
      · intro f hf
        obtain hf | hf := List.mem_append.mp hf
        · exact .inl hf
        · obtain rfl := List.mem_singleton.mp hf
          exact .inr (by omega)

/-- The fragments of `added` in the order of the calls, on an empty buffer. The result has
the answer to the last call. -/
def addFragments (added : List Region) : Result (Bool × ReassemblyBuffer) :=
  added.foldlM (fun state frag => state.2.addFragment frag) (false, {})

theorem addFragments_concat (added : List Region) (frag : Region) : addFragments (added ++ [frag]) =
      addFragments added >>= fun state => state.2.addFragment frag := by
  simp only [addFragments, List.foldlM_append, List.foldlM_cons, List.foldlM_nil, bind_pure]

/-- The buffer after the fragments of `added`. Each of them is stored or begins within the
main range, and none of the stored ones could be taken in. -/
structure Holds (P : Region → Prop) (added : List Region) (buffer : ReassemblyBuffer) :
    Prop where
  beg : buffer.main.beg = 0
  main : P buffer.main
  stored : buffer.fragments ⊆ added
  taken : ∀ f ∈ added, f ∈ buffer.fragments ∨ f.beg < buffer.main.end
  apart : ∀ f ∈ buffer.fragments, takeIn buffer.main f = none

variable {added : List Region} {buffer : ReassemblyBuffer}

theorem Holds.addFragment (h : Holds P added buffer)
    (keeps : ∀ m f m', f ∈ added ++ [frag] → m.beg = 0 → P m → takeIn m f = some m' → P m')
    (proper : ∀ f ∈ added ++ [frag], f.beg < f.end) :
    ∃ buffer', buffer.addFragment frag = .ok (buffer'.main.islast, buffer') ∧
      Holds P (added ++ [frag]) buffer' := by
  have hmem : buffer.fragments ++ [frag] ⊆ added ++ [frag] := by
    intro f hf
    exact List.mem_append.mpr ((List.mem_append.mp hf).imp_left (@h.stored f))
  obtain ⟨buffer', hmerge, hext, hP, hsub, htaken, hnone⟩ :=
    merge_spec (fun m f m' hf => keeps m f m' (hmem hf)) (fun f hf => proper f (hmem hf))
      h.beg h.main h.apart
  refine ⟨buffer', ?_, hext.beg, hP, fun f hf => hmem (hsub hf), ?_, hnone⟩
  · simp [ReassemblyBuffer.addFragment, hmerge, hext.beg]
  · intro f hf
    obtain hf | hf := List.mem_append.mp hf
    · obtain hin | hbeg := h.taken f hf
      · exact htaken f (List.mem_append_left _ hin)
      · exact .inr (hbeg.trans_le hext.end)
    · exact htaken f (List.mem_append_right _ hf)

/-- No call fails, and the answer is whether the main range has taken in a last fragment. -/
theorem addFragments_spec (start : P ⟨0, 0, false⟩)
    (keeps : ∀ m f m', f ∈ added → m.beg = 0 → P m → takeIn m f = some m' → P m')
    (proper : ∀ f ∈ added, f.beg < f.end) :
    ∃ buffer, addFragments added = .ok (buffer.main.islast, buffer) ∧ Holds P added buffer := by
  induction added using List.reverseRecOn with
  | nil => exact ⟨{}, rfl, rfl, start, List.Subset.refl _, by simp, by simp⟩
  | append_singleton added frag ih =>
    obtain ⟨buffer, hadded, hholds⟩ :=
      ih (fun m f m' hf => keeps m f m' (List.mem_append_left _ hf))
        (fun f hf => proper f (List.mem_append_left _ hf))
    obtain ⟨buffer', hadd, hholds'⟩ := hholds.addFragment keeps proper
    refine ⟨buffer', ?_, hholds'⟩
    rw [addFragments_concat, hadded, ok_bind, hadd]

/-- A last fragment has been added that ends at `n`, or before `n` where another of the
added fragments begins. -/
def LastBefore (added : List Region) (n : ℕ) : Prop :=
  ∃ f ∈ added, f.islast = true ∧ (f.end = n ∨ f.end < n ∧ ∃ g ∈ added, g.beg = f.end)

/-- What holds of the main range for arbitrary fragments. -/
structure Sound (added : List Region) (main : Region) : Prop where
  covered : ∀ x < main.end, ∃ f ∈ added, f.beg ≤ x ∧ x < f.end
  last : main.islast = true → LastBefore added main.end

theorem Sound.takeIn (h : Sound added main) (hfrag : frag ∈ added)
    (proper : frag.beg < frag.end) (hbeg : main.beg = 0)
    (htake : takeIn main frag = some main') : Sound added main' := by
  unfold ReassemblyBuffer.takeIn at htake
  split_ifs at htake with hfollow
  · cases htake
    constructor
    · intro x hx
      by_cases hlt : x < main.end
      · exact h.covered x hlt
      · exact ⟨frag, hfrag, by omega, hx⟩
    · intro hlast
      obtain hlast | hlast := Bool.or_eq_true_iff.mp hlast
      · obtain ⟨f, hf, hflast, hend⟩ := h.last hlast
        refine ⟨f, hf, hflast, .inr ?_⟩
        obtain hend | ⟨hlt, hbegins⟩ := hend
        · exact ⟨by simp only; omega, frag, hfrag, by omega⟩
        · exact ⟨by simp only; omega, hbegins⟩
      · exact ⟨frag, hfrag, hlast, .inl rfl⟩
  · omega
  · cases htake
    exact h

/-- `ps` are the consecutive non-empty pieces of `[b,n)`, of which the final one is last. -/
inductive Pieces (n : ℕ) : ℕ → List Region → Prop where
  | final {b : ℕ} (proper : b < n) : Pieces n b [⟨b, n, true⟩]
  | cons {b e : ℕ} {ps : List Region} (proper : b < e) (rest : Pieces n e ps) :
      Pieces n b (⟨b, e, false⟩ :: ps)

variable {n b : ℕ} {ps : List Region} {p q : Region}

section

variable (h : Pieces n b ps)

include h

theorem Pieces.lt : b < n := by
  induction h with
  | final proper => exact proper
  | cons proper _ ih => exact proper.trans ih

theorem Pieces.bounds (hp : p ∈ ps) :
    b ≤ p.beg ∧ p.beg < p.end ∧ p.end ≤ n := by
  induction h with
  | final proper =>
    obtain rfl := List.mem_singleton.mp hp
    exact ⟨Nat.le_refl _, proper, Nat.le_refl _⟩
  | cons proper rest ih =>
    obtain rfl | hp := List.mem_cons.mp hp
    · exact ⟨Nat.le_refl _, proper, rest.lt.le⟩
    · obtain ⟨hb, hbounds⟩ := ih hp
      exact ⟨proper.le.trans hb, hbounds⟩

theorem Pieces.islast_iff (hp : p ∈ ps) : p.islast = true ↔ p.end = n := by
  induction h with
  | final _ => simp [List.mem_singleton.mp hp]
  | cons _ rest ih =>
    obtain rfl | hp := List.mem_cons.mp hp
    · simp [rest.lt.ne]
    · exact ih hp

/-- Two pieces are the same or do not overlap. -/
theorem Pieces.apart (hp : p ∈ ps) (hq : q ∈ ps) :
    p = q ∨ p.end ≤ q.beg ∨ q.end ≤ p.beg := by
  induction h with
  | final _ => exact .inl ((List.mem_singleton.mp hp).trans (List.mem_singleton.mp hq).symm)
  | cons _ rest ih =>
    obtain rfl | hp := List.mem_cons.mp hp <;> obtain rfl | hq := List.mem_cons.mp hq
    · exact .inl rfl
    · exact .inr (.inl (rest.bounds hq).1)
    · exact .inr (.inr (rest.bounds hp).1)
    · exact ih hp hq

theorem Pieces.exists_mem {x : ℕ} (hb : b ≤ x) (hx : x < n) :
    ∃ p ∈ ps, p.beg ≤ x ∧ x < p.end := by
  induction h with
  | final _ => exact ⟨_, List.mem_cons_self, hb, hx⟩
  | @cons b e ps _ _ ih =>
    by_cases he : x < e
    · exact ⟨⟨b, e, false⟩, List.mem_cons_self, hb, he⟩
    · obtain ⟨p, hp, hcover⟩ := ih (by omega)
      exact ⟨p, List.mem_cons_of_mem _ hp, hcover⟩

end

/-- What holds of the main range when the fragments are pieces of one datagram: it ends
between two pieces, and the pieces within it have been added. -/
structure Fits (n : ℕ) (ps added : List Region) (main : Region) : Prop where
  le : main.end ≤ n
  between : ∀ p ∈ ps, p.end ≤ main.end ∨ main.end ≤ p.beg
  within : ∀ p ∈ ps, p.end ≤ main.end → p ∈ added
  last : main.islast = true ↔ main.end = n

theorem Pieces.fits_empty (h : Pieces n 0 ps) : Fits n ps added ⟨0, 0, false⟩ where
  le := Nat.zero_le _
  between _ _ := .inr (Nat.zero_le _)
  within p hp hend := by
    have := h.bounds hp
    exact absurd hend (by simp only; omega)
  last := by simp [h.lt.ne]

theorem Fits.takeIn (h : Fits n ps added main) (hps : Pieces n 0 ps) (hadded : frag ∈ added)
    (hfrag : frag ∈ ps) (hbeg : main.beg = 0) (htake : takeIn main frag = some main') :
    Fits n ps added main' := by
  have hbounds := hps.bounds hfrag
  unfold ReassemblyBuffer.takeIn at htake
  split_ifs at htake with hfollow
  · cases htake
    constructor
    · exact hbounds.2.2
    · intro p hp
      show p.end ≤ frag.end ∨ frag.end ≤ p.beg
      obtain rfl | hend | hend := hps.apart hp hfrag
      · exact .inl (Nat.le_refl _)
      · exact .inl (hend.trans hbounds.2.1.le)
      · exact .inr hend
    · intro p hp hle
      obtain rfl | hend | hend := hps.apart hp hfrag
      · exact hadded
      · exact h.within p hp (hend.trans hfollow.ge)
      · have := hps.bounds hp
        exact absurd hle (by simp only; omega)
    · have hnot : main.islast = false := by
        rw [← Bool.not_eq_true, h.last]
        omega
      simp [hnot, hps.islast_iff hfrag]
  · omega
  · cases htake
    exact h

/-- The main range is the whole datagram just in case all pieces have been added. -/
theorem Holds.end_eq_iff (hps : Pieces n 0 ps) {buffer : ReassemblyBuffer}
    (h : Holds (Fits n ps added) added buffer) :
    buffer.main.end = n ↔ ∀ p ∈ ps, p ∈ added := by
  constructor
  · intro hend p hp
    exact h.main.within p hp (hend ▸ (hps.bounds hp).2.2)
  · intro hall
    by_contra hne
    obtain ⟨p, hp, hbeg, hlt⟩ := hps.exists_mem (Nat.zero_le _) (h.main.le.lt_of_ne hne)
    have hfollow : buffer.main.end = p.beg := by
      have := h.main.between p hp
      omega
    obtain hstored | hwithin := h.taken p (hall p hp)
    · have hnone := h.apart p hstored
      simp [ReassemblyBuffer.takeIn, hfollow] at hnone
    · omega

end

variable {added : List Region}

/-- Arbitrary fragments: when the last call answers true, all offsets up to the total length
have been added, and a last fragment that ends there or at the beginning of another
fragment before it. -/
theorem addFragments_sound (proper : ∀ f ∈ added, f.beg < f.end) :
    ∃ complete buffer, addFragments added = .ok (complete, buffer) ∧ (complete = true →
        (∀ x < buffer.getTotalLength, ∃ f ∈ added, f.beg ≤ x ∧ x < f.end) ∧
          LastBefore added buffer.getTotalLength) := by
  have keeps : ∀ m f m', f ∈ added → m.beg = 0 → Sound added m → takeIn m f = some m' →
      Sound added m' :=
    fun m f m' hf hbeg hsound => hsound.takeIn hf (proper f hf) hbeg
  obtain ⟨buffer, hadd, hholds⟩ :=
    addFragments_spec ⟨by simp, by simp⟩ keeps proper
  exact ⟨_, buffer, hadd, fun hlast => ⟨hholds.main.covered, hholds.main.last hlast⟩⟩

/-- Pieces of one datagram, in any order and with duplicates: the last call answers true
just in case all pieces have been added, and the total length is then that of the
datagram. -/
theorem addFragments_complete {n : ℕ} {ps : List Region} (hps : Pieces n 0 ps)
    (drawn : ∀ f ∈ added, f ∈ ps) :
    ∃ complete buffer, addFragments added = .ok (complete, buffer) ∧
      (complete = true ↔ ∀ p ∈ ps, p ∈ added) ∧
      (complete = true → buffer.getTotalLength = n) := by
  have proper : ∀ f ∈ added, f.beg < f.end := fun f hf => (hps.bounds (drawn f hf)).2.1
  have keeps : ∀ m f m', f ∈ added → m.beg = 0 → Fits n ps added m → takeIn m f = some m' →
      Fits n ps added m' :=
    fun m f m' hf hbeg hfits => hfits.takeIn hps hf (drawn f hf) hbeg
  obtain ⟨buffer, hadd, hholds⟩ := addFragments_spec hps.fits_empty keeps proper
  refine ⟨_, buffer, hadd, ?_, hholds.main.last.mp⟩
  exact hholds.main.last.trans (Holds.end_eq_iff hps hholds)

/-- The whole contract of `addFragment`: what its answer means for arbitrary fragments, and
that it is exact for the pieces of one datagram. -/
theorem addFragments_reassembles (added : List Region) (proper : ∀ f ∈ added, f.beg < f.end) :
    ∃ complete buffer, addFragments added = .ok (complete, buffer) ∧ (complete = true →
        (∀ x < buffer.getTotalLength, ∃ f ∈ added, f.beg ≤ x ∧ x < f.end) ∧
          LastBefore added buffer.getTotalLength) ∧
      ∀ n ps, Pieces n 0 ps → (∀ f ∈ added, f ∈ ps) → (complete = true ↔ ∀ p ∈ ps, p ∈ added) ∧
          (complete = true → buffer.getTotalLength = n) := by
  obtain ⟨complete, buffer, hadd, hsound⟩ := addFragments_sound proper
  refine ⟨complete, buffer, hadd, hsound, fun n ps hps drawn => ?_⟩
  obtain ⟨complete', buffer', hadd', hcomplete⟩ := addFragments_complete hps drawn
  obtain ⟨rfl, rfl⟩ := Prod.mk.inj (Except.ok.inj (hadd.symm.trans hadd'))
  exact hcomplete

/-- Three pieces, the last one first. -/
theorem addFragments_reassembles_three :
    ∃ buffer, addFragments [⟨4, 6, true⟩, ⟨0, 2, false⟩, ⟨2, 4, false⟩] = .ok (true, buffer) ∧
      buffer.getTotalLength = 6 := by
  obtain ⟨complete, buffer, hadd, -, hcomplete⟩ := addFragments_reassembles
    [⟨4, 6, true⟩, ⟨0, 2, false⟩, ⟨2, 4, false⟩] (by decide)
  have hps : Pieces 6 0 [⟨0, 2, false⟩, ⟨2, 4, false⟩, ⟨4, 6, true⟩] :=
    .cons (by decide) (.cons (by decide) (.final (by decide)))
  obtain ⟨hiff, htotal⟩ := hcomplete 6 _ hps (by decide)
  obtain rfl : complete = true := hiff.mpr (by decide)
  exact ⟨buffer, hadd, htotal rfl⟩

/-- A fragment that begins where the last one ends is counted in the total length, and no
last fragment ends there. -/
theorem addFragments_counts_behind_last :
    ∃ buffer, addFragments [⟨0, 1, true⟩, ⟨1, 2, false⟩] = .ok (true, buffer) ∧
      ¬ ∃ f ∈ [(⟨0, 1, true⟩ : Region), ⟨1, 2, false⟩],
        f.islast = true ∧ f.end = buffer.getTotalLength :=
  ⟨⟨⟨0, 2, true⟩, []⟩, rfl, by decide⟩

end ReassemblyBuffer

end Inet
