import Inet.Library.Intervals
import Inet.Library.Lists
import Inet.Tcp.Segment

/-!
# The region queue of a TCP receiver

`TCPVirtualDataRcvQueue` keeps the received parts of the sequence space as a list of
regions. What a region carries besides its end points is left to the subclasses, so
the queue is generic in the type of its regions; `RegionClass` lists the members that
a subclass may override.

On positions the queue is a list of separated intervals and `merge` is
`Intervals.absorb` (`mergeLoop_spec`). `Layout` is the invariant of the queue: the
first region is the in-order data up to `rcv_nxt`, if there is any.
-/

namespace Inet.Tcp

open SerialNumber (ofPos Near)
open List (Forall₂)
open Intervals (absorb cover hull)
open List

/-- The members of a region. `merge` and `split` are the virtual ones. -/
class RegionClass (ρ : Type) where
  getBegin : ρ → Uint32
  getEnd : ρ → Uint32
  /-- The region extended by the other one, `none` for `false`. -/
  merge : ρ → ρ → Option ρ
  /-- The new region `[begin, seq)` and what is left of the old one. -/
  split : ρ → Uint32 → Result (ρ × ρ)

open RegionClass

/-- The base class of the regions: the end points only. -/
structure Region where
  begin : Uint32
  «end» : Uint32
deriving DecidableEq

def Region.merge (self other : Region) : Option Region :=
  if seqLess self.end other.begin || seqLess other.end self.begin then none
  else
    some
      { begin := if seqLess other.begin self.begin then other.begin else self.begin
        «end» := if seqLess self.end other.end then other.end else self.end }

def Region.split (self : Region) (seq : Uint32) : Result (Region × Region) := do
  assert (seqGreater seq self.begin && seqLess seq self.end)
    "seqGreater(seq, begin) && seqLess(seq, end)"
  .ok (⟨self.begin, seq⟩, { self with begin := seq })

instance : RegionClass Region where
  getBegin := Region.begin
  getEnd := Region.end
  merge := Region.merge
  split := Region.split

inductive CompareStatus where
  | BEFORE
  | BEFORE_TOUCH
  | OVERLAP
  | AFTER_TOUCH
  | AFTER
deriving DecidableEq

section

variable {ρ : Type} [RegionClass ρ]

def compare (self other : ρ) : CompareStatus :=
  if getEnd self = getBegin other then .BEFORE_TOUCH
  else if getBegin self = getEnd other then .AFTER_TOUCH
  else if seqLess (getEnd self) (getBegin other) then .BEFORE
  else if seqLess (getEnd other) (getBegin self) then .AFTER
  else .OVERLAP

def getLength (self : ρ) : ℕ := (getEnd self - getBegin self).toNat

/-- The loop of `merge`, over the regions from the last to the first. -/
def mergeLoop : List ρ → ρ → Result (List ρ)
  | [], seg => .ok [seg]
  | i :: rest, seg =>
    match compare i seg with
    | .BEFORE => .ok (seg :: i :: rest)
    | .AFTER => do
        let rest ← mergeLoop rest seg
        .ok (i :: rest)
    | _ =>
      match merge seg i with
      | some seg => mergeLoop rest seg
      | none =>
        .error (.cRuntimeError
          "Model error: merge of region [%u,%u) with [%u,%u) unsuccessful")

end

structure TCPVirtualDataRcvQueue (ρ : Type) where
  rcvNxt : Uint32
  regionList : List ρ := []
deriving DecidableEq

namespace TCPVirtualDataRcvQueue

variable {ρ : Type} [RegionClass ρ]

def init (startSeq : Uint32) : TCPVirtualDataRcvQueue ρ := { rcvNxt := startSeq }

def merge (queue : TCPVirtualDataRcvQueue ρ) (seg : ρ) : Result (TCPVirtualDataRcvQueue ρ) := do
  let regions ← mergeLoop queue.regionList.reverse seg
  .ok { queue with regionList := regions.reverse }

/-- The check of the debug build, that all regions lie in half of the sequence space. -/
def outOfRange (queue : TCPVirtualDataRcvQueue ρ) (region : ρ) : Bool :=
  match queue.regionList.head?, queue.regionList.getLast? with
  | some front, some back =>
    let ob := getBegin front
    let oe := getEnd back
    let nb := getBegin region
    let ne := getEnd region
    let minb := seqMin ob nb
    let maxe := seqMax oe ne
    seqGE minb oe || seqGE minb ne || seqGE ob maxe || seqGE nb maxe
  | _, _ => false

/-- The step behind `merge`: `rcv_nxt` moves to the end of the first region that it
has reached. -/
def updateRcvNxt (queue : TCPVirtualDataRcvQueue ρ) : TCPVirtualDataRcvQueue ρ :=
  match queue.regionList.head? with
  | some front =>
    if seqGE queue.rcvNxt (getBegin front) then { queue with rcvNxt := getEnd front }
    else queue
  | none => queue

/-- `insertBytesFromSegment`, behind the virtual `createRegionFromSegment`. The value
that it returns is the `rcvNxt` of the new queue. -/
def insertRegion (queue : TCPVirtualDataRcvQueue ρ) (region : ρ) :
    Result (TCPVirtualDataRcvQueue ρ) := do
  if queue.outOfRange region then
    throw (.cRuntimeError
      "The new segment is [%u, %u) out of the acceptable range at the queue %s")
  let queue ← queue.merge region
  .ok queue.updateRcvNxt

def extractTo (queue : TCPVirtualDataRcvQueue ρ) (seq : Uint32) :
    Result (Option ρ × TCPVirtualDataRcvQueue ρ) := do
  assert (seqLE seq queue.rcvNxt) "seqLE(seq, rcv_nxt)"
  match queue.regionList with
  | [] => .ok (none, queue)
  | reg :: rest =>
    if seqLE seq (getBegin reg) then .ok (none, queue)
    else if seqGE seq (getEnd reg) then .ok (some reg, { queue with regionList := rest })
    else do
      let (front, back) ← split reg seq
      .ok (some front, { queue with regionList := back :: rest })

def getAmountOfBufferedBytes (queue : TCPVirtualDataRcvQueue ρ) : Uint32 :=
  queue.regionList.foldl (fun bytes elem => bytes + BitVec.ofNat 32 (getLength elem)) 0

def getAmountOfFreeBytes (queue : TCPVirtualDataRcvQueue ρ) (maxRcvBuffer : Uint32) : Uint32 :=
  let usedRcvBuffer := queue.getAmountOfBufferedBytes
  let freeRcvBuffer := maxRcvBuffer - usedRcvBuffer
  if maxRcvBuffer > usedRcvBuffer then freeRcvBuffer else 0

def getLE (queue : TCPVirtualDataRcvQueue ρ) (fromSeqNum : Uint32) : Uint32 :=
  match queue.regionList.find? fun i =>
      seqLE (getBegin i) fromSeqNum && seqLess fromSeqNum (getEnd i) with
  | some i => getBegin i
  | none => fromSeqNum

def getRE (queue : TCPVirtualDataRcvQueue ρ) (toSeqNum : Uint32) : Uint32 :=
  match queue.regionList.find? fun i =>
      seqLess (getBegin i) toSeqNum && seqLE toSeqNum (getEnd i) with
  | some i => getEnd i
  | none => toSeqNum

def getFirstSeqNo (queue : TCPVirtualDataRcvQueue ρ) : Uint32 :=
  match queue.regionList.head? with
  | none => queue.rcvNxt
  | some front => seqMin (getBegin front) queue.rcvNxt

end TCPVirtualDataRcvQueue

section

variable {ρ : Type} [RegionClass ρ] {s0 : Uint32} {a : ℕ} {r s : ρ} {i j : ℕ × ℕ}

/-- The region lies at the positions `[i.1, i.2)` of a stream that starts at `s0`. -/
def At (s0 : Uint32) (r : ρ) (i : ℕ × ℕ) : Prop :=
  getBegin r = ofPos s0 i.1 ∧ getEnd r = ofPos s0 i.2

/-- The interval lies in the half of the sequence space that starts at position `a`. -/
def InWindow (a : ℕ) (i : ℕ × ℕ) : Prop := a ≤ i.1 ∧ i.1 ≤ i.2 ∧ i.2 < a + 2 ^ 31

theorem InWindow.fst (hi : InWindow a i) : a ≤ i.1 ∧ i.1 < a + 2 ^ 31 :=
  ⟨hi.1, hi.2.1.trans_lt hi.2.2⟩

theorem InWindow.snd (hi : InWindow a i) : a ≤ i.2 ∧ i.2 < a + 2 ^ 31 :=
  ⟨hi.1.trans hi.2.1, hi.2.2⟩

theorem InWindow.hull (hi : InWindow a i) (hj : InWindow a j) :
    InWindow a (Intervals.hull i j) := by
  simp only [InWindow, Intervals.hull] at *
  omega

/-- Intervals that touch are not apart as serial numbers. -/
theorem InWindow.not_apart (hi : InWindow a i) (hj : InWindow a j)
    (touches : Intervals.Touches i j) :
    (seqLess (ofPos s0 i.2) (ofPos s0 j.1) || seqLess (ofPos s0 j.2) (ofPos s0 i.1)) = false := by
  rw [seqLess_ofPos (near_of_window hi.snd hj.fst), seqLess_ofPos (near_of_window hj.snd hi.fst),
    Bool.or_eq_false_iff, decide_eq_false_iff_not, decide_eq_false_iff_not, not_lt, not_lt]
  exact touches.symm

section

variable (hr : At s0 r i) (hs : At s0 s j) (hi : InWindow a i) (hj : InWindow a j)

include hr hs hi hj

/-- On positions, `compare` is a comparison of intervals. -/
theorem compare_of_at : compare r s = if i.2 = j.1 then .BEFORE_TOUCH
      else if i.1 = j.2 then .AFTER_TOUCH
      else if i.2 < j.1 then .BEFORE
      else if j.2 < i.1 then .AFTER
      else .OVERLAP := by
  have before := near_of_window hi.snd hj.fst
  have after := near_of_window hj.snd hi.fst
  simp only [compare, hr.1, hr.2, hs.1, hs.2, ofPos_eq_iff before, ofPos_eq_iff after.symm,
    seqLess_ofPos before, seqLess_ofPos after, decide_eq_true_eq]

theorem compare_eq_before_iff : compare r s = .BEFORE ↔ i.2 < j.1 := by
  rw [compare_of_at hr hs hi hj]
  grind [InWindow]

theorem compare_eq_after_iff : compare r s = .AFTER ↔ j.2 < i.1 := by
  rw [compare_of_at hr hs hi hj]
  grind [InWindow]

end

/-- The two equations of the loop that a caller needs: it stops, it passes on, or it
takes the stored region in. -/
theorem mergeLoop_cons_before {l : List ρ} (h : compare r s = .BEFORE) :
    mergeLoop (r :: l) s = .ok (s :: r :: l) := by
  simp only [mergeLoop, h]

theorem mergeLoop_cons_after {l l' : List ρ} (h : compare r s = .AFTER)
    (hl : mergeLoop l s = .ok l') : mergeLoop (r :: l) s = .ok (r :: l') := by
  simp only [mergeLoop, h, hl, ok_bind]

theorem mergeLoop_cons_merge {l : List ρ} {s' : ρ} (hb : compare r s ≠ .BEFORE)
    (ha : compare r s ≠ .AFTER) (hm : merge s r = some s') :
    mergeLoop (r :: l) s = mergeLoop l s' := by
  cases hc : compare r s <;> simp_all [mergeLoop]

/-- What the list of regions looks like once a segment is in: the segment has become
one region, which lies at `i`, and the regions around it are old ones. -/
structure Merged (Good Seg : ρ → ℕ × ℕ → Prop) (l : List ρ) (is : List (ℕ × ℕ))
    (r : ρ) (i : ℕ × ℕ) : Prop where
  regions : Forall₂ (fun r i => Good r i ∨ Seg r i) l is
  seg : Seg r i
  mem : r ∈ l
  mem_pos : i ∈ is

/-- The loop of `merge` is `absorb`. `Good` is what is known of a stored region and its
interval, `Seg` what is known of the region being inserted, and `takes` says that a
merge keeps the latter. -/
theorem mergeLoop_spec {Good Seg : ρ → ℕ × ℕ → Prop}
    (good_at : ∀ r i, Good r i → At s0 r i) (seg_at : ∀ r i, Seg r i → At s0 r i)
    {l : List ρ} {is : List (ℕ × ℕ)} (good : Forall₂ Good l is)
    (window : ∀ i ∈ is, InWindow a i)
    (takes : ∀ r s i j, i ∈ is → Good r i → Seg s j → InWindow a j → Intervals.Touches j i →
      ∃ s', merge s r = some s' ∧ Seg s' (hull j i))
    (hs : Seg s j) (hj : InWindow a j) :
    ∃ l' r i, mergeLoop l s = .ok l' ∧ Merged Good Seg l' (absorb is j) r i ∧
      i.1 ≤ j.1 ∧ j.2 ≤ i.2 := by
  induction good generalizing s j with
  | nil =>
    refine ⟨[s], s, j, rfl, ⟨?_, hs, ?_, ?_⟩, le_rfl, le_rfl⟩
    · exact .cons (.inr hs) .nil
    · exact mem_singleton_self s
    · exact mem_singleton_self j
  | @cons r i l is hr good ih =>
    have hi := window i mem_cons_self
    have window' : ∀ i ∈ is, InWindow a i := fun i hi => window i (mem_cons_of_mem _ hi)
    have takes' := fun r s i j (h : i ∈ is) => takes r s i j (mem_cons_of_mem _ h)
    have before := compare_eq_before_iff (good_at r i hr) (seg_at s j hs) hi hj
    have after := compare_eq_after_iff (good_at r i hr) (seg_at s j hs) hi hj
    rw [absorb]
    by_cases hb : i.2 < j.1
    · rw [if_pos hb]
      refine ⟨s :: r :: l, s, j, mergeLoop_cons_before (before.mpr hb), ⟨?_, hs, ?_, ?_⟩,
        le_rfl, le_rfl⟩
      · exact .cons (.inr hs) (.cons (.inl hr) (good.imp fun _ _ h => .inl h))
      · exact mem_cons_self
      · exact mem_cons_self
    · by_cases ha : j.2 < i.1
      · obtain ⟨l', r', i', hloop, merged, hle⟩ := ih window' takes' hs hj
        rw [if_neg hb, if_pos ha]
        refine ⟨r :: l', r', i', mergeLoop_cons_after (after.mpr ha) hloop,
          ⟨.cons (.inl hr) merged.regions, merged.seg, ?_, ?_⟩, hle⟩
        · exact mem_cons_of_mem _ merged.mem
        · exact mem_cons_of_mem _ merged.mem_pos
      · have touches := Intervals.touches_of_not_lt hb ha
        obtain ⟨s', hmerge, hs'⟩ := takes r s i j mem_cons_self hr hs hj touches
        obtain ⟨l', r', i', hloop, merged, h₁, h₂⟩ := ih window' takes' hs' (hj.hull hi)
        rw [if_neg hb, if_neg ha]
        refine ⟨l', r', i', ?_, merged, ?_, ?_⟩
        · rw [mergeLoop_cons_merge (mt before.mp hb) (mt after.mp ha) hmerge, hloop]
        · exact h₁.trans (min_le_left _ _)
        · exact (le_max_left _ _).trans h₂

end

section

variable {ρ : Type} {s0 : Uint32} {queue : TCPVirtualDataRcvQueue ρ} {is : List (ℕ × ℕ)}
variable {first next : ℕ} {j : ℕ × ℕ} {Good : ρ → ℕ × ℕ → Prop}

/-- The invariant of the queue: the stored data lies in the half of the sequence space
behind the position `first`, up to which everything has been extracted, and the part of
it that `rcv_nxt` has passed is the single region from `first` to `rcv_nxt`. -/
structure Layout (s0 : Uint32) (Good : ρ → ℕ × ℕ → Prop) (queue : TCPVirtualDataRcvQueue ρ)
    (is : List (ℕ × ℕ)) (first next : ℕ) : Prop where
  regions : Forall₂ Good queue.regionList is
  rcvNxt : queue.rcvNxt = ofPos s0 next
  ascending : Intervals.Ascending is
  proper : Intervals.Proper is
  window : ∀ i ∈ is, InWindow first i
  next_window : first ≤ next ∧ next < first + 2 ^ 31
  inOrder : next = first ∨ (first, next) ∈ is
  ahead : ∀ i ∈ is, i.1 ≤ next → i = (first, next)

/-- Adding an interval keeps the intervals in the window. -/
theorem window_insert (window : ∀ i ∈ is, InWindow first i) (hj : InWindow first j)
    (proper : Intervals.Proper (Intervals.insert is j)) :
    ∀ i ∈ Intervals.insert is j, InWindow first i := by
  intro i hi
  have ends := @Intervals.endpoints_insert _ _ is j (fun x => first ≤ x ∧ x < first + 2 ^ 31)
    (fun i hi => ⟨(window i hi).fst, (window i hi).snd⟩) ⟨hj.fst, hj.snd⟩ i hi
  exact ⟨ends.1.1, (proper i hi).le, ends.2.2⟩

namespace Layout

theorem init (s0 : Uint32) (Good : ρ → ℕ × ℕ → Prop) : Layout s0 Good (.init s0) [] 0 0 := by
  refine ⟨.nil, ?_, .nil, ?_, ?_, ?_, .inl rfl, ?_⟩ <;>
    simp [TCPVirtualDataRcvQueue.init, Intervals.Proper]

section

variable (hq : Layout s0 Good queue is first next)

include hq

/-- Data that has been passed by `rcv_nxt` and not extracted is stored. -/
theorem mem_cover {x : ℕ} (h₁ : first ≤ x) (h₂ : x < next) : x ∈ cover is := by
  obtain hnext | hin := hq.inOrder
  · omega
  · exact Intervals.mem_cover_of_mem hin h₁ h₂

theorem next_le {n : ℕ} (hfirst : first ≤ n) (his : ∀ i ∈ is, i.2 ≤ n) : next ≤ n := by
  obtain hnext | hin := hq.inOrder
  · omega
  · exact his _ hin

/-- Where the first region is once an interval behind `rcv_nxt` has been added: it is the
data from `first` on if `rcv_nxt` has reached it, and else nothing is in order. -/
theorem head_insert (hj : InWindow first j) (hlt : j.1 < j.2) {f : ℕ × ℕ} {rest : List (ℕ × ℕ)}
    (hf : Intervals.insert is j = f :: rest) :
    (f.1 ≤ next ∧ f.1 = first ∧ next ≤ f.2) ∨ (next < f.1 ∧ next = first) := by
  have proper := hq.proper.insert hlt
  have ascending := @Intervals.Ascending.insert _ _ _ j hq.ascending hq.proper.le
  have window := window_insert hq.window hj proper
  have hmem : f ∈ Intervals.insert is j := hf ▸ mem_cons_self
  have hlow := (window f hmem).1
  obtain hnext | hin := hq.inOrder
  · have := (window f hmem).2.1
    omega
  · have hfn : first < next := hq.proper _ hin
    obtain ⟨i, hi, hif, hni⟩ := ascending.exists_of_Ico_subset hfn fun x h₁ h₂ =>
      Intervals.mem_cover_insert.mpr (.inl (Intervals.mem_cover_of_mem hin h₁ h₂))
    have hle : f.1 ≤ i.1 := by
      rw [hf] at ascending proper hi
      exact ascending.head_le proper.le hi
    have hpf := proper f hmem
    obtain rfl : f = i :=
      @Intervals.Ascending.eq_of_mem _ _ _ _ _ first ascending hmem hi (by omega) (by omega)
    omega

/-- Unless the first region is the in-order data, nothing is in order. -/
theorem next_eq_of_head (h : ∀ f ∈ is.head?, next < f.1) : next = first := by
  obtain hnext | hin := hq.inOrder
  · exact hnext
  · cases his : is with
    | nil => simp [his] at hin
    | cons f rest =>
      have hlt := h f (by simp [his])
      have hle : f.1 ≤ first := by
        rw [his] at hin
        exact (his ▸ hq.ascending).head_le (his ▸ hq.proper).le hin
      have := hq.next_window.1
      omega

end

/-- Without its first region the queue is one from which that region has been extracted. -/
theorem tail {r : ρ} {l : List ρ} {rcvNxt : Uint32} {rest : List (ℕ × ℕ)}
    (hq : Layout s0 Good ⟨rcvNxt, r :: l⟩ ((first, next) :: rest) first next) :
    Layout s0 Good ⟨rcvNxt, l⟩ rest next next := by
  have hascending := pairwise_cons.mp hq.ascending
  obtain ⟨-, hproper⟩ := forall_mem_cons.mp hq.proper
  obtain ⟨-, hwindow⟩ := forall_mem_cons.mp hq.window
  obtain ⟨-, hregions⟩ := forall₂_cons.mp hq.regions
  have hnext := hq.next_window
  refine ⟨hregions, hq.rcvNxt, hascending.2, hproper, ?_, ⟨le_rfl, by omega⟩, .inl rfl, ?_⟩
  · intro i hi
    have hbehind := hascending.1 i hi
    have := hwindow i hi
    exact ⟨hbehind.le, this.2.1, this.2.2.trans_le (by omega)⟩
  · intro i hi hle
    have := hascending.1 i hi
    omega

/-- With its first region cut at `p` the queue is one extracted up to `p`. -/
theorem cut {p : ℕ} {r r' : ρ} {l : List ρ} {rcvNxt : Uint32} {rest : List (ℕ × ℕ)}
    (hq : Layout s0 Good ⟨rcvNxt, r :: l⟩ ((first, next) :: rest) first next)
    (h₁ : first < p) (h₂ : p < next) (hr : Good r' (p, next)) :
    Layout s0 Good ⟨rcvNxt, r' :: l⟩ ((p, next) :: rest) p next := by
  have hascending := pairwise_cons.mp hq.ascending
  obtain ⟨-, hproper⟩ := forall_mem_cons.mp hq.proper
  obtain ⟨-, hwindow⟩ := forall_mem_cons.mp hq.window
  obtain ⟨-, hregions⟩ := forall₂_cons.mp hq.regions
  have hnext := hq.next_window
  refine ⟨.cons hr hregions, hq.rcvNxt, pairwise_cons.mpr hascending, ?_, ?_,
    ⟨h₂.le, by omega⟩, .inr mem_cons_self, ?_⟩
  · exact forall_mem_cons.mpr ⟨h₂, hproper⟩
  · refine forall_mem_cons.mpr ⟨⟨le_rfl, h₂.le, by simp only; omega⟩, fun i hi => ?_⟩
    have hbehind : next < i.1 := hascending.1 i hi
    have := hwindow i hi
    exact ⟨by omega, this.2.1, this.2.2.trans_le (by omega)⟩
  · refine forall_mem_cons.mpr ⟨fun _ => rfl, fun i hi hle => ?_⟩
    have hbehind : next < i.1 := hascending.1 i hi
    omega

end Layout

end

section

variable {ρ : Type} [RegionClass ρ] {s0 : Uint32} {s : ρ} {j : ℕ × ℕ}

namespace TCPVirtualDataRcvQueue

variable {queue : TCPVirtualDataRcvQueue ρ} {is : List (ℕ × ℕ)} {first next : ℕ}
variable {Good Seg : ρ → ℕ × ℕ → Prop}

/-- Data within the window passes the range check of the debug build. -/
theorem outOfRange_eq_false (hq : Layout s0 (At s0) queue is first next) (hs : At s0 s j)
    (hj : InWindow first j) (hlt : j.1 < j.2) : queue.outOfRange s = false := by
  obtain ⟨rcvNxt, regionList⟩ := queue
  obtain ⟨regions, -, ascending, proper, window, -⟩ := hq
  cases regions with
  | nil => rfl
  | @cons front f regionList is hf regions =>
    cases hback : (front :: regionList).getLast? with
    | none => simp [outOfRange, hback]
    | some back =>
      obtain ⟨b, hb, hbat⟩ :=
        (Forall₂.cons hf regions).exists_of_mem_left (mem_of_getLast? hback)
      have hfw := window f mem_cons_self
      have hbw := window b hb
      have hfb : f.1 ≤ b.1 := ascending.head_le proper.le hb
      have hbb := proper b hb
      have hmin := near_of_window hfw.fst hj.fst
      have hmax := near_of_window hbw.snd hj.snd
      have window_min : first ≤ min f.1 j.1 ∧ min f.1 j.1 < first + 2 ^ 31 := by
        have := hfw.fst; have := hj.fst; omega
      have window_max : first ≤ max b.2 j.2 ∧ max b.2 j.2 < first + 2 ^ 31 := by
        have := hbw.snd; have := hj.snd; omega
      simp only [outOfRange, head?_cons, hback, hf.1, hbat.2, hs.1, hs.2,
        seqMin_ofPos hmin, seqMax_ofPos hmax, seqGE_ofPos (near_of_window window_min hbw.snd),
        seqGE_ofPos (near_of_window window_min hj.snd),
        seqGE_ofPos (near_of_window hfw.fst window_max),
        seqGE_ofPos (near_of_window hj.fst window_max)]
      simp only [Bool.or_eq_false_iff, decide_eq_false_iff_not]
      omega

/-- `merge` adds the interval of the segment to the intervals of the regions. -/
theorem merge_spec (good_at : ∀ r i, Good r i → At s0 r i) (seg_at : ∀ r i, Seg r i → At s0 r i)
    (hq : Layout s0 Good queue is first next)
    (takes : ∀ r s i j, i ∈ is → Good r i → Seg s j → InWindow first j →
      Intervals.Touches j i → ∃ s', RegionClass.merge s r = some s' ∧ Seg s' (hull j i))
    (hs : Seg s j) (hj : InWindow first j) :
    ∃ l r i, queue.merge s = .ok { queue with regionList := l } ∧
      Merged Good Seg l (Intervals.insert is j) r i ∧ i.1 ≤ j.1 ∧ j.2 ≤ i.2 := by
  obtain ⟨l, r, i, hloop, merged, hle⟩ := mergeLoop_spec good_at seg_at
    (forall₂_reverse_iff.mpr hq.regions)
    (fun i hi => hq.window i (mem_reverse.mp hi))
    (fun r s i j hi => takes r s i j (mem_reverse.mp hi)) hs hj
  refine ⟨l.reverse, r, i, ?_, ⟨?_, merged.seg, ?_, ?_⟩, hle⟩
  · simp only [merge, hloop, ok_bind]
  · exact forall₂_reverse_iff.mpr merged.regions
  · exact mem_reverse.mpr merged.mem
  · exact mem_reverse.mpr merged.mem_pos

@[simp] theorem updateRcvNxt_regionList (queue : TCPVirtualDataRcvQueue ρ) :
    queue.updateRcvNxt.regionList = queue.regionList := by
  simp only [updateRcvNxt]
  split
  · split <;> rfl
  · rfl

theorem updateRcvNxt_cons {front : ρ} {f : ℕ × ℕ} {l : List ρ} (hf : At s0 front f)
    (near : Near 32 next f.1) :
    (⟨ofPos s0 next, front :: l⟩ : TCPVirtualDataRcvQueue ρ).updateRcvNxt =
      ⟨ofPos s0 (if f.1 ≤ next then f.2 else next), front :: l⟩ := by
  simp only [updateRcvNxt, head?_cons, hf.1, hf.2, seqGE_ofPos near, decide_eq_true_eq]
  split <;> rfl

/-- The step behind `merge` restores the invariant, and `rcv_nxt` never moves back. -/
theorem updateRcvNxt_spec (good_at : ∀ r i, Good r i → At s0 r i)
    (hq : Layout s0 Seg queue is first next) (hj : InWindow first j) (hlt : j.1 < j.2)
    {l : List ρ} (hl : Forall₂ Good l (Intervals.insert is j)) :
    ∃ next', next ≤ next' ∧
      Layout s0 Good ({ queue with regionList := l }.updateRcvNxt) (Intervals.insert is j)
        first next' := by
  have proper := hq.proper.insert hlt
  have ascending := @Intervals.Ascending.insert _ _ _ j hq.ascending hq.proper.le
  have window := window_insert hq.window hj proper
  cases hins : Intervals.insert is j with
  | nil =>
    obtain ⟨i, hi, -⟩ := (@Intervals.mem_cover_insert _ _ is j j.1).mpr (.inr ⟨le_rfl, hlt⟩)
    simp [hins] at hi
  | cons f rest =>
    have cases_head := hq.head_insert hj hlt hins
    rw [hins] at hl ascending proper window
    obtain ⟨front, l, hf, hrest, rfl⟩ := forall₂_cons_right_iff.mp hl
    have hfw := window f mem_cons_self
    have apart : ∀ k ∈ f :: rest, k = f ∨ f.2 < k.1 := fun k hk =>
      (mem_cons.mp hk).imp_right ((pairwise_cons.mp ascending).1 k)
    rw [hq.rcvNxt, updateRcvNxt_cons (good_at front f hf)
      (near_of_window hq.next_window hfw.fst)]
    obtain ⟨hle, hfirst, hnext⟩ | ⟨hgt, hfirst⟩ := cases_head
    · refine ⟨f.2, hnext, hl, ?_, ascending, proper, window, hfw.snd, ?_, ?_⟩
      · rw [if_pos hle]
      · exact .inr (hfirst ▸ mem_cons_self)
      · intro k hk hkf
        obtain rfl | hlt := apart k hk
        · rw [← hfirst]
        · omega
    · refine ⟨next, le_rfl, hl, ?_, ascending, proper, window, hq.next_window, .inl hfirst, ?_⟩
      · rw [if_neg (by omega)]
      · intro k hk hkn
        have hpf := proper f mem_cons_self
        obtain rfl | hlt := apart k hk <;> omega

/-- What insertion does to a queue whose segment lies behind `first` and within the
window. The segment has become part of a region; the others are old ones. -/
theorem insertRegion_spec (good_at : ∀ r i, Good r i → At s0 r i)
    (seg_at : ∀ r i, Seg r i → At s0 r i) (hq : Layout s0 Good queue is first next)
    (takes : ∀ r s i j, i ∈ is → Good r i → Seg s j → InWindow first j →
      Intervals.Touches j i → ∃ s', RegionClass.merge s r = some s' ∧ Seg s' (hull j i))
    (hs : Seg s j) (hj : InWindow first j) (hlt : j.1 < j.2) :
    ∃ queue' next' r i, queue.insertRegion s = .ok queue' ∧
      Layout s0 (fun r i => Good r i ∨ Seg r i) queue' (Intervals.insert is j) first next' ∧
      Merged Good Seg queue'.regionList (Intervals.insert is j) r i ∧
      i.1 ≤ j.1 ∧ j.2 ≤ i.2 ∧ next ≤ next' := by
  have range := outOfRange_eq_false
    { hq with regions := hq.regions.imp good_at } (seg_at s j hs) hj hlt
  obtain ⟨l, r, i, hmerge, merged, h₁, h₂⟩ := merge_spec good_at seg_at hq takes hs hj
  obtain ⟨next', hnext, layout⟩ := updateRcvNxt_spec
    (fun r i h => h.elim (good_at r i) (seg_at r i)) hq hj hlt merged.regions
  refine ⟨_, next', r, i, ?_, layout, ?_, h₁, h₂, hnext⟩
  · simp only [insertRegion, range, hmerge, ok_bind, Bool.false_eq_true, ↓reduceIte]
  · simpa only [updateRcvNxt_regionList] using merged

/-- `extractTo` takes the in-order data up to `p` out of the queue, if there is any, and
nothing else. -/
theorem extractTo_spec (good_at : ∀ r i, Good r i → At s0 r i)
    (splits : ∀ r i m, Good r i → i.1 < m → m < i.2 → i.2 < i.1 + 2 ^ 31 →
      ∃ r₁ r₂, split r (ofPos s0 m) = .ok (r₁, r₂) ∧ Good r₁ (i.1, m) ∧ Good r₂ (m, i.2))
    (hq : Layout s0 Good queue is first next) {p : ℕ} (hp : p ≤ next) (hnear : next < p + 2 ^ 31)
    (hends : ∀ i ∈ is, i.2 < p + 2 ^ 31) :
    (p ≤ first ∧ queue.extractTo (ofPos s0 p) = .ok (none, queue)) ∨
      (first < p ∧ ∃ r queue' is', queue.extractTo (ofPos s0 p) = .ok (some r, queue') ∧
        Good r (first, p) ∧ Layout s0 Good queue' is' p next ∧
        ∀ x, p ≤ x → (x ∈ cover is' ↔ x ∈ cover is)) := by
  have hassert : seqLE (ofPos s0 p) queue.rcvNxt = true := by
    rw [hq.rcvNxt, seqLE_ofPos ⟨by omega, hnear⟩]
    exact decide_eq_true hp
  obtain ⟨rcvNxt, regionList⟩ := queue
  cases his : is with
  | nil =>
    have hnext : next = first := hq.next_eq_of_head (by simp [his])
    obtain rfl := forall₂_nil_right_iff.mp (his ▸ hq.regions)
    refine .inl ⟨by omega, ?_⟩
    simp only [extractTo, assert_of hassert, ok_bind]
  | cons f rest =>
    subst his
    obtain ⟨reg, l, hf, hrest, rfl⟩ := forall₂_cons_right_iff.mp hq.regions
    have hfat := good_at reg f hf
    have hfw := hq.window f mem_cons_self
    have hfend := hends f mem_cons_self
    have hfp := hq.proper f mem_cons_self
    have hlow := hfw.1
    have hnext := hq.next_window
    have near_begin : Near 32 p f.1 := ⟨by simp only [Nat.reduceSub]; omega, by
      simp only [Nat.reduceSub]; omega⟩
    have near_end : Near 32 p f.2 := ⟨by simp only [Nat.reduceSub]; omega, by
      simp only [Nat.reduceSub]; omega⟩
    simp only [extractTo, assert_of hassert, ok_bind, hfat.1, hfat.2,
      seqLE_ofPos near_begin, seqGE_ofPos near_end, decide_eq_true_eq]
    by_cases hpf : p ≤ f.1
    · refine .inl ⟨?_, by rw [if_pos hpf]⟩
      by_cases hahead : f.1 ≤ next
      · have := hq.ahead f mem_cons_self hahead
        simpa [this] using hpf
      · have := hq.next_eq_of_head (by simpa using hahead)
        omega
    · obtain rfl := hq.ahead f mem_cons_self (by omega)
      simp only at hpf
      refine .inr ⟨by omega, ?_⟩
      rw [if_neg hpf]
      by_cases hend : next ≤ p
      · obtain rfl : p = next := by omega
        rw [if_pos hend]
        refine ⟨reg, _, rest, rfl, hf, hq.tail, fun x hx => ?_⟩
        rw [Intervals.mem_cover_cons]
        exact ⟨.inr, fun h => h.elim (fun h => absurd h.2 (by omega)) id⟩
      · obtain ⟨r₁, r₂, hsplit, h₁, h₂⟩ :=
          splits reg (first, next) p hf (by simpa using hpf) (by simpa using hend)
            (by simp only; omega)
        rw [if_neg hend, hsplit]
        refine ⟨r₁, _, _, rfl, h₁, hq.cut (by omega) (by omega) h₂, fun x hx => ?_⟩
        simp only [Intervals.mem_cover_cons]
        exact or_congr_left ⟨fun h => ⟨by omega, h.2⟩, fun h => ⟨hx, h.2⟩⟩

end TCPVirtualDataRcvQueue

/-- The first byte in the queue is the one that has not been extracted. -/
theorem Layout.getFirstSeqNo {queue : TCPVirtualDataRcvQueue ρ} {is : List (ℕ × ℕ)}
    {first next : ℕ} (hq : Layout s0 (At s0) queue is first next) :
    queue.getFirstSeqNo = ofPos s0 first := by
  obtain ⟨rcvNxt, regionList⟩ := queue
  have hwindow := hq.next_window
  have hnext : rcvNxt = ofPos s0 next := hq.rcvNxt
  cases hregions : regionList with
  | nil =>
    have his : is = [] := forall₂_nil_left_iff.mp (hregions ▸ hq.regions)
    have heq : next = first := hq.next_eq_of_head (by simp [his])
    simp [TCPVirtualDataRcvQueue.getFirstSeqNo, hnext, heq]
  | cons front rest =>
    obtain ⟨f, is', hf, -, his⟩ := forall₂_cons_left_iff.mp (hregions ▸ hq.regions)
    have hmem : f ∈ is := his ▸ mem_cons_self
    have hnear : Near 32 f.1 next :=
      near_of_window (hq.window f hmem).fst ⟨hwindow.1, hwindow.2⟩
    have hmin : min f.1 next = first := by
      by_cases hle : f.1 ≤ next
      · rw [hq.ahead f hmem hle]
        exact min_eq_left hwindow.1
      · have heq : next = first :=
          hq.next_eq_of_head fun g hg => by
          obtain rfl : f = g := by simpa [his] using hg
          exact not_le.mp hle
        omega
    simp only [TCPVirtualDataRcvQueue.getFirstSeqNo, head?_cons, hnext]
    rw [show RegionClass.getBegin front = ofPos s0 f.1 from hf.1, seqMin_ofPos hnear, hmin]

end

variable {a m : ℕ} {r s : Region} {i j : ℕ × ℕ} {s0 : Uint32}

/-- Merging two regions that touch gives the region of their hull. -/
theorem Region.merge_of_at (hs : At s0 s j) (hr : At s0 r i) (hj : InWindow a j)
    (hi : InWindow a i) (touches : Intervals.Touches j i) :
    ∃ s', RegionClass.merge s r = some s' ∧ At s0 s' (hull j i) := by
  obtain ⟨hsb, hse⟩ : s.begin = ofPos s0 j.1 ∧ s.end = ofPos s0 j.2 := hs
  obtain ⟨hrb, hre⟩ : r.begin = ofPos s0 i.1 ∧ r.end = ofPos s0 i.2 := hr
  have merges : (seqLess s.end r.begin || seqLess r.end s.begin) = false := by
    rw [hsb, hse, hrb, hre]
    exact hj.not_apart hi touches
  have hbegin := @seqLess_ofPos s0 _ _ (near_of_window hi.fst hj.fst)
  have hend := @seqLess_ofPos s0 _ _ (near_of_window hj.snd hi.snd)
  refine ⟨⟨ofPos s0 (min j.1 i.1), ofPos s0 (max j.2 i.2)⟩, ?_, rfl, rfl⟩
  show Region.merge s r = _
  rw [Region.merge, merges, hsb, hse, hrb, hre, hbegin, hend]
  simp only [Bool.false_eq_true, ↓reduceIte, decide_eq_true_eq, Nat.min_def, Nat.max_def]
  congr 2
  · split_ifs with h₁ h₂ h₂
    · omega
    · rfl
    · rfl
    · rw [Nat.le_antisymm (Nat.le_of_not_lt h₁) (Nat.le_of_not_le h₂)]
  · split_ifs with h₁ h₂ h₂
    · rfl
    · omega
    · rw [Nat.le_antisymm h₂ (Nat.le_of_not_lt h₁)]
    · rfl

theorem Region.split_of_at (hr : At s0 r i) (h₁ : i.1 < m) (h₂ : m < i.2)
    (h₃ : i.2 < i.1 + 2 ^ 31) :
    ∃ r₁ r₂, RegionClass.split r (ofPos s0 m) = .ok (r₁, r₂) ∧
      At s0 r₁ (i.1, m) ∧ At s0 r₂ (m, i.2) := by
  obtain ⟨hrb, hre⟩ : r.begin = ofPos s0 i.1 ∧ r.end = ofPos s0 i.2 := hr
  have inside : (seqGreater (ofPos s0 m) r.begin && seqLess (ofPos s0 m) r.end) = true := by
    rw [hrb, hre, seqGreater_ofPos (@near_of_window _ _ i.1 (by omega) (by omega)),
      seqLess_ofPos (@near_of_window _ _ i.1 (by omega) (by omega))]
    simp [h₁, h₂]
  refine ⟨⟨r.begin, ofPos s0 m⟩, ⟨ofPos s0 m, r.end⟩, ?_, ⟨hrb, rfl⟩, ⟨rfl, hre⟩⟩
  show Region.split r _ = _
  simp only [Region.split, assert_of inside, ok_bind]

/-- Insertion into a queue whose regions are nothing but their end points. -/
theorem TCPVirtualDataRcvQueue.insertRegion_of_at {queue : TCPVirtualDataRcvQueue Region}
    {is : List (ℕ × ℕ)} {first next : ℕ} (hq : Layout s0 (At s0) queue is first next)
    (hs : At s0 s j) (hj : InWindow first j) (hlt : j.1 < j.2) :
    ∃ queue' next' k, queue.insertRegion s = .ok queue' ∧
      Layout s0 (At s0) queue' (Intervals.insert is j) first next' ∧ next ≤ next' ∧
      k ∈ Intervals.insert is j ∧ k.1 ≤ j.1 ∧ j.2 ≤ k.2 := by
  obtain ⟨queue', next', r, k, hins, hlayout, hmerged, hlow, hhigh, hle⟩ :=
    insertRegion_spec (fun _ _ h => h) (fun _ _ h => h) hq
      (fun r s i j hi hr hs hj => Region.merge_of_at hs hr hj (hq.window i hi)) hs hj hlt
  exact ⟨queue', next', k, hins,
    { hlayout with regions := hlayout.regions.imp fun _ _ h => h.elim id id }, hle,
    hmerged.mem_pos, hlow, hhigh⟩

end Inet.Tcp
