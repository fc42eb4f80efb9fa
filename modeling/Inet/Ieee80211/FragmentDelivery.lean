import Inet.Ieee80211.BasicReassembly

/-!
# Delivery of fragmented frames

Fragments of several frames arrive in any order and more than once, as long as a frame is not
complete. `addFragment` returns a frame at the call that completes it, and at no other call
(`reassembles_of_data`). What it knows of an incomplete frame is stated by `Collects`: a bit for
each fragment, and the frame and the number of its fragments once the last one has come.

Management frames are let through fragment by fragment.
-/

namespace Inet.Ieee80211.BasicReassembly

/-- A frame that has been cut into fragments, and the address that these are sent from. -/
structure Cut where
  frame : Frame
  fragmentSizes : List ℕ
  transmitterAddress : ℕ
  two_le : 2 ≤ fragmentSizes.length := by decide
  le_sixteen : fragmentSizes.length ≤ 16 := by decide

namespace Cut

variable (c : Cut)

def key : Key := keyOf { c.frame with transmitterAddress := c.transmitterAddress }

/-- The frame, with the address that it has been sent from. -/
def restored : Frame := { c.frame with transmitterAddress := c.transmitterAddress }

end Cut

/-- A fragment of a frame that arrives. -/
structure Arrival where
  cut : Cut
  number : ℕ
  fragment : Frame
  isFragment : (fragmentFrame cut.frame cut.fragmentSizes)[number]? = some fragment

/-- The fragment as it is received. -/
def Arrival.received (a : Arrival) : Frame :=
  { a.fragment with transmitterAddress := a.cut.transmitterAddress }

def addFragments (r : BasicReassembly) : List Frame → Result (List (Option Frame) × BasicReassembly)
  | [] => .ok ([], r)
  | frame :: frames => do
      let (result, r) ← r.addFragment frame
      let (results, r) ← addFragments r frames
      .ok (result :: results, r)

/-- The fragment has arrived. -/
def HasArrived (seen : List Arrival) (c : Cut) (number : ℕ) : Prop :=
  ∃ a ∈ seen, a.cut = c ∧ a.number = number

/-- All fragments have arrived. -/
def Complete (seen : List Arrival) (c : Cut) : Prop :=
  ∀ i < c.fragmentSizes.length, HasArrived seen c i

/-- The fragments are those of the frames, and none arrives when its frame is complete. -/
def IsRun (cuts : Set Cut) (arrivals : List Arrival) : Prop :=
  ∀ p (a : Arrival), arrivals[p]? = some a → a.cut ∈ cuts ∧ ¬ Complete (arrivals.take p) a.cut

/-- The calls return each frame when it is complete, and nothing else. -/
structure Delivers (cuts : Set Cut) (arrivals : List Arrival) (results : List (Option Frame)) :
    Prop where
  length_eq : results.length = arrivals.length
  completing : ∀ p (a : Arrival), arrivals[p]? = some a → Complete (arrivals.take (p + 1)) a.cut →
    results[p]? = some (some a.cut.restored)
  incomplete : ∀ p (a : Arrival), arrivals[p]? = some a → ¬ Complete (arrivals.take (p + 1)) a.cut →
    results[p]? = some none
  once : ∀ c ∈ cuts, Complete arrivals c →
    ∃! p : ℕ, (∃ a : Arrival, arrivals[p]? = some a ∧ a.cut = c) ∧
      ∃ frame, results[p]? = some (some frame)

/-- The frames are reassembled from their fragments. -/
def Reassembles (cuts : Set Cut) (arrivals : List Arrival) : Prop :=
  ∃ results r, addFragments {} (arrivals.map Arrival.received) = .ok (results, r) ∧
    Delivers cuts arrivals results

/-- The bits up to that of the last fragment. -/
theorem getLsbD_allFragments {fragmentBit : BitVec 16} {i j : ℕ} (hi : i < 16) (hj : j < 16)
    (hbit : fragmentBit = 1#16 <<< i) :
    (((fragmentBit.setWidth 32 <<< 1) - 1#32).setWidth 16).getLsbD j = decide (j ≤ i) := by
  have hall : ∀ i j : Fin 16, ((((1#16 <<< i.val : BitVec 16).setWidth 32 <<< 1) -
      1#32).setWidth 16).getLsbD j.val = decide (j ≤ i) := by
    decide +kernel
  rw [hbit]
  exact hall ⟨i, hi⟩ ⟨j, hj⟩

section

variable {seen : List Arrival} {a : Arrival} {c : Cut} {i : ℕ}

theorem Arrival.fragment_eq (a : Arrival) :
    a.number < a.cut.fragmentSizes.length ∧ ∃ size, a.fragment = { a.cut.frame with
        fragmentNumber := a.number
        moreFragments := !decide (a.number = a.cut.fragmentSizes.length - 1)
        encapsulated := if decide (a.number = a.cut.fragmentSizes.length - 1) = true then
          some (.frame a.cut.frame) else none
        byteLength := size } := by
  have h := a.isFragment
  rw [fragmentFrame, List.getElem?_mapIdx] at h
  obtain ⟨size, hsize, heq⟩ := Option.map_eq_some_iff.mp h
  exact ⟨(List.getElem?_eq_some_iff.mp hsize).1, size, heq.symm⟩

theorem Arrival.number_lt (a : Arrival) : a.number < a.cut.fragmentSizes.length := a.fragment_eq.1

theorem Arrival.fragmentNumber_received (a : Arrival) : a.received.fragmentNumber = a.number := by
  obtain ⟨-, size, hfragment⟩ := a.fragment_eq
  rw [Arrival.received, hfragment]

theorem Arrival.moreFragments_received (a : Arrival) :
    a.received.moreFragments = !decide (a.number = a.cut.fragmentSizes.length - 1) := by
  obtain ⟨-, size, hfragment⟩ := a.fragment_eq
  rw [Arrival.received, hfragment]

theorem Arrival.encapsulated_received (a : Arrival) : a.received.encapsulated =
      if decide (a.number = a.cut.fragmentSizes.length - 1) = true then
        some (.frame a.cut.frame) else none := by
  obtain ⟨-, size, hfragment⟩ := a.fragment_eq
  rw [Arrival.received, hfragment]

theorem Arrival.kind_received (a : Arrival) : a.received.kind = a.cut.frame.kind := by
  obtain ⟨-, size, hfragment⟩ := a.fragment_eq
  rw [Arrival.received, hfragment]

theorem Arrival.keyOf_received (a : Arrival) : keyOf a.received = a.cut.key := by
  obtain ⟨-, size, hfragment⟩ := a.fragment_eq
  rw [Arrival.received, hfragment]
  rfl

theorem hasArrived_append :
    HasArrived (seen ++ [a]) c i ↔ HasArrived seen c i ∨ a.cut = c ∧ a.number = i := by
  simp [HasArrived, or_and_right, exists_or]

theorem HasArrived.lt (h : HasArrived seen c i) : i < c.fragmentSizes.length := by
  obtain ⟨a, -, rfl, rfl⟩ := h
  exact a.number_lt

/-- What the map knows of an incomplete frame. -/
structure Collects (seen : List Arrival) (c : Cut) (value : Value) : Prop where
  receivedFragments : ∀ i < 16, value.receivedFragments.getLsbD i = true ↔ HasArrived seen c i
  allFragments : ∀ i < 16, value.allFragments.getLsbD i = true ↔
    HasArrived seen c (c.fragmentSizes.length - 1) ∧ i < c.fragmentSizes.length
  frame : HasArrived seen c (c.fragmentSizes.length - 1) → value.frame = some c.frame
  dummy : ¬ HasArrived seen c (c.fragmentSizes.length - 1) → value.frame = none

/-- All fragments have arrived just if the masks are the same. -/
theorem Collects.complete_iff {value : Value} (h : Collects seen c value) :
    value.allFragments ≠ 0 ∧ value.allFragments = value.receivedFragments ↔ Complete seen c := by
  have htwo := c.two_le
  have hsixteen := c.le_sixteen
  constructor
  · rintro ⟨hne, heq⟩ i hi
    have hlast : HasArrived seen c (c.fragmentSizes.length - 1) := by
      by_contra hnone
      refine hne (BitVec.eq_of_getLsbD_eq fun j hj => ?_)
      refine (Bool.eq_false_iff.mpr ?_).trans BitVec.getLsbD_zero.symm
      exact fun hbit => hnone ((h.allFragments j hj).mp hbit).1
    rw [← h.receivedFragments i (by omega), ← heq, h.allFragments i (by omega)]
    exact ⟨hlast, hi⟩
  · intro hcomplete
    have hlast := hcomplete (c.fragmentSizes.length - 1) (by omega)
    refine ⟨fun hzero => ?_, BitVec.eq_of_getLsbD_eq fun i hi => ?_⟩
    · have hbit := (h.allFragments 0 (by decide)).mpr ⟨hlast, by omega⟩
      rw [hzero] at hbit
      cases hbit
    · rw [Bool.eq_iff_iff, h.allFragments i hi, h.receivedFragments i hi]
      exact ⟨fun hi => hcomplete i hi.2, fun harrived => ⟨hlast, harrived.lt⟩⟩

variable {r : BasicReassembly} {k k' : Key} {value : Value}

theorem getOrDefault_erase_of_ne (h : k' ≠ k) :
    (r.erase k).getOrDefault k' = r.getOrDefault k' := by
  change (KeyedList.lookup Value.key (r.fragmentsMap.filter fun x => x.key ≠ k) k').getD _ =
    (KeyedList.lookup Value.key r.fragmentsMap k').getD _
  rw [KeyedList.lookup_filter r.sorted]
  cases hlookup : KeyedList.lookup Value.key r.fragmentsMap k' with
  | none => rfl
  | some value =>
    have hkey := ((KeyedList.lookup_eq_some r.sorted).mp hlookup).2
    rw [Option.filter_some, if_pos (by simpa [hkey] using h)]

theorem getOrDefault_set :
    (r.set value).getOrDefault k = if value.key = k then value else r.getOrDefault k := by
  rw [getOrDefault, set, KeyedList.lookup_insert_erase r.sorted, getOrDefault]
  split_ifs <;> rfl

variable {cuts : Set Cut}

/-- The map knows the incomplete frames. -/
def Knows (r : BasicReassembly) (cuts : Set Cut) (seen : List Arrival) : Prop :=
  ∀ c ∈ cuts, ¬ Complete seen c → Collects seen c (r.getOrDefault c.key)

theorem Complete.mono {later : List Arrival} (h : Complete seen c) (hsub : seen ⊆ later) :
    Complete later c := by
  intro i hi
  obtain ⟨a, ha, hcut, hnumber⟩ := h i hi
  exact ⟨a, hsub ha, hcut, hnumber⟩

/-- A fragment of another frame says nothing about a frame. -/
theorem hasArrived_append_of_ne {i : ℕ} (hne : a.cut ≠ c) :
    HasArrived (seen ++ [a]) c i ↔ HasArrived seen c i := by
  rw [hasArrived_append]
  simp [hne]

theorem Collects.of_ne (h : Collects seen c value) (hne : a.cut ≠ c) :
    Collects (seen ++ [a]) c value where
  receivedFragments i hi := (h.receivedFragments i hi).trans (hasArrived_append_of_ne hne).symm
  allFragments i hi := by
    rw [h.allFragments i hi, hasArrived_append_of_ne hne]
  frame hlast := h.frame ((hasArrived_append_of_ne hne).mp hlast)
  dummy hlast := h.dummy fun hbefore => hlast ((hasArrived_append_of_ne hne).mpr hbefore)

theorem hasArrived_append_self {i : ℕ} :
    HasArrived (seen ++ [a]) a.cut i ↔ HasArrived seen a.cut i ∨ a.number = i := by
  rw [hasArrived_append, eq_self_iff_true, true_and]

/-- The last fragment has the frame. -/
theorem Collects.carry_last (h : Collects seen a.cut value)
    (hlast : a.number = a.cut.fragmentSizes.length - 1) :
    value.carry a.received = .ok (some a.cut.frame) := by
  rw [Value.carry, a.encapsulated_received, if_pos (decide_eq_true hlast)]
  by_cases hseen : HasArrived seen a.cut (a.cut.fragmentSizes.length - 1)
  · rw [h.frame hseen]
  · rw [h.dummy hseen]
    rfl

theorem carry_dummy (hlast : a.number ≠ a.cut.fragmentSizes.length - 1) :
    value.carry a.received = .ok value.frame := by
  rw [Value.carry, a.encapsulated_received, if_neg (by simpa using hlast)]
  cases value.frame <;> rfl

/-- What is known of a frame when one of its fragments arrives. -/
theorem Collects.update (h : Collects seen a.cut value) :
    ∃ carried, value.carry a.received = .ok carried ∧ Collects (seen ++ [a]) a.cut
        { key := a.cut.key
          frame := carried
          receivedFragments := value.receivedFragments ||| 1#16 <<< a.received.fragmentNumber
          allFragments :=
            if a.received.moreFragments then value.allFragments
            else (((1#16 <<< a.received.fragmentNumber : BitVec 16).setWidth 32 <<< 1) -
              1#32).setWidth 16 } := by
  have hlt := a.number_lt
  have hsixteen := a.cut.le_sixteen
  have hbits : ∀ i < 16,
      (value.receivedFragments ||| 1#16 <<< a.received.fragmentNumber).getLsbD i = true ↔
        HasArrived (seen ++ [a]) a.cut i := fun i hi => by
    rw [BitVec.getLsbD_or, getLsbD_one_shiftLeft hi, Bool.or_eq_true, h.receivedFragments i hi,
      a.fragmentNumber_received, decide_eq_true_eq, hasArrived_append_self, @eq_comm ℕ i]
  by_cases hlast : a.number = a.cut.fragmentSizes.length - 1
  · -- the number of the last fragment gives the mask
    rw [a.moreFragments_received, decide_eq_true hlast]
    refine ⟨some a.cut.frame, h.carry_last hlast, hbits, fun i hi => ?_, fun _ => rfl,
      fun hnone => ?_⟩
    · have hmask : (((1#16 <<< a.received.fragmentNumber : BitVec 16).setWidth 32 <<< 1 -
          1#32).setWidth 16).getLsbD i = decide (i ≤ a.number) :=
        getLsbD_allFragments (by omega) hi (by rw [a.fragmentNumber_received])
      refine (Bool.eq_iff_iff.mp hmask).trans ?_
      rw [decide_eq_true_eq, hasArrived_append_self]
      omega
    · exact absurd (hasArrived_append_self.mpr (.inr hlast)) hnone
  · have hsame : HasArrived (seen ++ [a]) a.cut (a.cut.fragmentSizes.length - 1) ↔
        HasArrived seen a.cut (a.cut.fragmentSizes.length - 1) := by
      rw [hasArrived_append_self]
      exact or_iff_left hlast
    rw [a.moreFragments_received, decide_eq_false hlast]
    refine ⟨value.frame, carry_dummy hlast, hbits, fun i hi => ?_, fun hseen => ?_, fun hnone => ?_⟩
    · rw [hsame]
      exact h.allFragments i hi
    · exact h.frame (hsame.mp hseen)
    · exact h.dummy fun hseen => hnone (hsame.mpr hseen)

section

variable (hkeys : ∀ c ∈ cuts, ∀ c' ∈ cuts, c.key = c'.key → c = c')
  (hdata : ∀ c ∈ cuts, c.frame.kind ≠ .management)

include hkeys hdata

/-- A fragment completes its frame, or the map knows of it. -/
theorem addFragment_step (h : Knows r cuts seen)
    (ha : a.cut ∈ cuts) (hincomplete : ¬ Complete seen a.cut) :
    ∃ result r', r.addFragment a.received = .ok (result, r') ∧ Knows r' cuts (seen ++ [a]) ∧
      (Complete (seen ++ [a]) a.cut → result = some a.cut.restored) ∧
      (¬ Complete (seen ++ [a]) a.cut → result = none) := by
  have hlt := a.number_lt
  have htwo := a.cut.two_le
  have hsixteen := a.cut.le_sixteen
  have hnumber := a.fragmentNumber_received
  have hfragmented : ¬ (a.received.moreFragments = false ∧ a.received.fragmentNumber = 0) := by
    rw [a.moreFragments_received, hnumber, Bool.not_eq_false', decide_eq_true_eq]
    omega
  obtain ⟨carried, hcarried, hcollects⟩ := (h a.cut ha hincomplete).update
  -- what is known of the other frames stays the same
  have hothers : ∀ r' : BasicReassembly,
      (∀ k, k ≠ a.cut.key → r'.getOrDefault k = r.getOrDefault k) →
      (¬ Complete (seen ++ [a]) a.cut → Collects (seen ++ [a]) a.cut (r'.getOrDefault a.cut.key)) →
      Knows r' cuts (seen ++ [a]) := by
    intro r' hsame hown c hc hnot
    by_cases heq : a.cut = c
    · subst heq
      exact hown hnot
    · have hne : c.key ≠ a.cut.key := fun hk => heq (hkeys _ ha _ hc hk.symm)
      rw [hsame c.key hne]
      exact (h c hc fun hcomplete => hnot (hcomplete.mono (List.subset_append_left _ _))).of_ne heq
  have hassert : assert (decide (a.received.fragmentNumber < 16))
      "fragNum >= 0 && fragNum < MAX_NUM_FRAGMENTS" = .ok () :=
    assert_of (decide_eq_true (by omega)) _
  rw [addFragment, if_neg hfragmented, if_neg (a.kind_received ▸ hdata a.cut ha)]
  simp only [a.keyOf_received, hassert, ok_bind, hcarried]
  have hmasks := hcollects.complete_iff
  dsimp only at hmasks
  by_cases hcomplete : Complete (seen ++ [a]) a.cut
  · have hcarried' : carried = some a.cut.frame :=
      hcollects.frame (hcomplete (a.cut.fragmentSizes.length - 1) (by omega))
    rw [if_pos (hmasks.mpr hcomplete), hcarried']
    refine ⟨some a.cut.restored, r.erase a.cut.key, rfl, ?_, fun _ => rfl,
      fun hnot => absurd hcomplete hnot⟩
    exact hothers _ (fun k hk => getOrDefault_erase_of_ne hk) fun hnot => absurd hcomplete hnot
  · rw [if_neg (hmasks.not.mpr hcomplete)]
    refine ⟨none, _, rfl, ?_, fun hc => absurd hc hcomplete, fun _ => rfl⟩
    refine hothers _ (fun k hk => ?_) fun _ => ?_
    · exact getOrDefault_set.trans (if_neg (Ne.symm hk))
    · rw [getOrDefault_set, if_pos rfl]
      exact hcollects

/-- The calls of a run, from the middle of the run on. -/
theorem addFragments_spec (arrivals : List Arrival) (h : Knows r cuts seen)
    (hrun : ∀ p (a : Arrival), arrivals[p]? = some a →
      a.cut ∈ cuts ∧ ¬ Complete (seen ++ arrivals.take p) a.cut) :
    ∃ results r', addFragments r (arrivals.map Arrival.received) = .ok (results, r') ∧
      results.length = arrivals.length ∧ ∀ p (a : Arrival), arrivals[p]? = some a →
        (Complete (seen ++ arrivals.take (p + 1)) a.cut →
          results[p]? = some (some a.cut.restored)) ∧
        (¬ Complete (seen ++ arrivals.take (p + 1)) a.cut → results[p]? = some none) := by
  induction arrivals generalizing r seen with
  | nil => exact ⟨[], r, rfl, rfl, fun p a ha => by simp at ha⟩
  | cons a arrivals ih =>
    obtain ⟨ha, hincomplete⟩ := hrun 0 a rfl
    rw [List.take_zero, List.append_nil] at hincomplete
    obtain ⟨result, r₁, hstep, hknows, hcomplete, hincomplete'⟩ :=
      addFragment_step hkeys hdata h ha hincomplete
    have hrun' : ∀ p (b : Arrival), arrivals[p]? = some b →
        b.cut ∈ cuts ∧ ¬ Complete (seen ++ [a] ++ arrivals.take p) b.cut := fun p b hb => by
      have hlater := hrun (p + 1) b hb
      rwa [List.take_succ_cons, List.append_cons] at hlater
    obtain ⟨results, r', hsteps, hlength, hresults⟩ := ih hknows hrun'
    refine ⟨result :: results, r', ?_, by rw [List.length_cons, hlength, List.length_cons], ?_⟩
    · simp only [List.map_cons, addFragments, hstep, ok_bind, hsteps]
    · intro p b hb
      cases p with
      | zero =>
        obtain rfl : a = b := Option.some.inj hb
        exact ⟨fun hc => congrArg some (hcomplete hc), fun hc => congrArg some (hincomplete' hc)⟩
      | succ p =>
        have hlater := hresults p b hb
        rwa [← List.append_cons] at hlater

end

/-- A frame is completed by one arrival. -/
theorem existsUnique_completing {arrivals : List Arrival} (hrun : IsRun cuts arrivals)
    (h : Complete arrivals c) :
    ∃! p : ℕ, ∃ a : Arrival, arrivals[p]? = some a ∧ a.cut = c ∧
      Complete (arrivals.take (p + 1)) c := by
  classical
  have hexists : ∃ n, Complete (arrivals.take n) c := ⟨arrivals.length, by rwa [List.take_length]⟩
  obtain ⟨p, hp⟩ : ∃ p, Nat.find hexists = p + 1 := by
    refine Nat.exists_eq_succ_of_ne_zero fun hzero => ?_
    have hnone := Nat.find_spec hexists
    rw [hzero, List.take_zero] at hnone
    obtain ⟨a, ha, -⟩ := hnone 0 (Nat.lt_of_lt_of_le Nat.zero_lt_two c.two_le)
    cases ha
  have hcomplete : Complete (arrivals.take (p + 1)) c := hp ▸ Nat.find_spec hexists
  have hbefore : ∀ n ≤ p, ¬ Complete (arrivals.take n) c := fun n hn =>
    Nat.find_min hexists (by omega)
  have hlt : p < arrivals.length := by
    by_contra hge
    refine hbefore p le_rfl ?_
    rw [List.take_of_length_le (Nat.not_lt.mp hge)]
    exact h
  obtain ⟨a, ha⟩ : ∃ a, arrivals[p]? = some a := ⟨_, List.getElem?_eq_getElem hlt⟩
  have htake : arrivals.take (p + 1) = arrivals.take p ++ [a] := by
    rw [List.take_add_one, ha, Option.toList_some]
  have hcut : a.cut = c := by
    by_contra hne
    refine hbefore p le_rfl fun i hi => ?_
    exact (hasArrived_append_of_ne hne).mp (htake ▸ hcomplete i hi)
  refine ⟨p, ⟨a, ha, hcut, hcomplete⟩, ?_⟩
  rintro q ⟨b, hb, rfl, hq⟩
  have hle : p ≤ q := by
    by_contra hgt
    exact hbefore (q + 1) (by omega) hq
  refine Nat.le_antisymm ?_ hle
  by_contra hgt
  exact (hrun q b hb).2 (hcomplete.mono (List.take_subset_take_left arrivals (by omega)))

end

/-- Frames that are not management frames are reassembled from their fragments, in whatever order
these arrive. -/
theorem reassembles_of_data {cuts : Set Cut}
    (hkeys : ∀ c ∈ cuts, ∀ c' ∈ cuts, c.key = c'.key → c = c')
    (hdata : ∀ c ∈ cuts, c.frame.kind ≠ .management) {arrivals : List Arrival}
    (hrun : IsRun cuts arrivals) : Reassembles cuts arrivals := by
  have hknows : Knows {} cuts [] := fun c _ _ => by
    refine ⟨fun i _ => ?_, fun i _ => ?_, fun h => ?_, fun _ => rfl⟩
    · exact iff_of_false (by simp [getOrDefault, KeyedList.lookup]) (by simp [HasArrived])
    · exact iff_of_false (by simp [getOrDefault, KeyedList.lookup]) (by simp [HasArrived])
    · simp [HasArrived] at h
  obtain ⟨results, r', hsteps, hlength, hresults⟩ :=
    addFragments_spec hkeys hdata arrivals hknows hrun
  refine ⟨results, r', hsteps, hlength, fun p a ha => (hresults p a ha).1,
    fun p a ha => (hresults p a ha).2, fun c _ hcomplete => ?_⟩
  obtain ⟨p, ⟨a, ha, rfl, hp⟩, hunique⟩ := existsUnique_completing hrun hcomplete
  refine ⟨p, ⟨⟨a, ha, rfl⟩, _, (hresults p a ha).1 hp⟩, ?_⟩
  rintro q ⟨⟨b, hb, hcut⟩, frame, hframe⟩
  refine hunique q ⟨b, hb, hcut, ?_⟩
  by_contra hnot
  have hnone := (hresults q b hb).2 (hcut ▸ hnot)
  rw [hframe] at hnone
  cases hnone

/-- A frame that has been cut into two fragments of 100 bytes. -/
def twoFragments (kind : FrameKind) : Cut where
  frame :=
    { receiverAddress := 1
      transmitterAddress := 2
      kind := kind
      sequenceNumber := 7
      encapsulated := some (.upper 200) }
  fragmentSizes := [100, 100]
  transmitterAddress := 2

def firstOfTwo (kind : FrameKind) : Arrival := ⟨twoFragments kind, 0, _, rfl⟩

def secondOfTwo (kind : FrameKind) : Arrival := ⟨twoFragments kind, 1, _, rfl⟩

theorem isRun_twoFragments (kind : FrameKind) :
    IsRun {twoFragments kind} [secondOfTwo kind, firstOfTwo kind] := by
  have hincomplete : ∀ seen ⊆ [secondOfTwo kind], ¬ Complete seen (twoFragments kind) := by
    intro seen hsub hcomplete
    obtain ⟨a, ha, -, hnumber⟩ := hcomplete 0 (by simp [twoFragments])
    rw [List.mem_singleton.mp (hsub ha)] at hnumber
    cases hnumber
  intro p a ha
  match p with
  | 0 =>
    cases ha
    exact ⟨rfl, hincomplete _ (List.nil_subset _)⟩
  | 1 =>
    cases ha
    exact ⟨rfl, hincomplete _ (List.Subset.refl _)⟩

/-- The fragments of a QoS data frame arrive in the wrong order. -/
theorem reassembles_twoFragments : Reassembles {twoFragments (.data true 3)}
      [secondOfTwo (.data true 3), firstOfTwo (.data true 3)] :=
  reassembles_of_data (fun _ hc _ hc' _ => hc.trans hc'.symm)
    (fun c hc => by rw [Set.mem_singleton_iff.mp hc]; simp [twoFragments])
    (isRun_twoFragments _)

/-- The fragments of a management frame are returned one by one. -/
theorem not_reassembles_management :
    IsRun {twoFragments .management} [secondOfTwo .management, firstOfTwo .management] ∧
      ¬ Reassembles {twoFragments .management}
        [secondOfTwo .management, firstOfTwo .management] := by
  refine ⟨isRun_twoFragments _, ?_⟩
  rintro ⟨results, r, hsteps, hdelivers⟩
  have hreturned : addFragments {} ([secondOfTwo .management, firstOfTwo .management].map
      Arrival.received) = .ok ([some (secondOfTwo .management).received,
        some (firstOfTwo .management).received], {}) := rfl
  obtain ⟨rfl, -⟩ := Prod.mk.inj (Except.ok.inj (hreturned.symm.trans hsteps))
  have hnone := hdelivers.incomplete 0 (secondOfTwo .management) rfl fun hcomplete => by
    obtain ⟨a, ha, -, hnumber⟩ := hcomplete 0 (by decide)
    rw [List.mem_singleton.mp ha] at hnumber
    cases hnumber
  cases hnone

end Inet.Ieee80211.BasicReassembly
