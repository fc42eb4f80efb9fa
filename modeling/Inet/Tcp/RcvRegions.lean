import Inet.Library.Run
import Inet.Tcp.RcvSegment

/-!
# The regions of a receive queue

`Received` is what `TCPVirtualDataRcvQueue` stands for: the positions that have been inserted, and
the one up to which everything has been extracted. As long as the stored data lies within half of
the sequence space, the list of regions is the one list of separated intervals for the positions
that are stored, and `rcv_nxt` is the first position that has not been received (`canonical`).
The queue throws for a segment further away; data that is extracted up to a place of long ago is
not checked (`Allowed`).
-/

namespace Inet.Tcp

open SerialNumber (ofPos Near)
open List (Forall₂)
open RegionClass
open Intervals (cover)

namespace TCPVirtualDataRcvQueue

/-- The packet with the extracted bytes, given by its length. -/
def extractBytesUpTo (queue : TCPVirtualDataRcvQueue Region) (seq : Uint32) :
    Result (Option ℕ × TCPVirtualDataRcvQueue Region) := do
  let (reg, queue) ← queue.extractTo seq
  .ok (reg.map getLength, queue)

/-- A call on the queue. -/
inductive Call where
  | insertBytesFromSegment (tcpseg : TCPSegment Unit)
  | extractBytesUpTo (seq : Uint32)

def step (queue : TCPVirtualDataRcvQueue Region) : Call → Result (TCPVirtualDataRcvQueue Region)
  | .insertBytesFromSegment tcpseg => queue.insertBytesFromSegment tcpseg
  | .extractBytesUpTo seq => do
      let (_, queue) ← queue.extractBytesUpTo seq
      .ok queue

/-- Segments are not empty and end less than 2^31 behind the first byte that has not been
extracted. Data is extracted up to `rcv_nxt` at most, and up to a place that no region lies 2^31
or more behind. -/
def Allowed (queue : TCPVirtualDataRcvQueue Region) : Call → Prop
  | .insertBytesFromSegment tcpseg => 0 < tcpseg.payloadLength ∧
      (tcpseg.sequenceNo - queue.getFirstSeqNo).toNat + tcpseg.payloadLength < 2 ^ 31
  | .extractBytesUpTo seq => seqLE seq queue.rcvNxt = true ∧
      ∀ region ∈ queue.regionList, seqLE seq region.end = true

instance (queue : TCPVirtualDataRcvQueue Region) : (call : Call) → Decidable (queue.Allowed call)
  | .insertBytesFromSegment _ => inferInstanceAs (Decidable (_ ∧ _))
  | .extractBytesUpTo _ => inferInstanceAs (Decidable (_ ∧ _))

end TCPVirtualDataRcvQueue

open TCPVirtualDataRcvQueue (Call)

/-- What has been received, as positions behind the initial sequence number. -/
structure Received where
  /-- Everything before this position has been extracted. -/
  first : ℕ := 0
  /-- The positions that have been inserted. -/
  positions : Set ℕ := ∅

namespace Received

/-- The position of a sequence number, from `first` on. -/
def position (received : Received) (s0 seq : Uint32) : ℕ :=
  received.first + (seq - ofPos s0 received.first).toNat

/-- The positions that have been inserted and not yet extracted. -/
def stored (received : Received) : Set ℕ := {x | x ∈ received.positions ∧ received.first ≤ x}

open Classical in
/-- The call on the positions. Data is extracted up to a place if all data before it has been
received. -/
noncomputable def step (s0 : Uint32) (received : Received) : Call → Received
  | .insertBytesFromSegment tcpseg =>
    let o := received.position s0 tcpseg.sequenceNo
    { received with
      positions := received.positions ∪ Set.Ico o (o + tcpseg.payloadLength) }
  | .extractBytesUpTo seq =>
    let p := received.position s0 seq
    { received with first := if Set.Iio p ⊆ received.positions then p else received.first }

/-- What has been received after the calls. -/
noncomputable def after (s0 : Uint32) (calls : List Call) : Received :=
  calls.foldl (step s0) {}

end Received

namespace TCPVirtualDataRcvQueue

/-- The queue is the canonical one for what has been received. -/
structure Canonical (s0 : Uint32) (queue : TCPVirtualDataRcvQueue Region) (received : Received) :
    Prop where
  /-- The regions are sorted, not empty, and with a gap between any two of them. -/
  regions : ∃ is, Forall₂ (At s0) queue.regionList is ∧ Intervals.Ascending is ∧
    Intervals.Proper is ∧ Intervals.cover is = received.stored
  /-- All that is stored lies within half of the sequence space. -/
  window : ∀ x ∈ received.stored, x < received.first + 2 ^ 31
  /-- `rcv_nxt` is the first position that has not been received. -/
  rcvNxt : ∃ next, queue.rcvNxt = ofPos s0 next ∧ IsLeast {x | x ∉ received.positions} next
  buffered : queue.getAmountOfBufferedBytes.toNat = received.stored.ncard
  /-- `getLE` and `getRE` give the block of stored positions around their argument. -/
  getLE_of_mem : ∀ x ∈ received.stored, ∃ a, queue.getLE (ofPos s0 x) = ofPos s0 a ∧
    IsLeast {a | Set.Icc a x ⊆ received.stored} a
  getLE_of_not_mem : ∀ seq, (∀ x ∈ received.stored, seq ≠ ofPos s0 x) → queue.getLE seq = seq
  getRE_of_mem : ∀ x ∈ received.stored, ∃ b, queue.getRE (ofPos s0 (x + 1)) = ofPos s0 b ∧
    IsGreatest {b | Set.Ico x b ⊆ received.stored} b
  getRE_of_not_mem : ∀ seq, (∀ x ∈ received.stored, seq ≠ ofPos s0 (x + 1)) → queue.getRE seq = seq

section

variable {s0 seq : Uint32} {queue : TCPVirtualDataRcvQueue Region} {is : List (ℕ × ℕ)}
  {first next x : ℕ} {region : Region} {i : ℕ × ℕ}

/-- A number that is less than half of the space ahead of a position is one. -/
theorem exists_eq_ofPos {a : ℕ} (h : (seq - ofPos s0 a).toNat < 2 ^ 31) :
    ∃ d < 2 ^ 31, seq = ofPos s0 (a + d) := by
  refine ⟨_, h, ?_⟩
  rw [← SerialNumber.ofPos_ofPos, SerialNumber.ofPos_toNat_sub]

/-- The test of `getLE`. -/
theorem inside_iff (hregion : At s0 region i) (h₁ : i.1 < i.2) (h₂ : i.2 < i.1 + 2 ^ 31) :
    (seqLE (getBegin region) seq && seqLess seq (getEnd region)) = true ↔
      ∃ x, (i.1 ≤ x ∧ x < i.2) ∧ seq = ofPos s0 x := by
  rw [hregion.1, hregion.2, Bool.and_eq_true]
  constructor
  · rintro ⟨hle, hless⟩
    obtain ⟨d, hd, hseq⟩ := exists_eq_ofPos (of_decide_eq_true hle)
    rw [hseq, seqLess_ofPos (@near_of_window _ _ i.1 (by omega) (by omega)),
      decide_eq_true_eq] at hless
    exact ⟨i.1 + d, ⟨by omega, hless⟩, hseq⟩
  · rintro ⟨x, ⟨hle, hlt⟩, rfl⟩
    rw [seqLE_ofPos (@near_of_window _ _ i.1 (by omega) (by omega)),
      seqLess_ofPos (@near_of_window _ _ i.1 (by omega) (by omega))]
    exact ⟨decide_eq_true hle, decide_eq_true hlt⟩

/-- The test of `getRE`. -/
theorem insideEnd_iff (hregion : At s0 region i) (h₁ : i.1 < i.2) (h₂ : i.2 < i.1 + 2 ^ 31) :
    (seqLess (getBegin region) seq && seqLE seq (getEnd region)) = true ↔
      ∃ x, (i.1 ≤ x ∧ x < i.2) ∧ seq = ofPos s0 (x + 1) := by
  rw [hregion.1, hregion.2, Bool.and_eq_true]
  constructor
  · rintro ⟨hless, hle⟩
    obtain ⟨d, hd, hseq⟩ := exists_eq_ofPos (of_decide_eq_true (Bool.and_eq_true_iff.mp hless).2)
    rw [hseq, seqLess_ofPos (@near_of_window _ _ i.1 (by omega) (by omega)),
      decide_eq_true_eq] at hless
    rw [hseq, seqLE_ofPos (@near_of_window _ _ i.1 (by omega) (by omega)), decide_eq_true_eq] at hle
    exact ⟨i.1 + d - 1, by omega, hseq.trans (by rw [Nat.sub_add_cancel (by omega)])⟩
  · rintro ⟨x, ⟨hle, hlt⟩, rfl⟩
    rw [seqLess_ofPos (@near_of_window _ _ i.1 (by omega) (by omega)),
      seqLE_ofPos (@near_of_window _ _ i.1 (by omega) (by omega))]
    exact ⟨decide_eq_true (by omega), decide_eq_true (by omega)⟩

/-- The region that `getLE` and `getRE` stop at: `p` is the test for a region with the position `x`,
if `seq` is the sequence number at distance `c` from it. -/
theorem find_of_mem (hq : Layout s0 (At s0) queue is first next) (hi : i ∈ is)
    (hx : i.1 ≤ x ∧ x < i.2) {p : Region → Bool} {c : ℕ}
    (hp : ∀ region j, At s0 region j → j.1 < j.2 → j.2 < j.1 + 2 ^ 31 →
      (p region = true ↔ ∃ y, (j.1 ≤ y ∧ y < j.2) ∧ seq = ofPos s0 (y + c)))
    (hseq : seq = ofPos s0 (x + c)) :
    ∃ region, queue.regionList.find? p = some region ∧ At s0 region i := by
  have hwindow : ∀ j ∈ is, first ≤ j.1 ∧ j.1 ≤ j.2 ∧ j.2 < first + 2 ^ 31 := hq.window
  have hj_iff : ∀ {region j}, At s0 region j → j ∈ is →
      (p region = true ↔ ∃ y, (j.1 ≤ y ∧ y < j.2) ∧ seq = ofPos s0 (y + c)) := by
    intro region j hregion hj
    have := hwindow j hj
    exact hp region j hregion (hq.proper j hj) (by omega)
  cases hfind : queue.regionList.find? p with
  | none =>
    obtain ⟨region, hregion, hat⟩ := hq.regions.exists_of_mem_right hi
    exact absurd ((hj_iff hat hi).mpr ⟨x, hx, hseq⟩) (List.find?_eq_none.mp hfind region hregion)
  | some region =>
    obtain ⟨j, hj, hat⟩ := hq.regions.exists_of_mem_left (List.mem_of_find?_eq_some hfind)
    obtain ⟨y, hy, hseq'⟩ := (hj_iff hat hj).mp (List.find?_some hfind)
    have hwi := hwindow i hi
    have hwj := hwindow j hj
    have near : Near 32 (x + c) (y + c) :=
      @near_of_window _ _ (first + c) (by omega) (by omega)
    have heq := (ofPos_eq_iff near).mp (hseq.symm.trans hseq')
    obtain rfl : x = y := by omega
    obtain rfl := hq.ascending.eq_of_mem hi hj hx hy
    exact ⟨region, rfl, hat⟩

/-- No region passes the test if `seq` belongs to no stored position. -/
theorem find_of_not_mem (hq : Layout s0 (At s0) queue is first next) {p : Region → Bool} {c : ℕ}
    (hp : ∀ region j, At s0 region j → j.1 < j.2 → j.2 < j.1 + 2 ^ 31 →
      (p region = true ↔ ∃ y, (j.1 ≤ y ∧ y < j.2) ∧ seq = ofPos s0 (y + c)))
    (hseq : ∀ x ∈ cover is, seq ≠ ofPos s0 (x + c)) :
    queue.regionList.find? p = none := by
  refine List.find?_eq_none.mpr fun region hregion hpass => ?_
  obtain ⟨j, hj, hat⟩ := hq.regions.exists_of_mem_left hregion
  have hwindow : first ≤ j.1 ∧ j.1 ≤ j.2 ∧ j.2 < first + 2 ^ 31 := hq.window j hj
  obtain ⟨y, hy, hseq'⟩ := (hp region j hat (hq.proper j hj) (by omega)).mp hpass
  exact hseq y ⟨j, hj, hy⟩ hseq'

/-- The loop of `getAmountOfBufferedBytes`. -/
theorem foldl_length {regions : List Region} (h : Forall₂ (At s0) regions is)
    (hwindow : ∀ j ∈ is, j.1 ≤ j.2 ∧ j.2 < j.1 + 2 ^ 31) (bytes : Uint32) :
    regions.foldl (fun bytes elem => bytes + BitVec.ofNat 32 (getLength elem)) bytes =
      bytes + BitVec.ofNat 32 (is.map fun j => j.2 - j.1).sum := by
  induction h generalizing bytes with
  | nil => simp
  | @cons region j regions is hregion _ ih =>
    have hj := hwindow j List.mem_cons_self
    have hlen : getLength region = j.2 - j.1 := by
      rw [getLength, hregion.1, hregion.2, SerialNumber.toNat_ofPos_sub hj.1 (by omega)]
    rw [List.foldl_cons, ih fun k hk => hwindow k (List.mem_cons_of_mem _ hk), hlen,
      List.map_cons, List.sum_cons, BitVec.ofNat_add, BitVec.add_assoc]

theorem buffered_eq (hq : Layout s0 (At s0) queue is first next) :
    queue.getAmountOfBufferedBytes.toNat = (cover is).ncard := by
  have hwindow : ∀ j ∈ is, first ≤ j.1 ∧ j.1 ≤ j.2 ∧ j.2 < first + 2 ^ 31 := hq.window
  have hle : (cover is).ncard ≤ 2 ^ 31 := by
    have hsub : cover is ⊆ Set.Ico first (first + 2 ^ 31) := by
      rintro x ⟨j, hj, hx⟩
      have := hwindow j hj
      exact ⟨by omega, by omega⟩
    refine (Set.ncard_le_ncard hsub (Set.finite_Ico _ _)).trans (Nat.le_of_eq ?_)
    rw [← Finset.coe_Ico, Set.ncard_coe_finset, Nat.card_Ico]
    omega
  rw [getAmountOfBufferedBytes, foldl_length hq.regions fun j hj => ⟨(hwindow j hj).2.1, by
    have := hwindow j hj; omega⟩, ← hq.ascending.ncard_cover]
  show (0#32 + _).toNat = _
  rw [BitVec.zero_add, BitVec.toNat_ofNat, Nat.mod_eq_of_lt (by omega)]

/-- `rcv_nxt` is a position that has not been received. -/
theorem next_not_mem {received : Received} (hq : Layout s0 (At s0) queue is received.first next)
    (hstored : cover is = received.stored) : next ∉ received.positions := by
  intro hnext
  have hmem : next ∈ cover is := hstored ▸ ⟨hnext, hq.next_window.1⟩
  obtain ⟨j, hj, hle, hlt⟩ := hmem
  obtain rfl := hq.ahead j hj hle
  exact absurd hlt (lt_irrefl next)

/-- A queue that satisfies the invariant is the canonical one. -/
theorem canonical_of_layout {received : Received}
    (hq : Layout s0 (At s0) queue is received.first next)
    (hstored : cover is = received.stored)
    (hpassed : ∀ x < received.first, x ∈ received.positions) :
    Canonical s0 queue received where
  regions := ⟨is, hq.regions, hq.ascending, hq.proper, hstored⟩
  window := by
    intro x hx
    obtain ⟨j, hj, hle, hlt⟩ := hstored ▸ hx
    exact hlt.trans (hq.window j hj).2.2
  rcvNxt := by
    refine ⟨next, hq.rcvNxt, next_not_mem hq hstored, fun x hx => ?_⟩
    by_contra hlt
    obtain hpass | hahead := Nat.lt_or_ge x received.first
    · exact hx (hpassed x hpass)
    · have hmem := hq.mem_cover hahead (not_le.mp hlt)
      rw [hstored] at hmem
      exact hx hmem.1
  buffered := by rw [buffered_eq hq, hstored]
  getLE_of_mem := by
    intro x hx
    obtain ⟨j, hj, hx⟩ := hstored ▸ hx
    obtain ⟨region, hfind, hat⟩ := @find_of_mem s0 (ofPos s0 x) _ _ _ _ x j hq hj hx _ 0
      (fun _ _ => inside_iff) rfl
    refine ⟨j.1, ?_, hstored ▸ hq.ascending.isLeast_fst hq.proper hj hx⟩
    rw [getLE, hfind]
    exact hat.1
  getLE_of_not_mem := by
    intro seq hseq
    have hfind := @find_of_not_mem s0 seq _ _ _ _ hq _ 0 (fun _ _ => inside_iff)
      (hstored ▸ hseq)
    rw [getLE, hfind]
  getRE_of_mem := by
    intro x hx
    obtain ⟨j, hj, hx⟩ := hstored ▸ hx
    obtain ⟨region, hfind, hat⟩ := @find_of_mem s0 (ofPos s0 (x + 1)) _ _ _ _ x j hq hj hx _ 1
      (fun _ _ => insideEnd_iff) rfl
    refine ⟨j.2, ?_, hstored ▸ hq.ascending.isGreatest_snd hq.proper hj hx⟩
    rw [getRE, hfind]
    exact hat.2
  getRE_of_not_mem := by
    intro seq hseq
    have hfind := @find_of_not_mem s0 seq _ _ _ _ hq _ 1 (fun _ _ => insideEnd_iff)
      (hstored ▸ hseq)
    rw [getRE, hfind]

end

variable {s0 : Uint32} {queue : TCPVirtualDataRcvQueue Region} {received : Received} {next : ℕ}

/-- What a run keeps true. `next` is the position of `rcv_nxt`. -/
def Represents (s0 : Uint32) (queue : TCPVirtualDataRcvQueue Region) (received : Received)
    (next : ℕ) : Prop :=
  ∃ is, Layout s0 (At s0) queue is received.first next ∧
    Intervals.cover is = received.stored ∧ ∀ x < received.first, x ∈ received.positions

theorem Represents.init (s0 : Uint32) : Represents s0 (init s0) {} 0 :=
  ⟨[], Layout.init s0 (At s0), by simp [Received.stored], fun x hx => absurd hx (Nat.not_lt_zero x)⟩

theorem Represents.insertBytesFromSegment (h : Represents s0 queue received next)
    {tcpseg : TCPSegment Unit} (allowed : queue.Allowed (.insertBytesFromSegment tcpseg)) :
    ∃ queue' next', queue.insertBytesFromSegment tcpseg = .ok queue' ∧ next ≤ next' ∧
      Represents s0 queue' (received.step s0 (.insertBytesFromSegment tcpseg)) next' := by
  obtain ⟨is, hq, hstored, hpassed⟩ := h
  obtain ⟨hpos, hend⟩ := allowed
  rw [hq.getFirstSeqNo] at hend
  obtain ⟨o, ho⟩ : ∃ o, o = received.position s0 tcpseg.sequenceNo := ⟨_, rfl⟩
  obtain ⟨n, hn⟩ : ∃ n, n = tcpseg.payloadLength := ⟨_, rfl⟩
  have ho' := ho
  rw [Received.position] at ho'
  have hseq : tcpseg.sequenceNo = ofPos s0 o := by
    rw [ho', ← SerialNumber.ofPos_ofPos, SerialNumber.ofPos_toNat_sub]
  have hregion : At s0 (createRegionFromSegment tcpseg) (o, o + n) :=
    ⟨hseq, TCPSegment.endSeq_eq hseq hn.symm⟩
  have hwindow : InWindow received.first (o, o + n) :=
    ⟨by simp only; omega, Nat.le_add_right o n, by simp only; omega⟩
  obtain ⟨queue', next', -, hins, hq', hle, -⟩ :=
    insertRegion_of_at hq hregion hwindow (show o < o + n by omega)
  have hstep : received.step s0 (.insertBytesFromSegment tcpseg) =
      { received with positions := received.positions ∪ Set.Ico o (o + n) } := by
    rw [Received.step, ← ho, ← hn]
  refine ⟨queue', next', hins, hle, ?_⟩
  rw [hstep]
  refine ⟨_, hq', ?_, fun x hx => .inl (hpassed x hx)⟩
  ext x
  rw [Intervals.mem_cover_insert, hstored]
  constructor
  · rintro (⟨hmem, hle⟩ | hnew)
    · exact ⟨.inl hmem, hle⟩
    · exact ⟨.inr hnew, hwindow.1.trans hnew.1⟩
  · rintro ⟨hmem | hnew, hle⟩
    · exact .inl ⟨hmem, hle⟩
    · exact .inr hnew

/-- A place before everything that has been extracted: nothing happens. -/
theorem extractTo_of_before {is : List (ℕ × ℕ)} {first p : ℕ}
    (hq : Layout s0 (At s0) queue is first next)
    (allowed : queue.Allowed (.extractBytesUpTo (ofPos s0 p))) (hp : next < p)
    (hp' : p < first + 2 ^ 32) : queue.extractTo (ofPos s0 p) = .ok (none, queue) := by
  obtain ⟨hassert, hends⟩ := allowed
  have hnext := hq.next_window
  have hle_iff : ∀ m, m < p → p < m + 2 ^ 32 →
      (seqLE (ofPos s0 p) (ofPos s0 m) = true ↔ m + 2 ^ 31 < p) := by
    intro m hm hm'
    rw [seqLE, SerialNumber.toNat_ofPos_sub_of_lt hm (by omega), decide_eq_true_eq]
    omega
  have hnext_before := hassert
  rw [hq.rcvNxt, hle_iff next hp (by omega)] at hnext_before
  obtain ⟨rcvNxt, regionList⟩ := queue
  rw [extractTo, assert_of hassert, ok_bind]
  cases regionList with
  | nil => rfl
  | cons region rest =>
    obtain ⟨f, hf, hat⟩ := hq.regions.exists_of_mem_left List.mem_cons_self
    have hwindow : first ≤ f.1 ∧ f.1 ≤ f.2 ∧ f.2 < first + 2 ^ 31 := hq.window f hf
    have hend := hends region List.mem_cons_self
    rw [show region.end = ofPos s0 f.2 from hat.2, hle_iff f.2 (by omega) (by omega)] at hend
    have hbegin : seqLE (ofPos s0 p) (getBegin region) = true := by
      rw [hat.1, hle_iff f.1 (by omega) (by omega)]
      omega
    simp only [hbegin, if_true]

theorem Represents.extractBytesUpTo (h : Represents s0 queue received next) {seq : Uint32}
    (allowed : queue.Allowed (.extractBytesUpTo seq)) :
    ∃ queue', queue.step (.extractBytesUpTo seq) = .ok queue' ∧
      Represents s0 queue' (received.step s0 (.extractBytesUpTo seq)) next := by
  obtain ⟨is, hq, hstored, hpassed⟩ := id h
  have hnext := hq.next_window
  obtain ⟨p, hp⟩ : ∃ p, p = received.position s0 seq := ⟨_, rfl⟩
  have hp' := hp
  rw [Received.position] at hp'
  have hseq : seq = ofPos s0 p := by
    rw [hp', ← SerialNumber.ofPos_ofPos, SerialNumber.ofPos_toNat_sub]
  have hlt := (seq - ofPos s0 received.first).isLt
  obtain hle | hgt := Nat.lt_or_ge next p
  · have hnot : ¬ Set.Iio (received.position s0 seq) ⊆ received.positions :=
      fun hsub => next_not_mem hq hstored (hsub (hp ▸ hle))
    have hstep : received.step s0 (.extractBytesUpTo seq) = received := by
      simp only [Received.step, if_neg hnot]
    rw [hstep]
    refine ⟨queue, ?_, h⟩
    rw [hseq] at allowed
    rw [step, TCPVirtualDataRcvQueue.extractBytesUpTo, hseq,
      extractTo_of_before hq allowed hle (by omega)]
    rfl
  · have hall : Set.Iio p ⊆ received.positions := by
      intro x hx
      obtain hpass | hahead := Nat.lt_or_ge x received.first
      · exact hpassed x hpass
      · have hmem := hq.mem_cover hahead (lt_of_lt_of_le hx hgt)
        rw [hstored] at hmem
        exact hmem.1
    have hall' : Set.Iio (received.position s0 seq) ⊆ received.positions := hp ▸ hall
    have hstep : received.step s0 (.extractBytesUpTo seq) = { received with first := p } := by
      simp only [Received.step, if_pos hall', ← hp]
    rw [hstep]
    have hends : ∀ i ∈ is, i.2 < p + 2 ^ 31 := by
      intro i hi
      exact (hq.window i hi).2.2.trans_le (by omega)
    obtain ⟨hfirst, hext⟩ | ⟨hfirst, r, queue', is', hext, -, hq', hcover⟩ :=
      extractTo_spec (fun _ _ h => h) (fun _ _ _ hr h₁ h₂ h₃ => Region.split_of_at hr h₁ h₂ h₃)
        hq hgt (by omega) hends
    · obtain rfl : p = received.first := by omega
      refine ⟨queue, ?_, is, hq, hstored, hpassed⟩
      rw [step, TCPVirtualDataRcvQueue.extractBytesUpTo, hseq, hext]
      rfl
    · refine ⟨queue', ?_, is', hq', ?_, fun x hx => hall hx⟩
      · rw [step, TCPVirtualDataRcvQueue.extractBytesUpTo, hseq, hext]
        rfl
      · ext x
        constructor
        · rintro ⟨j, hj, hle, hlt⟩
          have hpx : p ≤ x := (hq'.window j hj).1.trans hle
          have hmem := (hcover x hpx).mp ⟨j, hj, hle, hlt⟩
          rw [hstored] at hmem
          exact ⟨hmem.1, hpx⟩
        · rintro ⟨hmem, hpx⟩
          refine (hcover x hpx).mpr ?_
          rw [hstored]
          exact ⟨hmem, hfirst.le.trans hpx⟩

theorem Represents.step (h : Represents s0 queue received next) {call : Call}
    (allowed : queue.Allowed call) :
    ∃ queue' next', queue.step call = .ok queue' ∧
      Represents s0 queue' (received.step s0 call) next' ∧
      seqLE queue.rcvNxt queue'.rcvNxt = true := by
  have hrcvNxt : queue.rcvNxt = ofPos s0 next ∧ received.first ≤ next := by
    obtain ⟨is, hq, -⟩ := h
    exact ⟨hq.rcvNxt, hq.next_window.1⟩
  cases call with
  | insertBytesFromSegment tcpseg =>
    obtain ⟨queue', next', hins, hle, h'⟩ := h.insertBytesFromSegment allowed
    refine ⟨queue', next', hins, h', ?_⟩
    obtain ⟨is, hq', -⟩ := h'
    have hwindow : next' < received.first + 2 ^ 31 := hq'.next_window.2
    rw [hrcvNxt.1, hq'.rcvNxt,
      seqLE_ofPos (@near_of_window _ _ received.first (by omega) (by omega))]
    exact decide_eq_true hle
  | extractBytesUpTo seq =>
    obtain ⟨queue', hext, h'⟩ := h.extractBytesUpTo allowed
    refine ⟨queue', next, hext, h', ?_⟩
    obtain ⟨is, hq', -⟩ := h'
    rw [hrcvNxt.1, hq'.rcvNxt, seqLE_ofPos (Near.refl 32 next)]
    exact decide_eq_true (Nat.le_refl next)

/-- In every run no call fails and `rcv_nxt` never moves back, and in the end the queue is the
canonical one for what has been received. -/
theorem canonical (s0 : Uint32) (calls : List Call)
    (allowed : Run.Admissible step Allowed (init s0) calls) :
    Run.Along step (fun queue _ queue' => seqLE queue.rcvNxt queue'.rcvNxt = true) (init s0)
      calls ∧
    ∃ queue, Run.exec step (init s0) calls = .ok queue ∧
      Canonical s0 queue (Received.after s0 calls) := by
  constructor
  · refine Run.along_of_step (P := fun queue => ∃ received next, Represents s0 queue received next)
      ?_ ⟨_, _, Represents.init s0⟩ allowed
    rintro queue call ⟨received, next, h⟩ hallowed
    obtain ⟨queue', next', hstep, h', hle⟩ := h.step hallowed
    exact ⟨queue', hstep, ⟨_, next', h'⟩, hle⟩
  · have hstep : ∀ queue received call, (∃ next, Represents s0 queue received next) →
        queue.Allowed call → ∃ queue', queue.step call = .ok queue' ∧
          ∃ next, Represents s0 queue' (received.step s0 call) next := by
      rintro queue received call ⟨next, h⟩ hallowed
      obtain ⟨queue', next', hstep, h', -⟩ := h.step hallowed
      exact ⟨queue', hstep, next', h'⟩
    obtain ⟨queue, hexec, next, h⟩ := Run.simulates hstep ⟨_, Represents.init s0⟩ allowed
    obtain ⟨is, hq, hstored, hpassed⟩ := h
    exact ⟨queue, hexec, canonical_of_layout hq hstored hpassed⟩

/-- Three segments across the wrap, the second of which is out of order, and a part extracted. -/
theorem canonical_across_wrap : ∃ queue, Run.exec step (init (-10#32))
        [.insertBytesFromSegment { sequenceNo := -10#32, payloadLength := 5 },
          .insertBytesFromSegment { sequenceNo := 5#32, payloadLength := 5 },
          .insertBytesFromSegment { sequenceNo := -6#32, payloadLength := 9 },
          .extractBytesUpTo 0#32] = .ok queue ∧
      Canonical (-10#32) queue (Received.after (-10#32)
        [.insertBytesFromSegment { sequenceNo := -10#32, payloadLength := 5 },
          .insertBytesFromSegment { sequenceNo := 5#32, payloadLength := 5 },
          .insertBytesFromSegment { sequenceNo := -6#32, payloadLength := 9 },
          .extractBytesUpTo 0#32]) :=
  (canonical (-10#32) _ (by decide)).2

/-- Segments are not empty and lie in the half of the sequence space behind `rcv_nxt`, and data
is extracted up to `rcv_nxt` at most. -/
def Ahead (queue : TCPVirtualDataRcvQueue Region) : Call → Prop
  | .insertBytesFromSegment tcpseg => 0 < tcpseg.payloadLength ∧
      (tcpseg.sequenceNo - queue.rcvNxt).toNat + tcpseg.payloadLength ≤ 2 ^ 31
  | .extractBytesUpTo seq => seqLE seq queue.rcvNxt = true

instance (queue : TCPVirtualDataRcvQueue Region) : (call : Call) → Decidable (queue.Ahead call)
  | .insertBytesFromSegment _ => inferInstanceAs (Decidable (_ ∧ _))
  | .extractBytesUpTo _ => inferInstanceAs (Decidable (_ = _))

/-- With 100 bytes unread, a segment at the far end of the half behind `rcv_nxt` is out of the
acceptable range. And extraction up to a place 2^31 - 1 before `rcv_nxt` takes a region that is
out of order, so that `rcv_nxt` later stops at 10 although 20 bytes have been received. -/
theorem not_canonical_of_far : (Run.Admissible step Ahead (init 0#32)
        [.insertBytesFromSegment { sequenceNo := 0#32, payloadLength := 100 },
          .insertBytesFromSegment { sequenceNo := 0x80000032#32, payloadLength := 10 }] ∧
      Run.exec step (init 0#32)
        [.insertBytesFromSegment { sequenceNo := 0#32, payloadLength := 100 },
          .insertBytesFromSegment { sequenceNo := 0x80000032#32, payloadLength := 10 }] =
        .error (.cRuntimeError
          "The new segment is [%u, %u) out of the acceptable range at the queue %s")) ∧
    ∃ queue, Run.Admissible step Ahead (init 0#32)
        [.insertBytesFromSegment { sequenceNo := 10#32, payloadLength := 10 },
          .extractBytesUpTo 0x80000001#32,
          .insertBytesFromSegment { sequenceNo := 0#32, payloadLength := 10 }] ∧
      Run.exec step (init 0#32)
        [.insertBytesFromSegment { sequenceNo := 10#32, payloadLength := 10 },
          .extractBytesUpTo 0x80000001#32,
          .insertBytesFromSegment { sequenceNo := 0#32, payloadLength := 10 }] = .ok queue ∧
      ¬ Canonical 0#32 queue (Received.after 0#32
        [.insertBytesFromSegment { sequenceNo := 10#32, payloadLength := 10 },
          .extractBytesUpTo 0x80000001#32,
          .insertBytesFromSegment { sequenceNo := 0#32, payloadLength := 10 }]) := by
  refine ⟨⟨by decide, by decide⟩, _, by decide, rfl, fun h => ?_⟩
  obtain ⟨next, hnext, hleast⟩ := h.rcvNxt
  have hafter : (Received.after 0#32
      [.insertBytesFromSegment { sequenceNo := 10#32, payloadLength := 10 },
        .extractBytesUpTo 0x80000001#32,
        .insertBytesFromSegment { sequenceNo := 0#32, payloadLength := 10 }]).positions =
      Set.Ico 0 20 := by
    have hfirst : Received.step 0#32 {} (.insertBytesFromSegment
        { sequenceNo := 10#32, payloadLength := 10 }) = { positions := Set.Ico 10 20 } := by
      simp [Received.step, Received.position]
    -- 0 has not been received when the data up to the old place is extracted
    have hnot : ¬ Set.Iio (Received.position { positions := Set.Ico 10 20 } 0#32 0x80000001#32) ⊆
        Set.Ico 10 20 := by
      intro hsub
      simpa using hsub (show 0 ∈ Set.Iio _ by decide)
    have hsecond : Received.step 0#32 { positions := Set.Ico 10 20 }
        (.extractBytesUpTo 0x80000001#32) = { positions := Set.Ico 10 20 } := by
      simp only [Received.step, if_neg hnot]
    rw [Received.after, List.foldl_cons, hfirst, List.foldl_cons, hsecond, List.foldl_cons,
      List.foldl_nil]
    simp only [Received.step, Received.position]
    ext x
    simp only [SerialNumber.ofPos_zero, BitVec.sub_self, BitVec.toNat_ofNat, Nat.zero_mod,
      Set.mem_union, Set.mem_Ico]
    omega
  rw [hafter] at hleast
  have hle : next ≤ 20 := hleast.2 (by simp)
  have hge : ¬ next < 20 := fun hlt => hleast.1 ⟨Nat.zero_le _, hlt⟩
  obtain rfl : next = 20 := by omega
  exact absurd hnext (by decide)

end TCPVirtualDataRcvQueue

end Inet.Tcp
