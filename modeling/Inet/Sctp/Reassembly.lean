import Inet.Sctp.SCTPReceiveStream

/-!
# Reassembly of a message from its fragments

The messages of a sender have consecutive TSNs for their fragments, and the messages
themselves follow each other. When a queue holds the fragments of a message that have
arrived, `reassemble` puts them together just when all are there.

The loop that puts them together compares TSNs as plain numbers. It is right for a message
whose last TSN is not behind 2³² - 1 and not at it, and for one that begins at 2³² - 1
(`Sender.Joinable`); otherwise it does nothing and the first fragment becomes the message,
or it runs past the last fragment.
-/

namespace Inet.Sctp

open SerialNumber
open List

/-- A message in the pieces that are sent. -/
structure SentMessage where
  sid : ℕ
  ordered : Bool
  parts : List Bytes

/-- What a sender sends, the `n`-th message behind the `n - 1`-th. -/
structure Sender where
  initialTsn : Uint32
  messages : ℕ → SentMessage
  nonempty : ∀ n, (messages n).parts ≠ []
  /-- A DATA chunk without user data aborts the association. -/
  filled : ∀ n, ∀ data ∈ (messages n).parts, data ≠ []

namespace Sender

section

variable (sender : Sender)

/-- The number of fragments of a message. -/
def size (n : ℕ) : ℕ := (sender.messages n).parts.length

/-- The place of the first fragment of a message among all chunks of the sender. -/
def start : ℕ → ℕ
  | 0 => 0
  | n + 1 => start n + sender.size n

/-- A message of a stream, ordered or not. -/
def On (sid : ℕ) (ordered : Bool) (n : ℕ) : Prop :=
  (sender.messages n).sid = sid ∧ (sender.messages n).ordered = ordered
deriving Decidable

/-- The number of ordered messages of the same stream before a message. -/
def number (n : ℕ) : ℕ := Nat.count (sender.On (sender.messages n).sid true) n

def ssn (n : ℕ) : ℕ := if (sender.messages n).ordered then sender.number n % 65536 else 0

def tsn (n k : ℕ) : Uint32 := ofPos sender.initialTsn (sender.start n + k)

/-- The `k`-th fragment of a message. -/
def chunk (n k : ℕ) : SCTPDataVariables :=
  let data := (sender.messages n).parts.getD k []
  { tsn := sender.tsn n k
    sid := (sender.messages n).sid
    ssn := sender.ssn n
    ordered := (sender.messages n).ordered
    bbit := k = 0
    ebit := k + 1 = sender.size n
    len := 8 * data.length % 2 ^ 32
    userData := data
    received := [sender.start n + k] }

/-- The first `k + 1` fragments of a message in one chunk. -/
def joined (n k : ℕ) : SCTPDataVariables :=
  let data := ((sender.messages n).parts.take (k + 1)).flatten
  { sender.chunk n 0 with
    len := 8 * data.length % 2 ^ 32
    userData := data
    received := List.range' (sender.start n) (k + 1) }

/-- The chunk in which a message is passed to the application. -/
def whole (n : ℕ) : SCTPDataVariables :=
  { sender.joined n (sender.size n - 1) with ebit := true }

/-- The fragments of a message can be put together: `uint32` holds its length in bits, and
its TSNs do not reach 2³² - 1, unless it begins there. -/
structure Joinable (n : ℕ) : Prop where
  bits : 8 * (sender.messages n).parts.flatten.length < 2 ^ 32
  tsns : (sender.tsn n 0).toNat + 1 = 2 ^ 32 ∨ (sender.tsn n 0).toNat + sender.size n < 2 ^ 32

end

variable {sender : Sender} {n m k j : ℕ} {sid : ℕ}

theorem size_pos (sender : Sender) (n : ℕ) : 0 < sender.size n :=
  length_pos_of_ne_nil (sender.nonempty n)

theorem start_le_of_lt (h : n < m) : sender.start n + sender.size n ≤ sender.start m := by
  induction m with
  | zero => cases h
  | succ m ih =>
    rw [start]
    obtain hlt | rfl := Nat.lt_succ_iff_lt_or_eq.mp h
    · exact (ih hlt).trans (Nat.le_add_right ..)
    · exact le_rfl

theorem start_lt_start (h : n < m) : sender.start n < sender.start m :=
  Nat.lt_of_lt_of_le (Nat.lt_add_of_pos_right (sender.size_pos n)) (start_le_of_lt h)

/-- A place among all chunks belongs to one fragment of one message. -/
theorem place_inj (hk : k < sender.size n) (hj : j < sender.size m)
    (h : sender.start n + k = sender.start m + j) : n = m ∧ k = j := by
  obtain hlt | rfl | hlt := Nat.lt_trichotomy n m
  · have : sender.start n + sender.size n ≤ sender.start m := start_le_of_lt hlt
    omega
  · exact ⟨rfl, Nat.add_left_cancel h⟩
  · have : sender.start m + sender.size m ≤ sender.start n := start_le_of_lt hlt
    omega

theorem number_eq {ordered : Bool} (h : sender.On sid ordered n) :
    sender.number n = Nat.count (sender.On sid true) n := by
  rw [number, h.1]

theorem number_inj (hn : sender.On sid true n) (hm : sender.On sid true m)
    (h : sender.number n = sender.number m) : n = m := by
  rw [number_eq hn, number_eq hm] at h
  exact Nat.count_injective hn hm h

/-- The ordered messages of a stream are numbered without gaps. -/
theorem exists_number {i : ℕ} (h : i < Nat.count (sender.On sid true) n) :
    ∃ m < n, sender.On sid true m ∧ sender.number m = i := by
  induction n with
  | zero => simp at h
  | succ n ih =>
    by_cases hlt : i < Nat.count (sender.On sid true) n
    · obtain ⟨m, hm, hon, hnumber⟩ := ih hlt
      exact ⟨m, Nat.lt_succ_of_lt hm, hon, hnumber⟩
    · by_cases hon : sender.On sid true n
      · refine ⟨n, Nat.lt_succ_self n, hon, ?_⟩
        rw [Nat.count_succ, if_pos hon] at h
        rw [number_eq hon]
        omega
      · rw [Nat.count_succ, if_neg hon] at h
        exact absurd h hlt

theorem tsn_succ (n k : ℕ) : sender.tsn n (k + 1) = sender.tsn n k + 1 :=
  ofPos_succ sender.initialTsn (sender.start n + k)

theorem tsn_pred (n k : ℕ) : sender.tsn n (k + 1) - 1 = sender.tsn n k := by
  rw [tsn_succ, BitVec.add_sub_cancel]

theorem getD_parts (hk : k < sender.size n) :
    (sender.messages n).parts.getD k [] = (sender.messages n).parts.get ⟨k, hk⟩ := by
  rw [getD_eq_getElem?_getD, getElem?_eq_getElem hk, Option.getD_some]
  rfl

theorem getD_parts_ne_nil (hk : k < sender.size n) : (sender.messages n).parts.getD k [] ≠ [] := by
  rw [getD_parts hk]
  exact sender.filled n _ (getElem_mem hk)

theorem flatten_take_succ (hk : k < sender.size n) :
    ((sender.messages n).parts.take (k + 1)).flatten =
      ((sender.messages n).parts.take k).flatten ++ (sender.messages n).parts.getD k [] := by
  rw [take_add_one, flatten_append, getD_parts hk, getElem?_eq_getElem hk,
    Option.toList_some, flatten_singleton]
  rfl

theorem length_flatten_take_le (n k : ℕ) : ((sender.messages n).parts.take k).flatten.length ≤
      (sender.messages n).parts.flatten.length := by
  have hlength := congrArg List.length
    (congrArg List.flatten (take_append_drop k (sender.messages n).parts))
  rw [flatten_append, length_append] at hlength
  omega

theorem joined_zero (n : ℕ) : sender.joined n 0 = sender.chunk n 0 := by
  have hdata := flatten_take_succ (sender.size_pos n)
  rw [take_zero, flatten_nil, nil_append] at hdata
  rw [joined, hdata]
  rfl

theorem overwrite_append {xs ys zs : Bytes} (h : ys.length = zs.length) :
    overwrite (xs ++ zs) xs.length ys = xs ++ ys := by
  rw [overwrite, take_left, h, ← length_append, drop_length, append_nil]

/-- The next fragment is added behind those before it. -/
theorem joined_add (hbits : 8 * (sender.messages n).parts.flatten.length < 2 ^ 32)
    (hk : k + 1 < sender.size n) :
    (sender.joined n k).add (sender.chunk n (k + 1)) = sender.joined n (k + 1) := by
  have hfirst : 0 < (((sender.messages n).parts.take (k + 1)).flatten).length := by
    rw [flatten_take_succ (Nat.lt_of_succ_lt hk), length_append]
    have := length_pos_of_ne_nil (getD_parts_ne_nil (Nat.lt_of_succ_lt hk))
    omega
  have hnext := length_pos_of_ne_nil (getD_parts_ne_nil hk)
  have hjoin := flatten_take_succ hk
  have htotal := sender.length_flatten_take_le n (k + 1 + 1)
  rw [hjoin, length_append] at htotal
  simp only [SCTPDataVariables.add, joined, chunk]
  rw [if_pos ⟨hfirst, hnext⟩, hjoin, length_append]
  simp only [SCTPDataVariables.mk.injEq, true_and]
  refine ⟨by omega, ?_, ?_⟩
  · rw [show 8 * ((sender.messages n).parts.take (k + 1)).flatten.length % 2 ^ 32 / 8 =
      ((sender.messages n).parts.take (k + 1)).flatten.length by omega,
      show 8 * ((sender.messages n).parts.getD (k + 1) []).length % 2 ^ 32 / 8 =
      ((sender.messages n).parts.getD (k + 1) []).length by omega, take_length]
    exact overwrite_append (length_replicate ..).symm
  · exact (range'_1_concat ..).symm

theorem whole_eq_chunk (h : sender.size n = 1) : sender.whole n = sender.chunk n 0 := by
  rw [whole, h, joined_zero]
  simp [chunk, h]

theorem mem_received_whole (h : j < sender.size m) :
    sender.start m + j ∈ (sender.whole n).received ↔ m = n := by
  have hsize := sender.size_pos n
  have hreceived : (sender.whole n).received =
      range' (sender.start n) (sender.size n - 1 + 1) := rfl
  rw [hreceived, mem_range'_1, Nat.sub_add_cancel hsize]
  constructor
  · rintro ⟨hle, hlt⟩
    exact (place_inj (k := j) (j := sender.start m + j - sender.start n) h (by omega)
      (by omega)).1
  · rintro rfl
    omega

theorem whole_inj (h : sender.whole n = sender.whole m) : n = m := by
  have hmem := (mem_received_whole (sender.size_pos n) (n := n)).mpr rfl
  rw [h] at hmem
  exact (mem_received_whole (sender.size_pos n)).mp hmem

/-- What the queue holds of a message, of which no fragment has arrived that is too far
behind the first one. -/
structure HasFragments (sender : Sender) (queue : SCTPQueue) (n : ℕ) (arrived : ℕ → Prop) :
    Prop where
  near : ∀ k, arrived k → k < 2 ^ 31
  present : ∀ k < sender.size n, arrived k →
    SCTPQueue.getChunk queue (sender.tsn n k) = some (sender.chunk n k)
  absent : ∀ k < sender.size n, k ≤ 2 ^ 31 → ¬ arrived k →
    SCTPQueue.getChunk queue (sender.tsn n k) = none

open SCTPReceiveStream SCTPQueue

variable {queue : SCTPQueue} {arrived : ℕ → Prop} {fuel : ℕ}

section

variable (h : sender.HasFragments queue n arrived)

include h

/-- The queue is longer than any walk over fragments that are there. -/
theorem HasFragments.length_le
    (hk : k ≤ sender.size n) (hall : ∀ i, j ≤ i → i < k → arrived i) : k - j ≤ queue.length := by
  have hnodup : ((range' j (k - j)).map (sender.chunk n)).Nodup := by
    refine (nodup_range' ..).map fun i i' heq => ?_
    have hreceived := congrArg SCTPDataVariables.received heq
    simp only [chunk, List.cons.injEq, and_true] at hreceived
    omega
  have hsubset : (range' j (k - j)).map (sender.chunk n) ⊆ queue := by
    intro c hc
    obtain ⟨i, hi, rfl⟩ := mem_map.mp hc
    rw [mem_range'_1] at hi
    exact mem_of_find?_eq_some
      (h.present i (by omega) (hall i (by omega) (by omega)))
  simpa using (subperm_of_subset hnodup hsubset).length_le

/-- The walk down ends at the first fragment, or at one that is missing. -/
theorem firstFragment_spec (hk : k < sender.size n)
    (hnear : k ≤ 2 ^ 31) (hfuel : ∀ j ≤ k, (∀ i, j < i → i ≤ k → arrived i) → k - j < fuel) :
    ∃ j ≤ k, firstFragment queue fuel (sender.tsn n k) = .ok (sender.tsn n j) ∧
      (¬ arrived j ∨ j = 0 ∧ ∀ i ≤ k, arrived i) := by
  classical
  induction k generalizing fuel with
  | zero =>
    obtain ⟨fuel, rfl⟩ := Nat.exists_eq_add_one.mpr (hfuel 0 le_rfl (by omega))
    refine ⟨0, le_rfl, ?_, ?_⟩
    · rw [firstFragment, if_neg]
      by_cases ha : arrived 0
      · simp [h.present 0 hk ha, chunk]
      · simp [h.absent 0 hk hnear ha]
    · by_cases ha : arrived 0
      · refine .inr ⟨rfl, fun i hi => ?_⟩
        rw [Nat.le_zero.mp hi]
        exact ha
      · exact .inl ha
  | succ k ih =>
    have hpos : 0 < fuel := Nat.zero_lt_of_lt (hfuel (k + 1) le_rfl (by omega))
    obtain ⟨fuel, rfl⟩ := Nat.exists_eq_add_one.mpr hpos
    by_cases ha : arrived (k + 1)
    · obtain ⟨j, hj, hwalk, hend⟩ := @ih fuel (Nat.lt_of_succ_lt hk) (by omega) (by
        intro j hj hall
        have := hfuel j (by omega) fun i hi hik => by
          obtain rfl | hik := Nat.eq_or_lt_of_le hik
          · exact ha
          · exact hall i hi (by omega)
        omega)
      refine ⟨j, by omega, ?_, hend.imp_right fun ⟨hj, hall⟩ => ⟨hj, fun i hi => ?_⟩⟩
      · rw [firstFragment, if_pos, tsn_pred, hwalk]
        simp [h.present _ hk ha, chunk]
      · obtain rfl | hi := Nat.eq_or_lt_of_le hi
        · exact ha
        · exact hall i (by omega)
    · refine ⟨k + 1, le_rfl, ?_, .inl ha⟩
      rw [firstFragment, if_neg]
      simp [h.absent _ hk hnear ha]

/-- The walk up ends at the last fragment, or at one that is missing. -/
theorem lastFragment_spec (hk : k < sender.size n)
    (hnear : k ≤ 2 ^ 31)
    (hfuel : ∀ j < sender.size n, k ≤ j → (∀ i, k ≤ i → i < j → arrived i) → j - k < fuel) :
    ∃ j < sender.size n, k ≤ j ∧ j ≤ 2 ^ 31 ∧
      lastFragment queue fuel (sender.tsn n k) = .ok (sender.tsn n j) ∧
      (¬ arrived j ∨ j + 1 = sender.size n ∧ ∀ i, k ≤ i → i ≤ j → arrived i) := by
  classical
  induction hsize : sender.size n - k generalizing k fuel with
  | zero => omega
  | succ rest ih =>
    have hpos : 0 < fuel := Nat.zero_lt_of_lt (hfuel k hk le_rfl (by omega))
    obtain ⟨fuel, rfl⟩ := Nat.exists_eq_add_one.mpr hpos
    by_cases ha : arrived k
    · by_cases hlast : k + 1 = sender.size n
      · refine ⟨k, hk, le_rfl, hnear, ?_, .inr ⟨hlast, fun i hki hik => ?_⟩⟩
        · rw [lastFragment, if_neg]
          simp [h.present _ hk ha, chunk, hlast]
        · rw [Nat.le_antisymm hik hki]
          exact ha
      · obtain ⟨j, hj, hkj, hj31, hwalk, hend⟩ := @ih (k + 1) fuel (by omega) (h.near k ha) (by
          intro j hj hkj hall
          have := hfuel j hj (by omega) fun i hi hij => by
            obtain rfl | hi := Nat.eq_or_lt_of_le hi
            · exact ha
            · exact hall i hi hij
          omega) (by omega)
        refine ⟨j, hj, by omega, hj31, ?_,
          hend.imp_right fun ⟨hj, hall⟩ => ⟨hj, fun i hi hij => ?_⟩⟩
        · rw [lastFragment, if_pos, ← tsn_succ, hwalk]
          simp [h.present _ hk ha, chunk, hlast]
        · obtain rfl | hi := Nat.eq_or_lt_of_le hi
          · exact ha
          · exact hall i hi hij
    · refine ⟨k, hk, le_rfl, hnear, ?_, .inl ha⟩
      rw [lastFragment, if_neg]
      simp [h.absent _ hk hnear ha]

end

/-- In the range of TSNs of a message that can be joined, the loop compares places. -/
theorem Joinable.tsn_le (h : sender.Joinable n) (hsize : sender.size n ≤ 2 ^ 32)
    (hk : k < sender.size n) (hpos : 0 < k) :
    sender.tsn n k ≤ sender.tsn n (sender.size n - 1) ∧
      ¬ sender.tsn n (sender.size n) ≤ sender.tsn n (sender.size n - 1) := by
  have hnat : ∀ i, (sender.tsn n i).toNat = ((sender.tsn n 0).toNat + i) % 2 ^ 32 := by
    intro i
    rw [tsn, ofPos_add, BitVec.toNat_add, tsn, Nat.add_zero, BitVec.toNat_ofNat]
    omega
  rw [BitVec.le_def, BitVec.le_def, hnat k, hnat (sender.size n), hnat (sender.size n - 1)]
  have hlt := (sender.tsn n 0).isLt
  obtain htop | hfits := h.tsns <;> omega

/-- The loop adds the fragments that are left to those already joined. -/
theorem addFragments_spec (hjoin : sender.Joinable n) (hsize : sender.size n ≤ 2 ^ 32)
    (hmany : 1 < sender.size n) (hdistinct : ∀ i < sender.size n, ∀ j < sender.size n,
      sender.tsn n i = sender.tsn n j → i = j) (hk : k < sender.size n)
    (hfuel : sender.size n - k ≤ fuel) (hsorted : KeyedList.Sorted SCTPDataVariables.key queue)
    (hpresent : ∀ i < sender.size n, k < i →
      getChunk queue (sender.tsn n i) = some (sender.chunk n i)) :
    ∃ queue', addFragments (sender.tsn n (sender.size n - 1)) fuel queue (sender.joined n k)
        (sender.tsn n k) = .ok (queue', sender.joined n (sender.size n - 1)) ∧
      KeyedList.Sorted SCTPDataVariables.key queue' ∧
      ∀ c, c ∈ queue' ↔ c ∈ queue ∧ ∀ i < sender.size n, k < i → c.tsn ≠ sender.tsn n i := by
  induction fuel generalizing queue k with
  | zero => omega
  | succ fuel ih =>
    rw [addFragments, ← tsn_succ]
    by_cases hlast : k + 1 = sender.size n
    · have hk' : k = sender.size n - 1 := by omega
      refine ⟨queue, ?_, hsorted, fun c => ⟨fun hc => ⟨hc, fun i hi hki => by omega⟩, And.left⟩⟩
      rw [hlast, if_neg (hjoin.tsn_le hsize hmany Nat.one_pos).2, hk']
    · have hlt : k + 1 < sender.size n := by omega
      have hnext := hpresent (k + 1) hlt (Nat.lt_succ_self k)
      rw [if_pos (hjoin.tsn_le hsize hlt (Nat.succ_pos k)).1]
      have hmem : sender.chunk n (k + 1) ∈ queue := mem_of_find?_eq_some hnext
      have hextract : getAndExtractChunk queue (sender.tsn n (k + 1)) =
          .ok (sender.chunk n (k + 1), erase queue (sender.tsn n (k + 1))) := by
        rw [getAndExtractChunk, if_neg (ne_nil_of_mem hmem), hnext]
      obtain ⟨queue', hloop, hsorted', hmem'⟩ := ih hlt (by omega)
        (hsorted.erase (sender.tsn n (k + 1)).toNat) (fun i hi hki => by
          have hi' := hpresent i hi (by omega)
          obtain ⟨hc, hkey⟩ := (KeyedList.lookup_eq_some hsorted).mp hi'
          refine (KeyedList.lookup_eq_some (hsorted.erase _)).mpr ⟨KeyedList.mem_erase.mpr
            ⟨hc, fun heq => ?_⟩, hkey⟩
          have := hdistinct i hi (k + 1) hlt (BitVec.eq_of_toNat_eq (hkey.symm.trans heq))
          omega)
      refine ⟨queue', ?_, hsorted', fun c => ?_⟩
      · rw [hextract, ok_bind]
        dsimp only
        rw [joined_add hjoin.bits hlt]
        exact hloop
      · rw [hmem', KeyedList.mem_erase]
        constructor
        · rintro ⟨⟨hc, hne⟩, hrest⟩
          refine ⟨hc, fun i hi hki heq => ?_⟩
          obtain rfl | hki := Nat.eq_or_lt_of_le hki
          · exact hne (congrArg BitVec.toNat heq)
          · exact hrest i hi hki heq
        · rintro ⟨hc, hrest⟩
          exact ⟨⟨hc, fun heq => hrest (k + 1) hlt (Nat.lt_succ_self k)
            (BitVec.eq_of_toNat_eq heq)⟩, fun i hi hki => hrest i hi (by omega)⟩

section

variable (h : sender.HasFragments queue n arrived)

include h

theorem HasFragments.first (hk : k < sender.size n) (ha : arrived k) :
    ∃ j ≤ k, firstFragment queue (queue.length + 1) (sender.tsn n k) = .ok (sender.tsn n j) ∧
      (¬ arrived j ∨ j = 0 ∧ ∀ i ≤ k, arrived i) := by
  refine firstFragment_spec h hk (h.near k ha).le fun j hj hall => ?_
  have := h.length_le (k := k + 1) (j := j + 1) hk fun i hi hik => hall i (by omega) (by omega)
  omega

theorem HasFragments.last : ∃ j < sender.size n, 0 ≤ j ∧ j ≤ 2 ^ 31 ∧
      lastFragment queue (queue.length + 1) (sender.tsn n 0) = .ok (sender.tsn n j) ∧
      (¬ arrived j ∨ j + 1 = sender.size n ∧ ∀ i, 0 ≤ i → i ≤ j → arrived i) := by
  refine lastFragment_spec h (sender.size_pos n) (Nat.zero_le _) fun j hj _ hall => ?_
  have := h.length_le (k := j) (j := 0) hj.le fun i hi hij => hall i hi hij
  omega

/-- Nothing happens while a fragment is missing. -/
theorem reassemble_of_missing (hk : k < sender.size n)
    (ha : arrived k) (hmissing : ∃ i < sender.size n, ¬ arrived i) :
    reassemble queue (sender.tsn n k) = .ok (queue, sender.tsn n k) := by
  have hnear := h.near k ha
  obtain ⟨j, hj, hfirst, hend⟩ := h.first hk ha
  rw [reassemble, hfirst, ok_bind]
  obtain hj' | ⟨rfl, -⟩ := hend
  · rw [h.absent j (by omega) (by omega) hj']
  · by_cases h0 : arrived 0
    · rw [h.present 0 (sender.size_pos n) h0]
      obtain ⟨l, hl, -, hl31, hlast, hend⟩ := h.last
      have hl' : ¬ arrived l := by
        obtain hl' | ⟨hl', hall⟩ := hend
        · exact hl'
        · obtain ⟨i, hi, hmiss⟩ := hmissing
          exact absurd (hall i (Nat.zero_le i) (by omega)) hmiss
      simp only [hlast, ok_bind, h.absent l hl hl31 hl', Option.isSome_none,
        Bool.false_eq_true, if_false]
    · rw [h.absent 0 (sender.size_pos n) (Nat.zero_le _) h0]

/-- A message all of whose fragments are there is put together at its first TSN. -/
theorem reassemble_of_complete (hk : k < sender.size n) (hall : ∀ i < sender.size n, arrived i)
    (hjoin : sender.Joinable n) (hsize : sender.size n ≤ 2 ^ 32) (hmany : 1 < sender.size n)
    (hdistinct : ∀ i < sender.size n, ∀ j < sender.size n, sender.tsn n i = sender.tsn n j → i = j)
    (hsorted : KeyedList.Sorted SCTPDataVariables.key queue) :
    ∃ queue', reassemble queue (sender.tsn n k) = .ok (queue', sender.tsn n 0) ∧
      KeyedList.Sorted SCTPDataVariables.key queue' ∧
      ∀ c, c ∈ queue' ↔
        c = sender.whole n ∨ c ∈ queue ∧ ∀ i < sender.size n, c.tsn ≠ sender.tsn n i := by
  obtain ⟨j, hj, hfirst, hend⟩ := h.first hk (hall k hk)
  obtain ⟨rfl, -⟩ := hend.resolve_left fun hj' => hj' (hall j (by omega))
  obtain ⟨l, hl, -, -, hlast, hend⟩ := h.last
  obtain ⟨hl', -⟩ := hend.resolve_left fun hl' => hl' (hall l hl)
  obtain rfl : l = sender.size n - 1 := by omega
  have hfuel : sender.size n - 0 ≤ queue.length + 1 := by
    have := h.length_le (k := sender.size n) (j := 0) le_rfl fun i _ hi => hall i hi
    omega
  obtain ⟨queue', hloop, hsorted', hmem⟩ := addFragments_spec hjoin hsize hmany hdistinct
    (sender.size_pos n) hfuel hsorted fun i hi _ => h.present i hi (hall i hi)
  rw [joined_zero] at hloop
  have hrun : reassemble queue (sender.tsn n k) =
      .ok (set queue' (sender.whole n), sender.tsn n 0) := by
    have hpos := sender.size_pos n
    rw [reassemble, hfirst, ok_bind, h.present 0 hpos (hall 0 hpos)]
    simp only [hlast, ok_bind, h.present _ hl (hall _ hl), Option.isSome_some, if_true, hloop]
    rfl
  refine ⟨_, hrun, ?_, fun c => ?_⟩
  · exact (hsorted'.erase _).insert fun c hc => (KeyedList.mem_erase.mp hc).2
  · have htsn : (sender.whole n).tsn = sender.tsn n 0 := rfl
    rw [SCTPQueue.set, KeyedList.mem_insert, SCTPQueue.erase, KeyedList.mem_erase, hmem, htsn]
    refine or_congr_right ⟨?_, ?_⟩
    · rintro ⟨⟨hc, hrest⟩, hfirst⟩
      refine ⟨hc, fun i hi heq => ?_⟩
      obtain rfl | hpos := Nat.eq_zero_or_pos i
      · exact hfirst (congrArg BitVec.toNat heq)
      · exact hrest i hi hpos heq
    · rintro ⟨hc, hrest⟩
      exact ⟨⟨hc, fun i hi _ => hrest i hi⟩, fun heq =>
        hrest 0 (sender.size_pos n) (BitVec.eq_of_toNat_eq heq)⟩

end

end Sender

end Inet.Sctp
