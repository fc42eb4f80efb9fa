import Inet.Library.Run
import Inet.Library.SerialRuns
import Inet.Tcp.Segment

/-!
# The retransmission queue for selective acknowledgments

`TCPSACKRexmitQueue` remembers for every byte in flight whether it has been sacked and
whether it has been retransmitted, as a list of regions with equal flags.

`Scoreboard` is what the queue stands for: the two flags of each byte. Every operation of
the queue is an operation on the flags (`refines_scoreboard`).
-/

namespace Inet.Tcp

open SerialNumber (ofPos Near ofPos_ofPos ofPos_toNat_sub ofPos_zero)
open RunLength (expand cutBefore exists_cut length length_append length_cons length_expand
  length_mapRuns length_nil length_updateRange mapRuns markTo updateRange)

namespace TCPSACKRexmitQueue

structure Region where
  beginSeqNum : Uint32
  endSeqNum : Uint32
  /-- Whether the region has already been sacked by the data receiver. -/
  sacked : Bool
  /-- Whether the region has already been retransmitted by the data sender. -/
  rexmitted : Bool
deriving DecidableEq

end TCPSACKRexmitQueue

open RunLength (Proper expand_append)

structure TCPSACKRexmitQueue where
  begin : Uint32
  «end» : Uint32
  rexmitQueue : List TCPSACKRexmitQueue.Region := []
deriving DecidableEq

namespace TCPSACKRexmitQueue

def init (seqNum : Uint32) : TCPSACKRexmitQueue := { begin := seqNum, «end» := seqNum }

/-- The loop of `checkQueue`: where the next region has to begin, and whether all is well. -/
def checkRegions : List Region → Uint32 → Bool → Uint32 × Bool
  | [], b, f => (b, f)
  | elem :: rest, b, f =>
    checkRegions rest elem.endSeqNum
      (f && b == elem.beginSeqNum && seqLess elem.beginSeqNum elem.endSeqNum)

def checkQueue (queue : TCPSACKRexmitQueue) : Bool :=
  let (b, f) := checkRegions queue.rexmitQueue queue.begin true
  f && b == queue.end

/-- The regions that `discardUpTo` leaves. -/
def discardRegions (regions : List Region) (seqNum : Uint32) : Result (List Region) :=
  match regions.dropWhile fun i => seqLE i.endSeqNum seqNum with
  | [] => .ok []
  | i :: rest => do
      assert (seqLE i.beginSeqNum seqNum && seqLess seqNum i.endSeqNum)
        "seqLE(i->beginSeqNum, seqNum) && seqLess(seqNum, i->endSeqNum)"
      .ok ({ i with beginSeqNum := seqNum } :: rest)

def discardUpTo (queue : TCPSACKRexmitQueue) (seqNum : Uint32) : Result TCPSACKRexmitQueue := do
  assert (seqLE queue.begin seqNum && seqLE seqNum queue.end)
    "seqLE(begin, seqNum) && seqLE(seqNum, end)"
  let rexmitQueue ← discardRegions queue.rexmitQueue seqNum
  let queue := { queue with begin := seqNum, rexmitQueue }
  assert queue.checkQueue "checkQueue()"
  .ok queue

/-- How `enqueueSentData` and `setSackedBit` begin: the iterator moves to the region that
contains `fromSeqNum`, which is chunked unless it begins there. Gives the regions before
the iterator and those behind it; `found` and `inside` are the texts of the assertions. -/
def chunkAt (regions : List Region) (fromSeqNum : Uint32) (found inside : String) :
    Result (List Region × List Region) := do
  let before := regions.takeWhile fun i => seqLE i.endSeqNum fromSeqNum
  match regions.dropWhile fun i => seqLE i.endSeqNum fromSeqNum with
  | [] => .error (.assertion found)
  | i :: rest => do
      assert (seqLE i.beginSeqNum fromSeqNum && seqLess fromSeqNum i.endSeqNum) inside
      if i.beginSeqNum ≠ fromSeqNum then
        .ok (before ++ [{ i with endSeqNum := fromSeqNum }],
          { i with beginSeqNum := fromSeqNum } :: rest)
      else
        .ok (before, i :: rest)

/-- The part of `enqueueSentData` that marks the regions from the iterator on. -/
def markRexmitted (before behind : List Region) (fromSeqNum toSeqNum : Uint32) :
    Result (List Region) := do
  let marked := behind.takeWhile fun i => seqLE i.endSeqNum toSeqNum
  let rest := behind.dropWhile fun i => seqLE i.endSeqNum toSeqNum
  let before := before ++ marked.map fun i => { i with rexmitted := true }
  let fromSeqNum := (marked.getLast?.map Region.endSeqNum).getD fromSeqNum
  if fromSeqNum ≠ toSeqNum then
    match rest with
    | [] => .ok (before ++ [⟨fromSeqNum, toSeqNum, false, false⟩])
    | i :: rest => do
        assert (seqLess i.beginSeqNum toSeqNum)
          "i == rexmitQueue.end() || seqLess(i->beginSeqNum, toSeqNum)"
        .ok (before ++ ⟨fromSeqNum, toSeqNum, i.sacked, true⟩ ::
          { i with beginSeqNum := toSeqNum } :: rest)
  else
    .ok (before ++ rest)

/-- The regions after `enqueueSentData`. The assertions `fromSeqNum == toSeqNum` and
`found` behind the two branches are left out: every path assigns both. -/
def enqueueRegions (queue : TCPSACKRexmitQueue) (fromSeqNum toSeqNum : Uint32) :
    Result (List Region) :=
  if queue.rexmitQueue.isEmpty || queue.end == fromSeqNum then
    .ok (queue.rexmitQueue ++ [⟨fromSeqNum, toSeqNum, false, false⟩])
  else do
    let (before, behind) ← chunkAt queue.rexmitQueue fromSeqNum "i != rexmitQueue.end()"
      "seqLE(i->beginSeqNum, fromSeqNum) && seqLess(fromSeqNum, i->endSeqNum)"
    markRexmitted before behind fromSeqNum toSeqNum

def enqueueSentData (queue : TCPSACKRexmitQueue) (fromSeqNum toSeqNum : Uint32) :
    Result TCPSACKRexmitQueue := do
  assert (seqLE queue.begin fromSeqNum && seqLE fromSeqNum queue.end)
    "seqLE(begin, fromSeqNum) && seqLE(fromSeqNum, end)"
  assert (seqLess fromSeqNum toSeqNum) "seqLess(fromSeqNum, toSeqNum)"
  let rexmitQueue ← enqueueRegions queue fromSeqNum toSeqNum
  let queue :=
    { begin := (rexmitQueue.head?.map Region.beginSeqNum).getD queue.begin
      «end» := (rexmitQueue.getLast?.map Region.endSeqNum).getD queue.end
      rexmitQueue : TCPSACKRexmitQueue }
  assert queue.checkQueue "checkQueue()"
  .ok queue

/-- The part of `setSackedBit` that marks the regions from the iterator on. -/
def markSacked (before behind : List Region) (fromSeqNum toSeqNum : Uint32) : List Region :=
  let marked := behind.takeWhile fun i => seqLE i.endSeqNum toSeqNum
  let rest := behind.dropWhile fun i => seqLE i.endSeqNum toSeqNum
  let before := before ++ marked.map fun i =>
    if seqGE i.beginSeqNum fromSeqNum then { i with sacked := true } else i
  match rest with
  | [] => before
  | i :: rest =>
    if seqLess i.beginSeqNum toSeqNum && seqLess toSeqNum i.endSeqNum then
      before ++ { i with endSeqNum := toSeqNum, sacked := true } ::
        { i with beginSeqNum := toSeqNum } :: rest
    else
      before ++ i :: rest

/-- The assertion of `setSackedBit` that the region has been found. -/
def sackedFound : String :=
  "i != rexmitQueue.end() && seqLE(i->beginSeqNum, fromSeqNum) && " ++
    "seqLess(fromSeqNum, i->endSeqNum)"

/-- The regions after `setSackedBit`. -/
def sackRegions (regions : List Region) (fromSeqNum toSeqNum : Uint32) : Result (List Region) :=
  if regions.isEmpty then .ok regions
  else do
    let (before, behind) ← chunkAt regions fromSeqNum sackedFound sackedFound
    .ok (markSacked before behind fromSeqNum toSeqNum)

/-- The first byte that `setSackedBit` marks. -/
def sackedFrom (queue : TCPSACKRexmitQueue) (fromSeqNum : Uint32) : Uint32 :=
  if seqLess fromSeqNum queue.begin then queue.begin else fromSeqNum

def setSackedBit (queue : TCPSACKRexmitQueue) (fromSeqNum toSeqNum : Uint32) :
    Result TCPSACKRexmitQueue := do
  let fromSeqNum := queue.sackedFrom fromSeqNum
  assert (seqLess fromSeqNum queue.end) "seqLess(fromSeqNum, end)"
  assert (seqLess queue.begin toSeqNum && seqLE toSeqNum queue.end)
    "seqLess(begin, toSeqNum) && seqLE(toSeqNum, end)"
  assert (seqLess fromSeqNum toSeqNum) "seqLess(fromSeqNum, toSeqNum)"
  let rexmitQueue ← sackRegions queue.rexmitQueue fromSeqNum toSeqNum
  let queue := { queue with rexmitQueue }
  assert queue.checkQueue "checkQueue()"
  .ok queue

def resetSackedBit (queue : TCPSACKRexmitQueue) : TCPSACKRexmitQueue :=
  { queue with rexmitQueue := queue.rexmitQueue.map fun elem => { elem with sacked := false } }

def resetRexmittedBit (queue : TCPSACKRexmitQueue) : TCPSACKRexmitQueue :=
  { queue with rexmitQueue := queue.rexmitQueue.map fun elem => { elem with rexmitted := false } }

end TCPSACKRexmitQueue

/-- What is known about a byte in flight. -/
structure Flags where
  sacked : Bool
  rexmitted : Bool
deriving DecidableEq

/-- The flags of the bytes from the sequence number `begin` on. -/
structure Scoreboard where
  begin : Uint32
  bytes : List Flags := []
deriving DecidableEq

namespace Scoreboard

/-- The place of a sequence number in the list of bytes. -/
def offset (board : Scoreboard) (seqNum : Uint32) : ℕ := (seqNum - board.begin).toNat

/-- The sequence number behind the last byte. -/
def «end» (board : Scoreboard) : Uint32 := board.begin + BitVec.ofNat 32 board.bytes.length

/-- The bytes of `[fromSeqNum, toSeqNum)` that are known have been sent again; the others
of them are new. -/
def enqueueSentData (board : Scoreboard) (fromSeqNum toSeqNum : Uint32) : Scoreboard :=
  let bytes := RunLength.updateRange (fun flags => { flags with rexmitted := true })
    (board.offset fromSeqNum) (board.offset toSeqNum) board.bytes
  { board with
    bytes := bytes ++ List.replicate (board.offset toSeqNum - bytes.length) ⟨false, false⟩ }

/-- The bytes of `[max(fromSeqNum, begin), toSeqNum)` are sacked. -/
def setSackedBit (board : Scoreboard) (fromSeqNum toSeqNum : Uint32) : Scoreboard :=
  let first := if seqLess fromSeqNum board.begin then 0 else board.offset fromSeqNum
  { board with
    bytes := RunLength.updateRange (fun flags => { flags with sacked := true }) first
      (board.offset toSeqNum) board.bytes }

def discardUpTo (board : Scoreboard) (seqNum : Uint32) : Scoreboard :=
  { begin := seqNum, bytes := board.bytes.drop (board.offset seqNum) }

def resetSackedBit (board : Scoreboard) : Scoreboard :=
  { board with bytes := board.bytes.map fun flags => { flags with sacked := false } }

def resetRexmittedBit (board : Scoreboard) : Scoreboard :=
  { board with bytes := board.bytes.map fun flags => { flags with rexmitted := false } }

end Scoreboard

namespace TCPSACKRexmitQueue

section

variable {b : Uint32} {runs xs ys : List (ℕ × Flags)} {n k o : ℕ} {a : Flags}

/-- The regions for runs of flags from the sequence number `b` on. -/
def regionsOf : Uint32 → List (ℕ × Flags) → List Region
  | _, [] => []
  | b, (n, a) :: runs => ⟨b, ofPos b n, a.sacked, a.rexmitted⟩ :: regionsOf (ofPos b n) runs

theorem regionsOf_eq (b : Uint32) (runs : List (ℕ × Flags)) : regionsOf b runs =
      SerialRuns.records (fun b e a => ⟨b, e, a.sacked, a.rexmitted⟩) b runs := by
  induction runs generalizing b with
  | nil => rfl
  | cons r runs ih => rw [regionsOf, SerialRuns.records, ih]

theorem regionsOf_append (b : Uint32) (xs ys : List (ℕ × Flags)) :
    regionsOf b (xs ++ ys) = regionsOf b xs ++ regionsOf (ofPos b (length xs)) ys := by
  simp only [regionsOf_eq, SerialRuns.records_append]

/-- Where a region lies. -/
theorem exists_of_mem_regionsOf {i : Region} (hi : i ∈ regionsOf b runs) :
    ∃ p n a, (n, a) ∈ runs ∧ p + n ≤ length runs ∧
      i = ⟨ofPos b p, ofPos b (p + n), a.sacked, a.rexmitted⟩ := by
  rw [regionsOf_eq] at hi
  exact SerialRuns.exists_of_mem_records hi

theorem lastEnd_regionsOf (b : Uint32) (runs : List (ℕ × Flags)) :
    ((regionsOf b runs).getLast?.map Region.endSeqNum).getD b = ofPos b (length runs) := by
  rw [regionsOf_eq]
  exact SerialRuns.lastEnd_records (fun _ _ _ => rfl) b runs

theorem checkRegions_regionsOf (h : Proper runs) (hlen : length runs < 2 ^ 31) :
    checkRegions (regionsOf b runs) b true = (ofPos b (length runs), true) := by
  induction runs generalizing b with
  | nil => simp [regionsOf, checkRegions]
  | cons r runs ih =>
    have hpos := h.head
    rw [length_cons] at hlen
    have hless : seqLess b (ofPos b r.1) = true := by
      have := @seqLess_ofPos b 0 r.1 (near_of_lt (by omega) (by omega))
      rw [ofPos_zero] at this
      rw [this]
      exact decide_eq_true hpos
    simp only [regionsOf, checkRegions, hless, beq_self_eq_true, Bool.and_self]
    rw [ih h.tail (by omega), ofPos_ofPos, length_cons]

/-- Changing a flag of every region. -/
theorem map_regionsOf {f : Region → Region} {g : Flags → Flags} (hf : ∀ i, f i = { i with
      sacked := (g ⟨i.sacked, i.rexmitted⟩).sacked
      rexmitted := (g ⟨i.sacked, i.rexmitted⟩).rexmitted }) :
    (regionsOf b runs).map f = regionsOf b (mapRuns g runs) := by
  simp only [regionsOf_eq]
  exact SerialRuns.map_records fun b e a => hf _

/-- The regions up to a place in the middle of the list. -/
theorem span_regionsOf (hruns : runs = xs ++ (n, a) :: ys)
    (hlen : length runs < 2 ^ 31) (hk : length xs ≤ k)
    (hkn : k < length xs + n) :
    (regionsOf b runs).takeWhile (fun i => seqLE i.endSeqNum (ofPos b k)) = regionsOf b xs ∧
      (regionsOf b runs).dropWhile (fun i => seqLE i.endSeqNum (ofPos b k)) =
        regionsOf (ofPos b (length xs)) ((n, a) :: ys) := by
  simp only [regionsOf_eq]
  exact SerialRuns.span (by decide) (fun _ _ _ => rfl) hruns hlen hk hkn

/-- The regions up to a place behind all of them. -/
theorem span_regionsOf_all (hk : length runs ≤ k) (hk' : k < 2 ^ 31) :
    (regionsOf b runs).takeWhile (fun i => seqLE i.endSeqNum (ofPos b k)) = regionsOf b runs ∧
      (regionsOf b runs).dropWhile (fun i => seqLE i.endSeqNum (ofPos b k)) = [] := by
  rw [regionsOf_eq]
  exact SerialRuns.span_all (by decide) (fun _ _ _ => rfl) hk hk'

theorem chunkAt_spec (hruns : Proper runs) (hlen : length runs < 2 ^ 31)
    (ho : o < length runs) (found inside : String) :
    ∃ xs ys, chunkAt (regionsOf b runs) (ofPos b o) found inside =
        .ok (regionsOf b xs, regionsOf (ofPos b o) ys) ∧
      expand xs ++ expand ys = expand runs ∧ length xs = o ∧
      Proper xs ∧ Proper ys := by
  obtain ⟨xs, n, a, ys, heq, hle, hlt⟩ := exists_cut ho
  obtain ⟨htake, hdrop⟩ := @span_regionsOf b _ _ _ _ _ _ heq hlen hle hlt
  have hsum : length runs = length xs + (n + length ys) := by
    rw [heq, length_append, length_cons]
  have hxs : Proper xs := (heq ▸ hruns).left
  have hys : Proper ys := (heq ▸ hruns).right.tail
  have inside_eq : (seqLE (ofPos b (length xs)) (ofPos b o) &&
      seqLess (ofPos b o) (ofPos b (length xs + n))) = true := by
    rw [seqLE_ofPos (near_of_lt (by omega) (by omega)),
      seqLess_ofPos (near_of_lt (by omega) (by omega))]
    simp [hle, hlt]
  have heq_iff : ofPos b (length xs) = ofPos b o ↔ length xs = o :=
    ofPos_eq_iff (near_of_lt (by omega) (by omega))
  simp only [chunkAt, htake, hdrop, regionsOf, ofPos_ofPos]
  rw [assert_of inside_eq, ok_bind]
  refine ⟨cutBefore xs a o, (n - (o - length xs), a) :: ys, ?_,
    heq ▸ RunLength.expand_cutBefore hle hlt, RunLength.length_cutBefore hle, hxs.cutBefore hle,
    hys.cons (by simp only; omega)⟩
  have hend : o + (n - (o - length xs)) = length xs + n := by omega
  rw [cutBefore]
  by_cases hcut : o = length xs
  · rw [if_neg (by simpa using heq_iff.mpr hcut.symm), if_pos hcut]
    subst hcut
    simp only [regionsOf, ofPos_ofPos, Nat.sub_self, Nat.sub_zero]
  · rw [if_pos (by simpa using mt heq_iff.mp (Ne.symm hcut)), if_neg hcut]
    have hmid : length xs + (o - length xs) = o := by omega
    simp only [regionsOf_append, regionsOf, ofPos_ofPos, hmid, hend]

def rexmit (flags : Flags) : Flags := { flags with rexmitted := true }

def sack (flags : Flags) : Flags := { flags with sacked := true }

/-- `markRexmitted` marks the bytes up to `k` and adds those that are missing. -/
theorem markRexmitted_spec (ho : length xs = o)
    (hlen : o + length ys < 2 ^ 31) (hwindow : o + k < 2 ^ 31) :
    markRexmitted (regionsOf b xs) (regionsOf (ofPos b o) ys) (ofPos b o) (ofPos b (o + k)) =
      .ok (regionsOf b (xs ++ markTo rexmit ⟨false, false⟩ k ys)) := by
  have hto : ofPos b (o + k) = ofPos (ofPos b o) k := (ofPos_ofPos ..).symm
  have hmap : ∀ {b : Uint32} {runs : List (ℕ × Flags)},
      (regionsOf b runs).map (fun i => { i with rexmitted := true }) =
        regionsOf b (mapRuns rexmit runs) := fun {_ _} => map_regionsOf fun i => rfl
  obtain hlt | hge := Nat.lt_or_ge k (length ys)
  · obtain ⟨ms, n, a, ds, heq, hle, hkn⟩ := exists_cut hlt
    obtain ⟨htake, hdrop⟩ := @span_regionsOf (ofPos b o) _ _ _ _ _ _ heq (by omega) hle hkn
    have heq_iff : ofPos (ofPos b o) (length ms) = ofPos (ofPos b o) k ↔
        length ms = k := ofPos_eq_iff (near_of_lt (by omega) (by omega))
    have hinside : seqLess (ofPos (ofPos b o) (length ms)) (ofPos (ofPos b o) k) =
        decide (length ms < k) := seqLess_ofPos (near_of_lt (by omega) (by omega))
    simp only [markRexmitted, hto, htake, hdrop, lastEnd_regionsOf, hmap, regionsOf]
    rw [heq, RunLength.markTo_cut hle hkn]
    by_cases hcut : length ms = k
    · rw [if_neg (by simpa using heq_iff.mpr hcut), if_pos hcut]
      simp only [regionsOf_append, regionsOf, length_mapRuns, ho, ofPos_ofPos, List.append_assoc]
    · rw [if_pos (by simpa using mt heq_iff.mp hcut), assert_of (by simp [hinside]; omega),
        ok_bind, if_neg hcut]
      have hmid : length ms + (k - length ms) = k := by omega
      have hend : k + (n - (k - length ms)) = length ms + n := by omega
      simp only [regionsOf_append, regionsOf, length_mapRuns, ho,
        ofPos_ofPos, Nat.add_assoc, hmid, hend, rexmit, List.append_assoc]
  · obtain ⟨htake, hdrop⟩ := @span_regionsOf_all (ofPos b o) ys k hge (by omega)
    have heq_iff : ofPos (ofPos b o) (length ys) = ofPos (ofPos b o) k ↔
        length ys = k := ofPos_eq_iff (near_of_lt (by omega) (by omega))
    simp only [markRexmitted, hto, htake, hdrop, lastEnd_regionsOf, hmap]
    rw [RunLength.markTo_of_le hge]
    by_cases hcut : length ys = k
    · rw [if_neg (by simpa using heq_iff.mpr hcut), if_pos hcut, List.append_nil,
        List.append_nil, regionsOf_append, ho]
    · rw [if_pos (by simpa using mt heq_iff.mp hcut), if_neg hcut]
      have hend : length ys + (k - length ys) = k := by omega
      simp only [regionsOf_append, regionsOf, length_mapRuns, ho,
        ofPos_ofPos, Nat.add_assoc, hend, List.append_assoc]

/-- All regions behind the iterator are marked, as they begin at `fromSeqNum` or later. -/
theorem map_sacked (hlen : length runs < 2 ^ 31) :
    (regionsOf b runs).map (fun i => if seqGE i.beginSeqNum b then { i with sacked := true }
      else i) = regionsOf b (mapRuns sack runs) := by
  rw [← map_regionsOf (f := fun i => { i with sacked := true }) fun i => rfl]
  refine List.map_congr_left fun i hi => ?_
  obtain ⟨p, n, a, -, hle, rfl⟩ := exists_of_mem_regionsOf hi
  have hge : seqGE (ofPos b p) b = true := seqLE_start (by omega)
  rw [if_pos hge]

/-- `markSacked` marks the bytes up to `k`. -/
theorem markSacked_spec (hxs : Proper xs) (hys : Proper ys)
    (ho : length xs = o) (hlen : o + length ys < 2 ^ 31)
    (hk : k ≤ length ys) :
    ∃ runs l₂ l₃, markSacked (regionsOf b xs) (regionsOf (ofPos b o) ys) (ofPos b o)
        (ofPos b (o + k)) = regionsOf b runs ∧ Proper runs ∧
      expand ys = l₂ ++ l₃ ∧ l₂.length = k ∧
      expand runs = expand xs ++ l₂.map sack ++ l₃ := by
  have hto : ofPos b (o + k) = ofPos (ofPos b o) k := (ofPos_ofPos ..).symm
  obtain hlt | rfl := Nat.lt_or_eq_of_le hk
  · obtain ⟨ms, n, a, ds, heq, hle, hkn⟩ := exists_cut hlt
    obtain ⟨htake, hdrop⟩ := @span_regionsOf (ofPos b o) _ _ _ _ _ _ heq (by omega) hle hkn
    have hsum : length ys = length ms + (n + length ds) := by
      rw [heq, length_append, length_cons]
    have hms : Proper ms := (heq ▸ hys).left
    have hds : Proper ds := (heq ▸ hys).right.tail
    have hbegin : seqLess (ofPos (ofPos b o) (length ms)) (ofPos (ofPos b o) k) =
        decide (length ms < k) := seqLess_ofPos (near_of_lt (by omega) (by omega))
    have hend : seqLess (ofPos (ofPos b o) k) (ofPos (ofPos b o) (length ms + n)) =
        true := by
      rw [seqLess_ofPos (near_of_lt (by omega) (by omega))]
      exact decide_eq_true hkn
    simp only [markSacked, hto, htake, hdrop, regionsOf, ofPos_ofPos (ofPos b o), hend,
      hbegin, Bool.and_true, decide_eq_true_eq]
    rw [map_sacked (by omega)]
    by_cases hcut : length ms < k
    · rw [if_pos hcut]
      refine ⟨xs ++ mapRuns sack ms ++ (k - length ms, sack a) ::
        (n - (k - length ms), a) :: ds, _, _, ?_, ?_, heq ▸ RunLength.expand_cut hle hkn,
        ?_, ?_⟩
      · have hmid : length ms + (k - length ms) = k := by omega
        have hend : k + (n - (k - length ms)) = length ms + n := by omega
        simp only [regionsOf_append, regionsOf, length_append,
          length_mapRuns, ho, ofPos_ofPos, Nat.add_assoc, hmid, hend, sack]
      · exact (hxs.append hms.mapRuns).append (RunLength.Proper.cons (by simp only; omega)
          (hds.cons (by simp only; omega)))
      · rw [List.length_append, length_expand, List.length_replicate]
        omega
      · simp
    · rw [if_neg hcut]
      refine ⟨xs ++ mapRuns sack ms ++ (n, a) :: ds, expand ms,
        expand ((n, a) :: ds), ?_, ?_, ?_, ?_, ?_⟩
      · simp only [regionsOf_append, regionsOf, length_append,
          length_mapRuns, ho, ofPos_ofPos, Nat.add_assoc]
      · exact (hxs.append hms.mapRuns).append (hds.cons (by simp only; omega))
      · rw [heq, expand_append]
      · rw [length_expand]
        omega
      · simp
  · obtain ⟨htake, hdrop⟩ := @span_regionsOf_all (ofPos b o) ys _ (Nat.le_refl _) (by omega)
    simp only [markSacked, hto, htake, hdrop]
    rw [map_sacked (by omega)]
    refine ⟨xs ++ mapRuns sack ys, expand ys, [], ?_, hxs.append hys.mapRuns, ?_,
      length_expand _, ?_⟩
    · rw [regionsOf_append, ho]
    · rw [List.append_nil]
    · simp

variable {queue : TCPSACKRexmitQueue} {board : Scoreboard}

/-- The flags of the bytes in flight, as the regions give them. -/
def denote (queue : TCPSACKRexmitQueue) : Scoreboard :=
  { begin := queue.begin
    bytes := queue.rexmitQueue.flatMap fun elem =>
      List.replicate (elem.endSeqNum - elem.beginSeqNum).toNat ⟨elem.sacked, elem.rexmitted⟩ }

/-- The queue stands for the scoreboard: its regions are runs of equal flags without a gap
between `begin` and `end`. -/
def Represents (queue : TCPSACKRexmitQueue) (board : Scoreboard) : Prop :=
  ∃ runs, queue.begin = board.begin ∧ queue.rexmitQueue = regionsOf board.begin runs ∧
    queue.end = board.end ∧ RunLength.Proper runs ∧ RunLength.length runs < 2 ^ 31 ∧
    expand runs = board.bytes

theorem denote_regionsOf {b : Uint32} {runs : List (ℕ × Flags)} (hlen : length runs < 2 ^ 31) :
    ((regionsOf b runs).flatMap fun elem => List.replicate
      (elem.endSeqNum - elem.beginSeqNum).toNat (⟨elem.sacked, elem.rexmitted⟩ : Flags)) =
      expand runs := by
  induction runs generalizing b with
  | nil => rfl
  | cons r runs ih =>
    rw [length_cons] at hlen
    have hway : (ofPos b r.1 - b).toNat = r.1 := SerialNumber.toNat_ofPos_sub_base (by omega)
    rw [regionsOf, List.flatMap_cons, ih (by omega), RunLength.expand_cons]
    simp only [hway]

theorem Represents.denote_eq (h : Represents queue board) : queue.denote = board := by
  obtain ⟨runs, hbegin, hregions, -, -, hlen, hbytes⟩ := h
  rw [denote, hregions, denote_regionsOf hlen, hbytes, hbegin]

theorem Represents.checkQueue (h : Represents queue board) : queue.checkQueue = true := by
  obtain ⟨runs, hbegin, hregions, hend, hproper, hlen, hbytes⟩ := h
  have hlength : board.bytes.length = length runs := by
    rw [← hbytes, length_expand]
  simp only [TCPSACKRexmitQueue.checkQueue, hregions, hbegin, hend,
    checkRegions_regionsOf hproper hlen, Scoreboard.end, hlength, ofPos, beq_self_eq_true,
    Bool.and_self]

theorem Represents.init (s : Uint32) : Represents (init s) { begin := s } := by
  refine ⟨[], rfl, rfl, ?_, by simp [Proper], by decide, rfl⟩
  simp [TCPSACKRexmitQueue.init, Scoreboard.end]

theorem board_end_eq {runs : List (ℕ × Flags)} (hbytes : expand runs = board.bytes) :
    board.end = ofPos board.begin (length runs) := by
  rw [Scoreboard.end, ← hbytes, length_expand]
  rfl

/-- What is left are the runs behind `o`, with the first one cut. -/
theorem discardRegions_spec {b : Uint32} {runs : List (ℕ × Flags)} {o : ℕ}
    (hproper : Proper runs) (hlen : length runs < 2 ^ 31)
    (ho : o ≤ length runs) :
    ∃ ys, discardRegions (regionsOf b runs) (ofPos b o) = .ok (regionsOf (ofPos b o) ys) ∧
      Proper ys ∧ expand ys = (expand runs).drop o := by
  obtain hlt | rfl := Nat.lt_or_eq_of_le ho
  · obtain ⟨xs, n, a, ys, heq, hxs, hn⟩ := exists_cut hlt
    have hsum : length runs = length xs + (n + length ys) := by
      rw [heq, length_append, length_cons]
    have hinside : (seqLE (ofPos b (length xs)) (ofPos b o) &&
        seqLess (ofPos b o) (ofPos b (length xs + n))) = true := by
      rw [seqLE_ofPos (near_of_lt (by omega) (by omega)),
        seqLess_ofPos (near_of_lt (by omega) (by omega))]
      simp [hxs, hn]
    have hcut : o + (n - (o - length xs)) = length xs + n := by omega
    refine ⟨(n - (o - length xs), a) :: ys, ?_, ?_, ?_⟩
    · rw [discardRegions, (span_regionsOf heq hlen hxs hn).2]
      simp only [regionsOf, ofPos_ofPos, assert_of hinside, ok_bind, hcut]
    · exact RunLength.Proper.cons (by simp only; omega) (heq ▸ hproper).right.tail
    · rw [heq, RunLength.expand_cutBehind hxs hn]
  · refine ⟨[], ?_, by simp [Proper], ?_⟩
    · rw [discardRegions, (span_regionsOf_all (Nat.le_refl _) hlen).2]
      rfl
    · rw [List.drop_of_length_le (Nat.le_of_eq (length_expand _)), RunLength.expand_nil]

theorem Represents.discardUpTo (h : Represents queue board) {seqNum : Uint32}
    (h₁ : seqLE queue.begin seqNum = true) (h₂ : seqLE seqNum queue.end = true) :
    ∃ queue', queue.discardUpTo seqNum = .ok queue' ∧
      Represents queue' (board.discardUpTo seqNum) := by
  obtain ⟨runs, hbegin, hregions, hend, hproper, hlen, hbytes⟩ := h
  have hassert : (seqLE queue.begin seqNum && seqLE seqNum queue.end) = true := by
    rw [h₁, h₂]
    rfl
  have hend' := board_end_eq hbytes
  rw [hbegin] at h₁
  rw [hend, hend'] at h₂
  obtain ⟨hseq, hle⟩ := offset_le hlen h₁ h₂
  have hoffset : (seqNum - board.begin).toNat = board.offset seqNum := rfl
  rw [hoffset] at hseq hle
  obtain ⟨ys, hregions', hys, hexpand⟩ := @discardRegions_spec board.begin _ _ hproper hlen hle
  rw [← hseq] at hregions'
  have hbytes' : expand ys = (board.discardUpTo seqNum).bytes := by
    rw [hexpand, hbytes, Scoreboard.discardUpTo]
  have hlength : length ys = length runs - board.offset seqNum := by
    rw [← length_expand, hexpand, List.length_drop, length_expand]
  have hboard_end : board.end = (board.discardUpTo seqNum).end := by
    rw [board_end_eq hbytes', hend', hlength]
    exact (SerialNumber.ofPos_sub hseq hle).symm
  have represents : Represents
      { queue with begin := seqNum, rexmitQueue := regionsOf seqNum ys }
      (board.discardUpTo seqNum) :=
    ⟨ys, rfl, rfl, hend.trans hboard_end, hys, by omega, hbytes'⟩
  refine ⟨_, ?_, represents⟩
  rw [TCPSACKRexmitQueue.discardUpTo, assert_of hassert, ok_bind, hregions, hregions', ok_bind]
  simp only
  rw [assert_of represents.checkQueue, ok_bind]

/-- The window of the queue once the bytes up to `seqNum` have been sent. -/
def WindowTo (queue : TCPSACKRexmitQueue) (seqNum : Uint32) : Prop :=
  (seqNum - queue.begin).toNat < 2 ^ 31
deriving Decidable

/-- The regions after new data has been sent, or old data again. -/
theorem enqueueRegions_spec {b : Uint32} {runs : List (ℕ × Flags)} {o e : ℕ}
    (hregions : queue.rexmitQueue = regionsOf b runs)
    (hend : queue.end = ofPos b (length runs)) (hproper : Proper runs)
    (hlen : length runs < 2 ^ 31) (ho : o ≤ length runs) (hoe : o < e)
    (he : e < 2 ^ 31) :
    ∃ runs', enqueueRegions queue (ofPos b o) (ofPos b e) = .ok (regionsOf b runs') ∧
      Proper runs' ∧ expand runs' = updateRange rexmit o e (expand runs) ++
          List.replicate (e - length runs) ⟨false, false⟩ := by
  have hlast : (queue.end == ofPos b o) = decide (length runs = o) := by
    rw [hend, Bool.eq_iff_iff, beq_iff_eq, decide_eq_true_eq]
    exact ofPos_eq_iff (near_of_lt hlen (by omega))
  obtain hlt | rfl := Nat.lt_or_eq_of_le ho
  · have hempty : queue.rexmitQueue.isEmpty = false := by
      rw [hregions]
      cases runs with
      | nil => simp at hlt
      | cons r runs => rfl
    have hne : (queue.end == ofPos b o) = false := by
      rw [hlast]
      exact decide_eq_false (by omega)
    obtain ⟨xs, ys, hchunk, hexpand, hxs, hpx, hpy⟩ := @chunkAt_spec b runs o hproper hlen hlt
      "i != rexmitQueue.end()"
      "seqLE(i->beginSeqNum, fromSeqNum) && seqLess(fromSeqNum, i->endSeqNum)"
    have hsum : length runs = o + length ys := by
      rw [← length_expand, ← hexpand, List.length_append, length_expand, length_expand, hxs]
    have hoe' : o + (e - o) = e := by omega
    have hmark := @markRexmitted_spec b xs ys (e - o) o hxs (by omega) (by omega)
    rw [hoe'] at hmark
    refine ⟨xs ++ markTo rexmit ⟨false, false⟩ (e - o) ys, ?_, hpx.append hpy.markTo, ?_⟩
    · rw [enqueueRegions, hempty, hne, hregions]
      simp only [Bool.or_self, Bool.false_eq_true, ↓reduceIte, hchunk, ok_bind, hmark]
    · have hcount : e - o - length ys = e - length runs := by omega
      rw [expand_append, RunLength.expand_markTo, hcount, ← hexpand,
        RunLength.updateRange_split (by rw [length_expand, hxs]) (Nat.le_of_lt hoe)]
      simp only [List.append_assoc]
  · refine ⟨runs ++ [(e - length runs, ⟨false, false⟩)], ?_, ?_, ?_⟩
    · rw [enqueueRegions, hlast]
      simp only [decide_true, Bool.or_true, ↓reduceIte, hregions, regionsOf_append, regionsOf,
        ofPos_ofPos, Nat.add_sub_cancel' (Nat.le_of_lt hoe)]
    · exact hproper.append (RunLength.Proper.cons (by simp only; omega)
        (by simp [Proper]))
    · rw [RunLength.updateRange_of_length_le (Nat.le_of_eq (length_expand _))]
      simp

theorem Represents.enqueueSentData (h : Represents queue board) {fromSeqNum toSeqNum : Uint32}
    (h₁ : seqLE queue.begin fromSeqNum = true) (h₂ : seqLE fromSeqNum queue.end = true)
    (h₃ : seqLess fromSeqNum toSeqNum = true) (hwindow : queue.WindowTo toSeqNum) :
    ∃ queue', queue.enqueueSentData fromSeqNum toSeqNum = .ok queue' ∧
      Represents queue' (board.enqueueSentData fromSeqNum toSeqNum) := by
  obtain ⟨runs, hbegin, hregions, hend, hproper, hlen, hbytes⟩ := h
  have hassert : (seqLE queue.begin fromSeqNum && seqLE fromSeqNum queue.end) = true := by
    rw [h₁, h₂]
    rfl
  have hend' := board_end_eq hbytes
  have hless := h₃
  rw [hbegin] at h₁
  rw [hend, hend'] at h₂
  obtain ⟨hfrom, hle⟩ := offset_le hlen h₁ h₂
  obtain ⟨o, ho⟩ : ∃ o, o = board.offset fromSeqNum := ⟨_, rfl⟩
  obtain ⟨e, he⟩ : ∃ e, e = board.offset toSeqNum := ⟨_, rfl⟩
  replace hfrom : fromSeqNum = ofPos board.begin o := ho ▸ hfrom
  replace hle : o ≤ length runs := ho ▸ hle
  have hto : toSeqNum = ofPos board.begin e :=
    he ▸ (ofPos_toNat_sub board.begin toSeqNum).symm
  have he' : e < 2 ^ 31 := by
    rw [he, Scoreboard.offset, ← hbegin]
    exact hwindow
  rw [hfrom, hto, seqLess_ofPos (near_of_lt (by omega) he'), decide_eq_true_eq] at h₃
  obtain ⟨runs', henq, hproper', hexpand⟩ := enqueueRegions_spec hregions (hend.trans hend')
    hproper hlen hle h₃ he'
  have hlength : length runs' = max e (length runs) := by
    rw [← length_expand, hexpand, List.length_append, length_updateRange,
      length_expand, List.length_replicate]
    omega
  have hbytes' : expand runs' = (board.enqueueSentData fromSeqNum toSeqNum).bytes := by
    rw [hexpand, Scoreboard.enqueueSentData, ← ho, ← he, ← hbytes]
    simp only [length_updateRange, length_expand]
    rfl
  have hhead : ((regionsOf board.begin runs').head?.map Region.beginSeqNum).getD queue.begin =
      board.begin := by
    cases runs' with
    | nil => exact hbegin
    | cons r runs' => rfl
  have hlast : ((regionsOf board.begin runs').getLast?.map Region.endSeqNum).getD queue.end =
      ofPos board.begin (length runs') := by
    have := lastEnd_regionsOf board.begin runs'
    cases hregions' : (regionsOf board.begin runs').getLast? with
    | none =>
      have hnil : runs' = [] := by
        cases runs' with
        | nil => rfl
        | cons r runs' => simp [regionsOf] at hregions'
      subst hnil
      rw [length_nil] at hlength
      omega
    | some i =>
      rw [hregions'] at this
      exact this
  have represents : Represents
      ⟨board.begin, ofPos board.begin (length runs'), regionsOf board.begin runs'⟩
      (board.enqueueSentData fromSeqNum toSeqNum) :=
    ⟨runs', rfl, rfl, (board_end_eq hbytes').symm, hproper', by omega, hbytes'⟩
  refine ⟨_, ?_, represents⟩
  rw [TCPSACKRexmitQueue.enqueueSentData, assert_of hassert, ok_bind, assert_of hless,
    ok_bind, hfrom, hto, henq, ok_bind]
  simp only [hhead, hlast]
  rw [assert_of represents.checkQueue, ok_bind]

/-- The regions once a part of the data has been sacked. -/
theorem sackRegions_spec {b : Uint32} {runs : List (ℕ × Flags)} {o e : ℕ}
    (hproper : Proper runs) (hlen : length runs < 2 ^ 31) (hoe : o < e)
    (he : e ≤ length runs) :
    ∃ runs', sackRegions (regionsOf b runs) (ofPos b o) (ofPos b e) = .ok (regionsOf b runs') ∧
      Proper runs' ∧ expand runs' = updateRange sack o e (expand runs) := by
  have hempty : (regionsOf b runs).isEmpty = false := by
    cases runs with
    | nil =>
      rw [length_nil] at he
      omega
    | cons r runs => rfl
  obtain ⟨xs, ys, hchunk, hexpand, hxs, hpx, hpy⟩ :=
    @chunkAt_spec b runs o hproper hlen (Nat.lt_of_lt_of_le hoe he) sackedFound sackedFound
  have hsum : length runs = o + length ys := by
    rw [← length_expand, ← hexpand, List.length_append, length_expand, length_expand, hxs]
  have hoe' : o + (e - o) = e := by omega
  obtain ⟨runs', l₂, l₃, hmark, hpr, hys, hl₂, hres⟩ := @markSacked_spec b xs ys (e - o) o
    hpx hpy hxs (by omega) (by omega)
  rw [hoe'] at hmark
  refine ⟨runs', ?_, hpr, ?_⟩
  · simp only [sackRegions, hempty, Bool.false_eq_true, ↓reduceIte, hchunk, ok_bind, hmark]
  · rw [hres, ← hexpand, hys, ← List.append_assoc]
    exact (RunLength.updateRange_append (by rw [length_expand, hxs]) (by omega)).symm

/-- The preconditions that `setSackedBit` asserts. -/
def CanSack (queue : TCPSACKRexmitQueue) (fromSeqNum toSeqNum : Uint32) : Prop :=
  seqLess (queue.sackedFrom fromSeqNum) queue.end = true ∧
    (seqLess queue.begin toSeqNum && seqLE toSeqNum queue.end) = true ∧
    seqLess (queue.sackedFrom fromSeqNum) toSeqNum = true
deriving Decidable

/-- A sequence number that is not before `begin` and is before a place of the window. -/
theorem offset_lt {b seqNum : Uint32} {n : ℕ} (hn : n < 2 ^ 31) (h₁ : seqLess seqNum b = false)
    (h₂ : seqLess seqNum (ofPos b n) = true) : (seqNum - b).toNat < n := by
  have hpos := ofPos_toNat_sub b seqNum
  obtain ⟨o, ho⟩ : ∃ o, o = (seqNum - b).toNat := ⟨_, rfl⟩
  have hlt : o < 2 ^ 32 := ho ▸ (seqNum - b).isLt
  rw [← ho] at hpos ⊢
  by_contra hge
  -- otherwise it is more than half of the circle ahead of that place
  have hne : o ≠ n := by
    rintro rfl
    rw [hpos] at h₂
    simp [seqLess] at h₂
  rw [seqLess, Bool.and_eq_true, decide_eq_true_eq, ← hpos,
    SerialNumber.toNat_ofPos_sub_of_lt (by omega) (by omega)] at h₂
  obtain ⟨-, hnear⟩ := h₂
  -- and then it is before `begin`
  have hzero : ofPos b o ≠ b := by
    intro h
    have := congrArg (fun x => (x - b).toNat) h
    simp only [BitVec.sub_self, BitVec.toNat_zero] at this
    rw [hpos] at this
    omega
  have hway : (b - ofPos b o).toNat = 2 ^ 32 - o := by
    have := @SerialNumber.toNat_ofPos_sub_of_lt _ b o 0 (by omega) (by omega)
    rwa [ofPos_zero, Nat.sub_zero] at this
  rw [seqLess, ← hpos, hway, Bool.and_eq_false_iff, bne_eq_false_iff_eq,
    decide_eq_false_iff_not] at h₁
  obtain h₁ | h₁ := h₁
  · exact hzero h₁
  · omega

theorem Represents.setSackedBit (h : Represents queue board) {fromSeqNum toSeqNum : Uint32}
    (can : queue.CanSack fromSeqNum toSeqNum) :
    ∃ queue', queue.setSackedBit fromSeqNum toSeqNum = .ok queue' ∧
      Represents queue' (board.setSackedBit fromSeqNum toSeqNum) := by
  obtain ⟨runs, hbegin, hregions, hend, hproper, hlen, hbytes⟩ := h
  have hend' := board_end_eq hbytes
  obtain ⟨h₁, h₂, h₃⟩ := can
  have hto := h₂
  rw [Bool.and_eq_true, hbegin, hend, hend'] at hto
  obtain ⟨o, ho⟩ : ∃ o, o = (if seqLess fromSeqNum board.begin then 0
    else board.offset fromSeqNum) := ⟨_, rfl⟩
  obtain ⟨e, he⟩ : ∃ e, e = board.offset toSeqNum := ⟨_, rfl⟩
  have hfirst : queue.sackedFrom fromSeqNum = ofPos board.begin o ∧ o < length runs := by
    rw [hend, hend', sackedFrom, hbegin] at h₁
    rw [sackedFrom, hbegin, ho]
    cases hbefore : seqLess fromSeqNum board.begin with
    | true =>
      rw [hbefore, if_pos rfl] at h₁
      rw [if_pos rfl, if_pos rfl, ofPos_zero]
      refine ⟨rfl, Nat.pos_of_ne_zero fun hzero => ?_⟩
      rw [hzero, ofPos_zero] at h₁
      simp [seqLess] at h₁
    | false =>
      rw [hbefore, if_neg (by simp)] at h₁
      rw [if_neg (by simp), if_neg (by simp)]
      exact ⟨(ofPos_toNat_sub _ _).symm, offset_lt hlen hbefore h₁⟩
  obtain ⟨hfrom, hlt⟩ := hfirst
  have hle : seqLE board.begin toSeqNum = true := by
    have := hto.1
    rw [seqLess, Bool.and_eq_true] at this
    exact this.2
  obtain ⟨htoSeq, hele⟩ := offset_le hlen hle hto.2
  replace htoSeq : toSeqNum = ofPos board.begin e := he ▸ htoSeq
  replace hele : e ≤ length runs := he ▸ hele
  have hoe : o < e := by
    have := h₃
    rw [hfrom, htoSeq, seqLess_ofPos (near_of_lt (by omega) (by omega))] at this
    exact of_decide_eq_true this
  obtain ⟨runs', hsack, hproper', hexpand⟩ :=
    @sackRegions_spec board.begin runs o e hproper hlen hoe hele
  have hlength : length runs' = length runs := by
    rw [← length_expand, hexpand, length_updateRange, length_expand]
  have hbytes' : expand runs' = (board.setSackedBit fromSeqNum toSeqNum).bytes := by
    rw [hexpand, hbytes, Scoreboard.setSackedBit, ho, he]
    rfl
  have represents : Represents { queue with rexmitQueue := regionsOf board.begin runs' }
      (board.setSackedBit fromSeqNum toSeqNum) := by
    refine ⟨runs', hbegin, rfl, ?_, hproper', by omega, hbytes'⟩
    rw [board_end_eq hbytes', hlength, hend, hend']
    rfl
  refine ⟨_, ?_, represents⟩
  rw [TCPSACKRexmitQueue.setSackedBit, assert_of h₁, ok_bind, assert_of h₂,
    ok_bind, assert_of h₃, ok_bind, hregions, hfrom, htoSeq, hsack, ok_bind]
  simp only
  rw [assert_of represents.checkQueue, ok_bind]

theorem Represents.reset (h : Represents queue board) {f : Region → Region} {g : Flags → Flags}
    (hf : ∀ i, f i = { i with
      sacked := (g ⟨i.sacked, i.rexmitted⟩).sacked
      rexmitted := (g ⟨i.sacked, i.rexmitted⟩).rexmitted }) :
    Represents { queue with rexmitQueue := queue.rexmitQueue.map f }
      { board with bytes := board.bytes.map g } := by
  obtain ⟨runs, hbegin, hregions, hend, hproper, hlen, hbytes⟩ := h
  refine ⟨mapRuns g runs, hbegin, ?_, ?_, hproper.mapRuns, ?_, ?_⟩
  · simp only [hregions, map_regionsOf hf]
  · simp only [hend, Scoreboard.end, List.length_map]
  · rwa [length_mapRuns]
  · rw [RunLength.expand_mapRuns, hbytes]

end

/-- A call on the queue. -/
inductive Call where
  | enqueueSentData (fromSeqNum toSeqNum : Uint32)
  | setSackedBit (fromSeqNum toSeqNum : Uint32)
  | discardUpTo (seqNum : Uint32)
  | resetSackedBit
  | resetRexmittedBit

def step (queue : TCPSACKRexmitQueue) : Call → Result TCPSACKRexmitQueue
  | .enqueueSentData fromSeqNum toSeqNum => queue.enqueueSentData fromSeqNum toSeqNum
  | .setSackedBit fromSeqNum toSeqNum => queue.setSackedBit fromSeqNum toSeqNum
  | .discardUpTo seqNum => queue.discardUpTo seqNum
  | .resetSackedBit => .ok queue.resetSackedBit
  | .resetRexmittedBit => .ok queue.resetRexmittedBit

/-- The preconditions that the functions assert, and that the window stays below half of
the sequence space. -/
def Allowed (queue : TCPSACKRexmitQueue) : Call → Prop
  | .enqueueSentData fromSeqNum toSeqNum =>
    seqLE queue.begin fromSeqNum = true ∧ seqLE fromSeqNum queue.end = true ∧
      seqLess fromSeqNum toSeqNum = true ∧ queue.WindowTo toSeqNum
  | .setSackedBit fromSeqNum toSeqNum => queue.CanSack fromSeqNum toSeqNum
  | .discardUpTo seqNum => seqLE queue.begin seqNum = true ∧ seqLE seqNum queue.end = true
  | .resetSackedBit => True
  | .resetRexmittedBit => True

instance (queue : TCPSACKRexmitQueue) : (call : Call) → Decidable (queue.Allowed call)
  | .enqueueSentData _ _ => inferInstanceAs (Decidable (_ ∧ _))
  | .setSackedBit _ _ => inferInstanceAs (Decidable (CanSack _ _ _))
  | .discardUpTo _ => inferInstanceAs (Decidable (_ ∧ _))
  | .resetSackedBit => .isTrue trivial
  | .resetRexmittedBit => .isTrue trivial

/-- The call on the flags. -/
def boardStep (board : Scoreboard) : Call → Scoreboard
  | .enqueueSentData fromSeqNum toSeqNum => board.enqueueSentData fromSeqNum toSeqNum
  | .setSackedBit fromSeqNum toSeqNum => board.setSackedBit fromSeqNum toSeqNum
  | .discardUpTo seqNum => board.discardUpTo seqNum
  | .resetSackedBit => board.resetSackedBit
  | .resetRexmittedBit => board.resetRexmittedBit

theorem Represents.step {queue : TCPSACKRexmitQueue} {board : Scoreboard} {call : Call}
    (h : Represents queue board) (allowed : queue.Allowed call) :
    ∃ queue', queue.step call = .ok queue' ∧ Represents queue' (boardStep board call) := by
  cases call with
  | enqueueSentData fromSeqNum toSeqNum =>
    obtain ⟨h₁, h₂, h₃, hwindow⟩ := allowed
    exact h.enqueueSentData h₁ h₂ h₃ hwindow
  | setSackedBit fromSeqNum toSeqNum => exact h.setSackedBit allowed
  | discardUpTo seqNum => exact h.discardUpTo allowed.1 allowed.2
  | resetSackedBit => exact ⟨_, rfl, h.reset fun i => rfl⟩
  | resetRexmittedBit => exact ⟨_, rfl, h.reset fun i => rfl⟩

/-- The queue refines the scoreboard of the bytes in flight: no call fails, the queue is
valid after each, and in the end it denotes the flags that the calls give byte by byte. -/
theorem refines_scoreboard (s : Uint32) (calls : List Call)
    (allowed : Run.Admissible step Allowed (init s) calls) :
    Run.Always step (fun queue => queue.checkQueue = true) (init s) calls ∧
      ∃ queue, Run.exec step (init s) calls = .ok queue ∧
        queue.denote = calls.foldl boardStep { begin := s } ∧ queue.end = queue.denote.end := by
  constructor
  · refine Run.Always.mono (fun queue h => ?_)
      (Run.always_of_step (P := fun queue => ∃ board, Represents queue board) ?_
        ⟨_, Represents.init s⟩ allowed)
    · obtain ⟨board, hrep⟩ := h
      exact hrep.checkQueue
    · rintro queue call ⟨board, hrep⟩ hallowed
      obtain ⟨queue', hstep, hrep'⟩ := hrep.step hallowed
      exact ⟨queue', hstep, _, hrep'⟩
  · obtain ⟨queue, hexec, hrep⟩ := Run.simulates (fun _ _ _ h hallowed => h.step hallowed)
      (Represents.init s) allowed
    have hend : queue.end = queue.denote.end := by
      obtain ⟨runs, -, -, hend, -⟩ := id hrep
      rw [hend, hrep.denote_eq]
    exact ⟨queue, hexec, hrep.denote_eq, hend⟩

/-- Two segments across the wrap, a part sacked, a retransmission over the border of both,
and an acknowledgment in the middle. -/
theorem refines_scoreboard_across_wrap : ∃ queue, Run.exec step (init (-3#32))
        [.enqueueSentData (-3#32) 1#32, .enqueueSentData 1#32 5#32, .setSackedBit (-4#32) 2#32,
          .enqueueSentData 0#32 6#32, .discardUpTo 1#32, .resetRexmittedBit] = .ok queue ∧
      queue.denote = ⟨1#32, [⟨true, false⟩, ⟨false, false⟩, ⟨false, false⟩, ⟨false, false⟩,
          ⟨false, false⟩]⟩ := by
  obtain ⟨queue, hexec, hdenote, -⟩ := (refines_scoreboard (-3#32)
    [.enqueueSentData (-3#32) 1#32, .enqueueSentData 1#32 5#32, .setSackedBit (-4#32) 2#32,
      .enqueueSentData 0#32 6#32, .discardUpTo 1#32, .resetRexmittedBit] (by decide)).2
  exact ⟨queue, hexec, hdenote.trans (by decide)⟩

end TCPSACKRexmitQueue

end Inet.Tcp
