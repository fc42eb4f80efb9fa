import Inet.Library.Stretches
import Inet.Tcp.SackRexmitQueue

/-!
# What the sender reads off the retransmission queue

The functions of `TCPSACKRexmitQueue` that count sacked bytes and sacked blocks, look up the
block of a sequence number or find the highest one with a flag. For a queue that stands for a
scoreboard each of them is a function of the flags of its bytes.
-/

namespace Inet.Tcp.TCPSACKRexmitQueue

open SerialNumber (ofPos ofPos_ofPos ofPos_sub_ofPos ofPos_zero)
open RunLength (expand exists_cut expand_cons expand_cut length length_append length_cons
  length_expand)
open Stretches (behindLast stretches)

def getHighestSackedSeqNum (queue : TCPSACKRexmitQueue) : Uint32 :=
  match queue.rexmitQueue.reverse.find? Region.sacked with
  | some i => i.endSeqNum
  | none => queue.begin

def getHighestRexmittedSeqNum (queue : TCPSACKRexmitQueue) : Uint32 :=
  match queue.rexmitQueue.reverse.find? Region.rexmitted with
  | some i => i.endSeqNum
  | none => queue.begin

/-- The second loop of `checkRexmitQueueForSackedOrRexmittedSegments`. -/
def forwardLoop : List Region → Uint32 → Uint32 → Result Uint32
  | [], _, bytes => .ok bytes
  | i :: rest, fromSeqNum, bytes =>
    if i.sacked || i.rexmitted then do
      assert (seqLE i.beginSeqNum fromSeqNum && seqLess fromSeqNum i.endSeqNum)
        "seqLE(i->beginSeqNum, fromSeqNum) && seqLess(fromSeqNum, i->endSeqNum)"
      forwardLoop rest i.endSeqNum (bytes + (i.endSeqNum - fromSeqNum))
    else .ok bytes

def checkRexmitQueueForSackedOrRexmittedSegments (queue : TCPSACKRexmitQueue)
    (fromSeqNum : Uint32) : Result Uint32 := do
  assert (seqLE queue.begin fromSeqNum && seqLE fromSeqNum queue.end)
    "seqLE(begin, fromSeqNum) && seqLE(fromSeqNum, end)"
  if queue.rexmitQueue.isEmpty || queue.end == fromSeqNum then .ok 0
  else
    forwardLoop (queue.rexmitQueue.dropWhile fun i => seqLE i.endSeqNum fromSeqNum) fromSeqNum 0

/-- The first loop of `getAmountOfSackedBytes`. -/
def addSackedBytes (bytes : Uint32) (i : Region) : Uint32 :=
  if i.sacked then bytes + (i.endSeqNum - i.beginSeqNum) else bytes

def getAmountOfSackedBytes (queue : TCPSACKRexmitQueue) (fromSeqNum : Uint32) : Result Uint32 := do
  assert (seqLE queue.begin fromSeqNum && seqLE fromSeqNum queue.end)
    "seqLE(begin, fromSeqNum) && seqLE(fromSeqNum, end)"
  let regions := queue.rexmitQueue.reverse
  let bytes := (regions.takeWhile fun i => seqLE fromSeqNum i.beginSeqNum).foldl addSackedBytes 0
  match regions.dropWhile fun i => seqLE fromSeqNum i.beginSeqNum with
  | i :: _ =>
    if seqLess i.beginSeqNum fromSeqNum && seqLess fromSeqNum i.endSeqNum && i.sacked then
      .ok (bytes + (i.endSeqNum - fromSeqNum))
    else .ok bytes
  | [] => .ok bytes

def getTotalAmountOfSackedBytes (queue : TCPSACKRexmitQueue) : Uint32 :=
  queue.rexmitQueue.foldl addSackedBytes 0

/-- The second loop of `getNumOfDiscontiguousSacks`. -/
def countSacks : List Region → Bool → Uint32 → Uint32
  | [], _, counter => counter
  | i :: rest, prevSacked, counter =>
    countSacks rest i.sacked (if i.sacked && !prevSacked then counter + 1 else counter)

def getNumOfDiscontiguousSacks (queue : TCPSACKRexmitQueue) (fromSeqNum : Uint32) :
    Result Uint32 := do
  assert (seqLE queue.begin fromSeqNum && seqLE fromSeqNum queue.end)
    "seqLE(begin, fromSeqNum) && seqLE(fromSeqNum, end)"
  if queue.rexmitQueue.isEmpty || fromSeqNum == queue.end then .ok 0
  else
    .ok (countSacks (queue.rexmitQueue.dropWhile fun i => seqLE i.endSeqNum fromSeqNum) false 0)

/-- What is left of the region behind `fromSeqNum`, and its flags. -/
def checkSackBlock (queue : TCPSACKRexmitQueue) (fromSeqNum : Uint32) :
    Result (Uint32 × Bool × Bool) := do
  assert (seqLE queue.begin fromSeqNum && seqLess fromSeqNum queue.end)
    "seqLE(begin, fromSeqNum) && seqLess(fromSeqNum, end)"
  match queue.rexmitQueue.dropWhile fun i => seqLE i.endSeqNum fromSeqNum with
  | [] => .error (.assertion "i != rexmitQueue.end()")
  | i :: _ => do
      assert (seqLE i.beginSeqNum fromSeqNum && seqLess fromSeqNum i.endSeqNum)
        "seqLE(i->beginSeqNum, fromSeqNum) && seqLess(fromSeqNum, i->endSeqNum)"
      .ok (i.endSeqNum - fromSeqNum, i.sacked, i.rexmitted)

section

variable {b : Uint32} {runs : List (ℕ × Flags)}

/-- The last region with a flag ends behind the last byte with it. -/
theorem find?_reverse_regionsOf {flag : Region → Bool} {p : Flags → Bool}
    (hflag : ∀ b e a, flag ⟨b, e, a.sacked, a.rexmitted⟩ = p a)
    (hproper : RunLength.Proper runs) :
    ((regionsOf b runs).reverse.find? flag).map Region.endSeqNum =
      if behindLast p (expand runs) = 0 then none
      else some (ofPos b (behindLast p (expand runs))) := by
  induction runs generalizing b with
  | nil => simp [regionsOf, behindLast]
  | cons r runs ih =>
    have hpos := hproper.head
    rw [regionsOf, List.reverse_cons, List.find?_append, Option.map_or, ih hproper.tail,
      expand_cons, Stretches.behindLast_append, Stretches.behindLast_replicate,
      List.length_replicate]
    by_cases hrest : behindLast p (expand runs) = 0
    · rw [if_pos hrest, if_pos hrest, Option.none_or, List.find?_singleton, hflag]
      cases p r.2
      · simp
      · simp only [if_true, Option.map_some, if_neg (Nat.ne_of_gt hpos)]
    · rw [if_neg hrest, if_neg hrest, if_neg (by omega), Option.some_or, ofPos_ofPos]

/-- The search for it from the end of the list. -/
theorem highest_regionsOf {flag : Region → Bool} {p : Flags → Bool}
    (hflag : ∀ b e a, flag ⟨b, e, a.sacked, a.rexmitted⟩ = p a)
    (hproper : RunLength.Proper runs) :
    (match (regionsOf b runs).reverse.find? flag with
      | some i => i.endSeqNum
      | none => b) = ofPos b (behindLast p (expand runs)) := by
  have hfind := @find?_reverse_regionsOf b runs flag p hflag hproper
  split_ifs at hfind with hzero
  · rw [Option.map_eq_none_iff.mp hfind, hzero, ofPos_zero]
  · obtain ⟨i, hi, hend⟩ := Option.map_eq_some_iff.mp hfind
    rw [hi, ← hend]

theorem countSacks_regionsOf (hproper : RunLength.Proper runs) (prev : Bool) (counter : Uint32) :
    countSacks (regionsOf b runs) prev counter =
      counter + BitVec.ofNat 32 (stretches Flags.sacked prev (expand runs)) := by
  induction runs generalizing b prev counter with
  | nil => simp [regionsOf, countSacks, stretches]
  | cons r runs ih =>
    rw [regionsOf, countSacks, ih hproper.tail, expand_cons,
      Stretches.stretches_replicate_append hproper.head]
    split_ifs
    · rw [BitVec.ofNat_add, BitVec.add_assoc]
      rfl
    · rw [Nat.zero_add]

/-- The loop adds up the sacked bytes of the regions. -/
theorem foldl_addSackedBytes (hlen : length runs < 2 ^ 31) :
    (regionsOf b runs).reverse.foldl addSackedBytes 0 =
      BitVec.ofNat 32 ((expand runs).countP Flags.sacked) := by
  rw [List.foldl_reverse]
  induction runs generalizing b with
  | nil => rfl
  | cons r runs ih =>
    rw [length_cons] at hlen
    have hway : ofPos b r.1 - b = BitVec.ofNat 32 r.1 := by
      rw [ofPos]
      bv_omega
    rw [regionsOf, List.foldr_cons, ih (by omega), expand_cons, List.countP_append,
      List.countP_replicate, addSackedBytes, hway]
    split_ifs
    · rw [BitVec.ofNat_add, BitVec.add_comm]
    · rw [Nat.zero_add]

/-- A byte that need not be sent again after a retransmission timeout. -/
def marked (flags : Flags) : Bool := flags.sacked || flags.rexmitted

/-- The loop goes on as long as the bytes are marked. -/
theorem forwardLoop_regionsOf {p : ℕ} (hproper : RunLength.Proper runs)
    (hlen : p + length runs < 2 ^ 31) (bytes : Uint32) :
    forwardLoop (regionsOf (ofPos b p) runs) (ofPos b p) bytes =
      .ok (bytes + BitVec.ofNat 32 ((expand runs).takeWhile marked).length) := by
  induction runs generalizing p bytes with
  | nil => simp [regionsOf, forwardLoop]
  | cons r runs ih =>
    have hpos := hproper.head
    rw [length_cons] at hlen
    rw [regionsOf, forwardLoop, ofPos_ofPos]
    cases hr : marked r.2 with
    | false =>
      obtain ⟨n, hn⟩ := Nat.exists_eq_succ_of_ne_zero (Nat.ne_of_gt hpos)
      rw [if_neg (by simpa [marked] using hr), expand_cons, hn,
        List.replicate_succ, List.cons_append, List.takeWhile_cons_of_neg (by simp [hr])]
      simp
    | true =>
      have hinside : (seqLE (ofPos b p) (ofPos b p) &&
          seqLess (ofPos b p) (ofPos b (p + r.1))) = true := by
        rw [seqLE_ofPos (near_of_lt (by omega) (by omega)),
          seqLess_ofPos (near_of_lt (by omega) (by omega))]
        simp [hpos]
      have hall : ∀ a ∈ List.replicate r.1 r.2, marked a = true := by
        intro a ha
        rw [List.eq_of_mem_replicate ha, hr]
      rw [if_pos (by simpa [marked] using hr), assert_of hinside, ok_bind,
        ih hproper.tail (by omega), expand_cons,
        List.takeWhile_append_of_pos hall, List.length_append, List.length_replicate,
        ofPos_sub_ofPos (by omega), Nat.add_sub_cancel_left, BitVec.ofNat_add,
        BitVec.add_assoc]

/-- Seen from the end, the regions that begin behind `k` come first. -/
theorem span_reverse_regionsOf {xs ys : List (ℕ × Flags)} {n k : ℕ} {a : Flags}
    (hlen : length (xs ++ (n, a) :: ys) < 2 ^ 31) (hk : length xs < k)
    (hkn : k ≤ length xs + n) :
    (regionsOf b (xs ++ (n, a) :: ys)).reverse.takeWhile
        (fun i => seqLE (ofPos b k) i.beginSeqNum) =
          (regionsOf (ofPos b (length xs + n)) ys).reverse ∧
      (regionsOf b (xs ++ (n, a) :: ys)).reverse.dropWhile
        (fun i => seqLE (ofPos b k) i.beginSeqNum) = (regionsOf b (xs ++ [(n, a)])).reverse := by
  rw [length_append, length_cons] at hlen
  have hbehind : ∀ i ∈ (regionsOf (ofPos b (length xs + n)) ys).reverse,
      seqLE (ofPos b k) i.beginSeqNum = true := by
    intro i hi
    obtain ⟨p, m, a, -, hle, rfl⟩ := exists_of_mem_regionsOf (List.mem_reverse.mp hi)
    simp only [ofPos_ofPos]
    rw [seqLE_ofPos (near_of_lt (by omega) (by omega))]
    exact decide_eq_true (by omega)
  have hbefore : ∀ i ∈ (regionsOf b (xs ++ [(n, a)])).reverse,
      seqLE (ofPos b k) i.beginSeqNum = false := by
    intro i hi
    rw [List.mem_reverse, regionsOf_append, List.mem_append] at hi
    obtain hi | hi := hi
    · obtain ⟨p, m, a, -, hle, rfl⟩ := exists_of_mem_regionsOf hi
      rw [seqLE_ofPos (near_of_lt (by omega) (by omega))]
      exact decide_eq_false (by omega)
    · obtain rfl := List.mem_singleton.mp hi
      rw [seqLE_ofPos (near_of_lt (by omega) (by omega))]
      exact decide_eq_false (by omega)
  have hsplit : (regionsOf b (xs ++ (n, a) :: ys)).reverse =
      (regionsOf (ofPos b (length xs + n)) ys).reverse ++
        (regionsOf b (xs ++ [(n, a)])).reverse := by
    rw [← List.reverse_append, regionsOf_append, regionsOf_append]
    simp [regionsOf, ofPos_ofPos]
  rw [hsplit]
  exact ⟨List.takeWhile_append_of_split hbehind hbefore,
    List.dropWhile_append_of_split hbehind hbefore⟩

variable {queue : TCPSACKRexmitQueue} {board : Scoreboard} {k : ℕ}

section

variable (h : Represents queue board)

include h

theorem Represents.getHighestSackedSeqNum :
    queue.getHighestSackedSeqNum = ofPos board.begin (behindLast Flags.sacked board.bytes) := by
  obtain ⟨runs, hbegin, hregions, -, hproper, -, hbytes⟩ := h
  rw [TCPSACKRexmitQueue.getHighestSackedSeqNum, hregions, hbegin, ← hbytes]
  exact highest_regionsOf (fun _ _ _ => rfl) hproper

theorem Represents.getHighestRexmittedSeqNum : queue.getHighestRexmittedSeqNum =
      ofPos board.begin (behindLast Flags.rexmitted board.bytes) := by
  obtain ⟨runs, hbegin, hregions, -, hproper, -, hbytes⟩ := h
  rw [TCPSACKRexmitQueue.getHighestRexmittedSeqNum, hregions, hbegin, ← hbytes]
  exact highest_regionsOf (fun _ _ _ => rfl) hproper

/-- The sequence numbers that the functions accept. -/
theorem Represents.inRange (hk : k ≤ board.bytes.length) :
    (seqLE queue.begin (ofPos board.begin k) && seqLE (ofPos board.begin k) queue.end) = true := by
  obtain ⟨runs, hbegin, -, hend, -, hlen, hbytes⟩ := h
  have hlength : length runs = board.bytes.length := by
    rw [← hbytes, length_expand]
  rw [hbegin, hend, board_end_eq hbytes, seqLE_start (by omega), Bool.true_and,
    seqLE_ofPos (near_of_lt (by omega) (by omega))]
  exact decide_eq_true (by omega)

/-- The block of a sequence number: bytes with equal flags. -/
theorem Represents.checkSackBlock (hk : k < board.bytes.length) :
    ∃ m a, 0 < m ∧ k + m ≤ board.bytes.length ∧ queue.checkSackBlock (ofPos board.begin k) =
        .ok (BitVec.ofNat 32 m, a.sacked, a.rexmitted) ∧
      ∀ j, k ≤ j → j < k + m → board.bytes[j]? = some a := by
  obtain ⟨runs, hbegin, hregions, hend, -, hlen, hbytes⟩ := h
  have hlength : length runs = board.bytes.length := by
    rw [← hbytes, length_expand]
  obtain ⟨xs, n, a, ys, heq, hle, hlt⟩ := exists_cut (hlength ▸ hk)
  have hsum : length runs = length xs + (n + length ys) := by
    rw [heq, length_append, length_cons]
  have hrange : (seqLE queue.begin (ofPos board.begin k) &&
      seqLess (ofPos board.begin k) queue.end) = true := by
    rw [hbegin, hend, board_end_eq hbytes, seqLE_start (by omega),
      seqLess_ofPos (near_of_lt (by omega) (by omega)), Bool.true_and]
    exact decide_eq_true (by omega)
  have hinside : (seqLE (ofPos board.begin (length xs)) (ofPos board.begin k) &&
      seqLess (ofPos board.begin k) (ofPos board.begin (length xs + n))) = true := by
    rw [seqLE_ofPos (near_of_lt (by omega) (by omega)),
      seqLess_ofPos (near_of_lt (by omega) (by omega))]
    simp [hle, hlt]
  refine ⟨length xs + n - k, a, by omega, by omega, ?_, fun j hj hjm => ?_⟩
  · rw [TCPSACKRexmitQueue.checkSackBlock, assert_of hrange, ok_bind, hregions,
      (span_regionsOf heq hlen hle hlt).2]
    simp only [regionsOf, ofPos_ofPos, assert_of hinside, ok_bind]
    rw [ofPos_sub_ofPos (by omega)]
  · rw [← hbytes, heq, RunLength.expand_append, expand_cons,
      List.getElem?_append_right (by rw [length_expand]; omega),
      length_expand, List.getElem?_append_left (by rw [List.length_replicate]; omega),
      List.getElem?_replicate, if_pos (by omega)]

/-- Behind the last byte there is no block. -/
theorem Represents.checkSackBlock_end :
    queue.checkSackBlock (ofPos board.begin board.bytes.length) =
      .error (.assertion "seqLE(begin, fromSeqNum) && seqLess(fromSeqNum, end)") := by
  obtain ⟨runs, -, -, hend, -, -, -⟩ := h
  have hends : queue.end = ofPos board.begin board.bytes.length := hend
  rw [TCPSACKRexmitQueue.checkSackBlock, hends]
  simp [seqLess, assert]

/-- The number of sacked blocks behind a place. -/
theorem Represents.getNumOfDiscontiguousSacks (hk : k ≤ board.bytes.length) :
    queue.getNumOfDiscontiguousSacks (ofPos board.begin k) =
      .ok (BitVec.ofNat 32 (stretches Flags.sacked false (board.bytes.drop k))) := by
  have hrange := h.inRange hk
  obtain ⟨runs, hbegin, hregions, hend, hproper, hlen, hbytes⟩ := h
  have hlength : length runs = board.bytes.length := by
    rw [← hbytes, length_expand]
  rw [TCPSACKRexmitQueue.getNumOfDiscontiguousSacks, assert_of hrange, ok_bind]
  obtain hlt | rfl := Nat.lt_or_eq_of_le hk
  · obtain ⟨xs, n, a, ys, heq, hle, hcut⟩ := exists_cut (hlength ▸ hlt)
    have hne : ¬(ofPos board.begin k = queue.end) := by
      rw [hend, board_end_eq hbytes, ofPos_eq_iff (near_of_lt (by omega) (by omega))]
      omega
    have hnonempty : queue.rexmitQueue.isEmpty = false := by
      rw [hregions, heq, regionsOf_append]
      simp [regionsOf]
    rw [if_neg (by simp [hne, hnonempty]), hregions, (span_regionsOf heq hlen hle hcut).2,
      countSacks_regionsOf (heq ▸ hproper).right,
      show ∀ x : Uint32, 0 + x = x from BitVec.zero_add, ← hbytes, heq,
      expand_cut hle hcut, List.drop_left' (by simp; omega), expand_cons,
      Stretches.stretches_replicate_append (by omega),
      Stretches.stretches_replicate_append (by omega)]
  · have heq : ofPos board.begin board.bytes.length = queue.end := by
      rw [hend, board_end_eq hbytes, hlength]
    rw [if_pos (by simp [heq]), List.drop_length]
    rfl

/-- The number of sacked bytes behind a place. -/
theorem Represents.getAmountOfSackedBytes (hk : k ≤ board.bytes.length) :
    queue.getAmountOfSackedBytes (ofPos board.begin k) =
      .ok (BitVec.ofNat 32 ((board.bytes.drop k).countP Flags.sacked)) := by
  have hrange := h.inRange hk
  obtain ⟨runs, hbegin, hregions, hend, hproper, hlen, hbytes⟩ := h
  have hlength : length runs = board.bytes.length := by
    rw [← hbytes, length_expand]
  rw [TCPSACKRexmitQueue.getAmountOfSackedBytes, assert_of hrange, ok_bind, hregions]
  obtain rfl | hpos := Nat.eq_zero_or_pos k
  · -- all regions are behind the place
    have hall : ∀ i ∈ (regionsOf board.begin runs).reverse,
        seqLE (ofPos board.begin 0) i.beginSeqNum = true := by
      intro i hi
      obtain ⟨p, m, a, -, hle, rfl⟩ := exists_of_mem_regionsOf (List.mem_reverse.mp hi)
      rw [seqLE_ofPos (near_of_lt (by omega) (by omega))]
      exact decide_eq_true (Nat.zero_le p)
    have htake := @List.takeWhile_append_of_split _ _ _ [] hall (by simp)
    have hdrop := @List.dropWhile_append_of_split _ _ _ [] hall (by simp)
    rw [List.append_nil] at htake hdrop
    simp only [htake, hdrop, foldl_addSackedBytes hlen, List.drop_zero, hbytes]
  · obtain ⟨xs, n, a, ys, rfl, hle, hlt⟩ :=
      @RunLength.exists_cut _ runs (k - 1) (by omega)
    obtain ⟨htake, hdrop⟩ := @span_reverse_regionsOf board.begin xs ys n k a hlen (by omega)
      (by omega)
    rw [length_append, length_cons] at hlength hlen
    have hdropped : board.bytes.drop k = List.replicate (length xs + n - k) a ++ expand ys := by
      have hover : k - length xs - n = 0 := by omega
      have hrest : n - (k - length xs) = length xs + n - k := by omega
      rw [← hbytes, RunLength.expand_append, expand_cons, List.drop_append,
        List.drop_append, List.drop_eq_nil_of_le (by rw [length_expand]; omega),
        length_expand, List.length_replicate, List.drop_replicate, hover, hrest]
      rfl
    have hys : length ys ≤ length xs + (n + length ys) := by omega
    have hbegins : seqLess (ofPos board.begin (length xs)) (ofPos board.begin k) =
        true := by
      rw [seqLess_ofPos (near_of_lt (by omega) (by omega))]
      exact decide_eq_true (by omega)
    have hends : seqLess (ofPos board.begin k) (ofPos board.begin (length xs + n)) =
        decide (k < length xs + n) :=
      seqLess_ofPos (near_of_lt (by omega) (by omega))
    have hfirst : (regionsOf board.begin (xs ++ [(n, a)])).reverse =
        ⟨ofPos board.begin (length xs), ofPos board.begin (length xs + n),
          a.sacked, a.rexmitted⟩ :: (regionsOf board.begin xs).reverse := by
      simp [regionsOf_append, regionsOf, ofPos_ofPos]
    simp only [htake, hdrop, hfirst, foldl_addSackedBytes (Nat.lt_of_le_of_lt hys hlen), hbegins,
      hends, hdropped, List.countP_append, List.countP_replicate, Bool.true_and]
    by_cases hinside : k < length xs + n
    · rw [decide_eq_true hinside, Bool.true_and, ofPos_sub_ofPos (by omega)]
      split_ifs
      · rw [BitVec.ofNat_add, BitVec.add_comm]
      · rw [Nat.zero_add]
    · rw [decide_eq_false hinside, Bool.false_and, if_neg Bool.false_ne_true,
        show length xs + n - k = 0 by omega, ite_self, Nat.zero_add]

/-- The order of the regions does not matter. -/
theorem Represents.getTotalAmountOfSackedBytes :
    queue.getTotalAmountOfSackedBytes = BitVec.ofNat 32 (board.bytes.countP Flags.sacked) := by
  obtain ⟨runs, -, hregions, -, -, hlen, hbytes⟩ := h
  have hcomm : RightCommutative addSackedBytes := ⟨fun bytes i j => by
    unfold addSackedBytes
    split_ifs <;> ac_rfl⟩
  rw [TCPSACKRexmitQueue.getTotalAmountOfSackedBytes,
    (List.reverse_perm queue.rexmitQueue).symm.foldl_eq, hregions, foldl_addSackedBytes hlen,
    hbytes]

/-- The number of marked bytes from a place on. -/
theorem Represents.checkRexmitQueueForSackedOrRexmittedSegments (hk : k ≤ board.bytes.length) :
    queue.checkRexmitQueueForSackedOrRexmittedSegments (ofPos board.begin k) =
      .ok (BitVec.ofNat 32 ((board.bytes.drop k).takeWhile marked).length) := by
  have hrange := h.inRange hk
  obtain ⟨runs, hbegin, hregions, hend, hproper, hlen, hbytes⟩ := h
  have hlength : length runs = board.bytes.length := by
    rw [← hbytes, length_expand]
  rw [TCPSACKRexmitQueue.checkRexmitQueueForSackedOrRexmittedSegments, assert_of hrange, ok_bind]
  obtain hlt | rfl := Nat.lt_or_eq_of_le hk
  · obtain ⟨xs, n, a, ys, heq, hle, hcut⟩ := exists_cut (hlength ▸ hlt)
    have hsum : length runs = length xs + (n + length ys) := by
      rw [heq, length_append, length_cons]
    have hne : ¬(queue.end = ofPos board.begin k) := by
      rw [hend, board_end_eq hbytes, ofPos_eq_iff (near_of_lt (by omega) (by omega))]
      omega
    have hnonempty : queue.rexmitQueue.isEmpty = false := by
      rw [hregions, heq, regionsOf_append]
      simp [regionsOf]
    have hys : RunLength.Proper ys := (heq ▸ hproper).right.tail
    -- the first region is cut at the place
    have hloop := @forwardLoop_regionsOf board.begin
      ((n - (k - length xs), a) :: ys) k (hys.cons (by simp only; omega))
      (by rw [length_cons]; simp only; omega) 0
    have hdropped : board.bytes.drop k = expand ((n - (k - length xs), a) :: ys) := by
      rw [← hbytes, heq, expand_cut hle hcut, List.drop_left' (by simp; omega), expand_cons]
    have hzero (x : Uint32) : 0 + x = x := BitVec.zero_add x
    have hcutEnd : k + (n - (k - length xs)) = length xs + n := by omega
    have hoff (m : ℕ) : seqLE (ofPos board.begin m) (ofPos board.begin m) = true := by
      simp [seqLE]
    have hfirst := @seqLE_ofPos board.begin (length xs) k
      (near_of_lt (by omega) (by omega))
    rw [if_neg (by simp [hne, hnonempty]), hregions, (span_regionsOf heq hlen hle hcut).2, hdropped,
      ← hzero (BitVec.ofNat 32 _), ← hloop]
    simp only [regionsOf, forwardLoop, ofPos_ofPos, hcutEnd, hfirst, hoff, hle, decide_true]
  · have heq : queue.end = ofPos board.begin board.bytes.length := by
      rw [hend, board_end_eq hbytes, hlength]
    rw [if_pos (by simp [heq]), List.drop_length]
    rfl

end

end

variable {queue : TCPSACKRexmitQueue} {regions : List Region}

theorem eq_true_of_checkRegions {b e : Uint32} {f : Bool}
    (h : checkRegions regions b f = (e, true)) : f = true := by
  induction regions generalizing b f with
  | nil => exact (Prod.mk.inj h).2
  | cons i rest ih =>
    have hand := ih h
    simp only [Bool.and_eq_true] at hand
    exact hand.1.1

/-- Regions that pass the check are runs of flags. -/
theorem exists_runs_of_checkRegions {b e : Uint32} (h : checkRegions regions b true = (e, true)) :
    ∃ runs, regions = regionsOf b runs ∧ RunLength.Proper runs ∧ e = ofPos b (length runs) ∧
      (regions.flatMap fun elem => List.replicate (elem.endSeqNum - elem.beginSeqNum).toNat
        (⟨elem.sacked, elem.rexmitted⟩ : Flags)) = expand runs := by
  induction regions generalizing b with
  | nil =>
    refine ⟨[], rfl, by simp [RunLength.Proper], ?_, rfl⟩
    rw [RunLength.length_nil, ofPos_zero]
    exact (Prod.mk.inj h).1.symm
  | cons i rest ih =>
    rw [checkRegions] at h
    have hand := eq_true_of_checkRegions h
    rw [hand] at h
    simp only [Bool.true_and, Bool.and_eq_true, beq_iff_eq] at hand
    obtain ⟨rfl, hless⟩ := hand
    obtain ⟨runs, hregions, hproper, hend, hbytes⟩ := ih h
    have hway := SerialNumber.ofPos_toNat_sub i.beginSeqNum i.endSeqNum
    have hpos : 0 < (i.endSeqNum - i.beginSeqNum).toNat := by
      simp only [seqLess, Bool.and_eq_true, bne_iff_ne, ne_eq] at hless
      have hne := hless.1
      bv_omega
    refine ⟨((i.endSeqNum - i.beginSeqNum).toNat, ⟨i.sacked, i.rexmitted⟩) :: runs, ?_,
      hproper.cons hpos, ?_, ?_⟩
    · rw [regionsOf, hway, ← hregions]
    · rw [length_cons, ← ofPos_ofPos, hway]
      exact hend
    · rw [List.flatMap_cons, hbytes, expand_cons]

/-- A queue that passes its own check stands for the scoreboard that its regions give. -/
theorem represents_denote (hcheck : queue.checkQueue = true)
    (hlen : queue.denote.bytes.length < 2 ^ 31) : Represents queue queue.denote := by
  rw [checkQueue] at hcheck
  obtain ⟨⟨e, f⟩, hregions⟩ : ∃ r, checkRegions queue.rexmitQueue queue.begin true = r := ⟨_, rfl⟩
  rw [hregions] at hcheck
  simp only [Bool.and_eq_true, beq_iff_eq] at hcheck
  obtain ⟨rfl, rfl⟩ := hcheck
  obtain ⟨runs, heq, hproper, hend, hbytes⟩ := exists_runs_of_checkRegions hregions
  have hdenote : queue.denote.bytes = expand runs := hbytes
  rw [hdenote, length_expand] at hlen
  exact ⟨runs, rfl, heq, hend.trans (board_end_eq hdenote.symm).symm, hproper, hlen, hdenote.symm⟩

/-- The functions that count from a sequence number on are those of the flags of the bytes, and
queues with the same flags give the same results. -/
theorem counts_of_bytes (hcheck : queue.checkQueue = true)
    (hlen : queue.denote.bytes.length < 2 ^ 31) {seqNum : Uint32}
    (hbegin : seqLE queue.begin seqNum = true) (hend : seqLE seqNum queue.end = true) :
    let bytes := queue.denote.bytes.drop (queue.denote.offset seqNum)
    queue.getAmountOfSackedBytes seqNum = .ok (BitVec.ofNat 32 (bytes.countP Flags.sacked)) ∧
      queue.getNumOfDiscontiguousSacks seqNum =
        .ok (BitVec.ofNat 32 (stretches Flags.sacked false bytes)) ∧
      queue.checkRexmitQueueForSackedOrRexmittedSegments seqNum =
        .ok (BitVec.ofNat 32 (bytes.takeWhile marked).length) ∧
      queue.getAmountOfSackedBytes queue.begin = .ok queue.getTotalAmountOfSackedBytes ∧
      ∀ other : TCPSACKRexmitQueue, other.checkQueue = true → other.denote = queue.denote →
        other.getAmountOfSackedBytes seqNum = queue.getAmountOfSackedBytes seqNum ∧
          other.getNumOfDiscontiguousSacks seqNum = queue.getNumOfDiscontiguousSacks seqNum ∧
          other.checkRexmitQueueForSackedOrRexmittedSegments seqNum =
            queue.checkRexmitQueueForSackedOrRexmittedSegments seqNum ∧
          other.getTotalAmountOfSackedBytes = queue.getTotalAmountOfSackedBytes := by
  have h := represents_denote hcheck hlen
  obtain ⟨k, hseq, hk⟩ : ∃ k, seqNum = ofPos queue.denote.begin k ∧
      k ≤ queue.denote.bytes.length := by
    obtain ⟨-, -, -, heq, -⟩ := id h
    rw [heq] at hend
    obtain ⟨hpos, hle⟩ := offset_le hlen hbegin hend
    exact ⟨_, hpos, hle⟩
  have hoffset : queue.denote.offset seqNum = k := by
    rw [hseq]
    exact SerialNumber.toNat_ofPos_sub_base (by omega)
  have hfirst := h.getAmountOfSackedBytes (Nat.zero_le _)
  rw [SerialNumber.ofPos_zero, List.drop_zero, ← h.getTotalAmountOfSackedBytes] at hfirst
  simp only [hoffset]
  refine ⟨hseq ▸ h.getAmountOfSackedBytes hk, hseq ▸ h.getNumOfDiscontiguousSacks hk,
    hseq ▸ h.checkRexmitQueueForSackedOrRexmittedSegments hk, hfirst, fun other hother heq => ?_⟩
  have h' : Represents other queue.denote := heq ▸ represents_denote hother (heq ▸ hlen)
  rw [hseq, h.getAmountOfSackedBytes hk, h.getNumOfDiscontiguousSacks hk,
    h.checkRexmitQueueForSackedOrRexmittedSegments hk, h.getTotalAmountOfSackedBytes]
  exact ⟨h'.getAmountOfSackedBytes hk, h'.getNumOfDiscontiguousSacks hk,
    h'.checkRexmitQueueForSackedOrRexmittedSegments hk, h'.getTotalAmountOfSackedBytes⟩

/-- Eight bytes across the wrap. A block of four is sacked, and stored as two regions. -/
def splitBlock : TCPSACKRexmitQueue where
  begin := -4
  «end» := 4
  rexmitQueue := [⟨-4, -2, false, true⟩, ⟨-2, 1, true, false⟩, ⟨1, 2, true, true⟩,
    ⟨2, 3, false, true⟩, ⟨3, 4, false, false⟩]

theorem counts_of_splitBlock :
    splitBlock.getAmountOfSackedBytes 0 = .ok 2 ∧ splitBlock.getNumOfDiscontiguousSacks 0 = .ok 1 ∧
      splitBlock.checkRexmitQueueForSackedOrRexmittedSegments 0 = .ok 3 := by
  have h := @counts_of_bytes splitBlock (by decide) (by decide) 0 (by decide) (by decide)
  exact ⟨h.1.trans (by decide), h.2.1.trans (by decide), h.2.2.1.trans (by decide)⟩

/-- `begin` and `end` cannot be compared if they are half of the sequence numbers apart. -/
theorem getAmountOfSackedBytes_half : ∃ queue : TCPSACKRexmitQueue, queue.checkQueue = true ∧
      queue.getAmountOfSackedBytes queue.begin =
        .error (.assertion "seqLE(begin, fromSeqNum) && seqLE(fromSeqNum, end)") := by
  refine ⟨⟨0, 2147483648, [⟨0, 1073741824, true, false⟩,
    ⟨1073741824, 2147483648, true, false⟩]⟩, by decide, by decide⟩

end Inet.Tcp.TCPSACKRexmitQueue
