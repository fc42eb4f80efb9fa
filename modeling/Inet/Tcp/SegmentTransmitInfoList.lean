import Inet.Library.Run
import Inet.Library.SerialRuns
import Inet.Tcp.Segment

/-!
# When and how often a segment was sent

`TCPSegmentTransmitInfoList` remembers for the data in flight the times of the first and of
the last transmission and the number of transmissions, in items for ranges of sequence numbers.
A retransmission cuts the items at its two ends, touches those in between, and may run past the
last one.

`SentLog` is what the list stands for: the times at which each sequence number was sent.
Within half of the sequence space every call on the list is a call on the log (`refines_log`).
-/

namespace Inet.Tcp

open SerialNumber (ofPos Near exists_ofPos ofPos_ofPos ofPos_toNat_sub ofPos_zero toNat_ofPos_sub
  toNat_ofPos_sub_of_lt)
open RunLength (expand markTo cutBefore exists_cut expand_cons length length_append length_cons
  length_expand Proper expand_append)

/-- A `simtime_t`, in ticks of the clock. -/
abbrev SimTime := ℤ

namespace TCPSegmentTransmitInfoList

/-- The segment `[beg, end)`. -/
structure Item where
  beg : Uint32
  «end» : Uint32
  /-- The time of the first sending. -/
  firstSentTime : SimTime
  /-- The time of the last sending. -/
  lastSentTime : SimTime
  /-- The number of transmissions. -/
  transmitCount : ℕ

end TCPSegmentTransmitInfoList

structure TCPSegmentTransmitInfoList where
  regions : List TCPSegmentTransmitInfoList.Item := []

namespace TCPSegmentTransmitInfoList

/-- `regions.front().beg`. -/
def frontBeg (list : TCPSegmentTransmitInfoList) : Option Uint32 :=
  list.regions.head?.map Item.beg

/-- `regions.back().end`. -/
def backEnd (list : TCPSegmentTransmitInfoList) : Option Uint32 :=
  list.regions.getLast?.map Item.end

/-- The part of the loop of `set` that changes an item. -/
def Item.touch (i : Item) (sentTime : SimTime) : Item :=
  { i with
    firstSentTime := if i.firstSentTime > sentTime then sentTime else i.firstSentTime
    lastSentTime := if i.lastSentTime < sentTime then sentTime else i.lastSentTime
    transmitCount := i.transmitCount + 1 }

/-- The loop of `set` over the items that end at `end` or before: those it has changed, the
place `beg` behind them, and the items from the iterator on. -/
def touchLoop (sentTime : SimTime) («end» : Uint32) :
    Uint32 → List Item → Result (List Item × Uint32 × List Item)
  | beg, [] => .ok ([], beg, [])
  | beg, i :: rest =>
    if seqLE i.end «end» then do
      assert (beg == i.beg) "beg == i->beg"
      let (touched, beg, rest) ← touchLoop sentTime «end» i.end rest
      .ok (i.touch sentTime :: touched, beg, rest)
    else
      .ok ([], beg, i :: rest)

/-- The end of `set`: what the loop has left of `[beg, end)` is a part of the next item, or
lies behind all of them. -/
def sendRest (sentTime : SimTime) (beg «end» : Uint32) (rest : List Item) : Result (List Item) :=
  if beg ≠ «end» then
    match rest with
    | i :: rest => do
        assert (beg == i.beg) "beg == i->beg"
        let firstSent := min i.firstSentTime sentTime
        let lastSent := max i.lastSentTime sentTime
        .ok (⟨beg, «end», firstSent, lastSent, i.transmitCount + 1⟩ ::
          { i with beg := «end» } :: rest)
    | [] => .ok [⟨beg, «end», sentTime, sentTime, 1⟩]
  else
    .ok rest

/-- The regions after a `set` that begins inside of them. The search runs past the last item
if none of them ends behind `beg`. -/
def setInside (regions : List Item) (beg «end» : Uint32) (sentTime : SimTime) :
    Result (List Item) := do
  let before := regions.takeWhile fun i => seqLE i.end beg
  match regions.dropWhile fun i => seqLE i.end beg with
  | [] => .error .invalidIterator
  | i :: rest => do
      assert (seqLE i.beg beg) "seqLE(i->beg, beg)"
      let before := if beg ≠ i.beg then before ++ [{ i with «end» := beg }] else before
      let (touched, beg, rest) ← touchLoop sentTime «end» beg ({ i with beg } :: rest)
      let rest ← sendRest sentTime beg «end» rest
      .ok (before ++ touched ++ rest)

def set (list : TCPSegmentTransmitInfoList) (beg «end» : Uint32) (sentTime : SimTime) :
    Result TCPSegmentTransmitInfoList := do
  assert (seqLess beg «end») "seqLess(beg, end)"
  assert (list.regions.isEmpty ||
      (list.frontBeg.any (seqLE · beg) && list.backEnd.any (seqLE beg ·)))
    "regions.empty() || (seqLE(regions.front().beg, beg) && seqLE(beg, regions.back().end))"
  if list.regions.isEmpty || list.backEnd == some beg then
    .ok { regions := list.regions ++ [⟨beg, «end», sentTime, sentTime, 1⟩] }
  else if list.frontBeg == some «end» then
    .ok { regions := ⟨beg, «end», sentTime, sentTime, 1⟩ :: list.regions }
  else do
    let regions ← setInside list.regions beg «end» sentTime
    .ok { regions }

/-- The loop of `get`. -/
def find : List Item → Uint32 → Option Item
  | [], _ => none
  | elem :: rest, seq =>
    if seqLess seq elem.beg then none
    else if seqLE elem.beg seq && seqLess seq elem.end then some elem
    else find rest seq

def get (list : TCPSegmentTransmitInfoList) (seq : Uint32) : Option Item := find list.regions seq

def clearTo (list : TCPSegmentTransmitInfoList) (endseq : Uint32) : TCPSegmentTransmitInfoList :=
  match list.regions.dropWhile fun i => seqLE i.end endseq with
  | [] => {}
  | front :: rest =>
    if seqLess front.beg endseq then { regions := { front with beg := endseq } :: rest }
    else { regions := front :: rest }

/-- A call on the list. -/
inductive Call where
  | set (beg «end» : Uint32) (sentTime : SimTime)
  | clearTo (endseq : Uint32)

def step (list : TCPSegmentTransmitInfoList) : Call → Result TCPSegmentTransmitInfoList
  | .set beg «end» sentTime => list.set beg «end» sentTime
  | .clearTo endseq => .ok (list.clearTo endseq)

/-- What `set` asserts. -/
def Asserted (list : TCPSegmentTransmitInfoList) : Call → Prop
  | .set beg «end» _ => seqLess beg «end» = true ∧ (list.regions.isEmpty ||
      (list.frontBeg.any (seqLE · beg) && list.backEnd.any (seqLE beg ·))) = true
  | .clearTo _ => True

instance (list : TCPSegmentTransmitInfoList) : (call : Call) → Decidable (list.Asserted call)
  | .set _ _ _ => inferInstanceAs (Decidable (_ ∧ _))
  | .clearTo _ => .isTrue trivial

/-- The call stays within half of the sequence space: what `set` adds ends less than 2^31 behind
the first item, and `clearTo` clears up to a place behind the beginning of the first item or
before the end of the last one. -/
def Within (list : TCPSegmentTransmitInfoList) : Call → Prop
  | .set _ «end» _ => list.frontBeg.all (seqLE · «end») = true
  | .clearTo endseq =>
    list.frontBeg.all (seqLE · endseq) = true ∨ list.backEnd.all (seqLE endseq ·) = true

instance (list : TCPSegmentTransmitInfoList) : (call : Call) → Decidable (list.Within call)
  | .set _ _ _ => inferInstanceAs (Decidable (_ = _))
  | .clearTo _ => inferInstanceAs (Decidable (_ ∨ _))

end TCPSegmentTransmitInfoList

/-- For each sequence number the times at which it was sent since it was last cleared. -/
abbrev SentLog := Uint32 → List SimTime

namespace SentLog

/-- The sequence numbers of `[beg, end)` are sent at `sentTime`. -/
def set (log : SentLog) (beg «end» : Uint32) (sentTime : SimTime) : SentLog := fun seq =>
  if (seq - beg).toNat < («end» - beg).toNat then sentTime :: log seq else log seq

/-- The sequence numbers before `endseq` are cleared. -/
def clearTo (log : SentLog) (endseq : Uint32) : SentLog := fun seq =>
  if seqLess seq endseq then [] else log seq

/-- The call on the log. -/
def step (log : SentLog) : TCPSegmentTransmitInfoList.Call → SentLog
  | .set beg «end» sentTime => log.set beg «end» sentTime
  | .clearTo endseq => log.clearTo endseq

/-- The log after the calls. -/
def after (calls : List TCPSegmentTransmitInfoList.Call) : SentLog :=
  calls.foldl step fun _ => []

end SentLog

namespace TCPSegmentTransmitInfoList

/-- The data of an item. -/
structure Stats where
  firstSentTime : SimTime
  lastSentTime : SimTime
  transmitCount : ℕ
deriving DecidableEq

def Item.stats (i : Item) : Stats := ⟨i.firstSentTime, i.lastSentTime, i.transmitCount⟩

namespace Stats

/-- One transmission more. -/
def touch (sentTime : SimTime) (stats : Stats) : Stats :=
  ⟨min stats.firstSentTime sentTime, max stats.lastSentTime sentTime, stats.transmitCount + 1⟩

/-- The only transmission. -/
def once (sentTime : SimTime) : Stats := ⟨sentTime, sentTime, 1⟩

/-- What a list of times amounts to. -/
def ofTimes : List SimTime → Option Stats
  | [] => none
  | sentTime :: times => some ((ofTimes times).elim (once sentTime) (touch sentTime))

theorem ofTimes_eq_none_iff {times : List SimTime} : ofTimes times = none ↔ times = [] := by
  cases times <;> simp [ofTimes]

/-- The first time, the last time, and the number of times. -/
theorem of_ofTimes {times : List SimTime} {stats : Stats} (h : ofTimes times = some stats) :
    times.min? = some stats.firstSentTime ∧ times.max? = some stats.lastSentTime ∧
      times.length = stats.transmitCount := by
  induction times generalizing stats with
  | nil => cases h
  | cons sentTime times ih =>
    rw [ofTimes, Option.some.injEq] at h
    subst h
    cases htimes : ofTimes times with
    | none =>
      rw [ofTimes_eq_none_iff] at htimes
      subst htimes
      exact ⟨rfl, rfl, rfl⟩
    | some stats =>
      obtain ⟨hmin, hmax, hcount⟩ := ih htimes
      rw [List.min?_cons, List.max?_cons, hmin, hmax, List.length_cons, hcount]
      simp only [Option.elim_some, touch, Int.min_comm, Int.max_comm, and_self]

end Stats

section

variable {b : Uint32} {runs xs ys : List (ℕ × Stats)} {n k o p e : ℕ} {a : Stats}
  {sentTime : SimTime} {seq : Uint32}

/-- The item for a range of sequence numbers. -/
def itemOf (beg «end» : Uint32) (stats : Stats) : Item :=
  ⟨beg, «end», stats.firstSentTime, stats.lastSentTime, stats.transmitCount⟩

/-- The items for runs of equal data from the sequence number `b` on. -/
def itemsOf (b : Uint32) (runs : List (ℕ × Stats)) : List Item :=
  SerialRuns.records itemOf b runs

theorem itemsOf_cons (b : Uint32) (n : ℕ) (a : Stats) (runs : List (ℕ × Stats)) :
    itemsOf b ((n, a) :: runs) = itemOf b (ofPos b n) a :: itemsOf (ofPos b n) runs := rfl

theorem itemsOf_append (b : Uint32) (xs ys : List (ℕ × Stats)) :
    itemsOf b (xs ++ ys) = itemsOf b xs ++ itemsOf (ofPos b (length xs)) ys :=
  SerialRuns.records_append b xs ys

/-- The items up to a place in the middle of the list. -/
theorem span_itemsOf (hruns : runs = xs ++ (n, a) :: ys) (hlen : length runs < 2 ^ 31)
    (hk : length xs ≤ k) (hkn : k < length xs + n) :
    (itemsOf b runs).takeWhile (fun i => seqLE i.end (ofPos b k)) = itemsOf b xs ∧
      (itemsOf b runs).dropWhile (fun i => seqLE i.end (ofPos b k)) =
        itemsOf (ofPos b (length xs)) ((n, a) :: ys) :=
  SerialRuns.span (by decide) (fun _ _ _ => rfl) hruns hlen hk hkn

theorem touch_itemOf (beg «end» : Uint32) (stats : Stats) (sentTime : SimTime) :
    (itemOf beg «end» stats).touch sentTime = itemOf beg «end» (stats.touch sentTime) := by
  have hfirst : ∀ x y : ℤ, (if x > y then y else x) = min x y := by
    intro x y
    split_ifs <;> omega
  have hlast : ∀ x y : ℤ, (if x < y then y else x) = max x y := by
    intro x y
    split_ifs <;> omega
  simp only [itemOf, Stats.touch, ← hfirst, ← hlast]
  rfl

theorem seqLE_base (hk : k < 2 ^ 31) (hn : n < 2 ^ 31) :
    seqLE (ofPos b n) (ofPos b k) = decide (n ≤ k) :=
  seqLE_ofPos (near_of_lt hn hk)

theorem base_ne_iff (hk : k < 2 ^ 31) : b ≠ ofPos b k ↔ k ≠ 0 := by
  have := @ofPos_eq_iff b 0 k (near_of_lt (by decide) hk)
  rw [ofPos_zero] at this
  rw [not_iff_not, this]
  exact eq_comm

/-- The loop of `set` and what follows it touch the first `k` sequence numbers. -/
theorem touchLoop_spec (hlen : length runs < 2 ^ 31) (hk : k < 2 ^ 31) :
    ∃ touched beg rest rest', touchLoop sentTime (ofPos b k) b (itemsOf b runs) =
        .ok (touched, beg, rest) ∧
      sendRest sentTime beg (ofPos b k) rest = .ok rest' ∧
      touched ++ rest' =
        itemsOf b (markTo (Stats.touch sentTime) (Stats.once sentTime) k runs) := by
  induction runs generalizing b k with
  | nil =>
    refine ⟨[], b, [], itemsOf b (markTo (Stats.touch sentTime) (Stats.once sentTime) k []), rfl,
      ?_, rfl⟩
    rw [sendRest, markTo]
    by_cases hzero : k = 0
    · rw [if_pos hzero, if_neg (by simpa [base_ne_iff hk] using hzero)]
      rfl
    · rw [if_neg hzero, if_pos ((base_ne_iff hk).mpr hzero)]
      rfl
  | cons r runs ih =>
    obtain ⟨n, a⟩ := r
    rw [length_cons] at hlen
    simp only at hlen
    rw [markTo, itemsOf_cons, touchLoop]
    have hle : seqLE (itemOf b (ofPos b n) a).end (ofPos b k) = decide (n ≤ k) :=
      seqLE_base hk (by omega)
    rw [hle]
    by_cases hn : n ≤ k
    · -- the item is touched, and the loop goes on from its end
      rw [if_pos (decide_eq_true hn), if_pos hn]
      obtain ⟨touched, beg, rest, rest', hloop, hrest, happend⟩ :=
        @ih (ofPos b n) (k - n) (by omega) (by omega)
      rw [ofPos_ofPos, Nat.add_sub_cancel' hn] at hloop hrest
      refine ⟨itemOf b (ofPos b n) (a.touch sentTime) :: touched, beg, rest, rest', ?_, hrest, ?_⟩
      · have hend : (itemOf b (ofPos b n) a).end = ofPos b n := rfl
        rw [assert_of (by simp [itemOf]), ok_bind, hend, hloop, ok_bind, touch_itemOf]
      · rw [itemsOf_cons, List.cons_append, happend]
    · rw [if_neg (by simpa using hn), if_neg hn]
      by_cases hzero : k = 0
      · rw [if_pos hzero]
        refine ⟨[], b, _, itemsOf b ((n, a) :: runs), rfl, ?_, rfl⟩
        rw [sendRest, if_neg (by simpa [base_ne_iff hk] using hzero)]
        rfl
      · rw [if_neg hzero]
        refine ⟨[], b, _, itemsOf b ((k, a.touch sentTime) :: (n - k, a) :: runs), rfl, ?_, rfl⟩
        have hcut : k + (n - k) = n := by omega
        rw [sendRest, if_pos ((base_ne_iff hk).mpr hzero), itemsOf_cons, itemsOf_cons,
          ofPos_ofPos, hcut]
        simp only [itemOf, beq_self_eq_true, assert_true, ok_bind]
        rfl

/-- `set` inside of the regions touches `[o, e)`. -/
theorem setInside_spec (hruns : Proper runs) (hlen : length runs < 2 ^ 31)
    (ho : o < length runs) (hoe : o < e) (he : e < 2 ^ 31) :
    ∃ runs', setInside (itemsOf b runs) (ofPos b o) (ofPos b e) sentTime =
        .ok (itemsOf b runs') ∧ Proper runs' ∧
      length runs' = max e (length runs) ∧
      ∀ p, (expand runs')[p]? = if o ≤ p ∧ p < e
        then some ((expand runs)[p]?.elim (Stats.once sentTime) (Stats.touch sentTime))
        else (expand runs)[p]? := by
  obtain ⟨xs, n, a, ys, heq, hle, hlt⟩ := exists_cut ho
  obtain ⟨htake, hdrop⟩ := @span_itemsOf b _ _ _ _ _ _ heq hlen hle hlt
  have hsum : length runs = length xs + (n + length ys) := by
    rw [heq, length_append, length_cons]
  have hexpand : expand (cutBefore xs a o) ++
      expand ((n - (o - length xs), a) :: ys) = expand runs :=
    heq ▸ RunLength.expand_cutBefore hle hlt
  -- the runs on both sides of `o`
  obtain ⟨zs, hzs⟩ : ∃ zs, zs = cutBefore xs a o := ⟨_, rfl⟩
  obtain ⟨ws, hws⟩ : ∃ ws, ws = (n - (o - length xs), a) :: ys := ⟨_, rfl⟩
  have hzs_len : length zs = o := hzs ▸ RunLength.length_cutBefore hle
  have hws_len : length ws = length runs - o := by
    rw [hws, length_cons]
    simp only
    omega
  have hzs_proper : Proper zs := hzs ▸ (heq ▸ hruns).left.cutBefore hle
  have hws_proper : Proper ws :=
    hws ▸ (heq ▸ hruns).right.tail.cons (by simp only; omega)
  rw [← hzs, ← hws] at hexpand
  obtain ⟨touched, beg, rest, rest', hloop, hrest, happend⟩ :=
    @touchLoop_spec (ofPos b o) ws (e - o) sentTime (by omega) (by omega)
  rw [ofPos_ofPos, Nat.add_sub_cancel' (by omega)] at hloop hrest
  refine ⟨zs ++ markTo (Stats.touch sentTime) (Stats.once sentTime) (e - o) ws, ?_,
    hzs_proper.append hws_proper.markTo, ?_, fun p => ?_⟩
  · have hbeg : seqLE (ofPos b (length xs)) (ofPos b o) = true := by
      rw [seqLE_base (by omega) (by omega)]
      exact decide_eq_true hle
    have hitems : itemsOf (ofPos b o) ws =
        ⟨ofPos b o, ofPos b (length xs + n), a.firstSentTime, a.lastSentTime,
          a.transmitCount⟩ :: itemsOf (ofPos b (length xs + n)) ys := by
      have hend : o + (n - (o - length xs)) = length xs + n := by omega
      rw [hws, itemsOf_cons, ofPos_ofPos, hend]
      rfl
    rw [hitems] at hloop
    have hne : ofPos b o ≠ ofPos b (length xs) ↔ o ≠ length xs :=
      not_congr (ofPos_eq_iff (near_of_lt (by omega) (by omega)))
    have hbefore : (if ofPos b o ≠ ofPos b (length xs) then itemsOf b xs ++
        [⟨ofPos b (length xs), ofPos b o, a.firstSentTime, a.lastSentTime,
          a.transmitCount⟩] else itemsOf b xs) = itemsOf b zs := by
      rw [hzs, cutBefore]
      by_cases h : o = length xs
      · rw [if_neg (by simpa [hne] using h), if_pos h]
      · have hmid : length xs + (o - length xs) = o := by omega
        rw [if_pos (hne.mpr h), if_neg h, itemsOf_append, itemsOf_cons, ofPos_ofPos, hmid]
        rfl
    simp only [setInside, htake, hdrop, itemsOf_cons, ofPos_ofPos, itemOf]
    rw [hbeg, assert_true, ok_bind]
    simp only [hbefore, hloop, ok_bind, hrest]
    rw [itemsOf_append, hzs_len, List.append_assoc, happend]
  · rw [length_append, RunLength.length_markTo, hzs_len, hws_len]
    omega
  · rw [expand_append, ← hexpand, List.getElem?_append, List.getElem?_append,
      length_expand, hzs_len, RunLength.getElem?_expand_markTo]
    split_ifs <;> first | rfl | omega

/-- The item that `get` finds. -/
theorem find_itemsOf (hlen : length runs < 2 ^ 31) (hp : p < 2 ^ 32) :
    (find (itemsOf b runs) (ofPos b p)).map Item.stats = (expand runs)[p]? := by
  induction runs generalizing b p with
  | nil => rfl
  | cons r runs ih =>
    obtain ⟨n, a⟩ := r
    rw [length_cons] at hlen
    simp only at hlen
    have hend : (itemOf b (ofPos b n) a).end = ofPos b n := rfl
    have hbeg : (itemOf b (ofPos b n) a).beg = b := rfl
    rw [itemsOf_cons, find, hbeg, hend, expand_cons, List.getElem?_append,
      List.length_replicate, List.getElem?_replicate]
    have hless : p < 2 ^ 31 → seqLess (ofPos b p) b = false := by
      intro hp
      have := @seqLess_ofPos b p 0 (near_of_lt hp (by omega))
      rw [ofPos_zero] at this
      rw [this]
      exact decide_eq_false (Nat.not_lt_zero p)
    have hfrom : seqLE b (ofPos b p) = decide (p < 2 ^ 31) := by
      rw [seqLE, SerialNumber.toNat_ofPos_sub_base hp]
    have hbefore : p < 2 ^ 31 → seqLess (ofPos b p) (ofPos b n) = decide (p < n) :=
      fun hp => seqLess_ofPos (near_of_lt hp (by omega))
    obtain hlt | hge := Nat.lt_or_ge p n
    · rw [hless (by omega), hfrom, hbefore (by omega), if_pos hlt, if_pos hlt,
        decide_eq_true (show p < 2 ^ 31 by omega), decide_eq_true hlt]
      rfl
    · have hskip : (seqLE b (ofPos b p) && seqLess (ofPos b p) (ofPos b n)) = false := by
        rw [hfrom]
        by_cases hnear : p < 2 ^ 31
        · rw [hbefore hnear, decide_eq_false (show ¬p < n by omega), Bool.and_false]
        · rw [decide_eq_false hnear, Bool.false_and]
      have hrest : ofPos b p = ofPos (ofPos b n) (p - n) := by
        rw [ofPos_ofPos, Nat.add_sub_cancel' hge]
      rw [hskip, if_neg (show ¬p < n by omega), if_neg (show ¬false = true by simp)]
      by_cases hbreak : seqLess (ofPos b p) b = true
      · -- so far away that `seq` counts as before the item
        have hfar : ¬p < 2 ^ 31 := fun hp => by simp [hless hp] at hbreak
        rw [if_pos hbreak, List.getElem?_eq_none]
        · rfl
        · rw [length_expand]
          omega
      · rw [if_neg hbreak, hrest]
        exact ih (by omega) (by omega)

/-- The items are sorted, contiguous and non-empty. -/
structure Tiled (regions : List Item) : Prop where
  nonempty : ∀ i ∈ regions, seqLess i.beg i.end = true
  contiguous : regions.IsChain fun i j => i.end = j.beg
  sorted : regions.Pairwise fun i j => seqLE i.end j.beg = true

theorem tiled_itemsOf (hruns : Proper runs) (hlen : length runs < 2 ^ 31) :
    Tiled (itemsOf b runs) := by
  induction runs generalizing b with
  | nil => exact ⟨by simp [itemsOf, SerialRuns.records], List.IsChain.nil, List.Pairwise.nil⟩
  | cons r runs ih =>
    obtain ⟨n, a⟩ := r
    have hn := hruns.head
    rw [length_cons] at hlen
    simp only at hn hlen
    obtain ⟨hnonempty, hcontiguous, hsorted⟩ := @ih (ofPos b n) hruns.tail (by omega)
    have hless := @seqLess_ofPos b 0 n (near_of_lt (by decide) (by omega))
    rw [ofPos_zero, decide_eq_true hn] at hless
    rw [itemsOf_cons]
    refine ⟨List.forall_mem_cons.mpr ⟨hless, hnonempty⟩, ?_,
      List.Pairwise.cons (fun i hi => ?_) hsorted⟩
    · cases runs with
      | nil => exact List.IsChain.singleton _
      | cons r runs => exact List.IsChain.cons_cons rfl hcontiguous
    · obtain ⟨p, m, a', -, hle, rfl⟩ := SerialRuns.exists_of_mem_records hi
      have hbeg := @seqLE_base (ofPos b n) 0 p (by omega) (by decide)
      rw [ofPos_zero, decide_eq_true (Nat.zero_le p)] at hbeg
      exact hbeg

variable {list : TCPSegmentTransmitInfoList} {log : SentLog}

/-- The list stands for the log: its items are runs of equal data, and `log` gives the data of
every sequence number. -/
def Represents (list : TCPSegmentTransmitInfoList) (log : SentLog) : Prop :=
  ∃ b runs, list.regions = itemsOf b runs ∧ RunLength.Proper runs ∧ RunLength.length runs < 2 ^ 31 ∧
    ∀ seq, Stats.ofTimes (log seq) = (expand runs)[(seq - b).toNat]?

theorem Represents.empty : Represents {} fun _ => [] :=
  ⟨0, [], rfl, by simp [Proper], by decide, fun _ => rfl⟩

theorem Represents.tiled (h : Represents list log) : Tiled list.regions := by
  obtain ⟨b, runs, hregions, hproper, hlen, -⟩ := h
  rw [hregions]
  exact tiled_itemsOf hproper hlen

theorem Represents.get (h : Represents list log) (seq : Uint32) :
    (list.get seq).map Item.stats = Stats.ofTimes (log seq) := by
  obtain ⟨b, runs, hregions, -, hlen, hlog⟩ := h
  have := @find_itemsOf b runs (seq - b).toNat hlen (seq - b).isLt
  rw [ofPos_toNat_sub] at this
  rw [TCPSegmentTransmitInfoList.get, hregions, hlog, this]

theorem frontBeg_of {r : ℕ × Stats} (h : list.regions = itemsOf b (r :: runs)) :
    list.frontBeg = some b := by
  rw [frontBeg, h]
  rfl

theorem backEnd_of {r : ℕ × Stats} (h : list.regions = itemsOf b (r :: runs)) :
    list.backEnd = some (ofPos b (length (r :: runs))) := by
  have hend : ∀ beg e stats, (itemOf beg e stats).end = e := fun _ _ _ => rfl
  have hlast := SerialRuns.lastEnd_records hend b (r :: runs)
  rw [backEnd, h, itemsOf]
  cases hback : (SerialRuns.records itemOf b (r :: runs)).getLast? with
  | none => simp [SerialRuns.records] at hback
  | some i =>
    rw [hback] at hlast
    rw [← hlast]
    rfl

/-- What `set` adds to the log at one place. -/
theorem ofTimes_set {seq : Uint32} {o e : ℕ} (hoe : o < e) (he : e < 2 ^ 31) (log : SentLog)
    (sentTime : SimTime) :
    Stats.ofTimes (log.set (ofPos b o) (ofPos b e) sentTime seq) =
      if o ≤ (seq - b).toNat ∧ (seq - b).toNat < e
      then some ((Stats.ofTimes (log seq)).elim (Stats.once sentTime) (Stats.touch sentTime))
      else Stats.ofTimes (log seq) := by
  obtain ⟨p, hlt, hp, hseq⟩ := exists_ofPos b seq
  have hway : (ofPos b e - ofPos b o).toNat = e - o :=
    toNat_ofPos_sub (Nat.le_of_lt hoe) (by omega)
  have hcovers : (seq - ofPos b o).toNat < (ofPos b e - ofPos b o).toNat ↔ o ≤ p ∧ p < e := by
    rw [hway, hseq]
    obtain hgt | hle := Nat.lt_or_ge p o
    · rw [toNat_ofPos_sub_of_lt hgt (by omega)]
      omega
    · rw [toNat_ofPos_sub hle (by omega)]
      omega
  rw [SentLog.set, hp]
  simp only [hcovers]
  split_ifs <;> rfl

/-- New data behind the last run. -/
theorem getElem?_expand_append_once {o e : ℕ} (sentTime : SimTime)
    (ho : o = length runs) (hless : o < e) (p : ℕ) :
    (expand (runs ++ [(e - o, Stats.once sentTime)]))[p]? =
      if o ≤ p ∧ p < e then some ((expand runs)[p]?.elim (Stats.once sentTime)
        (Stats.touch sentTime)) else (expand runs)[p]? := by
  rw [expand_append, List.getElem?_append, length_expand, ← ho]
  by_cases hp : p < o
  · rw [if_pos hp, if_neg (by omega)]
  · have hnone : (expand runs)[p]? = none := by
      rw [List.getElem?_eq_none]
      rw [length_expand, ← ho]
      omega
    rw [if_neg hp, hnone]
    simp only [expand_cons, RunLength.expand_nil, List.append_nil,
      List.getElem?_replicate, Option.elim_none]
    split_ifs <;> first | rfl | omega

/-- The first data of an empty list. -/
theorem Represents.set_first {beg «end» : Uint32} {sentTime : SimTime}
    (hlog : ∀ seq, Stats.ofTimes (log seq) = none) (hless : seqLess beg «end» = true) :
    Represents { regions := [itemOf beg «end» (Stats.once sentTime)] }
      (log.set beg «end» sentTime) := by
  obtain ⟨e, -, he, hend⟩ := exists_ofPos beg «end»
  rw [seqLess, he, Bool.and_eq_true, decide_eq_true_eq, hend, bne_iff_ne] at hless
  obtain ⟨hne, he'⟩ := hless
  have hpos := Nat.pos_of_ne_zero ((base_ne_iff he').mp hne)
  refine ⟨beg, [(e, Stats.once sentTime)], ?_, ?_, by simpa using he', fun seq => ?_⟩
  · rw [hend]
    rfl
  · exact RunLength.Proper.cons hpos (by simp [Proper])
  · have hset := @ofTimes_set beg seq 0 e hpos he' log sentTime
    rw [ofPos_zero, ← hend, hlog] at hset
    rw [hset]
    simp [List.getElem?_replicate]

theorem Represents.set (h : Represents list log) {beg «end» : Uint32} {sentTime : SimTime}
    (asserted : list.Asserted (.set beg «end» sentTime))
    (within : list.Within (.set beg «end» sentTime)) :
    ∃ list', list.set beg «end» sentTime = .ok list' ∧
      Represents list' (log.set beg «end» sentTime) := by
  obtain ⟨b, runs, hregions, hproper, hlen, hlog⟩ := h
  obtain ⟨hless, hinside⟩ := asserted
  rw [TCPSegmentTransmitInfoList.set, assert_of hless, ok_bind, assert_of hinside, ok_bind]
  cases runs with
  | nil =>
    refine ⟨_, ?_, Represents.set_first (fun seq => ?_) hless⟩
    · rw [hregions]
      rfl
    · rw [hlog]
      rfl
  | cons r runs =>
    have hfront := frontBeg_of hregions
    have hback := backEnd_of hregions
    obtain ⟨L, hL⟩ : ∃ L, L = length (r :: runs) := ⟨_, rfl⟩
    have hr := hproper.head
    have hL_pos : 0 < L := by
      rw [hL, length_cons]
      omega
    rw [← hL] at hback hlen
    have hempty : list.regions.isEmpty = false := by
      rw [hregions]
      rfl
    rw [hempty, hfront, hback] at hinside
    simp only [Bool.false_or, Option.any_some, Bool.and_eq_true] at hinside
    simp only [Within, hfront, Option.all_some] at within
    -- the places of both ends
    obtain ⟨hbeg, ho⟩ := offset_le hlen hinside.1 hinside.2
    have hend := (ofPos_toNat_sub b «end»).symm
    have he : («end» - b).toNat < 2 ^ 31 := by simpa [seqLE] using within
    obtain ⟨o, ho_eq⟩ : ∃ o, o = (beg - b).toNat := ⟨_, rfl⟩
    obtain ⟨e, he_eq⟩ : ∃ e, e = («end» - b).toNat := ⟨_, rfl⟩
    rw [← ho_eq] at hbeg ho
    rw [← he_eq] at hend he
    rw [hbeg, hend, seqLess_ofPos (near_of_lt (by omega) he), decide_eq_true_eq] at hless
    rw [hbeg, hend, hempty, hfront, hback]
    have hset : ∀ seq, Stats.ofTimes (log.set (ofPos b o) (ofPos b e) sentTime seq) =
        if o ≤ (seq - b).toNat ∧ (seq - b).toNat < e
        then some ((expand (r :: runs))[(seq - b).toNat]?.elim (Stats.once sentTime)
          (Stats.touch sentTime))
        else (expand (r :: runs))[(seq - b).toNat]? := by
      intro seq
      rw [ofTimes_set hless he, hlog]
    by_cases hlast : o = L
    · -- the segment follows the last item
      have hexpand := getElem?_expand_append_once sentTime (hlast.trans hL) hless
      refine ⟨{ regions := itemsOf b (r :: runs ++ [(e - o, Stats.once sentTime)]) }, ?_, b,
        _, rfl, ?_, ?_, fun seq => (hset seq).trans (hexpand _).symm⟩
      · have hback' : (some (ofPos b L) == some (ofPos b o)) = true := by simp [hlast]
        rw [hback', Bool.false_or, if_pos rfl, hregions, itemsOf_append, ← hL, ← hlast,
          itemsOf_cons (ofPos b o), ofPos_ofPos,
          Nat.add_sub_cancel' (Nat.le_of_lt hless)]
        rfl
      · exact hproper.append (RunLength.Proper.cons (by simp only; omega)
          (by simp [Proper]))
      · rw [length_append, ← hL, length_cons, RunLength.length_nil]
        simp only
        omega
    · obtain ⟨runs', hinside', hproper', hlen', hexpand⟩ := @setInside_spec b (r :: runs) o e
        sentTime hproper (hL ▸ hlen) (by omega) hless he
      refine ⟨{ regions := itemsOf b runs' }, ?_, b, runs', rfl, hproper', by omega,
        fun seq => (hset seq).trans (hexpand _).symm⟩
      have hback' : (some (ofPos b L) == some (ofPos b o)) = false := by
        have := (ofPos_eq_iff (s := b) (near_of_lt hlen (show o < 2 ^ 31 by omega))).not.mpr
          (Ne.symm hlast)
        simpa using this
      have hfront' : (some b == some (ofPos b e)) = false := by
        simpa using (base_ne_iff he).mpr (by omega)
      rw [hback', hfront', hregions, hinside']
      rfl

/-- What `clearTo` leaves in the log at one place. -/
theorem ofTimes_clearTo {seq : Uint32} {k : ℕ} (hk : k < 2 ^ 31) (hlen : length runs < 2 ^ 31)
    (hlog : ∀ seq, Stats.ofTimes (log seq) = (expand runs)[(seq - b).toNat]?) :
    Stats.ofTimes (log.clearTo (ofPos b k) seq) =
      if (seq - b).toNat < k then none else (expand runs)[(seq - b).toNat]? := by
  obtain ⟨p, hp_lt, hp, hseq⟩ := exists_ofPos b seq
  have hlog := hlog seq
  rw [hp] at hlog ⊢
  rw [SentLog.clearTo]
  obtain hnear | hfar := Nat.lt_or_ge p (2 ^ 31)
  · have hless : seqLess seq (ofPos b k) = decide (p < k) := by
      rw [hseq, seqLess_ofPos (near_of_lt hnear hk)]
    rw [hless]
    by_cases hpk : p < k
    · rw [if_pos (decide_eq_true hpk), if_pos hpk]
      rfl
    · rw [if_neg (by simpa using hpk), if_neg hpk, hlog]
  · have hnone : (expand runs)[p]? = none := by
      rw [List.getElem?_eq_none]
      rw [length_expand]
      omega
    rw [hnone, Stats.ofTimes_eq_none_iff] at hlog
    rw [if_neg (show ¬p < k by omega), hnone, hlog, ite_self]
    rfl

/-- `clearTo` of a place inside of an item cuts the item there. -/
theorem clearTo_cut {k n : ℕ} {a : Stats} {xs ys : List (ℕ × Stats)}
    (hregions : list.regions = itemsOf b runs) (heq : runs = xs ++ (n, a) :: ys)
    (hlen : length runs < 2 ^ 31) (hle : length xs ≤ k)
    (hkn : k < length xs + n) (hk : k < 2 ^ 31) :
    list.clearTo (ofPos b k) =
      { regions := itemsOf (ofPos b k) ((n - (k - length xs), a) :: ys) } := by
  have hless := @seqLess_ofPos b (length xs) k (near_of_lt (by omega) hk)
  have hcut : k + (n - (k - length xs)) = length xs + n := by omega
  rw [TCPSegmentTransmitInfoList.clearTo, hregions, (span_itemsOf heq hlen hle hkn).2,
    itemsOf_cons, itemsOf_cons, ofPos_ofPos, ofPos_ofPos, hcut]
  simp only [itemOf, hless, decide_eq_true_eq]
  split_ifs with h
  · rfl
  · rw [show length xs = k by omega]

/-- `clearTo` of a place that counts as before the items. -/
theorem clearTo_before {k : ℕ} (hregions : list.regions = itemsOf b runs)
    (hlen : length runs < 2 ^ 31) (hfar : 2 ^ 31 ≤ k) (hk : k < 2 ^ 32)
    (within : list.Within (.clearTo (ofPos b k))) :
    list.clearTo (ofPos b k) = list ∧
      ∀ seq, (seq - b).toNat < length runs → seqLess seq (ofPos b k) = false := by
  have hbeg : seqLE b (ofPos b k) = false := by
    rw [seqLE, SerialNumber.toNat_ofPos_sub_base hk]
    exact decide_eq_false (by omega)
  cases runs with
  | nil =>
    refine ⟨?_, fun seq hseq => absurd hseq (Nat.not_lt_zero _)⟩
    obtain ⟨regions⟩ := list
    subst hregions
    rfl
  | cons r runs =>
    obtain ⟨L, hL⟩ : ∃ L, L = length (r :: runs) := ⟨_, rfl⟩
    have hr : r.1 ≤ L := by
      rw [hL, length_cons]
      omega
    simp only [Within, frontBeg_of hregions, backEnd_of hregions, Option.all_some, hbeg,
      Bool.false_eq_true, false_or, ← hL] at within
    rw [← hL] at hlen
    have hback : k > L + 2 ^ 31 := by
      rw [seqLE, toNat_ofPos_sub_of_lt (by omega) (by omega), decide_eq_true_eq] at within
      omega
    -- a place before the end of the last item is behind `endseq`
    have hbehind : ∀ p, p ≤ L → seqLE (ofPos b p) (ofPos b k) = false := by
      intro p hp
      rw [seqLE, toNat_ofPos_sub (by omega) (by omega)]
      exact decide_eq_false (by omega)
    constructor
    · have hdrop : (itemsOf b (r :: runs)).dropWhile (fun i => seqLE i.end (ofPos b k)) =
          itemsOf b (r :: runs) := by
        obtain ⟨n, a⟩ := r
        have hfirst : seqLE (itemOf b (ofPos b n) a).end (ofPos b k) = false := hbehind n hr
        rw [itemsOf_cons, List.dropWhile_cons_of_neg]
        simp [hfirst]
      have hless : seqLess b (ofPos b k) = false := by
        have : seqLess b (ofPos b k) = (b != ofPos b k && seqLE b (ofPos b k)) := rfl
        rw [this, hbeg, Bool.and_false]
      obtain ⟨regions⟩ := list
      subst hregions
      rw [TCPSegmentTransmitInfoList.clearTo, hdrop]
      obtain ⟨n, a⟩ := r
      simp only [itemsOf_cons, itemOf, hless, Bool.false_eq_true, if_false]
    · intro seq hseq
      have := hbehind (seq - b).toNat (by omega)
      rw [ofPos_toNat_sub] at this
      have hless : seqLess seq (ofPos b k) = (seq != ofPos b k && seqLE seq (ofPos b k)) := rfl
      rw [hless, this, Bool.and_false]

theorem Represents.clearTo (h : Represents list log) {endseq : Uint32}
    (within : list.Within (.clearTo endseq)) :
    Represents (list.clearTo endseq) (log.clearTo endseq) := by
  obtain ⟨b, runs, hregions, hproper, hlen, hlog⟩ := h
  obtain ⟨k, hk_lt, -, hend⟩ := exists_ofPos b endseq
  rw [hend] at within ⊢
  obtain hnear | hfar := Nat.lt_or_ge k (2 ^ 31)
  · obtain hlt | hge := Nat.lt_or_ge k (length runs)
    · -- the run that contains `endseq` is cut there
      obtain ⟨xs, n, a, ys, heq, hle, hkn⟩ := exists_cut hlt
      have hsum : length runs = length xs + (n + length ys) := by
        rw [heq, length_append, length_cons]
      rw [clearTo_cut hregions heq hlen hle hkn hnear]
      refine ⟨ofPos b k, _, rfl, (heq ▸ hproper).right.tail.cons (by simp only; omega), ?_,
        fun seq => ?_⟩
      · rw [length_cons]
        simp only
        omega
      · have hexpand := @RunLength.expand_cutBehind _ xs ys k n a hle hkn
        rw [← heq] at hexpand
        obtain ⟨p, hp_lt, hp, hseq⟩ := exists_ofPos b seq
        rw [ofTimes_clearTo hnear hlen hlog, hexpand, List.getElem?_drop, hp, hseq]
        by_cases hpk : p < k
        · rw [if_pos hpk, toNat_ofPos_sub_of_lt hpk (by omega), List.getElem?_eq_none]
          rw [length_expand]
          omega
        · rw [if_neg hpk, toNat_ofPos_sub (by omega) (by omega), Nat.add_sub_cancel' (by omega)]
    · have hclear : list.clearTo (ofPos b k) = {} := by
        have hdrop : (itemsOf b runs).dropWhile (fun i => seqLE i.end (ofPos b k)) = [] :=
          (SerialRuns.span_all (by decide) (fun _ _ _ => rfl) hge hnear).2
        rw [TCPSegmentTransmitInfoList.clearTo, hregions, hdrop]
      rw [hclear]
      refine ⟨b, [], rfl, by simp [Proper], by decide, fun seq => ?_⟩
      rw [ofTimes_clearTo hnear hlen hlog]
      split_ifs with hp
      · rfl
      · rw [List.getElem?_eq_none]
        · rfl
        · rw [length_expand]
          omega
  · -- `endseq` is before the first item, so that nothing is cleared
    obtain ⟨hclear, hbefore⟩ := clearTo_before hregions hlen hfar hk_lt within
    rw [hclear]
    refine ⟨b, runs, hregions, hproper, hlen, fun seq => ?_⟩
    rw [SentLog.clearTo]
    by_cases hp : (seq - b).toNat < length runs
    · rw [hbefore seq hp, ← hlog]
      rfl
    · have hnone : (expand runs)[(seq - b).toNat]? = none := by
        rw [List.getElem?_eq_none]
        rw [length_expand]
        omega
      have hempty := hlog seq
      rw [hnone, Stats.ofTimes_eq_none_iff] at hempty
      rw [hnone, hempty, ite_self]
      rfl

end

/-- The list refines the log of the transmissions of each sequence number. No call fails, the
items are sorted, contiguous and non-empty after each, and `get` gives the first time, the last
time and the number of the transmissions, or nothing if there are none. -/
theorem refines_log (calls : List Call)
    (allowed : Run.Admissible step (fun list call => list.Asserted call ∧ list.Within call) {}
      calls) :
    Run.Always step (fun list => Tiled list.regions) {} calls ∧
      ∃ list, Run.exec step {} calls = .ok list ∧ ∀ seq,
        (list.get seq = none ↔ SentLog.after calls seq = []) ∧
        ∀ i, list.get seq = some i → (SentLog.after calls seq).min? = some i.firstSentTime ∧
            (SentLog.after calls seq).max? = some i.lastSentTime ∧
            (SentLog.after calls seq).length = i.transmitCount := by
  have hstep : ∀ list log call, Represents list log → list.Asserted call ∧ list.Within call →
      ∃ list', step list call = .ok list' ∧ Represents list' (log.step call) := by
    intro list log call h hallowed
    cases call with
    | set beg «end» sentTime => exact h.set hallowed.1 hallowed.2
    | clearTo endseq => exact ⟨_, rfl, h.clearTo hallowed.2⟩
  constructor
  · refine Run.Always.mono (fun list h => ?_)
      (Run.always_of_step (P := fun list => ∃ log, Represents list log) ?_
        ⟨_, Represents.empty⟩ allowed)
    · obtain ⟨log, hrep⟩ := h
      exact hrep.tiled
    · rintro list call ⟨log, hrep⟩ hallowed
      obtain ⟨list', hset, hrep'⟩ := hstep list log call hrep hallowed
      exact ⟨list', hset, _, hrep'⟩
  · obtain ⟨list, hexec, hrep⟩ := Run.simulates hstep Represents.empty allowed
    refine ⟨list, hexec, fun seq => ⟨?_, fun i hi => ?_⟩⟩
    · have hget := hrep.get seq
      rw [← Option.map_eq_none_iff (f := Item.stats), hget, Stats.ofTimes_eq_none_iff]
      rfl
    · have hget := hrep.get seq
      rw [hi] at hget
      exact Stats.of_ofTimes hget.symm

/-- Three segments across the wrap, a retransmission that begins in the first and runs past the
last of them, and an acknowledgment. -/
theorem get_across_wrap :
    ∃ list, Run.exec step {} [.set (-4#32) (-1#32) 1, .set (-1#32) 2#32 2, .set (-2#32) 5#32 7,
        .clearTo (-3#32)] = .ok list ∧ list.get (-4#32) = none ∧
      ∃ i, list.get 0#32 = some i ∧ i.firstSentTime = 2 ∧ i.lastSentTime = 7 ∧
        i.transmitCount = 2 := by
  obtain ⟨list, hexec, hget⟩ := (refines_log [.set (-4#32) (-1#32) 1, .set (-1#32) 2#32 2,
    .set (-2#32) 5#32 7, .clearTo (-3#32)] (by decide)).2
  have hlog : SentLog.after [.set (-4#32) (-1#32) 1, .set (-1#32) 2#32 2, .set (-2#32) 5#32 7,
      .clearTo (-3#32)] 0#32 = [7, 2] := by decide
  obtain ⟨hnone, hstats⟩ := hget 0#32
  rw [hlog] at hnone hstats
  obtain ⟨i, hi⟩ := Option.ne_none_iff_exists'.mp fun h => List.cons_ne_nil _ _ (hnone.mp h)
  obtain ⟨hmin, hmax, hcount⟩ := hstats i hi
  refine ⟨list, hexec, (hget _).1.mpr (by decide), i, hi, ?_, ?_, hcount.symm⟩
  · exact Option.some.inj (hmin.symm.trans (by decide))
  · exact Option.some.inj (hmax.symm.trans (by decide))

/-- Two segments of almost half of the sequence space each. The second begins at the end of the
first, as `set` asserts, but a byte of it is so far from the first item that it counts as before
the item: it has been sent, and `get` does not find it. -/
theorem get_ne_log_of_half : ∃ list, Run.Admissible step Asserted {}
        [.set 0#32 0x7fffffff#32 1, .set 0x7fffffff#32 0xfffffffe#32 2] ∧
      Run.exec step {} [.set 0#32 0x7fffffff#32 1, .set 0x7fffffff#32 0xfffffffe#32 2] = .ok list ∧
      SentLog.after [.set 0#32 0x7fffffff#32 1, .set 0x7fffffff#32 0xfffffffe#32 2]
        0x80000010#32 = [2] ∧
      list.get 0x80000010#32 = none := by
  refine ⟨_, by decide, rfl, by decide, by decide⟩

end TCPSegmentTransmitInfoList

end Inet.Tcp
