import Inet.Tcp.AddSacks
import Inet.Tcp.RcvRegions

/-!
# The blocks of a SACK option

What `addSacks` writes, for a receive queue with the invariant of `Layout`. `RightItems` says what
the items of an option are: behind a D-SACK they are regions of the queue above `rcv_nxt`, no two
of which overlap, and the first one contains the segment. What `sacks_array` remembers is old, or
a region of the queue from before the segment was stored (`Remembers`); the second loop deletes
those that the new block has taken in (`adds_sack`).
-/

namespace Inet.Tcp

open SerialNumber (ofPos Near)
open List (Forall₂)

variable {μ : Type}

namespace SackConnection

open List

section Loops

variable {rcvNxt : Uint32} {sacks : List Sack}

/-- The assertion holds if every block that is not old begins at `rcv_nxt` or behind. -/
theorem deleteOld_eq
    (h : ∀ b ∈ sacks, seqLE b.end rcvNxt = true ∨ b.empty = false ∧ seqGE b.start rcvNxt = true) :
    deleteOld rcvNxt sacks = .ok (sacks.filter fun b => !seqLE b.end rcvNxt) := by
  induction sacks with
  | nil => rfl
  | cons b sacks ih =>
    obtain ⟨hb, hsacks⟩ := forall_mem_cons.mp h
    rw [deleteOld]
    by_cases hold : seqLE b.end rcvNxt = true
    · rw [hold, Bool.true_or, if_pos rfl, ih hsacks, filter_cons_of_neg (by simp [hold])]
    · obtain ⟨hempty, hge⟩ := hb.resolve_left hold
      rw [Bool.eq_false_of_not_eq_true hold, hempty, Bool.or_false, if_neg Bool.false_ne_true,
        assert_of hge, ok_bind, ih hsacks, ok_bind,
        filter_cons_of_pos (by simp [hold])]

theorem deleteContained_ok {deleted : Sack → Bool} (h : ∀ b ∈ sacks, b.empty = false) :
    ∃ kept, deleteContained deleted sacks = .ok kept ∧ kept.Sublist sacks ∧
      ∀ b ∈ kept, deleted b = false := by
  induction sacks generalizing deleted with
  | nil => exact ⟨[], rfl, .slnil, fun _ hb => by cases hb⟩
  | cons b sacks ih =>
    obtain ⟨hb, hsacks⟩ := forall_mem_cons.mp h
    rw [deleteContained]
    by_cases hdeleted : deleted b = true
    · obtain ⟨kept, hloop, hsub, hkept⟩ := ih hsacks
      rw [if_pos hdeleted]
      exact ⟨kept, hloop, hsub.cons b, hkept⟩
    · obtain ⟨kept, hloop, hsub, hkept⟩ :=
        @ih (fun b2 => deleted b2 || b.contains b2) hsacks
      rw [if_neg hdeleted, hb, assert_of (by decide), ok_bind, hloop, ok_bind]
      refine ⟨b :: kept, rfl, hsub.cons_cons b, forall_mem_cons.mpr ⟨?_, fun a ha => ?_⟩⟩
      · exact Bool.eq_false_of_not_eq_true hdeleted
      · exact (Bool.or_eq_false_iff.mp (hkept a ha)).1

/-- The first block stays, and no other that it contains. -/
theorem deleteContained_cons {b : Sack} (hb : b.empty = false) (h : ∀ b ∈ sacks, b.empty = false) :
    ∃ kept, deleteContained (fun _ => false) (b :: sacks) = .ok (b :: kept) ∧
      kept.Sublist sacks ∧ ∀ a ∈ kept, b.contains a = false := by
  obtain ⟨kept, hloop, hsub, hkept⟩ :=
    @deleteContained_ok sacks (fun b2 => false || b.contains b2) h
  refine ⟨kept, ?_, hsub, fun a ha => (Bool.or_eq_false_iff.mp (hkept a ha)).2⟩
  rw [deleteContained, if_neg Bool.false_ne_true, hb, assert_of (by decide), ok_bind, hloop,
    ok_bind]

end Loops

section Options

variable {options : List TCPOption} {sacks : List Sack}

theorem getHeaderOptionArrayLength_append (options more : List TCPOption) :
    getHeaderOptionArrayLength (options ++ more) =
      getHeaderOptionArrayLength options + getHeaderOptionArrayLength more := by
  simp [getHeaderOptionArrayLength]

theorem getHeaderOptionArrayLength_nops (k : ℕ) :
    getHeaderOptionArrayLength (List.replicate k .nop) = k := by
  simp [getHeaderOptionArrayLength, TCPOption.length]

/-- The padding is within what the number of blocks leaves. -/
theorem options_fit {used n : ℕ} (hused : used ≤ 30) (hn : n ≤ (40 - used - 2) / 8) :
    used + padding used + 8 * n + 2 ≤ 40 := by
  unfold padding
  omega

theorem writeOption_ok {n : ℕ} (hused : getHeaderOptionArrayLength options ≤ 30)
    (hne : ∀ b ∈ sacks, b.start ≠ b.end)
    (hn : n ≤ (40 - getHeaderOptionArrayLength options - 2) / 8) :
    ∃ k, writeOption options sacks n =
        .ok (options ++ (List.replicate k .nop ++ [.sack (sacks.take n)])) ∧
      getHeaderOptionArrayLength (options ++ (List.replicate k .nop ++ [.sack (sacks.take n)])) ≤
        40 := by
  have hfit := options_fit hused hn
  have hall : ((sacks.take n).all fun it => it.start != it.end) = true := by
    rw [all_eq_true]
    intro b hb
    exact bne_iff_ne.mpr (hne b (mem_of_mem_take hb))
  refine ⟨padding (getHeaderOptionArrayLength options), ?_, ?_⟩
  · have hmax : getHeaderOptionArrayLength options +
        padding (getHeaderOptionArrayLength options) + 8 * n + 2 ≤ TCP_OPTIONS_MAX_SIZE := hfit
    rw [writeOption, assert_of hall, ok_bind]
    dsimp only
    rw [assert_of (decide_eq_true hmax), ok_bind]
  · have hitems : (sacks.take n).length ≤ n := length_take_le n sacks
    rw [getHeaderOptionArrayLength_append, getHeaderOptionArrayLength_append,
      getHeaderOptionArrayLength_nops]
    simp only [getHeaderOptionArrayLength, map_cons, map_nil, sum_cons,
      sum_nil, TCPOption.length] at hfit ⊢
    omega

end Options

def Held (queue : TCPVirtualDataRcvQueue Region) (seq : Uint32) : Prop :=
  ∃ r ∈ queue.regionList, seqLE r.begin seq = true ∧ seqLess seq r.end = true

/-- A maximal contiguous range of the data that is held, above `rcv_nxt`. -/
structure IsBlock (conn : TCPConnection) (b : Sack) : Prop where
  held : ∃ r ∈ conn.receiveQueue.regionList, b = ⟨r.begin, r.end⟩
  before : ¬ Held conn.receiveQueue (b.start - 1)
  behind : ¬ Held conn.receiveQueue b.end
  above : seqLess conn.state.rcvNxt b.start = true

def Overlap (a b : Sack) : Prop := seqLess a.start b.end = true ∧ seqLess b.start a.end = true

/-- The blocks of an option behind a D-SACK. -/
def blocksOf (state : TCPStateVariables) (items : List Sack) : List Sack :=
  if state.sndDsack then items.tail else items

/-- The items of an option. The first one contains the segment; as a D-SACK it is the segment. -/
structure RightItems (conn : TCPConnection) (items : List Sack) : Prop where
  blocks : ∀ b ∈ blocksOf conn.state items, IsBlock conn b
  apart : (blocksOf conn.state items).Pairwise fun a b => ¬ Overlap a b
  first : ∃ b, items.head? = some b ∧
    if conn.state.sndDsack then b = ⟨conn.state.startSeqno, conn.state.endSeqno⟩
    else b.contains ⟨conn.state.startSeqno, conn.state.endSeqno⟩ = true

/-- The header has an option, which is right, if one of the flags is set for a segment with text. -/
def RightOptions (conn : TCPConnection) (options options' : List TCPOption) : Prop :=
  if conn.takesText && conn.state.sackEnabled && (conn.state.sndSack || conn.state.sndDsack) &&
      conn.state.startSeqno != conn.state.endSeqno then
    ∃ k items, options' = options ++ (List.replicate k .nop ++ [.sack items]) ∧
      RightItems conn items
  else options' = options

/-- No assertion fails, and the header is right. -/
def Sends (c : SackConnection) (options : List TCPOption) : Prop :=
  ∃ c' options', c.writeHeaderOptions options = .ok (c', options') ∧
    getHeaderOptionArrayLength options' ≤ TCP_OPTIONS_MAX_SIZE ∧
    RightOptions c.conn options options'

section Blocks

variable {s0 : Uint32} {queue : TCPVirtualDataRcvQueue Region} {is : List (ℕ × ℕ)}
  {first next x : ℕ} {i j : ℕ × ℕ} {conn : TCPConnection}

def blockAt (s0 : Uint32) (i : ℕ × ℕ) : Sack := ⟨ofPos s0 i.1, ofPos s0 i.2⟩

theorem held_iff (hq : Layout s0 (At s0) queue is first next) (hlow : first ≤ x)
    (hhigh : x < first + 2 ^ 31) : Held queue (ofPos s0 x) ↔ x ∈ Intervals.cover is := by
  have htest : ∀ {r : Region} {i}, i ∈ is → At s0 r i →
      (seqLE r.begin (ofPos s0 x) = true ∧ seqLess (ofPos s0 x) r.end = true ↔
        i.1 ≤ x ∧ x < i.2) := by
    intro r i hi hat
    have hwindow := hq.window i hi
    obtain ⟨hbegin, hend⟩ : r.begin = ofPos s0 i.1 ∧ r.end = ofPos s0 i.2 := hat
    rw [hbegin, hend, seqLE_ofPos (near_of_window hwindow.fst ⟨hlow, hhigh⟩),
      seqLess_ofPos (near_of_window ⟨hlow, hhigh⟩ hwindow.snd), decide_eq_true_eq,
      decide_eq_true_eq]
  constructor
  · rintro ⟨r, hr, hin⟩
    obtain ⟨i, hi, hat⟩ := hq.regions.exists_of_mem_left hr
    exact ⟨i, hi, (htest hi hat).mp hin⟩
  · rintro ⟨i, hi, hin⟩
    obtain ⟨r, hr, hat⟩ := hq.regions.exists_of_mem_right hi
    exact ⟨r, hr, (htest hi hat).mpr hin⟩

/-- A region behind `rcv_nxt` is a block. -/
theorem isBlock_of_mem (hq : Layout s0 (At s0) conn.receiveQueue is first next)
    (hnext : conn.state.rcvNxt = ofPos s0 next) (hi : i ∈ is) (habove : next < i.1) :
    IsBlock conn (blockAt s0 i) := by
  have hwindow := hq.window i hi
  have hproper := hq.proper i hi
  have hfirst := hq.next_window
  obtain ⟨hlow, hle, hhigh⟩ : first ≤ i.1 ∧ i.1 ≤ i.2 ∧ i.2 < first + 2 ^ 31 := id hwindow
  obtain ⟨y, hy⟩ : ∃ y, i.1 = y + 1 := ⟨i.1 - 1, by omega⟩
  refine ⟨?_, ?_, ?_, ?_⟩
  · obtain ⟨r, hr, hat⟩ := hq.regions.exists_of_mem_right hi
    obtain ⟨hbegin, hend⟩ : r.begin = ofPos s0 i.1 ∧ r.end = ofPos s0 i.2 := hat
    exact ⟨r, hr, by rw [hbegin, hend, blockAt]⟩
  · have hpred : ofPos s0 i.1 - 1 = ofPos s0 y := by
      rw [hy, SerialNumber.ofPos_add]
      grind
    rw [blockAt, hpred, held_iff hq (by omega) (by omega)]
    exact hq.ascending.pred_not_mem_cover hq.proper hi hy
  · rw [blockAt, held_iff hq (by omega) (by omega)]
    exact hq.ascending.end_not_mem_cover hq.proper hi
  · rw [blockAt, hnext, seqLess_ofPos (near_of_window hfirst hwindow.fst)]
    exact decide_eq_true habove

theorem not_overlap (hq : Layout s0 (At s0) queue is first next) (hi : i ∈ is) (hj : j ∈ is)
    (hne : blockAt s0 i ≠ blockAt s0 j) : ¬ Overlap (blockAt s0 i) (blockAt s0 j) := by
  rintro ⟨h₁, h₂⟩
  have hwi := hq.window i hi
  have hwj := hq.window j hj
  rw [blockAt, blockAt, seqLess_ofPos (near_of_window hwi.fst hwj.snd), decide_eq_true_eq] at h₁
  rw [blockAt, blockAt, seqLess_ofPos (near_of_window hwj.fst hwi.snd), decide_eq_true_eq] at h₂
  obtain rfl | hlt | hlt := hq.ascending.eq_or_lt hi hj
  · exact hne rfl
  · omega
  · omega

/-- On positions, a block contains another one if its interval does. -/
theorem contains_iff {a : ℕ} (hi : InWindow a i) (hj : InWindow a j) :
    (blockAt s0 i).contains (blockAt s0 j) = true ↔ i.1 ≤ j.1 ∧ j.2 ≤ i.2 := by
  rw [Sack.contains, blockAt, blockAt, seqLE_ofPos (near_of_window hi.fst hj.fst),
    seqLE_ofPos (near_of_window hj.snd hi.snd), Bool.and_eq_true, decide_eq_true_eq,
    decide_eq_true_eq]

theorem blockAt_start_ne {a : ℕ} (hi : InWindow a i) (hlt : i.1 < i.2) :
    (blockAt s0 i).start ≠ (blockAt s0 i).end := by
  intro h
  have := (ofPos_eq_iff (near_of_window hi.fst hi.snd)).mp h
  omega

theorem empty_of_start_ne {b : Sack} (h : b.start ≠ b.end) : b.empty = false := by
  by_contra hempty
  rw [Bool.not_eq_false, Sack.empty, Bool.and_eq_true, beq_iff_eq, beq_iff_eq] at hempty
  exact h (hempty.1.trans hempty.2.symm)

/-- `getLE` and `getRE` give the region that the segment has become part of. -/
theorem newSack_eq (hq : Layout s0 (At s0) conn.receiveQueue is first next) (hi : i ∈ is)
    (hlow : i.1 ≤ j.1) (hlt : j.1 < j.2) (hhigh : j.2 ≤ i.2)
    (hstart : conn.state.startSeqno = ofPos s0 j.1) (hend : conn.state.endSeqno = ofPos s0 j.2) :
    newSack conn = blockAt s0 i := by
  obtain ⟨r, hfind, hat⟩ := @TCPVirtualDataRcvQueue.find_of_mem s0 (ofPos s0 j.1) _ _ _ _ j.1 i hq
    hi ⟨hlow, by omega⟩ _ 0 (fun _ _ => TCPVirtualDataRcvQueue.inside_iff) rfl
  obtain ⟨r', hfind', hat'⟩ := @TCPVirtualDataRcvQueue.find_of_mem s0 (ofPos s0 j.2) _ _ _ _
    (j.2 - 1) i hq hi ⟨by omega, by omega⟩ _ 1
    (fun _ _ => TCPVirtualDataRcvQueue.insideEnd_iff) (by rw [Nat.sub_add_cancel (by omega)])
  rw [newSack, blockAt, hstart, hend, TCPVirtualDataRcvQueue.getLE, hfind,
    TCPVirtualDataRcvQueue.getRE, hfind']
  exact congrArg₂ Sack.mk hat.1 hat'.2

end Blocks

variable {s0 : Uint32} {is : List (ℕ × ℕ)} {first next : ℕ} {i j : ℕ × ℕ}
  {c : SackConnection} {options : List TCPOption} {sacks : List Sack} {P : ℕ × ℕ → Prop}

/-- What is remembered is old, or a block behind `rcv_nxt` at an interval with the property; no
block is remembered twice. -/
structure Remembers (s0 rcvNxt : Uint32) (next : ℕ) (P : ℕ × ℕ → Prop) (sacks : List Sack) :
    Prop where
  blocks : ∀ b ∈ sacks, seqLE b.end rcvNxt = true ∨ ∃ i, P i ∧ next < i.1 ∧ b = blockAt s0 i
  distinct : sacks.Pairwise fun a b => a = b → seqLE a.end rcvNxt = true

/-- The first loop leaves the blocks behind `rcv_nxt`. -/
theorem Remembers.deleteOld_ok (h : Remembers s0 (ofPos s0 next) next P sacks)
    (hfirst : first ≤ next ∧ next < first + 2 ^ 31)
    (hP : ∀ i, P i → InWindow first i ∧ i.1 < i.2) :
    ∃ rest, deleteOld (ofPos s0 next) sacks = .ok rest ∧ rest.Nodup ∧
      ∀ b ∈ rest, ∃ i, P i ∧ next < i.1 ∧ b = blockAt s0 i := by
  refine ⟨_, deleteOld_eq fun b hb => ?_, ?_, fun b hb => ?_⟩
  · refine (h.blocks b hb).imp_right ?_
    rintro ⟨i, hi, habove, rfl⟩
    obtain ⟨hwindow, hlt⟩ := hP i hi
    refine ⟨empty_of_start_ne (blockAt_start_ne hwindow hlt), ?_⟩
    rw [blockAt, seqGE_ofPos (near_of_window hwindow.fst hfirst)]
    exact decide_eq_true habove.le
  · refine List.Pairwise.imp_of_mem ?_ (h.distinct.sublist filter_sublist)
    intro a b ha _ hab heq
    have hnot := (mem_filter.mp ha).2
    rw [hab heq] at hnot
    exact Bool.false_ne_true hnot
  · obtain ⟨hb, hnot⟩ := mem_filter.mp hb
    refine (h.blocks b hb).resolve_left fun hold => ?_
    rw [hold] at hnot
    exact Bool.false_ne_true hnot

/-- Blocks behind `rcv_nxt` that are at regions and not repeated. -/
def Blocks (s0 : Uint32) (next : ℕ) (is : List (ℕ × ℕ)) (sacks : List Sack) : Prop :=
  sacks.Nodup ∧ ∀ b ∈ sacks, ∃ i ∈ is, next < i.1 ∧ b = blockAt s0 i

theorem Blocks.sublist {kept : List Sack} (h : Blocks s0 next is sacks)
    (hsub : kept.Sublist sacks) : Blocks s0 next is kept :=
  ⟨h.1.sublist hsub, fun b hb => h.2 b (hsub.subset hb)⟩

section

variable (h : Blocks s0 next is sacks) (hq : Layout s0 (At s0) c.conn.receiveQueue is first next)

include h hq

theorem Blocks.isBlock
    (hnext : c.conn.state.rcvNxt = ofPos s0 next) : ∀ b ∈ sacks, IsBlock c.conn b := by
  intro b hb
  obtain ⟨i, hi, habove, rfl⟩ := h.2 b hb
  exact isBlock_of_mem hq hnext hi habove

theorem Blocks.apart : sacks.Pairwise fun a b => ¬ Overlap a b := by
  refine List.Pairwise.imp_of_mem ?_ h.1
  intro a b ha hb hne
  obtain ⟨i, hi, -, rfl⟩ := h.2 a ha
  obtain ⟨j, hj, -, rfl⟩ := h.2 b hb
  exact not_overlap hq hi hj hne

theorem Blocks.start_ne : ∀ b ∈ sacks, b.start ≠ b.end := by
  intro b hb
  obtain ⟨i, hi, -, rfl⟩ := h.2 b hb
  exact blockAt_start_ne (hq.window i hi) (hq.proper i hi)

end

/-- The end of `addSacks`, for a list of blocks that is not empty. -/
theorem addSacks_of_insertBlock {rest kept : List Sack} {b : Sack}
    (hold : deleteOld c.conn.state.rcvNxt c.sacksArray = .ok rest)
    (hused : getHeaderOptionArrayLength options ≤ 30)
    (hinsert : insertBlock c.conn rest = .ok (b :: kept))
    (hne : ∀ a ∈ b :: kept, a.start ≠ a.end) :
    ∃ k m, c.addSacks options =
        .ok (⟨resetFlags c.conn, if dsackInserted c.conn.state then kept else b :: kept⟩,
          options ++ (List.replicate k .nop ++ [.sack (b :: kept.take m)])) ∧
      getHeaderOptionArrayLength
        (options ++ (List.replicate k .nop ++ [.sack (b :: kept.take m)])) ≤ 40 := by
  obtain ⟨m, hm⟩ : ∃ m, min (b :: kept).length
      ((TCP_OPTIONS_MAX_SIZE - getHeaderOptionArrayLength options - 2) / 8) = m + 1 := by
    have hlength : (b :: kept).length = kept.length + 1 := length_cons
    have hmax : TCP_OPTIONS_MAX_SIZE = 40 := rfl
    exact ⟨min (b :: kept).length
      ((TCP_OPTIONS_MAX_SIZE - getHeaderOptionArrayLength options - 2) / 8) - 1, by omega⟩
  have hroom : ¬ getHeaderOptionArrayLength options >
      TCP_OPTIONS_MAX_SIZE - TCP_OPTION_SACK_MIN_SIZE := not_lt.mpr hused
  obtain ⟨k, hwrite, hfits⟩ := @writeOption_ok options (b :: kept) (m + 1) hused hne
    (hm ▸ min_le_right _ _)
  refine ⟨k, m, ?_, hfits⟩
  rw [addSacks]
  dsimp only
  rw [hold, ok_bind, if_neg hroom, hinsert, ok_bind, hm, if_neg (Nat.succ_ne_zero m),
    hwrite, ok_bind]
  rfl

/-- What is sent, and what is remembered afterwards. -/
def Adds (s0 : Uint32) (next : ℕ) (is : List (ℕ × ℕ)) (c : SackConnection)
    (options : List TCPOption) : Prop :=
  ∃ kept k items, c.addSacks options = .ok (⟨resetFlags c.conn, kept⟩,
      options ++ (List.replicate k .nop ++ [.sack items])) ∧
    getHeaderOptionArrayLength (options ++ (List.replicate k .nop ++ [.sack items])) ≤ 40 ∧
    RightItems c.conn items ∧ Blocks s0 next is kept

theorem dsackBlock_start_ne {state : TCPStateVariables} (hne : state.startSeqno ≠ state.endSeqno) :
    (dsackBlock state).start ≠ (dsackBlock state).end := by
  unfold dsackBlock
  split_ifs with h
  · rw [Bool.and_eq_true, seqLess, Bool.and_eq_true, bne_iff_ne] at h
    exact h.1.1
  · exact hne

section

variable (hq : Layout s0 (At s0) c.conn.receiveQueue is first next)
  (hnext : c.conn.state.rcvNxt = ofPos s0 next)

include hq hnext

theorem adds_dsack (hrem : Remembers s0 (ofPos s0 next) next (· ∈ is) c.sacksArray)
    (hused : getHeaderOptionArrayLength options ≤ 30)
    (hne : c.conn.state.startSeqno ≠ c.conn.state.endSeqno)
    (hwhole : dsackBlock c.conn.state = ⟨c.conn.state.startSeqno, c.conn.state.endSeqno⟩)
    (hdsack : c.conn.state.sndDsack = true) : Adds s0 next is c options := by
  obtain ⟨rest, hold, hrest⟩ := hrem.deleteOld_ok hq.next_window
    fun i hi => ⟨hq.window i hi, hq.proper i hi⟩
  have hblocks : Blocks s0 next is rest := hrest
  obtain ⟨kept, hloop, hsub, -⟩ := @deleteContained_ok rest (fun _ => false)
    fun b hb => empty_of_start_ne (hblocks.start_ne hq b hb)
  have hkept := hblocks.sublist hsub
  have hinsert : insertBlock c.conn rest = .ok (dsackBlock c.conn.state :: kept) := by
    rw [insertBlock, if_neg hne, if_pos hdsack, hloop, ok_bind]
  have hinserted : dsackInserted c.conn.state = true := by
    rw [dsackInserted, hdsack, Bool.and_true]
    exact bne_iff_ne.mpr hne
  obtain ⟨k, m, hadd, hfits⟩ := addSacks_of_insertBlock (hnext ▸ hold) hused hinsert
    (forall_mem_cons.mpr ⟨dsackBlock_start_ne hne, hkept.start_ne hq⟩)
  rw [if_pos hinserted] at hadd
  have htaken := hkept.sublist (take_sublist m kept)
  have hof : blocksOf c.conn.state (dsackBlock c.conn.state :: kept.take m) = kept.take m :=
    if_pos hdsack
  refine ⟨kept, k, _, hadd, hfits, ⟨?_, ?_, _, rfl, ?_⟩, hkept⟩
  · rw [hof]
    exact htaken.isBlock hq hnext
  · rw [hof]
    exact htaken.apart hq
  · rw [if_pos hdsack, hwhole]

/-- The block of the segment comes first. A block that is remembered is one still, or lies in the
new one. -/
theorem adds_sack (hi : i ∈ is) (habove : next < i.1) (hrem : Remembers s0 (ofPos s0 next) next
      (fun k => k ∈ is ∨ i.1 ≤ k.1 ∧ k.1 < k.2 ∧ k.2 ≤ i.2) c.sacksArray)
    (hused : getHeaderOptionArrayLength options ≤ 30)
    (hlow : i.1 ≤ j.1) (hlt : j.1 < j.2) (hhigh : j.2 ≤ i.2)
    (hstart : c.conn.state.startSeqno = ofPos s0 j.1)
    (hend : c.conn.state.endSeqno = ofPos s0 j.2)
    (hdsack : c.conn.state.sndDsack = false) : Adds s0 next is c options := by
  have hwi := hq.window i hi
  have hbounds : first ≤ i.1 ∧ i.1 ≤ i.2 ∧ i.2 < first + 2 ^ 31 := id hwi
  have hwj : InWindow first j := ⟨by omega, by omega, by omega⟩
  have hP : ∀ k, (k ∈ is ∨ i.1 ≤ k.1 ∧ k.1 < k.2 ∧ k.2 ≤ i.2) → InWindow first k ∧ k.1 < k.2 := by
    rintro k (hk | ⟨h₁, h₂, h₃⟩)
    · exact ⟨hq.window k hk, hq.proper k hk⟩
    · exact ⟨⟨by omega, by omega, by omega⟩, h₂⟩
  obtain ⟨rest, hold, hnodup, hrest⟩ := hrem.deleteOld_ok hq.next_window hP
  have hnonempty : ∀ b ∈ rest, b.empty = false := by
    intro b hb
    obtain ⟨k, hk, -, rfl⟩ := hrest b hb
    exact empty_of_start_ne (blockAt_start_ne (hP k hk).1 (hP k hk).2)
  have hnew := newSack_eq hq hi hlow hlt hhigh hstart hend
  obtain ⟨kept, hloop, hsub, hkept⟩ := @deleteContained_cons rest (blockAt s0 i)
    (empty_of_start_ne (blockAt_start_ne hwi (hq.proper i hi))) hnonempty
  have hblocks : Blocks s0 next is (blockAt s0 i :: kept) := by
    refine ⟨nodup_cons.mpr ⟨fun hmem => ?_, hnodup.sublist hsub⟩,
      forall_mem_cons.mpr ⟨⟨i, hi, habove, rfl⟩, fun b hb => ?_⟩⟩
    · have hself := (@contains_iff s0 _ _ _ hwi hwi).mpr ⟨le_rfl, le_rfl⟩
      rw [hkept _ hmem] at hself
      exact Bool.false_ne_true hself
    · obtain ⟨k, hk, hknext, rfl⟩ := hrest b (hsub.subset hb)
      refine ⟨k, hk.resolve_right fun hin => ?_, hknext, rfl⟩
      have hcontains := (@contains_iff s0 _ _ _ hwi (hP k hk).1).mpr ⟨hin.1, hin.2.2⟩
      rw [hkept _ hb] at hcontains
      exact Bool.false_ne_true hcontains
  have hne : c.conn.state.startSeqno ≠ c.conn.state.endSeqno := by
    rw [hstart, hend]
    exact blockAt_start_ne hwj hlt
  have hinsert : insertBlock c.conn rest = .ok (blockAt s0 i :: kept) := by
    rw [insertBlock, if_neg hne, hdsack, if_neg Bool.false_ne_true, hnew, hloop]
  have hinserted : dsackInserted c.conn.state = false := by
    rw [dsackInserted, hdsack, Bool.and_false]
  obtain ⟨k, m, hadd, hfits⟩ := addSacks_of_insertBlock (hnext ▸ hold) hused hinsert
    (hblocks.start_ne hq)
  rw [hinserted, if_neg Bool.false_ne_true] at hadd
  have htaken := hblocks.sublist (take_sublist (m + 1) (blockAt s0 i :: kept))
  have hof : blocksOf c.conn.state (blockAt s0 i :: kept.take m) =
      (blockAt s0 i :: kept).take (m + 1) := by
    rw [blocksOf, hdsack, if_neg Bool.false_ne_true, take_succ_cons]
  refine ⟨_, k, _, hadd, hfits, ⟨?_, ?_, _, rfl, ?_⟩, hblocks⟩
  · rw [hof]
    exact htaken.isBlock hq hnext
  · rw [hof]
    exact htaken.apart hq
  · rw [hdsack, if_neg Bool.false_ne_true, hstart, hend]
    exact (contains_iff hwi hwj).mpr ⟨hlow, hhigh⟩

end

end SackConnection

end Inet.Tcp
