import Inet.Common.NetworkOrder
import Inet.Library.OnesComplement

/-!
# The Internet checksum

`TCPIPchecksum` adds the 16-bit words of a packet in a `uint32` and folds the carries back only
when bit 31 is reached. An `Accumulator` is the sum together with a note, which the code does not
have, of whether an addition has been taken modulo `2 ^ 32`. It never is: `sumWords_spec` bounds the
sum before each addition.
-/

namespace Inet.TCPIPchecksum

open Finset OnesComplement

variable {packet : Bytes}

/-- The variable `sum`, and whether a carry out of bit 31 has been lost. -/
structure Accumulator where
  sum : Uint32
  carried : Bool

namespace Accumulator

/-- `sum += w`. -/
def add (a : Accumulator) (w : Uint32) : Accumulator where
  sum := a.sum + w
  carried := a.carried || decide (2 ^ 32 ≤ a.sum.toNat + w.toNat)

/-- `sum = (sum & 0xFFFF) + (sum >> 16)`. -/
def foldOnce (a : Accumulator) : Accumulator :=
  { a with sum := a.sum &&& 0xFFFF#32 }.add (a.sum >>> 16)

theorem toNat_lowHalf (s : Uint32) : (s &&& 0xFFFF#32).toNat = s.toNat % 2 ^ 16 := by
  rw [BitVec.toNat_and]
  exact Nat.and_two_pow_sub_one_eq_mod s.toNat 16

theorem toNat_highHalf (s : Uint32) : (s >>> 16).toNat = s.toNat / 2 ^ 16 := by
  rw [BitVec.toNat_ushiftRight, Nat.shiftRight_eq_div_pow]

/-- An addition that stays below `2 ^ 32`. -/
theorem add_of_lt {a : Accumulator} {w : Uint32} (h : a.sum.toNat + w.toNat < 2 ^ 32) :
    (a.add w).sum.toNat = a.sum.toNat + w.toNat ∧ (a.add w).carried = a.carried := by
  refine ⟨?_, ?_⟩
  · exact (BitVec.toNat_add _ _).trans (Nat.mod_eq_of_lt h)
  · simp only [add, Bool.or_eq_left_iff_imp, decide_eq_true_eq]
    omega

/-- Folding cannot overflow, whatever the sum is. -/
theorem foldOnce_spec (a : Accumulator) :
    a.foldOnce.sum.toNat = a.sum.toNat % 2 ^ 16 + a.sum.toNat / 2 ^ 16 ∧
      a.foldOnce.carried = a.carried := by
  have hlt : a.sum.toNat < 2 ^ 32 := a.sum.isLt
  have hsum : (a.sum &&& 0xFFFF#32).toNat + (a.sum >>> 16).toNat < 2 ^ 32 := by
    rw [toNat_lowHalf, toNat_highHalf]
    omega
  obtain ⟨hvalue, hcarried⟩ :=
    add_of_lt (a := { a with sum := a.sum &&& 0xFFFF#32 }) hsum
  refine ⟨hvalue.trans ?_, hcarried⟩
  exact congrArg₂ (· + ·) (toNat_lowHalf a.sum) (toNat_highHalf a.sum)

/-- `while (sum >> 16)`. -/
def fold (a : Accumulator) : Accumulator :=
  if a.sum >>> 16 = 0 then a else a.foldOnce.fold
termination_by a.sum.toNat
decreasing_by
  rename_i h
  have hhigh : (a.sum >>> 16).toNat ≠ 0 := fun h0 => h (BitVec.eq_of_toNat_eq h0)
  rw [toNat_highHalf] at hhigh
  rw [a.foldOnce_spec.1]
  omega

/-- `(uint16_t)sum`. -/
def value (a : Accumulator) : Uint16 := a.sum.setWidth 16

/-- The final loop reduces the sum in ones' complement. -/
theorem fold_spec (a : Accumulator) :
    a.fold.sum.toNat = reduce 65535 a.sum.toNat ∧ a.fold.carried = a.carried := by
  induction a using fold.induct with
  | case1 a h =>
    have hsmall : a.sum.toNat / 2 ^ 16 = 0 := by
      rw [← toNat_highHalf, h]
      rfl
    rw [fold, if_pos h]
    exact ⟨(reduce_of_le (by omega)).symm, rfl⟩
  | case2 a h ih =>
    rw [fold, if_neg h]
    refine ⟨ih.1.trans ?_, ih.2.trans a.foldOnce_spec.2⟩
    rw [a.foldOnce_spec.1]
    exact reduce_carry (m := 65535)

theorem toNat_value_fold (a : Accumulator) : a.fold.value.toNat = reduce 65535 a.sum.toNat := by
  have hle : reduce 65535 a.sum.toNat ≤ 65535 := reduce_le (by decide)
  rw [value, BitVec.toNat_setWidth, a.fold_spec.1]
  exact Nat.mod_eq_of_lt (by omega)

end Accumulator

/-- The loop over pairs of bytes, and the odd byte after it. -/
def sumWords (a : Accumulator) : Bytes → Accumulator
  | addr₀ :: addr₁ :: addr =>
    let a := a.add (addr₀.toBitVec.setWidth 32 <<< 8 ||| addr₁.toBitVec.setWidth 32)
    sumWords (if a.sum &&& 0x80000000#32 ≠ 0 then a.foldOnce else a) addr
  | [addr₀] => a.add (addr₀.toBitVec.setWidth 32 <<< 8)
  | [] => a

/-- The final value of `sum` in `_checksum`. -/
def _checksum (addr : Bytes) : Accumulator := (sumWords ⟨0, false⟩ addr).fold

/-- `checksum(addr, count)`. -/
def checksum (addr : Bytes) : Uint16 := ~~~ (_checksum addr).value

/-- The final value of `sum` in `checksum(protocolId, packet, packetLength, addr, addrLength)`. -/
def pseudoSum (protocolId : Uint32) (packet addr : Bytes) : Accumulator :=
  let p := _checksum packet
  let a := _checksum addr
  let sum : Accumulator := ⟨p.value.setWidth 32, p.carried || a.carried⟩
  (((sum.add (a.value.setWidth 32)).add (BitVec.ofNat 32 packet.length)).add protocolId).fold

/-- `checksum(protocolId, packet, packetLength, addr, addrLength)`. -/
def pseudoChecksum (protocolId : Uint32) (packet addr : Bytes) : Uint16 :=
  ~~~ (pseudoSum protocolId packet addr).value

/-- The `i`-th 16-bit word in network order; a last odd byte is padded with zero on the right. -/
def wordAt (packet : Bytes) (i : ℕ) : ℕ :=
  256 * (packet.getD (2 * i) 0).toNat + (packet.getD (2 * i + 1) 0).toNat

/-- All 16-bit words. -/
def words (packet : Bytes) : List ℕ :=
  (List.range ((packet.length + 1) / 2)).map (wordAt packet)

theorem wordAt_lt (packet : Bytes) (i : ℕ) : wordAt packet i < 2 ^ 16 := by
  have h₀ := (packet.getD (2 * i) 0).toNat_lt
  have h₁ := (packet.getD (2 * i + 1) 0).toNat_lt
  simp only [wordAt]
  omega

theorem words_le : ∀ w ∈ words packet, w ≤ 65535 := by
  intro w hw
  obtain ⟨i, -, rfl⟩ := List.mem_map.mp hw
  exact Nat.le_of_lt_succ (wordAt_lt packet i)

@[simp] theorem words_singleton (b₀ : UInt8) : words [b₀] = [256 * b₀.toNat] := by
  simp [words, wordAt, List.range_succ]

@[simp] theorem words_cons_cons (b₀ b₁ : UInt8) (packet : Bytes) :
    words (b₀ :: b₁ :: packet) = (256 * b₀.toNat + b₁.toNat) :: words packet := by
  have hlength : ((b₀ :: b₁ :: packet).length + 1) / 2 = (packet.length + 1) / 2 + 1 := by
    simp only [List.length_cons]
    omega
  rw [words, hlength, List.range_succ_eq_map, List.map_cons, List.map_map]
  rfl

/-- `(addr[0] << 8) | addr[1]` -/
theorem toNat_bigEndian (b₀ b₁ : UInt8) :
    (b₀.toBitVec.setWidth 32 <<< 8 ||| b₁.toBitVec.setWidth 32).toNat =
      256 * b₀.toNat + b₁.toNat := by
  have h₀ := b₀.toNat_lt
  have h₁ := b₁.toNat_lt
  rw [BitVec.toNat_or, BitVec.toNat_shiftLeft, BitVec.toNat_setWidth, BitVec.toNat_setWidth,
    UInt8.toNat_toBitVec, UInt8.toNat_toBitVec, Nat.mod_eq_of_lt (b := 2 ^ 32) (by omega),
    Nat.mod_eq_of_lt (b := 2 ^ 32) (by omega), Nat.shiftLeft_eq,
    Nat.mod_eq_of_lt (b := 2 ^ 32) (by omega), Nat.mul_comm]
  exact (Nat.two_pow_add_eq_or_of_lt (i := 8) h₁ b₀.toNat).symm

theorem toNat_oddByte (b₀ : UInt8) : (b₀.toBitVec.setWidth 32 <<< 8).toNat = 256 * b₀.toNat := by
  have := toNat_bigEndian b₀ 0
  simpa using this

theorem bit31_iff (s : Uint32) : s &&& 0x80000000#32 ≠ 0 ↔ 2 ^ 31 ≤ s.toNat := by
  have hmsb : s.getLsbD 31 = decide (2 ^ 31 ≤ s.toNat) := BitVec.msb_eq_decide s
  rw [show (0x80000000#32) = BitVec.twoPow 32 31 from rfl, BitVec.and_twoPow, hmsb]
  by_cases h : 2 ^ 31 ≤ s.toNat
  · simp only [h, decide_true, if_true]
    decide
  · simp only [h, decide_false, Bool.false_eq_true, if_false]
    decide

open Accumulator in
/-- One round of the loop: the sum stays below `2 ^ 31`, so that no addition wraps. -/
theorem round_spec {a : Accumulator} {w : Uint32} (ha : a.sum.toNat < 2 ^ 31)
    (hw : w.toNat < 2 ^ 16) :
    let b := a.add w
    let c := if b.sum &&& 0x80000000#32 ≠ 0 then b.foldOnce else b
    c.sum.toNat < 2 ^ 31 ∧ c.carried = a.carried ∧
      ∀ n, reduce 65535 (c.sum.toNat + n) = reduce 65535 (a.sum.toNat + w.toNat + n) := by
  intro b c
  obtain ⟨hsum, hcarried⟩ : b.sum.toNat = a.sum.toNat + w.toNat ∧ b.carried = a.carried :=
    add_of_lt (by omega)
  by_cases h : 2 ^ 31 ≤ b.sum.toNat
  · have hc : c = b.foldOnce := if_pos ((bit31_iff _).mpr h)
    obtain ⟨hfold, hkept⟩ := b.foldOnce_spec
    rw [hc]
    refine ⟨by omega, hkept.trans hcarried, fun n => ?_⟩
    have hcarry : reduce 65535 b.foldOnce.sum.toNat = reduce 65535 b.sum.toNat := by
      rw [hfold]
      exact reduce_carry (m := 65535)
    rw [← reduce_add, hcarry, reduce_add, hsum]
  · have hc : c = b := if_neg (mt (bit31_iff _).mp h)
    rw [hc]
    exact ⟨by omega, hcarried, fun n => by rw [hsum]⟩

open Accumulator in
theorem sumWords_spec {a : Accumulator} (ha : a.sum.toNat < 2 ^ 31) (addr : Bytes) :
    (sumWords a addr).carried = a.carried ∧ reduce 65535 (sumWords a addr).sum.toNat =
        reduce 65535 (a.sum.toNat + (words addr).sum) := by
  induction a, addr using sumWords.induct with
  | case1 a addr₀ addr₁ addr b ih =>
    have hw := toNat_bigEndian addr₀ addr₁
    have h₀ := addr₀.toNat_lt
    have h₁ := addr₁.toNat_lt
    obtain ⟨hlow, hcarried, hsum⟩ := round_spec ha (w := _) (by rw [hw]; omega)
    obtain ⟨hcarried', hsum'⟩ := ih hlow
    rw [sumWords, words_cons_cons, List.sum_cons]
    refine ⟨hcarried'.trans hcarried, hsum'.trans ?_⟩
    rw [hsum, hw, Nat.add_assoc]
  | case2 a addr₀ =>
    have h₀ := addr₀.toNat_lt
    have hw := toNat_oddByte addr₀
    obtain ⟨hsum, hcarried⟩ := add_of_lt (a := a) (w := addr₀.toBitVec.setWidth 32 <<< 8)
      (by rw [hw]; omega)
    rw [sumWords, words_singleton]
    refine ⟨hcarried, ?_⟩
    rw [hsum, hw]
    rfl
  | case3 a =>
    exact ⟨rfl, rfl⟩

/-- `_checksum` is the ones' complement sum of the words, and no carry is lost. -/
theorem _checksum_spec (addr : Bytes) : (_checksum addr).carried = false ∧
      (_checksum addr).value.toNat = reduce 65535 (words addr).sum := by
  obtain ⟨hcarried, hsum⟩ := sumWords_spec (a := ⟨0, false⟩) (by decide) addr
  refine ⟨(Accumulator.fold_spec _).2.trans hcarried, ?_⟩
  rw [_checksum, Accumulator.toNat_value_fold, hsum]
  exact congrArg (reduce 65535) (Nat.zero_add _)

open Accumulator in
/-- The sum with the pseudo header: no carry is lost while the length stays below the last `2 ^ 18`
numbers. -/
theorem pseudoSum_spec {protocolId : Uint32} (addr : Bytes)
    (hlength : packet.length < 2 ^ 32 - 2 ^ 18) (hprotocol : protocolId.toNat < 2 ^ 16) :
    (pseudoSum protocolId packet addr).carried = false ∧
      (pseudoSum protocolId packet addr).value.toNat = reduce 65535 ((words packet).sum +
          ((words addr).sum + packet.length + protocolId.toNat)) := by
  obtain ⟨hcarriedP, hp⟩ := _checksum_spec packet
  obtain ⟨hcarriedA, ha⟩ := _checksum_spec addr
  let sum : Accumulator := ⟨(_checksum packet).value.setWidth 32,
    (_checksum packet).carried || (_checksum addr).carried⟩
  have hvalueP : sum.sum.toNat = (_checksum packet).value.toNat := by
    rw [BitVec.toNat_setWidth, Nat.mod_eq_of_lt (by omega)]
  have hvalueA : ((_checksum addr).value.setWidth 32).toNat = (_checksum addr).value.toNat := by
    rw [BitVec.toNat_setWidth, Nat.mod_eq_of_lt (by omega)]
  have hvalueL : (BitVec.ofNat 32 packet.length).toNat = packet.length := by
    rw [BitVec.toNat_ofNat, Nat.mod_eq_of_lt (by omega)]
  obtain ⟨h₁, hcarried₁⟩ := add_of_lt (a := sum) (w := (_checksum addr).value.setWidth 32)
    (by omega)
  obtain ⟨h₂, hcarried₂⟩ := add_of_lt (w := BitVec.ofNat 32 packet.length)
    (a := sum.add ((_checksum addr).value.setWidth 32)) (by omega)
  obtain ⟨h₃, hcarried₃⟩ := add_of_lt (w := protocolId)
    (a := (sum.add ((_checksum addr).value.setWidth 32)).add (BitVec.ofNat 32 packet.length))
    (by omega)
  refine ⟨?_, ?_⟩
  · refine (fold_spec _).2.trans (hcarried₃.trans (hcarried₂.trans (hcarried₁.trans ?_)))
    simp only [sum, hcarriedP, hcarriedA, Bool.or_self]
  · refine (toNat_value_fold _).trans ?_
    rw [h₃, h₂, h₁, hvalueP, hvalueA, hvalueL, hp, ha, Nat.add_assoc, Nat.add_assoc, reduce_add,
      ← Nat.add_assoc, Nat.add_comm (words packet).sum, Nat.add_assoc, reduce_add]
    congr 1
    omega

theorem sum_words (packet : Bytes) :
    (words packet).sum = ∑ i ∈ range ((packet.length + 1) / 2), wordAt packet i := rfl

theorem wordAt_eq_zero {i : ℕ} (h : packet.length ≤ 2 * i) : wordAt packet i = 0 := by
  have h₀ : packet[2 * i]? = none := List.getElem?_eq_none h
  have h₁ : packet[2 * i + 1]? = none := List.getElem?_eq_none (by omega)
  rw [wordAt, List.getD_eq_getElem?_getD, List.getD_eq_getElem?_getD, h₀, h₁]
  rfl

theorem wordAt_storeShort {k : ℕ} (hk : 2 * k + 1 < packet.length) (w : Uint16) (i : ℕ) :
    wordAt (storeShort packet (2 * k) w) i = if i = k then w.toNat else wordAt packet i := by
  simp only [wordAt, storeShort, List.getD_eq_getElem?_getD, List.getElem?_set, List.length_set]
  by_cases hik : i = k
  · subst hik
    simp [hk, Nat.lt_of_succ_lt hk, toNat_bytes]
  · have h₀ : 2 * k + 1 ≠ 2 * i := by omega
    have h₁ : 2 * k ≠ 2 * i := by omega
    have h₂ : 2 * k ≠ 2 * i + 1 := by omega
    have h₃ : 2 * k + 1 ≠ 2 * i + 1 := by omega
    simp only [if_neg hik, if_neg h₀, if_neg h₁, if_neg h₂, if_neg h₃]

/-- `q` is `p` with another word at one place. -/
def ChangedAt (j : ℕ) (p q : Bytes) : Prop :=
  q.length = p.length ∧ ∀ i, i ≠ j → wordAt q i = wordAt p i

theorem changedAt_storeShort {k : ℕ} (hk : 2 * k + 1 < packet.length) (v w : Uint16) :
    ChangedAt k (storeShort packet (2 * k) v) (storeShort packet (2 * k) w) := by
  refine ⟨by simp, fun i hi => ?_⟩
  rw [wordAt_storeShort hk, wordAt_storeShort hk, if_neg hi, if_neg hi]

/-- The sum changes by as much as the word. -/
theorem ChangedAt.sum_words {j : ℕ} {p q : Bytes} (h : ChangedAt j p q) :
    (words q).sum + wordAt p j = (words p).sum + wordAt q j := by
  obtain ⟨hlength, hothers⟩ := h
  rcases Nat.lt_or_ge j ((p.length + 1) / 2) with hj | hj
  · have hmem : j ∈ range ((p.length + 1) / 2) := mem_range.mpr hj
    have hrest : ∑ i ∈ (range ((p.length + 1) / 2)).erase j, wordAt q i =
        ∑ i ∈ (range ((p.length + 1) / 2)).erase j, wordAt p i :=
      sum_congr rfl fun i hi => hothers i (ne_of_mem_erase hi)
    rw [TCPIPchecksum.sum_words, TCPIPchecksum.sum_words, hlength,
      ← add_sum_erase _ (wordAt q) hmem, ← add_sum_erase _ (wordAt p) hmem, hrest]
    omega
  · have hsame : ∑ i ∈ range ((p.length + 1) / 2), wordAt q i =
        ∑ i ∈ range ((p.length + 1) / 2), wordAt p i :=
      sum_congr rfl fun i hi => hothers i (by have := mem_range.mp hi; omega)
    rw [TCPIPchecksum.sum_words, TCPIPchecksum.sum_words, hlength, hsame,
      wordAt_eq_zero (by omega), wordAt_eq_zero (by omega)]

/-- A checksum that is the complement of the sum of the words and of a number `c`. -/
def Complements (f : Bytes → Uint16) (c length : ℕ) : Prop :=
  ∀ p : Bytes, p.length = length → (f p).toNat = 65535 - reduce 65535 ((words p).sum + c)

theorem toNat_complement {v : Uint16} {n : ℕ} (h : v.toNat = reduce 65535 n) :
    (~~~ v).toNat = 65535 - reduce 65535 n := by
  rw [BitVec.toNat_not, h]

theorem checksum_complements (length : ℕ) : Complements checksum 0 length :=
  fun p _ => toNat_complement (_checksum_spec p).2

theorem pseudoChecksum_complements {length : ℕ} {protocolId : Uint32} (addr : Bytes)
    (hlength : length < 2 ^ 32 - 2 ^ 18) (hprotocol : protocolId.toNat < 2 ^ 16) :
    Complements (pseudoChecksum protocolId · addr) ((words addr).sum + length + protocolId.toNat)
      length := by
  rintro p rfl
  exact toNat_complement (pseudoSum_spec addr hlength hprotocol).2

/-- With the checksum `f` in its `k`-th word the packet is accepted, and no longer when one word is
then replaced by one that is not congruent to it. -/
def Verifies (f : Bytes → Uint16) (packet : Bytes) (k : ℕ) : Prop :=
  let stored := storeShort packet (2 * k) (f (storeShort packet (2 * k) 0))
  f stored = 0 ∧ ∀ j q, ChangedAt j stored q → ¬ wordAt q j ≡ wordAt stored j [MOD 65535] → f q ≠ 0

section

variable {f : Bytes → Uint16} {c : ℕ} {packet : Bytes}

theorem Complements.eq_zero_iff (hf : Complements f c packet.length) :
    f packet = 0 ↔ reduce 65535 ((words packet).sum + c) = 65535 := by
  have hle : reduce 65535 ((words packet).sum + c) ≤ 65535 := reduce_le (by decide)
  have hvalue := hf packet rfl
  constructor
  · intro h
    rw [h, show (0 : Uint16).toNat = 0 from rfl] at hvalue
    omega
  · intro h
    refine BitVec.eq_of_toNat_eq (hvalue.trans ?_)
    rw [h]
    rfl

theorem Complements.verifies (hf : Complements f c packet.length) {k : ℕ}
    (hk : 2 * k + 1 < packet.length) : Verifies f packet k := by
  unfold Verifies
  intro stored
  have hlength : stored.length = packet.length := length_storeShort _ _ _
  have hzero : reduce 65535 ((words stored).sum + c) = 65535 := by
    have hsum := (changedAt_storeShort hk 0 (f (storeShort packet (2 * k) 0))).sum_words
    have hfield := hf (storeShort packet (2 * k) 0) (length_storeShort _ _ _)
    rw [wordAt_storeShort hk, wordAt_storeShort hk, if_pos rfl, if_pos rfl, hfield,
      show (0 : Uint16).toNat = 0 from rfl, Nat.add_zero] at hsum
    rw [show (words stored).sum = _ from hsum, Nat.add_right_comm]
    exact reduce_add_complement (by decide)
  refine ⟨(hlength ▸ hf : Complements f c stored.length).eq_zero_iff.mpr hzero, ?_⟩
  intro j q hq hword haccepted
  have hq' : Complements f c q.length := by rwa [hq.1, hlength]
  have hsum : (words q).sum + c ≡ (words stored).sum + c [MOD 65535] :=
    (modEq_zero_of_reduce (hq'.eq_zero_iff.mp haccepted)).trans (modEq_zero_of_reduce hzero).symm
  refine hword (Nat.ModEq.add_left_cancel (hsum.add_right_cancel' c) ?_).symm
  rw [hq.sum_words, Nat.add_comm]

end

/-- No addition wraps, `_checksum` is the ones' complement sum of the words, and a packet with its
checksum in an aligned field is accepted until a word of it changes modulo `65535`. -/
theorem checksum_verifies {packet : Bytes} {protocolId : Uint32} (addr : Bytes)
    (hlength : packet.length < 2 ^ 32 - 2 ^ 18) (hprotocol : protocolId.toNat < 2 ^ 16) :
    (_checksum packet).carried = false ∧
      (_checksum packet).value.toNat = OnesComplement.sum 65535 (words packet) ∧
      (pseudoSum protocolId packet addr).carried = false ∧
      ∀ k, 2 * k + 1 < packet.length →
        Verifies checksum packet k ∧ Verifies (pseudoChecksum protocolId · addr) packet k := by
  obtain ⟨hcarried, hsum⟩ := _checksum_spec packet
  refine ⟨hcarried, ?_, (pseudoSum_spec addr hlength hprotocol).1, fun k hk => ⟨?_, ?_⟩⟩
  · rw [hsum, sum_eq_reduce (by decide) words_le]
  · exact (checksum_complements _).verifies hk
  · exact (pseudoChecksum_complements addr hlength hprotocol).verifies hk

/-- An IPv4 header field of a packet of odd length. -/
theorem checksum_verifies_odd : Verifies checksum [0x45, 0x00, 0x00, 0x15, 0x00, 0x00, 0x7f] 2 ∧
      Verifies (pseudoChecksum 17 · [10, 0, 0, 1]) [0x45, 0x00, 0x00, 0x15, 0x00, 0x00, 0x7f] 2 :=
  (@checksum_verifies _ 17 [10, 0, 0, 1] (by decide) (by decide)).2.2.2 2 (by decide)

end Inet.TCPIPchecksum
