import Inet.Common.Basic

/-!
# IPv6 addresses

An `IPv6Address` is four 32-bit words, the most significant one first. `matches` compares two
addresses under the mask of a prefix length, which is to say that it compares their first bits
(`isMatching_eq`).
-/

namespace Inet.Ipv6

@[ext]
structure IPv6Address where
  d0 : Uint32 := 0
  d1 : Uint32 := 0
  d2 : Uint32 := 0
  d3 : Uint32 := 0
deriving DecidableEq

namespace IPv6Address

def isUnspecified (addr : IPv6Address) : Bool :=
  (addr.d0 ||| addr.d1 ||| addr.d2 ||| addr.d3) == 0#32

theorem isUnspecified_iff {addr : IPv6Address} : addr.isUnspecified = true ↔ addr = {} := by
  rw [isUnspecified, beq_iff_eq, BitVec.or_eq_zero_iff, BitVec.or_eq_zero_iff,
    BitVec.or_eq_zero_iff, IPv6Address.ext_iff]
  simp only [and_assoc]
  exact Iff.rfl

def constructMask (prefixLength : ℕ) : Result IPv6Address := do
  assert (decide (prefixLength ≤ 128))
    "prefixLength >= 0 && prefixLength <= 128 && mask != nullptr"
  if prefixLength = 0 then .ok ⟨0, 0, 0, 0⟩
  else if prefixLength ≤ 32 then .ok ⟨0xffffffff#32 <<< (32 - prefixLength), 0, 0, 0⟩
  else if prefixLength ≤ 64 then
    .ok ⟨0xffffffff#32, 0xffffffff#32 <<< (64 - prefixLength), 0, 0⟩
  else if prefixLength ≤ 96 then
    .ok ⟨0xffffffff#32, 0xffffffff#32, 0xffffffff#32 <<< (96 - prefixLength), 0⟩
  else .ok ⟨0xffffffff#32, 0xffffffff#32, 0xffffffff#32, 0xffffffff#32 <<< (128 - prefixLength)⟩

/-- `IPv6Address::matches`. -/
def isMatching (addr pre : IPv6Address) (prefixLength : ℕ) : Result Bool := do
  let mask ← constructMask prefixLength
  .ok ((((addr.d0 ^^^ pre.d0) &&& mask.d0) ||| ((addr.d1 ^^^ pre.d1) &&& mask.d1) |||
    ((addr.d2 ^^^ pre.d2) &&& mask.d2) ||| ((addr.d3 ^^^ pre.d3) &&& mask.d3)) == 0#32)

/-- A bit of an address, counted from the most significant one. -/
def bit (addr : IPv6Address) (i : ℕ) : Bool :=
  if i < 32 then addr.d0.getMsbD i
  else if i < 64 then addr.d1.getMsbD (i - 32)
  else if i < 96 then addr.d2.getMsbD (i - 64)
  else addr.d3.getMsbD (i - 96)

/-- The first `prefixLength` bits of two addresses are the same. -/
def Agree (addr pre : IPv6Address) (prefixLength : ℕ) : Prop :=
  ∀ i < prefixLength, addr.bit i = pre.bit i

instance (addr pre : IPv6Address) (prefixLength : ℕ) : Decidable (Agree addr pre prefixLength) :=
  inferInstanceAs (Decidable (∀ i < prefixLength, _))

/-- A word of a mask selects the first bits of the word. -/
theorem masked_eq_zero_iff {x y : Uint32} {n : ℕ} :
    (x ^^^ y) &&& (0xffffffff#32 <<< (32 - n)) = 0#32 ↔
      ∀ i < 32, i < n → x.getMsbD i = y.getMsbD i := by
  have hones : ∀ i, (0xffffffff#32).getMsbD i = decide (i < 32) := fun i =>
    (BitVec.getMsbD_allOnes (v := 32)).trans rfl
  have hbit : ∀ i < 32, (((x ^^^ y) &&& (0xffffffff#32 <<< (32 - n))).getMsbD i = false ↔
      (i < n → x.getMsbD i = y.getMsbD i)) := by
    intro i hi
    rw [BitVec.getMsbD_and, BitVec.getMsbD_xor, BitVec.getMsbD_shiftLeft, hones]
    by_cases hin : i < n
    · simp [show i + (32 - n) < 32 by omega, hin]
    · simp [show ¬ i + (32 - n) < 32 by omega, hin]
  constructor
  · intro h i hi
    refine (hbit i hi).mp ?_
    rw [h, BitVec.getMsbD_zero]
  · intro h
    refine BitVec.eq_of_getMsbD_eq fun i hi => ?_
    rw [BitVec.getMsbD_zero]
    exact (hbit i hi).mpr (h i hi)

/-- All masks have one form. -/
theorem constructMask_eq {n : ℕ} (hn : n ≤ 128) :
    constructMask n = .ok ⟨0xffffffff#32 <<< (32 - n), 0xffffffff#32 <<< (32 - (n - 32)),
      0xffffffff#32 <<< (32 - (n - 64)), 0xffffffff#32 <<< (32 - (n - 96))⟩ := by
  have hfull : ∀ {k : ℕ}, 32 ≤ k → 0xffffffff#32 <<< (32 - k) = 0xffffffff#32 := fun hk => by
    rw [Nat.sub_eq_zero_of_le hk]
    rfl
  have hempty : ∀ {k : ℕ}, n ≤ k → 0xffffffff#32 <<< (32 - (n - k)) = 0#32 := fun hk => by
    rw [Nat.sub_eq_zero_of_le hk]
    rfl
  rw [constructMask, assert_of (decide_eq_true hn), ok_bind]
  split_ifs with h0 h32 h64 h96
  · subst h0
    rfl
  · rw [hempty h32, hempty (by omega : n ≤ 64), hempty (by omega : n ≤ 96)]
    rfl
  · rw [hfull (by omega : 32 ≤ n), hempty h64, hempty (by omega : n ≤ 96),
      show 32 - (n - 32) = 64 - n by omega]
    rfl
  · rw [hfull (by omega : 32 ≤ n), hfull (by omega : 32 ≤ n - 32), hempty h96,
      show 32 - (n - 64) = 96 - n by omega]
    rfl
  · rw [hfull (by omega : 32 ≤ n), hfull (by omega : 32 ≤ n - 32),
      hfull (by omega : 32 ≤ n - 64), show 32 - (n - 96) = 128 - n by omega]

theorem agree_iff {addr pre : IPv6Address} {n : ℕ} (hn : n ≤ 128) : Agree addr pre n ↔
    (((∀ i < 32, i < n → addr.d0.getMsbD i = pre.d0.getMsbD i) ∧
      ∀ i < 32, i < n - 32 → addr.d1.getMsbD i = pre.d1.getMsbD i) ∧
      ∀ i < 32, i < n - 64 → addr.d2.getMsbD i = pre.d2.getMsbD i) ∧
      ∀ i < 32, i < n - 96 → addr.d3.getMsbD i = pre.d3.getMsbD i := by
  constructor
  · intro h
    refine ⟨⟨⟨fun i hi hin => ?_, fun i hi hin => ?_⟩, fun i hi hin => ?_⟩, fun i hi hin => ?_⟩
    · simpa [bit, hi] using h i hin
    · simpa [bit, show ¬ i + 32 < 32 by omega, show i + 32 < 64 by omega] using
        h (i + 32) (by omega)
    · simpa [bit, show ¬ i + 64 < 32 by omega, show ¬ i + 64 < 64 by omega,
        show i + 64 < 96 by omega] using h (i + 64) (by omega)
    · simpa [bit, show ¬ i + 96 < 32 by omega, show ¬ i + 96 < 64 by omega,
        show ¬ i + 96 < 96 by omega] using h (i + 96) (by omega)
  · rintro ⟨⟨⟨h0, h1⟩, h2⟩, h3⟩ i hi
    rw [bit, bit]
    split_ifs with h32 h64 h96
    · exact h0 i h32 hi
    · exact h1 (i - 32) (by omega) (by omega)
    · exact h2 (i - 64) (by omega) (by omega)
    · exact h3 (i - 96) (by omega) (by omega)

theorem isMatching_eq {addr pre : IPv6Address} {n : ℕ} (hn : n ≤ 128) :
    isMatching addr pre n = .ok (decide (Agree addr pre n)) := by
  rw [isMatching, constructMask_eq hn, ok_bind]
  refine congrArg Except.ok (Bool.eq_iff_iff.mpr ?_)
  rw [beq_iff_eq, decide_eq_true_iff, BitVec.or_eq_zero_iff, BitVec.or_eq_zero_iff,
    BitVec.or_eq_zero_iff, masked_eq_zero_iff, masked_eq_zero_iff, masked_eq_zero_iff,
    masked_eq_zero_iff, agree_iff hn]

end IPv6Address

end Inet.Ipv6
