import Inet.Common.ShortBitVector
import Inet.Library.PopCount

/-!
# The bit count of short bit vectors

`ShortBitVector` counts the bits in which two words differ by adding fields of the word, first of
one bit, then of two and of four bits. The last step multiplies the word by `0x01010101`, which
adds its bytes in the most significant one.
-/

namespace Inet

open PopCount

/-- Two fields of four bits that are added to their neighbours. -/
theorem evenDigits_step {a b y x n : ℕ} (ha : a ≤ 6) (hb : b ≤ 6) (hy : y % 16 ≤ 6)
    (hx : x = a + 16 * (b + 16 * y)) :
    evenDigits 4 (n + 1) (x + x / 16) = a + b + 256 * evenDigits 4 n (y + y / 16) := by
  have hmod : (x + x / 16) % 16 = a + b := by omega
  have hdiv : (x + x / 16) / 256 = y + y / 16 := by omega
  change (x + x / 16) % 16 + 256 * evenDigits 4 n ((x + x / 16) / 256) = _
  rw [hmod, hdiv]

theorem digitSum_step {a b y x n : ℕ} (ha : a ≤ 6) (hb : b ≤ 6)
    (hx : x = a + 16 * (b + 16 * y)) : digitSum 4 (n + 2) x = a + b + digitSum 4 n y := by
  have hmod : x % 16 = a := by omega
  have hdiv : x / 16 = b + 16 * y := by omega
  have hmod' : (b + 16 * y) % 16 = b := by omega
  have hdiv' : (b + 16 * y) / 16 = y := by omega
  change x % 16 + (x / 16 % 16 + digitSum 4 n (x / 16 / 16)) = _
  rw [hmod, hdiv, hmod', hdiv', Nat.add_assoc]

theorem addBytes_eq {p q r s : ℕ} (hp : p ≤ 12) (hq : q ≤ 12) (hr : r ≤ 12) (hs : s ≤ 12) :
    (p + 256 * (q + 256 * (r + 256 * (s + 256 * 0)))) * 0x01010101 % 2 ^ 32 / 2 ^ 24 =
      p + q + r + s := by
  have hproduct : (p + 256 * (q + 256 * (r + 256 * (s + 256 * 0)))) * 0x01010101 =
      p + 256 * (p + q) + 65536 * (p + q + r) + 2 ^ 24 * (p + q + r + s) +
        2 ^ 32 * (q + r + s + 256 * (r + s) + 65536 * s) := by ring
  rw [hproduct, Nat.add_mul_mod_self_left, Nat.mod_eq_of_lt (by omega)]
  omega

/-- The last step: the four bytes of a word are added by a multiplication. -/
theorem multiply_eq {a b c d e f g h : ℕ} (ha : a ≤ 6) (hb : b ≤ 6) (hc : c ≤ 6)
    (hd : d ≤ 6) (he : e ≤ 6) (hf : f ≤ 6) (hg : g ≤ 6) (hh : h ≤ 6) {x : ℕ}
    (hx : x = a + 16 * (b + 16 * (c + 16 * (d + 16 * (e + 16 * (f + 16 * (g + 16 * h))))))) :
    evenDigits 4 4 (x + x / 16) * 0x01010101 % 2 ^ 32 / 2 ^ 24 = digitSum 4 8 x := by
  have hx₃ : g + 16 * h = g + 16 * (h + 16 * 0) := by omega
  rw [evenDigits_step ha hb (by omega) hx, evenDigits_step hc hd (by omega) rfl,
    evenDigits_step he hf (by omega) rfl, evenDigits_step hg hh (by omega) hx₃,
    digitSum_step ha hb hx, digitSum_step hc hd rfl, digitSum_step he hf rfl,
    digitSum_step hg hh hx₃]
  change (a + b + 256 * (c + d + 256 * (e + f + 256 * (g + h + 256 * 0)))) * _ % _ / _ = _
  rw [addBytes_eq (by omega) (by omega) (by omega) (by omega)]
  change _ = a + b + (c + d + (e + f + (g + h + 0)))
  omega

/-- Fields of four bits that are sums of two fields of two bits. -/
theorem exists_nibble (n y : ℕ) : ∃ a ≤ 6, ∃ y',
    evenDigits 2 (n + 1) y + evenDigits 2 (n + 1) (y / 2 ^ 2) =
      a + 16 * (evenDigits 2 n y' + evenDigits 2 n (y' / 2 ^ 2)) := by
  refine ⟨y % 4 + y / 4 % 4, by omega, y / 16, ?_⟩
  exact evenDigits_succ_add n y

theorem multiply_pairs {x : ℕ} (y : ℕ) (hx : x = evenDigits 2 8 y + evenDigits 2 8 (y / 2 ^ 2)) :
    evenDigits 4 4 (x + x / 16) * 0x01010101 % 2 ^ 32 / 2 ^ 24 = digitSum 4 8 x := by
  obtain ⟨a, ha, y₁, h₁⟩ := exists_nibble 7 y
  obtain ⟨b, hb, y₂, h₂⟩ := exists_nibble 6 y₁
  obtain ⟨c, hc, y₃, h₃⟩ := exists_nibble 5 y₂
  obtain ⟨d, hd, y₄, h₄⟩ := exists_nibble 4 y₃
  obtain ⟨e, he, y₅, h₅⟩ := exists_nibble 3 y₄
  obtain ⟨f, hf, y₆, h₆⟩ := exists_nibble 2 y₅
  obtain ⟨g, hg, y₇, h₇⟩ := exists_nibble 1 y₆
  obtain ⟨h, hh, y₈, h₈⟩ := exists_nibble 0 y₇
  refine multiply_eq ha hb hc hd he hf hg hh ?_
  rw [hx, h₁, h₂, h₃, h₄, h₅, h₆, h₇, h₈]
  rfl

section

variable {w n : ℕ} {mask : Uint32} (hmask : evenMask w n = mask.toNat)
include hmask

theorem toNat_and_mask (x : Uint32) : (x &&& mask).toNat = evenDigits w n x.toNat := by
  rw [BitVec.toNat_and, ← hmask, and_evenMask]

theorem toNat_shift_and_mask (x : Uint32) :
    ((x >>> w) &&& mask).toNat = evenDigits w n (x.toNat / 2 ^ w) := by
  rw [toNat_and_mask hmask, BitVec.toNat_ushiftRight, Nat.shiftRight_eq_div_pow]

theorem evenDigits_le_mask (x : ℕ) : evenDigits w n x ≤ mask.toNat := by
  rw [← and_evenMask, hmask]
  exact Nat.and_le_right

end

theorem evenMask_one : evenMask 1 16 = (0x55555555#32).toNat := by decide +kernel

theorem evenMask_two : evenMask 2 8 = (0x33333333#32).toNat := by decide +kernel

theorem evenMask_four : evenMask 4 4 = (0x0F0F0F0F#32).toNat := by decide +kernel

/-- The first step gives fields of two bits. -/
theorem toNat_subtract (x : Uint32) : (x - ((x >>> 1) &&& 0x55555555#32)).toNat =
    evenDigits 1 16 x.toNat + evenDigits 1 16 (x.toNat / 2 ^ 1) := by
  have hx : x.toNat < 2 ^ (2 * 1 * 16) := x.isLt
  have hsplit := evenDigits_add_odd 16 x.toNat hx
  have hodd := toNat_shift_and_mask evenMask_one x
  rw [BitVec.toNat_sub_of_le (by rw [BitVec.le_def, hodd]; omega), hodd]
  omega

theorem pairs_le (y : ℕ) : evenDigits 2 8 y + evenDigits 2 8 (y / 2 ^ 2) ≤ 0x66666666 := by
  have heven : evenDigits 2 8 y ≤ 0x33333333 := evenDigits_le_mask evenMask_two _
  have hodd : evenDigits 2 8 (y / 2 ^ 2) ≤ 0x33333333 := evenDigits_le_mask evenMask_two _
  omega

/-- The second step gives fields of four bits. -/
theorem toNat_addPairs (y : Uint32) :
    ((y &&& 0x33333333#32) + ((y >>> 2) &&& 0x33333333#32)).toNat =
      evenDigits 2 8 y.toNat + evenDigits 2 8 (y.toNat / 2 ^ 2) := by
  have hle := pairs_le y.toNat
  rw [BitVec.toNat_add, toNat_and_mask evenMask_two, toNat_shift_and_mask evenMask_two,
    Nat.mod_eq_of_lt (by omega)]

/-- The last step gives the sum of the bytes. -/
theorem toNat_multiply {z : Uint32} (hz : z.toNat ≤ 0x66666666) :
    ((((z + (z >>> 4)) &&& 0x0F0F0F0F#32) * 0x01010101#32) >>> 24).toNat =
      evenDigits 4 4 (z.toNat + z.toNat / 16) * 0x01010101 % 2 ^ 32 / 2 ^ 24 := by
  have hsum : (z.toNat + z.toNat / 2 ^ 4) % 2 ^ 32 = z.toNat + z.toNat / 2 ^ 4 :=
    Nat.mod_eq_of_lt (by omega)
  rw [BitVec.toNat_ushiftRight, BitVec.toNat_mul, toNat_and_mask evenMask_four, BitVec.toNat_add,
    BitVec.toNat_ushiftRight, Nat.shiftRight_eq_div_pow, Nat.shiftRight_eq_div_pow, hsum]
  rfl

/-- The bit tricks count the bits of a word. -/
theorem toNat_popCount (x : Uint32) :
    (ShortBitVector.popCount x).toNat = Nat.count (fun i => x.getLsbD i = true) 32 := by
  let y := x - ((x >>> 1) &&& 0x55555555#32)
  let z := (y &&& 0x33333333#32) + ((y >>> 2) &&& 0x33333333#32)
  have hy : y.toNat = _ := toNat_subtract x
  have hz : z.toNat = _ := toNat_addPairs y
  have hle : z.toNat ≤ 0x66666666 := hz.trans_le (pairs_le _)
  calc (ShortBitVector.popCount x).toNat
      _ = evenDigits 4 4 (z.toNat + z.toNat / 16) * 0x01010101 % 2 ^ 32 / 2 ^ 24 :=
          toNat_multiply hle
      _ = digitSum 4 8 z.toNat := multiply_pairs y.toNat hz
      _ = digitSum 2 16 y.toNat := (congrArg _ hz).trans (digitSum_add (by decide) 8 _)
      _ = digitSum 1 32 x.toNat := (congrArg _ hy).trans (digitSum_add (by decide) 16 _)
      _ = _ := digitSum_one 32 x.toNat

end Inet
