import Inet.Ipv4.RouteOptimizer

/-!
# Common prefixes

A merge puts the longest common prefix of two networks in their place. That of two merged networks
is the one of two networks that they come from, so whatever the optimizer merges, its networks are
common prefixes of two original ones (`LongestPrefix.merge`).
-/

namespace Inet.Ipv4.IPv4NetworkConfigurator

open IPv4Address (makeNetmask)

variable {d₁ d₂ n₁ n₂ : IPv4Address} {out : IPv4Address × IPv4Address}

/-- A prefix of both networks: the netmask is part of both netmasks, and the destinations agree
on it. -/
structure CommonPrefix (d₁ n₁ d₂ n₂ : IPv4Address) (out : IPv4Address × IPv4Address) : Prop where
  netmask_left : out.2 &&& n₁ = out.2
  netmask_right : out.2 &&& n₂ = out.2
  destination_left : out.1 = d₁ &&& out.2
  destination_right : out.1 = d₂ &&& out.2

theorem and_of_and_ne_zero {k : ℕ} (h : n₁ &&& 1#32 <<< k ≠ 0) :
    1#32 <<< k &&& n₁ = 1#32 <<< k := by
  rw [← BitVec.twoPow_eq, BitVec.and_twoPow] at h
  rw [← BitVec.twoPow_eq, BitVec.twoPow_and]
  split_ifs at h ⊢
  · rfl
  · exact absurd rfl h

theorem CommonPrefix.commonPrefixFrom (h : CommonPrefix d₁ n₁ d₂ n₂ out) (bits : ℕ) :
    CommonPrefix d₁ n₁ d₂ n₂ (commonPrefixFrom d₁ n₁ d₂ n₂ bits out) := by
  induction bits generalizing out with
  | zero => exact h
  | succ bitIndex ih =>
    rw [IPv4NetworkConfigurator.commonPrefixFrom]
    split_ifs with hbit
    · obtain ⟨heq, h₁, h₂⟩ := hbit
      apply ih
      constructor
      · rw [BitVec.and_or_distrib_right, h.netmask_left, and_of_and_ne_zero h₁]
      · rw [BitVec.and_or_distrib_right, h.netmask_right, and_of_and_ne_zero h₂]
      · rw [BitVec.and_or_distrib_left, ← h.destination_left]
      · rw [BitVec.and_or_distrib_left, ← h.destination_right, heq]
    · exact h

theorem findLongestCommonDestinationPrefix_spec :
    CommonPrefix d₁ n₁ d₂ n₂ (findLongestCommonDestinationPrefix d₁ n₁ d₂ n₂) := by
  apply CommonPrefix.commonPrefixFrom
  constructor <;> simp

theorem and_le_right (a b : IPv4Address) : a &&& b ≤ b := by
  rw [BitVec.le_def, BitVec.toNat_and]
  exact Nat.and_le_right

/-- The merged route matches what a merged route with the given destination and netmask did. -/
theorem maskedAddrAreEqual_of_and {a d n netmask : IPv4Address} (hn : netmask &&& n = netmask)
    (h : IPv4Address.maskedAddrAreEqual a d n = true) :
    IPv4Address.maskedAddrAreEqual a (d &&& netmask) netmask = true := by
  rw [IPv4Address.maskedAddrAreEqual_iff] at h ⊢
  calc a &&& netmask = a &&& n &&& netmask := by
        rw [BitVec.and_assoc, BitVec.and_comm n, hn]
    _ = d &&& netmask &&& netmask := by
        rw [h, BitVec.and_assoc, BitVec.and_comm n, hn, BitVec.and_assoc, BitVec.and_self]

/-! ### The longest one -/

/-- The netmask consists of upper bits. -/
def Contiguous (netmask : IPv4Address) : Prop :=
  ∀ i j, i ≤ j → j < 32 → netmask.getLsbD i = true → netmask.getLsbD j = true

theorem getLsbD_makeNetmask (length i : ℕ) :
    (makeNetmask length).getLsbD i = decide (i < 32 ∧ 32 ≤ length + i) := by
  have hones : 0xffffffff#32 = BitVec.allOnes 32 := rfl
  rw [makeNetmask, hones]
  split_ifs
  · rw [BitVec.getLsbD_allOnes]
    exact decide_eq_decide.mpr (by omega)
  · rw [BitVec.getLsbD_not, BitVec.getLsbD_ushiftRight, BitVec.getLsbD_allOnes, ← decide_not,
      ← Bool.decide_and]
    exact decide_eq_decide.mpr (by omega)

theorem contiguous_of_isValidNetmask {n : IPv4Address} (hn : n.isValidNetmask = true) :
    Contiguous n := by
  intro i j hij hj hi
  rw [IPv4Address.isValidNetmask, beq_iff_eq] at hn
  rw [hn, getLsbD_makeNetmask, decide_eq_true_eq] at hi ⊢
  omega

theorem and_eq_left_iff {m n : IPv4Address} :
    m &&& n = m ↔ ∀ i < 32, m.getLsbD i = true → n.getLsbD i = true := by
  constructor
  · intro h i _ hi
    rw [← h, BitVec.getLsbD_and, Bool.and_eq_true] at hi
    exact hi.2
  · intro h
    refine BitVec.eq_of_getLsbD_eq fun i hi => ?_
    rw [BitVec.getLsbD_and]
    cases hm : m.getLsbD i with
    | false => rfl
    | true => rw [h i hi hm]; rfl

/-- Of two netmasks one is part of the other. -/
theorem Contiguous.total {m n : IPv4Address} (hm : Contiguous m) (hn : Contiguous n) :
    m &&& n = m ∨ n &&& m = n := by
  rw [and_eq_left_iff, and_eq_left_iff]
  by_contra hnot
  push Not at hnot
  obtain ⟨⟨i, hi, him, hin⟩, j, hj, hjn, hjm⟩ := hnot
  obtain hij | hij := Nat.le_total i j
  · exact hjm (hm i j hij hj him)
  · exact hin (hn j i hij hi hjn)

theorem Contiguous.and_eq_of_le {m n : IPv4Address} (hm : Contiguous m) (hn : Contiguous n)
    (hle : m ≤ n) : m &&& n = m := by
  obtain h | h := hm.total hn
  · exact h
  · have hge : n ≤ m := by
      rw [← h]
      exact and_le_right _ _
    rw [BitVec.le_antisymm hle hge, BitVec.and_self]

/-- What is left of an address does not change if more had been cut before. -/
theorem and_and_of_and_eq {d m n : IPv4Address} (h : m &&& n = m) : d &&& n &&& m = d &&& m := by
  rw [BitVec.and_assoc, BitVec.and_comm n, h]

theorem and_eq_trans {l m n : IPv4Address} (h : l &&& m = l) (h' : m &&& n = m) : l &&& n = l := by
  rw [← h, BitVec.and_assoc, h']

/-- A common prefix with the longest netmask. -/
structure LongestPrefix (d₁ n₁ d₂ n₂ : IPv4Address) (out : IPv4Address × IPv4Address) : Prop
    extends CommonPrefix d₁ n₁ d₂ n₂ out where
  contiguous : Contiguous out.2
  longest : ∀ n, Contiguous n → n &&& n₁ = n → n &&& n₂ = n → d₁ &&& n = d₂ &&& n → n &&& out.2 = n

theorem and_shiftLeft_ne_zero_iff {x : IPv4Address} {k : ℕ} (hk : k < 32) :
    x &&& 1#32 <<< k ≠ 0 ↔ x.getLsbD k = true := by
  rw [← BitVec.twoPow_eq, BitVec.and_twoPow]
  have hone : BitVec.twoPow 32 k ≠ 0 := by
    intro hzero
    have hbit := congrArg (·.getLsbD k) hzero
    simp [hk] at hbit
  split_ifs with hx
  · exact iff_of_true hone hx
  · exact iff_of_false (not_not.mpr rfl) hx

theorem and_shiftLeft_eq_of_and_eq {x y n : IPv4Address} {k : ℕ} (hn : n.getLsbD k = true)
    (h : x &&& n = y &&& n) : x &&& 1#32 <<< k = y &&& 1#32 <<< k := by
  have hbit := congrArg (·.getLsbD k) h
  simp only [BitVec.getLsbD_and, hn, Bool.and_true] at hbit
  rw [← BitVec.twoPow_eq, BitVec.and_twoPow, BitVec.and_twoPow, hbit]

/-- The loop has added the bits above `bits`. It stops at the first bit that a longer common prefix
would have to have. -/
theorem contiguous_commonPrefixFrom {bits : ℕ} (hbits : bits ≤ 32)
    (hout : ∀ i < 32, out.2.getLsbD i = decide (bits ≤ i)) :
    Contiguous (commonPrefixFrom d₁ n₁ d₂ n₂ bits out).2 ∧
      ∀ n, Contiguous n → n &&& n₁ = n → n &&& n₂ = n → d₁ &&& n = d₂ &&& n →
        n &&& (commonPrefixFrom d₁ n₁ d₂ n₂ bits out).2 = n := by
  induction bits generalizing out with
  | zero =>
    rw [IPv4NetworkConfigurator.commonPrefixFrom]
    refine ⟨fun i j _ hj _ => by simp [hout j hj], fun n _ _ _ _ => ?_⟩
    exact and_eq_left_iff.mpr fun i hi _ => by simp [hout i hi]
  | succ bitIndex ih =>
    rw [IPv4NetworkConfigurator.commonPrefixFrom]
    split_ifs with hbit
    · refine ih (by omega) fun i hi => ?_
      rw [BitVec.getLsbD_or, hout i hi, ← BitVec.twoPow_eq, BitVec.getLsbD_twoPow,
        ← Bool.decide_and, ← Bool.decide_or]
      exact decide_eq_decide.mpr (by omega)
    · refine ⟨fun i j hij hj hi => ?_, fun n hn h₁ h₂ heq => ?_⟩
      · rw [hout j hj, decide_eq_true_eq]
        rw [hout i (by omega), decide_eq_true_eq] at hi
        omega
      · refine and_eq_left_iff.mpr fun i hi hni => ?_
        rw [hout i hi, decide_eq_true_eq]
        by_contra hlow
        have hnb := hn i bitIndex (by omega) (by omega) hni
        refine hbit ⟨and_shiftLeft_eq_of_and_eq hnb heq, ?_, ?_⟩
        · rw [and_shiftLeft_ne_zero_iff (by omega)]
          exact and_eq_left_iff.mp h₁ _ (by omega) hnb
        · rw [and_shiftLeft_ne_zero_iff (by omega)]
          exact and_eq_left_iff.mp h₂ _ (by omega) hnb

theorem longestPrefix_findLongestCommonDestinationPrefix :
    LongestPrefix d₁ n₁ d₂ n₂ (findLongestCommonDestinationPrefix d₁ n₁ d₂ n₂) := by
  obtain ⟨hcontiguous, hlongest⟩ := @contiguous_commonPrefixFrom d₁ d₂ n₁ n₂ (0, 0) 32
    (Nat.le_refl _) (fun i hi => by simp [hi])
  exact ⟨findLongestCommonDestinationPrefix_spec, hcontiguous, hlongest⟩

namespace LongestPrefix

variable {d₃ d₄ n₃ n₄ : IPv4Address} {out' A B M : IPv4Address × IPv4Address}

theorem unique (h : LongestPrefix d₁ n₁ d₂ n₂ out) (h' : LongestPrefix d₁ n₁ d₂ n₂ out') :
    out = out' := by
  have heq (o : IPv4Address × IPv4Address) (ho : LongestPrefix d₁ n₁ d₂ n₂ o) :
      d₁ &&& o.2 = d₂ &&& o.2 := ho.destination_left.symm.trans ho.destination_right
  have hmask : out.2 = out'.2 := by
    have hle := h'.longest _ h.contiguous h.netmask_left h.netmask_right (heq _ h)
    have hge := h.longest _ h'.contiguous h'.netmask_left h'.netmask_right (heq _ h')
    rw [← hle, BitVec.and_comm, hge]
  refine Prod.ext ?_ hmask
  rw [h.destination_left, h'.destination_left, hmask]

theorem self {d n : IPv4Address} (hn : Contiguous n) (hd : d &&& n = d) :
    LongestPrefix d n d n (d, n) where
  netmask_left := BitVec.and_self
  netmask_right := BitVec.and_self
  destination_left := hd.symm
  destination_right := hd.symm
  contiguous := hn
  longest := fun _ _ h _ _ => h

/-- The longest common prefix of two common prefixes. If it is neither of them, they differ in the
bit behind it, and so do the networks that they come from. -/
theorem merge (hA : LongestPrefix d₁ n₁ d₂ n₂ A) (hB : LongestPrefix d₃ n₃ d₄ n₄ B)
    (hM : LongestPrefix A.1 A.2 B.1 B.2 M) :
    M = A ∨ M = B ∨ LongestPrefix d₁ n₁ d₃ n₃ M := by
  obtain ⟨L, hL⟩ : ∃ L, LongestPrefix d₁ n₁ d₃ n₃ L :=
    ⟨_, longestPrefix_findLongestCommonDestinationPrefix⟩
  have hagree : d₁ &&& L.2 = d₃ &&& L.2 := hL.destination_left.symm.trans hL.destination_right
  -- a part of both netmasks and of the longest one is that of a common prefix
  have hcommon (n : IPv4Address) (hn : Contiguous n) (hnA : n &&& A.2 = n) (hnB : n &&& B.2 = n)
      (hnL : n &&& L.2 = n) : n &&& M.2 = n := by
    refine hM.longest n hn hnA hnB ?_
    rw [hA.destination_left, hB.destination_left, and_and_of_and_eq hnA, and_and_of_and_eq hnB,
      ← and_and_of_and_eq hnL, hagree, and_and_of_and_eq hnL]
  have hleft (h : A.2 &&& M.2 = A.2) : M = A := by
    have hmask : M.2 = A.2 := by rw [← h, BitVec.and_comm, hM.netmask_left]
    refine Prod.ext ?_ hmask
    rw [hM.destination_left, hmask, hA.destination_left, BitVec.and_assoc, BitVec.and_self]
  have hright (h : B.2 &&& M.2 = B.2) : M = B := by
    have hmask : M.2 = B.2 := by rw [← h, BitVec.and_comm, hM.netmask_right]
    refine Prod.ext ?_ hmask
    rw [hM.destination_right, hmask, hB.destination_left, BitVec.and_assoc, BitVec.and_self]
  have hboth (hLA : L.2 &&& A.2 = L.2) (hLB : L.2 &&& B.2 = L.2) : LongestPrefix d₁ n₁ d₃ n₃ M := by
    have hle := hcommon _ hL.contiguous hLA hLB BitVec.and_self
    have hfrom : M.1 = d₁ &&& M.2 := by
      rw [hM.destination_left, hA.destination_left, and_and_of_and_eq hM.netmask_left]
    have hfrom' : M.1 = d₃ &&& M.2 := by
      rw [hM.destination_right, hB.destination_left, and_and_of_and_eq hM.netmask_right]
    have hge := hL.longest _ hM.contiguous (and_eq_trans hM.netmask_left hA.netmask_left)
      (and_eq_trans hM.netmask_right hB.netmask_left) (hfrom.symm.trans hfrom')
    have hmask : L.2 = M.2 := by rw [← hle, BitVec.and_comm, hge]
    have hML : L = M := Prod.ext (by rw [hL.destination_left, hfrom, hmask]) hmask
    exact hML ▸ hL
  -- the shortest of the three netmasks is the one of the result
  obtain hAB | hBA := hA.contiguous.total hB.contiguous
  · obtain hAL | hLA := hA.contiguous.total hL.contiguous
    · exact .inl (hleft (hcommon _ hA.contiguous BitVec.and_self hAB hAL))
    · exact .inr (.inr (hboth hLA (and_eq_trans hLA hAB)))
  · obtain hBL | hLB := hB.contiguous.total hL.contiguous
    · exact .inr (.inl (hright (hcommon _ hB.contiguous hBA BitVec.and_self hBL)))
    · exact .inr (.inr (hboth (and_eq_trans hLB hBA) hLB))

end LongestPrefix

end Inet.Ipv4.IPv4NetworkConfigurator
