import Mathlib

/-!
# Token buckets

Items arrive in the order of their times, and each is paid for from a bucket that holds at most
`size` tokens and gains at most `rate` tokens in a unit of time. Then the items that arrive in an
interval of length `T` cost at most `size + rate * T` (`Conforms.total_le`), wherever the interval
starts.
-/

namespace TokenBucket

variable {K α : Type*} [Field K] [LinearOrder K] [IsStrictOrderedRing K]
  {time cost : α → K} {size rate level now start stop T : K} {x : α} {xs : List α}

/-- The bucket has `level` tokens at time `now`, and pays for the items. -/
def Conforms (time cost : α → K) (size rate : K) : K → K → List α → Prop
  | _, _, [] => True
  | level, now, x :: xs =>
    now ≤ time x ∧ ∃ rest, 0 ≤ rest ∧ rest + cost x ≤ size ∧
      rest + cost x ≤ level + rate * (time x - now) ∧
      Conforms time cost size rate rest (time x) xs

/-- What the items cost that arrive between two times. -/
def total (time cost : α → K) (start stop : K) (xs : List α) : K :=
  (xs.map fun x => if start ≤ time x ∧ time x ≤ stop then cost x else 0).sum

omit [IsStrictOrderedRing K] in
theorem total_cons_of_mem (hstart : start ≤ time x) (hstop : time x ≤ stop) :
    total time cost start stop (x :: xs) = cost x + total time cost start stop xs := by
  rw [total, List.map_cons, List.sum_cons, if_pos ⟨hstart, hstop⟩, total]

omit [IsStrictOrderedRing K] in
theorem total_cons_of_not_mem (hx : ¬ (start ≤ time x ∧ time x ≤ stop)) :
    total time cost start stop (x :: xs) = total time cost start stop xs := by
  rw [total, List.map_cons, List.sum_cons, if_neg hx, zero_add, total]

omit [IsStrictOrderedRing K] in
/-- After the end of the interval nothing counts. -/
theorem Conforms.total_eq_zero (h : Conforms time cost size rate level now xs) (hnow : stop < now) :
    total time cost start stop xs = 0 := by
  induction xs generalizing level now with
  | nil => rfl
  | cons x xs ih =>
    obtain ⟨hle, rest, -, -, -, hrest⟩ := h
    rw [total_cons_of_not_mem fun hx => (hnow.trans_le hle).not_ge hx.2]
    exact ih hrest (hnow.trans_le hle)

/-- The tokens at the beginning and those gained pay for all that comes. -/
theorem Conforms.total_le_level (h : Conforms time cost size rate level now xs) (hrate : 0 ≤ rate)
    (hlevel : 0 ≤ level) (hstart : start ≤ now) (hstop : now ≤ stop) :
    total time cost start stop xs ≤ level + rate * (stop - now) := by
  induction xs generalizing level now with
  | nil =>
    have := mul_nonneg hrate (sub_nonneg.mpr hstop)
    simp only [total, List.map_nil, List.sum_nil]
    linarith
  | cons x xs ih =>
    obtain ⟨hle, rest, hnonneg, -, hpaid, hrest⟩ := h
    by_cases hx : time x ≤ stop
    · have hlater := ih hrest hnonneg (hstart.trans hle) hx
      rw [total_cons_of_mem (hstart.trans hle) hx]
      have hsplit : rate * (stop - now) = rate * (stop - time x) + rate * (time x - now) := by
        rw [← mul_add, sub_add_sub_cancel]
      linarith
    · have := mul_nonneg hrate (sub_nonneg.mpr hstop)
      rw [total_cons_of_not_mem fun h => hx h.2, hrest.total_eq_zero (not_le.mp hx)]
      linarith

/-- What arrives in an interval costs at most a full bucket and the tokens gained
in the interval. -/
theorem Conforms.total_le (h : Conforms time cost size rate level now xs) (hrate : 0 ≤ rate)
    (hsize : 0 ≤ size) (hT : 0 ≤ T) :
    total time cost start (start + T) xs ≤ size + rate * T := by
  have hgain : 0 ≤ rate * T := mul_nonneg hrate hT
  induction xs generalizing level now with
  | nil =>
    simp only [total, List.map_nil, List.sum_nil]
    linarith
  | cons x xs ih =>
    obtain ⟨-, rest, hnonneg, hfull, -, hrest⟩ := h
    by_cases hx : start ≤ time x ∧ time x ≤ start + T
    · rw [total_cons_of_mem hx.1 hx.2]
      have hlater := hrest.total_le_level hrate hnonneg hx.1 hx.2
      have hshort : rate * (start + T - time x) ≤ rate * T :=
        mul_le_mul_of_nonneg_left (by linarith [hx.1]) hrate
      linarith
    · rw [total_cons_of_not_mem hx]
      exact ih hrest

end TokenBucket
