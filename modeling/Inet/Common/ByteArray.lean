import Inet.Common.Basic

/-!
# Byte arrays

A `ByteArray` of the source is a sized buffer of `char`s; its contents are a list
here. A raw `char *` buffer is a list as well, and `memcpy` replaces the part of it
that starts at an offset. `slice` is a part of an endless byte stream.
-/

namespace Inet

abbrev Bytes := List UInt8

/-- `memcpy(buffer + offset, src, src.length)`. -/
def memcpy (buffer : Bytes) (offset : ℕ) (src : Bytes) : Bytes :=
  buffer.take offset ++ src ++ buffer.drop (offset + src.length)

/-- `new char[length]`. The contents are unspecified; every user overwrites them. -/
def newBuffer (length : ℕ) : Bytes := List.replicate length 0

namespace ByteArray

/-- The bytes that `copyDataToBuffer(ptr, length, srcOffs)` copies to `ptr`; their
number is what it returns. -/
def copyDataToBuffer (data : Bytes) (length srcOffs : ℕ) : Bytes :=
  if srcOffs ≥ data.length then []
  else if srcOffs + length > data.length then (data.drop srcOffs).take (data.length - srcOffs)
  else (data.drop srcOffs).take length

def setDataFromByteArray (other : Bytes) (srcOffs length : ℕ) : Result Bytes := do
  assert (srcOffs + length ≤ other.length) "srcOffs + length <= other.data_arraysize"
  .ok ((other.drop srcOffs).take length)

def truncateData (data : Bytes) (truncleft truncright : ℕ) : Result Bytes := do
  assert (data.length ≥ truncleft + truncright) "data_arraysize >= (truncleft + truncright)"
  if truncleft ≠ 0 ∨ truncright ≠ 0 then
    .ok ((data.drop truncleft).take (data.length - (truncleft + truncright)))
  else
    .ok data

/-- The bytes that the array grows by are unspecified. -/
def copyDataFromBuffer (data : Bytes) (destOffset : ℕ) (src : Bytes) : Bytes :=
  memcpy (data ++ newBuffer (destOffset + src.length - data.length)) destOffset src

/-- The bytes that are added are unspecified. -/
def expandData (data : Bytes) (addleft addright : ℕ) : Bytes :=
  newBuffer addleft ++ data ++ newBuffer addright

theorem copyDataToBuffer_eq {data : Bytes} {length : ℕ} (h : length ≤ data.length) :
    copyDataToBuffer data length 0 = data.take length := by
  unfold copyDataToBuffer
  split_ifs with h₁ h₂
  · have : data = [] := List.eq_nil_of_length_eq_zero (by omega)
    simp [this]
  · omega
  · simp

theorem setDataFromByteArray_eq {other : Bytes} {length : ℕ} (h : length ≤ other.length) :
    setDataFromByteArray other 0 length = .ok (other.take length) := by
  rw [setDataFromByteArray, assert_of (by simpa using h)]
  simp [bind, Except.bind]

theorem truncateData_left {data : Bytes} {n : ℕ} (h : n ≤ data.length) :
    truncateData data n 0 = .ok (data.drop n) := by
  rw [truncateData, assert_of (by simpa using h)]
  simp only [bind, Except.bind]
  split_ifs with h₁
  · rw [Nat.add_zero, List.take_of_length_le (by simp)]
  · obtain rfl : n = 0 := by omega
    rfl

theorem exists_truncateData {data : Bytes} {l r : ℕ} (h : l + r ≤ data.length) :
    ∃ data', truncateData data l r = .ok data' := by
  rw [truncateData, assert_of (by simpa using h), ok_bind]
  split_ifs
  · exact ⟨_, rfl⟩
  · exact ⟨_, rfl⟩

end ByteArray

/-- Overwriting the middle of a buffer that is exactly covered by three parts. -/
theorem memcpy_eq {a b c d : Bytes} (h : d.length = b.length) :
    memcpy (a ++ b ++ c) a.length d = a ++ d ++ c := by
  simp [memcpy, h]

/-- Overwriting the front of a buffer. -/
theorem memcpy_zero {a b d : Bytes} (h : d.length = a.length) : memcpy (a ++ b) 0 d = d ++ b := by
  simp [memcpy, h]

theorem newBuffer_add (m n : ℕ) : newBuffer (m + n) = newBuffer m ++ newBuffer n :=
  List.replicate_append_replicate.symm

@[simp] theorem length_newBuffer (n : ℕ) : (newBuffer n).length = n := by
  simp [newBuffer]

variable {S T : ℕ → UInt8} {b m e : ℕ}

/-- The bytes at the positions `[b, e)` of a stream. -/
def slice (S : ℕ → UInt8) (b e : ℕ) : Bytes := (List.range' b (e - b)).map S

@[simp] theorem length_slice : (slice S b e).length = e - b := by
  simp [slice]

theorem slice_append (h₁ : b ≤ m) (h₂ : m ≤ e) : slice S b m ++ slice S m e = slice S b e := by
  have hm : m = b + (m - b) := by omega
  have he : e - b = (m - b) + (e - m) := by omega
  rw [slice, slice, ← List.map_append, slice, he]
  nth_rewrite 2 [hm]
  rw [List.range'_append_1]

theorem take_slice {n : ℕ} (h : b + n ≤ e) : (slice S b e).take n = slice S b (b + n) := by
  rw [slice, ← List.map_take, List.take_range'_of_length_ge (by omega), slice,
    Nat.add_sub_cancel_left]

theorem drop_slice (n : ℕ) : (slice S b e).drop n = slice S (b + n) e := by
  rw [slice, ← List.map_drop, List.drop_range', Nat.mul_one, slice, Nat.sub_sub]

theorem slice_eq_iff : slice S b e = slice T b e ↔ ∀ k, b ≤ k → k < e → S k = T k := by
  simp only [slice, List.map_inj_left, List.mem_range'_1]
  constructor
  · intro h k h₁ h₂
    exact h k ⟨h₁, by omega⟩
  · intro h k hk
    exact h k hk.1 (by omega)

/-- Parts of equal length, at different positions. -/
theorem slice_eq_slice_add {c n : ℕ} (h : ∀ k < n, S (b + k) = T (c + k)) :
    slice S b (b + n) = slice T c (c + n) := by
  simp only [slice, Nat.add_sub_cancel_left, List.range'_eq_map_range, List.map_map]
  exact List.map_congr_left fun k hk => h k (List.mem_range.mp hk)

end Inet
