import Inet.Common.ByteArray
import Inet.Library.Fifo
import Inet.Library.Run

/-!
# Byte buffers

`ByteArrayBuffer` stores bytes as the slices in which they have been pushed. Reading skips whole
slices, and dropping truncates the first slice that is left. `Holds` says which bytes are in the
buffer, and every function is one on these bytes.

Lengths and offsets are `unsigned int`, so that `srcOffs + length` may wrap; `copyDataToBuffer`
then reads behind the array.
-/

namespace Inet

open List

structure ByteArrayBuffer where
  dataLength : ℕ := 0
  dataList : List Bytes := []

namespace ByteArrayBuffer

def push (buffer : ByteArrayBuffer) (byteArray : Bytes) : ByteArrayBuffer where
  dataLength := buffer.dataLength + byteArray.length
  dataList := buffer.dataList ++ [byteArray]

/-- `ByteArray::copyDataToBuffer` with the sum of 32 bits. -/
def copyDataToBuffer (data : Bytes) (length srcOffs : ℕ) : Result Bytes :=
  if srcOffs ≥ data.length then .ok []
  else
    let length :=
      if (srcOffs + length) % 2 ^ 32 > data.length then data.length - srcOffs else length
    if srcOffs + length > data.length then .error .outOfRange
    else .ok ((data.drop srcOffs).take length)

/-- The loop of `getBytesToBuffer`, with the bytes that have been copied. -/
def copySlices : List Bytes → ℕ → ℕ → Bytes → Result Bytes
  | [], _, _, copied => .ok copied
  | slice :: rest, bufferLength, srcOffs, copied =>
    if copied.length < bufferLength then do
      let bytes ← copyDataToBuffer slice (bufferLength - copied.length) srcOffs
      if bytes ≠ [] then copySlices rest bufferLength 0 (copied ++ bytes)
      else copySlices rest bufferLength (srcOffs - slice.length) copied
    else .ok copied

/-- The bytes that are copied; their number is what the source returns. -/
def getBytesToBuffer (buffer : ByteArrayBuffer) (bufferLength srcOffs : ℕ) : Result Bytes :=
  copySlices buffer.dataList bufferLength srcOffs []

/-- The loop of `drop`. -/
def dropSlices : List Bytes → ℕ → ℕ → Result ByteArrayBuffer
  | [], dataLength, length =>
    if length > 0 then .error .invalidIterator else .ok { dataLength, dataList := [] }
  | slice :: rest, dataLength, length =>
    if length > 0 then
      if slice.length ≤ length then
        dropSlices rest (dataLength - slice.length) (length - slice.length)
      else do
        let slice ← ByteArray.truncateData slice length 0
        .ok { dataLength := dataLength - length, dataList := slice :: rest }
    else .ok { dataLength, dataList := slice :: rest }

def drop (buffer : ByteArrayBuffer) (length : ℕ) : Result ByteArrayBuffer := do
  assert (length ≤ buffer.dataLength) "lengthP <= dataLengthM"
  dropSlices buffer.dataList buffer.dataLength length

def popBytesToBuffer (buffer : ByteArrayBuffer) (bufferLength : ℕ) :
    Result (Bytes × ByteArrayBuffer) := do
  let bytes ← buffer.getBytesToBuffer bufferLength 0
  let buffer ← buffer.drop bytes.length
  .ok (bytes, buffer)

section

variable {buffer : ByteArrayBuffer} {contents slice copied : Bytes} {slices : List Bytes}
  {length srcOffs n : ℕ}

theorem copyDataToBuffer_eq (h : srcOffs + length < 2 ^ 32) :
    copyDataToBuffer slice length srcOffs = .ok ((slice.drop srcOffs).take length) := by
  rw [copyDataToBuffer, Nat.mod_eq_of_lt h]
  by_cases hskip : srcOffs ≥ slice.length
  · rw [if_pos hskip, drop_eq_nil_of_le hskip, take_nil]
  · rw [if_neg hskip]
    by_cases hover : srcOffs + length > slice.length
    · have hall : (slice.drop srcOffs).length ≤ length := by
        rw [length_drop]
        omega
      simp only [if_pos hover]
      rw [if_neg (by omega), take_of_length_le hall, take_of_length_le (Nat.le_of_eq length_drop)]
    · simp only [if_neg hover]

/-- The loop goes on with what is missing. -/
theorem copySlices_eq (h : srcOffs + (length - copied.length) < 2 ^ 32) :
    copySlices slices length srcOffs copied =
      .ok (copied ++ (slices.flatten.drop srcOffs).take (length - copied.length)) := by
  induction slices generalizing srcOffs copied with
  | nil => simp [copySlices]
  | cons slice slices ih =>
    rw [copySlices]
    split_ifs with hlt
    · rw [copyDataToBuffer_eq h, ok_bind, flatten_cons, drop_append, take_append]
      by_cases hskip : slice.length ≤ srcOffs
      · rw [drop_eq_nil_of_le hskip, take_nil, if_neg (by simp), ih (by omega)]
        simp
      · have hne : (slice.drop srcOffs).take (length - copied.length) ≠ [] := by
          rw [ne_eq, take_eq_nil_iff, drop_eq_nil_iff]
          omega
        have hcopied : (copied ++ (slice.drop srcOffs).take (length - copied.length)).length =
            copied.length + min (length - copied.length) (slice.length - srcOffs) := by
          rw [length_append, length_take, length_drop]
        have hoffs : srcOffs - slice.length = 0 := by omega
        have hmissing : length - (copied ++
            (slice.drop srcOffs).take (length - copied.length)).length =
              length - copied.length - (slice.drop srcOffs).length := by
          rw [hcopied, length_drop]
          omega
        rw [if_pos hne, ih (by omega), hmissing, hoffs, append_assoc]
    · rw [show length - copied.length = 0 by omega, take_zero, append_nil]

/-- The bytes in the buffer. -/
structure Holds (buffer : ByteArrayBuffer) (contents : Bytes) : Prop where
  flatten : buffer.dataList.flatten = contents
  dataLength : buffer.dataLength = contents.length

theorem Holds.empty : Holds {} [] := ⟨rfl, rfl⟩

theorem Holds.push (h : Holds buffer contents) (byteArray : Bytes) :
    Holds (buffer.push byteArray) (contents ++ byteArray) := by
  refine ⟨?_, ?_⟩
  · simp [ByteArrayBuffer.push, h.flatten]
  · simp [ByteArrayBuffer.push, h.dataLength]

theorem Holds.getBytesToBuffer (h : Holds buffer contents) (hlt : srcOffs + length < 2 ^ 32) :
    buffer.getBytesToBuffer length srcOffs = .ok ((contents.drop srcOffs).take length) := by
  rw [ByteArrayBuffer.getBytesToBuffer, copySlices_eq (by simpa using hlt), h.flatten]
  simp

theorem dropSlices_spec (hn : n ≤ slices.flatten.length) :
    ∃ buffer, dropSlices slices slices.flatten.length n = .ok buffer ∧
      Holds buffer (slices.flatten.drop n) := by
  induction slices generalizing n with
  | nil =>
    obtain rfl : n = 0 := by simpa using hn
    exact ⟨_, rfl, rfl, rfl⟩
  | cons slice slices ih =>
    rw [flatten_cons, length_append] at hn ⊢
    rw [dropSlices]
    by_cases hpos : n > 0
    · rw [if_pos hpos, drop_append]
      by_cases hle : slice.length ≤ n
      · obtain ⟨buffer, hbuffer, holds⟩ := @ih (n - slice.length) (by omega)
        rw [if_pos hle, Nat.add_sub_cancel_left, drop_eq_nil_of_le hle]
        exact ⟨buffer, hbuffer, holds⟩
      · have hrest : n - slice.length = 0 := by omega
        rw [if_neg hle, ByteArray.truncateData_left (by omega), ok_bind, hrest]
        refine ⟨_, rfl, rfl, ?_⟩
        simp only [length_append, length_drop, drop_zero]
        omega
    · obtain rfl : n = 0 := by omega
      exact ⟨_, rfl, rfl, by simp⟩

theorem Holds.drop (h : Holds buffer contents) (hn : n ≤ contents.length) :
    ∃ buffer', buffer.drop n = .ok buffer' ∧ Holds buffer' (contents.drop n) := by
  obtain ⟨dataLength, slices⟩ := buffer
  obtain rfl : slices.flatten = contents := h.flatten
  obtain rfl : dataLength = slices.flatten.length := h.dataLength
  have hassert : (decide (n ≤ slices.flatten.length)) = true := decide_eq_true hn
  rw [ByteArrayBuffer.drop, assert_of hassert, ok_bind]
  exact dropSlices_spec hn

theorem Holds.popBytesToBuffer (h : Holds buffer contents) (hlt : length < 2 ^ 32) :
    ∃ buffer', buffer.popBytesToBuffer length = .ok (contents.take length, buffer') ∧
      Holds buffer' (contents.drop length) := by
  have hget : buffer.getBytesToBuffer length 0 = .ok ((contents.drop 0).take length) :=
    h.getBytesToBuffer (by simpa using hlt)
  rw [drop_zero] at hget
  obtain ⟨buffer', hdrop, holds⟩ := h.drop (n := (contents.take length).length)
    (length_take_le' ..)
  refine ⟨buffer', ?_, ?_⟩
  · rw [ByteArrayBuffer.popBytesToBuffer, hget, ok_bind, hdrop, ok_bind]
  · rw [length_take] at holds
    obtain hle | hge := Nat.le_total length contents.length
    · rwa [Nat.min_eq_left hle] at holds
    · rw [Nat.min_eq_right hge, drop_length] at holds
      rwa [drop_eq_nil_of_le hge]

end

/-- A call that changes the buffer. -/
inductive Call where
  | push (byteArray : Bytes)
  | drop (length : ℕ)
  | popBytesToBuffer (bufferLength : ℕ)

def step (buffer : ByteArrayBuffer) : Call → Result ByteArrayBuffer
  | .push byteArray => .ok (buffer.push byteArray)
  | .drop length => buffer.drop length
  | .popBytesToBuffer bufferLength => do
      let (_, buffer) ← buffer.popBytesToBuffer bufferLength
      .ok buffer

/-- What `drop` asserts, and that lengths are `unsigned int`. -/
def Allowed (buffer : ByteArrayBuffer) : Call → Prop
  | .push _ => True
  | .drop length => length ≤ buffer.dataLength
  | .popBytesToBuffer bufferLength => bufferLength < 2 ^ 32

/-- The call on the queue of all bytes. -/
def fifoStep (fifo : Fifo UInt8) : Call → Fifo UInt8
  | .push byteArray => fifo.push byteArray
  | .drop length => fifo.drop length
  | .popBytesToBuffer bufferLength => fifo.drop (min bufferLength fifo.contents.length)

/-- The buffer holds what is left in the queue. -/
def Refines (buffer : ByteArrayBuffer) (fifo : Fifo UInt8) : Prop :=
  fifo.Proper ∧ buffer.Holds fifo.contents

theorem Refines.step {buffer : ByteArrayBuffer} {fifo : Fifo UInt8} {call : Call}
    (h : Refines buffer fifo) (allowed : buffer.Allowed call) :
    ∃ buffer', buffer.step call = .ok buffer' ∧ Refines buffer' (fifoStep fifo call) := by
  obtain ⟨proper, holds⟩ := h
  cases call with
  | push byteArray =>
    refine ⟨_, rfl, proper.push byteArray, ?_⟩
    rw [fifoStep, Fifo.contents_push proper]
    exact holds.push byteArray
  | drop length =>
    have hle : length ≤ fifo.contents.length := holds.dataLength ▸ allowed
    obtain ⟨buffer', hdrop, holds'⟩ := holds.drop hle
    refine ⟨buffer', hdrop, proper.drop hle, ?_⟩
    rwa [fifoStep, Fifo.contents_drop]
  | popBytesToBuffer bufferLength =>
    obtain ⟨buffer', hpop, holds'⟩ := holds.popBytesToBuffer allowed
    refine ⟨buffer', ?_, proper.drop (Nat.min_le_right ..), ?_⟩
    · rw [ByteArrayBuffer.step, hpop, ok_bind]
    · rw [fifoStep, Fifo.contents_drop]
      obtain hle | hge := Nat.le_total bufferLength fifo.contents.length
      · rwa [Nat.min_eq_left hle]
      · rwa [Nat.min_eq_right hge, drop_length, ← drop_eq_nil_of_le hge]

theorem refines_of_run {calls : List Call} (allowed : Run.Admissible step Allowed {} calls) :
    ∃ buffer, Run.exec step {} calls = .ok buffer ∧ Refines buffer (calls.foldl fifoStep {}) :=
  Run.simulates (fun _ _ _ h hallowed => h.step hallowed) ⟨Nat.le_refl 0, .empty⟩ allowed

end ByteArrayBuffer

end Inet
