import Inet.Common.NetworkOrder

/-!
# Serializer buffers

A `Buffer` of the serializers has a fixed size and a position. Reading behind the end gives zeros,
writing there does nothing, and both set an error flag. `Buffer.Rest` and `Buffer.Written` say what
is still to be read, and what has been written, in a buffer without an error.
-/

namespace Inet

open List

structure Buffer where
  buf : Bytes
  pos : ℕ := 0
  errorFound : Bool := false

namespace Buffer

variable (b : Buffer)

def bufsize : ℕ := b.buf.length

def seek (newpos : ℕ) : Buffer :=
  if newpos ≤ b.bufsize then { b with pos := newpos }
  else { b with pos := b.bufsize, errorFound := true }

/-- `if (pos < bufsize) ret += buf[pos++]` -/
def nextByte : UInt8 × Buffer :=
  match b.buf[b.pos]? with
  | some x => (x, { b with pos := b.pos + 1 })
  | none => (0, b)

def readByte : UInt8 × Buffer :=
  match b.buf[b.pos]? with
  | some x => (x, { b with pos := b.pos + 1 })
  | none => (0, { b with errorFound := true })

def readUint16 : Uint16 × Buffer :=
  let (b₀, b) := b.nextByte
  let (b₁, b) := b.readByte
  (be16 b₀ b₁, b)

def readUint32 : Uint32 × Buffer :=
  let (b₀, b) := b.nextByte
  let (b₁, b) := b.nextByte
  let (b₂, b) := b.nextByte
  let (b₃, b) := b.readByte
  (be32 b₀ b₁ b₂ b₃, b)

/-- `if (pos < bufsize) buf[pos++] = data` -/
def putByte (data : UInt8) : Buffer :=
  if b.pos < b.bufsize then { b with buf := b.buf.set b.pos data, pos := b.pos + 1 } else b

def writeByte (data : UInt8) : Buffer :=
  if b.pos < b.bufsize then { b with buf := b.buf.set b.pos data, pos := b.pos + 1 }
  else { b with errorFound := true }

def writeByteTo (position : ℕ) (data : UInt8) : Buffer :=
  if position < b.bufsize then { b with buf := b.buf.set position data }
  else { b with errorFound := true }

def writeUint16 (data : Uint16) : Buffer :=
  (b.putByte (highByte data)).writeByte (lowByte data)

def writeUint16To (position : ℕ) (data : Uint16) : Buffer :=
  if position < b.bufsize then
    ({ b with buf := b.buf.set position (highByte data) }).writeByteTo (position + 1) (lowByte data)
  else { b with errorFound := true }

def writeUint32 (data : Uint32) : Buffer :=
  let b := b.putByte (highByte (data.extractLsb' 16 16))
  let b := b.putByte (lowByte (data.extractLsb' 16 16))
  let b := b.putByte (highByte (data.extractLsb' 0 16))
  b.writeByte (lowByte (data.extractLsb' 0 16))

/-- `accessNBytes(length)`; the pointer that it returns is to the old position. -/
def accessNBytes (length : ℕ) : Buffer :=
  if b.pos + length ≤ b.bufsize then { b with pos := b.pos + length }
  else { b with pos := b.bufsize, errorFound := true }

/-- The buffer after `n` more bytes. -/
def advance (n : ℕ) : Buffer := { b with pos := b.pos + n }

/-- `for (i = 0; i < count && !b.hasError(); i++)` with a list of what `read` returns. -/
def readElements {α : Type} (read : Buffer → α × Buffer) : ℕ → Buffer → List α × Buffer
  | 0, b => ([], b)
  | count + 1, b =>
    if b.errorFound then ([], b)
    else
      let (x, b) := read b
      let (xs, b) := readElements read count b
      (x :: xs, b)

end Buffer

/-- The bytes of a 16-bit word in network order. -/
def bytes16 (w : Uint16) : Bytes := [highByte w, lowByte w]

/-- The bytes of a 32-bit word in network order. -/
def bytes32 (w : Uint32) : Bytes :=
  bytes16 (w.extractLsb' 16 16) ++ bytes16 (w.extractLsb' 0 16)

@[simp] theorem length_bytes16 (w : Uint16) : (bytes16 w).length = 2 := rfl

@[simp] theorem length_bytes32 (w : Uint32) : (bytes32 w).length = 4 := rfl

theorem be32_bytes (w : Uint32) :
    be32 (highByte (w.extractLsb' 16 16)) (lowByte (w.extractLsb' 16 16))
      (highByte (w.extractLsb' 0 16)) (lowByte (w.extractLsb' 0 16)) = w := by
  have hhigh := be16_bytes (w.extractLsb' 16 16)
  have hlow := be16_bytes (w.extractLsb' 0 16)
  rw [be16] at hhigh hlow
  have hlt := w.isLt
  have hshift := Nat.two_pow_add_eq_or_of_lt (i := 16) (b := w.toNat % 2 ^ 16)
    (Nat.mod_lt _ (by decide)) (w.toNat / 2 ^ 16 % 2 ^ 16)
  rw [be32, hhigh, hlow]
  refine BitVec.eq_of_toNat_eq ?_
  rw [BitVec.toNat_append, BitVec.extractLsb'_toNat, BitVec.extractLsb'_toNat,
    Nat.shiftRight_zero, Nat.shiftRight_eq_div_pow, Nat.shiftLeft_eq, Nat.mul_comm, ← hshift]
  omega

namespace Buffer

section

variable {b : Buffer} {rest : Bytes} {x : UInt8}

/-- The bytes that are still to be read. -/
structure Rest (b : Buffer) (rest : Bytes) : Prop where
  pos_le : b.pos ≤ b.buf.length
  drop : b.buf.drop b.pos = rest
  errorFound : b.errorFound = false

@[simp] theorem advance_advance (m n : ℕ) : (b.advance m).advance n = b.advance (m + n) := by
  rw [advance, advance, advance, Nat.add_assoc]

theorem Rest.length {rest : Bytes} (h : b.Rest rest) : b.pos + rest.length = b.buf.length := by
  have hle := h.pos_le
  rw [← h.drop, length_drop]
  omega

theorem Rest.advance {bytes : Bytes} (h : b.Rest (bytes ++ rest)) :
    (b.advance bytes.length).Rest rest := by
  have hlength := h.length
  rw [length_append] at hlength
  refine ⟨?_, ?_, h.errorFound⟩
  · show b.pos + bytes.length ≤ b.buf.length
    omega
  · rw [Buffer.advance, ← drop_drop, h.drop, drop_left]

theorem Rest.afterByte (h : b.Rest (x :: rest)) : (b.advance 1).Rest rest :=
  (show b.Rest ([x] ++ rest) from h).advance

theorem Rest.afterUint16 {w : Uint16} (h : b.Rest (bytes16 w ++ rest)) : (b.advance 2).Rest rest :=
  h.advance

theorem Rest.afterUint32 {w : Uint32} (h : b.Rest (bytes32 w ++ rest)) : (b.advance 4).Rest rest :=
  h.advance

theorem Rest.accessNBytes (bytes : Bytes) (h : b.Rest (bytes ++ rest)) :
    b.accessNBytes bytes.length = b.advance bytes.length := by
  have hlength := h.length
  rw [length_append] at hlength
  rw [Buffer.accessNBytes, if_pos (by rw [bufsize]; omega)]
  rfl

theorem Rest.readByte (h : b.Rest (x :: rest)) : b.readByte = (x, b.advance 1) := by
  have hget : b.buf[b.pos]? = some x := by
    rw [← Nat.add_zero b.pos, ← getElem?_drop, h.drop]
    rfl
  rw [Buffer.readByte, hget]
  rfl

theorem Rest.nextByte (h : b.Rest (x :: rest)) : b.nextByte = (x, b.advance 1) := by
  have hget : b.buf[b.pos]? = some x := by
    rw [← Nat.add_zero b.pos, ← getElem?_drop, h.drop]
    rfl
  rw [Buffer.nextByte, hget]
  rfl

theorem Rest.readUint16 {w : Uint16} (h : b.Rest (bytes16 w ++ rest)) :
    b.readUint16 = (w, b.advance 2) := by
  have h₁ : (b.advance 1).Rest (lowByte w :: rest) := Rest.afterByte h
  rw [Buffer.readUint16, Rest.nextByte h]
  dsimp only
  rw [h₁.readByte]
  dsimp only
  rw [be16_bytes]
  rfl

theorem Rest.readUint32 {w : Uint32} (h : b.Rest (bytes32 w ++ rest)) :
    b.readUint32 = (w, b.advance 4) := by
  have h₁ : (b.advance 1).Rest (lowByte (w.extractLsb' 16 16) ::
      (bytes16 (w.extractLsb' 0 16) ++ rest)) := Rest.afterByte h
  have h₂ : ((b.advance 1).advance 1).Rest (highByte (w.extractLsb' 0 16) ::
      lowByte (w.extractLsb' 0 16) :: rest) := Rest.afterByte h₁
  have h₃ : (((b.advance 1).advance 1).advance 1).Rest (lowByte (w.extractLsb' 0 16) :: rest) :=
    Rest.afterByte h₂
  rw [Buffer.readUint32, Rest.nextByte h]
  dsimp only
  rw [Rest.nextByte h₁]
  dsimp only
  rw [Rest.nextByte h₂]
  dsimp only
  rw [Rest.readByte h₃]
  dsimp only
  rw [be32_bytes]
  rfl

variable {α : Type} {read : Buffer → α × Buffer}

theorem length_readElements_le (count : ℕ) (b : Buffer) :
    (b.readElements read count).1.length ≤ count := by
  induction count generalizing b with
  | zero => exact Nat.le_refl _
  | succ count ih =>
    unfold Buffer.readElements
    split
    · exact Nat.zero_le _
    · exact Nat.succ_le_succ (ih _)

theorem exists_read_of_mem_readElements {x : α} {count : ℕ} {b : Buffer}
    (h : x ∈ (b.readElements read count).1) : ∃ b', (read b').1 = x := by
  induction count generalizing b with
  | zero => cases h
  | succ count ih =>
    unfold Buffer.readElements at h
    split at h
    · cases h
    · rcases mem_cons.mp h with rfl | hrest
      · exact ⟨b, rfl⟩
      · exact ih hrest

/-- A list is read back if every element is. -/
theorem Rest.readElements {encode : α → Bytes} {xs : List α}
    (hread : ∀ x ∈ xs, ∀ b rest, Rest b (encode x ++ rest) →
      read b = (x, b.advance (encode x).length)) :
    ∀ {b : Buffer}, Rest b (xs.flatMap encode ++ rest) →
      b.readElements read xs.length = (xs, b.advance (xs.flatMap encode).length) := by
  induction xs with
  | nil => exact fun _ => rfl
  | cons x xs ih =>
    intro b h
    rw [flatMap_cons, append_assoc] at h
    have htail := ih (fun y hy => hread y (mem_cons_of_mem x hy)) h.advance
    rw [length_cons, Buffer.readElements, h.errorFound, if_neg Bool.false_ne_true,
      hread x mem_cons_self b _ h]
    dsimp only
    rw [htail, advance_advance, flatMap_cons, length_append]

end

variable {b : Buffer} {bytes : Bytes} {size : ℕ}

/-- The bytes that have been written, in a buffer of the given size. -/
structure Written (size : ℕ) (b : Buffer) (bytes : Bytes) : Prop where
  size : b.buf.length = size
  pos : b.pos = bytes.length
  take : b.buf.take b.pos = bytes
  errorFound : b.errorFound = false

theorem written_nil (buf : Bytes) : Written buf.length ⟨buf, 0, false⟩ [] := ⟨rfl, rfl, rfl, rfl⟩

section

variable (h : Written size b bytes)

include h

theorem Written.writeByte (hlt : bytes.length < size) (x : UInt8) :
    Written size (b.writeByte x) (bytes ++ [x]) := by
  have hpos : b.pos < b.bufsize := by
    rw [bufsize, h.size, h.pos]
    exact hlt
  rw [Buffer.writeByte, if_pos hpos]
  refine ⟨(length_set).trans h.size, ?_, ?_, h.errorFound⟩
  · rw [length_append, length_singleton, h.pos]
  · dsimp only
    rw [take_add_one, getElem?_set_self hpos, take_set_of_le (Nat.le_refl _), h.take]
    rfl

theorem Written.putByte (hlt : bytes.length < size) (x : UInt8) :
    Written size (b.putByte x) (bytes ++ [x]) := by
  have hpos : b.pos < b.bufsize := by
    rw [bufsize, h.size, h.pos]
    exact hlt
  have hput : b.putByte x = b.writeByte x := by
    rw [Buffer.putByte, Buffer.writeByte, if_pos hpos, if_pos hpos]
  rw [hput]
  exact h.writeByte hlt x

theorem Written.writeUint16 (hle : bytes.length + 2 ≤ size)
    (w : Uint16) : Written size (b.writeUint16 w) (bytes ++ bytes16 w) := by
  have h₁ := h.putByte (by omega) (highByte w)
  have h₂ := h₁.writeByte (by simp; omega) (lowByte w)
  rwa [append_assoc] at h₂

theorem Written.writeUint32 (hle : bytes.length + 4 ≤ size)
    (w : Uint32) : Written size (b.writeUint32 w) (bytes ++ bytes32 w) := by
  have h₁ := h.putByte (by omega) (highByte (w.extractLsb' 16 16))
  have h₂ := h₁.putByte (by simp; omega) (lowByte (w.extractLsb' 16 16))
  have h₃ := h₂.putByte (by simp; omega) (highByte (w.extractLsb' 0 16))
  have h₄ := h₃.writeByte (by simp; omega) (lowByte (w.extractLsb' 0 16))
  rwa [append_assoc, append_assoc, append_assoc] at h₄

theorem Written.writeByteTo (position : ℕ) (hlt : position < bytes.length) (x : UInt8) :
    Written size (b.writeByteTo position x) (bytes.set position x) := by
  have hle : bytes.length ≤ size := by
    rw [← h.take, ← h.size]
    exact length_take_le' _ _
  have hpos : position < b.bufsize := by
    rw [bufsize, h.size]
    omega
  rw [Buffer.writeByteTo, if_pos hpos]
  refine ⟨(length_set).trans h.size, ?_, ?_, h.errorFound⟩
  · rw [length_set, h.pos]
  · dsimp only
    rw [take_set, h.take]

theorem Written.writeUint16To (position : ℕ) (hlt : position + 1 < bytes.length) (w : Uint16) :
    Written size (b.writeUint16To position w) (storeShort bytes position w) := by
  have h₁ := h.writeByteTo position (Nat.lt_of_succ_lt hlt) (highByte w)
  have h₂ := h₁.writeByteTo (position + 1) (by simpa using hlt) (lowByte w)
  have hle : bytes.length ≤ size := by
    rw [← h.take, ← h.size]
    exact length_take_le' _ _
  have hpos : position < b.bufsize := by
    rw [bufsize, h.size]
    omega
  have hfirst : b.writeByteTo position (highByte w) =
      { b with buf := b.buf.set position (highByte w) } := if_pos hpos
  rw [hfirst] at h₂
  rwa [Buffer.writeUint16To, if_pos hpos, storeShort]

end

/-- A list is written if every element is. -/
theorem Written.foldl {α : Type} {write : Buffer → α → Buffer} {encode : α → Bytes}
    (hwrite : ∀ x b bytes, Written size b bytes → bytes.length + (encode x).length ≤ size →
      Written size (write b x) (bytes ++ encode x)) (xs : List α) :
    ∀ {b : Buffer} {bytes : Bytes}, Written size b bytes →
      bytes.length + (xs.flatMap encode).length ≤ size →
      Written size (xs.foldl write b) (bytes ++ xs.flatMap encode) := by
  induction xs with
  | nil =>
    intro b bytes h _
    rwa [flatMap_nil, append_nil]
  | cons x xs ih =>
    intro b bytes h hle
    rw [flatMap_cons, length_append] at hle
    rw [flatMap_cons, foldl_cons, ← append_assoc]
    refine ih (hwrite x b bytes h (by omega)) ?_
    rw [length_append]
    omega

end Buffer

end Inet
