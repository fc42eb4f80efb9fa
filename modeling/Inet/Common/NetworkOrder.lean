import Inet.Common.ByteArray

/-!
# Words in a byte buffer

The packet parsers lay a packed C struct over a byte buffer and read its fields
through `ntohs` and `ntohl`; a field that is read as it stands has the byte order of
the host, taken to be little-endian. An access outside the buffer is undefined in C++ and an error
here.
-/

namespace Inet

abbrev Uint16 := BitVec 16

/-- Two bytes in network order. -/
def be16 (b₀ b₁ : UInt8) : Uint16 := b₀.toBitVec ++ b₁.toBitVec

/-- Four bytes in network order. -/
def be32 (b₀ b₁ b₂ b₃ : UInt8) : Uint32 :=
  (b₀.toBitVec ++ b₁.toBitVec) ++ (b₂.toBitVec ++ b₃.toBitVec)

/-- The other byte order. -/
def byteSwap (w : Uint32) : Uint32 :=
  (w.extractLsb' 0 8 ++ w.extractLsb' 8 8) ++ (w.extractLsb' 16 8 ++ w.extractLsb' 24 8)

def readByte (buffer : Bytes) (offset : ℕ) : Result UInt8 :=
  match buffer[offset]? with
  | some b => .ok b
  | none => .error .outOfRange

/-- The `length` bytes from `offset` on. -/
def readBytes (buffer : Bytes) (offset length : ℕ) : Result Bytes :=
  if offset + length ≤ buffer.length then .ok ((buffer.drop offset).take length)
  else .error .outOfRange

/-- `ntohs` of the 16-bit field at `offset`. -/
def ntohs (buffer : Bytes) (offset : ℕ) : Result Uint16 := do
  let b₀ ← readByte buffer offset
  let b₁ ← readByte buffer (offset + 1)
  .ok (be16 b₀ b₁)

/-- `ntohl` of the 32-bit field at `offset`. -/
def ntohl (buffer : Bytes) (offset : ℕ) : Result Uint32 := do
  let b₀ ← readByte buffer offset
  let b₁ ← readByte buffer (offset + 1)
  let b₂ ← readByte buffer (offset + 2)
  let b₃ ← readByte buffer (offset + 3)
  .ok (be32 b₀ b₁ b₂ b₃)

/-- The 16-bit field at `offset` in the order of the host. -/
def hostShort (buffer : Bytes) (offset : ℕ) : Result Uint16 := do
  let b₀ ← readByte buffer offset
  let b₁ ← readByte buffer (offset + 1)
  .ok (be16 b₁ b₀)

/-- The 32-bit field at `offset` in the order of the host. -/
def hostLong (buffer : Bytes) (offset : ℕ) : Result Uint32 := do
  let w ← ntohl buffer offset
  .ok (byteSwap w)

/-- `count` fields of 16 bits from `offset` on, one every `stride` bytes. -/
def readShorts (buffer : Bytes) (offset stride : ℕ) : ℕ → Result (List Uint16)
  | 0 => .ok []
  | count + 1 => do
    let w ← ntohs buffer offset
    let ws ← readShorts buffer (offset + stride) stride count
    .ok (w :: ws)

/-- The upper byte of a 16-bit word. -/
def highByte (w : Uint16) : UInt8 := ⟨w.extractLsb' 8 8⟩

/-- The lower byte of a 16-bit word. -/
def lowByte (w : Uint16) : UInt8 := ⟨w.extractLsb' 0 8⟩

/-- `htons` into the two bytes from `offset` on. -/
def storeShort (buffer : Bytes) (offset : ℕ) (w : Uint16) : Bytes :=
  (buffer.set offset (highByte w)).set (offset + 1) (lowByte w)

@[simp] theorem length_storeShort (buffer : Bytes) (offset : ℕ) (w : Uint16) :
    (storeShort buffer offset w).length = buffer.length := by
  rw [storeShort, List.length_set, List.length_set]

theorem toNat_be16 (b₀ b₁ : UInt8) : (be16 b₀ b₁).toNat = 256 * b₀.toNat + b₁.toNat := by
  have h₁ : b₁.toNat < 2 ^ 8 := b₁.toNat_lt
  rw [be16, BitVec.toNat_append, UInt8.toNat_toBitVec, UInt8.toNat_toBitVec, Nat.shiftLeft_eq,
    Nat.mul_comm]
  exact (Nat.two_pow_add_eq_or_of_lt h₁ b₀.toNat).symm

theorem toNat_bytes (w : Uint16) : 256 * (highByte w).toNat + (lowByte w).toNat = w.toNat := by
  have hw := w.isLt
  have hhigh : (highByte w).toNat = w.toNat / 256 := by
    simp only [highByte, ← UInt8.toNat_toBitVec, BitVec.extractLsb'_toNat,
      Nat.shiftRight_eq_div_pow]
    omega
  have hlow : (lowByte w).toNat = w.toNat % 256 := by
    simp only [lowByte, ← UInt8.toNat_toBitVec, BitVec.extractLsb'_toNat, Nat.shiftRight_zero]
  rw [hhigh, hlow, Nat.div_add_mod]

theorem be16_bytes (w : Uint16) : be16 (highByte w) (lowByte w) = w :=
  BitVec.eq_of_toNat_eq ((toNat_be16 _ _).trans (toNat_bytes w))

theorem lt_of_readByte {buffer : Bytes} {offset : ℕ} {b : UInt8}
    (h : readByte buffer offset = .ok b) : offset < buffer.length := by
  unfold readByte at h
  split at h
  · next hget => exact (List.getElem?_eq_some_iff.mp hget).1
  · cases h

theorem readBytes_fits {buffer bytes : Bytes} {offset length : ℕ}
    (h : readBytes buffer offset length = .ok bytes) :
    offset + bytes.length ≤ buffer.length := by
  unfold readBytes at h
  split at h
  · next inside =>
      cases h
      simp only [List.length_take, List.length_drop]
      omega
  · cases h

end Inet
