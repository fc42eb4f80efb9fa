import Inet.Common.Buffer

/-!
# Bytes at an address

`StoredAt mem p bytes` says that a buffer holds `bytes` from the address `p` on. A store leaves its
bytes there, a store elsewhere keeps them, and the fields of a packed struct are read from them.
-/

namespace Inet

open List hiding getElem?_eq_some_iff

def StoredAt (mem : Bytes) (p : ℕ) (bytes : Bytes) : Prop :=
  p ≤ mem.length ∧ bytes <+: mem.drop p

/-- `memcpy`, with a check that the bytes fit into the buffer. -/
def storeBytes (buffer : Bytes) (offset : ℕ) (bytes : Bytes) : Result Bytes :=
  if offset + bytes.length ≤ buffer.length then .ok (memcpy buffer offset bytes)
  else .error .outOfRange

namespace StoredAt

variable {mem bytes : Bytes} {p : ℕ}

theorem inside (h : StoredAt mem p bytes) : p + bytes.length ≤ mem.length := by
  obtain ⟨hp, hbytes⟩ := h
  have hle := hbytes.length_le
  rw [length_drop] at hle
  omega

theorem append_iff {front back : Bytes} : StoredAt mem p (front ++ back) ↔
      StoredAt mem p front ∧ StoredAt mem (p + front.length) back := by
  have behind : ∀ t, front ++ t = mem.drop p → t = mem.drop (p + front.length) := by
    intro t h
    rw [← drop_drop, ← h, drop_left]
  constructor
  · intro h
    have hle := h.inside
    rw [length_append] at hle
    obtain ⟨hp, t, h⟩ := h
    rw [append_assoc] at h
    exact ⟨⟨hp, back ++ t, h⟩, by omega, t, behind _ h⟩
  · rintro ⟨⟨hp, t, h⟩, _, u, hu⟩
    obtain rfl : t = back ++ u := (behind t h).trans hu.symm
    exact ⟨hp, u, by rw [append_assoc, h]⟩

theorem readByte (h : StoredAt mem p bytes) (i : ℕ) {b : UInt8} (hb : bytes[i]? = some b) :
    readByte mem (p + i) = .ok b := by
  obtain ⟨_, t, h⟩ := h
  have hget : mem[p + i]? = some b := by
    rw [← List.getElem?_drop, ← h]
    exact List.getElem?_append_left (List.getElem?_eq_some_iff.mp hb).1 ▸ hb
  rw [Inet.readByte, hget]

theorem ntohs {w : Uint16} (h : StoredAt mem p (bytes16 w)) : ntohs mem p = .ok w := by
  rw [Inet.ntohs, ← Nat.add_zero p, h.readByte 0 rfl, ok_bind, Nat.add_zero,
    h.readByte 1 rfl, ok_bind, be16_bytes]

theorem ntohl {w : Uint32} (h : StoredAt mem p (bytes32 w)) : ntohl mem p = .ok w := by
  rw [Inet.ntohl, ← Nat.add_zero p, h.readByte 0 rfl, ok_bind, Nat.add_zero,
    h.readByte 1 rfl, ok_bind, h.readByte 2 rfl, ok_bind, h.readByte 3 rfl,
    ok_bind, be32_bytes]

theorem hostLong {w : Uint32} (h : StoredAt mem p (bytes32 w)) :
    hostLong mem p = .ok (byteSwap w) := by
  rw [Inet.hostLong, h.ntohl, ok_bind]

theorem readBytes (h : StoredAt mem p bytes) : readBytes mem p bytes.length = .ok bytes := by
  rw [Inet.readBytes, if_pos h.inside, ← prefix_iff_eq_take.mp h.2]

theorem readShorts {ws : List Uint16} (h : StoredAt mem p (ws.flatMap bytes16)) :
    readShorts mem p 2 ws.length = .ok ws := by
  induction ws generalizing p with
  | nil => rfl
  | cons w ws ih =>
    rw [flatMap_cons, append_iff] at h
    obtain ⟨hw, hws⟩ := h
    have hrest : readShorts mem (p + 2) 2 ws.length = .ok ws := ih hws
    rw [length_cons, Inet.readShorts, hw.ntohs, ok_bind, hrest, ok_bind]

end StoredAt

variable {mem src bytes : Bytes} {p q : ℕ}

section

variable (hfit : q + src.length ≤ mem.length)

include hfit

theorem storeBytes_of_fits : storeBytes mem q src = .ok (memcpy mem q src) := if_pos hfit

theorem length_memcpy : (memcpy mem q src).length = mem.length := by
  rw [memcpy, length_append, length_append, length_take, length_drop]
  omega

theorem getElem?_memcpy_of_outside {k : ℕ}
    (hk : k < q ∨ q + src.length ≤ k) : (memcpy mem q src)[k]? = mem[k]? := by
  have htake : (mem.take q).length = q := by
    rw [length_take]
    omega
  rw [memcpy]
  obtain hlt | hle := hk
  · rw [append_assoc, getElem?_append_left (by omega), getElem?_take_of_lt hlt]
  · have hfront : (mem.take q ++ src).length = q + src.length := by
      rw [length_append, htake]
    rw [getElem?_append_right (by omega), hfront, getElem?_drop]
    congr 1
    omega

theorem StoredAt.of_memcpy : StoredAt (memcpy mem q src) q src := by
  refine ⟨by rw [length_memcpy hfit]; omega, mem.drop (q + src.length), ?_⟩
  have htake : (mem.take q).length = q := by
    rw [length_take]
    omega
  rw [memcpy, append_assoc, drop_left' htake]

end

/-- A store elsewhere keeps the bytes. -/
theorem StoredAt.memcpy (h : StoredAt mem p bytes) (hfit : q + src.length ≤ mem.length)
    (hapart : p + bytes.length ≤ q ∨ q + src.length ≤ p) :
    StoredAt (memcpy mem q src) p bytes := by
  refine ⟨by rw [length_memcpy hfit]; exact h.1, prefix_iff_getElem?.mpr ?_⟩
  intro i hi
  have hold := prefix_iff_getElem?.mp h.2 i hi
  rw [getElem?_drop] at hold ⊢
  rw [getElem?_memcpy_of_outside hfit (by omega), hold]

end Inet
