import Inet.Library.Run
import Inet.Tcp.VirtualDataRcvQueue

/-!
# The receive queue for byte streams

The regions of `TCPByteStreamRcvQueue` carry the received bytes, and merging two
regions copies the bytes of both into a new buffer.

The stream arrives in order as long as no segment ends strictly inside a stored
region. When one does, the bytes behind the segment are copied from the beginning of
the stored region instead of from the place where the segment ends, and what is stored
is right only if these bytes happen to be equal (`delivers_iff_noInnerEnd`).
-/

namespace Inet.Tcp

open SerialNumber (ofPos unwrap Near)

namespace TCPByteStreamRcvQueue

structure Region where
  begin : Uint32
  «end» : Uint32
  data : Bytes

namespace Region

/-- The buffer that `merge` fills for the new end points. -/
def mergedData (self other : Region) (nbegin nend : Uint32) : Bytes :=
  let buff := newBuffer (nend - nbegin).toNat
  let buff :=
    if nbegin ≠ self.begin then
      memcpy buff 0 (ByteArray.copyDataToBuffer other.data (self.begin - nbegin).toNat 0)
    else buff
  let buff := memcpy buff (self.begin - nbegin).toNat
    (ByteArray.copyDataToBuffer self.data (self.end - self.begin).toNat 0)
  if nend ≠ self.end then
    -- the source offset is left at its default here
    memcpy buff (self.end - nbegin).toNat
      (ByteArray.copyDataToBuffer other.data (nend - self.end).toNat 0)
  else buff

def merge (self other : Region) : Option Region :=
  if seqLess self.end other.begin || seqLess other.end self.begin then none
  else
    let nbegin := seqMin self.begin other.begin
    let nend := seqMax self.end other.end
    if nbegin ≠ self.begin ∨ nend ≠ self.end then
      some ⟨nbegin, nend, mergedData self other nbegin nend⟩
    else some self

def split (self : Region) (seq : Uint32) : Result (Region × Region) := do
  assert (seqGreater seq self.begin && seqLess seq self.end)
    "seqGreater(seq, begin) && seqLess(seq, end)"
  let front ← ByteArray.setDataFromByteArray self.data 0 (seq - self.begin).toNat
  let data ← ByteArray.truncateData self.data (seq - self.begin).toNat 0
  .ok (⟨self.begin, seq, front⟩, { self with begin := seq, data })

end Region

instance : RegionClass Region where
  getBegin := Region.begin
  getEnd := Region.end
  merge := Region.merge
  split := Region.split

/-- The packet that `copyTo` fills. -/
structure RawPacket where
  byteLength : ℕ
  byteArray : Bytes

def Region.copyTo (self : Region) : Result RawPacket := do
  assert (getLength self = self.data.length) "getLength() == data.getDataArraySize()"
  .ok ⟨getLength self, self.data⟩

end TCPByteStreamRcvQueue

abbrev TCPByteStreamRcvQueue := TCPVirtualDataRcvQueue TCPByteStreamRcvQueue.Region

namespace TCPByteStreamRcvQueue

variable {μ : Type}

def createRegionFromSegment (tcpseg : TCPSegment μ) : Result Region := do
  assert (tcpseg.payloadLength = tcpseg.byteArray.length)
    "tcpseg->getPayloadLength() == tcpseg->getByteArray().getDataArraySize()"
  .ok ⟨tcpseg.sequenceNo, tcpseg.endSeq, tcpseg.byteArray⟩

def insertBytesFromSegment (queue : TCPByteStreamRcvQueue) (tcpseg : TCPSegment μ) :
    Result TCPByteStreamRcvQueue := do
  let region ← createRegionFromSegment tcpseg
  queue.insertRegion region

def extractBytesUpTo (queue : TCPByteStreamRcvQueue) (seq : Uint32) :
    Result (Option RawPacket × TCPByteStreamRcvQueue) := do
  let (reg, queue) ← queue.extractTo seq
  match reg with
  | some reg => do
      let msg ← reg.copyTo
      .ok (some msg, queue)
  | none => .ok (none, queue)

section

variable {S T : ℕ → UInt8} {s0 : Uint32} {a : ℕ} {r s : Region} {i j : ℕ × ℕ}

/-- The region lies at `i` and holds the bytes of the stream there. -/
structure Holds (S : ℕ → UInt8) (s0 : Uint32) (r : Region) (i : ℕ × ℕ) : Prop where
  pos : At s0 r i
  data : r.data = slice S i.1 i.2

theorem Holds.congr (h : Holds S s0 r i) (hST : ∀ k, i.1 ≤ k → k < i.2 → S k = T k) :
    Holds T s0 r i :=
  ⟨h.pos, h.data.trans (slice_eq_iff.mpr hST)⟩

/-- The part of the other region that lies before the region itself. -/
theorem copy_left (hr : Holds S s0 r i) (h₁ : i.1 ≤ j.1) (h₂ : j.1 ≤ i.2)
    (left : ∀ k, i.1 ≤ k → k < j.1 → S k = T k) :
    ByteArray.copyDataToBuffer r.data (j.1 - i.1) 0 = slice T i.1 j.1 := by
  have hlen : j.1 - i.1 ≤ r.data.length := by
    rw [hr.data, length_slice]
    omega
  rw [ByteArray.copyDataToBuffer_eq hlen, hr.data, take_slice (by omega),
    show i.1 + (j.1 - i.1) = j.1 by omega]
  exact slice_eq_iff.mpr left

/-- The part that is copied behind the region itself starts at the beginning of the
other region. -/
theorem copy_right (hr : Holds S s0 r i) (h₁ : i.1 ≤ j.2) (h₂ : j.2 ≤ i.2)
    (right : ∀ k < i.2 - j.2, S (i.1 + k) = T (j.2 + k)) :
    ByteArray.copyDataToBuffer r.data (i.2 - j.2) 0 = slice T j.2 i.2 := by
  have hlen : i.2 - j.2 ≤ r.data.length := by
    rw [hr.data, length_slice]
    omega
  rw [ByteArray.copyDataToBuffer_eq hlen, hr.data, take_slice (by omega),
    slice_eq_slice_add right, show j.2 + (i.2 - j.2) = i.2 by omega]

theorem copy_own (hs : Holds T s0 s j) :
    ByteArray.copyDataToBuffer s.data (j.2 - j.1) 0 = slice T j.1 j.2 := by
  have hlen : s.data.length = j.2 - j.1 := by
    rw [hs.data, length_slice]
  rw [ByteArray.copyDataToBuffer_eq hlen.ge, ← hlen, List.take_length, hs.data]

/-- The buffer for the hull of `i` and `j`: what lies before `j` is taken from the other
region, what lies behind it as well, but from the beginning of that region. -/
theorem mergedData_eq (hs : Holds T s0 s j) (hr : Holds S s0 r i) (hj : InWindow a j)
    (hi : InWindow a i) (touches : Intervals.Touches j i)
    (left : ∀ k, i.1 ≤ k → k < j.1 → S k = T k)
    (right : ∀ k < i.2 - j.2, S (i.1 + k) = T (j.2 + k)) :
    Region.mergedData s r (ofPos s0 (min j.1 i.1)) (ofPos s0 (max j.2 i.2)) =
      slice T (min j.1 i.1) (max j.2 i.2) := by
  obtain ⟨lo, hlo⟩ : ∃ lo, lo = min j.1 i.1 := ⟨_, rfl⟩
  obtain ⟨hi', hhi⟩ : ∃ hi', hi' = max j.2 i.2 := ⟨_, rfl⟩
  obtain ⟨hbegin, hend⟩ : s.begin = ofPos s0 j.1 ∧ s.end = ofPos s0 j.2 := hs.pos
  obtain ⟨touch₁, touch₂⟩ := touches
  obtain ⟨hj₀, hj₁, hj₂⟩ := hj
  obtain ⟨hi₀, hi₁, hi₂⟩ := hi
  have way : ∀ {p q : ℕ}, p ≤ q → a ≤ p → q < a + 2 ^ 31 →
      (ofPos s0 q - ofPos s0 p).toNat = q - p := fun h₁ h₂ h₃ =>
    SerialNumber.toNat_ofPos_sub h₁ (by omega)
  have near_begin : Near 32 lo j.1 := @near_of_window _ _ a (by omega) (by omega)
  have near_end : Near 32 hi' j.2 := @near_of_window _ _ a (by omega) (by omega)
  rw [← hlo, ← hhi, Region.mergedData, hbegin, hend, way (by omega) (by omega) (by omega),
    way (by omega) (by omega) (by omega), way (by omega) (by omega) (by omega),
    way (by omega) (by omega) (by omega), way (by omega) (by omega) (by omega), copy_own hs]
  simp only [ne_eq, ofPos_eq_iff near_begin, ofPos_eq_iff near_end, ite_not]
  -- the buffer in three parts, which are filled one after the other
  have empty : newBuffer (hi' - lo) =
      newBuffer (j.1 - lo) ++ (newBuffer (j.2 - j.1) ++ newBuffer (hi' - j.2)) := by
    rw [← newBuffer_add, ← newBuffer_add]
    congr 1
    omega
  have first : (if lo = j.1 then newBuffer (hi' - lo)
      else memcpy (newBuffer (hi' - lo)) 0 (ByteArray.copyDataToBuffer r.data (j.1 - lo) 0)) =
      slice T lo j.1 ++ newBuffer (j.2 - j.1) ++ newBuffer (hi' - j.2) := by
    rw [empty, List.append_assoc]
    split_ifs with h
    · simp [h, slice, newBuffer]
    · obtain rfl : lo = i.1 := by omega
      rw [copy_left hr (by omega) (by omega) left, memcpy_zero (by simp)]
  have second : memcpy (slice T lo j.1 ++ newBuffer (j.2 - j.1) ++ newBuffer (hi' - j.2))
      (j.1 - lo) (slice T j.1 j.2) = slice T lo j.2 ++ newBuffer (hi' - j.2) := by
    have := @memcpy_eq (slice T lo j.1) (newBuffer (j.2 - j.1)) (newBuffer (hi' - j.2))
      (slice T j.1 j.2) (by simp)
    rw [length_slice] at this
    rw [this, slice_append (by omega) (by omega)]
  rw [first, second]
  split_ifs with h
  · simp [h, newBuffer]
  · obtain rfl : hi' = i.2 := by omega
    have := @memcpy_eq (slice T lo j.2) (newBuffer (i.2 - j.2)) [] (slice T j.2 i.2) (by simp)
    rw [length_slice, List.append_nil, List.append_nil] at this
    rw [copy_right hr (by omega) (by omega) right, this, slice_append (by omega) (by omega)]

/-- Merging a stored region into the one being inserted. The latter holds a stream `T`
that agrees with the stream `S` of the stored region before it; behind it the bytes of
`T` are those that `S` has at the beginning of the stored region. -/
theorem merge_of_holds (hs : Holds T s0 s j) (hr : Holds S s0 r i) (hj : InWindow a j)
    (hi : InWindow a i) (touches : Intervals.Touches j i)
    (left : ∀ k, i.1 ≤ k → k < j.1 → S k = T k)
    (right : ∀ k < i.2 - j.2, S (i.1 + k) = T (j.2 + k)) :
    ∃ s', Region.merge s r = some s' ∧ Holds T s0 s' (Intervals.hull j i) := by
  obtain ⟨hsb, hse⟩ : s.begin = ofPos s0 j.1 ∧ s.end = ofPos s0 j.2 := hs.pos
  obtain ⟨hrb, hre⟩ : r.begin = ofPos s0 i.1 ∧ r.end = ofPos s0 i.2 := hr.pos
  have near_begin := near_of_window hj.fst hi.fst
  have near_end := near_of_window hj.snd hi.snd
  have hdata := mergedData_eq hs hr hj hi touches left right
  have merges : (seqLess s.end r.begin || seqLess r.end s.begin) = false := by
    rw [hsb, hse, hrb, hre]
    exact hj.not_apart hi touches
  have hmin : seqMin s.begin r.begin = ofPos s0 (min j.1 i.1) := by
    rw [hsb, hrb, seqMin_ofPos near_begin]
  have hmax : seqMax s.end r.end = ofPos s0 (max j.2 i.2) := by
    rw [hse, hre, seqMax_ofPos near_end]
  simp only [Region.merge, merges, Bool.false_eq_true, ↓reduceIte, hmin, hmax]
  split_ifs with h
  · exact ⟨_, rfl, ⟨rfl, rfl⟩, hdata⟩
  · refine ⟨s, rfl, ?_⟩
    obtain ⟨h₁, h₂⟩ := not_or.mp h
    have near_lo : Near 32 (min j.1 i.1) j.1 := near_of_window (hj.hull hi).fst hj.fst
    have near_hi : Near 32 (max j.2 i.2) j.2 := near_of_window (hj.hull hi).snd hj.snd
    rw [hsb, ne_eq, not_not, ofPos_eq_iff near_lo] at h₁
    rw [hse, ne_eq, not_not, ofPos_eq_iff near_hi] at h₂
    have hull_eq : Intervals.hull j i = j := Prod.ext h₁ h₂
    rwa [hull_eq]

theorem split_of_holds (hr : Holds S s0 r i) {m : ℕ} (h₁ : i.1 < m) (h₂ : m < i.2)
    (h₃ : i.2 < i.1 + 2 ^ 31) :
    ∃ r₁ r₂, Region.split r (ofPos s0 m) = .ok (r₁, r₂) ∧
      Holds S s0 r₁ (i.1, m) ∧ Holds S s0 r₂ (m, i.2) := by
  obtain ⟨hrb, hre⟩ : r.begin = ofPos s0 i.1 ∧ r.end = ofPos s0 i.2 := hr.pos
  have near_begin : Near 32 m i.1 := @near_of_window _ _ i.1 (by omega) (by omega)
  have near_end : Near 32 m i.2 := @near_of_window _ _ i.1 (by omega) (by omega)
  have inside : (seqGreater (ofPos s0 m) r.begin && seqLess (ofPos s0 m) r.end) = true := by
    rw [hrb, hre, seqGreater_ofPos near_begin, seqLess_ofPos near_end]
    simp [h₁, h₂]
  have hoffset : (ofPos s0 m - r.begin).toNat = m - i.1 := by
    rw [hrb, SerialNumber.toNat_ofPos_sub h₁.le (by omega)]
  have hlen : m - i.1 ≤ r.data.length := by
    rw [hr.data, length_slice]
    omega
  have hmid : i.1 + (m - i.1) = m := by omega
  simp only [Region.split, assert_of inside, hoffset, ByteArray.setDataFromByteArray_eq hlen,
    ByteArray.truncateData_left hlen, ok_bind]
  refine ⟨_, _, rfl, ⟨⟨hrb, rfl⟩, ?_⟩, ⟨⟨rfl, hre⟩, ?_⟩⟩
  · simp only [hr.data]
    rw [take_slice (by omega), hmid]
  · simp only [hr.data]
    rw [drop_slice, hmid]

theorem copyTo_of_holds (hr : Holds S s0 r i) (h₁ : i.1 ≤ i.2) (h₂ : i.2 < i.1 + 2 ^ 31) :
    r.copyTo = .ok ⟨i.2 - i.1, slice S i.1 i.2⟩ := by
  have hlen : getLength r = i.2 - i.1 := by
    rw [getLength, hr.pos.1, hr.pos.2, SerialNumber.toNat_ofPos_sub h₁ (by omega)]
  rw [Region.copyTo, assert_of (by simp [hlen, hr.data]), hlen, hr.data]
  rfl

end

section

variable {S : ℕ → UInt8} {s0 : Uint32} {queue : TCPByteStreamRcvQueue} {is : List (ℕ × ℕ)}
variable {first next m x : ℕ}

/-- The stream `S` with its bytes from position `x` on moved to position `m`. -/
def splice (S : ℕ → UInt8) (m x k : ℕ) : UInt8 := if k < m then S k else S (x + (k - m))

/-- What the region being inserted holds during the insertion of a segment that ends at
`m`: the stream up to `m`, and behind it the bytes from `x` on, up to the end of the
stored region that contains `m`. -/
structure Spliced (S : ℕ → UInt8) (s0 : Uint32) (is : List (ℕ × ℕ)) (m x : ℕ) (r : Region)
    (j : ℕ × ℕ) : Prop where
  holds : Holds (splice S m x) s0 r j
  begins : j.1 < m
  ends : j.2 = m ∨ ∃ i ∈ is, i.1 ≤ m ∧ m < i.2 ∧ j.2 = i.2

theorem Spliced.merge (ascending : Intervals.Ascending is)
    (hx : ∀ i ∈ is, i.1 ≤ m → m < i.2 → i.1 = x) {r s : Region} {i j : ℕ × ℕ} (hi : i ∈ is)
    (hr : Holds S s0 r i) (hs : Spliced S s0 is m x s j) (hjw : InWindow first j)
    (hiw : InWindow first i) (touches : Intervals.Touches j i) :
    ∃ s', Region.merge s r = some s' ∧ Spliced S s0 is m x s' (Intervals.hull j i) := by
  have hbegins := hs.begins
  -- only the stored region that contains `m` can reach behind the one being inserted
  have reaches : j.2 < i.2 → j.2 = m ∧ i.1 ≤ m ∧ m < i.2 := by
    intro hlt
    obtain heq | ⟨k, hk, hkm, hmk, hend⟩ := hs.ends
    · exact ⟨heq, heq ▸ touches.2, heq ▸ hlt⟩
    · have htouch := touches.2
      obtain rfl | h | h := ascending.eq_or_lt hi hk
      · omega
      · omega
      · omega
  have left : ∀ k, i.1 ≤ k → k < j.1 → S k = splice S m x k := fun k _ hk => by
    rw [splice, if_pos (by omega)]
  have right : ∀ k < i.2 - j.2, S (i.1 + k) = splice S m x (j.2 + k) := by
    intro k hk
    obtain ⟨hjm, him, hmi⟩ := reaches (by omega)
    rw [splice, if_neg (by omega), hx i hi him hmi]
    congr 1
    omega
  obtain ⟨s', hmerge, hs'⟩ := merge_of_holds hs.holds hr hjw hiw touches left right
  refine ⟨s', hmerge, hs', lt_of_le_of_lt (min_le_left _ _) hs.begins, ?_⟩
  by_cases hlt : j.2 < i.2
  · obtain ⟨-, him, hmi⟩ := reaches hlt
    exact .inr ⟨i, hi, him, hmi, max_eq_right hlt.le⟩
  · have hmax : (Intervals.hull j i).2 = j.2 := max_eq_left (by omega)
    rw [hmax]
    exact hs.ends

/-- There is a splice point for every end of a segment. -/
theorem exists_splice (ascending : Intervals.Ascending is) (m : ℕ) :
    ∃ x, ∀ i ∈ is, i.1 ≤ m → m < i.2 → i.1 = x := by
  by_cases h : ∃ i ∈ is, i.1 ≤ m ∧ m < i.2
  · obtain ⟨i, hi, him⟩ := h
    refine ⟨i.1, fun k hk h₁ h₂ => ?_⟩
    rw [ascending.eq_of_mem hk hi ⟨h₁, h₂⟩ him]
  · exact ⟨0, fun i hi h₁ h₂ => absurd ⟨i, hi, h₁, h₂⟩ h⟩

/-- The segment that carries the `n` bytes of the stream from position `o` on. -/
def segmentOf (S : ℕ → UInt8) (s0 : Uint32) (o n : ℕ) : TCPSegment Unit :=
  { sequenceNo := ofPos s0 o, payloadLength := n, byteArray := slice S o (o + n) }

theorem createRegionFromSegment_eq (S : ℕ → UInt8) (s0 : Uint32) (o n : ℕ) :
    createRegionFromSegment (segmentOf S s0 o n) =
      .ok ⟨ofPos s0 o, ofPos s0 (o + n), slice S o (o + n)⟩ := by
  rw [createRegionFromSegment, assert_of (by simp [segmentOf]), SerialNumber.ofPos_add]
  rfl

/-- Insertion of the bytes `[o, o + n)` of the stream. Every region is an old one or
holds the stream spliced at `o + n`, and one region of the latter kind has taken in the
segment. -/
theorem insertBytes_spec (hq : Layout s0 (Holds S s0) queue is first next) {o n : ℕ}
    (ho : first ≤ o) (hn : 0 < n) (hw : o + n < first + 2 ^ 31)
    (hx : ∀ i ∈ is, i.1 ≤ o + n → o + n < i.2 → i.1 = x) :
    ∃ queue' next' r i,
      insertBytesFromSegment queue (segmentOf S s0 o n) = .ok queue' ∧
      Layout s0 (fun r i => Holds S s0 r i ∨ Spliced S s0 is (o + n) x r i) queue'
        (Intervals.insert is (o, o + n)) first next' ∧
      Merged (Holds S s0) (Spliced S s0 is (o + n) x) queue'.regionList
        (Intervals.insert is (o, o + n)) r i ∧ i.1 ≤ o ∧ o + n ≤ i.2 := by
  have seg : Spliced S s0 is (o + n) x ⟨ofPos s0 o, ofPos s0 (o + n), slice S o (o + n)⟩
      (o, o + n) := by
    refine ⟨⟨⟨rfl, rfl⟩, slice_eq_iff.mpr fun k _ hk => ?_⟩, by simp only; omega, .inl rfl⟩
    rw [splice, if_pos hk]
  obtain ⟨queue', next', r, i, hins, layout, merged, h₁, h₂, -⟩ :=
    TCPVirtualDataRcvQueue.insertRegion_spec (fun _ _ h => h.pos) (fun _ _ h => h.holds.pos) hq
      (fun r s i j hi hr hs hj =>
        Spliced.merge hq.ascending hx hi hr hs hj (hq.window i hi))
      seg ⟨ho, by simp, hw⟩ (by simpa using hn)
  refine ⟨queue', next', r, i, ?_, layout, merged, h₁, h₂⟩
  rw [insertBytesFromSegment, createRegionFromSegment_eq, ok_bind, hins]

end

/-- A receive queue and the bytes that it has handed out so far. -/
structure Receiver where
  queue : TCPByteStreamRcvQueue
  out : Bytes := []

/-- A call on the queue: the segment with the bytes `[o, o + n)` of the stream arrives,
or the data up to position `p` is extracted. -/
inductive Call where
  | insert (o n : ℕ)
  | extract (p : ℕ)

namespace Receiver

variable {is : List (ℕ × ℕ)} {n o p next : ℕ} {i : ℕ × ℕ}

def start (s0 : Uint32) : Receiver := { queue := .init s0 }

def step (S : ℕ → UInt8) (s0 : Uint32) (rcv : Receiver) : Call → Result Receiver
  | .insert o n => do
      let queue ← insertBytesFromSegment rcv.queue (segmentOf S s0 o n)
      .ok { rcv with queue }
  | .extract p => do
      let (msg, queue) ← extractBytesUpTo rcv.queue (ofPos s0 p)
      .ok { queue, out := rcv.out ++ (msg.map RawPacket.byteArray).getD [] }

/-- The position of a sequence number, seen from the extracted data. -/
def pos (s0 : Uint32) (rcv : Receiver) (seq : Uint32) : ℕ :=
  unwrap rcv.out.length (ofPos s0 rcv.out.length) seq

/-- Segments carry data, lie behind `rcv_nxt`, and all data lies within half of the
sequence space; what is extracted lies before `rcv_nxt`. -/
def Allowed (s0 : Uint32) (rcv : Receiver) : Call → Prop
  | .insert o n =>
    rcv.pos s0 rcv.queue.rcvNxt ≤ o ∧ 0 < n ∧ o + n < rcv.out.length + 2 ^ 31
  | .extract p =>
    p ≤ rcv.pos s0 rcv.queue.rcvNxt ∧ rcv.pos s0 rcv.queue.rcvNxt < p + 2 ^ 31 ∧
      ∀ reg ∈ rcv.queue.regionList, rcv.pos s0 reg.end < p + 2 ^ 31

/-- The segment does not end strictly inside a stored region, or the bytes of that region
behind the segment equal those at its beginning. -/
def NoInnerEnd (S : ℕ → UInt8) (s0 : Uint32) (rcv : Receiver) : Call → Prop
  | .insert o n =>
    ∀ reg ∈ rcv.queue.regionList,
      rcv.pos s0 reg.begin < o + n → o + n < rcv.pos s0 reg.end →
        ∀ k < rcv.pos s0 reg.end - (o + n), S (rcv.pos s0 reg.begin + k) = S (o + n + k)
  | .extract _ => True

/-- Each stored region holds the bytes of the stream at its place, and what has been
handed out is the beginning of the stream, which ends at most at `rcv_nxt`. -/
structure Delivers (S : ℕ → UInt8) (s0 : Uint32) (rcv : Receiver) : Prop where
  stored : ∀ reg ∈ rcv.queue.regionList,
    reg.data = slice S (rcv.pos s0 reg.begin) (rcv.pos s0 reg.end)
  out : rcv.out = slice S 0 rcv.out.length
  out_le : rcv.out.length ≤ rcv.pos s0 rcv.queue.rcvNxt

instance (s0 : Uint32) (rcv : Receiver) : (call : Call) → Decidable (rcv.Allowed s0 call)
  | .insert _ _ => inferInstanceAs (Decidable (_ ∧ _))
  | .extract _ => inferInstanceAs (Decidable (_ ∧ _))

instance (S : ℕ → UInt8) (s0 : Uint32) (rcv : Receiver) :
    (call : Call) → Decidable (rcv.NoInnerEnd S s0 call)
  | .insert o n => inferInstanceAs (Decidable (∀ reg ∈ rcv.queue.regionList,
      rcv.pos s0 reg.begin < o + n → o + n < rcv.pos s0 reg.end →
        ∀ k < rcv.pos s0 reg.end - (o + n), _ = _))
  | .extract _ => .isTrue trivial

instance (S : ℕ → UInt8) (s0 : Uint32) (rcv : Receiver) : Decidable (Delivers S s0 rcv) :=
  decidable_of_iff (_ ∧ _ ∧ _)
    ⟨fun ⟨h₁, h₂, h₃⟩ => ⟨h₁, h₂, h₃⟩, fun ⟨h₁, h₂, h₃⟩ => ⟨h₁, h₂, h₃⟩⟩

/-- The invariant behind `Delivers`, with the positions of the stored regions. -/
structure Inv (S : ℕ → UInt8) (s0 : Uint32) (rcv : Receiver) : Prop where
  layout : ∃ is next, Layout s0 (Holds S s0) rcv.queue is rcv.out.length next
  out : rcv.out = slice S 0 rcv.out.length

variable {S : ℕ → UInt8} {s0 : Uint32} {rcv : Receiver}

theorem pos_ofPos (h : rcv.out.length ≤ p ∧ p < rcv.out.length + 2 ^ 31) :
    rcv.pos s0 (ofPos s0 p) = p :=
  SerialNumber.unwrap_ofPos (by decide) (near_of_window ⟨le_rfl, by omega⟩ h)

theorem pos_region {reg : Region} (hat : At s0 reg i) (hi : InWindow rcv.out.length i) :
    rcv.pos s0 reg.begin = i.1 ∧ rcv.pos s0 reg.end = i.2 := by
  obtain ⟨hb, he⟩ : reg.begin = ofPos s0 i.1 ∧ reg.end = ofPos s0 i.2 := hat
  rw [hb, he]
  exact ⟨pos_ofPos hi.fst, pos_ofPos hi.snd⟩

theorem Inv.start (S : ℕ → UInt8) (s0 : Uint32) : Inv S s0 (start s0) :=
  ⟨⟨[], 0, Layout.init s0 _⟩, rfl⟩

theorem Inv.delivers (h : Inv S s0 rcv) : Delivers S s0 rcv := by
  obtain ⟨⟨is, next, hq⟩, hout⟩ := h
  refine ⟨fun reg hreg => ?_, hout, ?_⟩
  · obtain ⟨i, hi, hholds⟩ := hq.regions.exists_of_mem_left hreg
    obtain ⟨hb, he⟩ := pos_region hholds.pos (hq.window i hi)
    rw [hb, he, hholds.data]
  · rw [hq.rcvNxt, pos_ofPos hq.next_window]
    exact hq.next_window.1

theorem extractBytesUpTo_spec {queue : TCPByteStreamRcvQueue} {first : ℕ}
    (hq : Layout s0 (Holds S s0) queue is first next) (hp : p ≤ next) (hnear : next < p + 2 ^ 31)
    (hends : ∀ i ∈ is, i.2 < p + 2 ^ 31) :
    (p ≤ first ∧ extractBytesUpTo queue (ofPos s0 p) = .ok (none, queue)) ∨
      (first < p ∧ ∃ queue' is',
        extractBytesUpTo queue (ofPos s0 p) = .ok (some ⟨p - first, slice S first p⟩, queue') ∧
        Layout s0 (Holds S s0) queue' is' p next) := by
  have hwindow := hq.next_window
  obtain ⟨hle, hext⟩ | ⟨hlt, r, queue', is', hext, hr, layout, -⟩ :=
    TCPVirtualDataRcvQueue.extractTo_spec (fun _ _ h => h.pos)
      (fun r i m hr => split_of_holds hr) hq hp hnear hends
  · refine .inl ⟨hle, ?_⟩
    simp only [extractBytesUpTo, hext, ok_bind]
  · refine .inr ⟨hlt, queue', is', ?_, layout⟩
    have hcopy := copyTo_of_holds hr hlt.le (by simp only; omega)
    simp only [extractBytesUpTo, hext, ok_bind, hcopy]

theorem Inv.extract (h : Inv S s0 rcv) (allowed : rcv.Allowed s0 (.extract p)) :
    ∃ t, rcv.step S s0 (.extract p) = .ok t ∧ Inv S s0 t := by
  obtain ⟨⟨is, next, hq⟩, hout⟩ := h
  obtain ⟨hp, hnear, hends⟩ := allowed
  rw [hq.rcvNxt, pos_ofPos hq.next_window] at hp hnear
  have hends' : ∀ i ∈ is, i.2 < p + 2 ^ 31 := by
    intro i hi
    obtain ⟨reg, hreg, hholds⟩ := hq.regions.exists_of_mem_right hi
    rw [← (pos_region hholds.pos (hq.window i hi)).2]
    exact hends reg hreg
  obtain ⟨-, hext⟩ | ⟨hlt, queue', is', hext, layout⟩ :=
    extractBytesUpTo_spec hq hp hnear hends'
  · refine ⟨rcv, ?_, ⟨is, next, hq⟩, hout⟩
    simp only [step, hext, ok_bind, Option.map_none, Option.getD_none, List.append_nil]
  · have hout' : rcv.out ++ slice S rcv.out.length p = slice S 0 p := by
      nth_rewrite 1 [hout]
      exact slice_append (Nat.zero_le _) hlt.le
    refine ⟨{ queue := queue', out := slice S 0 p }, ?_, ⟨is', next, ?_⟩, ?_⟩
    · simp only [step, hext, ok_bind, Option.map_some, Option.getD_some, hout']
    · simpa only [length_slice, Nat.sub_zero] using layout
    · simp only [length_slice, Nat.sub_zero]

section

variable (hq : Layout s0 (Holds S s0) rcv.queue is rcv.out.length next)

include hq

theorem Inv.stored (hi : i ∈ is) :
    ∃ reg ∈ rcv.queue.regionList, rcv.pos s0 reg.begin = i.1 ∧ rcv.pos s0 reg.end = i.2 := by
  obtain ⟨reg, hreg, hholds⟩ := hq.regions.exists_of_mem_right hi
  exact ⟨reg, hreg, pos_region hholds.pos (hq.window i hi)⟩

/-- Under the condition the spliced stream is the stream, up to the end of the region. -/
theorem Spliced.holds_of_noInnerEnd {x : ℕ} (hx : ∀ i ∈ is, i.1 ≤ o + n → o + n < i.2 → i.1 = x)
    (cond : rcv.NoInnerEnd S s0 (.insert o n)) {r : Region} (h : Spliced S s0 is (o + n) x r i) :
    Holds S s0 r i := by
  refine h.holds.congr fun k _ hk => ?_
  by_cases hkm : k < o + n
  · rw [splice, if_pos hkm]
  · obtain heq | ⟨j, hj, hjm, hmj, heq⟩ := h.ends
    · omega
    · obtain ⟨reg, hreg, hb, he⟩ := Inv.stored hq hj
      have hbytes := cond reg hreg
      rw [hb, he] at hbytes
      have hback : j.1 + (k - (o + n)) = k ∨
          S (j.1 + (k - (o + n))) = S (o + n + (k - (o + n))) := by
        by_cases hstrict : j.1 < o + n
        · exact .inr (hbytes hstrict hmj _ (by omega))
        · exact .inl (by omega)
      rw [splice, if_neg hkm, ← hx j hj hjm hmj]
      obtain hback | hback := hback
      · rw [hback]
      · rw [hback, show o + n + (k - (o + n)) = k by omega]

/-- If the region that holds the segment is right, then the stored region in which the
segment ends has equal bytes in the two places. -/
theorem Spliced.noInnerEnd_of_delivers {next' x : ℕ} {queue' : TCPByteStreamRcvQueue}
    {Good : Region → ℕ × ℕ → Prop} {r : Region} (hn : 0 < n)
    (hx : ∀ i ∈ is, i.1 ≤ o + n → o + n < i.2 → i.1 = x)
    (layout : Layout s0 Good queue' (Intervals.insert is (o, o + n)) rcv.out.length next')
    (hr : Spliced S s0 is (o + n) x r i) (hmem : r ∈ queue'.regionList)
    (hi : i ∈ Intervals.insert is (o, o + n)) (hio : i.1 ≤ o) (hni : o + n ≤ i.2)
    (delivers : Delivers S s0 { rcv with queue := queue' }) :
    rcv.NoInnerEnd S s0 (.insert o n) := by
  intro reg hreg hbm hme k hk
  obtain ⟨j, hj, hholds⟩ := hq.regions.exists_of_mem_left hreg
  obtain ⟨hb, he⟩ := pos_region hholds.pos (hq.window j hj)
  rw [hb] at hbm ⊢
  rw [he] at hme hk
  -- the stored region has become part of the one that holds the segment
  obtain ⟨y, hy, hyj, hjy⟩ := layout.ascending.exists_of_Ico_subset (hq.proper j hj)
    fun z h₁ h₂ => Intervals.mem_cover_insert.mpr (.inl (Intervals.mem_cover_of_mem hj h₁ h₂))
  obtain rfl : y = i := @Intervals.Ascending.eq_of_mem _ _ _ _ _ (o + n - 1) layout.ascending
    hy hi (by omega) (by omega)
  have hpos : pos s0 { rcv with queue := queue' } = rcv.pos s0 := rfl
  obtain ⟨hrb, hre⟩ := pos_region hr.holds.pos (layout.window y hy)
  have hright := delivers.stored r hmem
  rw [hpos, hrb, hre, hr.holds.data] at hright
  have hbyte := slice_eq_iff.mp hright (o + n + k) (by omega) (by omega)
  rw [← hbyte, splice, if_neg (by omega), hx j hj hbm.le hme, Nat.add_sub_cancel_left]

end

/-- A segment that meets the condition leaves every region right, and one that leaves
every region right meets it. -/
theorem Inv.insert (h : Inv S s0 rcv) (allowed : rcv.Allowed s0 (.insert o n)) :
    ∃ t, rcv.step S s0 (.insert o n) = .ok t ∧ (rcv.NoInnerEnd S s0 (.insert o n) → Inv S s0 t) ∧
      (Delivers S s0 t → rcv.NoInnerEnd S s0 (.insert o n)) := by
  obtain ⟨⟨is, next, hq⟩, hout⟩ := h
  obtain ⟨ho, hn, hw⟩ := allowed
  rw [hq.rcvNxt, pos_ofPos hq.next_window] at ho
  obtain ⟨x, hx⟩ := exists_splice hq.ascending (o + n)
  obtain ⟨queue', next', r, i, hins, layout, merged, hio, hni⟩ :=
    insertBytes_spec hq (hq.next_window.1.trans ho) hn hw hx
  refine ⟨{ rcv with queue := queue' }, ?_, ?_, ?_⟩
  · simp only [step, hins, ok_bind]
  · intro cond
    have regions := layout.regions.imp fun r i h =>
      h.elim id (Spliced.holds_of_noInnerEnd hq hx cond)
    exact ⟨⟨_, next', { layout with regions }⟩, hout⟩
  · exact Spliced.noInnerEnd_of_delivers hq hn hx layout merged.seg merged.mem merged.mem_pos
      hio hni

/-- A byte stream arrives right, whatever the order, the overlaps and the extractions,
exactly if no segment ends strictly inside a stored region that has other bytes behind
the segment than at its own beginning. -/
theorem delivers_iff_noInnerEnd (S : ℕ → UInt8) (s0 : Uint32) (calls : List Call)
    (allowed : Run.Admissible (step S s0) (Allowed s0) (start s0) calls) :
    Run.Always (step S s0) (Delivers S s0) (start s0) calls ↔
      Run.Admissible (step S s0) (NoInnerEnd S s0) (start s0) calls := by
  refine Run.always_iff_admissible (fun _ h => h.delivers) ?_ (Inv.start S s0) allowed
  intro rcv call h hallowed
  cases call with
  | insert o n => exact h.insert hallowed
  | extract p =>
    obtain ⟨t, hstep, ht⟩ := h.extract hallowed
    exact ⟨t, hstep, fun _ => ht, fun _ => trivial⟩

/-- The stream `1, 2, 3, ...`. -/
def countingStream (k : ℕ) : UInt8 := UInt8.ofNat (k + 1)

/-- Two segments across the wrap of the sequence numbers, the second one touching the
first, and the extraction of a part of both. -/
theorem delivers_wrapped_segments :
    Run.Always (step countingStream (-1#32)) (Delivers countingStream (-1#32)) (start (-1#32))
      [.insert 2 2, .insert 0 2, .extract 3] :=
  (delivers_iff_noInnerEnd countingStream (-1#32) [.insert 2 2, .insert 0 2, .extract 3]
    (by decide)).mpr (by decide)

/-- The segment with the bytes `1, 2` arrives after the one with `2, 3`. The region then
holds `1, 2, 2`. -/
theorem not_delivers_of_innerEnd :
    Run.Admissible (step countingStream 0) (Allowed 0) (start 0) [.insert 1 2, .insert 0 2] ∧
      ¬ Run.Always (step countingStream 0) (Delivers countingStream 0) (start 0)
        [.insert 1 2, .insert 0 2] := by
  decide

end Receiver

end TCPByteStreamRcvQueue

end Inet.Tcp
