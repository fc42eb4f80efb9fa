import Inet.Common.ByteArrayBuffer
import Inet.Tcp.Segment

/-!
# The byte-stream send queue

`TCPByteStreamSendQueue` keeps the bytes of the application between the sequence numbers `begin`
and `end`. It is a queue of bytes (`refines_of_run`): a segment carries the bytes of the stream
from its sequence number on (`createSegmentWithBytes_eq`).

`end - begin` is a number of 32 bits, so that it is the number of stored bytes as long as that is
less than `2 ^ 32`.
-/

namespace Inet

/-- A packet with its bytes. -/
structure RawPacket where
  byteLength : ℕ
  byteArray : Bytes

namespace Tcp

open SerialNumber (ofPos)

structure TCPByteStreamSendQueue where
  begin : Uint32
  «end» : Uint32
  dataBuffer : ByteArrayBuffer := {}

namespace TCPByteStreamSendQueue

variable {μ : Type}

def init (startSeq : Uint32) : TCPByteStreamSendQueue := { begin := startSeq, «end» := startSeq }

def enqueueAppData (queue : TCPByteStreamSendQueue) (msg : RawPacket) :
    Result TCPByteStreamSendQueue := do
  let bytes := msg.byteLength
  assert (bytes == msg.byteArray.length) "bytes == bamsg->getByteArray().getDataArraySize()"
  .ok
    { queue with
      dataBuffer := queue.dataBuffer.push msg.byteArray
      «end» := queue.end + BitVec.ofNat 32 bytes }

/-- The number of bytes, an `unsigned long`, becomes an `unsigned int` when they are read. -/
def createSegmentWithBytes (queue : TCPByteStreamSendQueue) (fromSeq : Uint32) (numBytes : ℕ) :
    Result (TCPSegment μ) := do
  assert (seqLE queue.begin fromSeq && seqLE (fromSeq + BitVec.ofNat 32 numBytes) queue.end)
    "seqLE(begin, fromSeq) && seqLE(fromSeq + numBytes, end)"
  let fromOffs := (fromSeq - queue.begin).toNat
  let buffer ← queue.dataBuffer.getBytesToBuffer (numBytes % 2 ^ 32) fromOffs
  assert (buffer.length == numBytes) "bytes == numBytes"
  .ok
    { sequenceNo := fromSeq
      payloadLength := numBytes
      byteArray := buffer }

def discardUpTo (queue : TCPByteStreamSendQueue) (seqNum : Uint32) :
    Result TCPByteStreamSendQueue := do
  assert (seqLE queue.begin seqNum && seqLE seqNum queue.end)
    "seqLE(begin, seqNum) && seqLE(seqNum, end)"
  let dataBuffer ← queue.dataBuffer.drop (seqNum - queue.begin).toNat
  .ok { queue with begin := seqNum, dataBuffer }

/-- A call that changes the queue. -/
inductive Call where
  | enqueueAppData (msg : RawPacket)
  | discardUpTo (seqNum : Uint32)

def step (queue : TCPByteStreamSendQueue) : Call → Result TCPByteStreamSendQueue
  | .enqueueAppData msg => queue.enqueueAppData msg
  | .discardUpTo seqNum => queue.discardUpTo seqNum

/-- What the functions assert. -/
def Allowed (queue : TCPByteStreamSendQueue) : Call → Prop
  | .enqueueAppData msg => msg.byteLength = msg.byteArray.length
  | .discardUpTo seqNum => seqLE queue.begin seqNum = true ∧ seqLE seqNum queue.end = true

instance (queue : TCPByteStreamSendQueue) : (call : Call) → Decidable (queue.Allowed call)
  | .enqueueAppData _ => inferInstanceAs (Decidable (_ = _))
  | .discardUpTo _ => inferInstanceAs (Decidable (_ ∧ _))

/-- The call on the queue of all bytes of the stream that begins at `startSeq`. -/
def fifoStep (startSeq : Uint32) (fifo : Fifo UInt8) : Call → Fifo UInt8
  | .enqueueAppData msg => fifo.push msg.byteArray
  | .discardUpTo seqNum => fifo.drop (seqNum - ofPos startSeq fifo.dropped).toNat

/-- The queue keeps what is left of the stream. -/
structure Refines (startSeq : Uint32) (queue : TCPByteStreamSendQueue) (fifo : Fifo UInt8) :
    Prop where
  proper : fifo.Proper
  begin : queue.begin = ofPos startSeq fifo.dropped
  «end» : queue.end = ofPos startSeq fifo.pushed.length
  holds : queue.dataBuffer.Holds fifo.contents

variable {startSeq : Uint32} {queue : TCPByteStreamSendQueue} {fifo : Fifo UInt8}

/-- `end` lies behind `begin` by the number of stored bytes. -/
theorem Refines.end_eq (h : Refines startSeq queue fifo) :
    queue.end = ofPos queue.begin fifo.contents.length := by
  have hproper := h.proper
  unfold Fifo.Proper at hproper
  rw [h.begin, h.end, SerialNumber.ofPos_ofPos, Fifo.length_contents, Nat.add_sub_cancel' hproper]

theorem Refines.offset_le (h : Refines startSeq queue fifo) {seqNum : Uint32}
    (hbegin : seqLE queue.begin seqNum = true) (hend : seqLE seqNum queue.end = true) :
    (seqNum - queue.begin).toNat ≤ fifo.contents.length := by
  have hpos := SerialNumber.ofPos_toNat_sub queue.begin seqNum
  have hlt : (seqNum - queue.begin).toNat < 2 ^ 31 := by simpa [seqLE] using hbegin
  by_contra hgt
  rw [h.end_eq, ← hpos, seqLE_ofPos (near_of_lt hlt (by omega)), decide_eq_true_eq] at hend
  exact hgt hend

theorem Refines.step (h : Refines startSeq queue fifo) {call : Call}
    (allowed : queue.Allowed call) :
    ∃ queue', queue.step call = .ok queue' ∧
      Refines startSeq queue' (fifoStep startSeq fifo call) := by
  cases call with
  | enqueueAppData msg =>
    have hlength : (msg.byteLength == msg.byteArray.length) = true := beq_iff_eq.mpr allowed
    have hbytes : msg.byteLength = msg.byteArray.length := allowed
    refine ⟨{ queue with
        dataBuffer := queue.dataBuffer.push msg.byteArray
        «end» := queue.end + BitVec.ofNat 32 msg.byteLength },
      ?_, h.proper.push _, h.begin, ?_, ?_⟩
    · simp only [TCPByteStreamSendQueue.step, enqueueAppData, assert_of hlength, ok_bind]
    · rw [fifoStep, Fifo.push, List.length_append, ← SerialNumber.ofPos_ofPos, ← h.end, ← hbytes]
      rfl
    · rw [fifoStep, Fifo.contents_push h.proper]
      exact h.holds.push _
  | discardUpTo seqNum =>
    have hrange : (seqLE queue.begin seqNum && seqLE seqNum queue.end) = true := by
      rw [allowed.1, allowed.2]
      rfl
    have hle := h.offset_le allowed.1 allowed.2
    obtain ⟨dataBuffer, hdrop, holds⟩ := h.holds.drop hle
    refine ⟨{ queue with begin := seqNum, dataBuffer }, ?_, ?_, ?_, h.end, ?_⟩
    · rw [TCPByteStreamSendQueue.step, discardUpTo, assert_of hrange, ok_bind, hdrop, ok_bind]
    · rw [fifoStep, ← h.begin]
      exact h.proper.drop hle
    · rw [fifoStep, ← h.begin, Fifo.drop, ← SerialNumber.ofPos_ofPos, ← h.begin,
        SerialNumber.ofPos_toNat_sub]
    · rw [fifoStep, ← h.begin, Fifo.contents_drop]
      exact holds

theorem refines_of_run {calls : List Call}
    (allowed : Run.Admissible step Allowed (init startSeq) calls) :
    ∃ queue, Run.exec step (init startSeq) calls = .ok queue ∧
      Refines startSeq queue (calls.foldl (fifoStep startSeq) {}) :=
  Run.simulates (fun _ _ _ h hallowed => h.step hallowed)
    ⟨Nat.le_refl 0, (SerialNumber.ofPos_zero startSeq).symm,
      (SerialNumber.ofPos_zero startSeq).symm, .empty⟩ allowed

/-- A segment carries the bytes from its sequence number on, if these are stored. -/
theorem Refines.createSegmentWithBytes (h : Refines startSeq queue fifo) {fromSeq : Uint32} {n : ℕ}
    (hbegin : seqLE queue.begin fromSeq = true)
    (hend : seqLE (fromSeq + BitVec.ofNat 32 n) queue.end = true)
    (hstored : (fromSeq - queue.begin).toNat + n ≤ fifo.contents.length)
    (hlt : (fromSeq - queue.begin).toNat + n < 2 ^ 32) :
    queue.createSegmentWithBytes fromSeq n = .ok
      ({ sequenceNo := fromSeq
         payloadLength := n
         byteArray := (fifo.contents.drop (fromSeq - queue.begin).toNat).take n } :
        TCPSegment μ) := by
  have hrange : (seqLE queue.begin fromSeq && seqLE (fromSeq + BitVec.ofNat 32 n) queue.end) =
      true := by
    rw [hbegin, hend]
    rfl
  have hmod : n % 2 ^ 32 = n := Nat.mod_eq_of_lt (by omega)
  have hlength : (((fifo.contents.drop (fromSeq - queue.begin).toNat).take n).length == n) =
      true := by
    rw [beq_iff_eq, List.length_take, List.length_drop]
    omega
  simp only [TCPByteStreamSendQueue.createSegmentWithBytes, assert_of hrange, ok_bind, hmod,
    h.holds.getBytesToBuffer hlt, assert_of hlength]

/-- The byte buffer and the send queue are queues of bytes: whatever has been called, they store
the bytes that have been pushed and not been dropped, and give out any part of them. -/
theorem behave_as_fifo :
    (∀ calls, Run.Admissible ByteArrayBuffer.step ByteArrayBuffer.Allowed {} calls →
      ∃ buffer fifo, Run.exec ByteArrayBuffer.step {} calls = .ok buffer ∧
        fifo = calls.foldl ByteArrayBuffer.fifoStep {} ∧
        buffer.dataLength = fifo.contents.length ∧
        ∀ length srcOffs, srcOffs + length < 2 ^ 32 → buffer.getBytesToBuffer length srcOffs =
            .ok ((fifo.contents.drop srcOffs).take length)) ∧
    ∀ startSeq calls, Run.Admissible step Allowed (init startSeq) calls →
      ∃ queue fifo, Run.exec step (init startSeq) calls = .ok queue ∧
        fifo = calls.foldl (fifoStep startSeq) {} ∧
        queue.begin = ofPos startSeq fifo.dropped ∧
        queue.dataBuffer.dataLength = fifo.contents.length ∧
        queue.dataBuffer.dataLength % 2 ^ 32 = (queue.end - queue.begin).toNat ∧
        ∀ fromSeq n, seqLE queue.begin fromSeq = true →
          seqLE (fromSeq + BitVec.ofNat 32 n) queue.end = true →
          (fromSeq - queue.begin).toNat + n ≤ queue.dataBuffer.dataLength →
          (fromSeq - queue.begin).toNat + n < 2 ^ 32 →
          queue.createSegmentWithBytes fromSeq n = .ok
            ({ sequenceNo := fromSeq
               payloadLength := n
               byteArray := (fifo.contents.drop (fromSeq - queue.begin).toNat).take n } :
              TCPSegment μ) := by
  constructor
  · intro calls allowed
    obtain ⟨buffer, hexec, -, holds⟩ := ByteArrayBuffer.refines_of_run allowed
    exact ⟨buffer, _, hexec, rfl, holds.dataLength, fun _ _ hlt => holds.getBytesToBuffer hlt⟩
  · intro startSeq calls allowed
    obtain ⟨queue, hexec, h⟩ := refines_of_run allowed
    refine ⟨queue, _, hexec, rfl, h.begin, h.holds.dataLength, ?_, ?_⟩
    · have hdistance := @SerialNumber.ofPos_sub_ofPos _ queue.begin 0
        queue.dataBuffer.dataLength (Nat.zero_le _)
      rw [SerialNumber.ofPos_zero, Nat.sub_zero] at hdistance
      rw [h.end_eq, ← h.holds.dataLength, hdistance, BitVec.toNat_ofNat]
    · intro fromSeq n hbegin hend hstored hlt
      exact h.createSegmentWithBytes hbegin hend (h.holds.dataLength ▸ hstored) hlt

/-- Two slices across the wrap, with an empty one between them. -/
def sampleCalls : List Call :=
  [.enqueueAppData ⟨3, [1, 2, 3]⟩, .enqueueAppData ⟨0, []⟩, .discardUpTo 0xffffffff,
    .enqueueAppData ⟨2, [4, 5]⟩]

theorem createSegmentWithBytes_sampleCalls :
    ∃ queue, Run.exec step (init 0xfffffffe) sampleCalls = .ok queue ∧
      queue.createSegmentWithBytes 0 3 =
        .ok ({ sequenceNo := 0, payloadLength := 3, byteArray := [3, 4, 5] } :
          TCPSegment Unit) := by
  obtain ⟨queue, fifo, hexec, rfl, hbegin, hlength, -, hsegment⟩ :=
    (@behave_as_fifo Unit).2 0xfffffffe sampleCalls (by decide)
  obtain rfl : queue = _ := Except.ok.inj (hexec.symm.trans rfl)
  exact ⟨_, hexec, (hsegment 0 3 (by decide) (by decide) (by decide) (by decide)).trans
    (by decide)⟩

/-- With `2 ^ 32` bytes in the queue `end` is at `begin` again. -/
theorem dataLength_ne_of_fullCircle : ∃ calls queue, Run.Admissible step Allowed (init 0) calls ∧
      Run.exec step (init 0) calls = .ok queue ∧
      queue.dataBuffer.dataLength ≠ (queue.end - queue.begin).toNat := by
  let msg : RawPacket := ⟨2 ^ 31, List.replicate (2 ^ 31) 0⟩
  have hmsg : msg.byteArray.length = 2 ^ 31 := List.length_replicate
  have allowed : Run.Admissible step Allowed (init 0) [.enqueueAppData msg, .enqueueAppData msg] :=
    ⟨hmsg.symm, fun _ _ => ⟨hmsg.symm, fun _ _ => trivial⟩⟩
  obtain ⟨queue, fifo, hexec, rfl, -, hlength, hmod, -⟩ :=
    (@behave_as_fifo Unit).2 0 _ allowed
  refine ⟨_, queue, allowed, hexec, ?_⟩
  rw [← hmod, hlength, Fifo.length_contents]
  simp only [List.foldl_cons, List.foldl_nil, fifoStep, Fifo.push, List.nil_append,
    List.length_append, hmsg]
  decide

end TCPByteStreamSendQueue

end Tcp

end Inet
