import Inet.Sctp.Reassembly

/-!
# What the receive queues of a stream hold

No operation of the queues loses payload or keeps it twice: the received TSNs that the chunks of
a stream stand for are the same before and after it, up to their order, and every chunk has the
payload of its TSNs and nothing else. Nothing is assumed about the peer: fragments may be joined
to a message they do not belong to.
-/

namespace Inet.Sctp

open SerialNumber
open List
open SCTPDataVariables (key)

section

variable {base : Uint32} {payload : ℕ → Bytes} {chunk next : SCTPDataVariables}

/-- The chunk holds the payloads of the TSNs at the positions `received`, in this order, and is
called by the first of them. -/
structure SCTPDataVariables.Intact (base : Uint32) (payload : ℕ → Bytes)
    (chunk : SCTPDataVariables) : Prop where
  first : ∃ x xs, chunk.received = x :: xs ∧ chunk.tsn = ofPos base x
  data : chunk.userData = (chunk.received.map payload).flatten
  bits : chunk.len = 8 * chunk.userData.length
  nonempty : 0 < chunk.userData.length

theorem SCTPDataVariables.Intact.add (h : chunk.Intact base payload)
    (hnext : next.Intact base payload)
    (hbits : 8 * (chunk.userData.length + next.userData.length) < 2 ^ 32) :
    (chunk.add next).Intact base payload := by
  have hoffset : chunk.len / 8 = chunk.userData.length := by
    rw [h.bits]
    omega
  have hwhole : next.userData.take (next.len / 8) = next.userData := by
    apply take_of_length_le
    rw [hnext.bits]
    omega
  have hdata : (chunk.add next).userData = chunk.userData ++ next.userData := by
    show (if 0 < chunk.userData.length ∧ 0 < next.userData.length then _ else _) = _
    rw [if_pos ⟨h.nonempty, hnext.nonempty⟩, hoffset, hwhole]
    exact Sender.overwrite_append (length_replicate ..).symm
  obtain ⟨x, xs, hreceived, htsn⟩ := h.first
  refine ⟨⟨x, xs ++ next.received, ?_, htsn⟩, ?_, ?_, ?_⟩
  · show chunk.received ++ next.received = x :: (xs ++ next.received)
    rw [hreceived, cons_append]
  · show _ = ((chunk.received ++ next.received).map payload).flatten
    rw [hdata, map_append, flatten_append, h.data, hnext.data]
  · show (chunk.len + next.len) % 2 ^ 32 = _
    rw [hdata, length_append, h.bits, hnext.bits]
    omega
  · rw [hdata, length_append]
    exact Nat.add_pos_left h.nonempty _

/-- The payload of a position that is not in the chunk does not matter. -/
theorem SCTPDataVariables.Intact.congr {payload' : ℕ → Bytes} (h : chunk.Intact base payload)
    (heq : ∀ x ∈ chunk.received, payload' x = payload x) : chunk.Intact base payload' :=
  { h with data := h.data.trans (congrArg List.flatten (map_congr_left heq).symm) }

end

namespace SCTPQueue

variable {base : Uint32} {payload : ℕ → Bytes} {sid : ℕ} {queue queue' : SCTPQueue}
  {chunk : SCTPDataVariables} {tsn : Uint32}

/-- The positions of the TSNs whose payload is in the queue. -/
def received (queue : SCTPQueue) : List ℕ := queue.flatMap SCTPDataVariables.received

def bytes (queue : SCTPQueue) : ℕ := (queue.map fun chunk => chunk.userData.length).sum

theorem received_perm (h : queue.Perm queue') : (received queue).Perm (received queue') :=
  h.flatMap_right _

theorem bytes_perm (h : queue.Perm queue') : bytes queue = bytes queue' := (h.map _).sum_nat

theorem bytes_cons (chunk : SCTPDataVariables) (queue : SCTPQueue) :
    bytes (chunk :: queue) = chunk.userData.length + bytes queue := sum_cons

/-- A queue of the stream `sid` with intact chunks. -/
structure Holds (base : Uint32) (payload : ℕ → Bytes) (sid : ℕ) (queue : SCTPQueue) : Prop where
  sorted : KeyedList.Sorted SCTPDataVariables.key queue
  intact : ∀ c ∈ queue, c.Intact base payload
  sid : ∀ c ∈ queue, c.sid = sid

/-- The chunks of the queues have different TSNs. -/
def Apart (queue queue' : SCTPQueue) : Prop := ∀ c ∈ queue, ∀ c' ∈ queue', c.tsn ≠ c'.tsn

/-- Every TSN that names a chunk of the first queue names one of the second. -/
def Names (queue queue' : SCTPQueue) : Prop := ∀ c ∈ queue, ∃ c' ∈ queue', c'.tsn = c.tsn

theorem Names.of_subset (h : queue ⊆ queue') : Names queue queue' :=
  fun c hc => ⟨c, h hc, rfl⟩

theorem Names.trans {queue'' : SCTPQueue} (h : Names queue queue') (h' : Names queue' queue'') :
    Names queue queue'' := by
  intro c hc
  obtain ⟨d, hd, hcd⟩ := h c hc
  obtain ⟨e, he, hde⟩ := h' d hd
  exact ⟨e, he, hde.trans hcd⟩

theorem Apart.symm (h : Apart queue queue') : Apart queue' queue :=
  fun c hc c' hc' heq => h c' hc' c hc heq.symm

theorem Apart.of_names {queue'' : SCTPQueue} (h : Apart queue' queue'')
    (hnames : Names queue queue') : Apart queue queue'' := by
  intro c hc c' hc' heq
  obtain ⟨d, hd, hdc⟩ := hnames c hc
  exact h d hd c' hc' (hdc.trans heq)

theorem Holds.nil : Holds base payload sid [] :=
  ⟨List.Pairwise.nil, fun _ hc => absurd hc not_mem_nil, fun _ hc => absurd hc not_mem_nil⟩

theorem Holds.insert (h : Holds base payload sid queue) (hchunk : chunk.Intact base payload)
    (hsid : chunk.sid = sid) (hfresh : ∀ c ∈ queue, c.tsn ≠ chunk.tsn) :
    Holds base payload sid (KeyedList.insert key chunk queue) where
  sorted := sorted_insert_of_fresh h.sorted hfresh
  intact := fun c hc => (KeyedList.mem_insert.mp hc).elim (fun heq => heq ▸ hchunk) (h.intact c)
  sid := fun c hc => (KeyedList.mem_insert.mp hc).elim (fun heq => heq ▸ hsid) (h.sid c)

theorem Holds.erase (h : Holds base payload sid queue) (tsn : Uint32) :
    Holds base payload sid (erase queue tsn) where
  sorted := h.sorted.erase tsn.toNat
  intact := fun c hc => h.intact c (mem_erase.mp hc).1
  sid := fun c hc => h.sid c (mem_erase.mp hc).1

theorem received_insert : (received (KeyedList.insert key chunk queue)).Perm
    (chunk.received ++ received queue) :=
  received_perm KeyedList.perm_insert

section

variable (h : Holds base payload sid queue)

include h

theorem Holds.perm_erase (hc : chunk ∈ queue) :
    queue.Perm (chunk :: SCTPQueue.erase queue chunk.tsn) :=
  h.sorted.perm_erase hc

theorem Holds.received_erase (hc : chunk ∈ queue) :
    (received queue).Perm (chunk.received ++ received (SCTPQueue.erase queue chunk.tsn)) :=
  received_perm (h.perm_erase hc)

theorem Holds.getChunk (hget : getChunk queue tsn = some chunk) : chunk ∈ queue ∧ chunk.tsn = tsn :=
  (getChunk_eq_some h.sorted).mp hget

/-- No more chunks than bytes. -/
theorem Holds.length_le : queue.length ≤ bytes queue := by
  have hpos : ∀ c ∈ queue, 0 < c.userData.length := fun c hc => (h.intact c hc).nonempty
  clear h
  induction queue with
  | nil => exact Nat.zero_le _
  | cons c queue ih =>
    rw [bytes_cons, length_cons]
    have := hpos c mem_cons_self
    have := ih fun d hd => hpos d (mem_cons_of_mem c hd)
    omega

theorem Holds.getAndExtractChunk (hrun : getAndExtractChunk queue tsn = .ok (chunk, queue')) :
    chunk ∈ queue ∧ chunk.tsn = tsn ∧ queue' = SCTPQueue.erase queue tsn := by
  rw [SCTPQueue.getAndExtractChunk] at hrun
  split_ifs at hrun
  cases hget : SCTPQueue.getChunk queue tsn with
  | none =>
    rw [hget] at hrun
    cases hrun
  | some c =>
    rw [hget] at hrun
    cases hrun
    exact ⟨(h.getChunk hget).1, (h.getChunk hget).2, rfl⟩

end

end SCTPQueue

namespace SCTPReceiveStream

open SCTPQueue

section

variable {base : Uint32} {payload : ℕ → Bytes} {sid n : ℕ} {queue queue' : SCTPQueue}
  {firstVar firstVar' : SCTPDataVariables} {tsn begintsn endtsn : Uint32} {xs : List ℕ}

/-- The queue during the loop of `reassemble`, and its first fragment with what has been added
to it. The fragment is still in the queue as it was. -/
structure Joining (base : Uint32) (payload : ℕ → Bytes) (sid n : ℕ) (xs : List ℕ)
    (queue : SCTPQueue) (firstVar : SCTPDataVariables) : Prop where
  holds : Holds base payload sid queue
  intact : firstVar.Intact base payload
  sid : firstVar.sid = sid
  stale : ∃ c ∈ queue, c.tsn = firstVar.tsn
  received : (firstVar.received ++ received (erase queue firstVar.tsn)).Perm xs
  bytes : firstVar.userData.length + bytes (erase queue firstVar.tsn) = n
  bits : 8 * n < 2 ^ 32

theorem erase_erase (queue : SCTPQueue) (tsn tsn' : Uint32) :
    erase (erase queue tsn) tsn' = erase (erase queue tsn') tsn := by
  simp only [SCTPQueue.erase, KeyedList.erase, filter_filter]
  exact filter_congr fun c _ => Bool.and_comm _ _

section

variable (h : Joining base payload sid n xs queue firstVar)

include h

/-- The first fragment in its place is all that is left to do. -/
theorem Joining.finish : Holds base payload sid (set queue { firstVar with ebit := true }) ∧
      (SCTPQueue.received (set queue { firstVar with ebit := true })).Perm xs ∧
      Names (set queue { firstVar with ebit := true }) queue := by
  have hintact : SCTPDataVariables.Intact base payload { firstVar with ebit := true } :=
    ⟨h.intact.first, h.intact.data, h.intact.bits, h.intact.nonempty⟩
  refine ⟨(h.holds.erase firstVar.tsn).insert hintact h.sid fun c hc => ?_, ?_, ?_⟩
  · exact (mem_erase.mp hc).2
  · exact received_insert.trans h.received
  · intro c hc
    obtain rfl | hc := KeyedList.mem_insert.mp hc
    · exact h.stale
    · exact ⟨c, (mem_erase.mp hc).1, rfl⟩

/-- A fragment other than the first one is added to it. -/
theorem Joining.add {c : SCTPDataVariables} (hc : c ∈ queue) (hne : firstVar.tsn ≠ c.tsn) :
    Joining base payload sid n xs (erase queue c.tsn) (firstVar.add c) := by
  have hc' : c ∈ erase queue firstVar.tsn := mem_erase.mpr ⟨hc, hne.symm⟩
  have hperm := (h.holds.erase firstVar.tsn).perm_erase hc'
  have hbytes := h.bytes
  rw [bytes_perm hperm, bytes_cons] at hbytes
  have hbits := h.bits
  have hadd := h.intact.add (h.holds.intact c hc) (by omega)
  have hdata : (firstVar.add c).userData.length = firstVar.userData.length + c.userData.length := by
    have hlen : (firstVar.add c).len = 8 * (firstVar.add c).userData.length := hadd.bits
    have hsum : (firstVar.add c).len = (firstVar.len + c.len) % 2 ^ 32 := rfl
    rw [h.intact.bits, (h.holds.intact c hc).bits] at hsum
    omega
  obtain ⟨d, hd, hdtsn⟩ := h.stale
  refine ⟨h.holds.erase c.tsn, hadd, h.sid, ⟨d, ?_, hdtsn⟩, ?_, ?_, hbits⟩
  · exact mem_erase.mpr ⟨hd, fun heq => hne (hdtsn.symm.trans heq)⟩
  · show ((firstVar.received ++ c.received) ++
      SCTPQueue.received (erase (erase queue c.tsn) firstVar.tsn)).Perm xs
    rw [erase_erase, append_assoc]
    exact ((received_perm hperm).symm.append_left firstVar.received).trans h.received
  · show _ + SCTPQueue.bytes (erase (erase queue c.tsn) firstVar.tsn) = n
    rw [erase_erase, hdata]
    omega

theorem Joining.addFragments {fuel : ℕ}
    (hdistance : (begintsn - firstVar.tsn).toNat + queue.length ≤ n)
    (hrun : addFragments endtsn fuel queue firstVar begintsn = .ok (queue', firstVar')) :
    Joining base payload sid n xs queue' firstVar' ∧ queue' ⊆ queue := by
  induction fuel generalizing queue firstVar begintsn with
  | zero => cases hrun
  | succ fuel ih =>
    simp only [SCTPReceiveStream.addFragments] at hrun
    split_ifs at hrun with hle
    · obtain ⟨⟨c, rest⟩, hextract, hrun⟩ := bind_eq_ok.mp hrun
      obtain ⟨hc, hctsn, rfl⟩ := h.holds.getAndExtractChunk hextract
      have hpos := length_pos_of_mem hc
      have hbits := h.bits
      -- the loop has not come around to the first fragment
      have hnext : (begintsn + 1 - firstVar.tsn).toNat = (begintsn - firstVar.tsn).toNat + 1 := by
        bv_omega
      have hne : firstVar.tsn ≠ c.tsn := by
        intro heq
        rw [heq, hctsn, BitVec.sub_self] at hnext
        cases hnext
      have hshort := (h.holds.perm_erase hc).length_eq
      rw [length_cons] at hshort
      rw [← hctsn] at hrun
      obtain ⟨hjoining, hsub⟩ := ih (h.add hc hne) (by
        show (c.tsn - firstVar.tsn).toNat + _ ≤ n
        rw [hctsn, hnext]
        rw [hctsn] at hshort
        omega) hrun
      exact ⟨hjoining, fun d hd => (mem_erase.mp (hsub hd)).1⟩
    · cases hrun
      exact ⟨h, fun d hd => hd⟩

end

/-- Fragments are joined and none of their data is lost. -/
theorem reassemble_spec (h : Holds base payload sid queue) (hbits : 8 * bytes queue < 2 ^ 32)
    (hrun : reassemble queue tsn = .ok (queue', begintsn)) :
    Holds base payload sid queue' ∧ (received queue').Perm (received queue) ∧
      Names queue' queue := by
  have hsame : Holds base payload sid queue ∧ (received queue).Perm (received queue) ∧
      Names queue queue := ⟨h, List.Perm.refl _, .of_subset fun c hc => hc⟩
  simp only [reassemble] at hrun
  obtain ⟨first, -, hrun⟩ := bind_eq_ok.mp hrun
  cases hget : getChunk queue first with
  | none =>
    rw [hget] at hrun
    cases hrun
    exact hsame
  | some firstVar =>
    rw [hget] at hrun
    obtain ⟨last, -, hrun⟩ := bind_eq_ok.mp hrun
    split_ifs at hrun
    · obtain ⟨⟨queue₁, firstVar₁⟩, hloop, hrun⟩ := bind_eq_ok.mp hrun
      cases hrun
      obtain ⟨hfirst, rfl⟩ := h.getChunk hget
      have hperm := h.perm_erase hfirst
      have hjoining : Joining base payload sid (bytes queue) (received queue) queue firstVar :=
        { holds := h
          intact := h.intact firstVar hfirst
          sid := h.sid firstVar hfirst
          stale := ⟨firstVar, hfirst, rfl⟩
          received := (received_perm hperm).symm
          bytes := ((bytes_perm hperm).trans (bytes_cons ..)).symm
          bits := hbits }
      obtain ⟨hjoined, hsub⟩ := hjoining.addFragments (by
        rw [BitVec.sub_self]
        simpa using h.length_le) hloop
      obtain ⟨hholds, hreceived, hnames⟩ := hjoined.finish
      exact ⟨hholds, hreceived, hnames.trans (.of_subset hsub)⟩
    · cases hrun
      exact hsame

end

variable {base : Uint32} {payload : ℕ → Bytes} {sid : ℕ} {stream stream' : SCTPReceiveStream}
  {chunk : SCTPDataVariables} {ret : ℕ}

def chunks (stream : SCTPReceiveStream) : List SCTPDataVariables :=
  stream.deliveryQ ++ (stream.orderedQ ++ stream.unorderedQ)

/-- The positions of the TSNs whose payload is in one of the queues. -/
def received (stream : SCTPReceiveStream) : List ℕ :=
  SCTPQueue.received stream.deliveryQ ++
    (SCTPQueue.received stream.orderedQ ++ SCTPQueue.received stream.unorderedQ)

/-- The chunks in the queues are intact, and no TSN names two of them. -/
structure Holds (base : Uint32) (payload : ℕ → Bytes) (sid : ℕ) (stream : SCTPReceiveStream) :
    Prop where
  delivery : SCTPQueue.Holds base payload sid stream.deliveryQ
  ordered : SCTPQueue.Holds base payload sid stream.orderedQ
  unordered : SCTPQueue.Holds base payload sid stream.unorderedQ
  deliveryOrdered : Apart stream.deliveryQ stream.orderedQ
  deliveryUnordered : Apart stream.deliveryQ stream.unorderedQ
  orderedUnordered : Apart stream.orderedQ stream.unorderedQ

theorem received_eq (stream : SCTPReceiveStream) :
    received stream = (chunks stream).flatMap SCTPDataVariables.received := by
  simp only [received, chunks, SCTPQueue.received, flatMap_append]

theorem Holds.intact (h : Holds base payload sid stream) {c : SCTPDataVariables}
    (hc : c ∈ chunks stream) : c.Intact base payload := by
  simp only [chunks, mem_append] at hc
  obtain hc | hc | hc := hc
  · exact h.delivery.intact c hc
  · exact h.ordered.intact c hc
  · exact h.unordered.intact c hc

theorem Holds.sid_eq (h : Holds base payload sid stream) {c : SCTPDataVariables}
    (hc : c ∈ chunks stream) : c.sid = sid := by
  simp only [chunks, mem_append] at hc
  obtain hc | hc | hc := hc
  · exact h.delivery.sid c hc
  · exact h.ordered.sid c hc
  · exact h.unordered.sid c hc

section

variable {queue deliveryQ rest : SCTPQueue}

/-- A chunk that moves into the delivery queue finds its place there. -/
theorem checkAndInsertChunk_of_apart (hapart : Apart deliveryQ queue) (hc : chunk ∈ queue) :
    checkAndInsertChunk deliveryQ chunk = some (KeyedList.insert key chunk deliveryQ) :=
  checkAndInsertChunk_of_fresh fun c hc' => hapart c hc' chunk hc

theorem apart_deliver (hapart : Apart deliveryQ queue) :
    Apart (KeyedList.insert key chunk deliveryQ) (erase queue chunk.tsn) := by
  intro c hc c' hc' heq
  obtain ⟨hc', hne⟩ := mem_erase.mp hc'
  obtain rfl | hc := KeyedList.mem_insert.mp hc
  · exact hne heq.symm
  · exact hapart c hc c' hc' heq

theorem apart_insert (hdelivery : Apart deliveryQ rest) (hfresh : ∀ c ∈ rest, c.tsn ≠ chunk.tsn) :
    Apart (KeyedList.insert key chunk deliveryQ) rest := by
  intro c hc c' hc' heq
  obtain rfl | hc := KeyedList.mem_insert.mp hc
  · exact hfresh c' hc' heq.symm
  · exact hdelivery c hc c' hc' heq

theorem received_deliver (deliveryQ : SCTPQueue)
    (hholds : SCTPQueue.Holds base payload sid queue) (hc : chunk ∈ queue) (x : ℕ) :
    (SCTPQueue.received (KeyedList.insert key chunk deliveryQ)).count x +
        (SCTPQueue.received (erase queue chunk.tsn)).count x =
      (SCTPQueue.received deliveryQ).count x + (SCTPQueue.received queue).count x := by
  have hinsert : (SCTPQueue.received (KeyedList.insert key chunk
      deliveryQ)).Perm (chunk.received ++ SCTPQueue.received deliveryQ) := received_insert
  rw [hinsert.count_eq x, (hholds.received_erase hc).count_eq x, count_append, count_append]
  omega

end

section

variable (h : Holds base payload sid stream)

include h

theorem Holds.deliver_ordered (hc : chunk ∈ stream.orderedQ)
    {expected : ℕ} (heq : stream' = { stream with
      orderedQ := erase stream.orderedQ chunk.tsn
      deliveryQ := KeyedList.insert key chunk stream.deliveryQ
      expectedStreamSeqNum := expected }) :
    Holds base payload sid stream' ∧ (received stream').Perm (received stream) := by
  subst heq
  have hfresh : ∀ c ∈ stream.unorderedQ, c.tsn ≠ chunk.tsn :=
    fun c hc' heq => h.orderedUnordered chunk hc c hc' heq.symm
  refine ⟨⟨?_, h.ordered.erase _, h.unordered, apart_deliver h.deliveryOrdered,
    apart_insert h.deliveryUnordered hfresh, ?_⟩, ?_⟩
  · exact h.delivery.insert (h.ordered.intact chunk hc) (h.ordered.sid chunk hc)
      fun c hc' => h.deliveryOrdered c hc' chunk hc
  · exact h.orderedUnordered.of_names (.of_subset fun c hc' => (mem_erase.mp hc').1)
  · refine perm_iff_count.mpr fun x => ?_
    have hcount := received_deliver stream.deliveryQ h.ordered hc x
    simp only [received, count_append]
    omega

theorem Holds.deliver_unordered (hc : chunk ∈ stream.unorderedQ) (heq : stream' = { stream with
      unorderedQ := erase stream.unorderedQ chunk.tsn
      deliveryQ := KeyedList.insert key chunk stream.deliveryQ }) :
    Holds base payload sid stream' ∧ (received stream').Perm (received stream) := by
  subst heq
  have hfresh : ∀ c ∈ stream.orderedQ, c.tsn ≠ chunk.tsn :=
    fun c hc' => h.orderedUnordered c hc' chunk hc
  refine ⟨⟨?_, h.ordered, h.unordered.erase _, apart_insert h.deliveryOrdered hfresh,
    apart_deliver h.deliveryUnordered, ?_⟩, ?_⟩
  · exact h.delivery.insert (h.unordered.intact chunk hc) (h.unordered.sid chunk hc)
      fun c hc' => h.deliveryUnordered c hc' chunk hc
  · exact (h.orderedUnordered.symm.of_names
      (.of_subset fun c hc' => (mem_erase.mp hc').1)).symm
  · refine perm_iff_count.mpr fun x => ?_
    have hcount := received_deliver stream.deliveryQ h.unordered hc x
    simp only [received, count_append]
    omega

theorem Holds.dequeueNext {inserted : Bool} (hrun : dequeueNext stream = some (stream', inserted)) :
    Holds base payload sid stream' ∧ (received stream').Perm (received stream) := by
  rw [SCTPReceiveStream.dequeueNext, dequeueChunkBySSN] at hrun
  cases hfind : stream.orderedQ.find? fun chunk =>
      chunk.ssn = stream.expectedStreamSeqNum ∧ chunk.bbit ∧ chunk.ebit with
  | none =>
    rw [hfind] at hrun
    cases hrun
  | some chunk =>
    have hc : chunk ∈ stream.orderedQ := mem_of_find?_eq_some hfind
    rw [hfind] at hrun
    simp only [checkAndInsertChunk_of_apart h.deliveryOrdered hc, Option.some.injEq,
      Prod.mk.injEq] at hrun
    exact h.deliver_ordered hc hrun.1.symm

theorem Holds.putInDeliveryQ : Holds base payload sid (putInDeliveryQ stream) ∧
      (received (SCTPReceiveStream.putInDeliveryQ stream)).Perm (received stream) := by
  have hloop : ∀ (fuel : ℕ) (stream : SCTPReceiveStream), Holds base payload sid stream →
      Holds base payload sid (putInDeliveryQLoop fuel stream) ∧
        (received (putInDeliveryQLoop fuel stream)).Perm (received stream) := by
    intro fuel
    induction fuel with
    | zero => exact fun stream h => ⟨h, List.Perm.refl _⟩
    | succ fuel ih =>
      intro stream h
      rw [putInDeliveryQLoop]
      cases hnext : SCTPReceiveStream.dequeueNext stream with
      | none => exact ⟨h, List.Perm.refl _⟩
      | some next =>
        obtain ⟨hholds, hperm⟩ := h.dequeueNext hnext
        obtain ⟨hholds', hperm'⟩ := ih next.1 hholds
        exact ⟨hholds', hperm'.trans hperm⟩
  exact hloop _ stream h

end

/-- `uint32` holds the bits of a queue and of a fragment that is added to it. -/
def FragmentFits (queue : SCTPQueue) (chunk : SCTPDataVariables) : Prop :=
  (chunk.bbit && chunk.ebit) = false → 8 * (SCTPQueue.bytes queue + chunk.userData.length) < 2 ^ 32
deriving Decidable

/-- The chunk can be added to the stream. -/
structure Fresh (base : Uint32) (payload : ℕ → Bytes) (sid : ℕ) (stream : SCTPReceiveStream)
    (chunk : SCTPDataVariables) : Prop where
  intact : chunk.Intact base payload
  sid : chunk.sid = sid
  fresh : ∀ c ∈ chunks stream, c.tsn ≠ chunk.tsn

section

variable (h : Fresh base payload sid stream chunk)

include h

theorem Fresh.delivery :
    ∀ c ∈ stream.deliveryQ, c.tsn ≠ chunk.tsn :=
  fun c hc => h.fresh c (mem_append_left _ hc)

theorem Fresh.ordered :
    ∀ c ∈ stream.orderedQ, c.tsn ≠ chunk.tsn :=
  fun c hc => h.fresh c (mem_append_right _ (mem_append_left _ hc))

theorem Fresh.unordered :
    ∀ c ∈ stream.unorderedQ, c.tsn ≠ chunk.tsn :=
  fun c hc => h.fresh c (mem_append_right _ (mem_append_right _ hc))

end

/-- A queue takes the chunk, and its fragments may be joined then. -/
theorem insert_spec {queue queue' : SCTPQueue} (h : SCTPQueue.Holds base payload sid queue)
    (hchunk : chunk.Intact base payload) (hsid : chunk.sid = sid)
    (hfresh : ∀ c ∈ queue, c.tsn ≠ chunk.tsn) (hfits : FragmentFits queue chunk)
    (hjoined : queue' = KeyedList.insert key chunk queue ∨
      (chunk.bbit && chunk.ebit) = false ∧ ∃ tsn tsn',
        reassemble (KeyedList.insert key chunk queue) tsn = .ok (queue', tsn')) :
    SCTPQueue.Holds base payload sid queue' ∧
      (SCTPQueue.received queue').Perm (chunk.received ++ SCTPQueue.received queue) ∧
      Names queue' (chunk :: queue) := by
  have hholds := h.insert hchunk hsid hfresh
  have hnames : Names (KeyedList.insert key chunk queue) (chunk :: queue) :=
    .of_subset fun c hc => mem_cons.mpr (KeyedList.mem_insert.mp hc)
  obtain rfl | ⟨hfragment, tsn, tsn', hrun⟩ := hjoined
  · exact ⟨hholds, received_insert, hnames⟩
  · have hbits : 8 * SCTPQueue.bytes (KeyedList.insert key chunk queue) < 2 ^ 32 := by
      have := hfits hfragment
      rw [bytes_perm KeyedList.perm_insert, bytes_cons]
      omega
    obtain ⟨hholds', hperm, hnames'⟩ := reassemble_spec hholds hbits hrun
    exact ⟨hholds', hperm.trans received_insert, hnames'.trans hnames⟩

theorem apart_cons {queue rest : SCTPQueue} (h : Apart rest queue)
    (hfresh : ∀ c ∈ rest, c.tsn ≠ chunk.tsn) : Apart (chunk :: queue) rest := by
  intro c hc c' hc' heq
  obtain rfl | hc := mem_cons.mp hc
  · exact hfresh c' hc' heq.symm
  · exact h c' hc' c hc heq.symm

section

variable (h : Holds base payload sid stream) (hnew : Fresh base payload sid stream chunk)

include h hnew

theorem Holds.insertOrdered (hfits : FragmentFits stream.orderedQ chunk)
    {orderedQ : SCTPQueue} (hrun : insertOrdered stream.orderedQ chunk = .ok (orderedQ, ret)) :
    Holds base payload sid { stream with orderedQ } ∧
      (received { stream with orderedQ }).Perm (chunk.received ++ received stream) := by
  have hjoined : orderedQ = KeyedList.insert key chunk stream.orderedQ ∨
      (chunk.bbit && chunk.ebit) = false ∧ ∃ tsn tsn', reassemble
        (KeyedList.insert key chunk stream.orderedQ) tsn = .ok (orderedQ, tsn') := by
    simp only [SCTPReceiveStream.insertOrdered, checkAndInsertChunk_of_fresh hnew.ordered] at hrun
    split_ifs at hrun with hfragment
    · obtain ⟨⟨queue', tsn'⟩, hreassemble, hrun⟩ := bind_eq_ok.mp hrun
      cases hrun
      refine .inr ⟨?_, _, _, hreassemble⟩
      cases hb : chunk.bbit <;> simp_all
    · cases hrun
      exact .inl rfl
  obtain ⟨hholds, hperm, hnames⟩ :=
    insert_spec h.ordered hnew.intact hnew.sid hnew.ordered hfits hjoined
  refine ⟨⟨h.delivery, hholds, h.unordered, ?_, h.deliveryUnordered, ?_⟩, ?_⟩
  · exact ((apart_cons h.deliveryOrdered hnew.delivery).of_names hnames).symm
  · exact (apart_cons h.orderedUnordered.symm hnew.unordered).of_names hnames
  · refine perm_iff_count.mpr fun x => ?_
    have hcount := hperm.count_eq x
    simp only [received, count_append] at hcount ⊢
    omega

theorem Holds.enqueueOrdered (hfits : FragmentFits stream.orderedQ chunk)
    (hrun : enqueueOrdered stream chunk = .ok (stream', ret)) :
    Holds base payload sid stream' ∧
      (received stream').Perm (chunk.received ++ received stream) := by
  obtain ⟨⟨orderedQ, _⟩, hinsert, hrun⟩ := bind_eq_ok.mp hrun
  obtain ⟨hholds, hperm⟩ := h.insertOrdered hnew hfits hinsert
  cases hnext : SCTPReceiveStream.dequeueNext { stream with orderedQ } with
  | none =>
    simp only [hnext] at hrun
    cases hrun
    exact ⟨hholds, hperm⟩
  | some next =>
    simp only [hnext] at hrun
    cases hrun
    obtain ⟨hholds', hperm'⟩ := hholds.dequeueNext hnext
    exact ⟨hholds', hperm'.trans hperm⟩

theorem Holds.enqueueUnordered (hfits : FragmentFits stream.unorderedQ chunk)
    (hfragment : (chunk.bbit && chunk.ebit) = false)
    (hrun : enqueueUnordered stream chunk = .ok (stream', ret)) :
    Holds base payload sid stream' ∧
      (received stream').Perm (chunk.received ++ received stream) := by
  simp only [SCTPReceiveStream.enqueueUnordered, checkAndInsertChunk_of_fresh hnew.unordered]
    at hrun
  obtain ⟨⟨unorderedQ, reassembled⟩, hreassemble, hrun⟩ := bind_eq_ok.mp hrun
  obtain ⟨hholds, hperm, hnames⟩ := insert_spec h.unordered hnew.intact hnew.sid hnew.unordered
    hfits (.inr ⟨hfragment, _, _, hreassemble⟩)
  have hjoined : Holds base payload sid { stream with unorderedQ } ∧
      (received { stream with unorderedQ }).Perm (chunk.received ++ received stream) := by
    refine ⟨⟨h.delivery, h.ordered, hholds, h.deliveryOrdered, ?_, ?_⟩, ?_⟩
    · exact ((apart_cons h.deliveryUnordered hnew.delivery).of_names hnames).symm
    · exact ((apart_cons h.orderedUnordered hnew.ordered).of_names hnames).symm
    · refine perm_iff_count.mpr fun x => ?_
      have hcount := hperm.count_eq x
      simp only [received, count_append] at hcount ⊢
      omega
  dsimp only at hrun
  cases hget : getChunk unorderedQ reassembled with
  | none =>
    rw [hget] at hrun
    cases hrun
  | some c =>
    simp only [hget] at hrun
    split_ifs at hrun
    · obtain ⟨⟨c', rest⟩, hextract, hrun⟩ := bind_eq_ok.mp hrun
      obtain ⟨hc', rfl, rfl⟩ := hholds.getAndExtractChunk hextract
      simp only [checkAndInsertChunk_of_apart (hjoined.1.deliveryUnordered) hc'] at hrun
      cases hrun
      obtain ⟨hholds', hperm'⟩ := hjoined.1.deliver_unordered hc' rfl
      exact ⟨hholds', hperm'.trans hjoined.2⟩
    · cases hrun
      exact hjoined

end

/-- The queue in which a chunk of this kind waits. -/
def queueFor (stream : SCTPReceiveStream) (ordered : Bool) : SCTPQueue :=
  if ordered then stream.orderedQ else stream.unorderedQ

/-- A new chunk is in one of the queues afterwards, and so is all that has been there. -/
theorem Holds.enqueueNewDataChunk (h : Holds base payload sid stream)
    (hnew : Fresh base payload sid stream chunk)
    (hfits : FragmentFits (stream.queueFor chunk.ordered) chunk)
    (hrun : enqueueNewDataChunk stream chunk = .ok (stream', ret)) :
    Holds base payload sid stream' ∧
      (received stream').Perm (chunk.received ++ received stream) := by
  rw [SCTPReceiveStream.enqueueNewDataChunk] at hrun
  split_ifs at hrun with hordered hwhole
  · rw [queueFor, if_pos hordered] at hfits
    exact h.enqueueOrdered hnew hfits hrun
  · simp only [checkAndInsertChunk_of_fresh hnew.delivery] at hrun
    cases hrun
    refine ⟨⟨h.delivery.insert hnew.intact hnew.sid hnew.delivery, h.ordered, h.unordered,
      apart_insert h.deliveryOrdered hnew.ordered, apart_insert h.deliveryUnordered hnew.unordered,
      h.orderedUnordered⟩, ?_⟩
    refine perm_iff_count.mpr fun x => ?_
    have hinsert : (SCTPQueue.received (KeyedList.insert key chunk
        stream.deliveryQ)).Perm (chunk.received ++ SCTPQueue.received stream.deliveryQ) :=
      received_insert
    have hcount := hinsert.count_eq x
    simp only [received, count_append] at hcount ⊢
    omega
  · rw [queueFor, if_neg hordered] at hfits
    exact h.enqueueUnordered hnew hfits (Bool.eq_false_iff.mpr hwhole) hrun

end SCTPReceiveStream

end Inet.Sctp
