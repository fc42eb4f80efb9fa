import Inet.Sctp.Reassembly
import Inet.Library.Run

/-!
# What the application gets from a stream

A sender's chunks arrive in any order, each once, and `pushUlp` is called at any moments.
The invariant says which messages each queue of a stream holds, in terms of the chunks that
have arrived: the ordered queue those that have not been dequeued, the delivery queue the
complete ones that have not been passed on.

TSNs and SSNs wrap, and so the chunks in use must be close to each other: within half the
TSN space and within 65536 ordered messages. Beyond that the code goes wrong in three ways.
It tests the B bit of an unordered message twice and never the E bit, it joins and passes on
chunks in the plain order of the TSNs, and it counts bits in a `uint32`.
-/

namespace Inet.Sctp

open SerialNumber SCTPReceiveStream
open KeyedList (mem_insert)
open SCTPQueue (checkAndInsertChunk checkAndInsertChunk_of_fresh dequeueChunkBySSN getChunk_eq_some
  mem_erase sorted_insert_of_fresh)
open Sender (chunk exists_number joined number_eq number_inj ssn tsn whole whole_inj)

namespace Sender

variable (sender : Sender)

/-- All fragments of a message have arrived. -/
def Complete (arrived : List (ℕ × ℕ)) (n : ℕ) : Prop := ∀ k < sender.size n, (n, k) ∈ arrived

instance (sid : ℕ) (ordered : Bool) (n : ℕ) : Decidable (sender.On sid ordered n) :=
  inferInstanceAs (Decidable (_ ∧ _))

instance (arrived : List (ℕ × ℕ)) (n : ℕ) : Decidable (sender.Complete arrived n) :=
  inferInstanceAs (Decidable (∀ k < sender.size n, (n, k) ∈ arrived))

instance (n : ℕ) : Decidable (sender.Joinable n) :=
  decidable_of_iff (_ ∧ _) ⟨fun ⟨h₁, h₂⟩ => ⟨h₁, h₂⟩, fun ⟨h₁, h₂⟩ => ⟨h₁, h₂⟩⟩

end Sender

open SCTPDataVariables (key)

/-- An association, and the fragments that have arrived. -/
structure Reception extends ReceiveState where
  arrived : List (ℕ × ℕ) := []

namespace Reception

section

variable (sender : Sender) (params : ReceiveParameters)

inductive Event where
  /-- The arrival of a fragment of a message. -/
  | arrive (n k : ℕ)
  | pushUlp

def step (s : Reception) : Event → Result Reception
  | .arrive n k =>
    if (sender.messages n).sid < params.inboundStreams then do
      let t ← s.toReceiveState.acceptChunk (sender.chunk n k)
      .ok ⟨t, s.arrived ++ [(n, k)]⟩
    else .ok s
  | .pushUlp => do
    let t ← s.toReceiveState.pushUlp params
    .ok ⟨t, s.arrived⟩

def ofStream (sid : ℕ) (ordered : Bool) (chunks : List SCTPDataVariables) :
    List SCTPDataVariables :=
  chunks.filter fun chunk => chunk.sid = sid && chunk.ordered == ordered

/-- The messages of a stream that have been passed to the application. -/
def passedOf (s : Reception) (sid : ℕ) (ordered : Bool) : List SCTPDataVariables :=
  ofStream sid ordered s.passed

/-- The ordered messages passed are the first ones of the stream; the unordered ones are
different messages that have arrived as a whole; and what has not been passed is still to
arrive or in the delivery queue. -/
structure Delivers (s : Reception) (sid : ℕ) (os ns : List ℕ) : Prop where
  ordered : s.passedOf sid true = os.map sender.whole
  ordered_on : ∀ n ∈ os, sender.On sid true n
  gapFree : os.map sender.number = List.range os.length
  unordered : s.passedOf sid false = ns.map sender.whole
  unordered_on : ∀ n ∈ ns, sender.On sid false n ∧ sender.Complete s.arrived n
  once : ns.Nodup
  all : ∀ count, (∀ n < count, (sender.messages n).sid = sid → sender.Complete s.arrived n) →
    (s.receiveStreams sid).deliveryQ = [] →
    ∀ n < count, (sender.messages n).sid = sid → n ∈ os ∨ n ∈ ns

/-- The chunks whose payload has been passed to the application. -/
def passedChunks (s : Reception) : List ℕ := s.passed.flatMap SCTPDataVariables.received

/-- Those, and the chunks whose payload is in the delivery queue of a stream. -/
def dequeuedChunks (s : Reception) (sid : ℕ) : List ℕ :=
  s.passedChunks ++ (s.receiveStreams sid).deliveryQ.flatMap SCTPDataVariables.received

/-- A fragment of a message arrives for the first time. -/
structure FirstArrival (s : Reception) (n k : ℕ) : Prop where
  inMessage : k < sender.size n
  fresh : (n, k) ∉ s.arrived

/-- The arrival of a fragment does not meet one of the defects. -/
structure Harmless (s : Reception) (n k : ℕ) : Prop where
  /-- The TSN is less than 2³¹ ahead of any message of its stream that has not been passed. -/
  window : ∀ m ≤ n, (sender.messages m).sid = (sender.messages n).sid →
    sender.start m + 2 ^ 31 ≤ sender.start n + k → sender.start m ∈ s.passedChunks
  /-- An ordered message is less than 65536 ahead of any that has not been dequeued. -/
  ssns : ∀ m < n, sender.On (sender.messages n).sid true m → (sender.messages n).ordered →
    sender.number m + 65536 ≤ sender.number n →
    sender.start m ∈ s.dequeuedChunks (sender.messages n).sid
  /-- The first fragment of an unordered message comes last. -/
  firstLast : (sender.messages n).ordered = false → k = 0 →
    ∀ j < sender.size n, 0 < j → (n, j) ∈ s.arrived
  /-- The fragments of a message can be put together. -/
  joinable : 1 < sender.size n → sender.Complete (s.arrived ++ [(n, k)]) n → sender.Joinable n

/-- The ordered messages in the delivery queue of a stream are not on both sides of the wrap. -/
def InOrder (queue : SCTPQueue) : Prop :=
  ∀ c ∈ queue, ∀ c' ∈ queue, c.ordered → c'.ordered → c.tsn < c'.tsn → tsnGt c'.tsn c.tsn
deriving Decidable

/-- Every fragment arrives once. -/
def FirstArrivals (s : Reception) : Event → Prop
  | .arrive n k => FirstArrival sender s n k
  | .pushUlp => True

def EventOk (s : Reception) : Event → Prop
  | .arrive n k => FirstArrival sender s n k ∧ Harmless sender s n k
  | .pushUlp => 0 < params.inboundStreams ∧
      ∀ sid < params.inboundStreams, InOrder (s.receiveStreams sid).deliveryQ

instance (s : Reception) (n k : ℕ) : Decidable (FirstArrival sender s n k) :=
  decidable_of_iff (_ ∧ _) ⟨fun ⟨h₁, h₂⟩ => ⟨h₁, h₂⟩, fun ⟨h₁, h₂⟩ => ⟨h₁, h₂⟩⟩

instance (s : Reception) (n k : ℕ) : Decidable (Harmless sender s n k) :=
  have ssns : Decidable (∀ m < n, sender.On (sender.messages n).sid true m →
      (sender.messages n).ordered → sender.number m + 65536 ≤ sender.number n →
      sender.start m ∈ s.dequeuedChunks (sender.messages n).sid) :=
    Nat.decidableBallLT n _
  @decidable_of_iff _ (_ ∧ _ ∧ _ ∧ _)
    ⟨fun ⟨h₁, h₂, h₃, h₄⟩ => ⟨h₁, h₂, h₃, h₄⟩, fun ⟨h₁, h₂, h₃, h₄⟩ => ⟨h₁, h₂, h₃, h₄⟩⟩
    (@instDecidableAnd _ _ inferInstance (@instDecidableAnd _ _ ssns inferInstance))

instance (s : Reception) : ∀ event, Decidable (FirstArrivals sender s event)
  | .arrive n k => inferInstanceAs (Decidable (FirstArrival sender s n k))
  | .pushUlp => .isTrue trivial

instance (s : Reception) : ∀ event, Decidable (EventOk sender params s event)
  | .arrive n k => inferInstanceAs (Decidable (FirstArrival sender s n k ∧ Harmless sender s n k))
  | .pushUlp =>
    inferInstanceAs (Decidable (_ ∧ ∀ sid < params.inboundStreams,
      InOrder (s.receiveStreams sid).deliveryQ))

end

section

variable {sender : Sender} {params : ReceiveParameters} {sid : ℕ} {arrived : List (ℕ × ℕ)}
  {stream : SCTPReceiveStream} {os ns : List ℕ} {dequeued n m k j : ℕ}
  {passed : List SCTPDataVariables} {s : Reception} {c : SCTPDataVariables} {queue : SCTPQueue}

/-- What has arrived of a stream's messages, of which `dequeued` ordered ones have left the
ordered queue, and `os` and `ns` have been passed to the application. -/
structure Arrivals (sender : Sender) (sid : ℕ) (arrived : List (ℕ × ℕ)) (os ns : List ℕ)
    (dequeued : ℕ) : Prop where
  inMessage : ∀ n k, (n, k) ∈ arrived → k < sender.size n
  ordered_on : ∀ n ∈ os, sender.On sid true n
  gapFree : os.map sender.number = List.range os.length
  os_le : os.length ≤ dequeued
  complete : ∀ n, sender.On sid true n → sender.number n < dequeued → sender.Complete arrived n
  unordered_on : ∀ n ∈ ns, sender.On sid false n ∧ sender.Complete arrived n
  once : ns.Nodup
  firstLast : ∀ n, sender.On sid false n → (n, 0) ∈ arrived → sender.Complete arrived n
  ssns : ∀ n k, (n, k) ∈ arrived → sender.On sid true n → sender.number n < dequeued + 65536
  window : ∀ n k, (n, k) ∈ arrived → (sender.messages n).sid = sid →
    ∀ m, (sender.messages m).sid = sid → m ∉ os → m ∉ ns →
      sender.start n + k < sender.start m + 2 ^ 31

/-- What a queue holds of a message that is not passed on yet. -/
def Waits (sender : Sender) (arrived : List (ℕ × ℕ)) (n : ℕ) (c : SCTPDataVariables) : Prop :=
  sender.Complete arrived n ∧ c = sender.whole n ∨
    ¬ sender.Complete arrived n ∧ ∃ k, (n, k) ∈ arrived ∧ c = sender.chunk n k

/-- The messages in the delivery queue. -/
def Ready (sender : Sender) (sid : ℕ) (arrived : List (ℕ × ℕ)) (os ns : List ℕ) (dequeued n : ℕ) :
    Prop :=
  sender.On sid true n ∧ os.length ≤ sender.number n ∧ sender.number n < dequeued ∨
    sender.On sid false n ∧ sender.Complete arrived n ∧ n ∉ ns

abbrev SortedQueue (queue : SCTPQueue) : Prop := KeyedList.Sorted SCTPDataVariables.key queue

/-- The queues of a stream. -/
structure Queues (sender : Sender) (sid : ℕ) (arrived : List (ℕ × ℕ)) (os ns : List ℕ)
    (dequeued : ℕ) (stream : SCTPReceiveStream) : Prop where
  sorted_ordered : SortedQueue stream.orderedQ
  sorted_unordered : SortedQueue stream.unorderedQ
  sorted_delivery : SortedQueue stream.deliveryQ
  ordered : ∀ c, c ∈ stream.orderedQ ↔
    ∃ n, sender.On sid true n ∧ dequeued ≤ sender.number n ∧ Waits sender arrived n c
  unordered : ∀ c, c ∈ stream.unorderedQ ↔
    ∃ n, sender.On sid false n ∧ ¬ sender.Complete arrived n ∧
      ∃ k, (n, k) ∈ arrived ∧ c = sender.chunk n k
  delivery : ∀ c, c ∈ stream.deliveryQ ↔
    ∃ n, Ready sender sid arrived os ns dequeued n ∧ c = sender.whole n
  expected : stream.expectedStreamSeqNum = dequeued % 65536

/-- Nothing is left to be dequeued. -/
def Prompt (sender : Sender) (sid : ℕ) (arrived : List (ℕ × ℕ)) (dequeued : ℕ) : Prop :=
  ∀ n, sender.On sid true n → sender.number n = dequeued → ¬ sender.Complete arrived n

theorem gapFree_getElem (h : Arrivals sender sid arrived os ns dequeued)
    (hon : sender.On sid true n) : n ∈ os ↔ sender.number n < os.length := by
  constructor
  · intro hn
    have hmem := List.mem_map_of_mem (f := sender.number) hn
    rw [h.gapFree, List.mem_range] at hmem
    exact hmem
  · intro hlt
    have hmem : sender.number n ∈ os.map sender.number := by
      rw [h.gapFree, List.mem_range]
      exact hlt
    obtain ⟨m, hm, hnumber⟩ := List.mem_map.mp hmem
    rw [← number_inj (h.ordered_on m hm) hon hnumber]
    exact hm

/-- A message whose payload is held or still to arrive. -/
def Unpassed (sender : Sender) (sid : ℕ) (os ns : List ℕ) (n : ℕ) : Prop :=
  (sender.messages n).sid = sid ∧ n ∉ os ∧ n ∉ ns

section

variable (h : Arrivals sender sid arrived os ns dequeued)

include h

theorem Arrivals.unpassed_of_ordered
    (hon : sender.On sid true n) (hle : os.length ≤ sender.number n) :
    Unpassed sender sid os ns n := by
  refine ⟨hon.1, fun hmem => ?_, fun hmem => ?_⟩
  · exact absurd ((gapFree_getElem h hon).mp hmem) (by omega)
  · have := (h.unordered_on n hmem).1.2
    rw [hon.2] at this
    cases this

theorem Arrivals.unpassed_of_unordered
    (hon : sender.On sid false n) (hn : n ∉ ns) : Unpassed sender sid os ns n := by
  refine ⟨hon.1, fun hmem => ?_, hn⟩
  have := (h.ordered_on n hmem).2
  rw [hon.2] at this
  cases this

/-- Chunks in use have different TSNs. -/
theorem Arrivals.tsn_inj (hn : Unpassed sender sid os ns n) (hk : (n, k) ∈ arrived)
    (hm : Unpassed sender sid os ns m) (hj : (m, j) ∈ arrived)
    (heq : sender.tsn n k = sender.tsn m j) : n = m ∧ k = j := by
  have hnm := h.window n k hk hn.1 m hm.1 hm.2.1 hm.2.2
  have hmn := h.window m j hj hm.1 n hn.1 hn.2.1 hn.2.2
  have hnear : Near 32 (sender.start n + k) (sender.start m + j) := by
    constructor <;> omega
  exact Sender.place_inj (h.inMessage n k hk) (h.inMessage m j hj)
    ((ofPos_inj (by decide) hnear).mp heq)

end

section

variable (ha : Arrivals sender sid arrived os ns dequeued)
  (h : Ready sender sid arrived os ns dequeued n)

include ha h

theorem ready_complete : sender.Complete arrived n := by
  obtain ⟨hon, -, hlt⟩ | ⟨-, hcomplete, -⟩ := h
  · exact ha.complete n hon hlt
  · exact hcomplete

theorem ready_unpassed : Unpassed sender sid os ns n := by
  obtain ⟨hon, hle, -⟩ | ⟨hon, -, hn⟩ := h
  · exact ha.unpassed_of_ordered hon hle
  · exact ha.unpassed_of_unordered hon hn

end

theorem Waits.tsn (h : Waits sender arrived n c) :
    ∃ k, (n, k) ∈ arrived ∧ c.tsn = sender.tsn n k := by
  obtain ⟨hcomplete, rfl⟩ | ⟨-, k, hk, rfl⟩ := h
  · exact ⟨0, hcomplete 0 (sender.size_pos n), rfl⟩
  · exact ⟨k, hk, rfl⟩

section

variable (ha : Arrivals sender sid arrived os ns dequeued)
  (h : Queues sender sid arrived os ns dequeued stream)

include ha h

/-- A complete message that is not in the delivery queue can be put there. -/
theorem Queues.insert_delivery (hn : Unpassed sender sid os ns n)
    (hcomplete : sender.Complete arrived n)
    (hready : ¬ Ready sender sid arrived os ns dequeued n) :
    checkAndInsertChunk stream.deliveryQ (sender.whole n) =
        some (KeyedList.insert key (sender.whole n) stream.deliveryQ) ∧
      SortedQueue (KeyedList.insert key (sender.whole n) stream.deliveryQ) := by
  have hfresh : ∀ c ∈ stream.deliveryQ, c.tsn ≠ (sender.whole n).tsn := by
    intro c hc heq
    obtain ⟨m, hm, rfl⟩ := (h.delivery c).mp hc
    have hm0 := ready_complete ha hm 0 (sender.size_pos m)
    obtain ⟨rfl, -⟩ := ha.tsn_inj (ready_unpassed ha hm) hm0 hn
      (hcomplete 0 (sender.size_pos n)) heq
    exact hready hm
  exact ⟨checkAndInsertChunk_of_fresh hfresh, sorted_insert_of_fresh h.sorted_delivery hfresh⟩

/-- The chunk that is looked for by its SSN is the next ordered message. -/
theorem Queues.dequeue_eq_some {orderedQ : SCTPQueue}
    (hsome : dequeueChunkBySSN stream.orderedQ stream.expectedStreamSeqNum = some (c, orderedQ)) :
    ∃ n, sender.On sid true n ∧ sender.number n = dequeued ∧ sender.Complete arrived n ∧
      c = sender.whole n ∧ c ∈ stream.orderedQ ∧
      orderedQ = SCTPQueue.erase stream.orderedQ (sender.tsn n 0) := by
  rw [dequeueChunkBySSN] at hsome
  split at hsome
  · cases hsome
  · next hfind =>
      cases hsome
      have hmem := List.mem_of_find?_eq_some hfind
      have hp := List.find?_some hfind
      simp only [decide_eq_true_eq] at hp
      obtain ⟨hssn, hbbit, hebit⟩ := hp
      obtain ⟨n, hon, hle, hwaits⟩ := (h.ordered c).mp hmem
      obtain ⟨hcomplete, rfl⟩ | ⟨hnot, k, hk, rfl⟩ := hwaits
      · have hlt := ha.ssns n 0 (hcomplete 0 (sender.size_pos n)) hon
        have hnumber : sender.number n % 65536 = dequeued % 65536 := by
          rw [← h.expected, ← hssn]
          simp [whole, joined, chunk, ssn, hon.2]
        exact ⟨n, hon, by omega, hcomplete, rfl, hmem, rfl⟩
      · simp only [chunk, decide_eq_true_eq] at hbbit hebit
        subst hbbit
        refine absurd (fun j hj => ?_) hnot
        obtain rfl : j = 0 := by omega
        exact hk

end

theorem Queues.dequeue_eq_none (h : Queues sender sid arrived os ns dequeued stream)
    (hnone : dequeueChunkBySSN stream.orderedQ stream.expectedStreamSeqNum = none) :
    Prompt sender sid arrived dequeued := by
  intro n hon hnumber hcomplete
  rw [dequeueChunkBySSN] at hnone
  split at hnone
  · next hfind =>
      have hmem := (h.ordered (sender.whole n)).mpr ⟨n, hon, hnumber.ge, .inl ⟨hcomplete, rfl⟩⟩
      have hp := List.find?_eq_none.mp hfind _ hmem
      simp [whole, joined, chunk, ssn, hon.2, hnumber, h.expected] at hp
  · cases hnone

section

variable (ha : Arrivals sender sid arrived os ns dequeued)

include ha

section

variable (h : Queues sender sid arrived os ns dequeued stream)

include h

/-- The next ordered message goes to the delivery queue. -/
theorem Queues.dequeue (hon : sender.On sid true n)
    (hnumber : sender.number n = dequeued) (hcomplete : sender.Complete arrived n) :
    Arrivals sender sid arrived os ns (dequeued + 1) ∧
      checkAndInsertChunk stream.deliveryQ (sender.whole n) =
        some (KeyedList.insert key (sender.whole n) stream.deliveryQ) ∧
      Queues sender sid arrived os ns (dequeued + 1)
        { stream with
          orderedQ := SCTPQueue.erase stream.orderedQ (sender.tsn n 0)
          deliveryQ := KeyedList.insert key (sender.whole n) stream.deliveryQ
          expectedStreamSeqNum := nextStreamSeqNum stream.expectedStreamSeqNum } := by
  have hle := ha.os_le
  have hunpassed := ha.unpassed_of_ordered hon (by omega)
  have hready : ¬ Ready sender sid arrived os ns dequeued n := by
    rintro (⟨-, -, hlt⟩ | ⟨⟨-, hfalse⟩, -⟩)
    · omega
    · rw [hon.2] at hfalse
      cases hfalse
  obtain ⟨hinsert, hsorted⟩ := h.insert_delivery ha hunpassed hcomplete hready
  have hself : ∀ m, sender.On sid true m → sender.number m = dequeued → m = n :=
    fun m hm heq => number_inj hm hon (heq.trans hnumber.symm)
  refine ⟨{ ha with
      os_le := by omega
      complete := fun m hm hlt => ?_
      ssns := fun m k hk hm => ?_ }, hinsert, { h with
      sorted_ordered := h.sorted_ordered.erase _
      sorted_delivery := hsorted
      ordered := fun c => ?_
      delivery := fun c => ?_
      expected := ?_ }⟩
  · obtain hlt | heq := Nat.lt_succ_iff_lt_or_eq.mp hlt
    · exact ha.complete m hm hlt
    · rw [hself m hm heq]
      exact hcomplete
  · have := ha.ssns m k hk hm
    omega
  · rw [mem_erase, h.ordered]
    constructor
    · rintro ⟨⟨m, hm, hle, hwaits⟩, hne⟩
      refine ⟨m, hm, Nat.lt_of_le_of_ne hle fun heq => hne ?_, hwaits⟩
      obtain rfl := hself m hm heq.symm
      obtain ⟨-, rfl⟩ | ⟨hnot, -⟩ := hwaits
      · rfl
      · exact absurd hcomplete hnot
    · rintro ⟨m, hm, hle, hwaits⟩
      refine ⟨⟨m, hm, by omega, hwaits⟩, fun heq => ?_⟩
      obtain ⟨k, hk, htsn⟩ := hwaits.tsn
      obtain ⟨rfl, -⟩ := ha.tsn_inj (ha.unpassed_of_ordered hm (by omega)) hk hunpassed
        (hcomplete 0 (sender.size_pos n)) (htsn.symm.trans heq)
      omega
  · rw [mem_insert, h.delivery]
    constructor
    · rintro (rfl | ⟨m, hm, rfl⟩)
      · exact ⟨n, .inl ⟨hon, by omega, by omega⟩, rfl⟩
      · exact ⟨m, hm.imp_left fun ⟨hm, hle, hlt⟩ => ⟨hm, hle, by omega⟩, rfl⟩
    · rintro ⟨m, ⟨hm, hle, hlt⟩ | hm, rfl⟩
      · obtain hlt | heq := Nat.lt_succ_iff_lt_or_eq.mp hlt
        · exact .inr ⟨m, .inl ⟨hm, hle, hlt⟩, rfl⟩
        · exact .inl (by rw [hself m hm heq])
      · exact .inr ⟨m, .inr hm, rfl⟩
  · simp only [nextStreamSeqNum, h.expected]
    split_ifs <;> omega

/-- Either the next ordered message moves to the delivery queue, or nothing is left to be
dequeued. -/
theorem Queues.dequeueNext : stream.dequeueNext = none ∧ Prompt sender sid arrived dequeued ∨
      ∃ stream', stream.dequeueNext = some (stream', true) ∧ ¬ Prompt sender sid arrived dequeued ∧
        Arrivals sender sid arrived os ns (dequeued + 1) ∧
        Queues sender sid arrived os ns (dequeued + 1) stream' ∧
        stream'.orderedQ.length < stream.orderedQ.length := by
  rw [SCTPReceiveStream.dequeueNext]
  cases hdequeue : dequeueChunkBySSN stream.orderedQ
      stream.expectedStreamSeqNum with
  | none => exact .inl ⟨rfl, h.dequeue_eq_none hdequeue⟩
  | some next =>
    obtain ⟨c, orderedQ⟩ := next
    obtain ⟨n, hon, hnumber, hcomplete, rfl, hmem, rfl⟩ := h.dequeue_eq_some ha hdequeue
    obtain ⟨ha', hinsert, h'⟩ := h.dequeue ha hon hnumber hcomplete
    dsimp only
    rw [hinsert]
    exact .inr ⟨_, rfl, fun hprompt => hprompt n hon hnumber hcomplete, ha', h',
      KeyedList.length_erase_lt hmem⟩

/-- The loop dequeues until nothing is left to be dequeued. -/
theorem Queues.putInDeliveryQLoop {fuel : ℕ} (hfuel : stream.orderedQ.length ≤ fuel) :
    ∃ dequeued', Arrivals sender sid arrived os ns dequeued' ∧
      Queues sender sid arrived os ns dequeued' (putInDeliveryQLoop fuel stream) ∧
      Prompt sender sid arrived dequeued' := by
  induction fuel generalizing stream dequeued with
  | zero =>
    obtain ⟨-, hprompt⟩ | ⟨_, -, -, -, -, hlt⟩ := h.dequeueNext ha
    · exact ⟨dequeued, ha, h, hprompt⟩
    · omega
  | succ fuel ih =>
    rw [SCTPReceiveStream.putInDeliveryQLoop]
    obtain ⟨hnone, hprompt⟩ | ⟨stream', hsome, -, ha', h', hlt⟩ := h.dequeueNext ha
    · rw [hnone]
      exact ⟨dequeued, ha, h, hprompt⟩
    · rw [hsome]
      exact ih ha' h' (by omega)

/-- Nothing happens when nothing is left to be dequeued. -/
theorem Queues.putInDeliveryQ_of_prompt
    (hprompt : Prompt sender sid arrived dequeued) : putInDeliveryQ stream = stream := by
  rw [SCTPReceiveStream.putInDeliveryQ]
  cases stream.orderedQ.length with
  | zero => rfl
  | succ fuel =>
    rw [SCTPReceiveStream.putInDeliveryQLoop]
    obtain ⟨hnone, -⟩ | ⟨_, -, hnot, -⟩ := h.dequeueNext ha
    · rw [hnone]
    · exact absurd hprompt hnot

end

end

/-- A queue that holds the messages which satisfy `K`. -/
structure Pool (sender : Sender) (arrived : List (ℕ × ℕ)) (K : ℕ → Prop) (queue : SCTPQueue) :
    Prop where
  sorted : SortedQueue queue
  mem : ∀ c, c ∈ queue ↔ ∃ n, K n ∧ Waits sender arrived n c

section

variable {K : ℕ → Prop} {queue : SCTPQueue} {c : SCTPDataVariables}

theorem complete_concat_of_ne (h : m ≠ n) :
    sender.Complete (arrived ++ [(n, k)]) m ↔ sender.Complete arrived m := by
  simp [Sender.Complete, h]

theorem not_complete_of_fresh (hk : k < sender.size n) (hfresh : (n, k) ∉ arrived) :
    ¬ sender.Complete arrived n := fun hcomplete => hfresh (hcomplete k hk)

theorem waits_concat_of_ne (h : m ≠ n) :
    Waits sender (arrived ++ [(n, k)]) m c ↔ Waits sender arrived m c := by
  simp [Waits, complete_concat_of_ne h, h]

theorem waits_concat_self (hk : k < sender.size n) (hfresh : (n, k) ∉ arrived)
    (hnot : ¬ sender.Complete (arrived ++ [(n, k)]) n) :
    Waits sender (arrived ++ [(n, k)]) n c ↔ c = sender.chunk n k ∨ Waits sender arrived n c := by
  have hnot' := not_complete_of_fresh hk hfresh
  simp only [Waits, hnot, hnot', false_and, false_or, not_false_eq_true, true_and,
    List.mem_append, List.mem_singleton, Prod.mk.injEq]
  constructor
  · rintro ⟨j, hj | rfl, rfl⟩
    · exact .inr ⟨j, hj, rfl⟩
    · exact .inl rfl
  · rintro (rfl | ⟨j, hj, rfl⟩)
    · exact ⟨k, .inr rfl, rfl⟩
    · exact ⟨j, .inl hj, rfl⟩

/-- The TSN of a chunk in the queue. -/
theorem Pool.tsn (h : Pool sender arrived K queue) (hc : c ∈ queue) :
    ∃ n k, K n ∧ (n, k) ∈ arrived ∧ c.tsn = sender.tsn n k := by
  obtain ⟨n, hn, hwaits⟩ := (h.mem c).mp hc
  obtain ⟨k, hk, htsn⟩ := hwaits.tsn
  exact ⟨n, k, hn, hk, htsn⟩

/-- A new fragment has a TSN of its own. -/
theorem Pool.fresh (h : Pool sender arrived K queue)
    (ha : Arrivals sender sid (arrived ++ [(n, k)]) os ns dequeued)
    (hK : ∀ m, K m → Unpassed sender sid os ns m) (hn : Unpassed sender sid os ns n)
    (hfresh : (n, k) ∉ arrived) : ∀ c ∈ queue, c.tsn ≠ (sender.chunk n k).tsn := by
  intro c hc heq
  obtain ⟨m, j, hm, hj, htsn⟩ := h.tsn hc
  obtain ⟨rfl, rfl⟩ := ha.tsn_inj (hK m hm) (List.mem_append_left _ hj) hn
    (List.mem_append_right _ (List.mem_singleton_self _)) (htsn.symm.trans heq)
  exact hfresh hj

variable (ha : Arrivals sender sid (arrived ++ [(n, k)]) os ns dequeued)
  (hK : ∀ m, K m → Unpassed sender sid os ns m) (hn : K n) (hk : k < sender.size n)
  (hfresh : (n, k) ∉ arrived)

include ha hK hn hk hfresh

/-- What the queue holds of the message when the new fragment is in it. -/
theorem Pool.hasFragments (h : Pool sender arrived K queue) : sender.HasFragments
      (KeyedList.insert key (sender.chunk n k) queue) n
      (fun j => (n, j) ∈ arrived ++ [(n, k)]) := by
  have hunpassed := hK n hn
  have hnear : ∀ j, (n, j) ∈ arrived ++ [(n, k)] → j < 2 ^ 31 := by
    intro j hj
    have := ha.window n j hj hunpassed.1 n hunpassed.1 hunpassed.2.1 hunpassed.2.2
    omega
  have hknew : (n, k) ∈ arrived ++ [(n, k)] :=
    List.mem_append_right _ (List.mem_singleton_self _)
  have hsorted := SCTPQueue.sorted_insert_of_fresh h.sorted (h.fresh ha hK hunpassed hfresh)
  refine ⟨hnear, fun j hj harrived => ?_, fun j hj hj31 hmissing => ?_⟩
  · refine (SCTPQueue.getChunk_eq_some hsorted).mpr ⟨KeyedList.mem_insert.mpr ?_, rfl⟩
    obtain hold | hnew := List.mem_append.mp harrived
    · refine .inr ((h.mem _).mpr ⟨n, hn, .inr ⟨not_complete_of_fresh hk hfresh, j, hold, rfl⟩⟩)
    · obtain rfl : j = k := by simpa using hnew
      exact .inl rfl
  · refine SCTPQueue.getChunk_eq_none.mpr fun c hc heq => ?_
    -- a chunk in use is too close to the message to have the TSN of another fragment
    have hplace : ∃ m i, Unpassed sender sid os ns m ∧ (m, i) ∈ arrived ++ [(n, k)] ∧
        c.tsn = sender.tsn m i := by
      obtain rfl | hc := KeyedList.mem_insert.mp hc
      · exact ⟨n, k, hunpassed, hknew, rfl⟩
      · obtain ⟨m, i, hm, hi, htsn⟩ := h.tsn hc
        exact ⟨m, i, hK m hm, List.mem_append_left _ hi, htsn⟩
    obtain ⟨m, i, hm, hi, htsn⟩ := hplace
    have hbelow := ha.window m i hi hm.1 n hunpassed.1 hunpassed.2.1 hunpassed.2.2
    have habove := ha.window n k hknew hunpassed.1 m hm.1 hm.2.1 hm.2.2
    have hplace : sender.start m + i = sender.start n + j := by
      have hmod := congrArg BitVec.toNat (htsn.symm.trans heq)
      simp only [Sender.tsn, ofPos, BitVec.toNat_add, BitVec.toNat_ofNat] at hmod
      omega
    obtain ⟨rfl, rfl⟩ := Sender.place_inj (ha.inMessage m i hi) hj hplace
    exact hmissing hi

/-- The queue with a new fragment, while a fragment of its message is missing. -/
theorem Pool.insert (h : Pool sender arrived K queue)
    (hnot : ¬ sender.Complete (arrived ++ [(n, k)]) n) :
    Pool sender (arrived ++ [(n, k)]) K
        (KeyedList.insert key (sender.chunk n k) queue) ∧
      reassemble (KeyedList.insert key (sender.chunk n k) queue)
          (sender.tsn n k) =
        .ok (KeyedList.insert key (sender.chunk n k) queue, sender.tsn n k) := by
  refine ⟨⟨sorted_insert_of_fresh h.sorted (h.fresh ha hK (hK n hn) hfresh), fun c => ?_⟩, ?_⟩
  · rw [mem_insert, h.mem]
    constructor
    · rintro (rfl | ⟨m, hm, hwaits⟩)
      · exact ⟨n, hn, (waits_concat_self hk hfresh hnot).mpr (.inl rfl)⟩
      · refine ⟨m, hm, ?_⟩
        by_cases hmn : m = n
        · subst hmn
          exact (waits_concat_self hk hfresh hnot).mpr (.inr hwaits)
        · exact (waits_concat_of_ne hmn).mpr hwaits
    · rintro ⟨m, hm, hwaits⟩
      by_cases hmn : m = n
      · subst hmn
        exact ((waits_concat_self hk hfresh hnot).mp hwaits).imp_right fun hwaits => ⟨m, hm, hwaits⟩
      · exact .inr ⟨m, hm, (waits_concat_of_ne hmn).mp hwaits⟩
  · have hmissing : ∃ i < sender.size n, (n, i) ∉ arrived ++ [(n, k)] := by
      simpa [Sender.Complete] using hnot
    exact Sender.reassemble_of_missing (h.hasFragments ha hK hn hk hfresh) hk
      (List.mem_append_right _ (List.mem_singleton_self _)) hmissing

/-- The queue with the last fragment of a message to arrive. -/
theorem Pool.join (h : Pool sender arrived K queue) (hmany : 1 < sender.size n)
    (hcomplete : sender.Complete (arrived ++ [(n, k)]) n) (hjoin : sender.Joinable n) :
    ∃ queue', reassemble
        (KeyedList.insert key (sender.chunk n k) queue) (sender.tsn n k) =
          .ok (queue', sender.tsn n 0) ∧
      Pool sender (arrived ++ [(n, k)]) K queue' := by
  have hunpassed := hK n hn
  have hdistinct : ∀ i < sender.size n, ∀ j < sender.size n,
      sender.tsn n i = sender.tsn n j → i = j := fun i hi j hj heq =>
    (ha.tsn_inj hunpassed (hcomplete i hi) hunpassed (hcomplete j hj) heq).2
  have hsize : sender.size n ≤ 2 ^ 32 := by
    have := ha.window n (sender.size n - 1) (hcomplete _ (by omega)) hunpassed.1 n hunpassed.1
      hunpassed.2.1 hunpassed.2.2
    omega
  have hsorted := sorted_insert_of_fresh h.sorted (h.fresh ha hK hunpassed hfresh)
  obtain ⟨queue', hrun, hsorted', hmem⟩ := Sender.reassemble_of_complete
    (h.hasFragments ha hK hn hk hfresh) hk hcomplete hjoin hsize hmany hdistinct hsorted
  refine ⟨queue', hrun, hsorted', fun c => ?_⟩
  rw [hmem, mem_insert, h.mem]
  constructor
  · rintro (rfl | ⟨rfl | ⟨m, hm, hwaits⟩, hne⟩)
    · exact ⟨n, hn, .inl ⟨hcomplete, rfl⟩⟩
    · exact absurd rfl (hne k hk)
    · refine ⟨m, hm, (waits_concat_of_ne ?_).mpr hwaits⟩
      rintro rfl
      obtain ⟨j, hj, htsn⟩ := hwaits.tsn
      exact hne j (ha.inMessage m j (List.mem_append_left _ hj)) htsn
  · rintro ⟨m, hm, hwaits⟩
    by_cases hmn : m = n
    · subst hmn
      obtain ⟨-, rfl⟩ | ⟨hnot, -⟩ := hwaits
      · exact .inl rfl
      · exact absurd hcomplete hnot
    · have hold := (waits_concat_of_ne hmn).mp hwaits
      refine .inr ⟨.inr ⟨m, hm, hold⟩, fun i hi htsn => hmn ?_⟩
      obtain ⟨j, hj, htsn'⟩ := hold.tsn
      exact (ha.tsn_inj (hK m hm) (List.mem_append_left _ hj) hunpassed (hcomplete i hi)
        (htsn'.symm.trans htsn)).1

end

theorem complete_concat (h : sender.Complete arrived m) (p : ℕ × ℕ) :
    sender.Complete (arrived ++ [p]) m := fun j hj => List.mem_append_left _ (h j hj)

/-- The arrival of a fragment that is near enough to those in use. -/
theorem Arrivals.arrive (h : Arrivals sender sid arrived os ns dequeued) (hk : k < sender.size n)
    (window : (sender.messages n).sid = sid → ∀ m, Unpassed sender sid os ns m →
      sender.start n + k < sender.start m + 2 ^ 31)
    (ssns : sender.On sid true n → sender.number n < dequeued + 65536)
    (firstLast : sender.On sid false n → k = 0 → ∀ j < sender.size n, 0 < j → (n, j) ∈ arrived) :
    Arrivals sender sid (arrived ++ [(n, k)]) os ns dequeued := by
  have hcases : ∀ m j, (m, j) ∈ arrived ++ [(n, k)] → (m, j) ∈ arrived ∨ m = n ∧ j = k := by
    intro m j hmem
    simpa using hmem
  refine { h with
    inMessage := fun m j hmem => ?_
    complete := fun m hon hlt => complete_concat (h.complete m hon hlt) _
    unordered_on := fun m hm => (h.unordered_on m hm).imp_right fun hc => complete_concat hc _
    firstLast := fun m hon hmem => ?_
    ssns := fun m j hmem hon => ?_
    window := fun m j hmem hsid m' hsid' hos hns => ?_ }
  · obtain hold | ⟨rfl, rfl⟩ := hcases m j hmem
    · exact h.inMessage m j hold
    · exact hk
  · obtain hold | ⟨rfl, hk0⟩ := hcases m 0 hmem
    · exact complete_concat (h.firstLast m hon hold) _
    · intro j hj
      obtain rfl | hpos := Nat.eq_zero_or_pos j
      · exact hmem
      · exact List.mem_append_left _ (firstLast hon hk0.symm j hj hpos)
  · obtain hold | ⟨rfl, rfl⟩ := hcases m j hmem
    · exact h.ssns m j hold hon
    · exact ssns hon
  · obtain hold | ⟨rfl, rfl⟩ := hcases m j hmem
    · exact h.window m j hold hsid m' hsid' hos hns
    · exact window hsid m' ⟨hsid', hos, hns⟩

theorem Queues.orderedPool (h : Queues sender sid arrived os ns dequeued stream) :
    Pool sender arrived (fun m => sender.On sid true m ∧ dequeued ≤ sender.number m)
      stream.orderedQ :=
  ⟨h.sorted_ordered, fun c => (h.ordered c).trans (by simp only [and_assoc])⟩

theorem Queues.unorderedPool (h : Queues sender sid arrived os ns dequeued stream) :
    Pool sender arrived (fun m => sender.On sid false m ∧ ¬ sender.Complete arrived m)
      stream.unorderedQ := by
  refine ⟨h.sorted_unordered, fun c => (h.unordered c).trans (exists_congr fun m => ?_)⟩
  constructor
  · rintro ⟨hon, hnot, hk⟩
    exact ⟨⟨hon, hnot⟩, .inr ⟨hnot, hk⟩⟩
  · rintro ⟨⟨hon, hnot⟩, ⟨hcomplete, -⟩ | ⟨-, hk⟩⟩
    · exact absurd hcomplete hnot
    · exact ⟨hon, hnot, hk⟩

/-- What a chunk of another kind does not change. -/
theorem ordered_concat_of_unordered (hon : sender.On sid false n) :
    (∃ m, sender.On sid true m ∧ dequeued ≤ sender.number m ∧
        Waits sender (arrived ++ [(n, k)]) m c) ↔
      ∃ m, sender.On sid true m ∧ dequeued ≤ sender.number m ∧ Waits sender arrived m c := by
  refine exists_congr fun m => and_congr_right fun hm => and_congr_right fun _ =>
    waits_concat_of_ne ?_
  rintro rfl
  have := hm.2.symm.trans hon.2
  cases this

theorem prompt_concat_of_ne (hon : ¬ sender.On sid true n)
    (h : Prompt sender sid arrived dequeued) :
    Prompt sender sid (arrived ++ [(n, k)]) dequeued := by
  intro m hm hnumber
  have hmn : m ≠ n := by
    rintro rfl
    exact hon hm
  rw [complete_concat_of_ne hmn]
  exact h m hm hnumber

/-- The new fragment of an unordered message is the last one to arrive just when it is the
first one of the message. -/
theorem complete_iff_first (ha : Arrivals sender sid arrived os ns dequeued)
    (ha' : Arrivals sender sid (arrived ++ [(n, k)]) os ns dequeued)
    (hon : sender.On sid false n) (hk : k < sender.size n) (hfresh : (n, k) ∉ arrived) :
    sender.Complete (arrived ++ [(n, k)]) n ↔ k = 0 := by
  constructor
  · intro hcomplete
    by_contra hpos
    have hzero := hcomplete 0 (sender.size_pos n)
    simp only [List.mem_append, List.mem_singleton, Prod.mk.injEq, true_and] at hzero
    obtain hold | h0 := hzero
    · exact hfresh (ha.firstLast n hon hold k hk)
    · exact hpos h0.symm
  · rintro rfl
    exact ha'.firstLast n hon (List.mem_append_right _ (List.mem_singleton_self _))

/-- A message of one fragment that has not arrived has nothing in the queue. -/
theorem Pool.mem_of_single {K : ℕ → Prop} (h : Pool sender arrived K queue)
    (ha : Arrivals sender sid arrived os ns dequeued) (hone : sender.size n = 1)
    (hfresh : (n, 0) ∉ arrived) (c : SCTPDataVariables) :
    c ∈ queue ↔ ∃ m, K m ∧ m ≠ n ∧ Waits sender (arrived ++ [(n, 0)]) m c := by
  refine (h.mem c).trans (exists_congr fun m => and_congr_right fun _ => ?_)
  constructor
  · intro hwaits
    have hmn : m ≠ n := by
      rintro rfl
      obtain ⟨j, hj, -⟩ := hwaits.tsn
      have := ha.inMessage m j hj
      obtain rfl : j = 0 := by omega
      exact hfresh hj
    exact ⟨hmn, (waits_concat_of_ne hmn).mpr hwaits⟩
  · rintro ⟨hmn, hwaits⟩
    exact (waits_concat_of_ne hmn).mp hwaits

/-- What is left when a message that is complete has been taken out. -/
theorem Pool.mem_erase {K : ℕ → Prop} (h : Pool sender arrived K queue)
    (ha : Arrivals sender sid arrived os ns dequeued)
    (hK : ∀ m, K m → Unpassed sender sid os ns m) (hn : K n)
    (hcomplete : sender.Complete arrived n) (c : SCTPDataVariables) :
    c ∈ SCTPQueue.erase queue (sender.tsn n 0) ↔ ∃ m, K m ∧ m ≠ n ∧ Waits sender arrived m c := by
  rw [SCTPQueue.mem_erase, h.mem]
  constructor
  · rintro ⟨⟨m, hm, hwaits⟩, hne⟩
    refine ⟨m, hm, ?_, hwaits⟩
    rintro rfl
    obtain ⟨-, rfl⟩ | ⟨hmnot, -⟩ := hwaits
    · exact hne rfl
    · exact hmnot hcomplete
  · rintro ⟨m, hm, hmn, hwaits⟩
    refine ⟨⟨m, hm, hwaits⟩, fun heq => hmn ?_⟩
    obtain ⟨j, hj, htsn⟩ := hwaits.tsn
    exact (ha.tsn_inj (hK m hm) hj (hK n hn) (hcomplete 0 (sender.size_pos n))
      (htsn.symm.trans heq)).1

/-- A fragment of a message that is still incomplete waits in the queue. -/
theorem Queues.wait_unordered (h : Queues sender sid arrived os ns dequeued stream)
    (hon : sender.On sid false n) (hnot : ¬ sender.Complete arrived n)
    (hnot' : ¬ sender.Complete (arrived ++ [(n, k)]) n) (hpool : Pool sender (arrived ++ [(n, k)])
      (fun m => sender.On sid false m ∧ ¬ sender.Complete arrived m) queue) :
    Queues sender sid (arrived ++ [(n, k)]) os ns dequeued
      { stream with unorderedQ := queue } := by
  have hiff : ∀ m, sender.Complete (arrived ++ [(n, k)]) m ↔ sender.Complete arrived m := by
    intro m
    by_cases hmn : m = n
    · subst hmn
      exact iff_of_false hnot' hnot
    · exact complete_concat_of_ne hmn
  refine { h with
    sorted_unordered := hpool.sorted
    ordered := fun c => (h.ordered c).trans (ordered_concat_of_unordered hon).symm
    unordered := fun c => (hpool.mem c).trans (exists_congr fun m => ?_)
    delivery := fun c => (h.delivery c).trans (exists_congr fun m =>
      and_congr_left fun _ => or_congr_right (and_congr_right fun _ => by rw [hiff])) }
  rw [hiff]
  constructor
  · rintro ⟨⟨hm, hmnot⟩, ⟨hc, -⟩ | ⟨-, hwaits⟩⟩
    · exact absurd ((hiff m).mp hc) hmnot
    · exact ⟨hm, hmnot, hwaits⟩
  · rintro ⟨hm, hmnot, hwaits⟩
    exact ⟨⟨hm, hmnot⟩, .inr ⟨fun hc => hmnot ((hiff m).mp hc), hwaits⟩⟩

/-- What the stream does with a fragment, and that nothing is left to be dequeued behind it. -/
def Accepts (sender : Sender) (sid : ℕ) (arrived : List (ℕ × ℕ)) (os ns : List ℕ)
    (stream : SCTPReceiveStream) (n k : ℕ) : Prop :=
  ∃ stream' delivery dequeued',
    enqueueNewDataChunk stream (sender.chunk n k) = .ok (stream', delivery) ∧
    Arrivals sender sid (arrived ++ [(n, k)]) os ns dequeued' ∧
    Queues sender sid (arrived ++ [(n, k)]) os ns dequeued'
      (if 0 < delivery ∧ delivery < 3 then putInDeliveryQ stream' else stream') ∧
    Prompt sender sid (arrived ++ [(n, k)]) dequeued'

section

variable (h : Queues sender sid arrived os ns dequeued stream)
  (ha : Arrivals sender sid arrived os ns dequeued)
  (ha' : Arrivals sender sid (arrived ++ [(n, k)]) os ns dequeued)
  (hk : k < sender.size n) (hfresh : (n, k) ∉ arrived)

include h ha ha' hk hfresh

/-- A message that has become complete is put in the delivery queue. -/
theorem Queues.deliver_unordered (hon : sender.On sid false n)
    (hcomplete : sender.Complete (arrived ++ [(n, k)]) n) {unorderedQ : SCTPQueue}
    (hsorted : SortedQueue unorderedQ)
    (hmem : ∀ c, c ∈ unorderedQ ↔ ∃ m, (sender.On sid false m ∧ ¬ sender.Complete arrived m) ∧
      m ≠ n ∧ Waits sender (arrived ++ [(n, k)]) m c) :
    checkAndInsertChunk stream.deliveryQ (sender.whole n) =
        some (KeyedList.insert key (sender.whole n) stream.deliveryQ) ∧
      Queues sender sid (arrived ++ [(n, k)]) os ns dequeued
        { stream with
          unorderedQ
          deliveryQ := KeyedList.insert key (sender.whole n) stream.deliveryQ } := by
  have hnot := not_complete_of_fresh hk hfresh
  have hns : n ∉ ns := fun hn => hnot (ha.unordered_on n hn).2
  have hdelivery : ∀ c ∈ stream.deliveryQ, c.tsn ≠ (sender.whole n).tsn := by
    intro c hc heq
    obtain ⟨m, hm, rfl⟩ := (h.delivery c).mp hc
    have hm0 := ready_complete ha hm 0 (sender.size_pos m)
    obtain ⟨rfl, -⟩ := ha'.tsn_inj (ready_unpassed ha hm) (List.mem_append_left _ hm0)
      (ha.unpassed_of_unordered hon hns) (hcomplete 0 (sender.size_pos n)) heq
    exact hnot (ready_complete ha hm)
  refine ⟨checkAndInsertChunk_of_fresh hdelivery, { h with
    sorted_unordered := hsorted
    sorted_delivery := sorted_insert_of_fresh h.sorted_delivery hdelivery
    ordered := fun c => (h.ordered c).trans (ordered_concat_of_unordered hon).symm
    unordered := fun c => (hmem c).trans (exists_congr fun m => ?_)
    delivery := fun c => ?_ }⟩
  · by_cases hmn : m = n
    · subst hmn
      exact ⟨fun h => absurd rfl h.2.1, fun h => absurd hcomplete h.2.1⟩
    · rw [complete_concat_of_ne hmn]
      constructor
      · rintro ⟨⟨hm, hmnot⟩, -, ⟨hmcomplete, -⟩ | ⟨-, hwaits⟩⟩
        · exact absurd ((complete_concat_of_ne hmn).mp hmcomplete) hmnot
        · exact ⟨hm, hmnot, hwaits⟩
      · rintro ⟨hm, hmnot, hwaits⟩
        exact ⟨⟨hm, hmnot⟩, hmn, .inr ⟨fun hc => hmnot ((complete_concat_of_ne hmn).mp hc), hwaits⟩⟩
  · rw [mem_insert, h.delivery]
    constructor
    · rintro (rfl | ⟨m, hm, rfl⟩)
      · exact ⟨n, .inr ⟨hon, hcomplete, hns⟩, rfl⟩
      · exact ⟨m, hm.imp_right fun ⟨hm, hc, hmns⟩ => ⟨hm, complete_concat hc _, hmns⟩, rfl⟩
    · rintro ⟨m, hm | ⟨hm, hc, hmns⟩, rfl⟩
      · exact .inr ⟨m, .inl hm, rfl⟩
      · by_cases hmn : m = n
        · exact .inl (by rw [hmn])
        · exact .inr ⟨m, .inr ⟨hm, (complete_concat_of_ne hmn).mp hc, hmns⟩, rfl⟩

variable (hjoin : 1 < sender.size n → sender.Complete (arrived ++ [(n, k)]) n →
  sender.Joinable n)

include hjoin

/-- The ordered queue takes a fragment, and joins its message if it is complete. -/
theorem Queues.insertOrdered (hon : sender.On sid true n) : ∃ orderedQ delivery,
      insertOrdered stream.orderedQ (sender.chunk n k) = .ok (orderedQ, delivery) ∧ 0 < delivery ∧
        Queues sender sid (arrived ++ [(n, k)]) os ns dequeued { stream with orderedQ } := by
  have hnot := not_complete_of_fresh hk hfresh
  have hle : dequeued ≤ sender.number n := by
    by_contra hlt
    exact hnot (ha.complete n hon (by omega))
  have hpool := h.orderedPool
  have hK : ∀ m, sender.On sid true m ∧ dequeued ≤ sender.number m →
      Unpassed sender sid os ns m := fun m ⟨hm, hmle⟩ =>
    ha.unpassed_of_ordered hm (ha.os_le.trans hmle)
  have hinsert := checkAndInsertChunk_of_fresh
    (hpool.fresh ha' hK (hK n ⟨hon, hle⟩) hfresh)
  have hrest : ∀ {orderedQ}, Pool sender (arrived ++ [(n, k)])
      (fun m => sender.On sid true m ∧ dequeued ≤ sender.number m) orderedQ →
      Queues sender sid (arrived ++ [(n, k)]) os ns dequeued { stream with orderedQ } := by
    intro orderedQ hordered
    have hother : ∀ m, sender.On sid false m → m ≠ n := by
      rintro m hm rfl
      have := hm.2.symm.trans hon.2
      cases this
    refine { h with
      sorted_ordered := hordered.sorted
      ordered := fun c => (hordered.mem c).trans (by simp only [and_assoc])
      unordered := fun c => (h.unordered c).trans (exists_congr fun m =>
        and_congr_right fun hm => ?_)
      delivery := fun c => (h.delivery c).trans (exists_congr fun m =>
        and_congr_left fun _ => or_congr_right (and_congr_right fun hm => ?_)) }
    · simp [complete_concat_of_ne (hother m hm), hother m hm]
    · rw [complete_concat_of_ne (hother m hm)]
  rw [SCTPReceiveStream.insertOrdered, hinsert]
  by_cases hone : sender.size n = 1
  · obtain rfl : k = 0 := by omega
    refine ⟨_, 1, ?_, Nat.one_pos, hrest ⟨sorted_insert_of_fresh hpool.sorted
      (hpool.fresh ha' hK (hK n ⟨hon, hle⟩) hfresh), fun c => ?_⟩⟩
    · simp [chunk, hone]
    · have hcomplete : sender.Complete (arrived ++ [(n, 0)]) n := by
        intro j hj
        obtain rfl : j = 0 := by omega
        exact List.mem_append_right _ (List.mem_singleton_self _)
      rw [mem_insert, hpool.mem_of_single ha hone hfresh, ← Sender.whole_eq_chunk hone]
      constructor
      · rintro (rfl | ⟨m, hm, -, hwaits⟩)
        · exact ⟨n, ⟨hon, hle⟩, .inl ⟨hcomplete, rfl⟩⟩
        · exact ⟨m, hm, hwaits⟩
      · rintro ⟨m, hm, hwaits⟩
        by_cases hmn : m = n
        · subst hmn
          obtain ⟨-, rfl⟩ | ⟨hmnot, -⟩ := hwaits
          · exact .inl rfl
          · exact absurd hcomplete hmnot
        · exact .inr ⟨m, hm, hmn, hwaits⟩
  · have hmany : 1 < sender.size n := by
      have := sender.size_pos n
      omega
    have hbits : (!(sender.chunk n k).bbit || !(sender.chunk n k).ebit) = true := by
      simp only [chunk, Bool.or_eq_true, Bool.not_eq_true', decide_eq_false_iff_not]
      omega
    have htsn : (sender.chunk n k).tsn = sender.tsn n k := rfl
    dsimp only
    rw [if_pos hbits, htsn]
    by_cases hcomplete : sender.Complete (arrived ++ [(n, k)]) n
    · obtain ⟨queue', hrun, hpool'⟩ := hpool.join ha' hK ⟨hon, hle⟩ hk hfresh hmany hcomplete
        (hjoin hmany hcomplete)
      rw [hrun]
      exact ⟨queue', 3, rfl, by decide, hrest hpool'⟩
    · obtain ⟨hpool', hrun⟩ := hpool.insert ha' hK ⟨hon, hle⟩ hk hfresh hcomplete
      rw [hrun]
      exact ⟨_, 3, rfl, by decide, hrest hpool'⟩

theorem Queues.accept_ordered (hon : sender.On sid true n) :
    Accepts sender sid arrived os ns stream n k := by
  obtain ⟨orderedQ, delivery, hrun, hpos, hqueues⟩ := h.insertOrdered ha ha' hk hfresh hjoin hon
  have hordered : (sender.chunk n k).ordered = true := hon.2
  rw [Accepts, enqueueNewDataChunk, if_pos hordered, enqueueOrdered, hrun, ok_bind]
  obtain ⟨hnone, hprompt⟩ | ⟨stream', hsome, -, ha'', hqueues', -⟩ := hqueues.dequeueNext ha'
  · refine ⟨{ stream with orderedQ }, delivery, dequeued, ?_, ha', ?_, hprompt⟩
    · dsimp only
      rw [hnone]
    · split_ifs
      · rw [hqueues.putInDeliveryQ_of_prompt ha' hprompt]
        exact hqueues
      · exact hqueues
  · obtain ⟨dequeued', ha3, hqueues3, hprompt3⟩ := hqueues'.putInDeliveryQLoop ha'' le_rfl
    refine ⟨stream', 2, dequeued', ?_, ha3, hqueues3, hprompt3⟩
    dsimp only
    rw [hsome]
    rfl

theorem Queues.accept_unordered (hon : sender.On sid false n)
    (hprompt : Prompt sender sid arrived dequeued) : Accepts sender sid arrived os ns stream n k := by
  have hnot := not_complete_of_fresh hk hfresh
  have hnotOn : ¬ sender.On sid true n := fun h => by cases h.2.symm.trans hon.2
  have hprompt' := prompt_concat_of_ne (k := k) hnotOn hprompt
  have hordered : (sender.chunk n k).ordered = false := hon.2
  have hpool := h.unorderedPool
  have hK : ∀ m, sender.On sid false m ∧ ¬ sender.Complete arrived m →
      Unpassed sender sid os ns m := fun m ⟨hm, hmnot⟩ =>
    ha.unpassed_of_unordered hm fun hmem => hmnot (ha.unordered_on m hmem).2
  have hfinish : ∀ {stream'}, Queues sender sid (arrived ++ [(n, k)]) os ns dequeued stream' →
      Queues sender sid (arrived ++ [(n, k)]) os ns dequeued (putInDeliveryQ stream') := by
    intro stream' hqueues
    rw [hqueues.putInDeliveryQ_of_prompt ha' hprompt']
    exact hqueues
  rw [Accepts, enqueueNewDataChunk, hordered]
  by_cases hone : sender.size n = 1
  · obtain rfl : k = 0 := by omega
    have hcomplete := (complete_iff_first ha ha' hon hk hfresh).mpr rfl
    obtain ⟨hinsert, hqueues⟩ := h.deliver_unordered ha ha' hk hfresh hon hcomplete
      h.sorted_unordered (hpool.mem_of_single ha hone hfresh)
    rw [Sender.whole_eq_chunk hone] at hinsert hqueues
    refine ⟨_, 2, dequeued, ?_, ha', hfinish hqueues, hprompt'⟩
    simp [chunk, hone] at hinsert ⊢
    rw [hinsert]
  · have hmany : 1 < sender.size n := by
      have := sender.size_pos n
      omega
    have hbits : ((sender.chunk n k).bbit && (sender.chunk n k).ebit) = false := by
      simp only [chunk, Bool.and_eq_false_iff, decide_eq_false_iff_not]
      omega
    have htsn : (sender.chunk n k).tsn = sender.tsn n k := rfl
    have hinsert := checkAndInsertChunk_of_fresh
      (hpool.fresh ha' hK (hK n ⟨hon, hnot⟩) hfresh)
    rw [hbits, enqueueUnordered, hinsert]
    simp only [Bool.false_eq_true, if_false, htsn]
    by_cases hcomplete : sender.Complete (arrived ++ [(n, k)]) n
    · obtain ⟨queue', hrun, hpool'⟩ := hpool.join ha' hK ⟨hon, hnot⟩ hk hfresh hmany hcomplete
        (hjoin hmany hcomplete)
      have hwhole : sender.whole n ∈ queue' :=
        (hpool'.mem _).mpr ⟨n, ⟨hon, hnot⟩, .inl ⟨hcomplete, rfl⟩⟩
      have hget : SCTPQueue.getChunk queue' (sender.tsn n 0) = some (sender.whole n) :=
        (getChunk_eq_some hpool'.sorted).mpr ⟨hwhole, rfl⟩
      have hextract : SCTPQueue.getAndExtractChunk queue' (sender.tsn n 0) =
          .ok (sender.whole n, SCTPQueue.erase queue' (sender.tsn n 0)) := by
        rw [SCTPQueue.getAndExtractChunk, if_neg (List.ne_nil_of_mem hwhole), hget]
      obtain ⟨hdelivery, hqueues⟩ := h.deliver_unordered ha ha' hk hfresh hon hcomplete
        (hpool'.sorted.erase (sender.tsn n 0).toNat)
        (hpool'.mem_erase ha' hK ⟨hon, hnot⟩ hcomplete)
      refine ⟨_, 2, dequeued, ?_, ha', hfinish hqueues, hprompt'⟩
      rw [hrun, ok_bind]
      simp only [hget, hextract, ok_bind, hdelivery]
      rfl
    · obtain ⟨hpool', hrun⟩ := hpool.insert ha' hK ⟨hon, hnot⟩ hk hfresh hcomplete
      have hfirst : k ≠ 0 := fun hk0 =>
        hcomplete ((complete_iff_first ha ha' hon hk hfresh).mpr hk0)
      have hmem : sender.chunk n k ∈ KeyedList.insert key (sender.chunk n k) stream.unorderedQ :=
        mem_insert.mpr (.inl rfl)
      have hget := (getChunk_eq_some hpool'.sorted).mpr ⟨hmem, htsn⟩
      refine ⟨{ stream with
        unorderedQ := KeyedList.insert key (sender.chunk n k)
          stream.unorderedQ }, 3, dequeued, ?_, ha', h.wait_unordered hon hnot hcomplete hpool',
        hprompt'⟩
      rw [hrun, ok_bind]
      simp only [hget]
      rw [if_neg (by simp [chunk, hfirst])]

end

/-- The first message of the delivery queue is the next ordered one, or an unordered one. -/
theorem Queues.front (ha : Arrivals sender sid arrived os ns dequeued)
    (h : Queues sender sid arrived os ns dequeued stream) (horder : InOrder stream.deliveryQ)
    (hqueue : stream.deliveryQ = c :: queue) :
    ∃ n, c = sender.whole n ∧ Ready sender sid arrived os ns dequeued n ∧
      (sender.On sid true n → sender.number n = os.length) := by
  obtain ⟨n, hn, rfl⟩ := (h.delivery c).mp (by rw [hqueue]; exact List.mem_cons_self)
  refine ⟨n, rfl, hn, fun hon => ?_⟩
  obtain ⟨-, hle, hlt⟩ | ⟨⟨-, hfalse⟩, -⟩ := hn
  · by_contra hne
    obtain ⟨m, hmn, hm, hnumber⟩ := exists_number
      ((show os.length < sender.number n by omega).trans_eq (number_eq hon))
    have hmready : Ready sender sid arrived os ns dequeued m :=
      .inl ⟨hm, hnumber.ge, by omega⟩
    have hmem := (h.delivery _).mpr ⟨m, hmready, rfl⟩
    rw [hqueue] at hmem horder
    have hbehind : sender.whole m ∈ queue := by
      refine (List.mem_cons.mp hmem).resolve_left fun heq => ?_
      have := whole_inj heq
      omega
    have hsorted := h.sorted_delivery
    rw [hqueue] at hsorted
    have hgt := horder _ List.mem_cons_self _ hmem hon.2 hm.2 (hsorted.head_lt hbehind)
    have hn0 := ready_complete ha (.inl ⟨hon, hle, hlt⟩) 0 (sender.size_pos n)
    have hm0 := ready_complete ha hmready 0 (sender.size_pos m)
    have hun := ha.unpassed_of_ordered hon hle
    have hum := ha.unpassed_of_ordered hm hnumber.ge
    have hnm := ha.window n 0 hn0 hon.1 m hm.1 hum.2.1 hum.2.2
    have hmn' := ha.window m 0 hm0 hm.1 n hon.1 hun.2.1 hun.2.2
    have hnear : Near 32 (sender.start m + 0) (sender.start n + 0) := by
      constructor <;> omega
    have hlt' : sender.start n + 0 < sender.start m + 0 := by
      have htsns : tsnGt (sender.tsn m 0) (sender.tsn n 0) = true := hgt
      rw [tsn, tsn, tsnGt_ofPos hnear] at htsns
      simpa using htsns
    have : sender.start m < sender.start n := Sender.start_lt_start hmn
    omega
  · rw [hon.2] at hfalse
    cases hfalse

/-- The delivery queue behind its first message. -/
theorem Queues.tail (h : Queues sender sid arrived os ns dequeued stream)
    (hqueue : stream.deliveryQ = sender.whole n :: queue) {os' ns' : List ℕ}
    (hready : ∀ m, Ready sender sid arrived os' ns' dequeued m ↔
      Ready sender sid arrived os ns dequeued m ∧ m ≠ n) :
    Queues sender sid arrived os' ns' dequeued { stream with deliveryQ := queue } := by
  have hsorted := h.sorted_delivery
  rw [hqueue] at hsorted
  refine { h with sorted_delivery := hsorted.tail, delivery := fun c => ?_ }
  have hdelivery := h.delivery c
  rw [hqueue, List.mem_cons] at hdelivery
  constructor
  · intro hc
    obtain ⟨m, hm, rfl⟩ := hdelivery.mp (.inr hc)
    refine ⟨m, (hready m).mpr ⟨hm, ?_⟩, rfl⟩
    rintro rfl
    exact lt_irrefl _ (hsorted.head_lt hc)
  · rintro ⟨m, hm, rfl⟩
    obtain ⟨hm, hmn⟩ := (hready m).mp hm
    exact (hdelivery.mpr ⟨m, hm, rfl⟩).resolve_left fun heq => hmn (whole_inj heq)

/-- A stream whose messages have been passed as `Delivers` says. -/
structure Tracks (sender : Sender) (sid : ℕ) (arrived : List (ℕ × ℕ))
    (passed : List SCTPDataVariables) (stream : SCTPReceiveStream) (os ns : List ℕ)
    (dequeued : ℕ) : Prop where
  arrivals : Arrivals sender sid arrived os ns dequeued
  queues : Queues sender sid arrived os ns dequeued stream
  prompt : Prompt sender sid arrived dequeued
  ordered : ofStream sid true passed = os.map sender.whole
  unordered : ofStream sid false passed = ns.map sender.whole

theorem ofStream_append (ordered : Bool) (chunks chunks' : List SCTPDataVariables) :
    ofStream sid ordered (chunks ++ chunks') =
      ofStream sid ordered chunks ++ ofStream sid ordered chunks' := List.filter_append ..

theorem ofStream_whole {ordered ordered' : Bool} (hon : sender.On sid ordered n) :
    ofStream sid ordered' [sender.whole n] =
      if ordered' = ordered then [sender.whole n] else [] := by
  have hsid : (sender.whole n).sid = sid := hon.1
  have hordered : (sender.whole n).ordered = ordered := hon.2
  cases ordered <;> cases ordered' <;> simp [ofStream, hsid, hordered]

/-- The first message of the delivery queue is passed to the application. -/
theorem Tracks.pass (h : Tracks sender sid arrived passed stream os ns dequeued)
    (horder : InOrder stream.deliveryQ) (hqueue : stream.deliveryQ = c :: queue) :
    ∃ os' ns', Tracks sender sid arrived (passed ++ [c]) { stream with deliveryQ := queue }
      os' ns' dequeued := by
  obtain ⟨n, rfl, hready, hnumber⟩ := h.queues.front h.arrivals horder hqueue
  have ha := h.arrivals
  obtain ⟨hon, hle, hlt⟩ | ⟨hon, hcomplete, hns⟩ := hready
  · have hnext := hnumber hon
    refine ⟨os ++ [n], ns, { ha with
      ordered_on := ?_, gapFree := ?_, os_le := ?_, window := ?_ }, ?_, h.prompt, ?_, ?_⟩
    · intro m hm
      obtain hm | hm := List.mem_append.mp hm
      · exact ha.ordered_on m hm
      · rwa [List.mem_singleton.mp hm]
    · rw [List.map_append, ha.gapFree, List.length_append, List.map_singleton, hnext,
        List.length_singleton, List.range_succ]
    · rw [List.length_append, List.length_singleton]
      omega
    · intro m k hm hsid m' hsid' hos hns'
      exact ha.window m k hm hsid m' hsid' (fun hmem => hos (List.mem_append_left _ hmem)) hns'
    · refine h.queues.tail hqueue fun m => ?_
      simp only [Ready, List.length_append, List.length_singleton]
      constructor
      · rintro (⟨hm, hmle, hmlt⟩ | hm)
        · refine ⟨.inl ⟨hm, by omega, hmlt⟩, ?_⟩
          rintro rfl
          omega
        · refine ⟨.inr hm, ?_⟩
          rintro rfl
          cases hm.1.2.symm.trans hon.2
      · rintro ⟨⟨hm, hmle, hmlt⟩ | hm, hmn⟩
        · refine .inl ⟨hm, ?_, hmlt⟩
          have : sender.number m ≠ sender.number n := fun heq =>
            hmn (number_inj hm hon heq)
          omega
        · exact .inr hm
    · rw [ofStream_append, ofStream_whole hon, h.ordered, List.map_append]
      rfl
    · rw [ofStream_append, ofStream_whole hon, h.unordered]
      simp
  · refine ⟨os, ns ++ [n], { ha with
      unordered_on := ?_, once := ?_, window := ?_ }, ?_, h.prompt, ?_, ?_⟩
    · intro m hm
      obtain hm | hm := List.mem_append.mp hm
      · exact ha.unordered_on m hm
      · rw [List.mem_singleton.mp hm]
        exact ⟨hon, hcomplete⟩
    · rw [List.nodup_append]
      refine ⟨ha.once, List.nodup_singleton n, fun m hm m' hm' heq => hns ?_⟩
      rw [← List.mem_singleton.mp hm', ← heq]
      exact hm
    · intro m k hm hsid m' hsid' hos hns'
      exact ha.window m k hm hsid m' hsid' hos fun hmem => hns' (List.mem_append_left _ hmem)
    · refine h.queues.tail hqueue fun m => ?_
      simp only [Ready, List.mem_append, List.mem_singleton, not_or]
      constructor
      · rintro (hm | ⟨hm, hc, hmns, hmn⟩)
        · refine ⟨.inl hm, ?_⟩
          rintro rfl
          cases hm.1.2.symm.trans hon.2
        · exact ⟨.inr ⟨hm, hc, hmns⟩, hmn⟩
      · rintro ⟨hm | ⟨hm, hc, hmns⟩, hmn⟩
        · exact .inl hm
        · exact .inr ⟨hm, hc, hmns, hmn⟩
    · rw [ofStream_append, ofStream_whole hon, h.ordered]
      simp
    · rw [ofStream_append, ofStream_whole hon, h.unordered, List.map_append]
      rfl

theorem InOrder.mono {queue' : SCTPQueue} (h : InOrder queue) (hsub : queue' ⊆ queue) :
    InOrder queue' := fun c hc c' hc' => h c (hsub hc) c' (hsub hc')

/-- The first messages of the delivery queue are passed to the application. -/
theorem Tracks.passAll {chunks rest : List SCTPDataVariables}
    (h : Tracks sender sid arrived passed stream os ns dequeued)
    (horder : InOrder stream.deliveryQ) (hqueue : stream.deliveryQ = chunks ++ rest) :
    ∃ os' ns', Tracks sender sid arrived (passed ++ chunks) { stream with deliveryQ := rest }
      os' ns' dequeued := by
  induction chunks generalizing passed stream os ns with
  | nil =>
    rw [List.nil_append] at hqueue
    subst hqueue
    rw [List.append_nil]
    exact ⟨os, ns, h⟩
  | cons c chunks ih =>
    obtain ⟨os', ns', h'⟩ := h.pass horder hqueue
    rw [hqueue] at horder
    rw [List.append_cons]
    have hrest := ih h' (horder.mono (List.subset_cons_self _ _)) rfl
    exact hrest

theorem Queues.sid_of_delivery (h : Queues sender sid arrived os ns dequeued stream)
    (hc : c ∈ stream.deliveryQ) : c.sid = sid := by
  obtain ⟨n, hn, rfl⟩ := (h.delivery c).mp hc
  obtain ⟨hon, -⟩ | ⟨hon, -⟩ := hn <;> exact hon.1

theorem ofStream_eq_nil {sid' : ℕ} {ordered : Bool} {chunks : List SCTPDataVariables}
    (h : ∀ c ∈ chunks, c.sid = sid') (hne : sid' ≠ sid) : ofStream sid ordered chunks = [] := by
  refine List.filter_eq_nil_iff.mpr fun c hc => ?_
  simp [h c hc, hne]

/-- Every stream has passed its messages as `Delivers` says. -/
def Good (sender : Sender) (arrived : List (ℕ × ℕ)) (s : ReceiveState) : Prop :=
  ∀ sid, ∃ os ns dequeued,
    Tracks sender sid arrived s.passed (s.receiveStreams sid) os ns dequeued

theorem Good.pushStream {s : ReceiveState} (h : Good sender arrived s) (restrict : Bool)
    (horder : InOrder (s.receiveStreams sid).deliveryQ) :
    Good sender arrived (s.pushStream restrict sid) := by
  intro sid'
  obtain ⟨os, ns, dequeued, htracks⟩ := h sid'
  have happend := ReceiveState.pushMessages_append restrict (s.receiveStreams sid).deliveryQ
    s.pushMessagesLeft
  rw [ReceiveState.pushStream]
  generalize ReceiveState.pushMessages restrict (s.receiveStreams sid).deliveryQ
    s.pushMessagesLeft = r at happend
  obtain ⟨rest, left, chunks⟩ := r
  dsimp only at happend ⊢
  by_cases hsid : sid' = sid
  · subst hsid
    obtain ⟨os', ns', htracks'⟩ := htracks.passAll horder happend.symm
    rw [Function.update_self]
    exact ⟨os', ns', dequeued, htracks'⟩
  · rw [Function.update_of_ne hsid]
    obtain ⟨_, _, _, hother⟩ := h sid
    have hchunks : ∀ c ∈ chunks, c.sid = sid := fun c hc =>
      hother.queues.sid_of_delivery (happend ▸ List.mem_append_left _ hc)
    refine ⟨os, ns, dequeued, { htracks with ordered := ?_, unordered := ?_ }⟩
    · rw [ofStream_append, ofStream_eq_nil hchunks (Ne.symm hsid), List.append_nil]
      exact htracks.ordered
    · rw [ofStream_append, ofStream_eq_nil hchunks (Ne.symm hsid), List.append_nil]
      exact htracks.unordered

theorem inOrder_pushStream {s : ReceiveState} (restrict : Bool) {sid' : ℕ}
    (h : InOrder (s.receiveStreams sid').deliveryQ) :
    InOrder ((s.pushStream restrict sid).receiveStreams sid').deliveryQ := by
  have happend := ReceiveState.pushMessages_append restrict (s.receiveStreams sid).deliveryQ
    s.pushMessagesLeft
  rw [ReceiveState.pushStream]
  by_cases hsid : sid' = sid
  · subst hsid
    dsimp only
    rw [Function.update_self]
    refine h.mono ?_
    conv => rhs; rw [← happend]
    exact List.subset_append_right _ _
  · dsimp only
    rwa [Function.update_of_ne hsid]

theorem Good.pushStreams {s : ReceiveState} (h : Good sender arrived s) (restrict : Bool)
    {sids : List ℕ} (horder : ∀ sid ∈ sids, InOrder (s.receiveStreams sid).deliveryQ) :
    Good sender arrived (sids.foldl (ReceiveState.pushStream restrict) s) := by
  induction sids generalizing s with
  | nil => exact h
  | cons sid sids ih =>
    rw [List.foldl_cons]
    refine ih (h.pushStream restrict (horder sid List.mem_cons_self)) fun sid' hsid' => ?_
    exact inOrder_pushStream restrict (horder sid' (List.mem_cons_of_mem _ hsid'))

theorem Good.pushUlp {s : ReceiveState} (h : Good sender arrived s)
    (hstreams : 0 < params.inboundStreams)
    (horder : ∀ sid < params.inboundStreams, InOrder (s.receiveStreams sid).deliveryQ) :
    ∃ t, s.pushUlp params = .ok t ∧ Good sender arrived t := by
  rw [ReceiveState.pushUlp, if_neg hstreams.ne']
  refine ⟨_, rfl, ?_⟩
  have hsame : (fun sid => if sid < params.inboundStreams then
      putInDeliveryQ (s.receiveStreams sid) else s.receiveStreams sid) = s.receiveStreams := by
    funext sid
    obtain ⟨_, _, _, htracks⟩ := h sid
    split_ifs
    · exact htracks.queues.putInDeliveryQ_of_prompt htracks.arrivals htracks.prompt
    · rfl
  rw [hsame]
  generalize ReceiveState.messagesLeft params s = left
  have horders : ∀ sid ∈ (List.range params.inboundStreams).map (fun i =>
      (s.nextRSid + i) % params.inboundStreams), InOrder (s.receiveStreams sid).deliveryQ := by
    intro sid hsid
    obtain ⟨i, -, rfl⟩ := List.mem_map.mp hsid
    exact horder _ (Nat.mod_lt _ hstreams)
  have hpush := Good.pushStreams (s := { s with pushMessagesLeft := left }) h (left > 0) horders
  intro sid
  exact hpush sid

/-- A chunk of another stream does not change what is said of a stream. -/
theorem Tracks.arrive_other (h : Tracks sender sid arrived passed stream os ns dequeued)
    (hk : k < sender.size n) (hsid : (sender.messages n).sid ≠ sid) :
    Tracks sender sid (arrived ++ [(n, k)]) passed stream os ns dequeued := by
  have hne : ∀ m ordered, sender.On sid ordered m → m ≠ n := by
    rintro m ordered hm rfl
    exact hsid hm.1
  refine { h with
    arrivals := h.arrivals.arrive hk (fun hmine => absurd hmine hsid)
      (fun hon => absurd hon.1 hsid) (fun hon => absurd hon.1 hsid)
    prompt := prompt_concat_of_ne (fun hon => hsid hon.1) h.prompt
    queues := { h.queues with
      ordered := fun c => ?_, unordered := fun c => ?_, delivery := fun c => ?_ } }
  · refine (h.queues.ordered c).trans (exists_congr fun m => and_congr_right fun hm =>
      and_congr_right fun _ => (waits_concat_of_ne (hne m true hm)).symm)
  · refine (h.queues.unordered c).trans (exists_congr fun m => and_congr_right fun hm => ?_)
    have hmn := hne m false hm
    have harrived : ∀ j, (m, j) ∈ arrived ++ [(n, k)] ↔ (m, j) ∈ arrived := by
      simp [hmn]
    simp only [complete_concat_of_ne hmn, harrived]
  · refine (h.queues.delivery c).trans (exists_congr fun m => and_congr_left fun _ =>
      or_congr_right (and_congr_right fun hm => ?_))
    rw [complete_concat_of_ne (hne m false hm)]

section

variable (h : Good sender s.arrived s.toReceiveState)

include h

/-- A passed chunk is a message that has been passed. -/
theorem Good.of_passed (hm : sender.start m ∈ s.passedChunks) (hsid : (sender.messages m).sid = sid)
    (htracks : Tracks sender sid s.arrived s.passed (s.receiveStreams sid) os ns dequeued) :
    m ∈ os ∨ m ∈ ns := by
  obtain ⟨c, hc, hmc⟩ := List.mem_flatMap.mp hm
  obtain ⟨os', ns', dequeued', htracks'⟩ := h c.sid
  have hpassed : c ∈ ofStream c.sid c.ordered s.passed := by
    simp [ofStream, hc]
  have hwhole : ∃ m', c = sender.whole m' := by
    cases hordered : c.ordered with
    | true =>
      rw [hordered, htracks'.ordered] at hpassed
      obtain ⟨m', -, rfl⟩ := List.mem_map.mp hpassed
      exact ⟨m', rfl⟩
    | false =>
      rw [hordered, htracks'.unordered] at hpassed
      obtain ⟨m', -, rfl⟩ := List.mem_map.mp hpassed
      exact ⟨m', rfl⟩
  obtain ⟨m', rfl⟩ := hwhole
  obtain rfl := (Sender.mem_received_whole (j := 0) (sender.size_pos m)).mp hmc
  have hmine : (sender.whole m).sid = sid := hsid
  rw [hmine] at hpassed
  cases hordered : (sender.whole m).ordered with
  | true =>
    rw [hordered, htracks.ordered] at hpassed
    obtain ⟨m', hm', heq⟩ := List.mem_map.mp hpassed
    exact .inl (whole_inj heq ▸ hm')
  | false =>
    rw [hordered, htracks.unordered] at hpassed
    obtain ⟨m', hm', heq⟩ := List.mem_map.mp hpassed
    exact .inr (whole_inj heq ▸ hm')

/-- An arrival that meets no defect is near enough to the chunks in use. -/
theorem Good.arrivals (hfirst : FirstArrival sender s n k) (hok : Harmless sender s n k)
    (htracks : Tracks sender (sender.messages n).sid s.arrived s.passed
      (s.receiveStreams (sender.messages n).sid) os ns dequeued) :
    Arrivals sender (sender.messages n).sid (s.arrived ++ [(n, k)]) os ns dequeued := by
  refine htracks.arrivals.arrive hfirst.inMessage (fun _ m hm => ?_) (fun hon => ?_)
    fun hon hk => hok.firstLast hon.2 hk
  · by_contra hfar
    have hle : m ≤ n := by
      by_contra hlt
      have : sender.start n + sender.size n ≤ sender.start m :=
        Sender.start_le_of_lt (Nat.lt_of_not_le hlt)
      have := hfirst.inMessage
      omega
    obtain hos | hns := h.of_passed (hok.window m hle hm.1 (by omega)) hm.1 htracks
    · exact hm.2.1 hos
    · exact hm.2.2 hns
  · by_contra hfar
    obtain ⟨m, hmn, hm, hnumber⟩ := exists_number
      ((show dequeued < sender.number n by omega).trans_eq (number_eq hon))
    have hmem := hok.ssns m hmn hm hon.2 (by omega)
    have hle := htracks.arrivals.os_le
    obtain hpassed | hdelivery := List.mem_append.mp hmem
    · obtain hos | hns := h.of_passed hpassed hm.1 htracks
      · have := (gapFree_getElem htracks.arrivals hm).mp hos
        omega
      · cases (htracks.arrivals.unordered_on m hns).1.2.symm.trans hm.2
    · obtain ⟨c, hc, hmc⟩ := List.mem_flatMap.mp hdelivery
      obtain ⟨m', hready, rfl⟩ := (htracks.queues.delivery c).mp hc
      obtain rfl := (Sender.mem_received_whole (j := 0) (sender.size_pos m)).mp hmc
      obtain ⟨-, -, hlt⟩ | ⟨hm', -⟩ := hready
      · omega
      · cases hm'.2.symm.trans hm.2

theorem Good.arrive (hfirst : FirstArrival sender s n k) (hok : Harmless sender s n k) :
    ∃ t, s.toReceiveState.acceptChunk (sender.chunk n k) = .ok t ∧
      Good sender (s.arrived ++ [(n, k)]) t := by
  have hsid : (sender.chunk n k).sid = (sender.messages n).sid := rfl
  obtain ⟨os, ns, dequeued, htracks⟩ := h (sender.messages n).sid
  have ha' := h.arrivals hfirst hok htracks
  have haccepts : Accepts sender (sender.messages n).sid s.arrived os ns
      (s.receiveStreams (sender.messages n).sid) n k := by
    cases hordered : (sender.messages n).ordered with
    | true =>
      exact htracks.queues.accept_ordered htracks.arrivals ha' hfirst.inMessage hfirst.fresh
        hok.joinable ⟨rfl, hordered⟩
    | false =>
      exact htracks.queues.accept_unordered htracks.arrivals ha' hfirst.inMessage hfirst.fresh
        hok.joinable ⟨rfl, hordered⟩ htracks.prompt
  obtain ⟨stream', delivery, dequeued', hrun, ha'', hqueues, hprompt⟩ := haccepts
  rw [ReceiveState.acceptChunk, hsid, hrun, ok_bind]
  refine ⟨_, rfl, fun sid => ?_⟩
  by_cases hmine : sid = (sender.messages n).sid
  · subst hmine
    dsimp only
    rw [Function.update_self]
    exact ⟨os, ns, dequeued', ha'', hqueues, hprompt, htracks.ordered, htracks.unordered⟩
  · dsimp only
    rw [Function.update_of_ne hmine]
    obtain ⟨os', ns', dequeued'', hother⟩ := h sid
    exact ⟨os', ns', dequeued'', hother.arrive_other hfirst.inMessage (Ne.symm hmine)⟩

theorem Good.step {event : Event} (hok : EventOk sender params s event) :
    ∃ t, step sender params s event = .ok t ∧ Good sender t.arrived t.toReceiveState := by
  cases event with
  | arrive n k =>
    rw [Reception.step]
    split_ifs
    · obtain ⟨t, ht, hgood⟩ := h.arrive hok.1 hok.2
      exact ⟨_, by rw [ht, ok_bind], hgood⟩
    · exact ⟨s, rfl, h⟩
  | pushUlp =>
    obtain ⟨t, ht, hgood⟩ := h.pushUlp hok.1 hok.2
    exact ⟨_, by rw [Reception.step, ht, ok_bind], hgood⟩

end

theorem Tracks.delivers
    (h : Tracks sender sid s.arrived s.passed (s.receiveStreams sid) os ns dequeued) :
    Delivers sender s sid os ns where
  ordered := h.ordered
  ordered_on := h.arrivals.ordered_on
  gapFree := h.arrivals.gapFree
  unordered := h.unordered
  unordered_on := h.arrivals.unordered_on
  once := h.arrivals.once
  all := by
    intro count hall hempty n hn hsid
    have hcomplete := hall n hn hsid
    have hnone : ∀ m, ¬ Ready sender sid s.arrived os ns dequeued m := by
      intro m hm
      have := (h.queues.delivery _).mpr ⟨m, hm, rfl⟩
      rw [hempty] at this
      cases this
    cases hordered : (sender.messages n).ordered with
    | true =>
      have hon : sender.On sid true n := ⟨hsid, hordered⟩
      refine .inl ((gapFree_getElem h.arrivals hon).mpr ?_)
      by_contra hle
      have hlt : sender.number n < dequeued := by
        by_contra hge
        obtain heq | hgt := Nat.eq_or_lt_of_le (Nat.le_of_not_lt hge)
        · exact h.prompt n hon heq.symm hcomplete
        · rw [number_eq hon] at hgt
          obtain ⟨m, hmn, hm, hnumber⟩ := exists_number hgt
          exact h.prompt m hm hnumber (hall m (hmn.trans hn) hm.1)
      exact hnone n (.inl ⟨hon, by omega, hlt⟩)
    | false =>
      refine .inr ?_
      by_contra hns
      exact hnone n (.inr ⟨⟨hsid, hordered⟩, hcomplete, hns⟩)

end

/-- As long as no event meets one of the defects, no call fails, and the messages of every stream
are passed to the application as they should be. -/
theorem delivers_of_eventOk (sender : Sender) (params : ReceiveParameters) (events : List Event)
    (h : Run.Admissible (step sender params) (EventOk sender params) {} events) :
    Run.Always (step sender params) (fun s => ∀ sid, ∃ os ns, Delivers sender s sid os ns)
      {} events := by
  have hstart : Good sender [] {} := by
    intro sid
    refine ⟨[], [], 0, ⟨?_, ?_, ?_, rfl, rfl⟩⟩
    · constructor <;> simp
    · have hnone : ∀ n, ¬ sender.Complete [] n := fun n hcomplete =>
        absurd (hcomplete 0 (sender.size_pos n)) List.not_mem_nil
      constructor <;> simp [KeyedList.Sorted, Waits, Ready, hnone]
    · exact fun n _ _ hcomplete =>
        absurd (hcomplete 0 (sender.size_pos n)) List.not_mem_nil
  refine Run.Always.mono (fun s hs sid => ?_) (Run.always_of_step
    (P := fun s => Good sender s.arrived s.toReceiveState) (fun s event hs hok => hs.step hok)
    hstart h)
  obtain ⟨os, ns, _, htracks⟩ := hs sid
  exact ⟨os, ns, htracks.delivers⟩

/-- An unordered message and two ordered ones around the wrap of the TSNs. -/
def wrappingSender : Sender where
  initialTsn := 0xfffffffd#32
  messages
    | 0 => { sid := 0, ordered := false, parts := [[1], [2]] }
    | 1 => { sid := 0, ordered := true, parts := [[3], [4]] }
    | _ => { sid := 0, ordered := true, parts := [[5]] }
  nonempty := by rintro (_ | _ | _) <;> simp
  filled := by rintro (_ | _ | _) <;> simp

def oneStream : ReceiveParameters := { inboundStreams := 1, messagesToPush := 0 }

/-- The first fragment of the unordered message comes last, and the ordered messages are
passed to the application one by one. -/
def calmEvents : List Event :=
  [.arrive 0 1, .arrive 1 1, .arrive 0 0, .pushUlp, .arrive 1 0, .pushUlp, .arrive 2 0, .pushUlp]

theorem delivers_of_calmEvents : Run.Always (step wrappingSender oneStream)
      (fun s => ∀ sid, ∃ os ns, Delivers wrappingSender s sid os ns) {} calmEvents :=
  delivers_of_eventOk wrappingSender oneStream calmEvents (by decide +kernel)

/-- The first fragment of the unordered message comes first. -/
def firstFragmentEvents : List Event := [.arrive 0 0, .pushUlp]

theorem not_delivers_of_firstFragmentEvents :
    Run.Admissible (step wrappingSender oneStream) (FirstArrivals wrappingSender) {}
        firstFragmentEvents ∧
      ¬ Run.Throughout (step wrappingSender oneStream)
        (fun s => ∀ sid, ∃ os ns, Delivers wrappingSender s sid os ns) {}
        firstFragmentEvents := by
  refine ⟨by decide +kernel, fun h => ?_⟩
  have hpassed : (Run.exec (step wrappingSender oneStream) {} firstFragmentEvents).map
      (fun s => (s.passedOf 0 false).map SCTPDataVariables.ebit) = .ok [false] := by
    decide +kernel
  cases hexec : Run.exec (step wrappingSender oneStream) {} firstFragmentEvents with
  | error e =>
    rw [hexec] at hpassed
    cases hpassed
  | ok t =>
    rw [hexec] at hpassed
    obtain ⟨os, ns, hdelivers⟩ := h.of_exec hexec 0
    have hebit : (t.passedOf 0 false).map SCTPDataVariables.ebit = [false] :=
      Except.ok.inj hpassed
    rw [hdelivers.unordered, List.map_map] at hebit
    have hall : ∀ b ∈ ns.map (SCTPDataVariables.ebit ∘ wrappingSender.whole), b = true := by
      simp [Sender.whole]
    rw [hebit] at hall
    cases hall false (List.mem_singleton_self _)

end Reception

end Inet.Sctp
