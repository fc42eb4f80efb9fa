import Inet.Sctp.SendQueue
import Inet.Library.Run

/-!
# How messages leave the send queues

The chunks that have left are the first ones of a list of messages, each cut into pieces,
one message behind the other. The invariant names the message of which only some pieces
have left: the other pieces are at the front of its queue, and no other queue begins in
the middle of a message.

Three things can come between the pieces. An unordered message is taken before the rest
of an ordered one that waits on the same stream. A scheduler that does not record its
choice in `lastStreamScheduled` lets the next chunk come from another stream. And a
fragment can be fragmented again when its padding exceeds `fragPoint`.
-/

namespace Inet.Sctp

open List hiding isEmpty_iff

/-- A message and the pieces it is sent in. -/
structure Cut where
  msg : SCTPDataMsg
  parts : List Bytes

/-- The pieces are those of the message's data. -/
structure Cut.Partitions (cut : Cut) : Prop where
  nonempty : cut.parts ≠ []
  flatten : cut.parts.flatten = cut.msg.data

/-- The chunks of a message for the pieces of its data. -/
def chunksOf (msg : SCTPDataMsg) (ssn : ℕ) : Bool → List Bytes → List Fragment
  | _, [] => []
  | first, d :: ds =>
    { msgNum := msg.msgNum, sid := msg.sid, ordered := msg.ordered, ssn
      bbit := first, ebit := ds.isEmpty, data := d } :: chunksOf msg ssn false ds

/-- The messages of one of the two queues of a stream. -/
def ofQueue (sid : ℕ) (ordered : Bool) (msgs : List SCTPDataMsg) : List SCTPDataMsg :=
  msgs.filter fun msg => msg.sid = sid && msg.ordered == ordered

/-- The SSN of a message behind others: the number of ordered messages of its stream
among them. -/
def ssnBehind (msgs : List SCTPDataMsg) (msg : SCTPDataMsg) : ℕ :=
  if msg.ordered then (ofQueue msg.sid true msgs).length % 65536 else 0

/-- The chunks of messages that are sent one behind the other. -/
def chunksBehind (msgs : List SCTPDataMsg) : List Cut → List Fragment
  | [] => []
  | cut :: cuts =>
    chunksOf cut.msg (ssnBehind msgs cut.msg) true cut.parts ++
      chunksBehind (msgs ++ [cut.msg]) cuts

/-- The chunks that have left are the first ones of messages that are sent one behind the
other, and each queue is sent in the order of `accepted`. -/
structure SendState.WellSent (initialTsn : Uint32) (s : SendState) (cuts : List Cut) : Prop where
  chunks : s.sent.map SentData.toFragment <+: chunksBehind [] cuts
  tsns : s.sent.map SentData.tsn =
    (List.range s.sent.length).map fun i => initialTsn + BitVec.ofNat 32 i
  partitions : ∀ cut ∈ cuts, cut.Partitions
  accepted : ∀ sid ordered,
    ofQueue sid ordered (cuts.map Cut.msg) <+: ofQueue sid ordered s.accepted

/-- A first fragment is followed by a chunk without the B bit. -/
theorem SendState.WellSent.second {initialTsn : Uint32} {s : SendState} {cuts : List Cut}
    (h : s.WellSent initialTsn cuts) {f g : Fragment} {rest : List Fragment}
    (hsent : s.sent.map SentData.toFragment = f :: g :: rest) (hf : f.ebit = false) :
    g.bbit = false := by
  have hchunks := h.chunks
  rw [hsent] at hchunks
  cases cuts with
  | nil => cases prefix_nil.mp hchunks
  | cons cut cuts =>
    have hcut := h.partitions cut mem_cons_self
    obtain ⟨d, ds, hparts⟩ := exists_cons_of_ne_nil hcut.nonempty
    rw [chunksBehind, hparts, chunksOf, cons_append, cons_prefix_cons] at hchunks
    obtain ⟨rfl, hchunks⟩ := hchunks
    cases ds with
    | nil => cases hf
    | cons d' ds =>
      rw [chunksOf, cons_append, cons_prefix_cons] at hchunks
      rw [hchunks.1]

/-- A fragment that is not the last one of its message. -/
def SCTPDataMsg.unfinished (msg : SCTPDataMsg) : Bool := msg.fragment && !msg.eBit

/-- The queue of ordered or of unordered messages. -/
def SCTPSendStream.queue (stream : SCTPSendStream) (ordered : Bool) : List SCTPDataMsg :=
  if ordered then stream.streamQ else stream.unorderedStreamQ

/-- Whether the next message of the stream is taken from its ordered queue. -/
def SCTPSendStream.nextOrdered (stream : SCTPSendStream) : Bool := stream.unorderedStreamQ.isEmpty

theorem SCTPSendStream.nextQueue_eq (stream : SCTPSendStream) :
    stream.nextQueue = stream.queue stream.nextOrdered := by
  unfold nextQueue queue nextOrdered
  cases stream.unorderedStreamQ <;> simp

theorem SCTPSendStream.queue_setNextQueue (stream : SCTPSendStream) (q : List SCTPDataMsg)
    (ordered : Bool) :
    (stream.setNextQueue q).queue ordered =
      if ordered = stream.nextOrdered then q else stream.queue ordered := by
  unfold setNextQueue queue nextOrdered
  cases stream.unorderedStreamQ <;> cases ordered <;> simp

@[simp] theorem SCTPSendStream.nextStreamSeqNum_setNextQueue (stream : SCTPSendStream)
    (q : List SCTPDataMsg) :
    (stream.setNextQueue q).nextStreamSeqNum = stream.nextStreamSeqNum := by
  unfold setNextQueue
  split_ifs <;> rfl

theorem SCTPSendStream.queue_insert (stream : SCTPSendStream) (msg : SCTPDataMsg) (ordered : Bool) :
    (stream.insert msg).queue ordered =
      stream.queue ordered ++ if ordered = msg.ordered then [msg] else [] := by
  unfold insert queue
  cases ordered <;> cases msg.ordered <;> simp

open SCTPSendStream (queue_insert queue_setNextQueue nextQueue_eq setNextQueue nextQueue
  nextOrdered)

@[simp] theorem SCTPSendStream.nextStreamSeqNum_insert (stream : SCTPSendStream)
    (msg : SCTPDataMsg) : (stream.insert msg).nextStreamSeqNum = stream.nextStreamSeqNum := by
  unfold insert
  split_ifs <;> rfl

namespace SendQueue

variable {params : SendParameters}

/-- Nothing comes between the pieces of a message at a send opportunity. -/
structure Undisturbed (params : SendParameters) (s : SendState) (choice : Choice) : Prop where
  /-- No unordered message waits where the rest of an ordered message does. -/
  noUnordered : s.lastMsgWasFragment → (s.sendStreams s.lastStreamScheduled).streamQ.head?.any
      (fun msg => msg.fragment && !msg.bBit) →
    (s.sendStreams s.lastStreamScheduled).unorderedStreamQ = []
  /-- The scheduler records its choice when a message will be sent in pieces. -/
  recorded : ¬ s.lastMsgWasFragment → ∀ sid ∈ choice.sid,
    (fragmentFront params (s.sendStreams sid).nextQueue).head?.any SCTPDataMsg.unfinished →
    choice.lastStreamScheduled = sid
  /-- No fragment will be fragmented again, except one that is all of its message. -/
  fitting : ∀ sid < params.outboundStreams, ∀ msg ∈ (s.sendStreams sid).nextQueue.head?,
    msg.fragment → mustBeFragmented params msg → msg.bBit ∧ msg.eBit

instance (s : SendState) (choice : Choice) : Decidable (Undisturbed params s choice) :=
  decidable_of_iff (_ ∧ _ ∧ _)
    ⟨fun ⟨h₁, h₂, h₃⟩ => ⟨h₁, h₂, h₃⟩, fun ⟨h₁, h₂, h₃⟩ => ⟨h₁, h₂, h₃⟩⟩

def EventOk (params : SendParameters) (s : SendState) : Event → Prop
  | .send .. => True
  | .sendOpportunity _ _ choice => Undisturbed params s choice

instance (s : SendState) : ∀ event, Decidable (EventOk params s event)
  | .send .. => .isTrue trivial
  | .sendOpportunity _ _ choice => inferInstanceAs (Decidable (Undisturbed params s choice))

theorem split_ne_nil (size fuel : ℕ) (data : Bytes) : split size fuel data ≠ [] := by
  cases fuel with
  | zero => exact cons_ne_nil _ _
  | succ fuel =>
    rw [split]
    split_ifs <;> exact cons_ne_nil _ _

theorem split_flatten (size fuel : ℕ) (data : Bytes) : (split size fuel data).flatten = data := by
  induction fuel generalizing data with
  | zero => simp [split]
  | succ fuel ih =>
    rw [split]
    split_ifs with hlength
    · simp
    · rw [flatten_cons, ih, take_append_drop]

theorem split_partitions (size fuel : ℕ) (msg : SCTPDataMsg) :
    (Cut.mk msg (split size fuel msg.data)).Partitions :=
  ⟨split_ne_nil _ _ _, split_flatten _ _ _⟩

theorem fragmentsOf_ne_nil {msg : SCTPDataMsg} {first : Bool} {parts : List Bytes}
    (h : parts ≠ []) : fragmentsOf params msg first parts ≠ [] := by
  obtain ⟨d, ds, rfl⟩ := exists_cons_of_ne_nil h
  exact cons_ne_nil _ _

/-- What a fragment of the message overwrites does not matter to its fragments. -/
theorem fragmentsOf_overwrite (msg : SCTPDataMsg) (fragment bBit eBit : Bool) (booksize : ℕ)
    (data : Bytes) (first : Bool) (parts : List Bytes) :
    fragmentsOf params { msg with fragment, bBit, eBit, booksize, data } first parts =
      fragmentsOf params msg first parts := by
  induction parts generalizing first with
  | nil => rfl
  | cons d ds ih => rw [fragmentsOf, fragmentsOf, ih]

theorem fragmentFront_eq_nil {q : List SCTPDataMsg} : fragmentFront params q = [] ↔ q = [] := by
  cases q with
  | nil => simp [fragmentFront]
  | cons msg q =>
    rw [fragmentFront]
    split_ifs <;> simp [fragmentsOf_ne_nil (split_ne_nil _ _ _)]

/-- A queue of messages, some of which are cut into fragments. -/
inductive Holds (params : SendParameters) : List SCTPDataMsg → List SCTPDataMsg → Prop
  | nil : Holds params [] []
  | whole {msg : SCTPDataMsg} {q msgs : List SCTPDataMsg} :
    msg.fragment = false → Holds params q msgs → Holds params (msg :: q) (msg :: msgs)
  | cut {cut : Cut} {q msgs : List SCTPDataMsg} :
    cut.Partitions → Holds params q msgs →
      Holds params (fragmentsOf params cut.msg true cut.parts ++ q) (cut.msg :: msgs)

theorem Holds.concat {q msgs : List SCTPDataMsg} (h : Holds params q msgs) {msg : SCTPDataMsg}
    (hmsg : msg.fragment = false) : Holds params (q ++ [msg]) (msgs ++ [msg]) := by
  induction h with
  | nil => exact .whole hmsg .nil
  | whole hwhole _ ih => exact .whole hwhole ih
  | cut hcut _ ih =>
    rw [append_assoc]
    exact .cut hcut ih

/-- The front of a queue may be fragmented, if a fragment is only fragmented again when it is
all of its message. -/
theorem Holds.fragmentFront {q msgs : List SCTPDataMsg} (h : Holds params q msgs)
    (fitting : ∀ msg ∈ q.head?, msg.fragment → mustBeFragmented params msg → msg.bBit ∧ msg.eBit) :
    Holds params (SendQueue.fragmentFront params q) msgs := by
  cases h with
  | nil => exact .nil
  | whole hwhole hq =>
    rw [SendQueue.fragmentFront]
    split_ifs
    · exact .cut (split_partitions ..) hq
    · exact .whole hwhole hq
  | @cut cut q _ hcut hq =>
    obtain ⟨msg, parts⟩ := cut
    obtain ⟨d, ds, rfl⟩ := exists_cons_of_ne_nil hcut.nonempty
    rw [fragmentsOf, cons_append, SendQueue.fragmentFront]
    split_ifs with hmust
    · obtain ⟨-, hlast⟩ := fitting _ rfl rfl hmust
      obtain rfl := List.isEmpty_iff.mp hlast
      have hdata : d = msg.data := by simpa using hcut.flatten
      subst hdata
      rw [fragmentsOf_overwrite]
      exact .cut (split_partitions params.fragPoint msg.data.length msg) hq
    · exact .cut hcut hq

/-- The rest of a message that has begun to leave is not touched. -/
theorem fragmentFront_rest {msg : SCTPDataMsg} {rest : List Bytes} {q : List SCTPDataMsg}
    (hrest : rest ≠ [])
    (fitting : ∀ m ∈ (fragmentsOf params msg false rest ++ q).head?,
      m.fragment → mustBeFragmented params m → m.bBit ∧ m.eBit) :
    fragmentFront params (fragmentsOf params msg false rest ++ q) =
      fragmentsOf params msg false rest ++ q := by
  obtain ⟨d, ds, rfl⟩ := exists_cons_of_ne_nil hrest
  rw [fragmentsOf, cons_append, fragmentFront, if_neg]
  intro hmust
  obtain ⟨hfirst, -⟩ := fitting _ rfl rfl hmust
  cases hfirst

section

theorem chunksBehind_concat (msgs : List SCTPDataMsg) (cuts : List Cut) (cut : Cut) :
    chunksBehind msgs (cuts ++ [cut]) = chunksBehind msgs cuts ++
      chunksOf cut.msg (ssnBehind (msgs ++ cuts.map Cut.msg) cut.msg) true cut.parts := by
  induction cuts generalizing msgs with
  | nil => simp [chunksBehind]
  | cons c cuts ih => simp [chunksBehind, ih]

theorem ofQueue_append (sid : ℕ) (ordered : Bool) (msgs msgs' : List SCTPDataMsg) :
    ofQueue sid ordered (msgs ++ msgs') = ofQueue sid ordered msgs ++ ofQueue sid ordered msgs' :=
  filter_append ..

theorem ofQueue_self (msg : SCTPDataMsg) : ofQueue msg.sid msg.ordered [msg] = [msg] := by
  simp [ofQueue]

theorem ofQueue_other {sid : ℕ} {ordered : Bool} {msg : SCTPDataMsg}
    (h : ¬ (sid = msg.sid ∧ ordered = msg.ordered)) : ofQueue sid ordered [msg] = [] := by
  simp only [ofQueue, filter_cons, filter_nil, Bool.and_eq_true, decide_eq_true_eq, beq_iff_eq]
  rw [if_neg fun hmsg => h ⟨hmsg.1.symm, hmsg.2.symm⟩]

/-- A message of which some pieces have left, and the other pieces. -/
structure Current extends Cut where
  rest : List Bytes

/-- The messages of which a piece has left. -/
def cutsOf (finished : List Cut) : Option Current → List Cut
  | none => finished
  | some current => finished ++ [current.toCut]

/-- The chunks that have to leave before another message may begin. -/
def dueChunks (finished : List Cut) : Option Current → List Fragment
  | none => []
  | some current =>
    chunksOf current.msg (ssnBehind (finished.map Cut.msg) current.msg) false current.rest

/-- The fragments at the front of a queue that are left of the current message. -/
def dueFragments (params : SendParameters) (sid : ℕ) (ordered : Bool) :
    Option Current → List SCTPDataMsg
  | none => []
  | some current =>
    if sid = current.msg.sid ∧ ordered = current.msg.ordered then
      fragmentsOf params current.msg false current.rest
    else []

/-- The queue holds the messages that have been accepted for it behind those of `cuts`. -/
def Waits (params : SendParameters) (s : SendState) (cuts : List Cut) (sid : ℕ) (ordered : Bool)
    (q : List SCTPDataMsg) : Prop :=
  ∃ msgs, Holds params q msgs ∧
    ofQueue sid ordered s.accepted = ofQueue sid ordered (cuts.map Cut.msg) ++ msgs

/-- The numbers of the chunks and of the finished messages. -/
structure Counted (initialTsn : Uint32) (s : SendState) (finished : List Cut) : Prop where
  tsns : s.sent.map SentData.tsn =
    (List.range s.sent.length).map fun i => initialTsn + BitVec.ofNat 32 i
  nextTSN : s.nextTSN = initialTsn + BitVec.ofNat 32 s.sent.length
  nextSSN : ∀ sid, (s.sendStreams sid).nextStreamSeqNum =
    (ofQueue sid true (finished.map Cut.msg)).length % 65536
  partitions : ∀ cut ∈ finished, cut.Partitions
  whole : ∀ msg ∈ s.accepted, msg.fragment = false

structure Inv (params : SendParameters) (initialTsn : Uint32) (s : SendState)
    (finished : List Cut) (current : Option Current) : Prop
    extends Counted initialTsn s finished where
  chunks : s.sent.map SentData.toFragment ++ dueChunks finished current =
    chunksBehind [] (cutsOf finished current)
  queues : ∀ sid ordered, ∃ q,
    (s.sendStreams sid).queue ordered = dueFragments params sid ordered current ++ q ∧
      Waits params s (cutsOf finished current) sid ordered q
  current_partitions : ∀ c ∈ current, c.toCut.Partitions ∧ c.rest ≠ []
  lastMsgWasFragment : s.lastMsgWasFragment = current.isSome
  lastStreamScheduled : ∀ c ∈ current, s.lastStreamScheduled = c.msg.sid

variable {initialTsn : Uint32} {s : SendState} {finished : List Cut} {current : Option Current}

section

variable (h : Inv params initialTsn s finished current)

include h

theorem Inv.wellSent :
    s.WellSent initialTsn (cutsOf finished current) where
  chunks := h.chunks ▸ prefix_append ..
  tsns := h.tsns
  partitions := by
    intro cut hcut
    cases current with
    | none => exact h.partitions cut hcut
    | some c =>
      obtain hcut | hcut := mem_append.mp hcut
      · exact h.partitions cut hcut
      · obtain rfl := mem_singleton.mp hcut
        exact (h.current_partitions c rfl).1
  accepted := by
    intro sid ordered
    obtain ⟨_, _, _, _, haccepted⟩ := h.queues sid ordered
    exact haccepted ▸ prefix_append ..

/-- A new message waits at the end of its queue. -/
theorem Inv.processSend {sid : ℕ} {ordered : Bool}
    {data : Bytes} {t : SendState}
    (ht : SendQueue.processSend params s sid ordered data = .ok t) :
    Inv params initialTsn t finished current := by
  rw [SendQueue.processSend] at ht
  split_ifs at ht
  cases ht
  set msg : SCTPDataMsg :=
    { msgNum := s.msgNum + 1, sid, ordered, booksize := booksizeOf params data.length, data }
  refine { h with nextSSN := ?_, whole := ?_, queues := ?_ }
  · intro sid'
    rw [← h.nextSSN sid']
    by_cases hsid : sid' = sid
    · subst hsid
      simp
    · simp [Function.update_of_ne hsid]
  · intro m hm
    obtain hm | hm := mem_append.mp hm
    · exact h.whole m hm
    · obtain rfl := mem_singleton.mp hm
      rfl
  · intro sid' ordered'
    obtain ⟨q, hq, msgs, hholds, haccepted⟩ := h.queues sid' ordered'
    by_cases hclass : sid' = sid ∧ ordered' = ordered
    · obtain ⟨rfl, rfl⟩ := hclass
      refine ⟨q ++ [msg], ?_, msgs ++ [msg], hholds.concat rfl, ?_⟩
      · simp [queue_insert, hq, msg]
      · rw [ofQueue_append, haccepted, ofQueue_self msg, append_assoc]
    · refine ⟨q, ?_, msgs, hholds, ?_⟩
      · rw [← hq]
        by_cases hsid : sid' = sid
        · subst hsid
          have hordered : ordered' ≠ ordered := fun heq => hclass ⟨rfl, heq⟩
          simp [queue_insert, hordered, msg]
        · simp [Function.update_of_ne hsid]
      · have hother : ofQueue sid' ordered' [msg] = [] := ofQueue_other hclass
        rw [ofQueue_append, haccepted, hother, append_nil]

/-- A send opportunity may fragment the fronts of the queues. -/
theorem Inv.fragmentOutboundDataMsgs
    {t : SendState} (ht : SendQueue.fragmentOutboundDataMsgs params s = .ok t)
    (fitting : ∀ sid < params.outboundStreams, ∀ msg ∈ (s.sendStreams sid).nextQueue.head?,
      msg.fragment → mustBeFragmented params msg → msg.bBit ∧ msg.eBit) :
    Inv params initialTsn t finished current := by
  rw [SendQueue.fragmentOutboundDataMsgs] at ht
  split_ifs at ht
  cases ht
  refine { h with nextSSN := ?_, queues := ?_ }
  · intro sid
    rw [← h.nextSSN sid]
    dsimp only
    split_ifs
    · exact SCTPSendStream.nextStreamSeqNum_setNextQueue ..
    · rfl
  · intro sid ordered
    obtain ⟨q, hq, msgs, hholds, haccepted⟩ := h.queues sid ordered
    dsimp only
    split_ifs with hsid
    · rw [fragmentStream, queue_setNextQueue]
      split_ifs with hnext
      · have hfit := fitting sid hsid
        rw [nextQueue_eq, ← hnext, hq] at hfit ⊢
        by_cases hdue : dueFragments params sid ordered current = []
        · rw [hdue, nil_append] at hfit ⊢
          exact ⟨_, rfl, msgs, hholds.fragmentFront hfit, haccepted⟩
        · refine ⟨q, ?_, msgs, hholds, haccepted⟩
          cases current with
          | none => exact absurd rfl hdue
          | some c =>
            rw [dueFragments] at hfit hdue ⊢
            split_ifs at hfit hdue ⊢
            · exact fragmentFront_rest (h.current_partitions c rfl).2 hfit
            · exact absurd rfl hdue
      · exact ⟨q, hq, msgs, hholds, haccepted⟩
    · exact ⟨q, hq, msgs, hholds, haccepted⟩

end

/-- What is sent of a message for the first of the pieces `d :: ds`. -/
structure IsPiece (out msg : SCTPDataMsg) (first : Bool) (d : Bytes) (ds : List Bytes) :
    Prop where
  msgNum : out.msgNum = msg.msgNum
  sid : out.sid = msg.sid
  ordered : out.ordered = msg.ordered
  bBit : out.bBit = first
  eBit : out.eBit = ds.isEmpty
  data : out.data = d

/-- The front of a queue is a message, or the first fragment of one. -/
theorem Holds.front {p : SCTPDataMsg} {q msgs : List SCTPDataMsg} (h : Holds params (p :: q) msgs) :
    ∃ (cut : Cut) (d : Bytes) (ds : List Bytes) (rest others : List SCTPDataMsg),
      cut.Partitions ∧ cut.parts = d :: ds ∧ msgs = cut.msg :: others ∧
      q = fragmentsOf params cut.msg false ds ++ rest ∧ Holds params rest others ∧
      IsPiece (withBits p) cut.msg true d ds ∧ p.unfinished = !ds.isEmpty := by
  generalize hfront : p :: q = front at h
  cases h with
  | nil => cases hfront
  | @whole _ _ others hwhole hq =>
    cases hfront
    refine ⟨⟨p, [p.data]⟩, p.data, [], q, others, ⟨cons_ne_nil _ _, by simp⟩, rfl, rfl, rfl,
      hq, ?_, ?_⟩
    · constructor <;> simp [withBits, hwhole]
    · simp [SCTPDataMsg.unfinished, hwhole]
  | @cut cut rest others hcut hq =>
    obtain ⟨d, ds, hparts⟩ := exists_cons_of_ne_nil hcut.nonempty
    rw [hparts, fragmentsOf, cons_append] at hfront
    cases hfront
    refine ⟨cut, d, ds, rest, others, hcut, hparts, rfl, rfl, hq, ?_, ?_⟩
    · constructor <;> simp [withBits]
    · simp [SCTPDataMsg.unfinished]

/-- The piece `d` is the next one to leave, and `q` is what is behind it in its queue. -/
structure Front (params : SendParameters) (s : SendState) (finished : List Cut)
    (cut : Cut) (first : Bool) (d : Bytes) (ds : List Bytes) (q : List SCTPDataMsg) : Prop where
  chunks : s.sent.map SentData.toFragment ++
      chunksOf cut.msg (ssnBehind (finished.map Cut.msg) cut.msg) first (d :: ds) =
    chunksBehind [] (finished ++ [cut])
  partitions : cut.Partitions
  nextOrdered : (s.sendStreams cut.msg.sid).nextOrdered = cut.msg.ordered
  rest : ∃ q', q = fragmentsOf params cut.msg false ds ++ q' ∧
    Waits params s (finished ++ [cut]) cut.msg.sid cut.msg.ordered q'
  others : ∀ sid ordered, ¬ (sid = cut.msg.sid ∧ ordered = cut.msg.ordered) →
    Waits params s finished sid ordered ((s.sendStreams sid).queue ordered)
  scheduled : ds ≠ [] → s.lastStreamScheduled = cut.msg.sid

/-- If a message has begun to leave, its next piece is at the front of the queue that is
looked at. -/
theorem Inv.front_of_current {c : Current} (h : Inv params initialTsn s finished (some c))
    (hordered : (s.sendStreams c.msg.sid).nextOrdered = c.msg.ordered) {p : SCTPDataMsg}
    {q : List SCTPDataMsg} (hq : (s.sendStreams c.msg.sid).nextQueue = p :: q) :
    ∃ d ds, Front params s finished c.toCut false d ds q ∧
      IsPiece (withBits p) c.msg false d ds ∧ p.unfinished = !ds.isEmpty := by
  obtain ⟨hcut, hrest⟩ := h.current_partitions c rfl
  obtain ⟨d, ds, hd⟩ := exists_cons_of_ne_nil hrest
  obtain ⟨q', hqueue, hwaits⟩ := h.queues c.msg.sid c.msg.ordered
  rw [← hordered, ← nextQueue_eq, hq, hordered, dueFragments, if_pos ⟨rfl, rfl⟩,
    hd, fragmentsOf, cons_append] at hqueue
  cases hqueue
  refine ⟨d, ds, ?_, ?_, ?_⟩
  · refine ⟨hd ▸ h.chunks, hcut, hordered, ⟨q', rfl, hwaits⟩, ?_,
      fun _ => h.lastStreamScheduled c rfl⟩
    intro sid ordered hother
    obtain ⟨q, hqueue, msgs, hholds, haccepted⟩ := h.queues sid ordered
    rw [dueFragments, if_neg hother, nil_append] at hqueue
    rw [cutsOf, map_append, ofQueue_append, map_singleton, ofQueue_other hother,
      append_nil] at haccepted
    exact ⟨msgs, hqueue ▸ hholds, haccepted⟩
  · constructor <;> simp [withBits]
  · simp [SCTPDataMsg.unfinished]

/-- If no message has begun to leave, the front of any queue is a message or its first
fragment. -/
theorem Inv.front_of_none (h : Inv params initialTsn s finished none) {sid : ℕ}
    {p : SCTPDataMsg} {q : List SCTPDataMsg} (hq : (s.sendStreams sid).nextQueue = p :: q)
    (scheduled : p.unfinished → s.lastStreamScheduled = sid) :
    ∃ cut d ds, cut.msg.sid = sid ∧ Front params s finished cut true d ds q ∧
      IsPiece (withBits p) cut.msg true d ds ∧ p.unfinished = !ds.isEmpty := by
  have hwaits : ∀ sid ordered,
      Waits params s finished sid ordered ((s.sendStreams sid).queue ordered) := by
    intro sid ordered
    obtain ⟨_, hqueue, hwaits⟩ := h.queues sid ordered
    exact hqueue ▸ hwaits
  obtain ⟨msgs, hholds, haccepted⟩ := hwaits sid (s.sendStreams sid).nextOrdered
  rw [← nextQueue_eq, hq] at hholds
  obtain ⟨cut, d, ds, rest, others, hcut, hparts, rfl, rfl, hrest, hpiece, hunfinished⟩ :=
    hholds.front
  have hmem : cut.msg ∈ ofQueue sid (s.sendStreams sid).nextOrdered s.accepted := by
    rw [haccepted]
    exact mem_append_right _ mem_cons_self
  have hclass := (mem_filter.mp hmem).2
  simp only [Bool.and_eq_true, decide_eq_true_eq, beq_iff_eq] at hclass
  obtain ⟨rfl, hordered⟩ := hclass
  refine ⟨cut, d, ds, rfl, ?_, hpiece, hunfinished⟩
  refine ⟨?_, hcut, hordered.symm, ⟨rest, rfl, others, hrest, ?_⟩,
    fun sid ordered _ => hwaits sid ordered, ?_⟩
  · have hchunks := h.chunks
    rw [dueChunks, append_nil, cutsOf] at hchunks
    rw [chunksBehind_concat, nil_append, hparts, hchunks]
  · rw [hordered, haccepted, map_append, ofQueue_append, append_assoc, ← hordered,
      map_singleton, ofQueue_self, singleton_append]
  · intro hne
    exact scheduled (by simp [hunfinished, hne])

theorem queue_makeDataVarFromDataMsg (stream : SCTPSendStream) (msg : SCTPDataMsg)
    (ordered : Bool) :
    (makeDataVarFromDataMsg stream msg).1.queue ordered = stream.queue ordered := by
  rw [makeDataVarFromDataMsg]
  cases msg.ordered <;> rfl

theorem nextStreamSeqNum_makeDataVarFromDataMsg {stream : SCTPSendStream} {msg : SCTPDataMsg}
    {n : ℕ} (h : stream.nextStreamSeqNum = n % 65536) :
    (makeDataVarFromDataMsg stream msg).1.nextStreamSeqNum =
      if msg.ordered ∧ msg.eBit then (n + 1) % 65536 else n % 65536 := by
  rw [makeDataVarFromDataMsg]
  cases msg.ordered with
  | false => simp [h]
  | true =>
    cases msg.eBit with
    | false =>
      simp only [if_true, h]
      split_ifs <;> grind
    | true =>
      simp only [if_true, h]
      split_ifs <;> grind

theorem makeDataVarFromDataMsg_chunk {stream : SCTPSendStream} {out msg : SCTPDataMsg}
    {first : Bool} {d : Bytes} {ds : List Bytes} (hpiece : IsPiece out msg first d ds) {ssn : ℕ}
    (hssn : ssn = if msg.ordered then stream.nextStreamSeqNum else 0) :
    (makeDataVarFromDataMsg stream out).2 :: chunksOf msg ssn false ds =
      chunksOf msg ssn first (d :: ds) := by
  obtain ⟨hmsgNum, hsid, hordered, hbBit, heBit, hdata⟩ := hpiece
  rw [makeDataVarFromDataMsg, chunksOf, hmsgNum, hsid, hordered, hbBit, heBit, hdata, hssn]
  cases msg.ordered <;> rfl

/-- The state in which `out` has been taken from its queue. -/
def popped (s : SendState) (sid : ℕ) (q : List SCTPDataMsg) (unfinished : Bool) : SendState :=
  { s with
    sendStreams := Function.update s.sendStreams sid ((s.sendStreams sid).setNextQueue q)
    lastMsgWasFragment := unfinished }

/-- The state in which `out` has been sent. -/
def sentData (s : SendState) (out : SCTPDataMsg) : SendState :=
  let made := makeDataVarFromDataMsg (s.sendStreams out.sid) out
  { s with
    sendStreams := Function.update s.sendStreams out.sid made.1
    nextTSN := s.nextTSN + 1
    sent := s.sent ++ [{ made.2 with tsn := s.nextTSN }] }

variable {cut : Cut} {first : Bool} {d : Bytes} {ds : List Bytes} {q : List SCTPDataMsg}
  {out : SCTPDataMsg}

theorem queue_sentData_popped (h : Front params s finished cut first d ds q)
    (hout : out.sid = cut.msg.sid) (unfinished : Bool) (sid : ℕ) (ordered : Bool) :
    ((sentData (popped s cut.msg.sid q unfinished) out).sendStreams sid).queue ordered =
      if sid = cut.msg.sid ∧ ordered = cut.msg.ordered then q
      else (s.sendStreams sid).queue ordered := by
  simp only [sentData, popped, hout, Function.update_self]
  by_cases hsid : sid = cut.msg.sid
  · subst hsid
    simp only [Function.update_self, queue_makeDataVarFromDataMsg,
      queue_setNextQueue, h.nextOrdered, true_and]
  · simp only [Function.update_of_ne hsid, hsid, false_and, if_false]

section

variable (h : Front params s finished cut first d ds q) (hcount : Counted initialTsn s finished)
  (hpiece : IsPiece out cut.msg first d ds)

include h hcount hpiece

theorem Front.counted (unfinished : Bool) :
    Counted initialTsn (sentData (popped s cut.msg.sid q unfinished) out)
      (if ds = [] then finished ++ [cut] else finished) where
  tsns := by
    simp only [sentData, popped, map_append, length_append, map_singleton,
      length_singleton, range_succ, hcount.tsns, hcount.nextTSN]
  nextTSN := by
    simp only [sentData, popped, length_append, length_singleton, hcount.nextTSN,
      BitVec.ofNat_add, BitVec.add_assoc]
    rfl
  nextSSN := by
    intro sid
    have hssn := hcount.nextSSN sid
    by_cases hsid : sid = cut.msg.sid
    · subst hsid
      simp only [sentData, popped, hpiece.sid, Function.update_self]
      rw [nextStreamSeqNum_makeDataVarFromDataMsg
        ((SCTPSendStream.nextStreamSeqNum_setNextQueue ..).trans hssn), hpiece.ordered, hpiece.eBit]
      by_cases hds : ds = []
      · subst hds
        rw [if_pos rfl, map_append, ofQueue_append, map_singleton]
        cases hordered : cut.msg.ordered with
        | true => simp [← hordered, ofQueue_self]
        | false => simp [ofQueue_other, hordered]
      · simp [hds]
    · simp only [sentData, popped, hpiece.sid, Function.update_of_ne hsid, hssn]
      split_ifs
      · rw [map_append, ofQueue_append, map_singleton,
          ofQueue_other fun hclass => hsid hclass.1, append_nil]
      · rfl
  partitions := by
    intro c hc
    split_ifs at hc
    · obtain hc | hc := mem_append.mp hc
      · exact hcount.partitions c hc
      · rw [mem_singleton.mp hc]
        exact h.partitions
    · exact hcount.partitions c hc
  whole := hcount.whole

/-- The next piece of a message leaves. -/
theorem Front.inv : ∃ finished' current', Inv params initialTsn
      (sentData (popped s cut.msg.sid q !ds.isEmpty) out) finished' current' := by
  have hchunk : (sentData (popped s cut.msg.sid q !ds.isEmpty) out).sent.map
      SentData.toFragment ++ chunksOf cut.msg (ssnBehind (finished.map Cut.msg) cut.msg) false ds =
      chunksBehind [] (finished ++ [cut]) := by
    rw [← h.chunks, ← @makeDataVarFromDataMsg_chunk
      ((popped s cut.msg.sid q !ds.isEmpty).sendStreams out.sid) _ _ _ _ _ hpiece]
    · simp [sentData, popped]
    · rw [hpiece.sid, ssnBehind, ← hcount.nextSSN]
      simp [popped]
  have hqueue := queue_sentData_popped h hpiece.sid !ds.isEmpty
  obtain ⟨q', rfl, hwaits⟩ := h.rest
  have hcounted := h.counted hcount hpiece !ds.isEmpty
  have hothers : ∀ sid ordered, ¬ (sid = cut.msg.sid ∧ ordered = cut.msg.ordered) →
      Waits params s (finished ++ [cut]) sid ordered ((s.sendStreams sid).queue ordered) := by
    intro sid ordered hother
    obtain ⟨msgs, hholds, haccepted⟩ := h.others sid ordered hother
    refine ⟨msgs, hholds, ?_⟩
    rw [haccepted, map_append, ofQueue_append, map_singleton, ofQueue_other hother, append_nil]
  by_cases hds : ds = []
  · subst hds
    refine ⟨finished ++ [cut], none, { hcounted with
      chunks := by simpa [dueChunks, chunksOf, cutsOf] using hchunk
      queues := fun sid ordered => ?_
      current_partitions := fun c hc => nomatch hc
      lastMsgWasFragment := rfl
      lastStreamScheduled := fun c hc => nomatch hc }⟩
    rw [hqueue sid ordered]
    split_ifs with hclass
    · obtain ⟨rfl, rfl⟩ := hclass
      exact ⟨q', rfl, hwaits⟩
    · exact ⟨_, rfl, hothers sid ordered hclass⟩
  · rw [if_neg hds] at hcounted
    refine ⟨finished, some ⟨cut, ds⟩, { hcounted with
      chunks := hchunk
      queues := fun sid ordered => ?_
      current_partitions := ?_
      lastMsgWasFragment := by simp [sentData, popped, hds]
      lastStreamScheduled := ?_ }⟩
    · rw [hqueue sid ordered, dueFragments]
      split_ifs with hclass
      · obtain ⟨rfl, rfl⟩ := hclass
        exact ⟨q', rfl, hwaits⟩
      · exact ⟨_, rfl, hothers sid ordered hclass⟩
    · rintro c ⟨⟩
      exact ⟨h.partitions, hds⟩
    · rintro c ⟨⟩
      exact h.scheduled hds

end

theorem nextOrdered_fragmentStream (stream : SCTPSendStream) :
    (fragmentStream params stream).nextOrdered = stream.nextOrdered := by
  unfold fragmentStream setNextQueue nextQueue
    nextOrdered
  split_ifs with hempty
  · rw [Bool.eq_iff_iff, List.isEmpty_iff, List.isEmpty_iff, fragmentFront_eq_nil]
  · rfl

theorem nextQueue_fragmentStream (stream : SCTPSendStream) :
    (fragmentStream params stream).nextQueue = fragmentFront params stream.nextQueue := by
  rw [nextQueue_eq, nextOrdered_fragmentStream, fragmentStream, queue_setNextQueue, if_pos rfl]

/-- The queue of the current message is the one that is looked at. -/
theorem Inv.nextOrdered_of_current {c : Current} (h : Inv params initialTsn s finished (some c))
    {choice : Choice} (hok : Undisturbed params s choice) :
    (s.sendStreams c.msg.sid).nextOrdered = c.msg.ordered := by
  obtain ⟨q, hqueue, -⟩ := h.queues c.msg.sid c.msg.ordered
  obtain ⟨d, ds, hd⟩ := exists_cons_of_ne_nil (h.current_partitions c rfl).2
  rw [dueFragments, if_pos ⟨rfl, rfl⟩, hd, fragmentsOf, cons_append] at hqueue
  unfold nextOrdered
  cases hordered : c.msg.ordered with
  | false =>
    rw [hordered] at hqueue
    rw [show (s.sendStreams c.msg.sid).unorderedStreamQ = _ from hqueue]
    rfl
  | true =>
    rw [hordered] at hqueue
    have hempty := hok.noUnordered h.lastMsgWasFragment
    rw [h.lastStreamScheduled c rfl] at hempty
    rw [hempty (by rw [show (s.sendStreams c.msg.sid).streamQ = _ from hqueue]; rfl)]
    rfl

theorem popMessage_eq (s : SendState) (sid : ℕ) (availableSpace availableCwnd : ℤ) :
    popMessage s sid availableSpace availableCwnd = (s, none) ∨
      ∃ p q, (s.sendStreams sid).nextQueue = p :: q ∧
        popMessage s sid availableSpace availableCwnd =
          (popped s sid q p.unfinished, some (withBits p)) := by
  rw [popMessage]
  cases hq : (s.sendStreams sid).nextQueue with
  | nil => exact .inl rfl
  | cons p q =>
    dsimp only
    split_ifs
    · exact .inr ⟨p, q, rfl, rfl⟩
    · exact .inl rfl

theorem Inv.nextStream (h : Inv params initialTsn s finished current) (choice : Choice) :
    Inv params initialTsn (SendQueue.nextStream s choice).2 finished current := by
  rw [SendQueue.nextStream]
  split_ifs with hfragment
  · exact h
  · cases current with
    | none => exact { h with lastStreamScheduled := fun c hc => nomatch hc }
    | some c => exact absurd h.lastMsgWasFragment hfragment

theorem dequeueOutboundDataMsg_eq_ok {availableSpace availableCwnd : ℤ} {choice : Choice}
    {r : SendState × Option SCTPDataMsg}
    (h : dequeueOutboundDataMsg params s availableSpace availableCwnd choice = .ok r) :
    ∃ s', fragmentOutboundDataMsgs params s = .ok s' ∧ (r = ((nextStream s' choice).2, none) ∨
        ∃ sid ∈ (nextStream s' choice).1, sid < params.outboundStreams ∧
        r = popMessage (nextStream s' choice).2 sid availableSpace availableCwnd) := by
  obtain ⟨s', hs', h⟩ := bind_eq_ok.mp h
  refine ⟨s', hs', ?_⟩
  generalize nextStream s' choice = next at h ⊢
  obtain ⟨stream, s''⟩ := next
  cases stream with
  | none => exact .inl (Except.ok.inj h).symm
  | some sid =>
    dsimp only at h
    split_ifs at h with hlt
    exact .inr ⟨sid, rfl, hlt, (Except.ok.inj h).symm⟩

theorem sendData_eq_ok {availableSpace availableCwnd : ℤ} {choice : Choice} {t : SendState}
    (h : sendData params s availableSpace availableCwnd choice = .ok t) :
    ∃ s', fragmentOutboundDataMsgs params s = .ok s' ∧
      (t = (nextStream s' choice).2 ∨ ∃ sid ∈ (nextStream s' choice).1,
        sid < params.outboundStreams ∧ ∃ p q,
        ((nextStream s' choice).2.sendStreams sid).nextQueue = p :: q ∧
        t = sentData (popped (nextStream s' choice).2 sid q p.unfinished) (withBits p)) := by
  obtain ⟨⟨u, datMsg⟩, hdequeue, h⟩ := bind_eq_ok.mp h
  obtain ⟨s', hs', hr⟩ := dequeueOutboundDataMsg_eq_ok hdequeue
  refine ⟨s', hs', ?_⟩
  obtain hr | ⟨sid, hsid, hlt, hr⟩ := hr
  · cases hr
    exact .inl (Except.ok.inj h).symm
  · obtain hnone | ⟨p, q, hq, hpop⟩ :=
      popMessage_eq (nextStream s' choice).2 sid availableSpace availableCwnd
    · cases hr.trans hnone
      exact .inl (Except.ok.inj h).symm
    · cases hr.trans hpop
      exact .inr ⟨sid, hsid, hlt, p, q, hq, (Except.ok.inj h).symm⟩

/-- A send opportunity at which nothing comes between the pieces of a message. -/
theorem Inv.sendData (h : Inv params initialTsn s finished current)
    {availableSpace availableCwnd : ℤ} {choice : Choice} (hok : Undisturbed params s choice)
    {t : SendState} (ht : SendQueue.sendData params s availableSpace availableCwnd choice = .ok t) :
    ∃ finished' current', Inv params initialTsn t finished' current' := by
  obtain ⟨s', hs', ht⟩ := sendData_eq_ok ht
  have hinv := h.fragmentOutboundDataMsgs hs' hok.fitting
  have hsched := hinv.nextStream choice
  obtain rfl | ⟨sid, hsid, hlt, p, q, hq, rfl⟩ := ht
  · exact ⟨_, _, hsched⟩
  rw [SendQueue.fragmentOutboundDataMsgs] at hs'
  split_ifs at hs'
  cases hs'
  cases current with
  | some c =>
    have hfragment : s.lastMsgWasFragment = true := h.lastMsgWasFragment
    have hlast := h.lastStreamScheduled c rfl
    simp only [SendQueue.nextStream, hfragment, if_true, Option.mem_some_iff, hlast]
      at hsid hsched hq ⊢
    subst hsid
    have hordered := h.nextOrdered_of_current hok
    obtain ⟨d, ds, hfront, hpiece, hunfinished⟩ := hsched.front_of_current
      (by simp only [hlt, if_true, nextOrdered_fragmentStream, hordered]) hq
    rw [hunfinished]
    exact hfront.inv hsched.toCounted hpiece
  | none =>
    have hfragment : s.lastMsgWasFragment = false := h.lastMsgWasFragment
    simp only [SendQueue.nextStream, hfragment, Bool.false_eq_true, if_false] at hsid hsched hq ⊢
    have hrecorded := hok.recorded (by simp [hfragment]) sid hsid
    have hnext := hq
    rw [if_pos hlt, nextQueue_fragmentStream] at hnext
    rw [hnext] at hrecorded
    obtain ⟨cut, d, ds, rfl, hfront, hpiece, hunfinished⟩ :=
      hsched.front_of_none hq hrecorded
    rw [hunfinished]
    exact hfront.inv hsched.toCounted hpiece

/-- The messages leave one behind the other, each in pieces that partition it, as long as
nothing comes between the pieces. -/
theorem wellSent_of_undisturbed (params : SendParameters) (initialTsn : Uint32)
    (events : List Event)
    (h : Run.Admissible (step params) (EventOk params) { nextTSN := initialTsn } events) :
    Run.Throughout (step params) (fun s => ∃ cuts, s.WellSent initialTsn cuts)
      { nextTSN := initialTsn } events := by
  have hstart : ∃ finished current,
      Inv params initialTsn { nextTSN := initialTsn } finished current := by
    refine ⟨[], none, {
      tsns := rfl
      nextTSN := by simp
      nextSSN := fun _ => rfl
      partitions := fun _ hmem => absurd hmem List.not_mem_nil
      whole := fun _ hmem => absurd hmem List.not_mem_nil
      chunks := rfl
      queues := fun sid ordered => ?_
      current_partitions := fun c hc => nomatch hc
      lastMsgWasFragment := rfl
      lastStreamScheduled := fun c hc => nomatch hc }⟩
    cases ordered <;> exact ⟨[], rfl, [], .nil, rfl⟩
  have hruns := Run.throughout_of_step
    (P := fun s => ∃ finished current, Inv params initialTsn s finished current)
    (fun s event t hs hok ht => ?_) hstart h
  · exact hruns.mono fun s ⟨finished, current, hs⟩ => ⟨_, hs.wellSent⟩
  · obtain ⟨finished, current, hs⟩ := hs
    cases event with
    | send sid ordered data => exact ⟨finished, current, hs.processSend ht⟩
    | sendOpportunity availableSpace availableCwnd choice => exact hs.sendData hok ht

end

/-- Fragments of four bytes, on one stream. -/
def smallFragments : SendParameters :=
  { outboundStreams := 1, fragPoint := 4, header := 16, padding := true }

/-- A message in two pieces, and one behind it, on a stream that is always chosen. -/
def calmEvents : List Event :=
  [.send 0 true [1, 2, 3, 4, 5, 6], .sendOpportunity 1000 1000 ⟨some 0, 0⟩,
    .send 0 true [7], .sendOpportunity 1000 1000 ⟨some 0, 0⟩,
    .sendOpportunity 1000 1000 ⟨some 0, 0⟩]

theorem wellSent_of_calmEvents :
    Run.Throughout (step smallFragments) (fun s => ∃ cuts, s.WellSent 0xffffffff#32 cuts)
      { nextTSN := 0xffffffff#32 } calmEvents :=
  wellSent_of_undisturbed smallFragments 0xffffffff#32 calmEvents (by decide +kernel)

/-- An unordered message is queued when the first of two pieces of an ordered one has left. -/
def interruptingEvents : List Event :=
  [.send 0 true [1, 2, 3, 4, 5, 6], .sendOpportunity 1000 1000 ⟨some 0, 0⟩,
    .send 0 false [7], .sendOpportunity 1000 1000 ⟨some 0, 0⟩]

theorem not_wellSent_of_interruptingEvents :
    ¬ Run.Throughout (step smallFragments) (fun s => ∃ cuts, s.WellSent 1#32 cuts)
      { nextTSN := 1#32 } interruptingEvents := by
  intro h
  have hsent : (Run.exec (step smallFragments) { nextTSN := 1#32 } interruptingEvents).map
      (fun s => s.sent.map SentData.toFragment) = .ok
        [⟨1, 0, true, 0, true, false, [1, 2, 3, 4]⟩, ⟨2, 0, false, 0, true, true, [7]⟩] := by
    decide +kernel
  cases hexec : Run.exec (step smallFragments) { nextTSN := 1#32 } interruptingEvents with
  | error e =>
    rw [hexec] at hsent
    cases hsent
  | ok t =>
    rw [hexec] at hsent
    obtain ⟨cuts, hcuts⟩ := h.of_exec hexec
    cases hcuts.second (Except.ok.inj hsent) rfl

end SendQueue

end Inet.Sctp
