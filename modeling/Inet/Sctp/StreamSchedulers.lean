import Inet.Common.Basic
import Inet.Library.CyclicSearch

/-!
# The stream schedulers

Three of the functions that `ssGetNextSid` may point to: round robin, priority, and first come,
first served. Each one walks round the ring of streams. If `ssNextStream` is not set, two of them
start at stream 0 instead, and end at the stream that was scheduled last.

A stream number below zero is `none`. `lastStreamScheduled` is the number of a stream.
-/

namespace Inet.Sctp

open List

/-- The queues of a stream, as the enqueuing times of their messages. -/
structure OutboundStream where
  unorderedStreamQ : List ℕ := []
  streamQ : List ℕ := []

/-- Whether one of the queues has a message. -/
def OutboundStream.hasData (stream : OutboundStream) : Bool :=
  stream.unorderedStreamQ.length > 0 || stream.streamQ.length > 0

structure OutboundStreams where
  outboundStreams : ℕ
  sendStreams : ℕ → OutboundStream
  ssPriorityMap : ℕ → ℕ := fun _ => 0

/-- What the schedulers keep in the state of the association. -/
structure SchedulerState where
  lastStreamScheduled : ℕ := 0
  ssNextStream : Bool := true
  ssLastDataChunkSizeSet : Bool := false

inductive StreamScheduler where
  | ROUND_ROBIN
  | PRIORITY
  | FCFS
deriving DecidableEq

namespace OutboundStreams

def hasData (streams : OutboundStreams) (sid : ℕ) : Bool := (streams.sendStreams sid).hasData

/-- A loop over the streams from `next` on. -/
def search {α : Type} (streams : OutboundStreams) (state : SchedulerState) (body : α → ℕ → α)
    (again : α → Bool) (next : ℕ) (a : α) : Result α :=
  match CyclicSearch.run streams.outboundStreams state.lastStreamScheduled body again
      streams.outboundStreams next a with
  | some a => .ok a
  | none => .error .outOfFuel

def streamScheduler (streams : OutboundStreams) (state : SchedulerState) (peek : Bool) :
    Result (Option ℕ × SchedulerState) :=
  if (!state.ssLastDataChunkSizeSet || !state.ssNextStream) &&
      streams.hasData state.lastStreamScheduled then
    let state := { state with ssNextStream := true }
    .ok (some state.lastStreamScheduled,
      if peek then state else { state with ssLastDataChunkSizeSet := false })
  else do
    let sid ← streams.search state
      (fun sid testsid => if streams.hasData testsid then some testsid else sid) Option.isNone
      (state.lastStreamScheduled + 1) none
    match sid with
    | none => .ok (none, state)
    | some sid =>
      .ok (some sid, if peek then state
        else { state with lastStreamScheduled := sid, ssLastDataChunkSizeSet := false })

def streamSchedulerPriority (streams : OutboundStreams) (state : SchedulerState) (peek : Bool) :
    Result (Option ℕ × SchedulerState) :=
  if (!state.ssLastDataChunkSizeSet && state.ssNextStream) &&
      streams.hasData state.lastStreamScheduled then
    .ok (some state.lastStreamScheduled, state)
  else do
    let next := if !state.ssNextStream then 0 else state.lastStreamScheduled + 1
    let state := { state with ssNextStream := true }
    let sid ← streams.search state
      (fun sid testsid =>
        if streams.hasData testsid then
          match sid with
          | none => some testsid
          | some sid =>
            if streams.ssPriorityMap testsid < streams.ssPriorityMap sid then some testsid
            else some sid
        else sid)
      (fun _ => true) next none
    match sid with
    | none => .ok (none, state)
    | some sid =>
      .ok (some sid, if peek then state
        else { state with lastStreamScheduled := sid, ssLastDataChunkSizeSet := false })

/-- Whether the front of a queue is the oldest message so far: the stream of the oldest one, and
`oldestEnqueuing`. -/
def considerFront (best : Option ℕ × ℕ) (testsid : ℕ) : List ℕ → Option ℕ × ℕ
  | [] => best
  | testTime :: _ =>
    if best.1 = none ∨ best.2 > testTime then (some testsid, testTime) else best

def streamSchedulerFCFS (streams : OutboundStreams) (state : SchedulerState) (peek : Bool) :
    Result (Option ℕ × SchedulerState) := do
  let next := if !state.ssNextStream then 0 else state.lastStreamScheduled + 1
  let state := { state with ssNextStream := true }
  let (sid, _) ← streams.search state
    (fun best testsid =>
      considerFront
        (considerFront best testsid (streams.sendStreams testsid).unorderedStreamQ) testsid
        (streams.sendStreams testsid).streamQ)
    (fun _ => true) next (none, 0)
  match sid with
  | none => .ok (none, state)
  | some sid => .ok (some sid, if peek then state else { state with lastStreamScheduled := sid })

/-- The stream that is chosen, and the state behind the call. -/
def ssGetNextSid (streams : OutboundStreams) : StreamScheduler → SchedulerState → Bool →
    Result (Option ℕ × SchedulerState)
  | .ROUND_ROBIN => streams.streamScheduler
  | .PRIORITY => streams.streamSchedulerPriority
  | .FCFS => streams.streamSchedulerFCFS

section

variable {streams : OutboundStreams} {state : SchedulerState} {peek : Bool} {sid : ℕ} {α : Type}

/-- The streams up to the one that was scheduled last. -/
def upToLast (state : SchedulerState) : List ℕ := List.range' 0 (state.lastStreamScheduled + 1)

/-- The streams behind it. -/
def behindLast (streams : OutboundStreams) (state : SchedulerState) : List ℕ :=
  List.range' (state.lastStreamScheduled + 1)
    (streams.outboundStreams - (state.lastStreamScheduled + 1))

/-- The streams that a loop walks through: all of them, or those up to the last one. -/
def walk (streams : OutboundStreams) (state : SchedulerState) : List ℕ :=
  if state.ssNextStream then streams.behindLast state ++ upToLast state else upToLast state

/-- The time of the oldest message in front of a queue. -/
def frontTime (streams : OutboundStreams) (sid : ℕ) : ℕ :=
  match (streams.sendStreams sid).unorderedStreamQ, (streams.sendStreams sid).streamQ with
  | [], [] => 0
  | [], time :: _ => time
  | time :: _, [] => time
  | time :: _, time' :: _ => min time time'

theorem search_next {body : α → ℕ → α} {again : α → Bool}
    (h : state.lastStreamScheduled < streams.outboundStreams) (a : α) :
    streams.search state body again (state.lastStreamScheduled + 1) a = .ok
      (CyclicSearch.foldUntil body again (streams.behindLast state ++ upToLast state) a) := by
  rw [search, CyclicSearch.run_of_lt h (Nat.lt_succ_self _) h (by omega)]
  rfl

/-- A loop that does not end early. -/
theorem search_walk {body : α → ℕ → α} (h : state.lastStreamScheduled < streams.outboundStreams)
    (a : α) : streams.search { state with ssNextStream := true } body (fun _ => true)
        (if !state.ssNextStream then 0 else state.lastStreamScheduled + 1) a =
      .ok ((streams.walk state).foldl body a) := by
  rw [← CyclicSearch.foldUntil_true, walk]
  cases state.ssNextStream with
  | true => exact search_next h a
  | false =>
    rw [if_pos (by rfl), search, CyclicSearch.run_of_le h (Nat.zero_le _) (by omega)]
    rfl

/-- The streams with data on the way of a loop. -/
def candidates (streams : OutboundStreams) (state : SchedulerState) : List ℕ :=
  (streams.walk state).filter streams.hasData

/-- The last stream is chosen again. -/
def ChoosesLast (streams : OutboundStreams) (state : SchedulerState) : StreamScheduler → Prop
  | .ROUND_ROBIN => (state.ssLastDataChunkSizeSet = false ∨ state.ssNextStream = false) ∧
      streams.hasData state.lastStreamScheduled = true
  | .PRIORITY => (state.ssLastDataChunkSizeSet = false ∧ state.ssNextStream = true) ∧
      streams.hasData state.lastStreamScheduled = true
  | .FCFS => False

instance (streams : OutboundStreams) (state : SchedulerState) :
    (scheduler : StreamScheduler) → Decidable (streams.ChoosesLast state scheduler)
  | .ROUND_ROBIN => inferInstanceAs (Decidable (_ ∧ _))
  | .PRIORITY => inferInstanceAs (Decidable (_ ∧ _))
  | .FCFS => inferInstanceAs (Decidable False)

/-- The stream that a scheduler looks for. -/
def best (streams : OutboundStreams) (state : SchedulerState) : StreamScheduler → Option ℕ
  | .ROUND_ROBIN => (streams.behindLast state ++ upToLast state).find? streams.hasData
  | .PRIORITY => (streams.candidates state).argmin streams.ssPriorityMap
  | .FCFS => (streams.candidates state).argmin streams.frontTime

def choice (streams : OutboundStreams) (state : SchedulerState) (scheduler : StreamScheduler) :
    Option ℕ :=
  if streams.ChoosesLast state scheduler then some state.lastStreamScheduled
  else streams.best state scheduler

/-- The state behind a call that only peeks. -/
def afterPeek (streams : OutboundStreams) (state : SchedulerState) (scheduler : StreamScheduler) :
    SchedulerState :=
  if scheduler = .ROUND_ROBIN ∧ ¬ streams.ChoosesLast state scheduler then state
  else { state with ssNextStream := true }

/-- What a call that does not peek adds for the stream that it has chosen. -/
def record (scheduler : StreamScheduler) (state : SchedulerState) : Option ℕ → SchedulerState
  | none => state
  | some sid =>
    { state with
      lastStreamScheduled := sid
      ssLastDataChunkSizeSet :=
        if scheduler = .FCFS then state.ssLastDataChunkSizeSet else false }

theorem foldl_filter_hasData (l : List ℕ) :
    l.foldl (fun sid testsid => if streams.hasData testsid then
      (match sid with
        | none => some testsid
        | some sid =>
          if streams.ssPriorityMap testsid < streams.ssPriorityMap sid then some testsid
          else some sid) else sid) none =
      (l.filter streams.hasData).argmin streams.ssPriorityMap := by
  rw [← foldl_eq_argmin, foldl_filter]
  congr 1
  funext sid testsid
  cases sid <;> rfl

/-- The two fronts of a stream are considered like the older one. -/
theorem considerFront_considerFront (best : Option ℕ × ℕ) (testsid : ℕ) :
    considerFront (considerFront best testsid (streams.sendStreams testsid).unorderedStreamQ)
        testsid (streams.sendStreams testsid).streamQ =
      if streams.hasData testsid then
        (if best.1 = none ∨ streams.frontTime testsid < best.2 then
          (some testsid, streams.frontTime testsid) else best)
      else best := by
  rw [hasData, OutboundStream.hasData, frontTime]
  rcases (streams.sendStreams testsid).unorderedStreamQ with _ | ⟨time, rest⟩ <;>
    rcases (streams.sendStreams testsid).streamQ with _ | ⟨time', rest'⟩
  · simp [considerFront]
  · simp [considerFront]
  · simp [considerFront]
  · obtain ⟨_ | sid, oldest⟩ := best
    · simp only [considerFront]
      simp
      grind
    · simp only [considerFront]
      simp
      grind

theorem foldl_considerFront (l : List ℕ) : (l.foldl (fun best testsid =>
      considerFront
        (considerFront best testsid (streams.sendStreams testsid).unorderedStreamQ) testsid
        (streams.sendStreams testsid).streamQ) (none, 0)).1 =
      (l.filter streams.hasData).argmin streams.frontTime := by
  rw [← foldl_eq_argmin, foldl_filter]
  -- the time that is kept is that of the stream that is kept
  suffices hfold : ∀ best : Option ℕ × ℕ,
      (∀ sid, best.1 = some sid → best.2 = streams.frontTime sid) →
        (l.foldl _ best).1 = l.foldl _ best.1 from
    hfold (none, 0) fun _ hnone => nomatch hnone
  induction l with
  | nil => exact fun _ _ => rfl
  | cons testsid l ih =>
    intro best hbest
    rw [foldl_cons, foldl_cons, considerFront_considerFront]
    refine (ih _ ?_).trans ?_
    · intro sid hsid
      grind
    · congr 1
      obtain ⟨_ | sid, oldest⟩ := best
      · simp
        grind
      · have := hbest sid rfl
        simp
        grind

theorem afterPeek_roundRobin (h : ¬ streams.ChoosesLast state .ROUND_ROBIN) :
    streams.afterPeek state .ROUND_ROBIN = state := if_pos ⟨rfl, h⟩

theorem afterPeek_of {scheduler : StreamScheduler}
    (h : ¬ (scheduler = .ROUND_ROBIN ∧ ¬ streams.ChoosesLast state scheduler)) :
    streams.afterPeek state scheduler = { state with ssNextStream := true } := if_neg h

/-- A call in terms of the streams with data. -/
theorem ssGetNextSid_eq (h : state.lastStreamScheduled < streams.outboundStreams)
    (scheduler : StreamScheduler) (peek : Bool) :
    streams.ssGetNextSid scheduler state peek = .ok (streams.choice state scheduler,
      if peek then streams.afterPeek state scheduler
      else record scheduler (streams.afterPeek state scheduler)
        (streams.choice state scheduler)) := by
  cases scheduler with
  | ROUND_ROBIN =>
    have hloop : streams.search state (fun sid testsid =>
        if streams.hasData testsid then some testsid else sid) Option.isNone
          (state.lastStreamScheduled + 1) none = .ok (streams.best state .ROUND_ROBIN) := by
      rw [search_next h, CyclicSearch.foldUntil_find]
      rfl
    rw [ssGetNextSid, streamScheduler, hloop, choice]
    have hcond : ((!state.ssLastDataChunkSizeSet || !state.ssNextStream) &&
        streams.hasData state.lastStreamScheduled) = true ↔
          streams.ChoosesLast state .ROUND_ROBIN := by
      simp [ChoosesLast]
    by_cases hlast : streams.ChoosesLast state .ROUND_ROBIN
    · rw [if_pos (hcond.mpr hlast), if_pos hlast, afterPeek_of (fun hnot => hnot.2 hlast)]
      cases peek <;> rfl
    · rw [if_neg (mt hcond.mp hlast), if_neg hlast, afterPeek_roundRobin hlast, ok_bind]
      cases streams.best state .ROUND_ROBIN <;> cases peek <;> rfl
  | PRIORITY =>
    have hcond : ((!state.ssLastDataChunkSizeSet && state.ssNextStream) &&
        streams.hasData state.lastStreamScheduled) = true ↔
          streams.ChoosesLast state .PRIORITY := by
      simp [ChoosesLast]
    rw [ssGetNextSid, streamSchedulerPriority, choice, @afterPeek_of _ _ .PRIORITY (by simp)]
    by_cases hlast : streams.ChoosesLast state .PRIORITY
    · obtain ⟨⟨hset, hnext⟩, -⟩ := id hlast
      rw [if_pos (hcond.mpr hlast), if_pos hlast]
      obtain ⟨last, next, set⟩ := state
      obtain rfl : next = true := hnext
      obtain rfl : set = false := hset
      cases peek <;> rfl
    · rw [if_neg (mt hcond.mp hlast), if_neg hlast]
      dsimp only
      rw [search_walk h, foldl_filter_hasData, ok_bind]
      change (match streams.best state .PRIORITY with
        | none => _
        | some sid => _) = _
      cases streams.best state .PRIORITY <;> cases peek <;> rfl
  | FCFS =>
    have hbest := @foldl_considerFront streams (streams.walk state)
    rw [ssGetNextSid, streamSchedulerFCFS, choice, @afterPeek_of _ _ .FCFS (by simp),
      if_neg (show ¬ streams.ChoosesLast state .FCFS from id), search_walk h, ok_bind]
    revert hbest
    generalize (streams.walk state).foldl _ (none, 0) = found
    rintro hbest
    obtain ⟨sid, oldest⟩ := found
    obtain rfl : sid = streams.best state .FCFS := hbest
    cases streams.best state .FCFS <;> cases peek <;> rfl

end

variable {streams : OutboundStreams} {state : SchedulerState} {scheduler : StreamScheduler}
  {sid : ℕ}

/-- No stream is chosen only if none has data, and otherwise one that has data: with the previous
choice used, one of the smallest priority or one with the oldest message in front. -/
def Chooses (streams : OutboundStreams) (scheduler : StreamScheduler) (state : SchedulerState) :
    Option ℕ → Prop
  | none => ∀ sid < streams.outboundStreams, streams.hasData sid = false
  | some sid =>
    sid < streams.outboundStreams ∧ streams.hasData sid = true ∧
      (state.ssLastDataChunkSizeSet = true →
        ∀ other < streams.outboundStreams, streams.hasData other = true → match scheduler with
          | .ROUND_ROBIN => True
          | .PRIORITY => streams.ssPriorityMap sid ≤ streams.ssPriorityMap other
          | .FCFS => streams.frontTime sid ≤ streams.frontTime other)

/-- A call returns a stream as it should, and one that only peeks makes no difference to the next
call. -/
structure Schedules (streams : OutboundStreams) (scheduler : StreamScheduler)
    (state : SchedulerState) : Prop where
  chooses : ∀ peek, ∃ sid state', streams.ssGetNextSid scheduler state peek = .ok (sid, state') ∧
    streams.Chooses scheduler state sid
  peeks : ∃ sid peeked next, streams.ssGetNextSid scheduler state true = .ok (sid, peeked) ∧
    streams.ssGetNextSid scheduler peeked false = .ok (sid, next) ∧
    streams.ssGetNextSid scheduler state false = .ok (sid, next)

/-- If `ssNextStream` is not set, these conditions keep the streams that the loop leaves out, and
the stream that was scheduled last, from mattering. -/
def Undisturbed (streams : OutboundStreams) (state : SchedulerState) : StreamScheduler → Prop
  | .ROUND_ROBIN =>
    state.ssNextStream = false → state.ssLastDataChunkSizeSet = true →
      streams.hasData state.lastStreamScheduled = true →
      ∀ sid < streams.outboundStreams, streams.hasData sid = true → sid = state.lastStreamScheduled
  | .PRIORITY =>
    state.ssNextStream = false → if state.ssLastDataChunkSizeSet = false ∧
          streams.hasData state.lastStreamScheduled = true then
        ∀ sid < state.lastStreamScheduled, streams.hasData sid = true →
          streams.ssPriorityMap state.lastStreamScheduled < streams.ssPriorityMap sid
      else
        ∀ sid, state.lastStreamScheduled < sid → sid < streams.outboundStreams →
          streams.hasData sid = true → ∃ other ≤ state.lastStreamScheduled,
            streams.hasData other = true ∧ streams.ssPriorityMap other < streams.ssPriorityMap sid
  | .FCFS =>
    state.ssNextStream = false →
      ∀ sid, state.lastStreamScheduled < sid → sid < streams.outboundStreams →
        streams.hasData sid = true → ∃ other ≤ state.lastStreamScheduled,
          streams.hasData other = true ∧ streams.frontTime other < streams.frontTime sid

theorem mem_upToLast : sid ∈ upToLast state ↔ sid ≤ state.lastStreamScheduled := by
  rw [upToLast, mem_range'_1]
  omega

section

variable (h : state.lastStreamScheduled < streams.outboundStreams)

include h

theorem mem_behindLast : sid ∈ streams.behindLast state ↔
      state.lastStreamScheduled < sid ∧ sid < streams.outboundStreams := by
  rw [behindLast, mem_range'_1]
  omega

/-- The ring has all streams. -/
theorem mem_ring :
    sid ∈ streams.behindLast state ++ upToLast state ↔ sid < streams.outboundStreams := by
  rw [mem_append, mem_behindLast h, mem_upToLast]
  omega

theorem mem_candidates (hnext : state.ssNextStream = true) : sid ∈ streams.candidates state ↔
      sid < streams.outboundStreams ∧ streams.hasData sid = true := by
  rw [candidates, walk, hnext, if_pos rfl, mem_filter, mem_ring h]

end

theorem upToLast_eq (state : SchedulerState) :
    upToLast state = range' 0 state.lastStreamScheduled ++ [state.lastStreamScheduled] := by
  rw [upToLast, range'_concat]
  simp

section

variable (h : state.lastStreamScheduled < streams.outboundStreams)

include h

/-- The first minimum of the streams with data is a stream to choose. -/
theorem chooses_argmin {f : ℕ → ℕ} (hnext : state.ssNextStream = true)
    (hf : ∀ sid other, f sid ≤ f other → match scheduler with
      | .ROUND_ROBIN => True
      | .PRIORITY => streams.ssPriorityMap sid ≤ streams.ssPriorityMap other
      | .FCFS => streams.frontTime sid ≤ streams.frontTime other) :
    streams.Chooses scheduler state ((streams.candidates state).argmin f) := by
  cases hmin : (streams.candidates state).argmin f with
  | none =>
    rw [argmin_eq_none] at hmin
    intro sid hsid
    by_contra hdata
    have hmem := (mem_candidates h hnext).mpr ⟨hsid, Bool.eq_true_of_not_eq_false hdata⟩
    rw [hmin] at hmem
    cases hmem
  | some sid =>
    obtain ⟨hsid, hdata⟩ := (mem_candidates h hnext).mp (argmin_mem hmin)
    refine ⟨hsid, hdata, fun _ other hother hdata' => hf sid other ?_⟩
    exact le_of_mem_argmin ((mem_candidates h hnext).mpr ⟨hother, hdata'⟩) hmin

theorem chooses_last (hlast : streams.ChoosesLast state scheduler) :
    streams.Chooses scheduler state (some state.lastStreamScheduled) := by
  cases scheduler with
  | ROUND_ROBIN => exact ⟨h, hlast.2, fun _ _ _ _ => trivial⟩
  | PRIORITY =>
    refine ⟨h, hlast.2, fun hset => ?_⟩
    cases hlast.1.1.symm.trans hset
  | FCFS => exact hlast.elim

theorem chooses_choice (hnext : scheduler = .ROUND_ROBIN ∨ state.ssNextStream = true) :
    streams.Chooses scheduler state (streams.choice state scheduler) := by
  rw [choice]
  split_ifs with hlast
  · exact chooses_last h hlast
  · cases scheduler with
    | ROUND_ROBIN =>
      rw [best]
      cases hfind : (streams.behindLast state ++ upToLast state).find? streams.hasData with
      | none =>
        intro sid hsid
        exact Bool.eq_false_iff.mpr (find?_eq_none.mp hfind sid ((mem_ring h).mpr hsid))
      | some sid =>
        exact ⟨(mem_ring h).mp (mem_of_find?_eq_some hfind), find?_some hfind,
          fun _ _ _ _ => trivial⟩
    | PRIORITY =>
      exact chooses_argmin h (hnext.resolve_left (by simp)) fun _ _ hle => hle
    | FCFS => exact chooses_argmin h (hnext.resolve_left (by simp)) fun _ _ hle => hle

end

theorem afterPeek_of_next (hnext : state.ssNextStream = true) :
    streams.afterPeek state scheduler = state := by
  obtain ⟨last, next, set⟩ := state
  obtain rfl : next = true := hnext
  rw [afterPeek]
  split_ifs <;> rfl

/-- A second peek changes nothing. -/
theorem afterPeek_afterPeek (streams : OutboundStreams) (state : SchedulerState)
    (scheduler : StreamScheduler) :
    streams.afterPeek (streams.afterPeek state scheduler) scheduler =
      streams.afterPeek state scheduler := by
  by_cases hround : scheduler = .ROUND_ROBIN ∧ ¬ streams.ChoosesLast state scheduler
  · have hsame : streams.afterPeek state scheduler = state := if_pos hround
    rw [hsame, hsame]
  · rw [afterPeek_of hround]
    exact afterPeek_of_next rfl

/-- Everything depends on whether peeking changes the choice. -/
theorem schedules_iff_choice (h : state.lastStreamScheduled < streams.outboundStreams) :
    streams.Schedules scheduler state ↔
      streams.choice (streams.afterPeek state scheduler) scheduler =
        streams.choice state scheduler := by
  have hpeeked : (streams.afterPeek state scheduler).lastStreamScheduled <
      streams.outboundStreams := by
    rw [afterPeek]
    split_ifs <;> exact h
  constructor
  · rintro ⟨-, sid, peeked, next, hpeek, hnext, -⟩
    rw [ssGetNextSid_eq h] at hpeek
    cases hpeek
    rw [if_pos rfl, ssGetNextSid_eq hpeeked] at hnext
    exact (Prod.mk.inj (Except.ok.inj hnext)).1
  · intro hsame
    have hchooses : streams.Chooses scheduler state (streams.choice state scheduler) := by
      by_cases hround : scheduler = .ROUND_ROBIN
      · exact chooses_choice h (.inl hround)
      · have hafter : streams.afterPeek state scheduler = { state with ssNextStream := true } :=
          afterPeek_of fun hnot => hround hnot.1
        rw [← hsame, hafter]
        exact @chooses_choice _ { state with ssNextStream := true } _ h (.inr rfl)
    refine ⟨fun peek => ⟨_, _, ssGetNextSid_eq h scheduler peek, hchooses⟩,
      _, _, _, ssGetNextSid_eq h scheduler true, ?_, ssGetNextSid_eq h scheduler false⟩
    rw [if_pos rfl, ssGetNextSid_eq hpeeked, afterPeek_afterPeek, hsame]

theorem choice_roundRobin_iff (h : state.lastStreamScheduled < streams.outboundStreams) :
    streams.choice (streams.afterPeek state .ROUND_ROBIN) .ROUND_ROBIN =
        streams.choice state .ROUND_ROBIN ↔ streams.Undisturbed state .ROUND_ROBIN := by
  by_cases hlast : streams.ChoosesLast state .ROUND_ROBIN
  swap
  · -- peeking leaves the state as it is
    rw [afterPeek_roundRobin hlast]
    refine iff_of_true rfl fun hnext _ hdata => absurd ⟨.inr hnext, hdata⟩ hlast
  rw [afterPeek_of fun hnot => hnot.2 hlast, choice, choice, if_pos hlast]
  obtain ⟨hflags, hdata⟩ := hlast
  by_cases hset : state.ssLastDataChunkSizeSet = false
  · refine iff_of_true (if_pos ⟨.inl hset, hdata⟩) fun _ hset' => ?_
    cases hset.symm.trans hset'
  have hnext : state.ssNextStream = false := hflags.resolve_left hset
  rw [if_neg fun hchoose => hchoose.1.elim hset (by simp)]
  -- the last stream is the last one of the ring
  have hring (sid : ℕ) : sid ∈ streams.behindLast state ++ range' 0 state.lastStreamScheduled ↔
      sid < streams.outboundStreams ∧ sid ≠ state.lastStreamScheduled := by
    rw [mem_append, mem_behindLast h, mem_range'_1]
    omega
  have hbest : streams.best { state with ssNextStream := true } .ROUND_ROBIN =
      ((streams.behindLast state ++ range' 0 state.lastStreamScheduled).find?
        streams.hasData).or (some state.lastStreamScheduled) := by
    show (streams.behindLast state ++ upToLast state).find? streams.hasData = _
    rw [upToLast_eq, ← append_assoc, find?_append, find?_cons, hdata]
  rw [hbest]
  constructor
  · intro hsame _ _ _ sid hsid hsid'
    by_contra hne
    cases hfind : (streams.behindLast state ++ range' 0 state.lastStreamScheduled).find?
        streams.hasData with
    | none => exact find?_eq_none.mp hfind sid ((hring sid).mpr ⟨hsid, hne⟩) hsid'
    | some found =>
      rw [hfind, Option.some_or, Option.some.injEq] at hsame
      exact ((hring found).mp (mem_of_find?_eq_some hfind)).2 hsame
  · intro honly
    have hnone : (streams.behindLast state ++ range' 0 state.lastStreamScheduled).find?
        streams.hasData = none := by
      refine find?_eq_none.mpr fun sid hsid hsid' => ?_
      obtain ⟨hlt, hne⟩ := (hring sid).mp hsid
      exact hne (honly hnext (Bool.eq_true_of_not_eq_false hset) hdata sid hlt hsid')
    rw [hnone, Option.none_or]

/-- Without the streams behind the last one. -/
theorem candidates_of_not_next (hnext : state.ssNextStream = false) :
    streams.candidates state = (upToLast state).filter streams.hasData := by
  rw [candidates, walk, hnext, if_neg Bool.false_ne_true]

theorem candidates_next (state : SchedulerState) :
    streams.candidates { state with ssNextStream := true } =
      (streams.behindLast state).filter streams.hasData ++
        (upToLast state).filter streams.hasData := by
  rw [candidates, walk, if_pos rfl, filter_append]
  rfl

section

variable (h : state.lastStreamScheduled < streams.outboundStreams)

include h

/-- The streams behind the last one make no difference to a first minimum. -/
theorem argmin_candidates_iff {f : ℕ → ℕ} (hnext : state.ssNextStream = false) :
    (streams.candidates { state with ssNextStream := true }).argmin f =
        (streams.candidates state).argmin f ↔
      ∀ sid, state.lastStreamScheduled < sid → sid < streams.outboundStreams →
        streams.hasData sid = true → ∃ other ≤ state.lastStreamScheduled,
          streams.hasData other = true ∧ f other < f sid := by
  rw [candidates_next, candidates_of_not_next hnext, argmin_append_eq_right_iff]
  · simp only [mem_filter, mem_behindLast h, mem_upToLast, and_imp, and_assoc]
  · intro sid hsid hsid'
    have hbehind := (mem_behindLast h).mp (mem_of_mem_filter hsid)
    have hle := mem_upToLast.mp (mem_of_mem_filter hsid')
    omega

theorem choice_priority_iff : streams.choice (streams.afterPeek state .PRIORITY) .PRIORITY =
        streams.choice state .PRIORITY ↔ streams.Undisturbed state .PRIORITY := by
  by_cases hnext : state.ssNextStream = true
  · rw [afterPeek_of_next hnext]
    refine iff_of_true rfl fun hnext' => ?_
    cases hnext.symm.trans hnext'
  rw [Bool.not_eq_true] at hnext
  rw [@afterPeek_of _ _ .PRIORITY (by simp), Undisturbed, imp_iff_right hnext, choice, choice,
    @if_neg (streams.ChoosesLast state .PRIORITY) _ (fun hlast => by
      cases hnext.symm.trans hlast.1.2)]
  by_cases hlast : state.ssLastDataChunkSizeSet = false ∧
      streams.hasData state.lastStreamScheduled = true
  · -- the second call chooses the last stream again
    have hagain : streams.ChoosesLast { state with ssNextStream := true } .PRIORITY :=
      ⟨⟨hlast.1, rfl⟩, hlast.2⟩
    rw [if_pos hlast, if_pos hagain, best, candidates_of_not_next hnext, upToLast_eq,
      filter_append, filter_cons_of_pos hlast.2, filter_nil, eq_comm,
      argmin_concat_eq_some_iff]
    · simp [mem_filter]
    · simp [mem_filter]
  · rw [if_neg hlast, if_neg (fun hchoose => hlast ⟨hchoose.1.1, hchoose.2⟩)]
    exact argmin_candidates_iff h hnext

theorem choice_fcfs_iff :
    streams.choice (streams.afterPeek state .FCFS) .FCFS = streams.choice state .FCFS ↔
      streams.Undisturbed state .FCFS := by
  by_cases hnext : state.ssNextStream = true
  · rw [afterPeek_of_next hnext]
    refine iff_of_true rfl fun hnext' => ?_
    cases hnext.symm.trans hnext'
  rw [Bool.not_eq_true] at hnext
  rw [@afterPeek_of _ _ .FCFS (by simp), Undisturbed, imp_iff_right hnext]
  exact argmin_candidates_iff h hnext

end

/-- A scheduler chooses as it should, and peeks without a trace, if and only if it is
undisturbed. -/
theorem schedules_iff (h : state.lastStreamScheduled < streams.outboundStreams)
    (scheduler : StreamScheduler) :
    streams.Schedules scheduler state ↔ streams.Undisturbed state scheduler := by
  rw [schedules_iff_choice h]
  cases scheduler with
  | ROUND_ROBIN => exact choice_roundRobin_iff h
  | PRIORITY => exact choice_priority_iff h
  | FCFS => exact choice_fcfs_iff h

/-- Two streams, the second one with a message. -/
def secondOnly : OutboundStreams where
  outboundStreams := 2
  sendStreams sid := if sid = 1 then { streamQ := [7] } else {}

theorem schedules_secondOnly : secondOnly.Schedules .PRIORITY {} :=
  (schedules_iff (by decide) _).mpr fun hnext => nomatch hnext

/-- From stream 0 the walk ends at once, without the stream that has data. -/
theorem not_schedules_secondOnly :
    ¬ secondOnly.Schedules .PRIORITY { ssNextStream := false, ssLastDataChunkSizeSet := true } := by
  rintro ⟨hchooses, -⟩
  obtain ⟨sid, state', hok, hsid⟩ := hchooses false
  obtain ⟨rfl, -⟩ := Prod.mk.inj (Except.ok.inj hok)
  exact absurd (hsid 1 (by decide)) (by decide)

end OutboundStreams

end Inet.Sctp
